import Typings.Yaml.Node
import Typings.Yaml.Value

/-! # Documents

The value of a whole document. Its collections are filled level by level, the outermost first, so
that of several values that cannot be made the one met first on that way is reported.
-/

namespace Typings.Yaml

/-- The pairs of a mapping by their values: equal keys are one, which keeps its first place and
takes the last value. -/
abbrev Pairs := List (Value × Value)

def Pairs.put (key value : Value) : Pairs → Pairs
  | [] => [(key, value)]
  | (k, v) :: rest => if k.sameKey key then (k, value) :: rest else (k, v) :: put key value rest

inductive Document where
  | nothing
  | mapping (pairs : Pairs)
  | other
  deriving Repr

/-! ## References -/

namespace Node

mutual

def anchored : Node → List (String × Node)
  | .scalar (some a) tag text => [(a, .scalar (some a) tag text)]
  | .scalar none _ _ => []
  | .sequence anchor tag items =>
    (anchor.map fun a => (a, Node.sequence anchor tag items)).toList ++ anchoredItems items
  | .mapping anchor tag pairs =>
    (anchor.map fun a => (a, Node.mapping anchor tag pairs)).toList ++ anchoredPairs pairs
  | .alias _ => []

def anchoredItems : List Node → List (String × Node)
  | [] => []
  | n :: rest => anchored n ++ anchoredItems rest

def anchoredPairs : List (Node × Node) → List (String × Node)
  | [] => []
  | (k, v) :: rest => anchored k ++ (anchored v ++ anchoredPairs rest)

end

mutual

def count : Node → Nat
  | .sequence _ _ items => 1 + countItems items
  | .mapping _ _ pairs => 1 + countPairs pairs
  | _ => 1

def countItems : List Node → Nat
  | [] => 0
  | n :: rest => count n + countItems rest

def countPairs : List (Node × Node) → Nat
  | [] => 0
  | (k, v) :: rest => count k + count v + countPairs rest

end

def resolve (anchors : List (String × Node)) : Node → Node
  | .alias name => (anchors.lookup name).getD empty
  | n => n

def anchor? : Node → Option String
  | .scalar a _ _ => a
  | .sequence a _ _ => a
  | .mapping a _ _ => a
  | .alias _ => none

def isMark (tag : Tag) : Node → Bool
  | .scalar _ t _ => t == tag
  | _ => false

/-! ## Merging -/

/-- A mark that stands as a key is a text. -/
def asKey : Node → Node
  | .scalar a .value text => .scalar a .text text
  | n => n

/-- The own pairs of a mapping, without the marks to merge others. -/
def ownPairs (anchors : List (String × Node)) (pairs : List (Node × Node)) : List (Node × Node) :=
  (pairs.filter fun p => !(p.1.resolve anchors).isMark .merge).map fun p =>
    ((p.1.resolve anchors).asKey, p.2)

/-- Makes one list of the pairs of each mapping in a list, the last mapping first. -/
def mergeAll (flatten : Node → Except Fault (List (Node × Node))) (items : List Node) :
    Except Fault (List (Node × Node)) := do
  let parts ← items.mapM flatten
  return parts.reverse.flatten

/-- The pairs of a mapping with those merged into it before its own. A mapping that is being merged
already counts with its own pairs alone. -/
def mergedPairs (anchors : List (String × Node)) : Nat → List String → Node → Except Fault (List (Node × Node))
  | 0, _, _ => .ok []
  | fuel + 1, inside, n =>
    match n.resolve anchors with
    | .mapping anchor _ pairs => do
      let own := ownPairs anchors pairs
      if anchor.any inside.contains then return own
      let inside := anchor.toList ++ inside
      let marked := pairs.filter fun p => (p.1.resolve anchors).isMark .merge
      let merged ← marked.mapM fun p =>
        match p.2.resolve anchors with
        | .mapping .. => mergedPairs anchors fuel inside p.2
        | .sequence _ _ items => mergeAll (mergedPairs anchors fuel inside) items
        | _ => .error .malformed
      return merged.flatten ++ own
    | _ => .error .malformed

end Node

/-! ## Filling collections -/

namespace Filling

structure State where
  /-- The collections that are still to be filled, the latest first. -/
  waiting : List Node := []
  /-- The anchors of the collections that were met. -/
  met : List String := []

abbrev Fill := StateT State (Except Fault)

/-- Notes that a collection is to be filled, once. -/
def await (n : Node) : Fill Unit := do
  let s ← get
  match n.anchor? with
  | some a =>
    if !s.met.contains a then set { s with waiting := n :: s.waiting, met := a :: s.met }
  | none => set { s with waiting := n :: s.waiting }

/-- The text of a node: its own, or that of a mapping's default value. -/
def scalarText (anchors : List (String × Node)) : Nat → Node → Except Fault String
  | 0, _ => .error .malformed
  | fuel + 1, n =>
    match n.resolve anchors with
    | .scalar _ _ text => .ok text
    | .mapping _ _ pairs =>
      match pairs.find? fun p => (p.1.resolve anchors).isMark .value with
      | some p => scalarText anchors fuel p.2
      | none => .error .malformed
    | _ => .error .malformed

def tagOf : Node → Tag
  | .scalar _ t _ => t
  | .sequence _ t _ => t
  | .mapping _ t _ => t
  | .alias _ => .unknown

/-- The value of a node; the pairs and items of collections wait. -/
def value (anchors : List (String × Node)) (fuel : Nat) (n : Node) : Fill Value := do
  let n := n.resolve anchors
  match tagOf n with
  | .mapping => await n; return .mapping
  | .sequence | .set | .orderedPairs | .pairs => await n; return .collection
  | .unknown | .merge | .value => throw .malformed
  | tag =>
    let text ← (scalarText anchors fuel n : Except Fault String)
    (Value.ofText tag text : Except Fault Value)

def pairValues (anchors : List (String × Node)) (fuel : Nat) :
    List (Node × Node) → Pairs → Fill Pairs
  | [], done => return done
  | (k, v) :: rest, done => do
    let key ← value anchors fuel k
    unless key.isKey do throw .malformed
    let v ← value anchors fuel v
    pairValues anchors fuel rest (Pairs.put key v done)

def itemValues (anchors : List (String × Node)) (fuel : Nat) : List Node → Fill Unit
  | [] => return
  | n :: rest => do
    discard (value anchors fuel n)
    itemValues anchors fuel rest

/-- The values in a list of mappings with one pair each. -/
def singlePairs (anchors : List (String × Node)) (fuel : Nat) : List Node → Fill Unit
  | [] => return
  | n :: rest => do
    match n.resolve anchors with
    | .mapping _ _ [(k, v)] =>
      discard (value anchors fuel k)
      discard (value anchors fuel v)
    | _ => throw .malformed
    singlePairs anchors fuel rest

def fill (anchors : List (String × Node)) (fuel : Nat) (n : Node) : Fill Pairs := do
  match tagOf n, n with
  | .mapping, .mapping .. | .set, .mapping .. =>
    pairValues anchors fuel (← (n.mergedPairs anchors fuel [] : Except Fault (List (Node × Node)))) []
  | .sequence, .sequence _ _ items =>
    itemValues anchors fuel items
    return []
  | .orderedPairs, .sequence _ _ items | .pairs, .sequence _ _ items =>
    singlePairs anchors fuel items
    return []
  | _, _ => throw .malformed

def fillLevel (anchors : List (String × Node)) (fuel : Nat) : List Node → Fill Unit
  | [] => return
  | n :: rest => do
    discard (fill anchors fuel n)
    fillLevel anchors fuel rest

/-- Fills level after level, until nothing waits. -/
def fillAll (anchors : List (String × Node)) (fuel : Nat) : Nat → Fill Unit
  | 0 => return
  | levels + 1 => do
    let s ← get
    if s.waiting.isEmpty then return
    set { s with waiting := [] }
    fillLevel anchors fuel s.waiting.reverse
    fillAll anchors fuel levels

end Filling

namespace Document

open Filling

def ofRoot (root : Node) : Except Fault Document := do
  let anchors := root.anchored
  let fuel := root.count + 1
  let fillRoot : Fill Document := do
    match ← Filling.value anchors fuel root with
    | .null => return .nothing
    | .mapping =>
      modify fun s => { s with waiting := [] }
      return .mapping (← fill anchors fuel root)
    | _ => return .other
  let (document, _) ← (fillRoot <* fillAll anchors fuel fuel).run {}
  return document

def ofText [LoneSurrogates] (s : String) : Except Fault Document := do
  match ← Node.ofText s.toList with
  | none => return .nothing
  | some root => ofRoot root

end Document

end Typings.Yaml
