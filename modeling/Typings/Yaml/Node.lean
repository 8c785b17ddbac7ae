import Typings.Yaml.Lexer
import Typings.Yaml.Tag

/-! # Nodes

The tree that the tokens of a document spell. A node has a tag, given or found by the rules for
plain texts, and may have an anchor, by which later nodes refer to it.
-/

namespace Typings.Yaml

inductive Node where
  | scalar (anchor : Option String) (tag : Tag) (text : String)
  | sequence (anchor : Option String) (tag : Tag) (items : List Node)
  | mapping (anchor : Option String) (tag : Tag) (pairs : List (Node × Node))
  | alias (name : String)
  deriving Repr

namespace Node

/-- An empty plain text, which stands where a node is left out. -/
def empty : Node := .scalar none .null ""

/-! ## Reading tokens -/

/-- What is known while a document is read: the tokens to come and the fault behind them, the anchors
met, and what tag handles stand for. -/
structure State where
  tokens : List Token
  fault : Option Fault := none
  anchors : List String := []
  handles : List (String × String) := []

abbrev Parsing := StateT State (Except Fault)

def fail {α : Type} : Parsing α := throw .malformed

/-- The next token; nothing at the end of the text. -/
def peek : Parsing (Option Token) := do
  let s ← get
  match s.tokens, s.fault with
  | [], some f => throw f
  | ts, _ => return ts.head?

def next : Parsing Unit := modify fun s => { s with tokens := s.tokens.drop 1 }

def expect (t : Token) : Parsing Unit := do
  if (← peek) ≠ some t then fail
  next

/-- The properties before a node: an anchor and a tag, in either order. -/
structure Properties where
  anchor : Option String := none
  tag : Option (Option String × String) := none

def properties : Parsing Properties := do
  match ← peek with
  | some (.anchor a) =>
    next
    match ← peek with
    | some (.tag h s) => next; return ⟨some a, some (h, s)⟩
    | _ => return ⟨some a, none⟩
  | some (.tag h s) =>
    next
    match ← peek with
    | some (.anchor a) => next; return ⟨some a, some (h, s)⟩
    | _ => return ⟨none, some (h, s)⟩
  | _ => return {}

def tagAddress : Option (Option String × String) → Parsing (Option String)
  | none => return none
  | some (none, suffix) => return some suffix
  | some (some handle, suffix) => do
    match (← get).handles.lookup handle with
    | some start => return some (start ++ suffix)
    | none => fail

/-- Takes note of an anchor, which must be new. -/
def register : Option String → Parsing Unit
  | none => return
  | some a => do
    if (← get).anchors.contains a then fail
    modify fun s => { s with anchors := a :: s.anchors }

/-- The tag of a text: the given one, or what a plain text is taken for. -/
def textTag (address : Option String) (plain : Bool) (text : String) : Tag :=
  match address with
  | none => if plain then Tag.ofPlain text else .text
  | some "!" => Tag.ofPlain text
  | some a => Tag.ofAddress a

def collectionTag (address : Option String) (usual : Tag) : Tag :=
  match address with
  | none => usual
  | some "!" => usual
  | some a => Tag.ofAddress a

/-- Where a node stands, which decides what may be there. -/
inductive Context where
  | flow
  | block
  /-- In a block mapping, where the entries of a sequence need not be indented. -/
  | blockMapping
  deriving DecidableEq

/-- A node of properties alone: an empty text. -/
def bare (p : Properties) (address : Option String) : Parsing Node := do
  if p.anchor.isNone && p.tag.isNone then fail
  register p.anchor
  return .scalar p.anchor (textTag address true "") ""

mutual

def node : Nat → Context → Parsing Node
  | 0, _ => fail
  | fuel + 1, context => do
    match ← peek with
    | some (.alias name) =>
      next
      unless (← get).anchors.contains name do fail
      return .alias name
    | _ =>
      let p ← properties
      let address ← tagAddress p.tag
      match ← peek with
      | some (.scalar text plain) =>
        next
        register p.anchor
        return .scalar p.anchor (textTag address plain text) text
      | some .blockEntry =>
        if context ≠ .blockMapping then bare p address
        else
          register p.anchor
          return .sequence p.anchor (collectionTag address .sequence) (← looseItems fuel)
      | some .flowSequence =>
        next
        register p.anchor
        return .sequence p.anchor (collectionTag address .sequence) (← flowItems fuel true)
      | some .flowMapping =>
        next
        register p.anchor
        return .mapping p.anchor (collectionTag address .mapping) (← flowPairs fuel true)
      | some .blockSequence =>
        if context = .flow then bare p address
        else
          next
          register p.anchor
          return .sequence p.anchor (collectionTag address .sequence) (← blockItems fuel)
      | some .blockMapping =>
        if context = .flow then bare p address
        else
          next
          register p.anchor
          return .mapping p.anchor (collectionTag address .mapping) (← blockPairs fuel)
      | _ => bare p address

def nodeUnless (ends : List Token) : Nat → Context → Parsing Node
  | 0, _ => fail
  | fuel + 1, context => do
    if (← peek).any ends.contains then return empty
    node fuel context

def blockItems : Nat → Parsing (List Node)
  | 0 => fail
  | fuel + 1 => do
    match ← peek with
    | some .blockEntry =>
      next
      let item ← nodeUnless [.blockEntry, .blockEnd] fuel .block
      return item :: (← blockItems fuel)
    | some .blockEnd => next; return []
    | _ => fail

/-- The entries of a sequence that is not indented: they end with the first other token. -/
def looseItems : Nat → Parsing (List Node)
  | 0 => fail
  | fuel + 1 => do
    match ← peek with
    | some .blockEntry =>
      next
      let item ← nodeUnless [.blockEntry, .key, .value, .blockEnd] fuel .block
      return item :: (← looseItems fuel)
    | _ => return []

/-- The pairs of a block mapping, up to its end. Either half of a pair may be left out. -/
def blockPairs : Nat → Parsing (List (Node × Node))
  | 0 => fail
  | fuel + 1 => do
    match ← peek with
    | some .key =>
      next
      let k ← nodeUnless [.key, .value, .blockEnd] fuel .blockMapping
      let v ← blockValue fuel
      return (k, v) :: (← blockPairs fuel)
    | some .blockEnd => next; return []
    | _ => fail

def blockValue : Nat → Parsing Node
  | 0 => fail
  | fuel + 1 => do
    if (← peek) = some .value then
      next
      nodeUnless [.key, .value, .blockEnd] fuel .blockMapping
    else return empty

/-- The items of a flow sequence, up to its end. An item may be a single pair. -/
def flowItems : Nat → Bool → Parsing (List Node)
  | 0, _ => fail
  | fuel + 1, first => do
    if (← peek) = some .flowSequenceEnd then
      next
      return []
    unless first do expect .flowEntry
    match ← peek with
    | some .key =>
      next
      let k ← nodeUnless [.value, .flowEntry, .flowSequenceEnd] fuel .flow
      let v ← flowValue [.flowEntry, .flowSequenceEnd] fuel
      return .mapping none .mapping [(k, v)] :: (← flowItems fuel false)
    | some .flowSequenceEnd => next; return []
    | _ =>
      let item ← node fuel .flow
      return item :: (← flowItems fuel false)

def flowPairs : Nat → Bool → Parsing (List (Node × Node))
  | 0, _ => fail
  | fuel + 1, first => do
    if (← peek) = some .flowMappingEnd then
      next
      return []
    unless first do expect .flowEntry
    match ← peek with
    | some .key =>
      next
      let k ← nodeUnless [.value, .flowEntry, .flowMappingEnd] fuel .flow
      let v ← flowValue [.flowEntry, .flowMappingEnd] fuel
      return (k, v) :: (← flowPairs fuel false)
    | some .flowMappingEnd => next; return []
    | _ =>
      let k ← node fuel .flow
      return (k, empty) :: (← flowPairs fuel false)

def flowValue (ends : List Token) : Nat → Parsing Node
  | 0 => fail
  | fuel + 1 => do
    if (← peek) = some .value then
      next
      nodeUnless ends fuel .flow
    else return empty

end

/-! ## Documents -/

def usualHandles : List (String × String) := [("!", "!"), ("!!", Tag.standard)]

/-- The directives before a document: at most one version, which must be 1, and each tag handle
once. -/
def directives : Nat → Bool → List (String × String) → Parsing (List (String × String))
  | 0, _, _ => fail
  | fuel + 1, versioned, handles => do
    match ← peek with
    | some (.directive (.version major)) =>
      next
      if versioned || major ≠ 1 then fail
      directives fuel true handles
    | some (.directive (.tagPrefix handle start)) =>
      next
      if (handles.lookup handle).isSome then fail
      directives fuel versioned ((handle, start) :: handles)
    | some (.directive .unknown) => next; directives fuel versioned handles
    | _ => return handles

def skipEnds : List Token → List Token
  | .documentEnd :: rest => skipEnds rest
  | rest => rest

/-- Whether a token opens a document or comes after all. -/
def startsExplicitly : Option Token → Bool
  | none => true
  | some .documentStart => true
  | some (.directive _) => true
  | _ => false

/-- What follows the mark that starts a document: its node, or nothing. -/
def content (fuel : Nat) : Parsing Node := do
  match ← peek with
  | none => return empty
  | some .documentStart => return empty
  | some .documentEnd => return empty
  | some (.directive _) => return empty
  | _ => node fuel .block

/-- The only document of a text; nothing if there is none. -/
def document : Parsing (Option Node) := do
  let fuel := 4 * (← get).tokens.length + 8
  let root ←
    if startsExplicitly (← peek) then do
      if (← peek).isNone then return none
      let handles ← directives fuel false []
      expect .documentStart
      modify fun s => { s with handles := handles ++ usualHandles }
      content fuel
    else do
      modify fun s => { s with handles := usualHandles }
      node fuel .block
  modify fun s => { s with tokens := skipEnds s.tokens }
  if (← peek).isSome then fail
  return some root

def ofText [LoneSurrogates] (cs : List Char) : Except Fault (Option Node) := do
  let scan := Scan.ofText cs
  let (root, _) ← document.run { tokens := scan.tokens, fault := scan.fault }
  return root

end Node

end Typings.Yaml
