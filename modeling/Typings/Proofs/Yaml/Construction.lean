import Mathlib
import Typings.Proofs.Yaml.Parsing
import Typings.Yaml.Document

/-! # What construction can fail with

The values of a tree are made node by node. Making them crashes only at a node of the tree whose
text has no value under the node's tag.
-/

set_option mvcgen.warning false

namespace Typings.Yaml

open Std.Do

namespace Node

/-- A node and the nodes in it. -/
inductive Within (root : Node) : Node → Prop where
  | root : Within root root
  | item {anchor : Option String} {tag : Tag} {items : List Node} {n : Node} :
      Within root (.sequence anchor tag items) → n ∈ items → Within root n
  | key {anchor : Option String} {tag : Tag} {pairs : List (Node × Node)} {p : Node × Node} :
      Within root (.mapping anchor tag pairs) → p ∈ pairs → Within root p.1
  | value {anchor : Option String} {tag : Tag} {pairs : List (Node × Node)} {p : Node × Node} :
      Within root (.mapping anchor tag pairs) → p ∈ pairs → Within root p.2

variable {root : Node}

mutual

theorem within_anchored (n : Node) (h : Within root n) : ∀ a ∈ n.anchored, Within root a.2 := by
  match n with
  | .scalar (some _) _ _ => simpa [anchored] using h
  | .scalar none _ _ => simp [anchored]
  | .sequence anchor tag items =>
    intro a ha
    rw [anchored, List.mem_append] at ha
    obtain ha | ha := ha
    · cases anchor <;> simp_all
    · exact within_anchoredItems items (fun _ hn => .item h hn) a ha
  | .mapping anchor tag pairs =>
    intro a ha
    rw [anchored, List.mem_append] at ha
    obtain ha | ha := ha
    · cases anchor <;> simp_all
    · exact within_anchoredPairs pairs (fun _ hp => ⟨.key h hp, .value h hp⟩) a ha
  | .alias _ => simp [anchored]

theorem within_anchoredItems (items : List Node) (h : ∀ n ∈ items, Within root n) :
    ∀ a ∈ anchoredItems items, Within root a.2 := by
  match items with
  | [] => simp [anchoredItems]
  | n :: rest =>
    rw [List.forall_mem_cons] at h
    rw [anchoredItems, List.forall_mem_append]
    exact ⟨within_anchored n h.1, within_anchoredItems rest h.2⟩

theorem within_anchoredPairs (pairs : List (Node × Node))
    (h : ∀ p ∈ pairs, Within root p.1 ∧ Within root p.2) : ∀ a ∈ anchoredPairs pairs, Within root a.2 := by
  match pairs with
  | [] => simp [anchoredPairs]
  | (k, v) :: rest =>
    rw [List.forall_mem_cons] at h
    rw [anchoredPairs, List.forall_mem_append, List.forall_mem_append]
    exact ⟨within_anchored k h.1.1, within_anchored v h.1.2, within_anchoredPairs rest h.2⟩

end

/-- What construction meets: the nodes of the tree, and texts that stand for a node left out or for
a mark used as a key. -/
inductive Met (root : Node) : Node → Prop where
  | within {n : Node} : Within root n → Met root n
  | empty : Met root .empty
  | text (anchor : Option String) (text : String) : Met root (.scalar anchor .text text)

theorem Met.resolve {n : Node} (h : Met root n) : Met root (n.resolve root.anchored) := by
  unfold Node.resolve
  split
  · next name =>
    cases hname : root.anchored.lookup name with
    | none => exact .empty
    | some n =>
      obtain ⟨before, after, hanchored, -⟩ := List.lookup_eq_some_iff.mp hname
      exact .within (within_anchored root .root (name, n) (by simp [hanchored]))
  · exact h

theorem Met.asKey {n : Node} (h : Met root n) : Met root n.asKey := by
  unfold Node.asKey
  split
  · exact .text _ _
  · exact h

theorem Met.of_mem_items {anchor : Option String} {tag : Tag} {items : List Node} {n : Node}
    (h : Met root (.sequence anchor tag items)) (hn : n ∈ items) : Met root n := by
  cases h with
  | within h => exact .within (.item h hn)

theorem Met.of_mem_pairs {anchor : Option String} {tag : Tag} {pairs : List (Node × Node)} {p : Node × Node}
    (h : Met root (.mapping anchor tag pairs)) (hp : p ∈ pairs) : Met root p.1 ∧ Met root p.2 := by
  cases h with
  | within h => exact ⟨.within (.key h hp), .within (.value h hp)⟩

end Node

namespace Filling

/-- Whether the text of a node has no value under the node's tag. -/
def HasNoValue (anchors : List (String × Node)) (fuel : Nat) (n : Node) (c : Crash) : Prop :=
  ∃ text, scalarText anchors fuel n = .ok text ∧ Value.ofText (tagOf n) text = .error (.crashed c)

end Filling

/-- What a fault of construction may be. -/
def Fault.OfConstruction (root : Node) (fuel : Nat) : Fault → Prop
  | .malformed => True
  | .crashed c => ∃ n, Node.Within root n ∧ Filling.HasNoValue root.anchored fuel n c

namespace Filling

variable {root : Node} {fuel : Nat}

abbrev Fills {α : Type} (root : Node) (fuel : Nat) (m : Fill α) : Prop :=
  Keeps (fun s => ∀ n ∈ s.waiting, Node.Met root n) (Fault.OfConstruction root fuel) m

theorem except_spec {α : Type} (m : Except Fault α) :
    ⦃⌜True⌝⦄ m ⦃post⟨fun a => ⌜m = .ok a⌝, fun f => ⌜m = .error f⌝⟩⦄ := by
  intro _
  cases m <;> rfl

theorem scalarText_eq_error {anchors : List (String × Node)} {n : Node} {f : Fault}
    (h : scalarText anchors fuel n = .error f) : f = .malformed := by
  fun_induction scalarText anchors fuel n <;> simp_all

@[spec] theorem scalarText_spec (anchors : List (String × Node)) (n : Node) :
    ⦃⌜True⌝⦄ scalarText anchors fuel n
    ⦃post⟨fun text => ⌜scalarText anchors fuel n = .ok text⌝, fun f => ⌜f = .malformed⌝⟩⦄ := by
  intro _
  cases htext : scalarText anchors fuel n with
  | ok text => rfl
  | error f => exact scalarText_eq_error htext

@[spec] theorem ofText_spec (tag : Tag) (text : String) :
    ⦃⌜True⌝⦄ Value.ofText tag text
    ⦃post⟨fun v => ⌜Value.ofText tag text = .ok v⌝, fun f => ⌜Value.ofText tag text = .error f⌝⟩⦄ :=
  except_spec _

theorem ofConstruction_of_eq_malformed {f : Fault} (h : f = .malformed) : f.OfConstruction root fuel := by
  subst h
  trivial

theorem ofConstruction_of_ofText {n : Node} {text : String} {f : Fault} (h : Node.Met root n)
    (htext : scalarText root.anchored fuel n = .ok text) (hvalue : Value.ofText (tagOf n) text = .error f) :
    f.OfConstruction root fuel := by
  cases f with
  | malformed => trivial
  | crashed c =>
    cases h with
    | within h => exact ⟨n, h, text, htext, hvalue⟩
    | empty => cases hvalue
    | text => cases hvalue

theorem fills_await {n : Node} (h : Node.Met root n) : Fills root fuel (await n) := by
  mvcgen [await] with exact List.forall_mem_cons.mpr ⟨h, ‹_›⟩

theorem fills_value (fuel : Nat) {n : Node} (h : Node.Met root n) :
    Fills root fuel (value root.anchored fuel n) := by
  have hn := h.resolve
  mvcgen [value, fills_await, -Spec.throw_MonadExcept]
  case vc15 htag _ _ _ htext _ =>
    subst htag
    exact ofConstruction_of_ofText hn htext
  case vc16 => exact ofConstruction_of_eq_malformed

/-! ## Merging -/

def MetPairs (root : Node) (pairs : List (Node × Node)) : Prop :=
  ∀ p ∈ pairs, Node.Met root p.1 ∧ Node.Met root p.2

/-- A merge of mappings that were met. -/
abbrev Merges (root : Node) (m : Except Fault (List (Node × Node))) : Prop :=
  ⦃⌜True⌝⦄ m ⦃post⟨fun pairs => ⌜MetPairs root pairs⌝, fun f => ⌜f = .malformed⌝⟩⦄

theorem MetPairs.flatten {parts : List (List (Node × Node))} (h : ∀ pairs ∈ parts, MetPairs root pairs) :
    MetPairs root parts.flatten := by
  intro p hp
  obtain ⟨pairs, hpairs, hp⟩ := List.mem_flatten.mp hp
  exact h pairs hpairs p hp

theorem metPairs_ownPairs {pairs : List (Node × Node)} (h : MetPairs root pairs) :
    MetPairs root (Node.ownPairs root.anchored pairs) := by
  intro p hp
  obtain ⟨own, hown, rfl⟩ := List.mem_map.mp hp
  obtain ⟨hkey, hvalue⟩ := h own (List.mem_of_mem_filter hown)
  exact ⟨hkey.resolve.asKey, hvalue⟩

theorem mapM_spec {α : Type} {merge : α → Except Fault (List (Node × Node))} {xs : List α}
    (h : ∀ x ∈ xs, Merges root (merge x)) :
    ⦃⌜True⌝⦄ xs.mapM merge
    ⦃post⟨fun parts => ⌜∀ pairs ∈ parts, MetPairs root pairs⌝, fun f => ⌜f = .malformed⌝⟩⦄ := by
  induction xs with
  | nil =>
    rw [List.mapM_nil]
    mvcgen
    exact List.forall_mem_nil _
  | cons x xs ih =>
    obtain ⟨hx, hxs⟩ := List.forall_mem_cons.mp h
    have hxs := ih hxs
    rw [List.mapM_cons]
    mvcgen [hx, hxs] with exact List.forall_mem_cons.mpr ⟨‹_›, ‹_›⟩

theorem merges_mergeAll {merge : Node → Except Fault (List (Node × Node))} {items : List Node}
    (h : ∀ n ∈ items, Merges root (merge n)) : Merges root (Node.mergeAll merge items) := by
  have hparts := mapM_spec h
  mvcgen [Node.mergeAll, hparts] with
    exact MetPairs.flatten fun pairs hpairs => ‹∀ pairs ∈ _, _› pairs (List.mem_reverse.mp hpairs)

theorem merges_mergedPairs (fuel : Nat) (inside : List String) {n : Node} (h : Node.Met root n) :
    Merges root (n.mergedPairs root.anchored fuel inside) := by
  induction fuel generalizing inside n with
  | zero =>
    mvcgen [Node.mergedPairs]
    exact List.forall_mem_nil _
  | succ fuel ih =>
    have hn := h.resolve
    rw [Node.mergedPairs]
    split
    · next anchor tag pairs hpairs =>
      rw [hpairs] at hn
      have hmet : MetPairs root pairs := fun _ hp => hn.of_mem_pairs hp
      have hown := metPairs_ownPairs hmet
      have hparts {merge : Node × Node → Except Fault (List (Node × Node))} {marked : List (Node × Node)}
          (h : ∀ p ∈ marked, Merges root (merge p)) := mapM_spec h
      mvcgen [hparts]
      case vc2 p hp =>
        have hvalue := (hmet p (List.mem_of_mem_filter hp)).2
        have hresolved := hvalue.resolve
        split
        · exact ih _ hvalue trivial
        · next hitems =>
          rw [hitems] at hresolved
          exact merges_mergeAll (fun _ hn => ih _ (hresolved.of_mem_items hn)) trivial
        · rfl
      case vc3 => exact List.forall_mem_append.mpr ⟨MetPairs.flatten ‹_›, hown⟩
    · mvcgen

/-! ## Filling -/

theorem fills_pairValues (pairs : List (Node × Node)) (done : Pairs) (h : MetPairs root pairs) :
    Fills root fuel (pairValues root.anchored fuel pairs done) := by
  induction pairs generalizing done with
  | nil => mvcgen [pairValues]
  | cons p rest ih =>
    obtain ⟨⟨hkey, hvalue⟩, hrest⟩ := List.forall_mem_cons.mp h
    have hrest (done : Pairs) := ih done hrest
    mvcgen [pairValues, fills_value, hrest, -Spec.throw_MonadExcept]

theorem fills_itemValues (items : List Node) (h : ∀ n ∈ items, Node.Met root n) :
    Fills root fuel (itemValues root.anchored fuel items) := by
  induction items with
  | nil => mvcgen [itemValues]
  | cons n rest ih =>
    obtain ⟨hn, hrest⟩ := List.forall_mem_cons.mp h
    have hrest := ih hrest
    mvcgen [itemValues, fills_value, hrest]

theorem fills_singlePairs (items : List Node) (h : ∀ n ∈ items, Node.Met root n) :
    Fills root fuel (singlePairs root.anchored fuel items) := by
  induction items with
  | nil => mvcgen [singlePairs]
  | cons n rest ih =>
    obtain ⟨hn, hrest⟩ := List.forall_mem_cons.mp h
    have hrest := ih hrest
    have hpair {anchor : Option String} {tag : Tag} {k v : Node}
        (hmapping : n.resolve root.anchored = .mapping anchor tag [(k, v)]) :=
      (hmapping ▸ hn.resolve).of_mem_pairs (List.mem_singleton_self (k, v))
    mvcgen [singlePairs, fills_value, hrest, -Spec.throw_MonadExcept]
    case vc1 => exact (hpair ‹_›).1
    case vc3 => exact (hpair ‹_›).2

theorem fills_fill (fuel : Nat) {n : Node} (h : Node.Met root n) :
    Fills root fuel (fill root.anchored fuel n) := by
  have hmerges := merges_mergedPairs fuel [] h
  unfold fill
  split
  case h_1 | h_2 =>
    mvcgen [fills_pairValues, hmerges]
    case vc2 => exact id
    case vc3 => exact ofConstruction_of_eq_malformed
  case h_3 | h_4 | h_5 =>
    mvcgen [fills_itemValues, fills_singlePairs]
    exact fun _ hn => h.of_mem_items hn
  case h_6 => mvcgen [-Spec.throw_MonadExcept]

theorem fills_fillLevel (nodes : List Node) (h : ∀ n ∈ nodes, Node.Met root n) :
    Fills root fuel (fillLevel root.anchored fuel nodes) := by
  induction nodes with
  | nil => mvcgen [fillLevel]
  | cons n rest ih =>
    obtain ⟨hn, hrest⟩ := List.forall_mem_cons.mp h
    have hrest := ih hrest
    mvcgen [fillLevel, fills_fill, hrest]

theorem fills_fillAll (root : Node) (fuel levels : Nat) :
    Fills root fuel (fillAll root.anchored fuel levels) := by
  induction levels with
  | zero => mvcgen [fillAll]
  | succ levels ih =>
    mvcgen [fillAll, fills_fillLevel, ih]
    case vc2 hwaiting _ => simpa using hwaiting
    case vc3 => exact List.forall_mem_nil _

end Filling

namespace Document

open Filling

theorem ofConstruction_of_ofRoot {root : Node} {f : Fault} (h : ofRoot root = .error f) :
    f.OfConstruction root (root.count + 1) := by
  have hroot : Node.Met root root := .within .root
  have hvalue := fills_value (root.count + 1) hroot
  have hpairs := fills_fill (root.count + 1) hroot
  obtain hrun | ⟨found, -, hfound⟩ := bind_eq_error_iff.mp h
  · refine Keeps.fault (Keeps.seqLeft ?_ (fills_fillAll root (root.count + 1) (root.count + 1)))
      (List.forall_mem_nil _) hrun
    mvcgen [hvalue, hpairs]
    exact List.forall_mem_nil _
  · cases hfound

/-- Why a document text crashes: an escape in it asks for a character that does not exist, or the
text of a node in its tree has no value. -/
def Unbuildable [LoneSurrogates] (text : List Char) (c : Crash) : Prop :=
  AsksForNoCharacter text ∨
    ∃ root n, Node.ofText text = .ok (some root) ∧ Node.Within root n ∧
      HasNoValue root.anchored (root.count + 1) n c

theorem unbuildable_of_ofText [LoneSurrogates] {s : String} {c : Crash} (h : ofText s = .error (.crashed c)) :
    Unbuildable s.toList c := by
  obtain hnode | ⟨root?, hroot?, hroot⟩ := bind_eq_error_iff.mp h
  · exact Or.inl (Node.asksForNoCharacter_of_ofText hnode)
  · cases root? with
    | none => cases hroot
    | some root =>
      obtain ⟨n, hn, hvalue⟩ := ofConstruction_of_ofRoot hroot
      exact Or.inr ⟨root, n, hroot?, hn, hvalue⟩

end Document

end Typings.Yaml
