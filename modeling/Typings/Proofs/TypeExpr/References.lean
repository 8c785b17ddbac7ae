import Typings.Proofs.TypeExpr.Mapping

/-!
# What the types of fields refer to

A type mentions names that need no declaration, core types, and the names of content types of the
run. An entry link that the mapping reaches refers to the targets of its constraints that are in the
run, and to nothing else.
-/

namespace Typings

open Script

/-- The type names that need no declaration. -/
def builtins : List String :=
  ["string", "number", "boolean", "unknown", "undefined", "Record", "ReadonlyArray"]

/-! ## Names in the types of fields -/

namespace Field

/-- The names that the type of a field may mention. -/
def Mentions (ids : List String) (o : RenderOptions) (name : String) : Prop :=
  name ∈ builtins ∨ name ∈ ["Entry", "Asset", "Document"] ∨
    ∃ id ∈ ids, name = o.namePrefix ++ Naming.typeName id ∨
      name = o.namePrefix ++ Naming.typeName id ++ "Fields"

theorem mentions_of_fixed (ids : List String) (o : RenderOptions) {t : TypeTree}
    (h : ∀ name ∈ t.names, name ∈ builtins ∨ name ∈ ["Entry", "Asset", "Document"]) :
    ∀ name ∈ t.names, Mentions ids o name := by
  intro name hname
  rcases h name hname with hbuiltin | hcore
  · exact Or.inl hbuiltin
  · exact Or.inr (Or.inl hcore)

theorem mentions_unionOr {ids : List String} {o : RenderOptions} {absent : TypeTree} {ts : List TypeTree}
    (habsent : ∀ name ∈ absent.names, Mentions ids o name)
    (hts : ∀ t ∈ ts, ∀ name ∈ t.names, Mentions ids o name) :
    ∀ name ∈ (unionOr absent ts).names, Mentions ids o name := by
  cases ts with
  | nil => exact habsent
  | cons first others =>
    intro name hname
    rw [unionOr_of_ne_nil (List.cons_ne_nil first others), TypeTree.names_union, TypeTree.mem_namesOfAll] at hname
    obtain ⟨t, ht, hmem⟩ := hname
    exact hts t ht name hmem

theorem mentions_entryLinkTree (ids : List String) (o : RenderOptions) (spec : FieldSpec) :
    ∀ name ∈ (entryLinkTree ids o spec).names, Mentions ids o name := by
  have htarget (id : String) (hid : id ∈ ids) :
      ∀ name ∈ (targetTree o id).names, Mentions ids o name := by
    intro name hname
    unfold targetTree at hname
    split at hname
    · simp only [TypeTree.names, TypeTree.namesOfAll, List.mem_singleton] at hname
      exact Or.inr (Or.inr ⟨id, hid, Or.inl hname⟩)
    · simp only [TypeTree.names, TypeTree.namesOfAll, List.append_nil, List.mem_cons, List.not_mem_nil,
        or_false] at hname
      rcases hname with rfl | hname
      · exact Or.inr (Or.inl (by decide))
      · exact Or.inr (Or.inr ⟨id, hid, Or.inr hname⟩)
  rw [entryLinkTree_eq]
  refine mentions_unionOr (mentions_of_fixed ids o (by decide)) fun t ht => ?_
  obtain ⟨id, hid, rfl⟩ := List.mem_map.mp ht
  exact htarget id (of_decide_eq_true (List.mem_filter.mp hid).2)

theorem mentions_tagTree (ids : List String) (o : RenderOptions) (spec : FieldSpec) {element : TypeTree}
    (h : ∀ name ∈ element.names, Mentions ids o name) :
    ∀ name ∈ (tagTree ids o spec element).names, Mentions ids o name := by
  unfold tagTree
  split
  case h_11 =>
    unfold linkTree
    split
    · exact mentions_of_fixed ids o (by decide)
    · exact mentions_entryLinkTree ids o spec
    · exact mentions_of_fixed ids o (by decide)
  case h_12 =>
    intro name hname
    split at hname
    · simp only [TypeTree.names, TypeTree.namesOfAll, List.append_nil, List.mem_cons] at hname
      rcases hname with rfl | hname
      · exact Or.inl (by decide)
      · exact h name hname
    · exact h name hname
  all_goals exact mentions_of_fixed ids o (by decide)

theorem mentions_levelTree (ids : List String) (o : RenderOptions) (spec : FieldSpec)
    (element : TypeTree) (h : ∀ name ∈ element.names, Mentions ids o name) :
    ∀ name ∈ (levelTree ids o spec element).names, Mentions ids o name := by
  rw [levelTree_eq]
  refine mentions_unionOr (mentions_tagTree ids o spec h) fun t ht => ?_
  obtain ⟨l, -, rfl⟩ := List.mem_map.mp ht
  cases l <;> simp [Literal.tree, TypeTree.names]

theorem mentions_chainTree (ids : List String) (o : RenderOptions) (room : Nat) (spec : FieldSpec)
    (items : List FieldSpec) :
    ∀ name ∈ (chainTree ids o room spec items).names, Mentions ids o name := by
  have hunknown : ∀ name ∈ (TypeTree.named "unknown" []).names, Mentions ids o name :=
    mentions_of_fixed ids o (by decide)
  induction room generalizing spec items with
  | zero => exact mentions_levelTree ids o spec _ hunknown
  | succ room ih =>
    cases items with
    | nil => exact mentions_levelTree ids o spec _ hunknown
    | cons item deeper => exact mentions_levelTree ids o spec _ (ih item deeper)

end Field

/-! ## Entry links -/

/-- The constraints name the id as a target; an empty id is none. -/
def FieldSpec.LinksTo (spec : FieldSpec) (id : String) : Prop :=
  id ≠ "" ∧ ∃ c ∈ spec.validations, Data.text id ∈ listedUnder "linkContentType" c

namespace Field

/-- A definition that is looked into for its items: an array without literals. -/
def IsPlainArray (spec : FieldSpec) : Prop :=
  spec.type = some "Array" ∧ literalsOf spec.validations = []

/-- The definition at this depth is an entry link, and the mapping gets to it. -/
structure ReachesLink (f : Field) (depth : Nat) (link : FieldSpec) : Prop where
  found : f.specs[depth]? = some link
  type : link.type = some "Link"
  linkType : link.linkType = some "Entry"
  noLiterals : literalsOf link.validations = []
  around : ∀ outer < depth, ∃ spec, f.specs[outer]? = some spec ∧ IsPlainArray spec
  withinLimit : depth ≤ nestingLimit

def arraysAround (o : RenderOptions) : Nat → TypeTree → TypeTree
  | 0, t => t
  | depth + 1, t =>
    if o.readonlyArrays then .named "ReadonlyArray" [arraysAround o depth t]
    else .array (arraysAround o depth t)

theorem levelTree_entryLink (ids : List String) (o : RenderOptions) {spec : FieldSpec}
    (htype : spec.type = some "Link") (hlink : spec.linkType = some "Entry")
    (hlits : literalsOf spec.validations = []) (element : TypeTree) :
    levelTree ids o spec element = entryLinkTree ids o spec := by
  simp [levelTree_eq, hlits, unionOr, tagTree, htype, linkTree, hlink]

theorem chainTree_of_reached (ids : List String) (o : RenderOptions) {link : FieldSpec}
    (htype : link.type = some "Link") (hlink : link.linkType = some "Entry")
    (hlits : literalsOf link.validations = []) {depth room : Nat} (hroom : depth ≤ room)
    {spec : FieldSpec} {items : List FieldSpec} (hfound : (spec :: items)[depth]? = some link)
    (haround : ∀ outer < depth, ∃ s, (spec :: items)[outer]? = some s ∧ IsPlainArray s) :
    chainTree ids o room spec items = arraysAround o depth (entryLinkTree ids o link) := by
  induction depth generalizing room spec items with
  | zero =>
    obtain ⟨element, heq⟩ := chainTree_eq_levelTree ids o room spec items
    have hspec : spec = link := by simpa using hfound
    rw [heq, hspec, levelTree_entryLink ids o htype hlink hlits]
    rfl
  | succ depth ih =>
    obtain ⟨s, hs, harray⟩ := haround 0 (by omega)
    have hspec : spec = s := by simpa using hs
    subst hspec
    obtain ⟨more, rfl⟩ : ∃ more, room = more + 1 := ⟨room - 1, by omega⟩
    cases items with
    | nil => simp at hfound
    | cons item deeper =>
      have hdeeper : chainTree ids o more item deeper =
          arraysAround o depth (entryLinkTree ids o link) :=
        ih (by omega) (by simpa using hfound)
          fun outer houter => by simpa using haround (outer + 1) (by omega)
      rw [chainTree, levelTree_array ids o harray.1 harray.2, hdeeper]
      rfl

theorem typeTree_of_reachesLink (ids : List String) (o : RenderOptions) {f : Field} {depth : Nat}
    {link : FieldSpec} (h : f.ReachesLink depth link) :
    f.typeTree ids o = arraysAround o depth (entryLinkTree ids o link) :=
  chainTree_of_reached ids o h.type h.linkType h.noLiterals h.withinLimit h.found h.around

theorem mem_linkTargets {spec : FieldSpec} {id : String} :
    id ∈ linkTargets spec.validations ↔ spec.LinksTo id := by
  unfold linkTargets FieldSpec.LinksTo
  rw [List.mem_flatMap]
  constructor
  · rintro ⟨c, hc, hid⟩
    obtain ⟨d, hd, hid⟩ := List.mem_filterMap.mp hid
    cases d <;> simp only [identifier?] at hid <;> try contradiction
    split at hid
    · contradiction
    · rename_i hne
      rw [Option.some.inj hid] at hd hne
      exact ⟨hne, c, hc, hd⟩
  · rintro ⟨hne, c, hc, hd⟩
    exact ⟨c, hc, List.mem_filterMap.mpr ⟨_, hd, by simp [identifier?, hne]⟩⟩

theorem entryLinkTree_of_none {ids : List String} (o : RenderOptions) {spec : FieldSpec}
    (h : ∀ id ∈ ids, ¬ spec.LinksTo id) :
    entryLinkTree ids o spec = .named "Entry" [.named "unknown" []] := by
  have htargets : (linkTargets spec.validations).filter (fun id => id ∈ ids) = [] := by
    rw [List.filter_eq_nil_iff]
    intro id hid hmem
    exact h id (of_decide_eq_true hmem) (mem_linkTargets.mp hid)
  rw [entryLinkTree_eq, htargets]
  rfl

theorem mem_alternatives_entryLinkTree {ids : List String} (o : RenderOptions) {spec : FieldSpec}
    (h : ∃ id ∈ ids, spec.LinksTo id) (t : TypeTree) :
    t ∈ (entryLinkTree ids o spec).alternatives ↔
      ∃ id ∈ ids, spec.LinksTo id ∧ t = targetTree o id := by
  have hsimple : ∀ t ∈ ((linkTargets spec.validations).filter fun id => id ∈ ids).map (targetTree o),
      t.alternatives = [t] := by
    intro t ht
    obtain ⟨id, -, rfl⟩ := List.mem_map.mp ht
    unfold targetTree
    split <;> rfl
  have hne : (linkTargets spec.validations).filter (fun id => id ∈ ids) ≠ [] := by
    obtain ⟨id, hid, hlinks⟩ := h
    intro hnil
    have hmem : id ∈ (linkTargets spec.validations).filter fun id => id ∈ ids :=
      List.mem_filter.mpr ⟨mem_linkTargets.mpr hlinks, decide_eq_true hid⟩
    rw [hnil] at hmem
    contradiction
  have htrees : ((linkTargets spec.validations).filter fun id => id ∈ ids).map (targetTree o) ≠ [] :=
    mt List.map_eq_nil_iff.mp hne
  rw [entryLinkTree_eq, unionOr_of_ne_nil htrees, TypeTree.alternatives_union htrees hsimple, List.mem_map]
  constructor
  · rintro ⟨id, hid, rfl⟩
    obtain ⟨hlinks, hrun⟩ := List.mem_filter.mp hid
    exact ⟨id, of_decide_eq_true hrun, mem_linkTargets.mp hlinks, rfl⟩
  · rintro ⟨id, hid, hlinks, rfl⟩
    exact ⟨id, List.mem_filter.mpr ⟨mem_linkTargets.mpr hlinks, decide_eq_true hid⟩, rfl⟩

end Field

end Typings
