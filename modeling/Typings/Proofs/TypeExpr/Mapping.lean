import Typings.TypeExpr.Mapping
import Typings.Proofs.TypeExpr.Tree

/-!
# The types of fields are read back

What is read from the type of a field is the tree that its constraints, its tag and its items call
for. The tree is described here on its own, level by level, from the data of the constraints and
without any text.
-/

namespace Typings

open Script

/-! ## The tree of a field -/

namespace Field

/-- What the constraints list under a key, in their order; what is no list has nothing. -/
def listed (key : String) (constraints : List Data.Members) : List Data :=
  constraints.flatMap fun c =>
    match c.get? key with
    | some (.list items) => items
    | _ => []

/-- The union of trees, or a tree to take if there are none. -/
def unionOr (absent : TypeTree) : List TypeTree → TypeTree
  | [] => absent
  | ts => TypeTree.union ts

theorem unionOr_of_ne_nil {ts : List TypeTree} (h : ts ≠ []) (absent : TypeTree) :
    unionOr absent ts = TypeTree.union ts := by
  cases ts with
  | nil => exact absurd rfl h
  | cons => rfl

/-- A text or a number stands for itself, and a number in the same way however it was written. -/
def literalTree? : Data → Option TypeTree
  | .text s => some (.text s)
  | .int n => some (.number (.whole n))
  | .double x => some (.number (match x.toInt? with
    | some n => .whole n
    | none => .decimal x.text))
  | _ => none

def targetTree (o : RenderOptions) (id : String) : TypeTree :=
  let name := o.namePrefix ++ Naming.typeName id
  if o.linkAliases then .named name [] else .named "Entry" [.named (name ++ "Fields") []]

/-- A text is a target if it is the id of a content type of the run; an empty one is none. -/
def targetTree? (ids : List String) (o : RenderOptions) : Data → Option TypeTree
  | .text id => if id ≠ "" ∧ id ∈ ids then some (targetTree o id) else none
  | _ => none

/-- An entry link is the union of its targets in the run, in the order of the constraints and as
often as they occur. -/
def entryLinkTree (ids : List String) (o : RenderOptions) (spec : FieldSpec) : TypeTree :=
  unionOr (.named "Entry" [.named "unknown" []])
    ((listed "linkContentType" spec.validations).filterMap (targetTree? ids o))

def linkTree (ids : List String) (o : RenderOptions) (spec : FieldSpec) : TypeTree :=
  match spec.linkType with
  | some "Asset" => .named "Asset" []
  | some "Entry" => entryLinkTree ids o spec
  | _ => .named "unknown" []

def tagTree (ids : List String) (o : RenderOptions) (spec : FieldSpec) (element : TypeTree) :
    TypeTree :=
  match spec.type with
  | some "Symbol" | some "Text" | some "Slug" | some "Date" => .named "string" []
  | some "Integer" | some "Number" => .named "number" []
  | some "Boolean" => .named "boolean" []
  | some "Object" => .named "Record" [.named "string" [], .named "unknown" []]
  | some "Location" =>
    .object [(⟨"lat", false⟩, .named "number" []), (⟨"lon", false⟩, .named "number" [])]
  | some "RichText" => .named "Document" []
  | some "Link" => linkTree ids o spec
  | some "Array" =>
    if o.readonlyArrays then .named "ReadonlyArray" [element] else .array element
  | _ => .named "unknown" []

/-- Literals come before the tag: their union, in the order of the constraints. -/
def levelTree (ids : List String) (o : RenderOptions) (spec : FieldSpec) (element : TypeTree) :
    TypeTree :=
  unionOr (tagTree ids o spec element) ((listed "in" spec.validations).filterMap literalTree?)

/-- The tree of a definition and the items below it. Items that are absent or too deep are unknown.
-/
def chainTree (ids : List String) (o : RenderOptions) : Nat → FieldSpec → List FieldSpec → TypeTree
  | room + 1, spec, item :: deeper => levelTree ids o spec (chainTree ids o room item deeper)
  | _, spec, _ => levelTree ids o spec (.named "unknown" [])

def typeTree (ids : List String) (o : RenderOptions) (f : Field) : TypeTree :=
  chainTree ids o nestingLimit f.spec f.items

/-- No number among the literals of any level is an infinity or no number. -/
def FiniteNumbers (f : Field) : Prop :=
  ∀ spec ∈ f.specs, ∀ c ∈ spec.validations, ∀ x, Data.double x ∈ listedUnder "in" c → x.isFinite = true

def hasFiniteNumbers (f : Field) : Bool :=
  f.specs.all fun spec => spec.validations.all fun c => (listedUnder "in" c).all fun d =>
    match d with
    | .double x => x.isFinite
    | _ => true

theorem finiteNumbers_iff (f : Field) : f.FiniteNumbers ↔ f.hasFiniteNumbers = true := by
  unfold FiniteNumbers hasFiniteNumbers
  simp only [List.all_eq_true]
  constructor
  · intro h spec hs c hc d hd
    cases d with
    | double x => exact h spec hs c hc x hd
    | _ => rfl
  · intro h spec hs c hc x hx
    exact h spec hs c hc (.double x) hx

instance (f : Field) : Decidable f.FiniteNumbers := decidable_of_iff _ (finiteNumbers_iff f).symm

/-! ## The mapping follows it -/

theorem literalsOf_eq (constraints : List Data.Members) :
    literalsOf constraints = (listed "in" constraints).filterMap Literal.ofData? :=
  List.filterMap_flatMap.symm

theorem linkTargets_eq (constraints : List Data.Members) :
    linkTargets constraints = (listed "linkContentType" constraints).filterMap identifier? :=
  List.filterMap_flatMap.symm

theorem levelTree_eq (ids : List String) (o : RenderOptions) (spec : FieldSpec) (element : TypeTree) :
    levelTree ids o spec element =
      unionOr (tagTree ids o spec element) ((literalsOf spec.validations).map Literal.tree) := by
  rw [levelTree, literalsOf_eq, List.map_filterMap]
  congr 2
  funext d
  cases d <;> rfl

theorem entryLinkTree_eq (ids : List String) (o : RenderOptions) (spec : FieldSpec) :
    entryLinkTree ids o spec = unionOr (.named "Entry" [.named "unknown" []])
      (((linkTargets spec.validations).filter fun id => id ∈ ids).map (targetTree o)) := by
  rw [entryLinkTree, linkTargets_eq, List.filter_filterMap, List.map_filterMap]
  congr 2
  funext d
  cases d with
  | text id =>
    by_cases hempty : id = ""
    · simp [targetTree?, identifier?, hempty]
    · by_cases hid : id ∈ ids <;> simp [targetTree?, identifier?, hempty, hid, Option.filter]
  | _ => rfl

theorem tree_literals (first : Literal) (others : List Literal) :
    (TypeExpr.oneOf (.literal first) (others.map .literal)).tree =
      TypeTree.union ((first :: others).map Literal.tree) := by
  simp [TypeExpr.tree, SimpleType.tree, Function.comp_def]

theorem tree_linkType (o : RenderOptions) (id : String) : (o.linkType id).tree = targetTree o id := by
  unfold RenderOptions.linkType targetTree
  split <;> rfl

theorem tree_entryLinkType (ids : List String) (o : RenderOptions) (spec : FieldSpec) :
    (entryLinkType ids o spec.validations).tree = entryLinkTree ids o spec := by
  have hfilter : (linkTargets spec.validations).filter (fun id => decide (id ∈ ids)) =
      (linkTargets spec.validations).filter ids.contains :=
    List.filter_congr fun id _ => (List.contains_eq_mem id ids).symm
  rw [entryLinkTree_eq, hfilter]
  unfold entryLinkType
  cases (linkTargets spec.validations).filter ids.contains with
  | nil => rfl
  | cons first others => simp [TypeExpr.tree, tree_linkType, unionOr, Function.comp_def]

theorem tree_linkedType (ids : List String) (o : RenderOptions) (spec : FieldSpec) :
    (linkedType ids o spec).tree = linkTree ids o spec := by
  unfold linkedType linkTree
  generalize hk : LinkKind.ofTag spec.linkType = k
  generalize spec.linkType = tag at hk
  unfold LinkKind.ofTag at hk
  split at hk <;> subst hk
  · rfl
  · exact tree_entryLinkType ids o spec
  · simp only
    rfl

theorem tree_arrayForm (o : RenderOptions) (element : TypeExpr) :
    (TypeExpr.array o.arrayForm element).tree =
      if o.readonlyArrays then .named "ReadonlyArray" [element.tree] else .array element.tree := by
  unfold RenderOptions.arrayForm
  split <;> rfl

theorem tree_taggedType (ids : List String) (o : RenderOptions) (spec : FieldSpec)
    (element : TypeExpr) :
    (taggedType ids o spec element).tree = tagTree ids o spec element.tree := by
  unfold taggedType tagTree
  generalize hk : FieldKind.ofTag spec.type = k
  generalize spec.type = tag at hk
  unfold FieldKind.ofTag at hk
  split at hk <;> subst hk
  case h_11 => exact tree_linkedType ids o spec
  case h_12 => exact tree_arrayForm o element
  case h_13 =>
    simp only
    rfl
  all_goals rfl

theorem tree_levelType (ids : List String) (o : RenderOptions) (spec : FieldSpec) (element : TypeExpr) :
    (levelType ids o spec element).tree = levelTree ids o spec element.tree := by
  rw [levelTree_eq]
  unfold levelType literalUnion
  cases literalsOf spec.validations with
  | nil => exact tree_taggedType ids o spec element
  | cons first others => exact tree_literals first others

theorem tree_chainType (ids : List String) (o : RenderOptions) (room : Nat) (spec : FieldSpec)
    (items : List FieldSpec) :
    (chainType ids o room spec items).tree = chainTree ids o room spec items := by
  induction room generalizing spec items with
  | zero => exact tree_levelType ids o spec _
  | succ room ih =>
    cases items with
    | nil => exact tree_levelType ids o spec _
    | cons item deeper =>
      rw [chainType, chainTree, tree_levelType, ih]

/-! ## What holds of every level -/

/-- A property that each level hands on, whatever its element, holds of the whole chain. -/
theorem chainType_of_levels {P : TypeExpr → Prop} (ids : List String) (o : RenderOptions)
    (hunknown : P (.oneOf .unknown [])) (room : Nat) (spec : FieldSpec) (items : List FieldSpec)
    (hlevel : ∀ s ∈ spec :: items, ∀ element, P element → P (levelType ids o s element)) :
    P (chainType ids o room spec items) := by
  induction room generalizing spec items with
  | zero => exact hlevel spec List.mem_cons_self _ hunknown
  | succ room ih =>
    cases items with
    | nil => exact hlevel spec List.mem_cons_self _ hunknown
    | cons item deeper =>
      have hitems := ih item deeper fun s hs => hlevel s (List.mem_cons_of_mem _ hs)
      exact hlevel spec List.mem_cons_self _ hitems

def fixedTypes : List SimpleType :=
  [.text, .number, .boolean, .unknown, .dictionary, .location, .document, .asset, .unknownEntry]

/-- What a level that is no array consists of. -/
inductive IsPart (ids : List String) (o : RenderOptions) (spec : FieldSpec) : SimpleType → Prop where
  | literal {l : Literal} (h : l ∈ literalsOf spec.validations) : IsPart ids o spec (.literal l)
  | link {id : String} (h : id ∈ ids) : IsPart ids o spec (o.linkType id)
  | fixed {t : SimpleType} (h : t ∈ fixedTypes) : IsPart ids o spec t

theorem levelType_cases (ids : List String) (o : RenderOptions) (spec : FieldSpec)
    (element : TypeExpr) :
    levelType ids o spec element = .array o.arrayForm element ∨
      ∃ first others, levelType ids o spec element = .oneOf first others ∧
        ∀ t ∈ first :: others, IsPart ids o spec t := by
  have halone {t : SimpleType} (h : t ∈ fixedTypes) : ∃ first others,
      TypeExpr.oneOf t [] = .oneOf first others ∧ ∀ s ∈ first :: others, IsPart ids o spec s :=
    ⟨t, [], rfl, fun s hs => .fixed ((List.mem_singleton.mp hs).symm ▸ h)⟩
  unfold levelType literalUnion
  cases hlits : literalsOf spec.validations with
  | cons first others =>
    refine Or.inr ⟨.literal first, others.map .literal, rfl, ?_⟩
    rw [← List.map_cons (f := SimpleType.literal), ← hlits]
    intro t ht
    obtain ⟨l, hl, rfl⟩ := List.mem_map.mp ht
    exact .literal hl
  | nil =>
    simp only [Option.getD_none, taggedType]
    cases FieldKind.ofTag spec.type with
    | array => exact Or.inl rfl
    | link =>
      right
      simp only [linkedType]
      cases LinkKind.ofTag spec.linkType with
      | entry =>
        simp only [entryLinkType]
        cases htargets : (linkTargets spec.validations).filter ids.contains with
        | nil => exact halone (by decide)
        | cons first others =>
          refine ⟨o.linkType first, others.map o.linkType, rfl, ?_⟩
          rw [← List.map_cons (f := o.linkType), ← htargets]
          intro t ht
          obtain ⟨id, hid, rfl⟩ := List.mem_map.mp ht
          exact .link (List.contains_iff_mem.mp (List.mem_filter.mp hid).2)
      | _ => exact halone (by decide)
    | _ => exact Or.inr (halone (by decide))

theorem isIdentifier_entryName {o : RenderOptions} (hp : Naming.isIdentifier o.namePrefix = true)
    (id : String) : Naming.isIdentifier (o.entryName id) = true :=
  Naming.isIdentifier_append hp (Naming.isWord_of_mem_typeName id)

theorem isIdentifier_fieldsName {name : String} (h : Naming.isIdentifier name = true) :
    Naming.isIdentifier (fieldsName name) = true := by
  have hword : "Fields".toList.all Naming.isWord = true := rfl
  exact Naming.isIdentifier_append h (List.all_eq_true.mp hword)

theorem nameable_linkType {o : RenderOptions} (hp : Naming.isIdentifier o.namePrefix = true)
    (id : String) : (o.linkType id).Nameable := by
  unfold RenderOptions.linkType
  split
  · exact isIdentifier_entryName hp id
  · exact isIdentifier_fieldsName (isIdentifier_entryName hp id)

theorem nameable_levelType {o : RenderOptions} (hp : Naming.isIdentifier o.namePrefix = true)
    (ids : List String) (spec : FieldSpec) (element : TypeExpr) (helement : element.Nameable) :
    (levelType ids o spec element).Nameable := by
  have hfixed : ∀ t ∈ fixedTypes, t.Nameable := by simp [fixedTypes, SimpleType.Nameable]
  rcases levelType_cases ids o spec element with harray | ⟨first, others, heq, hparts⟩
  · rw [harray]
    exact helement
  · rw [heq]
    refine List.forall_mem_cons.mp fun t ht => ?_
    cases hparts t ht with
    | literal _ => trivial
    | link _ => exact nameable_linkType hp _
    | fixed h => exact hfixed t h

theorem nameable_typeExpr {o : RenderOptions} (hp : Naming.isIdentifier o.namePrefix = true)
    (ids : List String) (f : Field) : (f.typeExpr ids o).Nameable :=
  chainType_of_levels ids o ⟨trivial, by simp⟩ nestingLimit f.spec f.items
    fun s _ => nameable_levelType hp ids s

theorem double_of_mem_literalsOf {constraints : List Data.Members} {x : Double}
    (h : .double x ∈ literalsOf constraints) :
    ∃ c ∈ constraints, Data.double x ∈ listedUnder "in" c := by
  obtain ⟨c, hc, hx⟩ := List.mem_flatMap.mp h
  obtain ⟨d, hd, hlit⟩ := List.mem_filterMap.mp hx
  refine ⟨c, hc, ?_⟩
  cases d <;> simp_all [Literal.ofData?]

theorem finite_literals {f : Field} (h : f.FiniteNumbers) {spec : FieldSpec} (hs : spec ∈ f.specs)
    {l : Literal} (hl : l ∈ literalsOf spec.validations) : l.IsFinite := by
  cases l with
  | double x =>
    obtain ⟨c, hc, hx⟩ := double_of_mem_literalsOf hl
    exact h spec hs c hc x hx
  | _ => trivial

theorem finite_linkType (o : RenderOptions) (id : String) : (o.linkType id).Finite := by
  unfold RenderOptions.linkType
  split <;> trivial

theorem finite_levelType (ids : List String) (o : RenderOptions) (spec : FieldSpec)
    (h : ∀ l ∈ literalsOf spec.validations, l.IsFinite) (element : TypeExpr)
    (helement : element.Finite) : (levelType ids o spec element).Finite := by
  have hfixed : ∀ t ∈ fixedTypes, t.Finite := by simp [fixedTypes, SimpleType.Finite]
  rcases levelType_cases ids o spec element with harray | ⟨first, others, heq, hparts⟩
  · rw [harray]
    exact helement
  · rw [heq]
    refine List.forall_mem_cons.mp fun t ht => ?_
    cases hparts t ht with
    | literal hl => exact h _ hl
    | link _ => exact finite_linkType o _
    | fixed h => exact hfixed t h

theorem finite_typeExpr (ids : List String) (o : RenderOptions) {f : Field} (h : f.FiniteNumbers) :
    (f.typeExpr ids o).Finite :=
  chainType_of_levels ids o ⟨trivial, by simp⟩ nestingLimit f.spec f.items
    fun s hs => finite_levelType ids o s fun _ hl => finite_literals h hs hl

/-! ## Reading a field's type back -/

theorem scan_typeExpr {o : RenderOptions} (hp : Naming.isIdentifier o.namePrefix = true)
    (ids : List String) (f : Field) :
    scan (f.typeExpr ids o).render = some (f.typeExpr ids o).tokens :=
  (TypeExpr.ends_render _ (nameable_typeExpr hp ids f)).scan

theorem readType_typeExpr (ids : List String) (o : RenderOptions) {f : Field} (h : f.FiniteNumbers) :
    readType (f.typeExpr ids o).tokens = some (f.typeTree ids o) := by
  rw [((f.typeExpr ids o).reads (finite_typeExpr ids o h)).1.readType]
  exact congrArg some (tree_chainType ids o nestingLimit f.spec f.items)

theorem chainTree_eq_levelTree (ids : List String) (o : RenderOptions) (room : Nat)
    (spec : FieldSpec) (items : List FieldSpec) :
    ∃ element, chainTree ids o room spec items = levelTree ids o spec element := by
  cases room with
  | zero => exact ⟨_, rfl⟩
  | succ room => cases items <;> exact ⟨_, rfl⟩

theorem levelTree_array (ids : List String) (o : RenderOptions) {spec : FieldSpec}
    (htag : spec.type = some "Array") (hlits : literalsOf spec.validations = [])
    (element : TypeTree) : levelTree ids o spec element =
      if o.readonlyArrays then .named "ReadonlyArray" [element] else .array element := by
  simp [levelTree_eq, hlits, tagTree, htag, unionOr]

theorem literalsOf_eq_nil_iff {constraints : List Data.Members} :
    literalsOf constraints = [] ↔ ∀ d ∈ listed "in" constraints, literalTree? d = none := by
  rw [literalsOf_eq, List.filterMap_eq_nil_iff]
  refine forall₂_congr fun d _ => ?_
  cases d <;> simp [Literal.ofData?, literalTree?]

/-- The type of a field is read back as its tree; in particular an array is never read as a union.
-/
theorem typeOf_property (ids : List String) (o : RenderOptions) (f : Field)
    (hp : Naming.isIdentifier o.namePrefix = true) (hf : f.FiniteNumbers) :
    typeOf (f.property ids o).type.render = some (f.typeTree ids o) ∧
      ((∀ d ∈ listed "in" f.spec.validations, literalTree? d = none) → f.spec.type = some "Array" →
        ∀ alternatives, typeOf (f.property ids o).type.render ≠ some (.oneOf alternatives)) := by
  have hread : typeOf (f.property ids o).type.render = some (f.typeTree ids o) := by
    rw [Field.property, typeOf, scan_typeExpr hp, Option.bind_some, TypeExpr.code_tokens]
    exact readType_typeExpr ids o hf
  refine ⟨hread, fun hlits htag alternatives => ?_⟩
  -- An array stays one whatever its items are.
  obtain ⟨element, hlevel⟩ := chainTree_eq_levelTree ids o nestingLimit f.spec f.items
  rw [hread, typeTree, hlevel, levelTree_array ids o htag (literalsOf_eq_nil_iff.mpr hlits)]
  split <;> simp

/-- A list of quoted brackets, bars and a number. -/
def bracketField : Field where
  spec := ⟨some "marks", none, some "Array", true, none, [], none⟩
  items := [⟨none, none, none, false, none,
    [[("in", .list [.text "a|b)[]", .double (.finite true 3 (-1)), .text "\"> & \x7b"])]], none⟩]

/-- A list of links with two targets in the run, one of them twice, and one that is not in it. -/
def linkField : Field where
  spec := ⟨some "related", none, some "Array", false, none, [], none⟩
  items := [⟨none, none, some "Link", false, none,
    [[("linkContentType", .list [.text "page", .text "gone", .int 3])],
      [("linkContentType", .list [.text "blog-post", .text "page"])]], some "Entry"⟩]

theorem typeOf_property_brackets_links :
    Naming.isIdentifier ({} : RenderOptions).namePrefix = true ∧ bracketField.FiniteNumbers ∧
      linkField.FiniteNumbers ∧
      typeOf (bracketField.property [] {}).type.render =
        some (.array (.oneOf [.text "a|b)[]", .number (.decimal "-1.5"), .text "\"> & \x7b"])) ∧
      typeOf (linkField.property ["blog-post", "page"] {}).type.render =
        some (.array (.oneOf [.named "IPage" [], .named "IBlogPost" [], .named "IPage" []])) := by
  have hp : Naming.isIdentifier ({} : RenderOptions).namePrefix = true := rfl
  have hf : bracketField.FiniteNumbers := (finiteNumbers_iff bracketField).mpr rfl
  have hlinks : linkField.FiniteNumbers := (finiteNumbers_iff linkField).mpr rfl
  refine ⟨hp, hf, hlinks, (typeOf_property [] {} bracketField hp hf).1.trans ?_,
    (typeOf_property ["blog-post", "page"] {} linkField hp hlinks).1.trans ?_⟩
  · have htext : (Double.finite true 3 (-1)).text = "-1.5" := rfl
    rw [← htext]
    rfl
  · rfl

end Field

end Typings
