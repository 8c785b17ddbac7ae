import Typings.Proofs.Declaration.Locality

/-!
# No name reaches a type

Ids, names and notes, and whether a value is required, are of no account to a type, at no level. In
particular items may be named after the field around them before they are looked at.
-/

namespace Typings

/-- Definitions that agree in all that a type is about: in their tags and in their constraints. -/
structure FieldSpec.Agree (s t : FieldSpec) : Prop where
  type : s.type = t.type
  validations : s.validations = t.validations
  linkType : s.linkType = t.linkType

theorem FieldSpec.Agree.typesAlike {s t : FieldSpec} (h : s.Agree t) : s.TypesAlike t where
  type := h.type
  linkType := h.linkType
  literals := by rw [h.validations]
  targets := by rw [h.validations]

/-- Options that agree in all that a type is about. -/
structure RenderOptions.Agree (o o' : RenderOptions) : Prop where
  namePrefix : o.namePrefix = o'.namePrefix
  readonlyArrays : o.readonlyArrays = o'.readonlyArrays
  linkAliases : o.linkAliases = o'.linkAliases

theorem Field.typeExpr_of_agree {ids ids' : List String} {o o' : RenderOptions} {f g : Field}
    (hids : ∀ id, id ∈ ids ↔ id ∈ ids') (ho : o.Agree o')
    (hspecs : List.Forall₂ FieldSpec.Agree f.specs g.specs) : f.typeExpr ids o = g.typeExpr ids' o' := by
  have halike : List.Forall₂ FieldSpec.TypesAlike f.specs g.specs := hspecs.imp fun _ _ h => h.typesAlike
  calc
    f.typeExpr ids o = g.typeExpr ids o := typeExpr_of_typesAlike ids o halike
    _ = g.typeExpr ids' o := typeExpr_congr o fun id _ => hids id
    _ = g.typeExpr ids' o' := typeExpr_of_options ids' ho.namePrefix ho.readonlyArrays ho.linkAliases g

/-! ## Items named after their field -/

/-- The first of two texts, unless it is missing or empty. -/
def orElse (first : Option String) (second : String) : String :=
  match first with
  | some s => if s = "" then second else s
  | none => second

namespace FieldSpec

/-- The id of the items of a field: made from the field's own, if it has one. -/
def itemId (outer : FieldSpec) : String :=
  match outer.id with
  | some id => if id = "" then "item" else id ++ "Item"
  | none => "item"

/-- Items under the id that they are given; it is their name, too, if they have none. -/
def named (item : FieldSpec) (id : String) : FieldSpec :=
  { item with id := some id, name := some (orElse item.name id) }

theorem agree_named (item : FieldSpec) (id : String) : (item.named id).Agree item := ⟨rfl, rfl, rfl⟩

end FieldSpec

namespace Field

/-- The type of a definition and the items below it, each named after the one around it on the way
down. -/
def namingType (ids : List String) (o : RenderOptions) : Nat → FieldSpec → List FieldSpec → TypeExpr
  | room + 1, spec, item :: deeper =>
    levelType ids o spec (namingType ids o room (item.named spec.itemId) deeper)
  | _, spec, _ => levelType ids o spec (.oneOf .unknown [])

theorem namingType_eq (ids : List String) (o : RenderOptions) (room : Nat) {s t : FieldSpec} (h : s.Agree t)
    (items : List FieldSpec) : namingType ids o room s items = chainType ids o room t items := by
  have hlevel (element : TypeExpr) : levelType ids o s element = levelType ids o t element :=
    levelType_of_typesAlike ids o h.typesAlike element
  induction room generalizing s t items with
  | zero => exact hlevel _
  | succ room ih =>
    cases items with
    | nil => exact hlevel _
    | cons item deeper =>
      have hitem := item.agree_named s.itemId
      rw [namingType, chainType, ih hitem deeper (levelType_of_typesAlike ids o hitem.typesAlike)]
      exact hlevel _

/-- Fields that agree, level by level, in tags and constraints have the same type under options that
agree in names, arrays and links, and so do they if the items are named on the way down. -/
theorem property_type_of_agree {ids ids' : List String} {o o' : RenderOptions} {f g : Field}
    (hids : ∀ id, id ∈ ids ↔ id ∈ ids') (ho : o.Agree o')
    (hspecs : List.Forall₂ FieldSpec.Agree f.specs g.specs) :
    (f.property ids o).type = (g.property ids' o').type ∧
      namingType ids o nestingLimit f.spec f.items = (g.property ids' o').type := by
  have htype := typeExpr_of_agree hids ho hspecs
  exact ⟨htype, (namingType_eq ids o nestingLimit ⟨rfl, rfl, rfl⟩ f.items).trans htype⟩

/-- Lists of lists of links to pages or authors, with the same id, name and note at every level. -/
def linkLists (id name note : Option String) (required : Bool) : Field :=
  let level (type : String) (linkType : Option String) : FieldSpec :=
    ⟨id, name, some type, required, note,
      [[("linkContentType", .list [.text "page", .text "author"])]], linkType⟩
  ⟨level "Array" none, [level "Array" none, level "Link" (some "Entry")]⟩

theorem property_type_of_agree_links :
    (∀ id, id ∈ ["page", "author"] ↔ id ∈ ["author", "page", "page"]) ∧
      RenderOptions.Agree {} { brandEntries := false } ∧
      List.Forall₂ FieldSpec.Agree (linkLists (some "x") none (some "*/") true).specs
        (linkLists none (some "Links") none false).specs ∧
      ((linkLists (some "x") none (some "*/") true).property ["page", "author"] {}).type =
        ((linkLists none (some "Links") none false).property ["author", "page", "page"] { brandEntries := false }).type ∧
      (namingType ["page", "author"] {} nestingLimit (linkLists (some "x") none (some "*/") true).spec
        (linkLists (some "x") none (some "*/") true).items).render = "((IPage | IAuthor)[])[]" := by
  have hids : ∀ id, id ∈ ["page", "author"] ↔ id ∈ ["author", "page", "page"] := by
    intro id
    simp [or_comm]
  have ho : RenderOptions.Agree {} { brandEntries := false } := ⟨rfl, rfl, rfl⟩
  have hspecs : List.Forall₂ FieldSpec.Agree (linkLists (some "x") none (some "*/") true).specs
      (linkLists none (some "Links") none false).specs :=
    .cons ⟨rfl, rfl, rfl⟩ (.cons ⟨rfl, rfl, rfl⟩ (.cons ⟨rfl, rfl, rfl⟩ .nil))
  obtain ⟨htype, hnaming⟩ := property_type_of_agree hids ho hspecs
  refine ⟨hids, ho, hspecs, htype, ?_⟩
  rw [hnaming]
  rfl

end Field

end Typings
