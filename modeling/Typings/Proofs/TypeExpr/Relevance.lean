import Mathlib.Data.List.Forall2
import Typings.TypeExpr.Mapping

/-!
# What the type of a field depends on

Of a definition its type depends on the two tags, and on the literals and targets that its
constraints list. Fields that agree in these, level by level, are declared with the same type. Of
the options it depends on the prefix, on the form of arrays and on the form of links.
-/

namespace Typings

/-! ## Level by level -/

namespace Field

variable {ids ids' : List String} {o o' : RenderOptions} {R : TypeExpr → TypeExpr → Prop}

/-- Where each level hands on what its elements have in common, whole chains have it in common. -/
theorem chainType_rel {Related : FieldSpec → FieldSpec → Prop}
    (hunknown : R (.oneOf .unknown []) (.oneOf .unknown []))
    (hlevel : ∀ s t, Related s t → ∀ e e', R e e' → R (levelType ids o s e) (levelType ids' o' t e'))
    (room : Nat) {s t : FieldSpec} {items others : List FieldSpec} (h : Related s t)
    (hitems : List.Forall₂ Related items others) :
    R (chainType ids o room s items) (chainType ids' o' room t others) := by
  induction room generalizing s t items others with
  | zero => exact hlevel s t h _ _ hunknown
  | succ room ih =>
    cases hitems with
    | nil => exact hlevel s t h _ _ hunknown
    | cons hitem hdeeper =>
      rw [chainType, chainType]
      exact hlevel s t h _ _ (ih hitem hdeeper)

theorem typeExpr_rel {f : Field} (hunknown : R (.oneOf .unknown []) (.oneOf .unknown []))
    (hlevel : ∀ s ∈ f.specs, ∀ e e', R e e' → R (levelType ids o s e) (levelType ids' o' s e')) :
    R (f.typeExpr ids o) (f.typeExpr ids' o') := by
  have hsame : ∀ s t, s ∈ f.specs ∧ s = t → ∀ e e', R e e' →
      R (levelType ids o s e) (levelType ids' o' t e') := by
    rintro s _ ⟨hs, rfl⟩
    exact hlevel s hs
  have hitems : List.Forall₂ (fun s t => s ∈ f.specs ∧ s = t) f.items f.items :=
    List.forall₂_same.mpr fun s hs => ⟨List.mem_cons_of_mem _ hs, rfl⟩
  exact chainType_rel hunknown hsame nestingLimit ⟨List.mem_cons_self, rfl⟩ hitems

end Field

/-! ## Definitions -/

/-- Definitions that make no difference to a type: their tags are the same, and their constraints
list the same literals and targets. -/
structure FieldSpec.TypesAlike (s t : FieldSpec) : Prop where
  type : s.type = t.type
  linkType : s.linkType = t.linkType
  literals : literalsOf s.validations = literalsOf t.validations
  targets : linkTargets s.validations = linkTargets t.validations

namespace Field

variable (ids : List String) (o : RenderOptions)

theorem levelType_of_typesAlike {s t : FieldSpec} (h : s.TypesAlike t) (element : TypeExpr) :
    levelType ids o s element = levelType ids o t element := by
  unfold levelType literalUnion taggedType linkedType entryLinkType
  rw [h.type, h.linkType, h.literals, h.targets]

theorem typeExpr_of_typesAlike {f g : Field} (h : List.Forall₂ FieldSpec.TypesAlike f.specs g.specs) :
    f.typeExpr ids o = g.typeExpr ids o := by
  have hlevel : ∀ s t : FieldSpec, s.TypesAlike t → ∀ e e', e = e' → levelType ids o s e = levelType ids o t e' := by
    rintro s t hs e _ rfl
    exact levelType_of_typesAlike ids o hs e
  cases h with
  | cons hspec hitems => exact chainType_rel rfl hlevel nestingLimit hspec hitems

theorem property_of_typesAlike {f g : Field} (h : List.Forall₂ FieldSpec.TypesAlike f.specs g.specs)
    (hid : f.spec.id = g.spec.id) (hname : f.spec.name = g.spec.name) (hrequired : f.spec.required = g.spec.required) :
    f.property ids o = g.property ids o := by
  unfold property propertyKey
  rw [typeExpr_of_typesAlike ids o h, hid, hname, hrequired]

end Field

/-! ## Options -/

theorem RenderOptions.linkType_of_options {o o' : RenderOptions} (hnames : o.namePrefix = o'.namePrefix)
    (haliases : o.linkAliases = o'.linkAliases) : o.linkType = o'.linkType := by
  funext target
  unfold linkType entryName
  rw [hnames, haliases]

namespace Field

theorem levelType_of_options {o o' : RenderOptions} (ids : List String) (hnames : o.namePrefix = o'.namePrefix)
    (harrays : o.readonlyArrays = o'.readonlyArrays) (haliases : o.linkAliases = o'.linkAliases)
    (spec : FieldSpec) (element : TypeExpr) : levelType ids o spec element = levelType ids o' spec element := by
  unfold levelType taggedType linkedType entryLinkType RenderOptions.arrayForm
  rw [RenderOptions.linkType_of_options hnames haliases, harrays]

theorem typeExpr_of_options {o o' : RenderOptions} (ids : List String) (hnames : o.namePrefix = o'.namePrefix)
    (harrays : o.readonlyArrays = o'.readonlyArrays) (haliases : o.linkAliases = o'.linkAliases) (f : Field) :
    f.typeExpr ids o = f.typeExpr ids o' := by
  apply typeExpr_rel rfl
  rintro s - e _ rfl
  exact levelType_of_options ids hnames harrays haliases s e

end Field

end Typings
