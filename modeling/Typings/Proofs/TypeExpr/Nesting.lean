import Typings.Proofs.TypeExpr.References

/-!
# How deep the mapping looks

The mapping follows items down to a limit, and takes what lies deeper for unknown. This is no more
than a cut: the field without its deeper items is mapped as it would be without any limit.
-/

namespace Typings

/-- The text of a type, so many times wrapped as an array. -/
def ArrayForm.wrapTimes (form : ArrayForm) : Nat → String → String
  | 0, inner => inner
  | n + 1, inner => form.wrap (form.wrapTimes n inner)

namespace Field

/-! ## No limit -/

/-- The type of a definition and of all the items below it. -/
def unlimitedChain (ids : List String) (o : RenderOptions) : FieldSpec → List FieldSpec → TypeExpr
  | spec, [] => levelType ids o spec (.oneOf .unknown [])
  | spec, item :: deeper => levelType ids o spec (unlimitedChain ids o item deeper)

/-- The type of a field if its items are followed to the end. -/
def unlimitedType (ids : List String) (o : RenderOptions) (f : Field) : TypeExpr :=
  unlimitedChain ids o f.spec f.items

/-- The field in which the definition that so many steps lead to has no items. -/
def cutBelow (steps : Nat) (f : Field) : Field := ⟨f.spec, f.items.take steps⟩

variable (ids : List String) (o : RenderOptions)

theorem chainType_eq_unlimitedChain (room : Nat) (spec : FieldSpec) (items : List FieldSpec) :
    chainType ids o room spec items = unlimitedChain ids o spec (items.take room) := by
  induction room generalizing spec items with
  | zero => rfl
  | succ room ih =>
    cases items with
    | nil => rfl
    | cons item deeper => rw [chainType, List.take_succ_cons, unlimitedChain, ih]

theorem typeExpr_eq_unlimitedType (f : Field) :
    f.typeExpr ids o = (f.cutBelow nestingLimit).unlimitedType ids o :=
  chainType_eq_unlimitedChain ids o nestingLimit f.spec f.items

theorem cutBelow_of_length_le {f : Field} {steps : Nat} (h : f.items.length ≤ steps) :
    f.cutBelow steps = f := by
  rw [cutBelow, List.take_of_length_le h]

/-! ## Arrays of arrays -/

theorem levelType_of_isPlainArray {spec : FieldSpec} (h : IsPlainArray spec) (element : TypeExpr) :
    levelType ids o spec element = .array o.arrayForm element := by
  obtain ⟨htag, hlits⟩ := h
  rw [levelType, literalUnion, hlits, taggedType, htag]
  rfl

theorem array_of_ofTag {tag : Option String} (h : FieldKind.ofTag tag = .array) : tag = some "Array" := by
  unfold FieldKind.ofTag at h
  split at h
  case h_12 => rfl
  all_goals cases h

theorem levelType_of_not_isPlainArray {spec : FieldSpec} (h : ¬ IsPlainArray spec) (element element' : TypeExpr) :
    levelType ids o spec element = levelType ids o spec element' := by
  unfold levelType literalUnion
  cases hlits : literalsOf spec.validations with
  | cons first others => rfl
  | nil =>
    rw [Option.getD_none, Option.getD_none, taggedType, taggedType]
    cases hkind : FieldKind.ofTag spec.type with
    | array => exact absurd ⟨array_of_ofTag hkind, hlits⟩ h
    | _ => rfl

theorem unlimitedChain_eq_levelType (spec : FieldSpec) (items : List FieldSpec) :
    ∃ element, unlimitedChain ids o spec items = levelType ids o spec element := by
  cases items <;> exact ⟨_, rfl⟩

theorem render_unlimitedChain_of_leaf {arrays : List FieldSpec} (harrays : ∀ s ∈ arrays, IsPlainArray s)
    {leaf : FieldSpec} (hleaf : ¬ IsPlainArray leaf) {spec : FieldSpec} {below items : List FieldSpec}
    (heq : spec :: items = arrays ++ leaf :: below) (element : TypeExpr) :
    (unlimitedChain ids o spec items).render =
      o.arrayForm.wrapTimes arrays.length (levelType ids o leaf element).render := by
  induction arrays generalizing spec items with
  | nil =>
    obtain ⟨rfl, rfl⟩ := List.cons.inj heq
    obtain ⟨inner, hinner⟩ := unlimitedChain_eq_levelType ids o spec items
    rw [hinner, levelType_of_not_isPlainArray ids o hleaf inner element]
    rfl
  | cons array rest ih =>
    obtain ⟨rfl, hitems⟩ := List.cons.inj heq
    obtain ⟨item, deeper, hdeeper⟩ : ∃ item deeper, rest ++ leaf :: below = item :: deeper :=
      List.exists_cons_of_ne_nil (by simp)
    have hrest := ih (fun s hs => harrays s (List.mem_cons_of_mem _ hs)) hdeeper.symm
    rw [hitems.trans hdeeper, unlimitedChain, levelType_of_isPlainArray ids o (harrays spec List.mem_cons_self),
      TypeExpr.render, hrest]
    rfl

theorem render_unlimitedChain_of_arrays {spec : FieldSpec} {items : List FieldSpec}
    (harrays : ∀ s ∈ spec :: items, IsPlainArray s) :
    (unlimitedChain ids o spec items).render = o.arrayForm.wrapTimes (items.length + 1) "unknown" := by
  induction items generalizing spec with
  | nil =>
    rw [unlimitedChain, levelType_of_isPlainArray ids o (harrays spec List.mem_cons_self)]
    rfl
  | cons item deeper ih =>
    have hdeeper := ih fun s hs => harrays s (List.mem_cons_of_mem _ hs)
    rw [unlimitedChain, levelType_of_isPlainArray ids o (harrays spec List.mem_cons_self), TypeExpr.render, hdeeper]
    rfl

theorem render_typeExpr_of_arrays {f : Field} {arrays below : List FieldSpec} {leaf : FieldSpec}
    (hspecs : f.specs = arrays ++ leaf :: below) (harrays : ∀ s ∈ arrays, IsPlainArray s)
    (hleaf : ¬ IsPlainArray leaf) :
    (f.typeExpr ids o).render =
      if arrays.length ≤ nestingLimit then
        o.arrayForm.wrapTimes arrays.length ((⟨leaf, below⟩ : Field).typeExpr ids o).render
      else o.arrayForm.wrapTimes (nestingLimit + 1) "unknown" := by
  have hcut : f.spec :: f.items.take nestingLimit = (arrays ++ leaf :: below).take (nestingLimit + 1) :=
    congrArg (List.take (nestingLimit + 1)) hspecs
  have htype : f.typeExpr ids o = unlimitedChain ids o f.spec (f.items.take nestingLimit) :=
    typeExpr_eq_unlimitedType ids o f
  rw [htype]
  split
  · rename_i hshort
    obtain ⟨element, hleafType⟩ := unlimitedChain_eq_levelType ids o leaf (below.take nestingLimit)
    have hroom : nestingLimit + 1 - arrays.length = nestingLimit - arrays.length + 1 := by omega
    have harraysLength : arrays.length ≤ nestingLimit + 1 := by omega
    rw [List.take_append, List.take_of_length_le harraysLength, hroom, List.take_succ_cons] at hcut
    rw [typeExpr_eq_unlimitedType, unlimitedType, cutBelow, hleafType]
    exact render_unlimitedChain_of_leaf ids o harrays hleaf hcut element
  · rename_i hlong
    rw [List.take_append_of_le_length (by omega)] at hcut
    have hlevels : ∀ s ∈ f.spec :: f.items.take nestingLimit, IsPlainArray s := by
      intro s hs
      rw [hcut] at hs
      exact harrays s (List.mem_of_mem_take hs)
    have hlength : (f.items.take nestingLimit).length = nestingLimit := by
      have := congrArg List.length hcut
      rw [List.length_cons, List.length_take (l := arrays)] at this
      omega
    rw [render_unlimitedChain_of_arrays ids o hlevels, hlength]

/-! ## The limit is a cut -/

/-- A field has the type that its cut at the limit has without any limit. So a field that is not
deeper than the limit is followed to the end, what lies deeper than the limit shows nowhere, and
arrays around a leaf that is none wrap the leaf's type as often as there are arrays, up to the limit;
more arrays are the unknown type, wrapped once more than the limit says. -/
theorem property_cutBelow :
    (∀ f : Field, (f.property ids o).type = (f.cutBelow 32).unlimitedType ids o) ∧
    (∀ f : Field, f.items.length ≤ 32 → (f.property ids o).type = f.unlimitedType ids o) ∧
    (∀ f g : Field, f.spec = g.spec → f.items.take 32 = g.items.take 32 → f.property ids o = g.property ids o) ∧
    ∀ (f : Field) (arrays below : List FieldSpec) (leaf : FieldSpec), f.specs = arrays ++ leaf :: below →
      (∀ s ∈ arrays, IsPlainArray s) → ¬ IsPlainArray leaf →
      (f.property ids o).type.render =
        if arrays.length ≤ 32 then
          o.arrayForm.wrapTimes arrays.length ((⟨leaf, below⟩ : Field).property ids o).type.render
        else o.arrayForm.wrapTimes 33 "unknown" := by
  have hcut (f : Field) : f.typeExpr ids o = (f.cutBelow 32).unlimitedType ids o :=
    typeExpr_eq_unlimitedType ids o f
  refine ⟨hcut, fun f hlength => ?_, fun f g hspec hitems => ?_, fun f arrays below leaf hspecs harrays hleaf => ?_⟩
  · rw [property, hcut, cutBelow_of_length_le hlength]
  · have hcuts : f.cutBelow 32 = g.cutBelow 32 := by rw [cutBelow, cutBelow, hspec, hitems]
    unfold property propertyKey
    rw [hcut f, hcut g, hcuts, hspec]
  · exact render_typeExpr_of_arrays ids o hspecs harrays hleaf

/-- A definition with nothing but a type tag. -/
def taggedSpec (tag : String) : FieldSpec := ⟨none, none, some tag, false, none, [], none⟩

/-- Texts in an array, and so many more arrays between the two. -/
def textsWithin (more : Nat) : Field :=
  ⟨taggedSpec "Array", List.replicate more (taggedSpec "Array") ++ [taggedSpec "Text"]⟩

theorem property_cutBelow_texts :
    ((textsWithin 31).property [] {}).type = (textsWithin 31).unlimitedType [] {} ∧
      ((textsWithin 31).property [] {}).type.render = ArrayForm.mutable.wrapTimes 32 "string" ∧
      ((textsWithin 32).property [] {}).type.render = ArrayForm.mutable.wrapTimes 33 "unknown" ∧
      (textsWithin 32).property [] {} = (textsWithin 40).property [] {} := by
  obtain ⟨-, hshort, hbelow, hleaf⟩ := property_cutBelow [] {}
  have harrays (n : Nat) : ∀ s ∈ List.replicate n (taggedSpec "Array"), IsPlainArray s := by
    intro s hs
    rw [List.eq_of_mem_replicate hs]
    exact ⟨rfl, rfl⟩
  have htext : ¬ IsPlainArray (taggedSpec "Text") := fun h => absurd h.1 (by decide)
  refine ⟨hshort _ (by decide), ?_, ?_, hbelow _ _ rfl rfl⟩
  · have hrender := hleaf (textsWithin 31) (List.replicate 32 (taggedSpec "Array")) [] (taggedSpec "Text") rfl
      (harrays 32) htext
    rw [List.length_replicate, if_pos (by decide)] at hrender
    exact hrender
  · have hrender := hleaf (textsWithin 32) (List.replicate 33 (taggedSpec "Array")) [] (taggedSpec "Text") rfl
      (harrays 33) htext
    rw [List.length_replicate, if_neg (by decide)] at hrender
    exact hrender

end Field

end Typings
