import Mathlib.Data.List.Nodup
import Mathlib.Data.List.Perm.Basic
import Typings.Proofs.Declaration.References

/-!
# Declared names

The names of a file are distinct exactly if the naming functions keep the identifiers of the run
apart. They do not keep all of them apart: words may be joined in several ways.
-/

namespace Typings

open Script

/-! ## Type names -/

theorem ne_append_fields (s : String) : s ≠ s ++ "Fields" := by
  intro h
  have := congrArg String.length h
  simp at this

theorem names_declaredIn (o : RenderOptions) (cts : List ContentType) :
    (declaredIn o cts).map Declaration.name =
      Core.declared.map Declaration.name ++
        (cts.map ContentType.id).flatMap fun id => [fieldsName (o.entryName id), o.entryName id] := by
  unfold declaredIn
  rw [List.map_append, List.map_flatMap, List.flatMap_map]
  rfl

theorem nodup_typeNames_iff (o : RenderOptions) {ids : List String} (hids : ids.Nodup) :
    (ids.flatMap fun id => [fieldsName (o.entryName id), o.entryName id]).Nodup ↔
      ∀ a ∈ ids, ∀ b ∈ ids, a ≠ b → Naming.typeName a ≠ Naming.typeName b ∧
        Naming.typeName a ≠ Naming.typeName b ++ "Fields" := by
  have hperm := List.map_append_flatMap_perm ids (fun id => fieldsName (o.entryName id))
    fun id => [o.entryName id]
  rw [← hperm.nodup_iff, ← List.map_eq_flatMap, List.nodup_append, List.nodup_map_iff_inj_on hids,
    List.nodup_map_iff_inj_on hids]
  simp only [List.mem_map, fieldsName, RenderOptions.entryName, String.append_left_inj,
    String.append_right_inj, String.append_assoc]
  constructor
  · rintro ⟨hinj, -, hfields⟩ a ha b hb hne
    refine ⟨fun h => hne (hinj a ha b hb h), fun h => ?_⟩
    apply hfields _ ⟨b, hb, rfl⟩ _ ⟨a, ha, rfl⟩
    rw [h]
  · intro h
    have hinj : ∀ a ∈ ids, ∀ b ∈ ids, Naming.typeName a = Naming.typeName b → a = b := by
      intro a ha b hb heq
      by_contra hne
      exact (h a ha b hb hne).1 heq
    refine ⟨hinj, hinj, ?_⟩
    rintro _ ⟨b, hb, rfl⟩ _ ⟨a, ha, rfl⟩ heq
    rw [String.append_right_inj] at heq
    by_cases hab : a = b
    · rw [hab] at heq
      exact ne_append_fields _ heq.symm
    · exact (h a ha b hb hab).2 heq.symm

theorem core_ne_generated {name : String} (hcore : name ∈ Core.declared.map Declaration.name)
    (rest : String) : name ≠ "I" ++ rest := by
  rintro rfl
  rw [Core.names_declared] at hcore
  have hall : ∀ name ∈ ["Link", "EntrySys", "Entry", "AssetSys", "Asset", "Document"],
      name.toList.head? ≠ some 'I' := by decide
  apply hall _ hcore
  rw [String.toList_append]
  rfl

theorem nodup_names_declaredIn_iff {cts : List ContentType} (hids : (cts.map ContentType.id).Nodup) :
    ((declaredIn {} cts).map Declaration.name).Nodup ↔
      ∀ a ∈ cts.map ContentType.id, ∀ b ∈ cts.map ContentType.id, a ≠ b →
        Naming.typeName a ≠ Naming.typeName b ∧ Naming.typeName a ≠ Naming.typeName b ++ "Fields" := by
  have hcore : (Core.declared.map Declaration.name).Nodup := by
    rw [Core.names_declared]
    decide
  have hapart : ∀ name ∈ Core.declared.map Declaration.name,
      ∀ other ∈ (cts.map ContentType.id).flatMap fun id =>
        [fieldsName (({} : RenderOptions).entryName id), ({} : RenderOptions).entryName id],
      name ≠ other := by
    intro name hname other hother
    obtain ⟨id, -, hother⟩ := List.mem_flatMap.mp hother
    simp only [List.mem_cons, List.not_mem_nil, or_false] at hother
    rcases hother with rfl | rfl
    · unfold fieldsName RenderOptions.entryName
      rw [String.append_assoc]
      exact core_ne_generated hname _
    · exact core_ne_generated hname _
  rw [names_declaredIn, List.nodup_append, nodup_typeNames_iff {} hids]
  constructor
  · exact fun h => h.2.1
  · exact fun h => ⟨hcore, h, hapart⟩

/-! ## Member names -/

def Script.Declaration.memberNames (d : Declaration) : List String :=
  match d.body with
  | .interface _ members => members.map Member.name
  | .alias _ => []

namespace ContentType

/-- The ids of the fields; a field without one has the empty id. -/
def fieldIds (ct : ContentType) : List String := ct.fields.map fun f => f.spec.id.getD ""

theorem memberNames_fieldsDeclaration (ids : List String) (o : RenderOptions) {ct : ContentType}
    (h : "" ∉ ct.fieldIds) :
    (ct.fieldsDeclaration ids o).memberNames =
      ct.fieldIds.map fun id => Naming.propertyKey (some id) := by
  unfold fieldIds at *
  rw [List.map_map]
  have hnames : (ct.fieldsDeclaration ids o).memberNames = ct.fields.map Field.propertyKey := by
    simp [Script.Declaration.memberNames, fieldsDeclaration, Function.comp_def, Field.member,
      Field.property]
  rw [hnames]
  apply List.map_congr_left
  intro f hf
  have hne : f.spec.id.getD "" ≠ "" := fun hempty => h (List.mem_map.mpr ⟨f, hf, hempty⟩)
  unfold Field.propertyKey
  cases hid : f.spec.id with
  | none => simp [hid] at hne
  | some id =>
    have hid' : id ≠ "" := by simpa [hid] using hne
    simp [hid, hid']

theorem nodup_memberNames_iff (ids : List String) (o : RenderOptions) {ct : ContentType}
    (hnodup : ct.fieldIds.Nodup) (hempty : "" ∉ ct.fieldIds) :
    (ct.fieldsDeclaration ids o).memberNames.Nodup ↔
      ∀ a ∈ ct.fieldIds, ∀ b ∈ ct.fieldIds, a ≠ b → ¬ Naming.SameKey a b := by
  have hne : ∀ a ∈ ct.fieldIds, a ≠ "" := by
    rintro a ha rfl
    exact hempty ha
  rw [memberNames_fieldsDeclaration ids o hempty, List.nodup_map_iff_inj_on hnodup]
  constructor
  · intro h a ha b hb hab hsame
    exact hab (h a ha b hb ((Naming.propertyKey_eq_iff (hne a ha) (hne b hb)).mpr hsame))
  · intro h a ha b hb heq
    by_contra hab
    exact h a ha b hb hab ((Naming.propertyKey_eq_iff (hne a ha) (hne b hb)).mp heq)

end ContentType

/-! ## The file -/

/-- Of content types with distinct ids and distinct field ids, the declared names are distinct
exactly if no two ids give the same type name, also not with `Fields` after one of them; and the
members of an interface are distinct exactly if no two of its field ids give the same key. -/
theorem nodup_declaredIn (cts : List ContentType) (hids : (cts.map ContentType.id).Nodup)
    (hfields : ∀ ct ∈ cts, ct.fieldIds.Nodup ∧ "" ∉ ct.fieldIds) :
    ((∀ ct ∈ cts, ContentType.PlainId ct.id) →
        declarations (declarationFile {} cts) = some (declaredIn {} cts)) ∧
      (((declaredIn {} cts).map Declaration.name).Nodup ↔
        ∀ a ∈ cts.map ContentType.id, ∀ b ∈ cts.map ContentType.id, a ≠ b →
          Naming.typeName a ≠ Naming.typeName b ∧
            Naming.typeName a ≠ Naming.typeName b ++ "Fields") ∧
      ∀ ct ∈ cts, (ct.fieldsDeclaration (cts.map ContentType.id) {}).memberNames.Nodup ↔
        ∀ a ∈ ct.fieldIds, ∀ b ∈ ct.fieldIds, a ≠ b → ¬ Naming.SameKey a b := by
  refine ⟨fun hplain => ?_, nodup_names_declaredIn_iff hids, fun ct hct => ?_⟩
  · exact declarations_eq_declaredIn rfl cts fun _ => hplain
  · obtain ⟨hnodup, hempty⟩ := hfields ct hct
    exact ct.nodup_memberNames_iff _ {} hnodup hempty

/-- A content type with texts under these ids. -/
def ContentType.ofTexts (id : String) (fieldIds : List String) : ContentType where
  system := ⟨id, "ContentType"⟩
  name := ""
  description := none
  fields := fieldIds.map fun f => ⟨⟨some f, none, some "Text", false, none, [], none⟩, []⟩

/-- Ids that differ in their separators only. -/
def likeNamed : List ContentType :=
  [.ofTexts "page-link" ["a-b", "a_b"], .ofTexts "pageLink" []]

theorem not_nodup_likeNamed :
    (likeNamed.map ContentType.id).Nodup ∧
      (∀ ct ∈ likeNamed, ct.fieldIds.Nodup ∧ "" ∉ ct.fieldIds) ∧
      declarations (declarationFile {} likeNamed) = some (declaredIn {} likeNamed) ∧
      ¬ ((declaredIn {} likeNamed).map Declaration.name).Nodup ∧
      ∃ ct ∈ likeNamed,
        ¬ (ct.fieldsDeclaration (likeNamed.map ContentType.id) {}).memberNames.Nodup := by
  have hids : (likeNamed.map ContentType.id).Nodup := by decide
  have hfields : ∀ ct ∈ likeNamed, ct.fieldIds.Nodup ∧ "" ∉ ct.fieldIds := by decide
  have hplain : ∀ ct ∈ likeNamed, ContentType.PlainId ct.id := by
    intro ct hct
    simp only [likeNamed, List.mem_cons, List.not_mem_nil, or_false] at hct
    rcases hct with rfl | rfl <;> exact ContentType.plainId_of_all rfl
  refine ⟨hids, hfields, declarations_eq_declaredIn rfl likeNamed fun _ => hplain, ?_,
    .ofTexts "page-link" ["a-b", "a_b"], List.mem_cons_self, ?_⟩
  · rw [nodup_names_declaredIn_iff hids]
    intro h
    exact (h "page-link" (by decide) "pageLink" (by decide) (by decide)).1 (by decide)
  · rw [ContentType.nodup_memberNames_iff _ _ (by decide) (by decide)]
    intro h
    exact h "a-b" (by decide) "a_b" (by decide) (by decide) (Or.inl (by decide))

theorem nodup_declaredIn_texts :
    ([ContentType.ofTexts "page-link" ["a-b", "1a"], .ofTexts "pagelink" ["_2"]].map
        ContentType.id).Nodup ∧
      (∀ ct ∈ [ContentType.ofTexts "page-link" ["a-b", "1a"], .ofTexts "pagelink" ["_2"]],
        ct.fieldIds.Nodup ∧ "" ∉ ct.fieldIds) ∧
      ((declaredIn {} [ContentType.ofTexts "page-link" ["a-b", "1a"], .ofTexts "pagelink" ["_2"]]).map
        Declaration.name).Nodup ∧
      ((ContentType.ofTexts "page-link" ["a-b", "1a"]).fieldsDeclaration ["page-link", "pagelink"]
        {}).memberNames.Nodup := by
  have hids : ([ContentType.ofTexts "page-link" ["a-b", "1a"], .ofTexts "pagelink" ["_2"]].map
      ContentType.id).Nodup := by decide
  have hfields : ∀ ct ∈ [ContentType.ofTexts "page-link" ["a-b", "1a"], .ofTexts "pagelink" ["_2"]],
      ct.fieldIds.Nodup ∧ "" ∉ ct.fieldIds := by decide
  obtain ⟨-, hnames, hmembers⟩ := nodup_declaredIn _ hids hfields
  refine ⟨hids, hfields, hnames.mpr (by decide), (hmembers _ List.mem_cons_self).mpr ?_⟩
  unfold Naming.SameKey
  decide

end Typings
