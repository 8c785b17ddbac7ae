import Typings.Proofs.Declaration.References
import Typings.Proofs.TypeExpr.Relevance

/-!
# Blocks stand on their own

A content type has one block in the file. Of the other content types of the run the block observes
only whether the ids that its fields link to are among theirs: no order, no repetition, no other id.
-/

namespace Typings

/-! ## What a field observes -/

namespace Field

def LinksTo (f : Field) (id : String) : Prop := ∃ spec ∈ f.specs, spec.LinksTo id

theorem filter_linkTargets_congr {ids ids' : List String} {spec : FieldSpec}
    (h : ∀ id, spec.LinksTo id → (id ∈ ids ↔ id ∈ ids')) :
    (linkTargets spec.validations).filter ids.contains =
      (linkTargets spec.validations).filter ids'.contains := by
  apply List.filter_congr
  intro id hid
  rw [List.contains_eq_mem, List.contains_eq_mem]
  exact decide_eq_decide.mpr (h id (mem_linkTargets.mp hid))

theorem levelType_congr {ids ids' : List String} (o : RenderOptions) {spec : FieldSpec}
    (h : ∀ id, spec.LinksTo id → (id ∈ ids ↔ id ∈ ids')) (element : TypeExpr) :
    levelType ids o spec element = levelType ids' o spec element := by
  unfold levelType taggedType linkedType entryLinkType
  rw [filter_linkTargets_congr h]

theorem typeExpr_congr {ids ids' : List String} (o : RenderOptions) {f : Field}
    (h : ∀ id, f.LinksTo id → (id ∈ ids ↔ id ∈ ids')) : f.typeExpr ids o = f.typeExpr ids' o := by
  apply typeExpr_rel rfl
  rintro s hs e _ rfl
  exact levelType_congr o (fun id hid => h id ⟨s, hs, hid⟩) e

theorem render_congr {ids ids' : List String} (o : RenderOptions) {f : Field}
    (h : ∀ id, f.LinksTo id → (id ∈ ids ↔ id ∈ ids')) : f.render ids o = f.render ids' o := by
  unfold render property
  rw [typeExpr_congr o h]

end Field

/-! ## The block of a content type -/

namespace ContentType

def LinksTo (ct : ContentType) (id : String) : Prop := ∃ f ∈ ct.fields, f.LinksTo id

/-- What is written for a content type in a run with these content types. -/
def blockIn (o : RenderOptions) (cts : List ContentType) (ct : ContentType) : String :=
  ct.render (cts.map id) o

theorem blockIn_congr (o : RenderOptions) {cts cts' : List ContentType} {ct : ContentType}
    (h : ∀ id, ct.LinksTo id → (id ∈ cts.map ContentType.id ↔ id ∈ cts'.map ContentType.id)) :
    ct.blockIn o cts = ct.blockIn o cts' := by
  have hfields : ct.fields.map (Field.render (cts.map id) o) =
      ct.fields.map (Field.render (cts'.map id) o) := by
    apply List.map_congr_left
    intro f hf
    exact Field.render_congr o fun id hid => h id ⟨f, hf, hid⟩
  unfold blockIn render fieldsInterface
  rw [hfields]

theorem blockIn_insert (o : RenderOptions) {before after : List ContentType} {extra ct : ContentType}
    (h : ¬ ct.LinksTo extra.id) :
    ct.blockIn o (before ++ extra :: after) = ct.blockIn o (before ++ after) := by
  apply blockIn_congr
  intro id hid
  have hne : id ≠ extra.id := by
    rintro rfl
    exact h hid
  simp [hne]

end ContentType

/-! ## The file -/

/-- The file that consists of these blocks. -/
def fileOf (blocks : List String) : String :=
  banner blocks.length ++ Core.text ++ "\n\n" ++ "\n".intercalate blocks

theorem declarationFile_eq_fileOf (o : RenderOptions) (cts : List ContentType) :
    declarationFile o cts = fileOf (cts.map (ContentType.blockIn o cts)) := by
  unfold declarationFile fileOf
  rw [List.length_map]
  rfl

theorem declarationFile_of_mem_iff (o : RenderOptions) {cts cts' : List ContentType}
    (h : ∀ ct, ct ∈ cts' ↔ ct ∈ cts) :
    declarationFile o cts' = fileOf (cts'.map (ContentType.blockIn o cts)) := by
  have hids (id : String) : id ∈ cts'.map ContentType.id ↔ id ∈ cts.map ContentType.id := by
    simp only [List.mem_map, h]
  have hblock : ContentType.blockIn o cts' = ContentType.blockIn o cts := by
    funext ct
    exact ContentType.blockIn_congr o fun id _ => hids id
  rw [declarationFile_eq_fileOf, hblock]

/-- The block of a content type is the same in any two runs that have the same of its link targets.
So a permutation of the run permutes the blocks, a repetition repeats one, and a content type that
is no target of another one may come or go without changing that one's block. -/
theorem declarationFile_blocks (o : RenderOptions) (cts : List ContentType) :
    declarationFile o cts = fileOf (cts.map (ContentType.blockIn o cts)) ∧
      (∀ cts', ∀ ct ∈ cts, ct ∈ cts' →
        (∀ id, ct.LinksTo id → (id ∈ cts.map ContentType.id ↔ id ∈ cts'.map ContentType.id)) →
        ct.blockIn o cts = ct.blockIn o cts') ∧
      (∀ cts', cts.Perm cts' →
        declarationFile o cts' = fileOf (cts'.map (ContentType.blockIn o cts))) ∧
      (∀ before after, cts = before ++ after → ∀ ct ∈ cts,
        declarationFile o (before ++ ct :: after) =
          fileOf ((before ++ ct :: after).map (ContentType.blockIn o cts))) ∧
      ∀ before after extra, cts = before ++ after → ∀ ct ∈ cts, ¬ ct.LinksTo extra.id →
        ct.blockIn o (before ++ extra :: after) = ct.blockIn o cts := by
  refine ⟨declarationFile_eq_fileOf o cts, ?_, ?_, ?_, ?_⟩
  · intro cts' ct _ _ h
    exact ContentType.blockIn_congr o h
  · intro cts' h
    exact declarationFile_of_mem_iff o fun ct => h.mem_iff.symm
  · intro before after hcts ct hct
    apply declarationFile_of_mem_iff
    intro other
    rw [hcts, List.mem_append] at hct
    rw [hcts, List.mem_append, List.mem_append, List.mem_cons]
    constructor
    · rintro (h | rfl | h)
      · exact Or.inl h
      · exact hct
      · exact Or.inr h
    · rintro (h | h)
      · exact Or.inl h
      · exact Or.inr (Or.inr h)
  · intro before after extra hcts ct _ h
    rw [hcts]
    exact ContentType.blockIn_insert o h

theorem ContentType.linksTo_linked {id : String} (h : ContentType.linked.LinksTo id) :
    id = "node" ∨ id = "nowhere" := by
  have htargets : linkTargets ContentType.nextLink.validations = ["node", "nowhere", "node"] := rfl
  obtain ⟨f, hf, spec, hspec, hid⟩ := h
  rw [ContentType.linked, List.mem_singleton] at hf
  subst hf
  rw [← Field.mem_linkTargets] at hid
  simp only [Field.specs, List.mem_cons, List.not_mem_nil, or_false] at hspec
  rcases hspec with rfl | rfl
  · exact absurd hid List.not_mem_nil
  · rw [htargets] at hid
    simpa [or_comm, or_assoc] using hid

theorem declarationFile_blocks_linked :
    [ContentType.linked, ContentType.quoting].Perm [ContentType.quoting, ContentType.linked] ∧
      ¬ ContentType.linked.LinksTo ContentType.quoting.id ∧
      ContentType.linked.blockIn {} [ContentType.linked, ContentType.quoting] =
        ContentType.linked.blockIn {} [ContentType.linked, ContentType.linked] ∧
      declarationFile {} [ContentType.quoting, ContentType.linked] =
        fileOf ([ContentType.quoting, ContentType.linked].map
          (ContentType.blockIn {} [ContentType.linked, ContentType.quoting])) ∧
      declarationFile {} [ContentType.linked, ContentType.quoting, ContentType.linked] =
        fileOf ([ContentType.linked, ContentType.quoting, ContentType.linked].map
          (ContentType.blockIn {} [ContentType.linked, ContentType.quoting])) ∧
      ContentType.linked.blockIn {} [ContentType.linked, ContentType.quoting, ContentType.quoting] =
        ContentType.linked.blockIn {} [ContentType.linked, ContentType.quoting] := by
  have hin : ContentType.linked ∈ [ContentType.linked, ContentType.quoting] := List.mem_cons_self
  have hperm := List.Perm.swap ContentType.quoting ContentType.linked []
  have hother : ¬ ContentType.linked.LinksTo ContentType.quoting.id := by
    intro h
    exact absurd (ContentType.linksTo_linked h) (by decide)
  obtain ⟨-, htwo, horder, hagain, hmore⟩ :=
    declarationFile_blocks {} [ContentType.linked, ContentType.quoting]
  refine ⟨hperm, hother, htwo _ _ hin List.mem_cons_self ?_, horder _ hperm,
    hagain [ContentType.linked, ContentType.quoting] [] rfl _ hin,
    hmore [ContentType.linked] [ContentType.quoting] ContentType.quoting rfl _ hin hother⟩
  intro id hid
  rcases ContentType.linksTo_linked hid with rfl | rfl <;> decide

end Typings
