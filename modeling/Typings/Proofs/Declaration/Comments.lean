import Typings.Proofs.Declaration.Tokens

/-!
# Notes and descriptions stay in their comments

The code of a declaration file does not depend on any note or description, and each of them is
exactly one comment.
-/

namespace Typings

open Script

/-! ## Without notes and descriptions -/

def FieldSpec.uncommented (spec : FieldSpec) : FieldSpec := { spec with note := none }

def Field.uncommented (f : Field) : Field where
  spec := f.spec.uncommented
  items := f.items.map FieldSpec.uncommented

/-- The content type without its description and without the notes at any level of its fields. -/
def ContentType.uncommented (ct : ContentType) : ContentType :=
  { ct with description := none, fields := ct.fields.map Field.uncommented }

theorem ContentType.map_id_uncommented (cts : List ContentType) :
    (cts.map ContentType.uncommented).map ContentType.id = cts.map ContentType.id := by
  rw [List.map_map]
  rfl

theorem Field.chainType_uncommented (ids : List String) (o : RenderOptions) (room : Nat)
    (spec : FieldSpec) (items : List FieldSpec) :
    chainType ids o room spec.uncommented (items.map FieldSpec.uncommented) =
      chainType ids o room spec items := by
  induction room generalizing spec items with
  | zero => rfl
  | succ room ih =>
    cases items with
    | nil => rfl
    | cons item deeper =>
      rw [List.map_cons, chainType, chainType, ih]
      rfl

theorem Field.property_uncommented (ids : List String) (o : RenderOptions) (f : Field) :
    f.uncommented.property ids o = f.property ids o := by
  unfold property typeExpr uncommented
  rw [chainType_uncommented]
  rfl

/-! ## Code and comments of the parts -/

theorem comments_of_code {ts : List Token} (h : code ts = ts) : comments ts = [] := by
  unfold code at h
  unfold comments
  rw [List.filter_eq_self] at h
  rw [List.filter_eq_nil_iff]
  intro t ht
  simpa using h t ht

theorem code_docTokens (s : String) : code (docTokens s) = [] := by
  unfold docTokens
  split <;> rfl

theorem length_comments_docTokens (s : String) :
    (comments (docTokens s)).length = if s = "" then 0 else 1 := by
  unfold docTokens
  split <;> rfl

theorem Property.code_suffixTokens (o : RenderOptions) (p : Property) :
    code (p.suffixTokens o) = p.suffixTokens o := by
  unfold suffixTokens
  split <;> rfl

theorem Property.code_tokens (o : RenderOptions) (p : Property) : code (p.tokens o) = p.tokens o := by
  have hmarker : code (if p.required then [] else [Token.punct '?']) =
      if p.required then [] else [Token.punct '?'] := by
    split <;> rfl
  unfold tokens
  simp only [code_append, code_word, code_punct, code_nil, hmarker, code_suffixTokens,
    TypeExpr.code_tokens]

theorem ContentType.code_entryTokens (o : RenderOptions) (ct : ContentType) :
    code (ct.entryTokens o) = ct.entryTokens o := by
  unfold entryTokens
  split <;> rfl

set_option maxRecDepth 10000 in
theorem Core.code_tokens : code Core.tokens = Core.tokens := by
  rfl

/-! ## The code of the file -/

theorem Field.code_tokens (ids : List String) (o : RenderOptions) (f : Field) :
    code (f.tokens ids o) = (f.property ids o).tokens o := by
  rw [tokens, code_append, code_docTokens, Property.code_tokens]
  rfl

theorem ContentType.code_tokens (ids : List String) (o : RenderOptions) (ct : ContentType) :
    code (ct.tokens ids o) =
      [Token.word "export", .word "interface", .word (fieldsName (o.entryName ct.id)),
          .punct '\x7b'] ++
        ct.fields.flatMap (fun f => (f.property ids o).tokens o) ++ [Token.punct '\x7d'] ++
        ct.entryTokens o := by
  have hfields : code (ct.fields.flatMap (Field.tokens ids o)) =
      ct.fields.flatMap fun f => (f.property ids o).tokens o := by
    rw [code_flatMap]
    simp only [Field.code_tokens]
  unfold tokens fieldsTokens
  rw [code_append, code_append, code_append, code_append, code_docTokens, hfields, code_entryTokens]
  rfl

theorem ContentType.code_tokens_uncommented (ids : List String) (o : RenderOptions) (ct : ContentType) :
    code (ct.uncommented.tokens ids o) = code (ct.tokens ids o) := by
  have hfields : ct.uncommented.fields.flatMap (fun f => (f.property ids o).tokens o) =
      ct.fields.flatMap fun f => (f.property ids o).tokens o := by
    unfold uncommented
    rw [List.flatMap_map]
    simp only [Field.property_uncommented]
  rw [code_tokens, code_tokens, hfields]
  rfl

theorem code_fileTokens (o : RenderOptions) (cts : List ContentType) :
    code (fileTokens o cts) =
      Core.tokens ++ cts.flatMap fun ct => code (ct.tokens (cts.map ContentType.id) o) := by
  have hbanner : code [Token.comment (String.ofList (bannerBody cts.length))] = [] := rfl
  unfold fileTokens
  rw [← List.singleton_append, code_append, code_append, hbanner, Core.code_tokens, code_flatMap,
    List.nil_append]

theorem code_fileTokens_uncommented (o : RenderOptions) (cts : List ContentType) :
    code (fileTokens o (cts.map ContentType.uncommented)) = code (fileTokens o cts) := by
  have hblock (ct : ContentType) : code (ct.uncommented.tokens (cts.map ContentType.id) o) =
      code (ct.tokens (cts.map ContentType.id) o) := ct.code_tokens_uncommented _ o
  rw [code_fileTokens, code_fileTokens, ContentType.map_id_uncommented, List.flatMap_map]
  simp only [hblock]

/-! ## The number of comments -/

def ContentType.isDescribed (ct : ContentType) : Bool := ct.description.getD "" != ""

/-- Whether something is left of the note without the blanks around it. -/
def Field.isAnnotated (f : Field) : Bool := Text.trim (f.spec.note.getD "") != ""

def commentCount (cts : List ContentType) : Nat :=
  cts.countP ContentType.isDescribed + (cts.flatMap ContentType.fields).countP Field.isAnnotated

theorem Field.length_comments_tokens (ids : List String) (o : RenderOptions) (f : Field) :
    (comments (f.tokens ids o)).length = if f.isAnnotated then 1 else 0 := by
  rw [tokens, comments_append, comments_of_code (Property.code_tokens _ _), List.append_nil,
    length_comments_docTokens]
  unfold isAnnotated
  simp

theorem Field.length_comments_flatMap (ids : List String) (o : RenderOptions) (fields : List Field) :
    (comments (fields.flatMap (Field.tokens ids o))).length = fields.countP Field.isAnnotated := by
  induction fields with
  | nil => rfl
  | cons f rest ih =>
    rw [List.flatMap_cons, comments_append, List.length_append, ih, length_comments_tokens,
      List.countP_cons]
    omega

theorem ContentType.length_comments_tokens (ids : List String) (o : RenderOptions) (ct : ContentType) :
    (comments (ct.tokens ids o)).length =
      (if ct.isDescribed then 1 else 0) + ct.fields.countP Field.isAnnotated := by
  have hopen : comments [Token.word "export", .word "interface",
      .word (fieldsName (o.entryName ct.id)), .punct '\x7b'] = [] := rfl
  have hclose : comments [Token.punct '\x7d'] = [] := rfl
  have hdescribed : (comments (docTokens (ct.description.getD ""))).length =
      if ct.isDescribed then 1 else 0 := by
    rw [length_comments_docTokens]
    unfold isDescribed
    simp
  unfold tokens fieldsTokens
  simp only [comments_append, List.length_append, hopen, hclose,
    comments_of_code (code_entryTokens o ct), hdescribed, Field.length_comments_flatMap,
    List.length_nil]
  omega

theorem length_comments_fileTokens (o : RenderOptions) (cts : List ContentType) :
    (comments (fileTokens o cts)).length = 1 + commentCount cts := by
  have hblocks (ids : List String) (blocks : List ContentType) :
      (comments (blocks.flatMap (ContentType.tokens ids o))).length = commentCount blocks := by
    unfold commentCount
    induction blocks with
    | nil => rfl
    | cons ct rest ih =>
      rw [List.flatMap_cons, comments_append, List.length_append, ih,
        ContentType.length_comments_tokens, List.flatMap_cons, List.countP_append, List.countP_cons]
      omega
  have hbanner : comments [Token.comment (String.ofList (bannerBody cts.length))] =
      [Token.comment (String.ofList (bannerBody cts.length))] := rfl
  unfold fileTokens
  rw [← List.singleton_append]
  simp only [comments_append, List.length_append, hblocks, hbanner, comments_of_code Core.code_tokens]
  simp

/-! ## The file -/

/-- Files that differ in notes and descriptions only have the same code, and as many comments as
there are such texts, after the one at the top. -/
theorem scan_declarationFile_uncommented (o : RenderOptions) (cts cts' : List ContentType)
    (hp : Naming.isIdentifier o.namePrefix = true)
    (hids : o.brandEntries = true → ∀ ct ∈ cts, ContentType.PlainId ct.id)
    (hsame : cts.map ContentType.uncommented = cts'.map ContentType.uncommented) :
    ∃ ts ts', scan (declarationFile o cts) = some ts ∧ scan (declarationFile o cts') = some ts' ∧
      code ts = code ts' ∧
      (comments ts).length = 1 + commentCount cts ∧ (comments ts').length = 1 + commentCount cts' := by
  have hmap : cts.map ContentType.id = cts'.map ContentType.id := by
    rw [← ContentType.map_id_uncommented, hsame, ContentType.map_id_uncommented]
  have hids' : o.brandEntries = true → ∀ ct ∈ cts', ContentType.PlainId ct.id := by
    intro hb ct hct
    have hmem : ct.id ∈ cts.map ContentType.id := hmap ▸ List.mem_map_of_mem hct
    obtain ⟨twin, htwin, hid⟩ := List.mem_map.mp hmem
    exact hid ▸ hids hb twin htwin
  refine ⟨_, _, scan_declarationFile hp cts hids, scan_declarationFile hp cts' hids', ?_,
    length_comments_fileTokens o cts, length_comments_fileTokens o cts'⟩
  rw [← code_fileTokens_uncommented, hsame, code_fileTokens_uncommented]

/-- A content type that says the same about itself and about its only field. -/
def ContentType.remarked (text : String) : ContentType where
  system := ⟨"remark", "ContentType"⟩
  name := "Remark"
  description := some text
  fields := [⟨⟨some "body", none, some "Text", true, some text, [], none⟩, []⟩]

theorem scan_declarationFile_remarked :
    Naming.isIdentifier ({} : RenderOptions).namePrefix = true ∧
      (∀ ct ∈ [ContentType.remarked "**/ \x7d /*"], ContentType.PlainId ct.id) ∧
      [ContentType.remarked "**/ \x7d /*"].map ContentType.uncommented =
        [ContentType.remarked " "].map ContentType.uncommented ∧
      ∃ ts ts', scan (declarationFile {} [ContentType.remarked "**/ \x7d /*"]) = some ts ∧
        scan (declarationFile {} [ContentType.remarked " "]) = some ts' ∧
        code ts = code ts' ∧ (comments ts).length = 3 ∧ (comments ts').length = 2 := by
  have hp : Naming.isIdentifier ({} : RenderOptions).namePrefix = true := rfl
  have hids : ∀ ct ∈ [ContentType.remarked "**/ \x7d /*"], ContentType.PlainId ct.id := by
    intro ct hct
    rw [List.mem_singleton] at hct
    subst hct
    exact ContentType.plainId_of_all rfl
  have hsame : [ContentType.remarked "**/ \x7d /*"].map ContentType.uncommented =
      [ContentType.remarked " "].map ContentType.uncommented := rfl
  have hlong : 1 + commentCount [ContentType.remarked "**/ \x7d /*"] = 3 := rfl
  have hshort : 1 + commentCount [ContentType.remarked " "] = 2 := rfl
  have hfiles := scan_declarationFile_uncommented {} _ _ hp (fun _ => hids) hsame
  rw [hlong, hshort] at hfiles
  exact ⟨hp, hids, hsame, hfiles⟩

end Typings
