import Typings.Declaration.File
import Typings.Proofs.TypeExpr.Mapping
import Typings.Proofs.TypeExpr.Relevance

/-!
# Each option has its own part of the file

A declaration file is cut into pieces, and of the options only the prefix decides how. Whether
optional properties hold `undefined` shows in the endings of their members, brands in the
declarations of entries, and the form of arrays in the types that are arrays.
-/

namespace Typings

/-! ## Pieces -/

/-- A piece of a declaration file: a text that the options leave as it is, or a part of the
declarations of a field or a content type. -/
inductive Piece where
  | fixed (text : String)
  | type (f : Field)
  /-- What follows the type of a field on its line. -/
  | ending (f : Field)
  | entry (ct : ContentType)

namespace Piece

/-- The text of a piece, in a run with these content types. -/
def text (o : RenderOptions) (cts : List ContentType) : Piece → String
  | .fixed text => text
  | .type f => (f.typeExpr (cts.map ContentType.id) o).render
  | .ending f => (f.property (cts.map ContentType.id) o).undefinedSuffix o ++ ";"
  | .entry ct => ct.entryDeclaration o

def varies : Piece → Bool
  | .fixed _ => false
  | _ => true

/-- What comes before a piece where optional properties hold `undefined`. -/
def inserted : Piece → String
  | .ending f => if f.spec.required then "" else " | undefined"
  | _ => ""

end Piece

/-- Two runs with these options write the same pieces, but for some of them. -/
def AgreeExcept (cts : List ContentType) (o o' : RenderOptions) (own : Piece → Prop) : Prop :=
  ∀ p, ¬ own p → p.text o cts = p.text o' cts

def joined (o : RenderOptions) (cts : List ContentType) (pieces : List Piece) : String :=
  String.join (pieces.map (Piece.text o cts))

/-- What comes before the type of a field: its note, and its key. -/
def Field.opening (f : Field) : String :=
  docComment 2 (Text.trim (f.spec.note.getD "")) ++ "  " ++ f.propertyKey ++ (if f.spec.required then "" else "?") ++ ": "

def Field.pieces (f : Field) : List Piece := [.fixed f.opening, .type f, .ending f]

namespace ContentType

/-- What comes before the members: the description, and the name of the interface. -/
def opening (namePrefix : String) (ct : ContentType) : String :=
  docComment 0 (ct.description.getD "") ++ "export interface " ++
    fieldsName (namePrefix ++ Naming.typeName ct.id) ++ " \x7b\n"

def pieces (namePrefix : String) (ct : ContentType) : List Piece :=
  .fixed (ct.opening namePrefix) :: [Piece.fixed "\n"].intercalate (ct.fields.map Field.pieces) ++
    [.fixed "\n\x7d\n", .entry ct]

end ContentType

def filePieces (namePrefix : String) (cts : List ContentType) : List Piece :=
  .fixed (banner cts.length ++ Core.text ++ "\n\n") ::
    [Piece.fixed "\n"].intercalate (cts.map (ContentType.pieces namePrefix))

/-! ## A file is its pieces -/

section

variable (o : RenderOptions) (cts : List ContentType)

theorem joined_cons (p : Piece) (pieces : List Piece) :
    joined o cts (p :: pieces) = p.text o cts ++ joined o cts pieces := by
  unfold joined
  rw [List.map_cons, String.join_cons]

theorem joined_append (pieces more : List Piece) :
    joined o cts (pieces ++ more) = joined o cts pieces ++ joined o cts more := by
  unfold joined
  rw [List.map_append, String.join_append]

theorem joined_intercalate (separator : String) (parts : List (List Piece)) :
    joined o cts ([Piece.fixed separator].intercalate parts) = separator.intercalate (parts.map (joined o cts)) := by
  induction parts with
  | nil => rfl
  | cons first rest ih =>
    cases rest with
    | nil => simp
    | cons second more =>
      have hseparator : joined o cts [.fixed separator] = separator := by simp [joined, Piece.text]
      rw [List.intercalate_cons_cons, joined_append, joined_append, ih, hseparator]
      simp only [List.map_cons, String.intercalate_cons_cons]

theorem Field.joined_pieces (f : Field) : joined o cts f.pieces = f.render (cts.map ContentType.id) o := by
  unfold joined pieces render Property.render opening
  simp [Piece.text, property, String.append_assoc]
  rfl

theorem ContentType.joined_pieces (ct : ContentType) :
    joined o cts (ct.pieces o.namePrefix) = ct.render (cts.map ContentType.id) o := by
  have hfields : (ct.fields.map Field.pieces).map (joined o cts) =
      ct.fields.map (Field.render (cts.map ContentType.id) o) := by
    simp only [List.map_map, Function.comp_def, Field.joined_pieces]
  unfold pieces render fieldsInterface opening RenderOptions.entryName
  rw [joined_append, joined_cons, joined_intercalate, hfields]
  simp [joined, Piece.text, String.append_assoc]

theorem joined_filePieces : joined o cts (filePieces o.namePrefix cts) = declarationFile o cts := by
  have hblocks : (cts.map (ContentType.pieces o.namePrefix)).map (joined o cts) =
      cts.map (ContentType.render (cts.map ContentType.id) o) := by
    simp only [List.map_map, Function.comp_def, ContentType.joined_pieces]
  unfold filePieces declarationFile
  rw [joined_cons, joined_intercalate, hblocks]
  rfl

end

theorem filter_intercalate (separator : String) (parts : List (List Piece)) :
    ([Piece.fixed separator].intercalate parts).filter Piece.varies = parts.flatMap (List.filter Piece.varies) := by
  induction parts with
  | nil => rfl
  | cons first rest ih =>
    cases rest with
    | nil => simp
    | cons second more =>
      have hseparator : [Piece.fixed separator].filter Piece.varies = [] := rfl
      rw [List.intercalate_cons_cons, List.filter_append, List.filter_append, ih, hseparator, List.append_nil]
      rfl

theorem ContentType.filter_pieces (namePrefix : String) (ct : ContentType) :
    (ct.pieces namePrefix).filter Piece.varies = (ct.fields.flatMap fun f => [.type f, .ending f]) ++ [.entry ct] := by
  have hopening : (Piece.fixed (ct.opening namePrefix)).varies = false := rfl
  have hclosing : [Piece.fixed "\n\x7d\n", .entry ct].filter Piece.varies = [.entry ct] := rfl
  unfold pieces
  rw [List.filter_append, List.filter_cons_of_neg (by simp [hopening]), filter_intercalate, List.flatMap_map, hclosing]
  rfl

theorem filter_filePieces (namePrefix : String) (cts : List ContentType) :
    (filePieces namePrefix cts).filter Piece.varies =
      cts.flatMap fun ct => (ct.fields.flatMap fun f => [.type f, .ending f]) ++ [.entry ct] := by
  unfold filePieces
  rw [List.filter_cons_of_neg (by simp [Piece.varies]), filter_intercalate, List.flatMap_map]
  simp only [ContentType.filter_pieces]

/-! ## Undefined values -/

section

variable (o : RenderOptions) (cts : List ContentType)

theorem Piece.text_undefinedOnOptional (p : Piece) :
    p.text { o with undefinedOnOptional := true } cts =
      p.inserted ++ p.text { o with undefinedOnOptional := false } cts := by
  cases p with
  | fixed text => exact (String.empty_append).symm
  | entry ct => exact (String.empty_append).symm
  | type f =>
    have htype : f.typeExpr (cts.map ContentType.id) { o with undefinedOnOptional := true } =
        f.typeExpr (cts.map ContentType.id) { o with undefinedOnOptional := false } := by
      apply Field.typeExpr_of_options <;> rfl
    exact (congrArg TypeExpr.render htype).trans String.empty_append.symm
  | ending f =>
    unfold text inserted Property.undefinedSuffix Field.property
    cases hrequired : f.spec.required <;> simp [hrequired]

/-! ## Brands -/

theorem agreeExcept_brandEntries (brand : Bool) :
    AgreeExcept cts { o with brandEntries := brand } o fun p => ∃ ct, p = .entry ct := by
  intro p hother
  cases p with
  | fixed text => rfl
  | entry ct => exact absurd ⟨ct, rfl⟩ hother
  | ending f => rfl
  | type f =>
    apply congrArg TypeExpr.render
    apply Field.typeExpr_of_options <;> rfl

end

/-! ## Arrays -/

def TypeExpr.IsArray : TypeExpr → Prop
  | .array _ _ => True
  | .oneOf _ _ => False

def TypeExpr.withForm (form : ArrayForm) : TypeExpr → TypeExpr
  | .oneOf first others => .oneOf first others
  | .array _ element => .array form (element.withForm form)

theorem TypeExpr.withForm_of_not_isArray {t : TypeExpr} (h : ¬ t.IsArray) (form : ArrayForm) : t.withForm form = t := by
  cases t with
  | oneOf first others => rfl
  | array _ element => exact absurd trivial h

/-- A read type with its arrays replaced by read-only ones. -/
def Script.TypeTree.frozen : TypeTree → TypeTree
  | .array element => .named "ReadonlyArray" [element.frozen]
  | t => t

theorem TypeExpr.tree_withForm (t : TypeExpr) : (t.withForm .readonly).tree = (t.withForm .mutable).tree.frozen := by
  induction t with
  | array _ element ih =>
    unfold withForm tree Script.TypeTree.frozen
    rw [ih]
  | oneOf first others =>
    cases others with
    | cons second rest => rfl
    | nil =>
      cases first with
      | literal l => cases l <;> rfl
      | _ => rfl

namespace Field

variable (ids : List String) (o : RenderOptions) (readonly : Bool)

theorem levelType_readonlyArrays (spec : FieldSpec) (element : TypeExpr) :
    levelType ids { o with readonlyArrays := readonly } spec
        (element.withForm (RenderOptions.arrayForm { o with readonlyArrays := readonly })) =
      (levelType ids o spec element).withForm (RenderOptions.arrayForm { o with readonlyArrays := readonly }) := by
  unfold levelType literalUnion taggedType linkedType entryLinkType
  cases literalsOf spec.validations with
  | cons first others => rfl
  | nil =>
    cases FieldKind.ofTag spec.type with
    | link =>
      cases LinkKind.ofTag spec.linkType with
      | entry => cases (linkTargets spec.validations).filter ids.contains <;> rfl
      | _ => rfl
    | _ => rfl

theorem typeExpr_readonlyArrays (f : Field) :
    f.typeExpr ids { o with readonlyArrays := readonly } =
      (f.typeExpr ids o).withForm (RenderOptions.arrayForm { o with readonlyArrays := readonly }) := by
  -- Level by level, the two types differ at most in the form of an array.
  apply typeExpr_rel
    (R := fun t t' => t = t'.withForm (RenderOptions.arrayForm { o with readonlyArrays := readonly })) rfl
  rintro s - _ e rfl
  exact levelType_readonlyArrays ids o readonly s e

theorem typeOf_typeExpr {f : Field} (hp : Naming.isIdentifier o.namePrefix = true) (hf : f.FiniteNumbers) :
    Script.typeOf (f.typeExpr ids o).render = some (f.typeExpr ids o).tree := by
  unfold Script.typeOf
  rw [scan_typeExpr hp, Option.bind_some, TypeExpr.code_tokens]
  exact ((f.typeExpr ids o).reads (finite_typeExpr ids o hf)).1.readType

end Field

theorem agreeExcept_readonlyArrays (o : RenderOptions) (cts : List ContentType) (readonly : Bool) :
    AgreeExcept cts { o with readonlyArrays := readonly } o
      fun p => ∃ f, p = .type f ∧ (f.typeExpr (cts.map ContentType.id) o).IsArray := by
  intro p hother
  cases p with
  | fixed text => rfl
  | entry ct => rfl
  | ending f => rfl
  | type f =>
    have hnot : ¬ (f.typeExpr (cts.map ContentType.id) o).IsArray := fun h => hother ⟨f, rfl, h⟩
    apply congrArg TypeExpr.render
    rw [Field.typeExpr_readonlyArrays, TypeExpr.withForm_of_not_isArray hnot]

/-! ## The file -/

/-- The pieces of a file are cut by the prefix alone: between fixed texts lie the type of each field, the
ending of its member, and the declaration of the entries of each content type. Of the other options
one adds text to endings, before the semicolon, one changes declarations of entries only, and one
only the types that are arrays, and in these only the form of the arrays. -/
theorem declarationFile_options (o : RenderOptions) (cts : List ContentType) :
    (∀ o', o'.namePrefix = o.namePrefix → declarationFile o' cts = joined o' cts (filePieces o.namePrefix cts)) ∧
    (filePieces o.namePrefix cts).filter Piece.varies =
      (cts.flatMap fun ct => (ct.fields.flatMap fun f => [.type f, .ending f]) ++ [.entry ct]) ∧
    declarationFile { o with undefinedOnOptional := true } cts =
      String.join ((filePieces o.namePrefix cts).map fun p =>
        p.inserted ++ p.text { o with undefinedOnOptional := false } cts) ∧
    (∀ f, (Piece.ending f).text { o with undefinedOnOptional := false } cts = ";") ∧
    (∀ brand, AgreeExcept cts { o with brandEntries := brand } o fun p => ∃ ct, p = .entry ct) ∧
    (∀ readonly, AgreeExcept cts { o with readonlyArrays := readonly } o
      fun p => ∃ f, p = .type f ∧ (f.typeExpr (cts.map ContentType.id) o).IsArray) ∧
    (∀ (f : Field) (readonly : Bool), f.typeExpr (cts.map ContentType.id) { o with readonlyArrays := readonly } =
      (f.typeExpr (cts.map ContentType.id) o).withForm (if readonly then .readonly else .mutable)) ∧
    (Naming.isIdentifier o.namePrefix = true → ∀ f : Field, f.FiniteNumbers → ∃ t,
      Script.typeOf (f.typeExpr (cts.map ContentType.id) { o with readonlyArrays := false }).render = some t ∧
      Script.typeOf (f.typeExpr (cts.map ContentType.id) { o with readonlyArrays := true }).render = some t.frozen) := by
  have hfile (o' : RenderOptions) (h : o'.namePrefix = o.namePrefix) :
      declarationFile o' cts = joined o' cts (filePieces o.namePrefix cts) := by
    rw [← h, joined_filePieces]
  refine ⟨hfile, filter_filePieces o.namePrefix cts, ?_, ?_, agreeExcept_brandEntries o cts,
    agreeExcept_readonlyArrays o cts, fun f readonly => f.typeExpr_readonlyArrays _ o readonly, ?_⟩
  · rw [hfile { o with undefinedOnOptional := true } rfl]
    exact congrArg (fun text => String.join ((filePieces o.namePrefix cts).map text))
      (funext (Piece.text_undefinedOnOptional o cts))
  · intro f
    simp [Piece.text, Property.undefinedSuffix]
  · intro hp f hf
    have hread (readonly : Bool) := Field.typeOf_typeExpr (cts.map ContentType.id)
      { o with readonlyArrays := readonly } hp hf
    refine ⟨_, hread false, (hread true).trans ?_⟩
    rw [f.typeExpr_readonlyArrays _ o true, f.typeExpr_readonlyArrays _ o false]
    exact congrArg some (TypeExpr.tree_withForm _)

/-- Rows of texts. The note and a text among them hold what the endings get. -/
def Field.rows : Field where
  spec := ⟨some "rows", none, some "Array", false, some "or | undefined;", [], none⟩
  items := [⟨none, none, some "Array", false, none, [], none⟩,
    ⟨none, none, none, false, none, [[("in", .list [.text "a | undefined;", .text "b"])]], none⟩]

def Field.size : Field := ⟨⟨some "size", none, some "Integer", true, none, [], none⟩, []⟩

def ContentType.table : ContentType := ⟨⟨"table", "ContentType"⟩, "Table", none, [Field.rows, Field.size]⟩

theorem declarationFile_options_table :
    Naming.isIdentifier ({} : RenderOptions).namePrefix = true ∧ Field.rows.FiniteNumbers ∧
      (filePieces "I" [ContentType.table]).filter Piece.varies =
        [.type Field.rows, .ending Field.rows, .type Field.size, .ending Field.size, .entry ContentType.table] ∧
      (Piece.ending Field.rows).inserted = " | undefined" ∧ (Piece.ending Field.size).inserted = "" ∧
      declarationFile {} [ContentType.table] =
        String.join ((filePieces "I" [ContentType.table]).map fun p =>
          p.inserted ++ p.text { undefinedOnOptional := false } [ContentType.table]) ∧
      (Piece.ending Field.rows).text { undefinedOnOptional := false } [ContentType.table] = ";" ∧
      Script.typeOf (Field.rows.typeExpr ["table"] { readonlyArrays := true }).render =
        some (.named "ReadonlyArray" [.named "ReadonlyArray" [.oneOf [.text "a | undefined;", .text "b"]]]) := by
  have hp : Naming.isIdentifier ({} : RenderOptions).namePrefix = true := rfl
  have hf : Field.rows.FiniteNumbers := (Field.finiteNumbers_iff _).mpr rfl
  obtain ⟨-, hvaries, hfile, hending, -, -, -, hread⟩ := declarationFile_options {} [ContentType.table]
  obtain ⟨t, ht, hfrozen⟩ := hread hp Field.rows hf
  have htree : Script.typeOf (Field.rows.typeExpr ["table"] {}).render =
      some (.array (.array (.oneOf [.text "a | undefined;", .text "b"]))) :=
    Field.typeOf_typeExpr ["table"] {} hp hf
  refine ⟨hp, hf, hvaries, rfl, rfl, hfile, hending _, hfrozen.trans ?_⟩
  cases ht.symm.trans htree
  rfl

end Typings
