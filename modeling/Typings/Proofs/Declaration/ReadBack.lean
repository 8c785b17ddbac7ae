import Typings.Proofs.Script.Declaration
import Typings.Proofs.Declaration.Comments

/-!
# The declarations are read back

From the code of a declaration file exactly the declarations are read that it was printed from: the
core types, and for each content type the interface of its fields and the declaration of its
entries.
-/

namespace Typings

open Script

/-! ## What a content type declares -/

def Property.member (o : RenderOptions) (p : Property) : Member where
  name := p.name
  optional := !p.required
  type := textTokens p.type.render ++
    if !p.required && o.undefinedOnOptional then [Token.punct '|', .word "undefined"] else []

/-- The member of a field is optional unless the field is required. -/
def Field.member (ids : List String) (o : RenderOptions) (f : Field) : Member where
  name := (f.property ids o).name
  optional := !f.spec.required
  type := textTokens (f.property ids o).type.render ++
    if !f.spec.required && o.undefinedOnOptional then [Token.punct '|', .word "undefined"] else []

theorem Field.member_eq (ids : List String) (o : RenderOptions) (f : Field) :
    f.member ids o = (f.property ids o).member o := rfl

namespace ContentType

def fieldsDeclaration (ids : List String) (o : RenderOptions) (ct : ContentType) : Declaration where
  name := o.namePrefix ++ Naming.typeName ct.id ++ "Fields"
  parameters := []
  body := .interface [] (ct.fields.map (Field.member ids o))

/-- The container of the entries' fields, or an interface that extends it by the id. -/
def entryDeclared (o : RenderOptions) (ct : ContentType) : Declaration where
  name := o.namePrefix ++ Naming.typeName ct.id
  parameters := []
  body :=
    let container := containerTokens (o.namePrefix ++ Naming.typeName ct.id)
    if o.brandEntries then .interface container [⟨"sys", false, container ++ brandTokens ct.id⟩]
    else .alias container

def declared (ids : List String) (o : RenderOptions) (ct : ContentType) : List Declaration :=
  [ct.fieldsDeclaration ids o, ct.entryDeclared o]

end ContentType

/-! ## Types are enclosed -/

theorem enclosed_withSign (negative : Bool) (text : String) :
    Enclosed (withSign negative [Token.number text]) := by
  intro due
  cases negative <;> rfl

theorem Literal.enclosed (l : Literal) : Enclosed l.tokens := by
  cases l with
  | text s => exact fun due => rfl
  | int n => exact enclosed_withSign _ _
  | double x =>
    rw [Literal.tokens]
    split
    · exact enclosed_withSign _ _
    · cases x with
      | nan => exact fun due => rfl
      | finite negative significand exponent => exact enclosed_withSign _ _
      | infinite negative =>
        intro due
        cases negative <;> rfl

theorem SimpleType.enclosed (t : SimpleType) : Enclosed t.tokens := by
  cases t with
  | literal l => exact l.enclosed
  | _ => exact fun due => rfl

theorem enclosed_alternatives (others : List SimpleType) :
    Enclosed (others.flatMap fun t => Token.punct '|' :: t.tokens) := by
  induction others with
  | nil => exact fun due => rfl
  | cons t rest ih =>
    have hbar : Enclosed [Token.punct '|'] := fun due => rfl
    exact (hbar.append t.enclosed).append ih

/-- The brackets of a type are closed in it, whatever brackets the literals in it hold. -/
theorem TypeExpr.enclosed (t : TypeExpr) : Enclosed t.tokens := by
  induction t with
  | oneOf first others => exact first.enclosed.append (enclosed_alternatives others)
  | array form element ih =>
    have hbrackets : Enclosed [Token.punct '[', .punct ']'] := fun due => rfl
    cases form with
    | readonly =>
      have hword : Enclosed [Token.word "ReadonlyArray"] := fun due => rfl
      exact hword.append (enclosed_angle ih)
    | mutable =>
      rw [TypeExpr.tokens]
      split
      · have := (enclosed_group ih).append hbrackets
        simpa using this
      · exact ih.append hbrackets

/-! ## Interfaces of fields -/

theorem textTokens_type {p : Property} (h : p.type.Nameable) :
    textTokens p.type.render = p.type.tokens :=
  textTokens_of_ends (p.type.ends_render h)

theorem Property.enclosed_suffixTokens (o : RenderOptions) (p : Property) :
    Enclosed (p.suffixTokens o) := by
  unfold suffixTokens
  split <;> exact fun due => rfl

theorem run_property (u : Unfinished) (o : RenderOptions) {p : Property} (h : p.type.Nameable) :
    runWith Place.step (.body u) (p.tokens o) = some (.body (u.with (p.member o)), []) := by
  have hshape : p.tokens o = Token.word p.name :: (if !p.required then [Token.punct '?'] else []) ++
      Token.punct ':' :: (p.type.tokens ++ p.suffixTokens o) ++ [Token.punct ';'] := by
    unfold Property.tokens
    cases p.required <;> simp
  rw [hshape, run_member u p.name (!p.required) (p.type.enclosed.append (p.enclosed_suffixTokens o)),
    Property.member, textTokens_type h]
  rfl

theorem run_properties (u : Unfinished) (o : RenderOptions) (ps : List Property)
    (h : ∀ p ∈ ps, p.type.Nameable) :
    runWith Place.step (.body u) (ps.flatMap (Property.tokens o)) =
      some (.body { u with members := u.members ++ ps.map (Property.member o) }, []) := by
  induction ps generalizing u with
  | nil => simp [runWith]
  | cons p rest ih =>
    rw [List.flatMap_cons, runWith_append_of_eq (run_property u o (h p List.mem_cons_self)),
      ih _ fun q hq => h q (List.mem_cons_of_mem _ hq)]
    simp [Unfinished.with]

theorem declares_fields {o : RenderOptions} (hp : Naming.isIdentifier o.namePrefix = true)
    (ids : List String) (ct : ContentType) :
    Declares
      ([Token.word "export", .word "interface", .word (fieldsName (o.entryName ct.id)),
          .punct '\x7b'] ++
        ct.fields.flatMap (fun f => (f.property ids o).tokens o) ++ [Token.punct '\x7d'])
      [ct.fieldsDeclaration ids o] := by
  have hnames : ∀ p ∈ ct.fields.map (Field.property ids o), p.type.Nameable := by
    intro p hmem
    obtain ⟨f, -, rfl⟩ := List.mem_map.mp hmem
    exact Field.nameable_typeExpr hp ids f
  have hhead : runWith Place.step .outside
      [Token.word "export", .word "interface", .word (fieldsName (o.entryName ct.id)), .punct '\x7b'] =
      some (.body ⟨⟨.interface, fieldsName (o.entryName ct.id), []⟩, [], []⟩, []) := rfl
  have hmembers := run_properties ⟨⟨.interface, fieldsName (o.entryName ct.id), []⟩, [], []⟩ o _ hnames
  rw [List.flatMap_map] at hmembers
  unfold Declares
  rw [List.append_assoc, runWith_append_of_eq hhead, runWith_append_of_eq hmembers, List.map_map]
  rfl

/-! ## Declarations of entries -/

namespace ContentType

theorem enclosed_containerTokens (entryName : String) : Enclosed (containerTokens entryName) := by
  intro due
  rfl

theorem enclosed_brandTokens (id : String) : Enclosed (brandTokens id) := by
  intro due
  rfl

end ContentType

theorem declares_entry (o : RenderOptions) (ct : ContentType) :
    Declares (ct.entryTokens o) [ct.entryDeclared o] := by
  unfold ContentType.entryTokens ContentType.entryDeclared
  split
  · -- The header up to its brace, the only member, and the brace after it.
    have hhead : runWith Place.step .outside
        ([Token.word "export", .word "interface", .word (o.entryName ct.id), .word "extends"] ++
          ContentType.containerTokens (o.entryName ct.id) ++ [Token.punct '\x7b']) =
        some (.body ⟨⟨.interface, o.entryName ct.id, []⟩,
          ContentType.containerTokens (o.entryName ct.id), []⟩, []) :=
      rfl
    have hsys : Enclosed
        (ContentType.containerTokens (o.entryName ct.id) ++ ContentType.brandTokens ct.id) :=
      (ContentType.enclosed_containerTokens _).append (ContentType.enclosed_brandTokens _)
    have hmember := run_member ⟨⟨.interface, o.entryName ct.id, []⟩,
      ContentType.containerTokens (o.entryName ct.id), []⟩ "sys" false hsys
    simp only [Bool.false_eq_true, if_false] at hmember
    have hshape :
        [Token.word "export", .word "interface", .word (o.entryName ct.id), .word "extends"] ++
            ContentType.containerTokens (o.entryName ct.id) ++
            [Token.punct '\x7b', .word "sys", .punct ':'] ++
            ContentType.containerTokens (o.entryName ct.id) ++ ContentType.brandTokens ct.id ++
            [Token.punct ';', .punct '\x7d'] =
        ([Token.word "export", .word "interface", .word (o.entryName ct.id), .word "extends"] ++
            ContentType.containerTokens (o.entryName ct.id) ++ [Token.punct '\x7b']) ++
          ((Token.word "sys" :: [] ++ Token.punct ':' ::
              (ContentType.containerTokens (o.entryName ct.id) ++ ContentType.brandTokens ct.id) ++
              [Token.punct ';']) ++
            [Token.punct '\x7d']) := by
      simp only [List.append_assoc, List.cons_append, List.nil_append]
    unfold Declares
    simp only
    rw [hshape, runWith_append_of_eq hhead, runWith_append_of_eq hmember]
    rfl
  · rfl

theorem declares_contentType {o : RenderOptions} (hp : Naming.isIdentifier o.namePrefix = true)
    (ids : List String) (ct : ContentType) :
    Declares (code (ct.tokens ids o)) (ct.declared ids o) := by
  rw [ContentType.code_tokens]
  exact (declares_fields hp ids ct).append (declares_entry o ct)

/-! ## The core types -/

namespace Core

def declared : List Declaration := (readDeclarations tokens).getD []

theorem declares_tokens : Declares tokens declared := by
  have hread : (readDeclarations tokens).isSome = true := by decide +kernel
  obtain ⟨ds, hds⟩ := Option.isSome_iff_exists.mp hread
  unfold declared
  rw [hds]
  exact declares_of_readDeclarations hds

theorem declarations_text : declarations text = some declared := by
  unfold declarations
  rw [scans_text.scan, Option.bind_some, code_tokens]
  exact declares_tokens.readDeclarations

end Core

/-! ## The count in the banner -/

def firstNumber (cs : List Char) : Option Nat :=
  match (cs.dropWhile fun c => !c.isDigit).takeWhile Char.isDigit with
  | [] => none
  | digits => some (Nat.ofDigitChars 10 digits 0)

def bannerCount (text : String) : Option Nat :=
  (scan text).bind fun ts =>
    match comments ts with
    | .comment body :: _ => firstNumber body.toList
    | _ => none

theorem firstNumber_toDigits {before : List Char} (hbefore : ∀ c ∈ before, c.isDigit = false)
    (n : Nat) {c : Char} (hc : c.isDigit = false) (rest : List Char) :
    firstNumber (before ++ (Nat.toDigits 10 n ++ c :: rest)) = some n := by
  have hdigits : ∀ d ∈ Nat.toDigits 10 n, d.isDigit = true := isDigit_of_mem_toDigits
  have htake : (Nat.toDigits 10 n ++ c :: rest).takeWhile Char.isDigit = Nat.toDigits 10 n := by
    rw [List.takeWhile_append_of_pos hdigits, List.takeWhile_cons_of_neg (by simp [hc]),
      List.append_nil]
  have hvalue : Nat.ofDigitChars 10 (Nat.toDigits 10 n) 0 = n := Nat.ofDigitChars_ten_toDigits
  unfold firstNumber
  rw [List.dropWhile_append_of_pos (by simpa using hbefore)]
  cases hn : Nat.toDigits 10 n with
  | nil => exact absurd hn Nat.toDigits_ne_nil
  | cons d ds =>
    have hd : d.isDigit = true := hdigits d (hn ▸ List.mem_cons_self)
    rw [hn] at htake hvalue
    rw [List.cons_append, List.dropWhile_cons_of_neg (by simp [hd]), ← List.cons_append, htake]
    simp only [hvalue]

theorem firstNumber_bannerBody (count : Nat) : firstNumber (bannerBody count) = some count := by
  have hlead : (bannerLead.all fun c => !c.isDigit) = true := rfl
  exact firstNumber_toDigits (by simpa using hlead) count (by decide) _

/-! ## The file -/

/-- The declarations of a file: the core types and those of its content types. -/
def declaredIn (o : RenderOptions) (cts : List ContentType) : List Declaration :=
  Core.declared ++ cts.flatMap (ContentType.declared (cts.map ContentType.id) o)

theorem declarations_eq_declaredIn {o : RenderOptions} (hp : Naming.isIdentifier o.namePrefix = true)
    (cts : List ContentType) (hids : o.brandEntries = true → ∀ ct ∈ cts, ContentType.PlainId ct.id) :
    declarations (declarationFile o cts) = some (declaredIn o cts) := by
  have hblocks := declares_flatMap cts fun ct _ => declares_contentType hp (cts.map ContentType.id) ct
  unfold declarations
  rw [scan_declarationFile hp cts hids, Option.bind_some, code_fileTokens]
  exact (Core.declares_tokens.append hblocks).readDeclarations

/-- The file is read as the core types and the declarations of each content type, in order and
nothing else, and its banner tells how many content types there are. -/
theorem declarations_declarationFile (o : RenderOptions) (cts : List ContentType)
    (hp : Naming.isIdentifier o.namePrefix = true)
    (hids : o.brandEntries = true → ∀ ct ∈ cts, ContentType.PlainId ct.id) :
    ∃ core, declarations Core.text = some core ∧
      declarations (declarationFile o cts) =
        some (core ++ cts.flatMap (ContentType.declared (cts.map ContentType.id) o)) ∧
      bannerCount (declarationFile o cts) = some cts.length ∧
      ∀ ct ∈ cts, ∀ f ∈ ct.fields, scan (f.property (cts.map ContentType.id) o).type.render =
        some (textTokens (f.property (cts.map ContentType.id) o).type.render) := by
  refine ⟨Core.declared, Core.declarations_text, declarations_eq_declaredIn hp cts hids, ?_, ?_⟩
  · unfold bannerCount
    rw [scan_declarationFile hp cts hids, Option.bind_some]
    have hfirst : (comments (fileTokens o cts)) = .comment (String.ofList (bannerBody cts.length)) ::
        comments (Core.tokens ++ cts.flatMap (ContentType.tokens (cts.map ContentType.id) o)) := rfl
    rw [hfirst]
    simp only [String.toList_ofList]
    exact firstNumber_bannerBody cts.length
  · intro ct _ f _
    have hnames : (f.property (cts.map ContentType.id) o).type.Nameable :=
      Field.nameable_typeExpr hp _ f
    rw [(TypeExpr.ends_render _ hnames).scan, textTokens_type hnames]

/-- A content type with an optional field, which admits one text full of brackets and separators, and a
required one. -/
def ContentType.quoting : ContentType where
  system := ⟨"page-quote", "ContentType"⟩
  name := "Quote"
  description := some "*/ export type X = 1; /*"
  fields := [⟨⟨some "mark", none, some "Symbol", false, none,
    [[("in", .list [.text "; \x7d | //"])]], none⟩, []⟩,
    ⟨⟨some "size", none, some "Integer", true, none, [], none⟩, []⟩]

theorem declarations_declarationFile_quoting :
    Naming.isIdentifier ({} : RenderOptions).namePrefix = true ∧
      (∀ ct ∈ [ContentType.quoting], ContentType.PlainId ct.id) ∧
      ∃ core, declarations Core.text = some core ∧
        declarations (declarationFile {} [ContentType.quoting]) = some (core ++
          [⟨"IPageQuoteFields", [],
            .interface [] [⟨"mark", true,
              [Token.quoted '\x22' "; \x7d | //", .punct '|', .word "undefined"]⟩,
              ⟨"size", false, [Token.word "number"]⟩]⟩,
          ⟨"IPageQuote", [],
            .interface [Token.word "Entry", .punct '<', .word "IPageQuoteFields", .punct '>']
              [⟨"sys", false, [Token.word "Entry", .punct '<', .word "IPageQuoteFields", .punct '>'] ++
                ContentType.brandTokens "page-quote"⟩]⟩]) ∧
        bannerCount (declarationFile {} [ContentType.quoting]) = some 1 := by
  have hp : Naming.isIdentifier ({} : RenderOptions).namePrefix = true := rfl
  have hids : ∀ ct ∈ [ContentType.quoting], ContentType.PlainId ct.id := by
    intro ct hct
    rw [List.mem_singleton] at hct
    subst hct
    exact ContentType.plainId_of_all rfl
  obtain ⟨core, hcore, hread, hcount, -⟩ :=
    declarations_declarationFile {} [ContentType.quoting] hp fun _ => hids
  refine ⟨hp, hids, core, hcore, hread.trans ?_, hcount⟩
  have hdeclared : [ContentType.quoting].flatMap (ContentType.declared ["page-quote"] {}) =
      [⟨"IPageQuoteFields", [],
        .interface [] [⟨"mark", true,
          [Token.quoted '\x22' "; \x7d | //", .punct '|', .word "undefined"]⟩,
          ⟨"size", false, [Token.word "number"]⟩]⟩,
      ⟨"IPageQuote", [],
        .interface [Token.word "Entry", .punct '<', .word "IPageQuoteFields", .punct '>']
          [⟨"sys", false, [Token.word "Entry", .punct '<', .word "IPageQuoteFields", .punct '>'] ++
            ContentType.brandTokens "page-quote"⟩]⟩] := by
    rfl
  rw [← hdeclared]
  rfl

end Typings
