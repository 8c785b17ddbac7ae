import Typings.Declaration.File
import Typings.Proofs.Declaration.Block
import Typings.Proofs.TypeExpr.Mapping

/-!
# The tokens of the declaration file

Each part of the file is printed as a fixed sequence of tokens: comments, members, interfaces,
entries, and so the file. No text that is put into a part changes the tokens around it.
-/

namespace Typings

open Script

/-! ## Comments -/

theorem commentEnd_infix_cons (c : Char) (cs : List Char) :
    commentEnd <:+: c :: cs ↔ (c = '*' ∧ cs.head? = some '/') ∨ commentEnd <:+: cs := by
  rw [List.infix_cons_iff]
  refine or_congr_left ?_
  cases cs with
  | nil => simp [commentEnd]
  | cons d rest => simp [commentEnd, List.cons_prefix_cons, eq_comm]

theorem no_commentEnd_of_noSlash {cs : List Char} (h : '/' ∉ cs) : ¬ commentEnd <:+: cs :=
  fun hin => h (hin.subset (by simp [commentEnd]))

theorem head?_commentChars (cs : List Char) : (commentChars cs).head? = cs.head? := by
  unfold commentChars
  split <;> rfl

theorem mem_commentChars {c : Char} {cs : List Char} (h : c ∈ cs) : c ∈ commentChars cs := by
  fun_induction commentChars cs with
  | case1 rest ih =>
    rcases List.mem_cons.mp h with rfl | h
    · exact List.mem_cons_self
    · rcases List.mem_cons.mp h with rfl | h
      · simp
      · simp [ih h]
  | case2 a rest _ ih =>
    rcases List.mem_cons.mp h with rfl | h
    · exact List.mem_cons_self
    · exact List.mem_cons_of_mem a (ih h)
  | case3 => exact h

/-- Comment text holds no end of a comment, and none arises from the blank after it. -/
theorem no_commentEnd_commentChars (cs : List Char) : ¬ commentEnd <:+: commentChars cs ++ [' '] := by
  fun_induction commentChars cs with
  | case1 rest ih => simp [commentEnd_infix_cons, ih]
  | case2 c rest hc ih =>
    rw [List.cons_append, commentEnd_infix_cons]
    rintro (⟨rfl, hhead⟩ | hin)
    · rw [List.head?_append, head?_commentChars] at hhead
      cases rest with
      | nil => simp at hhead
      | cons d more =>
        have hd : d = '/' := by simpa using hhead
        subst hd
        exact hc more rfl rfl
    · exact ih hin
  | case3 => exact no_commentEnd_of_noSlash (by simp)

/-- The tokens of a comment line: none for an empty text. -/
def docTokens (s : String) : List Token :=
  if s = "" then []
  else [Token.comment (String.ofList ('*' :: ' ' :: (commentChars s.toList ++ [' '])))]

theorem scans_docComment (indent : Nat) (s : String) :
    Scans (docComment indent s).toList (docTokens s) := by
  unfold docComment docTokens
  split
  · rfl
  · have hbody : ¬ commentEnd <:+: '*' :: ' ' :: (commentChars s.toList ++ [' ']) := by
      simp [commentEnd_infix_cons, no_commentEnd_commentChars]
    have hline : Scans ['\n'] [] := by decide
    have := (Layout.scans_spaces indent).append ((scans_comment hbody).append hline)
    simpa [commentText, commentEnd] using this

/-! ## Members -/

def Property.suffixTokens (o : RenderOptions) (p : Property) : List Token :=
  if !p.required && o.undefinedOnOptional then [Token.punct '|', .word "undefined"] else []

def Property.tokens (o : RenderOptions) (p : Property) : List Token :=
  Token.word p.name :: (if p.required then [] else [Token.punct '?']) ++
    Token.punct ':' :: p.type.tokens ++ p.suffixTokens o ++ [Token.punct ';']

theorem ends_undefinedSuffix (o : RenderOptions) (p : Property) :
    Ends (p.undefinedSuffix o).toList (p.suffixTokens o) := by
  unfold Property.undefinedSuffix Property.suffixTokens
  split
  · have hbar : Scans " | ".toList [Token.punct '|'] := rfl
    have hword : Ends "undefined".toList [Token.word "undefined"] := ends_word rfl
    exact hbar.append_ends hword
  · exact scans_nil.ends

/-- What stands before the type of a property. -/
def Property.lead (p : Property) : String := "  " ++ p.name ++ (if p.required then "" else "?") ++ ": "

def Property.leadTokens (p : Property) : List Token :=
  Token.word p.name :: (if p.required then [] else [Token.punct '?']) ++ [Token.punct ':']

theorem Property.scans_lead {p : Property} (hname : Naming.isIdentifier p.name = true) :
    Scans p.lead.toList p.leadTokens := by
  have hindent : Scans "  ".toList [] := rfl
  have hcolon : Scans ": ".toList [Token.punct ':'] := rfl
  have hmarker : Scans (if p.required then "" else "?").toList
      (if p.required then [] else [Token.punct '?']) := by
    split <;> rfl
  have hcut : opensApart ((if p.required then "" else "?").toList ++ ": ".toList) = true := by
    split <;> rfl
  have := hindent.append ((ends_word hname).append (hmarker.append hcolon) hcut)
  simpa [lead, leadTokens] using this

theorem Property.scans_tail (o : RenderOptions) (p : Property) :
    Scans (p.undefinedSuffix o ++ ";").toList (p.suffixTokens o ++ [Token.punct ';']) := by
  have hsemi : Scans ";".toList [Token.punct ';'] := rfl
  rw [String.toList_append]
  exact (ends_undefinedSuffix o p).append hsemi rfl

theorem Property.opensApart_tail (o : RenderOptions) (p : Property) :
    opensApart (p.undefinedSuffix o ++ ";").toList = true := by
  unfold undefinedSuffix
  split <;> rfl

theorem Property.render_eq (o : RenderOptions) (p : Property) :
    p.render o = p.lead ++ (p.type.render ++ (p.undefinedSuffix o ++ ";")) := by
  simp [render, lead, String.append_assoc]

theorem Property.scans_render (o : RenderOptions) (p : Property)
    (hname : Naming.isIdentifier p.name = true) (htype : p.type.Nameable) :
    Scans (p.render o).toList (p.tokens o) := by
  have hbody := (p.type.ends_render htype).append (p.scans_tail o) (p.opensApart_tail o)
  have := (scans_lead hname).append hbody
  rw [render_eq, String.toList_append, String.toList_append]
  simpa [tokens, leadTokens] using this

def Field.tokens (ids : List String) (o : RenderOptions) (f : Field) : List Token :=
  docTokens (Text.trim (f.spec.note.getD "")) ++ (f.property ids o).tokens o

theorem Field.scans_render {o : RenderOptions} (hp : Naming.isIdentifier o.namePrefix = true)
    (ids : List String) (f : Field) : Scans (f.render ids o).toList (f.tokens ids o) := by
  have hprop := Property.scans_render o (f.property ids o) (Naming.isIdentifier_propertyKey _)
    (Field.nameable_typeExpr hp ids f)
  rw [Field.render, String.toList_append]
  exact (scans_docComment 2 (Text.trim (f.spec.note.getD ""))).append hprop

/-! ## Content types -/

namespace ContentType

def fieldsTokens (ids : List String) (o : RenderOptions) (ct : ContentType) : List Token :=
  docTokens (ct.description.getD "") ++
    [Token.word "export", .word "interface", .word (fieldsName (o.entryName ct.id)), .punct '\x7b'] ++
    ct.fields.flatMap (Field.tokens ids o) ++ [Token.punct '\x7d']

def containerTokens (entryName : String) : List Token :=
  [Token.word "Entry", .punct '<', .word (fieldsName entryName), .punct '>']

/-- What a branded entry adds to the system part of an entry. -/
def brandTokens (id : String) : List Token :=
  [Token.punct '[', .quoted '\x22' "sys", .punct ']', .punct '&', .punct '\x7b',
    .word "contentType", .punct ':', .punct '\x7b', .word "sys", .punct ':', .punct '\x7b',
    .word "id", .punct ':', .quoted '\x27' id, .punct ';',
    .word "linkType", .punct ':', .quoted '\x27' "ContentType", .punct ';',
    .word "type", .punct ':', .quoted '\x27' "Link", .punct ';',
    .punct '\x7d', .punct ';', .punct '\x7d', .punct ';', .punct '\x7d']

def entryTokens (o : RenderOptions) (ct : ContentType) : List Token :=
  let entryName := o.entryName ct.id
  if o.brandEntries then
    [Token.word "export", .word "interface", .word entryName, .word "extends"] ++
      containerTokens entryName ++ [Token.punct '\x7b', .word "sys", .punct ':'] ++
      containerTokens entryName ++ brandTokens ct.id ++ [Token.punct ';', .punct '\x7d']
  else
    [Token.word "export", .word "type", .word entryName, .punct '='] ++ containerTokens entryName ++
      [Token.punct ';']

def tokens (ids : List String) (o : RenderOptions) (ct : ContentType) : List Token :=
  ct.fieldsTokens ids o ++ ct.entryTokens o

theorem scans_interfaceHead {name : String} (h : Naming.isIdentifier name = true) :
    Scans ("export interface " ++ name ++ " \x7b\n").toList
      [Token.word "export", .word "interface", .word name, .punct '\x7b'] := by
  have hexport : Scans "export interface ".toList [Token.word "export", .word "interface"] := rfl
  have hopen : Scans " \x7b\n".toList [Token.punct '\x7b'] := rfl
  have := hexport.append ((ends_word h).append hopen rfl)
  simpa using this

theorem scans_fieldsInterface {o : RenderOptions} (hp : Naming.isIdentifier o.namePrefix = true)
    (ids : List String) (ct : ContentType) :
    Scans (ct.fieldsInterface ids o).toList (ct.fieldsTokens ids o) := by
  have hclose : Scans "\n\x7d\n".toList [Token.punct '\x7d'] := rfl
  have hhead := scans_interfaceHead (Field.isIdentifier_fieldsName (Field.isIdentifier_entryName hp ct.id))
  have hline : Scans "\n".toList [] := rfl
  have hfields := scans_intercalate hline ct.fields fun f _ => Field.scans_render hp ids f
  have := (scans_docComment 0 (ct.description.getD "")).append
    (hhead.append (hfields.append hclose))
  simpa [fieldsInterface, fieldsTokens] using this

theorem scans_containerType {entryName : String} (h : Naming.isIdentifier entryName = true) :
    Scans (containerType entryName).toList (containerTokens entryName) := by
  have hopen : Scans "Entry<".toList [Token.word "Entry", .punct '<'] := rfl
  have hclose : Scans ">".toList [Token.punct '>'] := rfl
  have hname : Ends (fieldsName entryName).toList [Token.word (fieldsName entryName)] :=
    ends_word (Field.isIdentifier_fieldsName h)
  have := hopen.append (hname.append hclose rfl)
  simpa [containerType, containerTokens] using this

/-- An id that may stand between single quotes as it is. -/
def PlainId (id : String) : Prop := ∀ c ∈ id.toList, c ≠ '\x27' ∧ c ≠ '\\' ∧ c ≠ '\n' ∧ c ≠ '\r'

theorem plainId_of_all {id : String}
    (h : (id.toList.all fun c => c != '\x27' && c != '\\' && c != '\n' && c != '\r') = true) :
    PlainId id := by
  intro c hc
  simpa [and_assoc] using List.all_eq_true.mp h c hc

theorem inside_of_plain {cs : List Char} (h : ∀ c ∈ cs, c ≠ '\x27' ∧ c ≠ '\\' ∧ c ≠ '\n' ∧ c ≠ '\r') :
    Inside '\x27' cs := by
  induction cs with
  | nil => exact .nil
  | cons c rest ih =>
    obtain ⟨h1, h2, h3, h4⟩ := h c List.mem_cons_self
    exact .plain h1 h2 h3 h4 (ih fun d hd => h d (List.mem_cons_of_mem _ hd))

theorem ends_quotedId {id : String} (h : PlainId id) :
    Ends ("'" ++ id ++ "'").toList [Token.quoted '\x27' id] := by
  have := scans_quoted (Or.inr rfl) (inside_of_plain h)
  rw [String.ofList_toList] at this
  simpa using this.ends

theorem ends_brandHead {entryName : String} (h : Naming.isIdentifier entryName = true)
    (id : String) :
    Ends (brandedEntry entryName id).head.toList
      ([Token.word entryName, .word "extends"] ++ containerTokens entryName) := by
  have hextends : Scans " extends ".toList [Token.word "extends"] := rfl
  have := (ends_word h).append (hextends.append (scans_containerType h)) rfl
  simpa [brandedEntry] using this.ends

theorem ends_brandLead {entryName : String} (h : Naming.isIdentifier entryName = true) :
    Ends (containerType entryName ++ "[\"sys\"] & ").toList
      (containerTokens entryName ++
        [Token.punct '[', .quoted '\x22' "sys", .punct ']', .punct '&']) := by
  have hsys : Scans "[\"sys\"] & ".toList
      [Token.punct '[', .quoted '\x22' "sys", .punct ']', .punct '&'] := rfl
  simpa using ((scans_containerType h).append hsys).ends

theorem spelled_brandedEntry {entryName id : String} (h : Naming.isIdentifier entryName = true)
    (hid : PlainId id) : (brandedEntry entryName id).Spelled := by
  refine ⟨spelled_of_ends (ends_brandHead h id), ?_⟩
  have hlead := spelled_of_ends (ends_brandLead h)
  have hquote := spelled_of_ends (ends_quotedId hid)
  have hsys : Spelled "sys" := spelled_of_run rfl
  have hcontentType : Spelled "contentType" := spelled_of_run rfl
  have hidName : Spelled "id" := spelled_of_run rfl
  have hlinkType : Spelled "linkType" := spelled_of_run rfl
  have htype : Spelled "type" := spelled_of_run rfl
  have hempty : Spelled "" := spelled_of_run rfl
  have hkind : Spelled "'ContentType'" := spelled_of_run rfl
  have hlink : Spelled "'Link'" := spelled_of_run rfl
  simp only [brandedEntry, Layout.AllSpelled, Layout.Spelled, and_true]
  exact ⟨hsys, hlead, hcontentType, hempty, hsys, hempty, hidName, hquote, hlinkType, hkind, htype,
    hlink⟩

theorem tokens_brandedEntry {entryName id : String} (h : Naming.isIdentifier entryName = true)
    (hid : PlainId id) :
    (brandedEntry entryName id).tokens =
      [Token.word "export", .word "interface", .word entryName, .word "extends"] ++
        containerTokens entryName ++ [Token.punct '\x7b', .word "sys", .punct ':'] ++
        containerTokens entryName ++ brandTokens id ++ [Token.punct ';', .punct '\x7d'] := by
  have hsys : textTokens "sys" = [Token.word "sys"] := rfl
  have hcontentType : textTokens "contentType" = [Token.word "contentType"] := rfl
  have hidName : textTokens "id" = [Token.word "id"] := rfl
  have hlinkType : textTokens "linkType" = [Token.word "linkType"] := rfl
  have htype : textTokens "type" = [Token.word "type"] := rfl
  have hempty : textTokens "" = [] := rfl
  have hkind : textTokens "'ContentType'" = [Token.quoted '\x27' "ContentType"] := rfl
  have hlink : textTokens "'Link'" = [Token.quoted '\x27' "Link"] := rfl
  rw [Interface.tokens, textTokens_of_ends (ends_brandHead h id)]
  simp only [brandedEntry, Layout.memberTokens, Layout.tokens, textTokens_of_ends (ends_brandLead h),
    textTokens_of_ends (ends_quotedId hid), hsys, hcontentType, hidName, hlinkType, htype, hempty,
    hkind, hlink]
  simp [brandTokens]

theorem scans_entryDeclaration {o : RenderOptions} (hp : Naming.isIdentifier o.namePrefix = true)
    (ct : ContentType) (hid : o.brandEntries = true → PlainId ct.id) :
    Scans (ct.entryDeclaration o).toList (ct.entryTokens o) := by
  have hentry := Field.isIdentifier_entryName hp ct.id
  unfold entryDeclaration entryTokens
  split
  · rename_i hbrand
    have hline : Scans "\n".toList [] := rfl
    have hrender := Interface.scans_render _ (spelled_brandedEntry hentry (hid hbrand))
    rw [← tokens_brandedEntry hentry (hid hbrand)]
    simpa using hrender.append hline
  · have hexport : Scans "export type ".toList [Token.word "export", .word "type"] := rfl
    have hequals : Scans " = ".toList [Token.punct '='] := rfl
    have hsemi : Scans ";\n".toList [Token.punct ';'] := rfl
    have htype := hequals.append ((scans_containerType hentry).append hsemi)
    have := hexport.append ((ends_word hentry).append htype rfl)
    simpa using this

theorem scans_render {o : RenderOptions} (hp : Naming.isIdentifier o.namePrefix = true)
    (ids : List String) (ct : ContentType) (hid : o.brandEntries = true → PlainId ct.id) :
    Scans (ct.render ids o).toList (ct.tokens ids o) := by
  rw [render, String.toList_append]
  exact (scans_fieldsInterface hp ids ct).append (scans_entryDeclaration hp ct hid)

end ContentType

/-! ## The file -/

def bannerLead : List Char :=
  " ============================================================================\n * ".toList

def bannerTail : List Char :=
  (" generated by contentful-typegen\n" ++
    " * DO NOT EDIT THIS FILE: it is auto-generated and overwritten on each build.\n" ++
    " * ========================================================================== ").toList

def bannerBody (count : Nat) : List Char :=
  bannerLead ++ (Nat.toDigits 10 count ++ (" Contentful content type interface".toList ++
    ((if count = 1 then [] else ['s']) ++ bannerTail)))

theorem toList_banner (count : Nat) :
    (banner count).toList = '/' :: '*' :: (bannerBody count ++ commentEnd) ++ ['\n'] := by
  have hone : ((count : Int) = 1) ↔ count = 1 := by omega
  have hsign : ¬ (count : Int) < 0 := by omega
  have hopen :
      "/* ============================================================================\n".toList ++
        " * ".toList = '/' :: '*' :: bannerLead := by
    decide +kernel
  have hfirst (rest : List Char) :
      "/* ============================================================================\n".toList ++
        (" * ".toList ++ rest) = '/' :: '*' :: (bannerLead ++ rest) := by
    rw [← List.append_assoc, hopen]
    rfl
  have hclose :
      " * ========================================================================== */\n".toList =
        " * ========================================================================== ".toList ++
          commentEnd ++ ['\n'] := by
    decide +kernel
  have hplural : (if (count : Int) = 1 then "" else "s").toList = if count = 1 then [] else ['s'] := by
    simp only [hone]
    split <;> rfl
  unfold banner bannerBody bannerTail
  simp only [String.toList_append, List.append_assoc, toList_toString_int, hsign, decide_false,
    Bool.false_eq_true, if_false, List.nil_append, Int.natAbs_natCast, hplural, hclose, hfirst,
    List.cons_append]

theorem slash_not_mem_bannerBody (count : Nat) : '/' ∉ bannerBody count := by
  have hlead : (bannerLead.all fun c => c != '/') = true := by decide +kernel
  have hdigits : '/' ∉ Nat.toDigits 10 count :=
    fun h => absurd (isDigit_of_mem_toDigits _ h) (by decide)
  have hkind : (" Contentful content type interface".toList.all fun c => c != '/') = true := rfl
  have htail : (bannerTail.all fun c => c != '/') = true := by decide +kernel
  unfold bannerBody
  simp only [List.mem_append]
  rintro (h | h | h | h | h)
  · simpa using List.all_eq_true.mp hlead _ h
  · exact hdigits h
  · simpa using List.all_eq_true.mp hkind _ h
  · split at h <;> simp at h
  · simpa using List.all_eq_true.mp htail _ h

theorem scans_banner (count : Nat) :
    Scans (banner count).toList [Token.comment (String.ofList (bannerBody count))] := by
  have hline : Scans ['\n'] [] := by decide
  rw [toList_banner]
  exact (scans_comment (no_commentEnd_of_noSlash (slash_not_mem_bannerBody count))).append hline

def fileTokens (o : RenderOptions) (cts : List ContentType) : List Token :=
  .comment (String.ofList (bannerBody cts.length)) :: Core.tokens ++
    cts.flatMap (ContentType.tokens (cts.map ContentType.id) o)

theorem scan_declarationFile {o : RenderOptions} (hp : Naming.isIdentifier o.namePrefix = true)
    (cts : List ContentType) (hids : o.brandEntries = true → ∀ ct ∈ cts, ContentType.PlainId ct.id) :
    scan (declarationFile o cts) = some (fileTokens o cts) := by
  have hline : Scans "\n".toList [] := rfl
  have hlines : Scans "\n\n".toList [] := rfl
  have hblocks := scans_intercalate hline cts fun ct hct =>
    ContentType.scans_render hp (cts.map ContentType.id) ct fun hb => hids hb ct hct
  have := (scans_banner cts.length).append (Core.scans_text.append (hlines.append hblocks))
  apply Scans.scan
  unfold declarationFile fileTokens
  simp only [String.toList_append, List.append_assoc]
  simpa only [List.nil_append, List.singleton_append, List.append_assoc, List.cons_append] using this

end Typings
