import Typings.Proofs.ContentApi.Pagination
import Typings.Proofs.Declaration.Names
import Typings.Proofs.TypeExpr.LiteralUnion

/-!
# The alternatives of a union of literals

The text of a union falls apart at its bars, where these stand outside of quoted literals. Each part
is a literal type, unless it stands for a double that is no finite number: such a double is printed as
a bare word, which is the name of a type that nothing declares.
-/

namespace Typings

open Script

/-! ## Literal types -/

/-- A text between double quotes, or a number with or without a minus sign. -/
inductive Literal.Writes : List Token → Prop
  | quoted (body : String) : Writes [Token.quoted '\x22' body]
  | number (text : String) : Writes [Token.number text]
  | negative (text : String) : Writes [Token.punct '-', .number text]

/-- The text is a literal type and nothing else. -/
def IsLiteralType (text : String) : Prop := ∃ ts, scan text = some ts ∧ Literal.Writes ts

namespace LiteralUnion

/-! ## Falling apart -/

/-- Where a character stands: outside of quoted literals, in one, or there behind a backslash. -/
inductive Position where
  | outside
  | inside
  | escaped
  deriving DecidableEq, Repr

def Position.next : Position → Char → Position
  | .outside, c => if c = '\x22' then .inside else .outside
  | .inside, c => if c = '\x22' then .outside else if c = '\\' then .escaped else .inside
  | .escaped, _ => .inside

/-- What stands between the bars that are outside of quoted literals and have a blank on both sides.
-/
def pieces : Position → List Char → List Char → List (List Char)
  | .outside, read, ' ' :: '|' :: ' ' :: more => read :: pieces .outside [] more
  | p, read, c :: rest => pieces (p.next c) (read ++ [c]) rest
  | _, read, [] => [read]

/-- The alternatives of a union. -/
def alternatives (text : String) : List String := (pieces .outside [] text.toList).map String.ofList

theorem pieces_bar (read more : List Char) :
    pieces .outside read (' ' :: '|' :: ' ' :: more) = read :: pieces .outside [] more := rfl

theorem pieces_outside {c : Char} (h : c ≠ ' ') (read rest : List Char) :
    pieces .outside read (c :: rest) = pieces (Position.next .outside c) (read ++ [c]) rest := by
  rw [pieces]
  rintro more - hc -
  exact h hc

theorem pieces_within {p : Position} (h : p ≠ .outside) (read : List Char) (c : Char) (rest : List Char) :
    pieces p read (c :: rest) = pieces (p.next c) (read ++ [c]) rest := by
  rw [pieces]
  rintro more hp
  exact absurd hp h

/-- Characters that are read as one piece, as far as they go. -/
def Whole (cs : List Char) : Prop :=
  ∀ read rest, pieces .outside read (cs ++ rest) = pieces .outside (read ++ cs) rest

theorem whole_of_plain {cs : List Char} (h : ∀ c ∈ cs, c ≠ '\x22' ∧ c ≠ ' ') : Whole cs := by
  induction cs with
  | nil => exact fun read rest => by rw [List.nil_append, List.append_nil]
  | cons c more ih =>
    intro read rest
    obtain ⟨hquote, hblank⟩ := h c List.mem_cons_self
    rw [List.cons_append, pieces_outside hblank, Position.next, if_neg hquote,
      ih (fun d hd => h d (List.mem_cons_of_mem _ hd)), List.append_assoc]
    rfl

theorem pieces_inside {cs : List Char} (h : Inside '\x22' cs) (read rest : List Char) :
    pieces .inside read (cs ++ rest) = pieces .inside (read ++ cs) rest := by
  induction h generalizing read with
  | nil => rw [List.nil_append, List.append_nil]
  | plain hquote hslash _ _ _ ih =>
    rw [List.cons_append, pieces_within (by decide), Position.next, if_neg hquote, if_neg hslash, ih,
      List.append_assoc]
    rfl
  | escape c _ ih =>
    have hslash : Position.next .inside '\\' = .escaped := rfl
    rw [List.cons_append, List.cons_append, pieces_within (by decide), hslash, pieces_within (by decide),
      Position.next, ih, List.append_assoc, List.append_assoc]
    rfl

theorem whole_quote (s : String) : Whole (Text.quote s).toList := by
  intro read rest
  have hopens : Position.next .outside '\x22' = .inside := rfl
  have hcloses : Position.next .inside '\x22' = .outside := rfl
  rw [Text.toList_quote, List.cons_append, List.cons_append, pieces_outside (by decide), hopens, List.append_assoc,
    pieces_inside (inside_encode s.toList), List.singleton_append, pieces_within (by decide), hcloses]
  simp only [List.append_assoc, List.cons_append, List.nil_append]

theorem plain_of_all {cs : List Char} (h : (cs.all fun c => c != '\x22' && c != ' ') = true) :
    ∀ c ∈ cs, c ≠ '\x22' ∧ c ≠ ' ' := by
  simpa using h

theorem plain_of_next {p q : NumberPart} {c : Char} (h : p.next c = some q) : c ≠ '\x22' ∧ c ≠ ' ' := by
  constructor
  · rintro rfl
    cases p <;> cases h
  · rintro rfl
    rw [next_blank] at h
    cases h

theorem plain_of_after {p q : NumberPart} {cs : List Char} (h : p.after cs = some q) :
    ∀ c ∈ cs, c ≠ '\x22' ∧ c ≠ ' ' := by
  induction cs generalizing p with
  | nil => exact nofun
  | cons c rest ih =>
    obtain ⟨next, hnext, hrest⟩ := Option.bind_eq_some_iff.mp h
    exact List.forall_mem_cons.mpr ⟨plain_of_next hnext, ih hrest⟩

theorem plain_of_numeral {p : NumberPart} {cs : List Char} (h : Numeral p cs) : ∀ c ∈ cs, c ≠ '\x22' ∧ c ≠ ' ' := by
  obtain ⟨c, rest, rfl, hc, hrest, -⟩ := h
  refine List.forall_mem_cons.mpr ⟨?_, plain_of_after hrest⟩
  constructor <;> rintro rfl <;> cases hc

theorem plain_withSign {cs : List Char} (h : ∀ c ∈ cs, c ≠ '\x22' ∧ c ≠ ' ') (negative : Bool) :
    ∀ c ∈ (if negative then ['-'] else []) ++ cs, c ≠ '\x22' ∧ c ≠ ' ' := by
  cases negative with
  | false => exact h
  | true => exact List.forall_mem_cons.mpr ⟨by decide, h⟩

theorem whole_toString (n : Int) : Whole (toString n).toList := by
  rw [toList_toString_int]
  exact whole_of_plain (plain_withSign (plain_of_numeral (numeral_toDigits _)) _)

theorem whole_text (x : Double) : Whole x.text.toList := by
  cases x with
  | finite negative significand exponent =>
    obtain ⟨p, -, hnumeral⟩ := numeral_unsignedText significand exponent
    rw [toList_text_finite]
    exact whole_of_plain (plain_withSign (plain_of_numeral hnumeral) negative)
  | infinite negative => cases negative <;> exact whole_of_plain (plain_of_all rfl)
  | nan => exact whole_of_plain (plain_of_all rfl)

theorem whole_render (l : Literal) : Whole l.render.toList := by
  cases l with
  | text s => exact whole_quote s
  | int n => exact whole_toString n
  | double x =>
    rw [Literal.render]
    cases x.toInt? with
    | some n => exact whole_toString n
    | none => exact whole_text x

theorem pieces_of_whole {cs : List Char} (h : Whole cs) : pieces .outside [] cs = [cs] := by
  have hread := h [] []
  rwa [List.append_nil, List.nil_append] at hread

theorem alternatives_joinAlternatives {texts : List String} (h : ∀ text ∈ texts, Whole text.toList) (hne : texts ≠ []) :
    alternatives (joinAlternatives texts) = texts := by
  unfold alternatives joinAlternatives
  induction texts with
  | nil => exact absurd rfl hne
  | cons text rest ih =>
    have hwhole := h text List.mem_cons_self
    cases rest with
    | nil => rw [String.intercalate_singleton, pieces_of_whole hwhole, List.map_singleton, String.ofList_toList]
    | cons next others =>
      have hbar : " | ".toList = [' ', '|', ' '] := rfl
      rw [String.intercalate_cons_cons, String.toList_append, String.toList_append, hbar, List.append_assoc,
        hwhole, List.nil_append, List.cons_append, List.cons_append, List.cons_append, List.nil_append, pieces_bar,
        List.map_cons, ih (fun t ht => h t (List.mem_cons_of_mem _ ht)) (List.cons_ne_nil _ _), String.ofList_toList]

end LiteralUnion

/-! ## Which alternatives are literal types -/

theorem Literal.Writes.not_word {ts : List Token} (h : Writes ts) (name : String) : Token.word name ∉ ts := by
  cases h <;> simp

theorem Literal.writes_intTokens (n : Int) : Literal.Writes (intTokens n) := by
  unfold intTokens withSign
  split
  · exact .negative _
  · exact .number _

namespace Literal

theorem writes_tokens {l : Literal} (h : l.IsFinite) : Writes l.tokens := by
  cases l with
  | text s => exact .quoted _
  | int n => exact writes_intTokens n
  | double x =>
    rw [tokens]
    cases x.toInt? with
    | some n => exact writes_intTokens n
    | none =>
      cases x with
      | finite negative =>
        cases negative with
        | false => exact .number _
        | true => exact .negative _
      | infinite | nan => cases h

theorem cases_of_not_isFinite {l : Literal} (h : ¬ l.IsFinite) :
    (∃ negative, l = .double (.infinite negative)) ∨ l = .double .nan := by
  cases l with
  | text | int => exact absurd trivial h
  | double x =>
    cases x with
    | finite => exact absurd rfl h
    | infinite negative => exact Or.inl ⟨negative, rfl⟩
    | nan => exact Or.inr rfl

theorem word_mem_tokens_iff {l : Literal} {name : String} :
    Token.word name ∈ l.tokens ↔
      (∃ negative, l = .double (.infinite negative)) ∧ name = "inf" ∨ l = .double .nan ∧ name = "nan" := by
  by_cases h : l.IsFinite
  · refine iff_of_false ((writes_tokens h).not_word name) ?_
    rintro (⟨⟨negative, rfl⟩, -⟩ | ⟨rfl, -⟩) <;> cases h
  · rcases cases_of_not_isFinite h with ⟨negative, rfl⟩ | rfl
    · have htokens : (Literal.double (.infinite negative)).tokens = withSign negative [Token.word "inf"] := rfl
      cases negative <;> simp [htokens, withSign]
    · have htokens : (Literal.double .nan).tokens = [Token.word "nan"] := rfl
      simp [htokens]

theorem isLiteralType_render_iff {l : Literal} : IsLiteralType l.render ↔ l.IsFinite := by
  have hscan : scan l.render = some l.tokens := l.ends_render.scan
  constructor
  · rintro ⟨ts, hts, hwrites⟩
    rw [hscan] at hts
    cases hts
    by_contra hinfinite
    rcases cases_of_not_isFinite hinfinite with ⟨negative, rfl⟩ | rfl
    · exact hwrites.not_word "inf" (word_mem_tokens_iff.mpr (Or.inl ⟨⟨negative, rfl⟩, rfl⟩))
    · exact hwrites.not_word "nan" (word_mem_tokens_iff.mpr (Or.inr ⟨rfl, rfl⟩))
  · intro h
    exact ⟨_, hscan, writes_tokens h⟩

theorem render_of_not_isFinite {l : Literal} (h : ¬ l.IsFinite) : l.render ∈ ["inf", "-inf", "nan"] := by
  have hinf : (Literal.double (.infinite false)).render = "inf" := rfl
  have hminus : (Literal.double (.infinite true)).render = "-inf" := rfl
  have hnan : (Literal.double .nan).render = "nan" := rfl
  rcases cases_of_not_isFinite h with ⟨_ | _, rfl⟩ | rfl
  · simp [hinf]
  · simp [hminus]
  · simp [hnan]

end Literal

/-! ## The alternatives of a union -/

theorem double_mem_literalsOf_iff {constraints : List Data.Members} {x : Double} :
    .double x ∈ literalsOf constraints ↔ .double x ∈ listedLiterals constraints := by
  have hitems (items : List Data) :
      .double x ∈ items.filterMap Literal.ofData? ↔ .double x ∈ items.filter Data.isTextOrNumber := by
    rw [List.mem_filterMap, List.mem_filter]
    constructor
    · rintro ⟨d, hd, hl⟩
      cases d <;> cases hl
      exact ⟨hd, rfl⟩
    · rintro ⟨hd, -⟩
      exact ⟨_, hd, rfl⟩
  induction constraints with
  | nil => exact iff_of_false List.not_mem_nil List.not_mem_nil
  | cons c rest ih =>
    rw [listedLiterals_cons, literalsOf, List.flatMap_cons, List.mem_append, List.mem_append, hitems]
    exact or_congr Iff.rfl ih

theorem isFinite_literals_iff (constraints : List Data.Members) :
    (∀ l ∈ literalsOf constraints, l.IsFinite) ↔ ∀ x, .double x ∈ listedLiterals constraints → x.isFinite = true := by
  constructor
  · intro h x hx
    exact h _ (double_mem_literalsOf_iff.mpr hx)
  · intro h l hl
    cases l with
    | double x => exact h x (double_mem_literalsOf_iff.mp hl)
    | text | int => trivial

theorem alternatives_of_literalUnion {constraints : List Data.Members} {t : TypeExpr}
    (h : literalUnion constraints = some t) :
    LiteralUnion.alternatives t.render = (literalsOf constraints).map Literal.render := by
  obtain ⟨hrender, hne⟩ := render_of_literalUnion h
  rw [hrender]
  refine LiteralUnion.alternatives_joinAlternatives (fun text htext => ?_) (by simpa using hne)
  obtain ⟨l, -, rfl⟩ := List.mem_map.mp htext
  exact LiteralUnion.whole_render l

theorem scan_literalUnion {constraints : List Data.Members} {t : TypeExpr} (h : literalUnion constraints = some t) :
    ∃ ts, scan t.render = some ts ∧
      ∀ name, Token.word name ∈ ts ↔ ∃ l ∈ literalsOf constraints, Token.word name ∈ l.tokens := by
  unfold literalUnion at h
  split at h
  · cases h
  · rename_i first others hliterals
    cases h
    have hnameable : (TypeExpr.oneOf (.literal first) (others.map .literal)).Nameable := by
      refine ⟨trivial, fun t ht => ?_⟩
      obtain ⟨l, -, rfl⟩ := List.mem_map.mp ht
      trivial
    refine ⟨_, (TypeExpr.ends_render _ hnameable).scan, fun name => ?_⟩
    rw [hliterals]
    simp [TypeExpr.tokens, SimpleType.tokens]

/-- A union has one alternative for each text and each number that the constraints list. All of them
are literal types if, and only if, every listed number is finite: an infinity and what is no number
are printed as the words `inf`, perhaps with a minus sign, and `nan`, and there is no other way for a
name to get into the union. -/
theorem literalUnion_alternatives {constraints : List Data.Members} {t : TypeExpr}
    (ht : literalUnion constraints = some t) :
    (LiteralUnion.alternatives t.render).length = (listedLiterals constraints).length ∧
    ((∀ a ∈ LiteralUnion.alternatives t.render, IsLiteralType a) ↔
      ∀ x, .double x ∈ listedLiterals constraints → x.isFinite = true) ∧
    (∀ a ∈ LiteralUnion.alternatives t.render, IsLiteralType a ∨ a ∈ ["inf", "-inf", "nan"]) ∧
    ∃ ts, scan t.render = some ts ∧ ∀ name, Token.word name ∈ ts ↔
      (∃ negative, .double (.infinite negative) ∈ listedLiterals constraints) ∧ name = "inf" ∨
        .double .nan ∈ listedLiterals constraints ∧ name = "nan" := by
  have hlength := (forall₂_literalsOf constraints).length_eq
  rw [alternatives_of_literalUnion ht, List.length_map, hlength, ← isFinite_literals_iff]
  refine ⟨rfl, ?_, fun a ha => ?_, ?_⟩
  · rw [List.forall_mem_map]
    exact forall₂_congr fun l _ => Literal.isLiteralType_render_iff
  · obtain ⟨l, -, rfl⟩ := List.mem_map.mp ha
    by_cases hfinite : l.IsFinite
    · exact Or.inl (Literal.isLiteralType_render_iff.mpr hfinite)
    · exact Or.inr (Literal.render_of_not_isFinite hfinite)
  · obtain ⟨ts, hts, hwords⟩ := scan_literalUnion ht
    refine ⟨ts, hts, fun name => ?_⟩
    rw [hwords]
    simp only [Literal.word_mem_tokens_iff, ← double_mem_literalsOf_iff]
    constructor
    · rintro ⟨l, hl, ⟨⟨negative, rfl⟩, hname⟩ | ⟨rfl, hname⟩⟩
      · exact Or.inl ⟨⟨negative, hl⟩, hname⟩
      · exact Or.inr ⟨hl, hname⟩
    · rintro (⟨⟨negative, hl⟩, hname⟩ | ⟨hl, hname⟩)
      · exact ⟨_, hl, Or.inl ⟨⟨negative, rfl⟩, hname⟩⟩
      · exact ⟨_, hl, Or.inr ⟨rfl, hname⟩⟩

/-- A text with what looks like a bar between literals, and a negative number. -/
def barredConstraints : List Data.Members :=
  [[("in", .list [.text "a\" | \"b", .bool true, .double (.finite true 1 (-1))])]]

theorem literalUnion_alternatives_barred :
    ∃ t, literalUnion barredConstraints = some t ∧ (LiteralUnion.alternatives t.render).length = 2 ∧
      ∀ a ∈ LiteralUnion.alternatives t.render, IsLiteralType a := by
  have hlisted : listedLiterals barredConstraints = [.text "a\" | \"b", .double (.finite true 1 (-1))] := rfl
  obtain ⟨t, ht⟩ : ∃ t, literalUnion barredConstraints = some t := ⟨_, rfl⟩
  obtain ⟨hlength, hliteral, -⟩ := literalUnion_alternatives ht
  refine ⟨t, ht, by rw [hlength, hlisted]; rfl, hliteral.mpr fun x hx => ?_⟩
  simp only [hlisted, List.mem_cons, List.not_mem_nil, or_false, reduceCtorEq, false_or, Data.double.injEq] at hx
  subst hx
  rfl

/-! ## Numbers that are none -/

/-- A field that allows what is no number, and a number that is too large. -/
def Field.boundless : Field :=
  ⟨⟨some "size", none, some "Number", true, none,
    [[("in", .list [.double .nan, .double (.infinite true)])]], none⟩, []⟩

def ContentType.boundless : ContentType := ⟨⟨"a", "ContentType"⟩, "", none, [Field.boundless]⟩

def Sheet.boundless : Sheet where
  items := [.object [("sys", .object [("id", .text "a")]), ("fields", .list [.object [
    ("id", .text "size"), ("type", .text "Number"), ("required", .bool true),
    ("validations", .list [.object [("in", .list [.double .nan, .double (.infinite true)])]])]])]]
  contentTypes := [.boundless]
  total := none

def Reply.boundlessBody : String :=
  "\x7b\"items\":[\x7b\"sys\":\x7b\"id\":\"a\"\x7d,\"fields\":[\x7b\"id\":\"size\",\"type\":\"Number\"," ++
    "\"required\":true,\"validations\":[\x7b\"in\":[NaN,-1e400]\x7d]\x7d]\x7d]\x7d"

def Reply.boundless : Reply := .answered 200 (some "OK") Reply.boundlessBody

theorem Reply.bears_boundless : Reply.boundless.Bears Sheet.boundless := by
  have hbody : Reply.bodyData? Reply.boundlessBody =
      some (.object [("items", .list Sheet.boundless.items)]) := by
    cbv
  exact .page rfl hbody rfl rfl rfl

/-- A server may send numbers that are none; the client reads them, and the union of them consists of
names that nothing declares. -/
theorem not_isLiteralType_nan :
    (({} : Client).fetch "s" "e" [Reply.boundless]).result = .ok [ContentType.boundless] ∧
      Field.boundless ∈ ContentType.boundless.fields ∧
      ∃ t, literalUnion Field.boundless.spec.validations = some t ∧
        LiteralUnion.alternatives t.render = ["nan", "-inf"] ∧ ¬ IsLiteralType "nan" ∧ ¬ IsLiteralType "-inf" ∧
        "nan" ∉ builtins ∧ "nan" ∉ (declaredIn {} [ContentType.boundless]).map Declaration.name := by
  have hlast : ¬ Sheet.boundless.GoesOn (0 + Sheet.boundless.items.length) := by
    rintro ⟨-, _, _, htotal, -⟩
    cases htotal
  have hnan : ¬ IsLiteralType (Literal.double .nan).render := Literal.isLiteralType_render_iff.not.mpr nofun
  have hinf : ¬ IsLiteralType (Literal.double (.infinite true)).render :=
    Literal.isLiteralType_render_iff.not.mpr nofun
  obtain ⟨t, ht⟩ : ∃ t, literalUnion Field.boundless.spec.validations = some t := ⟨_, rfl⟩
  refine ⟨?_, List.mem_cons_self, t, ht, alternatives_of_literalUnion ht, hnan, hinf, by decide, ?_⟩
  · rw [Client.fetch, Client.readFrom_last _ _ Reply.bears_boundless 0 hlast]
    rfl
  · rw [names_declaredIn, Core.names_declared]
    decide

end Typings
