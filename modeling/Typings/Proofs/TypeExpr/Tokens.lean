import Typings.TypeExpr
import Typings.Proofs.Decimal.Numeral

/-!
# The tokens of a type

Each type is printed as a fixed sequence of tokens. No literal can change the tokens around it.
-/

namespace Typings

open Script

/-! ## Literals -/

def withSign (negative : Bool) (ts : List Token) : List Token :=
  if negative then .punct '-' :: ts else ts

def Double.unsignedText (significand : Nat) (exponent : Int) : List Char :=
  if significand = 0 then ['0', '.', '0'] else layout.render (shortest significand exponent)

def Double.tokens : Double → List Token
  | .finite negative significand exponent =>
    withSign negative [Token.number (String.ofList (unsignedText significand exponent))]
  | .infinite negative => withSign negative [Token.word "inf"]
  | .nan => [Token.word "nan"]

def intTokens (n : Int) : List Token := withSign (n < 0) [Token.number (toString n.natAbs)]

def Literal.tokens : Literal → List Token
  | .text s => [Token.quoted '\x22' (String.ofList (Text.Quoted.encode s.toList))]
  | .int n => intTokens n
  | .double x =>
    match x.toInt? with
    | some n => intTokens n
    | none => x.tokens

theorem scans_minus : Scans ['-'] [Token.punct '-'] := by decide

theorem ends_withSign {cs : List Char} {ts : List Token} (h : Ends cs ts) (negative : Bool) :
    Ends ((if negative then ['-'] else []) ++ cs) (withSign negative ts) := by
  cases negative with
  | false => exact h
  | true => exact scans_minus.append_ends h

theorem numeral_unsignedText (significand : Nat) (exponent : Int) :
    ∃ p, p ≠ .whole ∧ Numeral p (Double.unsignedText significand exponent) := by
  unfold Double.unsignedText
  split
  · exact ⟨.fraction, by decide, '0', ['.', '0'], rfl, rfl, rfl, rfl⟩
  · exact numeral_render _ _

theorem toList_text_finite (negative : Bool) (significand : Nat) (exponent : Int) :
    (Double.finite negative significand exponent).text.toList =
      (if negative then ['-'] else []) ++ Double.unsignedText significand exponent := by
  unfold Double.text Double.unsignedText
  simp only
  split <;> rw [String.toList_ofList]

theorem Double.ends_text (x : Double) : Ends x.text.toList x.tokens := by
  cases x with
  | finite negative significand exponent =>
    obtain ⟨p, -, hp⟩ := numeral_unsignedText significand exponent
    rw [toList_text_finite]
    exact ends_withSign hp.ends negative
  | infinite negative =>
    have hinf : Ends "inf".toList [Token.word "inf"] := ends_word rfl
    cases negative with
    | false => exact hinf
    | true => exact scans_minus.append_ends hinf
  | nan => exact ends_word rfl

theorem toList_toString_int (n : Int) :
    (toString n).toList = (if (decide (n < 0)) then ['-'] else []) ++ Nat.toDigits 10 n.natAbs := by
  rw [Int.toString_eq_repr, Int.repr_eq_if]
  by_cases h : n < 0
  · have hn : (-n).toNat = n.natAbs := by omega
    simp [h, Int.not_le.mpr h, hn]
  · have hn : n.toNat = n.natAbs := by omega
    simp [h, Int.not_lt.mp h, hn]

theorem ends_toString_int (n : Int) : Ends (toString n).toList (intTokens n) := by
  rw [toList_toString_int, intTokens, Nat.toString_eq_ofList_toDigits]
  exact ends_withSign (numeral_toDigits _).ends _

/-! ## Quoted text -/

theorem hexDigit_plain {n : Nat} (h : n < 16) :
    Text.hexDigit n ≠ '\x22' ∧ Text.hexDigit n ≠ '\\' ∧ Text.hexDigit n ≠ '\n' ∧
      Text.hexDigit n ≠ '\r' := by
  have hall : ∀ n < 16, Text.hexDigit n ≠ '\x22' ∧ Text.hexDigit n ≠ '\\' ∧ Text.hexDigit n ≠ '\n' ∧
      Text.hexDigit n ≠ '\r' := by decide
  exact hall n h

theorem inside_escape (c : Char) : Inside '\x22' (Text.Quoted.escape c) := by
  unfold Text.Quoted.escape
  split
  case h_8 _ hquote hslash hn hr _ _ _ =>
    split
    · rename_i hctl
      obtain ⟨h1, h2, h3, h4⟩ := hexDigit_plain (n := c.toNat / 16) (by omega)
      obtain ⟨g1, g2, g3, g4⟩ := hexDigit_plain (n := c.toNat % 16) (by omega)
      refine .escape 'u' (.plain ?_ ?_ ?_ ?_ (.plain ?_ ?_ ?_ ?_
        (.plain h1 h2 h3 h4 (.plain g1 g2 g3 g4 .nil)))) <;> decide
    · exact .plain hquote hslash hn hr .nil
  all_goals exact .escape _ .nil

theorem inside_encode (cs : List Char) : Inside '\x22' (Text.Quoted.encode cs) := by
  induction cs with
  | nil => exact .nil
  | cons c rest ih => exact (inside_escape c).append ih

theorem ends_quote (s : String) :
    Ends (Text.quote s).toList [Token.quoted '\x22' (String.ofList (Text.Quoted.encode s.toList))] := by
  rw [Text.toList_quote]
  exact (scans_quoted (Or.inl rfl) (inside_encode s.toList)).ends

theorem Literal.ends_render (l : Literal) : Ends l.render.toList l.tokens := by
  cases l with
  | text s => exact ends_quote s
  | int n => exact ends_toString_int n
  | double x =>
    rw [Literal.render, Literal.tokens]
    cases x.toInt? with
    | some n => exact ends_toString_int n
    | none => exact x.ends_text

/-! ## Types without parts -/

def SimpleType.Nameable : SimpleType → Prop
  | .named name => Naming.isIdentifier name = true
  | .entryOf fields => Naming.isIdentifier fields = true
  | _ => True

def SimpleType.tokens : SimpleType → List Token
  | .text => [Token.word "string"]
  | .number => [Token.word "number"]
  | .boolean => [Token.word "boolean"]
  | .unknown => [Token.word "unknown"]
  | .dictionary =>
    [Token.word "Record", .punct '<', .word "string", .punct ',', .word "unknown", .punct '>']
  | .location => [Token.punct '\x7b', .word "lat", .punct ':', .word "number", .punct ';',
      .word "lon", .punct ':', .word "number", .punct '\x7d']
  | .document => [Token.word "Document"]
  | .asset => [Token.word "Asset"]
  | .literal l => l.tokens
  | .named name => [Token.word name]
  | .entryOf fields => [Token.word "Entry", .punct '<', .word fields, .punct '>']
  | .unknownEntry => [Token.word "Entry", .punct '<', .word "unknown", .punct '>']

theorem SimpleType.ends_render (t : SimpleType) (h : t.Nameable) : Ends t.render.toList t.tokens := by
  cases t with
  | literal l => exact l.ends_render
  | named name => exact ends_word h
  | entryOf fields =>
    have hopen : Scans "Entry<".toList [Token.word "Entry", .punct '<'] := rfl
    have hclose : Scans ">".toList [Token.punct '>'] := rfl
    have hfields : Ends fields.toList [Token.word fields] := ends_word h
    rw [SimpleType.render, String.toList_append, String.toList_append, List.append_assoc]
    exact (hopen.append (hfields.append hclose rfl)).ends
  | dictionary => exact Scans.ends rfl
  | location => exact Scans.ends rfl
  | unknownEntry => exact Scans.ends rfl
  | _ => exact ends_word rfl

/-! ## Types -/

def TypeExpr.Nameable : TypeExpr → Prop
  | .oneOf first others => first.Nameable ∧ ∀ t ∈ others, t.Nameable
  | .array _ element => element.Nameable

def TypeExpr.tokens : TypeExpr → List Token
  | .oneOf first others => first.tokens ++ others.flatMap fun t => Token.punct '|' :: t.tokens
  | .array .readonly element =>
    Token.word "ReadonlyArray" :: .punct '<' :: element.tokens ++ [Token.punct '>']
  | .array .mutable element =>
    if needsParens element.render then
      Token.punct '(' :: element.tokens ++ [Token.punct ')', .punct '[', .punct ']']
    else element.tokens ++ [Token.punct '[', .punct ']']

theorem ends_alternatives (first : SimpleType) (others : List SimpleType) (hfirst : first.Nameable)
    (hothers : ∀ t ∈ others, t.Nameable) :
    Ends (joinAlternatives (first.render :: others.map SimpleType.render)).toList
      (first.tokens ++ others.flatMap fun t => Token.punct '|' :: t.tokens) := by
  induction others generalizing first with
  | nil => simpa [joinAlternatives] using first.ends_render hfirst
  | cons second rest ih =>
    have hbar : Scans " | ".toList [Token.punct '|'] := rfl
    have hrest := ih second (hothers second List.mem_cons_self)
      fun t ht => hothers t (List.mem_cons_of_mem _ ht)
    have hcut : opensApart (" | ".toList ++
        (joinAlternatives (second.render :: rest.map SimpleType.render)).toList) = true := rfl
    have := (first.ends_render hfirst).append_ends (hbar.append_ends hrest) hcut
    simpa [joinAlternatives] using this

theorem TypeExpr.ends_render (t : TypeExpr) (h : t.Nameable) : Ends t.render.toList t.tokens := by
  induction t with
  | oneOf first others => exact ends_alternatives first others h.1 h.2
  | array form element ih =>
    have helement := ih h
    rw [TypeExpr.render]
    cases form with
    | readonly =>
      have hopen : Scans "ReadonlyArray<".toList [Token.word "ReadonlyArray", .punct '<'] := rfl
      have hclose : Scans ">".toList [Token.punct '>'] := rfl
      rw [ArrayForm.wrap, String.toList_append, String.toList_append, List.append_assoc]
      exact (hopen.append (helement.append hclose rfl)).ends
    | mutable =>
      rw [ArrayForm.wrap, TypeExpr.tokens]
      split
      · have hopen : Scans "(".toList [Token.punct '('] := rfl
        have hclose : Scans ")[]".toList [Token.punct ')', .punct '[', .punct ']'] := rfl
        rw [String.toList_append, String.toList_append, List.append_assoc]
        exact (hopen.append (helement.append hclose rfl)).ends
      · have hclose : Scans "[]".toList [Token.punct '[', .punct ']'] := rfl
        rw [String.toList_append]
        exact (helement.append hclose rfl).ends

/-! ## No comments -/

theorem code_withSign (negative : Bool) (ts : List Token) :
    code (withSign negative ts) = withSign negative (code ts) := by
  cases negative <;> rfl

theorem Literal.code_tokens (l : Literal) : code l.tokens = l.tokens := by
  cases l with
  | text s => rfl
  | int n => exact code_withSign _ _
  | double x =>
    rw [Literal.tokens]
    split
    · exact code_withSign _ _
    · cases x with
      | nan => rfl
      | _ => exact code_withSign _ _

theorem SimpleType.code_tokens (t : SimpleType) : code t.tokens = t.tokens := by
  cases t with
  | literal l => exact l.code_tokens
  | _ => rfl

theorem code_flatMap {α : Type} (xs : List α) (tokens : α → List Token) :
    code (xs.flatMap tokens) = xs.flatMap fun x => code (tokens x) := List.filter_flatMap

theorem code_punct (c : Char) (ts : List Token) :
    code (Token.punct c :: ts) = Token.punct c :: code ts := rfl

theorem code_word (name : String) (ts : List Token) :
    code (Token.word name :: ts) = Token.word name :: code ts := rfl

theorem TypeExpr.code_tokens (t : TypeExpr) : code t.tokens = t.tokens := by
  induction t with
  | oneOf first others =>
    simp [TypeExpr.tokens, code_flatMap, code_punct, SimpleType.code_tokens]
  | array form element ih =>
    cases form with
    | readonly => simp [TypeExpr.tokens, code_word, code_punct, ih]
    | mutable =>
      rw [TypeExpr.tokens]
      split <;> simp [code_punct, ih]

end Typings
