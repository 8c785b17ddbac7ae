import Mathlib
import Typings.Yaml.Lexer

/-! # What scanning can fail with

Splitting a document text into tokens fails as malformed, or because an escape in it asks for a
character that does not exist. No other text makes it crash.
-/

set_option mvcgen.warning false

namespace Typings.Yaml

open Std.Do

/-- A computation that keeps an invariant of its state and fails only with faults of one kind. -/
abbrev Keeps {σ α : Type} (I : σ → Prop) (E : Fault → Prop) (m : StateT σ (Except Fault) α) : Prop :=
  ⦃fun s => ⌜I s⌝⦄ m ⦃post⟨fun _ s => ⌜I s⌝, fun f => ⌜E f⌝⟩⦄

theorem bind_eq_error_iff {ε α β : Type} {m : Except ε α} {f : α → Except ε β} {e : ε} :
    m >>= f = .error e ↔ m = .error e ∨ ∃ a, m = .ok a ∧ f a = .error e := by
  cases m with
  | error _ => simp [bind, Except.bind]
  | ok _ => simp [bind, Except.bind]

section

variable {σ α : Type} {I : σ → Prop} {E : Fault → Prop} {m : StateT σ (Except Fault) α} {s : σ}

theorem Keeps.fault {f : Fault} (hm : Keeps I E m) (hs : I s) (h : m.run s = .error f) : E f := by
  have hwp : (wp⟦m.run s⟧ (fun r => ⌜I r.2⌝, fun f => ⌜E f⌝, ())).down := hm s hs
  rw [h] at hwp
  exact hwp

theorem Keeps.kept {a : α} {s' : σ} (hm : Keeps I E m) (hs : I s) (h : m.run s = .ok (a, s')) : I s' := by
  have hwp : (wp⟦m.run s⟧ (fun r => ⌜I r.2⌝, fun f => ⌜E f⌝, ())).down := hm s hs
  rw [h] at hwp
  exact hwp

-- The library's own rule for `throw` goes through a lift whose universe level nothing determines, so
-- proofs leave it out.
@[spec] theorem throw_spec {Q : PostCond α (.arg σ (.except Fault .pure))} (f : Fault) :
    ⦃fun _ => Q.2.1 f⦄ (throw f : StateT σ (Except Fault) α) ⦃Q⦄ := by
  mintro h ∀s
  simp

@[spec] theorem discard_spec {Q : PostCond Unit (.arg σ (.except Fault .pure))} :
    ⦃wp⟦m⟧ (fun _ s => Q.1 () s, Q.2)⦄ (discard m : StateT σ (Except Fault) Unit) ⦃Q⦄ := by
  show ⦃_⦄ ((fun _ => ()) <$> m) ⦃_⦄
  mvcgen

theorem Keeps.seqLeft {β : Type} {m' : StateT σ (Except Fault) β} (hm : Keeps I E m) (hm' : Keeps I E m') :
    Keeps I E (m <* m') := by
  rw [seqLeft_eq_bind]
  mvcgen [hm, hm']

end

/-! ## Moving on -/

namespace Cursor

@[simp] theorem rest_next (c : Cursor) : c.next.rest = c.rest.drop 1 := by
  unfold next
  split
  · next h => simp [h]
  · next h =>
    rw [h]
    dsimp only
    split_ifs <;> rfl

@[simp] theorem rest_skip (c : Cursor) (n : Nat) : (c.skip n).rest = c.rest.drop n := by
  induction n generalizing c with
  | zero => rfl
  | succ n ih => rw [skip, ih, rest_next, List.drop_drop, Nat.add_comm]

/-- Whether a cursor stands in a text. -/
def StandsIn (text : List Char) (c : Cursor) : Prop := c.rest <:+ text

/-- Whether a cursor stands in a text behind a backslash. -/
def StandsInEscape (text : List Char) (c : Cursor) : Prop := '\\' :: c.rest <:+ text

variable {text : List Char} {c : Cursor}

theorem StandsIn.skip (h : c.StandsIn text) (n : Nat) : (c.skip n).StandsIn text := by
  rw [StandsIn, rest_skip]
  exact (List.drop_suffix n c.rest).trans h

theorem StandsInEscape.standsIn (h : c.StandsInEscape text) : c.StandsIn text :=
  (List.suffix_cons '\\' c.rest).trans h

theorem StandsIn.skip_backslash {rest : List Char} (h : c.StandsIn text) (hc : c.rest = '\\' :: rest) :
    (c.skip 1).StandsInEscape text := by
  rw [StandsIn, hc] at h
  rw [StandsInEscape, rest_skip, hc]
  exact h

end Cursor

/-! ## Escapes for characters -/

/-- Whether a text holds an escape whose eight digits are above all characters. -/
def AsksForNoCharacter (text : List Char) : Prop :=
  ∃ digits n, '\\' :: 'U' :: digits <:+: text ∧ digits.length = 8 ∧ hexNumber? digits = some n ∧
    0x110000 ≤ n

theorem hexValue?_lt {c : Char} {n : Nat} (h : Data.Reader.hexValue? c = some n) : n < 16 := by
  unfold Data.Reader.hexValue? at h
  simp only [Bool.and_eq_true, decide_eq_true_eq, Char.le_def, UInt32.le_iff_toNat_le] at h
  split_ifs at h with hdecimal hlower hupper <;> cases h
  · have : c.toNat ≤ 57 := hdecimal.2
    omega
  · have : c.toNat ≤ 102 := hlower.2
    omega
  · have : c.toNat ≤ 70 := hupper.2
    omega

theorem hexNumber?_append_singleton (cs : List Char) (c : Char) :
    hexNumber? (cs ++ [c]) = do return (← hexNumber? cs) * 16 + (← Data.Reader.hexValue? c) := by
  rw [hexNumber?, List.foldl_append]
  rfl

theorem hexNumber?_lt {cs : List Char} {n : Nat} (h : hexNumber? cs = some n) : n < Nat.pow 16 cs.length := by
  induction cs using List.reverseRecOn generalizing n with
  | nil => cases h; decide
  | append_singleton cs c ih =>
    rw [hexNumber?_append_singleton] at h
    simp only [Option.bind_eq_bind, Option.bind_eq_some_iff, Option.pure_def, Option.some.injEq] at h
    obtain ⟨a, ha, b, hb, rfl⟩ := h
    have hfront := ih ha
    have hlast := hexValue?_lt hb
    have hpow : Nat.pow 16 (cs.length + 1) = Nat.pow 16 cs.length * 16 := rfl
    rw [List.length_append, List.length_singleton, hpow]
    omega

theorem asksForNoCharacter_of_escapeWidth? {text rest : List Char} {c : Char} {width n : Nat}
    (h : '\\' :: c :: rest <:+ text) (hwidth : escapeWidth? c = some width)
    (hn : hexNumber? (rest.take width) = some n) (hlength : ¬ (rest.take width).length < width)
    (hlarge : 0x110000 ≤ n) : AsksForNoCharacter text := by
  have hwhole : (rest.take width).length = width :=
    Nat.le_antisymm (List.length_take_le width rest) (Nat.le_of_not_lt hlength)
  have hbound : n < Nat.pow 16 width := hwhole ▸ hexNumber?_lt hn
  unfold escapeWidth? at hwidth
  split at hwidth <;> cases hwidth
  case h_1 => exact absurd (Nat.lt_of_lt_of_le hbound (by decide)) (Nat.not_lt.mpr hlarge)
  case h_2 => exact absurd (Nat.lt_of_lt_of_le hbound (by decide)) (Nat.not_lt.mpr hlarge)
  case h_3 =>
    have hprefix : '\\' :: 'U' :: rest.take 8 <+: '\\' :: 'U' :: rest := by simp [List.take_prefix]
    exact ⟨rest.take 8, n, hprefix.isInfix.trans h.isInfix, hwhole, hn, hlarge⟩

theorem asksForNoCharacter_of_standsInEscape {text : List Char} {c : Cursor} {mark : Char} {width n : Nat}
    (h : c.StandsInEscape text) (hmark : c.peek = some mark) (hwidth : escapeWidth? mark = some width)
    (hn : hexNumber? ((c.skip 1).rest.take width) = some n)
    (hlength : ¬ ((c.skip 1).rest.take width).length < width) (hlarge : 0x110000 ≤ n) :
    AsksForNoCharacter text := by
  obtain ⟨rest, hrest⟩ : ∃ rest, c.rest = mark :: rest := List.head?_eq_some_iff.mp hmark
  rw [Cursor.StandsInEscape, hrest] at h
  rw [Cursor.rest_skip, hrest] at hn hlength
  exact asksForNoCharacter_of_escapeWidth? h hwidth hn hlength hlarge

/-- What a fault of scanning a text may be. -/
def Fault.OfScanning (text : List Char) : Fault → Prop
  | .malformed => True
  | .crashed _ => AsksForNoCharacter text

/-! ## Reading -/

abbrev Scans {α : Type} (text : List Char) (r : Reading α) : Prop :=
  Keeps (Cursor.StandsIn text) (Fault.OfScanning text) r

section

variable {text : List Char}

namespace Reading

@[spec] theorem fail_spec {α : Type} {Q : PostCond α (.arg Cursor (.except Fault .pure))} :
    ⦃fun _ => Q.2.1 .malformed⦄ (fail : Reading α) ⦃Q⦄ :=
  throw_spec .malformed

@[spec] theorem scans_peek : Scans text peek := by mvcgen [peek]

@[spec] theorem scans_advance (n : Nat) : Scans text (advance n) := by
  mvcgen [advance] with exact Cursor.StandsIn.skip ‹_› n

@[spec] theorem scans_takeWhile (p : Char → Bool) : Scans text (takeWhile p) := by mvcgen [takeWhile]

@[spec] theorem scans_skipSpaces : Scans text skipSpaces := by mvcgen [skipSpaces]

@[spec] theorem scans_skipComment : Scans text skipComment := by mvcgen [skipComment]

@[spec] theorem scans_lineBreak : Scans text lineBreak := by mvcgen [lineBreak]

@[spec] theorem scans_require (p : Option Char → Bool) : Scans text (require p) := by mvcgen [require]

end Reading

/-! ## Texts of scalars -/

@[spec] theorem scans_plainBreaks (fuel : Nat) (breaks : List Char) :
    Scans text (plainBreaks fuel breaks) := by
  induction fuel generalizing breaks with
  | zero => mvcgen [plainBreaks]
  | succ fuel ih => mvcgen [plainBreaks, ih]

@[spec] theorem scans_plainSpaces : Scans text plainSpaces := by mvcgen [plainSpaces]

@[spec] theorem scans_plainPieces (inFlow : Bool) (indent : Int) (fuel : Nat) (done space : List Char)
    (broken : Bool) : Scans text (plainPieces inFlow indent fuel done space broken) := by
  induction fuel generalizing done space broken with
  | zero => mvcgen [plainPieces]
  | succ fuel ih => mvcgen [plainPieces, ih]

@[spec] theorem scans_plainText (inFlow : Bool) (indent : Int) : Scans text (plainText inFlow indent) := by
  mvcgen [plainText]

@[spec] theorem scans_quotedBreaks (fuel : Nat) (breaks : List Char) :
    Scans text (quotedBreaks fuel breaks) := by
  induction fuel generalizing breaks with
  | zero => mvcgen [quotedBreaks]
  | succ fuel ih => mvcgen [quotedBreaks, ih]

@[spec] theorem ofCodePoint_spec [LoneSurrogates] (n : Nat) :
    ⦃fun c => ⌜c.StandsIn text ∧ (0x110000 ≤ n → AsksForNoCharacter text)⌝⦄ ofCodePoint n
    ⦃post⟨fun _ c => ⌜c.StandsIn text⌝, fun f => ⌜f.OfScanning text⌝⟩⦄ := by
  mintro h ∀c
  mpure h
  unfold ofCodePoint
  split_ifs with hn hword
  · simpa using h.1
  · simpa [Fault.OfScanning] using h.2 (Nat.le_of_not_lt hn)
  · simpa [Fault.OfScanning] using h.2 (Nat.le_of_not_lt hn)

@[spec] theorem escaped_spec [LoneSurrogates] :
    ⦃fun c => ⌜c.StandsInEscape text⌝⦄ escaped
    ⦃post⟨fun _ c => ⌜c.StandsIn text⌝, fun f => ⌜f.OfScanning text⌝⟩⦄ := by
  mvcgen [escaped, Reading.peek, Reading.advance, -Reading.scans_peek, -Reading.scans_advance]
  case vc2 => exact Cursor.StandsIn.skip (Cursor.StandsInEscape.standsIn ‹_›) 1
  case vc4 =>
    exact ⟨Cursor.StandsIn.skip (Cursor.StandsInEscape.standsIn ‹_›) 1,
      asksForNoCharacter_of_standsInEscape ‹_› ‹_› ‹_› ‹_› ‹_›⟩
  case vc5 => exact Cursor.StandsIn.skip ‹_› _
  case vc7 => exact Cursor.StandsInEscape.standsIn ‹_›

@[spec] theorem scans_quotedPieces [LoneSurrogates] (double : Bool) (fuel : Nat) (done : List Char) :
    Scans text (quotedPieces double fuel done) := by
  induction fuel generalizing done with
  | zero => mvcgen [quotedPieces]
  | succ fuel ih =>
    mvcgen [quotedPieces, ih, Reading.advance, -Reading.scans_advance]
    case vc9 => exact Cursor.StandsIn.skip_backslash ‹_› ‹_›
    all_goals exact Cursor.StandsIn.skip ‹_› _

@[spec] theorem scans_quotedText [LoneSurrogates] (double : Bool) : Scans text (quotedText double) := by
  mvcgen [quotedText]

@[spec] theorem scans_blockStep : Scans text blockStep := by mvcgen [blockStep]

@[spec] theorem scans_blockHeader : Scans text blockHeader := by mvcgen [blockHeader]

@[spec] theorem scans_ignoredLine : Scans text ignoredLine := by mvcgen [ignoredLine]

@[spec] theorem scans_blockIndentation (fuel : Nat) (breaks : List Char) (widest : Nat) :
    Scans text (blockIndentation fuel breaks widest) := by
  induction fuel generalizing breaks widest with
  | zero => mvcgen [blockIndentation]
  | succ fuel ih => mvcgen [blockIndentation, ih]

@[spec] theorem scans_skipIndent (indent : Nat) : Scans text (skipIndent indent) := by mvcgen [skipIndent]

@[spec] theorem scans_blockBreaks (indent fuel : Nat) (breaks : List Char) :
    Scans text (blockBreaks indent fuel breaks) := by
  induction fuel generalizing breaks with
  | zero => mvcgen [blockBreaks]
  | succ fuel ih => mvcgen [blockBreaks, ih]

@[spec] theorem scans_atBlockLine (indent : Nat) : Scans text (atBlockLine indent) := by mvcgen [atBlockLine]

@[spec] theorem scans_blockLines (folded : Bool) (indent fuel : Nat) (done breaks : List Char) :
    Scans text (blockLines folded indent fuel done breaks) := by
  induction fuel generalizing done breaks with
  | zero => mvcgen [blockLines]
  | succ fuel ih => mvcgen [blockLines, ih]

@[spec] theorem scans_blockText (folded : Bool) (parentIndent : Int) :
    Scans text (blockText folded parentIndent) := by
  mvcgen [blockText]

/-! ## Names, addresses and directives -/

namespace Token

@[spec] theorem scans_name : Scans text name := by mvcgen [name]

@[spec] theorem scans_percentText : Scans text percentText := by mvcgen [percentText]

@[spec] theorem scans_addressPieces (fuel : Nat) (done : List Char) :
    Scans text (addressPieces fuel done) := by
  induction fuel generalizing done with
  | zero => mvcgen [addressPieces]
  | succ fuel ih => mvcgen [addressPieces, ih]

@[spec] theorem scans_address : Scans text address := by mvcgen [address]

@[spec] theorem scans_tagHandle : Scans text tagHandle := by mvcgen [tagHandle]

@[spec] theorem scans_versionNumber : Scans text versionNumber := by mvcgen [versionNumber]

@[spec] theorem scans_versionDirective : Scans text versionDirective := by mvcgen [versionDirective]

@[spec] theorem scans_tagDirective : Scans text tagDirective := by mvcgen [tagDirective]

@[spec] theorem scans_directiveLine : Scans text directiveLine := by mvcgen [directiveLine]

@[spec] theorem scans_reference : Scans text reference := by mvcgen [reference]

@[spec] theorem scans_tagText : Scans text tagText := by mvcgen [tagText]

end Token

/-! ## Splitting into tokens -/

abbrev Lexes {α : Type} (text : List Char) (m : Lexer.Lexing α) : Prop :=
  Keeps (fun l => l.cursor.StandsIn text) (Fault.OfScanning text) m

namespace Lexer

@[spec] theorem fail_spec {α : Type} {Q : PostCond α (.arg Lexer (.except Fault .pure))} :
    ⦃fun _ => Q.2.1 .malformed⦄ (fail : Lexing α) ⦃Q⦄ :=
  throw_spec .malformed

@[spec] theorem scan_spec {α : Type} {r : Reading α} {Q : PostCond α (.arg Lexer (.except Fault .pure))} :
    ⦃fun l => wp⟦r⟧ (fun a cursor => Q.1 a { l with cursor }, Q.2) l.cursor⦄ scan r ⦃Q⦄ := by
  mvcgen [scan]

@[spec] theorem lexes_emit (t : Token) : Lexes text (emit t) := by mvcgen [emit]

@[spec] theorem lexes_allowKey (allowed : Bool) : Lexes text (allowKey allowed) := by mvcgen [allowKey]

@[spec] theorem lexes_inFlow : Lexes text inFlow := by mvcgen [inFlow]

@[spec] theorem lexes_forget (p : Nat → PossibleKey → Bool) : Lexes text (forget p) := by mvcgen [forget]

@[spec] theorem lexes_forgetStale : Lexes text forgetStale := by mvcgen [forgetStale]

@[spec] theorem lexes_forgetHere : Lexes text forgetHere := by mvcgen [forgetHere]

@[spec] theorem lexes_rememberKey : Lexes text rememberKey := by mvcgen [rememberKey]

theorem cursor_close (column : Int) (outer : List Int) (l : Lexer) :
    (closeBlocks.close column outer l).cursor = l.cursor := by
  induction outer generalizing l with
  | nil => rfl
  | cons next outer ih =>
    rw [closeBlocks.close]
    split_ifs
    · exact ih _
    · rfl

@[spec] theorem lexes_closeBlocks (column : Int) : Lexes text (closeBlocks column) := by
  mvcgen [closeBlocks] with simpa [cursor_close]

@[spec] theorem lexes_openBlock (column : Int) : Lexes text (openBlock column) := by mvcgen [openBlock]

@[spec] theorem lexes_mark (width : Nat) (t : Token) : Lexes text (mark width t) := by mvcgen [mark]

@[spec] theorem lexes_flowStart (t : Token) : Lexes text (flowStart t) := by mvcgen [flowStart]

@[spec] theorem lexes_flowEnd (t : Token) : Lexes text (flowEnd t) := by mvcgen [flowEnd]

@[spec] theorem lexes_flowEntry : Lexes text flowEntry := by mvcgen [flowEntry]

@[spec] theorem lexes_openFor (t : Token) : Lexes text (openFor t) := by mvcgen [openFor]

@[spec] theorem lexes_blockEntry : Lexes text blockEntry := by mvcgen [blockEntry]

@[spec] theorem lexes_keyMark : Lexes text keyMark := by mvcgen [keyMark]

@[spec] theorem lexes_valueMark : Lexes text valueMark := by mvcgen [valueMark]

@[spec] theorem lexes_plain : Lexes text plain := by mvcgen [plain]

@[spec] theorem lexes_quoted [LoneSurrogates] (double : Bool) : Lexes text (quoted double) := by
  mvcgen [quoted, keyLike]

@[spec] theorem lexes_block (folded : Bool) : Lexes text (block folded) := by mvcgen [block]

@[spec] theorem lexes_skipToToken (fuel : Nat) : Lexes text (skipToToken fuel) := by
  induction fuel with
  | zero => mvcgen [skipToToken]
  | succ fuel ih => mvcgen [skipToToken, ih]

@[spec] theorem lexes_token [LoneSurrogates] (c : Char) : Lexes text (token c) := by
  mvcgen [token, topLevel, keyLike]

@[spec] theorem lexes_step [LoneSurrogates] : Lexes text step := by mvcgen [step]

end Lexer

/-- Scanning a text crashes only if the text asks for a character that does not exist. -/
theorem asksForNoCharacter_of_ofLexer [LoneSurrogates] {fuel : Nat} {l : Lexer} {c : Crash}
    (hl : l.cursor.StandsIn text) (h : (Scan.ofLexer fuel l).fault = some (.crashed c)) : AsksForNoCharacter text := by
  induction fuel generalizing l with
  | zero => cases h
  | succ fuel ih =>
    rw [Scan.ofLexer] at h
    cases hstep : Lexer.step.run l with
    | error f =>
      rw [hstep] at h
      cases h
      exact Lexer.lexes_step.fault hl hstep
    | ok r =>
      obtain ⟨more, l'⟩ := r
      rw [hstep] at h
      cases more with
      | true => exact ih (Lexer.lexes_step.kept hl hstep) h
      | false => cases h

theorem asksForNoCharacter_of_scan [LoneSurrogates] {c : Crash} (h : (Scan.ofText text).fault = some (.crashed c)) :
    AsksForNoCharacter text := by
  have hmark : ({ rest := text } : Cursor).next.StandsIn text := by
    rw [Cursor.StandsIn, Cursor.rest_next]
    exact List.drop_suffix 1 text
  have hstart : (if ({ rest := text } : Cursor).peek = some '\ufeff' then ({ rest := text } : Cursor).next
      else { rest := text }).StandsIn text := by
    split_ifs
    · exact hmark
    · exact List.suffix_rfl
  rw [Scan.ofText] at h
  split_ifs at h
  · exact asksForNoCharacter_of_ofLexer hstart h
  · cases h

end

end Typings.Yaml
