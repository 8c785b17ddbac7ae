import Typings.Data.Reader
import Typings.Proofs.Decimal.Value
import Typings.Proofs.Script.Machine
import Typings.Proofs.TypeExpr.Tree
import Typings.TypeExpr.Mapping

/-!
# What a union of literals stands for

A union of literals is read back by a reader that knows nothing of how it was made: quoted texts and
numbers, with a bar between blanks after each but the last. It finds every text and every number that
the constraints list, in order and as often as they are listed, and nothing else. A bar or a
quotation mark within a text does not lead it astray.
-/

namespace Typings

open Script

/-! ## The reader -/

/-- What a literal in a union stands for. -/
inductive LiteralValue where
  | text (value : String)
  | number (value : Quantity)
  deriving DecidableEq, Repr

namespace LiteralUnion

inductive State where
  /-- A literal must follow. -/
  | start
  | quoted (read : List Char)
  | escaped (read : List Char)
  /-- So many hexadecimal digits are still to come after the next one. -/
  | hex (read : List Char) (more value : Nat)
  | minus
  | number (negative : Bool) (part : NumberPart) (read : List Char)
  | closed
  | blank
  | bar
  deriving DecidableEq, Repr

def step : State → Char → Option (Reached State LiteralValue)
  | .start, c =>
    if c = '\x22' then some (.quoted [], [])
    else if c = '-' then some (.minus, [])
    else if c.isDigit then some (.number false .whole [c], [])
    else none
  | .quoted read, c =>
    if c = '\x22' then some (.closed, [.text (String.ofList read)])
    else if c = '\\' then some (.escaped read, [])
    else if c.toNat < 0x20 then none
    else some (.quoted (read ++ [c]), [])
  | .escaped read, c =>
    if c = 'u' then some (.hex read 3 0, [])
    else (Data.Reader.unescape? c).map fun found => (.quoted (read ++ [found]), [])
  | .hex read more value, c =>
    (hexValue? c).bind fun digit =>
      match more with
      | 0 => (charOf? (16 * value + digit)).map fun found => (.quoted (read ++ [found]), [])
      | more + 1 => some (.hex read more (16 * value + digit), [])
  | .minus, c => if c.isDigit then some (.number true .whole [c], []) else none
  | .number negative part read, c =>
    match part.next c with
    | some next => some (.number negative next (read ++ [c]), [])
    | none =>
      if part.isComplete && c = ' ' then
        some (.blank, [.number (quantity negative (String.ofList read))])
      else none
  | .closed, c => if c = ' ' then some (.blank, []) else none
  | .blank, c => if c = '|' then some (.bar, []) else none
  | .bar, c => if c = ' ' then some (.start, []) else none

/-- What is complete where the text ends. -/
def State.finish : State → Option (List LiteralValue)
  | .closed => some []
  | .number negative part read =>
    if part.isComplete then some [.number (quantity negative (String.ofList read))] else none
  | _ => none

def run (s : State) (cs : List Char) : Option (Reached State LiteralValue) := runWith step s cs

/-- The values of a text that is a union of literals. -/
def decode (text : String) : Option (List LiteralValue) :=
  (run .start text.toList).bind fun r => r.1.finish.map (r.2 ++ ·)

/-! ## One literal -/

/-- The text is one literal with this value, whether a bar follows it or nothing. -/
def Holds (cs : List Char) (value : LiteralValue) : Prop :=
  ∃ s before last, run .start cs = some (s, before) ∧ s.finish = some last ∧
    step s ' ' = some (.blank, last) ∧ before ++ last = [value]

@[simp] theorem run_nil (s : State) : run s [] = some (s, []) := rfl

theorem run_cons (s : State) (c : Char) (cs : List Char) :
    run s (c :: cs) = (step s c).bind fun r => (run r.1 cs).map (Reached.after r.2) := rfl

theorem run_append_of_eq {s t : State} {cs : List Char} {out : List LiteralValue}
    (h : run s cs = some (t, out)) (ds : List Char) :
    run s (cs ++ ds) = (run t ds).map (Reached.after out) :=
  runWith_append_of_eq h ds

theorem run_control {c : Char} (h : c.toNat < 0x20) (read : List Char) :
    run (.quoted read) ['\\', 'u', '0', '0', Text.hexDigit (c.toNat / 16), Text.hexDigit (c.toNat % 16)] =
      some (.quoted (read ++ [c]), []) := by
  have h0 : hexValue? '0' = some 0 := rfl
  have hsum : 16 * (c.toNat / 16) + c.toNat % 16 = c.toNat := by omega
  have hhigh := hexValue?_hexDigit (show c.toNat / 16 < 16 by omega)
  have hlow := hexValue?_hexDigit (show c.toNat % 16 < 16 by omega)
  simp [run_cons, step, h0, hhigh, hlow, hsum, charOf?_toNat, Reached.after]

theorem run_escape (c : Char) (read : List Char) :
    run (.quoted read) (Text.Quoted.escape c) = some (.quoted (read ++ [c]), []) := by
  unfold Text.Quoted.escape
  split
  case h_8 _ hquote hslash _ _ _ _ _ =>
    split
    · exact run_control ‹_› read
    · rename_i hvisible
      rw [run_cons, step, if_neg hquote, if_neg hslash, if_neg hvisible]
      rfl
  all_goals rfl

theorem run_encode (cs : List Char) (read : List Char) :
    run (.quoted read) (Text.Quoted.encode cs) = some (.quoted (read ++ cs), []) := by
  induction cs generalizing read with
  | nil => simp
  | cons c rest ih =>
    rw [Text.Quoted.encode_cons, run_append_of_eq (run_escape c read), ih]
    simp

theorem holds_quote (s : String) : Holds (Text.quote s).toList (.text s) := by
  have hbody : run (.quoted []) (Text.Quoted.encode s.toList) = some (.quoted s.toList, []) :=
    run_encode s.toList []
  have hclose : run (.quoted s.toList) ['\x22'] = some (.closed, [.text s]) := by
    simp [run_cons, step, Reached.after]
  refine ⟨.closed, [.text s], [], ?_, rfl, rfl, rfl⟩
  rw [Text.toList_quote, List.cons_append, run_cons, step, if_pos rfl, Option.bind_some,
    run_append_of_eq hbody, hclose]
  rfl

theorem run_number {p q : NumberPart} (negative : Bool) (read : List Char) {cs : List Char}
    (h : p.after cs = some q) :
    run (.number negative p read) cs = some (.number negative q (read ++ cs), []) := by
  induction cs generalizing p read with
  | nil => simp_all [NumberPart.after]
  | cons c rest ih =>
    obtain ⟨next, hnext, hrest⟩ := Option.bind_eq_some_iff.mp h
    rw [run_cons, step, hnext]
    simp only [Option.bind_some]
    rw [ih _ hrest]
    simp

theorem next_blank (p : NumberPart) : p.next ' ' = none := by
  cases p <;> decide

theorem holds_numeral {p : NumberPart} {cs : List Char} (h : Numeral p cs) (negative : Bool) :
    Holds ((if negative then ['-'] else []) ++ cs) (.number (quantity negative (String.ofList cs))) := by
  obtain ⟨c, rest, rfl, hc, hrest, hp⟩ := h
  have hne : c ≠ '\x22' ∧ c ≠ '-' := by
    constructor <;> rintro rfl <;> exact absurd hc (by decide)
  have hrun : run .start ((if negative then ['-'] else []) ++ c :: rest) =
      some (.number negative p (c :: rest), []) := by
    have hnumber := run_number negative [c] hrest
    cases negative with
    | false =>
      simp only [Bool.false_eq_true, if_false, List.nil_append]
      rw [run_cons, step, if_neg hne.1, if_neg hne.2, if_pos hc, Option.bind_some, hnumber]
      rfl
    | true =>
      have hminus : step .start '-' = some (.minus, []) := rfl
      simp only [if_true, List.cons_append, List.nil_append]
      rw [run_cons, hminus, Option.bind_some, run_cons, step, if_pos hc, Option.bind_some, hnumber]
      rfl
  refine ⟨_, [], _, hrun, by rw [State.finish, if_pos hp], ?_, rfl⟩
  simp only [step, next_blank, hp]
  rfl

theorem holds_toString (n : Int) : Holds (toString n).toList (.number (.whole n)) := by
  have hnumeral := holds_numeral (numeral_toDigits n.natAbs) (decide (n < 0))
  rw [quantity_toDigits, signed_natAbs] at hnumeral
  rw [toList_toString_int]
  exact hnumeral

theorem holds_text {x : Double} (hfinite : x.isFinite = true) : Holds x.text.toList (.number (.decimal x.text)) := by
  cases x with
  | finite negative significand exponent =>
    obtain ⟨p, hp, hnumeral⟩ := numeral_unsignedText significand exponent
    have hholds := holds_numeral hnumeral negative
    rw [quantity_decimal negative hp hnumeral, ← text_finite] at hholds
    rw [toList_text_finite]
    exact hholds
  | infinite | nan => cases hfinite

/-! ## Several literals -/

theorem run_separator {cs : List Char} {value : LiteralValue} (h : Holds cs value) (ds : List Char) :
    run .start (cs ++ (' ' :: '|' :: ' ' :: ds)) = (run .start ds).map (Reached.after [value]) := by
  obtain ⟨s, before, last, hrun, -, hblank, hvalue⟩ := h
  have hbar : run .blank ('|' :: ' ' :: ds) = run .start ds := by simp [run_cons, step]
  have hseparator : run s (' ' :: '|' :: ' ' :: ds) = (run .start ds).map (Reached.after last) := by
    rw [run_cons, hblank, Option.bind_some, hbar]
  rw [run_append_of_eq hrun, hseparator, Reached.map_after_map, hvalue]

theorem decode_joinAlternatives {texts : List String} {values : List LiteralValue}
    (h : List.Forall₂ (fun text value => Holds text.toList value) texts values) (hne : texts ≠ []) :
    decode (joinAlternatives texts) = some values := by
  unfold decode joinAlternatives
  induction h with
  | nil => exact absurd rfl hne
  | @cons text value texts values hholds htexts ih =>
    cases htexts with
    | nil =>
      obtain ⟨s, before, last, hrun, hfinish, -, hvalue⟩ := hholds
      rw [String.intercalate_singleton, hrun, Option.bind_some, hfinish, Option.map_some, hvalue]
    | @cons next _ rest _ hnext hrest =>
      have hseparator : " | ".toList = [' ', '|', ' '] := rfl
      rw [String.intercalate_cons_cons, String.toList_append, String.toList_append, hseparator,
        List.append_assoc, List.cons_append, List.cons_append, List.cons_append, List.nil_append,
        run_separator hholds]
      have hdecode := ih (List.cons_ne_nil _ _)
      cases hrun : run .start (" | ".intercalate (next :: rest)).toList with
      | none =>
        rw [hrun] at hdecode
        cases hdecode
      | some r =>
        rw [hrun, Option.bind_some, Option.map_eq_some_iff] at hdecode
        obtain ⟨last, hlast, hvalues⟩ := hdecode
        simp [Reached.after, hlast, ← hvalues]

/-! ## No control characters -/

theorem control_facts {c : Char} (h : c.toNat < 0x20) :
    c ≠ '\x22' ∧ c ≠ '-' ∧ c ≠ '\\' ∧ c ≠ 'u' ∧ c ≠ ' ' ∧ c ≠ '|' ∧ c.isDigit = false ∧
      Data.Reader.unescape? c = none ∧ hexValue? c = none ∧ ∀ p : NumberPart, p.next c = none := by
  have hnumber : ∀ n < 0x20, ∀ p ∈ [NumberPart.whole, .fraction, .mark, .sign, .exponent],
      p.next (Char.ofNat n) = none := by decide
  have hall : ∀ n < 0x20, Char.ofNat n ≠ '\x22' ∧ Char.ofNat n ≠ '-' ∧ Char.ofNat n ≠ '\\' ∧
      Char.ofNat n ≠ 'u' ∧ Char.ofNat n ≠ ' ' ∧ Char.ofNat n ≠ '|' ∧ (Char.ofNat n).isDigit = false ∧
      Data.Reader.unescape? (Char.ofNat n) = none ∧ hexValue? (Char.ofNat n) = none := by decide
  rw [← Char.ofNat_toNat c]
  obtain ⟨h1, h2, h3, h4, h5, h6, h7, h8, h9⟩ := hall c.toNat h
  exact ⟨h1, h2, h3, h4, h5, h6, h7, h8, h9, fun p => hnumber c.toNat h p (by cases p <;> simp)⟩

theorem step_control {c : Char} (h : c.toNat < 0x20) (s : State) : step s c = none := by
  obtain ⟨hquote, hminus, hslash, hu, hblank, hbar, hdigit, hescape, hhex, hnumber⟩ := control_facts h
  cases s <;> simp [step, *]

theorem le_toNat_of_run {s : State} {cs : List Char} {r : Reached State LiteralValue} (h : run s cs = some r) :
    ∀ c ∈ cs, 0x20 ≤ c.toNat := by
  induction cs generalizing s r with
  | nil => exact nofun
  | cons c rest ih =>
    rw [run_cons] at h
    obtain ⟨q, hstep, hmap⟩ := Option.bind_eq_some_iff.mp h
    obtain ⟨r', hrest, -⟩ := Option.map_eq_some_iff.mp hmap
    refine List.forall_mem_cons.mpr ⟨?_, ih hrest⟩
    by_contra hcontrol
    rw [step_control (Nat.lt_of_not_le hcontrol)] at hstep
    cases hstep

theorem le_toNat_of_decode {text : String} {values : List LiteralValue} (h : decode text = some values) :
    ∀ c ∈ text.toList, 0x20 ≤ c.toNat := by
  obtain ⟨r, hrun, -⟩ := Option.bind_eq_some_iff.mp h
  exact le_toNat_of_run hrun

end LiteralUnion

/-! ## What constraints list -/

/-- A text or a number; no boolean is one. -/
def Data.isTextOrNumber : Data → Bool
  | .text _ | .int _ | .double _ => true
  | _ => false

/-- The texts and numbers that the constraints list as values, constraint by constraint; what is no
list has none. -/
def listedLiterals (constraints : List Data.Members) : List Data :=
  constraints.flatMap fun c =>
    match c.get? "in" with
    | some (.list items) => items.filter Data.isTextOrNumber
    | _ => []

theorem listedLiterals_cons (c : Data.Members) (rest : List Data.Members) :
    listedLiterals (c :: rest) = (listedUnder "in" c).filter Data.isTextOrNumber ++ listedLiterals rest := by
  rw [listedLiterals, List.flatMap_cons, listedUnder]
  cases Data.Members.get? "in" c with
  | none => rfl
  | some d => cases d <;> rfl

/-- Texts stand for themselves, numbers for their exact value if it is an integer; other doubles are
kept as they are written. -/
inductive Denotes : Data → LiteralValue → Prop
  | text (s : String) : Denotes (.text s) (.text s)
  | int (n : Int) : Denotes (.int n) (.number (.whole n))
  | integral {x : Double} {n : Int} (hx : x.value? = some (n : ℚ)) : Denotes (.double x) (.number (.whole n))
  | fractional {x : Double} {q : ℚ} (hx : x.value? = some q) (hq : ∀ n : Int, q ≠ n) :
      Denotes (.double x) (.number (.decimal x.text))

theorem Denotes.rightUnique : Relator.RightUnique Denotes := by
  intro d v w hv hw
  cases hv with
  | text | int =>
    cases hw
    rfl
  | integral hx =>
    cases hw with
    | integral hx' => rw [Int.cast_injective (Option.some.inj (hx.symm.trans hx'))]
    | fractional hx' hq => exact absurd (Option.some.inj (hx'.symm.trans hx)) (hq _)
  | fractional hx hq =>
    cases hw with
    | integral hx' => exact absurd (Option.some.inj (hx.symm.trans hx')) (hq _)
    | fractional => rfl

theorem exists_holds {d : Data} {l : Literal} (hl : Literal.ofData? d = some l)
    (hfinite : ∀ x, d = .double x → x.isFinite = true) :
    ∃ value, Denotes d value ∧ LiteralUnion.Holds l.render.toList value := by
  cases d with
  | text s =>
    cases hl
    exact ⟨_, .text s, LiteralUnion.holds_quote s⟩
  | int n =>
    cases hl
    exact ⟨_, .int n, LiteralUnion.holds_toString n⟩
  | double x =>
    cases hl
    rw [Literal.render]
    cases hx : x.toInt? with
    | some n => exact ⟨_, .integral (Double.toInt?_eq_some_iff.mp hx), LiteralUnion.holds_toString n⟩
    | none =>
      obtain ⟨q, hq⟩ := Double.exists_value_of_isFinite (hfinite x rfl)
      refine ⟨_, .fractional hq fun n hn => ?_, LiteralUnion.holds_text (hfinite x rfl)⟩
      rw [hn] at hq
      cases hx.symm.trans (Double.toInt?_eq_some_iff.mpr hq)
  | null | bool | list | object => cases hl

theorem forall₂_literalsOf (constraints : List Data.Members) :
    List.Forall₂ (fun d l => Literal.ofData? d = some l) (listedLiterals constraints) (literalsOf constraints) := by
  have hitems (items : List Data) : List.Forall₂ (fun d l => Literal.ofData? d = some l)
      (items.filter Data.isTextOrNumber) (items.filterMap Literal.ofData?) := by
    induction items with
    | nil => exact .nil
    | cons d rest ih =>
      cases d with
      | text | int | double => exact .cons rfl ih
      | null | bool | list | object => exact ih
  induction constraints with
  | nil => exact .nil
  | cons c rest ih =>
    rw [listedLiterals_cons]
    exact List.rel_append (hitems (listedUnder "in" c)) ih

theorem exists_values {ds : List Data} {ls : List Literal}
    (h : List.Forall₂ (fun d l => Literal.ofData? d = some l) ds ls)
    (hfinite : ∀ x, .double x ∈ ds → x.isFinite = true) :
    ∃ values, List.Forall₂ Denotes ds values ∧
      List.Forall₂ (fun text value => LiteralUnion.Holds text.toList value) (ls.map Literal.render) values := by
  induction h with
  | nil => exact ⟨[], .nil, .nil⟩
  | cons hl _ ih =>
    obtain ⟨values, hdenote, hhold⟩ := ih fun x hx => hfinite x (List.mem_cons_of_mem _ hx)
    obtain ⟨value, hvalue, htext⟩ := exists_holds hl fun x hx => hfinite x (hx ▸ List.mem_cons_self)
    exact ⟨value :: values, .cons hvalue hdenote, .cons htext hhold⟩

theorem literalUnion_eq_none_iff (constraints : List Data.Members) :
    literalUnion constraints = none ↔ ∀ c ∈ constraints, ∀ items, c.get? "in" = some (.list items) →
      ∀ d ∈ items, d.isTextOrNumber = false := by
  have hlength := (forall₂_literalsOf constraints).length_eq
  have hunion : literalUnion constraints = none ↔ listedLiterals constraints = [] := by
    unfold literalUnion
    rw [← List.length_eq_zero_iff, hlength]
    cases literalsOf constraints <;> simp
  rw [hunion, listedLiterals, List.flatMap_eq_nil_iff]
  refine forall₂_congr fun c _ => ?_
  split
  · rename_i items hitems
    simp [hitems]
  · rename_i hother
    exact iff_of_true rfl fun items hitems => absurd hitems (hother items)

theorem render_of_literalUnion {constraints : List Data.Members} {t : TypeExpr}
    (h : literalUnion constraints = some t) :
    t.render = joinAlternatives ((literalsOf constraints).map Literal.render) ∧ literalsOf constraints ≠ [] := by
  unfold literalUnion at h
  split at h
  · cases h
  · rename_i first others hliterals
    cases h
    rw [hliterals]
    exact ⟨by simp [TypeExpr.render, SimpleType.render, Function.comp_def], List.cons_ne_nil _ _⟩

/-- The union of the literals that constraints list. There is none if, and only if, no list in them
has a text or a number in it; otherwise it is read back as the values of just these texts and
numbers, in order and as often as they are listed, and no control character stands in it. -/
theorem literalUnion_values {constraints : List Data.Members}
    (hfinite : ∀ x, .double x ∈ listedLiterals constraints → x.isFinite = true) :
    (literalUnion constraints = none ↔ ∀ c ∈ constraints, ∀ items, c.get? "in" = some (.list items) →
      ∀ d ∈ items, d.isTextOrNumber = false) ∧
    ∀ t, literalUnion constraints = some t →
      (∃ values, LiteralUnion.decode t.render = some values ∧
        List.Forall₂ Denotes (listedLiterals constraints) values) ∧
      ∀ c ∈ t.render.toList, 0x20 ≤ c.toNat := by
  refine ⟨literalUnion_eq_none_iff constraints, fun t ht => ?_⟩
  obtain ⟨hrender, hne⟩ := render_of_literalUnion ht
  obtain ⟨values, hdenote, hhold⟩ := exists_values (forall₂_literalsOf constraints) hfinite
  have hdecode : LiteralUnion.decode t.render = some values := by
    rw [hrender]
    exact LiteralUnion.decode_joinAlternatives hhold (by simpa using hne)
  exact ⟨⟨values, hdecode, hdenote⟩, LiteralUnion.le_toNat_of_decode hdecode⟩

/-- A text that looks like the border of two literals, a boolean, which is none, and a whole and a
broken number. -/
def mixedConstraints : List Data.Members := [
  [("size", .object [("max", .int 3)])],
  [("in", .list [.text "a\" | \"b", .bool true, .int (-2)])],
  [("in", .list [.double (.finite false 4503599627370496 (-51)), .double (.finite false 4503599627370496 (-53))])]]

theorem literalUnion_values_mixed :
    ∃ t, literalUnion mixedConstraints = some t ∧
      LiteralUnion.decode t.render = some
        [.text "a\" | \"b", .number (.whole (-2)), .number (.whole 2), .number (.decimal "0.5")] := by
  have hfinite : ∀ x, .double x ∈ listedLiterals mixedConstraints → x.isFinite = true := by
    intro x hx
    have hlisted : listedLiterals mixedConstraints = [.text "a\" | \"b", .int (-2),
        .double (.finite false 4503599627370496 (-51)), .double (.finite false 4503599627370496 (-53))] := rfl
    simp only [hlisted, List.mem_cons, List.not_mem_nil, or_false, reduceCtorEq, false_or, Data.double.injEq] at hx
    rcases hx with rfl | rfl <;> rfl
  have hwhole : (Double.finite false 4503599627370496 (-51)).value? = some ((2 : Int) : ℚ) := by
    norm_num [Double.value?]
  have hhalf : (Double.finite false 4503599627370496 (-53)).value? = some (1 / 2) := by
    norm_num [Double.value?]
  have hbroken (n : Int) : (1 / 2 : ℚ) ≠ n := by
    intro h
    have htwice : (1 : ℚ) = (2 * n : Int) := by
      push_cast
      linarith
    have : (1 : Int) = 2 * n := by exact_mod_cast htwice
    omega
  have htext : (Double.finite false 4503599627370496 (-53)).text = "0.5" := by decide +kernel
  have hdenote : List.Forall₂ Denotes (listedLiterals mixedConstraints)
      [.text "a\" | \"b", .number (.whole (-2)), .number (.whole 2), .number (.decimal "0.5")] := by
    rw [← htext]
    exact .cons (.text _) (.cons (.int _) (.cons (.integral hwhole) (.cons (.fractional hhalf hbroken) .nil)))
  obtain ⟨t, ht⟩ : ∃ t, literalUnion mixedConstraints = some t := ⟨_, rfl⟩
  obtain ⟨⟨values, hdecode, hvalues⟩, -⟩ := (literalUnion_values hfinite).2 t ht
  rw [List.right_unique_forall₂' Denotes.rightUnique hvalues hdenote] at hdecode
  exact ⟨t, ht, hdecode⟩

end Typings
