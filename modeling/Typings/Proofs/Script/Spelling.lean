import Typings.Proofs.Naming
import Typings.Proofs.Script.Token

/-!
# Text and its tokens

A text that scans ends between two tokens, so that anything may follow it. A text that ends in a
name or a number needs a boundary after it. Both kinds are put together here, down to whole files.
-/

namespace Typings.Script

/-- The text holds exactly these tokens, and nothing that follows can change them. -/
def Scans (cs : List Char) (ts : List Token) : Prop := run .between cs = some (.between, ts)

instance (cs : List Char) (ts : List Token) : Decidable (Scans cs ts) :=
  inferInstanceAs (Decidable (run .between cs = some (.between, ts)))

/-- In this state the tokens are complete as soon as the text ends or a boundary follows. -/
def State.Settles (s : State) (ts : List Token) : Prop :=
  s.finish = some ts ∧ ∀ c, isBoundary c = true → step s c = (enter c).map (Reached.after ts)

/-- The text holds exactly these tokens, once it ends or a boundary follows. -/
def Ends (cs : List Char) (ts : List Token) : Prop :=
  ∃ s before last, run .between cs = some (s, before) ∧ s.Settles last ∧ before ++ last = ts

/-- Whether a text starts with a boundary. -/
def opensApart : List Char → Bool
  | [] => false
  | c :: _ => isBoundary c

/-! ## Putting texts together -/

@[simp] theorem scans_nil : Scans [] [] := rfl

theorem between_settles : State.between.Settles [] :=
  ⟨rfl, fun c _ => by simp [step]⟩

theorem Scans.ends {cs : List Char} {ts : List Token} (h : Scans cs ts) : Ends cs ts :=
  ⟨.between, ts, [], h, between_settles, List.append_nil ts⟩

theorem Scans.append {cs ds : List Char} {ts us : List Token} (h : Scans cs ts) (h' : Scans ds us) :
    Scans (cs ++ ds) (ts ++ us) := by
  rw [Scans, run_append, show run .between cs = _ from h]
  simp only [Option.bind_some]
  rw [show run .between ds = _ from h']
  rfl

theorem Scans.append_ends {cs ds : List Char} {ts us : List Token} (h : Scans cs ts) (h' : Ends ds us) :
    Ends (cs ++ ds) (ts ++ us) := by
  obtain ⟨s, before, last, hrun, hs, rfl⟩ := h'
  refine ⟨s, ts ++ before, last, ?_, hs, by simp⟩
  rw [run_append, show run .between cs = _ from h]
  simp only [Option.bind_some]
  rw [hrun]
  rfl

/-- A settled state goes on after a boundary as if nothing stood before it. -/
theorem State.Settles.run_eq {s : State} {ts : List Token} (h : s.Settles ts) {cs : List Char}
    (hc : opensApart cs = true) : run s cs = (run .between cs).map (Reached.after ts) := by
  cases cs with
  | nil => simp [opensApart] at hc
  | cons c rest => exact runWith_cons_of_step (h.2 c hc) rest

theorem Ends.run_append {cs : List Char} {ts : List Token} (h : Ends cs ts) {ds : List Char}
    (hd : opensApart ds = true) :
    run .between (cs ++ ds) = (run .between ds).map (Reached.after ts) := by
  obtain ⟨s, before, last, hrun, hs, rfl⟩ := h
  rw [Script.run_append, hrun]
  simp only [Option.bind_some]
  rw [hs.run_eq hd, Reached.map_after_map]

theorem Ends.append {cs ds : List Char} {ts us : List Token} (h : Ends cs ts) (h' : Scans ds us)
    (hd : opensApart ds = true) : Scans (cs ++ ds) (ts ++ us) := by
  rw [Scans, h.run_append hd, show run .between ds = _ from h']
  rfl

theorem Ends.append_ends {cs ds : List Char} {ts us : List Token} (h : Ends cs ts) (h' : Ends ds us)
    (hd : opensApart ds = true) : Ends (cs ++ ds) (ts ++ us) := by
  obtain ⟨s, before, last, hrun, hs, rfl⟩ := h'
  refine ⟨s, ts ++ before, last, ?_, hs, by simp⟩
  rw [h.run_append hd, hrun]
  rfl

theorem Ends.scan {s : String} {ts : List Token} (h : Ends s.toList ts) : scan s = some ts := by
  obtain ⟨st, before, last, hrun, hs, rfl⟩ := h
  rw [Script.scan, hrun]
  simp [hs.1]

theorem Scans.scan {s : String} {ts : List Token} (h : Scans s.toList ts) : scan s = some ts :=
  h.ends.scan

/-! ## Names -/

theorem word_settles (read : List Char) :
    (State.word read).Settles [Token.word (String.ofList read)] := by
  refine ⟨rfl, fun c hc => ?_⟩
  have hn : isNamePart c = false := by
    simp only [isBoundary, Bool.and_eq_true, Bool.not_eq_true'] at hc
    exact hc.1
  simp [step, hn]

theorem run_word (read cs : List Char) (h : ∀ c ∈ cs, isNamePart c = true) :
    run (.word read) cs = some (.word (read ++ cs), []) := by
  induction cs generalizing read with
  | nil => simp
  | cons c rest ih =>
    rw [run_cons, step, if_pos (h c List.mem_cons_self)]
    simp only [Option.bind_some]
    rw [ih _ fun d hd => h d (List.mem_cons_of_mem _ hd)]
    simp

theorem run_identifier {name : String} (h : Naming.isIdentifier name = true) :
    run .between name.toList = some (.word name.toList, []) := by
  obtain ⟨c, rest, hname, hc, hrest⟩ := (Naming.isIdentifier_iff name).mp h
  have hparts : ∀ d ∈ rest, isNamePart d = true := fun d hd => by simp [isNamePart, hrest d hd]
  rw [hname, run_cons, step, enter, if_pos (by simp [opensName, hc])]
  simp only [Option.bind_some]
  rw [run_word [c] rest hparts]
  simp

theorem ends_word {name : String} (h : Naming.isIdentifier name = true) :
    Ends name.toList [Token.word name] :=
  ⟨.word name.toList, [], _, run_identifier h, word_settles _, by simp⟩

/-! ## Numbers -/

def NumberPart.after : NumberPart → List Char → Option NumberPart
  | p, [] => some p
  | p, c :: rest => (p.next c).bind fun q => q.after rest

theorem NumberPart.after_append (p : NumberPart) (cs ds : List Char) :
    p.after (cs ++ ds) = (p.after cs).bind fun q => q.after ds := by
  induction cs generalizing p with
  | nil => rfl
  | cons c rest ih =>
    rw [List.cons_append, NumberPart.after, NumberPart.after]
    cases p.next c with
    | none => rfl
    | some q => simpa using ih q

theorem run_number {p q : NumberPart} (read : List Char) {cs : List Char} (h : p.after cs = some q) :
    run (.number p read) cs = some (.number q (read ++ cs), []) := by
  induction cs generalizing p read with
  | nil => simp_all [NumberPart.after]
  | cons c rest ih =>
    obtain ⟨m, hm, hrest⟩ := Option.bind_eq_some_iff.mp h
    rw [run_cons, step, hm]
    simp only [Option.bind_some]
    rw [ih _ hrest]
    simp

theorem isNamePart_of_isDigit {c : Char} (h : c.isDigit = true) : isNamePart c = true := by
  simp [isNamePart, Naming.isWord, Char.isAlphanum, h]

theorem NumberPart.next_of_isBoundary {p : NumberPart} (hp : p.isComplete = true) {c : Char}
    (hc : isBoundary c = true) : p.next c = none := by
  have hd : c.isDigit = false := by
    rw [Bool.eq_false_iff]
    intro h
    simp [isBoundary, isNamePart_of_isDigit h] at hc
  have hdot : c ≠ '.' := by rintro rfl; exact absurd hc (by decide)
  have he : c ≠ 'e' := by rintro rfl; exact absurd hc (by decide)
  have hE : c ≠ 'E' := by rintro rfl; exact absurd hc (by decide)
  cases p <;> simp_all [NumberPart.next, NumberPart.isComplete]

theorem number_settles {p : NumberPart} (hp : p.isComplete = true) (read : List Char) :
    (State.number p read).Settles [Token.number (String.ofList read)] := by
  refine ⟨by simp [State.finish, hp], fun c hc => ?_⟩
  simp [step, NumberPart.next_of_isBoundary hp hc, hp, hc]

theorem opensName_of_isDigit {c : Char} (h : c.isDigit = true) : opensName c = false := by
  rw [opensName, Naming.isNameStart_of_isDigit h, Bool.false_or, beq_eq_false_iff_ne]
  rintro rfl
  exact absurd h (by decide)

theorem ends_number {c : Char} {rest : List Char} {p : NumberPart} (hc : c.isDigit = true)
    (h : NumberPart.whole.after rest = some p) (hp : p.isComplete = true) :
    Ends (c :: rest) [Token.number (String.ofList (c :: rest))] := by
  refine ⟨.number p (c :: rest), [], _, ?_, number_settles hp _, rfl⟩
  rw [run_cons, step, enter, if_neg (by simp [opensName_of_isDigit hc]), if_pos hc]
  simp only [Option.bind_some]
  rw [run_number [c] h]
  simp

/-! ## Quotations -/

/-- Text that stays between quotation marks: no such mark and no line end, unless a backslash stands
before it. -/
inductive Inside (mark : Char) : List Char → Prop where
  | nil : Inside mark []
  | plain {c : Char} {cs : List Char} : c ≠ mark → c ≠ '\\' → c ≠ '\n' → c ≠ '\r' → Inside mark cs →
      Inside mark (c :: cs)
  | escape (c : Char) {cs : List Char} : Inside mark cs → Inside mark ('\\' :: c :: cs)

theorem Inside.append {mark : Char} {cs ds : List Char} (h : Inside mark cs) (h' : Inside mark ds) :
    Inside mark (cs ++ ds) := by
  induction h with
  | nil => exact h'
  | plain h1 h2 h3 h4 _ ih => exact .plain h1 h2 h3 h4 ih
  | escape c _ ih => exact .escape c ih

theorem run_quoted {mark : Char} (hm : mark ≠ '\\') {cs : List Char} (h : Inside mark cs)
    (read : List Char) :
    run (.quoted mark read) (cs ++ [mark]) =
      some (.between, [Token.quoted mark (String.ofList (read ++ cs))]) := by
  induction h generalizing read with
  | nil => simp [run_cons, step, Reached.after]
  | plain h1 h2 h3 h4 _ ih =>
    rw [List.cons_append, run_cons]
    simp only [step, h1, h2, h3, h4, if_false, decide_false, Bool.or_self, Bool.false_eq_true,
      Option.bind_some]
    rw [ih]
    simp
  | escape c _ ih =>
    rw [List.cons_append, List.cons_append, run_cons]
    simp only [step, Ne.symm hm, if_false, if_true, Option.bind_some]
    rw [run_cons]
    simp only [step, Option.bind_some]
    rw [ih]
    simp

theorem scans_quoted {mark : Char} (hm : mark = '\x22' ∨ mark = '\x27') {cs : List Char}
    (h : Inside mark cs) :
    Scans (mark :: (cs ++ [mark])) [Token.quoted mark (String.ofList cs)] := by
  have hne : mark ≠ '\\' := by rcases hm with rfl | rfl <;> decide
  have henter : enter mark = some (.quoted mark [], []) := by rcases hm with rfl | rfl <;> decide
  rw [Scans, run_cons, step, henter]
  simp only [Option.bind_some]
  rw [run_quoted hne h]
  simp

/-! ## Block comments -/

def commentEnd : List Char := ['*', '/']

/-- A comment goes on up to its first end, also where a star stands right before it. -/
theorem run_block (cs : List Char) (read : List Char) :
    (¬ commentEnd <:+: cs →
      run (.block read) (cs ++ commentEnd) =
        some (.between, [Token.comment (String.ofList (read ++ cs))])) ∧
    (¬ commentEnd <:+: '*' :: cs →
      run (.blockStar read) (cs ++ commentEnd) =
        some (.between, [Token.comment (String.ofList (read ++ '*' :: cs))])) := by
  induction cs generalizing read with
  | nil => exact ⟨fun _ => by simp [commentEnd, run_cons, step, Reached.after],
      fun _ => by simp [commentEnd, run_cons, step, Reached.after]⟩
  | cons c rest ih =>
    constructor
    · intro h
      have hrest : ¬ commentEnd <:+: rest := fun hr => h (List.infix_cons hr)
      rw [List.cons_append, run_cons]
      by_cases hc : c = '*'
      · subst hc
        simp only [step, if_true, Option.bind_some]
        rw [(ih read).2 h]
        simp
      · simp only [step, hc, if_false, Option.bind_some]
        rw [(ih _).1 hrest]
        simp
    · intro h
      have hslash : c ≠ '/' := by
        rintro rfl
        exact h ⟨[], rest, rfl⟩
      have hcons : ¬ commentEnd <:+: c :: rest := fun hr => h (List.infix_cons hr)
      rw [List.cons_append, run_cons]
      by_cases hc : c = '*'
      · subst hc
        simp only [step, hslash, if_false, if_true, Option.bind_some]
        rw [(ih _).2 hcons]
        simp
      · simp only [step, hslash, hc, if_false, Option.bind_some]
        rw [(ih _).1 fun hr => hcons (List.infix_cons hr)]
        simp

theorem scans_comment {body : List Char} (h : ¬ commentEnd <:+: body) :
    Scans ('/' :: '*' :: (body ++ commentEnd)) [Token.comment (String.ofList body)] := by
  have henter : enter '/' = some (.slash, []) := by decide
  rw [Scans, run_cons, step, henter]
  simp only [Option.bind_some]
  rw [run_cons]
  simp only [step, if_true, Option.bind_some]
  rw [(run_block body []).1 h]
  simp

end Typings.Script
