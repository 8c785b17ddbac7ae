import Mathlib.Tactic.SplitIfs
import Typings.Proofs.Script.Quotation
import Typings.Proofs.Script.Spelling

/-!
# Literals at the head of a text

A quotation ends at the first mark that no backslash escapes. What it denotes is never longer than
what it is written with, and as long only if nothing in it is escaped.
-/

namespace Typings.Script

/-- The text starts with one literal between single quotes, which has this value, and a semicolon
follows the literal. -/
def OpensWithLiteral (text value : String) : Prop :=
  ∃ literal rest body, text = literal ++ ";" ++ rest ∧
    scan literal = some [Token.quoted '\x27' body] ∧ valueOf body = some value

/-! ## Where a quotation ends -/

def scanFrom (s : State) (cs : List Char) : Option (List Token) :=
  (run s cs).bind fun r => r.1.finish.map (r.2 ++ ·)

theorem scan_eq_scanFrom (text : String) : scan text = scanFrom .between text.toList := rfl

theorem scanFrom_cons (s : State) (c : Char) (cs : List Char) :
    scanFrom s (c :: cs) = (step s c).bind fun r => (scanFrom r.1 cs).map (r.2 ++ ·) := by
  unfold scanFrom
  rw [run_cons]
  cases step s c with
  | none => rfl
  | some r =>
    simp only [Option.bind_some]
    cases run r.1 cs with
    | none => rfl
    | some q => cases hq : q.1.finish <;> simp [Reached.after, hq]

/-- An open quotation is closed if the text can be scanned, also where a backslash was read last. -/
theorem exists_close {mark : Char} (cs read : List Char) (ts : List Token) :
    (scanFrom (.quoted mark read) cs = some ts →
      ∃ body after, cs = body ++ mark :: after ∧ Inside mark body ∧
        ts.head? = some (Token.quoted mark (String.ofList (read ++ body)))) ∧
    (scanFrom (.escaped mark read) cs = some ts →
      ∃ c body after, cs = c :: (body ++ mark :: after) ∧ Inside mark body ∧
        ts.head? = some (Token.quoted mark (String.ofList (read ++ '\\' :: c :: body)))) := by
  induction cs generalizing read ts with
  | nil => constructor <;> (intro h; simp [scanFrom, State.finish] at h)
  | cons c rest ih =>
    rw [scanFrom_cons, scanFrom_cons]
    constructor
    · intro h
      by_cases hmark : c = mark
      · subst hmark
        simp only [step, if_true, Option.bind_some, Option.map_eq_some_iff] at h
        obtain ⟨us, -, rfl⟩ := h
        exact ⟨[], rest, rfl, .nil, by simp⟩
      by_cases hslash : c = '\\'
      · subst hslash
        simp only [step, hmark, if_false, if_true, Option.bind_some, List.nil_append,
          Option.map_id_fun', id] at h
        obtain ⟨d, body, after, rfl, hin, hts⟩ := (ih read ts).2 h
        exact ⟨'\\' :: d :: body, after, rfl, .escape d hin, hts⟩
      by_cases hline : c = '\n' ∨ c = '\r'
      · rcases hline with rfl | rfl <;> simp [step, hmark] at h
      · rw [not_or] at hline
        simp only [step, hmark, hslash, hline.1, hline.2, if_false, decide_false, Bool.or_self,
          Bool.false_eq_true, Option.bind_some, List.nil_append, Option.map_id_fun', id] at h
        obtain ⟨body, after, rfl, hin, hts⟩ := (ih (read ++ [c]) ts).1 h
        exact ⟨c :: body, after, rfl, .plain hmark hslash hline.1 hline.2 hin, by simpa using hts⟩
    · intro h
      simp only [step, Option.bind_some, List.nil_append, Option.map_id_fun', id] at h
      obtain ⟨body, after, rfl, hin, hts⟩ := (ih (read ++ ['\\', c]) ts).1 h
      exact ⟨c, body, after, rfl, hin, by simpa using hts⟩

theorem OpensWithLiteral.exists_body {text value : String} {cs : List Char}
    (h : OpensWithLiteral text value) (htext : text.toList = '\x27' :: cs) :
    ∃ body rest, cs = body ++ '\x27' :: rest ∧ Inside '\x27' body ∧
      decode .plain body = some value.toList := by
  obtain ⟨literal, more, body, rfl, hscan, hvalue⟩ := h
  rw [String.toList_append, String.toList_append, List.append_assoc] at htext
  rw [scan_eq_scanFrom] at hscan
  cases hl : literal.toList with
  | nil =>
    rw [hl] at hscan
    exact absurd hscan (by simp [scanFrom, State.finish])
  | cons c rest =>
    rw [hl, List.cons_append, List.cons.injEq] at htext
    obtain ⟨rfl, rfl⟩ := htext
    have hopen : step .between '\x27' = some (.quoted '\x27' [], []) := rfl
    rw [hl, scanFrom_cons, hopen] at hscan
    simp only [Option.bind_some, List.nil_append, Option.map_id_fun', id] at hscan
    obtain ⟨inner, after, rfl, hin, hbody⟩ := (exists_close rest [] _).1 hscan
    simp only [List.head?_cons, List.nil_append, Option.some.injEq, Token.quoted.injEq,
      true_and] at hbody
    refine ⟨inner, after ++ (";".toList ++ more.toList), by simp, hin, ?_⟩
    obtain ⟨found, hfound, rfl⟩ := Option.map_eq_some_iff.mp hvalue
    rw [hbody, String.toList_ofList] at hfound
    rw [String.toList_ofList, hfound]

/-! ## Bodies -/

theorem Inside.plain_of_no_backslash {mark : Char} {cs : List Char} (h : Inside mark cs)
    (hcs : ∀ c ∈ cs, c ≠ '\\') : ∀ c ∈ cs, c ≠ mark ∧ c ≠ '\\' ∧ c ≠ '\n' ∧ c ≠ '\r' := by
  induction h with
  | nil => simp
  | plain h1 h2 h3 h4 _ ih =>
    intro d hd
    rcases List.mem_cons.mp hd with rfl | hd
    · exact ⟨h1, h2, h3, h4⟩
    · exact ih (fun e he => hcs e (List.mem_cons_of_mem _ he)) d hd
  | escape c _ _ => exact absurd rfl (hcs '\\' List.mem_cons_self)

theorem not_inside_of_lineEnd {mark c : Char} (hc : c ≠ '\\') (before after : List Char) :
    ¬ Inside mark (before ++ c :: '\n' :: after) := by
  intro h
  generalize hcs : before ++ c :: '\n' :: after = cs at h
  induction h generalizing before with
  | nil => simp at hcs
  | plain _ _ hn _ hrest ih =>
    cases before with
    | nil =>
      obtain ⟨-, rfl⟩ := List.cons.inj hcs
      cases hrest
      contradiction
    | cons d more => exact ih more (List.cons.inj hcs).2
  | escape d hrest ih =>
    match before with
    | [] => exact hc (List.cons.inj hcs).1
    | [_] =>
      obtain ⟨-, hcs⟩ := List.cons.inj hcs
      obtain ⟨-, rfl⟩ := List.cons.inj hcs
      cases hrest
      contradiction
    | _ :: _ :: more => exact ih more (List.cons.inj (List.cons.inj hcs).2).2

theorem Inside.unique {mark : Char} (hmark : mark ≠ '\\') {body body' rest rest' : List Char}
    (h : Inside mark body) (h' : Inside mark body')
    (heq : body ++ mark :: rest = body' ++ mark :: rest') : body = body' := by
  induction h generalizing body' with
  | nil =>
    cases h' with
    | nil => rfl
    | plain h1 => exact absurd (List.cons.inj heq).1.symm h1
    | escape => exact absurd (List.cons.inj heq).1 hmark
  | plain h1 h2 _ _ _ ih =>
    cases h' with
    | nil => exact absurd (List.cons.inj heq).1 h1
    | plain _ _ _ _ hrest =>
      rw [List.cons_append, List.cons_append, List.cons.injEq] at heq
      rw [heq.1, ih hrest heq.2]
    | escape => exact absurd (List.cons.inj heq).1 h2
  | escape c _ ih =>
    cases h' with
    | nil => exact absurd (List.cons.inj heq).1.symm hmark
    | plain _ h2 => exact absurd (List.cons.inj heq).1.symm h2
    | escape d hrest =>
      simp only [List.cons_append, List.cons.injEq, true_and] at heq
      rw [heq.1, ih hrest heq.2]

theorem OpensWithLiteral.unique {text value value' : String} {cs : List Char}
    (h : OpensWithLiteral text value) (h' : OpensWithLiteral text value')
    (htext : text.toList = '\x27' :: cs) : value = value' := by
  obtain ⟨body, rest, rfl, hin, hvalue⟩ := h.exists_body htext
  obtain ⟨body', rest', heq, hin', hvalue'⟩ := h'.exists_body htext
  rw [hin.unique (by decide) hin' heq, hvalue', Option.some.injEq] at hvalue
  exact (String.toList_inj.mp hvalue).symm

/-! ## The length of a value -/

theorem length_le_of_escaped? {c : Char} {found : List Char} (h : escaped? c = some found) :
    found.length ≤ 1 := by
  unfold escaped? at h
  split_ifs at h <;> simp_all <;> subst h <;> simp

theorem length_le_of_decode {d : Decoder} {cs ds : List Char} (h : decode d cs = some ds) :
    ds.length ≤ cs.length := by
  fun_induction decode d cs generalizing ds with
  | case1 => simp_all
  | case2 _ ih | case4 _ ih | case5 _ _ ih =>
    have := ih h
    simp only [List.length_cons]
    omega
  | case3 c rest _ ih =>
    obtain ⟨es, hes, rfl⟩ := Option.map_eq_some_iff.mp h
    have := ih hes
    simp only [List.length_cons]
    omega
  | case6 c rest _ _ ih =>
    obtain ⟨found, hfound, hrest⟩ := Option.bind_eq_some_iff.mp h
    obtain ⟨es, hes, rfl⟩ := Option.map_eq_some_iff.mp hrest
    have := ih hes
    have := length_le_of_escaped? hfound
    simp only [List.length_append, List.length_cons]
    omega
  | case7 more value c rest ihPlain ihHex =>
    obtain ⟨digit, -, hrest⟩ := Option.bind_eq_some_iff.mp h
    cases more with
    | zero =>
      obtain ⟨found, -, hrest⟩ := Option.bind_eq_some_iff.mp hrest
      obtain ⟨es, hes, rfl⟩ := Option.map_eq_some_iff.mp hrest
      have := ihPlain hes
      simp only [List.length_cons]
      omega
    | succ more =>
      have := ihHex digit more hrest
      simp only [List.length_cons]
      omega
  | case8 => contradiction

theorem no_backslash_of_decode {cs ds : List Char} (h : decode .plain cs = some ds)
    (hlen : cs.length ≤ ds.length) : ∀ c ∈ cs, c ≠ '\\' := by
  induction cs generalizing ds with
  | nil => simp
  | cons c rest ih =>
    rw [decode] at h
    split at h
    · have := length_le_of_decode h
      simp only [List.length_cons] at hlen
      omega
    · obtain ⟨es, hes, rfl⟩ := Option.map_eq_some_iff.mp h
      simp only [List.length_cons, Nat.add_le_add_iff_right] at hlen
      intro d hd
      rcases List.mem_cons.mp hd with rfl | hd
      · assumption
      · exact ih hes hlen d hd

end Typings.Script
