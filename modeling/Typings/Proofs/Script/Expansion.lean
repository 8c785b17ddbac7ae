import Mathlib.Tactic.SplitIfs
import Typings.Proofs.Script.Declaration
import Typings.Proofs.Script.Spelling
import Typings.Proofs.Script.TypeTree

/-!
# Names of types replaced in a text

A text of declarations is written once more with the names of types in its members replaced. A name
is replaced only where a type must stand: no key, no label, and nothing in a quotation or a comment.
All other text is copied as it is.
-/

namespace Typings.Script

/-! ## Where a name is a type -/

def Reading.isOpen : Reading → Bool
  | .operand _ _ => true
  | _ => false

/-- After these tokens of a type one more type must follow. -/
def endsOpen (type : List Token) : Bool := ((Reading.operand .empty []).run type).any Reading.isOpen

/-- Whether the name, if it comes next, is that of a type in a member. A parameter of the interface
hides a type of the same name. -/
def Place.awaitsType : Place → String → Bool
  | .memberType u _ _ _ type, name =>
    endsOpen type && !(u.header.parameters.map Parameter.name).contains name
  | _, _ => false

def Place.follow (p : Place) (ts : List Token) : Option Place :=
  (runWith Place.step p (code ts)).map Prod.fst

/-! ## The writer -/

structure Writer where
  state : State
  place : Place

section

variable (f : String → Option String)

def replacement (p : Place) (name : String) : String :=
  if p.awaitsType name then (f name).getD name else name

/-- What is written for the name that has been read last. -/
def State.flush (p : Place) : State → List Char
  | .word read => (replacement f p (String.ofList read)).toList
  | _ => []

/-- A name is held back while it may go on; any other character is written at once. -/
def written (p : Place) (s s' : State) (c : Char) : List Char :=
  match s' with
  | .word _ => []
  | _ => s.flush f p ++ [c]

def Writer.step (w : Writer) (c : Char) : Option (Reached Writer Char) :=
  (Script.step w.state c).bind fun r =>
    (w.place.follow r.2).map fun q => (⟨r.1, q⟩, written f w.place w.state r.1 c)

def Writer.finish (w : Writer) : Option (List Char) :=
  w.state.finish.bind fun ts => (w.place.follow ts).map fun _ => w.state.flush f w.place

def replaceTypes (text : String) : Option String :=
  (runWith (Writer.step f) ⟨.between, .outside⟩ text.toList).bind fun r =>
    (r.1.finish f).map fun last => String.ofList (r.2 ++ last)

end

/-! ## Following tokens -/

theorem Place.follow_nil (p : Place) : p.follow [] = some p := rfl

theorem Place.follow_append (p : Place) (ts us : List Token) :
    p.follow (ts ++ us) = (p.follow ts).bind fun q => q.follow us := by
  unfold follow
  rw [code_append, runWith_append]
  cases runWith Place.step p (code ts) with
  | none => rfl
  | some r => simp [Function.comp_def, Reached.after]

theorem Place.follow_memberType (u : Unfinished) (name : String) (optional : Bool)
    {due due' : List Char} {ts : List Token} (h : dueAfter due ts = some due') (hcode : code ts = ts)
    (type : List Token) :
    (Place.memberType u name optional due type).follow ts =
      some (.memberType u name optional due' (type ++ ts)) := by
  rw [follow, hcode, run_memberType u name optional h]
  rfl

theorem endsOpen_append {type : List Token} {r : Reading}
    (h : (Reading.operand .empty []).run type = some r) (ts : List Token) :
    endsOpen (type ++ ts) = (r.run ts).any Reading.isOpen := by
  rw [endsOpen, Reading.run_append, h]
  rfl

theorem exists_run_of_endsOpen {type : List Token} (h : endsOpen type = true) :
    ∃ level stack, (Reading.operand .empty []).run type = some (.operand level stack) := by
  obtain ⟨r, hr, hopen⟩ := (Option.any_eq_true _ _).mp h
  cases r with
  | operand level stack => exact ⟨level, stack, hr⟩
  | _ => contradiction

theorem Place.awaitsType_memberType {u : Unfinished} (hu : u.header.parameters = [])
    (name : String) (optional : Bool) (due : List Char) {type : List Token}
    (h : endsOpen type = true) (other : String) :
    (Place.memberType u name optional due type).awaitsType other = true := by
  simp [awaitsType, h, hu]

def Token.names : Token → List String
  | .word name => [name]
  | _ => []

/-- The names among the tokens that stand for types in members. -/
def Place.typeNames : Place → List Token → List String
  | _, [] => []
  | p, t :: rest =>
    t.names.filter p.awaitsType ++
      match p.step t with
      | some r => r.1.typeNames rest
      | none => []

theorem Place.typeNames_append {p q : Place} {ts : List Token}
    (h : (runWith Place.step p ts).map Prod.fst = some q) (us : List Token) :
    p.typeNames (ts ++ us) = p.typeNames ts ++ q.typeNames us := by
  induction ts generalizing p with
  | nil =>
    rw [show p = q from Option.some.inj h]
    rfl
  | cons t rest ih =>
    rw [List.cons_append, typeNames, typeNames, List.append_assoc]
    rw [runWith] at h
    cases hstep : p.step t with
    | none => simp [hstep] at h
    | some r =>
      rw [hstep] at h
      simp only [Option.bind_some, Option.map_map] at h
      exact congrArg _ (ih h)

theorem Place.typeNames_subset (p : Place) (ts : List Token) :
    p.typeNames ts ⊆ ts.flatMap Token.names := by
  induction ts generalizing p with
  | nil => exact List.Subset.refl []
  | cons t rest ih =>
    rw [typeNames, List.flatMap_cons]
    apply List.append_subset.mpr ⟨?_, ?_⟩
    · exact fun name hname => List.mem_append_left _ (List.mem_filter.mp hname).1
    · split
      · exact fun name hname => List.mem_append_right _ (ih _ hname)
      · exact List.nil_subset _

/-! ## What is copied -/

section

variable {f : String → Option String}

/-- None of the types that the tokens name is replaced. -/
def Keeps (f : String → Option String) (p : Place) (ts : List Token) : Prop :=
  ∀ name ∈ p.typeNames (code ts), f name = none

theorem keeps_of_names {p : Place} {ts : List Token}
    (h : ∀ name ∈ (code ts).flatMap Token.names, f name = none) : Keeps f p ts :=
  fun name hname => h name (p.typeNames_subset _ hname)

theorem keeps_append {p q : Place} {ts us : List Token} (h : p.follow ts = some q) :
    Keeps f p (ts ++ us) ↔ Keeps f p ts ∧ Keeps f q us := by
  unfold Keeps
  rw [code_append, Place.typeNames_append h]
  simp [or_imp, forall_and]

/-- The part of a text that has been read but not written. -/
def State.held : State → List Char
  | .word read => read
  | _ => []

theorem replacement_of_keeps {p : Place} {name : String} {rest : List Token}
    (h : Keeps f p (Token.word name :: rest)) : replacement f p name = name := by
  unfold replacement
  split
  · rename_i hawaits
    rw [h name (List.mem_append_left _ (by simp [Token.names, hawaits]))]
    rfl
  · rfl

theorem State.flush_eq_held {p : Place} {s : State} {ts : List Token} (hk : Keeps f p ts)
    (h : ∀ read, s = .word read → ts.head? = some (Token.word (String.ofList read))) :
    s.flush f p = s.held := by
  cases s with
  | word read =>
    obtain ⟨rest, rfl⟩ := List.head?_eq_some_iff.mp (h read rfl)
    rw [State.flush, replacement_of_keeps hk, String.toList_ofList]
    rfl
  | _ => rfl

theorem State.flush_of_finish {p : Place} {s : State} {last : List Token}
    (h : s.finish = some last) (hk : Keeps f p last) : s.flush f p = s.held := by
  apply State.flush_eq_held hk
  rintro read rfl
  rw [← Option.some.inj h]
  rfl

theorem isNamePart_of_opensName {c : Char} (h : opensName c = true) : isNamePart c = true := by
  simp only [opensName, Naming.isNameStart, Bool.or_eq_true] at h
  simp only [isNamePart, Naming.isWord, Char.isAlphanum, Bool.or_eq_true]
  rcases h with (h | h) | h <;> simp [h]

theorem enter_ne_word {c : Char} (h : isNamePart c = false) (read : List Char) (ts : List Token) :
    enter c ≠ some (.word read, ts) := by
  have hopens : opensName c = false := by
    rw [Bool.eq_false_iff]
    intro hc
    rw [isNamePart_of_opensName hc] at h
    contradiction
  unfold enter
  rw [hopens]
  split_ifs <;> simp_all

theorem isNamePart_of_isBoundary {c : Char} (h : isBoundary c = true) : isNamePart c = false := by
  simp only [isBoundary, Bool.and_eq_true, Bool.not_eq_true'] at h
  exact h.1

theorem held_of_step {s : State} {c : Char} {read : List Char} {ts : List Token}
    (h : step s c = some (.word read, ts)) : read = s.held ++ [c] := by
  have hafter {before : List Token} (hpart : isNamePart c = false) :
      (enter c).map (Reached.after before) ≠ some (.word read, ts) := by
    intro heq
    obtain ⟨r, hr, hword⟩ := Option.map_eq_some_iff.mp heq
    obtain ⟨s', us⟩ := r
    cases hword
    exact enter_ne_word hpart read us hr
  -- Only a first character and a character of a name lead into a name.
  cases s with
  | between =>
    by_cases hpart : isNamePart c = true
    · simp only [step, enter] at h
      split_ifs at h <;> simp_all [State.held]
    · exact absurd h (enter_ne_word (by simpa using hpart) read ts)
  | word before =>
    simp only [step] at h
    split at h
    · simp_all [State.held]
    · rename_i hpart
      exact absurd h (hafter (by simpa using hpart))
  | number part before =>
    simp only [step] at h
    split at h
    · simp at h
    · split at h
      · rename_i hend
        rw [Bool.and_eq_true] at hend
        exact absurd h (hafter (isNamePart_of_isBoundary hend.2))
      · contradiction
  | escaped mark before => simp [step] at h
  | _ =>
    simp only [step] at h
    split_ifs at h <;> simp at h

theorem head?_of_step {s' : State} {c : Char} {read : List Char} {ts : List Token}
    (h : step (.word read) c = some (s', ts)) (hs : ∀ more, s' ≠ .word more) :
    ts.head? = some (Token.word (String.ofList read)) := by
  simp only [step] at h
  split at h
  · cases h
    exact absurd rfl (hs _)
  · obtain ⟨r, -, hr⟩ := Option.map_eq_some_iff.mp h
    cases hr
    rfl

theorem written_append_held {p : Place} {s s' : State} {c : Char} {ts : List Token}
    (h : step s c = some (s', ts)) (hk : Keeps f p ts) :
    written f p s s' c ++ s'.held = s.held ++ [c] := by
  by_cases hs : ∃ read, s' = .word read
  · obtain ⟨read, rfl⟩ := hs
    exact held_of_step h
  · rw [not_exists] at hs
    have hflush : s.flush f p = s.held := by
      apply State.flush_eq_held hk
      rintro read rfl
      exact head?_of_step h hs
    cases s' with
    | word read => exact absurd rfl (hs read)
    | _ => simp [written, hflush, State.held]

/-- What is read between two places is copied if no type that it names is replaced. -/
theorem run_copies {p q : Place} {s s' : State} {cs : List Char} {ts : List Token}
    (h : run s cs = some (s', ts)) (hq : p.follow ts = some q) (hk : Keeps f p ts) :
    ∃ out, runWith (Writer.step f) ⟨s, p⟩ cs = some (⟨s', q⟩, out) ∧ out ++ s'.held = s.held ++ cs := by
  induction cs generalizing s p ts with
  | nil =>
    cases h
    cases hq
    exact ⟨[], rfl, (List.append_nil _).symm⟩
  | cons c rest ih =>
    rw [run_cons] at h
    obtain ⟨⟨s1, us⟩, hstep, hrest⟩ := Option.bind_eq_some_iff.mp h
    obtain ⟨⟨s2, vs⟩, hrun, hafter⟩ := Option.map_eq_some_iff.mp hrest
    cases hafter
    rw [Place.follow_append] at hq
    obtain ⟨p1, hp1, hq⟩ := Option.bind_eq_some_iff.mp hq
    obtain ⟨hk, hkrest⟩ := (keeps_append hp1).mp hk
    obtain ⟨out, hout, hheld⟩ := ih hrun hq hkrest
    refine ⟨written f p s s1 c ++ out, ?_, ?_⟩
    · rw [runWith, Writer.step, hstep]
      simp only [Option.bind_some, hp1, Option.map_some, hout]
      rfl
    · rw [List.append_assoc, hheld, ← List.append_assoc, written_append_held hstep hk]
      simp

/-- After a boundary a settled state goes on as if the name before it were written already. -/
theorem Writer.step_of_settles {p q : Place} {s : State} {last : List Token} (hs : s.Settles last)
    (hq : p.follow last = some q) {c : Char} (hc : isBoundary c = true) :
    Writer.step f ⟨s, p⟩ c =
      (Writer.step f ⟨.between, q⟩ c).map (Reached.after (s.flush f p)) := by
  have hbetween : Script.step .between c = enter c := rfl
  simp only [Writer.step, hs.2 c hc, hbetween]
  cases henter : enter c with
  | none => rfl
  | some r =>
    obtain ⟨s', ts⟩ := r
    have hwritten : written f p s s' c = s.flush f p ++ written f q .between s' c := by
      cases s' with
      | word read => exact absurd henter (enter_ne_word (isNamePart_of_isBoundary hc) read ts)
      | _ => rfl
    simp only [Option.map_some, Option.bind_some, Reached.after, Place.follow_append, hq]
    cases q.follow ts with
    | none => rfl
    | some q' => simp [hwritten, Reached.after]

theorem Writer.run_of_settles {p q : Place} {s : State} {last : List Token} (hs : s.Settles last)
    (hq : p.follow last = some q) {cs : List Char} (hc : opensApart cs = true) :
    runWith (Writer.step f) ⟨s, p⟩ cs =
      (runWith (Writer.step f) ⟨.between, q⟩ cs).map (Reached.after (s.flush f p)) := by
  cases cs with
  | nil => simp [opensApart] at hc
  | cons c rest => exact runWith_cons_of_step (Writer.step_of_settles hs hq hc) rest

/-! ## Texts between two places -/

/-- From the one place to the other the text is written as `out`, and nothing that follows can
change that. -/
def Turns (f : String → Option String) (p : Place) (cs : List Char) (q : Place) (out : List Char) :
    Prop :=
  runWith (Writer.step f) ⟨.between, p⟩ cs = some (⟨.between, q⟩, out)

/-- From the one place to the other the text is written as `out`, once a boundary follows. -/
def TurnsApart (f : String → Option String) (p : Place) (cs : List Char) (q : Place)
    (out : List Char) : Prop :=
  ∀ ds, opensApart ds = true → runWith (Writer.step f) ⟨.between, p⟩ (cs ++ ds) =
    (runWith (Writer.step f) ⟨.between, q⟩ ds).map (Reached.after out)

theorem Turns.apart {p q : Place} {cs out : List Char} (h : Turns f p cs q out) :
    TurnsApart f p cs q out :=
  fun ds _ => runWith_append_of_eq h ds

theorem Turns.append {p q r : Place} {cs ds out more : List Char} (h : Turns f p cs q out)
    (h' : Turns f q ds r more) : Turns f p (cs ++ ds) r (out ++ more) := by
  unfold Turns at *
  rw [runWith_append_of_eq h, h']
  rfl

theorem Turns.append_apart {p q r : Place} {cs ds out more : List Char} (h : Turns f p cs q out)
    (h' : TurnsApart f q ds r more) : TurnsApart f p (cs ++ ds) r (out ++ more) := by
  intro es hes
  rw [List.append_assoc, runWith_append_of_eq h, h' es hes, Reached.map_after_map]

theorem TurnsApart.append {p q r : Place} {cs ds out more : List Char} (h : TurnsApart f p cs q out)
    (h' : Turns f q ds r more) (hd : opensApart ds = true) :
    Turns f p (cs ++ ds) r (out ++ more) := by
  rw [Turns, h ds hd, show runWith _ _ ds = _ from h']
  rfl

theorem opensApart_append {cs : List Char} (h : opensApart cs = true) (ds : List Char) :
    opensApart (cs ++ ds) = true := by
  cases cs with
  | nil => contradiction
  | cons c rest => exact h

theorem TurnsApart.append_apart {p q r : Place} {cs ds out more : List Char}
    (h : TurnsApart f p cs q out) (h' : TurnsApart f q ds r more) (hd : opensApart ds = true) :
    TurnsApart f p (cs ++ ds) r (out ++ more) := by
  intro es hes
  rw [List.append_assoc, h _ (opensApart_append hd es), h' es hes, Reached.map_after_map]

theorem Scans.turns {p q : Place} {cs : List Char} {ts : List Token} (h : Scans cs ts)
    (hq : p.follow ts = some q) (hk : Keeps f p ts) : Turns f p cs q cs := by
  obtain ⟨out, hrun, hheld⟩ := run_copies h hq hk
  have hout : out = cs := by simpa [State.held] using hheld
  rw [Turns, hrun, hout]

theorem Ends.turnsApart {p q : Place} {cs : List Char} {ts : List Token} (h : Ends cs ts)
    (hq : p.follow ts = some q) (hk : Keeps f p ts) : TurnsApart f p cs q cs := by
  obtain ⟨s, before, last, hrun, hs, rfl⟩ := h
  rw [Place.follow_append] at hq
  obtain ⟨p1, hp1, hq⟩ := Option.bind_eq_some_iff.mp hq
  obtain ⟨hk, hklast⟩ := (keeps_append hp1).mp hk
  obtain ⟨out, hout, hheld⟩ := run_copies hrun hp1 hk
  have hcs : out ++ s.held = cs := hheld
  intro ds hd
  rw [runWith_append_of_eq hout, Writer.run_of_settles hs hq hd, State.flush_of_finish hs.1 hklast,
    Reached.map_after_map, hcs]

theorem turnsApart_name {p q : Place} {name : String} (h : Naming.isIdentifier name = true)
    (hq : p.follow [Token.word name] = some q) :
    TurnsApart f p name.toList q (replacement f p name).toList := by
  have hrun := run_identifier h
  obtain ⟨out, hout, hheld⟩ := run_copies hrun p.follow_nil fun _ hnone => absurd hnone List.not_mem_nil
  have hnil : out = [] := by simpa [State.held] using hheld
  have hsettles := word_settles name.toList
  rw [String.ofList_toList] at hsettles
  intro ds hd
  rw [runWith_append_of_eq hout, Writer.run_of_settles hsettles hq hd, hnil, State.flush,
    String.ofList_toList, Reached.after_nil, Option.map_id, id]

theorem Scans.turns_memberType {cs : List Char} {ts : List Token} (h : Scans cs ts) (u : Unfinished)
    (name : String) (optional : Bool) (due : List Char) {due' : List Char} (type : List Token)
    (hdue : dueAfter due ts = some due') (hcode : code ts = ts)
    (hnames : ∀ other ∈ ts.flatMap Token.names, f other = none) :
    Turns f (.memberType u name optional due type) cs
      (.memberType u name optional due' (type ++ ts)) cs := by
  apply h.turns (Place.follow_memberType u name optional hdue hcode type)
  apply keeps_of_names
  rw [hcode]
  exact hnames

theorem replaceTypes_of_turns {text out : String}
    (h : Turns f .outside text.toList .outside out.toList) : replaceTypes f text = some out := by
  rw [replaceTypes, show runWith _ _ text.toList = _ from h]
  simp [Writer.finish, State.finish, State.flush, Place.follow_nil]

end

example : replaceTypes (fun name => if name = "X" then some "Entry<XFields>" else none)
    "export interface A<T> \x7b X: X | \"X\"; t: T[]; /* X */ \x7d export type B = X;" =
      some "export interface A<T> \x7b X: Entry<XFields> | \"X\"; t: T[]; /* X */ \x7d export type B = X;" := by
  rfl

end Typings.Script
