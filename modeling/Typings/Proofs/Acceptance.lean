import Mathlib.Data.List.Nodup
import Typings.Acceptance

/-!
# What stands against a reading

A reading succeeds if, and only if, no issue stands against it. The issues of a value with parts are
those of its parts, each seen from one step further out; parts that lie apart report places that lie
apart.
-/

namespace Typings

/-- The issue, seen from one step further out. -/
def Issue.below (step : Step) (i : Issue) : Issue := ⟨step :: i.place, i.fault⟩

@[simp] theorem Issue.place_below (step : Step) (i : Issue) : (i.below step).place = step :: i.place := rfl

/-! ## Issues of a reading -/

namespace Checked

variable {α β : Type}

/-- What stands against a reading: nothing if it succeeds. -/
def issues : Checked α → List Issue
  | .accepted _ => []
  | .rejected is => is

/-- A reading that is only rejected for a reason. -/
def Founded (c : Checked α) : Prop := c.issues = [] → ∃ a, c = .accepted a

@[simp] theorem issues_accepted (a : α) : (accepted a).issues = [] := rfl

@[simp] theorem issues_rejected (is : List Issue) : (rejected is : Checked α).issues = is := rfl

@[simp] theorem issues_pure (a : α) : (pure a : Checked α).issues = [] := rfl

@[simp] theorem issues_fault (f : Fault) : (fault f : Checked α).issues = [⟨[], f⟩] := rfl

@[simp] theorem issues_map (f : α → β) (c : Checked α) : (f <$> c).issues = c.issues := by
  cases c <;> rfl

@[simp] theorem issues_seq (f : Checked (α → β)) (c : Checked α) :
    (f <*> c).issues = f.issues ++ c.issues := by
  cases f with
  | accepted g => cases c <;> rfl
  | rejected is =>
    cases c with
    | accepted a => exact (List.append_nil is).symm
    | rejected more => rfl

@[simp] theorem issues_under (step : Step) (c : Checked α) :
    (c.under step).issues = c.issues.map (Issue.below step) := by
  cases c <;> rfl

theorem exists_accepted_iff {c : Checked α} (h : c.Founded) : (∃ a, c = .accepted a) ↔ c.issues = [] := by
  refine ⟨?_, h⟩
  rintro ⟨a, rfl⟩
  rfl

theorem founded_accepted (a : α) : (accepted a).Founded := fun _ => ⟨a, rfl⟩

theorem founded_fault (f : Fault) : (fault f : Checked α).Founded := nofun

theorem Founded.map {c : Checked α} (h : c.Founded) (f : α → β) : (f <$> c).Founded := by
  intro hnone
  rw [issues_map] at hnone
  obtain ⟨a, rfl⟩ := h hnone
  exact ⟨f a, rfl⟩

theorem Founded.seq {f : Checked (α → β)} {c : Checked α} (hf : f.Founded) (hc : c.Founded) :
    (f <*> c).Founded := by
  intro hnone
  rw [issues_seq, List.append_eq_nil_iff] at hnone
  obtain ⟨g, rfl⟩ := hf hnone.1
  obtain ⟨a, rfl⟩ := hc hnone.2
  exact ⟨g a, rfl⟩

theorem Founded.under {c : Checked α} (h : c.Founded) (step : Step) : (c.under step).Founded := by
  intro hnone
  rw [issues_under, List.map_eq_nil_iff] at hnone
  obtain ⟨a, rfl⟩ := h hnone
  exact ⟨a, rfl⟩

/-- A reading that succeeds or reports one fault, in the value itself. -/
def Single (c : Checked α) : Prop := (∃ a, c = .accepted a) ∨ ∃ f, c = .fault f

theorem Single.founded {c : Checked α} (h : c.Single) : c.Founded := by
  rcases h with ⟨a, rfl⟩ | ⟨f, rfl⟩
  · exact founded_accepted a
  · exact founded_fault f

theorem Single.nodup_places {c : Checked α} (h : c.Single) : (c.issues.map Issue.place).Nodup := by
  rcases h with ⟨a, rfl⟩ | ⟨f, rfl⟩
  · exact List.nodup_nil
  · exact List.nodup_singleton _

theorem founded_each {read : α → Checked β} (h : ∀ a, (read a).Founded) (start : Nat) (as : List α) :
    (each read start as).Founded := by
  induction as generalizing start with
  | nil => exact founded_accepted []
  | cons a rest ih => exact (((h a).under _).map List.cons).seq (ih (start + 1))

/-! ### What an accepted value is made of -/

theorem map_eq_accepted_iff {f : α → β} {c : Checked α} {b : β} :
    f <$> c = .accepted b ↔ ∃ a, c = .accepted a ∧ f a = b := by
  cases c <;> simp

theorem seq_eq_accepted_iff {f : Checked (α → β)} {c : Checked α} {b : β} :
    f <*> c = .accepted b ↔ ∃ g, f = .accepted g ∧ ∃ a, c = .accepted a ∧ g a = b := by
  constructor
  · intro h
    cases f with
    | accepted g =>
      cases c with
      | accepted a => exact ⟨g, rfl, a, rfl, Checked.accepted.inj h⟩
      | rejected is => cases h
    | rejected is => cases c <;> cases h
  · rintro ⟨g, rfl, a, rfl, rfl⟩
    rfl

theorem under_eq_accepted_iff {step : Step} {c : Checked α} {a : α} : c.under step = .accepted a ↔ c = .accepted a := by
  cases c with
  | accepted b => exact Iff.rfl
  | rejected is => exact iff_of_false nofun nofun

end Checked

/-! ## Values with parts -/

/-- The parts of a value: the steps that lead to them, and what stands against each. -/
abbrev Parts := List (Step × List Issue)

namespace Parts

/-- What stands against a value, seen from the value. -/
def issues (parts : Parts) : List Issue := parts.flatMap fun part => part.2.map (Issue.below part.1)

theorem mem_issues_iff {parts : Parts} {place : List Step} {fault : Fault} :
    ⟨place, fault⟩ ∈ parts.issues ↔
      ∃ step rest is, place = step :: rest ∧ (step, is) ∈ parts ∧ ⟨rest, fault⟩ ∈ is := by
  unfold issues
  constructor
  · intro h
    obtain ⟨⟨step, is⟩, hpart, hmap⟩ := List.mem_flatMap.mp h
    obtain ⟨⟨rest, f⟩, hissue, heq⟩ := List.mem_map.mp hmap
    cases heq
    exact ⟨step, rest, is, rfl, hpart, hissue⟩
  · rintro ⟨step, rest, is, rfl, hpart, hissue⟩
    exact List.mem_flatMap.mpr ⟨_, hpart, List.mem_map.mpr ⟨_, hissue, rfl⟩⟩

theorem nodup_places_issues {parts : Parts} (hsteps : (parts.map Prod.fst).Nodup)
    (hparts : ∀ part ∈ parts, (part.2.map Issue.place).Nodup) : (parts.issues.map Issue.place).Nodup := by
  have hplaces (part : Step × List Issue) :
      (part.2.map (Issue.below part.1)).map Issue.place = (part.2.map Issue.place).map (part.1 :: ·) := by
    simp
  unfold issues
  rw [List.map_flatMap, List.nodup_flatMap]
  constructor
  · intro part hpart
    rw [hplaces]
    exact (hparts part hpart).map (List.cons_injective (a := part.1))
  · refine (List.pairwise_map.mp hsteps).imp ?_
    intro part other hne place hplace hother
    simp only [hplaces] at hplace hother
    obtain ⟨rest, -, rfl⟩ := List.mem_map.mp hplace
    obtain ⟨rest', -, heq⟩ := List.mem_map.mp hother
    exact hne (List.cons.inj heq).1.symm

end Parts

/-- A reading that reports these faults, each at its place: it has an issue for each of them, no place
has two issues, and it succeeds if there is none. -/
structure Checked.Reports {α : Type} (c : Checked α) (faults : List Step → Fault → Prop) : Prop where
  founded : c.Founded
  nodup : (c.issues.map Issue.place).Nodup
  mem : ∀ place fault, ⟨place, fault⟩ ∈ c.issues ↔ faults place fault

theorem Checked.reports_fault {α : Type} {f : Fault} {faults : List Step → Fault → Prop}
    (h : ∀ place fault, faults place fault ↔ place = [] ∧ fault = f) :
    (Checked.fault f : Checked α).Reports faults :=
  ⟨founded_fault f, List.nodup_singleton _, fun place fault => by simp [h]⟩

theorem Checked.Reports.exists_accepted_iff {α : Type} {c : Checked α} {faults : List Step → Fault → Prop}
    (h : c.Reports faults) : (∃ a, c = .accepted a) ↔ ∀ place fault, ¬ faults place fault := by
  rw [Checked.exists_accepted_iff h.founded, List.eq_nil_iff_forall_not_mem]
  constructor
  · intro hnone place fault hfault
    exact hnone _ ((h.mem place fault).mpr hfault)
  · intro hnone i hi
    exact hnone _ _ ((h.mem i.place i.fault).mp hi)

theorem Checked.Reports.accepted_congr {α : Type} {c d : Checked α} {faults others : List Step → Fault → Prop}
    (hc : c.Reports faults) (hd : d.Reports others) (h : c.issues = d.issues) :
    (∃ a, c = .accepted a) ↔ ∃ a, d = .accepted a := by
  rw [Checked.exists_accepted_iff hc.founded, Checked.exists_accepted_iff hd.founded, h]

theorem Checked.reports_of_parts {α : Type} {c : Checked α} {parts : Parts} {faults : List Step → Fault → Prop}
    (hfounded : c.Founded) (hissues : c.issues = parts.issues) (hsteps : (parts.map Prod.fst).Nodup)
    (hparts : ∀ part ∈ parts, (part.2.map Issue.place).Nodup)
    (hfaults : ∀ place fault,
      (∃ step rest is, place = step :: rest ∧ (step, is) ∈ parts ∧ ⟨rest, fault⟩ ∈ is) ↔ faults place fault) :
    c.Reports faults := by
  refine ⟨hfounded, ?_, fun place fault => ?_⟩
  · rw [hissues]
    exact Parts.nodup_places_issues hsteps hparts
  · rw [hissues, Parts.mem_issues_iff, hfaults]

/-- The items of a list, with what stands against each, from a given index on. -/
def itemParts {α : Type} (read : α → List Issue) (start : Nat) (items : List α) : Parts :=
  (items.zipIdx start).map fun item => (.index item.2, read item.1)

theorem Checked.issues_each {α β : Type} (read : α → Checked β) (start : Nat) (items : List α) :
    (Checked.each read start items).issues = (itemParts (fun a => (read a).issues) start items).issues := by
  induction items generalizing start with
  | nil => rfl
  | cons a rest ih =>
    have hseq : (Checked.each read start (a :: rest)).issues =
        (List.cons <$> (read a).under (.index start) <*> Checked.each read (start + 1) rest).issues := rfl
    rw [hseq, issues_seq, issues_map, issues_under, ih]
    rfl

theorem mem_itemParts_iff {α : Type} {read : α → List Issue} {items : List α} {step : Step} {is : List Issue} :
    (step, is) ∈ itemParts read 0 items ↔ ∃ i a, step = .index i ∧ items[i]? = some a ∧ is = read a := by
  unfold itemParts
  constructor
  · intro h
    obtain ⟨⟨a, i⟩, hmem, heq⟩ := List.mem_map.mp h
    cases heq
    exact ⟨i, a, rfl, List.mem_zipIdx_iff_getElem?.mp hmem, rfl⟩
  · rintro ⟨i, a, rfl, hget, rfl⟩
    exact List.mem_map.mpr ⟨(a, i), List.mem_zipIdx_iff_getElem?.mpr hget, rfl⟩

theorem nodup_steps_itemParts {α : Type} (read : α → List Issue) (start : Nat) (items : List α) :
    ((itemParts read start items).map Prod.fst).Nodup := by
  have hsteps : (itemParts read start items).map Prod.fst =
      ((items.zipIdx start).map Prod.snd).map Step.index := by
    rw [itemParts, List.map_map, List.map_map]
    rfl
  rw [hsteps, List.zipIdx_map_snd]
  exact List.Nodup.map (fun _ _ => Step.index.inj) List.nodup_range'

/-! ## Members -/

namespace Data

theorem scalar_eq_null_iff {d : Data} : d.scalar = .null ↔ d = .null := by
  cases d <;> simp [scalar]

/-- What stands against the member under a key; where there is none, what its absence means. -/
def Members.issuesAt (absent : List Issue) (read : Data → List Issue) (key : String) (members : Members) :
    List Issue :=
  match members.get? key with
  | some v => read v
  | none => absent

theorem Members.mem_issuesAt_iff {absent : List Issue} {read : Data → List Issue} {key : String}
    {members : Members} {i : Issue} :
    i ∈ members.issuesAt absent read key ↔
      (∃ v, members.get? key = some v ∧ i ∈ read v) ∨ members.get? key = none ∧ i ∈ absent := by
  unfold issuesAt
  cases members.get? key <;> simp

theorem Members.issuesAt_congr {members others : Members} {key : String}
    (h : members.get? key = others.get? key) (absent : List Issue) (read : Data → List Issue) :
    members.issuesAt absent read key = others.issuesAt absent read key := by
  unfold issuesAt
  rw [h]

theorem Members.issuesAt_rel {members others : Members} {key : String} {alike : Data → Data → Prop}
    {read : Data → List Issue} (h : Option.Rel alike (members.get? key) (others.get? key))
    (hread : ∀ v w, alike v w → read v = read w) (absent : List Issue) :
    members.issuesAt absent read key = others.issuesAt absent read key := by
  unfold issuesAt
  generalize members.get? key = v, others.get? key = w at h
  cases h with
  | none => rfl
  | some h => exact hread _ _ h

theorem Members.nodup_places_issuesAt {absent : List Issue} {read : Data → List Issue} {key : String}
    {members : Members} (habsent : (absent.map Issue.place).Nodup)
    (hread : ∀ v, members.get? key = some v → ((read v).map Issue.place).Nodup) :
    ((members.issuesAt absent read key).map Issue.place).Nodup := by
  unfold issuesAt
  cases hget : members.get? key with
  | none => exact habsent
  | some v => exact hread v hget

theorem Members.issues_readOr {α : Type} (absent : Checked α) (is : List Issue) (read : Scalar → Checked α)
    (key : String) (members : Members) (habsent : absent.issues = is.map (Issue.below (.key key))) :
    (members.readOr absent read key).issues =
      (members.issuesAt is (fun v => (read v.scalar).issues) key).map (Issue.below (.key key)) := by
  unfold readOr issuesAt
  cases members.get? key with
  | none => exact habsent
  | some v => exact Checked.issues_under _ _

theorem Members.founded_readOr {α : Type} {absent : Checked α} {read : Scalar → Checked α}
    (habsent : absent.Founded) (hread : ∀ v : Data, (read v.scalar).Founded) (key : String)
    (members : Members) :
    (members.readOr absent read key).Founded := by
  unfold readOr
  cases members.get? key with
  | none => exact habsent
  | some v => exact (hread v).under _

theorem Members.sizeOf_lt_of_get? {members : Members} {key : String} {v : Data}
    (h : members.get? key = some v) : sizeOf v < sizeOf members := by
  have hmem : (key, v) ∈ members := by
    induction members with
    | nil => cases h
    | cons m rest ih =>
      obtain ⟨k, w⟩ := m
      rw [get?] at h
      split at h
      · cases h
        subst k
        exact List.mem_cons_self
      · exact List.mem_cons_of_mem _ (ih h)
  have hlt := List.sizeOf_lt_of_mem hmem
  simp only [Prod.mk.sizeOf_spec] at hlt
  omega

end Data

/-! ## Single values -/

namespace Data

/-- A text. -/
def IsText (d : Data) : Prop := ∃ s, d = .text s

/-- A text, or nothing. -/
def IsTextOrNull (d : Data) : Prop := d = .null ∨ d.IsText

def booleanWords : List String := ["0", "off", "f", "false", "n", "no", "1", "on", "t", "true", "y", "yes"]

/-- Spellings of a boolean: booleans, numbers that are zero or one, and some words in any case. -/
inductive SpellsBoolean : Data → Prop
  | bool (b : Bool) : SpellsBoolean (.bool b)
  | int {n : Int} (h : n = 0 ∨ n = 1) : SpellsBoolean (.int n)
  | double {x : Double} {n : Int} (hx : x.toInt? = some n) (h : n = 0 ∨ n = 1) : SpellsBoolean (.double x)
  | text {s : String} (h : s.toLower ∈ booleanWords) : SpellsBoolean (.text s)

/-- Values that are read for a spelling of a boolean: integers of 64 bits, doubles that are such an
integer (but for the least one), and texts. -/
inductive MaySpellBoolean : Data → Prop
  | int {n : Int} (low : -9223372036854775808 ≤ n) (high : n < 9223372036854775808) : MaySpellBoolean (.int n)
  | double {x : Double} {n : Int} (hx : x.toInt? = some n) (low : -9223372036854775808 < n)
      (high : n < 9223372036854775808) : MaySpellBoolean (.double x)
  | text (s : String) : MaySpellBoolean (.text s)

theorem spellsBoolean_int_iff {n : Int} : (Data.int n).SpellsBoolean ↔ n = 0 ∨ n = 1 := by
  constructor
  · rintro ⟨⟩
    assumption
  · exact .int

theorem spellsBoolean_double_iff {x : Double} :
    (Data.double x).SpellsBoolean ↔ ∃ n, x.toInt? = some n ∧ (n = 0 ∨ n = 1) := by
  constructor
  · rintro ⟨⟩
    exact ⟨_, ‹_›, ‹_›⟩
  · rintro ⟨n, hx, hn⟩
    exact .double hx hn

theorem maySpellBoolean_double_iff {x : Double} :
    (Data.double x).MaySpellBoolean ↔
      ∃ n, x.toInt? = some n ∧ -9223372036854775808 < n ∧ n < 9223372036854775808 := by
  constructor
  · rintro ⟨⟩
    exact ⟨_, ‹_›, ‹_›, ‹_›⟩
  · rintro ⟨n, hx, low, high⟩
    exact .double hx low high

/-- The fault of a value that spells no boolean. -/
inductive BooleanFault (d : Data) : Fault → Prop
  | noSpelling (h : ¬ d.SpellsBoolean) (may : d.MaySpellBoolean) : BooleanFault d .noBooleanSpelling
  | notBoolean (h : ¬ d.SpellsBoolean) (may : ¬ d.MaySpellBoolean) : BooleanFault d .notBoolean

theorem BooleanFault.not_spells {d : Data} {f : Fault} (h : d.BooleanFault f) : ¬ d.SpellsBoolean := by
  cases h <;> assumption

theorem exists_booleanFault {d : Data} (h : ¬ d.SpellsBoolean) : ∃ f, d.BooleanFault f := by
  by_cases hmay : d.MaySpellBoolean
  · exact ⟨_, .noSpelling h hmay⟩
  · exact ⟨_, .notBoolean h hmay⟩

theorem BooleanFault.unique {d : Data} {f g : Fault} (hf : d.BooleanFault f) (hg : d.BooleanFault g) : f = g := by
  cases hf <;> cases hg <;> first | rfl | contradiction

end Data

namespace Scalar

theorem fitsWord_iff {n : Int} :
    fitsWord n = true ↔ -9223372036854775808 ≤ n ∧ n < 9223372036854775808 := by
  have hpow : (Nat.pow 2 63 : Int) = 9223372036854775808 := rfl
  rw [fitsWord, hpow, Bool.and_eq_true, decide_eq_true_iff, decide_eq_true_iff]

theorem issues_asText (d : Data) (i : Issue) :
    i ∈ (asText d.scalar).issues ↔ ¬ d.IsText ∧ i = ⟨[], .notText⟩ := by
  cases d <;> simp [Data.scalar, asText, Data.IsText]

theorem issues_asTextOrNull (d : Data) (i : Issue) :
    i ∈ (asTextOrNull d.scalar).issues ↔ ¬ d.IsTextOrNull ∧ i = ⟨[], .notText⟩ := by
  cases d <;> simp [Data.scalar, asTextOrNull, asText, Data.IsTextOrNull, Data.IsText]

theorem single_asText (d : Data) : (asText d.scalar).Single := by
  cases d with
  | text s => exact Or.inl ⟨s, rfl⟩
  | _ => exact Or.inr ⟨.notText, rfl⟩

theorem single_asTextOrNull (d : Data) : (asTextOrNull d.scalar).Single := by
  cases d with
  | null => exact Or.inl ⟨none, rfl⟩
  | text s => exact Or.inl ⟨some s, rfl⟩
  | _ => exact Or.inr ⟨.notText, rfl⟩

end Scalar

theorem Data.Members.mem_issuesAt_asText {members : Members} {key : String} {absent : List Issue}
    {place : List Step} {f : Fault} :
    ⟨place, f⟩ ∈ members.issuesAt absent (fun v => (Scalar.asText v.scalar).issues) key ↔
      (∃ v, members.get? key = some v ∧ ¬ v.IsText ∧ place = [] ∧ f = .notText) ∨
        members.get? key = none ∧ ⟨place, f⟩ ∈ absent := by
  simp [mem_issuesAt_iff, Scalar.issues_asText]

theorem Data.Members.mem_issuesAt_asTextOrNull {members : Members} {key : String} {place : List Step}
    {f : Fault} :
    ⟨place, f⟩ ∈ members.issuesAt [] (fun v => (Scalar.asTextOrNull v.scalar).issues) key ↔
      ∃ v, members.get? key = some v ∧ ¬ v.IsTextOrNull ∧ place = [] ∧ f = .notText := by
  simp [mem_issuesAt_iff, Scalar.issues_asTextOrNull]

namespace Data.Members

theorem issues_text? (key : String) (members : Members) :
    (members.text? key).issues =
      (members.issuesAt [] (fun v => (Scalar.asTextOrNull v.scalar).issues) key).map
        (Issue.below (.key key)) :=
  members.issues_readOr _ [] _ key rfl

theorem founded_text? (key : String) (members : Members) : (members.text? key).Founded :=
  members.founded_readOr (Checked.founded_accepted none) (fun v => (Scalar.single_asTextOrNull v).founded) key

theorem nodup_places_text? (key : String) (members : Members) :
    ((members.issuesAt [] (fun v => (Scalar.asTextOrNull v.scalar).issues) key).map Issue.place).Nodup :=
  nodup_places_issuesAt List.nodup_nil fun v _ => (Scalar.single_asTextOrNull v).nodup_places

theorem nodup_places_text {absent : List Issue} (habsent : (absent.map Issue.place).Nodup) (key : String)
    (members : Members) :
    ((members.issuesAt absent (fun v => (Scalar.asText v.scalar).issues) key).map Issue.place).Nodup :=
  nodup_places_issuesAt habsent fun v _ => (Scalar.single_asText v).nodup_places

end Data.Members

/-! ## Booleans -/

namespace Scalar

theorem boolean?_cases (s : String) :
    s.toLower ∈ Data.booleanWords ∧ (∃ b, boolean? s = some b) ∨
      s.toLower ∉ Data.booleanWords ∧ boolean? s = none := by
  have hwords : Data.booleanWords =
      ["0", "off", "f", "false", "n", "no"] ++ ["1", "on", "t", "true", "y", "yes"] := rfl
  unfold boolean?
  simp only [List.contains_iff_mem, hwords, List.mem_append]
  by_cases hno : s.toLower ∈ ["0", "off", "f", "false", "n", "no"]
  · exact Or.inl ⟨Or.inl hno, false, if_pos hno⟩
  by_cases hyes : s.toLower ∈ ["1", "on", "t", "true", "y", "yes"]
  · exact Or.inl ⟨Or.inr hyes, true, by rw [if_neg hno, if_pos hyes]⟩
  · exact Or.inr ⟨not_or.mpr ⟨hno, hyes⟩, by rw [if_neg hno, if_neg hyes]⟩

theorem ofInt_cases (n : Int) :
    (n = 0 ∨ n = 1) ∧ (∃ b, ofInt n = .accepted b) ∨
      ¬ (n = 0 ∨ n = 1) ∧ ofInt n = .fault (if fitsWord n then .noBooleanSpelling else .notBoolean) := by
  unfold ofInt
  by_cases h0 : n = 0
  · exact Or.inl ⟨Or.inl h0, false, if_pos h0⟩
  by_cases h1 : n = 1
  · exact Or.inl ⟨Or.inr h1, true, by rw [if_neg h0, if_pos h1]⟩
  refine Or.inr ⟨not_or.mpr ⟨h0, h1⟩, ?_⟩
  rw [if_neg h0, if_neg h1]
  split <;> rfl

theorem asBoolean_cases (d : Data) :
    d.SpellsBoolean ∧ (∃ b, asBoolean d.scalar = .accepted b) ∨
      ∃ f, d.BooleanFault f ∧ asBoolean d.scalar = .fault f := by
  cases d with
  | null | list items | object members => exact Or.inr ⟨_, .notBoolean nofun nofun, rfl⟩
  | bool b => exact Or.inl ⟨.bool b, b, rfl⟩
  | int n =>
    rcases ofInt_cases n with ⟨hn, hread⟩ | ⟨hn, hread⟩
    · exact Or.inl ⟨.int hn, hread⟩
    have hspells : ¬ (Data.int n).SpellsBoolean := Data.spellsBoolean_int_iff.not.mpr hn
    refine Or.inr ⟨_, ?_, hread⟩
    split
    · rename_i hfits
      obtain ⟨low, high⟩ := fitsWord_iff.mp hfits
      exact .noSpelling hspells (.int low high)
    · rename_i hfits
      refine .notBoolean hspells ?_
      rintro ⟨low, high⟩
      exact hfits (fitsWord_iff.mpr ⟨low, high⟩)
  | double x =>
    have hspells := Data.spellsBoolean_double_iff (x := x)
    have hmay := Data.maySpellBoolean_double_iff (x := x)
    cases hx : x.toInt? with
    | none =>
      rw [hx] at hspells hmay
      refine Or.inr ⟨_, .notBoolean ?_ ?_, by simp only [Data.scalar, asBoolean, hx]⟩
      · simp [hspells]
      · simp [hmay]
    | some n =>
      simp only [hx, Option.some.injEq, exists_eq_left'] at hspells hmay
      have hread : asBoolean (Data.double x).scalar =
          if n = -9223372036854775808 then .fault .notBoolean else ofInt n := by
        simp only [Data.scalar, asBoolean, hx]
        rfl
      rw [hspells, hread]
      by_cases hleast : n = -9223372036854775808
      · refine Or.inr ⟨_, .notBoolean ?_ ?_, if_pos hleast⟩
        · rw [hspells]
          omega
        · rw [hmay]
          omega
      rw [if_neg hleast]
      rcases ofInt_cases n with ⟨hn, b, hof⟩ | ⟨hn, hof⟩
      · exact Or.inl ⟨hn, b, hof⟩
      refine Or.inr ⟨_, ?_, hof⟩
      split
      · rename_i hfits
        obtain ⟨low, high⟩ := fitsWord_iff.mp hfits
        exact .noSpelling (hspells.not.mpr hn) (hmay.mpr ⟨by omega, high⟩)
      · rename_i hfits
        refine .notBoolean (hspells.not.mpr hn) fun h => hfits ?_
        obtain ⟨low, high⟩ := hmay.mp h
        exact fitsWord_iff.mpr ⟨by omega, high⟩
  | text s =>
    rcases boolean?_cases s with ⟨hs, b, hread⟩ | ⟨hs, hread⟩
    · exact Or.inl ⟨.text hs, b, by simp [Data.scalar, asBoolean, ofSpelling, hread]⟩
    · refine Or.inr ⟨_, .noSpelling ?_ (.text s), by simp only [Data.scalar, asBoolean, ofSpelling, hread]⟩
      rintro ⟨⟩
      contradiction

theorem single_asBoolean (d : Data) : (asBoolean d.scalar).Single :=
  (asBoolean_cases d).imp And.right fun ⟨f, _, hread⟩ => ⟨f, hread⟩

theorem mem_issues_asBoolean (d : Data) (i : Issue) :
    i ∈ (asBoolean d.scalar).issues ↔ ∃ f, d.BooleanFault f ∧ i = ⟨[], f⟩ := by
  rcases asBoolean_cases d with ⟨hspells, b, hread⟩ | ⟨f, hf, hread⟩
  · rw [hread]
    refine iff_of_false (by simp) ?_
    rintro ⟨f, hf, -⟩
    exact hf.not_spells hspells
  · rw [hread, Checked.issues_fault, List.mem_singleton]
    constructor
    · intro hi
      exact ⟨f, hf, hi⟩
    · rintro ⟨g, hg, hi⟩
      rw [hi, hg.unique hf]

end Scalar

end Typings
