import Typings.Settings.ProjectFile
import Typings.Proofs.Acceptance
import Typings.Proofs.Text.Utf8

/-!
# The settings of a project file

A mapping is read as a project file if, and only if, each of its keys names a setting, no setting is
named twice, and every value fits the setting it stands for. What is read says of each setting what
the mapping says under its name, and nothing of the others.
-/

namespace Typings

/-! ## Settings and their keys -/

/-- What a run can be told. -/
inductive Setting where
  | space
  | environment
  | token
  | outFile
  | namePrefix
  | undefinedOnOptional
  | readonlyArrays
  | linkAliases
  | brandEntries
  | formatOutput
  deriving DecidableEq, Repr

namespace Setting

@[reducible] def Value : Setting → Type
  | .space | .environment | .token | .outFile | .namePrefix => String
  | .undefinedOnOptional | .readonlyArrays | .linkAliases | .brandEntries | .formatOutput => Bool

def all : List Setting :=
  [.space, .environment, .token, .outFile, .namePrefix, .undefinedOnOptional, .readonlyArrays,
    .linkAliases, .brandEntries, .formatOutput]

/-- The keys that a setting may have in a project file. The token has none. -/
def spellings : Setting → List String
  | .space => ["space"]
  | .environment => ["environment"]
  | .token => []
  | .outFile => ["out"]
  | .namePrefix => ["prefix"]
  | .undefinedOnOptional => ["undefined-optionals", "undefined_optionals"]
  | .readonlyArrays => ["readonly-arrays", "readonly_arrays"]
  | .linkAliases => ["aliases"]
  | .brandEntries => ["brand"]
  | .formatOutput => ["format"]

theorem mem_all (k : Setting) : k ∈ all := by
  cases k <;> decide

theorem eq_of_mem_spellings {j k : Setting} {key : String} (hj : key ∈ j.spellings)
    (hk : key ∈ k.spellings) : j = k := by
  have hall : ∀ j ∈ all, ∀ k ∈ all, ∀ key ∈ j.spellings, key ∈ k.spellings → j = k := by decide
  exact hall j (mem_all j) k (mem_all k) key hj hk

theorem spellings_cases (k : Setting) :
    k.spellings = [] ∨ (∃ key, k.spellings = [key]) ∨
      ∃ dashed plain, dashed ≠ plain ∧ k.spellings = [dashed, plain] := by
  cases k with
  | token => exact Or.inl rfl
  | undefinedOnOptional | readonlyArrays => exact Or.inr (Or.inr ⟨_, _, by decide, rfl⟩)
  | _ => exact Or.inr (Or.inl ⟨_, rfl⟩)

end Setting

/-! ## What values mean -/

namespace Scalar

def noWords : List String := ["0", "off", "f", "false", "n", "no"]

def yesWords : List String := ["1", "on", "t", "true", "y", "yes"]

/-- The value is a spelling of the boolean. -/
inductive Spells : Scalar → Bool → Prop
  | bool (b : Bool) : Spells (.bool b) b
  | zero : Spells (.int 0) false
  | one : Spells (.int 1) true
  | doubleZero {x : Double} (h : x.toInt? = some 0) : Spells (.double x) false
  | doubleOne {x : Double} (h : x.toInt? = some 1) : Spells (.double x) true
  | no {s : String} (h : s.toLower ∈ noWords) : Spells (.text s) false
  | yes {s : String} (h : s.toLower ∈ yesWords) : Spells (.text s) true
  | bytes {content : List UInt8} {s : String} {b : Bool} (hs : content = s.toUTF8.toList)
      (h : Spells (.text s) b) : Spells (.bytes content) b

theorem ofInt_eq_accepted_iff {n : Int} {b : Bool} :
    ofInt n = .accepted b ↔ n = 0 ∧ b = false ∨ n = 1 ∧ b = true := by
  unfold ofInt
  by_cases h0 : n = 0
  · simp [h0, eq_comm]
  by_cases h1 : n = 1
  · simp [h1, eq_comm]
  · rw [if_neg h0, if_neg h1]
    split <;> simp [Checked.fault, h0, h1]

theorem boolean?_eq_some_iff {s : String} {b : Bool} :
    boolean? s = some b ↔ s.toLower ∈ noWords ∧ b = false ∨ s.toLower ∈ yesWords ∧ b = true := by
  have hapart : ∀ word ∈ noWords, word ∉ yesWords := by decide
  have hread : boolean? s = if s.toLower ∈ noWords then some false else
      if s.toLower ∈ yesWords then some true else none := by
    unfold boolean? noWords yesWords
    simp only [List.contains_iff_mem]
  rw [hread]
  by_cases hno : s.toLower ∈ noWords
  · simp [hno, hapart _ hno, eq_comm]
  by_cases hyes : s.toLower ∈ yesWords
  · simp [hno, hyes, eq_comm]
  · simp [hno, hyes]

theorem ofSpelling_eq_accepted_iff {s : String} {b : Bool} :
    ofSpelling s = .accepted b ↔ (Scalar.text s).Spells b := by
  unfold ofSpelling
  constructor
  · intro h
    split at h
    · rename_i c hc
      cases h
      rcases boolean?_eq_some_iff.mp hc with ⟨hs, rfl⟩ | ⟨hs, rfl⟩
      · exact .no hs
      · exact .yes hs
    · cases h
  · intro h
    cases h with
    | no h => simp only [boolean?_eq_some_iff.mpr (Or.inl ⟨h, rfl⟩)]
    | yes h => simp only [boolean?_eq_some_iff.mpr (Or.inr ⟨h, rfl⟩)]

theorem decodeFrom_of_eq_toUTF8 {content : List UInt8} {s : String} (h : content = s.toUTF8.toList) :
    Text.Utf8.decodeFrom 0 content = .ok s.toList :=
  Text.Utf8.decodeFrom_eq_ok_iff.mpr (h.trans (Text.toList_toUTF8 s))

theorem eq_toUTF8_of_decodeFrom {content : List UInt8} {cs : List Char}
    (h : Text.Utf8.decodeFrom 0 content = .ok cs) : content = (String.ofList cs).toUTF8.toList := by
  rw [Text.Utf8.decodeFrom_eq_ok_iff.mp h, Text.toList_toUTF8, String.toList_ofList]

theorem asBoolean_eq_accepted_iff {v : Scalar} {b : Bool} : v.asBoolean = .accepted b ↔ v.Spells b := by
  constructor
  · intro h
    cases v with
    | null | composite => cases h
    | bool _ =>
      cases h
      exact .bool b
    | int n =>
      rcases ofInt_eq_accepted_iff.mp h with ⟨rfl, rfl⟩ | ⟨rfl, rfl⟩
      · exact .zero
      · exact .one
    | double x =>
      simp only [asBoolean] at h
      split at h
      · rename_i n hn
        split at h
        · cases h
        · rcases ofInt_eq_accepted_iff.mp h with ⟨rfl, rfl⟩ | ⟨rfl, rfl⟩
          · exact .doubleZero hn
          · exact .doubleOne hn
      · cases h
    | text s => exact ofSpelling_eq_accepted_iff.mp h
    | bytes content =>
      simp only [asBoolean] at h
      split at h
      · rename_i cs hcs
        exact .bytes (eq_toUTF8_of_decodeFrom hcs) (ofSpelling_eq_accepted_iff.mp h)
      · cases h
  · intro h
    cases h with
    | bool | zero | one => rfl
    | doubleZero h | doubleOne h =>
      simp only [asBoolean, h]
      rfl
    | no h => exact ofSpelling_eq_accepted_iff.mpr (.no h)
    | yes h => exact ofSpelling_eq_accepted_iff.mpr (.yes h)
    | bytes hs h =>
      simp only [asBoolean, decodeFrom_of_eq_toUTF8 hs, String.ofList_toList]
      exact ofSpelling_eq_accepted_iff.mpr h

/-- A text stands for itself, bytes for the text that they are, and null for nothing. -/
inductive MeansText : Scalar → Option String → Prop
  | null : MeansText .null none
  | text (s : String) : MeansText (.text s) (some s)
  | bytes {content : List UInt8} {s : String} (hs : content = s.toUTF8.toList) : MeansText (.bytes content) (some s)

inductive MeansFlag : Scalar → Option Bool → Prop
  | null : MeansFlag .null none
  | spelled {v : Scalar} {b : Bool} (h : v.Spells b) : MeansFlag v (some b)

theorem asTextOrNull_eq_accepted_iff {v : Scalar} {o : Option String} :
    v.asTextOrNull = .accepted o ↔ v.MeansText o := by
  constructor
  · intro h
    cases v with
    | null =>
      cases h
      exact .null
    | text s =>
      cases h
      exact .text s
    | bytes content =>
      simp only [asTextOrNull, asText] at h
      split at h
      · rename_i cs hcs
        cases h
        exact .bytes (eq_toUTF8_of_decodeFrom hcs)
      · cases h
    | _ => cases h
  · intro h
    cases h with
    | null | text => rfl
    | bytes hs =>
      simp only [asTextOrNull, asText, decodeFrom_of_eq_toUTF8 hs, String.ofList_toList]
      rfl

theorem asBooleanOrNull_eq_accepted_iff {v : Scalar} {o : Option Bool} :
    v.asBooleanOrNull = .accepted o ↔ v.MeansFlag o := by
  have hsome (hne : v ≠ .null) : v.asBooleanOrNull = some <$> v.asBoolean := by
    cases v with
    | null => exact absurd rfl hne
    | _ => rfl
  constructor
  · intro h
    by_cases hnull : v = .null
    · subst hnull
      cases h
      exact .null
    · rw [hsome hnull, Checked.map_eq_accepted_iff] at h
      obtain ⟨b, hb, rfl⟩ := h
      exact .spelled (asBoolean_eq_accepted_iff.mp hb)
  · rintro (_ | ⟨h⟩)
    · rfl
    · rw [hsome (by rintro rfl; cases h), asBoolean_eq_accepted_iff.mpr h]
      rfl

end Scalar

namespace Setting

/-- What a value in a project file says about a setting; null says nothing. -/
def Means : (k : Setting) → Scalar → Option k.Value → Prop
  | .space | .environment | .token | .outFile | .namePrefix => Scalar.MeansText
  | .undefinedOnOptional | .readonlyArrays | .linkAliases | .brandEntries | .formatOutput => Scalar.MeansFlag

def read : (k : Setting) → Scalar → Checked (Option k.Value)
  | .space | .environment | .token | .outFile | .namePrefix => Scalar.asTextOrNull
  | .undefinedOnOptional | .readonlyArrays | .linkAliases | .brandEntries | .formatOutput =>
    Scalar.asBooleanOrNull

theorem read_eq_accepted_iff {k : Setting} {v : Scalar} {o : Option k.Value} :
    k.read v = .accepted o ↔ k.Means v o := by
  cases k with
  | space | environment | token | outFile | namePrefix => exact Scalar.asTextOrNull_eq_accepted_iff
  | _ => exact Scalar.asBooleanOrNull_eq_accepted_iff

theorem Means.unique {k : Setting} {v : Scalar} {o o' : Option k.Value} (h : k.Means v o) (h' : k.Means v o') :
    o' = o := by
  rw [← read_eq_accepted_iff] at h h'
  exact Checked.accepted.inj (h'.symm.trans h)

end Setting

namespace ProjectFile

def given (p : ProjectFile) : (k : Setting) → Option k.Value
  | .space => p.space
  | .environment => p.environment
  | .token => none
  | .outFile => p.out
  | .namePrefix => p.namePrefix
  | .undefinedOnOptional => p.undefinedOptionals
  | .readonlyArrays => p.readonlyArrays
  | .linkAliases => p.aliases
  | .brandEntries => p.brand
  | .formatOutput => p.format

/-! ## Reading a mapping -/

namespace Entries

/-- The keys that are looked up for a setting. -/
def lookedUp (entries : Entries) (k : Setting) : List String :=
  match k.spellings with
  | [dashed, plain] => [entries.spelling dashed plain]
  | keys => keys

theorem readKeys_eq (entries : Entries) : entries.readKeys = Setting.all.flatMap entries.lookedUp := rfl

end Entries

end ProjectFile

theorem Checked.withIssues_eq_accepted_iff {α : Type} {issues : List Issue} {c : Checked α} {a : α} :
    c.withIssues issues = .accepted a ↔ issues = [] ∧ c = .accepted a := by
  cases issues with
  | nil => simp [withIssues]
  | cons i rest => cases c <;> simp [withIssues]

namespace ProjectFile

variable {entries : Entries} {p : ProjectFile}

theorem ofEntries_eq_accepted_iff :
    ofEntries entries = .accepted p ↔
      (∀ e ∈ entries, entries.strayKey? e.1 = none) ∧
        ∀ k : Setting, ∀ key ∈ entries.lookedUp k, entries.readUnder k.read key = .accepted (p.given k) := by
  unfold ofEntries
  rw [Checked.withIssues_eq_accepted_iff, List.filterMap_eq_nil_iff]
  simp only [Checked.seq_eq_accepted_iff, Checked.map_eq_accepted_iff]
  apply and_congr_right
  intro _
  constructor
  · rintro ⟨-, ⟨-, ⟨-, ⟨-, ⟨-, ⟨-, ⟨-, ⟨-, ⟨space, hspace, rfl⟩, environment, henvironment, rfl⟩, out, hout, rfl⟩,
      pre, hpre, rfl⟩, undefined, hundefined, rfl⟩, readonly, hreadonly, rfl⟩, aliases, haliases, rfl⟩,
      brand, hbrand, rfl⟩, format, hformat, rfl⟩ k key hkey
    cases k with
    | token => cases hkey
    | _ =>
      cases List.mem_singleton.mp hkey
      assumption
  · intro h
    have hread (k : Setting) (key : String) (hkey : entries.lookedUp k = [key]) :
        entries.readUnder k.read key = .accepted (p.given k) := h k key (hkey ▸ List.mem_singleton_self key)
    exact ⟨_, ⟨_, ⟨_, ⟨_, ⟨_, ⟨_, ⟨_, ⟨_, ⟨_, hread .space _ rfl, rfl⟩, _, hread .environment _ rfl, rfl⟩,
      _, hread .outFile _ rfl, rfl⟩, _, hread .namePrefix _ rfl, rfl⟩, _, hread .undefinedOnOptional _ rfl, rfl⟩,
      _, hread .readonlyArrays _ rfl, rfl⟩, _, hread .linkAliases _ rfl, rfl⟩, _, hread .brandEntries _ rfl, rfl⟩,
      _, hread .formatOutput _ rfl, rfl⟩

/-! ## Keys of a mapping -/

namespace Entries

/-- The keys of the mapping that are texts are different texts. -/
def IsMapping (entries : Entries) : Prop :=
  entries.Pairwise fun e other => ∀ key, e.1 = .name key → other.1 ≠ .name key

/-- Every key names a setting, and no setting is named twice. -/
structure Named (entries : Entries) : Prop where
  known : ∀ key ∈ entries.map Prod.fst, ∃ k : Setting, ∃ name ∈ k.spellings, key = .name name
  once : ∀ k : Setting, ∀ a ∈ k.spellings, ∀ b ∈ k.spellings,
    .name a ∈ entries.map Prod.fst → .name b ∈ entries.map Prod.fst → a = b

def Gives (entries : Entries) (k : Setting) (v : Scalar) : Prop :=
  ∃ key ∈ k.spellings, entries.get? key = some v

theorem get?_cons (e : SettingKey × Scalar) (entries : Entries) (key : String) :
    get? key (e :: entries) = if e.1 = .name key then some e.2 else entries.get? key := by
  unfold get?
  rw [List.find?_cons]
  by_cases h : e.1 = .name key <;> simp [h]

theorem mem_keys_iff {key : String} :
    .name key ∈ entries.map Prod.fst ↔ ∃ v, entries.get? key = some v := by
  induction entries with
  | nil => simp [get?]
  | cons e rest ih =>
    rw [List.map_cons, List.mem_cons, ih, get?_cons]
    by_cases h : e.1 = .name key
    · simp [h]
    · simp [h, Ne.symm h]

theorem IsMapping.get?_eq_some_iff (h : entries.IsMapping) {key : String} {v : Scalar} :
    entries.get? key = some v ↔ (.name key, v) ∈ entries := by
  induction entries with
  | nil => simp [get?]
  | cons e rest ih =>
    obtain ⟨hfirst, hrest⟩ := List.pairwise_cons.mp h
    rw [get?_cons, List.mem_cons]
    by_cases hkey : e.1 = .name key
    · have hnot : (.name key, v) ∉ rest := fun hmem => hfirst _ hmem key hkey rfl
      simp [hkey, hnot, Prod.ext_iff, eq_comm]
    · have hne : (.name key, v) ≠ e := by
        rintro rfl
        exact hkey rfl
      simp [hkey, hne, ih hrest]

theorem strayKey?_eq_none_iff {key : SettingKey} :
    entries.strayKey? key = none ↔ ∃ name k, key = .name name ∧ name ∈ entries.lookedUp k := by
  cases key with
  | other report => simp [strayKey?]
  | name key =>
    have hread : entries.readKeys.contains key = true ↔ ∃ k, key ∈ entries.lookedUp k := by
      simp [readKeys_eq, Setting.mem_all]
    simp [strayKey?, -List.contains_eq_mem, hread]

theorem lookedUp_subset {k : Setting} {key : String} (h : key ∈ entries.lookedUp k) : key ∈ k.spellings := by
  unfold lookedUp at h
  rcases k.spellings_cases with hk | ⟨a, hk⟩ | ⟨dashed, plain, -, hk⟩
  · simp [hk] at h
  · simpa [hk] using h
  · simp only [hk, spelling, List.mem_singleton] at h
    rw [hk, h]
    split <;> simp

theorem lookedUp_cases (entries : Entries) (k : Setting) :
    k = .token ∧ entries.lookedUp k = [] ∨ ∃ key, entries.lookedUp k = [key] := by
  cases k with
  | token => exact Or.inl ⟨rfl, rfl⟩
  | _ => exact Or.inr ⟨_, rfl⟩

theorem eq_of_lookedUp {k : Setting} {a b : String} (ha : a ∈ entries.lookedUp k) (hb : b ∈ entries.lookedUp k) :
    a = b := by
  rcases entries.lookedUp_cases k with ⟨-, hk⟩ | ⟨key, hk⟩
  · simp [hk] at ha
  · rw [hk, List.mem_singleton] at ha hb
    rw [ha, hb]

theorem mem_lookedUp {k : Setting} {key : String} (hkey : key ∈ k.spellings)
    (hthere : .name key ∈ entries.map Prod.fst)
    (honly : ∀ other ∈ k.spellings, .name other ∈ entries.map Prod.fst → other = key) :
    key ∈ entries.lookedUp k := by
  unfold lookedUp
  rcases k.spellings_cases with hk | ⟨a, hk⟩ | ⟨dashed, plain, -, hk⟩
  · simp [hk] at hkey
  · simpa [hk] using hkey
  · rw [hk] at hkey honly
    simp only [hk, spelling, List.mem_singleton]
    -- The dashed spelling is tried first, and the plain one only where it is absent.
    cases hdashed : entries.get? dashed with
    | some v =>
      have hmem := mem_keys_iff.mpr ⟨v, hdashed⟩
      simpa using (honly dashed (by simp) hmem).symm
    | none =>
      have hne : key ≠ dashed := by
        rintro rfl
        obtain ⟨v, hv⟩ := mem_keys_iff.mp hthere
        simp [hdashed] at hv
      simpa [hne] using hkey

theorem noStrays_iff : (∀ e ∈ entries, entries.strayKey? e.1 = none) ↔ entries.Named := by
  simp only [strayKey?_eq_none_iff]
  constructor
  · intro h
    have hlooked (k : Setting) (key : String) (hkey : key ∈ k.spellings)
        (hthere : .name key ∈ entries.map Prod.fst) : key ∈ entries.lookedUp k := by
      obtain ⟨e, he, heq⟩ := List.mem_map.mp hthere
      obtain ⟨name, j, hname, hj⟩ := h e he
      cases hname.symm.trans heq
      cases Setting.eq_of_mem_spellings (lookedUp_subset hj) hkey
      exact hj
    refine ⟨?_, ?_⟩
    · intro key hkey
      obtain ⟨e, he, rfl⟩ := List.mem_map.mp hkey
      obtain ⟨name, k, hname, hk⟩ := h e he
      exact ⟨k, name, lookedUp_subset hk, hname⟩
    · intro k a ha b hb hathere hbthere
      exact eq_of_lookedUp (hlooked k a ha hathere) (hlooked k b hb hbthere)
  · intro h e he
    have hkey := List.mem_map_of_mem (f := Prod.fst) he
    obtain ⟨k, name, hname, heq⟩ := h.known e.1 hkey
    rw [heq] at hkey
    exact ⟨name, k, heq, mem_lookedUp hname hkey fun other hother hthere =>
      h.once k other hother name hname hthere hkey⟩

theorem Named.gives_iff (h : entries.Named) {k : Setting} {key : String} (hkey : key ∈ entries.lookedUp k)
    (v : Scalar) : entries.Gives k v ↔ entries.get? key = some v := by
  constructor
  · rintro ⟨other, hother, hv⟩
    have hthere := mem_keys_iff.mpr ⟨v, hv⟩
    have hlooked := mem_lookedUp hother hthere fun a ha hathere => h.once k a ha other hother hathere hthere
    rwa [eq_of_lookedUp hlooked hkey] at hv
  · intro hv
    exact ⟨key, lookedUp_subset hkey, hv⟩

def Reads (entries : Entries) (k : Setting) (o : Option k.Value) : Prop :=
  (∀ v, entries.Gives k v → k.Means v o) ∧ ((∀ v, ¬ entries.Gives k v) → o = none)

theorem readUnder_eq_accepted_iff {α : Type} {read : Scalar → Checked (Option α)} {key : String} {o : Option α} :
    entries.readUnder read key = .accepted o ↔
      (∀ v, entries.get? key = some v → read v = .accepted o) ∧ (entries.get? key = none → o = none) := by
  unfold readUnder
  cases entries.get? key with
  | none => simp [eq_comm]
  | some v => simp [Checked.under_eq_accepted_iff]

theorem Named.reads_iff (h : entries.Named) {k : Setting} {key : String} (hkey : key ∈ entries.lookedUp k)
    (o : Option k.Value) : entries.readUnder k.read key = .accepted o ↔ entries.Reads k o := by
  have hnone : entries.get? key = none ↔ ∀ v, ¬ entries.Gives k v := by
    simp only [h.gives_iff hkey, Option.eq_none_iff_forall_ne_some, ne_eq]
  unfold Reads
  rw [readUnder_eq_accepted_iff, hnone]
  simp only [h.gives_iff hkey, Setting.read_eq_accepted_iff]

theorem not_gives_token (v : Scalar) : ¬ entries.Gives .token v := by
  rintro ⟨key, hkey, -⟩
  cases hkey

end Entries

theorem accepted_iff : ofEntries entries = .accepted p ↔ entries.Named ∧ ∀ k, entries.Reads k (p.given k) := by
  rw [ofEntries_eq_accepted_iff, Entries.noStrays_iff]
  apply and_congr_right
  intro hnamed
  apply forall_congr'
  intro k
  rcases entries.lookedUp_cases k with ⟨rfl, hk⟩ | ⟨key, hk⟩
  · simp [hk, Entries.Reads, Entries.not_gives_token, given]
  · have hkey : key ∈ entries.lookedUp k := hk ▸ List.mem_singleton_self key
    simp [hk, hnamed.reads_iff hkey]

theorem Entries.Named.gives_unique (h : entries.Named) {k : Setting} {v w : Scalar} (hv : entries.Gives k v)
    (hw : entries.Gives k w) : v = w := by
  rcases entries.lookedUp_cases k with ⟨rfl, -⟩ | ⟨key, hk⟩
  · exact absurd hv (Entries.not_gives_token v)
  · have hkey : key ∈ entries.lookedUp k := hk ▸ List.mem_singleton_self key
    rw [h.gives_iff hkey] at hv hw
    exact Option.some.inj (hv.symm.trans hw)

theorem Entries.Named.exists_reads (h : entries.Named) {k : Setting}
    (hfits : ∀ v, entries.Gives k v → ∃ o, k.Means v o) : ∃ o, entries.Reads k o := by
  by_cases hgives : ∃ v, entries.Gives k v
  · obtain ⟨v, hv⟩ := hgives
    obtain ⟨o, ho⟩ := hfits v hv
    refine ⟨o, fun w hw => ?_, fun hnone => absurd hv (hnone v)⟩
    rwa [h.gives_unique hw hv]
  · exact ⟨none, fun v hv => absurd ⟨v, hv⟩ hgives, fun _ => rfl⟩

theorem exists_given (f : (k : Setting) → Option k.Value) (hf : f .token = none) :
    ∃ p : ProjectFile, ∀ k, p.given k = f k := by
  refine ⟨⟨f .space, f .environment, f .outFile, f .namePrefix, f .undefinedOnOptional, f .readonlyArrays,
    f .linkAliases, f .brandEntries, f .formatOutput⟩, fun k => ?_⟩
  cases k with
  | token => exact hf.symm
  | _ => rfl

theorem exists_accepted_iff :
    (∃ p, ofEntries entries = .accepted p) ↔
      entries.Named ∧ ∀ k v, entries.Gives k v → ∃ o : Option k.Value, k.Means v o := by
  constructor
  · rintro ⟨p, hp⟩
    obtain ⟨hnamed, hreads⟩ := accepted_iff.mp hp
    exact ⟨hnamed, fun k v hv => ⟨_, (hreads k).1 v hv⟩⟩
  · rintro ⟨hnamed, hfits⟩
    -- The project file is put together from what each setting is read as.
    choose f hf using fun k => hnamed.exists_reads (hfits k)
    have htoken : f .token = none := (hf .token).2 Entries.not_gives_token
    obtain ⟨p, hp⟩ := exists_given f htoken
    refine ⟨p, accepted_iff.mpr ⟨hnamed, fun k => ?_⟩⟩
    rw [hp k]
    exact hf k

theorem exists_rejected_of_not (h : ¬ ∃ p, ofEntries entries = .accepted p) :
    ∃ issues, ofEntries entries = .rejected issues := by
  cases hread : ofEntries entries with
  | accepted p => exact absurd ⟨p, hread⟩ h
  | rejected issues => exact ⟨issues, rfl⟩

/-! ## Another spelling -/

namespace Entries

/-- The mapping with one key written as another. -/
def rename (a b : String) (entries : Entries) : Entries :=
  entries.map fun e => (if e.1 = .name a then .name b else e.1, e.2)

theorem rename_self (a : String) : entries.rename a a = entries := by
  unfold rename
  apply List.map_id''
  intro e
  split
  · rename_i h
    exact Prod.ext h.symm rfl
  · rfl

theorem rename_of_absent {a : String} (b : String) (h : .name a ∉ entries.map Prod.fst) :
    entries.rename a b = entries := by
  have hkept : ∀ e ∈ entries, (if e.1 = .name a then SettingKey.name b else e.1, e.2) = id e := by
    intro e he
    have hne : e.1 ≠ .name a := fun heq => h (heq ▸ List.mem_map_of_mem he)
    simp [hne]
  unfold rename
  rw [List.map_congr_left hkept, List.map_id]

theorem get?_rename {a b : String} (hne : a ≠ b) (hb : entries.get? b = none) (key : String) :
    (entries.rename a b).get? key =
      if key = b then entries.get? a else if key = a then none else entries.get? key := by
  induction entries with
  | nil => simp [rename, get?]
  | cons e rest ih =>
    have hcons : rename a b (e :: rest) =
        (if e.1 = .name a then .name b else e.1, e.2) :: rename a b rest := rfl
    have hfirst : e.1 ≠ .name b := by
      intro h
      simp [get?_cons, h] at hb
    rw [get?_cons, if_neg hfirst] at hb
    rw [hcons, get?_cons, get?_cons, get?_cons, ih hb]
    by_cases ha : e.1 = .name a
    · by_cases hkb : key = b
      · simp [ha, hkb]
      · by_cases hka : key = a
        · simp [ha, hka, hne, Ne.symm hne]
        · simp [ha, hkb, hka, Ne.symm hka, Ne.symm hkb]
    · by_cases hkb : key = b
      · simp [ha, hkb, hfirst]
      · by_cases hka : key = a
        · simp [hka, ha, hne]
        · simp [ha, hkb, hka]

variable {k : Setting} {a b : String}

theorem Named.rename (h : entries.Named) (ha : a ∈ k.spellings) (hb : b ∈ k.spellings)
    (hthere : .name a ∈ entries.map Prod.fst)
    (hkeys : ∀ key, .name key ∈ (entries.rename a b).map Prod.fst ↔
      key = b ∨ key ≠ a ∧ .name key ∈ entries.map Prod.fst) : (entries.rename a b).Named := by
  constructor
  · intro key hkey
    obtain ⟨e', he', rfl⟩ := List.mem_map.mp hkey
    obtain ⟨e, he, rfl⟩ := List.mem_map.mp he'
    by_cases hea : e.1 = .name a
    · exact ⟨k, b, hb, if_pos hea⟩
    · simpa [hea] using h.known e.1 (List.mem_map_of_mem he)
  · intro j x hx y hy hxthere hythere
    -- Of the renamed setting only the new key is there; the others keep the keys they had.
    have honly {key : String} (hkey : key ∈ j.spellings) (hj : j = k)
        (hin : .name key ∈ (entries.rename a b).map Prod.fst) : key = b := by
      rcases (hkeys key).mp hin with hb | ⟨hnot, hin⟩
      · exact hb
      · exact absurd (h.once k key (hj ▸ hkey) a ha hin hthere) hnot
    have hkept {key : String} (hkey : key ∈ j.spellings) (hj : j ≠ k)
        (hin : .name key ∈ (entries.rename a b).map Prod.fst) : .name key ∈ entries.map Prod.fst := by
      rcases (hkeys key).mp hin with rfl | ⟨-, hin⟩
      · exact absurd (Setting.eq_of_mem_spellings hkey hb) hj
      · exact hin
    by_cases hj : j = k
    · rw [honly hx hj hxthere, honly hy hj hythere]
    · exact h.once j x hx y hy (hkept hx hj hxthere) (hkept hy hj hythere)

theorem gives_rename (ha : a ∈ k.spellings) (hb : b ∈ k.spellings) (hfree : entries.get? b = none)
    (hget : ∀ key, (entries.rename a b).get? key =
      if key = b then entries.get? a else if key = a then none else entries.get? key)
    (j : Setting) (v : Scalar) : (entries.rename a b).Gives j v ↔ entries.Gives j v := by
  unfold Gives
  simp only [hget]
  constructor
  · rintro ⟨key, hkey, hv⟩
    split at hv
    · rename_i hkb
      cases Setting.eq_of_mem_spellings hkey (hkb ▸ hb)
      exact ⟨a, ha, hv⟩
    · split at hv
      · cases hv
      · exact ⟨key, hkey, hv⟩
  · rintro ⟨key, hkey, hv⟩
    by_cases hka : key = a
    · cases Setting.eq_of_mem_spellings hkey (hka ▸ ha)
      exact ⟨b, hb, by simpa [hka] using hv⟩
    · have hkb : key ≠ b := by
        rintro rfl
        simp [hfree] at hv
      exact ⟨key, hkey, by simpa [hka, hkb] using hv⟩

end Entries

theorem ofEntries_rename {k : Setting} {a b : String} (ha : a ∈ k.spellings) (hb : b ∈ k.spellings)
    (hp : ofEntries entries = .accepted p) : ofEntries (entries.rename a b) = .accepted p := by
  obtain ⟨hnamed, hreads⟩ := accepted_iff.mp hp
  by_cases hne : a = b
  · rwa [hne, Entries.rename_self]
  by_cases hthere : .name a ∈ entries.map Prod.fst
  · have hfree : .name b ∉ entries.map Prod.fst := fun h => hne (hnamed.once k a ha b hb hthere h)
    have hnone : entries.get? b = none := by
      apply Option.eq_none_iff_forall_ne_some.mpr
      intro v hv
      exact hfree (Entries.mem_keys_iff.mpr ⟨v, hv⟩)
    have hget := Entries.get?_rename hne hnone
    have hkeys (key : String) : .name key ∈ (entries.rename a b).map Prod.fst ↔
        key = b ∨ key ≠ a ∧ .name key ∈ entries.map Prod.fst := by
      rw [Entries.mem_keys_iff, Entries.mem_keys_iff, hget]
      by_cases hkb : key = b
      · simpa [hkb] using Entries.mem_keys_iff.mp hthere
      · by_cases hka : key = a
        · simp [hka, hne]
        · simp [hkb, hka]
    refine accepted_iff.mpr ⟨hnamed.rename ha hb hthere hkeys, fun j => ?_⟩
    unfold Entries.Reads
    simp only [Entries.gives_rename ha hb hnone hget]
    exact hreads j
  · rwa [Entries.rename_of_absent b hthere]

/-! ## Acceptance -/

/-- A mapping is a project file if, and only if, each key names a setting, no setting is named twice,
and every value fits. Then each key decides one setting, the settings without a key are not given,
and the spelling of a key makes no difference. Any other key, a second spelling and a token are
refused. -/
theorem ofEntries_settings (entries : Entries) (hentries : entries.IsMapping) :
    ((∃ p, ofEntries entries = .accepted p) ↔
      entries.Named ∧ ∀ (k : Setting) (key : String) (v : Scalar), key ∈ k.spellings →
        (.name key, v) ∈ entries → ∃ o : Option k.Value, k.Means v o) ∧
    (∀ p, ofEntries entries = .accepted p →
      (∀ e ∈ entries, ∃ k : Setting, ∃ key ∈ k.spellings, e.1 = .name key ∧
        (∀ o, k.Means e.2 o ↔ o = p.given k) ∧ ∀ j : Setting, key ∈ j.spellings → j = k) ∧
      (∀ k : Setting, (∀ key ∈ k.spellings, .name key ∉ entries.map Prod.fst) → p.given k = none) ∧
      ∀ k : Setting, ∀ a ∈ k.spellings, ∀ b ∈ k.spellings, ofEntries (entries.rename a b) = .accepted p) ∧
    (∀ key ∈ entries.map Prod.fst, (∀ k : Setting, ∀ name ∈ k.spellings, key ≠ .name name) →
      ∃ issues, ofEntries entries = .rejected issues) ∧
    (∀ k : Setting, ∀ a ∈ k.spellings, ∀ b ∈ k.spellings, a ≠ b → .name a ∈ entries.map Prod.fst →
      .name b ∈ entries.map Prod.fst → ∃ issues, ofEntries entries = .rejected issues) ∧
    (.name "token" ∈ entries.map Prod.fst → ∃ issues, ofEntries entries = .rejected issues) := by
  have hget {key : String} {v : Scalar} : entries.get? key = some v ↔ (.name key, v) ∈ entries :=
    hentries.get?_eq_some_iff
  have hunknown : ∀ key ∈ entries.map Prod.fst, (∀ k : Setting, ∀ name ∈ k.spellings, key ≠ .name name) →
      ∃ issues, ofEntries entries = .rejected issues := by
    intro key hkey hnone
    apply exists_rejected_of_not
    rintro ⟨p, hp⟩
    obtain ⟨k, name, hname, heq⟩ := (accepted_iff.mp hp).1.known key hkey
    exact hnone k name hname heq
  refine ⟨?_, ?_, hunknown, ?_, ?_⟩
  · rw [exists_accepted_iff]
    apply and_congr_right
    intro _
    simp only [Entries.Gives, hget]
    exact ⟨fun h k key v hkey hv => h k v ⟨key, hkey, hv⟩, fun h k v ⟨key, hkey, hv⟩ => h k key v hkey hv⟩
  · intro p hp
    obtain ⟨hnamed, hreads⟩ := accepted_iff.mp hp
    refine ⟨?_, ?_, fun k a ha b hb => ofEntries_rename ha hb hp⟩
    · intro e he
      obtain ⟨k, key, hkey, heq⟩ := hnamed.known e.1 (List.mem_map_of_mem he)
      have hmeans : k.Means e.2 (p.given k) := (hreads k).1 e.2 ⟨key, hkey, hget.mpr (heq ▸ he)⟩
      refine ⟨k, key, hkey, heq, fun o => ?_, fun j hj => Setting.eq_of_mem_spellings hj hkey⟩
      constructor
      · intro ho
        exact hmeans.unique ho
      · rintro rfl
        exact hmeans
    · intro k hnone
      apply (hreads k).2
      rintro v ⟨key, hkey, hv⟩
      exact hnone key hkey (Entries.mem_keys_iff.mpr ⟨v, hv⟩)
  · intro k a ha b hb hne hathere hbthere
    apply exists_rejected_of_not
    rintro ⟨p, hp⟩
    exact hne ((accepted_iff.mp hp).1.once k a ha b hb hathere hbthere)
  · intro htoken
    refine hunknown _ htoken fun k name hname heq => ?_
    cases heq
    have hall : ∀ k ∈ Setting.all, "token" ∉ k.spellings := by decide
    exact hall k k.mem_all hname

def dashed : Entries := [
  (.name "space", .null), (.name "undefined-optionals", .text "No"), (.name "out", .text "a.d.ts"),
  (.name "brand", .int 1)]

theorem ofEntries_dashed :
    ofEntries dashed =
      .accepted { out := some "a.d.ts", undefinedOptionals := some false, brand := some true } := by
  have hlower : "No".toLower = "no" := by decide +kernel
  have hno : (Scalar.text "No").asBooleanOrNull = .accepted (some false) :=
    Scalar.asBooleanOrNull_eq_accepted_iff.mpr (.spelled (.no (by rw [hlower]; decide)))
  refine ofEntries_eq_accepted_iff.mpr ⟨by decide, fun k key hkey => ?_⟩
  cases k with
  | token => cases hkey
  | undefinedOnOptional =>
    cases List.mem_singleton.mp hkey
    exact Checked.under_eq_accepted_iff.mpr hno
  | _ =>
    cases List.mem_singleton.mp hkey
    rfl

theorem ofEntries_settings_dashed :
    dashed.IsMapping ∧ Entries.IsMapping (dashed ++ [(.name "undefined_optionals", .null)]) ∧
      ofEntries (dashed.rename "undefined-optionals" "undefined_optionals") =
        .accepted { out := some "a.d.ts", undefinedOptionals := some false, brand := some true } ∧
      ∃ issues, ofEntries (dashed ++ [(.name "undefined_optionals", .null)]) = .rejected issues := by
  have hmapping : dashed.IsMapping := by simp [dashed, Entries.IsMapping]
  have htwice : Entries.IsMapping (dashed ++ [(.name "undefined_optionals", .null)]) := by
    simp [dashed, Entries.IsMapping]
  have hread := ofEntries_dashed
  obtain ⟨-, haccepted, -⟩ := ofEntries_settings dashed hmapping
  obtain ⟨-, -, -, hrejected, -⟩ := ofEntries_settings _ htwice
  refine ⟨hmapping, htwice, (haccepted _ hread).2.2 .undefinedOnOptional _ (by decide) _ (by decide), ?_⟩
  exact hrejected .undefinedOnOptional "undefined-optionals" (by decide) "undefined_optionals" (by decide)
    (by decide) (by simp [dashed]) (by simp)

/-- A mapping whose space is given by the bytes of `hello`. -/
def inBytes : Entries := [(.name "space", .bytes [0x68, 0x65, 0x6c, 0x6c, 0x6f])]

theorem ofEntries_inBytes : ofEntries inBytes = .accepted { space := some "hello" } := by rfl

/-- So a setting that is a text need not be given as one, or as null. -/
theorem not_forall_text_or_null :
    ¬ ∀ entries : Entries, entries.IsMapping → (∃ p, ofEntries entries = .accepted p) →
      ∀ key ∈ ["space", "environment", "out", "prefix"], ∀ v, (.name key, v) ∈ entries →
        v = .null ∨ ∃ s, v = .text s := by
  intro h
  have hmapping : inBytes.IsMapping := by simp [inBytes, Entries.IsMapping]
  obtain hnull | ⟨s, htext⟩ := h inBytes hmapping ⟨_, ofEntries_inBytes⟩ "space" (by simp) _ List.mem_cons_self
  · cases hnull
  · cases htext

end ProjectFile

end Typings
