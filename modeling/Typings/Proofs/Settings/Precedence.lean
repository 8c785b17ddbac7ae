import Typings.Proofs.CommandLine.Arguments
import Typings.Proofs.Settings.ProjectKeys

/-!
# Which source decides a setting

A setting comes from the first source that gives it: the flag, the variable of the environment, the
project file, the default. Space, environment and token are given by a text that is not empty, all
others by any value. A run has settings unless one of these three is given by no source.
-/

namespace Typings

/-! ## Sources -/

inductive Source where
  | flag
  | environment
  | project
  | default
  deriving DecidableEq, Repr

namespace Source

/-- A lower rank goes before a higher one. -/
def rank : Source → Nat
  | .flag => 0
  | .environment => 1
  | .project => 2
  | .default => 3

def order : List Source := [.flag, .environment, .project, .default]

theorem mem_order (s : Source) : s ∈ order := by
  cases s <;> decide

theorem order_sorted : order.Pairwise fun s t => s.rank < t.rank := by decide

end Source

namespace Setting

def variableName : Setting → Option String
  | .space => some "CF_SPACE_ID"
  | .environment => some "CF_ENV"
  | .token => some "CF_MANAGER_TOKEN"
  | _ => none

theorem eq_of_variableName {j k : Setting} {name : String} (hj : j.variableName = some name)
    (hk : k.variableName = some name) : j = k := by
  have hall : ∀ j ∈ all, ∀ k ∈ all, j.variableName.isSome → j.variableName = k.variableName → j = k := by decide
  exact hall j (mem_all j) k (mem_all k) (by simp [hj]) (hj.trans hk.symm)

def default : (k : Setting) → Option k.Value
  | .space | .environment | .token => none
  | .outFile => some "types/contentful.d.ts"
  | .namePrefix => some "I"
  | .undefinedOnOptional => some true
  | .readonlyArrays => some false
  | .linkAliases => some true
  | .brandEntries => some true
  | .formatOutput => some true

/-- Whether a value gives a setting: an empty text is no space, environment or token. -/
def counts : (k : Setting) → k.Value → Bool
  | .space, (s : String) => s != ""
  | .environment, (s : String) => s != ""
  | .token, (s : String) => s != ""
  | _, _ => true

@[reducible] def Kept : Setting → Type
  | .space | .environment | .token | .namePrefix => String
  | .outFile => Path
  | .undefinedOnOptional | .readonlyArrays | .linkAliases | .brandEntries => Bool
  | .formatOutput => Data

def keep : (k : Setting) → k.Value → k.Kept
  | .space, s => s
  | .environment, s => s
  | .token, s => s
  | .outFile, s => Path.ofText s
  | .namePrefix, s => s
  | .undefinedOnOptional, b => b
  | .readonlyArrays, b => b
  | .linkAliases, b => b
  | .brandEntries, b => b
  | .formatOutput, b => .bool b

end Setting

def Settings.get (s : Settings) : (k : Setting) → k.Kept
  | .space => s.spaceId
  | .environment => s.environmentId
  | .token => s.managementToken
  | .outFile => s.outFile
  | .namePrefix => s.renderOptions.namePrefix
  | .undefinedOnOptional => s.renderOptions.undefinedOnOptional
  | .readonlyArrays => s.renderOptions.readonlyArrays
  | .linkAliases => s.renderOptions.linkAliases
  | .brandEntries => s.renderOptions.brandEntries
  | .formatOutput => s.formatOutput

/-! ## What a run is told -/

/-- Flags of the right type: each gives a value of its setting, or is absent. -/
abbrev Flags := (k : Setting) → Option k.Value

def Flags.overrides (f : Flags) : Overrides where
  spaceId := f .space
  environmentId := f .environment
  managementToken := f .token
  outFile := f .outFile
  namePrefix := (f .namePrefix).map .text
  undefinedOnOptional := (f .undefinedOnOptional).map .bool
  readonlyArrays := (f .readonlyArrays).map .bool
  linkAliases := (f .linkAliases).map .bool
  brandEntries := (f .brandEntries).map .bool
  formatOutput := (f .formatOutput).map .bool

theorem exists_map_eq {α : Type} {mk : α → Data} {given : Option Data} (h : ∀ v, given = some v → ∃ a, v = mk a) :
    ∃ o : Option α, o.map mk = given := by
  cases given with
  | none => exact ⟨none, rfl⟩
  | some v =>
    obtain ⟨a, rfl⟩ := h v rfl
    exact ⟨some a, rfl⟩

theorem exists_flags {ov : Overrides} (h : ov.Typed) (hformat : ∀ v, ov.formatOutput = some v → ∃ b, v = .bool b) :
    ∃ f : Flags, f.overrides = ov := by
  obtain ⟨namePrefix, hprefix⟩ := exists_map_eq h.namePrefix
  obtain ⟨undefined, hundefined⟩ := exists_map_eq h.undefinedOnOptional
  obtain ⟨readonly, hreadonly⟩ := exists_map_eq h.readonlyArrays
  obtain ⟨aliases, haliases⟩ := exists_map_eq h.linkAliases
  obtain ⟨brand, hbrand⟩ := exists_map_eq h.brandEntries
  obtain ⟨format, hformat⟩ := exists_map_eq hformat
  let f : Flags
    | .space => ov.spaceId
    | .environment => ov.environmentId
    | .token => ov.managementToken
    | .outFile => ov.outFile
    | .namePrefix => namePrefix
    | .undefinedOnOptional => undefined
    | .readonlyArrays => readonly
    | .linkAliases => aliases
    | .brandEntries => brand
    | .formatOutput => format
  refine ⟨f, ?_⟩
  simp only [Flags.overrides, f, hprefix, hundefined, hreadonly, haliases, hbrand, hformat]

/-- All sources of one run; there may be no project file. -/
structure Inputs where
  flags : Flags
  environment : Environment
  project : Option ProjectFile

namespace Inputs

def projectFile (i : Inputs) : ProjectFile := i.project.getD {}

def resolve (i : Inputs) : Except SettingsFault Settings :=
  Settings.resolve i.flags.overrides i.environment i.projectFile

def inEnvironment (i : Inputs) : (k : Setting) → Option k.Value
  | .space => i.environment.get? "CF_SPACE_ID"
  | .environment => i.environment.get? "CF_ENV"
  | .token => i.environment.get? "CF_MANAGER_TOKEN"
  | _ => none

def given (i : Inputs) (k : Setting) : Source → Option k.Value
  | .flag => i.flags k
  | .environment => i.inEnvironment k
  | .project => i.projectFile.given k
  | .default => k.default

def Gives (i : Inputs) (k : Setting) (source : Source) (v : k.Value) : Prop :=
  i.given k source = some v ∧ k.counts v = true

/-- The source gives the value, and no source before it gives one. -/
def Decides (i : Inputs) (k : Setting) (source : Source) (v : k.Value) : Prop :=
  i.Gives k source v ∧ ∀ higher, higher.rank < source.rank → ∀ w, ¬ i.Gives k higher w

def Lacks (i : Inputs) (k : Setting) : Prop := ∀ source v, ¬ i.Gives k source v

/-- One of the settings that a run cannot do without is given by no source. -/
def Incomplete (i : Inputs) : Prop := ∃ k ∈ [Setting.space, .environment, .token], i.Lacks k

/-! ## The first source that gives a setting -/

variable {i : Inputs} {k : Setting} {source : Source} {v : k.Value}

def first? (i : Inputs) (k : Setting) : Option k.Value :=
  Source.order.findSome? fun source => (i.given k source).filter k.counts

theorem filter_eq_some_iff : (i.given k source).filter k.counts = some v ↔ i.Gives k source v :=
  Option.filter_eq_some_iff

theorem filter_eq_none_iff : (i.given k source).filter k.counts = none ↔ ∀ w, ¬ i.Gives k source w := by
  rw [Option.eq_none_iff_forall_ne_some]
  simp only [ne_eq, filter_eq_some_iff]

theorem first?_eq_some_iff : i.first? k = some v ↔ ∃ source, i.Decides k source v := by
  unfold first?
  rw [List.findSome?_eq_some_iff]
  constructor
  · rintro ⟨before, source, after, horder, hv, hbefore⟩
    refine ⟨source, filter_eq_some_iff.mp hv, ?_⟩
    intro higher hrank w hw
    have hmem := Source.mem_order higher
    have hsorted := Source.order_sorted
    rw [horder] at hmem hsorted
    rcases List.mem_append.mp hmem with hmem | hmem
    · exact filter_eq_none_iff.mp (hbefore higher hmem) w hw
    · have hrest := (List.pairwise_append.mp hsorted).2.1
      rcases List.mem_cons.mp hmem with rfl | hmem
      · exact absurd hrank (Nat.lt_irrefl _)
      · have hlower := List.rel_of_pairwise_cons hrest hmem
        omega
  · rintro ⟨source, hv, hhigher⟩
    obtain ⟨before, after, horder⟩ := List.append_of_mem (Source.mem_order source)
    refine ⟨before, source, after, horder, filter_eq_some_iff.mpr hv, ?_⟩
    intro higher hmem
    have hsorted := Source.order_sorted
    rw [horder] at hsorted
    have hrank := (List.pairwise_append.mp hsorted).2.2 higher hmem source List.mem_cons_self
    exact filter_eq_none_iff.mpr (hhigher higher hrank)

theorem first?_eq_none_iff : i.first? k = none ↔ i.Lacks k := by
  unfold first? Lacks
  simp only [List.findSome?_eq_none_iff, filter_eq_none_iff]
  exact ⟨fun h source => h source (Source.mem_order source), fun h source _ => h source⟩

def orDefault (i : Inputs) (k : Setting) (d : k.Value) : k.Value :=
  ((i.flags k).orElse fun _ => i.projectFile.given k).getD d

theorem first?_of_default {d : k.Value} (hd : k.default = some d) (hcounts : ∀ w, k.counts w = true)
    (hvariable : i.inEnvironment k = none) : i.first? k = some (i.orDefault k d) := by
  have hfilter (w : k.Value) : (some w).filter k.counts = some w := by simp [Option.filter, hcounts]
  unfold orDefault
  simp only [first?, Source.order, List.findSome?_cons, given, hvariable, hd]
  cases i.flags k <;> cases i.projectFile.given k <;> simp [hfilter]

theorem Decides.of_given {other : Inputs} (h : i.Decides k source v)
    (hgiven : ∀ s : Source, s.rank ≤ source.rank → other.given k s = i.given k s) : other.Decides k source v := by
  obtain ⟨⟨hv, hcounts⟩, hhigher⟩ := h
  refine ⟨⟨(hgiven source (Nat.le_refl _)).trans hv, hcounts⟩, ?_⟩
  rintro higher hrank w ⟨hw, hwcounts⟩
  rw [hgiven higher (Nat.le_of_lt hrank)] at hw
  exact hhigher higher hrank w ⟨hw, hwcounts⟩

theorem Decides.unique {other : Source} {w : k.Value} (h : i.Decides k source v) (h' : i.Decides k other w) :
    v = w := by
  have hv := first?_eq_some_iff.mpr ⟨source, h⟩
  have hw := first?_eq_some_iff.mpr ⟨other, h'⟩
  exact Option.some.inj (hv.symm.trans hw)

/-! ## Resolving -/

theorem firstGiven_map {α : Type} (mk : α → Data) (flag project : Option α) (d : α) :
    Settings.firstGiven (flag.map mk) (project.map mk) (mk d) =
      mk ((flag.orElse fun _ => project).getD d) := by
  cases flag <;> cases project <;> rfl

theorem ofMembers_optionMembers (i : Inputs) :
    RenderOptions.ofMembers (Settings.optionMembers i.flags.overrides i.projectFile) =
      .accepted {
        namePrefix := i.orDefault .namePrefix "I"
        undefinedOnOptional := i.orDefault .undefinedOnOptional true
        readonlyArrays := i.orDefault .readonlyArrays false
        linkAliases := i.orDefault .linkAliases true
        brandEntries := i.orDefault .brandEntries true } := by
  have hprefix := firstGiven_map .text (i.flags .namePrefix) i.projectFile.namePrefix "I"
  have hundefined := firstGiven_map .bool (i.flags .undefinedOnOptional) i.projectFile.undefinedOptionals true
  have hreadonly := firstGiven_map .bool (i.flags .readonlyArrays) i.projectFile.readonlyArrays false
  have haliases := firstGiven_map .bool (i.flags .linkAliases) i.projectFile.aliases true
  have hbrand := firstGiven_map .bool (i.flags .brandEntries) i.projectFile.brand true
  simp only [Settings.optionMembers, Flags.overrides, hprefix, hundefined, hreadonly, haliases, hbrand]
  rfl

theorem resolves_or_lacks (i : Inputs) :
    (∃ s, i.resolve = .ok s ∧ ∀ k, ∃ v, i.first? k = some v ∧ s.get k = k.keep v) ∨
      i.Incomplete ∧ i.resolve = .error .missingInputs := by
  have hspace : Settings.firstNonEmpty? [i.flags.overrides.spaceId, i.environment.get? Settings.spaceVariable,
      i.projectFile.space] = i.first? .space := rfl
  have henvironment : Settings.firstNonEmpty? [i.flags.overrides.environmentId,
      i.environment.get? Settings.environmentVariable, i.projectFile.environment] = i.first? .environment := rfl
  have htoken : Settings.firstNonEmpty? [i.flags.overrides.managementToken,
      i.environment.get? Settings.tokenVariable] = i.first? .token := rfl
  unfold resolve Settings.resolve
  simp only [hspace, henvironment, htoken, ofMembers_optionMembers]
  cases hs : i.first? .space with
  | none => exact Or.inr ⟨⟨.space, by simp, first?_eq_none_iff.mp hs⟩, rfl⟩
  | some space =>
  cases he : i.first? .environment with
  | none => exact Or.inr ⟨⟨.environment, by simp, first?_eq_none_iff.mp he⟩, rfl⟩
  | some environment =>
  cases ht : i.first? .token with
  | none => exact Or.inr ⟨⟨.token, by simp, first?_eq_none_iff.mp ht⟩, rfl⟩
  | some token =>
    left
    refine ⟨_, rfl, fun k => ?_⟩
    cases k with
    | space => exact ⟨space, hs, rfl⟩
    | environment => exact ⟨environment, he, rfl⟩
    | token => exact ⟨token, ht, rfl⟩
    | formatOutput => exact ⟨_, first?_of_default rfl (fun _ => rfl) rfl, firstGiven_map .bool _ _ true⟩
    | _ => exact ⟨_, first?_of_default rfl (fun _ => rfl) rfl, rfl⟩

theorem not_incomplete (h : ∀ k, ∃ v, i.first? k = some v) : ¬ i.Incomplete := by
  rintro ⟨k, -, hlacks⟩
  obtain ⟨v, hv⟩ := h k
  rw [first?_eq_none_iff.mpr hlacks] at hv
  cases hv

theorem decides_of_resolve {s : Settings} (h : i.resolve = .ok s) (k : Setting) :
    ∃ source v, i.Decides k source v ∧ s.get k = k.keep v := by
  rcases i.resolves_or_lacks with ⟨s', hs', hkept⟩ | ⟨-, herror⟩
  · cases h.symm.trans hs'
    obtain ⟨v, hv, hget⟩ := hkept k
    obtain ⟨source, hdecides⟩ := first?_eq_some_iff.mp hv
    exact ⟨source, v, hdecides, hget⟩
  · cases h.symm.trans herror

/-! ## Changing a source -/

/-- The inputs are the same but for one source of a setting. -/
inductive DifferAt (k : Setting) : Source → Inputs → Inputs → Prop
  | flag {i : Inputs} {flags : Flags} (h : ∀ j, j ≠ k → flags j = i.flags j) :
      DifferAt k .flag i { i with flags }
  | environment {i : Inputs} {environment : Environment} {name : String} (hname : k.variableName = some name)
      (h : ∀ other, other ≠ name → environment.get? other = i.environment.get? other) :
      DifferAt k .environment i { i with environment }
  | project {i : Inputs} {project : Option ProjectFile}
      (h : ∀ j, j ≠ k → (project.getD {}).given j = i.projectFile.given j) :
      DifferAt k .project i { i with project }

theorem inEnvironment_congr {other : Inputs} {j : Setting}
    (h : ∀ name, j.variableName = some name → other.environment.get? name = i.environment.get? name) :
    other.inEnvironment j = i.inEnvironment j := by
  cases j with
  | space | environment | token => exact h _ rfl
  | _ => rfl

theorem DifferAt.given_eq {other : Inputs} (h : DifferAt k source i other) :
    (∀ j, j ≠ k → ∀ s, other.given j s = i.given j s) ∧ ∀ s, s ≠ source → other.given k s = i.given k s := by
  cases h with
  | flag h =>
    constructor
    · intro j hj s
      cases s with
      | flag => exact h j hj
      | _ => rfl
    · intro s hs
      cases s with
      | flag => exact absurd rfl hs
      | _ => rfl
  | environment hname h =>
    constructor
    · intro j hj s
      cases s with
      | environment =>
        apply inEnvironment_congr
        intro name' hname'
        apply h
        rintro rfl
        exact hj (Setting.eq_of_variableName hname' hname)
      | _ => rfl
    · intro s hs
      cases s with
      | environment => exact absurd rfl hs
      | _ => rfl
  | project h =>
    constructor
    · intro j hj s
      cases s with
      | project => exact h j hj
      | _ => rfl
    · intro s hs
      cases s with
      | project => exact absurd rfl hs
      | _ => rfl

/-- There are settings unless one of the three that a run needs is lacking, and each setting is kept
from the first source that gives it. So a source changes no setting but its own, and that one only
if no source before it gives it. All overrides of the right types are flags. -/
theorem resolve_precedence (i : Inputs) :
    (∀ ov : Overrides, ov.Typed → (∀ v, ov.formatOutput = some v → ∃ b, v = .bool b) →
      ∃ f : Flags, f.overrides = ov) ∧
    (i.resolve = .error .missingInputs ↔ i.Incomplete) ∧
    (¬ i.Incomplete → ∃ s, i.resolve = .ok s ∧ ∀ k, ∃ source v, i.Decides k source v ∧ s.get k = k.keep v) ∧
    ∀ k source other s s', DifferAt k source i other → i.resolve = .ok s → other.resolve = .ok s' →
      (∀ j, j ≠ k → s'.get j = s.get j) ∧
      (s'.get k ≠ s.get k → ∀ higher, higher.rank < source.rank → ∀ v, ¬ i.Gives k higher v) := by
  refine ⟨fun ov => exists_flags, ?_, ?_, ?_⟩
  · rcases i.resolves_or_lacks with ⟨s, hs, hkept⟩ | ⟨hlacks, herror⟩
    · have hcomplete := not_incomplete fun k => (hkept k).imp fun v hv => hv.1
      simp [hs, hcomplete]
    · exact iff_of_true herror hlacks
  · intro hcomplete
    rcases i.resolves_or_lacks with ⟨s, hs, -⟩ | ⟨hlacks, -⟩
    · exact ⟨s, hs, decides_of_resolve hs⟩
    · exact absurd hlacks hcomplete
  · intro k source other s s' hdiffer hs hs'
    obtain ⟨hothers, hown⟩ := hdiffer.given_eq
    constructor
    · intro j hj
      obtain ⟨first, v, hv, hget⟩ := decides_of_resolve hs j
      obtain ⟨first', v', hv', hget'⟩ := decides_of_resolve hs' j
      rw [hget, hget', (hv.of_given fun s _ => hothers j hj s).unique hv']
    · intro hchanged higher hrank w hw
      obtain ⟨first, v, hv, hget⟩ := decides_of_resolve hs k
      obtain ⟨first', v', hv', hget'⟩ := decides_of_resolve hs' k
      -- The source that decides is not after the one that gives it, so the change is behind it.
      have hfirst : first.rank ≤ higher.rank := by
        by_contra hlater
        exact hv.2 higher (by omega) w hw
      have hsame := hv.of_given fun s hs => hown s (by rintro rfl; omega)
      exact hchanged (by rw [hget, hget', hsame.unique hv'])

/-- A run whose space, environment and prefix come from three sources, and whose flag goes before the
project file. -/
def staging : Inputs where
  flags
    | .space => some ""
    | .brandEntries => some false
    | _ => none
  environment := [("CF_SPACE_ID", "staged"), ("CF_ENV", ""), ("CF_MANAGER_TOKEN", "secret")]
  project := some { environment := some "master", namePrefix := some "", brand := some true }

theorem resolve_precedence_staging :
    ∃ s, staging.resolve = .ok s ∧ s.spaceId = "staged" ∧ s.environmentId = "master" ∧
      s.renderOptions.namePrefix = "" ∧ s.renderOptions.brandEntries = false ∧
      ∀ project s', DifferAt .brandEntries .project staging { staging with project } →
        Inputs.resolve { staging with project } = .ok s' → ∀ k, s'.get k = s.get k := by
  obtain ⟨-, -, hcomplete, hframe⟩ := resolve_precedence staging
  have hfirst (k : Setting) : ∃ v, staging.first? k = some v := by
    cases k <;> exact ⟨_, rfl⟩
  obtain ⟨s, hs, hkept⟩ := hcomplete (not_incomplete hfirst)
  have hget {k : Setting} {v : k.Value} (hv : staging.first? k = some v) : s.get k = k.keep v := by
    obtain ⟨source, w, hw, hget⟩ := hkept k
    obtain ⟨other, hdecides⟩ := first?_eq_some_iff.mp hv
    rw [hget, hw.unique hdecides]
  have hbrand : s.renderOptions.brandEntries = false := hget (k := .brandEntries) rfl
  refine ⟨s, hs, hget (k := .space) rfl, hget (k := .environment) rfl, hget (k := .namePrefix) rfl, hbrand, ?_⟩
  intro project s' hdiffer hs' k
  obtain ⟨hothers, hown⟩ := hframe .brandEntries .project _ s s' hdiffer hs hs'
  by_cases hk : k = .brandEntries
  · subst hk
    by_contra hchanged
    exact hown hchanged .flag (by decide) false ⟨rfl, rfl⟩
  · exact hothers k hk

end Inputs

end Typings
