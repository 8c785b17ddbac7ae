import Typings.CommandLine
import Typings.Proofs.Acceptance

/-!
# What a command line can give

The words of a command line become texts and flags, so the render options that they give are always
accepted, whatever the project file says. With a command line, settings are missing, or they are
there; nothing else can go wrong but in the project file.
-/

namespace Typings

/-! ## Overrides from a command line -/

/-- The overrides that options can give: a text as the prefix, booleans for the rest. -/
structure Overrides.Typed (ov : Overrides) : Prop where
  namePrefix : ∀ v, ov.namePrefix = some v → ∃ s, v = .text s
  undefinedOnOptional : ∀ v, ov.undefinedOnOptional = some v → ∃ b, v = .bool b
  readonlyArrays : ∀ v, ov.readonlyArrays = some v → ∃ b, v = .bool b
  linkAliases : ∀ v, ov.linkAliases = some v → ∃ b, v = .bool b
  brandEntries : ∀ v, ov.brandEntries = some v → ∃ b, v = .bool b

namespace CommandLine

theorem Arguments.typed_empty : ({} : Arguments).overrides.Typed := ⟨nofun, nofun, nofun, nofun, nofun⟩

theorem Arguments.typed_give {a : Arguments} (h : a.overrides.Typed) (s : Switch) (v : String) :
    (a.give s v).overrides.Typed := by
  cases s with
  | namePrefix =>
    refine { h with namePrefix := fun w hw => ?_ }
    cases hw
    exact ⟨v, rfl⟩
  | _ => exact ⟨h.namePrefix, h.undefinedOnOptional, h.readonlyArrays, h.linkAliases, h.brandEntries⟩

theorem Arguments.typed_turn {a : Arguments} (h : a.overrides.Typed) (s : Switch) :
    (a.turn s).overrides.Typed := by
  cases s with
  | noUndefinedOptionals =>
    refine { h with undefinedOnOptional := fun w hw => ?_ }
    cases hw
    exact ⟨false, rfl⟩
  | readonlyArrays =>
    refine { h with readonlyArrays := fun w hw => ?_ }
    cases hw
    exact ⟨true, rfl⟩
  | noAliases =>
    refine { h with linkAliases := fun w hw => ?_ }
    cases hw
    exact ⟨false, rfl⟩
  | noBrand =>
    refine { h with brandEntries := fun w hw => ?_ }
    cases hw
    exact ⟨false, rfl⟩
  | _ => exact ⟨h.namePrefix, h.undefinedOnOptional, h.readonlyArrays, h.linkAliases, h.brandEntries⟩

theorem helpLetters_ne_run (letters : List Char) (a : Arguments) : helpLetters letters ≠ .ok (.run a) := by
  fun_induction helpLetters letters with
  | case1 => nofun
  | case2 rest ih => exact ih
  | case3 => nofun

theorem strayValue_ne_run (word : String) (s : Switch) (v : String) (a : Arguments) :
    strayValue word s v ≠ .ok (.run a) := by
  unfold strayValue
  split
  · nofun
  · nofun
  · exact helpLetters_ne_run _ a

theorem typed_of_takeEffect {a a' : Arguments} {extra : List String} {words : List (String × Word)}
    (h : takeEffect a extra words = .ok (.run a')) (ha : a.overrides.Typed) : a'.overrides.Typed := by
  fun_induction takeEffect a extra words with
  | case1 a extra hnone =>
    cases h
    exact ha
  | case2 => cases h
  | case3 => cases h
  | case4 a extra word s v rest htakes ih => exact ih h (Arguments.typed_give ha s v)
  | case5 a extra word s v => exact absurd h (strayValue_ne_run word s v a')
  | case6 a extra word s _ htakes v rest ih => exact ih h (Arguments.typed_give ha s v)
  | case7 => cases h
  | case8 a extra word s rest _ _ ih => exact ih h (Arguments.typed_turn ha s)
  | case9 a extra word rest _ _ _ _ ih => exact ih h ha

theorem typed_of_ofWords {words : List String} {a : Arguments} (h : Command.ofWords words = .ok (.run a)) :
    a.overrides.Typed := by
  rw [Command.ofWords] at h
  cases hclassify : classifyAll words with
  | error fault =>
    rw [hclassify] at h
    cases h
  | ok classified =>
    rw [hclassify] at h
    exact typed_of_takeEffect h Arguments.typed_empty

end CommandLine

/-! ## The options they give -/

namespace Settings

theorem firstGiven_text {override : Option Data} (h : ∀ v, override = some v → ∃ s, v = .text s)
    (project : Option String) (default : String) :
    ∃ s, firstGiven override (project.map .text) (.text default) = .text s := by
  cases override with
  | some v =>
    obtain ⟨s, rfl⟩ := h v rfl
    exact ⟨s, rfl⟩
  | none =>
    cases project with
    | some s => exact ⟨s, rfl⟩
    | none => exact ⟨default, rfl⟩

theorem firstGiven_bool {override : Option Data} (h : ∀ v, override = some v → ∃ b, v = .bool b)
    (project : Option Bool) (default : Bool) :
    ∃ b, firstGiven override (project.map .bool) (.bool default) = .bool b := by
  cases override with
  | some v =>
    obtain ⟨b, rfl⟩ := h v rfl
    exact ⟨b, rfl⟩
  | none =>
    cases project with
    | some b => exact ⟨b, rfl⟩
    | none => exact ⟨default, rfl⟩

theorem exists_options_of_typed {ov : Overrides} (h : ov.Typed) (project : ProjectFile) :
    ∃ options, RenderOptions.ofMembers (optionMembers ov project) = .accepted options := by
  obtain ⟨s, hs⟩ := firstGiven_text h.namePrefix project.namePrefix "I"
  obtain ⟨undefined, hundefined⟩ := firstGiven_bool h.undefinedOnOptional project.undefinedOptionals true
  obtain ⟨readonly, hreadonly⟩ := firstGiven_bool h.readonlyArrays project.readonlyArrays false
  obtain ⟨aliases, haliases⟩ := firstGiven_bool h.linkAliases project.aliases true
  obtain ⟨brand, hbrand⟩ := firstGiven_bool h.brandEntries project.brand true
  refine ⟨⟨s, undefined, readonly, aliases, brand⟩, ?_⟩
  rw [optionMembers]
  simp only [hs, hundefined, hreadonly, haliases, hbrand]
  rfl

theorem resolve_cases {ov : Overrides} (h : ov.Typed) (env : Environment) (project : ProjectFile) :
    (∃ s, resolve ov env project = .ok s) ∨ resolve ov env project = .error .missingInputs := by
  obtain ⟨options, hoptions⟩ := exists_options_of_typed h project
  unfold resolve
  simp only [hoptions]
  split
  · exact Or.inl ⟨_, rfl⟩
  · exact Or.inr rfl

end Settings

namespace CommandLine

theorem settings_cases [LoneSurrogates] {w : World} {env : Environment} {a : Arguments}
    (htyped : a.overrides.Typed) (hproject : ∀ crash, w.projectFile a.config ≠ .error (.crashed crash)) :
    (∃ s, w.settings env a = .ok s) ∨ ∃ message, w.settings env a = .error (.reported message) := by
  unfold World.settings
  cases hload : w.projectFile a.config with
  | error fault =>
    refine Or.inr ⟨fault.message, ?_⟩
    cases fault with
    | crashed crash => exact absurd hload (hproject crash)
    | _ => rfl
  | ok project =>
    rcases Settings.resolve_cases htyped env project with ⟨s, hs⟩ | hmissing
    · refine Or.inl ⟨s, ?_⟩
      simp only [Except.mapError, bind, Except.bind, hs]
    · refine Or.inr ⟨Settings.missingMessage, ?_⟩
      simp only [Except.mapError, bind, Except.bind, hmissing, SetupFault.ofSettings]

end CommandLine

end Typings
