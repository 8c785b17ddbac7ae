import Mathlib
import Typings.CommandLine
import Typings.Proofs.CommandLine.Arguments
import Typings.Proofs.EnvFile.Disclosure

/-!
# Where the token goes

Of the token a run observes only that there is one. It is presented to the server in a header, and
nothing else that a run prints, asks for, starts or writes depends on it. There are two ways out of
this: an environment file may copy the token into an id, and headers that cannot be sent are quoted in
the complaint about them.
-/

namespace Typings

/-! ## Tokens -/

/-- The same token or none, or two tokens that are both given. -/
inductive SameOrGiven : Option String → Option String → Prop
  | same (v : Option String) : SameOrGiven v v
  | given {v v' : String} (h : v ≠ "") (h' : v' ≠ "") : SameOrGiven (some v) (some v')

/-- Environments that differ in the token at most: another value of it must be one that the system can
hand on, and not empty. -/
inductive Environment.TokenVaries (env : Environment) : Environment → Prop
  | same {env' : Environment} (h : ∀ name, env.get? name = env'.get? name) : TokenVaries env env'
  | given {env' : Environment} {v v' : String}
      (h : ∀ name ≠ Settings.tokenVariable, env.get? name = env'.get? name)
      (hv : env.get? Settings.tokenVariable = some v) (hv' : env'.get? Settings.tokenVariable = some v')
      (hgiven : v ≠ "" ∧ EnvFile.hasNull v = false) (hgiven' : v' ≠ "" ∧ EnvFile.hasNull v' = false) :
      TokenVaries env env'

def Settings.SameButToken (s s' : Settings) : Prop := s' = { s with managementToken := s'.managementToken }

namespace CommandLine

/-! ## Words -/

/-- Command lines that differ in values of the token option at most. -/
inductive TokenVaries : List String → List String → Prop
  | nil : TokenVaries [] []
  /-- Behind a separator there are no options. -/
  | separator (rest : List String) : TokenVaries ("--" :: rest) ("--" :: rest)
  | word {word : String} {rest rest' : List String} (hword : word ≠ "--") (hrest : TokenVaries rest rest') :
      TokenVaries (word :: rest) (word :: rest')
  | joined {word word' v v' : String} {rest rest' : List String}
      (hword : classify word = .ok (.switch .token (some v))) (hv : v ≠ "")
      (hword' : classify word' = .ok (.switch .token (some v'))) (hv' : v' ≠ "")
      (hrest : TokenVaries rest rest') : TokenVaries (word :: rest) (word' :: rest')
  | separate {word v v' : String} {rest rest' : List String} (hword : classify word = .ok (.switch .token none))
      (hvalue : classify v = .ok .value) (hv : v ≠ "") (hvalue' : classify v' = .ok .value) (hv' : v' ≠ "")
      (hrest : TokenVaries rest rest') : TokenVaries (word :: v :: rest) (word :: v' :: rest')

/-- Words that have been told apart and differ in values of the token option at most. -/
inductive TokenDiffers : List (String × Word) → List (String × Word) → Prop
  | nil : TokenDiffers [] []
  | word (e : String × Word) {rest rest' : List (String × Word)} (hrest : TokenDiffers rest rest') :
      TokenDiffers (e :: rest) (e :: rest')
  | joined (word word' : String) {v v' : String} {rest rest' : List (String × Word)} (hv : v ≠ "") (hv' : v' ≠ "")
      (hrest : TokenDiffers rest rest') :
      TokenDiffers ((word, .switch .token (some v)) :: rest) ((word', .switch .token (some v')) :: rest')
  | separate (word : String) {v v' : String} {rest rest' : List (String × Word)} (hv : v ≠ "") (hv' : v' ≠ "")
      (hrest : TokenDiffers rest rest') :
      TokenDiffers ((word, .switch .token none) :: (v, .value) :: rest)
        ((word, .switch .token none) :: (v', .value) :: rest')

theorem TokenDiffers.refl : ∀ words : List (String × Word), TokenDiffers words words
  | [] => .nil
  | e :: rest => .word e (refl rest)

def Arguments.SameButToken (a a' : Arguments) : Prop :=
  ∃ token, a' = { a with overrides := { a.overrides with managementToken := token } } ∧
    SameOrGiven a.overrides.managementToken token

inductive Command.SameButToken : Command → Command → Prop
  | help : SameButToken .help .help
  | run {a a' : Arguments} (h : a.SameButToken a') : SameButToken (.run a) (.run a')

variable {a a' : Arguments}

theorem Arguments.SameButToken.refl (a : Arguments) : a.SameButToken a := ⟨_, rfl, .same _⟩

theorem Command.SameButToken.refl : ∀ c : Command, c.SameButToken c
  | .help => .help
  | .run a => .run (.refl a)

theorem Arguments.SameButToken.give (h : a.SameButToken a') (s : Switch) (v : String) :
    (a.give s v).SameButToken (a'.give s v) := by
  obtain ⟨token, rfl, htoken⟩ := h
  cases s with
  | token => exact ⟨some v, rfl, .same _⟩
  | _ => exact ⟨token, rfl, htoken⟩

theorem Arguments.SameButToken.turn (h : a.SameButToken a') (s : Switch) : (a.turn s).SameButToken (a'.turn s) := by
  obtain ⟨token, rfl, htoken⟩ := h
  cases s <;> exact ⟨token, rfl, htoken⟩

variable {env env' : Environment} {secret : List String}

end CommandLine

/-- Sessions that present different tokens, and are the same otherwise. -/
structure Session.SameButToken (s s' : Session) : Prop where
  closed : s.closed = s'.closed
  headers : ∀ name ≠ "Authorization", s.headers.lookup name = s'.headers.lookup name

namespace CommandLine

variable {a a' : Arguments}

/-- Outcomes of which only the tokens of the sessions differ. -/
structure Outcome.SameButToken (o o' : Outcome) : Prop where
  status : o.status = o'.status
  output : o.output = o'.output
  complaints : o.complaints = o'.complaints
  requests : o.requests = o'.requests
  sessions : List.Forall₂ Session.SameButToken o.sessions o'.sessions
  calls : o.calls = o'.calls
  tree : o.tree = o'.tree
  left : o.left = o'.left

section

variable [LoneSurrogates] {env env' : Environment} {secret : List String}

/-- A run comes to settings if nothing stops it before. -/
structure Resolves (words : List String) (w : World) (a : Arguments) (s : Settings) : Prop where
  arguments : Command.ofWords words = .ok (.run a)
  settings : ∃ env, (EnvFile.load w.tree w.environment).environment = .ok env ∧ w.settings env a = .ok s

end

/-! ## Tokens that get out -/

theorem Resolves.unique [LoneSurrogates] {words : List String} {w : World} {s s' : Settings}
    (h : Resolves words w a s) (h' : Resolves words w a' s') : s = s' := by
  obtain ⟨harguments, env, henv, hset⟩ := h
  obtain ⟨harguments', env', henv', hset'⟩ := h'
  cases harguments.symm.trans harguments'
  cases henv.symm.trans henv'
  cases hset.symm.trans hset'
  rfl

end CommandLine

namespace CommandLine

/-- The words that give a token. -/
def given (token : String) : List String := ["--token", token]

end CommandLine

end Typings
