import Mathlib.Data.List.Forall2
import Mathlib.Data.List.Nodup
import Typings.EnvFile

/-!
# What an environment file makes of secret variables

References in a file copy variables of the environment into other ones. Which variables hold anything
of a secret one after that can be told from the file; all others come out the same, whatever the
secret is.
-/

namespace Typings

/-- Two computations fail in the same way, or give values that are related. -/
inductive Concur {ε α β : Type} (R : α → β → Prop) : Except ε α → Except ε β → Prop
  | error (e : ε) : Concur R (.error e) (.error e)
  | ok {a : α} {b : β} (h : R a b) : Concur R (.ok a) (.ok b)

theorem Concur.bind {ε α β γ δ : Type} {R : α → β → Prop} {S : γ → δ → Prop} {x : Except ε α} {y : Except ε β}
    {f : α → Except ε γ} {g : β → Except ε δ} (h : Concur R x y)
    (hnext : ∀ a b, R a b → Concur S (f a) (g b)) : Concur S (x >>= f) (y >>= g) := by
  cases h with
  | error e => exact .error e
  | ok h => exact hnext _ _ h

theorem Concur.map {ε α β γ δ : Type} {R : α → β → Prop} {S : γ → δ → Prop} {x : Except ε α} {y : Except ε β}
    {f : α → γ} {g : β → δ} (h : Concur R x y) (hnext : ∀ a b, R a b → S (f a) (g b)) :
    Concur S (x.map f) (y.map g) := by
  cases h with
  | error e => exact .error e
  | ok h => exact .ok (hnext _ _ h)

theorem Concur.refl {ε α : Type} {R : α → α → Prop} (h : ∀ a, R a a) : ∀ x : Except ε α, Concur R x x
  | .error e => .error e
  | .ok a => .ok (h a)

theorem Concur.imp {ε α β : Type} {R S : α → β → Prop} {x : Except ε α} {y : Except ε β} (h : Concur R x y)
    (hnext : ∀ a b, R a b → S a b) : Concur S x y := by
  cases h with
  | error e => exact .error e
  | ok h => exact .ok (hnext _ _ h)

namespace EnvFile

/-! ## Secrets in a file -/

/-- What is known of a secret value: whether it can be a variable, and whether it is empty. -/
def trait (v : String) : Bool × Bool := (hasNull v, v == "")

def shape (value : Option String) : Option (Bool × Bool) := value.map trait

/-- Environments that have the same variables, with the same values but for the secret ones. -/
structure AgreeBut (secret : List String) (env env' : Environment) : Prop where
  shape : ∀ name, shape (env.get? name) = shape (env'.get? name)
  value : ∀ name ∉ secret, env.get? name = env'.get? name

variable {env env' : Environment} {secret : List String} {known known' : Variables}

theorem both_of_map_eq {α β : Type} {f : α → β} {x y : Option α} (h : x.map f = y.map f) :
    (x = none ∧ y = none) ∨ ∃ a b, x = some a ∧ y = some b ∧ f a = f b := by
  cases x with
  | none => exact Or.inl ⟨rfl, Option.map_eq_none_iff.mp h.symm⟩
  | some a =>
    cases y with
    | none => cases h
    | some b => exact Or.inr ⟨a, b, rfl, rfl, Option.some.inj h⟩

theorem AgreeBut.both (h : AgreeBut secret env env') (name : String) :
    (env.get? name = none ∧ env'.get? name = none) ∨
      ∃ v v', env.get? name = some v ∧ env'.get? name = some v' ∧ trait v = trait v' :=
  both_of_map_eq (h.shape name)

/-- Of names that are secret no more, the environment must know nothing. -/
theorem AgreeBut.change (h : AgreeBut secret env env') {secret' : List String}
    (hsecret : ∀ name ∈ secret, name ∉ secret' → env.get? name = none) : AgreeBut secret' env env' where
  shape := h.shape
  value name hname := by
    by_cases hbefore : name ∈ secret
    · have hnone := hsecret name hbefore hname
      rcases h.both name with ⟨-, hnone'⟩ | ⟨v, v', hset, -⟩
      · rw [hnone, hnone']
      · cases hnone.symm.trans hset
    · exact h.value name hbefore

/-! ## References -/

theorem get?_append (env : Environment) (key value name : String) :
    Environment.get? name (env ++ [(key, value)]) =
      (env.get? name).or (if name = key then some value else none) := by
  unfold Environment.get?
  rw [List.lookup_append]
  by_cases hname : name = key
  · simp [hname]
  · have hkey : (name == key) = false := by simpa using hname
    simp [hname, hkey, List.lookup_cons]

theorem AgreeBut.append (h : AgreeBut secret env env') {key v v' : String} (htrait : trait v = trait v')
    (hvalue : key ∉ secret → v = v') : AgreeBut secret (env ++ [(key, v)]) (env' ++ [(key, v')]) where
  shape name := by
    rw [get?_append, get?_append]
    rcases h.both name with ⟨hnone, hnone'⟩ | ⟨s, s', hset, hset', hsame⟩
    · rw [hnone, hnone']
      split
      · exact congrArg some htrait
      · rfl
    · rw [hset, hset']
      exact congrArg some hsame
  value name hname := by
    rw [get?_append, get?_append, h.value name hname]
    split
    · rename_i hkey
      rw [hvalue (hkey ▸ hname)]
    · rfl

end EnvFile

end Typings
