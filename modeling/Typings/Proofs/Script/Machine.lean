/-!
# Machines with output

A machine reads one item after the other. It may refuse an item, and each step may complete some
output.
-/

namespace Typings.Script

variable {σ α β : Type}

/-- A state, and the output that was completed on the way to it. -/
abbrev Reached (σ β : Type) := σ × List β

/-- The output goes before that of a later step. -/
def Reached.after (out : List β) (r : Reached σ β) : Reached σ β := (r.1, out ++ r.2)

@[simp] theorem Reached.after_nil : (Reached.after [] : Reached σ β → Reached σ β) = id := rfl

@[simp] theorem Reached.after_after (out more : List β) (r : Reached σ β) :
    (r.after more).after out = r.after (out ++ more) := by simp [Reached.after]

theorem Reached.map_after_map (out more : List β) (r : Option (Reached σ β)) :
    (r.map (Reached.after more)).map (Reached.after out) = r.map (Reached.after (out ++ more)) := by
  cases r with
  | none => rfl
  | some r => exact congrArg some (Reached.after_after out more r)

def runWith (step : σ → α → Option (Reached σ β)) : σ → List α → Option (Reached σ β)
  | s, [] => some (s, [])
  | s, x :: rest => (step s x).bind fun r => (runWith step r.1 rest).map (Reached.after r.2)

theorem runWith_append (step : σ → α → Option (Reached σ β)) (s : σ) (xs ys : List α) :
    runWith step s (xs ++ ys) =
      (runWith step s xs).bind fun r => (runWith step r.1 ys).map (Reached.after r.2) := by
  induction xs generalizing s with
  | nil => simp [runWith]
  | cons x rest ih =>
    rw [List.cons_append, runWith, runWith]
    cases step s x with
    | none => rfl
    | some r =>
      simp only [Option.bind_some]
      rw [ih]
      cases runWith step r.1 rest with
      | none => rfl
      | some q => exact Reached.map_after_map r.2 q.2 (runWith step q.1 ys)

theorem runWith_append_of_eq {step : σ → α → Option (Reached σ β)} {s t : σ} {xs : List α}
    {out : List β} (h : runWith step s xs = some (t, out)) (ys : List α) :
    runWith step s (xs ++ ys) = (runWith step t ys).map (Reached.after out) := by
  rw [runWith_append, h]
  rfl

theorem runWith_cons_of_step {step : σ → α → Option (Reached σ β)} {s t : σ} {x : α} {out : List β}
    (h : step s x = (step t x).map (Reached.after out)) (rest : List α) :
    runWith step s (x :: rest) = (runWith step t (x :: rest)).map (Reached.after out) := by
  rw [runWith, runWith, h]
  cases step t x with
  | none => rfl
  | some r => exact (Reached.map_after_map out r.2 (runWith step r.1 rest)).symm

end Typings.Script
