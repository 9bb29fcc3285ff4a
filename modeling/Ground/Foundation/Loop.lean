import Mathlib.Data.Nat.Notation

/-! # Loops that may end anywhere

One turn of a loop either ends it with a value or goes on in another state. A
measure that every turn decreases bounds the number of turns, and what the loop
returns is determined by the equation that one turn gives.
-/

namespace Ground

universe u v

inductive Turn (σ : Type u) (α : Type v) where
  | done (value : α)
  | next (state : σ)
  deriving DecidableEq

namespace Turn

variable {σ : Type u} {α : Type v} {turn : σ → Turn σ α} {s : σ} {fuel : Nat}

/-- The value with which the loop ends, if it does in this many turns. -/
def run (turn : σ → Turn σ α) : Nat → σ → Option α
  | 0, _ => none
  | fuel + 1, s =>
    match turn s with
    | .done value => some value
    | .next s => run turn fuel s

theorem run_done {value : α} (h : turn s = .done value) : run turn (fuel + 1) s = some value := by
  rw [run, h]

theorem run_next {s' : σ} (h : turn s = .next s') : run turn (fuel + 1) s = run turn fuel s' := by
  rw [run, h]

/-- The termination rule: with more turns than the measure, the loop ends with its result. -/
theorem run_of_measure (measure : σ → Nat) (result : σ → α)
    (hTurn : ∀ s, turn s = .done (result s) ∨
      ∃ s', turn s = .next s' ∧ measure s' < measure s ∧ result s = result s')
    (hFuel : measure s < fuel) : run turn fuel s = some (result s) := by
  induction fuel generalizing s with
  | zero => omega
  | succ fuel ih =>
    obtain hDone | ⟨s', hNext, hLess, hSame⟩ := hTurn s
    · exact run_done hDone
    · rw [run_next hNext, hSame]
      apply ih
      omega

end Turn

end Ground
