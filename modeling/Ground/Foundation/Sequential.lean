import Mathlib.Data.List.Basic

/-! # Sequential histories

A sequential object moves on with each event. A history is one that the object
could have gone through, one event after the other.
-/

namespace Ground

universe u v

variable {σ : Type u} {ε : Type v} {moves : σ → ε → σ → Prop}

inductive Sequential (moves : σ → ε → σ → Prop) : σ → List ε → σ → Prop where
  | nil (s : σ) : Sequential moves s [] s
  | snoc {s s' s'' : σ} {events : List ε} {event : ε} : Sequential moves s events s' →
      moves s' event s'' → Sequential moves s (events ++ [event]) s''

namespace Sequential

theorem append {s s' s'' : σ} {events later : List ε} (h : Sequential moves s events s')
    (hLater : Sequential moves s' later s'') : Sequential moves s (events ++ later) s'' := by
  induction hLater with
  | nil => rwa [List.append_nil]
  | snoc _ hMoves ih =>
    rw [← List.append_assoc]
    exact .snoc ih hMoves

theorem single {s s' : σ} {event : ε} (h : moves s event s') :
    Sequential moves s [event] s' := .snoc (.nil s) h

/-- Events that do not move the object can be left out. -/
theorem filter {s s' : σ} {events : List ε} {keep : ε → Bool}
    (hStill : ∀ s event s', moves s event s' → keep event = false → s' = s)
    (h : Sequential moves s events s') : Sequential moves s (events.filter keep) s' := by
  induction h with
  | nil => exact .nil s
  | @snoc s' s'' events event _ hMoves ih =>
    rw [List.filter_append]
    cases hKeep : keep event with
    | true =>
      rw [List.filter_cons_of_pos hKeep, List.filter_nil]
      exact .snoc ih hMoves
    | false =>
      rw [List.filter_cons_of_neg (by simp [hKeep]), List.filter_nil, List.append_nil,
        hStill s' event s'' hMoves hKeep]
      exact ih

end Sequential

end Ground
