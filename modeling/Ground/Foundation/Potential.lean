import Ground.Foundation.Transition

/-! # What a run costs

The costs of the steps of a run, added up, and the potential method: what a step costs
and adds to the potential is paid by its income.
-/

namespace Ground.Transition

universe u v

variable {σ : Type u} {α : Type v} {step : σ → α → Option σ}

/-- Of the steps along the labels, as far as they can be taken. -/
def tally (step : σ → α → Option σ) (cost : σ → α → Nat) : σ → List α → Nat
  | _, [] => 0
  | s, a :: as => cost s a + ((step s a).map fun s' => tally step cost s' as).getD 0

theorem tally_cons {cost : σ → α → Nat} {s s' : σ} {a : α} (hs : step s a = some s')
    (as : List α) : tally step cost s (a :: as) = cost s a + tally step cost s' as := by
  rw [tally, hs, Option.map_some, Option.getD_some]

variable {ok : σ → α → Prop} {I : σ → Prop}

/-- The potential method, from a state that the invariant describes. -/
theorem tally_le_of_potential (cost income : σ → α → Nat) (potential : σ → Nat)
    (hKept : ∀ s a s', I s → ok s a → step s a = some s' → I s')
    (hPaid : ∀ s a s', I s → ok s a → step s a = some s' →
      cost s a + potential s' ≤ potential s + income s a)
    {s t : σ} {as : List α} (hInit : I s) (hMeets : Meets step ok s as)
    (hRun : run step s as = some t) :
    tally step cost s as + potential t ≤ potential s + tally step income s as := by
  induction as generalizing s with
  | nil =>
    cases hRun
    simp [tally]
  | cons a as ih =>
    obtain ⟨s', hs, ht⟩ := run_cons_eq_some.mp hRun
    have hNow := hPaid s a s' hInit hMeets.1 hs
    have hLater := ih (hKept s a s' hInit hMeets.1 hs) (hMeets.2 s' hs) ht
    rw [tally_cons hs, tally_cons hs]
    omega

theorem tally_add (cost cost' : σ → α → Nat) (s : σ) (as : List α) :
    tally step (fun s a => cost s a + cost' s a) s as =
      tally step cost s as + tally step cost' s as := by
  induction as generalizing s with
  | nil => rfl
  | cons a as ih =>
    cases hs : step s a with
    | none => simp [tally, hs]
    | some s' =>
      rw [tally_cons hs, tally_cons hs, tally_cons hs, ih]
      omega

theorem tally_zero (s : σ) (as : List α) : tally step (fun _ _ => 0) s as = 0 := by
  induction as generalizing s with
  | nil => rfl
  | cons a as ih =>
    cases hs : step s a with
    | none => simp [tally, hs]
    | some s' => rw [tally_cons hs, ih]

end Ground.Transition
