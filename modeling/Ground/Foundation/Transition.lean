import Mathlib.Data.List.Infix
import Mathlib.Data.List.Induction

/-! # Runs of a labelled transition system

A partial step function takes a state and a label; the label carries every
choice the environment makes. Invariants are packaged once here, also for runs
whose steps all meet a condition on the state before the step.
-/

namespace Ground.Transition

universe u v

variable {σ : Type u} {α : Type v} {step : σ → α → Option σ}

def run (step : σ → α → Option σ) : σ → List α → Option σ
  | s, [] => some s
  | s, a :: as => (step s a).bind fun s' => run step s' as

theorem run_cons_eq_some {s t : σ} {a : α} {as : List α} :
    run step s (a :: as) = some t ↔ ∃ s', step s a = some s' ∧ run step s' as = some t :=
  Option.bind_eq_some_iff

/-- Every step taken along the labels meets the condition at the state in
which it is taken. -/
def Meets (step : σ → α → Option σ) (ok : σ → α → Prop) : σ → List α → Prop
  | _, [] => True
  | s, a :: as => ok s a ∧ ∀ s', step s a = some s' → Meets step ok s' as

variable {ok : σ → α → Prop} {I : σ → Prop}

theorem Meets.cons {s s' : σ} {a : α} {as : List α} (ha : ok s a) (hs : step s a = some s')
    (h : Meets step ok s' as) : Meets step ok s (a :: as) := by
  refine ⟨ha, fun t ht => ?_⟩
  obtain rfl := Option.some.inj (hs.symm.trans ht)
  exact h

theorem invariant_of_meets (hStep : ∀ s a s', I s → ok s a → step s a = some s' → I s')
    {s t : σ} {as : List α} (hInit : I s) (hMeets : Meets step ok s as)
    (hRun : run step s as = some t) : I t := by
  induction as generalizing s with
  | nil =>
    cases hRun
    exact hInit
  | cons a as ih =>
    obtain ⟨s', hs, ht⟩ := run_cons_eq_some.mp hRun
    exact ih (hStep s a s' hInit hMeets.1 hs) (hMeets.2 s' hs) ht

/-- A property that every other kind of step keeps, and that a step which does not
meet the condition ends for good. -/
theorem kept_iff_meets {P : σ → Prop}
    (hStep : ∀ s a s', I s → step s a = some s' → I s' ∧ (P s' ↔ P s ∧ ok s a))
    {s t : σ} {as : List α} (hInit : I s) (hRun : run step s as = some t) :
    P t ↔ P s ∧ Meets step ok s as := by
  induction as generalizing s with
  | nil =>
    cases hRun
    simp only [Meets, and_true]
  | cons a as ih =>
    obtain ⟨s', hs, ht⟩ := run_cons_eq_some.mp hRun
    obtain ⟨hInv, hKept⟩ := hStep s a s' hInit hs
    rw [ih hInv ht, hKept, and_assoc]
    exact and_congr_right fun _ => ⟨fun ⟨ha, hMeets⟩ => .cons ha hs hMeets,
      fun hMeets => ⟨hMeets.1, hMeets.2 s' hs⟩⟩

theorem meets_of_forall (h : ∀ s a, ok s a) (s : σ) (as : List α) : Meets step ok s as := by
  induction as generalizing s with
  | nil => trivial
  | cons a as ih => exact ⟨h s a, fun s' _ => ih s'⟩

theorem meets_of_mem {good : α → Prop} {as : List α} (h : ∀ a ∈ as, good a) (s : σ) :
    Meets step (fun _ => good) s as := by
  induction as generalizing s with
  | nil => trivial
  | cons a as ih =>
    refine ⟨h a List.mem_cons_self, fun s' _ => ih (fun b hMem => ?_) s'⟩
    exact h b (List.mem_cons_of_mem a hMem)

theorem invariant_of_run (hStep : ∀ s a s', I s → step s a = some s' → I s')
    {s t : σ} {as : List α} (hInit : I s) (hRun : run step s as = some t) : I t := by
  have hMeets : Meets step (fun _ _ => True) s as := meets_of_forall (fun _ _ => trivial) s as
  exact invariant_of_meets (fun s a s' h _ => hStep s a s' h) hInit hMeets hRun

/-- A property of label sequences that each step keeps exactly when it meets
a condition holds of all prefixes exactly when all steps meet the condition. -/
theorem forall_prefix_iff {P : List α → Prop} {good : List α → α → Prop} {bs : List α}
    (hNil : P []) (hSnoc : ∀ as a, as ++ [a] <+: bs → P as → (P (as ++ [a]) ↔ good as a)) :
    (∀ as, as <+: bs → P as) ↔ ∀ as a, as ++ [a] <+: bs → good as a := by
  constructor
  · intro h as a hPrefix
    have hInit := h as ((List.prefix_append as [a]).trans hPrefix)
    exact (hSnoc as a hPrefix hInit).mp (h _ hPrefix)
  · intro h as
    induction as using List.reverseRecOn with
    | nil => exact fun _ => hNil
    | append_singleton as a ih =>
      intro hPrefix
      have hInit := ih ((List.prefix_append as [a]).trans hPrefix)
      exact (hSnoc as a hPrefix hInit).mpr (h as a hPrefix)

end Ground.Transition
