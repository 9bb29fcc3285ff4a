import Ground.Foundation.Outcome

/-! # Iterators that may panic

A `next` returns an item or the end, and a new state. An iterator yields a list
when successive calls return its items up to the first end.
-/

namespace Ground

universe u v

variable {π : Type u} {σ ι ι' : Type v} {next : σ → Outcome π (Option ι × σ)}
  {next' : σ → Outcome π (Option ι' × σ)} {s s' : σ} {items : List ι}

inductive Yields (next : σ → Outcome π (Option ι × σ)) : σ → List ι → Prop where
  | stop {s last : σ} : next s = .ret (none, last) → Yields next s []
  | item {s s' : σ} {i : ι} {items : List ι} : next s = .ret (some i, s') →
      Yields next s' items → Yields next s (i :: items)

/-- Successive calls return at least these items, with no end before the last. -/
inductive Shows (next : σ → Outcome π (Option ι × σ)) : σ → List ι → Prop where
  | start (s : σ) : Shows next s []
  | item {s s' : σ} {i : ι} {items : List ι} : next s = .ret (some i, s') →
      Shows next s' items → Shows next s (i :: items)

theorem Shows.congr (h : next s = next s') (hShows : Shows next s items) :
    Shows next s' items := by
  cases hShows with
  | start => exact .start s'
  | item hNext hRest => exact .item (h ▸ hNext) hRest

theorem Yields.unique {items' : List ι} (h : Yields next s items) (h' : Yields next s items') :
    items = items' := by
  induction h generalizing items' with
  | stop hStop =>
    cases h' with
    | stop => rfl
    | item hItem _ => cases hStop.symm.trans hItem
  | item hItem _ ih =>
    cases h' with
    | stop hStop => cases hStop.symm.trans hItem
    | item hItem' hRest =>
      cases hItem.symm.trans hItem'
      exact congrArg _ (ih hRest)

theorem Yields.congr (h : next s = next s') (hYields : Yields next s items) :
    Yields next s' items := by
  cases hYields with
  | stop hNext => exact .stop (h ▸ hNext)
  | item hNext hRest => exact .item (h ▸ hNext) hRest

theorem yields_of_item {i : ι} (h : next s = .ret (some i, s')) :
    Yields next s items ↔ ∃ rest, items = i :: rest ∧ Yields next s' rest := by
  constructor
  · intro hYields
    cases hYields with
    | stop hNext => cases hNext.symm.trans h
    | item hNext hRest =>
      cases hNext.symm.trans h
      exact ⟨_, rfl, hRest⟩
  · rintro ⟨rest, rfl, hRest⟩
    exact .item h hRest

theorem not_yields_of_stuck {i : ι} (h : next s = .ret (some i, s)) : ¬ Yields next s items := by
  induction items with
  | nil =>
    intro hYields
    obtain ⟨rest, hRest, -⟩ := (yields_of_item h).mp hYields
    cases hRest
  | cons item items ih =>
    intro hYields
    obtain ⟨rest, hRest, hLater⟩ := (yields_of_item h).mp hYields
    cases hRest
    exact ih hLater

theorem yields_map_iff {f : ι → ι'}
    (hNext : ∀ s, next' s = next s >>= fun (i, s') => .ret (i.map f, s')) {items' : List ι'} :
    Yields next' s items' ↔ ∃ items, Yields next s items ∧ items' = items.map f := by
  constructor
  · intro h
    induction h with
    | stop hStop =>
      rw [hNext] at hStop
      obtain ⟨⟨i, s'⟩, hCall, hEnd⟩ := Outcome.bind_eq_ret_iff.mp hStop
      cases i with
      | none => exact ⟨[], .stop hCall, rfl⟩
      | some i => cases hEnd
    | item hItem _ ih =>
      obtain ⟨items, hRest, rfl⟩ := ih
      rw [hNext] at hItem
      obtain ⟨⟨i, s'⟩, hCall, hEnd⟩ := Outcome.bind_eq_ret_iff.mp hItem
      cases i with
      | none => cases hEnd
      | some i =>
        cases hEnd
        exact ⟨i :: items, .item hCall hRest, rfl⟩
  · rintro ⟨items, hYields, rfl⟩
    induction hYields with
    | stop hStop => exact .stop (by rw [hNext, hStop]; rfl)
    | item hItem _ ih => exact .item (by rw [hNext, hItem]; rfl) ih

def calls (next : σ → Outcome π (Option ι × σ)) : Nat → σ → Outcome π (List (Option ι) × σ)
  | 0, s => return ([], s)
  | n + 1, s => do
    let (i, s) ← next s
    let (rest, s) ← calls next n s
    return (i :: rest, s)

theorem calls_returns (h : ∀ s, (next s).Returns) (n : Nat) (s : σ) : (calls next n s).Returns := by
  induction n generalizing s with
  | zero => exact Outcome.returns_ret _
  | succ n ih =>
    apply (h s).bind
    rintro ⟨i, s'⟩ -
    apply (ih s').bind
    rintro ⟨rest, s''⟩ -
    exact Outcome.returns_ret _

end Ground
