import Mathlib.Logic.Function.Basic

/-! # An index that mirrors its owners

Owners hold at most one keyed entry each, and an entry names its owner. The
index is in step when it maps every key to the entry held under it. An owner
may write the key of its own entry, or a free key when it holds none.
-/

namespace Ground

universe u v w

variable {ι : Type u} {K : Type v} {V : Type w} {owner : V → ι}
  {index index' : K → Option V} {entry : ι → Option (K × V)}

structure Mirrors (owner : V → ι) (index : K → Option V) (entry : ι → Option (K × V)) : Prop where
  lookup : ∀ k v, index k = some v ↔ entry (owner v) = some (k, v)
  owned : ∀ i k v, entry i = some (k, v) → owner v = i

theorem mirrors_empty (owner : V → ι) : Mirrors owner (fun _ : K => none) fun _ => none where
  lookup _ _ := by simp
  owned _ _ _ h := by cases h

namespace Mirrors

theorem lookup_of_entry (h : Mirrors owner index entry) {i : ι} {k : K} {v : V}
    (hEntry : entry i = some (k, v)) : index k = some v :=
  (h.lookup k v).mpr (by rwa [h.owned i k v hEntry])

theorem owner_unique (h : Mirrors owner index entry) {i j : ι} {k : K} {v v' : V}
    (hi : entry i = some (k, v)) (hj : entry j = some (k, v')) : i = j := by
  have hv : some v = some v' := (h.lookup_of_entry hi).symm.trans (h.lookup_of_entry hj)
  cases hv
  exact (h.owned i k v hi).symm.trans (h.owned j k v hj)

end Mirrors

/-- The key is that of the entry an owner holds, or free when it holds none. -/
def KeyFor (index : K → Option V) (held : Option (K × V)) (k : K) : Prop :=
  (held = none ∧ index k = none) ∨ ∃ v, held = some (k, v)

variable [DecidableEq ι] [DecidableEq K]

/-- One owner writes its own key, and holds exactly what it wrote. -/
inductive Change (owner : V → ι) (i : ι) (index : K → Option V) (held : Option (K × V)) :
    (K → Option V) → Option (K × V) → Prop where
  | keep : Change owner i index held index held
  | write (k : K) (new : Option V) : KeyFor index held k → (∀ v, new = some v → owner v = i) →
      Change owner i index held (Function.update index k new) (new.map fun v => (k, v))

theorem Mirrors.change (h : Mirrors owner index entry) {i : ι} {held : Option (K × V)}
    (hChange : Change owner i index (entry i) index' held) :
    Mirrors owner index' (Function.update entry i held) := by
  cases hChange with
  | keep => rwa [Function.update_eq_self]
  | write k new hKey hOwner =>
    constructor
    · intro k' v
      obtain rfl | hk := eq_or_ne k' k
      · by_cases hv : owner v = i
        · simp [hv]
        · have hNew : new ≠ some v := fun hEq => hv (hOwner v hEq)
          have hOther : entry (owner v) ≠ some (k', v) := by
            intro hEq
            obtain ⟨-, hFree⟩ | ⟨v', hHeld⟩ := hKey
            · exact absurd (h.lookup_of_entry hEq) (by simp [hFree])
            · exact hv (h.owner_unique hEq hHeld)
          simp [hv, hNew, hOther]
      · rw [Function.update_of_ne hk, h.lookup]
        obtain hv | hv := eq_or_ne (owner v) i
        · have hOld : entry i ≠ some (k', v) := by
            intro hEq
            obtain ⟨hNone, -⟩ | ⟨v', hHeld⟩ := hKey
            · exact absurd (hNone.symm.trans hEq) (by simp)
            · exact hk (by have := hHeld.symm.trans hEq; simp at this; exact this.1.symm)
          simp [hv, hOld, Ne.symm hk]
        · simp [hv]
    · intro j k' v hEntry
      obtain rfl | hj := eq_or_ne j i
      · rw [Function.update_self] at hEntry
        obtain ⟨v', hNew, hPair⟩ := Option.map_eq_some_iff.mp hEntry
        cases hPair
        exact hOwner v hNew
      · rw [Function.update_of_ne hj] at hEntry
        exact h.owned j k' v hEntry

end Ground
