import Mathlib.Data.Finset.Basic

/-! # Words read as finite sets of bits

A flag word is the set of its set bits. Or is union, and is intersection, and
and-not is difference; a nonzero meet is a shared bit. Statements about words
are proved bit by bit after these rewrites.
-/

namespace Ground.Mask

variable {w : Nat} {m n k : BitVec w} {b : Nat}

def Has (m : BitVec w) (b : Nat) : Prop := m.getLsbD b = true

instance : Decidable (Has m b) := inferInstanceAs (Decidable (_ = true))

theorem Has.lt (h : Has m b) : b < w := BitVec.lt_of_getLsbD h

@[simp] theorem not_has_zero : ¬ Has (0#w) b := by simp [Has]

@[simp] theorem has_or : Has (m ||| n) b ↔ Has m b ∨ Has n b := by simp [Has]

@[simp] theorem has_and : Has (m &&& n) b ↔ Has m b ∧ Has n b := by simp [Has]

@[simp high] theorem has_and_not : Has (m &&& ~~~n) b ↔ Has m b ∧ ¬ Has n b := by
  constructor
  · intro h
    obtain ⟨hm, hn⟩ := has_and.mp h
    exact ⟨hm, by simpa [Has, hm.lt] using hn⟩
  · rintro ⟨hm, hn⟩
    exact has_and.mpr ⟨hm, by simpa [Has, hm.lt] using hn⟩

theorem ext_has (h : ∀ b, Has m b ↔ Has n b) : m = n := by
  apply BitVec.eq_of_getLsbD_eq
  intro b _
  exact Bool.eq_iff_iff.mpr (h b)

theorem eq_zero_iff : m = 0#w ↔ ∀ b, ¬ Has m b := by
  constructor
  · rintro rfl b
    exact not_has_zero
  · intro h
    exact ext_has fun b => ⟨fun hb => absurd hb (h b), fun hb => absurd hb not_has_zero⟩

theorem ne_zero_iff : m ≠ 0#w ↔ ∃ b, Has m b := by
  rw [Ne, eq_zero_iff, not_forall_not]

theorem meet_ne_zero_iff : m &&& n ≠ 0#w ↔ ∃ b, Has m b ∧ Has n b := by
  simp only [ne_zero_iff, has_and]

theorem meet_eq_zero_iff : m &&& n = 0#w ↔ ∀ b, Has m b → ¬ Has n b := by
  simp only [eq_zero_iff, has_and, not_and]

/-- Every bit of `m` is a bit of `n`. -/
def Within (m n : BitVec w) : Prop := m &&& ~~~n = 0#w

instance : Decidable (Within m n) := inferInstanceAs (Decidable (_ = _))

theorem within_iff : Within m n ↔ ∀ b, Has m b → Has n b := by
  simp only [Within, eq_zero_iff, has_and_not, not_and, not_not]

theorem within_refl (m : BitVec w) : Within m m := within_iff.mpr fun _ h => h

theorem Within.has (h : Within m n) (hb : Has m b) : Has n b := within_iff.mp h b hb

theorem Within.ne_zero (h : Within m n) (hm : m ≠ 0#w) : n ≠ 0#w := by
  obtain ⟨b, hb⟩ := ne_zero_iff.mp hm
  exact ne_zero_iff.mpr ⟨b, h.has hb⟩

theorem Within.trans (h : Within m n) (h' : Within n k) : Within m k :=
  within_iff.mpr fun _ hb => h'.has (h.has hb)

theorem within_or_left : Within m (m ||| n) := within_iff.mpr fun _ hb => has_or.mpr (.inl hb)

theorem within_or_right : Within n (m ||| n) := within_iff.mpr fun _ hb => has_or.mpr (.inr hb)

theorem within_andNot : Within (m &&& ~~~n) m :=
  within_iff.mpr fun _ hb => (has_and_not.mp hb).1

theorem Within.or (hm : Within m k) (hn : Within n k) : Within (m ||| n) k :=
  within_iff.mpr fun _ hb => (has_or.mp hb).elim hm.has hn.has

end Ground.Mask
