import Ground.Dns.Name
import Ground.Foundation.Loop

/-! # Where names end

What `name_size` finds in a buffer it finds in every extension of it, and in no
prefix that ends before the name does. Every turn of its loop moves forward.
-/

namespace Ground.Dns

/-- One turn of the loop of `name_size`. -/
def nameSizeTurn (buffer : List Byte) (pos : Nat) : Turn Nat (Except Error Nat) :=
  match buffer[pos]? with
  | none => .done (.error invalidData)
  | some byte =>
    let pos := pos + 1
    if byte = 0#8 then .done (.ok pos)
    else if byte.toNat ≤ 127 then .next (pos + byte.toNat)
    else if pos + 1 ≤ buffer.length then .done (.ok (pos + 1))
    else .done (.error invalidData)

theorem nameSizeTurn_end {buffer : List Byte} {pos : Nat} (h : buffer.length ≤ pos) :
    nameSizeTurn buffer pos = .done (nameSizeFrom buffer pos) := by
  rw [nameSizeTurn, List.getElem?_eq_none h, nameSizeFrom, dif_neg (Nat.not_lt.mpr h)]

theorem nameSizeTurn_cases (buffer : List Byte) (pos : Nat) :
    nameSizeTurn buffer pos = .done (nameSizeFrom buffer pos) ∨
    ∃ pos', nameSizeTurn buffer pos = .next pos' ∧ pos < buffer.length ∧ pos < pos' ∧
      nameSizeFrom buffer pos = nameSizeFrom buffer pos' := by
  obtain hPos | hEnd := Nat.lt_or_ge pos buffer.length
  · rw [nameSizeTurn, List.getElem?_eq_getElem hPos, nameSizeFrom, dif_pos hPos]
    obtain hZero | hNonzero := eq_or_ne buffer[pos] 0#8
    · left
      simp only [hZero, if_true]
    · obtain hLarge | hSmall := Nat.lt_or_ge 127 buffer[pos].toNat
      · left
        simp only [hNonzero, if_false, Nat.not_le.mpr hLarge]
        split
        · rfl
        · rfl
      · right
        simp only [hNonzero, if_false, hSmall, if_true]
        exact ⟨_, rfl, hPos, by omega, rfl⟩
  · exact .inl (nameSizeTurn_end hEnd)

theorem nameSize_terminates (buffer : List Byte) :
    Turn.run (nameSizeTurn buffer) (buffer.length + 1) 0 = some (nameSize buffer) := by
  apply Turn.run_of_measure (fun pos => buffer.length - pos) (nameSizeFrom buffer)
  · intro pos
    obtain hDone | ⟨pos', hNext, hPos, hForward, hSame⟩ := nameSizeTurn_cases buffer pos
    · exact .inl hDone
    · exact .inr ⟨pos', hNext, by omega, hSame⟩
  · omega

theorem nameSize_bounds {buffer : List Byte} {size : Nat} (h : nameSize buffer = .ok size) :
    1 ≤ size ∧ size ≤ buffer.length := by
  obtain ⟨name, rest, rfl, hName, rfl⟩ := nameSize_eq_ok_iff.mp h
  constructor
  · exact hName.length_pos
  · rw [List.length_append]
    omega

theorem nameSize_extend {buffer : List Byte} {size : Nat} (h : nameSize buffer = .ok size)
    (rest : List Byte) : nameSize (buffer.take size ++ rest) = .ok size := by
  obtain ⟨name, tail, rfl, hName, rfl⟩ := nameSize_eq_ok_iff.mp h
  rw [List.take_left]
  exact hName.nameSize_append rest

theorem nameSize_of_take {buffer : List Byte} {k size : Nat}
    (h : nameSize (buffer.take k) = .ok size) : size ≤ k ∧ nameSize buffer = .ok size := by
  have hBounds := nameSize_bounds h
  have hExtend := nameSize_extend h ((buffer.take k).drop size ++ buffer.drop k)
  rw [← List.append_assoc, List.take_append_drop, List.take_append_drop] at hExtend
  rw [List.length_take] at hBounds
  exact ⟨by omega, hExtend⟩

/-- A name is found from its own bytes alone, whatever follows them, and the loop
ends within as many turns as there are bytes, and one. -/
theorem nameSize_self_delimiting (buffer : List Byte) :
    (∀ size, nameSize buffer = .ok size → (1 ≤ size ∧ size ≤ buffer.length) ∧
      (∀ rest, nameSize (buffer.take size ++ rest) = .ok size) ∧
      ∀ k, k < size → ∃ e, nameSize (buffer.take k) = .error e) ∧
    (∀ e, nameSize buffer = .error e → ∀ k size, nameSize (buffer.take k) ≠ .ok size) ∧
    Turn.run (nameSizeTurn buffer) (buffer.length + 1) 0 = some (nameSize buffer) := by
  refine ⟨fun size h => ⟨nameSize_bounds h, nameSize_extend h, fun k hk => ?_⟩, ?_,
    nameSize_terminates buffer⟩
  · cases hPrefix : nameSize (buffer.take k) with
    | error e => exact ⟨e, rfl⟩
    | ok size' =>
      obtain ⟨hBound, hWhole⟩ := nameSize_of_take hPrefix
      cases h.symm.trans hWhole
      omega
  · intro e h k size hPrefix
    cases h.symm.trans (nameSize_of_take hPrefix).2

end Ground.Dns
