import Ground.Dns

/-! # The names that `name_size` accepts

Labels with a length octet up to 127, ended by a zero octet or by two octets
of which the first is above 127. Such a name is recognised whatever follows it.
-/

namespace Ground.Dns

inductive Name : List Byte → Prop where
  | root : Name [0#8]
  | pointer (first second : Byte) : 127 < first.toNat → Name [first, second]
  | label (first : Byte) (label rest : List Byte) : first ≠ 0#8 → first.toNat ≤ 127 →
      label.length = first.toNat → Name rest → Name (first :: (label ++ rest))

theorem Name.length_pos {name : List Byte} (h : Name name) : 0 < name.length := by
  cases h with
  | root => decide
  | pointer first second _ => exact Nat.zero_lt_succ _
  | label first label rest _ _ _ _ => exact Nat.zero_lt_succ _

theorem Name.ne_nil {name : List Byte} (h : Name name) : name ≠ [] :=
  List.length_pos_iff.mp h.length_pos

/-- The buffer starts with a name of this length. -/
def Starts (buffer : List Byte) (size : Nat) : Prop :=
  ∃ name rest, buffer = name ++ rest ∧ Name name ∧ name.length = size

theorem not_starts_nil (size : Nat) : ¬ Starts [] size := by
  rintro ⟨name, rest, hBuffer, hName, -⟩
  have hPos := hName.length_pos
  rw [(List.append_eq_nil_iff.mp hBuffer.symm).1] at hPos
  cases hPos

theorem starts_root {first : Byte} {tail : List Byte} {size : Nat} (hFirst : first = 0#8) :
    Starts (first :: tail) size ↔ size = 1 := by
  constructor
  · rintro ⟨name, rest, hBuffer, hName, rfl⟩
    cases hName with
    | root => rfl
    | pointer _ second hLarge =>
      obtain rfl : first = _ := (List.cons.inj hBuffer).1
      rw [hFirst] at hLarge
      cases hLarge
    | label _ label rest' hNonzero _ _ _ =>
      exact absurd ((List.cons.inj hBuffer).1 ▸ hFirst) hNonzero
  · rintro rfl
    exact ⟨[first], tail, rfl, hFirst ▸ .root, rfl⟩

theorem starts_label {first : Byte} {tail : List Byte} {size : Nat} (hNonzero : first ≠ 0#8)
    (hSmall : first.toNat ≤ 127) : Starts (first :: tail) size ↔
      ∃ size', Starts (tail.drop first.toNat) size' ∧ size = 1 + first.toNat + size' := by
  constructor
  · rintro ⟨name, rest, hBuffer, hName, rfl⟩
    cases hName with
    | root => exact absurd (List.cons.inj hBuffer).1 hNonzero
    | pointer _ second hLarge =>
      rw [← (List.cons.inj hBuffer).1] at hLarge
      omega
    | label _ label rest' _ _ hLength hRest =>
      obtain ⟨rfl, hTail⟩ := List.cons.inj hBuffer
      change tail = label ++ rest' ++ rest at hTail
      refine ⟨rest'.length, ⟨rest', rest, ?_, hRest, rfl⟩, ?_⟩
      · rw [hTail, List.append_assoc, ← hLength, List.drop_left]
      · simp only [List.length_cons, List.length_append]
        omega
  · rintro ⟨size', ⟨name, rest, hDrop, hName, rfl⟩, rfl⟩
    have hLong : first.toNat < tail.length := by
      have hPos := hName.length_pos
      have hLength := congrArg List.length hDrop
      simp only [List.length_drop, List.length_append] at hLength
      omega
    have hLabel : (tail.take first.toNat).length = first.toNat := by
      rw [List.length_take]
      omega
    refine ⟨first :: (tail.take first.toNat ++ name), rest, ?_,
      .label first _ name hNonzero hSmall hLabel hName, ?_⟩
    · rw [List.cons_append, List.append_assoc, ← hDrop, List.take_append_drop]
    · simp only [List.length_cons, List.length_append, hLabel]
      omega

theorem starts_pointer {first : Byte} {tail : List Byte} {size : Nat}
    (hLarge : 127 < first.toNat) : Starts (first :: tail) size ↔ tail ≠ [] ∧ size = 2 := by
  constructor
  · rintro ⟨name, rest, hBuffer, hName, rfl⟩
    cases hName with
    | root =>
      rw [(List.cons.inj hBuffer).1] at hLarge
      cases hLarge
    | pointer _ second _ =>
      rw [(List.cons.inj hBuffer).2]
      exact ⟨by simp, rfl⟩
    | label _ label rest' _ hSmall _ _ =>
      rw [← (List.cons.inj hBuffer).1] at hSmall
      omega
  · rintro ⟨hTail, rfl⟩
    obtain ⟨second, rest, rfl⟩ := List.exists_cons_of_ne_nil hTail
    exact ⟨[first, second], rest, rfl, .pointer first second hLarge, rfl⟩

theorem nameSizeFrom_eq_ok_iff (buffer : List Byte) (pos size : Nat) :
    nameSizeFrom buffer pos = .ok size ↔ ∃ k, Starts (buffer.drop pos) k ∧ size = pos + k := by
  fun_induction nameSizeFrom buffer pos with
  | case1 pos hPos byte next hZero =>
    have hDrop : buffer.drop pos = byte :: buffer.drop next := List.drop_eq_getElem_cons hPos
    simp only [hDrop, starts_root hZero, exists_eq_left, Except.ok.injEq]
    exact eq_comm
  | case2 pos hPos byte next hNonzero hSmall ih =>
    have hDrop : buffer.drop pos = byte :: buffer.drop next := List.drop_eq_getElem_cons hPos
    simp only [ih, hDrop, starts_label hNonzero hSmall, List.drop_drop]
    constructor
    · rintro ⟨k, hStarts, rfl⟩
      exact ⟨1 + byte.toNat + k, ⟨k, hStarts, rfl⟩, by omega⟩
    · rintro ⟨_, ⟨k, hStarts, rfl⟩, rfl⟩
      exact ⟨k, hStarts, by omega⟩
  | case3 pos hPos byte next hNonzero hLarge hRoom =>
    have hDrop : buffer.drop pos = byte :: buffer.drop next := List.drop_eq_getElem_cons hPos
    have hTail : buffer.drop next ≠ [] := by
      rw [Ne, List.drop_eq_nil_iff]
      omega
    simp only [hDrop, starts_pointer (Nat.lt_of_not_le hLarge), ne_eq, hTail, not_false_eq_true,
      true_and, exists_eq_left, Except.ok.injEq]
    exact eq_comm
  | case4 pos hPos byte next hNonzero hLarge hShort =>
    have hDrop : buffer.drop pos = byte :: buffer.drop next := List.drop_eq_getElem_cons hPos
    have hTail : buffer.drop next = [] := by
      rw [List.drop_eq_nil_iff]
      omega
    simp [hDrop, starts_pointer (Nat.lt_of_not_le hLarge), hTail]
  | case5 pos hEnd =>
    rw [List.drop_eq_nil_iff.mpr (Nat.le_of_not_lt hEnd)]
    simp [not_starts_nil]

theorem nameSize_eq_ok_iff {buffer : List Byte} {size : Nat} :
    nameSize buffer = .ok size ↔ Starts buffer size := by
  rw [nameSize, nameSizeFrom_eq_ok_iff, List.drop_zero]
  simp

theorem Name.nameSize_append {name : List Byte} (h : Name name) (rest : List Byte) :
    nameSize (name ++ rest) = .ok name.length :=
  nameSize_eq_ok_iff.mpr ⟨name, rest, rfl, h, rfl⟩

theorem nameSizeFrom_error {buffer : List Byte} {pos : Nat} {e : Error}
    (h : nameSizeFrom buffer pos = .error e) : e = invalidData := by
  fun_induction nameSizeFrom buffer pos with
  | case1 pos hPos byte next hZero => cases h
  | case2 pos hPos byte next hNonzero hSmall ih => exact ih h
  | case3 pos hPos byte next hNonzero hLarge hRoom => cases h
  | case4 pos hPos byte next hNonzero hLarge hShort =>
    cases h
    rfl
  | case5 pos hEnd =>
    cases h
    rfl

theorem nameSize_cases (buffer : List Byte) :
    nameSize buffer = .error invalidData ∨
    ∃ name rest, Name name ∧ buffer = name ++ rest ∧ nameSize buffer = .ok name.length := by
  cases hSize : nameSize buffer with
  | error e => exact .inl (congrArg _ (nameSizeFrom_error hSize))
  | ok size =>
    obtain ⟨name, rest, hBuffer, hName, rfl⟩ := nameSize_eq_ok_iff.mp hSize
    exact .inr ⟨name, rest, hName, hBuffer, rfl⟩

end Ground.Dns
