import Ground.Dns.Grammar
import Ground.Dns.Labels
import Mathlib.Algebra.GroupWithZero.Nat
import Mathlib.Data.Set.List

/-! # The packet of a query

When the packet is written, what it consists of and how long it is, and when the
name in it keeps the limits of the format.
-/

namespace Ground.Dns

theorem length_encodeName (labels : List (List Byte)) :
    (encodeName labels).length = (labels.map fun label => label.length + 1).sum + 1 := by
  induction labels with
  | nil => rfl
  | cons label labels ih =>
    rw [encodeName_cons, List.map_cons, List.sum_cons, List.length_cons, List.length_append, ih]
    omega

theorem length_queryPacket (name : List Byte) (queryType : BitVec 16) :
    (queryPacket name queryType).length =
      17 + ((nameLabels name).map fun label => label.length + 1).sum := by
  rw [queryPacket, List.length_append, List.length_append, Header.length_encode,
    length_encodeName, length_typeAndClass]
  omega

theorem splitOn_short_iff {name : List Byte} :
    (∀ label ∈ name.splitOn dot, label.length < 128) ↔
      ∀ label ∈ nameLabels name, label.length < 128 := by
  constructor
  · intro h label hLabel
    exact (nameLabels_short h label hLabel).1
  · intro h label hLabel
    obtain rfl | hNonempty := eq_or_ne label []
    · decide
    · exact h label (List.mem_filter.mpr ⟨hLabel, decide_eq_true hNonempty⟩)

theorem queryPacket_bytes (name : List Byte) (queryType : BitVec 16) :
    queryPacket name queryType =
      [0#8, 0#8, 1#8, 32#8, 0#8, 1#8, 0#8, 0#8, 0#8, 0#8, 0#8, 0#8] ++
        ((nameLabels name).flatMap (fun label => BitVec.ofNat 8 label.length :: label) ++
          0#8 :: ((toBeBytes (n := 2) queryType).1 ++ [0#8, 1#8])) := by
  have hHeader : queryHeader.encode =
      [0#8, 0#8, 1#8, 32#8, 0#8, 1#8, 0#8, 0#8, 0#8, 0#8, 0#8, 0#8] := by decide
  have hClass : (toBeBytes (n := 2) C_IN).1 = [0#8, 1#8] := by decide
  rw [queryPacket, hHeader, encodeName, typeAndClass, hClass, List.append_assoc]
  rfl

theorem makeQueryPacket_panics_iff {name buffer : List Byte} {queryType : BitVec 16} :
    (∃ reason, makeQueryPacket name buffer queryType = .panic reason) ↔
      (∃ label ∈ nameLabels name, 128 ≤ label.length) ∨
        buffer.length < (queryPacket name queryType).length := by
  rw [Outcome.exists_panic_iff]
  constructor
  · intro hPanics
    by_contra hFine
    obtain ⟨hShort, hRoom⟩ := not_or.mp hFine
    refine hPanics (_, _) (makeQueryPacket_eq_ret_iff.mpr
      ⟨splitOn_short_iff.mpr fun label hLabel => ?_, Nat.le_of_not_lt hRoom, rfl, rfl⟩)
    by_contra hLong
    exact hShort ⟨label, hLabel, Nat.le_of_not_lt hLong⟩
  · rintro hBad ⟨size, out⟩ hRet
    obtain ⟨hShort, hRoom, -⟩ := makeQueryPacket_eq_ret_iff.mp hRet
    obtain ⟨label, hLabel, hLong⟩ | hSmall := hBad
    · have hLess := splitOn_short_iff.mp hShort label hLabel
      omega
    · omega

/-- The packet is written exactly when its labels are short enough and it fits, and
then it is the rest of the buffer that stays. -/
theorem makeQueryPacket_exact (name buffer : List Byte) (queryType : BitVec 16) :
    let labels := (name.splitOn dot).filter (· ≠ [])
    let size := 17 + (labels.map fun label => label.length + 1).sum
    ((∃ reason, makeQueryPacket name buffer queryType = .panic reason) ↔
      (∃ label ∈ labels, 128 ≤ label.length) ∨ buffer.length < size) ∧
    ∀ size' out, makeQueryPacket name buffer queryType = .ret (size', out) →
      size' = size ∧
      out.take size = [0#8, 0#8, 1#8, 32#8, 0#8, 1#8, 0#8, 0#8, 0#8, 0#8, 0#8, 0#8] ++
        (labels.flatMap (fun label => BitVec.ofNat 8 label.length :: label) ++
          0#8 :: ((toBeBytes (n := 2) queryType).1 ++ [0#8, 1#8])) ∧
      out.length = buffer.length ∧ out.drop size = buffer.drop size := by
  intro labels size
  have hSize : (queryPacket name queryType).length = size := length_queryPacket name queryType
  constructor
  · rw [makeQueryPacket_panics_iff, hSize]
    rfl
  · intro size' out hRet
    obtain ⟨-, hRoom, rfl, rfl⟩ := makeQueryPacket_eq_ret_iff.mp hRet
    rw [hSize] at hRoom ⊢
    refine ⟨rfl, ?_, ?_, ?_⟩
    · rw [← hSize, List.take_left, queryPacket_bytes]
      rfl
    · rw [List.length_append, List.length_drop]
      omega
    · rw [← hSize, List.drop_left]

/-- A name within the limits of the format, not compressed. -/
structure LegalName where
  labels : List Label
  short : (WireName.encode ⟨labels, .root⟩).length ≤ 255

def LegalName.encode (name : LegalName) : List Byte := WireName.encode ⟨name.labels, .root⟩

section

variable {labels : List (List Byte)}

theorem lengthOctets_encodeName (hLabels : ∀ label ∈ labels, label.length < 128 ∧ label ≠ []) :
    lengthOctets (encodeName labels) =
      (labels.map fun label => BitVec.ofNat 8 label.length) ++ [0#8] := by
  induction labels with
  | nil => exact lengthOctets_last (.inl rfl) []
  | cons label labels ih =>
    obtain ⟨⟨hShort, hLabel⟩, hOthers⟩ := List.forall_mem_cons.mp hLabels
    have hLength := toNat_labelLength hShort
    rw [encodeName_cons, lengthOctets_label (labelLength_ne_zero hShort hLabel) (by omega),
      hLength, List.drop_left, ih hOthers, List.map_cons, List.cons_append]

theorem exists_labels (hLabels : ∀ label ∈ labels, label.length ≤ 63 ∧ label ≠ []) :
    ∃ wireLabels : List Label, wireLabels.map Label.bytes = labels := by
  have hRange : labels ∈ Set.range (List.map Label.bytes) := by
    rw [Set.range_list_map]
    intro label hLabel
    obtain ⟨hShort, hNonempty⟩ := hLabels label hLabel
    exact ⟨⟨label, List.length_pos_iff.mpr hNonempty, hShort⟩, rfl⟩
  exact hRange

theorem WireName.encode_root (labels : List Label) :
    WireName.encode ⟨labels, .root⟩ = encodeName (labels.map Label.bytes) := by
  induction labels with
  | nil => rfl
  | cons label labels ih => rw [encode_cons, ih, List.map_cons, encodeName_cons]

theorem encodeName_legal_iff (hLabels : ∀ label ∈ labels, label.length < 128 ∧ label ≠ []) :
    (∃ legal : LegalName, legal.encode = encodeName labels) ↔
      (∀ label ∈ labels, label.length ≤ 63) ∧ (encodeName labels).length ≤ 255 := by
  constructor
  · rintro ⟨legal, hEncode⟩
    refine ⟨fun label hLabel => ?_, hEncode ▸ legal.short⟩
    obtain ⟨hShort, -⟩ := hLabels label hLabel
    have hOctet : BitVec.ofNat 8 label.length ∈ lengthOctets legal.encode := by
      rw [hEncode, lengthOctets_encodeName hLabels]
      exact List.mem_append_left _ (List.mem_map_of_mem hLabel)
    have hUnreserved := WireName.not_reserved ⟨legal.labels, .root⟩ _ hOctet
    rw [Reserved, toNat_labelLength hShort] at hUnreserved
    omega
  · rintro ⟨hShort, hTotal⟩
    obtain ⟨wireLabels, rfl⟩ :=
      exists_labels fun label hLabel => ⟨hShort label hLabel, (hLabels label hLabel).2⟩
    rw [← WireName.encode_root] at hTotal ⊢
    exact ⟨⟨wireLabels, hTotal⟩, rfl⟩

end

/-- The name in a completed query is legal exactly when no label is longer than 63
bytes and all of them, with their lengths and the end, take 255 bytes at most. -/
theorem written_legal_iff_short {name buffer out : List Byte} {queryType : BitVec 16} {size : Nat}
    (h : makeQueryPacket name buffer queryType = .ret (size, out)) :
    let labels := (name.splitOn dot).filter (· ≠ [])
    (∃ legal : LegalName, legal.encode = (out.take (size - 4)).drop 12) ↔
      (∀ label ∈ labels, label.length ≤ 63) ∧
        (labels.map fun label => label.length + 1).sum + 1 ≤ 255 := by
  intro labels
  obtain ⟨hShort, -⟩ := makeQueryPacket_eq_ret_iff.mp h
  rw [written_name h, encodeName_legal_iff (nameLabels_short hShort), length_encodeName]
  rfl

theorem written_legal_iff_short_dots :
    ∃ legal : LegalName, legal.encode = [1, 97, 2, 98, 99, 0] := by
  have hPacket : makeQueryPacket [46, 97, 46, 46, 98, 99, 46] (List.replicate 32 7) TYPE_A =
      .ret (22, [0, 0, 1, 32, 0, 1, 0, 0, 0, 0, 0, 0, 1, 97, 2, 98, 99, 0, 0, 1, 0, 1] ++
        List.replicate 10 7) := by
    decide +kernel
  refine (written_legal_iff_short hPacket).mpr ?_
  decide +kernel

theorem written_of_overlong {name buffer : List Byte} {size : Nat}
    (hShort : ∀ label ∈ name.splitOn dot, label.length < 128)
    (hSize : (queryPacket name TYPE_A).length = size) (hRoom : size ≤ buffer.length)
    (hOverlong : ¬ ((∀ label ∈ nameLabels name, label.length ≤ 63) ∧
      (encodeName (nameLabels name)).length ≤ 255)) :
    ∃ out, makeQueryPacket name buffer TYPE_A = .ret (size, out) ∧
      ¬ ∃ legal : LegalName, legal.encode = (out.take (size - 4)).drop 12 := by
  subst hSize
  have hRet := makeQueryPacket_eq_ret_iff.mpr ⟨hShort, hRoom, rfl, rfl⟩
  refine ⟨_, hRet, ?_⟩
  rw [written_name hRet, encodeName_legal_iff (nameLabels_short hShort)]
  exact hOverlong

/-- A label of 64 bytes, and a name of 257 bytes whose labels have 63. -/
theorem written_not_legal :
    (∃ out, makeQueryPacket (List.replicate 64 97#8) (List.replicate 128 0#8) TYPE_A =
        .ret (82, out) ∧
      ¬ ∃ legal : LegalName, legal.encode = (out.take (82 - 4)).drop 12) ∧
    ∃ out, makeQueryPacket (List.replicate 4 (List.replicate 63 97#8 ++ [dot])).flatten
        (List.replicate 512 0#8) TYPE_A = .ret (273, out) ∧
      ¬ ∃ legal : LegalName, legal.encode = (out.take (273 - 4)).drop 12 := by
  constructor
  · apply written_of_overlong <;> decide +kernel
  · apply written_of_overlong <;> decide +kernel

end Ground.Dns
