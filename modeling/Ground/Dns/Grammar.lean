import Ground.Dns.Wire

/-! # Length octets

The grammar of names has lengths up to 63 and pointers from 192. `name_size` takes
every octet up to 127 for a length and every other for a pointer, so the octets
between are what tells the two apart.
-/

namespace Ground.Dns

/-- The octets that the walk over a name takes for lengths, and the one it ends at. -/
def lengthOctets : List Byte → List Byte
  | [] => []
  | first :: rest =>
    if first = 0#8 ∨ 127 < first.toNat then [first]
    else first :: lengthOctets (rest.drop first.toNat)
termination_by bytes => bytes.length
decreasing_by
  rw [List.length_drop, List.length_cons]
  omega

def Reserved (octet : Byte) : Prop := 64 ≤ octet.toNat ∧ octet.toNat ≤ 191

instance (octet : Byte) : Decidable (Reserved octet) := inferInstanceAs (Decidable (_ ∧ _))

inductive RunsOff : List Byte → Prop where
  | label (first : Byte) (rest : List Byte) : first ≠ 0#8 → first.toNat ≤ 127 →
      RunsOff (rest.drop first.toNat) → RunsOff (first :: rest)
  | pointer (first : Byte) : 127 < first.toNat → RunsOff [first]
  | nil : RunsOff []

/-- The walk of the grammar meets a reserved octet or leaves the buffer. -/
inductive Malformed : List Byte → Prop where
  | label (first : Byte) (rest : List Byte) : first ≠ 0#8 → first.toNat ≤ 63 →
      Malformed (rest.drop first.toNat) → Malformed (first :: rest)
  | reserved (first : Byte) (rest : List Byte) : Reserved first → Malformed (first :: rest)
  | pointer (first : Byte) : 192 ≤ first.toNat → Malformed [first]
  | nil : Malformed []

theorem lengthOctets_label {first : Byte} (hNonzero : first ≠ 0#8) (hSmall : first.toNat ≤ 127)
    (rest : List Byte) :
    lengthOctets (first :: rest) = first :: lengthOctets (rest.drop first.toNat) := by
  rw [lengthOctets, if_neg (not_or.mpr ⟨hNonzero, Nat.not_lt.mpr hSmall⟩)]

theorem lengthOctets_last {first : Byte} (hLast : first = 0#8 ∨ 127 < first.toNat)
    (rest : List Byte) : lengthOctets (first :: rest) = [first] := by
  rw [lengthOctets, if_pos hLast]

theorem Name.lengthOctets_append {name : List Byte} (h : Name name) (rest : List Byte) :
    lengthOctets (name ++ rest) = lengthOctets name := by
  induction h with
  | root =>
    rw [List.cons_append, lengthOctets_last (.inl rfl), lengthOctets_last (.inl rfl)]
  | pointer first second hLarge =>
    rw [List.cons_append, lengthOctets_last (.inr hLarge), lengthOctets_last (.inr hLarge)]
  | label first label tail hNonzero hSmall hLength _ ih =>
    rw [List.cons_append, lengthOctets_label hNonzero hSmall, lengthOctets_label hNonzero hSmall,
      List.append_assoc, ← hLength, List.drop_left, List.drop_left, ih]

theorem runsOff_or_starts (buffer : List Byte) : RunsOff buffer ∨ ∃ size, Starts buffer size := by
  fun_induction lengthOctets buffer with
  | case1 => exact .inl .nil
  | case2 first rest hLast =>
    obtain hZero | hLarge := hLast
    · exact .inr ⟨1, (starts_root hZero).mpr rfl⟩
    · obtain rfl | hRest := eq_or_ne rest []
      · exact .inl (.pointer first hLarge)
      · exact .inr ⟨2, (starts_pointer hLarge).mpr ⟨hRest, rfl⟩⟩
  | case3 first rest hLabel ih =>
    obtain ⟨hNonzero, hSmall⟩ := not_or.mp hLabel
    have hSmall := Nat.not_lt.mp hSmall
    obtain hOff | ⟨size, hStarts⟩ := ih
    · exact .inl (.label first rest hNonzero hSmall hOff)
    · exact .inr ⟨_, (starts_label hNonzero hSmall).mpr ⟨size, hStarts, rfl⟩⟩

theorem RunsOff.not_starts {buffer : List Byte} (h : RunsOff buffer) (size : Nat) :
    ¬ Starts buffer size := by
  induction h generalizing size with
  | label first rest hNonzero hSmall _ ih =>
    rw [starts_label hNonzero hSmall]
    rintro ⟨size', hStarts, -⟩
    exact ih size' hStarts
  | pointer first hLarge => simp [starts_pointer hLarge]
  | nil => exact not_starts_nil size

theorem RunsOff.nameSize_error {buffer : List Byte} (h : RunsOff buffer) :
    nameSize buffer = .error invalidData := by
  cases hSize : nameSize buffer with
  | error e => exact congrArg _ (nameSizeFrom_error hSize)
  | ok size => exact absurd (nameSize_eq_ok_iff.mp hSize) (h.not_starts size)

theorem Malformed.runsOff_or_reserved {buffer : List Byte} (h : Malformed buffer) :
    RunsOff buffer ∨ ∃ octet ∈ lengthOctets buffer, Reserved octet := by
  induction h with
  | label first rest hNonzero hSmall _ ih =>
    have hSmall : first.toNat ≤ 127 := by omega
    rw [lengthOctets_label hNonzero hSmall]
    obtain hOff | ⟨octet, hOctet, hReserved⟩ := ih
    · exact .inl (.label first rest hNonzero hSmall hOff)
    · exact .inr ⟨octet, List.mem_cons_of_mem _ hOctet, hReserved⟩
  | reserved first rest hReserved =>
    refine .inr ⟨first, ?_, hReserved⟩
    rw [lengthOctets]
    split
    · exact List.mem_singleton_self first
    · exact List.mem_cons_self
  | pointer first hLarge => exact .inl (.pointer first (by omega))
  | nil => exact .inl .nil

theorem WireName.not_reserved (wire : WireName) :
    ∀ octet ∈ lengthOctets wire.encode, ¬ Reserved octet := by
  obtain ⟨labels, ending⟩ := wire
  induction labels with
  | nil =>
    cases ending with
    | root => simp [WireName.encode, Ending.encode, lengthOctets_last, Reserved]
    | pointer first second compressed =>
      have hLast : first = 0#8 ∨ 127 < first.toNat := .inr (by omega)
      simp only [WireName.encode, Ending.encode, List.flatMap_nil, List.nil_append,
        lengthOctets_last hLast, List.mem_singleton, forall_eq, Reserved]
      omega
  | cons label labels ih =>
    obtain ⟨hNonzero, hSize⟩ := label.toNat_length
    have hHigh := label.short
    rw [encode_cons, lengthOctets_label hNonzero (by omega), hSize, List.drop_left,
      List.forall_mem_cons]
    constructor
    · rintro ⟨hReserved, -⟩
      omega
    · exact ih

theorem Name.wireName_iff {name : List Byte} (h : Name name) :
    (∃ wire : WireName, wire.encode = name) ↔ ∀ octet ∈ lengthOctets name, ¬ Reserved octet := by
  constructor
  · rintro ⟨wire, rfl⟩
    exact wire.not_reserved
  · intro hOctets
    induction h with
    | root => exact ⟨⟨[], .root⟩, rfl⟩
    | pointer first second hLarge =>
      rw [lengthOctets_last (.inr hLarge), List.forall_mem_singleton] at hOctets
      unfold Reserved at hOctets
      exact ⟨⟨[], .pointer first second (by omega)⟩, rfl⟩
    | label first label rest hNonzero hSmall hLength _ ih =>
      rw [lengthOctets_label hNonzero hSmall, ← hLength, List.drop_left,
        List.forall_mem_cons] at hOctets
      obtain ⟨hFirst, hRest⟩ := hOctets
      obtain ⟨⟨labels, ending⟩, rfl⟩ := ih hRest
      have hLow : first.toNat ≠ 0 := by
        intro hZero
        exact hNonzero (BitVec.eq_of_toNat_eq hZero)
      unfold Reserved at hFirst
      have hOctet : BitVec.ofNat 8 label.length = first := by
        rw [hLength, BitVec.ofNat_toNat, BitVec.setWidth_eq]
      refine ⟨⟨⟨label, by omega, by omega⟩ :: labels, ending⟩, ?_⟩
      rw [WireName.encode_cons, hOctet]

def StartsWire (buffer : List Byte) (size : Nat) : Prop :=
  ∃ (wire : WireName) (rest : List Byte), buffer = wire.encode ++ rest ∧ wire.encode.length = size

/-- `name_size` accepts what the grammar does, and rejects what it does not. -/
def ReadsGrammar (buffer : List Byte) : Prop :=
  (∀ size, nameSize buffer = .ok size ↔ StartsWire buffer size) ∧
    (Malformed buffer → nameSize buffer = .error invalidData)

theorem StartsWire.nameSize_ok {buffer : List Byte} {size : Nat} (h : StartsWire buffer size) :
    nameSize buffer = .ok size := by
  obtain ⟨wire, rest, rfl, rfl⟩ := h
  exact wire.isName.nameSize_append rest

theorem readsGrammar_of_runsOff {buffer : List Byte} (h : RunsOff buffer) :
    ReadsGrammar buffer := by
  refine ⟨fun size => ⟨fun hSize => ?_, StartsWire.nameSize_ok⟩, fun _ => h.nameSize_error⟩
  cases hSize.symm.trans h.nameSize_error

theorem readsGrammar_of_unreserved {buffer : List Byte}
    (h : ∀ octet ∈ lengthOctets buffer, ¬ Reserved octet) : ReadsGrammar buffer := by
  refine ⟨fun size => ⟨fun hSize => ?_, StartsWire.nameSize_ok⟩, fun hMalformed => ?_⟩
  · obtain ⟨name, rest, rfl, hName, rfl⟩ := nameSize_eq_ok_iff.mp hSize
    rw [hName.lengthOctets_append] at h
    obtain ⟨wire, rfl⟩ := hName.wireName_iff.mpr h
    exact ⟨wire, rest, rfl, rfl⟩
  · obtain hOff | ⟨octet, hOctet, hReserved⟩ := hMalformed.runsOff_or_reserved
    · exact hOff.nameSize_error
    · exact absurd hReserved (h octet hOctet)

/-- `name_size` follows the grammar exactly on the buffers whose walk meets no octet
from 64 to 191, and on those whose walk leaves them. -/
theorem readsGrammar_iff_unreserved (buffer : List Byte) :
    ReadsGrammar buffer ↔
      (∀ octet ∈ lengthOctets buffer, ¬ Reserved octet) ∨ RunsOff buffer := by
  constructor
  · rintro ⟨hReads, -⟩
    obtain hOff | ⟨size, hStarts⟩ := runsOff_or_starts buffer
    · exact .inr hOff
    · left
      obtain ⟨wire, rest, rfl, -⟩ := (hReads size).mp (nameSize_eq_ok_iff.mpr hStarts)
      rw [wire.isName.lengthOctets_append]
      exact wire.not_reserved
  · rintro (hOctets | hOff)
    · exact readsGrammar_of_unreserved hOctets
    · exact readsGrammar_of_runsOff hOff

/-- The first octet is read as a pointer in one buffer, and as the length of a label
in the other. The grammar has it for neither. -/
theorem reserved_read :
    (nameSize [0x80#8, 0#8] = .ok 2 ∧ ¬ ReadsGrammar [0x80#8, 0#8]) ∧
    nameSize (64#8 :: List.replicate 65 0#8) = .ok 66 ∧
      ¬ ReadsGrammar (64#8 :: List.replicate 65 0#8) := by
  have hPointer : nameSize [0x80#8, 0#8] = .ok 2 := by decide +kernel
  have hLabel : nameSize (64#8 :: List.replicate 65 0#8) = .ok 66 := by decide +kernel
  refine ⟨⟨hPointer, ?_⟩, hLabel, ?_⟩
  · rintro ⟨-, hRejects⟩
    cases hPointer.symm.trans (hRejects (.reserved _ _ (by decide)))
  · rintro ⟨-, hRejects⟩
    cases hLabel.symm.trans (hRejects (.reserved _ _ (by decide)))

end Ground.Dns
