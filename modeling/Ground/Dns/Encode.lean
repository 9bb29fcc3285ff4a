import Ground.Dns.Query
import Ground.Dns.Wire

/-! # What `make_query_packet` writes

It completes exactly when all labels are short enough and the packet fits, and
then the buffer is the packet followed by what was there before.
-/

namespace Ground.Dns

namespace PacketBuffer

variable {buffer buffer' : PacketBuffer}

/-- These bytes are written next. -/
def Fills (buffer : PacketBuffer) (bytes : List Byte) (buffer' : PacketBuffer) : Prop :=
  bytes.length ≤ buffer.rest.length ∧
    buffer' = { written := buffer.written ++ bytes, rest := buffer.rest.drop bytes.length }

theorem fills_nil : buffer.Fills [] buffer' ↔ buffer' = buffer := by
  simp [Fills]

theorem fills_append {front back : List Byte} :
    buffer.Fills (front ++ back) buffer' ↔
      ∃ mid, buffer.Fills front mid ∧ mid.Fills back buffer' := by
  constructor
  · rintro ⟨hRoom, rfl⟩
    rw [List.length_append] at hRoom
    refine ⟨_, ⟨by omega, rfl⟩, ?_, ?_⟩
    · rw [List.length_drop]
      omega
    · simp
  · rintro ⟨_, ⟨hFront, rfl⟩, hBack, rfl⟩
    rw [List.length_drop] at hBack
    refine ⟨?_, by simp⟩
    rw [List.length_append]
    omega

theorem fill_eq_ret_iff {bytes : List Byte} :
    buffer.fill bytes = .ret buffer' ↔ buffer.Fills bytes buffer' := by
  obtain hRoom | hFull := Nat.lt_or_ge buffer.rest.length bytes.length
  · have hSlice : slice QueryPanic.sliceIndex buffer.rest 0 bytes.length = .panic .sliceIndex := by
      rw [slice, if_neg (by omega)]
    rw [fill, hSlice, Outcome.panic_bind]
    constructor
    · intro h
      cases h
    · rintro ⟨hRoom', -⟩
      omega
  · have hDest : slice QueryPanic.sliceIndex buffer.rest 0 bytes.length =
        .ret (buffer.rest.take bytes.length) := by
      rw [slice, if_pos ⟨Nat.zero_le _, hFull⟩]
      rfl
    have hCopy : copyFromSlice (buffer.rest.take bytes.length) bytes = .ret bytes := by
      rw [copyFromSlice, if_pos (by rw [List.length_take]; omega)]
    have hRest : slice QueryPanic.sliceIndex buffer.rest bytes.length buffer.rest.length =
        .ret (buffer.rest.drop bytes.length) := by
      rw [slice, if_pos ⟨hFull, Nat.le_refl _⟩, List.take_of_length_le]
      rw [List.length_drop]
    rw [fill, hDest, Outcome.ret_bind, hCopy, Outcome.ret_bind, hRest, Outcome.ret_bind,
      Outcome.pure_eq, Outcome.ret.injEq, Fills]
    constructor
    · intro h
      exact ⟨hFull, h.symm⟩
    · rintro ⟨-, h⟩
      exact h.symm

theorem fill_bind_eq_ret_iff {α : Type} {bytes : List Byte}
    {f : PacketBuffer → Outcome QueryPanic α} {a : α} :
    (buffer.fill bytes >>= f) = .ret a ↔
      ∃ mid, buffer.Fills bytes mid ∧ f mid = .ret a := by
  simp only [Outcome.bind_eq_ret_iff, fill_eq_ret_iff]

end PacketBuffer

def nameLabels (name : List Byte) : List (List Byte) :=
  (name.splitOn dot).filter (· ≠ [])

def encodeLabel (label : List Byte) : List Byte := BitVec.ofNat 8 label.length :: label

def encodeName (labels : List (List Byte)) : List Byte := labels.flatMap encodeLabel ++ [0#8]

def queryHeader : Header where
  id := 0#16
  flags := 0x0120#16
  questionCount := 1#16
  answerCount := 0#16
  authorityCount := 0#16
  additionalCount := 0#16

def typeAndClass (queryType : BitVec 16) : List Byte :=
  (toBeBytes (n := 2) queryType).1 ++ (toBeBytes (n := 2) C_IN).1

def queryPacket (name : List Byte) (queryType : BitVec 16) : List Byte :=
  queryHeader.encode ++ (encodeName (nameLabels name) ++ typeAndClass queryType)

theorem PacketBuffer.putLabels_eq_ret_iff {buffer buffer' : PacketBuffer}
    {labels : List (List Byte)} : buffer.putLabels labels = .ret buffer' ↔
      (∀ label ∈ labels, label.length < 128) ∧
        buffer.Fills ((labels.filter (· ≠ [])).flatMap encodeLabel) buffer' := by
  induction labels generalizing buffer with
  | nil => simp [putLabels, fills_nil, eq_comm]
  | cons label labels ih =>
    rw [putLabels]
    obtain rfl | hLabel := eq_or_ne label []
    · rw [if_pos rfl, ih]
      simp
    · rw [if_neg hLabel]
      obtain hShort | hLong := Nat.lt_or_ge label.length 128
      · have hEncode : encodeLabel label = [BitVec.ofNat 8 label.length] ++ label := rfl
        simp only [put, toBeBytes_byte, hShort, not_true_eq_false, if_false, fill_bind_eq_ret_iff,
          ih]
        simp only [List.mem_cons, forall_eq_or_imp, hShort, true_and, ne_eq, hLabel,
          not_false_eq_true, decide_true, List.filter_cons_of_pos, List.flatMap_cons, hEncode,
          List.append_assoc, fills_append]
        constructor
        · rintro ⟨first, hFirst, second, hSecond, hShorts, hRest⟩
          exact ⟨hShorts, first, hFirst, second, hSecond, hRest⟩
        · rintro ⟨hShorts, first, hFirst, second, hSecond, hRest⟩
          exact ⟨first, hFirst, second, hSecond, hShorts, hRest⟩
      · simp only [Nat.not_lt.mpr hLong, not_false_eq_true, if_true]
        constructor
        · intro h
          cases h
        · rintro ⟨hShorts, -⟩
          exact absurd (hShorts label List.mem_cons_self) (Nat.not_lt.mpr hLong)

/-- Completing is having short labels and room for the packet. -/
theorem makeQueryPacket_eq_ret_iff {name buffer out : List Byte} {queryType : BitVec 16}
    {size : Nat} : makeQueryPacket name buffer queryType = .ret (size, out) ↔
      (∀ label ∈ name.splitOn dot, label.length < 128) ∧
        (queryPacket name queryType).length ≤ buffer.length ∧
        size = (queryPacket name queryType).length ∧
        out = queryPacket name queryType ++ buffer.drop (queryPacket name queryType).length := by
  have hPacket : queryPacket name queryType = (toBeBytes (n := 2) 0#16).1 ++
      ((toBeBytes (n := 2) 0x0120#16).1 ++ ((toBeBytes (n := 2) 1#16).1 ++
      ((toBeBytes (n := 2) 0#16).1 ++ ((toBeBytes (n := 2) 0#16).1 ++
      ((toBeBytes (n := 2) 0#16).1 ++ ((nameLabels name).flatMap encodeLabel ++
      ((toBeBytes (n := 1) 0#8).1 ++ ((toBeBytes (n := 2) queryType).1 ++
      (toBeBytes (n := 2) C_IN).1)))))))) := by
    rw [toBeBytes_byte]
    simp [queryPacket, Header.encode, queryHeader, encodeName, typeAndClass]
  rw [makeQueryPacket]
  simp only [PacketBuffer.put, PacketBuffer.fill_bind_eq_ret_iff]
  simp only [Outcome.bind_eq_ret_iff, PacketBuffer.putLabels_eq_ret_iff,
    PacketBuffer.fill_eq_ret_iff, Outcome.pure_eq, Outcome.ret.injEq, Prod.mk.injEq]
  constructor
  · rintro ⟨b₁, h₁, b₂, h₂, b₃, h₃, b₄, h₄, b₅, h₅, b₆, h₆, b₇, ⟨hShort, h₇⟩, b₈, h₈, b₉, h₉,
      final, h₁₀, rfl, rfl⟩
    have hFills : PacketBuffer.Fills ⟨[], buffer⟩ (queryPacket name queryType) final := by
      rw [hPacket]
      simp only [PacketBuffer.fills_append]
      exact ⟨b₁, h₁, b₂, h₂, b₃, h₃, b₄, h₄, b₅, h₅, b₆, h₆, b₇, h₇, b₈, h₈, b₉, h₉, h₁₀⟩
    obtain ⟨hRoom, rfl⟩ := hFills
    refine ⟨hShort, hRoom, ?_, rfl⟩
    change buffer.length - (buffer.drop _).length = _
    rw [List.length_drop]
    change _ ≤ buffer.length at hRoom
    omega
  · rintro ⟨hShort, hRoom, rfl, rfl⟩
    have hFills : PacketBuffer.Fills ⟨[], buffer⟩ (queryPacket name queryType)
        ⟨queryPacket name queryType, buffer.drop (queryPacket name queryType).length⟩ :=
      ⟨hRoom, rfl⟩
    nth_rewrite 1 [hPacket] at hFills
    simp only [PacketBuffer.fills_append] at hFills
    obtain ⟨b₁, h₁, b₂, h₂, b₃, h₃, b₄, h₄, b₅, h₅, b₆, h₆, b₇, h₇, b₈, h₈, b₉, h₉, h₁₀⟩ := hFills
    refine ⟨b₁, h₁, b₂, h₂, b₃, h₃, b₄, h₄, b₅, h₅, b₆, h₆, b₇, ⟨hShort, h₇⟩, b₈, h₈, b₉, h₉, _,
      h₁₀, ?_, rfl⟩
    change buffer.length - (buffer.drop _).length = _
    rw [List.length_drop]
    omega

end Ground.Dns
