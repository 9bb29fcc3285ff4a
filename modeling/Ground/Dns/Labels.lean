import Ground.Dns.Encode
import Ground.Dns.Parse

/-! # The encoder and the parser agree on names

The name of a query is one that `name_size` accepts, and it is decoded to the
labels that were encoded. A reply that echoes the query is parsed past it.
-/

namespace Ground.Dns

/-- The labels of an uncompressed name, with nothing after its end. -/
def readLabels : List Byte → Option (List (List Byte))
  | [] => none
  | first :: rest =>
    if first = 0#8 then if rest = [] then some [] else none
    else if first.toNat ≤ 127 ∧ first.toNat ≤ rest.length then
      (readLabels (rest.drop first.toNat)).map fun labels => rest.take first.toNat :: labels
    else none
termination_by bytes => bytes.length
decreasing_by
  rw [List.length_drop, List.length_cons]
  omega

theorem encodeName_cons (label : List Byte) (labels : List (List Byte)) :
    encodeName (label :: labels) =
      BitVec.ofNat 8 label.length :: (label ++ encodeName labels) := by
  simp [encodeName, encodeLabel]

section

variable {labels : List (List Byte)} (hLabels : ∀ label ∈ labels, label.length < 128 ∧ label ≠ [])

include hLabels

theorem name_encodeName : Name (encodeName labels) := by
  induction labels with
  | nil => exact .root
  | cons label labels ih =>
    obtain ⟨⟨hShort, hLabel⟩, hOthers⟩ := List.forall_mem_cons.mp hLabels
    have hLength := toNat_labelLength hShort
    rw [encodeName_cons]
    exact .label _ label _ (labelLength_ne_zero hShort hLabel) (by omega) hLength.symm
      (ih hOthers)

theorem readLabels_encodeName : readLabels (encodeName labels) = some labels := by
  induction labels with
  | nil =>
    rw [encodeName, List.flatMap_nil, List.nil_append, readLabels, if_pos rfl, if_pos rfl]
  | cons label labels ih =>
    obtain ⟨⟨hShort, hLabel⟩, hOthers⟩ := List.forall_mem_cons.mp hLabels
    have hLength := toNat_labelLength hShort
    have hRoom : label.length ≤ 127 ∧ label.length ≤ (label ++ encodeName labels).length := by
      rw [List.length_append]
      omega
    rw [encodeName_cons, readLabels, if_neg (labelLength_ne_zero hShort hLabel), hLength,
      if_pos hRoom, List.drop_left, List.take_left, ih hOthers]
    rfl

end

theorem length_typeAndClass (queryType : BitVec 16) : (typeAndClass queryType).length = 4 := by
  simp [typeAndClass, toBeBytes]

theorem queryPacket_name (name : List Byte) (queryType : BitVec 16) :
    ((queryPacket name queryType).take ((queryPacket name queryType).length - 4)).drop 12 =
      encodeName (nameLabels name) := by
  have hSize : (queryPacket name queryType).length - 4 =
      (queryHeader.encode ++ encodeName (nameLabels name)).length := by
    rw [queryPacket, ← List.append_assoc, List.length_append, length_typeAndClass]
    exact Nat.add_sub_cancel ..
  rw [hSize, queryPacket, ← List.append_assoc, List.take_left,
    ← Header.length_encode queryHeader, List.drop_left]

theorem written_name {name buffer out : List Byte} {queryType : BitVec 16} {size : Nat}
    (h : makeQueryPacket name buffer queryType = .ret (size, out)) :
    (out.take (size - 4)).drop 12 = encodeName (nameLabels name) := by
  obtain ⟨-, -, rfl, rfl⟩ := makeQueryPacket_eq_ret_iff.mp h
  rw [List.take_append_of_le_length (Nat.sub_le ..), queryPacket_name]

theorem queryPacket_inj {name name' : List Byte} {queryType : BitVec 16}
    (hLabels : ∀ label ∈ nameLabels name, label.length < 128 ∧ label ≠ [])
    (hLabels' : ∀ label ∈ nameLabels name', label.length < 128 ∧ label ≠ []) :
    queryPacket name queryType = queryPacket name' queryType ↔
      nameLabels name = nameLabels name' := by
  constructor
  · intro hEq
    have hName := queryPacket_name name queryType
    rw [hEq, queryPacket_name] at hName
    have hRead := readLabels_encodeName hLabels
    rw [← hName, readLabels_encodeName hLabels'] at hRead
    exact (Option.some.inj hRead).symm
  · intro hEq
    rw [queryPacket, queryPacket, hEq]

theorem nameLabels_short {name : List Byte}
    (h : ∀ label ∈ name.splitOn dot, label.length < 128) :
    ∀ label ∈ nameLabels name, label.length < 128 ∧ label ≠ [] := by
  intro label hLabel
  obtain ⟨hMem, hNonempty⟩ := List.mem_filter.mp hLabel
  exact ⟨h label hMem, of_decide_eq_true hNonempty⟩

/-- What a completed query contains, and what becomes of it in the parser. -/
theorem query_agrees {name buffer out : List Byte} {queryType : BitVec 16} {size : Nat}
    (h : makeQueryPacket name buffer queryType = .ret (size, out)) :
    readLabels ((out.take (size - 4)).drop 12) = some ((name.splitOn dot).filter (· ≠ [])) ∧
    (∀ name' buffer' out' size', makeQueryPacket name' buffer' queryType = .ret (size', out') →
      (out.take size = out'.take size' ↔
        (name.splitOn dot).filter (· ≠ []) = (name'.splitOn dot).filter (· ≠ []))) ∧
    (∀ s, nameSize ((out.take size).drop 12 ++ s) = .ok (size - 16)) ∧
    ∃ (header : Header) (body : List Byte), out.take size = header.encode ++ body ∧
      ∀ (flags answerCount : BitVec 16) (s : List Byte), flags &&& 0x8000#16 = 0x8000#16 →
        flags &&& 0xf#16 = 0#16 → answerCount ≠ 0#16 → s ≠ [] →
        parseResponsePacket ({ header with flags, answerCount }.encode ++ (body ++ s)) =
          .ret (.ok { buffer := s, answerCount := answerCount.toNat }) := by
  have hWritten := written_name h
  obtain ⟨hShort, -, rfl, rfl⟩ := makeQueryPacket_eq_ret_iff.mp h
  have hLabels := nameLabels_short hShort
  have hName := name_encodeName hLabels
  have hTake : (queryPacket name queryType ++
      buffer.drop (queryPacket name queryType).length).take (queryPacket name queryType).length =
      queryPacket name queryType := List.take_left
  have hBody : (queryPacket name queryType).drop 12 =
      encodeName (nameLabels name) ++ typeAndClass queryType := by
    rw [queryPacket, ← Header.length_encode queryHeader, List.drop_left]
  have hSize : (queryPacket name queryType).length - 16 =
      (encodeName (nameLabels name)).length := by
    rw [queryPacket, List.length_append, List.length_append, Header.length_encode,
      length_typeAndClass]
    omega
  rw [hTake]
  refine ⟨?_, ?_, ?_, queryHeader, _, rfl, ?_⟩
  · rw [hWritten]
    exact readLabels_encodeName hLabels
  · intro name' buffer' out' size' h'
    obtain ⟨hShort', -, rfl, rfl⟩ := makeQueryPacket_eq_ret_iff.mp h'
    rw [List.take_left]
    exact queryPacket_inj hLabels (nameLabels_short hShort')
  · intro s
    rw [hBody, hSize, List.append_assoc]
    exact hName.nameSize_append _
  · intro flags answerCount s hResponse hNoError hAnswers hs
    let question : Question AcceptedName :=
      { name := ⟨encodeName (nameLabels name), name_iff.mpr hName⟩
        typeAndClass := ⟨typeAndClass queryType, length_typeAndClass queryType⟩ }
    have hQuestion : encodeName (nameLabels name) ++ typeAndClass queryType ++ s =
        [question].flatMap Question.encode ++ s := by
      simp [question, Question.encode, Named.encode]
    rw [hQuestion]
    refine (parse_questions_iff { queryHeader with flags, answerCount } [question] rfl hs
      _).mpr ⟨hResponse, hNoError, ?_, rfl⟩
    intro hZero
    exact hAnswers (BitVec.eq_of_toNat_eq hZero)

theorem query_agrees_dots :
    readLabels [1, 97, 2, 98, 99, 0] = some [[97], [98, 99]] := by
  have hPacket : makeQueryPacket [46, 97, 46, 46, 98, 99, 46] (List.replicate 32 7) TYPE_A =
      .ret (22, [0, 0, 1, 32, 0, 1, 0, 0, 0, 0, 0, 0, 1, 97, 2, 98, 99, 0, 0, 1, 0, 1] ++
        List.replicate 10 7) := by
    decide +kernel
  exact (query_agrees hPacket).1

end Ground.Dns
