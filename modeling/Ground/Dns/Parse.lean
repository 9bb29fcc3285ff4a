import Ground.Dns.Cursor

/-! # Parsing the header and the questions

Every packet of twelve bytes has a header, and the parser decides by its words
alone until it skips the questions. Skipping follows the layout exactly.
-/

namespace Ground.Dns

variable {N : Type} [Named N]

theorem beAt_header (header : Header) (rest : List Byte) :
    beAt 2 (header.encode ++ rest) 2 4 = .ret header.flags ∧
    beAt 2 (header.encode ++ rest) 4 6 = .ret header.questionCount ∧
    beAt 2 (header.encode ++ rest) 6 8 = .ret header.answerCount := by
  let id := (toBeBytes (n := 2) header.id).1
  let flags := (toBeBytes (n := 2) header.flags).1
  let questionCount := (toBeBytes (n := 2) header.questionCount).1
  have hId : id.length = 2 := (toBeBytes (n := 2) header.id).2
  have hFlags : flags.length = 2 := (toBeBytes (n := 2) header.flags).2
  have hQuestions : questionCount.length = 2 := (toBeBytes (n := 2) header.questionCount).2
  simp only [Header.encode, List.append_assoc]
  refine ⟨beAt_append (n := 2) id _ _ hId rfl, ?_, ?_⟩
  · have hFront : (id ++ flags).length = 4 := by rw [List.length_append, hId, hFlags]
    have h := beAt_append (n := 2) (id ++ flags) header.questionCount
      ((toBeBytes (n := 2) header.answerCount).1 ++ ((toBeBytes (n := 2) header.authorityCount).1 ++
        ((toBeBytes (n := 2) header.additionalCount).1 ++ rest))) hFront rfl
    simpa only [List.append_assoc] using h
  · have hFront : (id ++ flags ++ questionCount).length = 6 := by
      rw [List.length_append, List.length_append, hId, hFlags, hQuestions]
    have h := beAt_append (n := 2) (id ++ flags ++ questionCount) header.answerCount
      ((toBeBytes (n := 2) header.authorityCount).1 ++
        ((toBeBytes (n := 2) header.additionalCount).1 ++ rest)) hFront rfl
    simpa only [List.append_assoc] using h

theorem exists_header {bytes : List Byte} (h : 12 ≤ bytes.length) :
    ∃ (header : Header) (rest : List Byte), bytes = header.encode ++ rest := by
  obtain ⟨id, rest, rfl, hLength⟩ := exists_toBeBytes (n := 2) (Nat.le_trans (by decide) h)
  obtain ⟨flags, rest, rfl, hLength⟩ := exists_toBeBytes (n := 2) (show 2 ≤ rest.length by omega)
  obtain ⟨questions, rest, rfl, hLength⟩ :=
    exists_toBeBytes (n := 2) (show 2 ≤ rest.length by omega)
  obtain ⟨answers, rest, rfl, hLength⟩ := exists_toBeBytes (n := 2) (show 2 ≤ rest.length by omega)
  obtain ⟨authority, rest, rfl, hLength⟩ :=
    exists_toBeBytes (n := 2) (show 2 ≤ rest.length by omega)
  obtain ⟨additional, rest, rfl, -⟩ := exists_toBeBytes (n := 2) (show 2 ≤ rest.length by omega)
  exact ⟨⟨id, flags, questions, answers, authority, additional⟩, rest, by simp [Header.encode]⟩

theorem parse_header (header : Header) (rest : List Byte) :
    parseResponsePacket (header.encode ++ rest) =
      if header.flags &&& 0x8000#16 ≠ 0x8000#16 then .ret (.error invalidData)
      else if header.flags &&& 0xf#16 = 3#16 ∨ header.answerCount.toNat = 0 then
        .ret (.error (.ofKind .notFound))
      else if header.flags &&& 0xf#16 ≠ 0#16 then .ret (.error (.ofKind .other))
      else skipQuestions (header.encode ++ rest) header.questionCount.toNat 12 >>= fun
        | .error e => .ret (.error e)
        | .ok pos =>
          slice .sliceIndex (header.encode ++ rest) pos (header.encode ++ rest).length >>=
            fun buffer => .ret (.ok { buffer, answerCount := header.answerCount.toNat }) := by
  obtain ⟨hFlags, hQuestions, hAnswers⟩ := beAt_header header rest
  have hLong : ¬ (header.encode ++ rest).length < 12 := by
    rw [List.length_append, Header.length_encode]
    omega
  rw [parseResponsePacket, if_neg hLong, hFlags, Outcome.ret_bind, hQuestions, Outcome.ret_bind,
    hAnswers, Outcome.ret_bind]
  rfl

theorem Question.length_encode (question : Question N) :
    question.encode.length = (Named.encode question.name).length + 4 := by
  rw [Question.encode, List.length_append, question.typeAndClass.2]

theorem skipQuestions_question (front : List Byte) (question : Question N) (rest : List Byte)
    (count : Nat) :
    skipQuestions (front ++ (question.encode ++ rest)) (count + 1) front.length =
      if rest = [] then .ret (.error invalidData)
      else skipQuestions ((front ++ question.encode) ++ rest) count
        (front ++ question.encode).length := by
  have hSize : nameSize (question.encode ++ rest) = .ok (Named.encode question.name).length := by
    rw [Question.encode, List.append_assoc]
    exact (Named.isName question.name).nameSize_append _
  have hPos : front.length + (Named.encode question.name).length + 4 =
      (front ++ question.encode).length := by
    rw [List.length_append, question.length_encode]
    omega
  have hEnd : (front ++ question.encode).length ≥ (front ++ (question.encode ++ rest)).length ↔
      rest = [] := by
    rw [← List.length_eq_zero_iff]
    simp only [List.length_append]
    omega
  simp only [skipQuestions, slice_append_right, Outcome.ret_bind, hSize, hPos, hEnd,
    List.append_assoc]
  rfl

theorem skipQuestions_encode (front : List Byte) (questions : List (Question N))
    {rest : List Byte} (hRest : rest ≠ []) :
    skipQuestions (front ++ (questions.flatMap Question.encode ++ rest)) questions.length
      front.length = .ret (.ok (front ++ questions.flatMap Question.encode).length) := by
  induction questions generalizing front with
  | nil => simp [skipQuestions]
  | cons question questions ih =>
    have hNext := ih (front ++ question.encode)
    rw [List.flatMap_cons, List.append_assoc, List.length_cons, skipQuestions_question,
      if_neg (by simp [hRest]), hNext, List.append_assoc]

theorem question_cases (buffer : List Byte) :
    nameSize buffer = .error invalidData ∨
    (∃ name rest, Name name ∧ rest.length < 4 ∧ buffer = name ++ rest) ∨
    ∃ (question : Question AcceptedName) (rest : List Byte), buffer = question.encode ++ rest := by
  obtain hError | ⟨name, rest, hName, rfl, -⟩ := nameSize_cases buffer
  · exact .inl hError
  · obtain hShort | hLong := Nat.lt_or_ge rest.length 4
    · exact .inr (.inl ⟨name, rest, hName, hShort, rfl⟩)
    · have hTake : (rest.take 4).length = 4 := by
        rw [List.length_take]
        omega
      refine .inr (.inr ⟨⟨⟨name, name_iff.mpr hName⟩, ⟨rest.take 4, hTake⟩⟩, rest.drop 4, ?_⟩)
      simp [Question.encode, Named.encode]

theorem skipQuestions_cases (front body : List Byte) (count : Nat) :
    (∃ e, skipQuestions (front ++ body) count front.length = .ret (.error e)) ∨
    ∃ (questions : List (Question AcceptedName)) (rest : List Byte), questions.length = count ∧
      body = questions.flatMap Question.encode ++ rest ∧
      skipQuestions (front ++ body) count front.length =
        .ret (.ok (front ++ questions.flatMap Question.encode).length) := by
  induction count generalizing front body with
  | zero => exact .inr ⟨[], body, rfl, rfl, by simp [skipQuestions]⟩
  | succ count ih =>
    obtain hError | ⟨name, rest, hName, hShort, rfl⟩ | ⟨question, rest, rfl⟩ := question_cases body
    · refine .inl ⟨invalidData, ?_⟩
      simp only [skipQuestions, slice_append_right, Outcome.ret_bind, hError]
      rfl
    · refine .inl ⟨invalidData, ?_⟩
      simp only [skipQuestions, slice_append_right, Outcome.ret_bind, hName.nameSize_append]
      rw [if_pos (by simp only [List.length_append]; omega)]
      rfl
    · rw [skipQuestions_question]
      obtain rfl | hRest := eq_or_ne rest []
      · exact .inl ⟨invalidData, if_pos rfl⟩
      · rw [if_neg hRest]
        obtain hError | ⟨questions, rest, rfl, rfl, hOk⟩ := ih (front ++ question.encode) rest
        · exact .inl hError
        · refine .inr ⟨question :: questions, rest, rfl, ?_, ?_⟩
          · rw [List.flatMap_cons, List.append_assoc]
          · rw [hOk, List.flatMap_cons, List.append_assoc]

theorem parse_short {buffer : List Byte} (h : buffer.length < 12) :
    parseResponsePacket buffer = .ret (.error invalidData) := by
  rw [parseResponsePacket, if_pos h]
  rfl

theorem parse_skipped {header : Header} (rest : List Byte)
    (hResponse : header.flags &&& 0x8000#16 = 0x8000#16)
    (hNoError : header.flags &&& 0xf#16 = 0#16) (hAnswers : header.answerCount.toNat ≠ 0) :
    parseResponsePacket (header.encode ++ rest) =
      skipQuestions (header.encode ++ rest) header.questionCount.toNat 12 >>= fun
        | .error e => .ret (.error e)
        | .ok pos =>
          slice .sliceIndex (header.encode ++ rest) pos (header.encode ++ rest).length >>=
            fun buffer => .ret (.ok { buffer, answerCount := header.answerCount.toNat }) := by
  have hFound : ¬ (header.flags &&& 0xf#16 = 3#16 ∨ header.answerCount.toNat = 0) := by
    rintro (hName | hZero)
    · cases hNoError.symm.trans hName
    · exact hAnswers hZero
  rw [parse_header, if_neg (not_not.mpr hResponse), if_neg hFound, if_neg (not_not.mpr hNoError)]

theorem skipQuestions_error {buffer : List Byte} {count pos : Nat} {e : Error}
    (h : skipQuestions buffer count pos = .ret (.error e)) : e = invalidData := by
  induction count generalizing pos with
  | zero => cases h
  | succ count ih =>
    obtain ⟨rest, -, h⟩ := Outcome.bind_eq_ret_iff.mp h
    cases hSize : nameSize rest with
    | error e' =>
      simp only [hSize] at h
      cases h
      exact nameSizeFrom_error hSize
    | ok size =>
      simp only [hSize] at h
      split at h
      · cases h
        rfl
      · exact ih h

theorem parse_eq_ok_iff (header : Header) (rest : List Byte) (records : Records) :
    parseResponsePacket (header.encode ++ rest) = .ret (.ok records) ↔
      header.flags &&& 0x8000#16 = 0x8000#16 ∧ header.flags &&& 0xf#16 = 0#16 ∧
      header.answerCount.toNat ≠ 0 ∧
      ∃ pos, skipQuestions (header.encode ++ rest) header.questionCount.toNat 12 = .ret (.ok pos) ∧
        ∃ buffer,
          slice Panic.sliceIndex (header.encode ++ rest) pos (header.encode ++ rest).length =
            .ret buffer ∧ records = ⟨buffer, header.answerCount.toNat⟩ := by
  constructor
  · intro h
    rw [parse_header] at h
    split at h
    · cases h
    · rename_i hResponse
      split at h
      · cases h
      · rename_i hAnswers
        split at h
        · cases h
        · rename_i hNoError
          obtain ⟨skipped, hSkip, h⟩ := Outcome.bind_eq_ret_iff.mp h
          cases skipped with
          | error e => cases h
          | ok pos =>
            obtain ⟨buffer, hBuffer, h⟩ := Outcome.bind_eq_ret_iff.mp h
            cases h
            exact ⟨not_not.mp hResponse, not_not.mp hNoError, fun hZero => hAnswers (.inr hZero),
              pos, hSkip, buffer, hBuffer, rfl⟩
  · rintro ⟨hResponse, hNoError, hAnswers, pos, hSkip, buffer, hBuffer, rfl⟩
    rw [parse_skipped rest hResponse hNoError hAnswers, hSkip, Outcome.ret_bind]
    simp only [hBuffer, Outcome.ret_bind]

theorem parse_questions_iff (header : Header) (questions : List (Question N)) {body : List Byte}
    (hQuestions : questions.length = header.questionCount.toNat) (hBody : body ≠ [])
    (records : Records) :
    parseResponsePacket (header.encode ++ (questions.flatMap Question.encode ++ body)) =
        .ret (.ok records) ↔
      header.flags &&& 0x8000#16 = 0x8000#16 ∧ header.flags &&& 0xf#16 = 0#16 ∧
      header.answerCount.toNat ≠ 0 ∧ records = ⟨body, header.answerCount.toNat⟩ := by
  have hSkip := skipQuestions_encode header.encode questions hBody
  have hSlice := slice_append_right Panic.sliceIndex
    (header.encode ++ questions.flatMap Question.encode) body
  rw [Header.length_encode, hQuestions] at hSkip
  rw [List.append_assoc] at hSlice
  rw [parse_eq_ok_iff, hSkip]
  constructor
  · rintro ⟨hResponse, hNoError, hAnswers, pos, hPos, buffer, hBuffer, rfl⟩
    cases hPos
    cases hSlice.symm.trans hBuffer
    exact ⟨hResponse, hNoError, hAnswers, rfl⟩
  · rintro ⟨hResponse, hNoError, hAnswers, rfl⟩
    exact ⟨hResponse, hNoError, hAnswers, _, rfl, body, hSlice, rfl⟩

/-- A packet that is parsed has a header of a successful response and as many
questions as it counts; the iterator starts after them. -/
theorem parse_ok {packet : List Byte} {records : Records}
    (h : parseResponsePacket packet = .ret (.ok records)) :
    ∃ (header : Header) (questions : List (Question AcceptedName)),
      packet = header.encode ++ (questions.flatMap Question.encode ++ records.buffer) ∧
      header.flags &&& 0x8000#16 = 0x8000#16 ∧ header.flags &&& 0xf#16 = 0#16 ∧
      questions.length = header.questionCount.toNat ∧
      records.answerCount = header.answerCount.toNat ∧ header.answerCount.toNat ≠ 0 := by
  obtain hShort | hLong := Nat.lt_or_ge packet.length 12
  · cases (parse_short hShort).symm.trans h
  · obtain ⟨header, body, rfl⟩ := exists_header hLong
    obtain ⟨hResponse, hNoError, hAnswers, pos, hPos, buffer, hBuffer, rfl⟩ :=
      (parse_eq_ok_iff header body records).mp h
    have hSkip := skipQuestions_cases header.encode body header.questionCount.toNat
    rw [Header.length_encode] at hSkip
    obtain ⟨e, hSkip⟩ | ⟨questions, rest, hCount, rfl, hSkip⟩ := hSkip
    · cases hSkip.symm.trans hPos
    · cases hSkip.symm.trans hPos
      rw [← List.append_assoc, slice_append_right] at hBuffer
      cases hBuffer
      exact ⟨header, questions, rfl, hResponse, hNoError, hCount, rfl, hAnswers⟩

end Ground.Dns
