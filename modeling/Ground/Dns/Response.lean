import Ground.Dns.Parse

/-! # Decoding and encoding of responses

Decoding undoes encoding, and a response that is iterated without an error of
framing is an encoding.
-/

namespace Ground.Dns

variable {N : Type} [Named N]

theorem ResourceRecord.encode_ne_nil (rr : ResourceRecord N) : rr.encode ≠ [] :=
  List.append_ne_nil_of_left_ne_nil (Named.isName rr.name).ne_nil _

omit [Named N] in
theorem exits_cons (rr : ResourceRecord N) (answers : List (ResourceRecord N)) :
    (rr :: answers).filterMap ResourceRecord.exit =
      rr.exit.toList ++ answers.filterMap ResourceRecord.exit := by
  cases hExit : rr.exit with
  | none => rw [List.filterMap_cons_none hExit, Option.toList_none, List.nil_append]
  | some exit => rw [List.filterMap_cons_some hExit, Option.toList_some, List.singleton_append]

namespace Records

theorem yields_next_iff {records : Records} {items : List (Except Error Record)} :
    Yields next records items ↔ ∃ exits, Yields leave records exits ∧ items = exits.map Exit.item :=
  yields_map_iff fun _ => rfl

theorem yields_answers (answers : List (ResourceRecord N)) (tail : List Byte) :
    Yields leave ⟨answers.flatMap ResourceRecord.encode ++ tail, answers.length⟩
      (answers.filterMap ResourceRecord.exit) := by
  induction answers with
  | nil => exact .stop (leave_zero tail)
  | cons rr answers ih =>
    rw [List.flatMap_cons, List.append_assoc, List.length_cons, yields_record]
    exact ⟨answers.filterMap ResourceRecord.exit, exits_cons rr answers, ih⟩

theorem yields_items (answers : List (ResourceRecord N)) (tail : List Byte) :
    Yields next ⟨answers.flatMap ResourceRecord.encode ++ tail, answers.length⟩
      (answers.filterMap ResourceRecord.item) := by
  refine yields_next_iff.mpr ⟨_, yields_answers answers tail, ?_⟩
  rw [List.map_filterMap]
  simp only [ResourceRecord.exit_item]

theorem exists_answers {answerCount : Nat} {buffer : List Byte} {exits : List Exit}
    (hExits : Yields leave ⟨buffer, answerCount⟩ exits) (hClean : ∀ exit ∈ exits, ¬ exit.Framing) :
    ∃ (answers : List (ResourceRecord AcceptedName)) (tail : List Byte),
      answers.length = answerCount ∧ buffer = answers.flatMap ResourceRecord.encode ++ tail := by
  induction answerCount generalizing buffer exits with
  | zero => exact ⟨[], buffer, rfl, rfl⟩
  | succ answerCount ih =>
    obtain ⟨exit, records, hFraming, -, hBody⟩ | ⟨rr, rest, rfl⟩ :=
      body_cases buffer (answerCount + 1)
    · -- the exit would be among those returned
      obtain ⟨later, rfl, -⟩ := (yields_of_item (leave_exit (Nat.succ_pos _) hBody)).mp hExits
      exact absurd hFraming (hClean exit List.mem_cons_self)
    · obtain ⟨later, rfl, hLater⟩ := (yields_record rr rest answerCount).mp hExits
      obtain ⟨answers, tail, rfl, rfl⟩ :=
        ih hLater fun exit hExit => hClean exit (List.mem_append_right _ hExit)
      exact ⟨rr :: answers, tail, rfl, by rw [List.flatMap_cons, List.append_assoc]⟩

end Records

theorem Response.parse_encode (response : Response N) :
    parseResponsePacket response.encode = .ret (.ok
      { buffer := response.answers.flatMap ResourceRecord.encode ++ response.tail
        answerCount := response.answers.length }) := by
  obtain ⟨rr, answers, hAnswers⟩ := List.exists_cons_of_ne_nil response.answered
  have hBody : response.answers.flatMap ResourceRecord.encode ++ response.tail ≠ [] := by
    rw [hAnswers, List.flatMap_cons, List.append_assoc]
    exact List.append_ne_nil_of_left_ne_nil rr.encode_ne_nil _
  have hAnswered : response.header.answerCount.toNat ≠ 0 := by
    rw [response.answerCount, hAnswers]
    exact Nat.succ_ne_zero _
  refine (parse_questions_iff response.header response.questions response.questionCount.symm hBody
    _).mpr ⟨response.isResponse, response.noError, hAnswered, ?_⟩
  rw [response.answerCount]

/-- Decoding undoes encoding, whatever follows the answers. -/
theorem decode_encode (response : Response WireName) :
    ∃ records, parseResponsePacket response.encode = .ret (.ok records) ∧
      Yields Records.next records (response.answers.filterMap ResourceRecord.item) :=
  ⟨_, response.parse_encode, Records.yields_items response.answers response.tail⟩

theorem exists_response {packet : List Byte} {records : Records} {exits : List Exit}
    (hParse : parseResponsePacket packet = .ret (.ok records))
    (hExits : Yields Records.leave records exits) (hClean : ∀ exit ∈ exits, ¬ exit.Framing) :
    ∃ response : Response AcceptedName, packet = response.encode ∧
      records = ⟨response.answers.flatMap ResourceRecord.encode ++ response.tail,
        response.answers.length⟩ := by
  obtain ⟨header, questions, rfl, hResponse, hNoError, hQuestions, hCount, hAnswered⟩ :=
    parse_ok hParse
  obtain ⟨buffer, answerCount⟩ := records
  obtain ⟨answers, tail, rfl, rfl⟩ := Records.exists_answers hExits hClean
  change answers.length = header.answerCount.toNat at hCount
  have hNonempty : answers ≠ [] := by
    rintro rfl
    exact hAnswered hCount.symm
  exact ⟨⟨header, questions, answers, tail, hResponse, hNoError, hQuestions.symm, hCount.symm,
    hNonempty⟩, rfl, rfl⟩

/-- What is iterated without an error of framing is a response with these items. -/
theorem encode_of_clean {packet : List Byte} {records : Records} {exits : List Exit}
    (hParse : parseResponsePacket packet = .ret (.ok records))
    (hExits : Yields Records.leave records exits) (hClean : ∀ exit ∈ exits, ¬ exit.Framing) :
    ∃ response : Response AcceptedName, packet = response.encode ∧
      Yields Records.next records (response.answers.filterMap ResourceRecord.item) := by
  obtain ⟨response, rfl, rfl⟩ := exists_response hParse hExits hClean
  exact ⟨response, rfl, Records.yields_items response.answers response.tail⟩

def aliasedResponse : List Byte :=
  [0, 0, 0x80, 0, 0, 1, 0, 2, 0, 0, 0, 0] ++ [0, 0, 1, 0, 1] ++
    [0xc0, 12, 0, 1, 0, 1, 0, 0, 0, 60, 0, 4, 127, 0, 0, 1] ++ [0, 0, 5, 0, 1, 0, 0, 0, 60, 0, 0]

theorem encode_of_clean_aliased : ∃ response : Response AcceptedName,
    aliasedResponse = response.encode ∧
    Yields Records.next ⟨aliasedResponse.drop 17, 2⟩
      (response.answers.filterMap ResourceRecord.item) := by
  let loopback : Exit := .record { address := .v4 ⟨[127, 0, 0, 1], rfl⟩, ttl := 60#32 }
  have hFirst : Records.leave ⟨aliasedResponse.drop 17, 2⟩ =
      .ret (some loopback, ⟨aliasedResponse.drop 33, 1⟩) := by decide +kernel
  have hLast : Records.leave ⟨aliasedResponse.drop 33, 1⟩ = .ret (none, ⟨[], 0⟩) := by
    decide +kernel
  refine encode_of_clean (by decide +kernel) (.item hFirst (.stop hLast)) ?_
  intro exit hExit
  rw [List.mem_singleton.mp hExit]
  exact id

end Ground.Dns
