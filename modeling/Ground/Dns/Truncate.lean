import Ground.Dns.Encode
import Ground.Dns.Response

/-! # Truncated replies

A reader that consumes encodings determines where each of them ends, so what is
read of a cut reply is what the whole reply has there. The cut is then met as an
error of framing.
-/

namespace Ground.Dns

variable {N M : Type} [Named N] [Named M]

theorem ResourceRecord.append_inj {rr : ResourceRecord N} {rr' : ResourceRecord M}
    {rest rest' : List Byte} (h : rr.encode ++ rest = rr'.encode ++ rest') :
    rr.exit = rr'.exit ∧ rest = rest' := by
  have hBody := Records.body_record rr rest 0
  rw [h, Records.body_record, Outcome.ret.injEq, Prod.mk.injEq, Records.mk.injEq] at hBody
  exact ⟨hBody.1.symm, hBody.2.1.symm⟩

theorem Question.append_inj {question : Question N} {question' : Question M}
    {rest rest' : List Byte} (h : question.encode ++ rest = question'.encode ++ rest') :
    question.encode = question'.encode ∧ rest = rest' := by
  have hSize := (Named.isName question.name).nameSize_append (question.typeAndClass.1 ++ rest)
  rw [← List.append_assoc] at hSize
  change nameSize (question.encode ++ rest) = _ at hSize
  rw [h, Question.encode, List.append_assoc, (Named.isName question'.name).nameSize_append] at hSize
  apply List.append_inj h
  rw [Question.length_encode, Question.length_encode, Except.ok.inj hSize]

theorem questions_append_inj {questions : List (Question N)} {questions' : List (Question M)}
    {rest rest' : List Byte} (hLength : questions.length = questions'.length)
    (h : questions.flatMap Question.encode ++ rest = questions'.flatMap Question.encode ++ rest') :
    rest = rest' := by
  induction questions generalizing questions' with
  | nil =>
    obtain rfl := List.length_eq_zero_iff.mp hLength.symm
    exact h
  | cons question questions ih =>
    obtain ⟨question', questions', rfl⟩ := List.exists_cons_of_length_eq_add_one hLength.symm
    rw [List.flatMap_cons, List.flatMap_cons, List.append_assoc, List.append_assoc] at h
    exact ih (Nat.succ.inj hLength) (Question.append_inj h).2

/-- Some of these exits come, and then an error of framing, before any end. -/
def BreaksOff (records : Records) (exits : List Exit) : Prop :=
  ∃ (shown : List Exit) (exit : Exit), shown <+: exits ∧ exit.Framing ∧
    exit.item = .error invalidData ∧ Shows Records.leave records (shown ++ [exit])

theorem BreaksOff.record (rr : ResourceRecord N) {rest : List Byte} {answerCount : Nat}
    {exits : List Exit} (h : BreaksOff ⟨rest, answerCount⟩ exits) :
    BreaksOff ⟨rr.encode ++ rest, answerCount + 1⟩ (rr.exit.toList ++ exits) := by
  obtain ⟨shown, exit, hPrefix, hFraming, hItem, hShows⟩ := h
  refine ⟨rr.exit.toList ++ shown, exit, (List.prefix_append_right_inj _).mpr hPrefix, hFraming,
    hItem, ?_⟩
  rw [List.append_assoc]
  exact Records.shows_record rr hShows

theorem breaksOff_answers {answers : List (ResourceRecord N)} {cut lost : List Byte}
    (hCut : cut ++ lost = answers.flatMap ResourceRecord.encode) (hLost : lost ≠ []) :
    BreaksOff ⟨cut, answers.length⟩ (answers.filterMap ResourceRecord.exit) := by
  induction answers generalizing cut with
  | nil => exact absurd (List.append_eq_nil_iff.mp hCut).2 hLost
  | cons rr answers ih =>
    obtain ⟨exit, records, hFraming, hItem, hBody⟩ | ⟨rr', rest, rfl⟩ :=
      Records.body_cases cut (answers.length + 1)
    · exact ⟨[], exit, List.nil_prefix, hFraming, hItem,
        .item (Records.leave_exit (Nat.succ_pos _) hBody) (.start _)⟩
    · rw [List.append_assoc, List.flatMap_cons] at hCut
      obtain ⟨hExit, hRest⟩ := ResourceRecord.append_inj hCut
      rw [exits_cons, ← hExit]
      exact (ih hRest).record rr'

theorem Response.encode_take (response : Response N) {k : Nat} (hk : k < response.size) :
    ∃ lost, lost ≠ [] ∧ response.encode.take k ++ lost =
      response.header.encode ++ (response.questions.flatMap Question.encode ++
        response.answers.flatMap ResourceRecord.encode) := by
  rw [size] at hk
  have hEncode : response.encode = (response.header.encode ++
      (response.questions.flatMap Question.encode ++
        response.answers.flatMap ResourceRecord.encode)) ++ response.tail := by
    simp only [encode, List.append_assoc]
  rw [hEncode, List.take_append_of_le_length (Nat.le_of_lt hk)]
  refine ⟨_, ?_, List.take_append_drop k _⟩
  rw [Ne, List.drop_eq_nil_iff]
  omega

theorem Response.parse_cut (response : Response N) {k : Nat} (hk : k < response.size) :
    parseResponsePacket (response.encode.take k) = .ret (.error invalidData) ∨
    ∃ cut, parseResponsePacket (response.encode.take k) = .ret (.ok cut) ∧
      BreaksOff cut (response.answers.filterMap ResourceRecord.exit) := by
  obtain ⟨lost, hLost, hTake⟩ := response.encode_take hk
  generalize response.encode.take k = packet at hTake ⊢
  obtain hShort | hLong := Nat.lt_or_ge packet.length 12
  · exact .inl (parse_short hShort)
  · obtain ⟨body, rfl⟩ : response.header.encode <+: packet := by
      apply List.prefix_of_prefix_length_le (List.prefix_append ..) ⟨lost, hTake⟩
      rwa [Header.length_encode]
    rw [List.append_assoc, List.append_cancel_left_eq] at hTake
    have hAnswers : response.header.answerCount.toNat ≠ 0 := by
      rw [response.answerCount]
      exact (List.length_pos_iff.mpr response.answered).ne'
    rw [parse_skipped body response.isResponse response.noError hAnswers]
    have hSkip := skipQuestions_cases response.header.encode body
      response.header.questionCount.toNat
    rw [Header.length_encode] at hSkip
    obtain ⟨e, hSkip⟩ | ⟨questions, rest, hCount, rfl, hSkip⟩ := hSkip
    · left
      rw [hSkip, skipQuestions_error hSkip]
      rfl
    · right
      refine ⟨⟨rest, response.header.answerCount.toNat⟩, ?_, ?_⟩
      · rw [hSkip, ← List.append_assoc]
        simp only [Outcome.ret_bind, slice_append_right]
      · rw [List.append_assoc] at hTake
        rw [response.answerCount]
        exact breaksOff_answers
          (questions_append_inj (hCount.trans response.questionCount) hTake) hLost

theorem Response.yields_take (response : Response N) {k : Nat} (hk : response.size ≤ k) :
    ∃ records, parseResponsePacket (response.encode.take k) = .ret (.ok records) ∧
      Yields Records.leave records (response.answers.filterMap ResourceRecord.exit) := by
  let received : Response N := { response with tail := response.tail.take (k - response.size) }
  have hTake : response.encode.take k = received.encode := by
    rw [size, List.length_append, List.length_append] at hk
    simp only [encode, received, size, List.take_append, List.length_append]
    rw [List.take_of_length_le (by omega), List.take_of_length_le (by omega),
      List.take_of_length_le (by omega), Nat.sub_sub, Nat.sub_sub]
  rw [hTake]
  exact ⟨_, received.parse_encode, Records.yields_answers received.answers received.tail⟩

theorem receive_reply (dnsServer : SocketAddr) (buffer packet : List Byte)
    (later : List (Outcome Ground.Panic (Except Error Datagram))) :
    receive dnsServer buffer (.ret (.ok ⟨packet, dnsServer⟩) :: later) =
      (parseResponsePacket (packet.take buffer.length)).mapPanic .parse >>=
        fun result => .ret (some result) := by
  have hSlice := slice_append_mid QueryPanic.sliceIndex [] (packet.take buffer.length)
    (buffer.drop (packet.take buffer.length).length)
  simp only [List.nil_append, List.length_nil, Nat.zero_add] at hSlice
  simp only [receive, Outcome.mapPanic_ret, Outcome.ret_bind, recvFrom, ne_eq, not_true_eq_false,
    if_false, hSlice]
  rfl

theorem receive_strangers {dnsServer : SocketAddr} {strangers : List Datagram}
    (hStrangers : ∀ datagram ∈ strangers, datagram.sender ≠ dnsServer) (buffer : List Byte)
    (later : List (Outcome Ground.Panic (Except Error Datagram))) :
    ∃ buffer', buffer'.length = buffer.length ∧
      receive dnsServer buffer (strangers.map (fun datagram => .ret (.ok datagram)) ++ later) =
        receive dnsServer buffer' later := by
  induction strangers generalizing buffer with
  | nil => exact ⟨buffer, rfl, rfl⟩
  | cons stranger strangers ih =>
    obtain ⟨hFirst, hOthers⟩ := List.forall_mem_cons.mp hStrangers
    obtain ⟨buffer', hLength, hReceive⟩ := ih hOthers (recvFrom buffer stranger).1
    refine ⟨buffer', ?_, ?_⟩
    · rw [hLength, recvFrom, List.length_append, List.length_drop, List.length_take]
      omega
    · rw [← hReceive]
      simp only [List.map_cons, List.cons_append, receive, Outcome.mapPanic_ret, Outcome.ret_bind]
      exact if_pos hFirst

theorem receive_of_query {network : Network} {name : List Byte} {addressFamily : AddressFamily}
    {dnsServer : SocketAddr} {buffer : List Byte} {records : Records}
    (h : query network name addressFamily dnsServer buffer = .ret (some (.ok records))) :
    ∃ buffer', buffer'.length = buffer.length ∧
      receive dnsServer buffer' network.received = .ret (some (.ok records)) := by
  obtain ⟨⟨bufferSize, buffer'⟩, hPacket, h⟩ := Outcome.bind_eq_ret_iff.mp h
  obtain ⟨-, hRoom, -, hBuffer⟩ := makeQueryPacket_eq_ret_iff.mp hPacket
  have hLength : buffer'.length = buffer.length := by
    rw [hBuffer, List.length_append, List.length_drop]
    omega
  refine ⟨buffer', hLength, ?_⟩
  obtain ⟨sendBuffer, -, h⟩ := Outcome.bind_eq_ret_iff.mp h
  cases hBind : network.bind dnsServer.unspecified with
  | error e =>
    simp only [hBind] at h
    cases h
  | ok socket =>
    simp only [hBind] at h
    obtain ⟨_, -, h⟩ := Outcome.bind_eq_ret_iff.mp h
    obtain ⟨sent, -, h⟩ := Outcome.bind_eq_ret_iff.mp h
    cases sent with
    | error e => cases h
    | ok _ => exact h

/-- A cut reply is refused or breaks off among the items of the whole reply, and
`query` presents as much of it as the buffer has room for. -/
theorem cut_never_complete {packet : List Byte} {records : Records} {exits : List Exit}
    (hParse : parseResponsePacket packet = .ret (.ok records))
    (hExits : Yields Records.leave records exits) (hClean : ∀ exit ∈ exits, ¬ exit.Framing) :
    (∃ response : Response AcceptedName, packet = response.encode) ∧
    ∀ response : Response AcceptedName, packet = response.encode →
      (∀ k, k < response.size →
        parseResponsePacket (packet.take k) = .ret (.error invalidData) ∨
        ∃ cut, parseResponsePacket (packet.take k) = .ret (.ok cut) ∧ BreaksOff cut exits) ∧
      ∀ (network : Network) (name : List Byte) (addressFamily : AddressFamily)
        (dnsServer : SocketAddr) (buffer : List Byte) (strangers : List Datagram)
        (later : List (Outcome Ground.Panic (Except Error Datagram))) (presented : Records),
        (∀ datagram ∈ strangers, datagram.sender ≠ dnsServer) →
        network.received = strangers.map (fun datagram => .ret (.ok datagram)) ++
          .ret (.ok ⟨packet, dnsServer⟩) :: later →
        query network name addressFamily dnsServer buffer = .ret (some (.ok presented)) →
        (buffer.length < response.size ∧ BreaksOff presented exits) ∨
        (response.size ≤ buffer.length ∧ Yields Records.leave presented exits) := by
  obtain ⟨response, rfl, -⟩ := exists_response hParse hExits hClean
  refine ⟨⟨response, rfl⟩, ?_⟩
  intro response' hResponse
  rw [hResponse] at hParse ⊢
  have hAll : exits = response'.answers.filterMap ResourceRecord.exit := by
    rw [response'.parse_encode, Outcome.ret.injEq, Except.ok.injEq] at hParse
    rw [← hParse] at hExits
    exact hExits.unique (Records.yields_answers response'.answers response'.tail)
  rw [hAll]
  refine ⟨fun k hk => response'.parse_cut hk, ?_⟩
  intro network name addressFamily dnsServer buffer strangers later presented hStrangers hReceived
    hQuery
  obtain ⟨buffer', hLength, hReceive⟩ := receive_of_query hQuery
  obtain ⟨buffer'', hLength', hSkip⟩ := receive_strangers hStrangers buffer'
    (.ret (.ok ⟨response'.encode, dnsServer⟩) :: later)
  rw [hReceived, hSkip, receive_reply, hLength', hLength] at hReceive
  obtain hCut | hWhole := Nat.lt_or_ge buffer.length response'.size
  · obtain hParsed | ⟨cut, hParsed, hBreaks⟩ := response'.parse_cut hCut
    · rw [hParsed] at hReceive
      cases hReceive
    · rw [hParsed] at hReceive
      cases hReceive
      exact .inl ⟨hCut, hBreaks⟩
  · obtain ⟨received, hParsed, hYields⟩ := response'.yields_take hWhole
    rw [hParsed] at hReceive
    cases hReceive
    exact .inr ⟨hWhole, hYields⟩

theorem cut_never_complete_aliased :
    BreaksOff ⟨(aliasedResponse.take 40).drop 17, 2⟩
      [.record { address := .v4 ⟨[127, 0, 0, 1], rfl⟩, ttl := 60#32 }] := by
  let loopback : Exit := .record { address := .v4 ⟨[127, 0, 0, 1], rfl⟩, ttl := 60#32 }
  let response : Response AcceptedName :=
    { header := ⟨0#16, 0x8000#16, 1#16, 2#16, 0#16, 0#16⟩
      questions := [⟨⟨[0], by decide +kernel⟩, ⟨[0, 1, 0, 1], rfl⟩⟩]
      answers := [⟨⟨[0xc0, 12], by decide +kernel⟩, ⟨1#16, 1#16, 60#32⟩, [127, 0, 0, 1], by decide⟩,
        ⟨⟨[0], by decide +kernel⟩, ⟨5#16, 1#16, 60#32⟩, [], by decide⟩]
      tail := []
      isResponse := by decide
      noError := by decide
      questionCount := by decide
      answerCount := by decide
      answered := by simp }
  let server : SocketAddr := .v4 ⟨[127, 0, 0, 53], rfl⟩ 53#16
  let network : Network :=
    { bind := fun _ => .ok 3
      fcntl := ⟨fun _ => .ok 0#32, fun _ _ => .ok ()⟩
      sendTo := fun packet _ => .ret (.ok packet.length)
      received :=
        [.ret (.ok ⟨[1, 2, 3], server.unspecified⟩), .ret (.ok ⟨aliasedResponse, server⟩)] }
  have hParse : parseResponsePacket aliasedResponse =
      .ret (.ok ⟨aliasedResponse.drop 17, 2⟩) := by decide +kernel
  have hFirst : Records.leave ⟨aliasedResponse.drop 17, 2⟩ =
      .ret (some loopback, ⟨aliasedResponse.drop 33, 1⟩) := by decide +kernel
  have hLast : Records.leave ⟨aliasedResponse.drop 33, 1⟩ = .ret (none, ⟨[], 0⟩) := by
    decide +kernel
  have hClean : ∀ exit ∈ [loopback], ¬ exit.Framing := by
    intro exit hExit
    rw [List.mem_singleton.mp hExit]
    exact id
  have hPacket : aliasedResponse = response.encode := by decide +kernel
  have hSize : response.size = 44 := by decide +kernel
  have hStranger : ∀ datagram ∈ [Datagram.mk [1, 2, 3] server.unspecified],
      datagram.sender ≠ server := by
    intro datagram hDatagram
    rw [List.mem_singleton.mp hDatagram]
    decide
  have hWhole := cut_never_complete hParse (.item hFirst (.stop hLast)) hClean
  obtain ⟨-, hBreaks⟩ | ⟨hRoom, -⟩ := (hWhole.2 response hPacket).2 network [97] .ipv4 server
    (List.replicate 40 0) [⟨[1, 2, 3], server.unspecified⟩] []
    ⟨(aliasedResponse.take 40).drop 17, 2⟩ hStranger rfl (by decide +kernel)
  · exact hBreaks
  · rw [hSize] at hRoom
    exact absurd hRoom (by decide)

end Ground.Dns
