import Ground.Dns.Response

/-! # Iterating over arbitrary packets

No packet makes the client panic. An iteration comes to an end exactly for the
packets whose counted answers can all be got through.
-/

namespace Ground.Dns

theorem parse_returns (packet : List Byte) : (parseResponsePacket packet).Returns := by
  obtain hShort | hLong := Nat.lt_or_ge packet.length 12
  · exact ⟨_, parse_short hShort⟩
  · obtain ⟨header, body, rfl⟩ := exists_header hLong
    rw [parse_header]
    split
    · exact Outcome.returns_ret _
    · split
      · exact Outcome.returns_ret _
      · split
        · exact Outcome.returns_ret _
        · have hSkip := skipQuestions_cases header.encode body header.questionCount.toNat
          rw [Header.length_encode] at hSkip
          obtain ⟨e, hSkip⟩ | ⟨questions, rest, -, rfl, hSkip⟩ := hSkip
          · rw [hSkip]
            exact Outcome.returns_ret _
          · rw [hSkip, ← List.append_assoc]
            simp only [Outcome.ret_bind, slice_append_right, Outcome.returns_ret]

namespace Records

theorem leave_returns (records : Records) : records.leave.Returns := by
  obtain ⟨buffer, answerCount⟩ := records
  induction answerCount generalizing buffer with
  | zero => exact ⟨_, leave_zero buffer⟩
  | succ answerCount ih =>
    obtain ⟨exit, records, -, -, hBody⟩ | ⟨rr, rest, rfl⟩ := body_cases buffer (answerCount + 1)
    · exact ⟨_, leave_exit (Nat.succ_pos _) hBody⟩
    · have hBody := body_record rr rest answerCount
      cases hExit : rr.exit with
      | none =>
        -- passed over, but counted: the induction on the count goes on
        rw [leave_continue (Nat.succ_pos _) (hExit ▸ hBody)]
        exact ih rest
      | some exit => exact ⟨_, leave_exit (Nat.succ_pos _) (hExit ▸ hBody)⟩

theorem next_returns (records : Records) : records.next.Returns := by
  apply records.leave_returns.bind
  rintro ⟨exit, later⟩ -
  exact Outcome.returns_ret _

end Records

/-- No packet makes the parser panic, and no number of calls the iterator. -/
theorem never_panics : (∀ packet, (parseResponsePacket packet).Returns) ∧
    ∀ (records : Records) (n : Nat), (calls Records.next n records).Returns :=
  ⟨parse_returns, fun records n => calls_returns Records.next_returns n records⟩

/-- The counted answers can be got through: each is a complete record, and
before it there may be names after which the fields announce too much data. -/
inductive Drains : List Byte → Nat → Prop where
  | done (buffer : List Byte) : Drains buffer 0
  | record (rr : ResourceRecord AcceptedName) (rest : List Byte) (answerCount : Nat) :
      Drains rest answerCount → Drains (rr.encode ++ rest) (answerCount + 1)
  | overrun (name : List Byte) (fields : Fields) (dataSize : BitVec 16) (tail : List Byte)
      (answerCount : Nat) : Name name → tail.length < dataSize.toNat →
      Drains (fields.encode dataSize ++ tail) (answerCount + 1) →
      Drains (name ++ (fields.encode dataSize ++ tail)) (answerCount + 1)

theorem Drains.ne_nil {body : List Byte} {answerCount : Nat} (h : Drains body answerCount)
    (hCount : answerCount ≠ 0) : body ≠ [] := by
  cases h with
  | done => exact absurd rfl hCount
  | record rr rest answerCount _ => exact List.append_ne_nil_of_left_ne_nil rr.encode_ne_nil _
  | overrun name fields dataSize tail answerCount hName _ _ =>
    exact List.append_ne_nil_of_left_ne_nil hName.ne_nil _

theorem length_lt_append {front : List Byte} (hFront : front ≠ []) (back : List Byte) :
    back.length < (front ++ back).length := by
  have hPos := List.length_pos_iff.mpr hFront
  rw [List.length_append]
  omega

namespace Records

-- each call that fails for short fields has consumed a name, so in the end one
-- fails for the name itself
theorem not_yields_short {buffer : List Byte} {answerCount : Nat} {exits : List Exit}
    (hShort : buffer.length < 10) : ¬ Yields leave ⟨buffer, answerCount + 1⟩ exits := by
  induction buffer using (measure List.length).wf.induction generalizing exits with
  | h buffer ih =>
    intro hYields
    obtain hError | ⟨name, rest, hName, hRest, rfl⟩ |
      ⟨name, fields, dataSize, tail, hName, hOverrun, rfl⟩ | ⟨rr, rest, rfl⟩ :=
      layout_cases buffer
    · -- a bad name is not consumed, so every later call meets it again
      exact not_yields_of_stuck (leave_exit (Nat.succ_pos _) (body_nameError hError)) hYields
    · have hLeave := leave_exit (Nat.succ_pos _) (body_shortFields hName hRest (answerCount + 1))
      obtain ⟨later, rfl, hLater⟩ := (yields_of_item hLeave).mp hYields
      exact ih rest (length_lt_append hName.ne_nil rest) hRest hLater
    · simp only [List.length_append, Fields.length_encode] at hShort
      omega
    · rw [List.length_append, rr.length_encode] at hShort
      omega

theorem drains_of_yields {buffer : List Byte} {answerCount : Nat} {exits : List Exit}
    (hYields : Yields leave ⟨buffer, answerCount⟩ exits) : Drains buffer answerCount := by
  induction buffer using (measure List.length).wf.induction generalizing answerCount exits with
  | h buffer ih =>
    cases answerCount with
    | zero => exact .done buffer
    | succ answerCount =>
      obtain hError | ⟨name, rest, hName, hShort, rfl⟩ |
        ⟨name, fields, dataSize, tail, hName, hOverrun, rfl⟩ | ⟨rr, rest, rfl⟩ :=
        layout_cases buffer
      · exact absurd hYields
          (not_yields_of_stuck (leave_exit (Nat.succ_pos _) (body_nameError hError)))
      · have hLeave := leave_exit (Nat.succ_pos _) (body_shortFields hName hShort (answerCount + 1))
        obtain ⟨later, rfl, hLater⟩ := (yields_of_item hLeave).mp hYields
        exact absurd hLater (not_yields_short hShort)
      · have hLeave := leave_exit (Nat.succ_pos _)
          (body_dataOverrun hName fields hOverrun (answerCount + 1))
        obtain ⟨later, rfl, hLater⟩ := (yields_of_item hLeave).mp hYields
        exact .overrun name fields dataSize tail answerCount hName hOverrun
          (ih _ (length_lt_append hName.ne_nil _) hLater)
      · obtain ⟨later, rfl, hLater⟩ := (yields_record rr rest answerCount).mp hYields
        exact .record rr rest answerCount
          (ih rest (length_lt_append rr.encode_ne_nil rest) hLater)

theorem yields_of_drains {buffer : List Byte} {answerCount : Nat}
    (h : Drains buffer answerCount) : ∃ exits, Yields leave ⟨buffer, answerCount⟩ exits := by
  induction h with
  | done buffer => exact ⟨[], .stop (leave_zero buffer)⟩
  | record rr rest answerCount _ ih =>
    obtain ⟨later, hLater⟩ := ih
    exact ⟨_, (yields_record rr rest answerCount).mpr ⟨later, rfl, hLater⟩⟩
  | overrun name fields dataSize tail answerCount hName hOverrun _ ih =>
    obtain ⟨later, hLater⟩ := ih
    exact ⟨_, .item (leave_exit (Nat.succ_pos _)
      (body_dataOverrun hName fields hOverrun (answerCount + 1))) hLater⟩

end Records

/-- An iteration ends exactly when the answers that the header counts can be
got through after the questions that it counts. -/
theorem ends_iff_drains {packet : List Byte} {records : Records}
    (hParse : parseResponsePacket packet = .ret (.ok records)) :
    (∃ items, Yields Records.next records items) ↔
      ∃ (header : Header) (questions : List (Question AcceptedName)) (body : List Byte),
        packet = header.encode ++ (questions.flatMap Question.encode ++ body) ∧
        questions.length = header.questionCount.toNat ∧
        Drains body header.answerCount.toNat := by
  constructor
  · rintro ⟨items, hItems⟩
    obtain ⟨exits, hExits, -⟩ := Records.yields_next_iff.mp hItems
    obtain ⟨header, questions, rfl, -, -, hQuestions, hCount, -⟩ := parse_ok hParse
    exact ⟨header, questions, records.buffer, rfl, hQuestions,
      hCount ▸ Records.drains_of_yields hExits⟩
  · rintro ⟨header, questions, body, rfl, hQuestions, hDrains⟩
    obtain ⟨-, -, hAnswers, -⟩ := (parse_eq_ok_iff header _ records).mp hParse
    obtain ⟨-, -, -, rfl⟩ := (parse_questions_iff header questions hQuestions
      (hDrains.ne_nil hAnswers) records).mp hParse
    obtain ⟨exits, hExits⟩ := Records.yields_of_drains hDrains
    exact ⟨_, Records.yields_next_iff.mpr ⟨exits, hExits, rfl⟩⟩

theorem ends_iff_drains_aliased :
    (∃ items, Yields Records.next ⟨aliasedResponse.drop 17, 2⟩ items) ↔
      ∃ (header : Header) (questions : List (Question AcceptedName)) (body : List Byte),
        aliasedResponse = header.encode ++ (questions.flatMap Question.encode ++ body) ∧
        questions.length = header.questionCount.toNat ∧
        Drains body header.answerCount.toNat :=
  ends_iff_drains (by decide +kernel)

def truncatedResponse : List Byte := [0, 0, 0x80, 0, 0, 0, 0, 1, 0, 0, 0, 0]

theorem truncated_never_ends :
    parseResponsePacket truncatedResponse = .ret (.ok ⟨[], 1⟩) ∧
    ¬ ∃ items, Yields Records.next ⟨[], 1⟩ items := by
  constructor
  · decide +kernel
  · rintro ⟨items, hItems⟩
    have hStuck : Records.next ⟨[], 1⟩ = .ret (some (.error invalidData), ⟨[], 1⟩) := by
      decide +kernel
    exact not_yields_of_stuck hStuck hItems

end Ground.Dns
