import Ground.Dns.Parse

/-! # The class of a failed reply

The header alone decides how a reply fails, by guards whose order matters where
they overlap.
-/

namespace Ground.Dns

namespace Header

def IsReply (header : Header) : Prop := header.flags &&& 0x8000#16 = 0x8000#16

def rcode (header : Header) : BitVec 16 := header.flags &&& 0xf#16

instance (header : Header) : Decidable header.IsReply := inferInstanceAs (Decidable (_ = _))

end Header

/-- The result is the one that the response code calls for. -/
def Classified (header : Header) (result : Outcome Panic (Except Error Records)) : Prop :=
  if ¬ header.IsReply then result = .ret (.error invalidData)
  else if header.rcode = 3#16 then result = .ret (.error (.ofKind .notFound))
  else if header.rcode ≠ 0#16 then result = .ret (.error (.ofKind .other))
  else if header.answerCount = 0#16 then result = .ret (.error (.ofKind .notFound))
  else ∀ e, result = .ret (.error e) → e.kind ≠ .notFound

theorem answerCount_toNat_eq_zero {header : Header} :
    header.answerCount.toNat = 0 ↔ header.answerCount = 0#16 :=
  BitVec.toNat_inj (y := 0#16)

theorem skipped_not_notFound {header : Header} {rest : List Byte} {e : Error}
    (hReply : header.IsReply) (hCode : header.rcode = 0#16) (hAnswers : header.answerCount ≠ 0#16)
    (h : parseResponsePacket (header.encode ++ rest) = .ret (.error e)) : e = invalidData := by
  rw [parse_skipped rest hReply hCode (mt answerCount_toNat_eq_zero.mp hAnswers)] at h
  obtain ⟨skipped, hSkip, h⟩ := Outcome.bind_eq_ret_iff.mp h
  cases skipped with
  | error e' =>
    cases h
    exact skipQuestions_error hSkip
  | ok pos =>
    obtain ⟨buffer, -, h⟩ := Outcome.bind_eq_ret_iff.mp h
    cases h

theorem parse_guards (header : Header) (rest : List Byte) :
    (¬ header.IsReply → parseResponsePacket (header.encode ++ rest) = .ret (.error invalidData)) ∧
    (header.IsReply → header.rcode = 3#16 ∨ header.answerCount = 0#16 →
      parseResponsePacket (header.encode ++ rest) = .ret (.error (.ofKind .notFound))) ∧
    (header.IsReply → header.rcode ≠ 3#16 → header.answerCount ≠ 0#16 → header.rcode ≠ 0#16 →
      parseResponsePacket (header.encode ++ rest) = .ret (.error (.ofKind .other))) := by
  rw [parse_header]
  simp only [Header.IsReply, Header.rcode, ← answerCount_toNat_eq_zero]
  refine ⟨?_, ?_, ?_⟩
  · intro hReply
    rw [if_pos hReply]
  · intro hReply hAbsent
    rw [if_neg (not_not.mpr hReply), if_pos hAbsent]
  · intro hReply hName hAnswers hCode
    have hCount : header.answerCount.toNat ≠ 0 := mt answerCount_toNat_eq_zero.mp hAnswers
    rw [if_neg (not_not.mpr hReply), if_neg (not_or.mpr ⟨hName, hCount⟩), if_pos hCode]

theorem classified_header_iff (header : Header) (rest : List Byte) :
    Classified header (parseResponsePacket (header.encode ++ rest)) ↔
      ¬ (header.IsReply ∧ header.rcode ≠ 0#16 ∧ header.rcode ≠ 3#16 ∧
        header.answerCount = 0#16) := by
  obtain ⟨hQuery, hAbsent, hFailed⟩ := parse_guards header rest
  obtain hReply | hReply := Decidable.em header.IsReply
  · obtain hName | hName := eq_or_ne header.rcode 3#16
    · simp [Classified, hReply, hName, hAbsent hReply (.inl hName)]
    · obtain hNone | hAnswers := eq_or_ne header.answerCount 0#16
      · -- the guard on the count comes before the one on other codes
        have hNotFound := hAbsent hReply (.inr hNone)
        obtain hCode | hCode := eq_or_ne header.rcode 0#16
        · simp [Classified, hReply, hCode, hNone, hNotFound]
        · simp [Classified, hReply, hName, hCode, hNone, hNotFound, Error.ofKind]
      · obtain hCode | hCode := eq_or_ne header.rcode 0#16
        · have hOther : ∀ e, parseResponsePacket (header.encode ++ rest) = .ret (.error e) →
              e.kind ≠ .notFound := by
            intro e hError
            rw [skipped_not_notFound hReply hCode hAnswers hError]
            decide
          simpa [Classified, hReply, hCode, hAnswers] using hOther
        · simp [Classified, hReply, hName, hCode, hAnswers, hFailed hReply hName hAnswers hCode]
  · simp [Classified, hReply, hQuery hReply]

/-- Failures are classified by the response code exactly when the reply has
answers or a code without an error of its own. -/
theorem classified_iff {packet : List Byte} (h : 12 ≤ packet.length) :
    ∃ (header : Header) (rest : List Byte), packet = header.encode ++ rest ∧
      (Classified header (parseResponsePacket packet) ↔
        ¬ (header.IsReply ∧ header.rcode ≠ 0#16 ∧ header.rcode ≠ 3#16 ∧
          header.answerCount = 0#16)) := by
  obtain ⟨header, rest, rfl⟩ := exists_header h
  exact ⟨header, rest, rfl, classified_header_iff header rest⟩

def failedReply : Header := ⟨0#16, 0x8002#16, 0#16, 0#16, 0#16, 0#16⟩

theorem classified_iff_failed :
    ∃ (header : Header) (rest : List Byte), failedReply.encode = header.encode ++ rest ∧
      (Classified header (parseResponsePacket failedReply.encode) ↔
        ¬ (header.IsReply ∧ header.rcode ≠ 0#16 ∧ header.rcode ≠ 3#16 ∧
          header.answerCount = 0#16)) :=
  classified_iff (by decide +kernel)

theorem failed_not_classified :
    parseResponsePacket failedReply.encode = .ret (.error (.ofKind .notFound)) ∧
    ¬ Classified failedReply (parseResponsePacket failedReply.encode) := by
  have hNotFound : parseResponsePacket failedReply.encode = .ret (.error (.ofKind .notFound)) := by
    decide +kernel
  refine ⟨hNotFound, ?_⟩
  rw [hNotFound]
  intro hClassified
  cases hClassified

end Ground.Dns
