import Ground.Dns.Iterate

/-! # Calls after an error of framing

What successive calls return is read off the layout of the buffer. Only data
that overrun the buffer let later calls go on, with the fields in place of the
next record.
-/

namespace Ground.Dns

/-- Successive calls at this buffer and this count return these results. -/
inductive Reads : List Byte → Nat → List (Option Exit) → Prop where
  | start (buffer : List Byte) (answerCount : Nat) : Reads buffer answerCount []
  | ended (buffer : List Byte) (results : List (Option Exit)) : Reads buffer 0 results →
      Reads buffer 0 (none :: results)
  | nameError (buffer : List Byte) (answerCount : Nat) (results : List (Option Exit)) :
      nameSize buffer = .error invalidData → Reads buffer (answerCount + 1) results →
      Reads buffer (answerCount + 1) (some (.nameError invalidData) :: results)
  | shortFields (name rest : List Byte) (answerCount : Nat) (results : List (Option Exit)) :
      Name name → rest.length < 10 → Reads rest (answerCount + 1) results →
      Reads (name ++ rest) (answerCount + 1) (some .shortFields :: results)
  | dataOverrun (name : List Byte) (fields : Fields) (dataSize : BitVec 16) (tail : List Byte)
      (answerCount : Nat) (results : List (Option Exit)) : Name name →
      tail.length < dataSize.toNat →
      Reads (fields.encode dataSize ++ tail) (answerCount + 1) results →
      Reads (name ++ (fields.encode dataSize ++ tail)) (answerCount + 1)
        (some .dataOverrun :: results)
  | record (rr : ResourceRecord AcceptedName) (rest : List Byte) (answerCount : Nat)
      (results : List (Option Exit)) : Reads rest answerCount results →
      Reads (rr.encode ++ rest) (answerCount + 1) (rr.exit.toList.map some ++ results)

namespace Records

theorem calls_cons {records records' last : Records} {exit : Option Exit}
    {results : List (Option Exit)} (hLeave : records.leave = .ret (exit, records'))
    (hCalls : calls leave results.length records' = .ret (results, last)) :
    calls leave (exit :: results).length records = .ret (exit :: results, last) := by
  simp only [List.length_cons, calls, hLeave, Outcome.ret_bind, hCalls]
  rfl

theorem calls_congr {records records' : Records} (h : records.leave = records'.leave) {n : Nat}
    (hn : n ≠ 0) : calls leave n records = calls leave n records' := by
  obtain ⟨n, rfl⟩ := Nat.exists_eq_succ_of_ne_zero hn
  simp only [calls, h]

theorem calls_of_reads {buffer : List Byte} {answerCount : Nat} {results : List (Option Exit)}
    (h : Reads buffer answerCount results) :
    ∃ last, calls leave results.length ⟨buffer, answerCount⟩ = .ret (results, last) := by
  induction h with
  | start buffer answerCount => exact ⟨_, rfl⟩
  | ended buffer results _ ih =>
    obtain ⟨last, hCalls⟩ := ih
    exact ⟨last, calls_cons (leave_zero buffer) hCalls⟩
  | nameError buffer answerCount results hError _ ih =>
    obtain ⟨last, hCalls⟩ := ih
    exact ⟨last, calls_cons (leave_exit (Nat.succ_pos _) (body_nameError hError)) hCalls⟩
  | shortFields name rest answerCount results hName hShort _ ih =>
    obtain ⟨last, hCalls⟩ := ih
    exact ⟨last, calls_cons (leave_exit (Nat.succ_pos _) (body_shortFields hName hShort _)) hCalls⟩
  | dataOverrun name fields dataSize tail answerCount results hName hOverrun _ ih =>
    obtain ⟨last, hCalls⟩ := ih
    exact ⟨last, calls_cons
      (leave_exit (Nat.succ_pos _) (body_dataOverrun hName fields hOverrun _)) hCalls⟩
  | record rr rest answerCount results _ ih =>
    obtain ⟨last, hCalls⟩ := ih
    have hBody := body_record rr rest answerCount
    cases hExit : rr.exit with
    | none =>
      obtain rfl | hMore := eq_or_ne results []
      · exact ⟨_, rfl⟩
      · refine ⟨last, ?_⟩
        change calls leave results.length _ = .ret (results, last)
        rw [calls_congr (leave_continue (Nat.succ_pos _) (hExit ▸ hBody))
          (fun hLength => hMore (List.length_eq_zero_iff.mp hLength)), hCalls]
    | some exit => exact ⟨last, calls_cons (leave_exit (Nat.succ_pos _) (hExit ▸ hBody)) hCalls⟩

theorem calls_succ {records last : Records} {n : Nat} {results : List (Option Exit)}
    (h : calls leave (n + 1) records = .ret (results, last)) :
    ∃ exit records' later, records.leave = .ret (exit, records') ∧
      calls leave n records' = .ret (later, last) ∧ results = exit :: later := by
  obtain ⟨⟨exit, records'⟩, hLeave, h⟩ := Outcome.bind_eq_ret_iff.mp h
  obtain ⟨⟨later, records''⟩, hCalls, h⟩ := Outcome.bind_eq_ret_iff.mp h
  cases h
  exact ⟨exit, records', later, hLeave, hCalls, rfl⟩

-- each call shortens the buffer or is the last but a smaller number of calls
theorem reads_of_calls {n : Nat} {buffer : List Byte} {answerCount : Nat}
    {results : List (Option Exit)} {last : Records}
    (h : calls leave n ⟨buffer, answerCount⟩ = .ret (results, last)) :
    Reads buffer answerCount results := by
  induction hSize : n + buffer.length using Nat.strongRecOn generalizing n buffer answerCount
    results with
  | ind size ih =>
    cases n with
    | zero =>
      cases h
      exact .start buffer answerCount
    | succ n =>
      cases answerCount with
      | zero =>
        obtain ⟨exit, records', later, hLeave, hCalls, rfl⟩ := calls_succ h
        cases hLeave.symm.trans (leave_zero buffer)
        exact .ended buffer later (ih _ (by omega) hCalls rfl)
      | succ answerCount =>
        obtain hError | ⟨name, rest, hName, hShort, rfl⟩ |
          ⟨name, fields, dataSize, tail, hName, hOverrun, rfl⟩ | ⟨rr, rest, rfl⟩ :=
          layout_cases buffer
        · obtain ⟨exit, records', later, hLeave, hCalls, rfl⟩ := calls_succ h
          cases hLeave.symm.trans (leave_exit (Nat.succ_pos _) (body_nameError hError))
          exact .nameError buffer answerCount later hError (ih _ (by omega) hCalls rfl)
        · obtain ⟨exit, records', later, hLeave, hCalls, rfl⟩ := calls_succ h
          cases hLeave.symm.trans (leave_exit (Nat.succ_pos _) (body_shortFields hName hShort _))
          have hLess := length_lt_append hName.ne_nil rest
          exact .shortFields name rest answerCount later hName hShort
            (ih _ (by omega) hCalls rfl)
        · obtain ⟨exit, records', later, hLeave, hCalls, rfl⟩ := calls_succ h
          cases hLeave.symm.trans
            (leave_exit (Nat.succ_pos _) (body_dataOverrun hName fields hOverrun _))
          have hLess := length_lt_append hName.ne_nil (fields.encode dataSize ++ tail)
          exact .dataOverrun name fields dataSize tail answerCount later hName hOverrun
            (ih _ (by omega) hCalls rfl)
        · have hBody := body_record rr rest answerCount
          have hLess := length_lt_append rr.encode_ne_nil rest
          cases hExit : rr.exit with
          | none =>
            rw [calls_congr (leave_continue (Nat.succ_pos _) (hExit ▸ hBody))
              (Nat.succ_ne_zero n)] at h
            have hReads := Reads.record rr rest answerCount results (ih _ (by omega) h rfl)
            rwa [hExit] at hReads
          | some exit =>
            obtain ⟨exit, records', later, hLeave, hCalls, rfl⟩ := calls_succ h
            cases hLeave.symm.trans (leave_exit (Nat.succ_pos _) (hExit ▸ hBody))
            have hReads := Reads.record rr rest answerCount later (ih _ (by omega) hCalls rfl)
            rwa [hExit] at hReads

end Records

namespace ResourceRecord

variable {N : Type}

def IsAddress (rr : ResourceRecord N) : Prop :=
  rr.fields.rrClass = C_IN ∧
    ((rr.fields.rrType = TYPE_A ∧ rr.rdata.length = 4) ∨
      (rr.fields.rrType = TYPE_AAAA ∧ rr.rdata.length = 16))

theorem address_eq_record_iff {n : Nat} {toAddr : Bytes n → IpAddr} {ttl : BitVec 32}
    {data : List Byte} : (∃ value, address n toAddr ttl data = .record value) ↔
      data.length = n := by
  obtain h | h := eq_or_ne data.length n
  · simp [address, tryFrom_eq_some h, h]
  · simp [address, tryFrom_eq_none h, h]

theorem isAddress_iff {rr : ResourceRecord N} :
    rr.IsAddress ↔ ∃ value, rr.exit = some (.record value) := by
  obtain hClass | hClass := eq_or_ne rr.fields.rrClass C_IN
  · obtain hA | hA := eq_or_ne rr.fields.rrType TYPE_A
    · have hOther : TYPE_A ≠ TYPE_AAAA := by decide
      simp [IsAddress, exit, hClass, hA, hOther, address_eq_record_iff]
    · obtain hAAAA | hAAAA := eq_or_ne rr.fields.rrType TYPE_AAAA
      · have hOther : TYPE_AAAA ≠ TYPE_A := by decide
        simp [IsAddress, exit, hClass, hAAAA, hOther, address_eq_record_iff]
      · simp [IsAddress, exit, hClass, hA, hAAAA]
  · simp [IsAddress, exit, hClass]

end ResourceRecord

/-- Reading on, also past data that overrun the buffer, meets an address. -/
inductive Addresses : List Byte → Nat → Prop where
  | address (rr : ResourceRecord AcceptedName) (rest : List Byte) (answerCount : Nat) :
      rr.IsAddress → Addresses (rr.encode ++ rest) (answerCount + 1)
  | record (rr : ResourceRecord AcceptedName) (rest : List Byte) (answerCount : Nat) :
      Addresses rest answerCount → Addresses (rr.encode ++ rest) (answerCount + 1)
  | overrun (name : List Byte) (fields : Fields) (dataSize : BitVec 16) (tail : List Byte)
      (answerCount : Nat) : Name name → tail.length < dataSize.toNat →
      Addresses (fields.encode dataSize ++ tail) (answerCount + 1) →
      Addresses (name ++ (fields.encode dataSize ++ tail)) (answerCount + 1)

/-- After some records, one has data that overrun the buffer, and its fields
read as records meet an address. -/
inductive Fabricates : List Byte → Nat → Prop where
  | record (rr : ResourceRecord AcceptedName) (rest : List Byte) (answerCount : Nat) :
      Fabricates rest answerCount → Fabricates (rr.encode ++ rest) (answerCount + 1)
  | overrun (name : List Byte) (fields : Fields) (dataSize : BitVec 16) (tail : List Byte)
      (answerCount : Nat) : Name name → tail.length < dataSize.toNat →
      Addresses (fields.encode dataSize ++ tail) (answerCount + 1) →
      Fabricates (name ++ (fields.encode dataSize ++ tail)) (answerCount + 1)

variable {buffer : List Byte} {answerCount : Nat} {results : List (Option Exit)} {value : Record}

theorem exit_toList_map {N : Type} (rr : ResourceRecord N) {result : Option Exit} :
    result ∈ rr.exit.toList.map some ↔ ∃ exit, rr.exit = some exit ∧ result = some exit := by
  cases rr.exit with
  | none => simp
  | some exit => simp

theorem exit_not_framing {N : Type} {rr : ResourceRecord N} {exit : Exit}
    (h : rr.exit = some exit) : ¬ exit.Framing := by
  have hAddress : ∀ (n : Nat) (toAddr : Bytes n → IpAddr),
      ¬ (address n toAddr rr.fields.ttl rr.rdata).Framing := by
    intro n toAddr
    unfold address
    split <;> exact id
  unfold ResourceRecord.exit at h
  split at h
  · cases h
  · split at h
    · cases h
      exact hAddress 4 .v4
    · split at h <;> cases h
      exact hAddress 16 .v6

theorem Addresses.exists_name (h : Addresses buffer answerCount) :
    ∃ name rest, Name name ∧ 10 ≤ rest.length ∧ buffer = name ++ rest := by
  have hRecord : ∀ (rr : ResourceRecord AcceptedName) (rest : List Byte),
      ∃ name later, Name name ∧ 10 ≤ later.length ∧ rr.encode ++ rest = name ++ later := by
    intro rr rest
    refine ⟨Named.encode rr.name, (rr.fields.encode rr.dataSize ++ rr.rdata) ++ rest,
      Named.isName rr.name, ?_, ?_⟩
    · simp only [List.length_append, Fields.length_encode]
      omega
    · rw [ResourceRecord.encode, List.append_assoc]
  cases h with
  | address rr rest _ _ => exact hRecord rr rest
  | record rr rest _ _ => exact hRecord rr rest
  | overrun name fields dataSize tail _ hName _ _ =>
    refine ⟨name, _, hName, ?_, rfl⟩
    rw [List.length_append, Fields.length_encode]
    omega

theorem Addresses.not_short (h : Addresses buffer answerCount) : ¬ buffer.length < 10 := by
  obtain ⟨name, rest, -, hLong, rfl⟩ := h.exists_name
  rw [List.length_append]
  omega

theorem Addresses.not_nameError (h : Addresses buffer answerCount) (e : Error) :
    nameSize buffer ≠ .error e := by
  obtain ⟨name, rest, hName, -, rfl⟩ := h.exists_name
  rw [hName.nameSize_append]
  exact nofun

theorem Fabricates.addresses (h : Fabricates buffer answerCount) :
    Addresses buffer answerCount := by
  induction h with
  | record rr rest answerCount _ ih => exact .record rr rest answerCount ih
  | overrun name fields dataSize tail answerCount hName hOverrun hAddresses =>
    exact .overrun name fields dataSize tail answerCount hName hOverrun hAddresses

theorem Reads.addresses (h : Reads buffer answerCount results)
    (hRecord : some (.record value) ∈ results) : Addresses buffer answerCount := by
  induction h with
  | start => cases hRecord
  | ended buffer results _ ih => exact ih (List.mem_of_ne_of_mem (by simp) hRecord)
  | nameError buffer answerCount results _ _ ih =>
    exact ih (List.mem_of_ne_of_mem (by simp) hRecord)
  | shortFields name rest answerCount results _ hShort _ ih =>
    exact absurd hShort (ih (List.mem_of_ne_of_mem (by simp) hRecord)).not_short
  | dataOverrun name fields dataSize tail answerCount results hName hOverrun _ ih =>
    exact .overrun name fields dataSize tail answerCount hName hOverrun
      (ih (List.mem_of_ne_of_mem (by simp) hRecord))
  | record rr rest answerCount results _ ih =>
    obtain hHere | hLater := List.mem_append.mp hRecord
    · obtain ⟨exit, hExit, hValue⟩ := (exit_toList_map rr).mp hHere
      cases hValue
      exact .address rr rest answerCount (ResourceRecord.isAddress_iff.mpr ⟨value, hExit⟩)
    · exact .record rr rest answerCount (ih hLater)

theorem Addresses.reads (h : Addresses buffer answerCount) :
    ∃ results value, Reads buffer answerCount results ∧ some (.record value) ∈ results := by
  induction h with
  | address rr rest answerCount hAddress =>
    obtain ⟨value, hExit⟩ := ResourceRecord.isAddress_iff.mp hAddress
    refine ⟨_, value, .record rr rest answerCount [] (.start rest answerCount), ?_⟩
    simp [hExit]
  | record rr rest answerCount _ ih =>
    obtain ⟨results, value, hReads, hValue⟩ := ih
    exact ⟨_, value, .record rr rest answerCount results hReads, List.mem_append_right _ hValue⟩
  | overrun name fields dataSize tail answerCount hName hOverrun _ ih =>
    obtain ⟨results, value, hReads, hValue⟩ := ih
    exact ⟨_, value, .dataOverrun name fields dataSize tail answerCount results hName hOverrun
      hReads, List.mem_cons_of_mem _ hValue⟩

/-- No record comes after an error of framing. -/
def FramingFinal (results : List (Option Exit)) : Prop :=
  results.Pairwise fun earlier later =>
    (∃ exit, earlier = some exit ∧ exit.Framing) → ∀ value, later ≠ some (.record value)

theorem framingFinal_error (exit : Exit) (hExit : exit.Framing) :
    FramingFinal (some exit :: results) ↔
      (∀ value, some (.record value) ∉ results) ∧ FramingFinal results := by
  rw [FramingFinal, List.pairwise_cons]
  constructor
  · rintro ⟨hLater, hResults⟩
    exact ⟨fun value hValue => hLater _ hValue ⟨exit, rfl, hExit⟩ value rfl, hResults⟩
  · rintro ⟨hLater, hResults⟩
    refine ⟨?_, hResults⟩
    rintro later hMem - value rfl
    exact hLater value hMem

theorem framingFinal_record {N : Type} (rr : ResourceRecord N) :
    FramingFinal (rr.exit.toList.map some ++ results) ↔ FramingFinal results := by
  rw [FramingFinal, List.pairwise_append]
  constructor
  · rintro ⟨-, hResults, -⟩
    exact hResults
  · intro hResults
    refine ⟨?_, hResults, ?_⟩
    · cases rr.exit <;> simp
    · rintro earlier hEarlier later - ⟨exit, rfl, hFraming⟩
      obtain ⟨exit, hExit, hSome⟩ := (exit_toList_map rr).mp hEarlier
      cases hSome
      exact absurd hFraming (exit_not_framing hExit)

theorem Reads.framingFinal (h : Reads buffer answerCount results)
    (hNot : ¬ Fabricates buffer answerCount) : FramingFinal results := by
  induction h with
  | start => exact .nil
  | ended buffer results _ ih =>
    refine List.pairwise_cons.mpr ⟨?_, ih hNot⟩
    rintro later - ⟨exit, hExit, -⟩
    cases hExit
  | nameError buffer answerCount results hError hReads ih =>
    exact (framingFinal_error (.nameError _) trivial).mpr
      ⟨fun value hValue => (hReads.addresses hValue).not_nameError _ hError, ih hNot⟩
  | shortFields name rest answerCount results _ hShort hReads ih =>
    exact (framingFinal_error .shortFields trivial).mpr
      ⟨fun value hValue => (hReads.addresses hValue).not_short hShort,
        ih fun hFabricates => hFabricates.addresses.not_short hShort⟩
  | dataOverrun name fields dataSize tail answerCount results hName hOverrun hReads ih =>
    have hNone : ¬ Addresses (fields.encode dataSize ++ tail) (answerCount + 1) := fun hAddresses =>
      hNot (.overrun name fields dataSize tail answerCount hName hOverrun hAddresses)
    exact (framingFinal_error .dataOverrun trivial).mpr
      ⟨fun value hValue => hNone (hReads.addresses hValue),
        ih fun hFabricates => hNone hFabricates.addresses⟩
  | record rr rest answerCount results _ ih =>
    exact (framingFinal_record rr).mpr
      (ih fun hFabricates => hNot (.record rr rest answerCount hFabricates))

theorem Fabricates.reads (h : Fabricates buffer answerCount) :
    ∃ results, Reads buffer answerCount results ∧ ¬ FramingFinal results := by
  induction h with
  | record rr rest answerCount _ ih =>
    obtain ⟨results, hReads, hNot⟩ := ih
    have hNot' : ¬ FramingFinal _ := fun h => hNot ((framingFinal_record rr).mp h)
    exact ⟨_, .record rr rest answerCount results hReads, hNot'⟩
  | overrun name fields dataSize tail answerCount hName hOverrun hAddresses =>
    obtain ⟨results, value, hReads, hValue⟩ := hAddresses.reads
    exact ⟨_, .dataOverrun name fields dataSize tail answerCount results hName hOverrun hReads,
      fun h => ((framingFinal_error .dataOverrun trivial).mp h).1 value hValue⟩

/-- One of the counted records, framed back to back from the start, has this address. -/
def Framed (buffer : List Byte) (answerCount : Nat) (value : Record) : Prop :=
  ∃ (before : List (ResourceRecord AcceptedName)) (rr : ResourceRecord AcceptedName)
    (rest : List Byte), buffer = before.flatMap ResourceRecord.encode ++ (rr.encode ++ rest) ∧
      before.length < answerCount ∧ rr.exit = some (.record value)

theorem Reads.framed (h : Reads buffer answerCount results) (hFinal : FramingFinal results)
    (hValue : some (.record value) ∈ results) : Framed buffer answerCount value := by
  induction h with
  | start => cases hValue
  | ended buffer results _ ih =>
    exact ih (List.pairwise_cons.mp hFinal).2 (List.mem_of_ne_of_mem (by simp) hValue)
  | nameError buffer answerCount results _ _ _ =>
    exact absurd (List.mem_of_ne_of_mem (by simp) hValue)
      (((framingFinal_error (.nameError _) trivial).mp hFinal).1 value)
  | shortFields name rest answerCount results _ _ _ _ =>
    exact absurd (List.mem_of_ne_of_mem (by simp) hValue)
      (((framingFinal_error .shortFields trivial).mp hFinal).1 value)
  | dataOverrun name fields dataSize tail answerCount results _ _ _ _ =>
    exact absurd (List.mem_of_ne_of_mem (by simp) hValue)
      (((framingFinal_error .dataOverrun trivial).mp hFinal).1 value)
  | record rr rest answerCount results _ ih =>
    obtain hHere | hLater := List.mem_append.mp hValue
    · obtain ⟨exit, hExit, hSome⟩ := (exit_toList_map rr).mp hHere
      cases hSome
      exact ⟨[], rr, rest, rfl, Nat.succ_pos _, hExit⟩
    · obtain ⟨before, rr', later, rfl, hLess, hExit⟩ :=
        ih ((framingFinal_record rr).mp hFinal) hLater
      refine ⟨rr :: before, rr', later, ?_, Nat.succ_lt_succ hLess, hExit⟩
      rw [List.flatMap_cons, List.append_assoc]

/-- Errors of framing are final, and addresses are those of framed records,
exactly when no overrunning record's fields read as a record with an address. -/
theorem framingFinal_iff_not_fabricates {packet : List Byte} {records : Records}
    (hParse : parseResponsePacket packet = .ret (.ok records)) :
    (∀ n results last, calls Records.leave n records = .ret (results, last) →
      FramingFinal results ∧ ∀ value, some (.record value) ∈ results →
        Framed records.buffer records.answerCount value) ↔
    ¬ ∃ (header : Header) (questions : List (Question AcceptedName)) (body : List Byte),
      packet = header.encode ++ (questions.flatMap Question.encode ++ body) ∧
      questions.length = header.questionCount.toNat ∧
      Fabricates body header.answerCount.toNat := by
  constructor
  · rintro hFinal ⟨header, questions, body, rfl, hQuestions, hFabricates⟩
    obtain ⟨results, hReads, hNot⟩ := hFabricates.reads
    obtain ⟨last, hCalls⟩ := Records.calls_of_reads hReads
    obtain ⟨name, rest, hName, -, hBody⟩ := hFabricates.addresses.exists_name
    have hNonempty : body ≠ [] := hBody ▸ List.append_ne_nil_of_left_ne_nil hName.ne_nil rest
    obtain ⟨-, -, -, rfl⟩ := (parse_questions_iff header questions hQuestions hNonempty
      records).mp hParse
    exact hNot (hFinal _ results last hCalls).1
  · intro hNot n results last hCalls
    obtain ⟨header, questions, hPacket, -, -, hQuestions, hCount, -⟩ := parse_ok hParse
    have hReads := Records.reads_of_calls hCalls
    have hFinal := hReads.framingFinal fun hFabricates =>
      hNot ⟨header, questions, records.buffer, hPacket, hQuestions, hCount ▸ hFabricates⟩
    exact ⟨hFinal, fun value => hReads.framed hFinal⟩

theorem framingFinal_iff_not_fabricates_aliased :
    (∀ n results last, calls Records.leave n ⟨aliasedResponse.drop 17, 2⟩ = .ret (results, last) →
      FramingFinal results ∧ ∀ value, some (.record value) ∈ results →
        Framed (aliasedResponse.drop 17) 2 value) ↔
    ¬ ∃ (header : Header) (questions : List (Question AcceptedName)) (body : List Byte),
      aliasedResponse = header.encode ++ (questions.flatMap Question.encode ++ body) ∧
      questions.length = header.questionCount.toNat ∧
      Fabricates body header.answerCount.toNat :=
  framingFinal_iff_not_fabricates (by decide +kernel)

def overrunResponse : List Byte :=
  [0, 0, 0x80, 0, 0, 0, 0, 1, 0, 0, 0, 0] ++ [0] ++ [0, 0, 1, 0, 1, 0, 0, 0, 1, 0] ++
    [4, 127, 0, 0, 1]

theorem overrun_fabricates :
    parseResponsePacket overrunResponse = .ret (.ok ⟨overrunResponse.drop 12, 1⟩) ∧
    calls Records.leave 2 ⟨overrunResponse.drop 12, 1⟩ =
      .ret ([some .dataOverrun,
        some (.record { address := .v4 ⟨[127, 0, 0, 1], rfl⟩, ttl := 1#32 })], ⟨[], 0⟩) := by
  decide +kernel

end Ground.Dns
