import Ground.Dns.Wire
import Ground.Foundation.Iterator

/-! # One step of the iterator

A buffer has one of four layouts where an answer is expected, and the body of
the loop of `next` is computed for each of them.
-/

namespace Ground.Dns

variable {N : Type} [Named N]

theorem beAt_append {n start stop : Nat} (front : List Byte) (x : BitVec (8 * n))
    (back : List Byte) (hStart : front.length = start) (hStop : start + n = stop) :
    beAt n (front ++ ((toBeBytes x).1 ++ back)) start stop = .ret x := by
  have hLength : (toBeBytes x).1.length = n := (toBeBytes x).2
  have hSlice := slice_append_mid Panic.sliceIndex front (toBeBytes x).1 back
  rw [hLength, hStart, hStop] at hSlice
  rw [beAt, hSlice, Outcome.ret_bind, tryFrom_eq_some hLength, unwrap, Outcome.ret_bind,
    Outcome.pure_eq]
  exact congrArg _ (fromBeBytes_toBeBytes x)

theorem beAt_fields (fields : Fields) (dataSize : BitVec 16) (tail : List Byte) :
    beAt 2 (fields.encode dataSize ++ tail) 0 2 = .ret fields.rrType ∧
    beAt 2 (fields.encode dataSize ++ tail) 2 4 = .ret fields.rrClass ∧
    beAt 4 (fields.encode dataSize ++ tail) 4 8 = .ret fields.ttl ∧
    beAt 2 (fields.encode dataSize ++ tail) 8 10 = .ret dataSize := by
  let rrType := (toBeBytes (n := 2) fields.rrType).1
  let rrClass := (toBeBytes (n := 2) fields.rrClass).1
  let ttl := (toBeBytes (n := 4) fields.ttl).1
  have hType : rrType.length = 2 := (toBeBytes (n := 2) fields.rrType).2
  have hClass : rrClass.length = 2 := (toBeBytes (n := 2) fields.rrClass).2
  have hTtl : ttl.length = 4 := (toBeBytes (n := 4) fields.ttl).2
  simp only [Fields.encode, List.append_assoc]
  refine ⟨beAt_append (n := 2) [] _ _ rfl rfl, beAt_append (n := 2) rrType _ _ hType rfl, ?_, ?_⟩
  · have hFront : (rrType ++ rrClass).length = 4 := by rw [List.length_append, hType, hClass]
    have h := beAt_append (n := 4) (rrType ++ rrClass) fields.ttl
      ((toBeBytes (n := 2) dataSize).1 ++ tail) hFront rfl
    simpa only [List.append_assoc] using h
  · have hFront : (rrType ++ rrClass ++ ttl).length = 8 := by
      rw [List.length_append, List.length_append, hType, hClass, hTtl]
    have h := beAt_append (n := 2) (rrType ++ rrClass ++ ttl) dataSize tail hFront rfl
    simpa only [List.append_assoc] using h

theorem exists_fields {bytes : List Byte} (h : 10 ≤ bytes.length) :
    ∃ (fields : Fields) (dataSize : BitVec 16) (tail : List Byte),
      bytes = fields.encode dataSize ++ tail := by
  obtain ⟨rrType, rest, rfl, hLength⟩ := exists_toBeBytes (n := 2) (Nat.le_trans (by decide) h)
  obtain ⟨rrClass, rest, rfl, hLength⟩ := exists_toBeBytes (n := 2) (show 2 ≤ rest.length by omega)
  obtain ⟨ttl, rest, rfl, hLength⟩ := exists_toBeBytes (n := 4) (show 4 ≤ rest.length by omega)
  obtain ⟨dataSize, tail, rfl, -⟩ := exists_toBeBytes (n := 2) (show 2 ≤ rest.length by omega)
  exact ⟨⟨rrType, rrClass, ttl⟩, dataSize, tail, by simp [Fields.encode]⟩

def ResourceRecord.exit (rr : ResourceRecord N) : Option Exit :=
  if rr.fields.rrClass ≠ C_IN then none
  else if rr.fields.rrType = TYPE_A then some (address 4 .v4 rr.fields.ttl rr.rdata)
  else if rr.fields.rrType = TYPE_AAAA then some (address 16 .v6 rr.fields.ttl rr.rdata)
  else none

theorem address_item (n : Nat) (toAddr : Bytes n → IpAddr) (ttl : BitVec 32) (data : List Byte) :
    (address n toAddr ttl data).item =
      if h : data.length = n then .ok { address := toAddr ⟨data, h⟩, ttl }
      else .error invalidData := by
  obtain h | h := eq_or_ne data.length n
  · rw [address, tryFrom_eq_some h, dif_pos h]
    rfl
  · rw [address, tryFrom_eq_none h, dif_neg h]
    rfl

omit [Named N] in
theorem ResourceRecord.exit_item (rr : ResourceRecord N) : rr.exit.map Exit.item = rr.item := by
  obtain hClass | hClass := eq_or_ne rr.fields.rrClass C_IN
  · obtain hA | hA := eq_or_ne rr.fields.rrType TYPE_A
    · simp [exit, item, hClass, hA, address_item]
    · obtain hAAAA | hAAAA := eq_or_ne rr.fields.rrType TYPE_AAAA
      · have hOther : TYPE_AAAA ≠ TYPE_A := by decide
        simp [exit, item, hClass, hAAAA, hOther, address_item]
      · simp [exit, item, hClass, hA, hAAAA]
  · simp [exit, item, hClass]

theorem layout_cases (buffer : List Byte) :
    nameSize buffer = .error invalidData ∨
    (∃ name rest, Name name ∧ rest.length < 10 ∧ buffer = name ++ rest) ∨
    (∃ (name : List Byte) (fields : Fields) (dataSize : BitVec 16) (tail : List Byte), Name name ∧
      tail.length < dataSize.toNat ∧ buffer = name ++ (fields.encode dataSize ++ tail)) ∨
    ∃ (rr : ResourceRecord AcceptedName) (rest : List Byte), buffer = rr.encode ++ rest := by
  obtain hError | ⟨name, rest, hName, rfl, -⟩ := nameSize_cases buffer
  · exact .inl hError
  · obtain hShort | hLong := Nat.lt_or_ge rest.length 10
    · exact .inr (.inl ⟨name, rest, hName, hShort, rfl⟩)
    · obtain ⟨fields, dataSize, tail, rfl⟩ := exists_fields hLong
      obtain hOverrun | hFits := Nat.lt_or_ge tail.length dataSize.toNat
      · exact .inr (.inr (.inl ⟨name, fields, dataSize, tail, hName, hOverrun, rfl⟩))
      · have hSize := dataSize.isLt
        have hTake : (tail.take dataSize.toNat).length = dataSize.toNat := by
          rw [List.length_take]
          omega
        let rr : ResourceRecord AcceptedName :=
          { name := ⟨name, name_iff.mpr hName⟩
            fields := fields
            rdata := tail.take dataSize.toNat
            short := by omega }
        have hDataSize : rr.dataSize = dataSize := by
          rw [ResourceRecord.dataSize, hTake, BitVec.ofNat_toNat, BitVec.setWidth_eq]
        refine .inr (.inr (.inr ⟨rr, tail.drop dataSize.toNat, ?_⟩))
        rw [ResourceRecord.encode, hDataSize, List.append_assoc, List.append_assoc,
          List.take_append_drop]
        rfl

namespace Records

theorem body_nameError {buffer : List Byte} {answerCount : Nat} {e : Error}
    (h : nameSize buffer = .error e) :
    body ⟨buffer, answerCount⟩ = .ret (some (.nameError e), ⟨buffer, answerCount⟩) := by
  simp only [body, h]
  rfl

theorem body_shortFields {name rest : List Byte} (hName : Name name) (hShort : rest.length < 10)
    (answerCount : Nat) :
    body ⟨name ++ rest, answerCount⟩ = .ret (some .shortFields, ⟨rest, answerCount⟩) := by
  simp only [body, hName.nameSize_append, slice_append_right, Outcome.ret_bind, hShort, if_true]
  rfl

theorem body_dataOverrun {name : List Byte} (hName : Name name) (fields : Fields)
    {dataSize : BitVec 16} {tail : List Byte} (hOverrun : tail.length < dataSize.toNat)
    (answerCount : Nat) :
    body ⟨name ++ (fields.encode dataSize ++ tail), answerCount⟩ =
      .ret (some .dataOverrun, ⟨fields.encode dataSize ++ tail, answerCount⟩) := by
  obtain ⟨hType, hClass, hTtl, hSize⟩ := beAt_fields fields dataSize tail
  have hLength : (fields.encode dataSize ++ tail).length = 10 + tail.length := by simp
  simp only [body, hName.nameSize_append, slice_append_right, Outcome.ret_bind, hType, hClass,
    hTtl, hSize, hLength]
  rw [if_neg (by omega), if_pos (by omega)]
  rfl

theorem body_record (rr : ResourceRecord N) (rest : List Byte) (answerCount : Nat) :
    body ⟨rr.encode ++ rest, answerCount + 1⟩ = .ret (rr.exit, ⟨rest, answerCount⟩) := by
  have hFields : (rr.fields.encode rr.dataSize).length = 10 := Fields.length_encode ..
  obtain ⟨hType, hClass, hTtl, hSize⟩ := beAt_fields rr.fields rr.dataSize (rr.rdata ++ rest)
  have hData := slice_append_mid Panic.sliceIndex (rr.fields.encode rr.dataSize) rr.rdata rest
  have hRest := slice_append_right Panic.sliceIndex (rr.fields.encode rr.dataSize ++ rr.rdata) rest
  rw [List.append_assoc, List.length_append, hFields] at hRest
  rw [hFields] at hData
  have hLength : (rr.fields.encode rr.dataSize ++ (rr.rdata ++ rest)).length =
      10 + rr.rdata.length + rest.length := by
    simp only [List.length_append, hFields]
    omega
  simp only [ResourceRecord.encode, List.append_assoc, body, (Named.isName rr.name).nameSize_append,
    slice_append_right, Outcome.ret_bind, hType, hClass, hTtl, hSize, rr.toNat_dataSize]
  rw [if_neg (by omega), if_neg (by omega), hData, Outcome.ret_bind, hRest, Outcome.ret_bind]
  simp only [decrement, Nat.succ_ne_zero, if_false, Outcome.ret_bind, Nat.add_sub_cancel,
    ResourceRecord.exit]
  split
  · rfl
  · split
    · rfl
    · split <;> rfl

theorem body_cases (buffer : List Byte) (answerCount : Nat) :
    (∃ (exit : Exit) (records : Records), exit.Framing ∧ exit.item = .error invalidData ∧
      body ⟨buffer, answerCount⟩ = .ret (some exit, records)) ∨
    ∃ (rr : ResourceRecord AcceptedName) (rest : List Byte), buffer = rr.encode ++ rest := by
  obtain hError | ⟨name, rest, hName, hShort, rfl⟩ |
    ⟨name, fields, dataSize, tail, hName, hOverrun, rfl⟩ | hRecord := layout_cases buffer
  · exact .inl ⟨.nameError _, _, trivial, rfl, body_nameError hError⟩
  · exact .inl ⟨.shortFields, _, trivial, rfl, body_shortFields hName hShort answerCount⟩
  · exact .inl ⟨.dataOverrun, _, trivial, rfl, body_dataOverrun hName fields hOverrun answerCount⟩
  · exact .inr hRecord

theorem leave_zero (buffer : List Byte) : leave ⟨buffer, 0⟩ = .ret (none, ⟨buffer, 0⟩) := by
  rw [leave, if_pos rfl]
  rfl

theorem leave_exit {records records' : Records} {exit : Exit} (h : 0 < records.answerCount)
    (hBody : records.body = .ret (some exit, records')) :
    records.leave = .ret (some exit, records') := by
  rw [leave, if_neg (by omega)]
  split
  · rename_i hPanic
    cases hPanic.symm.trans hBody
  · rename_i hExit
    cases hExit.symm.trans hBody
    rfl
  · rename_i hContinue
    cases hContinue.symm.trans hBody

theorem leave_continue {records records' : Records} (h : 0 < records.answerCount)
    (hBody : records.body = .ret (none, records')) : records.leave = records'.leave := by
  rw [leave, if_neg (by omega)]
  split
  · rename_i hPanic
    cases hPanic.symm.trans hBody
  · rename_i hExit
    cases hExit.symm.trans hBody
  · rename_i hContinue
    cases hContinue.symm.trans hBody
    rfl

theorem yields_record (rr : ResourceRecord N) (rest : List Byte) (answerCount : Nat)
    {exits : List Exit} : Yields leave ⟨rr.encode ++ rest, answerCount + 1⟩ exits ↔
      ∃ later, exits = rr.exit.toList ++ later ∧ Yields leave ⟨rest, answerCount⟩ later := by
  have hBody := body_record rr rest answerCount
  cases hExit : rr.exit with
  | none =>
    rw [hExit] at hBody
    have hSame := leave_continue (Nat.succ_pos _) hBody
    simp only [Option.toList_none, List.nil_append, exists_eq_left']
    exact ⟨Yields.congr hSame, Yields.congr hSame.symm⟩
  | some exit =>
    rw [hExit] at hBody
    exact yields_of_item (leave_exit (Nat.succ_pos _) hBody)

theorem shows_record (rr : ResourceRecord N) {rest : List Byte} {answerCount : Nat}
    {later : List Exit} (hLater : Shows leave ⟨rest, answerCount⟩ later) :
    Shows leave ⟨rr.encode ++ rest, answerCount + 1⟩ (rr.exit.toList ++ later) := by
  have hBody := body_record rr rest answerCount
  cases hExit : rr.exit with
  | none =>
    rw [hExit] at hBody
    exact hLater.congr (leave_continue (Nat.succ_pos _) hBody).symm
  | some exit =>
    rw [hExit] at hBody
    exact .item (leave_exit (Nat.succ_pos _) hBody) hLater

end Records

end Ground.Dns
