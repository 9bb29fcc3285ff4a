import Ground.Foundation.Bytes
import Ground.Util

/-! # The DNS client's parser

`dns.rs` from `name_size` to `Records::next`. Indexing, `unwrap` and `-=` are
checked; a violation is a panic with its reason.
-/

namespace Ground.Dns

inductive Panic where
  | sliceIndex
  | unwrapErr
  | subtractOverflow
  deriving DecidableEq

def C_IN : BitVec 16 := 1#16
def TYPE_A : BitVec 16 := 1#16
def TYPE_AAAA : BitVec 16 := 28#16

inductive IpAddr where
  | v4 (octets : Bytes 4)
  | v6 (octets : Bytes 16)
  deriving DecidableEq

structure Record where
  address : IpAddr
  ttl : BitVec 32
  deriving DecidableEq

def invalidData : Error := .ofKind .invalidData

def nameSizeFrom (buffer : List Byte) (pos : Nat) : Except Error Nat :=
  if h : pos < buffer.length then
    let byte := buffer[pos]
    let pos := pos + 1
    if byte = 0#8 then .ok pos
    else if byte.toNat ≤ 127 then nameSizeFrom buffer (pos + byte.toNat)
    else if pos + 1 ≤ buffer.length then .ok (pos + 1)
    else .error invalidData
  else .error invalidData
termination_by buffer.length - pos

def nameSize (buffer : List Byte) : Except Error Nat := nameSizeFrom buffer 0

/-- `uN::from_be_bytes(buffer[start..stop].try_into().unwrap())`. -/
def beAt (n : Nat) (buffer : List Byte) (start stop : Nat) : Outcome Panic (BitVec (8 * n)) := do
  let bytes ← slice .sliceIndex buffer start stop
  let bytes ← unwrap .unwrapErr (tryFrom n bytes)
  return fromBeBytes bytes

structure Records where
  buffer : List Byte
  answerCount : Nat
  deriving DecidableEq

def skipQuestions (buffer : List Byte) : (questionCount pos : Nat) →
    Outcome Panic (Except Error Nat)
  | 0, pos => return .ok pos
  | questionCount + 1, pos => do
    let rest ← slice .sliceIndex buffer pos buffer.length
    match nameSize rest with
    | .error e => return .error e
    | .ok size =>
      let pos := pos + size + 4
      if pos ≥ buffer.length then return .error invalidData
      else skipQuestions buffer questionCount pos

def parseResponsePacket (buffer : List Byte) : Outcome Panic (Except Error Records) :=
  if buffer.length < 12 then return .error invalidData
  else do
    let flags ← beAt 2 buffer 2 4
    let questionCount ← beAt 2 buffer 4 6
    let answerCount ← beAt 2 buffer 6 8
    if flags &&& 0x8000#16 ≠ 0x8000#16 then return .error invalidData
    else if flags &&& 0xf#16 = 3#16 ∨ answerCount.toNat = 0 then return .error (.ofKind .notFound)
    else if flags &&& 0xf#16 ≠ 0#16 then return .error (.ofKind .other)
    else
      match ← skipQuestions buffer questionCount.toNat 12 with
      | .error e => return .error e
      | .ok pos =>
        let rest ← slice .sliceIndex buffer pos buffer.length
        return .ok { buffer := rest, answerCount := answerCount.toNat }

/-- The returns inside the loop of `next`, told apart. -/
inductive Exit where
  | nameError (e : Error)
  | shortFields
  | dataOverrun
  | badAddress
  | record (value : Record)
  deriving DecidableEq

def Exit.item : Exit → Except Error Record
  | .nameError e => .error e
  | .shortFields | .dataOverrun | .badAddress => .error invalidData
  | .record value => .ok value

/-- The framing of the answer section is broken. -/
def Exit.Framing : Exit → Prop
  | .nameError _ | .shortFields | .dataOverrun => True
  | .badAddress | .record _ => False

def decrement (answerCount : Nat) : Outcome Panic Nat :=
  if answerCount = 0 then .panic .subtractOverflow else .ret (answerCount - 1)

def address (n : Nat) (toAddr : Bytes n → IpAddr) (ttl : BitVec 32) (data : List Byte) : Exit :=
  match tryFrom n data with
  | some data => .record { address := toAddr data, ttl }
  | none => .badAddress

namespace Records

/-- One iteration of the loop of `next`; without an exit it continues. -/
def body (records : Records) : Outcome Panic (Option Exit × Records) :=
  match nameSize records.buffer with
  | .error e => return (some (.nameError e), records)
  | .ok nameSize => do
    let buffer ← slice .sliceIndex records.buffer nameSize records.buffer.length
    let records := { records with buffer }
    if buffer.length < 10 then return (some .shortFields, records)
    else
      let rrType ← beAt 2 buffer 0 2
      let rrClass ← beAt 2 buffer 2 4
      let ttl ← beAt 4 buffer 4 8
      let dataSize ← beAt 2 buffer 8 10
      let dataSize := dataSize.toNat
      if buffer.length < 10 + dataSize then return (some .dataOverrun, records)
      else
        let data ← slice .sliceIndex buffer 10 (10 + dataSize)
        let buffer ← slice .sliceIndex buffer (10 + dataSize) buffer.length
        let answerCount ← decrement records.answerCount
        let records := { buffer, answerCount }
        if rrClass ≠ C_IN then return (none, records)
        else if rrType = TYPE_A then return (some (address 4 .v4 ttl data), records)
        else if rrType = TYPE_AAAA then return (some (address 16 .v6 ttl data), records)
        else return (none, records)

theorem body_continues {records next : Records} (h : records.body = .ret (none, next)) :
    next.answerCount < records.answerCount := by
  unfold body at h
  split at h
  · cases h
  · obtain ⟨buffer, -, h⟩ := Outcome.bind_eq_ret_iff.mp h
    simp only at h
    split at h
    · cases h
    · simp only [Outcome.bind_eq_ret_iff] at h
      obtain ⟨rrType, -, rrClass, -, ttl, -, dataSize, -, h⟩ := h
      split at h
      · cases h
      · simp only [Outcome.bind_eq_ret_iff] at h
        obtain ⟨data, -, rest, -, answerCount, hCount, h⟩ := h
        have hNext : next.answerCount = answerCount := by
          split at h
          · cases h
            rfl
          · split at h
            · cases h
            · split at h <;> cases h
              rfl
        unfold decrement at hCount
        split at hCount <;> cases hCount
        omega

def leave (records : Records) : Outcome Panic (Option Exit × Records) :=
  if records.answerCount = 0 then return (none, records)
  else
    match _h : records.body with
    | .panic p => .panic p
    | .ret (some exit, records) => return (some exit, records)
    | .ret (none, records) => records.leave
termination_by records.answerCount
decreasing_by exact body_continues _h

def next (records : Records) : Outcome Panic (Option (Except Error Record) × Records) := do
  let (exit, records) ← records.leave
  return (exit.map Exit.item, records)

end Records

end Ground.Dns
