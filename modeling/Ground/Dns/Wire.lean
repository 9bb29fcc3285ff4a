import Ground.Dns.Name

/-! # The layout of a response

What a response consists of on the wire, over any kind of names with an
encoding that `name_size` accepts. The limits of the format are fields.
-/

namespace Ground.Dns

/-- Names whose encoding `name_size` accepts. -/
class Named (N : Type) where
  encode : N → List Byte
  isName : ∀ name, Name (encode name)

/-- The byte strings that `name_size` accepts as a whole. -/
abbrev AcceptedName := { bytes : List Byte // nameSize bytes = .ok bytes.length }

theorem name_iff {bytes : List Byte} : nameSize bytes = .ok bytes.length ↔ Name bytes := by
  constructor
  · intro h
    obtain ⟨name, rest, hBytes, hName, hLength⟩ := nameSize_eq_ok_iff.mp h
    have hRest : rest = [] := by
      have hTotal := congrArg List.length hBytes
      rw [List.length_append] at hTotal
      exact List.eq_nil_of_length_eq_zero (by omega)
    rwa [hBytes, hRest, List.append_nil]
  · intro h
    simpa using h.nameSize_append []

instance : Named AcceptedName where
  encode := Subtype.val
  isName name := name_iff.mp name.2

structure Label where
  bytes : List Byte
  nonempty : 1 ≤ bytes.length
  short : bytes.length ≤ 63

inductive Ending where
  | root
  | pointer (first second : Byte) (compressed : 192 ≤ first.toNat)

structure WireName where
  labels : List Label
  ending : Ending

def Label.encode (label : Label) : List Byte := BitVec.ofNat 8 label.bytes.length :: label.bytes

def Ending.encode : Ending → List Byte
  | .root => [0#8]
  | .pointer first second _ => [first, second]

def WireName.encode (name : WireName) : List Byte :=
  name.labels.flatMap Label.encode ++ name.ending.encode

theorem toNat_labelLength {label : List Byte} (h : label.length < 128) :
    (BitVec.ofNat 8 label.length).toNat = label.length := by
  rw [BitVec.toNat_ofNat]
  omega

theorem labelLength_ne_zero {label : List Byte} (h : label.length < 128) (hLabel : label ≠ []) :
    BitVec.ofNat 8 label.length ≠ 0#8 := by
  intro hZero
  have hLength := toNat_labelLength h
  rw [hZero] at hLength
  exact hLabel (List.length_eq_zero_iff.mp hLength.symm)

theorem WireName.encode_cons (label : Label) (labels : List Label) (ending : Ending) :
    WireName.encode ⟨label :: labels, ending⟩ = BitVec.ofNat 8 label.bytes.length ::
      (label.bytes ++ WireName.encode ⟨labels, ending⟩) := by
  simp [WireName.encode, Label.encode]

theorem Ending.isName (ending : Ending) : Name ending.encode := by
  cases ending with
  | root => exact .root
  | pointer first second compressed => exact .pointer first second (by omega)

theorem Label.toNat_length (label : Label) :
    BitVec.ofNat 8 label.bytes.length ≠ 0#8 ∧
      (BitVec.ofNat 8 label.bytes.length).toNat = label.bytes.length := by
  have hLow := label.nonempty
  have hHigh := label.short
  have hShort : label.bytes.length < 128 := by omega
  exact ⟨labelLength_ne_zero hShort (List.length_pos_iff.mp hLow), toNat_labelLength hShort⟩

theorem WireName.isName (name : WireName) : Name name.encode := by
  obtain ⟨labels, ending⟩ := name
  induction labels with
  | nil => exact ending.isName
  | cons label labels ih =>
    obtain ⟨hNonzero, hSize⟩ := label.toNat_length
    have hHigh := label.short
    rw [encode_cons]
    exact .label _ label.bytes _ hNonzero (by omega) hSize.symm ih

instance : Named WireName where
  encode := WireName.encode
  isName := WireName.isName

structure Header where
  id : BitVec 16
  flags : BitVec 16
  questionCount : BitVec 16
  answerCount : BitVec 16
  authorityCount : BitVec 16
  additionalCount : BitVec 16

structure Question (N : Type) where
  name : N
  typeAndClass : Bytes 4

structure Fields where
  rrType : BitVec 16
  rrClass : BitVec 16
  ttl : BitVec 32

structure ResourceRecord (N : Type) where
  name : N
  fields : Fields
  rdata : List Byte
  short : rdata.length ≤ 65535

def Header.encode (header : Header) : List Byte :=
  (toBeBytes (n := 2) header.id).1 ++ ((toBeBytes (n := 2) header.flags).1 ++
    ((toBeBytes (n := 2) header.questionCount).1 ++ ((toBeBytes (n := 2) header.answerCount).1 ++
      ((toBeBytes (n := 2) header.authorityCount).1 ++
        (toBeBytes (n := 2) header.additionalCount).1))))

def Fields.encode (fields : Fields) (dataSize : BitVec 16) : List Byte :=
  (toBeBytes (n := 2) fields.rrType).1 ++ ((toBeBytes (n := 2) fields.rrClass).1 ++
    ((toBeBytes (n := 4) fields.ttl).1 ++ (toBeBytes (n := 2) dataSize).1))

@[simp] theorem Header.length_encode (header : Header) : header.encode.length = 12 := by
  simp [Header.encode, toBeBytes]

@[simp] theorem Fields.length_encode (fields : Fields) (dataSize : BitVec 16) :
    (fields.encode dataSize).length = 10 := by
  simp [Fields.encode, toBeBytes]

variable {N : Type} [Named N]

def Question.encode (question : Question N) : List Byte :=
  Named.encode question.name ++ question.typeAndClass.1

namespace ResourceRecord

def dataSize (rr : ResourceRecord N) : BitVec 16 := BitVec.ofNat 16 rr.rdata.length

def encode (rr : ResourceRecord N) : List Byte :=
  Named.encode rr.name ++ (rr.fields.encode rr.dataSize ++ rr.rdata)

omit [Named N] in
theorem toNat_dataSize (rr : ResourceRecord N) : rr.dataSize.toNat = rr.rdata.length := by
  have hShort := rr.short
  rw [dataSize, BitVec.toNat_ofNat]
  omega

theorem length_encode (rr : ResourceRecord N) :
    rr.encode.length = (Named.encode rr.name).length + 10 + rr.rdata.length := by
  simp only [encode, List.length_append, Fields.length_encode]
  omega

def item (rr : ResourceRecord N) : Option (Except Error Record) :=
  if rr.fields.rrClass = C_IN ∧ rr.fields.rrType = TYPE_A then
    some (if h : rr.rdata.length = 4 then .ok { address := .v4 ⟨rr.rdata, h⟩, ttl := rr.fields.ttl }
      else .error invalidData)
  else if rr.fields.rrClass = C_IN ∧ rr.fields.rrType = TYPE_AAAA then
    some (if h : rr.rdata.length = 16 then
        .ok { address := .v6 ⟨rr.rdata, h⟩, ttl := rr.fields.ttl }
      else .error invalidData)
  else none

end ResourceRecord

/-- A successful response with answers, and whatever follows them. -/
structure Response (N : Type) where
  header : Header
  questions : List (Question N)
  answers : List (ResourceRecord N)
  tail : List Byte
  isResponse : header.flags &&& 0x8000#16 = 0x8000#16
  noError : header.flags &&& 0xf#16 = 0#16
  questionCount : header.questionCount.toNat = questions.length
  answerCount : header.answerCount.toNat = answers.length
  answered : answers ≠ []

def Response.encode (response : Response N) : List Byte :=
  response.header.encode ++ (response.questions.flatMap Question.encode ++
    (response.answers.flatMap ResourceRecord.encode ++ response.tail))

def Response.size (response : Response N) : Nat :=
  (response.header.encode ++ (response.questions.flatMap Question.encode ++
    response.answers.flatMap ResourceRecord.encode)).length

end Ground.Dns
