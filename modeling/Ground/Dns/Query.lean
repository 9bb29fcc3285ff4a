import Ground.Dns
import Ground.Io

/-! # Queries

`make_query_packet` and `query`. The operating system's answers, and what the
awaited operations of the socket resolve to, are the network's.
-/

namespace Ground.Dns

inductive QueryPanic where
  | sliceIndex
  | copyLength
  | assertion
  | parse (reason : Panic)
  | async (reason : Ground.Panic)
  deriving DecidableEq

/-- The caller's buffer: what is filled already, and the slice that is left. -/
structure PacketBuffer where
  written : List Byte
  rest : List Byte

def copyFromSlice (dest source : List Byte) : Outcome QueryPanic (List Byte) :=
  if dest.length = source.length then .ret source else .panic .copyLength

namespace PacketBuffer

def fill (buffer : PacketBuffer) (bytes : List Byte) : Outcome QueryPanic PacketBuffer := do
  let dest ← slice .sliceIndex buffer.rest 0 bytes.length
  let dest ← copyFromSlice dest bytes
  let rest ← slice .sliceIndex buffer.rest bytes.length buffer.rest.length
  return { written := buffer.written ++ dest, rest }

def put {n : Nat} (buffer : PacketBuffer) (value : BitVec (8 * n)) :
    Outcome QueryPanic PacketBuffer :=
  buffer.fill (toBeBytes value).1

def putLabels (buffer : PacketBuffer) : List (List Byte) → Outcome QueryPanic PacketBuffer
  | [] => return buffer
  | label :: labels =>
    if label = [] then buffer.putLabels labels
    else do
      let len := label.length
      if ¬ len < 128 then .panic .assertion
      else do
        let buffer ← buffer.put (n := 1) (BitVec.ofNat 8 len)
        let buffer ← buffer.fill label
        buffer.putLabels labels

end PacketBuffer

def dot : Byte := 46#8

/-- The size of the packet, and the buffer with the packet in front. -/
def makeQueryPacket (name buffer : List Byte) (queryType : BitVec 16) :
    Outcome QueryPanic (Nat × List Byte) := do
  let originalBufferSize := buffer.length
  let buffer : PacketBuffer := { written := [], rest := buffer }
  let buffer ← buffer.put (n := 2) 0#16 -- ID
  let buffer ← buffer.put (n := 2) 0x0120#16 -- flags
  let buffer ← buffer.put (n := 2) 1#16 -- question count
  let buffer ← buffer.put (n := 2) 0#16 -- answer count
  let buffer ← buffer.put (n := 2) 0#16 -- authority count
  let buffer ← buffer.put (n := 2) 0#16 -- additional count
  let buffer ← buffer.putLabels (name.splitOn dot)
  let buffer ← buffer.put (n := 1) 0#8
  let buffer ← buffer.put (n := 2) queryType
  let buffer ← buffer.put (n := 2) C_IN
  return (originalBufferSize - buffer.rest.length, buffer.written ++ buffer.rest)

inductive AddressFamily where
  | ipv4
  | ipv6
  deriving DecidableEq

def AddressFamily.asType : AddressFamily → BitVec 16
  | .ipv4 => TYPE_A
  | .ipv6 => TYPE_AAAA

inductive SocketAddr where
  | v4 (ip : Bytes 4) (port : BitVec 16)
  | v6 (ip : Bytes 16) (port : BitVec 16) (flowinfo scopeId : BitVec 32)
  deriving DecidableEq

def SocketAddr.unspecified : SocketAddr → SocketAddr
  | .v4 _ _ => .v4 ⟨List.replicate 4 0#8, rfl⟩ 0#16
  | .v6 _ _ _ _ => .v6 ⟨List.replicate 16 0#8, rfl⟩ 0#16 0#32 0#32

structure Datagram where
  bytes : List Byte
  sender : SocketAddr

/-- `recv_from`: the datagram is cut to the buffer, whose other bytes stay. -/
def recvFrom (buffer : List Byte) (datagram : Datagram) : List Byte × Nat × SocketAddr :=
  let received := datagram.bytes.take buffer.length
  (received ++ buffer.drop received.length, received.length, datagram.sender)

structure Network where
  bind : SocketAddr → Except Error RawFd
  fcntl : Fcntl
  sendTo : List Byte → SocketAddr → Outcome Ground.Panic (Except Error Nat)
  /-- What the awaited `recv_from`s have resolved to so far. -/
  received : List (Outcome Ground.Panic (Except Error Datagram))

/-- The loop of `query`; without a result it waits for the next datagram. -/
def receive (dnsServer : SocketAddr) (buffer : List Byte) :
    List (Outcome Ground.Panic (Except Error Datagram)) →
    Outcome QueryPanic (Option (Except Error Records))
  | [] => return none
  | received :: later => do
    match ← received.mapPanic .async with
    | .error e => return some (.error e)
    | .ok datagram =>
      let (buffer, size, sender) := recvFrom buffer datagram
      if sender ≠ dnsServer then receive dnsServer buffer later
      else do
        let packet ← slice .sliceIndex buffer 0 size
        return some (← (parseResponsePacket packet).mapPanic .parse)

def query (network : Network) (name : List Byte) (addressFamily : AddressFamily)
    (dnsServer : SocketAddr) (buffer : List Byte) :
    Outcome QueryPanic (Option (Except Error Records)) := do
  let (bufferSize, buffer) ← makeQueryPacket name buffer addressFamily.asType
  let sendBuffer ← slice .sliceIndex buffer 0 bufferSize
  match network.bind dnsServer.unspecified with
  | .error e => return some (.error e)
  | .ok socket => do
    let _socket : Async RawFd Unit ← (Async.new network.fcntl socket).mapPanic .async
    match ← (network.sendTo sendBuffer dnsServer).mapPanic .async with
    | .error e => return some (.error e)
    | .ok _ => receive dnsServer buffer network.received

end Ground.Dns
