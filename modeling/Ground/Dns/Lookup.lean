import Ground.Dns.Query
import Ground.Net.Lifecycle

/-! # The future of `query`

The function between its awaits. The operating system answers a poll for as long as
it goes on, and the record keeps what it was asked and what was delivered.
-/

namespace Ground.Dns

variable {τ κ : Type}

structure Request where
  name : List Byte
  addressFamily : AddressFamily
  dnsServer : SocketAddr
  buffer : List Byte

/-- `inbox` answers `recv_from` in turn, and then it is `EAGAIN`. -/
structure Os where
  bind : SocketAddr → Except Error RawFd
  fcntl : Fcntl
  sendTo : List Byte → SocketAddr → Except Error Nat
  inbox : List (Except Error Datagram)

inductive Entry where
  | bound (address : SocketAddr) (answer : Except Error RawFd) (fcntl : Fcntl)
  | sent (packet : List Byte) (address : SocketAddr) (answer : Except Error Nat)
  | received (answer : Except Error Datagram)
  | delivered (events : Events)

def sendClosure (os : Os) (packet : List Byte) (dnsServer : SocketAddr) :
    FnMut (List Entry) RawFd Nat := fun trace socket =>
  let answer := os.sendTo packet dnsServer
  (.ret answer, trace ++ [.sent packet dnsServer answer], socket)

def recvClosure (answer : Except Error Datagram) :
    FnMut (List Byte × List Entry) RawFd (Nat × SocketAddr) := fun (buffer, trace) socket =>
  let trace := trace ++ [.received answer]
  match answer with
  | .error e => (.ret (.error e), (buffer, trace), socket)
  | .ok datagram =>
    let (buffer, size, sender) := recvFrom buffer datagram
    (.ret (.ok (size, sender)), (buffer, trace), socket)

inductive Stage (τ : Type) where
  | unresumed
  | sending (socket : Nonblocking RawFd τ Unit) (packet buffer : List Byte)
  | receiving (socket : Nonblocking RawFd τ (List Byte))
  | finished (outcome : Outcome QueryPanic (Except Error Records))
  | dropped (outcome : Outcome Ground.Panic Unit)

/-- The future, the descriptor of its socket, the reactor of its thread, and the
record. -/
structure Lookup (τ κ : Type) where
  stage : Stage τ
  socket : Option RawFd
  reactor : Reactor κ
  trace : List Entry

namespace Lookup

def start (r : Reactor κ) : Lookup τ κ where
  stage := .unresumed
  socket := none
  reactor := r
  trace := []

variable [Epoll κ]

def finish (s : Lookup τ κ) (a : Async RawFd τ)
    (outcome : Outcome QueryPanic (Except Error Records)) : Lookup τ κ :=
  let (dropped, reactor) := a.drop s.reactor
  let outcome := outcome >>= fun result => dropped.mapPanic .async >>= fun () => .ret result
  { s with stage := .finished outcome, reactor }

inductive Turn (τ κ : Type) where
  | leave (s : Lookup τ κ)
  | again (s : Lookup τ κ) (socket : Nonblocking RawFd τ (List Byte))

/-- One turn of the loop, in which `recv_from` may be called once. -/
def turn (s : Lookup τ κ) (dnsServer : SocketAddr) (addr : Addr) (waker : Waker τ)
    (socket : Nonblocking RawFd τ (List Byte)) (answer : Except Error Datagram) : Turn τ κ :=
  let traced : Nonblocking RawFd τ (List Byte × List Entry) :=
    { a := socket.a, interest := socket.interest, captured := (socket.captured, s.trace) }
  let (outcome, traced, reactor) := traced.poll addr waker (recvClosure answer) s.reactor
  let (buffer, trace) := traced.captured
  let s := { s with reactor, trace }
  let socket := { a := traced.a, interest := traced.interest, captured := buffer }
  match outcome with
  | .panic p => .leave (s.finish traced.a (.panic (.async p)))
  | .ret .pending => .leave { s with stage := .receiving socket }
  | .ret (.ready (.error e)) => .leave (s.finish traced.a (.ret (.error e)))
  | .ret (.ready (.ok (size, sender))) =>
    if sender ≠ dnsServer then .again s socket
    else .leave (s.finish traced.a do
      let packet ← slice .sliceIndex buffer 0 size
      (parseResponsePacket packet).mapPanic .parse)

def Turn.stage : Turn τ κ → Lookup τ κ
  | .leave s => s
  | .again s socket => { s with stage := .receiving socket }

def pollReceive (s : Lookup τ κ) (dnsServer : SocketAddr) (addr : Addr) (waker : Waker τ)
    (socket : Nonblocking RawFd τ (List Byte)) : List (Except Error Datagram) → Lookup τ κ
  | [] => (s.turn dnsServer addr waker socket (.error (.fromRawOsError EAGAIN))).stage
  | answer :: inbox =>
    match s.turn dnsServer addr waker socket answer with
    | .leave s => s
    | .again s socket => s.pollReceive dnsServer addr waker socket inbox

def pollSend (s : Lookup τ κ) (dnsServer : SocketAddr) (addr : Addr) (waker : Waker τ) (os : Os)
    (socket : Nonblocking RawFd τ Unit) (packet buffer : List Byte) : Lookup τ κ :=
  let traced : Nonblocking RawFd τ (List Entry) :=
    { a := socket.a, interest := socket.interest, captured := s.trace }
  let (outcome, traced, reactor) :=
    traced.poll addr waker (sendClosure os packet dnsServer) s.reactor
  let s := { s with reactor, trace := traced.captured }
  match outcome with
  | .panic p => s.finish traced.a (.panic (.async p))
  | .ret .pending =>
    let socket := { a := traced.a, interest := traced.interest, captured := () }
    { s with stage := .sending socket packet buffer }
  | .ret (.ready (.error e)) => s.finish traced.a (.ret (.error e))
  | .ret (.ready (.ok _)) =>
    s.pollReceive dnsServer addr waker { a := traced.a, interest := .read, captured := buffer }
      os.inbox

def poll (s : Lookup τ κ) (request : Request) (addr : Addr) (waker : Waker τ) (os : Os) :
    Lookup τ κ :=
  match s.stage with
  | .unresumed =>
    match makeQueryPacket request.name request.buffer request.addressFamily.asType with
    | .panic p => { s with stage := .finished (.panic p) }
    | .ret (bufferSize, buffer) =>
      match slice .sliceIndex buffer 0 bufferSize with
      | .panic p => { s with stage := .finished (.panic p) }
      | .ret packet =>
        let address := request.dnsServer.unspecified
        let answer := os.bind address
        let s := { s with trace := s.trace ++ [Entry.bound address answer os.fcntl] }
        match answer with
        | .error e => { s with stage := .finished (.ret (.error e)) }
        | .ok fd =>
          let s := { s with socket := some fd }
          match Async.new os.fcntl fd with
          | .panic p => { s with stage := .finished (.panic (.async p)) }
          | .ret a =>
            s.pollSend request.dnsServer addr waker os { a, interest := .write, captured := () }
              packet buffer
  | .sending socket packet buffer =>
    s.pollSend request.dnsServer addr waker os socket packet buffer
  | .receiving socket => s.pollReceive request.dnsServer addr waker socket os.inbox
  | .finished _ | .dropped _ => s

def deliver (s : Lookup τ κ) (addr : Addr) (events : Events) : Lookup τ κ :=
  let delivered (a : Async RawFd τ) : Async RawFd τ :=
    { a with waiter := (Reactor.deliver { events, data := addr } a.waiter).1 }
  let trace := s.trace ++ [Entry.delivered events]
  match s.stage with
  | .sending socket packet buffer =>
    { s with stage := .sending { socket with a := delivered socket.a } packet buffer, trace }
  | .receiving socket =>
    { s with stage := .receiving { socket with a := delivered socket.a }, trace }
  | .unresumed | .finished _ | .dropped _ => s

def drop (s : Lookup τ κ) : Lookup τ κ :=
  match s.stage with
  | .sending ⟨a, _, _⟩ _ _ | .receiving ⟨a, _, _⟩ =>
    let (outcome, reactor) := a.drop s.reactor
    { s with stage := .dropped outcome, reactor }
  | .unresumed | .finished _ | .dropped _ => { s with stage := .dropped (.ret ()) }

def ended (s : Lookup τ κ) : Bool :=
  match s.stage with
  | .unresumed | .sending _ _ _ | .receiving _ => false
  | .finished _ | .dropped _ => true

inductive Act (τ κ : Type) where
  | poll (waker : Waker τ) (os : Os)
  | event (events : Events)
  | elsewhere (effect : κ → κ)
  | drop

def elsewhere (s : Lookup τ κ) (effect : κ → κ) : Lookup τ κ :=
  { s with reactor := { s.reactor with epfd := effect s.reactor.epfd } }

def step (request : Request) (addr : Addr) (s : Lookup τ κ) (act : Act τ κ) :
    Option (Lookup τ κ) :=
  if s.ended then none
  else
    match act with
    | .poll waker os => some (s.poll request addr waker os)
    | .event events => some (s.deliver addr events)
    | .elsewhere effect => some (s.elsewhere effect)
    | .drop => some s.drop

end Lookup

end Ground.Dns
