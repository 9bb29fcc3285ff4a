import Ground.Dns.Lookup
import Ground.Dns.Truncate

/-! # The conduct of a query

The packet is sent before anything is received, and the loop has passed over all
that was received so far. The invariant says this of the record, beside what the
future holds of its socket.
-/

namespace Ground.Dns

open Net (Kept)
open Transition

variable {τ κ : Type}

abbrev blocked {α : Type} (answer : Except Error α) : Bool := Outcome.wouldBlock (.ret answer)

def Entry.Agrees (network : Network) : Entry → Prop
  | .bound address answer fcntl => network.bind address = answer ∧ network.fcntl = fcntl
  | .sent packet address answer =>
    blocked answer = false → network.sendTo packet address = .ret answer
  | .received _ | .delivered _ => True

def Entry.reception : Entry → Option (Outcome Ground.Panic (Except Error Datagram))
  | .received answer => if blocked answer then none else some (.ret answer)
  | .bound _ _ _ | .sent _ _ _ | .delivered _ => none

/-- The network gives the answers that the record shows, those that block left out. -/
structure Answers (network : Network) (trace : List Entry) : Prop where
  agrees : ∀ entry ∈ trace, entry.Agrees network
  received : network.received = trace.filterMap Entry.reception

namespace Request

def query (request : Request) (network : Network) :
    Outcome QueryPanic (Option (Except Error Records)) :=
  Dns.query network request.name request.addressFamily request.dnsServer request.buffer

def packet (request : Request) : List Byte :=
  queryPacket request.name request.addressFamily.asType

/-- The caller's buffer with the packet in front. -/
def written (request : Request) : List Byte :=
  request.packet ++ request.buffer.drop request.packet.length

def write (request : Request) : Outcome QueryPanic (Nat × List Byte) :=
  makeQueryPacket request.name request.buffer request.addressFamily.asType

theorem write_eq {request : Request} {size : Nat} {buffer : List Byte}
    (h : request.write = .ret (size, buffer)) :
    buffer = request.written ∧ slice QueryPanic.sliceIndex buffer 0 size = .ret request.packet := by
  obtain ⟨-, -, rfl, rfl⟩ := makeQueryPacket_eq_ret_iff.mp h
  have hSlice := slice_append_mid QueryPanic.sliceIndex [] request.packet
    (request.buffer.drop request.packet.length)
  simp only [List.nil_append, List.length_nil, Nat.zero_add] at hSlice
  exact ⟨rfl, hSlice⟩

end Request

structure Opened (request : Request) (trace : List Entry) : Prop where
  written : ∃ size, request.write = .ret (size, request.written)
  bound : ∃ fd fcntl, .bound request.dnsServer.unspecified (.ok fd) fcntl ∈ trace ∧
    ensureNonblocking fcntl fd = .ok ()

theorem Opened.length_written {request : Request} {trace : List Entry}
    (h : Opened request trace) : request.written.length = request.buffer.length := by
  obtain ⟨size, hWrite⟩ := h.written
  obtain ⟨-, hRoom, -⟩ := makeQueryPacket_eq_ret_iff.mp hWrite
  simp only [Request.written, Request.packet, List.length_append, List.length_drop]
  omega

theorem length_recvFrom (buffer : List Byte) (datagram : Datagram) :
    (recvFrom buffer datagram).1.length = buffer.length := by
  simp only [recvFrom, List.length_append, List.length_drop, List.length_take]
  omega

theorem Opened.query_eq {request : Request} {trace : List Entry} (h : Opened request trace)
    {network : Network} (hAgrees : ∀ entry ∈ trace, entry.Agrees network)
    {answer : Except Error Nat}
    (hSent : network.sendTo request.packet request.dnsServer = .ret answer) :
    request.query network =
      match answer with
      | .error e => .ret (some (.error e))
      | .ok _ => receive request.dnsServer request.written network.received := by
  obtain ⟨size, hWrite⟩ := h.written
  obtain ⟨fd, fcntl, hMem, hNonblocking⟩ := h.bound
  obtain ⟨hBind, rfl⟩ := hAgrees _ hMem
  obtain ⟨-, hSlice⟩ := request.write_eq hWrite
  have hNew : (Async.new network.fcntl fd : Outcome Ground.Panic (Async RawFd Unit)) =
      .ret ⟨some fd, ⟨.noop, 0#32, 0#32⟩⟩ := by
    have hFd : ensureNonblocking network.fcntl (asRawFd fd) = .ok () := hNonblocking
    simp only [Async.new, hFd]
  unfold Request.query query
  rw [Request.write] at hWrite
  simp only [hWrite, hSlice, hBind, hNew, hSent, Outcome.ret_bind, Outcome.mapPanic_ret]
  cases answer with
  | error e => rfl
  | ok n => rfl

def Entry.Waits (request : Request) : Entry → Prop
  | .bound _ _ _ | .delivered _ => True
  | .sent packet address answer =>
    packet = request.packet ∧ address = request.dnsServer ∧ blocked answer = true
  | .received _ => False

def Entry.Listens : Entry → Prop
  | .received _ | .delivered _ => True
  | .bound _ _ _ | .sent _ _ _ => False

theorem waits_of_agrees {request : Request} {trace : List Entry} {network : Network}
    (hWaits : ∀ entry ∈ trace, entry.Waits request)
    (hAgrees : ∀ entry ∈ trace, entry.Agrees network)
    (sendTo : List Byte → SocketAddr → Outcome Ground.Panic (Except Error Nat)) :
    ∀ entry ∈ trace, entry.Agrees { network with sendTo } := by
  intro entry hMem
  have hWaits := hWaits entry hMem
  have hAgrees := hAgrees entry hMem
  cases entry with
  | bound address answer fcntl => exact hAgrees
  | sent packet address answer =>
    intro hSettled
    exact absurd (hWaits.2.2.symm.trans hSettled) (by decide)
  | received answer => trivial
  | delivered events => trivial

theorem receptions_of_waits {request : Request} {trace : List Entry}
    (hWaits : ∀ entry ∈ trace, entry.Waits request) : trace.filterMap Entry.reception = [] := by
  rw [List.filterMap_eq_nil_iff]
  intro entry hMem
  have hWaits := hWaits entry hMem
  cases entry with
  | received answer => exact hWaits.elim
  | _ => rfl

theorem exists_answers {trace : List Entry} {network : Network}
    (hAgrees : ∀ entry ∈ trace, entry.Agrees network) : ∃ network, Answers network trace := by
  refine ⟨{ network with received := trace.filterMap Entry.reception }, ?_, rfl⟩
  intro entry hMem
  have hAgrees := hAgrees entry hMem
  cases entry <;> exact hAgrees

/-- The record of a future that has ended, as `query` has it. -/
structure Result (request : Request) (trace : List Entry)
    (outcome : Outcome QueryPanic (Except Error Records)) : Prop where
  answered : ∃ network, Answers network trace
  query_eq : ∀ network, Answers network trace →
    request.query network = outcome >>= fun result => .ret (some result)

namespace Lookup

section

variable [InterestKernel κ] {s : Lookup τ κ} {addr : Addr} {fd : RawFd}

theorem finish_kept {a : Async RawFd τ} (h : Kept addr fd a s.reactor)
    (outcome : Outcome QueryPanic (Except Error Records)) :
    ∃ r, s.finish a outcome = { s with stage := .finished outcome, reactor := r } ∧
      r.list fd = none := by
  obtain ⟨r, hDrop, hGone⟩ := h.drop
  refine ⟨r, ?_, hGone⟩
  simp only [finish, hDrop, Outcome.mapPanic_ret, Outcome.ret_bind]
  cases outcome with
  | ret result => rfl
  | panic p => rfl

/-- A turn asks nothing while the socket waits. Otherwise it blocks on the answer,
passes over a stranger's datagram, or ends the future. -/
theorem turn_cases {socket : Nonblocking RawFd τ (List Byte)} (h : Kept addr fd socket.a s.reactor)
    (dnsServer : SocketAddr) (waker : Waker τ) (answer : Except Error Datagram) :
    let t := { s with trace := s.trace ++ [.received answer] }
    (socket.interest.asEvents &&& socket.a.waiter.waitingFor ≠ 0#32 ∧
      s.turn dnsServer addr waker socket answer = .leave { s with stage := .receiving socket }) ∨
    socket.interest.asEvents &&& socket.a.waiter.waitingFor = 0#32 ∧
    ((blocked answer = true ∧ ∃ r, let a := ⟨some fd, socket.blockedWaiter waker⟩;
      Kept addr fd a r ∧
      s.turn dnsServer addr waker socket answer =
        .leave { t with reactor := r, stage := .receiving { socket with a } }) ∨
    (∃ e, answer = .error e ∧ blocked answer = false ∧
      s.turn dnsServer addr waker socket answer = .leave (t.finish socket.a (.ret (.error e)))) ∨
    ∃ datagram, answer = .ok datagram ∧
      let (buffer, size, sender) := recvFrom socket.captured datagram
      s.turn dnsServer addr waker socket answer =
        if sender ≠ dnsServer then .again t { socket with captured := buffer }
        else .leave (t.finish socket.a do
          let packet ← slice .sliceIndex buffer 0 size
          (parseResponsePacket packet).mapPanic .parse)) := by
  intro t
  let traced : Nonblocking RawFd τ (List Byte × List Entry) :=
    { a := socket.a, interest := socket.interest, captured := (socket.captured, s.trace) }
  have hTraced : Kept addr fd traced.a s.reactor := h
  have hSame : ({ socket.a with inner := some fd } : Async RawFd τ) = socket.a := by
    rw [← h.inner]
  have hFixed : ∀ captured value, (recvClosure answer captured value).2.2 = value := by
    intro captured value
    simp only [recvClosure]
    split <;> rfl
  obtain ⟨hGranted, hKept⟩ := hTraced.poll waker hFixed
  obtain ⟨hSkip, hPoll⟩ | ⟨hTry, hBlocks, outcome, hOutcome, hPoll⟩ | ⟨hTry, hEnd, hPoll⟩ :=
    Nonblocking.poll_cases hTraced.inner addr waker (recvClosure answer) s.reactor
  · refine .inl ⟨hSkip, ?_⟩
    simp only [turn]
    rw [hPoll]
  · refine .inr ⟨hTry, .inl ?_⟩
    rw [hPoll] at hGranted hKept
    obtain ⟨-, rfl⟩ | ⟨-, rfl⟩ := hOutcome
    · cases answer with
      | ok datagram => cases hBlocks
      | error e =>
        refine ⟨hBlocks, _, hKept, ?_⟩
        simp only [turn]
        rw [hPoll]
        rfl
    · exact absurd rfl hGranted.1
  · refine .inr ⟨hTry, .inr ?_⟩
    cases answer with
    | error e =>
      refine .inl ⟨e, rfl, hEnd, ?_⟩
      simp only [turn]
      rw [hPoll]
      simp only [Nonblocking.invoked, recvClosure, Outcome.resolved, traced, hSame]
      rfl
    | ok datagram =>
      refine .inr ⟨datagram, rfl, ?_⟩
      simp only [turn]
      rw [hPoll]
      simp only [Nonblocking.invoked, recvClosure, Outcome.resolved, traced, hSame]
      rfl

def Sent (request : Request) (trace : List Entry) (answer : Except Error Nat) : Prop :=
  ∃ before after, trace = before ++ .sent request.packet request.dnsServer answer :: after ∧
    (∀ entry ∈ before, entry.Waits request) ∧ ∀ entry ∈ after, entry.Listens

structure Sending (request : Request) (addr : Addr) (s : Lookup τ κ)
    (socket : Nonblocking RawFd τ Unit) : Prop where
  interest : socket.interest = .write
  opened : Opened request s.trace
  waits : ∀ entry ∈ s.trace, entry.Waits request
  agrees : ∃ network, ∀ entry ∈ s.trace, entry.Agrees network
  kept : ∃ fd, s.socket = some fd ∧ Kept addr fd socket.a s.reactor

structure Receiving (request : Request) (addr : Addr) (s : Lookup τ κ)
    (socket : Nonblocking RawFd τ (List Byte)) : Prop where
  interest : socket.interest = .read
  opened : Opened request s.trace
  sent : ∃ n, Sent request s.trace (.ok n)
  agrees : ∃ network, ∀ entry ∈ s.trace, entry.Agrees network
  room : socket.captured.length = request.buffer.length
  receives : ∀ later,
    receive request.dnsServer request.written (s.trace.filterMap Entry.reception ++ later) =
      receive request.dnsServer socket.captured later
  kept : ∃ fd, s.socket = some fd ∧ Kept addr fd socket.a s.reactor

/-- The packet is not sent yet, or it has been, or sending it failed at last. -/
def Orderly (request : Request) (trace : List Entry) : Prop :=
  (∀ entry ∈ trace, entry.Waits request) ∨ (∃ n, Sent request trace (.ok n)) ∨
    ∃ before e, trace = before ++ [.sent request.packet request.dnsServer (.error e)] ∧
      ∀ entry ∈ before, entry.Waits request

def Free (s : Lookup τ κ) : Prop := ∀ fd, s.socket = some fd → s.reactor.list fd = none

def Conducted (request : Request) (addr : Addr) (s : Lookup τ κ) : Prop :=
  match s.stage with
  | .unresumed => s.trace = [] ∧ s.socket = none ∧ s.reactor.isDispatching = false
  | .sending socket packet buffer =>
    (packet = request.packet ∧ buffer = request.written) ∧ Sending request addr s socket
  | .receiving socket => Receiving request addr s socket
  | .finished outcome => Free s ∧ Orderly request s.trace ∧ Result request s.trace outcome
  | .dropped _ => Free s ∧ Orderly request s.trace

def Turn.Conducted (request : Request) (addr : Addr) : Turn τ κ → Prop
  | .leave s => s.Conducted request addr
  | .again s socket => Receiving request addr s socket

end

end Lookup

section

variable {request : Request} {trace : List Entry} {network : Network}

theorem Opened.snoc (h : Opened request trace) (entry : Entry) :
    Opened request (trace ++ [entry]) := by
  obtain ⟨hWritten, fd, fcntl, hMem, hNonblocking⟩ := h
  exact ⟨hWritten, fd, fcntl, List.mem_append_left _ hMem, hNonblocking⟩

theorem agrees_snoc {entry : Entry} : (∀ e ∈ trace ++ [entry], e.Agrees network) ↔
    (∀ e ∈ trace, e.Agrees network) ∧ entry.Agrees network := by
  simp [or_imp, forall_and]

theorem Lookup.Sent.snoc {answer : Except Error Nat} (h : Lookup.Sent request trace answer)
    {entry : Entry} (hEntry : entry.Listens) : Lookup.Sent request (trace ++ [entry]) answer := by
  obtain ⟨before, after, rfl, hBefore, hAfter⟩ := h
  refine ⟨before, after ++ [entry], by simp, hBefore, ?_⟩
  simpa [or_imp, forall_and] using ⟨hAfter, hEntry⟩

theorem Lookup.Sent.agrees {answer : Except Error Nat} (h : Lookup.Sent request trace answer)
    (hSettled : blocked answer = false) (hAgrees : ∀ entry ∈ trace, entry.Agrees network) :
    network.sendTo request.packet request.dnsServer = .ret answer := by
  obtain ⟨before, after, rfl, -, -⟩ := h
  exact hAgrees (.sent request.packet request.dnsServer answer) (by simp) hSettled

end

namespace Lookup

variable [InterestKernel κ] {s t : Lookup τ κ} {request : Request} {addr : Addr}

namespace Receiving

variable {socket : Nonblocking RawFd τ (List Byte)}

theorem query_eq (h : Receiving request addr s socket) {network : Network}
    (hAgrees : ∀ entry ∈ s.trace, entry.Agrees network)
    {later : List (Outcome Ground.Panic (Except Error Datagram))}
    (hReceived : network.received = s.trace.filterMap Entry.reception ++ later) :
    request.query network = receive request.dnsServer socket.captured later := by
  obtain ⟨n, hSent⟩ := h.sent
  rw [h.opened.query_eq hAgrees (hSent.agrees rfl hAgrees), hReceived]
  exact h.receives later

theorem orderly (h : Receiving request addr s socket) : Orderly request s.trace := by
  exact .inr (.inl h.sent)

theorem finish (h : Receiving request addr s socket) {answer : Except Error Datagram}
    (hSettled : blocked answer = false) {outcome : Outcome QueryPanic (Except Error Records)}
    (hOutcome : receive request.dnsServer socket.captured [.ret answer] =
      outcome >>= fun result => .ret (some result)) :
    ({ s with trace := s.trace ++ [Entry.received answer] }.finish socket.a outcome).Conducted
      request addr := by
  obtain ⟨fd, hSocket, hKept⟩ := h.kept
  obtain ⟨r, hFinish, hGone⟩ :=
    finish_kept (s := { s with trace := s.trace ++ [Entry.received answer] }) hKept outcome
  obtain ⟨n, hSent⟩ := h.sent
  obtain ⟨network, hAgrees⟩ := h.agrees
  have hReceptions : (s.trace ++ [Entry.received answer]).filterMap Entry.reception =
      s.trace.filterMap Entry.reception ++ [.ret answer] := by
    simp [List.filterMap_append, Entry.reception, hSettled]
  rw [hFinish]
  refine ⟨?_, .inr (.inl ⟨n, hSent.snoc trivial⟩), ⟨?_, ?_⟩⟩
  · intro fd' hFd
    cases hSocket.symm.trans hFd
    exact hGone
  · exact exists_answers (agrees_snoc.mpr ⟨hAgrees, trivial⟩)
  · intro network' hAnswers
    have hAgrees' := (agrees_snoc.mp hAnswers.agrees).1
    rw [← hOutcome]
    exact h.query_eq hAgrees' (hAnswers.received.trans hReceptions)

theorem pass (h : Receiving request addr s socket) (answer : Except Error Datagram)
    {r : Reactor κ} {socket' : Nonblocking RawFd τ (List Byte)}
    (hInterest : socket'.interest = .read)
    (hRoom : socket'.captured.length = socket.captured.length) (hKept : ∀ fd, s.socket = some fd →
      Kept addr fd socket.a s.reactor → Kept addr fd socket'.a r)
    (hReceive : ∀ later, receive request.dnsServer socket.captured
        ((Entry.received answer).reception.toList ++ later) =
      receive request.dnsServer socket'.captured later) :
    Receiving request addr { s with reactor := r, trace := s.trace ++ [.received answer] }
      socket' := by
  obtain ⟨n, hSent⟩ := h.sent
  obtain ⟨network, hAgrees⟩ := h.agrees
  obtain ⟨fd, hSocket, hHeld⟩ := h.kept
  refine ⟨hInterest, h.opened.snoc _, ⟨n, hSent.snoc trivial⟩,
    ⟨network, agrees_snoc.mpr ⟨hAgrees, trivial⟩⟩, hRoom.trans h.room, fun later => ?_,
    ⟨fd, hSocket, hKept fd hSocket hHeld⟩⟩
  have hLast : [Entry.received answer].filterMap Entry.reception =
      (Entry.received answer).reception.toList := by
    cases hReception : (Entry.received answer).reception with
    | none => rw [List.filterMap_cons_none hReception, List.filterMap_nil, Option.toList_none]
    | some reception =>
      rw [List.filterMap_cons_some hReception, List.filterMap_nil, Option.toList_some]
  rw [List.filterMap_append, List.append_assoc, h.receives, hLast, hReceive]

theorem conducted (h : Receiving request addr s socket) :
    Conducted request addr { s with stage := .receiving socket } :=
  ⟨h.interest, h.opened, h.sent, h.agrees, h.room, h.receives, h.kept⟩

theorem turn (h : Receiving request addr s socket) (waker : Waker τ)
    (answer : Except Error Datagram) :
    (s.turn request.dnsServer addr waker socket answer).Conducted request addr := by
  obtain ⟨fd, hSocket, hKept⟩ := h.kept
  obtain ⟨-, hTurn⟩ | ⟨-, ⟨hBlocked, r, hKept', hTurn⟩ | ⟨e, rfl, hSettled, hTurn⟩ |
    ⟨datagram, rfl, hTurn⟩⟩ := turn_cases hKept request.dnsServer waker answer
  · rw [hTurn]
    exact h.conducted
  · rw [hTurn]
    have hInterest : { socket with a := ⟨some fd, socket.blockedWaiter waker⟩ }.interest = .read :=
      h.interest
    refine (h.pass (r := r) answer hInterest rfl (fun fd' hFd _ => ?_) fun later => ?_).conducted
    · cases hSocket.symm.trans hFd
      exact hKept'
    · simp [Entry.reception, hBlocked]
  · rw [hTurn]
    exact h.finish hSettled rfl
  · simp only at hTurn
    rw [hTurn]
    by_cases hStranger : (recvFrom socket.captured datagram).2.2 ≠ request.dnsServer
    · rw [if_pos hStranger]
      refine h.pass (.ok datagram) h.interest ?_ (fun _ _ hKept => hKept) fun later => ?_
      · exact length_recvFrom socket.captured datagram
      · exact if_pos hStranger
    · rw [if_neg hStranger]
      refine h.finish rfl ?_
      simp only [receive, Outcome.mapPanic_ret, Outcome.ret_bind]
      rw [if_neg hStranger]
      cases slice QueryPanic.sliceIndex (recvFrom socket.captured datagram).1 0
        (recvFrom socket.captured datagram).2.1 with
      | ret packet => rfl
      | panic p => rfl

theorem pollReceive (h : Receiving request addr s socket) (waker : Waker τ)
    (inbox : List (Except Error Datagram)) :
    (s.pollReceive request.dnsServer addr waker socket inbox).Conducted request addr := by
  induction inbox generalizing s socket with
  | nil =>
    have hTurn := h.turn waker (.error (.fromRawOsError EAGAIN))
    unfold Lookup.pollReceive
    cases hEnd : s.turn request.dnsServer addr waker socket (.error (.fromRawOsError EAGAIN)) with
    | leave t =>
      rw [hEnd] at hTurn
      exact hTurn
    | again t socket' =>
      rw [hEnd] at hTurn
      exact hTurn.conducted
  | cons answer inbox ih =>
    have hTurn := h.turn waker answer
    unfold Lookup.pollReceive
    cases hEnd : s.turn request.dnsServer addr waker socket answer with
    | leave t =>
      rw [hEnd] at hTurn
      exact hTurn
    | again t socket' =>
      rw [hEnd] at hTurn
      exact ih hTurn

end Receiving

namespace Sending

variable {socket : Nonblocking RawFd τ Unit}

theorem orderly (h : Sending request addr s socket) : Orderly request s.trace := .inl h.waits

theorem agrees_sent (h : Sending request addr s socket) (answer : Except Error Nat) :
    ∃ network, ∀ entry ∈ s.trace ++ [.sent request.packet request.dnsServer answer],
      Entry.Agrees network entry := by
  obtain ⟨network, hAgrees⟩ := h.agrees
  refine ⟨{ network with sendTo := fun _ _ => .ret answer }, agrees_snoc.mpr ⟨?_, fun _ => rfl⟩⟩
  exact waits_of_agrees h.waits hAgrees _

theorem sent (h : Sending request addr s socket) (answer : Except Error Nat) :
    Sent request (s.trace ++ [.sent request.packet request.dnsServer answer]) answer :=
  ⟨s.trace, [], rfl, h.waits, by simp⟩

theorem finish (h : Sending request addr s socket) {e : Error}
    (hSettled : blocked (.error e : Except Error Nat) = false) :
    let trace := s.trace ++ [Entry.sent request.packet request.dnsServer (.error e)]
    ({ s with trace }.finish socket.a (.ret (.error e))).Conducted request addr := by
  intro trace
  obtain ⟨fd, hSocket, hKept⟩ := h.kept
  obtain ⟨r, hFinish, hGone⟩ :=
    finish_kept (s := { s with trace }) hKept (.ret (.error e))
  have hSent := h.sent (.error e)
  obtain ⟨network, hAgrees⟩ := h.agrees_sent (.error e)
  rw [hFinish]
  refine ⟨?_, .inr (.inr ⟨s.trace, e, rfl, h.waits⟩), ⟨exists_answers hAgrees, ?_⟩⟩
  · intro fd' hFd
    cases hSocket.symm.trans hFd
    exact hGone
  · intro network' hAnswers
    exact (h.opened.snoc _).query_eq hAnswers.agrees (hSent.agrees hSettled hAnswers.agrees)

theorem receiving (h : Sending request addr s socket) (n : Nat) :
    let trace := s.trace ++ [Entry.sent request.packet request.dnsServer (.ok n)]
    Receiving request addr { s with trace }
      { a := socket.a, interest := .read, captured := request.written } := by
  intro trace
  refine ⟨rfl, h.opened.snoc _, ⟨n, h.sent (.ok n)⟩, h.agrees_sent (.ok n),
    h.opened.length_written, fun later => ?_, h.kept⟩
  have hNone : trace.filterMap Entry.reception = [] := by
    rw [List.filterMap_append, receptions_of_waits h.waits]
    rfl
  rw [hNone, List.nil_append]

theorem pollSend (h : Sending request addr s socket) (waker : Waker τ) (os : Os) :
    (s.pollSend request.dnsServer addr waker os socket request.packet request.written).Conducted
      request addr := by
  obtain ⟨fd, hSocket, hKept⟩ := h.kept
  let traced : Nonblocking RawFd τ (List Entry) :=
    { a := socket.a, interest := socket.interest, captured := s.trace }
  have hTraced : Kept addr fd traced.a s.reactor := hKept
  have hSame : ({ socket.a with inner := some fd } : Async RawFd τ) = socket.a := by
    rw [← hKept.inner]
  let f := sendClosure os request.packet request.dnsServer
  obtain ⟨hGranted, hPolled⟩ := hTraced.poll waker (f := f) fun _ _ => rfl
  obtain ⟨-, hPoll⟩ | ⟨-, hBlocks, outcome, hOutcome, hPoll⟩ | ⟨-, hEnd, hPoll⟩ :=
    Nonblocking.poll_cases hTraced.inner addr waker f s.reactor
  · simp only [Lookup.pollSend]
    rw [hPoll]
    exact ⟨⟨rfl, rfl⟩, h.interest, h.opened, h.waits, h.agrees, h.kept⟩
  · rw [hPoll] at hGranted hPolled
    simp only [Lookup.pollSend]
    rw [hPoll]
    obtain ⟨-, rfl⟩ | ⟨-, rfl⟩ := hOutcome
    · obtain ⟨network, hAgrees⟩ := h.agrees
      refine ⟨⟨rfl, rfl⟩, h.interest, h.opened.snoc _, ?_,
        ⟨network, agrees_snoc.mpr ⟨hAgrees, ?_⟩⟩, ⟨fd, hSocket, hPolled⟩⟩
      · intro entry hMem
        obtain hMem | hMem := List.mem_append.mp hMem
        · exact h.waits entry hMem
        · rw [List.mem_singleton.mp hMem]
          exact ⟨rfl, rfl, hBlocks⟩
      · intro hSettled
        exact absurd (hBlocks.symm.trans hSettled) (by decide)
    · exact absurd rfl hGranted.1
  · simp only [Lookup.pollSend]
    rw [hPoll]
    cases hAnswer : os.sendTo request.packet request.dnsServer with
    | error e =>
      have hSettled : blocked (.error e : Except Error Nat) = false := hAnswer ▸ hEnd
      simp only [Nonblocking.invoked, f, sendClosure, hAnswer, Outcome.resolved, traced, hSame]
      exact h.finish hSettled
    | ok n =>
      simp only [Nonblocking.invoked, f, sendClosure, hAnswer, Outcome.resolved, traced, hSame]
      exact (h.receiving n).pollReceive waker os.inbox

end Sending

/-- A new descriptor is not listed, and nobody else writes the socket's entry. -/
def Private (s : Lookup τ κ) : Act τ κ → Prop
  | .poll _ os => ∀ address fd, s.stage = .unresumed → os.bind address = .ok fd →
      s.reactor.list fd = none
  | .elsewhere effect => ∀ fd, s.socket = some fd →
      (s.elsewhere effect).reactor.list fd = s.reactor.list fd
  | .event _ | .drop => True

theorem ensureNonblocking_of_new {fcntl : Fcntl} {fd : RawFd} {a : Async RawFd τ}
    (h : Async.new fcntl fd = .ret a) : ensureNonblocking fcntl fd = .ok () := by
  unfold Async.new at h
  split at h
  · cases h
  · assumption

theorem new_panic_of_new {τ' : Type} {fcntl : Fcntl} {fd : RawFd} {p : Ground.Panic}
    (h : (Async.new fcntl fd : Outcome Ground.Panic (Async RawFd τ)) = .panic p) :
    (Async.new fcntl fd : Outcome Ground.Panic (Async RawFd τ')) = .panic p := by
  unfold Async.new at h ⊢
  split at h
  · cases h
    rfl
  · cases h

def networkBound (answer : Except Error RawFd) (fcntl : Fcntl) : Network where
  bind := fun _ => answer
  fcntl := fcntl
  sendTo := fun _ _ => .ret (.error invalidData)
  received := []

theorem agrees_bound (address : SocketAddr) (answer : Except Error RawFd) (fcntl : Fcntl) :
    ∀ entry ∈ [Entry.bound address answer fcntl], entry.Agrees (networkBound answer fcntl) := by
  intro entry hMem
  rw [List.mem_singleton.mp hMem]
  exact ⟨rfl, rfl⟩

theorem query_bound {request : Request} {size : Nat} {buffer : List Byte}
    (hWrite : request.write = .ret (size, buffer)) (network : Network) :
    request.query network =
      match network.bind request.dnsServer.unspecified with
      | .error e => .ret (some (.error e))
      | .ok fd =>
        (Async.new network.fcntl fd : Outcome Ground.Panic (Async RawFd Unit)).mapPanic .async >>=
          fun _ => (network.sendTo request.packet request.dnsServer).mapPanic .async >>=
            fun sent =>
              match sent with
              | .error e => .ret (some (.error e))
              | .ok _ => receive request.dnsServer buffer network.received := by
  obtain ⟨-, hSlice⟩ := request.write_eq hWrite
  rw [Request.write] at hWrite
  simp only [Request.query, query, hWrite, hSlice, Outcome.ret_bind]
  rfl

theorem result_write {request : Request} {p : QueryPanic} (h : request.write = .panic p) :
    Result request [] (.panic p) := by
  let fcntl : Fcntl := ⟨fun _ => .ok 0#32, fun _ _ => .ok ()⟩
  have hNone : ∀ entry ∈ ([] : List Entry),
      entry.Agrees (networkBound (.error invalidData) fcntl) := by simp
  refine ⟨exists_answers hNone, fun network _ => ?_⟩
  rw [Request.write] at h
  simp only [Request.query, query, h, Outcome.panic_bind]

namespace Conducted

theorem poll (h : s.Conducted request addr) (waker : Waker τ) {os : Os}
    (hPrivate : s.Private (.poll waker os)) :
    (s.poll request addr waker os).Conducted request addr := by
  unfold Lookup.poll
  cases hStage : s.stage with
  | unresumed =>
    simp only [Conducted, hStage] at h
    obtain ⟨hTrace, hNone, hIdle⟩ := h
    have hFree : ∀ fd, s.socket = some fd → s.reactor.list fd = none := by
      intro fd hFd
      cases hNone.symm.trans hFd
    have hBound := agrees_bound request.dnsServer.unspecified
      (os.bind request.dnsServer.unspecified) os.fcntl
    simp only [hTrace, List.nil_append]
    split
    · rename_i p hWrite
      exact ⟨hFree, .inl (by simp), result_write hWrite⟩
    · rename_i size buffer hWrite
      obtain ⟨rfl, hSlice⟩ := request.write_eq hWrite
      rw [hSlice]
      simp only
      cases hBind : os.bind request.dnsServer.unspecified with
      | error e =>
        rw [hBind] at hBound
        refine ⟨hFree, .inl (by simp [Entry.Waits]), ⟨exists_answers hBound, ?_⟩⟩
        intro network hAnswers
        have hAgrees := (hAnswers.agrees _ (List.mem_singleton_self _)).1
        simp only [query_bound hWrite, hAgrees]
        rfl
      | ok fd =>
        rw [hBind] at hBound
        have hListed := hPrivate _ fd hStage hBind
        simp only
        split
        · rename_i p hNew
          refine ⟨?_, .inl (by simp [Entry.Waits]), ⟨exists_answers hBound, ?_⟩⟩
          · rintro fd' ⟨⟩
            exact hListed
          · intro network hAnswers
            obtain ⟨hAgrees, hFcntl⟩ := hAnswers.agrees _ (List.mem_singleton_self _)
            rw [← hFcntl] at hNew
            simp only [query_bound hWrite, hAgrees, new_panic_of_new hNew, Outcome.mapPanic_panic,
              Outcome.panic_bind]
        · rename_i a hNew
          apply Sending.pollSend
          refine ⟨rfl, ⟨⟨size, hWrite⟩, fd, os.fcntl, List.mem_singleton_self _,
            ensureNonblocking_of_new hNew⟩, by simp [Entry.Waits], ⟨_, hBound⟩, fd, rfl, ?_⟩
          exact Net.kept_new hNew hListed hIdle
  | sending socket packet buffer =>
    simp only [Conducted, hStage] at h
    obtain ⟨⟨rfl, rfl⟩, hSending⟩ := h
    exact hSending.pollSend waker os
  | receiving socket =>
    simp only [Conducted, hStage] at h
    exact h.pollReceive waker os.inbox
  | finished outcome => exact h
  | dropped outcome => exact h

theorem deliver (h : s.Conducted request addr) (events : Events) :
    (s.deliver addr events).Conducted request addr := by
  unfold Lookup.deliver
  cases hStage : s.stage with
  | sending socket packet buffer =>
    simp only [Conducted, hStage] at h ⊢
    obtain ⟨hRequest, hSending⟩ := h
    obtain ⟨network, hAgrees⟩ := hSending.agrees
    obtain ⟨fd, hSocket, hKept⟩ := hSending.kept
    refine ⟨hRequest, hSending.interest, hSending.opened.snoc _, ?_,
      ⟨network, agrees_snoc.mpr ⟨hAgrees, trivial⟩⟩, fd, hSocket, hKept.deliver _⟩
    intro entry hMem
    obtain hMem | hMem := List.mem_append.mp hMem
    · exact hSending.waits entry hMem
    · rw [List.mem_singleton.mp hMem]
      trivial
  | receiving socket =>
    simp only [Conducted, hStage] at h ⊢
    obtain ⟨n, hSent⟩ := h.sent
    obtain ⟨network, hAgrees⟩ := h.agrees
    obtain ⟨fd, hSocket, hKept⟩ := h.kept
    refine ⟨h.interest, h.opened.snoc _, ⟨n, hSent.snoc trivial⟩,
      ⟨network, agrees_snoc.mpr ⟨hAgrees, trivial⟩⟩, h.room, fun later => ?_, fd, hSocket,
      hKept.deliver _⟩
    have hNone : [Entry.delivered events].filterMap Entry.reception = [] := rfl
    rw [List.filterMap_append, hNone, List.append_nil]
    exact h.receives later
  | unresumed => simpa only [hStage] using h
  | finished outcome => simpa only [hStage] using h
  | dropped outcome => simpa only [hStage] using h

theorem elsewhere (h : s.Conducted request addr) {effect : κ → κ}
    (hPrivate : s.Private (.elsewhere effect)) :
    (s.elsewhere effect).Conducted request addr := by
  have hFree : Free s → Free (s.elsewhere effect) := fun hFree fd hFd =>
    (hPrivate fd hFd).trans (hFree fd hFd)
  unfold Conducted at h ⊢
  simp only [Lookup.elsewhere]
  cases hStage : s.stage with
  | unresumed =>
    simp only [hStage] at h
    exact h
  | sending socket packet buffer =>
    simp only [hStage] at h
    obtain ⟨hRequest, hSending⟩ := h
    obtain ⟨fd, hSocket, hKept⟩ := hSending.kept
    exact ⟨hRequest, hSending.interest, hSending.opened, hSending.waits, hSending.agrees,
      fd, hSocket, hKept.elsewhere (hPrivate fd hSocket) hKept.idle⟩
  | receiving socket =>
    simp only [hStage] at h
    obtain ⟨fd, hSocket, hKept⟩ := h.kept
    exact ⟨h.interest, h.opened, h.sent, h.agrees, h.room, h.receives, fd, hSocket,
      hKept.elsewhere (hPrivate fd hSocket) hKept.idle⟩
  | finished outcome =>
    simp only [hStage] at h
    exact ⟨hFree h.1, h.2⟩
  | dropped outcome =>
    simp only [hStage] at h
    exact ⟨hFree h.1, h.2⟩

theorem drop (h : s.Conducted request addr) : s.drop.Conducted request addr := by
  have hKeptFree : ∀ {a : Async RawFd τ} {r : Reactor κ},
      (∃ fd, s.socket = some fd ∧ Kept addr fd a r) →
        ∀ fd, s.socket = some fd → (a.drop r).2.list fd = none := by
    rintro a r ⟨fd, hSocket, hKept⟩ fd' hFd
    cases hSocket.symm.trans hFd
    obtain ⟨r', hDrop, hGone⟩ := hKept.drop
    rw [hDrop]
    exact hGone
  unfold Lookup.drop
  cases hStage : s.stage with
  | unresumed =>
    simp only [Conducted, hStage] at h ⊢
    refine ⟨fun fd hFd => ?_, .inl (by simp [h.1])⟩
    cases h.2.1.symm.trans hFd
  | sending socket packet buffer =>
    simp only [Conducted, hStage] at h ⊢
    exact ⟨hKeptFree h.2.kept, h.2.orderly⟩
  | receiving socket =>
    simp only [Conducted, hStage] at h ⊢
    exact ⟨hKeptFree h.kept, h.orderly⟩
  | finished outcome =>
    simp only [Conducted, hStage] at h ⊢
    exact ⟨h.1, h.2.1⟩
  | dropped outcome =>
    simp only [Conducted, hStage] at h ⊢
    exact h

theorem step (h : s.Conducted request addr) {act : Act τ κ} (hPrivate : s.Private act)
    (hStep : s.step request addr act = some t) : t.Conducted request addr := by
  unfold Lookup.step at hStep
  split at hStep
  · cases hStep
  · cases act with
    | poll waker os =>
      cases hStep
      exact h.poll waker hPrivate
    | event events =>
      cases hStep
      exact h.deliver events
    | elsewhere effect =>
      cases hStep
      exact h.elsewhere hPrivate
    | drop =>
      cases hStep
      exact h.drop

end Conducted

theorem conducted_start (epfd : κ) :
    (start (.new epfd) : Lookup τ κ).Conducted request addr := ⟨rfl, rfl, rfl⟩

theorem conducted_of_run {epfd : κ} {acts : List (Act τ κ)}
    (hPrivate : Meets (step request addr) Private (start (.new epfd)) acts)
    (hRun : run (step request addr) (start (.new epfd)) acts = some t) :
    t.Conducted request addr :=
  invariant_of_meets (I := Conducted request addr)
    (fun _ _ _ h hPrivate hStep => h.step hPrivate hStep) (conducted_start epfd) hPrivate hRun

end Lookup

end Ground.Dns
