import Ground.Dns.Conduct

/-! # What the future of `query` returns

However its polls, the events of its socket and the rest of the thread interleave,
the future ends as `query` does on what its awaits resolved to.
-/

namespace Ground.Dns

open Mask Transition

def Entry.settles : Entry → Bool
  | .sent _ _ answer => !blocked answer
  | .bound _ _ _ | .received _ | .delivered _ => false

theorem mem_before {α : Type} {x y : α} {xs ys before after : List α}
    (h : xs ++ x :: ys = before ++ y :: after) (hMem : y ∉ xs) (hNe : y ≠ x) : x ∈ before := by
  obtain ⟨mid, rfl, hMid⟩ | ⟨mid, rfl, hMid⟩ := List.append_eq_append_iff.mp h
  · cases mid with
    | nil =>
      cases hMid
      exact absurd rfl hNe
    | cons z mid =>
      cases hMid
      simp
  · cases mid with
    | nil =>
      cases hMid
      exact absurd rfl hNe
    | cons z mid =>
      cases hMid
      simp at hMem

theorem slice_recvFrom (buffer : List Byte) (datagram : Datagram) :
    slice QueryPanic.sliceIndex (recvFrom buffer datagram).1 0 (recvFrom buffer datagram).2.1 =
      .ret (datagram.bytes.take buffer.length) := by
  have hSlice := slice_append_mid QueryPanic.sliceIndex [] (datagram.bytes.take buffer.length)
    (buffer.drop (datagram.bytes.take buffer.length).length)
  simp only [List.nil_append, List.length_nil, Nat.zero_add] at hSlice
  exact hSlice

section

variable {request : Request} {trace : List Entry}

theorem waits_sends (h : ∀ entry ∈ trace, entry.Waits request) :
    (∀ packet address answer, .sent packet address answer ∈ trace →
      packet = request.packet ∧ address = request.dnsServer) ∧
    trace.countP Entry.settles = 0 ∧ ∀ answer, .received answer ∉ trace := by
  refine ⟨fun packet address answer hMem => ?_, ?_, fun answer hMem => h _ hMem⟩
  · obtain ⟨rfl, rfl, -⟩ := h _ hMem
    exact ⟨rfl, rfl⟩
  · rw [List.countP_eq_zero]
    intro entry hMem
    have hWaits := h entry hMem
    cases entry with
    | sent packet address answer => simp [Entry.settles, hWaits.2.2]
    | _ => simp [Entry.settles]

theorem listens_sends (h : ∀ entry ∈ trace, entry.Listens) :
    (∀ packet address answer, .sent packet address answer ∉ trace) ∧
      trace.countP Entry.settles = 0 := by
  refine ⟨fun packet address answer hMem => h _ hMem, ?_⟩
  rw [List.countP_eq_zero]
  intro entry hMem
  have hListens := h entry hMem
  cases entry with
  | sent packet address answer => exact hListens.elim
  | _ => simp [Entry.settles]

end

def localhost : SocketAddr := .v4 ⟨[127, 0, 0, 53], rfl⟩ 53#16

def requestA : Request := ⟨[97], .ipv4, localhost, List.replicate 40 0#8⟩

def Os.answering (sent : Except Error Nat) (inbox : List (Except Error Datagram)) : Os where
  bind := fun _ => .ok 3
  fcntl := ⟨fun _ => .ok O_NONBLOCK, fun _ _ => .ok ()⟩
  sendTo := fun _ _ => sent
  inbox := inbox

namespace Lookup

variable {τ κ : Type} [InterestKernel κ] {t : Lookup τ κ} {request : Request} {addr : Addr}

/-- The future has returned what `query` returns on the answers in its record that
did not block, and while it receives, `query` waits on them. -/
theorem returns_query {epfd : κ} {acts : List (Act τ κ)}
    (hPrivate : Meets (step request addr) Private (start (.new epfd)) acts)
    (hRun : run (step request addr) (start (.new epfd)) acts = some t) :
    (∀ outcome, t.stage = .finished outcome → (∃ network, Answers network t.trace) ∧
      ∀ network, Answers network t.trace →
        request.query network = outcome >>= fun result => .ret (some result)) ∧
    ∀ socket, t.stage = .receiving socket → (∃ network, Answers network t.trace) ∧
      ∀ network, Answers network t.trace → request.query network = .ret none := by
  have hConducted := conducted_of_run hPrivate hRun
  constructor
  · intro outcome hFinished
    simp only [Conducted, hFinished] at hConducted
    exact ⟨hConducted.2.2.answered, hConducted.2.2.query_eq⟩
  · intro socket hReceiving
    simp only [Conducted, hReceiving] at hConducted
    obtain ⟨network, hAgrees⟩ := hConducted.agrees
    refine ⟨exists_answers hAgrees, fun network' hAnswers => ?_⟩
    exact hConducted.query_eq hAnswers.agrees
      (hAnswers.received.trans (List.append_nil _).symm)

def lookupA : List (Act Nat InterestList) :=
  [.poll (.task 1) (Os.answering (.error (.fromRawOsError EAGAIN)) []), .event EPOLLOUT,
    .poll (.task 1) (Os.answering (.ok 19) []), .event EPOLLIN,
    .poll (.task 2) (Os.answering (.ok 0) [.ok ⟨[1, 2, 3], localhost.unspecified⟩]),
    .event EPOLLIN]

theorem private_lookupA :
    Meets (step requestA 0) Private (start (.new .empty) : Lookup Nat InterestList) lookupA := by
  refine .cons (fun _ fd _ hBind => ?_) rfl (.cons trivial rfl ?_)
  · rfl
  · refine .cons (fun _ fd hStage => ?_) rfl (.cons trivial rfl ?_)
    · cases hStage
    · refine .cons (fun _ fd hStage => ?_) rfl (.cons trivial rfl trivial)
      cases hStage

theorem returns_query_strangers :
    ∃ t : Lookup Nat InterestList, run (step requestA 0) (start (.new .empty)) lookupA = some t ∧
      ∃ network, Answers network t.trace ∧ requestA.query network = .ret none := by
  have hRun : run (step requestA 0) (start (.new .empty) : Lookup Nat InterestList) lookupA =
      some _ := rfl
  obtain ⟨⟨network, hAnswers⟩, hQuery⟩ := (returns_query private_lookupA hRun).2 _ rfl
  exact ⟨_, hRun, network, hAnswers, hQuery network hAnswers⟩

theorem Orderly.sends {trace : List Entry} (h : Orderly request trace) :
    (∀ packet address answer, .sent packet address answer ∈ trace →
      packet = request.packet ∧ address = request.dnsServer) ∧
    trace.countP Entry.settles ≤ 1 ∧
    ∀ before answer after, trace = before ++ .received answer :: after →
      ∃ n, .sent request.packet request.dnsServer (.ok n) ∈ before := by
  obtain hWaits | ⟨n, before, after, rfl, hBefore, hAfter⟩ | ⟨before, e, rfl, hBefore⟩ := h
  · obtain ⟨hSent, hCount, hReceived⟩ := waits_sends hWaits
    refine ⟨hSent, by omega, fun before answer after hTrace => ?_⟩
    exact absurd (by simp [hTrace]) (hReceived answer)
  · obtain ⟨hSent, hCount, hReceived⟩ := waits_sends hBefore
    obtain ⟨hNone, hCount'⟩ := listens_sends hAfter
    refine ⟨fun packet address answer hMem => ?_, ?_, fun before' answer after' hTrace => ?_⟩
    · obtain hMem | hMem := List.mem_append.mp hMem
      · exact hSent packet address answer hMem
      · obtain hMem | hMem := List.mem_cons.mp hMem
        · cases hMem
          exact ⟨rfl, rfl⟩
        · exact absurd hMem (hNone packet address answer)
    · rw [List.countP_append, List.countP_cons, hCount, hCount']
      split <;> omega
    · exact ⟨n, mem_before hTrace (hReceived answer) (by simp)⟩
  · obtain ⟨hSent, hCount, hReceived⟩ := waits_sends hBefore
    refine ⟨fun packet address answer hMem => ?_, ?_, fun before' answer after' hTrace => ?_⟩
    · obtain hMem | hMem := List.mem_append.mp hMem
      · exact hSent packet address answer hMem
      · cases List.mem_singleton.mp hMem
        exact ⟨rfl, rfl⟩
    · rw [List.countP_append, List.countP_singleton, hCount]
      split <;> omega
    · have hMem : Entry.received answer ∈
          before ++ [.sent request.packet request.dnsServer (.error e)] := by
        rw [hTrace]
        simp
      simp [hReceived answer] at hMem

theorem Conducted.orderly (h : t.Conducted request addr) : Orderly request t.trace := by
  unfold Conducted at h
  split at h
  · exact .inl (by simp [h.1])
  · exact h.2.orderly
  · exact h.orderly
  · exact h.2.1
  · exact h.2

/-- Whatever the future sends is the packet, to the server; at most one `send_to`
does not block, nothing is received before, and no entry of the socket is left when
the future has ended. -/
theorem sends_once {epfd : κ} {acts : List (Act τ κ)}
    (hPrivate : Meets (step request addr) Private (start (.new epfd)) acts)
    (hRun : run (step request addr) (start (.new epfd)) acts = some t) :
    (∀ packet address answer, .sent packet address answer ∈ t.trace →
      packet = request.packet ∧ address = request.dnsServer) ∧
    t.trace.countP Entry.settles ≤ 1 ∧
    (∀ before answer after, t.trace = before ++ .received answer :: after →
      ∃ n, .sent request.packet request.dnsServer (.ok n) ∈ before) ∧
    (t.ended = true → ∀ fd, t.socket = some fd → t.reactor.list fd = none) := by
  have hConducted := conducted_of_run hPrivate hRun
  obtain ⟨hSent, hCount, hReceived⟩ := hConducted.orderly.sends
  refine ⟨hSent, hCount, hReceived, fun hEnded => ?_⟩
  unfold Conducted at hConducted
  unfold ended at hEnded
  split at hConducted
  · simp_all
  · simp_all
  · simp_all
  · exact hConducted.1
  · exact hConducted.1

theorem sends_once_strangers :
    ∃ t : Lookup Nat InterestList, run (step requestA 0) (start (.new .empty)) lookupA = some t ∧
      t.trace.countP Entry.settles ≤ 1 := by
  have hRun : run (step requestA 0) (start (.new .empty) : Lookup Nat InterestList) lookupA =
      some _ := rfl
  exact ⟨_, hRun, (sends_once private_lookupA hRun).2.1⟩

/-- A datagram from someone else costs a turn, and one from the server ends the
loop with what it holds. -/
theorem pollReceive_strangers {s : Lookup τ κ} {socket : Nonblocking RawFd τ (List Byte)}
    (h : Receiving request addr s socket) (hWoken : EPOLLIN &&& socket.a.waiter.waitingFor = 0#32)
    (waker : Waker τ) {strangers : List Datagram}
    (hStrangers : ∀ datagram ∈ strangers, datagram.sender ≠ request.dnsServer)
    (later : List (Except Error Datagram)) :
    ∃ s' socket', Receiving request addr s' socket' ∧ socket'.a = socket.a ∧ s'.socket = s.socket ∧
      s.pollReceive request.dnsServer addr waker socket (strangers.map .ok ++ later) =
        s'.pollReceive request.dnsServer addr waker socket' later := by
  induction strangers generalizing s socket with
  | nil => exact ⟨s, socket, h, rfl, rfl, rfl⟩
  | cons stranger strangers ih =>
    obtain ⟨hFirst, hOthers⟩ := List.forall_mem_cons.mp hStrangers
    obtain ⟨fd, -, hKept⟩ := h.kept
    have hNext := h.turn waker (.ok stranger)
    obtain ⟨hSkip, -⟩ | ⟨-, ⟨⟨⟩, -⟩ | ⟨e, ⟨⟩, -⟩ | ⟨datagram, ⟨⟩, hTurn⟩⟩ :=
      turn_cases hKept request.dnsServer waker (.ok stranger)
    · rw [h.interest] at hSkip
      exact absurd hWoken hSkip
    · simp only at hTurn
      rw [if_pos (show (recvFrom socket.captured stranger).2.2 ≠ request.dnsServer from hFirst)]
        at hTurn
      rw [hTurn] at hNext
      obtain ⟨s', socket', hReceiving, hSame, hSocket, hPoll⟩ := ih hNext hWoken hOthers
      refine ⟨s', socket', hReceiving, hSame, hSocket, ?_⟩
      rw [List.map_cons, List.cons_append, pollReceive, hTurn]
      exact hPoll

/-- A poll after a wake-up takes one datagram after the other until it has the
server's, whose records it returns, or there are none, and then it waits for more. -/
theorem poll_drains {epfd : κ} {acts : List (Act τ κ)}
    (hPrivate : Meets (step request addr) Private (start (.new epfd)) acts)
    (hRun : run (step request addr) (start (.new epfd)) acts = some t)
    {socket : Nonblocking RawFd τ (List Byte)} (hStage : t.stage = .receiving socket)
    (hWoken : EPOLLIN &&& socket.a.waiter.waitingFor = 0#32) {strangers : List Datagram}
    (hStrangers : ∀ datagram ∈ strangers, datagram.sender ≠ request.dnsServer)
    (waker : Waker τ) (os : Os) :
    (∀ packet later,
      os.inbox = strangers.map .ok ++ .ok ⟨packet, request.dnsServer⟩ :: later →
      (t.poll request addr waker os).stage = .finished
        ((parseResponsePacket (packet.take request.buffer.length)).mapPanic .parse)) ∧
    (os.inbox = strangers.map .ok → ∃ fd socket' event, t.socket = some fd ∧
      (t.poll request addr waker os).stage = .receiving socket' ∧
      socket'.a.waiter.waker = waker ∧ EPOLLIN &&& socket'.a.waiter.waitingFor ≠ 0#32 ∧
      (t.poll request addr waker os).reactor.list fd = some event ∧ event.data = addr ∧
      Within socket'.a.waiter.waitingFor event.events) := by
  have hReceiving := conducted_of_run hPrivate hRun
  simp only [Conducted, hStage] at hReceiving
  have hPoll : t.poll request addr waker os =
      t.pollReceive request.dnsServer addr waker socket os.inbox := by
    simp only [poll, hStage]
  rw [hPoll]
  constructor
  · intro packet later hInbox
    let reply : Datagram := ⟨packet, request.dnsServer⟩
    obtain ⟨s', socket', hReceiving', hSame, -, hRest⟩ :=
      pollReceive_strangers hReceiving hWoken waker hStrangers (.ok reply :: later)
    obtain ⟨fd, -, hKept⟩ := hReceiving'.kept
    rw [hInbox, hRest, pollReceive]
    obtain ⟨hSkip, -⟩ | ⟨-, ⟨⟨⟩, -⟩ | ⟨e, ⟨⟩, -⟩ | ⟨datagram, ⟨⟩, hTurn⟩⟩ :=
      turn_cases hKept request.dnsServer waker (.ok reply)
    · rw [hReceiving'.interest, hSame] at hSkip
      exact absurd hWoken hSkip
    · simp only at hTurn
      have hSender : (recvFrom socket'.captured reply).2.2 = request.dnsServer := rfl
      rw [if_neg (not_not.mpr hSender), slice_recvFrom, hReceiving'.room] at hTurn
      rw [hTurn]
      obtain ⟨r, hFinish, -⟩ :=
        finish_kept (s := { s' with trace := s'.trace ++ [Entry.received (.ok reply)] }) hKept
          ((parseResponsePacket (packet.take request.buffer.length)).mapPanic .parse)
      exact congrArg Lookup.stage hFinish
  · intro hInbox
    obtain ⟨s', socket', hReceiving', hSame, hSocket, hRest⟩ :=
      pollReceive_strangers hReceiving hWoken waker hStrangers []
    obtain ⟨fd, hFd, hKept⟩ := hReceiving'.kept
    rw [hInbox, ← List.append_nil (strangers.map Except.ok), hRest, pollReceive]
    obtain ⟨hSkip, -⟩ | ⟨-, ⟨-, r, hKept', hTurn⟩ | ⟨e, ⟨⟩, ⟨⟩, -⟩ | ⟨datagram, ⟨⟩, -⟩⟩ :=
      turn_cases hKept request.dnsServer waker (.error (.fromRawOsError EAGAIN))
    · rw [hReceiving'.interest, hSame] at hSkip
      exact absurd hWoken hSkip
    · rw [hTurn]
      let a : Async RawFd τ := ⟨some fd, socket'.blockedWaiter waker⟩
      have hReg : a.waiter.registerFor ≠ 0#32 := Async.registerFor_ne_zero _ _
      have hEntry : a.entry addr = some (fd, ⟨a.waiter.registerFor, addr⟩) :=
        Async.entry_of_registered rfl hReg addr
      exact ⟨fd, _, _, hSocket ▸ hFd, rfl, rfl,
        socket'.awaits_blockedWaiter hReceiving'.interest waker, hKept'.listed _ _ hEntry, rfl,
        hKept'.covered rfl⟩

theorem poll_drains_notFound :
    let reply : List Byte := [0, 0, 0x81, 0x83, 0, 1, 0, 0, 0, 0, 0, 0, 1, 97, 0, 0, 1, 0, 1]
    let os := Os.answering (.ok 0) [.ok ⟨[4], localhost.unspecified⟩, .ok ⟨reply, localhost⟩]
    ∃ t : Lookup Nat InterestList, run (step requestA 0) (start (.new .empty)) lookupA = some t ∧
      (t.poll requestA 0 (.task 3) os).stage =
        .finished (.ret (.error (.ofKind .notFound))) := by
  intro reply os
  have hRun : run (step requestA 0) (start (.new .empty) : Lookup Nat InterestList) lookupA =
      some _ := rfl
  have hStrangers : ∀ datagram ∈ [Datagram.mk [4] localhost.unspecified],
      datagram.sender ≠ requestA.dnsServer := by
    intro datagram hMem
    rw [List.mem_singleton.mp hMem]
    decide
  have hParse : parseResponsePacket (reply.take requestA.buffer.length) =
      .ret (.error (.ofKind .notFound)) := by decide +kernel
  have hDrains := poll_drains private_lookupA hRun rfl (by decide) hStrangers (.task 3) os
  refine ⟨_, hRun, (hDrains.1 reply [] rfl).trans ?_⟩
  rw [hParse]
  rfl

end Lookup

end Ground.Dns
