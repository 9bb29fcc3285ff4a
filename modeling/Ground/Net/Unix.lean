import Ground.Net.Backlog
import Ground.Net.Lifecycle

/-! # Connecting over a Unix socket

The first time it blocks, the future is registered and its event is on its way.
When it blocks again nothing is registered, so only a backlog that has room by
the second call of `connect` keeps it from waiting for good.
-/

namespace Ground.Net

open Mask Transition

variable {τ : Type}

namespace Unix

theorem unixAttempt_blocks_iff (os : Os) :
    (∃ e, (unixAttempt os ()).2.1 = .error e ∧ e.kind = .wouldBlock) ↔
      os.connect = .error EAGAIN := by
  rcases hAnswer : os.connect with errno | _
  · simp [unixAttempt, Os.connectSocket, hAnswer, Except.mapError, Error.fromRawOsError,
      decodeErrorKind_eq_wouldBlock_iff]
  · simp [unixAttempt, Os.connectSocket, hAnswer, Except.mapError]

theorem queued_ensureRegistered {fd : RawFd} {waiter : Waiter τ} {r : Reactor EdgeKernel}
    (hReg : waiter.registerFor = 0#32) (hFree : r.list fd = none)
    (hReady : Has (r.epfd.ready fd) 2) (addr : Addr) :
    let r' := (ensureRegistered fd addr waiter .write r).2.2
    Has (r'.epfd.ready fd) 2 ∧ r'.epfd.queued fd = true := by
  intro r'
  let registerFor := waiter.registerFor ||| Interest.write.asEvents ||| EPOLLET
  have hBit : Has registerFor 2 := has_or.mpr (.inl (has_or.mpr (.inr (by decide))))
  have hRequest : registerRequest fd addr waiter registerFor = .add fd ⟨registerFor, addr⟩ := by
    simp only [registerRequest, hReg, if_true]
  have hAsked : let asked := r.epollCtl (registerRequest fd addr waiter registerFor)
      Has (asked.2.epfd.ready fd) 2 ∧ asked.2.epfd.queued fd = true := by
    obtain ⟨-, hCtl⟩ | ⟨hInvalid, -⟩ := ctl_registerRequest r.list fd addr waiter registerFor
    · constructor
      · have hSame := (r.epfd.epollCtl_elsewhere (registerRequest fd addr waiter registerFor)).1
        exact hSame ▸ hReady
      · exact EdgeKernel.queued_register (.inl hRequest) hCtl (Function.update_self ..) hBit hReady
    · exact absurd ⟨fun _ => hFree, fun _ => hReg⟩ hInvalid
  obtain ⟨hSame, -⟩ | ⟨-, -, hRun⟩ | ⟨-, -, hRun⟩ :=
    ensureRegistered_cases fd addr waiter .write r
  · rw [hReg] at hSame
    exact absurd hSame (by decide)
  · simp only [r', hRun]
    exact hAsked
  · simp only [r', hRun]
    exact hAsked

theorem ensureRegistered_again {fd : RawFd} {waiter : Waiter τ}
    (hReg : waiter.registerFor = EPOLLOUT ||| EPOLLET) (addr : Addr) (r : Reactor EdgeKernel) :
    ensureRegistered fd addr waiter .write r = (.ret (), waiter, r) := by
  have hSame : waiter.registerFor ||| Interest.write.asEvents ||| EPOLLET = waiter.registerFor := by
    rw [hReg]
    decide
  obtain ⟨-, hRun⟩ | ⟨hNew, -⟩ | ⟨hNew, -⟩ := ensureRegistered_cases fd addr waiter .write r
  · exact hRun
  · exact absurd hSame hNew
  · exact absurd hSame hNew

/-- A registered socket waits exactly while its event is on its way. -/
structure Poised (addr : Addr) (socket : Nonblocking RawFd τ Unit) (fd : RawFd)
    (r : Reactor EdgeKernel) : Prop where
  kept : Kept addr fd socket.a r
  interest : socket.interest = .write
  registered : socket.a.waiter.registerFor = EPOLLOUT ||| EPOLLET
  writable : Has (r.epfd.ready fd) 2
  queued : r.epfd.queued fd = true ↔ EPOLLOUT &&& socket.a.waiter.waitingFor ≠ 0#32

def Attended (addr : Addr) (s : Unix τ) : Prop :=
  match s.future.stage with
  | .unresumed => s.future.socket = none ∧ s.future.reactor.isDispatching = false
  | .connecting socket =>
    ∃ fd, s.future.socket = some fd ∧ Poised addr socket fd s.future.reactor
  | .finished _ | .dropped _ => True

variable {s t : Unix τ} {address : Except Error Unit} {addr : Addr}

theorem Attended.not_stranded (h : s.Attended addr) : ¬ s.Stranded := by
  rintro ⟨socket, fd, hStage, hSocket, hWaits, -, hQueued⟩
  simp only [Attended, hStage] at h
  obtain ⟨fd', hSocket', hPoised⟩ := h
  cases hSocket.symm.trans hSocket'
  exact Bool.false_ne_true (hQueued.symm.trans (hPoised.queued.mpr hWaits))

theorem attended_first {future : Connect τ Unit EdgeKernel} {a : Async RawFd τ} {fd : RawFd}
    (hSocket : future.socket = some fd) (hKept : Kept addr fd a future.reactor)
    (hReg : a.waiter.registerFor = 0#32) (hWaiting : a.waiter.waitingFor = 0#32)
    (hReady : Has (future.reactor.epfd.ready fd) 2) (waker : Waker τ) (os : Os) (room : Nat) :
    let future' := future.pollSocket (unix address) addr waker os
      { a, interest := .write, captured := () }
    ({ future := future', room } : Unix τ).Attended addr := by
  intro future'
  let socket : Nonblocking RawFd τ Unit := { a, interest := .write, captured := () }
  have hSame : future'.socket = some fd := (future.pollSocket_socket ..).trans hSocket
  have hKept : Kept addr fd socket.a future.reactor := hKept
  have hTidy := Connect.pollSocket_kept hKept (unix address) waker os
  obtain ⟨hSkip, -⟩ | ⟨-, -, -, -, hStage⟩ | ⟨-, -, hEnd⟩ :=
    Connect.pollSocket_cases hKept.inner future (unix address) addr waker os
  · refine absurd ?_ hSkip
    rw [show socket.a.waiter.waitingFor = 0#32 from hWaiting, BitVec.and_zero]
  · obtain ⟨-, hStage⟩ | ⟨-, hReactor, hStage⟩ := hStage
    · simp only [Attended, future', socket, hStage]
    · obtain ⟨socket', hStage', hKept'⟩ | ⟨outcome, hStage', -⟩ := hTidy
      · cases hStage.symm.trans hStage'
        have hBlocked : (a.block waker .write).waiter.registerFor = 0#32 := hReg
        obtain ⟨hReady', hQueued⟩ :=
          queued_ensureRegistered hBlocked (hKept.free hReg) hReady addr
        rw [← hReactor] at hReady' hQueued
        have hWaits : EPOLLOUT &&& (socket.blockedWaiter waker).waitingFor ≠ 0#32 :=
          socket.awaits_blockedWaiter rfl waker
        simp only [Attended, future', socket, hStage]
        refine ⟨fd, hSame, hKept', rfl, ?_, hReady', fun _ => hWaits, fun _ => hQueued⟩
        simp only [Nonblocking.blockedWaiter, hReg]
        decide
      · cases hStage.symm.trans hStage'
  · simp only [Attended, future', socket, hEnd]

theorem Poised.poll {future : Connect τ Unit EdgeKernel} {socket : Nonblocking RawFd τ Unit}
    {fd : RawFd} (h : Poised addr socket fd future.reactor) (hSocket : future.socket = some fd)
    (waker : Waker τ) {os : Os}
    (hRoom : os.connect = .error EAGAIN → EPOLLOUT &&& socket.a.waiter.waitingFor ≠ 0#32)
    (room : Nat) :
    let future' := future.pollSocket (unix address) addr waker os socket
    ({ future := future', room } : Unix τ).Attended addr := by
  intro future'
  obtain ⟨-, hSkipped⟩ | ⟨hTry, hBlocks, -⟩ | ⟨-, -, hEnd⟩ :=
    Connect.pollSocket_cases h.kept.inner future (unix address) addr waker os
  · simp only [Attended, future', hSkipped]
    exact ⟨fd, hSocket, h⟩
  · rw [h.interest] at hTry
    exact absurd hTry (hRoom ((unixAttempt_blocks_iff os).mp hBlocks))
  · simp only [Attended, future', hEnd]

/-- A later poll that does: the socket waits and nothing will queue it. -/
theorem Poised.poll_full {future : Connect τ Unit EdgeKernel} {socket : Nonblocking RawFd τ Unit}
    {fd : RawFd} (h : Poised addr socket fd future.reactor) (hSocket : future.socket = some fd)
    (waker : Waker τ) {os : Os} (hFull : os.connect = .error EAGAIN)
    (hTry : EPOLLOUT &&& socket.a.waiter.waitingFor = 0#32) {room : Nat} (hRoom : room ≠ 0) :
    let future' := future.pollSocket (unix address) addr waker os socket
    ({ future := future', room } : Unix τ).Stranded := by
  intro future'
  have hAgain : (socket.a.block waker socket.interest).waiter.registerFor = EPOLLOUT ||| EPOLLET :=
    h.registered
  have hUnqueued : future.reactor.epfd.queued fd = false := by
    rw [← Bool.not_eq_true, h.queued, not_not]
    exact hTry
  obtain ⟨hSkip, -⟩ | ⟨-, -, hSame, -, hStage⟩ | ⟨-, hAnswer, -⟩ :=
    Connect.pollSocket_cases h.kept.inner future (unix address) addr waker os
  · rw [h.interest] at hSkip
    exact absurd hTry hSkip
  · rw [h.interest, ensureRegistered_again (h.interest ▸ hAgain)] at hStage
    obtain ⟨hRefused, -⟩ | ⟨-, hReactor, hStage⟩ := hStage
    · cases hRefused
    · have hWaits := socket.awaits_blockedWaiter h.interest waker
      have hKernel := congrArg (fun r : Reactor EdgeKernel => r.epfd.queued fd) hReactor
      exact ⟨_, fd, hStage, hSame.trans hSocket, hWaits, hRoom, hKernel.trans hUnqueued⟩
  · obtain ⟨e, hError, hKind⟩ := (unixAttempt_blocks_iff os).mpr hFull
    exact absurd hKind (hAnswer e hError)

theorem Poised.elsewhere {socket : Nonblocking RawFd τ Unit} {fd : RawFd}
    {r : Reactor EdgeKernel} (h : Poised addr socket fd r) {epfd : EdgeKernel}
    (hInterest : epfd.interest fd = r.epfd.interest fd) (hReady : epfd.ready fd = r.epfd.ready fd)
    (hQueued : epfd.queued fd = r.epfd.queued fd) : Poised addr socket fd { r with epfd } where
  kept := h.kept.elsewhere hInterest h.kept.idle
  interest := h.interest
  registered := h.registered
  writable := by
    simp only [hReady]
    exact h.writable
  queued := by
    simp only [hQueued]
    exact h.queued

theorem has_EPOLLOUT_iff {b : Nat} : Has EPOLLOUT b ↔ b = 2 := by
  have hPow : EPOLLOUT = BitVec.twoPow 32 2 := by decide
  rw [hPow, Has, BitVec.getLsbD_twoPow]
  simp
  omega

theorem Poised.taken {socket : Nonblocking RawFd τ Unit} {fd : RawFd} {r : Reactor EdgeKernel}
    (h : Poised addr socket fd r) {fds : List RawFd} (hTaken : fd ∈ fds) {event : EpollEvent}
    (hOut : Has event.events 2) :
    let waiter := (Reactor.deliver event socket.a.waiter).1
    Poised addr { socket with a := { socket.a with waiter } } fd
      { r with epfd := (r.epfd.wait fds).2 } := by
  intro waiter
  have hNone : EPOLLOUT &&& waiter.waitingFor = 0#32 := by
    rw [meet_eq_zero_iff]
    intro b hb hWaits
    obtain rfl := has_EPOLLOUT_iff.mp hb
    exact (has_and_not.mp hWaits).2 hOut
  have hWait : Reactor.list { r with epfd := (r.epfd.wait fds).2 } fd = r.list fd := rfl
  refine ⟨(h.kept.elsewhere hWait h.kept.idle).deliver event, h.interest, h.registered,
    h.writable, ?_⟩
  simp [EdgeKernel.wait, hTaken, hNone]

theorem Attended.dispatch (h : s.Attended addr) (hLive : ¬ s.future.ended = true)
    {fds : List RawFd} (hStep : s.dispatch addr fds = some t) : t.Attended addr := by
  unfold Unix.dispatch at hStep
  split at hStep
  · cases hStage : s.future.stage with
    | unresumed =>
      simp only [Attended, hStage] at h
      obtain ⟨hNone, hIdle⟩ := h
      simp only [hNone, Option.filter_none, Option.bind_eq_bind, Option.bind_none] at hStep
      cases hStep
      simp only [Attended, Connect.elsewhere, hStage]
      exact ⟨hNone, hIdle⟩
    | connecting socket =>
      simp only [Attended, hStage] at h
      obtain ⟨fd, hSocket, hPoised⟩ := h
      by_cases hTaken : fd ∈ fds
      · have hRegistered : Has socket.a.waiter.registerFor 2 := by
          rw [hPoised.registered]
          decide
        have hEntry := hPoised.kept.listed _ _ (Async.entry_of_registered hPoised.kept.inner
          (ne_zero_iff.mpr ⟨2, hRegistered⟩) addr)
        obtain ⟨event, hReport, -, hOut⟩ :=
          EdgeKernel.report_of_has hEntry hRegistered hPoised.writable
        have hReported : (s.future.socket.filter (· ∈ fds) >>= s.kernel.report) = some event := by
          simp only [hSocket, Option.filter_some, hTaken, decide_true, if_true]
          exact hReport
        simp only [hReported] at hStep
        cases hStep
        simp only [Attended, Connect.deliver, Connect.elsewhere, hStage]
        exact ⟨fd, hSocket, hPoised.taken hTaken (has_or.mpr (.inl hOut))⟩
      · have hReported : (s.future.socket.filter (· ∈ fds) >>= s.kernel.report) = none := by
          simp [hSocket, Option.filter_some, hTaken]
        simp only [hReported] at hStep
        cases hStep
        simp only [Attended, Connect.elsewhere, hStage]
        refine ⟨fd, hSocket, hPoised.elsewhere rfl rfl ?_⟩
        simp [EdgeKernel.wait, hTaken]
    | finished outcome => simp [Connect.ended, hStage] at hLive
    | dropped outcome => simp [Connect.ended, hStage] at hLive
  · cases hStep

theorem Attended.poll (h : s.Attended addr) (hLive : ¬ s.future.ended = true) {waker : Waker τ}
    {os : Os} (hKeeps : s.Keeps (.poll waker os)) (hStep : s.poll address addr waker os = some t) :
    t.Attended addr := by
  unfold Unix.poll at hStep
  split at hStep
  · rename_i hAnswer
    cases hStage : s.future.stage with
    | unresumed =>
      simp only [Attended, hStage] at h
      obtain ⟨hNone, hIdle⟩ := h
      cases hNew : os.socket with
      | error errno =>
        simp only [hStage, hNew] at hStep
        cases hStep
        simp only [Attended, Connect.poll, hStage, hNew]
      | ok fd =>
        simp only [hStage, hNew] at hStep
        split at hStep
        · rename_i hFree
          cases hStep
          simp only [Connect.poll, Connect.elsewhere, hStage, hNew]
          split
          · trivial
          · rename_i a hA
            split
            · trivial
            · have hFresh := Async.new_eq_ret hA
              apply attended_first
              · rfl
              · exact kept_new hA hFree hIdle
              · exact congrArg (fun a : Async RawFd τ => a.waiter.registerFor) hFresh
              · exact congrArg (fun a : Async RawFd τ => a.waiter.waitingFor) hFresh
              · simp only [opened, Function.update_self]
                decide
        · cases hStep
    | connecting socket =>
      simp only [Attended, hStage] at h
      obtain ⟨fd, hSocket, hPoised⟩ := h
      simp only [hStage] at hStep
      cases hStep
      simp only [Connect.poll, hStage]
      exact hPoised.poll hSocket waker (fun hFull => hKeeps (hAnswer.mp hFull) socket hStage) s.room
    | finished outcome => simp [Connect.ended, hStage] at hLive
    | dropped outcome => simp [Connect.ended, hStage] at hLive
  · cases hStep

theorem Attended.step (h : s.Attended addr) {act : Act τ} (hKeeps : s.Keeps act)
    (hStep : s.step address addr act = some t) : t.Attended addr := by
  unfold Unix.step at hStep
  split at hStep
  · cases hStep
  · rename_i hLive
    cases act with
    | poll waker os => exact h.poll hLive hKeeps hStep
    | dispatch fds => exact h.dispatch hLive hStep
    | backlog room =>
      cases hStep
      exact h
    | elsewhere effect =>
      simp only at hStep
      split at hStep
      · rename_i hSpares
        cases hStep
        cases hStage : s.future.stage with
        | unresumed => simpa [Attended, Connect.elsewhere, hStage] using h
        | connecting socket =>
          simp only [Attended, Connect.elsewhere, hStage] at h ⊢
          obtain ⟨fd, hSocket, hPoised⟩ := h
          obtain ⟨hInterest, hReady, hQueued⟩ := hSpares fd hSocket
          exact ⟨fd, hSocket, hPoised.elsewhere hInterest hReady hQueued⟩
        | finished outcome => simp [Connect.ended, hStage] at hLive
        | dropped outcome => simp [Connect.ended, hStage] at hLive
      · cases hStep
    | drop =>
      cases hStep
      unfold Connect.drop
      split
      · trivial
      · trivial
      · trivial
      · trivial

theorem attended_init (kernel : EdgeKernel) (room : Nat) (addr : Addr) :
    (init kernel room : Unix τ).Attended addr := ⟨rfl, rfl⟩

theorem Attended.run (h : s.Attended addr) {acts : List (Act τ)}
    (hKeeps : Meets (Unix.step address addr) Keeps s acts)
    (hRun : Transition.run (Unix.step address addr) s acts = some t) : t.Attended addr :=
  invariant_of_meets (I := Attended addr) (fun _ _ _ h hKeeps hStep => h.step hKeeps hStep)
    h hKeeps hRun

theorem step_backlog (h : s.future.ended = false) (room : Nat) :
    s.step address addr (.backlog room) = some { s with room } := by
  simp [Unix.step, h]

/-- A poll that is not the first and finds the backlog full: once there is room
again, the future is stranded. -/
theorem Attended.strands (h : s.Attended addr) {act : Act τ} (hBreaks : ¬ s.Keeps act)
    (hStep : s.step address addr act = some t) :
    ∃ u, t.step address addr (.backlog 1) = some u ∧ u.Stranded := by
  cases act with
  | poll waker os =>
    simp only [Keeps, not_forall, not_not] at hBreaks
    obtain ⟨hFull, socket, hStage, hTry⟩ := hBreaks
    simp only [Attended, hStage] at h
    obtain ⟨fd, hSocket, hPoised⟩ := h
    let future' := s.future.pollSocket (unix address) addr waker os socket
    have hPoll : s.future.poll (unix address) addr waker os = future' := by
      simp only [Connect.poll, hStage, future']
    unfold Unix.step at hStep
    split at hStep
    · cases hStep
    · simp only [Unix.poll, hStage, hPoll] at hStep
      split at hStep
      · rename_i hAnswer
        cases hStep
        have hStranded : ({ future := future', room := 1 } : Unix τ).Stranded :=
          hPoised.poll_full hSocket waker (hAnswer.mpr hFull) hTry Nat.one_ne_zero
        have hLive : future'.ended = false := by
          obtain ⟨socket', -, hStage', -⟩ := hStranded
          exact Connect.ended_of_connecting hStage'
        exact ⟨_, step_backlog hLive 1, hStranded⟩
      · cases hStep
  | _ => exact absurd trivial hBreaks

/-- No state is stranded that is reached by polls of which only the first finds the
backlog full, and after the first poll that does not keep to this some run that
does strands the future. -/
theorem not_stranded_iff_keeps {kernel : EdgeKernel} {room : Nat} {acts : List (Act τ)}
    (hKeeps : Meets (step address addr) Keeps (init kernel room) acts)
    (hRun : run (step address addr) (init kernel room) acts = some s) :
    ¬ s.Stranded ∧ ∀ act t, s.step address addr act = some t → (s.Keeps act ↔
      ∀ later u, Meets (step address addr) Keeps t later →
        run (step address addr) t later = some u → ¬ u.Stranded) := by
  have hAttended : s.Attended addr := (attended_init kernel room addr).run hKeeps hRun
  refine ⟨hAttended.not_stranded, fun act t hStep => ?_⟩
  constructor
  · intro hAct later u hLater hRun'
    exact ((hAttended.step hAct hStep).run hLater hRun').not_stranded
  · intro hAll
    by_contra hBreaks
    obtain ⟨u, hBacklog, hStranded⟩ := hAttended.strands hBreaks hStep
    exact hAll [.backlog 1] u (.cons trivial hBacklog trivial)
      (run_cons_eq_some.mpr ⟨u, hBacklog, rfl⟩) hStranded

theorem not_stranded_retry :
    let acts : List (Act Nat) :=
      [.poll (.task 1) (.answering (.error EAGAIN)), .dispatch [3], .backlog 1]
    ∃ s : Unix Nat, run (step (.ok ()) 0) (init (.new fun _ => 0#32) 0) acts = some s ∧
      s.future.ended = false ∧ ¬ s.Stranded := by
  intro acts
  have hKeeps : Meets (step (.ok ()) 0) Keeps (init (.new fun _ => 0#32) 0 : Unix Nat) acts := by
    refine .cons ?_ rfl (.cons trivial rfl (.cons trivial rfl trivial))
    rintro - socket ⟨⟩
  exact ⟨_, rfl, rfl, (not_stranded_iff_keeps hKeeps rfl).1⟩

/-- The backlog is full at two polls, and has room after the second. -/
theorem stranded_full_twice :
    let acts : List (Act Nat) :=
      [.poll (.task 1) (.answering (.error EAGAIN)), .dispatch [3],
        .poll (.task 1) (.answering (.error EAGAIN)), .backlog 1]
    ∃ s : Unix Nat, run (step (.ok ()) 0) (init (.new fun _ => 0#32) 0) acts = some s ∧
      s.Stranded := by
  intro acts
  exact ⟨_, rfl, _, 3, rfl, rfl, by decide, by decide, by decide⟩

end Unix

end Ground.Net
