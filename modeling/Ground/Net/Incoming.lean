import Ground.Stream.Delivered

/-! # The stream of incoming connections

`accept` and `Incoming` of the TCP and of the Unix listener are the same but for
their types.
-/

namespace Ground

open Mask Transition

variable {T τ κ φ α R S A : Type} [AsRawFd T]

def Incoming.pollNext [Epoll κ] (a : Async T τ) (addr : Addr) (waker : Waker τ)
    (accept : Closure T (S × A)) (r : Reactor κ) :
    Outcome Panic (Poll (Option (Except Error S))) × Async T τ × Reactor κ :=
  match a.pollNonblocking addr waker .read accept r with
  | (.ret (.ready (.ok (stream, _addr))), a, r) => (.ret (.ready (some (.ok stream))), a, r)
  | (.ret (.ready (.error e)), a, r) => (.ret (.ready (some (.error e))), a, r)
  | (.ret .pending, a, r) => (.ret .pending, a, r)
  | (.panic p, a, r) => (.panic p, a, r)

namespace Traffic

section

variable [File φ α] {s : Traffic T τ φ α}

theorem Accurate.ends (h : s.Accurate) (hIdle : s.edge.phase = .idle) {addr : Addr}
    {this : Async T τ} {inner : T} (hThis : s.edge.world.asyncs addr = some this)
    (hInner : this.inner = some inner) (waker : Waker τ) (call : Call φ α R) :
    let called := (call.run (s.files (asRawFd inner))).1
    let outcome := (this.pollNonblocking addr waker call.interest (syscall s.files call)
      s.edge.world.reactor).1
    (call.interest.asEvents &&& this.waiter.waitingFor ≠ 0#32 ∧ outcome = .ret .pending) ∨
    (called = .error EAGAIN ∧ outcome = .ret .pending) ∨
    (called ≠ .error EAGAIN ∧
      outcome = .ret (.ready (called.mapError Error.fromRawOsError))) := by
  intro called outcome
  have hInStep := h.safe.inStep hIdle
  have hKeeps : this.KeepsEntry s.edge.world.reactor.list call.interest (syscall s.files call) :=
    hInStep.keepsEntry h.safe.distinct hThis (fun _ _ => rfl) call.interest
  obtain ⟨outcome', this', r, hPoll, hGranted, -⟩ := Async.pollNonblocking_rewrites
    (h.safe.mirrors.listed hThis) (hInStep.covered addr this hThis) waker hKeeps
  have hOutcome : outcome = outcome' := by simp only [outcome, hPoll]
  obtain ⟨hSkip, hAttempt⟩ | ⟨-, hBlocks, hAttempt⟩ | ⟨-, hEnds, hAttempt⟩ :=
    Async.pollAttempt_cases hInner waker call.interest (syscall s.files call)
  · refine .inl ⟨hSkip, ?_⟩
    simp only [outcome, Async.pollNonblocking_eq, hAttempt]
    rfl
  · refine .inr (.inl ⟨blocks_syscall hBlocks, ?_⟩)
    rw [← hOutcome] at hGranted
    simp only [outcome, Async.pollNonblocking_eq, hAttempt] at hGranted ⊢
    exact ((Async.pollFinish_blocked_outcome addr call.interest s.edge.world.reactor _
      _).resolve_right fun hRefused => hGranted.1 hRefused.2).2
  · refine .inr (.inr ⟨fun hBlocked => hEnds ?_, ?_⟩)
    · refine ⟨.fromRawOsError EAGAIN, ?_, rfl⟩
      simp only [called] at hBlocked
      simp only [syscall, hBlocked]
      rfl
    · simp only [outcome, Async.pollNonblocking_eq, hAttempt]
      rfl

end

variable [File φ (S × A)] [LawfulFile φ (S × A)] {s : Traffic T τ φ (S × A)}

/-- In every state that a run reaches between the operations, the stream of a listener
yields the connection that arrived after those it has yielded, the error of a failed
`accept`, and no end. It is pending when it has yielded all of them, or while its
descriptor is queued. It does not panic. -/
theorem incoming_in_order {files : RawFd → φ} {acts : List (Act T τ φ (S × A))}
    (hAssumed : Meets step Assumed (init files) acts)
    (hRun : run step (init files) acts = some s) (hIdle : s.edge.phase = .idle) {addr : Addr}
    {this : Async T τ} {inner : T} (hThis : s.edge.world.asyncs addr = some this)
    (hInner : this.inner = some inner) (waker : Waker τ) :
    let fd := asRawFd inner
    let account := s.accounts fd
    match (Incoming.pollNext this addr waker (syscall s.files File.next)
      s.edge.world.reactor).1 with
    | .ret (.ready (some (.ok stream))) =>
      ∃ address, account.arrived[account.received.length]? = some (stream, address)
    | .ret (.ready (some (.error e))) =>
      ∃ errno ≠ EAGAIN,
        (File.accept (s.files fd)).1 = .error errno ∧ e = .fromRawOsError errno
    | .ret (.ready none) => False
    | .ret .pending => account.received = account.arrived ∨ s.edge.kernel.queued fd = true
    | .panic _ => False := by
  intro fd account
  have hSound := sound_of_run hAssumed hRun
  have hIncoming : account.received ++ File.unread (s.files fd) = account.arrived :=
    (hSound.balanced fd).incoming
  have hAll (hEmpty : File.unread (s.files fd) = []) : account.received = account.arrived := by
    rw [← hIncoming, hEmpty, List.append_nil]
  have hEnds := hSound.accurate.ends hIdle hThis hInner waker (File.next : Call φ (S × A) (S × A))
  simp only [Incoming.pollNext]
  simp only [File.next] at hEnds ⊢
  rcases hPoll : this.pollNonblocking addr waker .read (syscall s.files _)
    s.edge.world.reactor with ⟨outcome, this', r⟩
  simp only [hPoll] at hEnds
  obtain ⟨hSkip, rfl⟩ | ⟨hBlocked, rfl⟩ | ⟨hEnds, rfl⟩ := hEnds
  · by_cases hEmpty : File.unread (s.files fd) = []
    · exact .inl (hAll hEmpty)
    · obtain ⟨b, hBit⟩ := ne_zero_iff.mp hSkip
      obtain ⟨hRead, hWaits⟩ := has_and.mp hBit
      obtain rfl := has_read_iff.mp hRead
      exact .inr (hSound.queued hIdle hThis hInner hWaits
        (has_directions_read.mpr (LawfulFile.readable_of_unread hEmpty)))
  · refine .inl (hAll ?_)
    by_contra hSome
    have hApart := (LawfulFile.next (φ := φ)).blocks _ hBlocked
    have hReady : Has (File.readiness (s.files fd)) 0 :=
      has_directions_read.mpr (LawfulFile.readable_of_unread hSome)
    exact meet_eq_zero_iff.mp hApart 0 (has_read_iff.mpr rfl) hReady
  · cases hCall : (File.accept (s.files fd)).1 with
    | error errno =>
      refine ⟨errno, ?_, rfl, rfl⟩
      rintro rfl
      exact hEnds hCall
    | ok connection =>
      obtain ⟨stream, address⟩ := connection
      have hMoved := ((LawfulFile.next (φ := φ)).ok (s.files fd) (stream, address) hCall).1
      refine ⟨address, ?_⟩
      rw [← hIncoming, ← hMoved]
      simp [File.next]

theorem incoming_in_order_backlog :
    let fcntl : Fcntl := ⟨fun _ => .ok 0#32, fun _ _ => .ok ()⟩
    let file : Buffered (Nat × Nat) := ⟨[(7, 1), (8, 2)], false, [], 0⟩
    let acts : List (Act RawFd Nat (Buffered (Nat × Nat)) (Nat × Nat)) :=
      [.new 0 fcntl 3, .accept 0 (.task 1)]
    ∃ (s : Traffic RawFd Nat (Buffered (Nat × Nat)) (Nat × Nat)) (address : Nat),
      run step (init fun _ => file) acts = some s ∧
        (s.accounts 3).arrived[(s.accounts 3).received.length]? = some (8, address) := by
  intro fcntl file acts
  have hAssumed : Meets step Assumed
      (init fun _ => file : Traffic RawFd Nat (Buffered (Nat × Nat)) (Nat × Nat)) acts :=
    .cons (by simp [Assumed, World.held, init, Edge.init, World.init]) rfl
      (.cons trivial rfl trivial)
  let s : Traffic RawFd Nat (Buffered (Nat × Nat)) (Nat × Nat) :=
    (run step (init fun _ => file) acts).get rfl
  have hRun : run step (init fun _ => file) acts = some s := (Option.some_get _).symm
  have hThis : s.edge.world.asyncs 0 = some ⟨some 3, ⟨.noop, 0#32, 0#32⟩⟩ := rfl
  obtain ⟨address, hYields⟩ := incoming_in_order hAssumed hRun rfl hThis rfl (.task 1)
  exact ⟨s, address, hRun, hYields⟩

end Traffic

end Ground
