import Ground.Stream.Machine

/-! # Nothing is lost, and nothing is left lying

What polls have reported as read, followed by what the file still holds, is what the
peer has sent; and the same for what they have reported as written. What lies there
while an `Async` waits for it is on its way.
-/

namespace Ground

open Mask Transition

variable {T τ φ α R : Type} [AsRawFd T]

namespace File

variable [File φ α] {file : φ}

theorem read_meet_readiness (h : readable file = false) :
    Interest.read.asEvents &&& readiness file = 0#32 := by
  refine meet_eq_zero_iff.mpr fun b hBit hReady => ?_
  obtain rfl := has_read_iff.mp hBit
  cases h.symm.trans (has_directions_read.mp hReady)

theorem write_meet_readiness (h : writable file = false) :
    Interest.write.asEvents &&& readiness file = 0#32 := by
  refine meet_eq_zero_iff.mpr fun b hBit hReady => ?_
  obtain rfl := has_write_iff.mp hBit
  cases h.symm.trans (has_directions_write.mp hReady)

/-- What has been reported and what is left are what has come, in its order. -/
structure Balances (file : φ) (account : Account α) : Prop where
  incoming : account.received ++ unread file = account.arrived
  outgoing : account.fetched ++ unsent file = account.accepted

variable {account : Account α}

theorem balances_new (file : φ) : Balances file (.new file) := ⟨rfl, rfl⟩

theorem Balances.change (h : Balances file account) {file' : φ} {arrived fetched : List α}
    (hChanges : Changes file file' arrived fetched) :
    Balances file' (account.change arrived fetched) where
  incoming := by
    rw [hChanges.unread, ← List.append_assoc]
    exact congrArg (· ++ arrived) h.incoming
  outgoing := by
    have hOutgoing := h.outgoing
    rw [hChanges.unsent, ← List.append_assoc] at hOutgoing
    exact hOutgoing

theorem Balances.ok (h : Balances file account) {call : Call φ α R} (hObeys : call.Obeys)
    {result : R} (hCall : (call.run file).1 = .ok result) :
    Balances (call.run file).2 (account.report (call.received result) (call.sent result)) := by
  obtain ⟨hUnread, hUnsent⟩ := hObeys.ok file result hCall
  constructor
  · simp only [Account.report]
    rw [List.append_assoc, hUnread, h.incoming]
  · simp only [Account.report]
    rw [hUnsent, ← List.append_assoc, h.outgoing]

theorem Balances.error (h : Balances file account) {call : Call φ α R} (hObeys : call.Obeys)
    {errno : Errno} (hCall : (call.run file).1 = .error errno) :
    Balances (call.run file).2 account := by
  obtain ⟨hUnread, hUnsent⟩ := hObeys.error file errno hCall
  constructor
  · rw [hUnread]
    exact h.incoming
  · rw [hUnsent]
    exact h.outgoing

end File

namespace Buffered

variable {file : Buffered α}

theorem recv_cases (length : Nat) (file : Buffered α) :
    (length = 0 ∨ file.unread = [] ∧ file.hungUp = true) ∧ file.recv length = (.ok [], file) ∨
    (file.unread = [] ∧ file.hungUp = false) ∧ file.recv length = (.error EAGAIN, file) ∨
    (length ≠ 0 ∧ file.unread ≠ []) ∧ file.recv length =
      (.ok (file.unread.take length), { file with unread := file.unread.drop length }) := by
  by_cases hLength : length = 0
  · exact .inl ⟨.inl hLength, if_pos hLength⟩
  · by_cases hUnread : file.unread = []
    · cases hHungUp : file.hungUp with
      | true =>
        refine .inl ⟨.inr ⟨hUnread, rfl⟩, ?_⟩
        simp only [recv, if_neg hLength, if_pos hUnread, hHungUp, if_true]
      | false =>
        refine .inr (.inl ⟨⟨hUnread, rfl⟩, ?_⟩)
        simp only [recv, if_neg hLength, if_pos hUnread, hHungUp, Bool.false_eq_true, if_false]
    · refine .inr (.inr ⟨⟨hLength, hUnread⟩, ?_⟩)
      simp only [recv, if_neg hLength, if_neg hUnread]

theorem send_cases (buf : List α) (file : Buffered α) :
    buf = [] ∧ file.send buf = (.ok 0, file) ∨
    file.capacity ≤ file.unsent.length ∧ file.send buf = (.error EAGAIN, file) ∨
    ∃ count, 0 < count ∧ count ≤ buf.length ∧ file.unsent.length + count ≤ file.capacity ∧
      file.send buf = (.ok count, { file with unsent := file.unsent ++ buf.take count }) := by
  by_cases hBuf : buf = []
  · exact .inl ⟨hBuf, if_pos hBuf⟩
  · have hPositive := List.length_pos_iff.mpr hBuf
    by_cases hFull : file.capacity ≤ file.unsent.length
    · refine .inr (.inl ⟨hFull, ?_⟩)
      simp only [send, if_neg hBuf, if_pos hFull]
    · refine .inr (.inr ⟨min (file.capacity - file.unsent.length) buf.length, ?_, ?_, ?_, ?_⟩)
      · omega
      · exact Nat.min_le_right ..
      · omega
      · simp only [send, if_neg hBuf, if_neg hFull]

theorem read_obeys (length : Nat) : (File.read length : Call (Buffered α) α (List α)).Obeys where
  ok file result hCall := by
    simp only [File.read, File.recv] at hCall ⊢
    obtain ⟨-, hRecv⟩ | ⟨-, hRecv⟩ | ⟨-, hRecv⟩ := recv_cases length file
    · rw [hRecv] at hCall ⊢
      cases hCall
      simp
    · rw [hRecv] at hCall
      cases hCall
    · rw [hRecv] at hCall ⊢
      cases hCall
      simp [File.unread, File.unsent]
  error file errno hCall := by
    simp only [File.read, File.recv] at hCall ⊢
    obtain ⟨-, hRecv⟩ | ⟨-, hRecv⟩ | ⟨-, hRecv⟩ := recv_cases length file
    · rw [hRecv] at hCall
      cases hCall
    · rw [hRecv]
      exact ⟨rfl, rfl⟩
    · rw [hRecv] at hCall
      cases hCall
  blocks file hCall := by
    refine File.read_meet_readiness ?_
    simp only [File.read, File.recv] at hCall
    obtain ⟨-, hRecv⟩ | ⟨⟨hUnread, hOpen⟩, -⟩ | ⟨-, hRecv⟩ := recv_cases length file
    · rw [hRecv] at hCall
      cases hCall
    · simp [File.readable, hUnread, hOpen]
    · rw [hRecv] at hCall
      cases hCall
  ended file hEnded := by
    simp only [File.read, File.recv]
    obtain ⟨-, hRecv⟩ | ⟨-, hRecv⟩ | ⟨-, hRecv⟩ := recv_cases length file
    all_goals
      rw [hRecv]
      exact hEnded

theorem next_obeys : (File.next : Call (Buffered α) α α).Obeys where
  ok file result hCall := by
    simp only [File.next, File.accept] at hCall ⊢
    cases hUnread : file.unread with
    | nil => simp [accept, hUnread] at hCall
    | cons connection unread =>
      simp only [accept, hUnread, Except.ok.injEq] at hCall ⊢
      subst hCall
      simp [File.unread, File.unsent, hUnread]
  error file errno hCall := by
    simp only [File.next, File.accept] at hCall ⊢
    cases hUnread : file.unread with
    | nil => simp [accept, hUnread]
    | cons connection unread => simp [accept, hUnread] at hCall
  blocks file hCall := by
    refine File.read_meet_readiness ?_
    simp only [File.next, File.accept] at hCall
    cases hUnread : file.unread with
    | nil =>
      cases hHungUp : file.hungUp with
      | true => simp [accept, hUnread, hHungUp, EINVAL, EAGAIN] at hCall
      | false => simp [File.readable, hUnread, hHungUp]
    | cons connection unread => simp [accept, hUnread] at hCall
  ended file hEnded := by
    simp only [File.next, File.accept, accept]
    split <;> exact hEnded

theorem write_obeys (buf : List α) : (File.write buf : Call (Buffered α) α Nat).Obeys where
  ok file result hCall := by
    simp only [File.write, File.send] at hCall ⊢
    obtain ⟨rfl, hSend⟩ | ⟨-, hSend⟩ | ⟨count, -, -, -, hSend⟩ := send_cases buf file
    · rw [hSend]
      simp
    · rw [hSend] at hCall
      cases hCall
    · rw [hSend] at hCall ⊢
      cases hCall
      exact ⟨rfl, rfl⟩
  error file errno hCall := by
    simp only [File.write, File.send] at hCall ⊢
    obtain ⟨-, hSend⟩ | ⟨-, hSend⟩ | ⟨count, -, -, -, hSend⟩ := send_cases buf file
    · rw [hSend] at hCall
      cases hCall
    · rw [hSend]
      exact ⟨rfl, rfl⟩
    · rw [hSend] at hCall
      cases hCall
  blocks file hCall := by
    refine File.write_meet_readiness ?_
    simp only [File.write, File.send] at hCall
    obtain ⟨-, hSend⟩ | ⟨hFull, -⟩ | ⟨count, -, -, -, hSend⟩ := send_cases buf file
    · rw [hSend] at hCall
      cases hCall
    · exact decide_eq_false (Nat.not_lt.mpr hFull)
    · rw [hSend] at hCall
      cases hCall
  ended file hEnded := by
    simp only [File.write, File.send]
    obtain ⟨-, hSend⟩ | ⟨-, hSend⟩ | ⟨count, -, -, -, hSend⟩ := send_cases buf file
    all_goals
      rw [hSend]
      exact hEnded

instance : LawfulFile (Buffered α) α where
  read := read_obeys
  next := next_obeys
  write := write_obeys
  recv_nil {length file} hLength hNil := by
    simp only [File.recv] at hNil
    obtain ⟨hEnd, -⟩ | ⟨-, hRecv⟩ | ⟨⟨-, hUnread⟩, hRecv⟩ := recv_cases length file
    · exact hEnd.resolve_left hLength
    · rw [hRecv] at hNil
      cases hNil
    · rw [hRecv, Except.ok.injEq, List.take_eq_nil_iff] at hNil
      exact absurd hNil (not_or.mpr ⟨hLength, hUnread⟩)
  send_ok {buf file count} hBuf hSent := by
    simp only [File.send] at hSent
    obtain ⟨hNone, -⟩ | ⟨-, hSend⟩ | ⟨some, hPositive, hBound, -, hSend⟩ := send_cases buf file
    · exact absurd hNone hBuf
    · rw [hSend] at hSent
      cases hSent
    · rw [hSend] at hSent
      cases hSent
      exact ⟨hPositive, hBound⟩
  readable_of_unread {file} hUnread := by
    have hSome : file.unread.isEmpty = false := List.isEmpty_eq_false_iff.mpr hUnread
    simp [File.readable, hSome]

end Buffered

namespace Edge

variable {s s' : Edge T τ}

omit [AsRawFd T] in
theorem ensureRegistered_ready (fd : RawFd) (addr : Addr) (waiter : Waiter τ)
    (interest : Interest) (r : Reactor EdgeKernel) :
    (ensureRegistered fd addr waiter interest r).2.2.epfd.ready = r.epfd.ready := by
  obtain ⟨-, hRun⟩ | ⟨-, -, hRun⟩ | ⟨-, -, hRun⟩ :=
    ensureRegistered_cases fd addr waiter interest r
  · rw [hRun]
  · rw [hRun]
    exact (r.epfd.epollCtl_elsewhere _).1
  · rw [hRun]
    exact (r.epfd.epollCtl_elsewhere _).1

/-- The thread does not change how ready a descriptor is. -/
theorem step_ready {act : Act T τ R} (hStep : s.step act = some s')
    (hThread : ∀ fd readable writable, act ≠ .become fd readable writable) :
    s'.kernel.ready = s.kernel.ready := by
  cases act with
  | new addr fcntl value =>
    obtain ⟨-, -, rfl | rfl⟩ := step_new hStep
    · rfl
    · rfl
  | take addr =>
    obtain ⟨-, this, -, rfl⟩ := step_take hStep
    have hElsewhere := this.deregister_elsewhere s.world.reactor
    rw [← Async.takeInner_reactor] at hElsewhere
    exact hElsewhere.1
  | drop addr =>
    obtain ⟨-, this, -, rfl⟩ := step_drop hStep
    exact (this.deregister_elsewhere s.world.reactor).1
  | poll addr waker interest f =>
    obtain ⟨this, -, hRun⟩ := Option.bind_eq_some_iff.mp (step_poll hStep).2
    split at hRun
    · cases hRun
      rfl
    · cases hRun
      rfl
  | register =>
    obtain ⟨addr, fd, interest, -, hRegister⟩ := step_register hStep
    obtain ⟨this, -, hRun⟩ := Option.bind_eq_some_iff.mp hRegister
    cases hRun
    exact ensureRegistered_ready fd addr this.waiter interest s.world.reactor
  | wait fds =>
    obtain ⟨-, -, rfl⟩ := step_wait hStep
    rfl
  | deliver =>
    obtain ⟨-, rfl⟩ | ⟨event, events, -, hDeliver⟩ := step_deliver hStep
    · rfl
    · obtain ⟨this, -, hRun⟩ := Option.bind_eq_some_iff.mp hDeliver
      cases hRun
      rfl
  | become fd readable writable => exact absurd rfl (hThread fd readable writable)

end Edge

namespace Traffic

variable [File φ α] {s s' : Traffic T τ φ α}

/-- Below, the assumption about descriptors, and what a peer can do; about the closures
nothing is assumed. -/
def Assumed (s : Traffic T τ φ α) : Act T τ φ α → Prop
  | .new _ _ value => ∀ addr, s.edge.world.held addr ≠ some (asRawFd value)
  | .reopen fd _ => ∀ addr, s.edge.world.held addr ≠ some fd
  | .change fd file arrived fetched _ => File.Changes (s.files fd) file arrived fetched
  | _ => True

omit [File φ α] in
theorem blocks_syscall {files : RawFd → φ} {call : Call φ α R} {value : T}
    (h : Closure.Blocks (syscall files call) value) :
    (call.run (files (asRawFd value))).1 = .error EAGAIN := by
  obtain ⟨e, hEnd, hKind⟩ := h
  simp only [syscall, Outcome.ret.injEq] at hEnd
  cases hCall : (call.run (files (asRawFd value))).1 with
  | ok result =>
    rw [hCall] at hEnd
    cases hEnd
  | error errno =>
    rw [hCall] at hEnd
    cases hEnd
    rw [decodeErrorKind_eq_wouldBlock_iff.mp hKind]

/-- What a poll with a system call can do. -/
theorem poll_cases {addr : Addr} {waker : Waker τ} {call : Call φ α R}
    {reported : Option (RawFd × Except Errno R)}
    (h : s.poll addr waker call = some (reported, s')) :
    ∃ this this' edge, s.edge.world.asyncs addr = some this ∧
      s.edge.step (.poll addr waker call.interest (syscall s.files call)) = some edge ∧
      edge.world.asyncs = Function.update s.edge.world.asyncs addr (some this') ∧
      ((this' = this ∧ reported = none ∧ s' = { s with edge } ∧
          (this.inner.isSome → call.interest.asEvents &&& this.waiter.waitingFor ≠ 0#32)) ∨
        ∃ inner, this.inner = some inner ∧ s' = Traffic.setFile { s with edge } (asRawFd inner)
            (call.run (s.files (asRawFd inner))).2 ∧
          ((this' = this.block waker call.interest ∧ reported = none ∧
              (call.run (s.files (asRawFd inner))).1 = .error EAGAIN) ∨
            (this' = this ∧
              reported = some (asRawFd inner, (call.run (s.files (asRawFd inner))).1)))) := by
  obtain ⟨this, hThis, hRun⟩ := Option.bind_eq_some_iff.mp h
  obtain ⟨edge, hStep, hRun⟩ := Option.bind_eq_some_iff.mp hRun
  have hAsyncs := Edge.poll_asyncs hThis (Edge.step_poll hStep).2
  refine ⟨this, _, edge, hThis, hStep, hAsyncs, ?_⟩
  cases hInner : this.inner with
  | none =>
    rw [Async.pollAttempt_taken hInner]
    simp only [hInner] at hRun
    cases hRun
    exact .inl ⟨rfl, rfl, rfl, by simp⟩
  | some inner =>
    -- a system call leaves the value as it is
    have hSame : { this with inner := some inner } = this := by rw [← hInner]
    obtain ⟨hSkip, hAttempt⟩ | ⟨-, hBlocks, hAttempt⟩ | ⟨-, -, hAttempt⟩ :=
      Async.pollAttempt_cases hInner waker call.interest (syscall s.files call)
    · simp only [hInner, hAttempt] at hRun
      rw [hAttempt]
      cases hRun
      exact .inl ⟨rfl, rfl, rfl, fun _ => hSkip⟩
    · simp only [hInner, hAttempt] at hRun
      rw [hAttempt]
      cases hRun
      refine .inr ⟨inner, rfl, rfl, .inl ⟨?_, rfl, blocks_syscall hBlocks⟩⟩
      exact congrArg (fun that => Async.block that waker call.interest) hSame
    · simp only [hInner, hAttempt] at hRun
      rw [hAttempt]
      cases hRun
      exact .inr ⟨inner, rfl, rfl, .inr ⟨hSame, rfl⟩⟩

omit [AsRawFd T] [File φ α] in
theorem booked_edge (call : Call φ α R)
    (polled : Option (RawFd × Except Errno R) × Traffic T τ φ α) :
    (booked call polled).edge = polled.2.edge := by
  obtain ⟨_ | ⟨fd, errno | result⟩, s⟩ := polled <;> rfl

omit [AsRawFd T] [File φ α] in
theorem booked_files (call : Call φ α R)
    (polled : Option (RawFd × Except Errno R) × Traffic T τ φ α) :
    (booked call polled).files = polled.2.files := by
  obtain ⟨_ | ⟨fd, errno | result⟩, s⟩ := polled <;> rfl

structure Accurate (s : Traffic T τ φ α) : Prop where
  safe : s.edge.Safe
  ready : ∀ fd, s.edge.kernel.ready fd = File.readiness (s.files fd)

theorem accurate_init (files : RawFd → φ) : (init files : Traffic T τ φ α).Accurate :=
  ⟨Edge.safe_init _, fun _ => rfl⟩

namespace Accurate

theorem setFile (h : s.Accurate) (fd : RawFd) (file : φ) : (s.setFile fd file).Accurate where
  safe := h.safe.become fd (File.readiness file)
  ready fd' := by
    obtain rfl | hFd := eq_or_ne fd' fd
    · simp [Traffic.setFile, Edge.kernel, Edge.withKernel, EdgeKernel.become]
    · simpa [Traffic.setFile, Edge.kernel, Edge.withKernel, EdgeKernel.become, hFd]
        using h.ready fd'

theorem notify (h : s.Accurate) (fd : RawFd) (again : Bool) : (s.notify fd again).Accurate := by
  cases again with
  | false => exact h
  | true => exact ⟨h.safe.notify fd, h.ready⟩

theorem book (h : s.Accurate) (fd : RawFd) (entry : Account α → Account α) :
    (s.book fd entry).Accurate :=
  ⟨h.safe, h.ready⟩

theorem edge (h : s.Accurate) {act : Edge.Act T τ R} {edge : Edge T τ}
    (hStep : s.edge.step act = some edge) (hAssumed : s.edge.Assumed act)
    (hReady : edge.kernel.ready = s.edge.kernel.ready) : Accurate { s with edge } where
  safe := h.safe.step hAssumed hStep
  ready fd := by
    rw [hReady]
    exact h.ready fd

theorem assumed_poll (h : s.Accurate) {call : Call φ α R} (hObeys : call.Obeys) (addr : Addr)
    (waker : Waker τ) :
    s.edge.Assumed (.poll addr waker call.interest (syscall s.files call)) := by
  intro this inner _ _
  refine ⟨rfl, fun hBlocked => ?_⟩
  rw [h.ready]
  exact hObeys.blocks _ (blocks_syscall hBlocked)

theorem poll (h : s.Accurate) {addr : Addr} {waker : Waker τ} {call : Call φ α R}
    (hObeys : call.Obeys) {reported : Option (RawFd × Except Errno R)}
    (hPoll : s.poll addr waker call = some (reported, s')) : s'.Accurate := by
  obtain ⟨this, this', edge, -, hStep, -, hCases⟩ := poll_cases hPoll
  have hEdge := h.edge hStep (h.assumed_poll hObeys addr waker) (Edge.step_ready hStep (by simp))
  obtain ⟨-, -, rfl, -⟩ | ⟨inner, -, rfl, -⟩ := hCases
  · exact hEdge
  · exact hEdge.setFile (asRawFd inner) _

theorem polled (h : s.Accurate) {addr : Addr} {waker : Waker τ} {call : Call φ α R}
    (hObeys : call.Obeys) (hPolled : s.polled addr waker call = some s') : s'.Accurate := by
  obtain ⟨⟨reported, s''⟩, hHalf, rfl⟩ := Option.map_eq_some_iff.mp hPolled
  have hAfter := h.poll hObeys hHalf
  constructor
  · rw [booked_edge]
    exact hAfter.safe
  · rw [booked_edge, booked_files]
    exact hAfter.ready

theorem below (h : s.Accurate) {act : Edge.Act T τ Unit} (hBelow : s.below act = some s')
    (hAssumed : s.edge.Assumed act)
    (hThread : ∀ fd readable writable, act ≠ .become fd readable writable) : s'.Accurate := by
  obtain ⟨edge, hStep, rfl⟩ := Option.map_eq_some_iff.mp hBelow
  exact h.edge hStep hAssumed (Edge.step_ready hStep hThread)

end Accurate

def Balanced (s : Traffic T τ φ α) : Prop := ∀ fd, File.Balances (s.files fd) (s.accounts fd)

omit [AsRawFd T] in
theorem balanced_init (files : RawFd → φ) : (init files : Traffic T τ φ α).Balanced :=
  fun fd => File.balances_new (files fd)

namespace Balanced

omit [AsRawFd T] in
/-- One file with its account. -/
theorem update (h : s.Balanced) (fd : RawFd)
    (hFiles : ∀ fd', fd' ≠ fd → s'.files fd' = s.files fd' ∧ s'.accounts fd' = s.accounts fd')
    (hBalances : File.Balances (s'.files fd) (s'.accounts fd)) : s'.Balanced := by
  intro fd'
  obtain rfl | hFd := eq_or_ne fd' fd
  · exact hBalances
  · obtain ⟨hFile, hAccount⟩ := hFiles fd' hFd
    rw [hFile, hAccount]
    exact h fd'

theorem polled (h : s.Balanced) {addr : Addr} {waker : Waker τ} {call : Call φ α R}
    (hObeys : call.Obeys) (hPolled : s.polled addr waker call = some s') : s'.Balanced := by
  obtain ⟨⟨reported, s''⟩, hHalf, rfl⟩ := Option.map_eq_some_iff.mp hPolled
  obtain ⟨this, this', edge, -, -, -, hCases⟩ := poll_cases hHalf
  obtain ⟨-, rfl, rfl, -⟩ | ⟨inner, -, rfl, hReported⟩ := hCases
  · exact h
  · have hOther : ∀ fd', fd' ≠ asRawFd inner →
        (Traffic.setFile { s with edge } (asRawFd inner)
          (call.run (s.files (asRawFd inner))).2).files fd' = s.files fd' :=
      fun fd' hFd => Function.update_of_ne hFd ..
    obtain ⟨-, rfl, hBlocked⟩ | ⟨-, rfl⟩ := hReported
    · refine h.update (asRawFd inner) (fun fd' hFd => ⟨hOther fd' hFd, rfl⟩) ?_
      simpa [booked, Traffic.setFile] using (h (asRawFd inner)).error hObeys hBlocked
    · cases hCall : (call.run (s.files (asRawFd inner))).1 with
      | error errno =>
        refine h.update (asRawFd inner) (fun fd' hFd => ⟨hOther fd' hFd, rfl⟩) ?_
        simpa [booked, Traffic.setFile] using (h (asRawFd inner)).error hObeys hCall
      | ok result =>
        refine h.update (asRawFd inner)
          (fun fd' hFd => ⟨hOther fd' hFd, Function.update_of_ne hFd ..⟩) ?_
        simpa [booked, book, Traffic.setFile] using (h (asRawFd inner)).ok hObeys hCall

theorem below (h : s.Balanced) {act : Edge.Act T τ Unit} (hBelow : s.below act = some s') :
    s'.Balanced := by
  obtain ⟨edge, -, rfl⟩ := Option.map_eq_some_iff.mp hBelow
  exact h

end Balanced

omit [AsRawFd T] [File φ α] in
@[simp] theorem notify_files (s : Traffic T τ φ α) (fd : RawFd) (again : Bool) :
    (s.notify fd again).files = s.files := by
  cases again <;> rfl

omit [AsRawFd T] [File φ α] in
@[simp] theorem notify_accounts (s : Traffic T τ φ α) (fd : RawFd) (again : Bool) :
    (s.notify fd again).accounts = s.accounts := by
  cases again <;> rfl

structure Sound (s : Traffic T τ φ α) : Prop where
  accurate : s.Accurate
  balanced : s.Balanced

namespace Sound

theorem polled (h : s.Sound) {addr : Addr} {waker : Waker τ} {call : Call φ α R}
    (hObeys : call.Obeys) (hPolled : s.polled addr waker call = some s') : s'.Sound :=
  ⟨h.accurate.polled hObeys hPolled, h.balanced.polled hObeys hPolled⟩

theorem below (h : s.Sound) {act : Edge.Act T τ Unit} (hBelow : s.below act = some s')
    (hAssumed : s.edge.Assumed act)
    (hThread : ∀ fd readable writable, act ≠ .become fd readable writable) : s'.Sound :=
  ⟨h.accurate.below hBelow hAssumed hThread, h.balanced.below hBelow⟩

theorem reopen (h : s.Sound) (fd : RawFd) (file : φ) :
    ((s.setFile fd file).book fd fun _ => .new file).Sound where
  accurate := (h.accurate.setFile fd file).book fd _
  balanced := by
    refine h.balanced.update fd (fun fd' hFd => ?_) ?_
    · exact ⟨Function.update_of_ne hFd .., Function.update_of_ne hFd ..⟩
    · simpa [book, setFile] using File.balances_new file

theorem change (h : s.Sound) {fd : RawFd} {file : φ} {arrived fetched : List α} (again : Bool)
    (hChanges : File.Changes (s.files fd) file arrived fetched) :
    (((s.setFile fd file).notify fd again).book fd
      fun account => account.change arrived fetched).Sound where
  accurate := ((h.accurate.setFile fd file).notify fd again).book fd _
  balanced := by
    refine h.balanced.update fd (fun fd' hFd => ?_) ?_
    · simp [book, setFile, hFd]
    · simpa [book, setFile] using (h.balanced fd).change hChanges

variable [LawfulFile φ α]

theorem step (h : s.Sound) {act : Act T τ φ α} (hAssumed : s.Assumed act)
    (hStep : s.step act = some s') : s'.Sound := by
  cases act with
  | new addr fcntl value => exact h.below hStep hAssumed (by simp)
  | take addr => exact h.below hStep trivial (by simp)
  | drop addr => exact h.below hStep trivial (by simp)
  | read addr waker length => exact h.polled (LawfulFile.read length) hStep
  | accept addr waker => exact h.polled LawfulFile.next hStep
  | write addr waker buf => exact h.polled (LawfulFile.write buf) hStep
  | register => exact h.below hStep trivial (by simp)
  | wait fds => exact h.below hStep trivial (by simp)
  | deliver => exact h.below hStep trivial (by simp)
  | reopen fd file =>
    cases hStep
    exact h.reopen fd file
  | change fd file arrived fetched again =>
    cases hStep
    exact h.change again hAssumed

/-- A read into some space reports no items only at the end of the stream. -/
theorem at_end (h : s.Sound) {addr : Addr} {waker : Waker τ} {length : Nat} {fd : RawFd}
    (hLength : length ≠ 0)
    (hPoll : s.poll addr waker (File.read length) = some (some (fd, .ok []), s')) :
    File.ended (s.files fd) ∧ (s.accounts fd).received = (s.accounts fd).arrived := by
  obtain ⟨this, this', edge, -, -, -, ⟨-, ⟨⟩, -⟩ | ⟨inner, -, -, hReported⟩⟩ := poll_cases hPoll
  obtain ⟨-, ⟨⟩, -⟩ | ⟨-, hReported⟩ := hReported
  simp only [Option.some.injEq, Prod.mk.injEq] at hReported
  obtain ⟨rfl, hReported⟩ := hReported
  obtain ⟨hEmpty, hEnded⟩ := LawfulFile.recv_nil hLength hReported.symm
  have hIncoming := (h.balanced (asRawFd inner)).incoming
  rw [hEmpty, List.append_nil] at hIncoming
  exact ⟨hEnded, hIncoming⟩

omit [LawfulFile φ α] in
theorem queued (h : s.Sound) (hIdle : s.edge.phase = .idle) {addr : Addr} {this : Async T τ}
    {inner : T} {b : Nat} (hThis : s.edge.world.asyncs addr = some this)
    (hInner : this.inner = some inner) (hWaits : Has this.waiter.waitingFor b)
    (hReady : Has (File.readiness (s.files (asRawFd inner))) b) :
    s.edge.kernel.queued (asRawFd inner) = true := by
  have hSafe := h.accurate.safe
  have hCovering := hSafe.covering addr this hThis (by simp [hInner]) b hWaits
  have hAlert := hSafe.alert addr this hThis inner b hInner hWaits
  rw [hIdle] at hCovering hAlert
  rw [h.accurate.ready] at hAlert
  exact (hAlert (hCovering.resolve_right id) hReady).resolve_right id

end Sound

variable [LawfulFile φ α]

theorem sound_of_run {files : RawFd → φ} {acts : List (Act T τ φ α)}
    (hAssumed : Meets step Assumed (init files) acts)
    (hRun : run step (init files) acts = some s) : s.Sound :=
  invariant_of_meets (I := Sound)
    (fun _ _ _ h hOk hStep => h.step hOk hStep)
    ⟨accurate_init files, balanced_init files⟩ hAssumed hRun

/-- In every run, whatever the peers do in between, polls report everything that has
come in its order and once: what they have reported and what is left make it up, and so
for what they have written. The end of a stream is reported when nothing is left. What
an `Async` waits for between the operations is queued as soon as its file is ready. -/
theorem delivered_in_order {files : RawFd → φ} {acts : List (Act T τ φ α)}
    (hAssumed : Meets step Assumed (init files) acts)
    (hRun : run step (init files) acts = some s) :
    (∀ fd, File.Balances (s.files fd) (s.accounts fd)) ∧
    (∀ addr waker length fd s', length ≠ 0 →
      s.poll addr waker (File.read length) = some (some (fd, .ok []), s') →
        File.ended (s.files fd) ∧ (s.accounts fd).received = (s.accounts fd).arrived) ∧
    (s.edge.phase = .idle → ∀ addr this inner, s.edge.world.asyncs addr = some this →
      this.inner = some inner →
        (Has this.waiter.waitingFor 0 → File.readable (s.files (asRawFd inner)) = true →
          s.edge.kernel.queued (asRawFd inner) = true) ∧
        (Has this.waiter.waitingFor 2 → File.writable (s.files (asRawFd inner)) = true →
          s.edge.kernel.queued (asRawFd inner) = true)) := by
  have hSound := sound_of_run hAssumed hRun
  refine ⟨hSound.balanced, ?_, ?_⟩
  · intro addr waker length fd s' hLength hPoll
    exact hSound.at_end hLength hPoll
  · intro hIdle addr this inner hThis hInner
    constructor
    · intro hWaits hReadable
      exact hSound.queued hIdle hThis hInner hWaits (has_directions_read.mpr hReadable)
    · intro hWaits hWritable
      exact hSound.queued hIdle hThis hInner hWaits (has_directions_write.mpr hWritable)

theorem delivered_in_order_before_registering :
    let fcntl : Fcntl := ⟨fun _ => .ok 0#32, fun _ _ => .ok ()⟩
    let file (unread : List Nat) : Buffered Nat := ⟨unread, false, [], 4⟩
    let acts : List (Act RawFd Nat (Buffered Nat) Nat) :=
      [.new 0 fcntl 3, .read 0 (.task 1) 8, .change 3 (file [5, 6]) [5, 6] [] false, .register,
        .wait [3], .deliver, .deliver, .read 0 (.task 1) 1]
    ∃ s : Traffic RawFd Nat (Buffered Nat) Nat, run step (init fun _ => file []) acts = some s ∧
      (s.accounts 3).received = [5] ∧ [5] ++ (s.files 3).unread = [5, 6] := by
  intro fcntl file acts
  let s : Traffic RawFd Nat (Buffered Nat) Nat :=
    (run step (init fun _ => file []) acts).get (by decide)
  have hRun : run step (init fun _ => file []) acts = some s := (Option.some_get _).symm
  have hAssumed : Meets step Assumed
      (init fun _ => file [] : Traffic RawFd Nat (Buffered Nat) Nat) acts := by
    refine .cons (by simp [Assumed, World.held, init, Edge.init, World.init]) rfl ?_
    refine .cons trivial rfl (.cons ⟨rfl, rfl, by rintro ⟨⟩⟩ rfl ?_)
    exact ⟨trivial, fun _ _ => ⟨trivial, fun _ _ => ⟨trivial, fun _ _ => ⟨trivial, fun _ _ =>
      ⟨trivial, fun _ _ => trivial⟩⟩⟩⟩⟩
  have hReceived : (s.accounts 3).received = [5] := by decide
  have hArrived : (s.accounts 3).arrived = [5, 6] := by decide
  have hIncoming := ((delivered_in_order hAssumed hRun).1 3).incoming
  rw [hReceived, hArrived] at hIncoming
  exact ⟨s, hRun, hReceived, hIncoming⟩

end Traffic

end Ground
