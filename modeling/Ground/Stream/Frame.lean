import Ground.Stream.Delivered

/-! # What passes an `Async` by

Whatever is done to other `Async`s, by the reactor and by the peers, the value of an
`Async` stays, its waker too, and what polls have reported of its descriptor. Only
a delivery that wakes its waker takes away what it waits for.
-/

namespace Ground

open Mask Transition

variable {T τ φ α R : Type} [AsRawFd T]

namespace Edge

variable {s s' : Edge T τ}

/-- The wakers that the next delivery wakes. -/
def woken (s : Edge T τ) : List τ :=
  match s.phase with
  | .dispatching (event :: _) =>
    ((s.world.asyncs event.data).map fun this => (Reactor.deliver event this.waiter).2).getD []
  | _ => []

end Edge

/-- From one `Async` to the next, when these wakers are woken. -/
structure Async.Follows (this this' : Async T τ) (woken : List τ) : Prop where
  inner : this'.inner = this.inner
  waker : this'.waiter.waker = this.waiter.waker
  waits : this'.waiter.waitingFor = this.waiter.waitingFor ∨
    Within this'.waiter.waitingFor this.waiter.waitingFor ∧ this.waiter.waker.wakeByRef ⊆ woken

omit [AsRawFd T] in
theorem Async.Follows.refl (this : Async T τ) (woken : List τ) : this.Follows this woken :=
  ⟨rfl, rfl, .inl rfl⟩

namespace Edge

variable {s s' : Edge T τ}

theorem register_follows {addr : Addr} {this : Async T τ}
    (hStep : s.step (.register : Act T τ R) = some s') (hThis : s.world.asyncs addr = some this) :
    ∃ this', s'.world.asyncs addr = some this' ∧ this.Follows this' [] := by
  obtain ⟨addr', fd, interest, -, hRegister⟩ := step_register hStep
  obtain ⟨that, registerFor, hThat, hAsyncs⟩ := register_asyncs hRegister
  rw [hAsyncs]
  obtain rfl | hAddr := eq_or_ne addr addr'
  · obtain rfl := Option.some.inj (hThis.symm.trans hThat)
    exact ⟨_, Function.update_self .., rfl, rfl, .inl rfl⟩
  · exact ⟨this, (Function.update_of_ne hAddr ..).trans hThis, .refl this []⟩

theorem deliver_follows {addr : Addr} {this : Async T τ}
    (hStep : s.step (.deliver : Act T τ R) = some s') (hThis : s.world.asyncs addr = some this) :
    ∃ this', s'.world.asyncs addr = some this' ∧ this.Follows this' s.woken := by
  obtain ⟨-, rfl⟩ | ⟨event, events, hPhase, hDeliver⟩ := step_deliver hStep
  · exact ⟨this, hThis, .refl this _⟩
  · obtain ⟨that, hThat, hRun⟩ := Option.bind_eq_some_iff.mp hDeliver
    cases hRun
    obtain rfl | hAddr := eq_or_ne addr event.data
    · obtain rfl := Option.some.inj (hThis.symm.trans hThat)
      refine ⟨_, Function.update_self .., rfl, rfl, .inr ⟨within_andNot, ?_⟩⟩
      simp only [woken, hPhase, hThis, Option.map_some, Option.getD_some]
      exact List.Subset.refl _
    · exact ⟨this, (Function.update_of_ne hAddr ..).trans hThis, .refl this _⟩

end Edge

namespace Traffic

variable [File φ α] {s s' : Traffic T τ φ α}

/-- The `Async` that the step is about, if it is about one. -/
def Act.target : Act T τ φ α → Option Addr
  | .new addr _ _ | .take addr | .drop addr => some addr
  | .read addr _ _ | .accept addr _ | .write addr _ _ => some addr
  | _ => none

def woken (s : Traffic T τ φ α) : Act T τ φ α → List τ
  | .deliver => s.edge.woken
  | _ => []

structure Spares (s s' : Traffic T τ φ α) (fd : RawFd) : Prop where
  received : (s'.accounts fd).received = (s.accounts fd).received
  accepted : (s'.accounts fd).accepted = (s.accounts fd).accepted
  ended : File.ended (s.files fd) → File.unread (s.files fd) = [] →
    File.ended (s'.files fd) ∧ File.unread (s'.files fd) = []

omit [AsRawFd T] in
theorem Spares.of_eq {fd : RawFd} (hFile : s'.files fd = s.files fd)
    (hAccount : s'.accounts fd = s.accounts fd) : s.Spares s' fd where
  received := by rw [hAccount]
  accepted := by rw [hAccount]
  ended hEnded hUnread := by
    rw [hFile]
    exact ⟨hEnded, hUnread⟩

omit [AsRawFd T] in
theorem Spares.of_change {fd : RawFd} (fd' : RawFd) (hFile : fd ≠ fd' → s'.files fd = s.files fd)
    (hAccount : fd ≠ fd' → s'.accounts fd = s.accounts fd) (h : s.Spares s' fd') :
    s.Spares s' fd := by
  obtain rfl | hFd := eq_or_ne fd fd'
  · exact h
  · exact .of_eq (hFile hFd) (hAccount hFd)

theorem poll_elsewhere (h : s.Accurate) {addr addr' : Addr} {this : Async T τ} {inner : T}
    (hThis : s.edge.world.asyncs addr = some this) (hInner : this.inner = some inner)
    (hAddr : addr ≠ addr') {waker : Waker τ} {call : Call φ α R}
    (hPolled : s.polled addr' waker call = some s') :
    s'.edge.world.asyncs addr = some this ∧ s.Spares s' (asRawFd inner) := by
  obtain ⟨⟨reported, s''⟩, hHalf, rfl⟩ := Option.map_eq_some_iff.mp hPolled
  obtain ⟨that, that', edge, hThat, -, hAsyncs, hCases⟩ := poll_cases hHalf
  have hSame : edge.world.asyncs addr = some this := by
    rw [hAsyncs, Function.update_of_ne hAddr, hThis]
  obtain ⟨-, rfl, rfl, -⟩ | ⟨inner', hInner', rfl, hReported⟩ := hCases
  · exact ⟨hSame, .of_eq rfl rfl⟩
  · have hFd : asRawFd inner ≠ asRawFd inner' := by
      intro hFd
      refine hAddr (h.safe.distinct addr addr' (asRawFd inner) ?_ ?_)
      · simp [World.held_of_asyncs hThis, Async.heldFd, hInner]
      · simp [World.held_of_asyncs hThat, Async.heldFd, hInner', hFd]
    obtain ⟨-, rfl, -⟩ | ⟨-, rfl⟩ := hReported
    · refine ⟨hSame, .of_eq ?_ rfl⟩
      simp [booked, setFile, hFd]
    · cases (call.run (s.files (asRawFd inner'))).1 with
      | error errno =>
        refine ⟨hSame, .of_eq ?_ rfl⟩
        simp [booked, setFile, hFd]
      | ok result =>
        refine ⟨hSame, .of_eq ?_ ?_⟩
        · simp [booked, book, setFile, hFd]
        · simp [booked, book, setFile, hFd]

theorem step_elsewhere (h : s.Accurate) {act : Act T τ φ α} (hAssumed : s.Assumed act)
    (hStep : s.step act = some s') {addr : Addr} {this : Async T τ} {inner : T}
    (hThis : s.edge.world.asyncs addr = some this) (hInner : this.inner = some inner)
    (hOther : act.target ≠ some addr) :
    ∃ this', s'.edge.world.asyncs addr = some this' ∧ this.Follows this' (s.woken act) ∧
      s.Spares s' (asRawFd inner) := by
  have hPolled : ∀ {R : Type} {addr' : Addr} {waker : Waker τ} {call : Call φ α R},
      addr ≠ addr' → s.polled addr' waker call = some s' →
      ∃ this', s'.edge.world.asyncs addr = some this' ∧ this.Follows this' (s.woken act) ∧
        s.Spares s' (asRawFd inner) := by
    intro R addr' waker call hAddr hPoll
    obtain ⟨hSame, hSpares⟩ := poll_elsewhere h hThis hInner hAddr hPoll
    exact ⟨this, hSame, .refl this _, hSpares⟩
  cases act with
  | new addr' fcntl value =>
    obtain ⟨edge, hBelow, rfl⟩ := Option.map_eq_some_iff.mp hStep
    exact ⟨this, Edge.new_asyncs hBelow hThis, .refl this _, .of_eq rfl rfl⟩
  | take addr' =>
    obtain ⟨edge, hBelow, rfl⟩ := Option.map_eq_some_iff.mp hStep
    have hSame := Edge.take_asyncs (fun hAddr => hOther (congrArg some hAddr.symm)) hBelow
    exact ⟨this, hSame.trans hThis, .refl this _, .of_eq rfl rfl⟩
  | drop addr' =>
    obtain ⟨edge, hBelow, rfl⟩ := Option.map_eq_some_iff.mp hStep
    have hSame := Edge.drop_asyncs (fun hAddr => hOther (congrArg some hAddr.symm)) hBelow
    exact ⟨this, hSame.trans hThis, .refl this _, .of_eq rfl rfl⟩
  | read addr' waker length =>
    exact hPolled (fun hAddr => hOther (congrArg some hAddr.symm)) hStep
  | accept addr' waker => exact hPolled (fun hAddr => hOther (congrArg some hAddr.symm)) hStep
  | write addr' waker buf => exact hPolled (fun hAddr => hOther (congrArg some hAddr.symm)) hStep
  | register =>
    obtain ⟨edge, hBelow, rfl⟩ := Option.map_eq_some_iff.mp hStep
    obtain ⟨this', hThis', hFollows⟩ := Edge.register_follows hBelow hThis
    exact ⟨this', hThis', hFollows, .of_eq rfl rfl⟩
  | wait fds =>
    obtain ⟨edge, hBelow, rfl⟩ := Option.map_eq_some_iff.mp hStep
    obtain ⟨-, -, rfl⟩ := Edge.step_wait hBelow
    exact ⟨this, hThis, .refl this _, .of_eq rfl rfl⟩
  | deliver =>
    obtain ⟨edge, hBelow, rfl⟩ := Option.map_eq_some_iff.mp hStep
    obtain ⟨this', hThis', hFollows⟩ := Edge.deliver_follows hBelow hThis
    exact ⟨this', hThis', hFollows, .of_eq rfl rfl⟩
  | reopen fd file =>
    cases hStep
    have hFd : asRawFd inner ≠ fd := by
      rintro rfl
      refine hAssumed addr ?_
      simp [World.held_of_asyncs hThis, Async.heldFd, hInner]
    refine ⟨this, hThis, .refl this _, .of_eq ?_ ?_⟩
    · simp [book, setFile, hFd]
    · simp [book, setFile, hFd]
  | change fd file arrived fetched again =>
    cases hStep
    refine ⟨this, ?_, .refl this _, .of_change fd ?_ ?_ ⟨?_, ?_, ?_⟩⟩
    · cases again <;> exact hThis
    · exact fun hFd => by simp [book, setFile, hFd]
    · exact fun hFd => by simp [book, setFile, hFd]
    · simp [book, setFile, Account.change]
    · simp [book, setFile, Account.change]
    · intro hEnded hUnread
      obtain ⟨hStays, rfl⟩ := hAssumed.ended hEnded
      have hSame : File.unread file = [] := by
        rw [hAssumed.unread, hUnread, List.append_nil]
      simpa [book, setFile] using And.intro hStays hSame

end Traffic

end Ground
