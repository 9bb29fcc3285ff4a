import Ground.Executor.Awake

/-! # When the loop sleeps

The loop enters `epoll_wait` only with every pending future blocked. If one of
them has become ready meanwhile, `epoll_wait` returns at once, and a dispatch
that takes its descriptor makes its task run.
-/

namespace Ground

open Mask Transition

variable {T O R π χ : Type} [AsRawFd T] [LocalPool π] [Oneshot χ O]

namespace Executor

variable {s s' : Executor T O π χ}

def Asleep (s : Executor T O π χ) : Prop := s.progress = .dispatching ∧ s.edge.phase = .idle

/-- The rest of a dispatch, from the events that are left to its return. -/
structure Delivered (events : List EpollEvent) (s s' : Executor T O π χ) : Prop where
  progress : s'.progress = .polling
  futures : s'.futures = s.futures
  woken : ∀ t ∈ LocalPool.woken s.pool, t ∈ LocalPool.woken s'.pool
  asyncs : ∀ addr this, s.edge.world.asyncs addr = some this → ∃ waiter,
    s'.edge.world.asyncs addr = some { this with waiter } ∧
      Within waiter.waitingFor this.waiter.waitingFor ∧
      ∀ event ∈ events, event.data = addr → waiter.waitingFor &&& event.events = 0#32 ∧
        ∀ t, this.waiter.waker = .task t → t ∈ LocalPool.tasks s.pool →
          t ∈ LocalPool.woken s'.pool

theorem delivered_nil (hPhase : s.edge.phase = .dispatching [])
    (hProgress : s.progress = .dispatching) (hCurrent : LocalPool.current s.pool = none) :
    ∃ s', s.step (.deliver : Act T O R) = some s' ∧ Delivered [] s s' := by
  refine ⟨{ s with edge := s.edge.finish, progress := .polling }, ?_, rfl, rfl, fun _ => id, ?_⟩
  · simp only [step, hPhase, hProgress, hCurrent]
  · exact fun addr this hThis => ⟨this.waiter, hThis, within_refl _, by simp⟩

def afterEvent (s : Executor T O π χ) (event : EpollEvent) (events : List EpollEvent)
    (this : Async T TaskId) : Executor T O π χ :=
  let that := { this with waiter := (Reactor.deliver event this.waiter).1 }
  { s with
    edge :=
      { world := s.edge.world.set event.data that s.edge.world.reactor
        phase := .dispatching events }
    pool := this.waiter.waker.wakeByRef.foldl LocalPool.wake s.pool }

theorem step_deliver {event : EpollEvent} {events : List EpollEvent} {this : Async T TaskId}
    (hPhase : s.edge.phase = .dispatching (event :: events))
    (hProgress : s.progress = .dispatching) (hCurrent : LocalPool.current s.pool = none)
    (hThis : s.edge.world.asyncs event.data = some this) :
    s.step (.deliver : Act T O R) = some (s.afterEvent event events this) := by
  simp only [step, hPhase, hProgress, hCurrent, deliver, Edge.step, Edge.deliver, hThis,
    Option.bind_eq_bind, Option.bind_some]
  rw [← hProgress]
  rfl

variable [LawfulLocalPool π]

omit [AsRawFd T] [Oneshot χ O] in
theorem Delivered.cons {event : EpollEvent} {events : List EpollEvent} {this : Async T TaskId}
    (hThis : s.edge.world.asyncs event.data = some this)
    (h : Delivered events (s.afterEvent event events this) s') :
    Delivered (event :: events) s s' where
  progress := h.progress
  futures := h.futures
  woken t hWoken := by
    refine h.woken t ?_
    cases hWaker : this.waiter.waker with
    | noop =>
      simp only [afterEvent, hWaker]
      exact hWoken
    | task t' =>
      simp only [afterEvent, hWaker]
      exact LawfulLocalPool.mem_woken_wake.mpr (.inl hWoken)
  asyncs addr that hThat := by
    have hTasks : ∀ t, t ∈ LocalPool.tasks s.pool →
        t ∈ LocalPool.tasks (s.afterEvent event events this).pool := by
      intro t hTask
      cases hWaker : this.waiter.waker with
      | noop =>
        simp only [afterEvent, hWaker]
        exact hTask
      | task t' =>
        simp only [afterEvent, hWaker]
        exact LawfulLocalPool.mem_tasks_wake.mpr hTask
    obtain rfl | hAddr := eq_or_ne addr event.data
    · obtain rfl := Option.some.inj (hThis.symm.trans hThat)
      obtain ⟨waiter, hAfter, hWithin, hEach⟩ := h.asyncs event.data _ (Function.update_self ..)
      refine ⟨waiter, hAfter, hWithin.trans within_andNot, fun event' hMem hData => ?_⟩
      obtain rfl | hMem := List.mem_cons.mp hMem
      · refine ⟨meet_eq_zero_iff.mpr fun b hWaits => (has_and_not.mp (hWithin.has hWaits)).2,
          fun t hWaker hTask => h.woken t ?_⟩
        exact LocalPool.mem_wakeByRef hWaker hTask
      · obtain ⟨hMeet, hWakes⟩ := hEach event' hMem hData
        exact ⟨hMeet, fun t hWaker hTask => hWakes t hWaker (hTasks t hTask)⟩
    · have hThat' : (s.afterEvent event events this).edge.world.asyncs addr = some that :=
        (Function.update_of_ne hAddr ..).trans hThat
      obtain ⟨waiter, hAfter, hWithin, hEach⟩ := h.asyncs addr that hThat'
      refine ⟨waiter, hAfter, hWithin, fun event' hMem hData => ?_⟩
      obtain rfl | hMem := List.mem_cons.mp hMem
      · exact absurd hData.symm hAddr
      · obtain ⟨hMeet, hWakes⟩ := hEach event' hMem hData
        exact ⟨hMeet, fun t hWaker hTask => hWakes t hWaker (hTasks t hTask)⟩

theorem run_deliver {events : List EpollEvent} (h : s.Awake)
    (hPhase : s.edge.phase = .dispatching events) (hProgress : s.progress = .dispatching) :
    ∃ s', run step s (List.replicate (events.length + 1) (.deliver : Act T O R)) = some s' ∧
      Delivered events s s' := by
  induction events generalizing s with
  | nil =>
    obtain ⟨s', hStep, hDelivered⟩ :=
      delivered_nil (R := R) hPhase hProgress (h.asleep hProgress).1
    exact ⟨s', run_cons_eq_some.mpr ⟨s', hStep, rfl⟩, hDelivered⟩
  | cons event events ih =>
    have hSteady := h.safe.steady
    rw [Edge.Steady, hPhase] at hSteady
    obtain ⟨this, hThis⟩ := Option.isSome_iff_exists.mp (hSteady.2 event List.mem_cons_self)
    have hStep := step_deliver (R := R) hPhase hProgress (h.asleep hProgress).1 hThis
    have hAssumed : s.Assumed (.deliver : Act T O R) := trivial
    obtain ⟨s', hRun, hDelivered⟩ := ih (h.step hAssumed hStep) rfl hProgress
    refine ⟨s', ?_, hDelivered.cons hThis⟩
    rw [List.length_cons, List.replicate_succ]
    exact run_cons_eq_some.mpr ⟨_, hStep, hRun⟩

omit [LawfulLocalPool π] in
theorem step_wait (hAsleep : s.Asleep) (hCurrent : LocalPool.current s.pool = none)
    {fds : List RawFd} (hTakes : s.edge.kernel.Takes fds Reactor.eventBuffer)
    (hSome : (s.edge.kernel.wait fds).1 ≠ []) :
    ∃ edge, s.step (.wait (.ok fds) : Act T O R) = some { s with edge } ∧
      edge.phase = .dispatching (s.edge.kernel.wait fds).1 ∧
      edge.world.asyncs = s.edge.world.asyncs := by
  obtain ⟨hProgress, hIdle⟩ := hAsleep
  let edge : Edge T TaskId :=
    { world :=
        { s.edge.world with
          reactor := { epfd := (s.edge.kernel.wait fds).2, isDispatching := true } }
      phase := .dispatching (s.edge.kernel.wait fds).1 }
  refine ⟨edge, ?_, rfl, rfl⟩
  simp only [step, hProgress, hIdle, hCurrent, wait, if_neg hSome, within, Edge.step, Edge.wait,
    if_pos hTakes, Option.map_some, edge]

/-- Before every `epoll_wait` a pending future waits with the waker of its own
task. If `epoll_wait` then blocks, nothing that a future waits for is ready;
otherwise a dispatch that takes the descriptor of a ready one ends its waiting
and wakes its task. -/
theorem sleeps_only_blocked {ready : RawFd → Events} {acts : List (Act T O R)}
    (hAssumed : Meets step Assumed (init ready : Executor T O π χ) acts)
    (hRun : run step (init ready) acts = some s) (hAsleep : s.Asleep) {addr : Addr} {t : TaskId}
    {interest : Interest} (hFuture : s.futures addr = some (t, interest)) :
    ∃ this inner, s.edge.world.asyncs addr = some this ∧ this.inner = some inner ∧
      this.waiter.waker = .task t ∧ interest.asEvents &&& this.waiter.waitingFor ≠ 0#32 ∧
      ((∀ fds, s.step (.wait (.ok fds) : Act T O R) = none) →
        this.waiter.waitingFor &&& s.edge.kernel.ready (asRawFd inner) = 0#32) ∧
      ∀ b, Has this.waiter.waitingFor b → Has (s.edge.kernel.ready (asRawFd inner)) b →
        ∀ fds, s.edge.kernel.Takes fds Reactor.eventBuffer → asRawFd inner ∈ fds →
          ∃ s' waiter, run step s (.wait (.ok fds) :: List.replicate
              ((s.edge.kernel.wait fds).1.length + 1) (.deliver : Act T O R)) = some s' ∧
            s'.progress = .polling ∧ s'.futures addr = some (t, interest) ∧
            t ∈ LocalPool.woken s'.pool ∧ s'.edge.world.asyncs addr = some { this with waiter } ∧
            ¬ Has waiter.waitingFor b := by
  have hAwake := awake_of_run hAssumed hRun
  obtain ⟨hCurrent, hWoken⟩ := hAwake.asleep hAsleep.1
  obtain ⟨this, hThis, hHeld, hWaker, hTask, hHeard⟩ := hAwake.attended addr t interest hFuture
  obtain ⟨inner, hInner⟩ := Option.isSome_iff_exists.mp hHeld
  have hWaits : interest.asEvents &&& this.waiter.waitingFor ≠ 0#32 := by
    refine hHeard.resolve_left ?_
    rintro (h | h)
    · rw [hWoken hAsleep.2] at h
      exact List.not_mem_nil h
    · cases hCurrent.symm.trans h
  -- what is awaited and ready is queued, and reported when its descriptor is taken
  have hReported : ∀ b, Has this.waiter.waitingFor b →
      Has (s.edge.kernel.ready (asRawFd inner)) b → s.edge.kernel.queued (asRawFd inner) = true ∧
        ∀ fds, asRawFd inner ∈ fds → ∃ event ∈ (s.edge.kernel.wait fds).1,
          event.data = addr ∧ Has event.events b := by
    intro b hWaits hReady
    have hCovering := hAwake.safe.covering addr this hThis hHeld b hWaits
    rw [hAsleep.2] at hCovering
    have hReg := hCovering.resolve_right id
    have hAlert := hAwake.safe.alert addr this hThis inner b hInner hWaits hReg hReady
    rw [hAsleep.2] at hAlert
    have hQueued := hAlert.resolve_right id
    refine ⟨hQueued, fun fds hMem => ?_⟩
    obtain ⟨hNot, -⟩ | ⟨-, event, hEvent⟩ := EdgeKernel.wait_of_has hQueued
      (hAwake.safe.interest hThis hInner hReg) hReg hReady fds
    · exact absurd hMem hNot
    · exact ⟨event, hEvent⟩
  refine ⟨this, inner, hThis, hInner, hWaker, hWaits, ?_, ?_⟩
  · intro hBlocks
    refine meet_eq_zero_iff.mpr fun b hWaits hReady => ?_
    obtain ⟨hQueued, hReports⟩ := hReported b hWaits hReady
    obtain ⟨event, hMem, -⟩ := hReports [asRawFd inner] (List.mem_singleton_self _)
    have hTakes : s.edge.kernel.Takes [asRawFd inner] Reactor.eventBuffer :=
      ⟨List.nodup_singleton _, by simpa using hQueued, by simp [Reactor.eventBuffer]⟩
    obtain ⟨edge, hStep, -⟩ :=
      step_wait (R := R) hAsleep hCurrent hTakes (List.ne_nil_of_mem hMem)
    cases (hBlocks _).symm.trans hStep
  · intro b hWaits hReady fds hTakes hTaken
    obtain ⟨-, hReports⟩ := hReported b hWaits hReady
    obtain ⟨event, hMem, hData, hBit⟩ := hReports fds hTaken
    obtain ⟨edge, hStep, hPhase, hAsyncs⟩ :=
      step_wait (R := R) hAsleep hCurrent hTakes (List.ne_nil_of_mem hMem)
    have hAssumed : s.Assumed (.wait (.ok fds) : Act T O R) := trivial
    obtain ⟨s', hDeliver, hDelivered⟩ :=
      run_deliver (R := R) (hAwake.step hAssumed hStep) hPhase hAsleep.1
    obtain ⟨waiter, hAfter, -, hEach⟩ := hDelivered.asyncs addr this (hAsyncs ▸ hThis)
    obtain ⟨hMeet, hWakes⟩ := hEach event hMem hData
    refine ⟨s', waiter, run_cons_eq_some.mpr ⟨_, hStep, hDeliver⟩, hDelivered.progress, ?_,
      hWakes t hWaker hTask, hAfter, fun hStill => meet_eq_zero_iff.mp hMeet b hStill hBit⟩
    rw [hDelivered.futures]
    exact hFuture

theorem sleeps_only_blocked_reading :
    let fcntl : Fcntl := ⟨fun _ => .ok 0#32, fun _ _ => .ok ()⟩
    let acts : List (Act RawFd Nat Nat) :=
      [.next 0, .new 0 fcntl 3, .poll 0 .read .wouldBlock, .register, .pending, .stalled,
        .become 3 true false]
    ∃ s s' : Executor RawFd Nat TaskQueue (Option Nat),
      run step (init fun _ => 0#32) acts = some s ∧
      run step s [Act.wait (R := Nat) (.ok [3]), .deliver, .deliver] = some s' ∧
      0 ∈ LocalPool.woken s'.pool := by
  intro fcntl acts
  have hAssumed : Meets step Assumed
      (init fun _ => 0#32 : Executor RawFd Nat TaskQueue (Option Nat)) acts := by
    refine .cons trivial rfl (.cons ?_ rfl (.cons ?_ rfl (.cons trivial rfl (.cons ?_ rfl
      (.cons trivial rfl (.cons trivial rfl trivial))))))
    · intro addr h
      cases h
    · rintro _ ⟨⟩
      refine ⟨?_, ?_⟩
      · rintro this inner ⟨⟩ ⟨⟩
        exact ⟨rfl, fun _ => rfl⟩
      · rintro this ⟨⟩ hSkip
        exact absurd rfl hSkip
    · rintro _ addr interest this ⟨⟩ hFuture hThis
      obtain rfl | hAddr := eq_or_ne addr 0
      · cases hFuture
        cases hThis
        decide
      · cases (Function.update_of_ne hAddr ..).symm.trans hFuture
  let s : Executor RawFd Nat TaskQueue (Option Nat) := (run step (init fun _ => 0#32) acts).get rfl
  have hRun : run step (init fun _ => 0#32) acts = some s := (Option.some_get _).symm
  have hFuture : s.futures 0 = some (0, .read) := rfl
  obtain ⟨this, inner, hThis, hInner, -, -, -, hWakes⟩ :=
    sleeps_only_blocked hAssumed hRun ⟨rfl, rfl⟩ hFuture
  cases hThis
  cases hInner
  obtain ⟨s', waiter, hRun', -, -, hWoken, -⟩ :=
    hWakes 0 (by decide) (by decide) [3] (by decide) (by decide)
  have hEvents : (s.edge.kernel.wait [3]).1.length = 1 := by decide
  rw [hEvents] at hRun'
  exact ⟨s, s', hRun, hRun', hWoken⟩

end Executor

end Ground
