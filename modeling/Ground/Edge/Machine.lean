import Ground.Edge.Kernel
import Ground.System.Distinct

/-! # Interleaving with the kernel

The operations of the thread, cut where the kernel may act in between: a poll
after its closure, a dispatch after `epoll_wait` and after every delivery.
Readiness changes in every phase.
-/

namespace Ground

open Mask Transition

variable {T τ R : Type} [AsRawFd T]

/-- A poll that blocked has still to register, a dispatch to deliver these events. -/
inductive Phase where
  | idle
  | registering (addr : Addr) (fd : RawFd) (interest : Interest)
  | dispatching (events : List EpollEvent)

structure Edge (T τ : Type) where
  world : World T τ EdgeKernel
  phase : Phase

namespace Edge

def init (ready : RawFd → Events) : Edge T τ :=
  { world := .init (.new ready), phase := .idle }

inductive Act (T τ R : Type) where
  | new (addr : Addr) (fcntl : Fcntl) (value : T)
  | poll (addr : Addr) (waker : Waker τ) (interest : Interest) (f : Closure T R)
  | register
  | take (addr : Addr)
  | drop (addr : Addr)
  | wait (fds : List RawFd)
  | deliver
  | become (fd : RawFd) (readable writable : Bool)

def kernel (s : Edge T τ) : EdgeKernel := s.world.reactor.epfd

def withKernel (s : Edge T τ) (kernel : EdgeKernel) : Edge T τ :=
  { s with world := { s.world with reactor := { s.world.reactor with epfd := kernel } } }

def call (s : Edge T τ) (act : World.Act T τ R) : Option (Edge T τ) :=
  (s.world.step act).map fun world => { s with world }

def poll (s : Edge T τ) (addr : Addr) (waker : Waker τ) (interest : Interest)
    (f : Closure T R) : Option (Edge T τ) := do
  let this ← s.world.asyncs addr
  match this.pollAttempt waker interest f with
  | (.blocked fd, this) =>
    some { world := s.world.set addr this s.world.reactor, phase := .registering addr fd interest }
  | (_, this) => some { s with world := s.world.set addr this s.world.reactor }

def register (s : Edge T τ) (addr : Addr) (fd : RawFd) (interest : Interest) :
    Option (Edge T τ) := do
  let this ← s.world.asyncs addr
  let (_, waiter, reactor) := ensureRegistered fd addr this.waiter interest s.world.reactor
  some { world := s.world.set addr { this with waiter } reactor, phase := .idle }

def wait (s : Edge T τ) (fds : List RawFd) : Option (Edge T τ) :=
  if s.kernel.Takes fds Reactor.eventBuffer then
    let (events, kernel) := s.kernel.wait fds
    some
      { world := { s.world with reactor := { epfd := kernel, isDispatching := true } }
        phase := .dispatching events }
  else none

def deliver (s : Edge T τ) (event : EpollEvent) (events : List EpollEvent) :
    Option (Edge T τ) := do
  let this ← s.world.asyncs event.data
  let (waiter, _) := Reactor.deliver event this.waiter
  some
    { world := s.world.set event.data { this with waiter } s.world.reactor
      phase := .dispatching events }

def finish (s : Edge T τ) : Edge T τ :=
  { world := { s.world with reactor := { s.world.reactor with isDispatching := false } }
    phase := .idle }

def step (s : Edge T τ) (act : Act T τ R) : Option (Edge T τ) :=
  match s.phase, act with
  | _, .become fd readable writable =>
    some (s.withKernel (s.kernel.become fd (directions readable writable)))
  | .idle, .new addr fcntl value => s.call (R := R) (.new addr fcntl value)
  | .idle, .take addr => s.call (R := R) (.take addr)
  | .idle, .drop addr => s.call (R := R) (.drop addr)
  | .idle, .poll addr waker interest f => s.poll addr waker interest f
  | .registering addr fd interest, .register => s.register addr fd interest
  | .idle, .wait fds => s.wait fds
  | .dispatching (event :: events), .deliver => s.deliver event events
  | .dispatching [], .deliver => some s.finish
  | _, _ => none

section

variable {s s' : Edge T τ}

theorem poll_asyncs {addr : Addr} {this : Async T τ} {waker : Waker τ} {interest : Interest}
    {f : Closure T R} (hThis : s.world.asyncs addr = some this)
    (h : s.poll addr waker interest f = some s') :
    s'.world.asyncs =
      Function.update s.world.asyncs addr (some (this.pollAttempt waker interest f).2) := by
  simp only [poll, hThis, Option.bind_eq_bind, Option.bind_some] at h
  split at h
  · rename_i hAttempt
    cases h
    rw [hAttempt]
    rfl
  · rename_i hAttempt
    cases h
    rw [hAttempt]
    rfl

omit [AsRawFd T] in
theorem register_asyncs {addr : Addr} {fd : RawFd} {interest : Interest}
    (h : s.register addr fd interest = some s') :
    ∃ this registerFor, s.world.asyncs addr = some this ∧
      s'.world.asyncs = Function.update s.world.asyncs addr
        (some { this with waiter := { this.waiter with registerFor } }) := by
  obtain ⟨this, hThis, hRun⟩ := Option.bind_eq_some_iff.mp h
  have hWaiter := ensureRegistered_waiter fd addr this.waiter interest s.world.reactor
  cases hRun
  exact ⟨this, _, hThis, congrArg (fun waiter => Function.update s.world.asyncs addr
    (some { this with waiter })) hWaiter⟩

/-- Nothing is polled but between the operations. -/
theorem step_poll {addr : Addr} {waker : Waker τ} {interest : Interest} {f : Closure T R}
    (h : s.step (.poll addr waker interest f) = some s') :
    s.phase = .idle ∧ s.poll addr waker interest f = some s' := by
  cases hPhase : s.phase with
  | idle =>
    simp only [step, hPhase] at h
    exact ⟨rfl, h⟩
  | registering addr' fd interest' => simp [step, hPhase] at h
  | dispatching events => simp [step, hPhase] at h

theorem step_new {addr : Addr} {fcntl : Fcntl} {value : T}
    (h : s.step (R := R) (.new addr fcntl value) = some s') :
    s.phase = .idle ∧ s.world.asyncs addr = none ∧ (s' = s ∨
      s' = { s with
        world := s.world.set addr ⟨some value, ⟨.noop, 0#32, 0#32⟩⟩ s.world.reactor }) := by
  obtain ⟨world, phase⟩ := s
  cases phase with
  | idle =>
    obtain ⟨w, hWorld, rfl⟩ := Option.map_eq_some_iff.mp h
    obtain ⟨⟨response, _⟩, hPerform, rfl⟩ := Option.map_eq_some_iff.mp hWorld
    obtain ⟨hFree, ⟨p, -, -, rfl⟩ | ⟨this, hNew, -, rfl⟩⟩ := World.perform_new hPerform
    · exact ⟨rfl, hFree, .inl rfl⟩
    · obtain rfl := Async.new_eq_ret hNew
      exact ⟨rfl, hFree, .inr rfl⟩
  | registering addr' fd interest => cases h
  | dispatching events => cases h

theorem step_take {addr : Addr} (h : s.step (R := R) (.take addr) = some s') :
    s.phase = .idle ∧ ∃ this, s.world.asyncs addr = some this ∧ s' = { s with
      world := s.world.set addr (this.takeInner s.world.reactor).2.1
        (this.takeInner s.world.reactor).2.2 } := by
  obtain ⟨world, phase⟩ := s
  cases phase with
  | idle =>
    obtain ⟨w, hWorld, rfl⟩ := Option.map_eq_some_iff.mp h
    obtain ⟨⟨response, _⟩, hPerform, rfl⟩ := Option.map_eq_some_iff.mp hWorld
    obtain ⟨this, hThis, hRun⟩ := Option.bind_eq_some_iff.mp hPerform
    cases hRun
    exact ⟨rfl, this, hThis, rfl⟩
  | registering addr' fd interest => cases h
  | dispatching events => cases h

theorem step_drop {addr : Addr} (h : s.step (R := R) (.drop addr) = some s') :
    s.phase = .idle ∧ ∃ this, s.world.asyncs addr = some this ∧ s' = { s with
      world :=
        { asyncs := Function.update s.world.asyncs addr none
          reactor := (this.drop s.world.reactor).2 } } := by
  obtain ⟨world, phase⟩ := s
  cases phase with
  | idle =>
    obtain ⟨w, hWorld, rfl⟩ := Option.map_eq_some_iff.mp h
    obtain ⟨⟨response, _⟩, hPerform, rfl⟩ := Option.map_eq_some_iff.mp hWorld
    obtain ⟨this, hThis, hRun⟩ := Option.bind_eq_some_iff.mp hPerform
    cases hRun
    exact ⟨rfl, this, hThis, rfl⟩
  | registering addr' fd interest => cases h
  | dispatching events => cases h

theorem new_asyncs {addr addr' : Addr} {fcntl : Fcntl} {value : T} {this : Async T τ}
    (hStep : s.step (R := R) (.new addr' fcntl value) = some s')
    (hThis : s.world.asyncs addr = some this) : s'.world.asyncs addr = some this := by
  obtain ⟨-, hFree, rfl | rfl⟩ := step_new hStep
  · exact hThis
  · have hAddr : addr ≠ addr' := by
      rintro rfl
      cases hFree.symm.trans hThis
    exact (Function.update_of_ne hAddr ..).trans hThis

theorem new_wraps {addr : Addr} {fcntl : Fcntl} {value : T} {this : Async T τ}
    (hStep : s.step (R := R) (.new addr fcntl value) = some s')
    (hThis : s'.world.asyncs addr = some this) :
    s.world.asyncs addr = none ∧ this = ⟨some value, ⟨.noop, 0#32, 0#32⟩⟩ := by
  obtain ⟨-, hFree, rfl | rfl⟩ := step_new hStep
  · cases hFree.symm.trans hThis
  · have hSelf := hThis
    simp only [World.set, Function.update_self, Option.some.injEq] at hSelf
    exact ⟨hFree, hSelf.symm⟩

theorem take_asyncs {addr addr' : Addr} (hAddr : addr ≠ addr')
    (hStep : s.step (R := R) (.take addr') = some s') :
    s'.world.asyncs addr = s.world.asyncs addr := by
  obtain ⟨-, this, -, rfl⟩ := step_take hStep
  exact Function.update_of_ne hAddr ..

theorem drop_asyncs {addr addr' : Addr} (hAddr : addr ≠ addr')
    (hStep : s.step (R := R) (.drop addr') = some s') :
    s'.world.asyncs addr = s.world.asyncs addr := by
  obtain ⟨-, this, -, rfl⟩ := step_drop hStep
  exact Function.update_of_ne hAddr ..

theorem step_register (h : s.step (.register : Act T τ R) = some s') :
    ∃ addr fd interest, s.phase = .registering addr fd interest ∧
      s.register addr fd interest = some s' := by
  obtain ⟨world, phase⟩ := s
  cases phase with
  | registering addr fd interest => exact ⟨addr, fd, interest, rfl, h⟩
  | idle => cases h
  | dispatching events => cases h

theorem step_wait {fds : List RawFd} (h : s.step (.wait fds : Act T τ R) = some s') :
    s.phase = .idle ∧ s.kernel.Takes fds Reactor.eventBuffer ∧
      s' =
        { world := { s.world with
            reactor := { epfd := (s.kernel.wait fds).2, isDispatching := true } }
          phase := .dispatching (s.kernel.wait fds).1 } := by
  obtain ⟨world, phase⟩ := s
  cases phase with
  | idle =>
    obtain ⟨hTakes, hRun⟩ := Option.ite_none_right_eq_some.mp h
    cases hRun
    exact ⟨rfl, hTakes, rfl⟩
  | registering addr fd interest => cases h
  | dispatching events => cases h

theorem step_deliver (h : s.step (.deliver : Act T τ R) = some s') :
    (s.phase = .dispatching [] ∧ s' = s.finish) ∨
      ∃ event events, s.phase = .dispatching (event :: events) ∧
        s.deliver event events = some s' := by
  obtain ⟨world, phase⟩ := s
  cases phase with
  | dispatching events =>
    cases events with
    | nil =>
      cases h
      exact .inl ⟨rfl, rfl⟩
    | cons event events => exact .inr ⟨event, events, rfl, h⟩
  | idle => cases h
  | registering addr fd interest => cases h

end

variable {s : Edge T τ}

/-- The two halves of a poll, with nothing in between, are the poll of the source. -/
theorem run_poll (hIdle : s.phase = .idle) {addr : Addr} {this : Async T τ}
    (hThis : s.world.asyncs addr = some this) (waker : Waker τ) (interest : Interest)
    (f : Closure T R) :
    let polled := this.pollNonblocking addr waker interest f s.world.reactor
    let whole : Edge T τ := { world := s.world.set addr polled.2.1 polled.2.2, phase := .idle }
    run step s [.poll addr waker interest f] = some whole ∨
      run step s [Act.poll addr waker interest f, .register] = some whole := by
  intro polled whole
  have hPolled : polled = Async.pollFinish addr interest s.world.reactor
      (this.pollAttempt waker interest f) := this.pollNonblocking_eq ..
  simp only [run, step, hIdle, poll, hThis, Option.bind_eq_bind, Option.bind_some, whole, hPolled]
  obtain ⟨_ | _ | fd | ⟨value | p⟩, that⟩ := this.pollAttempt waker interest f
  case blocked =>
    refine .inr ?_
    simp only [Option.bind_some, register, World.set, Function.update_self, Function.update_idem,
      Option.bind_eq_bind, Async.pollFinish]
    obtain ⟨_ | p, waiter, r⟩ := ensureRegistered fd addr that.waiter interest s.world.reactor
    · rfl
    · rfl
  all_goals
    left
    rw [← hIdle]
    rfl

omit [AsRawFd T] in
theorem withWaiters_waiters (w : World T τ EdgeKernel) : w.withWaiters w.waiters = w.asyncs := by
  funext addr
  cases hThis : w.asyncs addr with
  | none => simp [World.withWaiters, hThis]
  | some this => simp [World.withWaiters, World.waiters, hThis]

theorem run_deliver {events : List EpollEvent} {waiters' : Waiters τ} {woken : List τ}
    (hPhase : s.phase = .dispatching events)
    (hAll : Reactor.deliverAll events s.world.waiters = some (waiters', woken)) :
    run step s (List.replicate (events.length + 1) (Act.deliver : Act T τ R)) = some
      { world :=
          { asyncs := s.world.withWaiters waiters'
            reactor := { s.world.reactor with isDispatching := false } }
        phase := .idle } := by
  induction events generalizing s woken with
  | nil =>
    cases hAll
    simp only [List.length_nil, List.replicate, run, step, hPhase, Option.bind_some, finish,
      withWaiters_waiters]
  | cons event events ih =>
    obtain ⟨waiter, hWaiter, hBody⟩ := Option.bind_eq_some_iff.mp hAll
    obtain ⟨⟨_, rest⟩, hRest, hSame⟩ := Option.bind_eq_some_iff.mp hBody
    cases hSame
    obtain ⟨this, hThis, rfl⟩ := Option.map_eq_some_iff.mp hWaiter
    let that := { this with waiter := (Reactor.deliver event this.waiter).1 }
    let s' : Edge T τ :=
      { world := s.world.set event.data that s.world.reactor, phase := .dispatching events }
    have hStep : s.step (Act.deliver : Act T τ R) = some s' := by
      simp only [step, hPhase, deliver, hThis, Option.bind_eq_bind, Option.bind_some, s', that]
    have hWaiters : s'.world.waiters =
        Function.update s.world.waiters event.data (some that.waiter) := by
      funext addr
      obtain rfl | hAddr := eq_or_ne addr event.data
      · simp [s', World.waiters, World.set]
      · simp [s', World.waiters, World.set, hAddr]
    have hMemory : s'.world.withWaiters waiters' = s.world.withWaiters waiters' := by
      funext addr
      obtain rfl | hAddr := eq_or_ne addr event.data
      · simp [s', World.withWaiters, World.set, hThis, that]
      · simp [s', World.withWaiters, World.set, hAddr]
    have hRun := ih (show s'.phase = .dispatching events from rfl) (hWaiters ▸ hRest)
    rw [List.length_cons, List.replicate_succ, run_cons_eq_some]
    exact ⟨s', hStep, hMemory ▸ hRun⟩

/-- A wait and the deliveries of its batch, with nothing in between, are the
dispatch of the source. -/
theorem run_dispatch (hIdle : s.phase = .idle) {fds : List RawFd}
    (hTakes : s.kernel.Takes fds Reactor.eventBuffer) {r : Reactor EdgeKernel}
    {waiters' : Waiters τ} {woken : List τ}
    (hDispatch : Reactor.dispatch { s.world.reactor with epfd := (s.kernel.wait fds).2 }
      (fun _ => .ok (s.kernel.wait fds).1) s.world.waiters =
        some (.ret (.ok ()), r, waiters', woken)) :
    run step s (Act.wait (R := R) fds ::
        List.replicate ((s.kernel.wait fds).1.length + 1) .deliver) =
      some
        { world := { asyncs := s.world.withWaiters waiters', reactor := r }
          phase := .idle } := by
  unfold Reactor.dispatch at hDispatch
  split at hDispatch
  · cases hDispatch
  · obtain ⟨⟨_, _⟩, hAll, hSame⟩ := Option.bind_eq_some_iff.mp hDispatch
    cases hSame
    refine run_cons_eq_some.mpr ⟨_, by simp only [step, hIdle, wait, if_pos hTakes]; rfl, ?_⟩
    exact run_deliver rfl hAll

end Edge

end Ground
