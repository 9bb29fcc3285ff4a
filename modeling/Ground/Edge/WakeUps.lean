import Ground.Edge.Machine

/-! # No wake-up is lost

A direction that an `Async` waits for, is registered for and is ready in has
its descriptor queued or its event on the way. A poll that has not registered
yet is the one case in which what is awaited need not be registered.
-/

namespace Ground

open Mask Transition

variable {T τ κ R : Type} [AsRawFd T]

namespace Phase

def Registers (phase : Phase) (addr : Addr) (b : Nat) : Prop :=
  match phase with
  | .registering addr' _ interest => addr' = addr ∧ Has interest.asEvents b
  | _ => False

def Delivers (phase : Phase) (addr : Addr) (b : Nat) : Prop :=
  match phase with
  | .dispatching events => ∃ event ∈ events, event.data = addr ∧ Has event.events b
  | _ => False

end Phase

namespace Async

/-- What this `Async` waits for, is registered for and is ready in is on its way. -/
def Alert (this : Async T τ) (addr : Addr) (kernel : EdgeKernel) (phase : Phase) : Prop :=
  ∀ inner b, this.inner = some inner → Has this.waiter.waitingFor b →
    Has this.waiter.registerFor b → Has (kernel.ready (asRawFd inner)) b →
      kernel.queued (asRawFd inner) = true ∨ phase.Delivers addr b

def Covering (this : Async T τ) (addr : Addr) (phase : Phase) : Prop :=
  this.inner.isSome → ∀ b, Has this.waiter.waitingFor b →
    Has this.waiter.registerFor b ∨ phase.Registers addr b

theorem Alert.elsewhere {this : Async T τ} {addr : Addr} {kernel kernel' : EdgeKernel}
    {phase : Phase} (h : this.Alert addr kernel phase) {fd : Option RawFd}
    (hElsewhere : kernel.Elsewhere fd kernel') (hOther : this.heldFd = none ∨ this.heldFd ≠ fd) :
    this.Alert addr kernel' phase := by
  intro inner b hInner hWaits hReg hReady
  have hFd : some (asRawFd inner) ≠ fd := by
    obtain hNone | hOther := hOther
    · simp [heldFd, hInner] at hNone
    · simpa [heldFd, hInner] using hOther
  rw [hElsewhere.2 _ hFd]
  exact h inner b hInner hWaits hReg (hElsewhere.1 ▸ hReady)

theorem deregister_elsewhere (this : Async T τ) (r : Reactor EdgeKernel) :
    EdgeKernel.Elsewhere this.heldFd r.epfd (this.deregister r).2.2.epfd := by
  obtain hSame | ⟨inner, hInner, -, hAsked⟩ := this.deregister_reactor r
  · rw [hSame]
    exact .refl ..
  · rw [hAsked, heldFd, hInner]
    exact r.epfd.epollCtl_elsewhere (.delete (asRawFd inner))

end Async

namespace Edge

def Steady (s : Edge T τ) : Prop :=
  match s.phase with
  | .idle => s.world.reactor.isDispatching = false
  | .registering addr fd _ => s.world.reactor.isDispatching = false ∧
      ∃ this inner, s.world.asyncs addr = some this ∧ this.inner = some inner ∧ asRawFd inner = fd
  | .dispatching events => s.world.reactor.isDispatching = true ∧
      ∀ event ∈ events, (s.world.asyncs event.data).isSome

structure Safe (s : Edge T τ) : Prop where
  mirrors : s.world.Mirrored
  distinct : s.world.Distinct
  covering : ∀ addr this, s.world.asyncs addr = some this → this.Covering addr s.phase
  alert : ∀ addr this, s.world.asyncs addr = some this → this.Alert addr s.kernel s.phase
  steady : s.Steady

theorem safe_init (ready : RawFd → Events) : (init ready : Edge T τ).Safe where
  mirrors := mirrors_empty EpollEvent.data
  distinct := World.distinct_init _
  covering := by rintro addr this ⟨⟩
  alert := by rintro addr this ⟨⟩
  steady := rfl

/-- A new value has a descriptor of its own, a closure leaves the descriptor
alone, and returns `WouldBlock` only while no awaited direction is ready. -/
def Assumed (s : Edge T τ) : Act T τ R → Prop
  | .new _ _ value => ∀ addr, s.world.held addr ≠ some (asRawFd value)
  | .poll addr _ interest f => ∀ this inner, s.world.asyncs addr = some this →
      this.inner = some inner → asRawFd (f inner).2 = asRawFd inner ∧
        (Closure.Blocks f inner → interest.asEvents &&& s.kernel.ready (asRawFd inner) = 0#32)
  | _ => True

namespace Safe

variable {s s' : Edge T τ}

theorem inStep (h : s.Safe) (hIdle : s.phase = .idle) : s.world.InStep where
  mirrors := h.mirrors
  covered addr this hThis hHeld := by
    rw [within_iff]
    intro b hWaits
    have hCovering := h.covering addr this hThis hHeld b hWaits
    rw [hIdle] at hCovering
    exact hCovering.resolve_right id
  idle := by
    have hSteady := h.steady
    rwa [Steady, hIdle] at hSteady

theorem interest (h : s.Safe) {addr : Addr} {this : Async T τ} {inner : T} {b : Nat}
    (hThis : s.world.asyncs addr = some this) (hInner : this.inner = some inner)
    (hReg : Has this.waiter.registerFor b) :
    s.kernel.interest (asRawFd inner) = some ⟨this.waiter.registerFor, addr⟩ := by
  have hEntry := Async.entry_of_registered hInner (ne_zero_iff.mpr ⟨b, hReg⟩) addr
  exact h.mirrors.listed hThis _ _ hEntry

theorem heldFd_ne (h : s.Safe) {addr addr' : Addr} {this that : Async T τ}
    (hThis : s.world.asyncs addr = some this) (hThat : s.world.asyncs addr' = some that)
    (hAddr : addr' ≠ addr) : that.heldFd = none ∨ that.heldFd ≠ this.heldFd := by
  cases hFd : that.heldFd with
  | none => exact .inl rfl
  | some fd =>
    refine .inr fun hSame => hAddr (h.distinct addr' addr fd ?_ ?_)
    · rw [World.held_of_asyncs hThat, hFd]
    · rw [World.held_of_asyncs hThis, ← hSame]

theorem alert_update (h : s.Safe) {addr : Addr} {this : Async T τ}
    (hThis : s.world.asyncs addr = some this) {new : Option (Async T τ)} {r : Reactor EdgeKernel}
    {phase : Phase} (hElsewhere : s.kernel.Elsewhere this.heldFd r.epfd)
    (hPhase : ∀ addr' b, addr' ≠ addr → s.phase.Delivers addr' b → phase.Delivers addr' b)
    (hNew : ∀ this', new = some this' → this'.Alert addr r.epfd phase) (addr' : Addr)
    (that : Async T τ) (hThat : Function.update s.world.asyncs addr new addr' = some that) :
    that.Alert addr' r.epfd phase := by
  obtain rfl | hAddr := eq_or_ne addr' addr
  · exact hNew that (by simpa using hThat)
  · rw [Function.update_of_ne hAddr] at hThat
    have hAlert := (h.alert addr' that hThat).elsewhere hElsewhere (h.heldFd_ne hThis hThat hAddr)
    intro inner b hInner hWaits hReg hReady
    exact (hAlert inner b hInner hWaits hReg hReady).imp_right (hPhase addr' b hAddr)

theorem of_inStep {w : World T τ EdgeKernel} (hInStep : w.InStep) (hDistinct : w.Distinct)
    (hAlert : ∀ addr this, w.asyncs addr = some this → this.Alert addr w.reactor.epfd .idle) :
    Safe { world := w, phase := .idle } where
  mirrors := hInStep.mirrors
  distinct := hDistinct
  covering addr this hThis hHeld _ hWaits :=
    .inl ((hInStep.covered addr this hThis hHeld).has hWaits)
  alert := hAlert
  steady := hInStep.idle

theorem call (h : s.Safe) (hIdle : s.phase = .idle) {act : World.Act T τ R}
    (hCall : s.call act = some s') (hProper : s.world.Proper act)
    (hAlert : ∀ addr this, s'.world.asyncs addr = some this →
      this.Alert addr s'.world.reactor.epfd .idle) : s'.Safe := by
  obtain ⟨w, hStep, rfl⟩ := Option.map_eq_some_iff.mp hCall
  have hInStep := h.inStep hIdle
  rw [hIdle]
  exact .of_inStep (hInStep.step (hInStep.keeps h.distinct hProper) hStep)
    (h.distinct.step hInStep hProper hStep) hAlert

theorem new (h : s.Safe) (hIdle : s.phase = .idle) {addr : Addr} {fcntl : Fcntl} {value : T}
    (hFresh : ∀ addr, s.world.held addr ≠ some (asRawFd value))
    (hCall : s.call (R := R) (.new addr fcntl value) = some s') : s'.Safe := by
  refine h.call hIdle hCall hFresh ?_
  obtain ⟨w, hStep, rfl⟩ := Option.map_eq_some_iff.mp hCall
  obtain ⟨⟨response, _⟩, hPerform, rfl⟩ := Option.map_eq_some_iff.mp hStep
  have hAlert := h.alert
  rw [hIdle] at hAlert
  obtain ⟨-, ⟨p, -, -, rfl⟩ | ⟨this, hNew, -, rfl⟩⟩ := World.perform_new hPerform
  · exact hAlert
  · intro addr' that hThat
    obtain rfl | hAddr := eq_or_ne addr' addr
    · -- a new waiter waits for nothing
      obtain rfl : this = that := by simpa [World.set] using hThat
      intro inner b _ hWaits
      obtain rfl := Async.new_eq_ret hNew
      exact absurd hWaits not_has_zero
    · exact hAlert addr' that (by simpa [World.set, hAddr] using hThat)

theorem take (h : s.Safe) (hIdle : s.phase = .idle) {addr : Addr}
    (hCall : s.call (R := R) (.take addr) = some s') : s'.Safe := by
  refine h.call hIdle hCall trivial ?_
  obtain ⟨w, hStep, rfl⟩ := Option.map_eq_some_iff.mp hCall
  obtain ⟨⟨response, _⟩, hPerform, rfl⟩ := Option.map_eq_some_iff.mp hStep
  obtain ⟨this, hThis, hRun⟩ := Option.bind_eq_some_iff.mp hPerform
  have hInStep := h.inStep hIdle
  obtain ⟨outcome, this', r, hTake, -, hInner, -⟩ :=
    Async.takeInner_rewrites (hInStep.mirrors.listed hThis) hInStep.idle
  have hElsewhere := this.deregister_elsewhere s.world.reactor
  rw [← Async.takeInner_reactor, hTake] at hElsewhere
  rw [hTake] at hRun
  cases hRun
  apply h.alert_update hThis hElsewhere
  · intro addr' b _ hDelivers
    rwa [hIdle] at hDelivers
  · rintro _ ⟨⟩ inner b hHeld
    cases hInner.symm.trans hHeld

theorem drop (h : s.Safe) (hIdle : s.phase = .idle) {addr : Addr}
    (hCall : s.call (R := R) (.drop addr) = some s') : s'.Safe := by
  refine h.call hIdle hCall trivial ?_
  obtain ⟨w, hStep, rfl⟩ := Option.map_eq_some_iff.mp hCall
  obtain ⟨⟨response, _⟩, hPerform, rfl⟩ := Option.map_eq_some_iff.mp hStep
  obtain ⟨this, hThis, hRun⟩ := Option.bind_eq_some_iff.mp hPerform
  cases hRun
  apply h.alert_update hThis (this.deregister_elsewhere s.world.reactor)
  · intro addr' b _ hDelivers
    rwa [hIdle] at hDelivers
  · rintro _ ⟨⟩

theorem become (h : s.Safe) (fd : RawFd) (now : Events) :
    (s.withKernel (s.kernel.become fd now)).Safe where
  mirrors := h.mirrors
  distinct := h.distinct
  covering := h.covering
  alert addr this hThis inner b hInner hWaits hReg hReady := by
    obtain hBefore | hQueued := EdgeKernel.ready_become (h.interest hThis hInner hReg) hReg hReady
    · obtain hQueued | hDelivers := h.alert addr this hThis inner b hInner hWaits hReg hBefore
      · exact .inl (EdgeKernel.queued_become fd now hQueued)
      · exact .inr hDelivers
    · exact .inl hQueued
  steady := h.steady

theorem same_entry (h : s.Safe) {addr : Addr} {this that : Async T τ} {phase : Phase}
    (hThis : s.world.asyncs addr = some this) (hEntry : that.entry addr = this.entry addr)
    (hFd : that.heldFd = this.heldFd)
    (hCovering : ∀ addr' those, Function.update s.world.asyncs addr (some that) addr' = some those →
      those.Covering addr' phase)
    (hDelivers : ∀ addr' b, addr' ≠ addr → s.phase.Delivers addr' b → phase.Delivers addr' b)
    (hAlert : that.Alert addr s.kernel phase)
    (hSteady : Steady { world := s.world.set addr that s.world.reactor, phase }) :
    Safe { world := s.world.set addr that s.world.reactor, phase } where
  mirrors := by
    apply h.mirrors.update
    rw [World.entries_of_asyncs hThis, Option.bind_some, hEntry]
    exact .keep
  distinct := h.distinct.update (.inl (by rw [Option.bind_some, hFd, World.held_of_asyncs hThis]))
  covering := hCovering
  alert := h.alert_update hThis (.refl ..) hDelivers (by rintro _ ⟨⟩; exact hAlert)
  steady := hSteady

theorem covering_update (h : s.Safe) {addr : Addr} {new : Option (Async T τ)} {phase : Phase}
    (hPhase : ∀ addr' b, addr' ≠ addr → s.phase.Registers addr' b → phase.Registers addr' b)
    (hNew : ∀ this, new = some this → this.Covering addr phase) (addr' : Addr) (that : Async T τ)
    (hThat : Function.update s.world.asyncs addr new addr' = some that) :
    that.Covering addr' phase := by
  obtain rfl | hAddr := eq_or_ne addr' addr
  · exact hNew that (by simpa using hThat)
  · rw [Function.update_of_ne hAddr] at hThat
    intro hHeld b hWaits
    exact (h.covering addr' that hThat hHeld b hWaits).imp_right (hPhase addr' b hAddr)

theorem unblocked (h : s.Safe) (hIdle : s.phase = .idle) {addr : Addr} {this that : Async T τ}
    (hThis : s.world.asyncs addr = some this) (hFd : that.heldFd = this.heldFd)
    (hWaiter : that.waiter = this.waiter) :
    Safe { s with world := s.world.set addr that s.world.reactor } := by
  have hHeld : that.inner.isSome = this.inner.isSome := by
    simpa [Async.heldFd] using congrArg Option.isSome hFd
  refine h.same_entry hThis ?_ hFd (h.covering_update (fun _ _ _ => id) ?_) (fun _ _ _ => id) ?_ ?_
  · rw [Async.entry_eq_map, Async.entry_eq_map, hFd, hWaiter]
  · rintro _ ⟨⟩ hThat b hWaits
    rw [hWaiter] at hWaits ⊢
    exact h.covering addr this hThis (hHeld ▸ hThat) b hWaits
  · intro value b hValue hWaits hReg hReady
    rw [hWaiter] at hWaits hReg
    obtain ⟨inner, hInner, hSame⟩ := Option.map_eq_some_iff.mp
      (hFd.symm.trans (congrArg (Option.map asRawFd) hValue))
    rw [← hSame] at hReady ⊢
    exact h.alert addr this hThis inner b hInner hWaits hReg hReady
  · have hSteady := h.steady
    rw [Steady, hIdle] at hSteady
    rw [Steady, hIdle]
    exact hSteady

theorem blocked (h : s.Safe) (hIdle : s.phase = .idle) {addr : Addr} {this : Async T τ}
    {inner value : T} (hThis : s.world.asyncs addr = some this) (hInner : this.inner = some inner)
    (waker : Waker τ) {interest : Interest} (hFd : asRawFd value = asRawFd inner)
    (hNotReady : interest.asEvents &&& s.kernel.ready (asRawFd inner) = 0#32) :
    Safe
      { world :=
          s.world.set addr ({ this with inner := some value }.block waker interest) s.world.reactor
        phase := .registering addr (asRawFd inner) interest } := by
  refine h.same_entry hThis (Async.entry_replace hInner addr (.inl hFd)) ?_
    (h.covering_update ?_ ?_) ?_ ?_ ?_
  · simp [Async.heldFd, hInner, hFd]
  · intro addr' b _ hRegisters
    rw [hIdle] at hRegisters
    exact hRegisters.elim
  · rintro _ ⟨⟩ - b hWaits
    obtain hBefore | hNow := has_or.mp hWaits
    · have hCovering := h.covering addr this hThis (by simp [hInner]) b hBefore
      rw [hIdle] at hCovering
      exact .inl (hCovering.resolve_right id)
    · exact .inr ⟨rfl, hNow⟩
  · intro addr' b _ hDelivers
    rw [hIdle] at hDelivers
    exact hDelivers.elim
  · rintro _ b ⟨⟩ hWaits hReg hReady
    rw [hFd] at hReady ⊢
    obtain hBefore | hNow := has_or.mp hWaits
    · have hAlert := h.alert addr this hThis inner b hInner hBefore hReg hReady
      rw [hIdle] at hAlert
      exact .inl (hAlert.resolve_right id)
    · exact absurd hReady (meet_eq_zero_iff.mp hNotReady b hNow)
  · have hSteady := h.steady
    rw [Steady, hIdle] at hSteady
    exact ⟨hSteady, _, value, Function.update_self .., rfl, hFd⟩

theorem poll (h : s.Safe) (hIdle : s.phase = .idle) {addr : Addr} {waker : Waker τ}
    {interest : Interest} {f : Closure T R} (hAssumed : s.Assumed (.poll addr waker interest f))
    (hPoll : s.poll addr waker interest f = some s') : s'.Safe := by
  obtain ⟨this, hThis, hRun⟩ := Option.bind_eq_some_iff.mp hPoll
  cases hInner : this.inner with
  | none =>
    rw [Async.pollAttempt_taken hInner] at hRun
    cases hRun
    exact h.unblocked hIdle hThis rfl rfl
  | some inner =>
    obtain ⟨hFd, hNotReady⟩ := hAssumed this inner hThis hInner
    obtain ⟨-, hAttempt⟩ | ⟨-, hBlocks, hAttempt⟩ | ⟨-, -, hAttempt⟩ :=
      Async.pollAttempt_cases hInner waker interest f
    · rw [hAttempt] at hRun
      cases hRun
      exact h.unblocked hIdle hThis rfl rfl
    · rw [hAttempt] at hRun
      cases hRun
      exact h.blocked hIdle hThis hInner waker hFd (hNotReady hBlocks)
    · rw [hAttempt] at hRun
      cases hRun
      exact h.unblocked hIdle hThis (by simp [Async.heldFd, hInner, hFd]) rfl

theorem queue_register (h : s.Safe) {addr : Addr} {this : Async T τ} {inner : T}
    (hThis : s.world.asyncs addr = some this) (hInner : this.inner = some inner)
    (interest : Interest) :
    let result := ensureRegistered (asRawFd inner) addr this.waiter interest s.world.reactor
    s.kernel.Elsewhere this.heldFd result.2.2.epfd ∧
      ∀ b, Has this.waiter.waitingFor b → Has result.2.1.registerFor b →
        Has (s.kernel.ready (asRawFd inner)) b →
          result.2.2.epfd.queued (asRawFd inner) = true ∨ s.phase.Delivers addr b := by
  intro result
  obtain ⟨r, hGranted, -⟩ := Async.ensureRegistered_rewrites hInner interest
    (h.mirrors.listed hThis) (h.mirrors.free h.distinct hThis hInner)
  have hFd : this.heldFd = some (asRawFd inner) := by rw [Async.heldFd, hInner, Option.map_some]
  let registerFor := this.waiter.registerFor ||| interest.asEvents ||| EPOLLET
  let request := registerRequest (asRawFd inner) addr this.waiter registerFor
  have hRequest : request = .add (asRawFd inner) ⟨registerFor, addr⟩ ∨
      request = .modify (asRawFd inner) ⟨registerFor, addr⟩ := by
    simp only [request, registerRequest]
    split
    · exact .inl rfl
    · exact .inr rfl
  have hRequestFd : request.fd = asRawFd inner := by
    rcases hRequest with hRequest | hRequest <;> rw [hRequest] <;> rfl
  obtain ⟨hSame, hRun⟩ | ⟨-, hOk, hRun⟩ | ⟨-, -, hRun⟩ :=
    ensureRegistered_cases (asRawFd inner) addr this.waiter interest s.world.reactor
  · simp only [result, hRun]
    exact ⟨.refl .., fun b hWaits hReg hReady =>
      h.alert addr this hThis inner b hInner hWaits hReg hReady⟩
  · simp only [result, hRun]
    have hElsewhere := s.kernel.epollCtl_elsewhere request
    rw [hRequestFd, ← hFd] at hElsewhere
    refine ⟨hElsewhere, fun b _ hReg hReady => ?_⟩
    obtain ⟨-, hCtl⟩ | ⟨-, errno, hCtl⟩ :=
      ctl_registerRequest s.world.reactor.list (asRawFd inner) addr this.waiter registerFor
    · exact .inl (EdgeKernel.queued_register hRequest hCtl (Function.update_self ..) hReg hReady)
    · rw [Reactor.epollCtl_fst, hCtl] at hOk
      cases hOk
  · cases hRun.symm.trans hGranted

theorem register (h : s.Safe) {addr : Addr} {fd : RawFd} {interest : Interest}
    (hPhase : s.phase = .registering addr fd interest)
    (hRegister : s.register addr fd interest = some s') : s'.Safe := by
  have hSteady := h.steady
  rw [Steady, hPhase] at hSteady
  obtain ⟨hIdle, this, inner, hThis, hInner, rfl⟩ := hSteady
  obtain ⟨this', hThis', hRun⟩ := Option.bind_eq_some_iff.mp hRegister
  obtain rfl := Option.some.inj (hThis.symm.trans hThis')
  let registerFor := this.waiter.registerFor ||| interest.asEvents ||| EPOLLET
  let that : Async T τ := { this with waiter := { this.waiter with registerFor } }
  obtain ⟨r, hEnsure, hRewrites⟩ := Async.ensureRegistered_rewrites hInner interest
    (h.mirrors.listed hThis) (h.mirrors.free h.distinct hThis hInner)
  have hQueue := queue_register h hThis hInner interest
  simp only [hEnsure] at hRun hQueue
  cases hRun
  refine ⟨h.mirrors.update ?_, h.distinct.update ?_, h.covering_update ?_ ?_,
    h.alert_update hThis hQueue.1 ?_ ?_, hRewrites.2.trans hIdle⟩
  · rw [World.entries_of_asyncs hThis]
    exact hRewrites.1
  · rw [World.held_of_asyncs hThis]
    exact .inl rfl
  · intro addr' b hAddr hRegisters
    rw [hPhase] at hRegisters
    exact absurd hRegisters.1.symm hAddr
  · rintro _ ⟨⟩ hHeld b hWaits
    obtain hReg | hRegisters := h.covering addr this hThis hHeld b hWaits
    · exact .inl (has_or.mpr (.inl (has_or.mpr (.inl hReg))))
    · rw [hPhase] at hRegisters
      exact .inl (has_or.mpr (.inl (has_or.mpr (.inr hRegisters.2))))
  · intro addr' b _ hDelivers
    rw [hPhase] at hDelivers
    exact hDelivers.elim
  · rintro _ ⟨⟩ value b hValue hWaits hReg hReady
    obtain rfl := Option.some.inj (hInner.symm.trans hValue)
    have hAlert := hQueue.2 b hWaits hReg (hQueue.1.1 ▸ hReady)
    rw [hPhase] at hAlert
    exact .inl (hAlert.resolve_right id)

theorem wait_live (h : s.Safe) (fds : List RawFd) :
    ∀ event ∈ (s.kernel.wait fds).1, (s.world.waiters event.data).isSome := by
  intro event hMem
  obtain ⟨fd, -, hReport⟩ := List.mem_filterMap.mp hMem
  obtain ⟨entry, hEntry, hData⟩ := EdgeKernel.report_data hReport
  obtain ⟨this, hThis, -⟩ := h.mirrors.live hEntry
  simp [World.waiters, ← hData, hThis]

theorem wait (h : s.Safe) (hIdle : s.phase = .idle) {fds : List RawFd}
    (hWait : s.wait fds = some s') : s'.Safe := by
  unfold Edge.wait at hWait
  split at hWait
  · cases hWait
    refine ⟨h.mirrors, h.distinct, fun addr this hThis hHeld b hWaits => ?_,
      fun addr this hThis inner b hInner hWaits hReg hReady => ?_, rfl, fun event hMem => ?_⟩
    · have hCovering := h.covering addr this hThis hHeld b hWaits
      rw [hIdle] at hCovering
      exact .inl (hCovering.resolve_right id)
    · have hAlert := h.alert addr this hThis inner b hInner hWaits hReg hReady
      rw [hIdle] at hAlert
      obtain ⟨-, hStays⟩ | ⟨-, hReported⟩ :=
        EdgeKernel.wait_of_has (hAlert.resolve_right id) (h.interest hThis hInner hReg) hReg
          hReady fds
      · exact .inl hStays
      · exact .inr hReported
    · simpa [World.waiters] using h.wait_live fds event hMem
  · cases hWait

theorem deliver (h : s.Safe) {event : EpollEvent} {events : List EpollEvent}
    (hPhase : s.phase = .dispatching (event :: events))
    (hDeliver : s.deliver event events = some s') : s'.Safe := by
  obtain ⟨this, hThis, hRun⟩ := Option.bind_eq_some_iff.mp hDeliver
  cases hRun
  have hSteady := h.steady
  rw [Steady, hPhase] at hSteady
  -- an event for another waiter, or with another bit, is not the delivered one
  have hLater : ∀ addr b, ¬ (addr = event.data ∧ Has event.events b) →
      s.phase.Delivers addr b → Phase.Delivers (.dispatching events) addr b := by
    intro addr b hNot hDelivers
    rw [hPhase] at hDelivers
    obtain ⟨e, hMem, hData, hBit⟩ := hDelivers
    obtain rfl | hMem := List.mem_cons.mp hMem
    · exact absurd ⟨hData.symm, hBit⟩ hNot
    · exact ⟨e, hMem, hData, hBit⟩
  refine h.same_entry hThis rfl rfl (h.covering_update ?_ ?_) ?_ ?_ ?_
  · intro addr b _ hRegisters
    rw [hPhase] at hRegisters
    exact hRegisters.elim
  · rintro _ ⟨⟩ hHeld b hWaits
    have hCovering := h.covering _ this hThis hHeld b (has_and_not.mp hWaits).1
    rw [hPhase] at hCovering
    exact .inl (hCovering.resolve_right id)
  · exact fun addr b hAddr => hLater addr b fun hBoth => hAddr hBoth.1
  · intro inner b hInner hWaits hReg hReady
    obtain ⟨hBefore, hOther⟩ := has_and_not.mp hWaits
    exact (h.alert _ this hThis inner b hInner hBefore hReg hReady).imp_right
      (hLater _ b fun hBoth => hOther hBoth.2)
  · refine ⟨hSteady.1, fun e hMem => ?_⟩
    obtain hSame | hAddr := eq_or_ne e.data event.data
    · simp [World.set, hSame]
    · simpa [World.set, hAddr] using hSteady.2 e (List.mem_cons_of_mem _ hMem)

theorem finish (h : s.Safe) (hPhase : s.phase = .dispatching []) : s.finish.Safe where
  mirrors := h.mirrors
  distinct := h.distinct
  covering addr this hThis hHeld b hWaits := by
    have hCovering := h.covering addr this hThis hHeld b hWaits
    rw [hPhase] at hCovering
    exact .inl (hCovering.resolve_right id)
  alert addr this hThis inner b hInner hWaits hReg hReady := by
    have hAlert := h.alert addr this hThis inner b hInner hWaits hReg hReady
    rw [hPhase] at hAlert
    exact .inl (hAlert.resolve_right (by simp [Phase.Delivers]))
  steady := rfl

theorem step (h : s.Safe) {act : Act T τ R} (hAssumed : s.Assumed act)
    (hStep : s.step act = some s') : s'.Safe := by
  unfold Edge.step at hStep
  split at hStep
  case h_1 _ fd readable writable =>
    cases hStep
    exact h.become fd (directions readable writable)
  case h_2 hPhase => exact h.new hPhase hAssumed hStep
  case h_3 hPhase => exact h.take hPhase hStep
  case h_4 hPhase => exact h.drop hPhase hStep
  case h_5 hPhase => exact h.poll hPhase hAssumed hStep
  case h_6 hPhase => exact h.register hPhase hStep
  case h_7 hPhase => exact h.wait hPhase hStep
  case h_8 hPhase => exact h.deliver hPhase hStep
  case h_9 hPhase =>
    cases hStep
    exact h.finish hPhase
  case h_10 => cases hStep

end Safe

def slot (s : Edge T τ) (addr : Addr) : Option (Waker τ) :=
  (s.world.asyncs addr).map fun this => this.waiter.waker

/-- The step leaves this waker slot as it is: it is no drop of its `Async`, and
no poll of it that blocks. -/
def LeavesSlot (addr : Addr) (s : Edge T τ) : Act T τ R → Prop
  | .drop addr' => addr' ≠ addr
  | .poll addr' waker interest f => addr' = addr → ∀ this, s.world.asyncs addr = some this →
      ∀ fd, (this.pollAttempt waker interest f).1 ≠ .blocked fd
  | _ => True

omit [AsRawFd T] in
theorem slot_update {asyncs : Addr → Option (Async T τ)} {addr addr' : Addr}
    {this that : Async T τ} {waker : Waker τ} (hThis : asyncs addr' = some this)
    (hWaker : addr' = addr → that.waiter.waker = this.waiter.waker)
    (hSlot : (asyncs addr).map (fun this => this.waiter.waker) = some waker) :
    (Function.update asyncs addr' (some that) addr).map (fun this => this.waiter.waker) =
      some waker := by
  obtain rfl | hAddr := eq_or_ne addr addr'
  · rw [hThis] at hSlot
    rw [Function.update_self, ← hSlot, Option.map_some, Option.map_some, hWaker rfl]
  · rw [Function.update_of_ne hAddr]
    exact hSlot

theorem pollAttempt_slot {this : Async T τ} {waker : Waker τ} {interest : Interest}
    {f : Closure T R} (h : ∀ fd, (this.pollAttempt waker interest f).1 ≠ .blocked fd) :
    (this.pollAttempt waker interest f).2.waiter.waker = this.waiter.waker := by
  cases hInner : this.inner with
  | none => rw [Async.pollAttempt_taken hInner]
  | some inner =>
    obtain ⟨-, hAttempt⟩ | ⟨-, -, hAttempt⟩ | ⟨-, -, hAttempt⟩ :=
      Async.pollAttempt_cases hInner waker interest f
    · rw [hAttempt]
    · exact absurd (congrArg Prod.fst hAttempt) (h (asRawFd inner))
    · rw [hAttempt]

theorem step_slot {s s' : Edge T τ} {act : Act T τ R} {addr : Addr} {waker : Waker τ}
    (hSlot : s.slot addr = some waker) (hLeaves : s.LeavesSlot addr act)
    (hStep : s.step act = some s') : s'.slot addr = some waker := by
  cases act with
  | become fd readable writable =>
    cases hStep
    exact hSlot
  | new addr' fcntl value =>
    obtain ⟨this, hThis, rfl⟩ := Option.map_eq_some_iff.mp hSlot
    exact Option.map_eq_some_iff.mpr ⟨this, new_asyncs hStep hThis, rfl⟩
  | take addr' =>
    obtain ⟨-, this, hThis, rfl⟩ := step_take hStep
    exact slot_update hThis (fun _ => this.takeInner_waker _) hSlot
  | drop addr' => exact (congrArg _ (drop_asyncs (Ne.symm hLeaves) hStep)).trans hSlot
  | poll addr' waker' interest f =>
    obtain ⟨-, hPoll⟩ := step_poll hStep
    obtain ⟨this, hThis, -⟩ := Option.bind_eq_some_iff.mp hPoll
    rw [slot, poll_asyncs hThis hPoll]
    refine slot_update hThis ?_ hSlot
    rintro rfl
    exact pollAttempt_slot (hLeaves rfl this hThis)
  | register =>
    obtain ⟨addr', fd, interest, -, hRegister⟩ := step_register hStep
    obtain ⟨this, registerFor, hThis, hAsyncs⟩ := register_asyncs hRegister
    rw [slot, hAsyncs]
    exact slot_update hThis (fun _ => rfl) hSlot
  | wait fds =>
    obtain ⟨-, -, rfl⟩ := step_wait hStep
    exact hSlot
  | deliver =>
    obtain ⟨-, rfl⟩ | ⟨event, events, -, hDeliver⟩ := step_deliver hStep
    · exact hSlot
    · obtain ⟨this, hThis, hRun⟩ := Option.bind_eq_some_iff.mp hDeliver
      cases hRun
      exact slot_update hThis (fun _ => rfl) hSlot

/-- The waker slot holds the waker of the latest poll that blocked. -/
theorem latest_blocked_stored {s s' t : Edge T τ} {addr : Addr} {this : Async T τ}
    {waker : Waker τ} {interest : Interest} {f : Closure T R} {fd : RawFd} {acts : List (Act T τ R)}
    (hThis : s.world.asyncs addr = some this)
    (hBlocked : (this.pollAttempt waker interest f).1 = .blocked fd)
    (hStep : s.step (.poll addr waker interest f) = some s')
    (hLater : Meets step (LeavesSlot addr) s' acts) (hRun : run step s' acts = some t) :
    t.slot addr = some waker := by
  refine invariant_of_meets (I := fun s => s.slot addr = some waker)
    (fun _ _ _ h hOk hStep => step_slot h hOk hStep) ?_ hLater hRun
  obtain ⟨-, hPoll⟩ := step_poll hStep
  rw [slot, poll_asyncs hThis hPoll, Function.update_self, Option.map_some]
  cases hInner : this.inner with
  | none =>
    rw [Async.pollAttempt_taken hInner] at hBlocked
    cases hBlocked
  | some inner =>
    obtain ⟨-, hAttempt⟩ | ⟨-, -, hAttempt⟩ | ⟨-, -, hAttempt⟩ :=
      Async.pollAttempt_cases hInner waker interest f
    · rw [hAttempt] at hBlocked
      cases hBlocked
    · rw [hAttempt]
      rfl
    · rw [hAttempt] at hBlocked
      cases hBlocked

/-- In every state that the assumed steps reach, what a held value waits for
and is ready in is queued, reported but not delivered yet, or about to be
registered. Between the operations it is queued, and a dispatch that takes its
descriptor wakes the waker and ends the waiting. -/
theorem wake_up_not_lost {ready : RawFd → Events} {acts : List (Act T τ R)} {s : Edge T τ}
    (hAssumed : Meets step Assumed (init ready) acts)
    (hRun : run step (init ready) acts = some s) {addr : Addr} {this : Async T τ} {inner : T}
    {b : Nat} (hThis : s.world.asyncs addr = some this) (hInner : this.inner = some inner)
    (hWaits : Has this.waiter.waitingFor b) (hReady : Has (s.kernel.ready (asRawFd inner)) b) :
    (s.kernel.queued (asRawFd inner) = true ∨ s.phase.Delivers addr b ∨
      s.phase.Registers addr b) ∧
    (s.phase = .idle → s.kernel.queued (asRawFd inner) = true ∧
      ∀ fds, s.kernel.Takes fds Reactor.eventBuffer → asRawFd inner ∈ fds →
        ∃ r waiters' woken waiter',
          Reactor.dispatch { s.world.reactor with epfd := (s.kernel.wait fds).2 }
            (fun _ => .ok (s.kernel.wait fds).1) s.world.waiters =
              some (.ret (.ok ()), r, waiters', woken) ∧
          this.waiter.waker.wakeByRef ⊆ woken ∧
          waiters' addr = some waiter' ∧ ¬ Has waiter'.waitingFor b) := by
  have hSafe : s.Safe := invariant_of_meets (I := Safe)
    (fun _ _ _ h hOk hStep => h.step hOk hStep) (safe_init ready) hAssumed hRun
  have hCovering := hSafe.covering addr this hThis (by simp [hInner]) b hWaits
  have hAlert := hSafe.alert addr this hThis inner b hInner hWaits
  refine ⟨?_, fun hIdle => ?_⟩
  · obtain hReg | hRegisters := hCovering
    · exact (hAlert hReg hReady).imp_right .inl
    · exact .inr (.inr hRegisters)
  · rw [hIdle] at hCovering hAlert
    have hReg := hCovering.resolve_right id
    have hQueued := (hAlert hReg hReady).resolve_right id
    refine ⟨hQueued, fun fds hTakes hTaken => ?_⟩
    have hEntry := hSafe.interest hThis hInner hReg
    obtain ⟨hNot, -⟩ | ⟨-, event, hMem, hData, hBit⟩ :=
      EdgeKernel.wait_of_has hQueued hEntry hReg hReady fds
    · exact absurd hTaken hNot
    · obtain rfl : event.data = addr := hData
      have hWaiter : s.world.waiters event.data = some this.waiter := by
        simp [World.waiters, hThis]
      obtain ⟨waiters', woken, waiter', hAll, hWoken, hThen, hClear⟩ :=
        deliverAll_wakes (hSafe.wait_live fds) hMem hWaiter
      have hDispatching : s.world.reactor.isDispatching = false := (hSafe.inStep hIdle).idle
      refine ⟨⟨(s.kernel.wait fds).2, false⟩, waiters', woken, waiter', ?_, hWoken, hThen,
        hClear b hBit⟩
      simp only [Reactor.dispatch, hDispatching, Bool.false_eq_true, if_false, hAll,
        Option.bind_eq_bind, Option.bind_some]

theorem wake_up_not_lost_before_registering :
    let fcntl : Fcntl := ⟨fun _ => .ok 0#32, fun _ _ => .ok ()⟩
    let acts : List (Act RawFd Nat Nat) :=
      [.new 0 fcntl 3, .poll 0 (.task 1) .read .wouldBlock, .become 3 true false, .register]
    ∃ s : Edge RawFd Nat, run step (init fun _ => 0#32) acts = some s ∧
      s.kernel.queued 3 = true := by
  intro fcntl acts
  have hAssumed : Meets step Assumed (init (T := RawFd) (τ := Nat) fun _ => 0#32) acts := by
    refine .cons (by simp [Assumed, World.held, init, World.init]) rfl (.cons ?_ rfl ?_)
    · rintro this inner ⟨⟩ ⟨⟩
      exact ⟨rfl, fun _ => rfl⟩
    · exact .cons trivial rfl (.cons trivial rfl trivial)
  refine ⟨_, rfl, ?_⟩
  exact ((@wake_up_not_lost RawFd Nat Nat _ _ acts _ hAssumed rfl 0 _ 3 0 rfl rfl (by decide)
    (by decide)).2 rfl).1

end Edge

end Ground
