import Ground.Io.Effects
import Ground.System.Mirror

/-! # Values with distinct descriptors

When the values wrapped at one time have distinct descriptors that stay the
same while wrapped, every step keeps registered descriptors in place, so the
list mirrors the live `Async`s in every reachable state.
-/

namespace Ground

open Mask Transition

variable {T τ κ R : Type} [AsRawFd T]

namespace Async

theorem entry_eq_map (this : Async T τ) (addr : Addr) : this.entry addr =
    if this.waiter.registerFor = 0#32 then none
    else this.heldFd.map fun fd => (fd, ⟨this.waiter.registerFor, addr⟩) := by
  unfold entry heldFd
  cases this.inner with
  | none => simp
  | some inner => rfl

end Async

namespace World

variable {w w' : World T τ κ}

def held (w : World T τ κ) (addr : Addr) : Option RawFd := (w.asyncs addr).bind (·.heldFd)

/-- Values wrapped at the same time have different descriptors. -/
def Distinct (w : World T τ κ) : Prop :=
  ∀ addr addr' fd, w.held addr = some fd → w.held addr' = some fd → addr = addr'

theorem distinct_init (kernel : κ) : (init kernel : World T τ κ).Distinct := by
  rintro addr addr' fd ⟨⟩

theorem held_update (asyncs : Addr → Option (Async T τ)) (r r' : Reactor κ)
    (addr : Addr) (new : Option (Async T τ)) :
    held { asyncs := Function.update asyncs addr new, reactor := r' } =
      Function.update (held { asyncs, reactor := r }) addr (new.bind (·.heldFd)) := by
  funext addr'
  obtain rfl | h := eq_or_ne addr' addr
  · simp [held]
  · simp [held, h]

theorem held_of_asyncs {addr : Addr} {this : Async T τ} (h : w.asyncs addr = some this) :
    w.held addr = this.heldFd := by
  simp [held, h]

theorem Distinct.shrink (h : w.Distinct)
    (hShrink : ∀ addr, w'.held addr = w.held addr ∨ w'.held addr = none) : w'.Distinct := by
  intro addr addr' fd hAddr hAddr'
  refine h addr addr' fd ?_ ?_
  · obtain hSame | hNone := hShrink addr
    · exact hSame ▸ hAddr
    · exact absurd (hNone.symm.trans hAddr) (by simp)
  · obtain hSame | hNone := hShrink addr'
    · exact hSame ▸ hAddr'
    · exact absurd (hNone.symm.trans hAddr') (by simp)

theorem Distinct.update (h : w.Distinct) {addr : Addr} {new : Option (Async T τ)}
    {r : Reactor κ}
    (hNew : new.bind (·.heldFd) = w.held addr ∨ new.bind (·.heldFd) = none) :
    Distinct { asyncs := Function.update w.asyncs addr new, reactor := r } := by
  apply h.shrink
  intro addr'
  rw [held_update w.asyncs w.reactor]
  obtain rfl | hAddr := eq_or_ne addr' addr
  · simpa using hNew
  · exact .inl (by simp [hAddr])

/-- A value is wrapped only while no other wrapped value has its descriptor,
and keeps that descriptor while wrapped. -/
def Proper (w : World T τ κ) : Act T τ R → Prop
  | .new _ _ value => ∀ addr, w.held addr ≠ some (asRawFd value)
  | .poll addr _ _ f => ∀ this, w.asyncs addr = some this → this.Fixed f
  | .close addr _ flush => ∀ this, w.asyncs addr = some this → this.Fixed flush
  | .take _ | .drop _ | .dispatch _ => True
  | .replace _ _ | .swap _ _ => False

theorem Distinct.new (h : w.Distinct) {addr : Addr} {fcntl : Fcntl} {value : T} {this : Async T τ}
    (hFresh : ∀ addr, w.held addr ≠ some (asRawFd value))
    (hNew : Async.new fcntl value = .ret this) {r : Reactor κ} :
    (w.set addr this r).Distinct := by
  have hHeld : this.heldFd = some (asRawFd value) := by
    rw [Async.new_eq_ret hNew]
    rfl
  intro addr₁ addr₂ fd hFirst hSecond
  rw [set, held_update w.asyncs w.reactor, Option.bind_some, hHeld] at hFirst hSecond
  obtain hFirstNew | hFirstNew := eq_or_ne addr₁ addr
  · obtain hSecondNew | hSecondNew := eq_or_ne addr₂ addr
    · exact hFirstNew.trans hSecondNew.symm
    · rw [hFirstNew, Function.update_self] at hFirst
      rw [Function.update_of_ne hSecondNew, ← hFirst] at hSecond
      exact absurd hSecond (hFresh addr₂)
  · rw [Function.update_of_ne hFirstNew] at hFirst
    obtain hSecondNew | hSecondNew := eq_or_ne addr₂ addr
    · rw [hSecondNew, Function.update_self] at hSecond
      rw [← hSecond] at hFirst
      exact absurd hFirst (hFresh addr₁)
    · rw [Function.update_of_ne hSecondNew] at hSecond
      exact h addr₁ addr₂ fd hFirst hSecond

variable [InterestKernel κ]

theorem Mirrored.free (h : w.Mirrored) (hDistinct : w.Distinct) {addr : Addr} {this : Async T τ}
    {inner : T} (hThis : w.asyncs addr = some this) (hInner : this.inner = some inner)
    (hReg : this.waiter.registerFor = 0#32) : w.reactor.list (asRawFd inner) = none := by
  rw [Option.eq_none_iff_forall_ne_some]
  intro event hList
  obtain ⟨that, hThat, hEntry⟩ := h.live hList
  obtain ⟨inner', hInner', hFd, hReg', -⟩ := Async.entry_eq_some_iff.mp hEntry
  have hHeld : w.held event.data = some (asRawFd inner) := by
    simp [held_of_asyncs hThat, Async.heldFd, hInner', hFd]
  have hAddr : event.data = addr :=
    hDistinct _ _ _ hHeld (by simp [held_of_asyncs hThis, Async.heldFd, hInner])
  obtain rfl := Option.some.inj (hThis.symm.trans (hAddr ▸ hThat))
  exact hReg' hReg

theorem InStep.keepsEntry (h : w.InStep) (hDistinct : w.Distinct) {addr : Addr}
    {this : Async T τ} (hThis : w.asyncs addr = some this) {f : Closure T R}
    (hFixed : this.Fixed f) (interest : Interest) :
    this.KeepsEntry w.reactor.list interest f := fun inner hInner _ =>
  ⟨.inl (hFixed inner hInner), fun _ hReg => h.mirrors.free hDistinct hThis hInner hReg⟩

theorem InStep.keeps (h : w.InStep) (hDistinct : w.Distinct) {act : Act T τ R}
    (hProper : w.Proper act) : w.Keeps act := by
  cases act with
  | poll addr waker interest f =>
    exact fun this hThis => h.keepsEntry hDistinct hThis (hProper this hThis) interest
  | close addr waker flush =>
    exact fun this hThis => h.keepsEntry hDistinct hThis (hProper this hThis) .write
  | replace addr value => exact hProper.elim
  | swap addr addr' => exact hProper.elim
  | _ => trivial

theorem Distinct.step (h : w.Distinct) (hInStep : w.InStep) {act : Act T τ R}
    (hProper : w.Proper act) (hStep : w.step act = some w') : w'.Distinct := by
  obtain ⟨⟨response, _⟩, hPerform, rfl⟩ := Option.map_eq_some_iff.mp hStep
  cases act with
  | new addr fcntl value =>
    obtain ⟨-, ⟨p, -, -, rfl⟩ | ⟨this, hNew, -, rfl⟩⟩ := perform_new hPerform
    · exact h
    · exact h.new hProper hNew
  | poll addr waker interest f =>
    obtain ⟨this, hThis, hRun⟩ := Option.bind_eq_some_iff.mp hPerform
    cases hRun
    apply h.update
    rw [held_of_asyncs hThis]
    exact .inl (Async.pollNonblocking_heldFd (hProper this hThis) addr waker interest w.reactor)
  | close addr waker flush =>
    obtain ⟨this, hThis, hRun⟩ := Option.bind_eq_some_iff.mp hPerform
    cases hRun
    apply h.update
    rw [held_of_asyncs hThis]
    exact Async.pollClose_heldFd (hProper this hThis) addr waker w.reactor
  | take addr =>
    obtain ⟨this, hThis, hRun⟩ := Option.bind_eq_some_iff.mp hPerform
    cases hRun
    apply h.update
    rw [held_of_asyncs hThis]
    exact this.takeInner_heldFd w.reactor
  | drop addr =>
    obtain ⟨this, hThis, hRun⟩ := Option.bind_eq_some_iff.mp hPerform
    cases hRun
    exact h.update (.inr rfl)
  | dispatch answer =>
    obtain ⟨woken, waiters', hAll, hRun⟩ := hInStep.live.dispatch (R := R) hInStep.idle answer
    cases hRun.symm.trans hPerform
    apply h.shrink
    intro addr
    obtain ⟨hThis, hThat⟩ | ⟨this, that, hThis, hThat, hInner, -⟩ := withWaiters_cases hAll addr
    · exact .inr (by simp [held, hThat])
    · exact .inl (by simp [held, hThis, hThat, Async.heldFd, hInner])
  | replace addr value => exact hProper.elim
  | swap addr addr' => exact hProper.elim

theorem inStep_of_run {kernel : κ} (hEmpty : InterestKernel.interest kernel = .empty)
    {acts : List (Act T τ R)} (hProper : Meets step Proper (init kernel) acts)
    (hRun : run step (init kernel) acts = some w) : w.InStep ∧ w.Distinct :=
  invariant_of_meets
    (I := fun w => w.InStep ∧ w.Distinct)
    (fun _ _ _ h hProper hStep =>
      ⟨h.1.step (h.1.keeps h.2 hProper) hStep, h.2.step h.1 hProper hStep⟩)
    ⟨inStep_init hEmpty, distinct_init kernel⟩ hProper hRun

/-- In every state that such steps reach, the interest list is the map from
the descriptor of each registered `Async` to its events and its address. Then
no `epoll_ctl` fails, whatever is awaited is registered for, and dispatch
reaches only live waiters. -/
theorem list_mirrors_asyncs {acts : List (Act T τ R)} {w : World T τ InterestList}
    (hProper : Meets step Proper (init InterestList.empty) acts)
    (hRun : run step (init InterestList.empty) acts = some w) :
    (∀ fd event, w.reactor.list fd = some event ↔ ∃ this inner,
      w.asyncs event.data = some this ∧ this.inner = some inner ∧ asRawFd inner = fd ∧
        this.waiter.registerFor ≠ 0#32 ∧ event.events = this.waiter.registerFor) ∧
    (∀ (act : Act T τ R) response w', w.Proper act → w.perform act = some (response, w') →
      Granted response) ∧
    (∀ addr this, w.asyncs addr = some this → this.inner.isSome →
      Within this.waiter.waitingFor this.waiter.registerFor) ∧
    (∀ answer length events, w.epollWait answer length = .ok events →
      ∀ event ∈ events, (w.asyncs event.data).isSome) ∧
    ∀ answer, ∃ woken w', w.perform (R := R) (.dispatch answer) = some (.ret woken, w') := by
  obtain ⟨hInStep, hDistinct⟩ := inStep_of_run rfl hProper hRun
  refine ⟨fun fd event => ?_, fun act response w' hAct hPerform => ?_, hInStep.covered, ?_, ?_⟩
  · rw [hInStep.mirrors.lookup]
    constructor
    · intro hEntry
      obtain ⟨this, hThis, hOwn⟩ := Option.bind_eq_some_iff.mp hEntry
      obtain ⟨inner, hInner, hFd, hReg, hEvent⟩ := Async.entry_eq_some_iff.mp hOwn
      exact ⟨this, inner, hThis, hInner, hFd, hReg, congrArg EpollEvent.events hEvent⟩
    · rintro ⟨this, inner, hThis, hInner, hFd, hReg, hEvents⟩
      rw [entries_of_asyncs hThis]
      exact Async.entry_eq_some_iff.mpr ⟨inner, hInner, hFd, hReg, by rw [← hEvents]⟩
  · exact (hInStep.perform (hInStep.keeps hDistinct hAct) hPerform).2
  · intro answer length events hWait event hMem
    simpa [waiters] using hInStep.live.epollWait hWait event hMem
  · intro answer
    obtain ⟨woken, waiters', -, hDispatch⟩ := hInStep.live.dispatch (R := R) hInStep.idle answer
    exact ⟨woken, _, hDispatch⟩

theorem list_mirrors_asyncs_reader :
    let fcntl : Fcntl := ⟨fun _ => .ok 0#32, fun _ _ => .ok ()⟩
    let acts : List (Act RawFd Nat Nat) :=
      [.new 0 fcntl 3, .poll 0 (.task 1) .read .wouldBlock, .new 1 fcntl 4,
        .dispatch (.ok [(3, EPOLLIN)]), .take 0]
    ∃ w : World RawFd Nat InterestList, run step (init InterestList.empty) acts = some w ∧
      (∀ fd event, w.reactor.list fd = some event ↔ ∃ this inner,
        w.asyncs event.data = some this ∧ this.inner = some inner ∧ asRawFd inner = fd ∧
          this.waiter.registerFor ≠ 0#32 ∧ event.events = this.waiter.registerFor) := by
  intro fcntl acts
  have hRun : run step (init InterestList.empty) acts = some _ := rfl
  refine ⟨_, hRun, (list_mirrors_asyncs ?_ hRun).1⟩
  refine .cons (by simp [Proper, held, init]) rfl ?_
  refine .cons (fun this _ inner _ => rfl) rfl ?_
  refine .cons (fun addr => ?_) rfl ?_
  · obtain rfl | h := eq_or_ne addr 0
    · decide
    · simp [held, World.set, init, h]
  exact .cons trivial rfl (.cons trivial rfl trivial)

end World

end Ground
