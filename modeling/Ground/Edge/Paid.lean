import Ground.Edge.WakeUps
import Ground.Foundation.Potential

/-! # Wake-ups are paid for

A poll of an `Async` that blocks is paid by an event that was delivered to it, and an
event by a readiness change of its descriptor, by something that arrived there while it
was ready, or by one of its requests to `epoll_ctl`, of which there are two.
-/

namespace Ground

open Mask Transition

variable {T τ R : Type} [AsRawFd T]

theorem Interest.asEvents_bits {interest : Interest} {b : Nat} (h : Has interest.asEvents b) :
    b = 0 ∨ b = 2 := by
  cases interest with
  | read => exact .inl (has_read_iff.mp h)
  | write => exact .inr (has_write_iff.mp h)
  | readWrite => exact (has_or.mp h).imp has_read_iff.mp has_write_iff.mp

namespace Async

def spare (this : Async T τ) (b : Nat) : Nat := if Has this.waiter.waitingFor b then 0 else 1

def unasked (this : Async T τ) : Nat :=
  (if Has this.waiter.registerFor 0 then 0 else 1) + if Has this.waiter.registerFor 2 then 0 else 1

def Flagged (this : Async T τ) : Prop :=
  this.waiter.registerFor ≠ 0#32 → Within EPOLLET this.waiter.registerFor

def asking (this : Async T τ) (interest : Interest) : Async T τ :=
  { this with
    waiter :=
      { this.waiter with
        registerFor := this.waiter.registerFor ||| interest.asEvents ||| EPOLLET } }

omit [AsRawFd T] in
theorem flagged_asking (this : Async T τ) (interest : Interest) : (this.asking interest).Flagged :=
  fun _ => within_or_right

omit [AsRawFd T] in
theorem unasked_asking {this : Async T τ} (h : this.Flagged) {interest : Interest}
    (hNew : this.waiter.registerFor ||| interest.asEvents ||| EPOLLET ≠ this.waiter.registerFor) :
    1 + (this.asking interest).unasked ≤ this.unasked := by
  have hFresh : ∃ b, Has interest.asEvents b ∧ ¬ Has this.waiter.registerFor b := by
    by_contra hNone
    have hWithin : ∀ b, Has interest.asEvents b → Has this.waiter.registerFor b := by
      intro b hBit
      by_contra hNot
      exact hNone ⟨b, hBit, hNot⟩
    obtain ⟨b, hBit⟩ := ne_zero_iff.mp interest.asEvents_ne_zero
    have hFlag := h (ne_zero_iff.mpr ⟨b, hWithin b hBit⟩)
    refine hNew (ext_has fun b => ?_)
    simp only [has_or]
    constructor
    · rintro ((hReg | hAsked) | hEt)
      · exact hReg
      · exact hWithin b hAsked
      · exact hFlag.has hEt
    · exact fun hReg => .inl (.inl hReg)
  obtain ⟨b, hBit, hNot⟩ := hFresh
  have hNow : Has (this.asking interest).waiter.registerFor b :=
    has_or.mpr (.inl (has_or.mpr (.inr hBit)))
  have hStays : ∀ b, Has this.waiter.registerFor b →
      Has (this.asking interest).waiter.registerFor b :=
    fun b hReg => has_or.mpr (.inl (has_or.mpr (.inl hReg)))
  unfold unasked
  obtain rfl | rfl := interest.asEvents_bits hBit
  · by_cases hWrite : Has this.waiter.registerFor 2
    · simp [hNow, hNot, hWrite, hStays 2 hWrite]
    · simp only [hNow, hNot, hWrite, if_true, if_false]
      split <;> omega
  · by_cases hRead : Has this.waiter.registerFor 0
    · simp [hNow, hNot, hRead, hStays 0 hRead]
    · simp only [hNow, hNot, hRead, if_true, if_false]
      split <;> omega

end Async

namespace Edge

def inFlight (s : Edge T τ) (addr : Addr) : Nat :=
  match s.phase with
  | .dispatching events => events.countP (·.data = addr)
  | _ => 0

def onTheWay (addr : Addr) (fd : RawFd) (s : Edge T τ) : Nat :=
  s.inFlight addr + (s.kernel.queued fd).toNat

def spare (addr : Addr) (b : Nat) (s : Edge T τ) : Nat :=
  ((s.world.asyncs addr).map (·.spare b)).getD 0

def unasked (addr : Addr) (s : Edge T τ) : Nat := ((s.world.asyncs addr).map (·.unasked)).getD 0

/-- Counts the polls at this address that await this bit and block. -/
def blocks (addr : Addr) (b : Nat) (s : Edge T τ) : Act T τ R → Nat
  | .poll addr' waker interest f =>
    match s.world.asyncs addr' with
    | some this =>
      match (this.pollAttempt waker interest f).1 with
      | .blocked _ => if addr' = addr ∧ Has interest.asEvents b then 1 else 0
      | _ => 0
    | none => 0
  | _ => 0

/-- Counts the calls of `epoll_ctl` that polls at this address make. -/
def requests (addr : Addr) (s : Edge T τ) : Act T τ R → Nat
  | .register =>
    match s.phase with
    | .registering addr' _ interest =>
      match s.world.asyncs addr' with
      | some this =>
        let alreadyRegistered := this.waiter.registerFor
        let registerFor := alreadyRegistered ||| interest.asEvents ||| EPOLLET
        if addr' = addr ∧ registerFor ≠ alreadyRegistered then 1 else 0
      | none => 0
    | _ => 0
  | _ => 0

def deliveries (addr : Addr) (s : Edge T τ) : Act T τ R → Nat
  | .deliver =>
    match s.phase with
    | .dispatching (event :: _) => if event.data = addr then 1 else 0
    | _ => 0
  | _ => 0

/-- Counts the changes that turn a registered direction of this descriptor ready. -/
def rises (fd : RawFd) (s : Edge T τ) : Act T τ R → Nat
  | .become fd' readable writable =>
    if fd' = fd then (s.kernel.rises fd (directions readable writable)).toNat else 0
  | _ => 0

def Act.Keeps (addr : Addr) : Act T τ R → Prop
  | .take addr' | .drop addr' => addr' ≠ addr
  | _ => True

/-- What a step does with an `Async` and its descriptor, and how that is paid. -/
structure Settles (addr : Addr) (fd : RawFd) (s s' : Edge T τ) (act : Act T τ R)
    (this this' : Async T τ) : Prop where
  pinned : s'.world.asyncs addr = some this'
  held : this'.heldFd = this.heldFd
  flagged : this.Flagged → this'.Flagged
  blocked : ∀ b, blocks addr b s act + this'.spare b ≤ this.spare b + deliveries addr s act
  delivered : deliveries addr s act + onTheWay addr fd s' ≤
    onTheWay addr fd s + (requests addr s act + rises fd s act)
  asked : this.Flagged → requests addr s act + this'.unasked ≤ this.unasked

namespace Settles

variable {s s' : Edge T τ} {addr : Addr} {fd : RawFd} {this that : Async T τ}

theorem still {act : Act T τ R} (hPinned : s'.world.asyncs addr = some this)
    (hBlocks : ∀ b, blocks addr b s act = 0) (hDeliveries : deliveries addr s act = 0)
    (hRequests : requests addr s act = 0)
    (hWay : onTheWay addr fd s' ≤ onTheWay addr fd s + rises fd s act) :
    Settles addr fd s s' act this this where
  pinned := hPinned
  held := rfl
  flagged := id
  blocked b := by simp [hBlocks, hDeliveries]
  delivered := by simpa [hDeliveries, hRequests] using hWay
  asked _ := by simp [hRequests]

theorem become (hThis : s.world.asyncs addr = some this) (fd' : RawFd) (readable writable : Bool) :
    Settles addr fd s (s.withKernel (s.kernel.become fd' (directions readable writable)))
      (.become fd' readable writable : Act T τ R) this this := by
  refine .still hThis (fun _ => rfl) rfl rfl ?_
  have hFlight : (s.withKernel (s.kernel.become fd' (directions readable writable))).inFlight addr =
      s.inFlight addr := rfl
  simp only [onTheWay, rises, hFlight]
  obtain rfl | hFd := eq_or_ne fd fd'
  · have hQueued := s.kernel.become_queued fd (directions readable writable)
    simp only [withKernel, kernel, if_true] at hQueued ⊢
    rw [hQueued]
    cases EdgeKernel.queued s.world.reactor.epfd fd <;>
      cases EdgeKernel.rises s.world.reactor.epfd fd (directions readable writable) <;> simp
  · have hQueued : (s.kernel.become fd' (directions readable writable)).queued fd =
        s.kernel.queued fd := Function.update_of_ne hFd ..
    simp only [withKernel, kernel] at hQueued ⊢
    rw [hQueued]
    omega

theorem new (hThis : s.world.asyncs addr = some this) {addr' : Addr} {fcntl : Fcntl} {value : T}
    (hStep : s.step (R := R) (.new addr' fcntl value) = some s') :
    Settles addr fd s s' (.new addr' fcntl value : Act T τ R) this this := by
  refine .still (new_asyncs hStep hThis) (fun _ => rfl) rfl rfl ?_
  obtain ⟨-, -, rfl | rfl⟩ := step_new hStep
  · exact Nat.le_refl _
  · exact Nat.le_refl _

theorem onTheWay_elsewhere (h : s.Safe) (hThis : s.world.asyncs addr = some this)
    (hFd : this.heldFd = some fd) {addr' : Addr} (hThat : s.world.asyncs addr' = some that)
    (hAddr : addr' ≠ addr) (hElsewhere : s.kernel.Elsewhere that.heldFd s'.kernel)
    (hFlight : s'.inFlight addr = 0) : onTheWay addr fd s' ≤ onTheWay addr fd s := by
  have hOther : some fd ≠ that.heldFd := by
    rw [← hFd]
    obtain hNone | hOther := h.heldFd_ne hThis hThat hAddr
    · simp [hNone, hFd]
    · exact hOther.symm
  rw [onTheWay, onTheWay, hFlight, hElsewhere.2 fd hOther]
  omega

theorem take (h : s.Safe) (hThis : s.world.asyncs addr = some this) (hFd : this.heldFd = some fd)
    {addr' : Addr} (hAddr : addr' ≠ addr) (hStep : s.step (R := R) (.take addr') = some s') :
    Settles addr fd s s' (.take addr' : Act T τ R) this this := by
  refine .still ((take_asyncs hAddr.symm hStep).trans hThis) (fun _ => rfl) rfl rfl ?_
  obtain ⟨hIdle, those, hThose, rfl⟩ := step_take hStep
  have hElsewhere := those.deregister_elsewhere s.world.reactor
  rw [← Async.takeInner_reactor] at hElsewhere
  refine onTheWay_elsewhere h hThis hFd hThose hAddr hElsewhere ?_
  simp only [inFlight, hIdle]

theorem drop (h : s.Safe) (hThis : s.world.asyncs addr = some this) (hFd : this.heldFd = some fd)
    {addr' : Addr} (hAddr : addr' ≠ addr) (hStep : s.step (R := R) (.drop addr') = some s') :
    Settles addr fd s s' (.drop addr' : Act T τ R) this this := by
  refine .still ((drop_asyncs hAddr.symm hStep).trans hThis) (fun _ => rfl) rfl rfl ?_
  obtain ⟨hIdle, those, hThose, rfl⟩ := step_drop hStep
  refine onTheWay_elsewhere h hThis hFd hThose hAddr
    (those.deregister_elsewhere s.world.reactor) ?_
  simp only [inFlight, hIdle]

theorem onTheWay_poll (hIdle : s.phase = .idle) {addr' : Addr} {waker : Waker τ}
    {interest : Interest} {f : Closure T R} (hPoll : s.poll addr' waker interest f = some s') :
    onTheWay addr fd s' = onTheWay addr fd s := by
  obtain ⟨those, hThose, hRun⟩ := Option.bind_eq_some_iff.mp hPoll
  split at hRun
  · cases hRun
    simp only [onTheWay, inFlight, hIdle]
    rfl
  · cases hRun
    rfl

theorem poll_elsewhere (hThis : s.world.asyncs addr = some this) {addr' : Addr}
    {waker : Waker τ} {interest : Interest} {f : Closure T R} (hAddr : addr' ≠ addr)
    (hStep : s.step (.poll addr' waker interest f) = some s') :
    Settles addr fd s s' (.poll addr' waker interest f) this this := by
  obtain ⟨hIdle, hPoll⟩ := step_poll hStep
  obtain ⟨those, hThose, -⟩ := Option.bind_eq_some_iff.mp hPoll
  refine .still ?_ (fun b => ?_) rfl rfl (onTheWay_poll hIdle hPoll).le
  · rw [poll_asyncs hThose hPoll, Function.update_of_ne hAddr.symm, hThis]
  · simp only [blocks, hThose, hAddr, false_and, if_false]
    split <;> rfl

theorem poll (hThis : s.world.asyncs addr = some this) (hFd : this.heldFd = some fd)
    {waker : Waker τ} {interest : Interest} {f : Closure T R}
    (hSame : ∀ inner, this.inner = some inner → asRawFd (f inner).2 = asRawFd inner)
    (hStep : s.step (.poll addr waker interest f) = some s') :
    Settles addr fd s s' (.poll addr waker interest f) this
      (this.pollAttempt waker interest f).2 := by
  obtain ⟨hIdle, hPoll⟩ := step_poll hStep
  obtain ⟨inner, hInner, rfl⟩ := Option.map_eq_some_iff.mp hFd
  have hSame := hSame inner hInner
  have hPinned : s'.world.asyncs addr = some (this.pollAttempt waker interest f).2 := by
    rw [poll_asyncs hThis hPoll, Function.update_self]
  have hWay : onTheWay addr (asRawFd inner) s' = onTheWay addr (asRawFd inner) s :=
    onTheWay_poll hIdle hPoll
  have hCost : ∀ b, blocks addr b s (.poll addr waker interest f) =
      match (this.pollAttempt waker interest f).1 with
      | .blocked _ => if Has interest.asEvents b then 1 else 0
      | _ => 0 := by
    intro b
    simp only [blocks, hThis, true_and]
  obtain ⟨-, hAttempt⟩ | ⟨hFree, -, hAttempt⟩ | ⟨-, -, hAttempt⟩ :=
    Async.pollAttempt_cases hInner waker interest f
  · rw [hAttempt] at hPinned hCost ⊢
    exact .still hPinned hCost rfl rfl hWay.le
  · rw [hAttempt] at hPinned hCost ⊢
    refine ⟨hPinned, ?_, id, fun b => ?_, (Nat.zero_add _).trans_le hWay.le,
      fun _ => (Nat.zero_add _).le⟩
    · simp [Async.heldFd, hInner, hSame]
    · rw [hCost]
      simp only [Async.spare, Async.block_waitingFor, has_or, deliveries]
      by_cases hBit : Has interest.asEvents b
      · have hNot : ¬ Has this.waiter.waitingFor b := meet_eq_zero_iff.mp hFree b hBit
        simp [hBit, hNot]
      · simp [hBit]
  · rw [hAttempt] at hPinned hCost ⊢
    refine ⟨hPinned, ?_, id, fun b => ?_, (Nat.zero_add _).trans_le hWay.le,
      fun _ => (Nat.zero_add _).le⟩
    · simp [Async.heldFd, hInner, hSame]
    · rw [hCost]
      exact (Nat.zero_add _).le

theorem register (h : s.Safe) (hThis : s.world.asyncs addr = some this)
    (hFd : this.heldFd = some fd) {addr' : Addr} {fd' : RawFd} {interest : Interest}
    (hPhase : s.phase = .registering addr' fd' interest)
    (hRegister : s.register addr' fd' interest = some s') :
    ∃ this', Settles addr fd s s' (.register : Act T τ R) this this' := by
  have hSteady := h.steady
  rw [Steady, hPhase] at hSteady
  obtain ⟨-, those, inner, hThose, hInner, rfl⟩ := hSteady
  obtain ⟨those', hThose', hRun⟩ := Option.bind_eq_some_iff.mp hRegister
  obtain rfl := Option.some.inj (hThose.symm.trans hThose')
  have hQueue := (h.queue_register hThose hInner interest).1
  have hWaiter := ensureRegistered_waiter (asRawFd inner) addr' those.waiter interest
    s.world.reactor
  have hCases := ensureRegistered_cases (asRawFd inner) addr' those.waiter interest
    s.world.reactor
  rcases hEnsure : ensureRegistered (asRawFd inner) addr' those.waiter interest s.world.reactor
    with ⟨outcome, waiter, r⟩
  simp only [hEnsure] at hRun hQueue hWaiter hCases
  subst hWaiter
  cases hRun
  obtain rfl | hAddr := eq_or_ne addr' addr
  · obtain rfl := Option.some.inj (hThis.symm.trans hThose)
    have hPinned : (s.world.set addr' (this.asking interest) r).asyncs addr' =
        some (this.asking interest) := Function.update_self ..
    have hRequests : requests addr' s (.register : Act T τ R) =
        if this.waiter.registerFor ||| interest.asEvents ||| EPOLLET ≠ this.waiter.registerFor
        then 1 else 0 := by
      simp only [requests, hPhase, hThis, true_and]
    refine ⟨this.asking interest, hPinned, rfl, fun _ => this.flagged_asking interest,
      fun b => (Nat.zero_add _).le, ?_, fun hFlagged => ?_⟩
    · obtain rfl : fd = asRawFd inner := by simpa [Async.heldFd, hInner] using hFd.symm
      have hOnce : (r.epfd.queued (asRawFd inner)).toNat ≤ 1 := Bool.toNat_le _
      have hPaid : (r.epfd.queued (asRawFd inner)).toNat ≤
          (s.kernel.queued (asRawFd inner)).toNat + requests addr' s (.register : Act T τ R) := by
        rw [hRequests]
        obtain ⟨hSame, hRun⟩ | ⟨hNew, -⟩ | ⟨hNew, -⟩ := hCases
        · obtain rfl : r = s.world.reactor := congrArg (·.2.2) hRun
          exact Nat.le_add_right _ _
        · rw [if_pos hNew]
          omega
        · rw [if_pos hNew]
          omega
      simpa [onTheWay, inFlight, hPhase, deliveries, rises, kernel, World.set] using hPaid
    · rw [hRequests]
      split
      · rename_i hNew
        exact Async.unasked_asking hFlagged hNew
      · rename_i hSame
        rw [Nat.zero_add, Async.asking, not_not.mp hSame]
  · refine ⟨this, .still ((Function.update_of_ne hAddr.symm ..).trans hThis) (fun _ => rfl) rfl ?_
      (onTheWay_elsewhere h hThis hFd hThose hAddr hQueue rfl)⟩
    simp [requests, hPhase, hThose, hAddr]

theorem countP_wait (h : s.Safe) (hThis : s.world.asyncs addr = some this)
    (hFd : this.heldFd = some fd) {fds : List RawFd} (hNodup : fds.Nodup) :
    (s.kernel.wait fds).1.countP (·.data = addr) ≤ if fd ∈ fds then 1 else 0 := by
  have hOnly : ∀ fd' event, s.kernel.report fd' = some event → event.data = addr → fd' = fd := by
    intro fd' event hReport hData
    obtain ⟨entry, hEntry, hSame⟩ := EdgeKernel.report_data hReport
    obtain ⟨those, hThose, hListed⟩ := h.mirrors.live hEntry
    rw [hSame, hData] at hThose
    obtain rfl := Option.some.inj (hThis.symm.trans hThose)
    obtain ⟨inner, hInner, rfl, -⟩ := Async.entry_eq_some_iff.mp hListed
    simpa [Async.heldFd, hInner] using hFd
  have hCount : (s.kernel.wait fds).1.countP (·.data = addr) ≤ fds.countP (· == fd) := by
    simp only [EdgeKernel.wait, List.countP_filterMap]
    refine List.countP_mono_left fun fd' _ hReported => ?_
    cases hReport : s.kernel.report fd' with
    | none => simp [hReport] at hReported
    | some event =>
      simp only [hReport, Option.map_some, Option.getD_some, decide_eq_true_eq] at hReported
      exact beq_iff_eq.mpr (hOnly fd' event hReport hReported)
  rwa [← List.count_eq_countP, hNodup.count] at hCount

theorem wait (h : s.Safe) (hThis : s.world.asyncs addr = some this) (hFd : this.heldFd = some fd)
    {fds : List RawFd} (hStep : s.step (.wait fds : Act T τ R) = some s') :
    Settles addr fd s s' (.wait fds : Act T τ R) this this := by
  obtain ⟨hIdle, hTakes, rfl⟩ := step_wait hStep
  refine .still hThis (fun _ => rfl) rfl rfl ?_
  have hCount := countP_wait h hThis hFd hTakes.1
  simp only [onTheWay, inFlight, hIdle, rises, kernel] at hCount ⊢
  by_cases hMem : fd ∈ fds
  · have hQueued := hTakes.2.1 fd hMem
    simp only [kernel] at hQueued
    rw [if_pos hMem] at hCount
    simp only [EdgeKernel.wait, hQueued, hMem, not_true_eq_false, decide_false, Bool.and_false,
      Bool.toNat_true, Bool.toNat_false] at hCount ⊢
    omega
  · rw [if_neg hMem] at hCount
    simp only [EdgeKernel.wait, hMem, not_false_eq_true, decide_true, Bool.and_true] at hCount ⊢
    omega

theorem deliver (hThis : s.world.asyncs addr = some this) {event : EpollEvent}
    {events : List EpollEvent} (hPhase : s.phase = .dispatching (event :: events))
    (hDeliver : s.deliver event events = some s') :
    ∃ this', Settles addr fd s s' (.deliver : Act T τ R) this this' := by
  obtain ⟨those, hThose, hRun⟩ := Option.bind_eq_some_iff.mp hDeliver
  cases hRun
  obtain hAddr | hAddr := eq_or_ne event.data addr
  · rw [hAddr] at hThose
    obtain rfl := Option.some.inj (hThis.symm.trans hThose)
    let waiter := (Reactor.deliver event this.waiter).1
    have hCost : deliveries addr s (.deliver : Act T τ R) = 1 := by
      simp only [deliveries, hPhase, hAddr, if_true]
    refine ⟨{ this with waiter }, ?_, rfl, id, fun b => ?_, ?_, fun _ => (Nat.zero_add _).le⟩
    · rw [hAddr]
      exact Function.update_self ..
    · rw [hCost]
      simp only [blocks, Async.spare]
      split <;> split <;> omega
    · rw [hCost]
      simp only [onTheWay, inFlight, hPhase, List.countP_cons, hAddr, decide_true, if_true,
        requests, rises]
      exact (by omega : ∀ m n : Nat, 1 + (m + n) ≤ m + 1 + n + (0 + 0)) _ _
  · refine ⟨this, .still ((Function.update_of_ne hAddr.symm ..).trans hThis) (fun _ => rfl) ?_ rfl
      ?_⟩
    · simp only [deliveries, hPhase, hAddr, if_false]
    · simp only [onTheWay, inFlight, hPhase, List.countP_cons, hAddr, decide_false,
        Bool.false_eq_true, if_false]
      exact Nat.le_add_right _ _

theorem finish (hThis : s.world.asyncs addr = some this) (hPhase : s.phase = .dispatching []) :
    Settles addr fd s s.finish (.deliver : Act T τ R) this this := by
  refine .still hThis (fun _ => rfl) ?_ rfl ?_
  · simp only [deliveries, hPhase]
  · simp only [onTheWay, inFlight, hPhase, List.countP_nil]
    exact Nat.le_refl _

/-- Every step settles, unless it ends the `Async`. -/
theorem step (h : s.Safe) (hThis : s.world.asyncs addr = some this) (hFd : this.heldFd = some fd)
    {act : Act T τ R} (hAssumed : s.Assumed act) (hKeeps : act.Keeps addr)
    (hStep : s.step act = some s') : ∃ this', Settles addr fd s s' act this this' := by
  cases act with
  | new addr' fcntl value => exact ⟨this, .new hThis hStep⟩
  | poll addr' waker interest f =>
    obtain rfl | hAddr := eq_or_ne addr' addr
    · exact ⟨_, .poll hThis hFd (fun inner hInner => (hAssumed this inner hThis hInner).1) hStep⟩
    · exact ⟨this, .poll_elsewhere hThis hAddr hStep⟩
  | register =>
    obtain ⟨addr', fd', interest, hPhase, hRegister⟩ := step_register hStep
    exact register h hThis hFd hPhase hRegister
  | take addr' => exact ⟨this, .take h hThis hFd hKeeps hStep⟩
  | drop addr' => exact ⟨this, .drop h hThis hFd hKeeps hStep⟩
  | wait fds => exact ⟨this, .wait h hThis hFd hStep⟩
  | deliver =>
    obtain ⟨hPhase, rfl⟩ | ⟨event, events, hPhase, hDeliver⟩ := step_deliver hStep
    · exact ⟨this, .finish hThis hPhase⟩
    · exact deliver hThis hPhase hDeliver
  | become fd' readable writable =>
    simp only [Edge.step] at hStep
    cases hStep
    exact ⟨this, .become hThis fd' readable writable⟩

end Settles

section

variable {s s' : Edge T τ} {addr : Addr} {fd : RawFd}

theorem orderly_step (h : s.kernel.Orderly) {act : Act T τ R} (hStep : s.step act = some s') :
    s'.kernel.Orderly := by
  have hDeregister : ∀ this : Async T τ, (this.deregister s.world.reactor).2.2.epfd.Orderly := by
    intro this
    obtain hSame | ⟨inner, -, -, hAsked⟩ := this.deregister_reactor s.world.reactor
    · rw [hSame]
      exact h
    · rw [hAsked]
      exact h.epollCtl (.delete (asRawFd inner))
  cases act with
  | new addr fcntl value =>
    obtain ⟨-, -, rfl | rfl⟩ := step_new hStep
    · exact h
    · exact h
  | poll addr waker interest f =>
    obtain ⟨this, -, hRun⟩ := Option.bind_eq_some_iff.mp (step_poll hStep).2
    split at hRun
    · cases hRun
      exact h
    · cases hRun
      exact h
  | register =>
    obtain ⟨addr, fd, interest, -, hRegister⟩ := step_register hStep
    obtain ⟨this, -, hRun⟩ := Option.bind_eq_some_iff.mp hRegister
    have hCases := ensureRegistered_cases fd addr this.waiter interest s.world.reactor
    rcases hEnsure : ensureRegistered fd addr this.waiter interest s.world.reactor
      with ⟨outcome, waiter, r⟩
    simp only [hEnsure] at hRun hCases
    cases hRun
    obtain ⟨-, hSame⟩ | ⟨-, -, hAsked⟩ | ⟨-, -, hAsked⟩ := hCases
    · obtain rfl : r = s.world.reactor := congrArg (·.2.2) hSame
      exact h
    · obtain rfl := congrArg (·.2.2) hAsked
      exact h.epollCtl _
    · obtain rfl := congrArg (·.2.2) hAsked
      exact h.epollCtl _
  | take addr =>
    obtain ⟨-, this, -, rfl⟩ := step_take hStep
    have hTaken := hDeregister this
    rwa [← Async.takeInner_reactor] at hTaken
  | drop addr =>
    obtain ⟨-, this, -, rfl⟩ := step_drop hStep
    exact hDeregister this
  | wait fds =>
    obtain ⟨-, -, rfl⟩ := step_wait hStep
    exact h.wait fds
  | deliver =>
    obtain ⟨-, rfl⟩ | ⟨event, events, -, hDeliver⟩ := step_deliver hStep
    · exact h
    · obtain ⟨this, -, hRun⟩ := Option.bind_eq_some_iff.mp hDeliver
      cases hRun
      exact h
  | become fd readable writable =>
    simp only [step] at hStep
    cases hStep
    exact h.become fd _

structure Holds (addr : Addr) (fd : RawFd) (s : Edge T τ) (this : Async T τ) : Prop where
  safe : s.Safe
  pinned : s.world.asyncs addr = some this
  held : this.heldFd = some fd
  flagged : this.Flagged

theorem holds_new (h : s.Safe) (hOrderly : s.kernel.Orderly) {fcntl : Fcntl} {value : T}
    (hAssumed : s.Assumed (R := R) (.new addr fcntl value))
    (hStep : s.step (R := R) (.new addr fcntl value) = some s')
    (hWrapped : (s'.world.asyncs addr).isSome) :
    ∃ this, Holds addr (asRawFd value) s' this ∧ onTheWay addr (asRawFd value) s' = 0 := by
  have hSafe := h.step hAssumed hStep
  obtain ⟨this, hThis⟩ := Option.isSome_iff_exists.mp hWrapped
  obtain ⟨-, rfl⟩ := new_wraps hStep hThis
  refine ⟨_, ⟨hSafe, hThis, rfl, fun hReg => absurd rfl hReg⟩, ?_⟩
  have hFree : s.kernel.queued (asRawFd value) = false := by
    by_contra hQueued
    obtain ⟨entry, hEntry⟩ :=
      Option.isSome_iff_exists.mp (hOrderly _ (Bool.not_eq_false _ ▸ hQueued))
    obtain ⟨those, hThose, hListed⟩ := h.mirrors.live hEntry
    obtain ⟨inner, hInner, hFd, -⟩ := Async.entry_eq_some_iff.mp hListed
    refine hAssumed entry.data ?_
    simp [World.held_of_asyncs hThose, Async.heldFd, hInner, hFd]
  obtain ⟨hIdle, -, rfl | rfl⟩ := step_new hStep
  · simp [onTheWay, inFlight, hIdle, hFree]
  · have hSame : onTheWay addr (asRawFd value) s = 0 := by
      simp [onTheWay, inFlight, hIdle, hFree]
    exact hSame

namespace Holds

variable {this : Async T τ}

theorem step (h : Holds addr fd s this) {act : Act T τ R} (hAssumed : s.Assumed act)
    (hKeeps : act.Keeps addr) (hStep : s.step act = some s') :
    ∃ this', Holds addr fd s' this' ∧ Settles addr fd s s' act this this' := by
  obtain ⟨this', hSettles⟩ := Settles.step h.safe h.pinned h.held hAssumed hKeeps hStep
  exact ⟨this', ⟨h.safe.step hAssumed hStep, hSettles.pinned, hSettles.held.trans h.held,
    hSettles.flagged h.flagged⟩, hSettles⟩

theorem spare_eq (h : Holds addr fd s this) (b : Nat) : spare addr b s = this.spare b := by
  rw [spare, h.pinned, Option.map_some, Option.getD_some]

theorem unasked_eq (h : Holds addr fd s this) : unasked addr s = this.unasked := by
  rw [unasked, h.pinned, Option.map_some, Option.getD_some]

theorem unasked_le (h : Holds addr fd s this) : unasked addr s ≤ 2 := by
  rw [h.unasked_eq, Async.unasked]
  split <;> split <;> omega

end Holds

end

/-- A step of the thread or of a descriptor's readiness, or an arrival: it queues a
registered descriptor again although its readiness stays as it is. -/
inductive Turn (T τ R : Type) where
  | step (act : Act T τ R)
  | arrive (fd : RawFd)

def notify (s : Edge T τ) (fd : RawFd) : Edge T τ :=
  s.withKernel
    { s.kernel with
      queued := Function.update s.kernel.queued fd
        (s.kernel.queued fd || (s.kernel.interest fd).isSome) }

def turn (s : Edge T τ) : Turn T τ R → Option (Edge T τ)
  | .step act => s.step act
  | .arrive fd => some (s.notify fd)

namespace Turn

def Assumed (s : Edge T τ) : Turn T τ R → Prop
  | .step act => s.Assumed act
  | .arrive _ => True

def Keeps (addr : Addr) : Turn T τ R → Prop
  | .step act => act.Keeps addr
  | .arrive _ => True

def cost (cost : Edge T τ → Act T τ R → Nat) (s : Edge T τ) : Turn T τ R → Nat
  | .step act => cost s act
  | .arrive _ => 0

/-- Counts what arrives at this descriptor. -/
def arrivals (fd : RawFd) (_ : Edge T τ) : Turn T τ R → Nat
  | .arrive fd' => if fd' = fd then 1 else 0
  | .step _ => 0

end Turn

section

variable {s s' : Edge T τ} {addr : Addr} {fd : RawFd}

theorem Safe.notify (h : s.Safe) (fd : RawFd) : (s.notify fd).Safe where
  mirrors := h.mirrors
  distinct := h.distinct
  covering := h.covering
  alert addr this hThis inner b hInner hWaits hReg hReady := by
    refine (h.alert addr this hThis inner b hInner hWaits hReg hReady).imp_left fun hQueued => ?_
    simp only [Edge.notify, withKernel, kernel, Function.update_apply] at hQueued ⊢
    split
    · rename_i hFd
      rw [← hFd, hQueued, Bool.true_or]
    · exact hQueued
  steady := h.steady

omit [AsRawFd T] in
theorem orderly_notify (h : s.kernel.Orderly) (fd : RawFd) : (s.notify fd).kernel.Orderly := by
  intro fd' hQueued
  simp only [notify, withKernel, kernel, Function.update_apply] at hQueued
  split at hQueued
  · rename_i hFd
    obtain hBefore | hListed := Bool.or_eq_true_iff.mp hQueued
    · exact hFd ▸ h fd hBefore
    · exact hFd ▸ hListed
  · exact h fd' hQueued

omit [AsRawFd T] in
theorem onTheWay_notify (addr : Addr) (fd fd' : RawFd) (s : Edge T τ) :
    onTheWay addr fd (s.notify fd') ≤ onTheWay addr fd s + if fd' = fd then 1 else 0 := by
  have hFlight : (s.notify fd').inFlight addr = s.inFlight addr := rfl
  rw [onTheWay, onTheWay, hFlight]
  obtain rfl | hFd := eq_or_ne fd' fd
  · have hOnce : ((s.notify fd').kernel.queued fd').toNat ≤ 1 := Bool.toNat_le _
    rw [if_pos rfl]
    omega
  · have hSame : (s.notify fd').kernel.queued fd = s.kernel.queued fd :=
      Function.update_of_ne hFd.symm ..
    rw [hSame, if_neg hFd, Nat.add_zero]

theorem safe_turn (h : s.Safe ∧ s.kernel.Orderly) {turn : Turn T τ R}
    (hAssumed : Turn.Assumed s turn) (hStep : s.turn turn = some s') :
    s'.Safe ∧ s'.kernel.Orderly := by
  cases turn with
  | step act => exact ⟨h.1.step hAssumed hStep, orderly_step h.2 hStep⟩
  | arrive fd =>
    cases hStep
    exact ⟨h.1.notify fd, orderly_notify h.2 fd⟩

theorem Holds.turn {this : Async T τ} (h : Holds addr fd s this) {turn : Turn T τ R}
    (hAssumed : Turn.Assumed s turn) (hKeeps : turn.Keeps addr) (hStep : s.turn turn = some s') :
    (∃ this', Holds addr fd s' this') ∧
      (∀ b, Turn.cost (blocks addr b) s turn + spare addr b s' ≤
        spare addr b s + Turn.cost (deliveries addr) s turn) ∧
      Turn.cost (deliveries addr) s turn + onTheWay addr fd s' ≤ onTheWay addr fd s +
        (Turn.cost (requests addr) s turn +
          (Turn.cost (rises fd) s turn + Turn.arrivals fd s turn)) ∧
      Turn.cost (requests addr) s turn + unasked addr s' ≤ unasked addr s := by
  cases turn with
  | step act =>
    obtain ⟨this', h', hSettles⟩ := h.step hAssumed hKeeps hStep
    refine ⟨⟨this', h'⟩, fun b => ?_, hSettles.delivered, ?_⟩
    · rw [h.spare_eq, h'.spare_eq]
      exact hSettles.blocked b
    · rw [h.unasked_eq, h'.unasked_eq]
      exact hSettles.asked h.flagged
  | arrive fd' =>
    cases hStep
    refine ⟨⟨this, h.safe.notify fd', h.pinned, h.held, h.flagged⟩, fun b => ?_, ?_, ?_⟩
    · exact (Nat.zero_add _).le
    · have hWay := onTheWay_notify addr fd fd' s
      simpa only [Turn.cost, Turn.arrivals, Nat.zero_add] using hWay
    · exact (Nat.zero_add _).le

/-- From its creation until it is taken or dropped, whatever else the thread and the
kernel do: the polls of an `Async` that await a direction and block, but for one, are
paid by the events delivered to it; these by its requests, by changes that turn its
descriptor ready and by what arrives there; and it makes two requests at most. -/
theorem wake_ups_paid {ready : RawFd → Events} {before after : List (Turn T τ R)} {s₀ t : Edge T τ}
    (hBefore : Meets turn Turn.Assumed (init ready) before)
    (hRun : run turn (init ready) before = some s₀) {fcntl : Fcntl} {value : T}
    (hAssumed : s₀.Assumed (R := R) (.new addr fcntl value))
    (hNew : s₀.step (R := R) (.new addr fcntl value) = some s)
    (hWrapped : (s.world.asyncs addr).isSome)
    (hAfter : Meets turn (fun s turn => Turn.Assumed s turn ∧ turn.Keeps addr) s after)
    (hRun' : run turn s after = some t) :
    (∀ b, tally turn (Turn.cost (blocks addr b)) s after ≤
      1 + tally turn (Turn.cost (deliveries addr)) s after) ∧
    tally turn (Turn.cost (deliveries addr)) s after ≤
      tally turn (Turn.cost (requests addr)) s after +
        (tally turn (Turn.cost (rises (asRawFd value))) s after +
          tally turn (Turn.arrivals (asRawFd value)) s after) ∧
    tally turn (Turn.cost (requests addr)) s after ≤ 2 := by
  have hSafe : s₀.Safe ∧ s₀.kernel.Orderly :=
    invariant_of_meets (I := fun s : Edge T τ => s.Safe ∧ s.kernel.Orderly)
      (fun _ _ _ h hOk hStep => safe_turn h hOk hStep)
      ⟨safe_init ready, by rintro fd ⟨⟩⟩ hBefore hRun
  obtain ⟨this, hHolds, hNothing⟩ := holds_new hSafe.1 hSafe.2 hAssumed hNew hWrapped
  let Followed (s : Edge T τ) : Prop := ∃ this, Holds addr (asRawFd value) s this
  have hKept : ∀ (s : Edge T τ) (turn : Turn T τ R) s', Followed s →
      Turn.Assumed s turn ∧ turn.Keeps addr → s.turn turn = some s' → Followed s' :=
    fun s turn s' ⟨this, h⟩ hOk hStep => (h.turn hOk.1 hOk.2 hStep).1
  refine ⟨fun b => ?_, ?_, ?_⟩
  · have hPaid := tally_le_of_potential _ _ (spare addr b) hKept
      (fun s turn s' ⟨this, h⟩ hOk hStep => (h.turn hOk.1 hOk.2 hStep).2.1 b)
      ⟨this, hHolds⟩ hAfter hRun'
    have hOne : spare addr b s ≤ 1 := by
      rw [hHolds.spare_eq, Async.spare]
      split <;> omega
    omega
  · have hPaid := tally_le_of_potential _ _ (onTheWay addr (asRawFd value)) hKept
      (fun s turn s' ⟨this, h⟩ hOk hStep => (h.turn hOk.1 hOk.2 hStep).2.2.1)
      ⟨this, hHolds⟩ hAfter hRun'
    rw [hNothing, tally_add, tally_add] at hPaid
    omega
  · have hPaid := tally_le_of_potential _ (fun _ _ => 0) (unasked addr) hKept
      (fun s turn s' ⟨this, h⟩ hOk hStep => (h.turn hOk.1 hOk.2 hStep).2.2.2)
      ⟨this, hHolds⟩ hAfter hRun'
    have hTwo := hHolds.unasked_le
    rw [tally_zero] at hPaid
    omega

end

theorem wake_ups_paid_both_directions :
    let acts : List (Act RawFd Nat Nat) :=
      [.poll 0 (.task 1) .read .wouldBlock, .register, .poll 0 (.task 2) .write .wouldBlock,
        .register, .become 3 true false, .wait [3], .deliver, .deliver]
    let after : List (Turn RawFd Nat Nat) :=
      acts.map .step ++ [.arrive 3, .step (.wait [3]), .step .deliver]
    ∃ s t : Edge RawFd Nat, run turn s after = some t ∧
      tally turn (Turn.cost (deliveries 0)) s after = 2 ∧
      2 ≤ tally turn (Turn.cost (requests 0)) s after +
        (tally turn (Turn.cost (rises 3)) s after +
          tally turn (Turn.arrivals 3) s after) := by
  intro acts after
  let fcntl : Fcntl := ⟨fun _ => .ok 0#32, fun _ _ => .ok ()⟩
  let s : Edge RawFd Nat :=
    (step (init fun _ => 0#32) (.new 0 fcntl 3 : Act RawFd Nat Nat)).get rfl
  let t : Edge RawFd Nat := (run turn s after).get (by decide)
  have hRun' : run turn s after = some t := (Option.some_get _).symm
  have hAfter : Meets turn (fun s turn => Turn.Assumed s turn ∧ turn.Keeps 0) s after := by
    refine .cons ⟨?_, trivial⟩ rfl (.cons ⟨trivial, trivial⟩ rfl (.cons ⟨?_, trivial⟩ rfl ?_))
    · rintro this inner ⟨⟩ ⟨⟩
      exact ⟨rfl, fun _ => by decide⟩
    · rintro this inner ⟨⟩ ⟨⟩
      exact ⟨rfl, fun _ => by decide⟩
    · iterate 8 refine ⟨⟨trivial, trivial⟩, fun _ _ => ?_⟩
      trivial
  have hDeliveries :
      tally turn (Turn.cost (deliveries 0)) s after = 2 := by decide
  have hPaid := (@wake_ups_paid RawFd Nat Nat _ s 0 _ [] after _ t trivial rfl fcntl 3
    (by simp [Assumed, World.held, init, World.init]) (Option.some_get _).symm rfl hAfter
    hRun').2.1
  exact ⟨s, t, hRun', hDeliveries, hDeliveries ▸ hPaid⟩

end Edge

end Ground
