import Ground.Io.Claims
import Ground.System.Mirror

/-! # Threads whose registrations may be refused

Any poll or close of a run may find a kernel that refuses to register. While
wrapped values keep their descriptors, every entry of the list still belongs to
an `Async` that says at least as much.
-/

namespace Ground

open Mask Transition

variable {T τ κ R : Type} [AsRawFd T]

namespace World

/-- A call to which the kernel answers as documented, or one whose registration
it refuses for another reason. -/
inductive Trial (T τ R : Type) where
  | call (act : Act T τ R)
  | refused (errno : Errno) (act : Act T τ R)

variable [InterestKernel κ]

def attempt (w : World T τ κ) : Trial T τ R → Option (Response τ × World T τ κ)
  | .call act => w.perform act
  | .refused errno (.poll addr waker interest f) => do
    let this ← w.asyncs addr
    let (outcome, this, reactor) :=
      this.pollNonblocking addr waker interest f (w.reactor.refusing errno)
    some (quiet outcome, w.set addr this reactor.granting)
  | .refused errno (.close addr waker flush) => do
    let this ← w.asyncs addr
    let (outcome, this, reactor) := this.pollClose addr waker flush (w.reactor.refusing errno)
    some (quiet outcome, w.set addr this reactor.granting)
  | .refused _ _ => none

def tried (w : World T τ κ) (trial : Trial T τ R) : Option (World T τ κ) :=
  (w.attempt trial).map Prod.snd

/-- The address and the interest that a call may register for. -/
def Act.registers : Act T τ R → Option (Addr × Interest)
  | .poll addr _ interest _ => some (addr, interest)
  | .close addr _ _ => some (addr, .write)
  | _ => none

def Trial.act : Trial T τ R → Act T τ R
  | .call act | .refused _ act => act

def Stays (w : World T τ κ) (trial : Trial T τ R) : Prop :=
  match trial.act with
  | .poll addr _ _ f => ∀ this, w.asyncs addr = some this → this.Fixed f
  | .close addr _ flush => ∀ this, w.asyncs addr = some this → this.Fixed flush
  | .replace addr value => ∀ this inner, w.asyncs addr = some this → this.inner = some inner →
      asRawFd value = asRawFd inner
  | .swap addr addr' => ∀ this that inner inner', w.asyncs addr = some this →
      w.asyncs addr' = some that → this.inner = some inner → that.inner = some inner' →
      asRawFd inner = asRawFd inner'
  | _ => True

variable {w w' : World T τ κ}

/-- Every entry belongs to an `Async` in memory that says at least as much. -/
structure Claimed (w : World T τ κ) : Prop where
  idle : w.reactor.isDispatching = false
  live : w.Live
  claims : ∀ addr this, w.asyncs addr = some this → this.Claims addr w.reactor.list

theorem claimed_init {kernel : κ} (hEmpty : InterestKernel.interest kernel = .empty) :
    (init kernel : World T τ κ).Claimed where
  idle := rfl
  live := by
    intro fd event hEvent
    have hNone : (init kernel : World T τ κ).reactor.list fd = none := congrFun hEmpty fd
    cases hNone.symm.trans hEvent
  claims := by rintro addr this ⟨⟩

theorem Claimed.update (h : w.Claimed) {addr : Addr} {new : Option (Async T τ)} {r : Reactor κ}
    (hIdle : r.isDispatching = false) (hOthers : OthersFrom addr w.reactor.list r.list)
    (hNew : ∀ this, new = some this → this.Claims addr r.list)
    (hGone : new = none → Cleared addr r.list) :
    Claimed { asyncs := Function.update w.asyncs addr new, reactor := r } where
  idle := hIdle
  live := by
    intro fd event hEvent
    obtain hAddr | hAddr := eq_or_ne event.data addr
    · cases hNone : new with
      | none => exact absurd hAddr (hGone hNone fd event hEvent)
      | some this => simp [hAddr]
    · simpa [hAddr] using h.live fd event (hOthers fd event hEvent hAddr)
  claims := by
    intro addr' this hThis
    obtain rfl | hAddr := eq_or_ne addr' addr
    · exact hNew this (by simpa using hThis)
    · intro fd event hEvent hOwn
      have hThis : w.asyncs addr' = some this := by simpa [hAddr] using hThis
      have hOther : event.data ≠ addr := hOwn ▸ hAddr
      exact h.claims addr' this hThis fd event (hOthers fd event hEvent hOther) hOwn

theorem Claimed.set (h : w.Claimed) {addr : Addr} {this : Async T τ} {r : Reactor κ}
    (hIdle : r.isDispatching = false)
    (hClaims : this.Claims addr r.list ∧ OthersFrom addr w.reactor.list r.list) :
    (w.set addr this r).Claimed := by
  apply h.update hIdle hClaims.2
  · rintro _ ⟨⟩
    exact hClaims.1
  · rintro ⟨⟩

theorem Claimed.cleared (h : w.Claimed) {addr : Addr} (hFree : w.asyncs addr = none) :
    Cleared addr w.reactor.list := by
  rintro fd event hEvent rfl
  have hLive := h.live fd event hEvent
  rw [hFree] at hLive
  cases hLive

theorem Claimed.withWaiters (h : w.Claimed) {waiters' : Waiters τ}
    (hAll : ∀ addr, Delivered (w.waiters addr) (waiters' addr)) :
    Claimed { asyncs := w.withWaiters waiters', reactor := w.reactor } where
  idle := h.idle
  live := by
    intro fd event hEvent
    obtain ⟨hNone, -⟩ | ⟨this, that, -, hThat, -⟩ := withWaiters_cases hAll event.data
    · have hLive := h.live fd event hEvent
      rw [hNone] at hLive
      cases hLive
    · simp [hThat]
  claims := by
    intro addr that hThat
    obtain ⟨-, hNone⟩ | ⟨this, that', hThis, hThat', hInner, hReg, -⟩ :=
      withWaiters_cases hAll addr
    · cases hNone.symm.trans hThat
    · obtain rfl := Option.some.inj (hThat'.symm.trans hThat)
      apply (h.claims addr this hThis).grow
      · simp only [Async.heldFd, hInner]
      · exact hReg ▸ within_refl _

theorem Claimed.perform (h : w.Claimed) {act : Act T τ R} (hStays : w.Stays (.call act))
    {response : Response τ} (hPerform : w.perform act = some (response, w')) : w'.Claimed := by
  cases act with
  | new addr fcntl value =>
    obtain ⟨hFree, ⟨p, -, rfl, rfl⟩ | ⟨this, -, rfl, rfl⟩⟩ := perform_new hPerform
    · exact h
    · exact h.set h.idle ⟨(h.cleared hFree).claims _, .refl addr _⟩
  | poll addr waker interest f =>
    obtain ⟨this, hThis, hRun⟩ := Option.bind_eq_some_iff.mp hPerform
    cases hRun
    have hIdle := this.pollNonblocking_isDispatching addr waker interest f w.reactor
    exact h.set (hIdle.trans h.idle)
      ((h.claims addr this hThis).poll waker interest (hStays this hThis))
  | close addr waker flush =>
    obtain ⟨this, hThis, hRun⟩ := Option.bind_eq_some_iff.mp hPerform
    cases hRun
    have hIdle := this.pollClose_isDispatching addr waker flush w.reactor
    exact h.set (hIdle.trans h.idle)
      ((h.claims addr this hThis).close h.idle waker (hStays this hThis))
  | take addr =>
    obtain ⟨this, hThis, hRun⟩ := Option.bind_eq_some_iff.mp hPerform
    cases hRun
    have hIdle := this.takeInner_isDispatching w.reactor
    exact h.set (hIdle.trans h.idle) ((h.claims addr this hThis).take h.idle)
  | drop addr =>
    obtain ⟨this, hThis, hRun⟩ := Option.bind_eq_some_iff.mp hPerform
    cases hRun
    obtain ⟨hCleared, hOthers⟩ := (h.claims addr this hThis).deregister h.idle
    have hIdle := this.deregister_isDispatching w.reactor
    exact h.update (hIdle.trans h.idle) hOthers (by simp) fun _ => hCleared
  | dispatch answer =>
    obtain ⟨woken, waiters', hAll, hRun⟩ := h.live.dispatch (R := R) h.idle answer
    cases hRun.symm.trans hPerform
    exact h.withWaiters hAll
  | replace addr value =>
    obtain ⟨this, hThis, ⟨-, rfl, rfl⟩ | ⟨inner, hInner, rfl, rfl⟩⟩ := perform_replace hPerform
    · exact h.set h.idle ⟨h.claims addr this hThis, .refl addr _⟩
    · refine h.set h.idle ⟨(h.claims addr this hThis).grow ?_ (within_refl _), .refl addr _⟩
      simp only [Async.heldFd, hInner, Option.map_some, hStays this inner hThis hInner]
  | swap addr addr' =>
    obtain ⟨this, that, hThis, hThat, -, hSwap⟩ := perform_swap hPerform
    obtain ⟨rfl, rfl⟩ | ⟨value, value', hInner, hInner', rfl, rfl⟩ := hSwap
    · exact h
    · have hSame := hStays this that value value' hThis hThat hInner hInner'
      have hFirst : (w.set addr { this with inner := some value' } w.reactor).Claimed := by
        refine h.set h.idle ⟨(h.claims addr this hThis).grow ?_ (within_refl _), .refl addr _⟩
        simp only [Async.heldFd, hInner, Option.map_some, hSame]
      have hThat := h.claims addr' that hThat
      refine hFirst.set h.idle ⟨hThat.grow ?_ (within_refl _), .refl addr' _⟩
      simp only [Async.heldFd, hInner', Option.map_some, hSame]

theorem Claimed.attempt (h : w.Claimed) {trial : Trial T τ R} (hStays : w.Stays trial)
    {response : Response τ} (hAttempt : w.attempt trial = some (response, w')) : w'.Claimed := by
  cases trial with
  | call act => exact h.perform hStays hAttempt
  | refused errno act =>
    cases act with
    | poll addr waker interest f =>
      obtain ⟨this, hThis, hRun⟩ := Option.bind_eq_some_iff.mp hAttempt
      cases hRun
      let r := w.reactor.refusing errno
      have hIdle := this.pollNonblocking_isDispatching addr waker interest f r
      have hClaims : this.Claims addr r.held := h.claims addr this hThis
      exact h.set (hIdle.trans h.idle) (hClaims.poll waker interest (hStays this hThis))
    | close addr waker flush =>
      obtain ⟨this, hThis, hRun⟩ := Option.bind_eq_some_iff.mp hAttempt
      cases hRun
      let r := w.reactor.refusing errno
      have hIdle := this.pollClose_isDispatching addr waker flush r
      have hClaims : this.Claims addr r.held := h.claims addr this hThis
      exact h.set (hIdle.trans h.idle) (hClaims.close h.idle waker (hStays this hThis))
    | _ => cases hAttempt

theorem claimed_of_run {kernel : κ} (hEmpty : InterestKernel.interest kernel = .empty)
    {acts : List (Trial T τ R)} (hStays : Meets tried Stays (init kernel) acts)
    (hRun : run tried (init kernel) acts = some w) : w.Claimed := by
  refine invariant_of_meets (I := Claimed) (fun s trial s' h hStays hStep => ?_)
    (claimed_init hEmpty) hStays hRun
  obtain ⟨⟨response, _⟩, hAttempt, rfl⟩ := Option.map_eq_some_iff.mp hStep
  exact h.attempt hStays hAttempt

end World

end Ground
