import Ground.Io.Claims

/-! # What a refused registration leaves behind

`ensure_registered` stores the new mask in the waiter before it asks the kernel
for it, and does not take it back. The drop that follows goes by that mask.
-/

namespace Ground

open Mask

variable {T τ κ R : Type} [AsRawFd T]

def InterestList.maskFor (list : InterestList) (fd : RawFd) (addr : Addr) : Events :=
  match list fd with
  | some event => if event.data = addr then event.events else 0#32
  | none => 0#32

namespace Async

def Booked (this : Async T τ) (addr : Addr) (list : InterestList) : Prop :=
  ∀ inner, this.inner = some inner → this.waiter.registerFor = list.maskFor (asRawFd inner) addr

/-- The drop returns, and deletes no entry of another waiter. -/
def DropsOwn [InterestKernel κ] (this : Async T τ) (addr : Addr) (r : Reactor κ) : Prop :=
  (this.drop r).1 = .ret () ∧ ∀ fd event, r.list fd = some event → event.data ≠ addr →
    (this.drop r).2.list fd = some event

/-- What a refused registration leaves behind. -/
structure Refusal (interest : Interest) (this this' : Async T τ) (list list' : InterestList) :
    Prop where
  inner : this'.inner.isSome
  unchanged : list' = list
  registerFor : this'.waiter.registerFor = this.waiter.registerFor ||| interest.asEvents ||| EPOLLET
  more : this'.waiter.registerFor ≠ this.waiter.registerFor

theorem pollNonblocking_refused [Epoll κ] [Fallible κ] {this : Async T τ} {addr : Addr}
    {waker : Waker τ} {interest : Interest} {f : Closure T R} {r : Reactor κ}
    (h : (this.pollNonblocking addr waker interest f r).1 = .panic .register) :
    let polled := this.pollNonblocking addr waker interest f r
    Refusal interest this polled.2.1 r.held polled.2.2.held := by
  intro polled
  obtain ⟨-, -, hOther⟩ | ⟨inner, inner', -, hInner', hRegistered, hReg, hOutcome⟩ :=
    this.pollNonblocking_effect addr waker interest f r
  · exact absurd h hOther
  · have hRefused := hOutcome.mp h
    obtain ⟨hGranted, -⟩ | ⟨hSame, hMore⟩ := ensureRegistered_held (asRawFd inner) addr
      (this.block waker interest).waiter interest r
    · cases hGranted.symm.trans hRefused
    · refine ⟨by simp [polled, hInner'], ?_, hReg, ?_⟩
      · rw [show polled.2.2 = _ from hRegistered]
        exact hSame
      · rw [hReg]
        exact hMore hRefused

theorem pollClose_refused [Epoll κ] [Fallible κ] {this : Async T τ} {addr : Addr}
    {waker : Waker τ} {flush : Closure T Unit} {r : Reactor κ}
    (h : (this.pollClose addr waker flush r).1 = .panic .register) :
    let closed := this.pollClose addr waker flush r
    Refusal .write this closed.2.1 r.held closed.2.2.held := by
  intro closed
  obtain ⟨hSame, hOutcome⟩ | ⟨-, hOther⟩ := this.pollClose_effect addr waker flush r
  · simp only [closed, hSame]
    exact pollNonblocking_refused (hOutcome.mp h)
  · exact absurd h hOther

theorem Refusal.booked_iff {interest : Interest} {this this' : Async T τ}
    {list list' : InterestList} (h : Refusal interest this this' list list') {inner : T}
    (hInner : this'.inner = some inner) (addr : Addr) :
    this'.Booked addr list' ↔ list.maskFor (asRawFd inner) addr =
      this.waiter.registerFor ||| interest.asEvents ||| EPOLLET := by
  rw [← h.registerFor, ← h.unchanged]
  constructor
  · exact fun hBooked => (hBooked inner hInner).symm
  · rintro hMask inner' hInner'
    cases hInner.symm.trans hInner'
    exact hMask.symm

theorem Refusal.not_booked {interest : Interest} {this this' : Async T τ}
    {list list' : InterestList} (h : Refusal interest this this' list list') {addr : Addr}
    (hClaims : this.Claims addr list) : ¬ this'.Booked addr list' := by
  intro hBooked
  obtain ⟨inner, hInner⟩ := Option.isSome_iff_exists.mp h.inner
  have hMask := (h.booked_iff hInner addr).mp hBooked
  unfold InterestList.maskFor at hMask
  split at hMask
  · rename_i event hEvent
    split at hMask
    · rename_i hOwn
      obtain ⟨-, hWithin, -⟩ := hClaims _ event hEvent hOwn
      rw [hMask] at hWithin
      apply h.more
      rw [h.registerFor]
      exact ext_has fun b => ⟨hWithin.has, (within_or_left.trans within_or_left).has⟩
    · exact registerFor_ne_zero _ _ hMask.symm
  · exact registerFor_ne_zero _ _ hMask.symm

/-- The drop of a registered `Async` is in order exactly when the entry under its
descriptor is its own. -/
theorem dropsOwn_iff [InterestKernel κ] {this : Async T τ} {inner : T} {r : Reactor κ}
    (hInner : this.inner = some inner) (hReg : this.waiter.registerFor ≠ 0#32)
    (hIdle : r.isDispatching = false) (addr : Addr) :
    this.DropsOwn addr r ↔ ∃ event, r.list (asRawFd inner) = some event ∧ event.data = addr := by
  have hRun := deregister_asked hInner hReg hIdle
  have hAnswer := r.epollCtl_fst (.delete (asRawFd inner))
  have hList := r.epollCtl_list (.delete (asRawFd inner))
  rcases hAsked : r.epollCtl (.delete (asRawFd inner)) with ⟨rc, r'⟩
  rw [hAsked] at hRun hAnswer hList
  simp only [DropsOwn, drop]
  cases hEvent : r.list (asRawFd inner) with
  | none =>
    -- the kernel knows no such entry
    simp only [InterestList.ctl, hEvent] at hAnswer
    subst hAnswer
    rw [hRun]
    simp
  | some event =>
    simp only [InterestList.ctl, hEvent] at hAnswer hList
    subst hAnswer
    rw [hRun]
    simp only [true_and, Option.some.injEq, exists_eq_left', hList]
    constructor
    · intro hOthers
      by_contra hOther
      have hGone := hOthers _ event hEvent hOther
      rw [Function.update_self] at hGone
      cases hGone
    · rintro hOwn fd event' hEvent' hOther
      obtain rfl | hFd := eq_or_ne fd (asRawFd inner)
      · cases hEvent.symm.trans hEvent'
        exact absurd hOwn hOther
      · rwa [Function.update_of_ne hFd]

theorem Booked.dropsOwn [InterestKernel κ] {this : Async T τ} {addr : Addr} {r : Reactor κ}
    (h : this.Booked addr r.list) {inner : T} (hInner : this.inner = some inner)
    (hReg : this.waiter.registerFor ≠ 0#32) (hIdle : r.isDispatching = false) :
    this.DropsOwn addr r := by
  rw [dropsOwn_iff hInner hReg hIdle]
  have hMask := h inner hInner
  unfold InterestList.maskFor at hMask
  split at hMask
  · rename_i event hEvent
    split at hMask
    · rename_i hOwn
      exact ⟨event, hEvent, hOwn⟩
    · exact absurd hMask hReg
  · exact absurd hMask hReg

end Async

end Ground
