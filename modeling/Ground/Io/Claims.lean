import Ground.Io.Effects
import Ground.Io.Fallible

/-! # Entries that the waiter knows of

On a kernel that may refuse, a waiter can say more than is held for it, never
less: every entry at its address is under its own descriptor, and no call
touches an entry of another address.
-/

namespace Ground

open Mask

variable {T τ κ R : Type} [AsRawFd T]

/-- What the kernel holds for this waiter is under its descriptor, and no more
than the waiter says. -/
def Async.Claims (this : Async T τ) (addr : Addr) (list : InterestList) : Prop :=
  ∀ fd event, list fd = some event → event.data = addr →
    this.heldFd = some fd ∧ Within event.events this.waiter.registerFor ∧ event.events ≠ 0#32

def Cleared (addr : Addr) (list : InterestList) : Prop :=
  ∀ fd event, list fd = some event → event.data ≠ addr

def OthersFrom (addr : Addr) (list list' : InterestList) : Prop :=
  ∀ fd event, list' fd = some event → event.data ≠ addr → list fd = some event

theorem OthersFrom.refl (addr : Addr) (list : InterestList) : OthersFrom addr list list :=
  fun _ _ h _ => h

theorem OthersFrom.trans {addr : Addr} {list list' list'' : InterestList}
    (h : OthersFrom addr list list') (h' : OthersFrom addr list' list'') :
    OthersFrom addr list list'' := fun fd event hEvent hOther =>
  h fd event (h' fd event hEvent hOther) hOther

theorem OthersFrom.update {addr : Addr} (list : InterestList) (fd : RawFd)
    {new : Option EpollEvent} (hNew : ∀ event, new = some event → event.data = addr) :
    OthersFrom addr list (Function.update list fd new) := by
  intro fd' event hEvent hOther
  obtain rfl | hFd := eq_or_ne fd' fd
  · rw [Function.update_self] at hEvent
    exact absurd (hNew event hEvent) hOther
  · rwa [Function.update_of_ne hFd] at hEvent

theorem Cleared.claims {addr : Addr} {list : InterestList} (h : Cleared addr list)
    (this : Async T τ) : this.Claims addr list := fun fd event hEvent hOwn =>
  absurd hOwn (h fd event hEvent)

variable [Epoll κ] [Fallible κ]

/-- After deregistering, whether or not it panics, no entry is the waiter's. -/
theorem Async.Claims.deregister {this : Async T τ} {addr : Addr} {r : Reactor κ}
    (h : this.Claims addr r.held) (hIdle : r.isDispatching = false) :
    let r' := (this.deregister r).2.2
    Cleared addr r'.held ∧ OthersFrom addr r.held r'.held := by
  intro r'
  by_cases hSkip : this.waiter.registerFor = 0#32 ∨ this.inner = none
  · simp only [r', Async.deregister_skipped r hSkip]
    refine ⟨fun fd event hEvent hOwn => ?_, .refl addr r.held⟩
    obtain ⟨hFd, hWithin, hSome⟩ := h fd event hEvent hOwn
    obtain hReg | hInner := hSkip
    · obtain ⟨b, hb⟩ := ne_zero_iff.mp hSome
      have hBit := hWithin.has hb
      rw [hReg] at hBit
      exact not_has_zero hBit
    · simp [Async.heldFd, hInner] at hFd
  · obtain ⟨hReg, hHeld⟩ := not_or.mp hSkip
    obtain ⟨inner, hInner⟩ := Option.ne_none_iff_exists'.mp hHeld
    have hAsked : r' = (r.epollCtl (.delete (asRawFd inner))).2 := by
      simp only [r', Async.deregister_asked hInner hReg hIdle]
      obtain ⟨errno | _, r''⟩ := r.epollCtl (.delete (asRawFd inner))
      · rfl
      · rfl
    obtain ⟨-, hList⟩ | ⟨hDelete, -⟩ := epollCtl_held r (.delete (asRawFd inner))
    · have hGone : r'.held = Function.update r.held (asRawFd inner) none := by
        rw [hAsked, hList]
        simp only [InterestList.ctl]
        split
        · rename_i hNone
          exact (Function.update_eq_self_iff.mpr hNone.symm).symm
        · rfl
      rw [hGone]
      refine ⟨fun fd event hEvent hOwn => ?_, .update r.held _ (by simp)⟩
      obtain rfl | hFd := eq_or_ne fd (asRawFd inner)
      · rw [Function.update_self] at hEvent
        cases hEvent
      · rw [Function.update_of_ne hFd] at hEvent
        have hOther := (h fd event hEvent hOwn).1
        simp only [Async.heldFd, hInner, Option.map_some, Option.some.injEq] at hOther
        exact hFd hOther.symm
    · exact absurd rfl (hDelete _)

theorem Async.Claims.grow {this this' : Async T τ} {addr : Addr} {list : InterestList}
    (h : this.Claims addr list) (hFd : this'.heldFd = this.heldFd)
    (hReg : Within this.waiter.registerFor this'.waiter.registerFor) :
    this'.Claims addr list := by
  intro fd event hEvent hOwn
  obtain ⟨hHeld, hWithin, hSome⟩ := h fd event hEvent hOwn
  exact ⟨hFd.trans hHeld, hWithin.trans hReg, hSome⟩

theorem Async.Claims.poll {this : Async T τ} {addr : Addr} {r : Reactor κ}
    (h : this.Claims addr r.held) (waker : Waker τ) (interest : Interest) {f : Closure T R}
    (hFixed : this.Fixed f) :
    let polled := this.pollNonblocking addr waker interest f r
    polled.2.1.Claims addr polled.2.2.held ∧ OthersFrom addr r.held polled.2.2.held := by
  intro polled
  have hFd : polled.2.1.heldFd = this.heldFd :=
    Async.pollNonblocking_heldFd hFixed addr waker interest r
  obtain ⟨hReg, hSame, -⟩ | ⟨inner, inner', hInner, -, hRegistered, hReg, -⟩ :=
    this.pollNonblocking_effect addr waker interest f r
  · rw [show polled.2.2 = r from hSame]
    exact ⟨h.grow hFd (hReg ▸ within_refl _), .refl addr r.held⟩
  · have hGrown : polled.2.1.Claims addr r.held := by
      apply h.grow hFd
      rw [hReg]
      exact within_or_left.trans within_or_left
    rw [show polled.2.2 = _ from hRegistered]
    obtain ⟨-, hList⟩ | ⟨hList, -⟩ := ensureRegistered_held (asRawFd inner) addr
      (this.block waker interest).waiter interest r
    · rw [hList]
      refine ⟨fun fd event hEvent hOwn => ?_, .update r.held _ (by rintro event ⟨⟩; rfl)⟩
      obtain rfl | hKey := eq_or_ne fd (asRawFd inner)
      · rw [Function.update_self] at hEvent
        cases hEvent
        refine ⟨hFd.trans (by simp [Async.heldFd, hInner]), ?_, Async.registerFor_ne_zero _ _⟩
        rw [hReg]
        exact within_refl _
      · rw [Function.update_of_ne hKey] at hEvent
        exact hGrown fd event hEvent hOwn
    · rw [hList]
      exact ⟨hGrown, .refl addr r.held⟩

theorem Async.Claims.take {this : Async T τ} {addr : Addr} {r : Reactor κ}
    (h : this.Claims addr r.held) (hIdle : r.isDispatching = false) :
    let taken := this.takeInner r
    taken.2.1.Claims addr taken.2.2.held ∧ OthersFrom addr r.held taken.2.2.held := by
  intro taken
  obtain ⟨hCleared, hOthers⟩ := h.deregister hIdle
  rw [← this.takeInner_reactor r] at hCleared hOthers
  exact ⟨hCleared.claims _, hOthers⟩

theorem Async.Claims.close {this : Async T τ} {addr : Addr} {r : Reactor κ}
    (h : this.Claims addr r.held) (hIdle : r.isDispatching = false) (waker : Waker τ)
    {flush : Closure T Unit} (hFixed : this.Fixed flush) :
    let closed := this.pollClose addr waker flush r
    closed.2.1.Claims addr closed.2.2.held ∧ OthersFrom addr r.held closed.2.2.held := by
  intro closed
  obtain ⟨hClaims, hOthers⟩ := h.poll waker .write hFixed
  obtain ⟨hSame, -⟩ | ⟨hTaken, -⟩ := this.pollClose_effect addr waker flush r
  · simp only [closed, hSame]
    exact ⟨hClaims, hOthers⟩
  · obtain ⟨hClaims', hOthers'⟩ := hClaims.take
      ((this.pollNonblocking_isDispatching addr waker .write flush r).trans hIdle)
    simp only [closed, hTaken]
    exact ⟨hClaims', hOthers.trans hOthers'⟩

end Ground
