import Ground.Io.Registration

/-! # The operations keep the entry in step

A poll, an extraction and a drop each rewrite the one entry that belongs to
their `Async`, and no `epoll_ctl` fails, as long as the closure leaves the
descriptor alone where it matters and a first registration finds it free.
-/

namespace Ground

open Mask

variable {T τ κ R : Type} [AsRawFd T] [InterestKernel κ]

/-- Neither `expect()` on an `epoll_ctl` call fired. -/
def Granted {α : Type} (outcome : Outcome Panic α) : Prop :=
  outcome ≠ .panic .register ∧ outcome ≠ .panic .deregister

namespace Async

theorem Rewrites.listed {addr : Addr} {this this' : Async T τ} {r r' : Reactor κ}
    (h : Rewrites addr this r this' r') (hListed : this.Listed addr r.list) :
    this'.Listed addr r'.list := by
  obtain ⟨hChange, -⟩ := h
  intro fd event hEntry
  generalize r'.list = list' at hChange ⊢
  generalize this'.entry addr = held' at hChange hEntry
  cases hChange with
  | keep => exact hListed fd event hEntry
  | write k new hKey hOwner =>
    obtain ⟨event', rfl, hPair⟩ := Option.map_eq_some_iff.mp hEntry
    cases hPair
    exact Function.update_self ..

/-- A write of the own entry that leaves none frees the descriptor. -/
theorem Rewrites.free {addr : Addr} {this this' : Async T τ} {r r' : Reactor κ} {inner : T}
    (hInner : this.inner = some inner)
    (hFree : this.waiter.registerFor = 0#32 → r.list (asRawFd inner) = none)
    (h : Rewrites addr this r this' r') (hGone : this'.entry addr = none) :
    r'.list (asRawFd inner) = none := by
  obtain ⟨hChange, -⟩ := h
  rw [hGone] at hChange
  generalize r'.list = list' at hChange ⊢
  have hEntry : this.entry addr = none → r.list (asRawFd inner) = none := by
    intro hNone
    apply hFree
    by_contra hReg
    rw [entry_of_registered hInner hReg addr] at hNone
    cases hNone
  generalize hHeld : this.entry addr = held at hChange
  generalize hNew : (none : Option (RawFd × EpollEvent)) = held' at hChange
  cases hChange with
  | keep => exact hEntry (hHeld.trans hNew.symm)
  | write k new hKey hOwner =>
    obtain rfl : new = none := by simpa using hNew.symm
    obtain rfl | hOther := eq_or_ne (asRawFd inner) k
    · exact Function.update_self ..
    · rw [Function.update_of_ne hOther]
      obtain ⟨hNone, -⟩ | ⟨event, hSome⟩ := hKey
      · exact hEntry (hHeld.trans hNone)
      · obtain ⟨value, hValue, rfl, -⟩ := entry_eq_some_iff.mp (hHeld.trans hSome)
        cases hInner.symm.trans hValue
        exact absurd rfl hOther

/-- An invoked closure changes the descriptor only while nothing is registered
and it does not block, and a first registration finds the descriptor free. -/
def KeepsEntry (this : Async T τ) (list : InterestList) (interest : Interest)
    (f : Closure T R) : Prop :=
  ∀ inner, this.inner = some inner → interest.asEvents &&& this.waiter.waitingFor = 0#32 →
    (asRawFd (f inner).2 = asRawFd inner ∨
      (this.waiter.registerFor = 0#32 ∧ ¬ Closure.Blocks f inner)) ∧
    (Closure.Blocks f inner → this.waiter.registerFor = 0#32 → list (asRawFd inner) = none)

theorem entry_replace {this : Async T τ} {inner value : T} (hInner : this.inner = some inner)
    (addr : Addr) (h : asRawFd value = asRawFd inner ∨ this.waiter.registerFor = 0#32) :
    { this with inner := some value }.entry addr = this.entry addr := by
  obtain hFd | hReg := h
  · simp only [entry, hInner, hFd]
  · rw [entry_of_registerFor_eq_zero addr hReg]
    exact entry_of_registerFor_eq_zero addr hReg

theorem pollNonblocking_rewrites {this : Async T τ} {addr : Addr} {r : Reactor κ}
    (hListed : this.Listed addr r.list) (hCovered : this.Covered) (waker : Waker τ)
    {interest : Interest} {f : Closure T R} (hKeeps : this.KeepsEntry r.list interest f) :
    ∃ outcome this' r', this.pollNonblocking addr waker interest f r = (outcome, this', r') ∧
      Granted outcome ∧ Rewrites addr this r this' r' ∧ this'.Covered := by
  rw [pollNonblocking_eq]
  cases hInner : this.inner with
  | none =>
    rw [pollAttempt_taken hInner]
    exact ⟨_, this, r, rfl, by simp [Granted], .refl addr this r, hCovered⟩
  | some inner =>
    have hWithin := hCovered (by simp [hInner])
    obtain ⟨-, hAttempt⟩ | ⟨hTry, hBlocks, hAttempt⟩ | ⟨hTry, hBlocks, hAttempt⟩ :=
      pollAttempt_cases hInner waker interest f
    · rw [hAttempt]
      exact ⟨_, this, r, rfl, by simp [Granted], .refl addr this r, hCovered⟩
    · obtain ⟨hFd, hFree⟩ := hKeeps inner hInner hTry
      have hFd := hFd.resolve_right fun h => h.2 hBlocks
      -- the value the closure left has the descriptor that is registered
      let that := { this with inner := some (f inner).2 }.block waker interest
      have hEntry : that.entry addr = this.entry addr := entry_replace hInner addr (.inl hFd)
      have hThat : that.Listed addr r.list := by simpa only [Listed, hEntry] using hListed
      have hInner' : that.inner = some (f inner).2 := rfl
      obtain ⟨r', hRun, hRewrites⟩ := ensureRegistered_rewrites hInner' interest hThat
        fun hReg => hFd ▸ hFree hBlocks hReg
      rw [hAttempt, pollFinish, ← hFd, hRun]
      refine ⟨_, _, r', rfl, by simp [Granted], ?_, fun _ => ?_⟩
      · simpa only [Rewrites, hEntry] using hRewrites
      · exact .or (hWithin.trans (within_or_left.trans within_or_left))
          (within_or_right.trans within_or_left)
    · obtain ⟨hFd, -⟩ := hKeeps inner hInner hTry
      rw [hAttempt]
      have hRewrites : Rewrites addr this r { this with inner := some (f inner).2 } r :=
        .of_entry_eq r (entry_replace hInner addr (hFd.imp_right And.left))
      obtain value | p := (f inner).1
      · exact ⟨_, _, r, rfl, by simp [Granted], hRewrites, fun _ => hWithin⟩
      · exact ⟨_, _, r, rfl, by simp [Granted], hRewrites, fun _ => hWithin⟩

omit [InterestKernel κ] in
theorem deregister_skipped [Epoll κ] {this : Async T τ} (r : Reactor κ)
    (h : this.waiter.registerFor = 0#32 ∨ this.inner = none) :
    this.deregister r = (.ret (), this, r) := by
  unfold deregister
  split
  · rfl
  · rename_i hReg
    simp only [h.resolve_left hReg]

omit [InterestKernel κ] in
theorem deregister_async [Epoll κ] (this : Async T τ) (r : Reactor κ) :
    (this.deregister r).2.1.inner = this.inner ∧
      ((this.deregister r).2.1.waiter.registerFor = this.waiter.registerFor ∨
        (this.deregister r).2.1.waiter.registerFor = 0#32) := by
  unfold deregister
  split
  · exact ⟨rfl, .inl rfl⟩
  · cases hInner : this.inner with
    | none => exact ⟨hInner, .inl rfl⟩
    | some inner =>
      simp only
      obtain ⟨(errno | _) | p, _⟩ := r.delete (asRawFd inner)
      · exact ⟨hInner, .inl rfl⟩
      · exact ⟨rfl, .inr rfl⟩
      · exact ⟨hInner, .inl rfl⟩

omit [InterestKernel κ] in
theorem deregister_reactor [Epoll κ] (this : Async T τ) (r : Reactor κ) :
    (this.deregister r).2.2 = r ∨ ∃ inner, this.inner = some inner ∧
      this.waiter.registerFor ≠ 0#32 ∧
      (this.deregister r).2.2 = (r.epollCtl (.delete (asRawFd inner))).2 := by
  unfold deregister
  split
  · exact .inl rfl
  · rename_i hReg
    cases hInner : this.inner with
    | none => exact .inl rfl
    | some inner =>
      cases hBusy : r.isDispatching with
      | true =>
        simp only [Reactor.delete, hBusy, if_true]
        exact .inl trivial
      | false =>
        simp only [Reactor.delete, hBusy, Bool.false_eq_true, if_false]
        refine .inr ⟨inner, rfl, hReg, ?_⟩
        obtain ⟨errno | _, r'⟩ := r.epollCtl (.delete (asRawFd inner))
        · rfl
        · rfl

omit [InterestKernel κ] in
theorem takeInner_reactor [Epoll κ] (this : Async T τ) (r : Reactor κ) :
    (this.takeInner r).2.2 = (this.deregister r).2.2 := by
  unfold takeInner
  obtain ⟨_ | p, this', r'⟩ := this.deregister r
  · simp only
    cases this'.inner with
    | none => rfl
    | some inner => rfl
  · rfl

omit [InterestKernel κ] in
theorem deregister_asked [Epoll κ] {this : Async T τ} {inner : T} {r : Reactor κ}
    (hInner : this.inner = some inner) (hReg : this.waiter.registerFor ≠ 0#32)
    (hIdle : r.isDispatching = false) :
    this.deregister r =
      match r.epollCtl (.delete (asRawFd inner)) with
      | (.error _, r) => (.panic .deregister, this, r)
      | (.ok (), r) =>
        (.ret (), { this with waiter := { this.waiter with registerFor := 0#32 } }, r) := by
  simp only [deregister, if_neg hReg, hInner, Reactor.delete, hIdle, Bool.false_eq_true, if_false]
  obtain ⟨errno | _, r'⟩ := r.epollCtl (.delete (asRawFd inner))
  · rfl
  · simp only [← hInner]

theorem deregister_rewrites {this : Async T τ} {addr : Addr} {r : Reactor κ}
    (hListed : this.Listed addr r.list) (hIdle : r.isDispatching = false) :
    ∃ this' r', this.deregister r = (.ret (), this', r') ∧ this'.inner = this.inner ∧
      this'.entry addr = none ∧ Rewrites addr this r this' r' := by
  by_cases hSkip : this.waiter.registerFor = 0#32 ∨ this.inner = none
  · refine ⟨this, r, deregister_skipped r hSkip, rfl, ?_, .refl addr this r⟩
    obtain hReg | hInner := hSkip
    · exact entry_of_registerFor_eq_zero addr hReg
    · simp only [entry, hInner]
  · obtain ⟨hReg, hHeld⟩ := not_or.mp hSkip
    obtain ⟨inner, hInner⟩ := Option.ne_none_iff_exists'.mp hHeld
    have hOwn : this.entry addr = some (asRawFd inner, ⟨this.waiter.registerFor, addr⟩) :=
      entry_of_registered hInner hReg addr
    have hCtl : r.list.ctl (.delete (asRawFd inner)) =
        (.ok (), Function.update r.list (asRawFd inner) none) := by
      simp only [InterestList.ctl, hListed _ _ hOwn]
    let that := { this with waiter := { this.waiter with registerFor := 0#32 } }
    have hRun : this.deregister r =
        (.ret (), that, (r.epollCtl (.delete (asRawFd inner))).2) := by
      have hOk := r.epollCtl_fst (.delete (asRawFd inner))
      rw [hCtl] at hOk
      rw [deregister_asked hInner hReg hIdle]
      rcases hAsked : r.epollCtl (.delete (asRawFd inner)) with ⟨rc, r'⟩
      rw [hAsked] at hOk
      cases hOk
      rfl
    have hGone : that.entry addr = none := entry_of_registerFor_eq_zero addr rfl
    refine ⟨that, _, hRun, rfl, hGone, ?_, rfl⟩
    rw [Reactor.epollCtl_list, hCtl, hGone]
    exact .write (asRawFd inner) none (.inr ⟨_, hOwn⟩) (by rintro event ⟨⟩)

theorem takeInner_rewrites {this : Async T τ} {addr : Addr} {r : Reactor κ}
    (hListed : this.Listed addr r.list) (hIdle : r.isDispatching = false) :
    ∃ outcome this' r', this.takeInner r = (outcome, this', r') ∧ Granted outcome ∧
      this'.inner = none ∧ Rewrites addr this r this' r' := by
  obtain ⟨this', r', hRun, hInner, hGone, hRewrites⟩ := deregister_rewrites hListed hIdle
  unfold takeInner
  rw [hRun]
  cases hHeld : this'.inner with
  | none =>
    exact ⟨.panic .innerTaken, this', r', by simp only [hHeld], by simp [Granted], hHeld, hRewrites⟩
  | some inner =>
    let that : Async T τ := { this' with inner := none }
    refine ⟨.ret inner, that, r', by simp only [hHeld, that], by simp [Granted], rfl, ?_⟩
    have hEntry : that.entry addr = this'.entry addr := hGone.symm
    simpa only [Rewrites, hEntry] using hRewrites

theorem pollClose_rewrites {this : Async T τ} {addr : Addr} {r : Reactor κ}
    (hListed : this.Listed addr r.list) (hCovered : this.Covered)
    (hIdle : r.isDispatching = false) (waker : Waker τ) {flush : Closure T Unit}
    (hKeeps : this.KeepsEntry r.list .write flush) :
    ∃ outcome mid rMid this' r', this.pollClose addr waker flush r = (outcome, this', r') ∧
      Granted outcome ∧ Rewrites addr this r mid rMid ∧ Rewrites addr mid rMid this' r' ∧
      mid.Covered ∧ this'.Covered := by
  obtain ⟨polled, mid, rMid, hPoll, hGranted, hRewrites, hMid⟩ :=
    pollNonblocking_rewrites hListed hCovered waker hKeeps
  unfold pollClose
  rw [hPoll]
  obtain (ready | _) | p := polled
  · obtain e | ⟨⟩ := ready
    · exact ⟨_, mid, rMid, mid, rMid, rfl, hGranted, hRewrites, .refl addr mid rMid, hMid,
        hMid⟩
    · obtain ⟨outcome, this', r', hTake, hGranted', hInner, hRewrites'⟩ :=
        takeInner_rewrites (hRewrites.listed hListed) (hRewrites.2.trans hIdle)
      have hCovered' : this'.Covered := by simp [Covered, hInner]
      simp only [hTake]
      cases outcome with
      | ret value =>
        exact ⟨_, mid, rMid, this', r', rfl, by simp [Granted], hRewrites, hRewrites', hMid,
          hCovered'⟩
      | panic p =>
        refine ⟨_, mid, rMid, this', r', rfl, ?_, hRewrites, hRewrites', hMid, hCovered'⟩
        simpa [Granted] using hGranted'
  · exact ⟨_, mid, rMid, mid, rMid, rfl, hGranted, hRewrites, .refl addr mid rMid, hMid,
        hMid⟩
  · exact ⟨_, mid, rMid, mid, rMid, rfl, hGranted, hRewrites, .refl addr mid rMid, hMid,
        hMid⟩

end Async

end Ground
