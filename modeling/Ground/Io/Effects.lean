import Ground.Io.Operations

/-! # What one call changes

The first half of a poll decides whether anything is registered, and a close is
a poll that may go on to take the value. Both hold on any kernel, whatever it
answers.
-/

namespace Ground

variable {T τ κ R : Type} [AsRawFd T] [Epoll κ]

namespace Async

/-- A poll that does not get as far as registering, or the registration it ends with. -/
theorem pollNonblocking_effect (this : Async T τ) (addr : Addr) (waker : Waker τ)
    (interest : Interest) (f : Closure T R) (r : Reactor κ) :
    let polled := this.pollNonblocking addr waker interest f r
    (polled.2.1.waiter.registerFor = this.waiter.registerFor ∧ polled.2.2 = r ∧
      polled.1 ≠ .panic .register) ∨
    ∃ inner inner', this.inner = some inner ∧ polled.2.1.inner = some inner' ∧
      let registered :=
        ensureRegistered (asRawFd inner) addr (this.block waker interest).waiter interest r
      polled.2.2 = registered.2.2 ∧
      polled.2.1.waiter.registerFor =
        this.waiter.registerFor ||| interest.asEvents ||| EPOLLET ∧
      (polled.1 = .panic .register ↔ registered.1 = .panic .register) := by
  intro polled
  simp only [polled, pollNonblocking_eq]
  cases hInner : this.inner with
  | none =>
    rw [pollAttempt_taken hInner]
    exact .inl ⟨rfl, rfl, by simp [pollFinish]⟩
  | some inner =>
    obtain ⟨-, hAttempt⟩ | ⟨-, -, hAttempt⟩ | ⟨-, -, hAttempt⟩ :=
      pollAttempt_cases hInner waker interest f
    · rw [hAttempt]
      exact .inl ⟨rfl, rfl, by simp [pollFinish]⟩
    · rw [hAttempt]
      let blocked := { this with inner := some (f inner).2 }.block waker interest
      have hOutcome :=
        pollFinish_blocked_outcome (R := R) addr interest r (asRawFd inner) blocked
      obtain ⟨outcome, hFinish, -⟩ :=
        pollFinish_blocked (R := R) addr interest r (asRawFd inner) blocked
      simp only at hOutcome
      rw [hFinish] at hOutcome ⊢
      refine .inr ⟨inner, (f inner).2, rfl, rfl, rfl, ?_, ?_⟩
      · exact congrArg Waiter.registerFor (ensureRegistered_waiter ..)
      · obtain ⟨hGranted, rfl⟩ | ⟨hRefused, rfl⟩ := hOutcome
        · exact ⟨by simp, fun hRefused => absurd (hGranted.symm.trans hRefused) (by simp)⟩
        · exact ⟨fun _ => hRefused, fun _ => rfl⟩
    · rw [hAttempt]
      left
      obtain value | p := (f inner).1
      · exact ⟨rfl, rfl, by simp [pollFinish]⟩
      · exact ⟨rfl, rfl, by simp [pollFinish]⟩

theorem pollNonblocking_isDispatching (this : Async T τ) (addr : Addr) (waker : Waker τ)
    (interest : Interest) (f : Closure T R) (r : Reactor κ) :
    (this.pollNonblocking addr waker interest f r).2.2.isDispatching = r.isDispatching := by
  obtain ⟨-, hSame, -⟩ | ⟨inner, -, -, -, hRegistered, -⟩ :=
    this.pollNonblocking_effect addr waker interest f r
  · rw [hSame]
  · rw [hRegistered]
    obtain ⟨-, hRun⟩ | ⟨-, -, hRun⟩ | ⟨-, -, hRun⟩ :=
      ensureRegistered_cases (asRawFd inner) addr (this.block waker interest).waiter interest r
    · rw [hRun]
    · rw [hRun]
      rfl
    · rw [hRun]
      rfl

theorem deregister_isDispatching (this : Async T τ) (r : Reactor κ) :
    (this.deregister r).2.2.isDispatching = r.isDispatching := by
  obtain hSame | ⟨inner, -, -, hAsked⟩ := this.deregister_reactor r
  · rw [hSame]
  · rw [hAsked]
    rfl

theorem takeInner_isDispatching (this : Async T τ) (r : Reactor κ) :
    (this.takeInner r).2.2.isDispatching = r.isDispatching := by
  rw [this.takeInner_reactor r]
  exact this.deregister_isDispatching r

theorem deregister_ne_register (this : Async T τ) (r : Reactor κ) :
    (this.deregister r).1 ≠ .panic .register := by
  have hDelete : ∀ fd, (r.delete fd).1 ≠ .panic .register := by
    intro fd
    unfold Reactor.delete
    split
    · simp
    · simp
  unfold deregister
  split
  · simp
  · cases this.inner with
    | none => simp
    | some inner =>
      have hPanic := hDelete (asRawFd inner)
      rcases hRun : r.delete (asRawFd inner) with ⟨(errno | _) | p, r'⟩
      · simp [hRun]
      · simp [hRun]
      · rw [hRun] at hPanic
        simpa [hRun] using hPanic

theorem takeInner_ne_register (this : Async T τ) (r : Reactor κ) :
    (this.takeInner r).1 ≠ .panic .register := by
  have hDeregister := this.deregister_ne_register r
  unfold takeInner
  rcases hRun : this.deregister r with ⟨_ | p, this', r'⟩
  · cases hInner : this'.inner <;> simp [hInner]
  · rw [hRun] at hDeregister
    simpa using hDeregister

theorem deregister_waker (this : Async T τ) (r : Reactor κ) :
    (this.deregister r).2.1.waiter.waker = this.waiter.waker := by
  unfold deregister
  split
  · rfl
  · split
    · rfl
    · split
      all_goals rfl

theorem takeInner_waker (this : Async T τ) (r : Reactor κ) :
    (this.takeInner r).2.1.waiter.waker = this.waiter.waker := by
  have hWaker := this.deregister_waker r
  unfold takeInner
  split
  · rename_i hRun
    rwa [hRun] at hWaker
  · rename_i hRun
    rw [hRun] at hWaker
    split
    all_goals exact hWaker

/-- A close leaves what its poll leaves, or what it leaves after that when the
value has been taken. -/
theorem pollClose_effect (this : Async T τ) (addr : Addr) (waker : Waker τ)
    (flush : Closure T Unit) (r : Reactor κ) :
    let polled := this.pollNonblocking addr waker .write flush r
    let closed := this.pollClose addr waker flush r
    (closed.2 = polled.2 ∧ (closed.1 = .panic .register ↔ polled.1 = .panic .register)) ∨
      (closed.2 = (polled.2.1.takeInner polled.2.2).2 ∧ closed.1 ≠ .panic .register) := by
  intro polled closed
  simp only [polled, closed, pollClose]
  rcases hRun : this.pollNonblocking addr waker .write flush r with
    ⟨((e | ⟨⟨⟩⟩) | _) | p, mid, rMid⟩
  case ret.ready.ok =>
    have hOutcome := mid.takeInner_ne_register rMid
    simp only
    rcases hTake : mid.takeInner rMid with ⟨value | p, this', r'⟩
    · exact .inr ⟨rfl, by simp⟩
    · rw [hTake] at hOutcome
      exact .inr ⟨rfl, by simpa using hOutcome⟩
  all_goals exact .inl ⟨rfl, Iff.rfl⟩

theorem pollClose_isDispatching (this : Async T τ) (addr : Addr) (waker : Waker τ)
    (flush : Closure T Unit) (r : Reactor κ) :
    (this.pollClose addr waker flush r).2.2.isDispatching = r.isDispatching := by
  have hPoll := this.pollNonblocking_isDispatching addr waker .write flush r
  obtain ⟨hSame, -⟩ | ⟨hTaken, -⟩ := this.pollClose_effect addr waker flush r
  · rw [hSame]
    exact hPoll
  · rw [hTaken]
    exact (takeInner_isDispatching ..).trans hPoll

def heldFd (this : Async T τ) : Option RawFd := this.inner.map asRawFd

def Fixed (this : Async T τ) (f : Closure T R) : Prop :=
  ∀ inner, this.inner = some inner → asRawFd (f inner).2 = asRawFd inner

theorem pollNonblocking_heldFd {this : Async T τ} {f : Closure T R} (hFixed : this.Fixed f)
    (addr : Addr) (waker : Waker τ) (interest : Interest) (r : Reactor κ) :
    (this.pollNonblocking addr waker interest f r).2.1.heldFd = this.heldFd := by
  obtain ⟨registerFor, hAsync⟩ := this.pollNonblocking_async addr waker interest f r
  rw [hAsync]
  cases hInner : this.inner with
  | none => simp only [pollAttempt_taken hInner, heldFd]
  | some inner =>
    have hFd := hFixed inner hInner
    obtain ⟨-, hAttempt⟩ | ⟨-, -, hAttempt⟩ | ⟨-, -, hAttempt⟩ :=
      pollAttempt_cases hInner waker interest f
    · simp only [hAttempt, heldFd]
    · simp only [hAttempt, heldFd, hInner, block_inner, Option.map_some, hFd]
    · simp only [hAttempt, heldFd, hInner, Option.map_some, hFd]

theorem takeInner_heldFd (this : Async T τ) (r : Reactor κ) :
    (this.takeInner r).2.1.heldFd = this.heldFd ∨ (this.takeInner r).2.1.heldFd = none := by
  obtain ⟨hInner, -⟩ := this.deregister_async r
  unfold takeInner
  rcases hRun : this.deregister r with ⟨_ | p, this', r'⟩
  · cases hHeld : this'.inner with
    | none => exact .inr (by simp [hHeld, heldFd])
    | some inner => exact .inr (by simp [hHeld, heldFd])
  · rw [hRun] at hInner
    exact .inl (congrArg (Option.map asRawFd) hInner)

theorem pollClose_heldFd {this : Async T τ} {flush : Closure T Unit} (hFixed : this.Fixed flush)
    (addr : Addr) (waker : Waker τ) (r : Reactor κ) :
    (this.pollClose addr waker flush r).2.1.heldFd = this.heldFd ∨
      (this.pollClose addr waker flush r).2.1.heldFd = none := by
  have hPoll := pollNonblocking_heldFd hFixed addr waker .write r
  obtain ⟨hSame, -⟩ | ⟨hTaken, -⟩ := this.pollClose_effect addr waker flush r
  · rw [hSame]
    exact .inl hPoll
  · rw [hTaken, ← hPoll]
    exact takeInner_heldFd ..

end Async

end Ground
