import Ground.Io

/-! # Polling in two halves

A poll first looks at the waiter and runs the closure, then registers. The
kernel may act between the halves, so each has its own specification, and
`pollNonblocking` is their composition.
-/

namespace Ground

open Mask

variable {T τ κ R : Type} [AsRawFd T] [Epoll κ]

/-- How the first half of a poll ends: there is no wrapped value, the closure is not
invoked, it returns `WouldBlock` (`fd` was read before), or it ends otherwise. -/
inductive Attempt (R : Type) where
  | taken
  | skipped
  | blocked (fd : RawFd)
  | finished (outcome : Outcome Panic (Except Error R))

/-- The closure returns `WouldBlock` on this value. -/
def Closure.Blocks (f : Closure T R) (inner : T) : Prop :=
  ∃ e, (f inner).1 = .ret (.error e) ∧ e.kind = .wouldBlock

def Attempt.Invoked : Attempt R → Prop
  | .taken | .skipped => False
  | .blocked _ | .finished _ => True

namespace Async

section

omit [AsRawFd T]

def block (this : Async T τ) (waker : Waker τ) (interest : Interest) : Async T τ :=
  { this with
    waiter :=
      { this.waiter with
        waker
        waitingFor := this.waiter.waitingFor ||| interest.asEvents } }

@[simp] theorem block_inner (this : Async T τ) (waker : Waker τ) (interest : Interest) :
    (this.block waker interest).inner = this.inner := rfl

@[simp] theorem block_waker (this : Async T τ) (waker : Waker τ) (interest : Interest) :
    (this.block waker interest).waiter.waker = waker := rfl

@[simp] theorem block_registerFor (this : Async T τ) (waker : Waker τ) (interest : Interest) :
    (this.block waker interest).waiter.registerFor = this.waiter.registerFor := rfl

@[simp] theorem block_waitingFor (this : Async T τ) (waker : Waker τ) (interest : Interest) :
    (this.block waker interest).waiter.waitingFor =
      this.waiter.waitingFor ||| interest.asEvents := rfl

end

/-- `pollNonblocking` up to the call of `ensure_registered`. -/
def pollAttempt (this : Async T τ) (waker : Waker τ) (interest : Interest) (f : Closure T R) :
    Attempt R × Async T τ :=
  match this.inner with
  | none => (.taken, this)
  | some inner =>
    if interest.asEvents &&& this.waiter.waitingFor ≠ 0#32 then (.skipped, this)
    else
      match f inner with
      | (.ret (.error e), value) =>
        if e.kind = .wouldBlock then
          (.blocked (asRawFd inner), { this with inner := some value }.block waker interest)
        else (.finished (.ret (.error e)), { this with inner := some value })
      | (outcome, value) =>
        (.finished (outcome.mapPanic fun _ => .closure), { this with inner := some value })

/-- The second half, from the end of the first. -/
def pollFinish (addr : Addr) (interest : Interest) (r : Reactor κ) :
    Attempt R × Async T τ → Outcome Panic (Poll (Except Error R)) × Async T τ × Reactor κ
  | (.taken, this) => (.panic .innerTaken, this, r)
  | (.skipped, this) => (.ret .pending, this, r)
  | (.finished (.ret value), this) => (.ret (.ready value), this, r)
  | (.finished (.panic p), this) => (.panic p, this, r)
  | (.blocked fd, this) =>
    match ensureRegistered fd addr this.waiter interest r with
    | (.ret (), waiter, r) => (.ret .pending, { this with waiter }, r)
    | (.panic p, waiter, r) => (.panic p, { this with waiter }, r)

omit [AsRawFd T] in
theorem pollFinish_blocked (addr : Addr) (interest : Interest) (r : Reactor κ) (fd : RawFd)
    (this : Async T τ) :
    let result := ensureRegistered fd addr this.waiter interest r
    ∃ outcome, pollFinish addr interest r (.blocked fd, this) =
        (outcome, { this with waiter := result.2.1 }, result.2.2) ∧
      ∀ value : Except Error R, outcome ≠ .ret (.ready value) := by
  simp only [pollFinish]
  obtain ⟨⟨⟩ | p, waiter, r'⟩ := ensureRegistered fd addr this.waiter interest r
  · exact ⟨_, rfl, by simp⟩
  · exact ⟨_, rfl, by simp⟩

theorem pollNonblocking_eq (this : Async T τ) (addr : Addr) (waker : Waker τ)
    (interest : Interest) (f : Closure T R) (r : Reactor κ) :
    this.pollNonblocking addr waker interest f r =
      pollFinish addr interest r (this.pollAttempt waker interest f) := by
  unfold pollNonblocking pollAttempt
  cases this.inner with
  | none => rfl
  | some inner =>
    simp only
    split
    · rfl
    · obtain ⟨outcome | p, value⟩ := f inner
      · cases outcome with
        | ok value => rfl
        | error e =>
          obtain he | he := eq_or_ne e.kind .wouldBlock
          · simp only [he, if_true]
            rfl
          · simp only [he, if_false]
            rfl
      · rfl

theorem pollAttempt_cases {this : Async T τ} {inner : T} (hInner : this.inner = some inner)
    (waker : Waker τ) (interest : Interest) (f : Closure T R) :
    (interest.asEvents &&& this.waiter.waitingFor ≠ 0#32 ∧
      this.pollAttempt waker interest f = (.skipped, this)) ∨
    (interest.asEvents &&& this.waiter.waitingFor = 0#32 ∧
      Closure.Blocks f inner ∧
      this.pollAttempt waker interest f =
        (.blocked (asRawFd inner),
          { this with inner := some (f inner).2 }.block waker interest)) ∨
    (interest.asEvents &&& this.waiter.waitingFor = 0#32 ∧
      ¬ Closure.Blocks f inner ∧
      this.pollAttempt waker interest f =
        (.finished ((f inner).1.mapPanic fun _ => .closure),
          { this with inner := some (f inner).2 })) := by
  by_cases hSkip : interest.asEvents &&& this.waiter.waitingFor ≠ 0#32
  · exact .inl ⟨hSkip, by simp only [pollAttempt, hInner, if_pos hSkip]⟩
  · refine .inr ?_
    have hSkip := not_not.mp hSkip
    simp only [pollAttempt, hInner, hSkip, ne_eq, not_true_eq_false, if_false, true_and]
    simp only [Closure.Blocks]
    obtain ⟨outcome | p, value⟩ := f inner
    · cases outcome with
      | ok value => exact .inr ⟨by simp, rfl⟩
      | error e =>
        obtain he | he := eq_or_ne e.kind .wouldBlock
        · exact .inl ⟨⟨e, rfl, he⟩, by simp only [he, if_true]⟩
        · refine .inr ⟨?_, by simp only [he, if_false, Outcome.mapPanic_ret]⟩
          rintro ⟨e', ⟨⟩, hKind⟩
          exact he hKind
    · exact .inr ⟨by simp, rfl⟩

theorem pollAttempt_taken {this : Async T τ} (hInner : this.inner = none) (waker : Waker τ)
    (interest : Interest) (f : Closure T R) :
    this.pollAttempt waker interest f = (.taken, this) := by
  simp [pollAttempt, hInner]

end Async

theorem ensureRegistered_waiter (fd : RawFd) (addr : Addr) (waiter : Waiter τ)
    (interest : Interest) (r : Reactor κ) :
    (ensureRegistered fd addr waiter interest r).2.1 =
      { waiter with registerFor := waiter.registerFor ||| interest.asEvents ||| EPOLLET } := by
  unfold ensureRegistered
  simp only
  obtain h | h := eq_or_ne (waiter.registerFor ||| interest.asEvents ||| EPOLLET) waiter.registerFor
  · simp only [h, if_true]
  · simp only [h, if_false]
    rcases (if waiter.registerFor = 0#32 then r.add fd addr _ else r.modify fd addr _) with
      ⟨_ | _, _⟩ <;> rfl

theorem ensureRegistered_outcome (fd : RawFd) (addr : Addr) (waiter : Waiter τ)
    (interest : Interest) (r : Reactor κ) :
    (ensureRegistered fd addr waiter interest r).1 = .ret () ∨
      (ensureRegistered fd addr waiter interest r).1 = .panic .register := by
  unfold ensureRegistered
  simp only
  split
  · exact .inl rfl
  · rcases (if waiter.registerFor = 0#32 then r.add fd addr _ else r.modify fd addr _) with
      ⟨_ | _, _⟩
    · exact .inr rfl
    · exact .inl rfl

omit [AsRawFd T] in
theorem Async.pollFinish_blocked_outcome (addr : Addr) (interest : Interest) (r : Reactor κ)
    (fd : RawFd) (this : Async T τ) :
    let registered := ensureRegistered fd addr this.waiter interest r
    let finished := pollFinish (R := R) addr interest r (.blocked fd, this)
    (registered.1 = .ret () ∧ finished.1 = .ret .pending) ∨
      (registered.1 = .panic .register ∧ finished.1 = .panic .register) := by
  intro registered finished
  have hOutcome := ensureRegistered_outcome fd addr this.waiter interest r
  simp only [registered, finished, pollFinish]
  generalize ensureRegistered fd addr this.waiter interest r = result at hOutcome ⊢
  obtain ⟨_ | p, waiter, r'⟩ := result
  · exact .inl ⟨rfl, rfl⟩
  · obtain rfl : p = .register := by simpa using hOutcome
    exact .inr ⟨rfl, rfl⟩

theorem Async.pollNonblocking_async (this : Async T τ) (addr : Addr) (waker : Waker τ)
    (interest : Interest) (f : Closure T R) (r : Reactor κ) :
    ∃ registerFor, (this.pollNonblocking addr waker interest f r).2.1 =
      { (this.pollAttempt waker interest f).2 with
        waiter := { (this.pollAttempt waker interest f).2.waiter with registerFor } } := by
  rw [pollNonblocking_eq]
  obtain ⟨_ | _ | fd | ⟨_ | _⟩, that⟩ := this.pollAttempt waker interest f
  case blocked =>
    refine ⟨that.waiter.registerFor ||| interest.asEvents ||| EPOLLET, ?_⟩
    have hWaiter := ensureRegistered_waiter fd addr that.waiter interest r
    simp only [pollFinish]
    rcases hRegister : ensureRegistered fd addr that.waiter interest r with ⟨_ | _, waiter, _⟩
    · exact congrArg (Async.mk that.inner) (by rwa [hRegister] at hWaiter)
    · exact congrArg (Async.mk that.inner) (by rwa [hRegister] at hWaiter)
  all_goals exact ⟨that.waiter.registerFor, rfl⟩

end Ground
