import Ground.Foundation.Transition
import Ground.Io.Operations

/-! # The future of `Async::nonblocking`

Its closure has captured state, which travels beside the wrapped value while
`poll_nonblocking` runs. The future resolves with the first outcome that is not
`WouldBlock`.
-/

namespace Ground

open Mask

variable {T τ σ κ R : Type} [AsRawFd T]

/-- `FnMut(&mut T) -> Result<R>`, at one call: how it ends, what it has captured
afterwards, and the wrapped value. -/
abbrev FnMut (σ T R : Type) := σ → T → Outcome Unit (Except Error R) × σ × T

structure Nonblocking (T τ σ : Type) where
  a : Async T τ
  interest : Interest
  captured : σ

instance : AsRawFd (T × σ) := ⟨fun pair => asRawFd pair.1⟩

def FnMut.closure (f : FnMut σ T R) : Closure (T × σ) R := fun (value, captured) =>
  let (outcome, captured, value) := f captured value
  (outcome, (value, captured))

namespace Nonblocking

def held (this : Nonblocking T τ σ) : Async (T × σ) τ :=
  { inner := this.a.inner.map fun value => (value, this.captured), waiter := this.a.waiter }

def release (this : Nonblocking T τ σ) (held : Async (T × σ) τ) : Nonblocking T τ σ :=
  { this with
    a := { inner := held.inner.map Prod.fst, waiter := held.waiter }
    captured := (held.inner.map Prod.snd).getD this.captured }

def poll [Epoll κ] (this : Nonblocking T τ σ) (addr : Addr) (waker : Waker τ) (f : FnMut σ T R)
    (r : Reactor κ) : Outcome Panic (Poll (Except Error R)) × Nonblocking T τ σ × Reactor κ :=
  let (outcome, held, r) := this.held.pollNonblocking addr waker this.interest f.closure r
  (outcome, this.release held, r)

omit [AsRawFd T] in
@[simp] theorem release_held (this : Nonblocking T τ σ) : this.release this.held = this := by
  obtain ⟨⟨_ | value, waiter⟩, interest, captured⟩ := this
  · rfl
  · rfl

theorem entry_held (this : Nonblocking T τ σ) (addr : Addr) :
    this.held.entry addr = this.a.entry addr := by
  obtain ⟨⟨_ | value, waiter⟩, interest, captured⟩ := this
  · rfl
  · rfl

theorem entry_release (this : Nonblocking T τ σ) (held : Async (T × σ) τ) (addr : Addr) :
    (this.release held).a.entry addr = held.entry addr := by
  obtain ⟨_ | ⟨value, captured⟩, waiter⟩ := held
  · rfl
  · rfl

end Nonblocking

def Outcome.wouldBlock : Outcome Unit (Except Error R) → Bool
  | .ret (.error e) => e.kind = .wouldBlock
  | _ => false

theorem wouldBlock_ret_iff {result : Except Error R} :
    Outcome.wouldBlock (.ret result) = true ↔ ∃ e, result = .error e ∧ e.kind = .wouldBlock := by
  cases result <;> simp [Outcome.wouldBlock]

def Outcome.resolved : Outcome Unit (Except Error R) → Outcome Panic (Poll (Except Error R))
  | .ret result => .ret (.ready result)
  | .panic () => .panic .closure

theorem resolved_ne_pending (outcome : Outcome Unit (Except Error R)) :
    outcome.resolved ≠ .ret .pending := by
  cases outcome <;> simp [Outcome.resolved]

theorem resolved_eq_ready_iff {outcome : Outcome Unit (Except Error R)} {result : Except Error R} :
    outcome.resolved = .ret (.ready result) ↔ outcome = .ret result := by
  cases outcome <;> simp [Outcome.resolved]

omit [AsRawFd T] in
theorem blocks_closure_iff {f : FnMut σ T R} {value : T} {captured : σ} :
    Closure.Blocks f.closure (value, captured) ↔ (f captured value).1.wouldBlock = true := by
  simp only [Closure.Blocks, FnMut.closure]
  obtain (e | result) | p := (f captured value).1
  · simp [Outcome.wouldBlock]
  · simp [Outcome.wouldBlock]
  · simp [Outcome.wouldBlock]

namespace Nonblocking

variable [Epoll κ]

def blockedWaiter (this : Nonblocking T τ σ) (waker : Waker τ) : Waiter τ where
  waker := waker
  registerFor := this.a.waiter.registerFor ||| this.interest.asEvents ||| EPOLLET
  waitingFor := this.a.waiter.waitingFor ||| this.interest.asEvents

omit [AsRawFd T] [Epoll κ] in
theorem awaits_blockedWaiter (this : Nonblocking T τ σ) {interest : Interest}
    (h : this.interest = interest) (waker : Waker τ) :
    interest.asEvents &&& (this.blockedWaiter waker).waitingFor ≠ 0#32 := by
  obtain ⟨b, hb⟩ := ne_zero_iff.mp interest.asEvents_ne_zero
  refine meet_ne_zero_iff.mpr ⟨b, hb, has_or.mpr (.inr ?_)⟩
  rwa [h]

def invoked (this : Nonblocking T τ σ) (value : T) (captured : σ) : Nonblocking T τ σ :=
  { this with a := { this.a with inner := some value }, captured }

theorem poll_cases {this : Nonblocking T τ σ} {value : T} (hInner : this.a.inner = some value)
    (addr : Addr) (waker : Waker τ) (f : FnMut σ T R) (r : Reactor κ) :
    let called := f this.captured value
    let that := this.invoked called.2.2 called.2.1
    let registered := ensureRegistered (asRawFd value) addr
      (this.a.block waker this.interest).waiter this.interest r
    (this.interest.asEvents &&& this.a.waiter.waitingFor ≠ 0#32 ∧
      this.poll addr waker f r = (.ret .pending, this, r)) ∨
    (this.interest.asEvents &&& this.a.waiter.waitingFor = 0#32 ∧ called.1.wouldBlock = true ∧
      ∃ outcome, ((registered.1 = .ret () ∧ outcome = .ret .pending) ∨
          (registered.1 = .panic .register ∧ outcome = .panic .register)) ∧
        this.poll addr waker f r =
          (outcome, { that with a := { that.a with waiter := this.blockedWaiter waker } },
            registered.2.2)) ∨
    (this.interest.asEvents &&& this.a.waiter.waitingFor = 0#32 ∧ called.1.wouldBlock = false ∧
      this.poll addr waker f r = (called.1.resolved, that, r)) := by
  intro called that registered
  have hHeld : this.held.inner = some (value, this.captured) := by
    simp only [held, hInner, Option.map_some]
  have hWaiter : this.held.waiter = this.a.waiter := rfl
  obtain ⟨hSkip, hAttempt⟩ | ⟨hTry, hBlocks, hAttempt⟩ | ⟨hTry, hBlocks, hAttempt⟩ :=
    Async.pollAttempt_cases hHeld waker this.interest f.closure
  · refine .inl ⟨hSkip, ?_⟩
    simp only [poll, Async.pollNonblocking_eq, hAttempt, Async.pollFinish, release_held]
  · refine .inr (.inl ⟨hTry, blocks_closure_iff.mp hBlocks, ?_⟩)
    simp only [poll, Async.pollNonblocking_eq, hAttempt]
    let blocked : Async (T × σ) τ :=
      { this.held with inner := some (f.closure (value, this.captured)).2 }.block waker
        this.interest
    have hOutcome := Async.pollFinish_blocked_outcome (R := R) addr this.interest r
      (asRawFd (value, this.captured)) blocked
    obtain ⟨outcome, hFinish, -⟩ := Async.pollFinish_blocked (R := R) addr this.interest r
      (asRawFd (value, this.captured)) blocked
    rw [hFinish] at hOutcome ⊢
    rw [ensureRegistered_waiter]
    exact ⟨outcome, hOutcome, rfl⟩
  · have hNot : called.1.wouldBlock = false := by
      rw [← Bool.not_eq_true]
      exact fun h => hBlocks (blocks_closure_iff.mpr h)
    refine .inr (.inr ⟨hTry, hNot, ?_⟩)
    simp only [poll, Async.pollNonblocking_eq, hAttempt]
    have hClosure : f.closure (value, this.captured) = (called.1, (called.2.2, called.2.1)) := rfl
    rw [hClosure]
    obtain result | p := called.1
    · rfl
    · rfl

end Nonblocking

def FnMut.recorded (f : FnMut σ T R) :
    FnMut (σ × List (Outcome Unit (Except Error R))) T R := fun (captured, ends) value =>
  let (outcome, captured, value) := f captured value
  (outcome, (captured, ends ++ [outcome]), value)

/-- A future that is awaited, and the reactor of its thread. -/
structure Awaiting (T τ σ κ : Type) where
  future : Nonblocking T τ σ
  reactor : Reactor κ

namespace Awaiting

inductive Act (T τ σ κ R : Type) where
  | poll (waker : Waker τ) (f : FnMut σ T R)
  | event (events : Events)
  | elsewhere (effect : Reactor κ → Reactor κ)

variable [Epoll κ]

/-- There is no next state when the future resolves or panics. -/
def step (addr : Addr) (s : Awaiting T τ (σ × List (Outcome Unit (Except Error R))) κ) :
    Act T τ σ κ R → Option (Awaiting T τ (σ × List (Outcome Unit (Except Error R))) κ)
  | .poll waker f =>
    match s.future.poll addr waker f.recorded s.reactor with
    | (.ret .pending, future, reactor) => some { future, reactor }
    | _ => none
  | .event events =>
    let (waiter, _) := Reactor.deliver { events, data := addr } s.future.a.waiter
    some { s with future := { s.future with a := { s.future.a with waiter } } }
  | .elsewhere effect => some { s with reactor := effect s.reactor }

variable {addr : Addr} {s t : Awaiting T τ (σ × List (Outcome Unit (Except Error R))) κ}

/-- The value is there, and no invocation so far has ended but in `WouldBlock`. -/
def Blocked (s : Awaiting T τ (σ × List (Outcome Unit (Except Error R))) κ) : Prop :=
  s.future.a.inner.isSome ∧ ∀ outcome ∈ s.future.captured.2, outcome.wouldBlock = true

theorem Blocked.step (h : s.Blocked) {act : Act T τ σ κ R} (hStep : s.step addr act = some t) :
    t.Blocked := by
  cases act with
  | event events =>
    cases hStep
    exact h
  | elsewhere effect =>
    cases hStep
    exact h
  | poll waker f =>
    obtain ⟨hInner, hEnds⟩ := h
    obtain ⟨value, hInner⟩ := Option.isSome_iff_exists.mp hInner
    simp only [Awaiting.step] at hStep
    obtain ⟨-, hPoll⟩ | ⟨-, hBlocks, outcome, hOutcome, hPoll⟩ | ⟨-, -, hPoll⟩ :=
      Nonblocking.poll_cases hInner addr waker f.recorded s.reactor
    · rw [hPoll] at hStep
      cases hStep
      exact ⟨by simp [hInner], hEnds⟩
    · rw [hPoll] at hStep
      obtain ⟨-, rfl⟩ | ⟨-, rfl⟩ := hOutcome
      · cases hStep
        refine ⟨rfl, fun outcome hMem => ?_⟩
        obtain hMem | hMem := List.mem_append.mp hMem
        · exact hEnds outcome hMem
        · rw [List.mem_singleton.mp hMem]
          exact hBlocks
      · cases hStep
    · rw [hPoll] at hStep
      have hEnd := resolved_ne_pending (f.recorded s.future.captured value).1
      split at hStep
      · rename_i hSplit
        exact absurd (congrArg Prod.fst hSplit) hEnd
      · cases hStep

theorem Blocked.run (h : s.Blocked) {acts : List (Act T τ σ κ R)}
    (hRun : Transition.run (Awaiting.step addr) s acts = some t) : t.Blocked :=
  Transition.invariant_of_run (I := Blocked) (fun _ _ _ h hStep => h.step hStep) h hRun

/-- A poll of a future that has been pending resolves it exactly with the first
end of its closure that is not `WouldBlock`. -/
theorem Blocked.resolves_first (h : s.Blocked) (waker : Waker τ) (f : FnMut σ T R)
    (result : Except Error R) :
    let polled := s.future.poll addr waker f.recorded s.reactor
    polled.1 = .ret (.ready result) ↔
      polled.2.1.captured.2.find? (fun outcome => !outcome.wouldBlock) = some (.ret result) := by
  intro polled
  obtain ⟨hInner, hEnds⟩ := h
  obtain ⟨value, hInner⟩ := Option.isSome_iff_exists.mp hInner
  have hNone : s.future.captured.2.find? (fun outcome => !outcome.wouldBlock) = none := by
    rw [List.find?_eq_none]
    intro outcome hMem
    simp [hEnds outcome hMem]
  obtain ⟨-, hPoll⟩ | ⟨-, hBlocks, outcome, hOutcome, hPoll⟩ | ⟨-, hEnd, hPoll⟩ :=
    Nonblocking.poll_cases hInner addr waker f.recorded s.reactor
  · simp only [polled, hPoll, hNone]
    simp
  · have hLast : (f s.future.captured.1 value).1.wouldBlock = true := hBlocks
    simp only [polled, hPoll, Nonblocking.invoked, FnMut.recorded, List.find?_append, hNone]
    obtain ⟨-, rfl⟩ | ⟨-, rfl⟩ := hOutcome
    · simp [hLast]
    · simp [hLast]
  · have hLast : (f s.future.captured.1 value).1.wouldBlock = false := hEnd
    simp only [polled, hPoll, Nonblocking.invoked, FnMut.recorded, List.find?_append, hNone]
    rw [resolved_eq_ready_iff]
    simp [hLast]

end Awaiting

end Ground
