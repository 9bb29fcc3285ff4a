import Ground.Io.Nonblocking
import Ground.Io.Traits

/-! # `Async` serves what the wrapped value serves

Whatever is polled, cancelled, skipped, refused or closed, the calls that an
`Async` has made on the wrapped value, in their order and with the ends that were
reported, are a sequential history of this value. A call that would block is
reported as pending, and one that is not made is too.
-/

namespace Ground

variable {T τ κ : Type} [AsRawFd T] [Read T] [Write T] [BufRead T]

/-- A call with the end that was reported, a call that was reported as pending, or
a change that is not this thread's. -/
inductive Served (T : Type) where
  | reported (op : Operation) (reported : Outcome Unit (Except Error Answer))
  | blocked (op : Operation)
  | outside (change : T → T)

def Moves (inner : T) : Served T → T → Prop
  | .reported op reported, inner' => op.serve inner = (reported, inner')
  | .blocked op, inner' => (op.serve inner).1.wouldBlock = true ∧ inner' = (op.serve inner).2
  | .outside change, inner' => inner' = change inner

def Served.Happened : Served T → Bool
  | .blocked _ => false
  | _ => true

namespace Async

variable [Epoll κ]

/-- Of a call that was reported so, by an `Async` in this state, what the value has seen. -/
def seen (this : Async T τ) (op : Operation) :
    Outcome Panic (Poll (Except Error Answer)) → List (Served T)
  | .ret (.ready result) => [.reported op (.ret result)]
  | .panic .closure => [.reported op (.panic ())]
  | .panic .innerTaken => []
  | _ =>
    if op.interest.asEvents &&& this.waiter.waitingFor = 0#32 then [.blocked op] else []

omit [AsRawFd T] [Read T] [Write T] [BufRead T] in
theorem seen_resolved (this : Async T τ) (op : Operation)
    (outcome : Outcome Unit (Except Error Answer)) :
    this.seen op outcome.resolved = [.reported op outcome] := by
  obtain result | ⟨⟩ := outcome
  · rfl
  · rfl

theorem call_taken {this : Async T τ} (hInner : this.inner = none) (addr : Addr)
    (waker : Waker τ) (r : Reactor κ) (op : Operation) :
    op.call this addr waker r = (.panic .innerTaken, this, r) := by
  obtain ⟨amt, rfl⟩ | hPoll := op.call_eq_poll this addr waker r
  · simp only [Operation.call, consume, pinGetMut, hInner]
    rfl
  · rw [hPoll, pollNonblocking_eq, pollAttempt_taken hInner]
    rfl

theorem call_serves {this : Async T τ} {inner : T} (hInner : this.inner = some inner)
    (addr : Addr) (waker : Waker τ) (r : Reactor κ) (op : Operation) :
    let called := op.call this addr waker r
    ∃ inner', called.2.1.inner = some inner' ∧
      Sequential Moves inner (this.seen op called.1) inner' := by
  intro called
  obtain ⟨amt, rfl⟩ | hPoll := op.call_eq_poll this addr waker r
  · refine ⟨BufRead.consume amt inner, ?_, ?_⟩
    · simp only [called, Operation.call, consume, pinGetMut, hInner]
    · simp only [called, Operation.call, consume, pinGetMut, hInner]
      exact .single rfl
  · simp only [called, hPoll, pollNonblocking_eq]
    obtain ⟨hSkip, hAttempt⟩ | ⟨hTry, ⟨e, hEnd, hKind⟩, hAttempt⟩ | ⟨-, hBlocks, hAttempt⟩ :=
      pollAttempt_cases hInner waker op.interest op.serve
    · rw [hAttempt]
      refine ⟨inner, hInner, ?_⟩
      simp only [pollFinish, seen, if_neg hSkip]
      exact .nil inner
    · rw [hAttempt]
      refine ⟨(op.serve inner).2, ?_, ?_⟩
      · obtain ⟨outcome, hFinish, -⟩ := pollFinish_blocked (R := Answer) addr op.interest r
          (asRawFd inner) ({ this with inner := some (op.serve inner).2 }.block waker op.interest)
        rw [hFinish]
        rfl
      · have hMoves : Moves inner (.blocked op) (op.serve inner).2 := by
          refine ⟨?_, rfl⟩
          rw [hEnd]
          exact wouldBlock_ret_iff.mpr ⟨e, rfl, hKind⟩
        obtain ⟨-, hOutcome⟩ | ⟨-, hOutcome⟩ := pollFinish_blocked_outcome (R := Answer) addr
          op.interest r (asRawFd inner)
          ({ this with inner := some (op.serve inner).2 }.block waker op.interest)
        · rw [hOutcome]
          simp only [seen, if_pos hTry]
          exact .single hMoves
        · rw [hOutcome]
          simp only [seen, if_pos hTry]
          exact .single hMoves
    · rw [hAttempt]
      refine ⟨(op.serve inner).2, ?_, ?_⟩
      · obtain result | p := (op.serve inner).1
        · rfl
        · rfl
      · have hFinish : (pollFinish addr op.interest r (Attempt.finished
            ((op.serve inner).1.mapPanic fun _ => Panic.closure),
            { this with inner := some (op.serve inner).2 })).1 = (op.serve inner).1.resolved := by
          obtain result | p := (op.serve inner).1
          · rfl
          · rfl
        rw [hFinish, seen_resolved]
        exact .single rfl

omit [Read T] [Write T] [BufRead T] in
theorem takeInner_inner (this : Async T τ) (r : Reactor κ) :
    let taken := this.takeInner r
    (∃ inner, this.inner = some inner ∧ taken.1 = .ret inner ∧ taken.2.1.inner = none) ∨
      (∃ p, taken.1 = .panic p ∧ taken.2.1.inner = this.inner) := by
  obtain ⟨hInner, -⟩ := this.deregister_async r
  simp only [takeInner]
  rcases hRun : this.deregister r with ⟨⟨⟩ | p, this', r'⟩
  · rw [hRun] at hInner
    simp only at hInner ⊢
    cases hHeld : this'.inner with
    | none => exact .inr ⟨.innerTaken, rfl, hInner⟩
    | some inner => exact .inl ⟨inner, hInner.symm.trans hHeld, rfl, rfl⟩
  · rw [hRun] at hInner
    exact .inr ⟨p, rfl, hInner⟩

theorem pollClose_inner (this : Async T τ) (addr : Addr) (waker : Waker τ) (r : Reactor κ) :
    let mid := (Operation.flush.call this addr waker r).2.1
    let closed := this.pollClose addr waker Write.flush r
    (closed.1 = .ret (.ready (.ok ())) ∧ mid.inner.isSome ∧ closed.2.1.inner = none) ∨
      (closed.1 ≠ .ret (.ready (.ok ())) ∧ closed.2.1.inner = mid.inner) := by
  simp only [Operation.call, pollFlush, pollClose]
  rcases this.pollNonblocking addr waker .write Write.flush r with
    ⟨((e | ⟨⟨⟩⟩) | _) | p, mid, rMid⟩
  case ret.ready.ok =>
    simp only [Operation.answering]
    obtain ⟨inner, hInner, hOutcome, hNone⟩ | ⟨p, hOutcome, hSame⟩ := mid.takeInner_inner rMid
    · rcases hTake : mid.takeInner rMid with ⟨outcome, this', r'⟩
      rw [hTake] at hOutcome hNone
      cases hOutcome
      exact .inl ⟨rfl, by simp [hInner], hNone⟩
    · rcases hTake : mid.takeInner rMid with ⟨outcome, this', r'⟩
      rw [hTake] at hOutcome hSame
      cases hOutcome
      exact .inr ⟨by simp, hSame⟩
  all_goals exact .inr ⟨by simp, rfl⟩

end Async

structure Serving (T τ κ : Type) where
  this : Async T τ
  reactor : Reactor κ
  served : List (Served T)
  taken : Option T

namespace Serving

def fresh (inner : T) (reactor : Reactor κ) : Serving T τ κ where
  this :=
    { inner := some inner
      waiter := { waker := .noop, registerFor := 0#32, waitingFor := 0#32 } }
  reactor := reactor
  served := []
  taken := none

inductive Act (T τ κ : Type) where
  | call (waker : Waker τ) (op : Operation)
  | close (waker : Waker τ)
  | take
  | event (events : Events)
  | elsewhere (effect : Reactor κ → Reactor κ)
  | outside (change : T → T)

variable [Epoll κ]

def step (addr : Addr) (s : Serving T τ κ) : Act T τ κ → Serving T τ κ
  | .call waker op =>
    let (outcome, this, reactor) := op.call s.this addr waker s.reactor
    { s with this, reactor, served := s.served ++ s.this.seen op outcome }
  | .close waker =>
    let (flushed, mid, _) := Operation.flush.call s.this addr waker s.reactor
    let (outcome, this, reactor) := s.this.pollClose addr waker Write.flush s.reactor
    let taken := match outcome with
      | .ret (.ready (.ok ())) => mid.inner
      | _ => s.taken
    { this, reactor, served := s.served ++ s.this.seen .flush flushed, taken }
  | .take =>
    let (outcome, this, reactor) := s.this.takeInner s.reactor
    let taken := match outcome with
      | .ret value => some value
      | .panic _ => s.taken
    { s with this, reactor, taken }
  | .event events =>
    let (waiter, _) := Reactor.deliver { events, data := addr } s.this.waiter
    { s with this := { s.this with waiter } }
  | .elsewhere effect => { s with reactor := effect s.reactor }
  | .outside change =>
    match s.this.inner with
    | none => s
    | some inner =>
      { s with
        this := { s.this with inner := some (change inner) }
        served := s.served ++ [.outside change] }

variable {addr : Addr} {inner₀ : T} {s : Serving T τ κ}

/-- What the value has seen explains the value, wherever it is. -/
def Explained (inner₀ : T) (s : Serving T τ κ) : Prop :=
  (∃ inner, s.this.inner = some inner ∧ s.taken = none ∧ Sequential Moves inner₀ s.served inner) ∨
    (∃ value, s.this.inner = none ∧ s.taken = some value ∧
      Sequential Moves inner₀ s.served value)

theorem Explained.step (h : s.Explained inner₀) (act : Act T τ κ) :
    (s.step addr act).Explained inner₀ := by
  obtain ⟨inner, hInner, hTaken, hServed⟩ | ⟨value, hInner, hTaken, hServed⟩ := h
  · cases act with
    | call waker op =>
      obtain ⟨inner', hAfter, hMoves⟩ := Async.call_serves hInner addr waker s.reactor op
      exact .inl ⟨inner', hAfter, hTaken, hServed.append hMoves⟩
    | close waker =>
      obtain ⟨inner', hAfter, hMoves⟩ := Async.call_serves hInner addr waker s.reactor .flush
      obtain ⟨hOutcome, -, hNone⟩ | ⟨hOutcome, hSame⟩ :=
        s.this.pollClose_inner addr waker s.reactor
      · refine .inr ⟨inner', hNone, ?_, hServed.append hMoves⟩
        simp only [Serving.step, hOutcome]
        exact hAfter
      · refine .inl ⟨inner', hSame.trans hAfter, ?_, hServed.append hMoves⟩
        simp only [Serving.step]
        exact hTaken
    | take =>
      obtain ⟨inner', hHeld, hOutcome, hNone⟩ | ⟨p, hOutcome, hSame⟩ :=
        s.this.takeInner_inner s.reactor
      · obtain rfl := Option.some.inj (hInner.symm.trans hHeld)
        refine .inr ⟨inner, hNone, ?_, hServed⟩
        simp only [Serving.step, hOutcome]
      · refine .inl ⟨inner, hSame.trans hInner, ?_, hServed⟩
        simp only [Serving.step, hOutcome]
        exact hTaken
    | event events => exact .inl ⟨inner, hInner, hTaken, hServed⟩
    | elsewhere effect => exact .inl ⟨inner, hInner, hTaken, hServed⟩
    | outside change =>
      simp only [Serving.step, hInner]
      exact .inl ⟨change inner, rfl, hTaken, hServed.append (.single rfl)⟩
  · have hCall : ∀ (waker : Waker τ) (op : Operation), op.call s.this addr waker s.reactor =
        (.panic .innerTaken, s.this, s.reactor) := fun waker op =>
      Async.call_taken hInner addr waker s.reactor op
    refine .inr ⟨value, ?_⟩
    cases act with
    | call waker op =>
      simp only [Serving.step, hCall, Async.seen, List.append_nil]
      exact ⟨hInner, hTaken, hServed⟩
    | close waker =>
      obtain ⟨hOutcome, hSome, -⟩ | ⟨hOutcome, hSame⟩ :=
        s.this.pollClose_inner addr waker s.reactor
      · rw [hCall] at hSome
        simp [hInner] at hSome
      · rw [hCall] at hSame
        refine ⟨hSame.trans hInner, ?_, ?_⟩
        · simp only [Serving.step]
          exact hTaken
        · simp only [Serving.step, hCall, Async.seen, List.append_nil]
          exact hServed
    | take =>
      obtain ⟨inner', hHeld, -⟩ | ⟨p, hOutcome, hSame⟩ := s.this.takeInner_inner s.reactor
      · cases hInner.symm.trans hHeld
      · refine ⟨hSame.trans hInner, ?_, hServed⟩
        simp only [Serving.step, hOutcome]
        exact hTaken
    | event events => exact ⟨hInner, hTaken, hServed⟩
    | elsewhere effect => exact ⟨hInner, hTaken, hServed⟩
    | outside change =>
      have hSame : s.step addr (.outside change) = s := by simp only [Serving.step, hInner]
      rw [hSame]
      exact ⟨hInner, hTaken, hServed⟩

/-- After every run the value, in its `Async` or extracted, is what a sequential
history with the reported ends leads to. Calls that were reported as pending can be
left out of it when a call that would block leaves the value as it was. -/
theorem served_sequentially (inner : T) (r : Reactor κ) (addr : Addr) (acts : List (Act T τ κ)) :
    let s := acts.foldl (Serving.step addr) (fresh inner r)
    ∃ inner', (s.this.inner = some inner' ∧ s.taken = none ∨
        s.this.inner = none ∧ s.taken = some inner') ∧
      Sequential Moves inner s.served inner' ∧
      ((∀ (op : Operation) (value : T), (op.serve value).1.wouldBlock = true →
          (op.serve value).2 = value) →
        Sequential Moves inner (s.served.filter Served.Happened) inner') := by
  intro s
  have hExplained : s.Explained inner := by
    refine List.foldlRecOn acts (Serving.step addr) (motive := Explained inner) ?_ ?_
    · exact .inl ⟨inner, rfl, rfl, .nil inner⟩
    · exact fun _ h act _ => h.step act
  have hFilter : ∀ inner', Sequential Moves inner s.served inner' →
      (∀ (op : Operation) (value : T), (op.serve value).1.wouldBlock = true →
        (op.serve value).2 = value) →
      Sequential Moves inner (s.served.filter Served.Happened) inner' := by
    intro inner' hServed hStill
    refine hServed.filter ?_
    rintro value (⟨op, reported⟩ | op | change) value' hMoves ⟨⟩
    exact hMoves.2.trans (hStill op value hMoves.1)
  obtain ⟨value, hInner, hTaken, hServed⟩ | ⟨value, hInner, hTaken, hServed⟩ := hExplained
  · exact ⟨value, .inl ⟨hInner, hTaken⟩, hServed, hFilter value hServed⟩
  · exact ⟨value, .inr ⟨hInner, hTaken⟩, hServed, hFilter value hServed⟩

end Serving

end Ground
