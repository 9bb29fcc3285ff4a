import Ground.Epoll
import Ground.Io.Session

/-! # Whom a delivery wakes

The waiter has one waker slot. A poll that blocks overwrites it, a poll that is
skipped leaves it alone. So the slot serves a task exactly as long as every
skipped poll finds its own waker there and no other task's poll blocks while
the task is pending.
-/

namespace Ground

open Mask History Transition

variable {T τ κ R : Type} [AsRawFd T] [Epoll κ]

theorem Waker.wakeByRef_injective : Function.Injective (@Waker.wakeByRef τ) := by
  rintro (_ | a) (_ | b) h
  · rfl
  · cases h
  · cases h
  · cases h
    rfl

namespace Session

variable {addr : Addr} {s : Session T τ κ}

def Wakes (s : Session T τ κ) (addr : Addr) (interest : Interest) (waker : Waker τ) : Prop :=
  ∀ events : Events, events &&& interest.asEvents ≠ 0#32 →
    (Reactor.deliver { events, data := addr } s.this.waiter).2 = waker.wakeByRef

omit [AsRawFd T] [Epoll κ] in
theorem wakes_iff {interest : Interest} {waker : Waker τ} :
    s.Wakes addr interest waker ↔ s.this.waiter.waker = waker := by
  constructor
  · intro h
    exact Waker.wakeByRef_injective (h interest.asEvents (by simpa using interest.asEvents_ne_zero))
  · rintro rfl events _
    rfl

theorem step_poll_entry (waker : Waker τ) (interest : Interest) (f : Closure T R) :
    (s.step addr (.poll waker interest f)).1 =
      .polled waker interest (s.this.pollAttempt waker interest f).1
        (s.this.pollNonblocking addr waker interest f s.reactor).1 := rfl

theorem step_poll_cases (h : s.Holds) (addr : Addr) (waker : Waker τ) (interest : Interest)
    (f : Closure T R) :
    (interest.asEvents &&& s.this.waiter.waitingFor ≠ 0#32 ∧
      (s.this.pollAttempt waker interest f).1 = .skipped ∧
      (s.this.pollNonblocking addr waker interest f s.reactor).1 = .ret .pending ∧
      (s.step addr (.poll waker interest f)).2.this.waiter.waker = s.this.waiter.waker) ∨
    (interest.asEvents &&& s.this.waiter.waitingFor = 0#32 ∧
      (∃ fd, (s.this.pollAttempt waker interest f).1 = .blocked fd) ∧
      (s.step addr (.poll waker interest f)).2.this.waiter.waker = waker) ∨
    (interest.asEvents &&& s.this.waiter.waitingFor = 0#32 ∧
      (∀ fd, (s.this.pollAttempt waker interest f).1 ≠ .blocked fd) ∧
      (s.this.pollNonblocking addr waker interest f s.reactor).1 ≠ .ret .pending ∧
      (s.step addr (.poll waker interest f)).2.this.waiter.waker = s.this.waiter.waker) := by
  obtain ⟨inner, hInner⟩ := Option.isSome_iff_exists.mp h
  obtain ⟨registerFor, hAsync⟩ := s.this.pollNonblocking_async addr waker interest f s.reactor
  simp only [step, hAsync]
  obtain ⟨hSkip, hAttempt⟩ | ⟨hTry, -, hAttempt⟩ | ⟨hTry, -, hAttempt⟩ :=
    Async.pollAttempt_cases hInner waker interest f
  · exact .inl ⟨hSkip, by rw [hAttempt],
      by rw [Async.pollNonblocking_eq, hAttempt, Async.pollFinish], by rw [hAttempt]⟩
  · exact .inr (.inl ⟨hTry, ⟨asRawFd inner, by rw [hAttempt]⟩, by rw [hAttempt]; rfl⟩)
  · refine .inr (.inr ⟨hTry, by simp [hAttempt], ?_, by rw [hAttempt]⟩)
    rw [Async.pollNonblocking_eq, hAttempt]
    rcases (f inner).1 with value | p <;> simp [Async.pollFinish]

namespace Entry

def PendingBy (waker : Waker τ) : Entry τ R → Prop
  | .polled waker' _ _ (.ret .pending) => waker' = waker
  | _ => False

def Pending (e : Entry τ R) : Prop := ∃ waker, e.PendingBy waker

def PendingOn (interest : Interest) : Entry τ R → Prop
  | .polled _ interest' _ (.ret .pending) => interest' = interest
  | _ => False

def PolledOn (interest : Interest) : Entry τ R → Prop
  | .polled _ interest' _ _ => interest' = interest
  | _ => False

def CarriesAny (interest : Interest) (e : Entry τ R) : Prop :=
  ∃ b, Has interest.asEvents b ∧ e.Carries b

variable (waker waker' : Waker τ) (interest interest' : Interest) (attempt : Attempt R)
  (outcome : Outcome Panic (Poll (Except Error R)))

@[simp] theorem pendingBy_polled : PendingBy waker (.polled waker' interest attempt outcome) ↔
    waker' = waker ∧ outcome = .ret .pending := by
  rcases outcome with (value | _) | p <;> simp [PendingBy]

@[simp] theorem pendingOn_polled : PendingOn interest (.polled waker interest' attempt outcome) ↔
    interest' = interest ∧ outcome = .ret .pending := by
  rcases outcome with (value | _) | p <;> simp [PendingOn]

@[simp] theorem pending_polled : Pending (.polled waker interest attempt outcome) ↔
    outcome = .ret .pending := by
  simp [Pending]

@[simp] theorem polledOn_polled :
    PolledOn interest (.polled waker interest' attempt outcome) ↔ interest' = interest := Iff.rfl

@[simp] theorem not_carriesAny_polled :
    ¬ CarriesAny interest (.polled waker interest' attempt outcome) := by
  rintro ⟨b, -, h⟩
  exact h

end Entry

def FindsOwnWaker (s : Session T τ κ) : Act T τ κ R → Prop
  | .poll waker interest _ =>
    interest.asEvents &&& s.this.waiter.waitingFor ≠ 0#32 → s.this.waiter.waker = waker
  | _ => True

/-- The most recent poll that returned `Pending` was by this waker, and no
event in a direction of the interest has been delivered since. -/
def LatestPending (interest : Interest) (waker : Waker τ) (entries : List (Entry τ R)) : Prop :=
  Since (Entry.PendingBy waker) (fun e => e.Pending ∨ e.CarriesAny interest) entries

theorem waits_of_latestPending (h : s.Holds) {interest : Interest} {waker : Waker τ}
    {acts : List (Act T τ κ R)}
    (hOnly : ∀ waker j f, Act.poll waker j f ∈ acts → j = interest)
    (hPending : LatestPending interest waker (s.history addr acts)) :
    interest.asEvents &&& (s.after addr acts).this.waiter.waitingFor ≠ 0#32 := by
  induction acts using List.reverseRecOn generalizing waker with
  | nil => exact absurd hPending not_since_nil
  | append_singleton acts act ih =>
    have hOnly' : ∀ waker j f, Act.poll waker j f ∈ acts → j = interest := fun waker j f hMem =>
      hOnly waker j f (List.mem_append_left _ hMem)
    have hHolds : (s.after addr acts).Holds := h.after acts
    rw [after_snoc, meet_ne_zero_iff]
    rw [history_snoc, LatestPending, since_snoc] at hPending
    have hStep := has_waitingFor_step hHolds addr act
    obtain hNow | ⟨hBefore, hNot⟩ := hPending
    · cases act with
      | event events => exact absurd hNow id
      | elsewhere effect => exact absurd hNow id
      | poll waker' j f =>
        obtain rfl := hOnly waker' j f (by simp)
        obtain ⟨hSkip, -⟩ | ⟨-, ⟨fd, hBlocked⟩, -⟩ | ⟨-, -, hOutcome, -⟩ :=
          step_poll_cases hHolds addr waker' j f
        · obtain ⟨b, hb, hWaits⟩ := meet_ne_zero_iff.mp hSkip
          exact ⟨b, hb, (hStep b).mpr (.inr ⟨hWaits, id⟩)⟩
        · obtain ⟨b, hb⟩ := ne_zero_iff.mp j.asEvents_ne_zero
          refine ⟨b, hb, (hStep b).mpr (.inl ?_)⟩
          rw [step_poll_entry, hBlocked]
          exact hb
        · rw [step_poll_entry, Entry.pendingBy_polled] at hNow
          exact absurd hNow.2 hOutcome
    · obtain ⟨b, hb, hWaits⟩ := meet_ne_zero_iff.mp (ih hOnly' hBefore)
      exact ⟨b, hb, (hStep b).mpr (.inr ⟨hWaits, fun hCarries => hNot (.inr ⟨b, hb, hCarries⟩)⟩)⟩

/-- The most recent poller is woken after every prefix of the calls exactly
when every skipped poll finds its own waker in the slot. -/
theorem latest_poller_woken_iff (inner : T) (r : Reactor κ) (addr : Addr) {interest : Interest}
    {acts : List (Act T τ κ R)}
    (hOnly : ∀ waker j f, Act.poll waker j f ∈ acts → j = interest) :
    (∀ before, before <+: acts → ∀ waker,
      LatestPending interest waker ((fresh inner r).history addr before) →
      ((fresh inner r).after addr before).Wakes addr interest waker) ↔
    ∀ before act, before ++ [act] <+: acts →
      ((fresh inner r).after addr before).FindsOwnWaker act := by
  apply forall_prefix_iff
  · intro waker hPending
    exact absurd hPending not_since_nil
  intro before act hPrefix hBefore
  have hHolds : ((fresh inner r).after addr before : Session T τ κ).Holds :=
    (holds_fresh inner r).after before
  simp only [wakes_iff, history_snoc, after_snoc, LatestPending, since_snoc] at hBefore ⊢
  cases act with
  | event events =>
    refine iff_of_true (fun waker hPending => ?_) trivial
    exact hBefore waker (hPending.resolve_left id).1
  | elsewhere effect =>
    refine iff_of_true (fun waker hPending => ?_) trivial
    exact hBefore waker (hPending.resolve_left id).1
  | poll waker j f =>
    obtain rfl := hOnly waker j f (hPrefix.subset (by simp))
    have hOnly' : ∀ waker j' f, Act.poll waker j' f ∈ before → j' = j := fun waker j' f hMem =>
      hOnly waker j' f (hPrefix.subset (List.mem_append_left _ hMem))
    simp only [step_poll_entry, Entry.pendingBy_polled, Entry.pending_polled,
      Entry.not_carriesAny_polled, or_false, FindsOwnWaker]
    obtain ⟨hSkip, -, hOutcome, hSlot⟩ | ⟨hTry, -, hSlot⟩ | ⟨hTry, -, hOutcome, hSlot⟩ :=
      step_poll_cases hHolds addr waker j f
    · -- a skipped poll becomes the most recent pending one and stores nothing
      simp [hSkip, hOutcome, hSlot]
    · refine iff_of_true (fun waker' hPending => ?_) (fun hSkip => absurd hTry hSkip)
      obtain ⟨rfl, -⟩ | ⟨hEarlier, -⟩ := hPending
      · exact hSlot
      · exact absurd hTry (waits_of_latestPending (holds_fresh inner r) hOnly' hEarlier)
    · refine iff_of_true (fun waker' hPending => ?_) (fun hSkip => absurd hTry hSkip)
      obtain ⟨-, hNow⟩ | ⟨hEarlier, -⟩ := hPending
      · exact absurd hNow hOutcome
      · exact absurd hTry (waits_of_latestPending (holds_fresh inner r) hOnly' hEarlier)

/-- A poll with this interest has returned `Pending` and it is the latest with it. -/
def StillPending (interest : Interest) (entries : List (Entry τ R)) : Prop :=
  Since (Entry.PendingOn interest) (Entry.PolledOn interest) entries

/-- A skipped poll finds its own waker in the slot, and no closure returns
`WouldBlock` while the latest poll in another direction is pending. -/
def KeepsWakers (s : Session T τ κ) (entries : List (Entry τ R)) : Act T τ κ R → Prop
  | .poll waker interest f =>
    s.FindsOwnWaker (.poll waker interest f) ∧
      ∀ fd, (s.this.pollAttempt waker interest f).1 = .blocked fd →
        ∀ j, j ≠ interest → j ≠ .readWrite → ¬ StillPending j entries
  | _ => True

/-- A reading and a writing task, each with its own waker, are each woken
whenever pending, after every prefix of the calls, exactly when every step
keeps the wakers. -/
theorem both_tasks_woken_iff (inner : T) (r : Reactor κ) (addr : Addr)
    {own : Interest → Waker τ} (hOwn : own .read ≠ own .write) {acts : List (Act T τ κ R)}
    (hShared : ∀ waker j f, Act.poll waker j f ∈ acts → j ≠ .readWrite ∧ waker = own j) :
    (∀ before, before <+: acts → ∀ interest, interest ≠ .readWrite →
      StillPending interest ((fresh inner r).history addr before) →
      ((fresh inner r).after addr before).Wakes addr interest (own interest)) ↔
    ∀ before act, before ++ [act] <+: acts →
      ((fresh inner r).after addr before).KeepsWakers
        ((fresh inner r).history addr before) act := by
  apply forall_prefix_iff
  · intro interest _ hPending
    exact absurd hPending not_since_nil
  intro before act hPrefix hBefore
  have hHolds : ((fresh inner r).after addr before : Session T τ κ).Holds :=
    (holds_fresh inner r).after before
  simp only [wakes_iff, history_snoc, after_snoc, StillPending, since_snoc] at hBefore ⊢
  cases act with
  | event events =>
    refine iff_of_true (fun interest hDirection hPending => ?_) trivial
    exact hBefore interest hDirection (hPending.resolve_left id).1
  | elsewhere effect =>
    refine iff_of_true (fun interest hDirection hPending => ?_) trivial
    exact hBefore interest hDirection (hPending.resolve_left id).1
  | poll waker j f =>
    obtain ⟨hj, rfl⟩ := hShared waker j f (hPrefix.subset (by simp))
    have hDistinct : ∀ i, i ≠ .readWrite → i ≠ j → own j ≠ own i := by
      intro i hi hij
      cases i <;> cases j <;> first | contradiction | exact hOwn | exact hOwn.symm
    simp only [step_poll_entry, Entry.pendingOn_polled, Entry.polledOn_polled, KeepsWakers,
      FindsOwnWaker]
    obtain ⟨hSkip, hAttempt, hOutcome, hSlot⟩ | ⟨hTry, ⟨fd, hAttempt⟩, hSlot⟩ |
      ⟨hTry, hAttempt, hOutcome, hSlot⟩ := step_poll_cases hHolds addr (own j) j f
    · constructor
      · intro h
        refine ⟨fun _ => hSlot ▸ h j hj (.inl ⟨rfl, hOutcome⟩), fun fd hBlocked => ?_⟩
        rw [hAttempt] at hBlocked
        cases hBlocked
      · rintro ⟨hFinds, -⟩ i hi (⟨rfl, -⟩ | ⟨hEarlier, -⟩)
        · exact hSlot.trans (hFinds hSkip)
        · exact hSlot.trans (hBefore i hi hEarlier)
    · -- the blocking poll takes the slot over, so nobody else may be pending
      constructor
      · intro h
        refine ⟨fun hSkip => absurd hTry hSkip, fun _ _ i hij hi hEarlier => ?_⟩
        exact hDistinct i hi hij (hSlot.symm.trans (h i hi (.inr ⟨hEarlier, Ne.symm hij⟩)))
      · rintro ⟨-, hAlone⟩ i hi (⟨rfl, -⟩ | ⟨hEarlier, hij⟩)
        · exact hSlot
        · exact absurd hEarlier (hAlone fd hAttempt i (Ne.symm hij) hi)
    · refine iff_of_true (fun i hi hPending => ?_)
        ⟨fun hSkip => absurd hTry hSkip, fun fd hBlocked => absurd hBlocked (hAttempt fd)⟩
      obtain ⟨-, hNow⟩ | ⟨hEarlier, -⟩ := hPending
      · exact absurd hNow hOutcome
      · exact hSlot.trans (hBefore i hi hEarlier)

theorem latest_poller_woken_iff_retry :
    let acts : List (Act RawFd Nat InterestList Nat) :=
      [.poll (.task 1) .read .wouldBlock, .event EPOLLIN, .poll (.task 1) .read (.done 5)]
    let s : Session RawFd Nat InterestList := fresh 3 (Reactor.new InterestList.empty)
    (∀ before, before <+: acts → ∀ waker, LatestPending .read waker (s.history 0 before) →
      (s.after 0 before).Wakes 0 .read waker) ↔
    ∀ before act, before ++ [act] <+: acts → (s.after 0 before).FindsOwnWaker act :=
  latest_poller_woken_iff 3 (Reactor.new InterestList.empty) 0
    (by simp only [List.mem_cons, List.not_mem_nil, or_false]
        rintro waker j f (h | h | h) <;> cases h <;> rfl)

/-- A read blocked in task 1 is continued in task 2, whose poll is skipped;
the next readable event wakes task 1. -/
theorem latest_poller_not_woken :
    let acts : List (Act RawFd Nat InterestList Nat) :=
      [.poll (.task 1) .read .wouldBlock, .poll (.task 2) .read .wouldBlock]
    let s : Session RawFd Nat InterestList := fresh 3 (Reactor.new InterestList.empty)
    LatestPending .read (.task 2) (s.history 0 acts) ∧
      (Reactor.deliver ⟨EPOLLIN, 0⟩ (s.after 0 acts).this.waiter).2 = [1] := by
  intro acts s
  refine ⟨?_, by decide⟩
  change LatestPending _ _ (s.history 0 ([.poll (.task 1) .read .wouldBlock] ++ [_]))
  rw [history_snoc, LatestPending, since_snoc, step_poll_entry, Entry.pendingBy_polled]
  exact .inl ⟨rfl, by decide⟩

theorem both_tasks_woken_iff_alternating :
    let own : Interest → Waker Nat := fun interest => .task (if interest = .read then 1 else 2)
    let acts : List (Act RawFd Nat InterestList Nat) :=
      [.poll (.task 1) .read .wouldBlock, .event EPOLLIN, .poll (.task 1) .read (.done 5),
        .poll (.task 2) .write .wouldBlock]
    let s : Session RawFd Nat InterestList := fresh 3 (Reactor.new InterestList.empty)
    (∀ before, before <+: acts → ∀ interest, interest ≠ .readWrite →
      StillPending interest (s.history 0 before) →
      (s.after 0 before).Wakes 0 interest (own interest)) ↔
    ∀ before act, before ++ [act] <+: acts →
      (s.after 0 before).KeepsWakers (s.history 0 before) act :=
  both_tasks_woken_iff 3 (Reactor.new InterestList.empty) 0 (by decide)
    (by simp only [List.mem_cons, List.not_mem_nil, or_false]
        rintro waker j f (h | h | h | h) <;> cases h <;> exact ⟨by decide, rfl⟩)

/-- The reader is blocked, then the writer blocks on the same `Async`: data
that arrives now wakes the writer and not the reader. -/
theorem reader_not_woken :
    let acts : List (Act RawFd Nat InterestList Nat) :=
      [.poll (.task 1) .read .wouldBlock, .poll (.task 2) .write .wouldBlock]
    let s : Session RawFd Nat InterestList := fresh 3 (Reactor.new InterestList.empty)
    StillPending .read (s.history 0 acts) ∧
      (Reactor.deliver ⟨EPOLLIN, 0⟩ (s.after 0 acts).this.waiter).2 = [2] := by
  intro acts s
  refine ⟨?_, by decide⟩
  change StillPending _ (s.history 0 (([] ++ [_]) ++ [_]))
  simp only [history_snoc, StillPending, since_snoc, step_poll_entry, Entry.pendingOn_polled,
    Entry.polledOn_polled]
  exact .inr ⟨.inl ⟨trivial, by decide⟩, by decide⟩

end Session

end Ground
