import Ground.Reentry.Delivery

/-! # A dispatch that was unwound

A panic that leaves a waker also leaves `dispatch`, past the line that clears
`is_dispatching`. No later call clears it, and the two assertions of the reactor
look at nothing else.
-/

namespace Ground

open Transition

variable {T τ κ R : Type} [AsRawFd T]

def Panic.Asserts (p : Panic) : Prop := p = .removeDuringDispatch ∨ p = .recursiveDispatch

def CellPanic.Asserts : CellPanic → Prop
  | .call p => p.Asserts
  | .borrow | .borrowMut | .waker => False

/-- No assertion of the reactor failed. -/
def Unasserted {α : Type} (outcome : Outcome Panic α) : Prop :=
  ∀ p, outcome = .panic p → ¬ p.Asserts

@[simp] theorem unasserted_ret {α : Type} (value : α) : Unasserted (.ret value) := by
  rintro p ⟨⟩

@[simp] theorem unasserted_panic {α : Type} {p : Panic} :
    Unasserted (.panic p : Outcome Panic α) ↔ ¬ p.Asserts := by
  simp [Unasserted]

/-- What was registered still is, under whatever events and address. -/
def InterestList.Keeps (list list' : InterestList) : Prop :=
  ∀ fd, (list fd).isSome → (list' fd).isSome

namespace InterestList.Keeps

theorem refl (list : InterestList) : list.Keeps list := fun _ h => h

theorem trans {list list' list'' : InterestList} (h : list.Keeps list')
    (h' : list'.Keeps list'') : list.Keeps list'' := fun fd hSome => h' fd (h fd hSome)

theorem update (list : InterestList) (fd : RawFd) (event : EpollEvent) :
    list.Keeps (Function.update list fd (some event)) := by
  intro fd' hSome
  simp only [Function.update_apply]
  split
  · rfl
  · exact hSome

end InterestList.Keeps

namespace Async

section

variable [Epoll κ]

theorem deregister_poisoned {r : Reactor κ} (hBusy : r.isDispatching = true)
    (this : Async T τ) :
    (this.waiter.registerFor = 0#32 ∨ this.inner = none) ∧
        this.deregister r = (.ret (), this, r) ∨
      this.deregister r = (.panic .removeDuringDispatch, this, r) := by
  by_cases hSkip : this.waiter.registerFor = 0#32 ∨ this.inner = none
  · exact .inl ⟨hSkip, deregister_skipped r hSkip⟩
  · obtain ⟨hReg, hHeld⟩ := not_or.mp hSkip
    obtain ⟨inner, hInner⟩ := Option.ne_none_iff_exists'.mp hHeld
    right
    simp only [deregister, if_neg hReg, hInner, Reactor.delete, hBusy, if_true]

theorem takeInner_poisoned {r : Reactor κ} (hBusy : r.isDispatching = true) (this : Async T τ) :
    (this.takeInner r).2.2 = r := by
  rw [this.takeInner_reactor r]
  obtain ⟨-, hRun⟩ | hRun := this.deregister_poisoned hBusy
  · rw [hRun]
  · rw [hRun]

theorem pollNonblocking_unasserted (this : Async T τ) (addr : Addr) (waker : Waker τ)
    (interest : Interest) (f : Closure T R) (r : Reactor κ) :
    Unasserted (this.pollNonblocking addr waker interest f r).1 := by
  rw [pollNonblocking_eq]
  cases hInner : this.inner with
  | none =>
    rw [pollAttempt_taken hInner]
    simp [pollFinish, Panic.Asserts]
  | some inner =>
    obtain ⟨-, hAttempt⟩ | ⟨-, -, hAttempt⟩ | ⟨-, -, hAttempt⟩ :=
      pollAttempt_cases hInner waker interest f
    · simp [hAttempt, pollFinish]
    · rw [hAttempt]
      obtain ⟨-, hEnd⟩ | ⟨-, hEnd⟩ := pollFinish_blocked_outcome (R := R) addr interest r
        (asRawFd inner) ({ this with inner := some (f inner).2 }.block waker interest)
      · simp [hEnd]
      · simp [hEnd, Panic.Asserts]
    · rw [hAttempt]
      obtain value | p := (f inner).1
      · simp [pollFinish]
      · simp [pollFinish, Panic.Asserts]

theorem deregister_unasserted {r : Reactor κ} (hIdle : r.isDispatching = false)
    (this : Async T τ) : Unasserted (this.deregister r).1 := by
  by_cases hSkip : this.waiter.registerFor = 0#32 ∨ this.inner = none
  · simp [deregister_skipped r hSkip]
  · obtain ⟨hReg, hHeld⟩ := not_or.mp hSkip
    obtain ⟨inner, hInner⟩ := Option.ne_none_iff_exists'.mp hHeld
    rw [deregister_asked hInner hReg hIdle]
    obtain ⟨errno | _, r'⟩ := r.epollCtl (.delete (asRawFd inner))
    · simp [Panic.Asserts]
    · simp

theorem takeInner_unasserted {r : Reactor κ} (hIdle : r.isDispatching = false)
    (this : Async T τ) : Unasserted (this.takeInner r).1 := by
  have hDeregister := deregister_unasserted hIdle this
  unfold takeInner
  rcases hRun : this.deregister r with ⟨_ | p, this', r'⟩
  · cases hInner : this'.inner with
    | none => simp [hInner, Panic.Asserts]
    | some inner => simp [hInner]
  · rw [hRun] at hDeregister
    simpa using hDeregister

theorem pollClose_unasserted {r : Reactor κ} (hIdle : r.isDispatching = false)
    (this : Async T τ) (addr : Addr) (waker : Waker τ) (flush : Closure T Unit) :
    Unasserted (this.pollClose addr waker flush r).1 := by
  have hPolled := this.pollNonblocking_unasserted addr waker .write flush r
  have hIdle' := (this.pollNonblocking_isDispatching addr waker .write flush r).trans hIdle
  unfold pollClose
  rcases hRun : this.pollNonblocking addr waker .write flush r with
    ⟨((e | ⟨⟨⟩⟩) | _) | p, mid, rMid⟩
  case ret.ready.ok =>
    rw [hRun] at hIdle'
    have hTaken : Unasserted (mid.takeInner rMid).1 := takeInner_unasserted hIdle' mid
    simp only
    generalize mid.takeInner rMid = taken at hTaken
    obtain ⟨value | p, this', r'⟩ := taken
    · simp
    · exact unasserted_panic.mpr (unasserted_panic.mp hTaken)
  all_goals
    rw [hRun] at hPolled
    exact hPolled

variable [Fallible κ]

theorem pollNonblocking_keeps (this : Async T τ) (addr : Addr) (waker : Waker τ)
    (interest : Interest) (f : Closure T R) (r : Reactor κ) :
    r.held.Keeps (this.pollNonblocking addr waker interest f r).2.2.held := by
  obtain ⟨-, hSame, -⟩ | ⟨inner, -, -, -, hRegistered, -⟩ :=
    this.pollNonblocking_effect addr waker interest f r
  · rw [hSame]
    exact .refl _
  · rw [hRegistered]
    obtain ⟨-, hList⟩ | ⟨hList, -⟩ := ensureRegistered_held (asRawFd inner) addr
      (this.block waker interest).waiter interest r
    · rw [hList]
      exact .update _ _ _
    · rw [hList]
      exact .refl _

theorem pollClose_keeps {r : Reactor κ} (hBusy : r.isDispatching = true) (this : Async T τ)
    (addr : Addr) (waker : Waker τ) (flush : Closure T Unit) :
    r.held.Keeps (this.pollClose addr waker flush r).2.2.held := by
  have hPolled := this.pollNonblocking_keeps addr waker .write flush r
  have hBusy' := (this.pollNonblocking_isDispatching addr waker .write flush r).trans hBusy
  obtain ⟨hSame, -⟩ | ⟨hTaken, -⟩ := this.pollClose_effect addr waker flush r
  · rw [hSame]
    exact hPolled
  · rw [hTaken, takeInner_poisoned hBusy']
    exact hPolled

end

end Async

namespace World

variable [InterestKernel κ] {w w' : World T τ κ}

theorem attempt_keeps (hBusy : w.reactor.isDispatching = true) {trial : Trial T τ R}
    (hPlain : ∀ answer, trial ≠ .call (.dispatch answer)) {response : Response τ}
    (h : w.attempt trial = some (response, w')) : w.reactor.list.Keeps w'.reactor.list := by
  cases trial with
  | call act =>
    cases act with
    | new addr fcntl value =>
      obtain ⟨-, ⟨p, -, -, rfl⟩ | ⟨this, -, -, rfl⟩⟩ :=
        perform_new (R := R) h
      · exact .refl _
      · exact .refl _
    | replace addr value =>
      obtain ⟨this, -, ⟨-, -, rfl⟩ | ⟨inner, -, -, rfl⟩⟩ :=
        perform_replace (R := R) h
      · exact .refl _
      · exact .refl _
    | swap addr addr' =>
      obtain ⟨this, that, -, -, -, ⟨-, rfl⟩ | ⟨value, value', -, -, -, rfl⟩⟩ :=
        perform_swap (R := R) h
      · exact .refl _
      · exact .refl _
    | dispatch answer => exact absurd rfl (hPlain answer)
    | poll addr waker interest f =>
      obtain ⟨this, -, hRun⟩ := Option.bind_eq_some_iff.mp h
      cases hRun
      exact this.pollNonblocking_keeps addr waker interest f w.reactor
    | close addr waker flush =>
      obtain ⟨this, -, hRun⟩ := Option.bind_eq_some_iff.mp h
      cases hRun
      exact Async.pollClose_keeps hBusy this addr waker flush
    | take addr =>
      obtain ⟨this, -, hRun⟩ := Option.bind_eq_some_iff.mp h
      cases hRun
      have hSame : w.reactor = (this.takeInner w.reactor).2.2 :=
        (Async.takeInner_poisoned hBusy this).symm
      exact hSame ▸ .refl _
    | drop addr =>
      obtain ⟨this, -, hRun⟩ := Option.bind_eq_some_iff.mp h
      cases hRun
      have hSame : (this.drop w.reactor).2 = w.reactor := by
        obtain ⟨-, hSkip⟩ | hPanic := this.deregister_poisoned hBusy
        · simp only [Async.drop, hSkip]
        · simp only [Async.drop, hPanic]
      exact hSame.symm ▸ .refl _
  | refused errno act =>
    cases act with
    | poll addr waker interest f =>
      obtain ⟨this, -, hRun⟩ := Option.bind_eq_some_iff.mp h
      cases hRun
      exact this.pollNonblocking_keeps addr waker interest f (w.reactor.refusing errno)
    | close addr waker flush =>
      obtain ⟨this, -, hRun⟩ := Option.bind_eq_some_iff.mp h
      cases hRun
      exact Async.pollClose_keeps (r := w.reactor.refusing errno) hBusy this addr waker flush
    | _ => cases h

theorem unasserted_quiet {α : Type} {outcome : Outcome Panic α} :
    Unasserted (quiet outcome : Response τ) ↔ Unasserted outcome := by
  cases outcome with
  | ret value => simp [quiet]
  | panic p => simp [quiet]

section

variable {response : Response τ}

theorem new_unasserted {addr : Addr} {fcntl : Fcntl} {value : T}
    (h : w.perform (R := R) (.new addr fcntl value) = some (response, w')) :
    Unasserted response := by
  obtain ⟨-, ⟨p, hNew, rfl, -⟩ | ⟨this, -, rfl, -⟩⟩ := perform_new h
  · obtain rfl := Async.new_eq_panic hNew
    simp [Panic.Asserts]
  · simp

theorem replace_unasserted {addr : Addr} {value : T}
    (h : w.perform (R := R) (.replace addr value) = some (response, w')) :
    Unasserted response := by
  obtain ⟨this, -, ⟨-, rfl, -⟩ | ⟨inner, -, rfl, -⟩⟩ := perform_replace h
  · simp [Panic.Asserts]
  · simp

theorem swap_unasserted {addr addr' : Addr}
    (h : w.perform (R := R) (.swap addr addr') = some (response, w')) : Unasserted response := by
  obtain ⟨this, that, -, -, -, ⟨rfl, -⟩ | ⟨value, value', -, -, rfl, -⟩⟩ := perform_swap h
  · simp [Panic.Asserts]
  · simp

theorem perform_unasserted (hIdle : w.reactor.isDispatching = false) {act : Act T τ R}
    (hPlain : ∀ answer, act ≠ .dispatch answer) (h : w.perform act = some (response, w')) :
    Unasserted response := by
  cases act with
  | new addr fcntl value => exact new_unasserted h
  | replace addr value => exact replace_unasserted h
  | swap addr addr' => exact swap_unasserted h
  | dispatch answer => exact absurd rfl (hPlain answer)
  | poll addr waker interest f =>
    obtain ⟨this, -, hRun⟩ := Option.bind_eq_some_iff.mp h
    cases hRun
    exact unasserted_quiet.mpr (this.pollNonblocking_unasserted addr waker interest f w.reactor)
  | close addr waker flush =>
    obtain ⟨this, -, hRun⟩ := Option.bind_eq_some_iff.mp h
    cases hRun
    exact unasserted_quiet.mpr (Async.pollClose_unasserted hIdle this addr waker flush)
  | take addr =>
    obtain ⟨this, -, hRun⟩ := Option.bind_eq_some_iff.mp h
    cases hRun
    exact unasserted_quiet.mpr (Async.takeInner_unasserted hIdle this)
  | drop addr =>
    obtain ⟨this, -, hRun⟩ := Option.bind_eq_some_iff.mp h
    cases hRun
    exact unasserted_quiet.mpr (Async.deregister_unasserted hIdle this)

theorem attempt_unasserted (hIdle : w.reactor.isDispatching = false) {trial : Trial T τ R}
    (hPlain : ∀ answer, trial ≠ .call (.dispatch answer))
    (h : w.attempt trial = some (response, w')) : Unasserted response := by
  cases trial with
  | call act => exact perform_unasserted hIdle (fun answer hAct => hPlain answer (hAct ▸ rfl)) h
  | refused errno act =>
    cases act with
    | poll addr waker interest f =>
      obtain ⟨this, -, hRun⟩ := Option.bind_eq_some_iff.mp h
      cases hRun
      exact unasserted_quiet.mpr
        (this.pollNonblocking_unasserted addr waker interest f (w.reactor.refusing errno))
    | close addr waker flush =>
      obtain ⟨this, -, hRun⟩ := Option.bind_eq_some_iff.mp h
      cases hRun
      exact unasserted_quiet.mpr
        (Async.pollClose_unasserted (r := w.reactor.refusing errno) hIdle this addr waker flush)
    | _ => cases h

end

end World

/-! While the reactor is borrowed no call gets to see the flag. -/

namespace Async

omit [AsRawFd T] in
theorem deregisterBorrowed_panic {this : Async T τ} {p : CellPanic}
    (h : this.deregisterBorrowed = .panic p) : p = .borrow := by
  unfold deregisterBorrowed at h
  split at h
  · cases h
  · split at h
    · cases h
    · cases h
      rfl

omit [AsRawFd T] in
theorem takeInnerBorrowed_panic {this : Async T τ} {p : CellPanic}
    (h : this.takeInnerBorrowed.1 = .panic p) : ¬ p.Asserts := by
  unfold takeInnerBorrowed at h
  split at h
  · rename_i hRefused
    cases h
    simp [deregisterBorrowed_panic hRefused, CellPanic.Asserts]
  · split at h
    · cases h
      simp [CellPanic.Asserts, Panic.Asserts]
    · cases h

theorem pollNonblockingBorrowed_panic {this : Async T τ} {waker : Waker τ}
    {interest : Interest} {f : Closure T R} {p : CellPanic}
    (h : (this.pollNonblockingBorrowed waker interest f).1 = .panic p) : ¬ p.Asserts := by
  unfold pollNonblockingBorrowed at h
  cases hInner : this.inner with
  | none =>
    rw [pollAttempt_taken hInner] at h
    cases h
    simp [CellPanic.Asserts, Panic.Asserts]
  | some inner =>
    obtain ⟨-, hAttempt⟩ | ⟨-, -, hAttempt⟩ | ⟨-, -, hAttempt⟩ :=
      pollAttempt_cases hInner waker interest f
    · rw [hAttempt] at h
      cases h
    · rw [hAttempt] at h
      simp only [ensureRegisteredBorrowed] at h
      split at h
      · cases h
      · rename_i hRegister
        cases h
        split at hRegister
        · cases hRegister
        · cases hRegister
          simp [CellPanic.Asserts]
    · rw [hAttempt] at h
      generalize (f inner).1 = outcome at h
      obtain value | q := outcome
      · cases h
      · cases h
        simp [CellPanic.Asserts, Panic.Asserts]

theorem pollCloseBorrowed_panic {this : Async T τ} {waker : Waker τ} {flush : Closure T Unit}
    {p : CellPanic} (h : (this.pollCloseBorrowed waker flush).1 = .panic p) : ¬ p.Asserts := by
  unfold pollCloseBorrowed at h
  split at h
  · rename_i mid hPoll
    split at h
    · rename_i hTake
      cases h
      exact takeInnerBorrowed_panic (congrArg Prod.fst hTake)
    · cases h
  · rename_i hPoll
    rw [← hPoll] at h
    exact pollNonblockingBorrowed_panic h

end Async

theorem ended_panic {α : Type} {outcome : Outcome CellPanic α} {p : CellPanic}
    (h : ended outcome = .panic p) : outcome = .panic p := by
  cases outcome with
  | ret value => cases h
  | panic q =>
    cases h
    rfl

theorem ended_call_panic {α : Type} {outcome : Outcome Panic α} {p : CellPanic}
    (h : ended (outcome.mapPanic .call) = .panic p) (hUnasserted : Unasserted outcome) :
    ¬ p.Asserts := by
  cases outcome with
  | ret value => cases h
  | panic q =>
    cases h
    exact unasserted_panic.mp hUnasserted

theorem World.performBorrowed_panic [InterestKernel κ] {w w' : World T τ κ} {act : Act T τ R}
    {p : CellPanic} (h : w.performBorrowed act = some (.panic p, w')) : ¬ p.Asserts := by
  cases act with
  | new addr fcntl value =>
    obtain ⟨⟨response, world⟩, hPerform, hRun⟩ := Option.bind_eq_some_iff.mp h
    obtain ⟨hPanic, -⟩ := Prod.mk.inj (Option.some.inj hRun)
    exact ended_call_panic hPanic (new_unasserted hPerform)
  | replace addr value =>
    obtain ⟨⟨response, world⟩, hPerform, hRun⟩ := Option.bind_eq_some_iff.mp h
    obtain ⟨hPanic, -⟩ := Prod.mk.inj (Option.some.inj hRun)
    exact ended_call_panic hPanic (replace_unasserted hPerform)
  | swap addr addr' =>
    obtain ⟨⟨response, world⟩, hPerform, hRun⟩ := Option.bind_eq_some_iff.mp h
    obtain ⟨hPanic, -⟩ := Prod.mk.inj (Option.some.inj hRun)
    exact ended_call_panic hPanic (swap_unasserted hPerform)
  | dispatch answer =>
    cases h
    simp [CellPanic.Asserts]
  | poll addr waker interest f =>
    obtain ⟨this, -, hRun⟩ := Option.bind_eq_some_iff.mp h
    obtain ⟨hPanic, -⟩ := Prod.mk.inj (Option.some.inj hRun)
    exact Async.pollNonblockingBorrowed_panic (ended_panic hPanic)
  | close addr waker flush =>
    obtain ⟨this, -, hRun⟩ := Option.bind_eq_some_iff.mp h
    obtain ⟨hPanic, -⟩ := Prod.mk.inj (Option.some.inj hRun)
    exact Async.pollCloseBorrowed_panic (ended_panic hPanic)
  | take addr =>
    obtain ⟨this, -, hRun⟩ := Option.bind_eq_some_iff.mp h
    obtain ⟨hPanic, -⟩ := Prod.mk.inj (Option.some.inj hRun)
    exact Async.takeInnerBorrowed_panic (ended_panic hPanic)
  | drop addr =>
    obtain ⟨this, -, hRun⟩ := Option.bind_eq_some_iff.mp h
    obtain ⟨hPanic, -⟩ := Prod.mk.inj (Option.some.inj hRun)
    simp [Async.deregisterBorrowed_panic hPanic, CellPanic.Asserts]

namespace Thread

variable [InterestKernel κ] {s s' : Thread T τ κ}

def Flagged (s : Thread T τ κ) : Prop :=
  s.stack = .idle ∨ s.world.reactor.isDispatching = true

/-- A step in which a panic leaves a waker. -/
def Unwinds (s : Thread T τ κ) (act : Act T τ R) : Prop :=
  ∃ events p s', s.stack = .waking events ∧ s.perform act = some (.panic p, s') ∧
    s'.stack = .idle

theorem not_unwinds (h : ∀ events, s.stack ≠ .waking events) (act : Act T τ R) :
    ¬ s.Unwinds act := by
  rintro ⟨events, p, s', hStack, -⟩
  exact h events hStack

omit [AsRawFd T] in
theorem dispatch_cases (answer : Except Errno (List (RawFd × Events))) :
    (s.world.reactor.isDispatching = true ∧
      s.dispatch answer = (.panic (.call .recursiveDispatch), s)) ∨
    s.world.reactor.isDispatching = false ∧ (s.dispatch answer = (.ret (), s) ∨
      ∃ events, s.dispatch answer = (.ret (),
        { world := { s.world with reactor := { s.world.reactor with isDispatching := true } },
          stack := .delivering events })) := by
  unfold dispatch
  cases hBusy : s.world.reactor.isDispatching with
  | true => exact .inl ⟨rfl, rfl⟩
  | false =>
    refine .inr ⟨rfl, ?_⟩
    cases s.world.epollWait answer Reactor.eventBuffer with
    | error errno => exact .inl rfl
    | ok events => exact .inr ⟨events, rfl⟩

theorem waking_cases {events : List EpollEvent} (hStack : s.stack = .waking events)
    {act : Act T τ R} {outcome : Ended} (h : s.perform act = some (outcome, s')) :
    s'.world.reactor = s.world.reactor ∧
      ((∃ p, outcome = .panic p) ∧ s'.stack = .idle ∨ s'.stack ≠ .idle) := by
  obtain ⟨hIdle, -⟩ | ⟨events', -, hCases⟩ | ⟨events', hOther, -⟩ := perform_cases h
  · cases hIdle.symm.trans hStack
  · obtain ⟨trial, nestedOutcome, w', rfl, hRun, hEnd⟩ | ⟨call, w', rfl, hRun, rfl⟩ |
      ⟨rfl, -, rfl⟩ | ⟨rfl, hEnd⟩ := hCases
    · have hReactor := World.performBorrowed_reactor hRun
      cases nestedOutcome with
      | ret value =>
        cases hEnd
        exact ⟨hReactor, .inr (by simp)⟩
      | panic p =>
        cases hEnd
        exact ⟨hReactor, .inl ⟨⟨p, rfl⟩, rfl⟩⟩
    · exact ⟨World.performBorrowed_reactor hRun, .inr (by simp)⟩
    · exact ⟨rfl, .inr (by simp)⟩
    · cases hEnd
      exact ⟨rfl, .inl ⟨⟨.waker, rfl⟩, rfl⟩⟩
  · cases hOther.symm.trans hStack

omit [AsRawFd T] [InterestKernel κ] in
theorem deliver_cases {events : List EpollEvent} {outcome : Ended}
    (h : s.deliver events = some (outcome, s')) :
    (s'.stack = .idle ∧ s'.world.reactor.isDispatching = false) ∨
      (s'.stack ≠ .idle ∧ s'.world.reactor = s.world.reactor) := by
  cases events with
  | nil =>
    cases h
    exact .inl ⟨rfl, rfl⟩
  | cons event events =>
    obtain ⟨this, -, hRun⟩ := Option.bind_eq_some_iff.mp h
    cases hRun
    refine .inr ⟨?_, rfl⟩
    simp only
    split
    · simp
    · simp

theorem poisoned_step {act : Act T τ R} (hFlagged : s.Flagged) (hStep : s.step act = some s') :
    s'.Flagged ∧ (¬ s'.Poisoned ↔ ¬ s.Poisoned ∧ ¬ s.Unwinds act) := by
  obtain ⟨⟨outcome, t⟩, hPerform, rfl⟩ := Option.map_eq_some_iff.mp hStep
  have hCases := perform_cases hPerform
  cases hStack : s.stack with
  | idle =>
    have hNot := s.not_unwinds (by simp [hStack]) act
    simp only [hNot, not_false_eq_true, and_true, not_iff_not]
    simp only [hStack, reduceCtorEq, false_and, exists_false, or_false, true_and] at hCases
    obtain ⟨answer, rfl, hRun⟩ | ⟨trial, response, w', rfl, hPlain, hRun, -, rfl⟩ := hCases
    · obtain ⟨-, hDispatch⟩ | ⟨hFree, hDispatch | ⟨events, hDispatch⟩⟩ := s.dispatch_cases answer
      · cases hRun.symm.trans hDispatch
        exact ⟨hFlagged, Iff.rfl⟩
      · cases hRun.symm.trans hDispatch
        exact ⟨hFlagged, Iff.rfl⟩
      · cases hRun.symm.trans hDispatch
        exact ⟨.inr rfl, by simp [Poisoned, hFree]⟩
    · have hSame := World.attempt_isDispatching hPlain hRun
      exact ⟨.inl rfl, by simp only [Poisoned, hSame, hStack]⟩
  | waking events =>
    have hBusy : s.world.reactor.isDispatching = true := hFlagged.resolve_left (by simp [hStack])
    obtain ⟨hReactor, ⟨⟨p, rfl⟩, hIdle⟩ | hOn⟩ := waking_cases hStack hPerform
    · have hUnwinds : s.Unwinds act := ⟨events, p, t, hStack, hPerform, hIdle⟩
      exact ⟨.inl hIdle, by simp [Poisoned, hIdle, hReactor, hBusy, hUnwinds]⟩
    · have hNot : ¬ s.Unwinds act := by
        rintro ⟨-, p, t', -, hPanic, hIdle⟩
        cases hPerform.symm.trans hPanic
        exact hOn hIdle
      exact ⟨.inr (hReactor ▸ hBusy), by simp [Poisoned, hOn, hStack, hNot]⟩
  | delivering events =>
    have hBusy : s.world.reactor.isDispatching = true := hFlagged.resolve_left (by simp [hStack])
    have hNot := s.not_unwinds (by simp [hStack]) act
    simp only [hStack, reduceCtorEq, false_and, exists_false, false_or] at hCases
    obtain ⟨events', -, -, hRun⟩ := hCases
    obtain ⟨hIdle, hFree⟩ | ⟨hOn, hReactor⟩ := deliver_cases hRun
    · exact ⟨.inl hIdle, by simp [Poisoned, hFree, hStack, hNot]⟩
    · exact ⟨.inr (hReactor ▸ hBusy), by simp [Poisoned, hOn, hStack, hNot]⟩

/-- The assertions look at a flag that nothing but an unwound dispatch leaves set. -/
theorem asserts_poisoned {act : Act T τ R} {p : CellPanic}
    (hPerform : s.perform act = some (.panic p, s')) (hAsserts : p.Asserts) : s.Poisoned := by
  have hCases := perform_cases hPerform
  cases hStack : s.stack with
  | idle =>
    refine ⟨hStack, ?_⟩
    simp only [hStack, reduceCtorEq, false_and, exists_false, or_false, true_and] at hCases
    obtain ⟨answer, rfl, hRun⟩ | ⟨trial, response, w', rfl, hPlain, hRun, hEnd, -⟩ := hCases
    · obtain ⟨hBusy, -⟩ | ⟨-, hDispatch | ⟨events, hDispatch⟩⟩ := s.dispatch_cases answer
      · exact hBusy
      · cases hRun.symm.trans hDispatch
      · cases hRun.symm.trans hDispatch
    · by_contra hFree
      have hUnasserted := World.attempt_unasserted (eq_false_of_ne_true hFree) hPlain hRun
      exact ended_call_panic hEnd.symm hUnasserted hAsserts
  | waking events =>
    exfalso
    simp only [hStack, reduceCtorEq, false_and, exists_false, false_or, or_false] at hCases
    obtain ⟨events', -, hCases⟩ := hCases
    obtain ⟨trial, nestedOutcome, w', rfl, hRun, hEnd⟩ | ⟨call, w', rfl, hRun, -⟩ |
      ⟨-, ⟨⟩, -⟩ | ⟨-, hEnd⟩ := hCases
    · cases nestedOutcome with
      | ret value => cases hEnd
      | panic q =>
        cases hEnd
        exact World.performBorrowed_panic hRun hAsserts
    · exact World.performBorrowed_panic hRun hAsserts
    · cases hEnd
      exact hAsserts
  | delivering events =>
    simp only [hStack, reduceCtorEq, false_and, exists_false, false_or] at hCases
    obtain ⟨events', -, -, hRun⟩ := hCases
    cases events' with
    | nil => cases hRun
    | cons event events' =>
      obtain ⟨this, -, hEnd⟩ := Option.bind_eq_some_iff.mp hRun
      cases hEnd

/-- Every run in which no panic has left a waker is free of assertion failures, and
so is its next step; in every other run each later dispatch fails one. -/
theorem asserts_iff_unwound {kernel : κ} {acts : List (Act T τ R)}
    (hRun : run step (init kernel) acts = some s) :
    (s.Poisoned ↔ ¬ Meets step (fun s act => ¬ Unwinds s act) (init kernel) acts) ∧
    (∀ act p s', s.perform (R := R) act = some (.panic p, s') → p.Asserts → s.Poisoned) ∧
    (s.stack = .idle → ∀ answer, (s.Poisoned ↔
      s.perform (R := R) (.call (.call (.dispatch answer))) =
        some (.panic (.call .recursiveDispatch), s))) := by
  refine ⟨?_, fun act p s' => asserts_poisoned, fun hIdle answer => ?_⟩
  · have hFresh : ¬ (init kernel : Thread T τ κ).Poisoned := by
      simp [Poisoned, init, World.init, Reactor.new]
    have hKept := kept_iff_meets (P := fun s : Thread T τ κ => ¬ s.Poisoned)
      (fun _ _ _ => poisoned_step) (.inl rfl) hRun
    rw [← not_iff_not, hKept, not_not]
    exact and_iff_right hFresh
  · simp only [Poisoned, perform, hIdle, true_and, Option.some.injEq]
    obtain ⟨hBusy, hDispatch⟩ | ⟨hFree, hDispatch | ⟨events, hDispatch⟩⟩ :=
      s.dispatch_cases answer
    · simp [hBusy, hDispatch]
    · simp [hFree, hDispatch]
    · simp [hFree, hDispatch]

/-- The first task's waker drops the `Async` of the second event. -/
theorem asserts_iff_unwound_drop :
    let fcntl : Fcntl := ⟨fun _ => .ok 0#32, fun _ _ => .ok ()⟩
    let acts : List (Act RawFd Nat Unit) :=
      [.call (.call (.new 0 fcntl 3)), .call (.call (.poll 0 (.task 1) .read .wouldBlock)),
        .call (.call (.new 1 fcntl 4)), .call (.call (.poll 1 (.task 2) .read .wouldBlock)),
        .call (.call (.dispatch (.ok [(3, EPOLLIN), (4, EPOLLIN)]))), .deliver,
        .call (.call (.drop 1))]
    ∃ s : Thread RawFd Nat InterestList, run step (init InterestList.empty) acts = some s ∧
      ∀ answer, s.perform (R := Unit) (.call (.call (.dispatch answer))) =
        some (.panic (.call .recursiveDispatch), s) := by
  intro fcntl acts
  have hRun : run step (init InterestList.empty) acts =
      some (_ : Thread RawFd Nat InterestList) := rfl
  exact ⟨_, hRun, fun answer => ((asserts_iff_unwound hRun).2.2 rfl answer).mp ⟨rfl, rfl⟩⟩

theorem Poisoned.step (h : s.Poisoned) {act : Act T τ R} (hStep : s.step act = some s') :
    s'.Poisoned ∧ s.world.reactor.list.Keeps s'.world.reactor.list := by
  obtain ⟨⟨outcome, t⟩, hPerform, rfl⟩ := Option.map_eq_some_iff.mp hStep
  have hCases := perform_cases hPerform
  simp only [h.1, reduceCtorEq, false_and, exists_false, or_false, true_and] at hCases
  obtain ⟨answer, rfl, hRun⟩ | ⟨trial, response, w', rfl, hPlain, hRun, -, rfl⟩ := hCases
  · obtain ⟨-, hDispatch⟩ | ⟨hFree, -⟩ := s.dispatch_cases answer
    · cases hRun.symm.trans hDispatch
      exact ⟨h, .refl _⟩
    · cases h.2.symm.trans hFree
  · have hSame := World.attempt_isDispatching hPlain hRun
    exact ⟨⟨rfl, hSame.trans h.2⟩, World.attempt_keeps h.2 hPlain hRun⟩

/-- What the thread does next, or what happens in the kernel: closing a descriptor,
which also ends every drop of a wrapped value, takes it out of the list. -/
def turn (s : Thread T τ κ) : Act T τ R ⊕ (κ → κ) → Option (Thread T τ κ)
  | .inl act => s.step act
  | .inr change =>
    let reactor := { s.world.reactor with epfd := change s.world.reactor.epfd }
    some { s with world := { s.world with reactor } }

theorem Poisoned.turn (h : s.Poisoned) {act : Act T τ R ⊕ (κ → κ)}
    (hTurn : s.turn act = some s') : s'.Poisoned := by
  cases act with
  | inl act => exact (h.step hTurn).1
  | inr change =>
    cases hTurn
    exact h

theorem Poisoned.drop (h : s.Poisoned) {addr : Addr} {this : Async T τ}
    (hThis : s.world.asyncs addr = some this) (hHeld : this.inner.isSome)
    (hReg : this.waiter.registerFor ≠ 0#32) :
    ∃ s', s.perform (R := R) (.call (.call (.drop addr))) =
      some (.panic (.call .removeDuringDispatch), s') := by
  obtain ⟨hFree | hNone, -⟩ | hPanic := this.deregister_poisoned h.2
  · exact absurd hFree hReg
  · rw [hNone] at hHeld
    cases hHeld
  · simp only [perform, h.1, World.attempt, World.perform, hThis, Async.drop, hPanic,
      Option.bind_eq_bind, Option.bind_some, Option.map_some]
    exact ⟨_, rfl⟩

/-- Once a panic has left a waker, the thread delivers no event any more whatever it
calls and whatever is closed: each dispatch and each drop of a registered `Async` fails
an assertion, and no call takes a descriptor out of the list. -/
theorem poisoned_for_good (h : s.Poisoned) {acts : List (Act T τ R ⊕ (κ → κ))}
    (hRun : run turn s acts = some s') :
    (∀ (act : Act T τ R) s'', s'.step act = some s'' →
      s''.stack = .idle ∧ s'.world.reactor.list.Keeps s''.world.reactor.list) ∧
    (∀ answer, s'.perform (R := R) (.call (.call (.dispatch answer))) =
      some (.panic (.call .recursiveDispatch), s')) ∧
    ∀ addr this, s'.world.asyncs addr = some this → this.inner.isSome →
      this.waiter.registerFor ≠ 0#32 → ∃ s'', s'.perform (R := R) (.call (.call (.drop addr))) =
        some (.panic (.call .removeDuringDispatch), s'') := by
  have hPoisoned : s'.Poisoned :=
    invariant_of_run (I := Poisoned) (fun _ _ _ h hTurn => h.turn hTurn) h hRun
  refine ⟨fun act s'' hStep => ?_, fun answer => ?_, fun addr this hThis => hPoisoned.drop hThis⟩
  · obtain ⟨hStill, hKeeps⟩ := hPoisoned.step hStep
    exact ⟨hStill.1, hKeeps⟩
  · obtain ⟨-, hDispatch⟩ | ⟨hFree, -⟩ := s'.dispatch_cases answer
    · simp only [perform, hPoisoned.1, hDispatch]
    · cases hPoisoned.2.symm.trans hFree

/-- The drop of the first `Async` panics and closes its descriptor, and so does the drop
of the next one. -/
theorem poisoned_for_good_drops :
    let fcntl : Fcntl := ⟨fun _ => .ok 0#32, fun _ _ => .ok ()⟩
    let acts : List (Act RawFd Nat Unit) :=
      [.call (.call (.new 0 fcntl 3)), .call (.call (.poll 0 (.task 1) .read .wouldBlock)),
        .call (.call (.new 1 fcntl 4)), .call (.call (.poll 1 (.task 2) .read .wouldBlock)),
        .call (.call (.dispatch (.ok [(3, EPOLLIN)]))), .deliver, .wakerPanics]
    ∃ s s' : Thread RawFd Nat InterestList, run step (init InterestList.empty) acts = some s ∧
      run turn s [.inl (Act.call (R := Unit) (.call (.drop 0))),
        .inr fun list => Function.update list 3 none] = some s' ∧
      s'.world.reactor.list 3 = none ∧
      ∃ s'', s'.perform (R := Unit) (.call (.call (.drop 1))) =
        some (.panic (.call .removeDuringDispatch), s'') := by
  intro fcntl acts
  let s : Thread RawFd Nat InterestList :=
    (run step (init InterestList.empty) acts).getD (init InterestList.empty)
  let drops : List (Act RawFd Nat Unit ⊕ (InterestList → InterestList)) :=
    [.inl (.call (.call (.drop 0))), .inr fun list => Function.update list 3 none]
  let s' : Thread RawFd Nat InterestList := (run turn s drops).getD s
  have hRun : run turn s drops = some s' := rfl
  obtain ⟨-, -, hDrops⟩ := poisoned_for_good (s := s) ⟨rfl, rfl⟩ hRun
  exact ⟨s, s', rfl, hRun, rfl, hDrops 1 _ rfl rfl (by decide)⟩

end Thread

end Ground
