import Ground.System.Trials

/-! # Wakers that run code

The thread's reactor is in a `RefCell`, which a dispatch borrows mutably until it
returns or unwinds. A waker may call anything meanwhile, and a call that gets as
far as the reactor panics in `borrow()`.
-/

namespace Ground

open Transition

variable {T τ κ R : Type} [AsRawFd T]

inductive CellPanic where
  | call (reason : Panic)
  | borrow
  | borrowMut
  | waker
  deriving DecidableEq

/-! What the operations do while the reactor is mutably borrowed. They do not get
to see it, so they do not take it. -/

def ensureRegisteredBorrowed (waiter : Waiter τ) (interest : Interest) :
    Outcome CellPanic Unit × Waiter τ :=
  let alreadyRegistered := waiter.registerFor
  let registerFor := alreadyRegistered ||| interest.asEvents ||| EPOLLET
  if registerFor = alreadyRegistered then (.ret (), waiter)
  else (.panic .borrow, { waiter with registerFor })

namespace Async

def deregisterBorrowed (this : Async T τ) : Outcome CellPanic Unit :=
  if this.waiter.registerFor = 0#32 then .ret ()
  else
    match this.inner with
    | none => .ret ()
    | some _ => .panic .borrow

def takeInnerBorrowed (this : Async T τ) : Outcome CellPanic T × Async T τ :=
  match this.deregisterBorrowed with
  | .panic p => (.panic p, this)
  | .ret () =>
    match this.inner with
    | none => (.panic (.call .innerTaken), this)
    | some inner => (.ret inner, { this with inner := none })

def pollNonblockingBorrowed (this : Async T τ) (waker : Waker τ) (interest : Interest)
    (f : Closure T R) : Outcome CellPanic (Poll (Except Error R)) × Async T τ :=
  match this.pollAttempt waker interest f with
  | (.taken, this) => (.panic (.call .innerTaken), this)
  | (.skipped, this) => (.ret .pending, this)
  | (.finished (.ret value), this) => (.ret (.ready value), this)
  | (.finished (.panic p), this) => (.panic (.call p), this)
  | (.blocked _, this) =>
    match ensureRegisteredBorrowed this.waiter interest with
    | (.ret (), waiter) => (.ret .pending, { this with waiter })
    | (.panic p, waiter) => (.panic p, { this with waiter })

def pollCloseBorrowed (this : Async T τ) (waker : Waker τ) (flush : Closure T Unit) :
    Outcome CellPanic (Poll (Except Error Unit)) × Async T τ :=
  match this.pollNonblockingBorrowed waker .write flush with
  | (.ret (.ready (.ok ())), this) =>
    match this.takeInnerBorrowed with
    | (.panic p, this) => (.panic p, this)
    | (.ret _, this) => (.ret (.ready (.ok ())), this)
  | (anythingElse, this) => (anythingElse, this)

end Async

abbrev Ended := Outcome CellPanic Unit

def ended {α : Type} : Outcome CellPanic α → Ended
  | .ret _ => .ret ()
  | .panic p => .panic p

namespace World

def setAsync (w : World T τ κ) (addr : Addr) (this : Async T τ) : World T τ κ :=
  w.set addr this w.reactor

variable [InterestKernel κ]

/-- A call that a waker makes during a dispatch. -/
def performBorrowed (w : World T τ κ) : Act T τ R → Option (Ended × World T τ κ)
  | .poll addr waker interest f => do
    let this ← w.asyncs addr
    let (outcome, this) := this.pollNonblockingBorrowed waker interest f
    some (ended outcome, w.setAsync addr this)
  | .close addr waker flush => do
    let this ← w.asyncs addr
    let (outcome, this) := this.pollCloseBorrowed waker flush
    some (ended outcome, w.setAsync addr this)
  | .take addr => do
    let this ← w.asyncs addr
    let (outcome, this) := this.takeInnerBorrowed
    some (ended outcome, w.setAsync addr this)
  | .drop addr => do
    let this ← w.asyncs addr
    some (this.deregisterBorrowed, { w with asyncs := Function.update w.asyncs addr none })
  | .dispatch _ => some (.panic .borrowMut, w)
  | act@(.new _ _ _) | act@(.replace _ _) | act@(.swap _ _) => do
    let (response, w) ← w.perform act
    some (ended (response.mapPanic .call), w)

end World

/-- Where a dispatch is, with the events it has not delivered yet: in its loop, or in
the waker of the event before them. -/
inductive Stack where
  | idle
  | delivering (events : List EpollEvent)
  | waking (events : List EpollEvent)

structure Thread (T τ κ : Type) where
  world : World T τ κ
  stack : Stack

namespace Thread

def init (kernel : κ) : Thread T τ κ := { world := .init kernel, stack := .idle }

/-- A call is `caught` when its waker goes on although it panics. -/
inductive Act (T τ R : Type) where
  | call (trial : World.Trial T τ R)
  | caught (act : World.Act T τ R)
  | deliver
  | wakerReturns
  | wakerPanics

/-- A panic in a waker unwinds the dispatch, which gives the `RefCell` back and
leaves `is_dispatching` set. -/
def nested (events : List EpollEvent) : Ended × World T τ κ → Ended × Thread T τ κ
  | (.ret (), world) => (.ret (), { world, stack := .waking events })
  | (.panic p, world) => (.panic p, { world, stack := .idle })

variable [InterestKernel κ]

/-- `dispatch` up to its delivery loop. -/
def dispatch (s : Thread T τ κ) (answer : Except Errno (List (RawFd × Events))) :
    Ended × Thread T τ κ :=
  if s.world.reactor.isDispatching then (.panic (.call .recursiveDispatch), s)
  else
    match s.world.epollWait answer Reactor.eventBuffer with
    | .error _ => (.ret (), s)
    | .ok events =>
      let reactor := { s.world.reactor with isDispatching := true }
      (.ret (), { world := { s.world with reactor }, stack := .delivering events })

def deliver (s : Thread T τ κ) : List EpollEvent → Option (Ended × Thread T τ κ)
  | [] =>
    let reactor := { s.world.reactor with isDispatching := false }
    some (.ret (), { world := { s.world with reactor }, stack := .idle })
  | event :: events => do
    let this ← s.world.asyncs event.data
    let (waiter, woken) := Reactor.deliver event this.waiter
    let world := s.world.setAsync event.data { this with waiter }
    some (.ret (), { world, stack := if woken = [] then .delivering events else .waking events })

def perform (s : Thread T τ κ) (act : Act T τ R) : Option (Ended × Thread T τ κ) :=
  match s.stack, act with
  | .idle, .call (.call (.dispatch answer)) => some (s.dispatch answer)
  | .idle, .call trial =>
    (s.world.attempt trial).map fun (response, world) =>
      (ended (response.mapPanic .call), { s with world })
  | .waking events, .call trial => (s.world.performBorrowed trial.act).map (nested events)
  | .waking events, .caught act =>
    (s.world.performBorrowed act).map fun (outcome, world) =>
      (outcome, { world, stack := .waking events })
  | .delivering events, .deliver => s.deliver events
  | .waking events, .wakerReturns => some (.ret (), { s with stack := .delivering events })
  | .waking events, .wakerPanics => some (nested events (.panic .waker, s.world))
  | _, _ => none

def step (s : Thread T τ κ) (act : Act T τ R) : Option (Thread T τ κ) :=
  (s.perform act).map Prod.snd

section

variable {s s' : Thread T τ κ} {outcome : Ended}

/-- What a step is, by the stack it starts from. -/
theorem perform_cases {act : Act T τ R} (h : s.perform act = some (outcome, s')) :
    (s.stack = .idle ∧
      ((∃ answer, act = .call (.call (.dispatch answer)) ∧ s.dispatch answer = (outcome, s')) ∨
        ∃ trial response w', act = .call trial ∧ (∀ answer, trial ≠ .call (.dispatch answer)) ∧
          s.world.attempt trial = some (response, w') ∧
          outcome = ended (response.mapPanic .call) ∧ s' = { s with world := w' })) ∨
    (∃ events, s.stack = .waking events ∧
      ((∃ trial nestedOutcome w', act = .call trial ∧
          s.world.performBorrowed trial.act = some (nestedOutcome, w') ∧
          (outcome, s') = nested events (nestedOutcome, w')) ∨
        (∃ call w', act = .caught call ∧ s.world.performBorrowed call = some (outcome, w') ∧
          s' = { world := w', stack := .waking events }) ∨
        (act = .wakerReturns ∧ outcome = .ret () ∧ s' = { s with stack := .delivering events }) ∨
        (act = .wakerPanics ∧ (outcome, s') = nested events (.panic .waker, s.world)))) ∨
    ∃ events, s.stack = .delivering events ∧ act = .deliver ∧
      s.deliver events = some (outcome, s') := by
  obtain ⟨world, stack⟩ := s
  cases stack with
  | idle =>
    refine .inl ⟨rfl, ?_⟩
    cases act with
    | call trial =>
      by_cases hDispatch : ∃ answer, trial = .call (.dispatch answer)
      · obtain ⟨answer, rfl⟩ := hDispatch
        exact .inl ⟨answer, rfl, Option.some.inj h⟩
      · have hPlain : ∀ answer, trial ≠ .call (.dispatch answer) := fun answer hEq =>
          hDispatch ⟨answer, hEq⟩
        have hRun : (world.attempt trial).map (fun (response, world) =>
            (ended (response.mapPanic .call), (⟨world, .idle⟩ : Thread T τ κ))) =
              some (outcome, s') := by
          cases trial with
          | refused errno act => exact h
          | call act =>
            cases act with
            | dispatch answer => exact absurd rfl (hPlain answer)
            | _ => exact h
        obtain ⟨⟨response, w'⟩, hAttempt, hEnd⟩ := Option.map_eq_some_iff.mp hRun
        cases hEnd
        exact .inr ⟨trial, response, w', rfl, hPlain, hAttempt, rfl, rfl⟩
    | _ => cases h
  | delivering events =>
    cases act with
    | deliver => exact .inr (.inr ⟨events, rfl, rfl, h⟩)
    | _ => cases h
  | waking events =>
    refine .inr (.inl ⟨events, rfl, ?_⟩)
    cases act with
    | call trial =>
      obtain ⟨⟨nestedOutcome, w'⟩, hRun, hEnd⟩ := Option.map_eq_some_iff.mp h
      exact .inl ⟨trial, nestedOutcome, w', rfl, hRun, hEnd.symm⟩
    | caught call =>
      obtain ⟨⟨_, w'⟩, hRun, hEnd⟩ := Option.map_eq_some_iff.mp h
      cases hEnd
      exact .inr (.inl ⟨call, w', rfl, hRun, rfl⟩)
    | wakerReturns =>
      cases h
      exact .inr (.inr (.inl ⟨rfl, rfl, rfl⟩))
    | wakerPanics => exact .inr (.inr (.inr ⟨rfl, (Option.some.inj h).symm⟩))
    | deliver => cases h

end

end Thread

end Ground
