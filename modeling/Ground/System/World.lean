import Ground.Foundation.Transition
import Ground.Io.Operations

/-! # Many `Async`s in one thread

Memory maps an address to the `Async` pinned there. One step is one call of the
safe interface, taken to its end; its label carries what the caller and the
kernel choose. A step that panics keeps what was done before the panic.
-/

namespace Ground

variable {T τ κ R : Type} [AsRawFd T]

structure World (T τ κ : Type) where
  asyncs : Addr → Option (Async T τ)
  reactor : Reactor κ

namespace World

def init (kernel : κ) : World T τ κ := { asyncs := fun _ => none, reactor := .new kernel }

inductive Act (T τ R : Type) where
  | new (addr : Addr) (fcntl : Fcntl) (value : T)
  | poll (addr : Addr) (waker : Waker τ) (interest : Interest) (f : Closure T R)
  | close (addr : Addr) (waker : Waker τ) (flush : Closure T Unit)
  | take (addr : Addr)
  | drop (addr : Addr)
  | dispatch (answer : Except Errno (List (RawFd × Events)))
  | replace (addr : Addr) (value : T)
  | swap (addr addr' : Addr)

def set (w : World T τ κ) (addr : Addr) (this : Async T τ) (reactor : Reactor κ) :
    World T τ κ where
  asyncs := Function.update w.asyncs addr (some this)
  reactor := reactor

def waiters (w : World T τ κ) : Waiters τ := fun addr => (w.asyncs addr).map (·.waiter)

def withWaiters (w : World T τ κ) (waiters : Waiters τ) : Addr → Option (Async T τ) := fun addr =>
  (w.asyncs addr).bind fun this => (waiters addr).map fun waiter => { this with waiter }

variable [InterestKernel κ]

/-- `epoll_wait` reports registered descriptors only, with the data of their
entries, and no more events than the buffer holds. -/
def epollWait (w : World T τ κ) (answer : Except Errno (List (RawFd × Events))) (length : Nat) :
    Except Errno (List EpollEvent) :=
  answer.map fun reports => (reports.filterMap fun (fd, events) =>
    (w.reactor.list fd).map fun entry => { events, data := entry.data }).take length

abbrev Response (τ : Type) := Outcome Panic (List τ)

def quiet {α : Type} : Outcome Panic α → Response τ
  | .ret _ => .ret []
  | .panic p => .panic p

/-- The step with its response. A call on an address where no `Async` lives
cannot be made, and a write through a dangling pointer has no result. -/
def perform (w : World T τ κ) : Act T τ R → Option (Response τ × World T τ κ)
  | .new addr fcntl value =>
    match w.asyncs addr with
    | some _ => none
    | none =>
      match Async.new fcntl value with
      | .panic p => some (.panic p, w)
      | .ret this => some (.ret [], w.set addr this w.reactor)
  | .poll addr waker interest f => do
    let this ← w.asyncs addr
    let (outcome, this, reactor) := this.pollNonblocking addr waker interest f w.reactor
    some (quiet outcome, w.set addr this reactor)
  | .close addr waker flush => do
    let this ← w.asyncs addr
    let (outcome, this, reactor) := this.pollClose addr waker flush w.reactor
    some (quiet outcome, w.set addr this reactor)
  | .take addr => do
    let this ← w.asyncs addr
    let (outcome, this, reactor) := this.takeInner w.reactor
    some (quiet outcome, w.set addr this reactor)
  | .drop addr => do
    let this ← w.asyncs addr
    let (outcome, reactor) := this.drop w.reactor
    some (quiet outcome, { asyncs := Function.update w.asyncs addr none, reactor })
  | .dispatch answer => do
    let (outcome, reactor, waiters, woken) ← w.reactor.dispatch (w.epollWait answer) w.waiters
    let w := { asyncs := w.withWaiters waiters, reactor }
    match outcome with
    | .panic p => some (.panic p, w)
    | .ret _ => some (.ret woken, w)
  | .replace addr value => do
    let this ← w.asyncs addr
    let (outcome, this) := this.pinReplace value
    some (quiet outcome, w.set addr this w.reactor)
  | .swap addr addr' => do
    let this ← w.asyncs addr
    let that ← w.asyncs addr'
    if addr = addr' then none
    else
      match this.inner, that.inner with
      | some value, some value' =>
        let w := w.set addr { this with inner := some value' } w.reactor
        some (.ret [], w.set addr' { that with inner := some value } w.reactor)
      | _, _ => some (.panic .innerTaken, w)

def step (w : World T τ κ) (act : Act T τ R) : Option (World T τ κ) := (w.perform act).map Prod.snd

section

variable {w w' : World T τ κ} {response : Response τ}

theorem perform_new {addr : Addr} {fcntl : Fcntl} {value : T}
    (h : w.perform (R := R) (.new addr fcntl value) = some (response, w')) :
    w.asyncs addr = none ∧
      ((∃ p, Async.new (τ := τ) fcntl value = .panic p ∧ response = .panic p ∧ w' = w) ∨
        ∃ this, Async.new fcntl value = .ret this ∧ response = .ret [] ∧
          w' = w.set addr this w.reactor) := by
  simp only [perform] at h
  split at h
  · cases h
  · rename_i hFree
    refine ⟨hFree, ?_⟩
    split at h
    · rename_i p hNew
      cases h
      exact .inl ⟨p, hNew, rfl, rfl⟩
    · rename_i this hNew
      cases h
      exact .inr ⟨this, hNew, rfl, rfl⟩

theorem perform_replace {addr : Addr} {value : T}
    (h : w.perform (R := R) (.replace addr value) = some (response, w')) :
    ∃ this, w.asyncs addr = some this ∧
      ((this.inner = none ∧ response = .panic .innerTaken ∧ w' = w.set addr this w.reactor) ∨
        ∃ inner, this.inner = some inner ∧ response = .ret [] ∧
          w' = w.set addr { this with inner := some value } w.reactor) := by
  obtain ⟨this, hThis, hRun⟩ := Option.bind_eq_some_iff.mp h
  refine ⟨this, hThis, ?_⟩
  cases hInner : this.inner with
  | none =>
    simp only [Async.pinReplace, hInner] at hRun
    cases hRun
    exact .inl ⟨rfl, rfl, rfl⟩
  | some inner =>
    simp only [Async.pinReplace, hInner] at hRun
    cases hRun
    exact .inr ⟨inner, rfl, rfl, rfl⟩

theorem perform_swap {addr addr' : Addr}
    (h : w.perform (R := R) (.swap addr addr') = some (response, w')) :
    ∃ this that, w.asyncs addr = some this ∧ w.asyncs addr' = some that ∧ addr ≠ addr' ∧
      ((response = .panic .innerTaken ∧ w' = w) ∨
        ∃ value value', this.inner = some value ∧ that.inner = some value' ∧ response = .ret [] ∧
          w' = (w.set addr { this with inner := some value' } w.reactor).set addr'
            { that with inner := some value } w.reactor) := by
  obtain ⟨this, hThis, hRun⟩ := Option.bind_eq_some_iff.mp h
  obtain ⟨that, hThat, hRun⟩ := Option.bind_eq_some_iff.mp hRun
  split at hRun
  · cases hRun
  · rename_i hAddr
    refine ⟨this, that, hThis, hThat, hAddr, ?_⟩
    split at hRun
    · rename_i value value' hInner hInner'
      cases hRun
      exact .inr ⟨value, value', hInner, hInner', rfl, rfl⟩
    · cases hRun
      exact .inl ⟨rfl, rfl⟩

end

end World

end Ground
