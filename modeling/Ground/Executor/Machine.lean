import Ground.Edge.WakeUps

/-! # The main loop

`executor::run`, over one thread with its kernel. A task is whatever its polls
choose to do: the labels say which calls it makes and when it returns `Pending`.
A pending `nonblocking` future borrows its `Async` mutably, so that no other
task gets at it. The pool of tasks and the channel are the `futures` crate's.
-/

namespace Ground

open Mask Transition

abbrev TaskId := Nat

/-- `futures::executor::LocalPool`: what it is asked for, and which of its tasks are
unfinished, which are woken, and which is being polled. -/
class LocalPool (π : Type) where
  new : π
  spawnLocal : π → TaskId → π
  wake : π → TaskId → π
  next : π → TaskId → Option π
  pending : π → π
  finish : π → TaskId → π
  stalls : π → Bool
  tasks : π → List TaskId
  woken : π → List TaskId
  current : π → Option TaskId

open LocalPool in
/-- What its documentation promises: a task is polled after it was spawned or woken and
only then, and `run_until_stalled` returns when no task can make progress. -/
class LawfulLocalPool (π : Type) [LocalPool π] : Prop where
  spawned {pool : π} {t : TaskId} : t ∈ woken pool → t ∈ tasks pool
  polled {pool : π} {t : TaskId} : current pool = some t → t ∈ tasks pool
  mem_tasks_spawnLocal {pool : π} {t t' : TaskId} :
    t' ∈ tasks (spawnLocal pool t) ↔ t' = t ∨ t' ∈ tasks pool
  mem_woken_spawnLocal {pool : π} {t t' : TaskId} :
    t' ∈ woken (spawnLocal pool t) ↔ t' = t ∨ t' ∈ woken pool
  current_spawnLocal {pool : π} {t : TaskId} : current (spawnLocal pool t) = current pool
  mem_tasks_wake {pool : π} {t t' : TaskId} : t' ∈ tasks (wake pool t) ↔ t' ∈ tasks pool
  mem_woken_wake {pool : π} {t t' : TaskId} :
    t' ∈ woken (wake pool t) ↔ t' ∈ woken pool ∨ t' = t ∧ t ∈ tasks pool
  current_wake {pool : π} {t : TaskId} : current (wake pool t) = current pool
  woken_of_next {pool pool' : π} {t : TaskId} : next pool t = some pool' → t ∈ woken pool
  mem_tasks_next {pool pool' : π} {t t' : TaskId} :
    next pool t = some pool' → (t' ∈ tasks pool' ↔ t' ∈ tasks pool)
  mem_woken_next {pool pool' : π} {t t' : TaskId} :
    next pool t = some pool' → t' ≠ t → (t' ∈ woken pool' ↔ t' ∈ woken pool)
  current_next {pool pool' : π} {t : TaskId} : next pool t = some pool' → current pool' = some t
  mem_tasks_pending {pool : π} {t : TaskId} : t ∈ tasks (pending pool) ↔ t ∈ tasks pool
  mem_woken_pending {pool : π} {t : TaskId} : t ∈ woken (pending pool) ↔ t ∈ woken pool
  current_pending {pool : π} : current (pending pool) = none
  mem_tasks_finish {pool : π} {t t' : TaskId} :
    t' ∈ tasks (finish pool t) ↔ t' ∈ tasks pool ∧ t' ≠ t
  mem_woken_finish {pool : π} {t t' : TaskId} :
    t' ∈ woken (finish pool t) ↔ t' ∈ woken pool ∧ t' ≠ t
  current_finish {pool : π} {t : TaskId} : current (finish pool t) = none
  woken_of_stalls {pool : π} : stalls pool = true → woken pool = []

/-- `futures::channel::oneshot`, both ends in one. A send fails when the receiver is
gone, and an error of `try_recv` is `Canceled`. -/
class Oneshot (χ : Type) (O : outParam Type) where
  channel : χ
  send : χ → O → Option χ
  tryRecv : χ → Except Unit (Option O) × χ
  unsent : χ → Prop

open Oneshot in
/-- While the sender is kept nothing is received, and what it sends is received next. -/
class LawfulOneshot (χ : Type) (O : outParam Type) [Oneshot χ O] : Prop where
  unsent_channel : unsent (channel : χ)
  tryRecv_unsent {c : χ} : unsent c → (tryRecv c).1 = .ok none ∧ unsent (tryRecv c).2
  send_unsent {c : χ} : unsent c → ∀ output, ∃ c', send c output = some c' ∧
    (tryRecv c').1 = .ok (some output)

variable {T O R π χ : Type} [AsRawFd T]

structure TaskQueue where
  tasks : List TaskId
  woken : List TaskId
  current : Option TaskId
  spawned : ∀ t ∈ woken, t ∈ tasks
  polled : ∀ t ∈ current, t ∈ tasks

namespace TaskQueue

def spawnLocal (pool : TaskQueue) (t : TaskId) : TaskQueue :=
  { pool with
    tasks := t :: pool.tasks
    woken := pool.woken ++ [t]
    spawned := by
      intro t' h
      obtain h | h := List.mem_append.mp h
      · exact List.mem_cons_of_mem _ (pool.spawned t' h)
      · exact List.mem_singleton.mp h ▸ List.mem_cons_self
    polled := fun t' h => List.mem_cons_of_mem _ (pool.polled t' h) }

def wake (pool : TaskQueue) (t : TaskId) : TaskQueue :=
  if h : t ∈ pool.tasks ∧ t ∉ pool.woken then
    { pool with
      woken := pool.woken ++ [t]
      spawned := by
        intro t' h'
        obtain h' | h' := List.mem_append.mp h'
        · exact pool.spawned t' h'
        · exact List.mem_singleton.mp h' ▸ h.1 }
  else pool

def next (pool : TaskQueue) (t : TaskId) : Option TaskQueue :=
  if h : t ∈ pool.woken then
    some
      { pool with
        woken := pool.woken.erase t
        current := some t
        spawned := fun t' h' => pool.spawned t' (List.mem_of_mem_erase h')
        polled := by
          rintro _ ⟨⟩
          exact pool.spawned t h }
  else none

def finish (pool : TaskQueue) (t : TaskId) : TaskQueue where
  tasks := pool.tasks.filter (· ≠ t)
  woken := pool.woken.filter (· ≠ t)
  current := none
  spawned := by
    intro t' h
    obtain ⟨hMem, hOther⟩ := List.mem_filter.mp h
    exact List.mem_filter.mpr ⟨pool.spawned t' hMem, hOther⟩
  polled := by simp

instance : LocalPool TaskQueue where
  new := { tasks := [], woken := [], current := none, spawned := by simp, polled := by simp }
  spawnLocal := spawnLocal
  wake := wake
  next := next
  pending pool := { pool with current := none, polled := by simp }
  finish := finish
  stalls pool := pool.woken.isEmpty
  tasks := tasks
  woken := woken
  current := current

theorem next_eq_some {pool pool' : TaskQueue} {t : TaskId} (h : pool.next t = some pool') :
    t ∈ pool.woken ∧ pool'.tasks = pool.tasks ∧ pool'.woken = pool.woken.erase t ∧
      pool'.current = some t := by
  obtain ⟨hWoken, hNext⟩ := Option.dite_none_right_eq_some.mp h
  cases hNext
  exact ⟨hWoken, rfl, rfl, rfl⟩

theorem mem_wake {pool : TaskQueue} {t t' : TaskId} :
    t' ∈ (pool.wake t).woken ↔ t' ∈ pool.woken ∨ t' = t ∧ t ∈ pool.tasks := by
  unfold wake
  split
  · rename_i h
    simp [h.1]
  · rename_i h
    refine ⟨.inl, fun hMem => hMem.elim id ?_⟩
    rintro ⟨rfl, hTask⟩
    by_contra hNot
    exact h ⟨hTask, hNot⟩

instance : LawfulLocalPool TaskQueue where
  spawned {pool t} h := pool.spawned t h
  polled {pool t} h := pool.polled t h
  mem_tasks_spawnLocal := List.mem_cons
  mem_woken_spawnLocal {pool t t'} := by
    change t' ∈ pool.woken ++ [t] ↔ _
    rw [List.mem_append, List.mem_singleton, or_comm]
    rfl
  current_spawnLocal := rfl
  mem_tasks_wake {pool t t'} := by
    change t' ∈ (pool.wake t).tasks ↔ _
    unfold wake
    split <;> rfl
  mem_woken_wake := mem_wake
  current_wake {pool t} := by
    change (pool.wake t).current = _
    unfold wake
    split <;> rfl
  woken_of_next h := (next_eq_some h).1
  mem_tasks_next {pool pool' t t'} h := by
    change t' ∈ pool'.tasks ↔ _
    rw [(next_eq_some h).2.1]
    rfl
  mem_woken_next {pool pool' t t'} h hOther := by
    change t' ∈ pool'.woken ↔ _
    rw [(next_eq_some h).2.2.1, List.mem_erase_of_ne hOther]
    rfl
  current_next h := (next_eq_some h).2.2.2
  mem_tasks_pending := Iff.rfl
  mem_woken_pending := Iff.rfl
  current_pending := rfl
  mem_tasks_finish {pool t t'} := by
    change t' ∈ pool.tasks.filter _ ↔ _
    rw [List.mem_filter, decide_eq_true_iff]
    rfl
  mem_woken_finish {pool t t'} := by
    change t' ∈ pool.woken.filter _ ↔ _
    rw [List.mem_filter, decide_eq_true_iff]
    rfl
  current_finish := rfl
  woken_of_stalls h := List.isEmpty_iff.mp h

end TaskQueue

instance : Oneshot (Option O) O where
  channel := none
  send _ output := some (some output)
  tryRecv sent := (.ok sent, none)
  unsent sent := sent = none

instance : LawfulOneshot (Option O) O where
  unsent_channel := rfl
  tryRecv_unsent h := by
    cases h
    exact ⟨rfl, rfl⟩
  send_unsent _ output := ⟨some output, rfl, rfl⟩

variable [LocalPool π] [Oneshot χ O]

/-- A task panics, the `unwrap()` on what `try_recv` returns fails, or the `expect` on
what `dispatch` returns. -/
inductive RunPanic where
  | task
  | canceled
  | dispatch (errno : Errno)
  deriving DecidableEq

inductive Progress (O : Type) where
  | polling
  | dispatching
  | returned (output : O)
  | panicked (reason : RunPanic)

/-- The pending futures are named by the `Async`s that they borrow. -/
structure Executor (T O π χ : Type) where
  edge : Edge T TaskId
  pool : π
  futures : Addr → Option (TaskId × Interest)
  channel : χ
  progress : Progress O

namespace Executor

def main : TaskId := 0

def init (ready : RawFd → Events) : Executor T O π χ where
  edge := .init ready
  pool := LocalPool.spawnLocal LocalPool.new main
  futures _ := none
  channel := Oneshot.channel
  progress := .polling

inductive Act (T O R : Type) where
  | new (addr : Addr) (fcntl : Fcntl) (value : T)
  | take (addr : Addr)
  | drop (addr : Addr)
  | poll (addr : Addr) (interest : Interest) (f : Closure T R)
  | register
  | cancel (addr : Addr)
  | spawn (t : TaskId)
  | wake (t : TaskId)
  | pending
  | finish
  | output (output : O)
  | unwind
  | next (t : TaskId)
  | stalled
  | wait (answer : Except Errno (List RawFd))
  | deliver
  | become (fd : RawFd) (readable writable : Bool)

def within (s : Executor T O π χ) (act : Edge.Act T TaskId R) : Option (Executor T O π χ) :=
  (s.edge.step act).map fun edge => { s with edge }

def futureAfter (attempt : Attempt R) (t : TaskId) (interest : Interest) :
    Option (TaskId × Interest) :=
  match attempt with
  | .skipped | .blocked _ => some (t, interest)
  | .taken | .finished _ => none

def poll (s : Executor T O π χ) (t : TaskId) (addr : Addr) (interest : Interest)
    (f : Closure T R) : Option (Executor T O π χ) := do
  let this ← s.edge.world.asyncs addr
  if s.futures addr = none ∨ s.futures addr = some (t, interest) then
    let edge ← s.edge.step (.poll addr (.task t) interest f)
    let future := futureAfter (this.pollAttempt (.task t) interest f).1 t interest
    some { s with edge, futures := Function.update s.futures addr future }
  else none

def release (s : Executor T O π χ) (t : TaskId) : Addr → Option (TaskId × Interest) :=
  fun addr => (s.futures addr).filter fun future => future.1 ≠ t

def call (s : Executor T O π χ) (t : TaskId) : Act T O R → Option (Executor T O π χ)
  | .new addr fcntl value => s.within (R := R) (.new addr fcntl value)
  | .take addr => if s.futures addr = none then s.within (R := R) (.take addr) else none
  | .drop addr => if s.futures addr = none then s.within (R := R) (.drop addr) else none
  | .poll addr interest f => s.poll t addr interest f
  | .cancel addr =>
    if (s.futures addr).any fun future => future.1 = t then
      some { s with futures := Function.update s.futures addr none }
    else none
  | .spawn t' =>
    if t' = main ∨ t' ∈ LocalPool.tasks s.pool then none
    else some { s with pool := LocalPool.spawnLocal s.pool t' }
  | .wake t' => some { s with pool := LocalPool.wake s.pool t' }
  | .pending => some { s with pool := LocalPool.pending s.pool }
  | .finish =>
    if t = main then none
    else some { s with pool := LocalPool.finish s.pool t, futures := s.release t }
  | .output output =>
    if t = main then
      match Oneshot.send s.channel output with
      | none => some { s with progress := .panicked .task }
      | some channel =>
        some { s with pool := LocalPool.finish s.pool t, futures := s.release t, channel }
    else none
  | .unwind => some { s with progress := .panicked .task }
  | _ => none

def stalled (s : Executor T O π χ) : Option (Executor T O π χ) :=
  if LocalPool.stalls s.pool then
    match Oneshot.tryRecv s.channel with
    | (.error (), channel) => some { s with channel, progress := .panicked .canceled }
    | (.ok (some output), channel) => some { s with channel, progress := .returned output }
    | (.ok none, channel) => some { s with channel, progress := .dispatching }
  else none

/-- `dispatch` up to its delivery loop. Without a timeout `epoll_wait` returns
only when there is an event. -/
def wait (s : Executor T O π χ) : Except Errno (List RawFd) → Option (Executor T O π χ)
  | .error errno => some { s with progress := .panicked (.dispatch errno) }
  | .ok fds =>
    if (s.edge.kernel.wait fds).1 = [] then none
    else s.within (Edge.Act.wait fds : Edge.Act T TaskId R)

def deliver (s : Executor T O π χ) (event : EpollEvent) : Option (Executor T O π χ) := do
  let this ← s.edge.world.asyncs event.data
  let edge ← s.edge.step (Edge.Act.deliver : Edge.Act T TaskId R)
  some { s with edge, pool := (Reactor.deliver event this.waiter).2.foldl LocalPool.wake s.pool }

def step (s : Executor T O π χ) (act : Act T O R) : Option (Executor T O π χ) :=
  match s.progress, s.edge.phase, LocalPool.current s.pool, act with
  | _, _, _, .become fd readable writable => s.within (R := R) (.become fd readable writable)
  | .polling, .registering _ _ _, some _, .register => s.within (Edge.Act.register (R := R))
  | .polling, .idle, some t, act => s.call t act
  | .polling, .idle, none, .next t =>
    (LocalPool.next s.pool t).map fun pool => { s with pool }
  | .polling, .idle, none, .stalled => s.stalled
  | .dispatching, .idle, none, .wait answer => s.wait (R := R) answer
  | .dispatching, .dispatching (event :: _), none, .deliver => s.deliver (R := R) event
  | .dispatching, .dispatching [], none, .deliver =>
    some { s with edge := s.edge.finish, progress := .polling }
  | _, _, _, _ => none

end Executor

end Ground
