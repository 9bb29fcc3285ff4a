import Ground.Executor.Awake

/-! # Handing a waiting `Async` over

A poll that is skipped keeps the waker that its waiter has. A task that takes
over an `Async` which another task has given up waiting for is skipped so, and
then no event ever reaches it.
-/

namespace Ground

open Mask Transition

variable {T O R π χ : Type} [AsRawFd T]

namespace Async

variable {τ κ : Type} [Epoll κ]

omit [Epoll κ] in
theorem pollAttempt_waker (this : Async T τ) (waker : Waker τ) (interest : Interest)
    (f : Closure T R) :
    (this.pollAttempt waker interest f).2.waiter.waker = this.waiter.waker ∨
      (this.pollAttempt waker interest f).2.waiter.waker = waker := by
  cases hInner : this.inner with
  | none =>
    rw [pollAttempt_taken hInner]
    exact .inl rfl
  | some inner =>
    obtain ⟨-, hAttempt⟩ | ⟨-, -, hAttempt⟩ | ⟨-, -, hAttempt⟩ :=
      pollAttempt_cases hInner waker interest f
    · rw [hAttempt]
      exact .inl rfl
    · rw [hAttempt]
      exact .inr rfl
    · rw [hAttempt]
      exact .inl rfl

end Async

namespace Edge

variable {s s' : Edge T TaskId}

def FromBefore (s : Edge T TaskId) (addr : Addr) (this : Async T TaskId) : Prop :=
  this.waiter.waker = .noop ∨
    ∃ that, s.world.asyncs addr = some that ∧ this.waiter.waker = that.waiter.waker

omit [AsRawFd T] in
theorem fromBefore_update {addr addr' : Addr} {this that those : Async T TaskId}
    (hThis : s.world.asyncs addr = some this) (hWaker : that.waiter.waker = this.waiter.waker)
    (hThose : Function.update s.world.asyncs addr (some that) addr' = some those) :
    s.FromBefore addr' those := by
  obtain rfl | hAddr := eq_or_ne addr' addr
  · rw [Function.update_self] at hThose
    cases hThose
    exact .inr ⟨this, hThis, hWaker⟩
  · rw [Function.update_of_ne hAddr] at hThose
    exact .inr ⟨those, hThose, rfl⟩

/-- Only a poll puts a waker into a waiter. -/
theorem step_wakers {act : Act T TaskId R} (hStep : s.step act = some s') {addr : Addr}
    {this : Async T TaskId} (hThis : s'.world.asyncs addr = some this) :
    s.FromBefore addr this ∨
      ∃ interest f, act = .poll addr this.waiter.waker interest f := by
  unfold step at hStep
  split at hStep
  case h_1 =>
    cases hStep
    exact .inl (.inr ⟨this, hThis, rfl⟩)
  case h_2 =>
    obtain ⟨w, hWorld, rfl⟩ := Option.map_eq_some_iff.mp hStep
    obtain ⟨⟨response, _⟩, hPerform, rfl⟩ := Option.map_eq_some_iff.mp hWorld
    obtain ⟨-, ⟨p, -, -, rfl⟩ | ⟨that, hNew, -, rfl⟩⟩ := World.perform_new hPerform
    · exact .inl (.inr ⟨this, hThis, rfl⟩)
    · simp only [World.set, Function.update_apply] at hThis
      split at hThis
      · cases hThis
        exact .inl (.inl (congrArg (·.waiter.waker) (Async.new_eq_ret hNew)))
      · exact .inl (.inr ⟨this, hThis, rfl⟩)
  case h_3 =>
    obtain ⟨w, hWorld, rfl⟩ := Option.map_eq_some_iff.mp hStep
    obtain ⟨⟨response, _⟩, hPerform, rfl⟩ := Option.map_eq_some_iff.mp hWorld
    obtain ⟨that, hThat, hRun⟩ := Option.bind_eq_some_iff.mp hPerform
    cases hRun
    exact .inl (fromBefore_update hThat (that.takeInner_waker _) hThis)
  case h_4 addr' _ =>
    obtain ⟨w, hWorld, rfl⟩ := Option.map_eq_some_iff.mp hStep
    obtain ⟨⟨response, _⟩, hPerform, rfl⟩ := Option.map_eq_some_iff.mp hWorld
    obtain ⟨that, hThat, hRun⟩ := Option.bind_eq_some_iff.mp hPerform
    cases hRun
    simp only [Function.update_apply] at hThis
    split at hThis
    · cases hThis
    · exact .inl (.inr ⟨this, hThis, rfl⟩)
  case h_5 addr' waker interest f _ =>
    obtain ⟨that, hThat, -⟩ := Option.bind_eq_some_iff.mp hStep
    rw [poll_asyncs hThat hStep] at hThis
    obtain hWaker | hWaker := that.pollAttempt_waker waker interest f
    · exact .inl (fromBefore_update hThat hWaker hThis)
    · rw [Function.update_apply] at hThis
      split at hThis
      · rename_i hAddr
        cases hThis
        exact .inr ⟨interest, f, by rw [hWaker, hAddr]⟩
      · exact .inl (.inr ⟨this, hThis, rfl⟩)
  case h_6 =>
    obtain ⟨that, registerFor, hThat, hAsyncs⟩ := register_asyncs hStep
    let those : Async T TaskId := { that with waiter := { that.waiter with registerFor } }
    have hWaker : those.waiter.waker = that.waiter.waker := rfl
    rw [hAsyncs] at hThis
    exact .inl (fromBefore_update hThat hWaker hThis)
  case h_7 =>
    unfold wait at hStep
    split at hStep
    · cases hStep
      exact .inl (.inr ⟨this, hThis, rfl⟩)
    · cases hStep
  case h_8 event events _ =>
    obtain ⟨that, hThat, hRun⟩ := Option.bind_eq_some_iff.mp hStep
    cases hRun
    let those : Async T TaskId := { that with waiter := (Reactor.deliver event that.waiter).1 }
    have hWaker : those.waiter.waker = that.waiter.waker := rfl
    exact .inl (fromBefore_update hThat hWaker hThis)
  case h_9 =>
    cases hStep
    exact .inl (.inr ⟨this, hThis, rfl⟩)
  case h_10 => cases hStep

end Edge

namespace LocalPool

variable [LocalPool π] [LawfulLocalPool π] {pool pool' : π} {t t' : TaskId}

open LawfulLocalPool

theorem stirs_spawnLocal_iff (h : t ≠ t') : Stirs t (spawnLocal pool t') ↔ Stirs t pool := by
  rw [Stirs, Stirs, mem_woken_spawnLocal, current_spawnLocal, or_iff_right h]

theorem stirs_wake_iff (h : t ≠ t') : Stirs t (wake pool t') ↔ Stirs t pool := by
  have hWoken : t ∈ woken (wake pool t') ↔ t ∈ woken pool :=
    mem_woken_wake.trans (or_iff_left fun hSame => h hSame.1)
  rw [Stirs, Stirs, hWoken, current_wake]

theorem stirs_wakeByRef_iff {waker : Waker TaskId} (h : waker ≠ .task t) :
    Stirs t (waker.wakeByRef.foldl wake pool) ↔ Stirs t pool := by
  cases waker with
  | noop => exact Iff.rfl
  | task t' => exact stirs_wake_iff fun hSame => h (congrArg Waker.task hSame.symm)

theorem not_stirs_next (hNext : next pool t' = some pool') (h : ¬ Stirs t pool) :
    ¬ Stirs t pool' := by
  have hOther : t ≠ t' := by
    rintro rfl
    exact h (.inl (woken_of_next hNext))
  rintro (hWoken | hCurrent)
  · exact h (.inl ((mem_woken_next hNext hOther).mp hWoken))
  · exact hOther (Option.some.inj (hCurrent.symm.trans (current_next hNext)))

theorem not_stirs_pending (h : t ∉ woken pool) : ¬ Stirs t (pending pool) := by
  rintro (hWoken | hCurrent)
  · exact h (mem_woken_pending.mp hWoken)
  · cases current_pending.symm.trans hCurrent

theorem not_stirs_finish (h : t ∉ woken pool) : ¬ Stirs t (finish pool t') := by
  rintro (hWoken | hCurrent)
  · exact h (mem_woken_finish.mp hWoken).1
  · cases current_finish.symm.trans hCurrent

theorem mem_tasks_wakeByRef (waker : Waker TaskId) :
    t ∈ tasks (waker.wakeByRef.foldl wake pool) ↔ t ∈ tasks pool := by
  cases waker with
  | noop => exact Iff.rfl
  | task t' => exact mem_tasks_wake

end LocalPool

namespace Executor

variable [LocalPool π] {s s' : Executor T O π χ} {t : TaskId} {addr : Addr} {interest : Interest}

/-- The task has this future pending and is not about to be polled, and no waiter
holds its waker. -/
structure Deaf (s : Executor T O π χ) (t : TaskId) (addr : Addr) (interest : Interest) :
    Prop where
  future : s.futures addr = some (t, interest)
  task : t ∈ LocalPool.tasks s.pool
  still : ¬ LocalPool.Stirs t s.pool
  unheard : ∀ addr this, s.edge.world.asyncs addr = some this → this.waiter.waker ≠ .task t

namespace Deaf

theorem edge (h : s.Deaf t addr interest) {act : Edge.Act T TaskId R} {edge : Edge T TaskId}
    (hStep : s.edge.step act = some edge)
    (hPoll : ∀ addr waker interest f, act = .poll addr waker interest f → waker ≠ .task t) :
    ∀ addr this, edge.world.asyncs addr = some this → this.waiter.waker ≠ .task t := by
  intro addr this hThis
  obtain (hNoop | ⟨that, hThat, hWaker⟩) | ⟨interest, f, hAct⟩ := Edge.step_wakers hStep hThis
  · rw [hNoop]
    rintro ⟨⟩
  · rw [hWaker]
    exact h.unheard addr that hThat
  · exact hPoll addr _ interest f hAct

theorem within (h : s.Deaf t addr interest) {act : Edge.Act T TaskId R}
    (hWithin : s.within act = some s')
    (hPoll : ∀ addr waker interest f, act ≠ .poll addr waker interest f) :
    s'.Deaf t addr interest := by
  obtain ⟨edge, hStep, rfl⟩ := within_eq_some hWithin
  exact ⟨h.future, h.task, h.still, h.edge hStep fun addr waker interest f hAct =>
    absurd hAct (hPoll addr waker interest f)⟩

theorem poll (h : s.Deaf t addr interest) {t' : TaskId} (hOther : t ≠ t') {addr' : Addr}
    {interest' : Interest} {f : Closure T R} (hPoll : s.poll t' addr' interest' f = some s') :
    s'.Deaf t addr interest := by
  obtain ⟨this, -, hRun⟩ := Option.bind_eq_some_iff.mp hPoll
  obtain ⟨hFree, hRun⟩ := Option.ite_none_right_eq_some.mp hRun
  obtain ⟨edge, hStep, hSame⟩ := Option.bind_eq_some_iff.mp hRun
  cases hSame
  have hAddr : addr ≠ addr' := by
    rintro rfl
    obtain hFree | hOwn := hFree
    · cases hFree.symm.trans h.future
    · cases h.future.symm.trans hOwn
      exact hOther rfl
  refine ⟨(Function.update_of_ne hAddr ..).trans h.future, h.task, h.still, h.edge hStep ?_⟩
  rintro _ _ _ _ ⟨⟩ hWaker
  exact hOther (Waker.task.inj hWaker).symm

variable [LawfulLocalPool π]

omit [AsRawFd T] in
theorem finish (h : s.Deaf t addr interest) {t' : TaskId} (hOther : t ≠ t') (channel : χ) :
    Deaf { s with pool := LocalPool.finish s.pool t', futures := s.release t', channel }
      t addr interest where
  future := by simp [release, h.future, hOther]
  task := LawfulLocalPool.mem_tasks_finish.mpr ⟨h.task, hOther⟩
  still := LocalPool.not_stirs_finish fun hWoken => h.still (.inl hWoken)
  unheard := h.unheard

omit [AsRawFd T] in
theorem next (h : s.Deaf t addr interest) {t' : TaskId} {pool : π}
    (hNext : LocalPool.next s.pool t' = some pool) : Deaf { s with pool } t addr interest :=
  ⟨h.future, (LawfulLocalPool.mem_tasks_next hNext).mpr h.task,
    LocalPool.not_stirs_next hNext h.still, h.unheard⟩

theorem deliver (h : s.Deaf t addr interest) {event : EpollEvent}
    (hDeliver : s.deliver (R := R) event = some s') : s'.Deaf t addr interest := by
  obtain ⟨this, hThis, hRun⟩ := Option.bind_eq_some_iff.mp hDeliver
  obtain ⟨edge, hStep, hSame⟩ := Option.bind_eq_some_iff.mp hRun
  cases hSame
  have hWaker := h.unheard event.data this hThis
  exact ⟨h.future, (LocalPool.mem_tasks_wakeByRef this.waiter.waker).mpr h.task,
    mt (LocalPool.stirs_wakeByRef_iff hWaker).mp h.still, h.edge hStep (by rintro _ _ _ _ ⟨⟩)⟩

variable [Oneshot χ O]

theorem call (h : s.Deaf t addr interest) {t' : TaskId}
    (hCurrent : LocalPool.current s.pool = some t') {act : Act T O R} (hQuiet : act ≠ .wake t)
    (hCall : s.call t' act = some s') : s'.Deaf t addr interest := by
  have hOther : t ≠ t' := by
    rintro rfl
    exact h.still (.inr hCurrent)
  cases act with
  | new addr fcntl value => exact h.within hCall (by simp)
  | take addr =>
    obtain ⟨-, hTake⟩ := Option.ite_none_right_eq_some.mp hCall
    exact h.within hTake (by simp)
  | drop addr =>
    obtain ⟨-, hDrop⟩ := Option.ite_none_right_eq_some.mp hCall
    exact h.within hDrop (by simp)
  | poll addr' interest' f => exact h.poll hOther hCall
  | cancel addr' =>
    obtain ⟨hOwn, hCancel⟩ := Option.ite_none_right_eq_some.mp hCall
    cases hCancel
    have hAddr : addr ≠ addr' := by
      rintro rfl
      rw [h.future] at hOwn
      exact hOther (by simpa using hOwn)
    exact ⟨(Function.update_of_ne hAddr ..).trans h.future, h.task, h.still, h.unheard⟩
  | spawn t'' =>
    obtain ⟨hFresh, hSpawn⟩ := Option.ite_none_left_eq_some.mp hCall
    cases hSpawn
    have hSpawned : t ≠ t'' := by
      rintro rfl
      exact hFresh (.inr h.task)
    exact ⟨h.future, LawfulLocalPool.mem_tasks_spawnLocal.mpr (.inr h.task),
      mt (LocalPool.stirs_spawnLocal_iff hSpawned).mp h.still, h.unheard⟩
  | wake t'' =>
    cases hCall
    have hWoken : t ≠ t'' := by
      rintro rfl
      exact hQuiet rfl
    exact ⟨h.future, LawfulLocalPool.mem_tasks_wake.mpr h.task,
      mt (LocalPool.stirs_wake_iff hWoken).mp h.still, h.unheard⟩
  | pending =>
    cases hCall
    exact ⟨h.future, LawfulLocalPool.mem_tasks_pending.mpr h.task,
      LocalPool.not_stirs_pending fun hWoken => h.still (.inl hWoken), h.unheard⟩
  | finish =>
    obtain ⟨-, hFinish⟩ := Option.ite_none_left_eq_some.mp hCall
    cases hFinish
    exact h.finish hOther s.channel
  | output output =>
    obtain ⟨-, hOutput⟩ := Option.ite_none_right_eq_some.mp hCall
    split at hOutput
    · cases hOutput
      exact ⟨h.future, h.task, h.still, h.unheard⟩
    · cases hOutput
      exact h.finish hOther _
  | unwind =>
    cases hCall
    exact ⟨h.future, h.task, h.still, h.unheard⟩
  | register => cases hCall
  | next t' => cases hCall
  | stalled => cases hCall
  | wait answer => cases hCall
  | deliver => cases hCall
  | become fd readable writable => cases hCall

theorem step (h : s.Deaf t addr interest) {act : Act T O R} (hQuiet : act ≠ .wake t)
    (hStep : s.step act = some s') : s'.Deaf t addr interest := by
  unfold Executor.step at hStep
  split at hStep
  case h_1 => exact h.within hStep (by simp)
  case h_2 => exact h.within hStep (by simp)
  case h_3 hCurrent _ => exact h.call hCurrent hQuiet hStep
  case h_4 =>
    obtain ⟨pool, hNext, hSame⟩ := Option.map_eq_some_iff.mp hStep
    cases hSame
    exact h.next hNext
  case h_5 =>
    obtain ⟨-, hStalled⟩ := Option.ite_none_right_eq_some.mp hStep
    split at hStalled
    all_goals
      cases hStalled
      exact ⟨h.future, h.task, h.still, h.unheard⟩
  case h_6 answer _ _ _ =>
    cases answer with
    | error errno =>
      cases hStep
      exact ⟨h.future, h.task, h.still, h.unheard⟩
    | ok fds =>
      obtain ⟨-, hWait⟩ := Option.ite_none_left_eq_some.mp hStep
      exact h.within hWait (by simp)
  case h_7 => exact h.deliver hStep
  case h_8 =>
    cases hStep
    exact ⟨h.future, h.task, h.still, h.unheard⟩
  case h_9 => cases hStep

end Deaf

variable [LawfulLocalPool π] [Oneshot χ O]

/-- A task takes over an `Async` that waits with the waker of another task: its
poll is skipped. It is then never polled again unless something else wakes it,
however many events the dispatches deliver, and its future stays pending. -/
theorem handed_over_never_polled {this : Async T TaskId} {f : Closure T R}
    {acts : List (Act T O R)} (hCurrent : LocalPool.current s.pool = some t)
    (hProgress : s.progress = .polling) (hIdle : s.edge.phase = .idle)
    (hWoken : t ∉ LocalPool.woken s.pool)
    (hUnheard : ∀ addr this, s.edge.world.asyncs addr = some this → this.waiter.waker ≠ .task t)
    (hFree : s.futures addr = none) (hThis : s.edge.world.asyncs addr = some this)
    (hHeld : this.inner.isSome) (hWaits : interest.asEvents &&& this.waiter.waitingFor ≠ 0#32)
    (hQuiet : ∀ act ∈ acts, act ≠ .wake t)
    (hRun : run step s (.poll addr interest f :: .pending :: acts) = some s') :
    s'.futures addr = some (t, interest) ∧ t ∈ LocalPool.tasks s'.pool ∧
      t ∉ LocalPool.woken s'.pool ∧ LocalPool.current s'.pool ≠ some t := by
  obtain ⟨s₁, hPoll, hRun⟩ := run_cons_eq_some.mp hRun
  obtain ⟨s₂, hPending, hRun⟩ := run_cons_eq_some.mp hRun
  suffices hDeaf : s₂.Deaf t addr interest by
    have hAfter := invariant_of_meets (I := fun s => Deaf s t addr interest)
      (fun _ _ _ h hOk hStep => h.step hOk hStep) hDeaf (meets_of_mem hQuiet _) hRun
    exact ⟨hAfter.future, hAfter.task, fun h => hAfter.still (.inl h),
      fun h => hAfter.still (.inr h)⟩
  obtain ⟨inner, hInner⟩ := Option.isSome_iff_exists.mp hHeld
  have hAttempt : this.pollAttempt (.task t) interest f = (.skipped, this) := by
    simp only [Async.pollAttempt, hInner, if_pos hWaits]
  have hSame : s.edge.world.set addr this s.edge.world.reactor = s.edge.world := by
    simp only [World.set, ← hThis, Function.update_eq_self]
  simp only [step, hProgress, hIdle, hCurrent, call, poll, hThis, hFree, true_or, if_true,
    Edge.step, Edge.poll, hAttempt, hSame, Option.bind_eq_bind, Option.bind_some] at hPoll
  cases hPoll
  simp only [step, hCurrent, call] at hPending
  cases hPending
  have hTask : t ∈ LocalPool.tasks s.pool := LawfulLocalPool.polled hCurrent
  exact ⟨Function.update_self .., LawfulLocalPool.mem_tasks_pending.mpr hTask,
    LocalPool.not_stirs_pending hWoken, hUnheard⟩

theorem handed_over_never_polled_reading :
    let fcntl : Fcntl := ⟨fun _ => .ok 0#32, fun _ _ => .ok ()⟩
    let before : List (Act RawFd Nat Nat) :=
      [.next 0, .new 0 fcntl 3, .poll 0 .read .wouldBlock, .register, .cancel 0, .spawn 1,
        .pending, .next 1]
    let after : List (Act RawFd Nat Nat) :=
      [.stalled, .become 3 true false, .wait (.ok [3]), .deliver, .deliver]
    ∃ s s' : Executor RawFd Nat TaskQueue (Option Nat),
      run step (init fun _ => 0#32) before = some s ∧
      run step s (.poll 0 .read .wouldBlock :: .pending :: after) = some s' ∧
      s'.futures 0 = some (1, .read) ∧ s'.pool.woken = [0] := by
  intro fcntl before after
  let s : Executor RawFd Nat TaskQueue (Option Nat) :=
    (run step (init fun _ => 0#32) before).get rfl
  let s' : Executor RawFd Nat TaskQueue (Option Nat) :=
    (run step s (.poll 0 .read .wouldBlock :: .pending :: after)).get (by decide)
  have hRun : run step s (.poll 0 .read .wouldBlock :: .pending :: after) = some s' :=
    (Option.some_get _).symm
  have hUnheard : ∀ addr this, s.edge.world.asyncs addr = some this →
      this.waiter.waker ≠ .task 1 := by
    intro addr this hThis
    obtain rfl | hAddr := eq_or_ne addr 0
    · cases hThis
      decide
    · have hOther := (Function.update_of_ne hAddr ..).symm.trans hThis
      have hOther := (Function.update_of_ne hAddr ..).symm.trans hOther
      cases (Function.update_of_ne hAddr ..).symm.trans hOther
  obtain ⟨hFuture, -⟩ := handed_over_never_polled (s := s) rfl rfl rfl (by decide) hUnheard rfl rfl
    rfl (by decide) (by simp [after]) hRun
  exact ⟨s, s', (Option.some_get _).symm, hRun, hFuture, by decide⟩

end Executor

end Ground
