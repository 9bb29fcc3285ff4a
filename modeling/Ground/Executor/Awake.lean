import Ground.Executor.Machine

/-! # Whose wakers the pending futures hold

A pending future has the waker of its own task in its waiter and is still
waiting, unless its task is woken or being polled. Each step keeps this, and the
safety of the thread and its kernel below.
-/

namespace Ground

open Mask Transition

variable {T O R π χ : Type} [AsRawFd T]

namespace LocalPool

variable [LocalPool π]

/-- The task is about to be polled, or is being polled. -/
def Stirs (t : TaskId) (pool : π) : Prop := t ∈ woken pool ∨ current pool = some t

def Keeps (t : TaskId) (pool pool' : π) : Prop :=
  (t ∈ tasks pool → t ∈ tasks pool') ∧ (Stirs t pool → Stirs t pool')

theorem Keeps.refl (t : TaskId) (pool : π) : Keeps t pool pool := ⟨id, id⟩

variable [LawfulLocalPool π] {pool pool' : π} {t t' : TaskId}

open LawfulLocalPool

theorem keeps_spawnLocal (t t' : TaskId) (pool : π) : Keeps t pool (spawnLocal pool t') := by
  refine ⟨fun h => mem_tasks_spawnLocal.mpr (.inr h), ?_⟩
  rintro (h | h)
  · exact .inl (mem_woken_spawnLocal.mpr (.inr h))
  · exact .inr (current_spawnLocal.trans h)

theorem keeps_wake (t t' : TaskId) (pool : π) : Keeps t pool (wake pool t') := by
  refine ⟨mem_tasks_wake.mpr, ?_⟩
  rintro (h | h)
  · exact .inl (mem_woken_wake.mpr (.inl h))
  · exact .inr (current_wake.trans h)

theorem keeps_next (hNext : next pool t' = some pool') (hIdle : current pool = none) (t : TaskId) :
    Keeps t pool pool' := by
  refine ⟨(mem_tasks_next hNext).mpr, ?_⟩
  rintro (h | h)
  · obtain rfl | hOther := eq_or_ne t t'
    · exact .inr (current_next hNext)
    · exact .inl ((mem_woken_next hNext hOther).mpr h)
  · cases hIdle.symm.trans h

theorem keeps_pending (hCurrent : current pool = some t') (h : t ≠ t') :
    Keeps t pool (pending pool) := by
  refine ⟨mem_tasks_pending.mpr, ?_⟩
  rintro (hWoken | hPolled)
  · exact .inl (mem_woken_pending.mpr hWoken)
  · exact absurd (Option.some.inj (hPolled.symm.trans hCurrent)) h

theorem keeps_finish (hCurrent : current pool = some t') (h : t ≠ t') :
    Keeps t pool (finish pool t') := by
  refine ⟨fun hTask => mem_tasks_finish.mpr ⟨hTask, h⟩, ?_⟩
  rintro (hWoken | hPolled)
  · exact .inl (mem_woken_finish.mpr ⟨hWoken, h⟩)
  · exact absurd (Option.some.inj (hPolled.symm.trans hCurrent)) h

theorem mem_wakeByRef {waker : Waker TaskId} (hWaker : waker = .task t) (h : t ∈ tasks pool) :
    t ∈ woken (waker.wakeByRef.foldl wake pool) := by
  subst hWaker
  exact mem_woken_wake.mpr (.inr ⟨rfl, h⟩)

theorem keeps_wakeByRef (t : TaskId) (waker : Waker TaskId) (pool : π) :
    Keeps t pool (waker.wakeByRef.foldl wake pool) := by
  cases waker with
  | noop => exact .refl t pool
  | task t' => exact keeps_wake t t' pool

theorem wakeByRef_current (waker : Waker TaskId) (pool : π) :
    current (waker.wakeByRef.foldl wake pool) = current pool := by
  cases waker with
  | noop => rfl
  | task t => exact current_wake

end LocalPool

section

variable [LocalPool π]

/-- What the pending future of a task can rely on. -/
structure Attended (pool : π) (t : TaskId) (interest : Interest) (this : Async T TaskId) :
    Prop where
  held : this.inner.isSome
  waker : this.waiter.waker = .task t
  task : t ∈ LocalPool.tasks pool
  heard : LocalPool.Stirs t pool ∨ interest.asEvents &&& this.waiter.waitingFor ≠ 0#32

omit [AsRawFd T] in
theorem Attended.keeps {pool pool' : π} {t : TaskId} {interest : Interest}
    {this : Async T TaskId} (h : Attended pool t interest this) 
    (hKeeps : LocalPool.Keeps t pool pool') :
    Attended pool' t interest this :=
  ⟨h.held, h.waker, hKeeps.1 h.task, h.heard.imp_left hKeeps.2⟩

end

namespace Executor

variable {s s' : Executor T O π χ}

theorem within_eq_some {act : Edge.Act T TaskId R} (h : s.within act = some s') :
    ∃ edge, s.edge.step act = some edge ∧ s' = { s with edge } := by
  obtain ⟨edge, hStep, rfl⟩ := Option.map_eq_some_iff.mp h
  exact ⟨edge, hStep, rfl⟩

variable [LocalPool π]

structure Awake (s : Executor T O π χ) : Prop where
  safe : s.edge.Safe
  attended : ∀ addr t interest, s.futures addr = some (t, interest) →
    ∃ this, s.edge.world.asyncs addr = some this ∧ Attended s.pool t interest this
  asleep : s.progress = .dispatching → LocalPool.current s.pool = none ∧
    (s.edge.phase = .idle → LocalPool.woken s.pool = [])

/-- Below, the assumptions about closures and descriptors. A poll is not skipped
while its waiter holds the waker of another task, and a task that returns
`Pending` has polled its pending futures until they wait again. -/
def Assumed (s : Executor T O π χ) : Act T O R → Prop
  | .new addr fcntl value => s.edge.Assumed (R := R) (.new addr fcntl value)
  | .poll addr interest f => ∀ t, LocalPool.current s.pool = some t →
      s.edge.Assumed (.poll addr (.task t) interest f) ∧
        ∀ this, s.edge.world.asyncs addr = some this →
          interest.asEvents &&& this.waiter.waitingFor ≠ 0#32 → this.waiter.waker = .task t
  | .pending => ∀ t addr interest this, LocalPool.current s.pool = some t →
      s.futures addr = some (t, interest) → s.edge.world.asyncs addr = some this →
        interest.asEvents &&& this.waiter.waitingFor ≠ 0#32
  | _ => True

namespace Awake

theorem within (h : s.Awake) {act : Edge.Act T TaskId R} {edge : Edge T TaskId}
    (hStep : s.edge.step act = some edge) (hAssumed : s.edge.Assumed act)
    (hPlace : s.progress ≠ .dispatching ∨ edge.phase ≠ .idle ∨ s.edge.phase = .idle)
    (hAsyncs : ∀ addr, s.futures addr ≠ none →
      edge.world.asyncs addr = s.edge.world.asyncs addr) :
    Awake { s with edge } where
  safe := h.safe.step hAssumed hStep
  attended addr t interest hFuture := by
    obtain ⟨this, hThis, hAttended⟩ := h.attended addr t interest hFuture
    have hSame := hAsyncs addr (Option.ne_none_iff_exists'.mpr ⟨_, hFuture⟩)
    exact ⟨this, hSame.trans hThis, hAttended⟩
  asleep hProgress := by
    obtain ⟨hCurrent, hWoken⟩ := h.asleep hProgress
    refine ⟨hCurrent, fun hIdle => ?_⟩
    obtain hPlace | hPlace | hPlace := hPlace
    · exact absurd hProgress hPlace
    · exact absurd hIdle hPlace
    · exact hWoken hPlace

/-- A step of the pool or of the task alone. -/
theorem tasks (h : s.Awake) (hProgress : s'.progress ≠ .dispatching) (hEdge : s'.edge = s.edge)
    (hFutures : ∀ addr t interest, s'.futures addr = some (t, interest) →
      s.futures addr = some (t, interest) ∧ ∀ this, s.edge.world.asyncs addr = some this →
        Attended s.pool t interest this → Attended s'.pool t interest this) : s'.Awake where
  safe := hEdge ▸ h.safe
  attended addr t interest hFuture := by
    obtain ⟨hBefore, hAttended⟩ := hFutures addr t interest hFuture
    obtain ⟨this, hThis, hThat⟩ := h.attended addr t interest hBefore
    exact ⟨this, by rw [hEdge]; exact hThis, hAttended this hThis hThat⟩
  asleep hDispatching := absurd hDispatching hProgress

/-- A step below that rewrites one `Async`, whose future is seen to separately. -/
theorem update (h : s.Awake) {addr : Addr} {that : Async T TaskId} {edge : Edge T TaskId}
    (hSafe : edge.Safe)
    (hAsyncs : edge.world.asyncs = Function.update s.edge.world.asyncs addr that)
    (hEdge : s'.edge = edge) (hKeeps : ∀ t, LocalPool.Keeps t s.pool s'.pool)
    (hFutures : ∀ addr', addr' ≠ addr → s'.futures addr' = s.futures addr')
    (hFuture : ∀ t interest, s'.futures addr = some (t, interest) →
      Attended s'.pool t interest that)
    (hAsleep : s'.progress = .dispatching → LocalPool.current s'.pool = none ∧
      (s'.edge.phase = .idle → LocalPool.woken s'.pool = [])) : s'.Awake where
  safe := hEdge ▸ hSafe
  attended addr' t interest hThere := by
    rw [hEdge, hAsyncs]
    obtain rfl | hAddr := eq_or_ne addr' addr
    · exact ⟨that, Function.update_self .., hFuture t interest hThere⟩
    · obtain ⟨this, hThis, hAttended⟩ :=
        h.attended addr' t interest ((hFutures addr' hAddr).symm.trans hThere)
      exact ⟨this, (Function.update_of_ne hAddr ..).trans hThis, hAttended.keeps (hKeeps t)⟩
  asleep := hAsleep

theorem call (h : s.Awake) (hPolling : s.progress = .polling) {act : Edge.Act T TaskId R}
    {called : World.Act T TaskId R} (hCall : s.edge.step act = s.edge.call called)
    (hAssumed : s.edge.Assumed act)
    (hAsyncs : ∀ response w, s.edge.world.perform called = some (response, w) →
      ∀ addr, s.futures addr ≠ none → w.asyncs addr = s.edge.world.asyncs addr)
    (hStep : s.within act = some s') : s'.Awake := by
  obtain ⟨edge, hEdge, rfl⟩ := within_eq_some hStep
  refine h.within hEdge hAssumed (.inl (by simp [hPolling])) fun addr hFuture => ?_
  obtain ⟨w, hWorld, rfl⟩ := Option.map_eq_some_iff.mp (hCall.symm.trans hEdge)
  obtain ⟨⟨response, _⟩, hPerform, rfl⟩ := Option.map_eq_some_iff.mp hWorld
  exact hAsyncs response _ hPerform addr hFuture

theorem new (h : s.Awake) (hPolling : s.progress = .polling) (hIdle : s.edge.phase = .idle)
    {addr : Addr} {fcntl : Fcntl} {value : T}
    (hAssumed : s.edge.Assumed (R := R) (.new addr fcntl value))
    (hNew : s.within (R := R) (.new addr fcntl value) = some s') : s'.Awake := by
  have hCall : s.edge.step (R := R) (.new addr fcntl value) =
      s.edge.call (R := R) (.new addr fcntl value) := by
    simp only [Edge.step, hIdle]
  refine h.call hPolling hCall hAssumed (fun response w hPerform addr' hFuture => ?_) hNew
  obtain ⟨hFree, ⟨p, -, -, rfl⟩ | ⟨this, -, -, rfl⟩⟩ := World.perform_new hPerform
  · rfl
  · obtain ⟨⟨t, interest⟩, hFuture⟩ := Option.ne_none_iff_exists'.mp hFuture
    obtain ⟨that, hThat, -⟩ := h.attended addr' t interest hFuture
    have hAddr : addr' ≠ addr := by
      rintro rfl
      cases hFree.symm.trans hThat
    exact Function.update_of_ne hAddr ..

theorem take (h : s.Awake) (hPolling : s.progress = .polling) (hIdle : s.edge.phase = .idle)
    {addr : Addr} (hFree : s.futures addr = none)
    (hTake : s.within (R := R) (.take addr) = some s') : s'.Awake := by
  have hCall : s.edge.step (R := R) (.take addr) = s.edge.call (R := R) (.take addr) := by
    simp only [Edge.step, hIdle]
  refine h.call hPolling hCall trivial (fun response w hPerform addr' hFuture => ?_) hTake
  obtain ⟨this, -, hRun⟩ := Option.bind_eq_some_iff.mp hPerform
  cases hRun
  have hAddr : addr' ≠ addr := by
    rintro rfl
    exact hFuture hFree
  exact Function.update_of_ne hAddr ..

theorem drop (h : s.Awake) (hPolling : s.progress = .polling) (hIdle : s.edge.phase = .idle)
    {addr : Addr} (hFree : s.futures addr = none)
    (hDrop : s.within (R := R) (.drop addr) = some s') : s'.Awake := by
  have hCall : s.edge.step (R := R) (.drop addr) = s.edge.call (R := R) (.drop addr) := by
    simp only [Edge.step, hIdle]
  refine h.call hPolling hCall trivial (fun response w hPerform addr' hFuture => ?_) hDrop
  obtain ⟨this, -, hRun⟩ := Option.bind_eq_some_iff.mp hPerform
  cases hRun
  have hAddr : addr' ≠ addr := by
    rintro rfl
    exact hFuture hFree
  exact Function.update_of_ne hAddr ..

theorem register (h : s.Awake) (hPolling : s.progress = .polling) {addr : Addr} {fd : RawFd}
    {interest : Interest} (hPhase : s.edge.phase = .registering addr fd interest)
    (hRegister : s.within (Edge.Act.register (R := R)) = some s') : s'.Awake := by
  obtain ⟨edge, hStep, rfl⟩ := within_eq_some hRegister
  have hAssumed : s.edge.Assumed (Edge.Act.register (R := R)) := trivial
  have hSafe := h.safe.step hAssumed hStep
  simp only [Edge.step, hPhase] at hStep
  obtain ⟨this, registerFor, hThis, hAsyncs⟩ := Edge.register_asyncs hStep
  apply h.update hSafe hAsyncs
  · rfl
  · exact fun t => .refl t s.pool
  · exact fun _ _ => rfl
  · intro t interest' hFuture
    obtain ⟨that, hThat, hAttended⟩ := h.attended addr t interest' hFuture
    obtain rfl := Option.some.inj (hThis.symm.trans hThat)
    exact ⟨hAttended.held, hAttended.waker, hAttended.task, hAttended.heard⟩
  · exact fun hDispatching => by cases hPolling.symm.trans hDispatching

theorem cancel (h : s.Awake) (hPolling : s.progress = .polling) (addr : Addr) :
    Awake { s with futures := Function.update s.futures addr none } := by
  refine h.tasks (by simp [hPolling]) rfl fun addr' t interest hFuture => ?_
  obtain rfl | hAddr := eq_or_ne addr' addr
  · simp at hFuture
  · exact ⟨(Function.update_of_ne hAddr ..).symm.trans hFuture, fun _ _ => id⟩

theorem keeps (h : s.Awake) (hPolling : s.progress = .polling) {pool : π}
    (hKeeps : ∀ t, LocalPool.Keeps t s.pool pool) : Awake { s with pool } :=
  h.tasks (by simp [hPolling]) rfl fun _ t _ hFuture =>
    ⟨hFuture, fun _ _ hAttended => hAttended.keeps (hKeeps t)⟩

theorem wait (h : s.Awake) (hIdle : s.edge.phase = .idle) {answer : Except Errno (List RawFd)}
    (hWait : s.wait (R := R) answer = some s') : s'.Awake := by
  cases answer with
  | error errno =>
    cases hWait
    exact ⟨h.safe, h.attended, by rintro ⟨⟩⟩
  | ok fds =>
    simp only [Executor.wait] at hWait
    split at hWait
    · cases hWait
    · obtain ⟨edge, hStep, rfl⟩ := within_eq_some hWait
      refine h.within hStep trivial (.inr (.inr hIdle)) fun addr _ => ?_
      simp only [Edge.step, hIdle, Edge.wait] at hStep
      split at hStep
      · cases hStep
        rfl
      · cases hStep

theorem become (h : s.Awake) {fd : RawFd} {readable writable : Bool}
    (hBecome : s.within (R := R) (.become fd readable writable) = some s') : s'.Awake := by
  obtain ⟨edge, hStep, rfl⟩ := within_eq_some hBecome
  have hPhase : edge.phase = s.edge.phase ∧ edge.world.asyncs = s.edge.world.asyncs := by
    unfold Edge.step at hStep
    cases hStep
    exact ⟨rfl, rfl⟩
  refine h.within hStep trivial (.inr ?_) fun addr _ => congrFun hPhase.2 addr
  rw [hPhase.1]
  exact (em _).symm

variable [LawfulLocalPool π]

/-- After a poll of the task that is being polled, its future is attended if it
stays pending. -/
theorem attended_poll {pool : π} {t : TaskId}
    (hCurrent : LocalPool.current pool = some t)
    {interest : Interest} {this : Async T TaskId} {f : Closure T R}
    (hOwn : interest.asEvents &&& this.waiter.waitingFor ≠ 0#32 → this.waiter.waker = .task t)
    {t' : TaskId} {interest' : Interest}
    (hFuture : futureAfter (this.pollAttempt (.task t) interest f).1 t interest =
      some (t', interest')) :
    Attended pool t' interest' (this.pollAttempt (.task t) interest f).2 := by
  cases hInner : this.inner with
  | none =>
    rw [Async.pollAttempt_taken hInner] at hFuture
    cases hFuture
  | some inner =>
    obtain ⟨hSkip, hAttempt⟩ | ⟨-, -, hAttempt⟩ | ⟨-, -, hAttempt⟩ :=
      Async.pollAttempt_cases hInner (.task t) interest f
    · rw [hAttempt] at hFuture ⊢
      cases hFuture
      exact ⟨by simp [hInner], hOwn hSkip, LawfulLocalPool.polled hCurrent,
        .inl (.inr hCurrent)⟩
    · rw [hAttempt] at hFuture ⊢
      cases hFuture
      exact ⟨rfl, rfl, LawfulLocalPool.polled hCurrent, .inl (.inr hCurrent)⟩
    · rw [hAttempt] at hFuture
      cases hFuture

theorem poll (h : s.Awake) (hPolling : s.progress = .polling) (hIdle : s.edge.phase = .idle)
    {t : TaskId} (hCurrent : LocalPool.current s.pool = some t) {addr : Addr} {interest : Interest}
    {f : Closure T R} (hAssumed : s.Assumed (.poll addr interest f))
    (hPoll : s.poll t addr interest f = some s') : s'.Awake := by
  obtain ⟨hBelow, hOwn⟩ := hAssumed t hCurrent
  obtain ⟨this, hThis, hRun⟩ := Option.bind_eq_some_iff.mp hPoll
  split at hRun
  · obtain ⟨edge, hStep, hSame⟩ := Option.bind_eq_some_iff.mp hRun
    cases hSame
    have hSafe := h.safe.step hBelow hStep
    simp only [Edge.step, hIdle] at hStep
    apply h.update hSafe (Edge.poll_asyncs hThis hStep)
    · rfl
    · exact fun t => .refl t s.pool
    · exact fun addr' hAddr => Function.update_of_ne hAddr ..
    · intro t' interest' hFuture
      have hFuture := (Function.update_self ..).symm.trans hFuture
      exact attended_poll hCurrent (hOwn this hThis) hFuture
    · exact fun hDispatching => by cases hPolling.symm.trans hDispatching
  · cases hRun

theorem pending (h : s.Awake) (hPolling : s.progress = .polling) {t : TaskId}
    (hCurrent : LocalPool.current s.pool = some t) (hAssumed : s.Assumed (.pending : Act T O R)) :
    Awake { s with pool := LocalPool.pending s.pool } := by
  refine h.tasks (by simp [hPolling]) rfl fun addr t' interest hFuture =>
    ⟨hFuture, fun this hThis hAttended => ?_⟩
  obtain rfl | hOther := eq_or_ne t' t
  · exact ⟨hAttended.held, hAttended.waker, LawfulLocalPool.mem_tasks_pending.mpr hAttended.task,
      .inr (hAssumed t' addr interest this hCurrent hFuture hThis)⟩
  · exact hAttended.keeps (LocalPool.keeps_pending hCurrent hOther)

theorem finish (h : s.Awake) {t : TaskId} (hCurrent : LocalPool.current s.pool = some t)
    {channel : χ} {progress : Progress O} (hPolling : progress ≠ .dispatching) :
    Awake
      { s with
        pool := LocalPool.finish s.pool t
        futures := s.release t
        channel
        progress } := by
  refine h.tasks hPolling rfl fun addr t' interest hFuture => ?_
  obtain ⟨hBefore, hOther⟩ := Option.filter_eq_some_iff.mp hFuture
  exact ⟨hBefore, fun _ _ hAttended =>
    hAttended.keeps (LocalPool.keeps_finish hCurrent (by simpa using hOther))⟩

theorem next (h : s.Awake) (hPolling : s.progress = .polling)
    (hCurrent : LocalPool.current s.pool = none) {t : TaskId} {pool : π}
    (hNext : LocalPool.next s.pool t = some pool) : Awake { s with pool } :=
  h.keeps hPolling fun t' => LocalPool.keeps_next hNext hCurrent t'

theorem deliver (h : s.Awake) {event : EpollEvent} {events : List EpollEvent}
    (hPhase : s.edge.phase = .dispatching (event :: events))
    (hCurrent : LocalPool.current s.pool = none)
    (hDeliver : s.deliver (R := R) event = some s') : s'.Awake := by
  obtain ⟨this, hThis, hRun⟩ := Option.bind_eq_some_iff.mp hDeliver
  obtain ⟨edge, hStep, hSame⟩ := Option.bind_eq_some_iff.mp hRun
  cases hSame
  have hAssumed : s.edge.Assumed (Edge.Act.deliver (R := R)) := trivial
  have hSafe := h.safe.step hAssumed hStep
  simp only [Edge.step, hPhase, Edge.deliver, hThis] at hStep
  cases hStep
  apply h.update hSafe
  · rfl
  · rfl
  · exact fun t => LocalPool.keeps_wakeByRef t this.waiter.waker s.pool
  · exact fun _ _ => rfl
  · intro t interest hFuture
    obtain ⟨that, hThat, hAttended⟩ := h.attended event.data t interest hFuture
    obtain rfl := Option.some.inj (hThis.symm.trans hThat)
    have hKeeps := LocalPool.keeps_wakeByRef t this.waiter.waker s.pool
    exact ⟨hAttended.held, hAttended.waker, hKeeps.1 hAttended.task,
      .inl (.inl (LocalPool.mem_wakeByRef hAttended.waker hAttended.task))⟩
  · exact fun _ => ⟨(LocalPool.wakeByRef_current ..).trans hCurrent, by rintro ⟨⟩⟩

variable [Oneshot χ O]

theorem stalled (h : s.Awake) (hCurrent : LocalPool.current s.pool = none)
    (hStalled : s.stalled = some s') : s'.Awake := by
  obtain ⟨hStalls, hTried⟩ := Option.ite_none_right_eq_some.mp hStalled
  have hAsleep : LocalPool.current s.pool = none ∧
      (s.edge.phase = .idle → LocalPool.woken s.pool = []) :=
    ⟨hCurrent, fun _ => LawfulLocalPool.woken_of_stalls hStalls⟩
  split at hTried
  all_goals
    cases hTried
    exact ⟨h.safe, h.attended, fun _ => hAsleep⟩

theorem perform (h : s.Awake) (hPolling : s.progress = .polling) (hIdle : s.edge.phase = .idle)
    {t : TaskId} (hCurrent : LocalPool.current s.pool = some t) {act : Act T O R}
    (hAssumed : s.Assumed act) (hCall : s.call t act = some s') : s'.Awake := by
  cases act with
  | new addr fcntl value => exact h.new hPolling hIdle hAssumed hCall
  | take addr =>
    obtain ⟨hFree, hTake⟩ := Option.ite_none_right_eq_some.mp hCall
    exact h.take hPolling hIdle hFree hTake
  | drop addr =>
    obtain ⟨hFree, hDrop⟩ := Option.ite_none_right_eq_some.mp hCall
    exact h.drop hPolling hIdle hFree hDrop
  | poll addr interest f => exact h.poll hPolling hIdle hCurrent hAssumed hCall
  | cancel addr =>
    obtain ⟨-, hCancel⟩ := Option.ite_none_right_eq_some.mp hCall
    cases hCancel
    exact h.cancel hPolling addr
  | spawn t' =>
    obtain ⟨-, hSpawn⟩ := Option.ite_none_left_eq_some.mp hCall
    cases hSpawn
    exact h.keeps hPolling fun t => LocalPool.keeps_spawnLocal t t' s.pool
  | wake t' =>
    cases hCall
    exact h.keeps hPolling fun t => LocalPool.keeps_wake t t' s.pool
  | pending =>
    cases hCall
    exact h.pending hPolling hCurrent hAssumed
  | finish =>
    obtain ⟨-, hFinish⟩ := Option.ite_none_left_eq_some.mp hCall
    cases hFinish
    exact h.finish hCurrent (by simp [hPolling])
  | output output =>
    obtain ⟨-, hOutput⟩ := Option.ite_none_right_eq_some.mp hCall
    split at hOutput
    · cases hOutput
      exact h.tasks (by simp) rfl fun _ _ _ hFuture => ⟨hFuture, fun _ _ => id⟩
    · cases hOutput
      exact h.finish hCurrent (by simp [hPolling])
  | unwind =>
    cases hCall
    exact h.tasks (by simp) rfl fun _ _ _ hFuture => ⟨hFuture, fun _ _ => id⟩
  | register => cases hCall
  | next t' => cases hCall
  | stalled => cases hCall
  | wait answer => cases hCall
  | deliver => cases hCall
  | become fd readable writable => cases hCall

theorem step (h : s.Awake) {act : Act T O R} (hAssumed : s.Assumed act)
    (hStep : s.step act = some s') : s'.Awake := by
  unfold Executor.step at hStep
  split at hStep
  case h_1 => exact h.become hStep
  case h_2 hPolling hPhase _ => exact h.register hPolling hPhase hStep
  case h_3 hPolling hIdle hCurrent _ => exact h.perform hPolling hIdle hCurrent hAssumed hStep
  case h_4 hPolling hIdle hCurrent =>
    obtain ⟨pool, hNext, rfl⟩ := Option.map_eq_some_iff.mp hStep
    exact h.next hPolling hCurrent hNext
  case h_5 hPolling hIdle hCurrent => exact h.stalled hCurrent hStep
  case h_6 hDispatching hIdle hCurrent => exact h.wait hIdle hStep
  case h_7 hDispatching hPhase hCurrent => exact h.deliver hPhase hCurrent hStep
  case h_8 hDispatching hPhase hCurrent =>
    cases hStep
    exact ⟨h.safe.finish hPhase, h.attended, by rintro ⟨⟩⟩
  case h_9 => cases hStep

end Awake

variable [Oneshot χ O]

theorem awake_init (ready : RawFd → Events) : (init ready : Executor T O π χ).Awake where
  safe := Edge.safe_init ready
  attended := by rintro addr t interest ⟨⟩
  asleep := by rintro ⟨⟩

variable [LawfulLocalPool π]

theorem awake_of_run {ready : RawFd → Events} {acts : List (Act T O R)}
    (hAssumed : Meets step Assumed (init ready : Executor T O π χ) acts)
    (hRun : run step (init ready) acts = some s) : s.Awake :=
  invariant_of_meets (I := Awake) (fun _ _ _ h hOk hStep => h.step hOk hStep) (awake_init ready)
    hAssumed hRun

end Executor

end Ground
