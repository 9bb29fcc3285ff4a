import Ground.Executor.Awake

/-! # What `run` returns

The channel is complete exactly from the end of the main future on. The loop does
not go back to sleep then: the next time that the pool stalls, `run` returns the
output, and the `unwrap()` on the receiver never fails: the main future keeps the
sender until it sends.
-/

namespace Ground

open Transition

variable {T O R π χ : Type} [AsRawFd T] [LocalPool π]

namespace Executor

variable {s s' : Executor T O π χ}

namespace Act

def Outputs : Act T O R → Prop
  | .output _ => True
  | _ => False

def Dispatches : Act T O R → Prop
  | .wait _ | .deliver => True
  | _ => False

/-- The pool has no woken task left. -/
def Stalls : Act T O R → Prop
  | .stalled => True
  | _ => False

end Act

/-- The step changes neither the progress of `run` nor the channel, and brings no
main task back. -/
def Steps (s s' : Executor T O π χ) : Prop :=
  s'.progress = s.progress ∧ s'.channel = s.channel ∧
    (main ∈ LocalPool.tasks s'.pool → main ∈ LocalPool.tasks s.pool)

theorem within_steps {act : Edge.Act T TaskId R} (h : s.within act = some s') : s.Steps s' := by
  obtain ⟨edge, -, rfl⟩ := within_eq_some h
  exact ⟨rfl, rfl, id⟩

variable [LawfulLocalPool π] [Oneshot χ O]

/-- The output is sent, or the send fails and its task panics. -/
def Sends (s s' : Executor T O π χ) (output : O) : Prop :=
  (Oneshot.send s.channel output = none ∧ s' = { s with progress := .panicked .task }) ∨
    (s'.progress = s.progress ∧ Oneshot.send s.channel output = some s'.channel ∧
      main ∉ LocalPool.tasks s'.pool)

theorem call_cases {t : TaskId} {act : Act T O R} (h : s.call t act = some s') :
    (act = .unwind ∧ s' = { s with progress := .panicked .task }) ∨
    (∃ output, act = .output output ∧ t = main ∧ s.Sends s' output) ∨
    (¬ act.Outputs ∧ ¬ act.Dispatches ∧ ¬ act.Stalls ∧ s.Steps s') := by
  cases act with
  | unwind => exact .inl ⟨rfl, (Option.some.inj h).symm⟩
  | output output =>
    obtain ⟨rfl, hOutput⟩ := Option.ite_none_right_eq_some.mp h
    refine .inr (.inl ⟨output, rfl, rfl, ?_⟩)
    split at hOutput
    · rename_i hFailed
      cases hOutput
      exact .inl ⟨hFailed, rfl⟩
    · rename_i channel hSent
      cases hOutput
      exact .inr ⟨rfl, hSent, fun hMem => (LawfulLocalPool.mem_tasks_finish.mp hMem).2 rfl⟩
  | new addr fcntl value => exact .inr (.inr ⟨id, id, id, within_steps h⟩)
  | take addr =>
    obtain ⟨-, hTake⟩ := Option.ite_none_right_eq_some.mp h
    exact .inr (.inr ⟨id, id, id, within_steps hTake⟩)
  | drop addr =>
    obtain ⟨-, hDrop⟩ := Option.ite_none_right_eq_some.mp h
    exact .inr (.inr ⟨id, id, id, within_steps hDrop⟩)
  | poll addr interest f =>
    obtain ⟨this, -, hRun⟩ := Option.bind_eq_some_iff.mp h
    obtain ⟨-, hRun⟩ := Option.ite_none_right_eq_some.mp hRun
    obtain ⟨edge, -, hSame⟩ := Option.bind_eq_some_iff.mp hRun
    cases hSame
    exact .inr (.inr ⟨id, id, id, rfl, rfl, id⟩)
  | cancel addr =>
    obtain ⟨-, hCancel⟩ := Option.ite_none_right_eq_some.mp h
    cases hCancel
    exact .inr (.inr ⟨id, id, id, rfl, rfl, id⟩)
  | spawn t' =>
    obtain ⟨hFresh, hSpawn⟩ := Option.ite_none_left_eq_some.mp h
    cases hSpawn
    refine .inr (.inr ⟨id, id, id, rfl, rfl, fun hMem => ?_⟩)
    obtain hSame | hMem := LawfulLocalPool.mem_tasks_spawnLocal.mp hMem
    · exact absurd (.inl hSame.symm) hFresh
    · exact hMem
  | wake t' =>
    cases h
    exact .inr (.inr ⟨id, id, id, rfl, rfl, LawfulLocalPool.mem_tasks_wake.mp⟩)
  | pending =>
    cases h
    exact .inr (.inr ⟨id, id, id, rfl, rfl, LawfulLocalPool.mem_tasks_pending.mp⟩)
  | finish =>
    obtain ⟨-, hFinish⟩ := Option.ite_none_left_eq_some.mp h
    cases hFinish
    exact .inr (.inr ⟨id, id, id, rfl, rfl,
      fun hMem => (LawfulLocalPool.mem_tasks_finish.mp hMem).1⟩)
  | register => cases h
  | next t' => cases h
  | stalled => cases h
  | wait answer => cases h
  | deliver => cases h
  | become fd readable writable => cases h

theorem step_cases {act : Act T O R} (h : s.step act = some s') :
    (act = .unwind ∧ s.progress = .polling ∧ s' = { s with progress := .panicked .task }) ∨
    (∃ output, act = .output output ∧ s.progress = .polling ∧
      main ∈ LocalPool.tasks s.pool ∧ s.Sends s' output) ∨
    (act = .stalled ∧ s.progress = .polling ∧ s.stalled = some s') ∨
    (act.Dispatches ∧ ¬ act.Outputs ∧ s.progress = .dispatching ∧ s'.channel = s.channel ∧
      (s'.progress = .polling ∨ s'.progress = .dispatching ∨
        ∃ errno, s'.progress = .panicked (.dispatch errno))) ∨
    (¬ act.Outputs ∧ ¬ act.Dispatches ∧ ¬ act.Stalls ∧ s.Steps s') := by
  unfold step at h
  split at h
  case h_1 => exact .inr (.inr (.inr (.inr ⟨id, id, id, within_steps h⟩)))
  case h_2 => exact .inr (.inr (.inr (.inr ⟨id, id, id, within_steps h⟩)))
  case h_3 hPolling hIdle hCurrent _ =>
    obtain ⟨rfl, rfl⟩ | ⟨output, rfl, rfl, hSends⟩ | hQuiet := call_cases h
    · exact .inl ⟨rfl, hPolling, rfl⟩
    · exact .inr (.inl ⟨output, rfl, hPolling, LawfulLocalPool.polled hCurrent, hSends⟩)
    · exact .inr (.inr (.inr (.inr hQuiet)))
  case h_4 =>
    obtain ⟨pool, hNext, rfl⟩ := Option.map_eq_some_iff.mp h
    exact .inr (.inr (.inr (.inr ⟨id, id, id, rfl, rfl,
      (LawfulLocalPool.mem_tasks_next hNext).mp⟩)))
  case h_5 hPolling _ _ => exact .inr (.inr (.inl ⟨rfl, hPolling, h⟩))
  case h_6 answer hDispatching _ _ =>
    refine .inr (.inr (.inr (.inl ⟨trivial, id, hDispatching, ?_⟩)))
    cases answer with
    | error errno =>
      cases h
      exact ⟨rfl, .inr (.inr ⟨errno, rfl⟩)⟩
    | ok fds =>
      obtain ⟨-, hWait⟩ := Option.ite_none_left_eq_some.mp h
      obtain ⟨hProgress, hChannel, -⟩ := within_steps hWait
      exact ⟨hChannel, .inr (.inl (hProgress.trans hDispatching))⟩
  case h_7 hDispatching _ _ =>
    refine .inr (.inr (.inr (.inl ⟨trivial, id, hDispatching, ?_⟩)))
    obtain ⟨this, -, hRun⟩ := Option.bind_eq_some_iff.mp h
    obtain ⟨edge, -, hSame⟩ := Option.bind_eq_some_iff.mp hRun
    cases hSame
    exact ⟨rfl, .inr (.inl hDispatching)⟩
  case h_8 hDispatching _ _ =>
    cases h
    exact .inr (.inr (.inr (.inl ⟨trivial, id, hDispatching, rfl, .inl rfl⟩)))
  case h_9 => cases h

structure Undone (s : Executor T O π χ) : Prop where
  unsent : Oneshot.unsent s.channel
  progress : s.progress = .polling ∨ s.progress = .dispatching ∨ s.progress = .panicked .task ∨
    ∃ errno, s.progress = .panicked (.dispatch errno)

def Done (s : Executor T O π χ) (output : O) : Prop :=
  (s.progress = .polling ∧ (Oneshot.tryRecv s.channel).1 = .ok (some output) ∧
    main ∉ LocalPool.tasks s.pool) ∨
    s.progress = .returned output ∨ s.progress = .panicked .task

variable [LawfulOneshot χ O]

omit [AsRawFd T] [LawfulLocalPool π] in
theorem Undone.stalled (h : s.Undone) (hStalled : s.stalled = some s') : s'.Undone := by
  obtain ⟨hNone, hUnsent⟩ := LawfulOneshot.tryRecv_unsent h.unsent
  obtain ⟨-, hFound⟩ := Option.ite_none_right_eq_some.mp hStalled
  split at hFound
  all_goals
    rename_i channel hRecv
    rw [hRecv] at hNone hUnsent
    cases hNone
  cases hFound
  exact ⟨hUnsent, .inr (.inl rfl)⟩

omit [AsRawFd T] [LawfulLocalPool π] in
theorem Undone.sends (h : s.Undone) {output : O} (hPolling : s.progress = .polling)
    (hSends : s.Sends s' output) : s'.Done output := by
  obtain ⟨channel, hSent, hRecv⟩ := LawfulOneshot.send_unsent h.unsent output
  obtain ⟨hFailed, -⟩ | ⟨hProgress, hChannel, hGone⟩ := hSends
  · cases hSent.symm.trans hFailed
  · obtain rfl := Option.some.inj (hSent.symm.trans hChannel)
    exact .inl ⟨hProgress.trans hPolling, hRecv, hGone⟩

theorem Undone.step (h : s.Undone) {act : Act T O R} (hStep : s.step act = some s') :
    (∃ output, act = .output output ∧ s'.Done output) ∨ (¬ act.Outputs ∧ s'.Undone) := by
  obtain ⟨rfl, -, rfl⟩ | ⟨output, rfl, hPolling, -, hSends⟩ | ⟨rfl, -, hStalled⟩ |
    ⟨-, hQuiet, -, hChannel, hProgress⟩ | ⟨hQuiet, -, -, hProgress, hChannel, -⟩ := step_cases hStep
  · exact .inr ⟨id, h.unsent, .inr (.inr (.inl rfl))⟩
  · exact .inl ⟨output, rfl, h.sends hPolling hSends⟩
  · exact .inr ⟨id, h.stalled hStalled⟩
  · refine .inr ⟨hQuiet, hChannel ▸ h.unsent, ?_⟩
    obtain hPolling | hDispatching | hFailed := hProgress
    · exact .inl hPolling
    · exact .inr (.inl hDispatching)
    · exact .inr (.inr (.inr hFailed))
  · exact .inr ⟨hQuiet, hChannel ▸ h.unsent, hProgress ▸ h.progress⟩

omit [LawfulOneshot χ O] in
theorem Done.step {output : O} (h : s.Done output) {act : Act T O R}
    (hStep : s.step act = some s') :
    ¬ act.Outputs ∧ ¬ act.Dispatches ∧ s'.Done output ∧
      (act.Stalls → s'.progress = .returned output) := by
  obtain ⟨rfl, -, rfl⟩ | ⟨output', rfl, hPolling, hMain, -⟩ | ⟨rfl, hPolling, hStalled⟩ |
    ⟨-, -, hDispatching, -⟩ | ⟨hOutputs, hDispatches, hStalls, hProgress, hChannel, hTasks⟩ :=
      step_cases hStep
  · exact ⟨id, id, .inr (.inr rfl), False.elim⟩
  · obtain ⟨-, -, hGone⟩ | hReturned | hPanicked := h
    · exact absurd hMain hGone
    · cases hPolling.symm.trans hReturned
    · cases hPolling.symm.trans hPanicked
  · obtain ⟨-, hChannel, -⟩ | hReturned | hPanicked := h
    · obtain ⟨-, hFound⟩ := Option.ite_none_right_eq_some.mp hStalled
      split at hFound
      all_goals
        rename_i hRecv
        rw [hRecv] at hChannel
        cases hChannel
      cases hFound
      exact ⟨id, id, .inr (.inl rfl), fun _ => rfl⟩
    · cases hPolling.symm.trans hReturned
    · cases hPolling.symm.trans hPanicked
  · obtain ⟨hPolling, -⟩ | hReturned | hPanicked := h
    · cases hPolling.symm.trans hDispatching
    · cases hReturned.symm.trans hDispatching
    · cases hPanicked.symm.trans hDispatching
  · refine ⟨hOutputs, hDispatches, ?_, fun h => absurd h hStalls⟩
    obtain ⟨hPolling, hSent, hGone⟩ | hReturned | hPanicked := h
    · exact .inl ⟨hProgress.trans hPolling, hChannel ▸ hSent, mt hTasks hGone⟩
    · exact .inr (.inl (hProgress.trans hReturned))
    · exact .inr (.inr (hProgress.trans hPanicked))

omit [LawfulOneshot χ O] in
theorem returned_step {output : O} (h : s.progress = .returned output) {act : Act T O R}
    (hStep : s.step act = some s') : s'.progress = .returned output := by
  obtain ⟨-, hPolling, -⟩ | ⟨-, -, hPolling, -⟩ | ⟨-, hPolling, -⟩ | ⟨-, -, hDispatching, -⟩ |
    ⟨-, -, -, hProgress, -⟩ := step_cases hStep
  · cases h.symm.trans hPolling
  · cases h.symm.trans hPolling
  · cases h.symm.trans hPolling
  · cases h.symm.trans hDispatching
  · exact hProgress.trans h

omit [LawfulOneshot χ O] in
theorem run_done {output : O} (h : s.Done output) {acts : List (Act T O R)}
    (hRun : run step s acts = some s') :
    (∀ act ∈ acts, ¬ act.Outputs ∧ ¬ act.Dispatches) ∧ s'.Done output ∧
      ((∃ act ∈ acts, act.Stalls) → s'.progress = .returned output) := by
  induction acts generalizing s with
  | nil =>
    cases hRun
    exact ⟨by simp, h, by simp⟩
  | cons act acts ih =>
    obtain ⟨s₁, hStep, hRest⟩ := run_cons_eq_some.mp hRun
    obtain ⟨hOutputs, hDispatches, hDone, hStall⟩ := h.step hStep
    obtain ⟨hAll, hEnd, hLater⟩ := ih hDone hRest
    refine ⟨List.forall_mem_cons.mpr ⟨⟨hOutputs, hDispatches⟩, hAll⟩, hEnd, ?_⟩
    rintro ⟨act', hMem, hStalls⟩
    obtain rfl | hMem := List.mem_cons.mp hMem
    · exact invariant_of_run (I := fun s => s.progress = .returned output)
        (fun _ _ _ h hStep => returned_step h hStep) (hStall hStalls) hRest
    · exact hLater ⟨act', hMem, hStalls⟩

/-- Until the main future ends, `run` polls, dispatches, or ends by a panic of a
task or of a failed `epoll_wait`. It ends once, and from then on there is no
dispatch, and the next stall returns its output. -/
theorem returns_output {ready : RawFd → Events} {acts : List (Act T O R)}
    (hRun : run step (init ready) acts = some s) :
    ((∀ act ∈ acts, ¬ act.Outputs) ∧ s.Undone) ∨
    ∃ before output after, acts = before ++ .output output :: after ∧
      (∀ act ∈ before, ¬ act.Outputs) ∧ (∀ act ∈ after, ¬ act.Outputs ∧ ¬ act.Dispatches) ∧
      s.Done output ∧ ((∃ act ∈ after, act.Stalls) → s.progress = .returned output) := by
  have hInit : (init ready : Executor T O π χ).Undone :=
    ⟨LawfulOneshot.unsent_channel, .inl rfl⟩
  generalize (init ready : Executor T O π χ) = s₀ at hRun hInit
  induction acts generalizing s₀ with
  | nil =>
    cases hRun
    exact .inl ⟨by simp, hInit⟩
  | cons act acts ih =>
    obtain ⟨s₁, hStep, hRest⟩ := run_cons_eq_some.mp hRun
    obtain ⟨output, rfl, hDone⟩ | ⟨hQuiet, hUndone⟩ := hInit.step hStep
    · obtain ⟨hAfter, hEnd, hStall⟩ := run_done hDone hRest
      exact .inr ⟨[], output, acts, rfl, by simp, hAfter, hEnd, hStall⟩
    · obtain ⟨hNone, hEnd⟩ | ⟨before, output, after, rfl, hBefore, hAfter⟩ := ih s₁ hRest hUndone
      · exact .inl ⟨List.forall_mem_cons.mpr ⟨hQuiet, hNone⟩, hEnd⟩
      · exact .inr ⟨act :: before, output, after, rfl,
          List.forall_mem_cons.mpr ⟨hQuiet, hBefore⟩, hAfter⟩

theorem returns_output_at_once :
    let acts : List (Act RawFd Nat Nat) := [.next 0, .output 7, .stalled]
    ∃ s : Executor RawFd Nat TaskQueue (Option Nat), run step (init fun _ => 0#32) acts = some s ∧
      s.progress = .returned 7 ∧ ∃ output, s.Done output := by
  intro acts
  let s : Executor RawFd Nat TaskQueue (Option Nat) := (run step (init fun _ => 0#32) acts).get rfl
  have hRun : run step (init fun _ => 0#32) acts = some s := (Option.some_get _).symm
  refine ⟨s, hRun, rfl, ?_⟩
  obtain ⟨hNone, -⟩ | ⟨before, output, after, -, -, -, hDone, -⟩ := returns_output hRun
  · exact absurd trivial (hNone (.output 7) (by simp [acts]))
  · exact ⟨output, hDone⟩

end Executor

end Ground
