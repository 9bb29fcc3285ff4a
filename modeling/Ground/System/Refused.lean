import Ground.Io.Refusal
import Ground.System.Trials

/-! # Registrations that the kernel refuses

A refusal leaves the interest list as it was, so the waiter is then registered
for less than it says, and its drop goes by what it says.
-/

namespace Ground

open Mask Transition

variable {T τ κ R : Type} [AsRawFd T]

namespace World

variable [InterestKernel κ] {w w' : World T τ κ}

omit [AsRawFd T] [InterestKernel κ] in
theorem dispatch_idle [Epoll κ] {r r' : Reactor κ} (hIdle : r.isDispatching = false)
    {epollWait : Nat → Except Errno (List EpollEvent)} {waiters waiters' : Waiters τ}
    {woken : List τ} {outcome : Outcome Panic (Except Errno Unit)}
    (h : r.dispatch epollWait waiters = some (outcome, r', waiters', woken)) :
    r'.isDispatching = false ∧ outcome ≠ .panic .register := by
  simp only [Reactor.dispatch, hIdle, Bool.false_eq_true, if_false] at h
  split at h
  · cases h
    exact ⟨hIdle, by simp⟩
  · obtain ⟨delivered, -, hRun⟩ := Option.bind_eq_some_iff.mp h
    cases hRun
    exact ⟨rfl, by simp⟩

omit [AsRawFd T] [InterestKernel κ] in
theorem quiet_eq_panic_iff {α : Type} {outcome : Outcome Panic α} {p : Panic} :
    (quiet outcome : Response τ) = .panic p ↔ outcome = .panic p := by
  cases outcome <;> simp [quiet]

/-- A call either leaves the reactor idle and does not panic on a registration, or
it is a poll or close that was refused. -/
theorem perform_refused (hIdle : w.reactor.isDispatching = false) {act : Act T τ R}
    {response : Response τ} (hPerform : w.perform act = some (response, w')) :
    w'.reactor.isDispatching = false ∧ (response = .panic .register →
      ∃ addr interest this this', act.registers = some (addr, interest) ∧
        w.asyncs addr = some this ∧ w'.asyncs addr = some this' ∧
        this.Refusal interest this' w.reactor.list w'.reactor.list) := by
  cases act with
  | new addr fcntl value =>
    obtain ⟨-, ⟨p, hNew, rfl, rfl⟩ | ⟨this, hNew, rfl, rfl⟩⟩ := perform_new hPerform
    · refine ⟨hIdle, ?_⟩
      rw [Async.new_eq_panic hNew]
      simp
    · exact ⟨hIdle, by simp⟩
  | poll addr waker interest f =>
    obtain ⟨this, hThis, hRun⟩ := Option.bind_eq_some_iff.mp hPerform
    cases hRun
    refine ⟨(this.pollNonblocking_isDispatching ..).trans hIdle, fun hPanic => ?_⟩
    exact ⟨addr, interest, this, _, rfl, hThis, Function.update_self ..,
      Async.pollNonblocking_refused (quiet_eq_panic_iff.mp hPanic)⟩
  | close addr waker flush =>
    obtain ⟨this, hThis, hRun⟩ := Option.bind_eq_some_iff.mp hPerform
    cases hRun
    refine ⟨(this.pollClose_isDispatching ..).trans hIdle, fun hPanic => ?_⟩
    exact ⟨addr, .write, this, _, rfl, hThis, Function.update_self ..,
      Async.pollClose_refused (quiet_eq_panic_iff.mp hPanic)⟩
  | take addr =>
    obtain ⟨this, hThis, hRun⟩ := Option.bind_eq_some_iff.mp hPerform
    cases hRun
    refine ⟨(this.takeInner_isDispatching _).trans hIdle, fun hPanic => ?_⟩
    exact absurd (quiet_eq_panic_iff.mp hPanic) (this.takeInner_ne_register _)
  | drop addr =>
    obtain ⟨this, hThis, hRun⟩ := Option.bind_eq_some_iff.mp hPerform
    cases hRun
    refine ⟨(this.deregister_isDispatching _).trans hIdle, fun hPanic => ?_⟩
    exact absurd (quiet_eq_panic_iff.mp hPanic) (this.deregister_ne_register _)
  | dispatch answer =>
    obtain ⟨⟨outcome, r', waiters', woken⟩, hDispatch, hRun⟩ := Option.bind_eq_some_iff.mp hPerform
    obtain ⟨hIdle', hOutcome⟩ := dispatch_idle hIdle hDispatch
    simp only at hRun
    split at hRun
    · cases hRun
      exact ⟨hIdle', fun hPanic => absurd hPanic (by simpa using hOutcome)⟩
    · cases hRun
      exact ⟨hIdle', by simp⟩
  | replace addr value =>
    obtain ⟨this, -, ⟨-, rfl, rfl⟩ | ⟨inner, -, rfl, rfl⟩⟩ := perform_replace hPerform
    · exact ⟨hIdle, by simp⟩
    · exact ⟨hIdle, by simp⟩
  | swap addr addr' =>
    obtain ⟨this, that, -, -, -, hSwap⟩ := perform_swap hPerform
    obtain ⟨rfl, rfl⟩ | ⟨value, value', -, -, rfl, rfl⟩ := hSwap
    · exact ⟨hIdle, by simp⟩
    · exact ⟨hIdle, by simp⟩

theorem attempt_refused (hIdle : w.reactor.isDispatching = false) {trial : Trial T τ R}
    {response : Response τ} (hAttempt : w.attempt trial = some (response, w')) :
    w'.reactor.isDispatching = false ∧ (response = .panic .register →
      ∃ addr interest this this', trial.act.registers = some (addr, interest) ∧
        w.asyncs addr = some this ∧ w'.asyncs addr = some this' ∧
        this.Refusal interest this' w.reactor.list w'.reactor.list) := by
  cases trial with
  | call act => exact perform_refused hIdle hAttempt
  | refused errno act =>
    cases act with
    | poll addr waker interest f =>
      obtain ⟨this, hThis, hRun⟩ := Option.bind_eq_some_iff.mp hAttempt
      cases hRun
      have hSame := this.pollNonblocking_isDispatching addr waker interest f
        (w.reactor.refusing errno)
      refine ⟨hSame.trans hIdle, fun hPanic => ?_⟩
      exact ⟨addr, interest, this, _, rfl, hThis, Function.update_self ..,
        Async.pollNonblocking_refused (quiet_eq_panic_iff.mp hPanic)⟩
    | close addr waker flush =>
      obtain ⟨this, hThis, hRun⟩ := Option.bind_eq_some_iff.mp hAttempt
      cases hRun
      have hSame := this.pollClose_isDispatching addr waker flush (w.reactor.refusing errno)
      refine ⟨hSame.trans hIdle, fun hPanic => ?_⟩
      exact ⟨addr, .write, this, _, rfl, hThis, Function.update_self ..,
        Async.pollClose_refused (quiet_eq_panic_iff.mp hPanic)⟩
    | _ => cases hAttempt

theorem idle_of_run {kernel : κ} {acts : List (Trial T τ R)}
    (hRun : run tried (init kernel) acts = some w) : w.reactor.isDispatching = false := by
  let I (w : World T τ κ) : Prop := w.reactor.isDispatching = false
  have hInit : I (init kernel) := rfl
  refine invariant_of_run (I := I) (fun s trial s' hIdle hStep => ?_) hInit hRun
  obtain ⟨⟨response, _⟩, hAttempt, rfl⟩ := Option.map_eq_some_iff.mp hStep
  exact (attempt_refused hIdle hAttempt).1

/-- After a refused registration the waiter is in order only if the kernel held
the refused mask for it already. It does not while wrapped values keep their
descriptors. -/
theorem refused_iff_held {acts : List (Trial T τ R)} {trial : Trial T τ R}
    {w w' : World T τ InterestList} (hRun : run tried (init InterestList.empty) acts = some w)
    (hRefused : w.attempt trial = some (.panic .register, w')) :
    ∃ addr interest this this' inner, trial.act.registers = some (addr, interest) ∧
      w.asyncs addr = some this ∧ w'.asyncs addr = some this' ∧ this'.inner = some inner ∧
      (this'.Booked addr w'.reactor.list ∧ this'.DropsOwn addr w'.reactor ↔
        w.reactor.list.maskFor (asRawFd inner) addr =
          this.waiter.registerFor ||| interest.asEvents ||| EPOLLET) ∧
      (Meets tried Stays (init InterestList.empty) acts →
        ¬ (this'.Booked addr w'.reactor.list ∧ this'.DropsOwn addr w'.reactor)) := by
  have hIdle := idle_of_run hRun
  obtain ⟨hIdle', hPanic⟩ := attempt_refused hIdle hRefused
  obtain ⟨addr, interest, this, this', hAct, hThis, hThis', hRefusal⟩ := hPanic rfl
  obtain ⟨inner, hInner⟩ := Option.isSome_iff_exists.mp hRefusal.inner
  refine ⟨addr, interest, this, this', inner, hAct, hThis, hThis', hInner, ?_, ?_⟩
  · rw [← hRefusal.booked_iff hInner addr]
    refine ⟨And.left, fun hBooked => ⟨hBooked, ?_⟩⟩
    apply hBooked.dropsOwn hInner ?_ hIdle'
    rw [hRefusal.registerFor]
    exact Async.registerFor_ne_zero _ _
  · intro hStays hBooked
    have hClaimed := claimed_of_run rfl hStays hRun
    exact hRefusal.not_booked (hClaimed.claims addr this hThis) hBooked.1

theorem refused_iff_held_exhausted :
    let fcntl : Fcntl := ⟨fun _ => .ok 0#32, fun _ _ => .ok ()⟩
    let acts : List (Trial RawFd Nat Nat) := [.call (.new 0 fcntl 3)]
    let trial : Trial RawFd Nat Nat := .refused 28 (.poll 0 (.task 1) .read .wouldBlock)
    ∃ (w w' : World RawFd Nat InterestList) (this' : Async RawFd Nat),
      run tried (init InterestList.empty) acts = some w ∧
        w.attempt trial = some (.panic .register, w') ∧ w'.asyncs 0 = some this' ∧
        ¬ (this'.Booked 0 w'.reactor.list ∧ this'.DropsOwn 0 w'.reactor) := by
  intro fcntl acts trial
  obtain ⟨addr, interest, this, this', inner, hAct, -, hThis', -, -, hNever⟩ :=
    refused_iff_held (rfl : run tried (init InterestList.empty) acts = some _)
      (rfl : attempt _ trial = some (.panic .register, _))
  cases hAct
  exact ⟨_, _, this', rfl, rfl, hThis', hNever (.cons trivial rfl trivial)⟩

/-- Two values wrap one descriptor. The second registration is refused, and the
drop of the second deletes the entry of the first. -/
theorem refused_deletes_other :
    let fcntl : Fcntl := ⟨fun _ => .ok 0#32, fun _ _ => .ok ()⟩
    let acts : List (Trial RawFd Nat Nat) :=
      [.call (.new 0 fcntl 3), .call (.new 1 fcntl 3),
        .call (.poll 0 (.task 1) .read .wouldBlock)]
    ∃ (w w' : World RawFd Nat InterestList) (this' : Async RawFd Nat),
      run tried (init InterestList.empty) acts = some w ∧
        w.perform (R := Nat) (.poll 1 (.task 2) .read .wouldBlock) =
          some (.panic .register, w') ∧ w'.asyncs 1 = some this' ∧
        w'.reactor.list 3 = some ⟨EPOLLIN ||| EPOLLET, 0⟩ ∧
        ¬ this'.Booked 1 w'.reactor.list ∧ (this'.drop w'.reactor).2.list 3 = none := by
  intro fcntl acts
  refine ⟨_, _, _, rfl, rfl, rfl, by decide, fun hBooked => ?_, by decide⟩
  exact absurd (hBooked 3 rfl) (by decide)

end World

end Ground
