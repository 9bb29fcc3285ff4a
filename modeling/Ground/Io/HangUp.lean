import Ground.Epoll
import Ground.Io.Session

/-! # Which deliveries unblock an operation

A delivery clears from what is awaited the bits of its own mask, and nothing
else. Hang-up and error bits are never awaited, so an event that carries only
these wakes the task and leaves its operation blocked.
-/

namespace Ground

open Mask History

variable {T τ κ R : Type} [AsRawFd T] [Epoll κ]

namespace Async

theorem invoked_iff {this : Async T τ} (hInner : this.inner.isSome) (waker : Waker τ)
    (interest : Interest) (f : Closure T R) : (this.pollAttempt waker interest f).1.Invoked ↔
      interest.asEvents &&& this.waiter.waitingFor = 0#32 := by
  obtain ⟨inner, hInner⟩ := Option.isSome_iff_exists.mp hInner
  obtain ⟨hSkip, hAttempt⟩ | ⟨hTry, -, hAttempt⟩ | ⟨hTry, -, hAttempt⟩ :=
    pollAttempt_cases hInner waker interest f
  · simp [hAttempt, Attempt.Invoked, hSkip]
  · simp [hAttempt, Attempt.Invoked, hTry]
  · simp [hAttempt, Attempt.Invoked, hTry]

theorem returns_iff_invoked {this : Async T τ} (hInner : this.inner.isSome) (addr : Addr)
    (waker : Waker τ) (interest : Interest) {f : Closure T R} (r : Reactor κ)
    {result : Except Error R} (hResult : ∀ value, (f value).1 = .ret result)
    (hReady : ∀ e, result = .error e → e.kind ≠ .wouldBlock) :
    (this.pollNonblocking addr waker interest f r).1 = .ret (.ready result) ↔
      (this.pollAttempt waker interest f).1.Invoked := by
  obtain ⟨inner, hInner⟩ := Option.isSome_iff_exists.mp hInner
  rw [pollNonblocking_eq]
  obtain ⟨-, hAttempt⟩ | ⟨-, ⟨e, he, hKind⟩, -⟩ | ⟨-, -, hAttempt⟩ :=
    pollAttempt_cases hInner waker interest f
  · simp [hAttempt, pollFinish, Attempt.Invoked]
  · rw [hResult] at he
    cases he
    exact absurd hKind (hReady e rfl)
  · simp [hAttempt, pollFinish, Attempt.Invoked, hResult]

end Async

namespace Session

/-- Every bit of the interest that is awaited at `s` is carried by the event or
by one of the later entries, and none of them is blocked on again there. -/
def Rearmed (interest : Interest) (s : Session T τ κ) (events : Events)
    (later : List (Entry τ R)) : Prop :=
  ∀ b, Has interest.asEvents b →
    (Has s.this.waiter.waitingFor b → Has events b ∨ ∃ e ∈ later, e.Carries b) ∧
      ¬ Since (Entry.Blocks b) (Entry.Carries b) later

def delivered (s : Session T τ κ) (addr : Addr) (events : Events) : Session T τ κ :=
  { s with this := { s.this with waiter := (Reactor.deliver ⟨events, addr⟩ s.this.waiter).1 } }

theorem after_event (s : Session T τ κ) (addr : Addr) (events : Events)
    (later : List (Act T τ κ R)) :
    s.after addr (.event events :: later) = (s.delivered addr events).after addr later := rfl

theorem meet_after_event_eq_zero_iff {s : Session T τ κ} (h : s.Holds) (addr : Addr)
    (interest : Interest) (events : Events) (later : List (Act T τ κ R)) :
    interest.asEvents &&& (s.after addr (.event events :: later)).this.waiter.waitingFor = 0#32 ↔
      Rearmed interest s events ((s.delivered addr events).history addr later) := by
  have hDelivered : (s.delivered addr events).Holds := h
  rw [meet_eq_zero_iff, after_event]
  apply forall_congr'
  intro b
  apply imp_congr_right
  intro _
  have hBit : Has (s.delivered addr events).this.waiter.waitingFor b ↔
      Has s.this.waiter.waitingFor b ∧ ¬ Has events b := by
    simp [delivered]
  rw [has_waitingFor_after hDelivered, hBit, not_or, and_comm]
  apply and_congr_left'
  constructor
  · intro hNot hWaiting
    by_contra hNever
    rw [not_or] at hNever
    exact hNot ⟨⟨hWaiting, hNever.1⟩, fun e he hCarries => hNever.2 ⟨e, he, hCarries⟩⟩
  · rintro hRearmed ⟨⟨hWaiting, hEvents⟩, hNever⟩
    obtain hHas | ⟨e, he, hCarries⟩ := hRearmed hWaiting
    · exact hEvents hHas
    · exact hNever e he hCarries

/-- From any reachable state, after an event and whatever follows it, the next
poll tries again, and then returns what it obtains, exactly when it is rearmed. -/
theorem next_poll_tries_iff_rearmed (inner : T) (r : Reactor κ) (addr : Addr)
    (acts : List (Act T τ κ R)) (interest : Interest) (events : Events)
    (later : List (Act T τ κ R)) (waker : Waker τ) (f : Closure T R) :
    let s := (fresh inner r).after addr acts
    let t := s.after addr (.event events :: later)
    let entries := (s.delivered addr events).history addr later
    ((t.this.pollAttempt waker interest f).1.Invoked ↔ Rearmed interest s events entries) ∧
      ∀ result, (∀ value, (f value).1 = .ret result) →
        (∀ e, result = .error e → e.kind ≠ .wouldBlock) →
        ((t.this.pollNonblocking addr waker interest f t.reactor).1 = .ret (.ready result) ↔
          Rearmed interest s events entries) := by
  intro s t entries
  have hHolds : s.Holds := (holds_fresh inner r).after acts
  have hInvoked : (t.this.pollAttempt waker interest f).1.Invoked ↔
      Rearmed interest s events entries := by
    rw [Async.invoked_iff (hHolds.after (.event events :: later))]
    exact meet_after_event_eq_zero_iff hHolds addr interest events later
  refine ⟨hInvoked, fun result hResult hReady => ?_⟩
  rw [← hInvoked]
  exact Async.returns_iff_invoked (hHolds.after (.event events :: later)) addr waker interest
    t.reactor hResult hReady

theorem next_poll_tries_iff_rearmed_readable :
    let blocked : List (Act RawFd Nat InterestList Nat) := [.poll (.task 7) .read .wouldBlock]
    let s : Session RawFd Nat InterestList :=
      (fresh 3 (Reactor.new InterestList.empty)).after 0 blocked
    let t := s.after 0 [Act.event (R := Nat) EPOLLIN]
    (t.this.pollNonblocking 0 (.task 7) .read (.done 5) t.reactor).1 = .ret (.ready (.ok 5)) := by
  intro blocked s t
  refine ((next_poll_tries_iff_rearmed 3 (Reactor.new InterestList.empty) 0 blocked .read EPOLLIN
    [] (.task 7) (.done 5)).2 (.ok 5) (fun _ => rfl) (by rintro e ⟨⟩)).mpr ?_
  intro b hb
  exact ⟨fun _ => .inl hb, not_since_nil⟩

/-- The last writer of an empty pipe closes while a read is blocked: the event
wakes the task, and its next poll returns `Pending` without reading the end of file. -/
theorem hang_up_leaves_read_blocked :
    let blocked : List (Act RawFd Nat InterestList Nat) := [.poll (.task 7) .read .wouldBlock]
    let s : Session RawFd Nat InterestList :=
      (fresh 3 (Reactor.new InterestList.empty)).after 0 blocked
    let t := s.after 0 [Act.event (R := Nat) EPOLLHUP]
    Interest.read.asEvents &&& s.this.waiter.waitingFor ≠ 0#32 ∧
      (Reactor.deliver ⟨EPOLLHUP, 0⟩ s.this.waiter).2 = [7] ∧
      ¬ (t.this.pollAttempt (.task 7) .read (Closure.done 0)).1.Invoked ∧
      (t.this.pollNonblocking 0 (.task 7) .read (Closure.done 0) t.reactor).1 = .ret .pending := by
  exact ⟨by decide, by decide, id, rfl⟩

end Session

end Ground
