import Ground.Foundation.History
import Ground.Foundation.Transition
import Ground.Io.Attempt

/-! # The life of one `Async`

A session is one `Async` and the reactor of its thread. It is polled, events
are delivered to its waiter, and everything else in the thread may change the
reactor. The history of a session records what each step showed.
-/

namespace Ground

open Mask History

variable {T τ κ R : Type} [AsRawFd T] [Epoll κ]

structure Session (T τ κ : Type) where
  this : Async T τ
  reactor : Reactor κ

namespace Session

inductive Act (T τ κ R : Type) where
  | poll (waker : Waker τ) (interest : Interest) (f : Closure T R)
  | event (events : Events)
  | elsewhere (effect : Reactor κ → Reactor κ)

inductive Entry (τ R : Type) where
  | polled (waker : Waker τ) (interest : Interest) (attempt : Attempt R)
      (outcome : Outcome Panic (Poll (Except Error R)))
  | delivered (events : Events) (woken : List τ)
  | elsewhere

/-- The session of the `Async` that `Async.new` returns. -/
def fresh (inner : T) (r : Reactor κ) : Session T τ κ where
  this :=
    { inner := some inner
      waiter := { waker := .noop, registerFor := 0#32, waitingFor := 0#32 } }
  reactor := r

def step (addr : Addr) (s : Session T τ κ) : Act T τ κ R → Entry τ R × Session T τ κ
  | .poll waker interest f =>
    let (outcome, this, reactor) := s.this.pollNonblocking addr waker interest f s.reactor
    (.polled waker interest (s.this.pollAttempt waker interest f).1 outcome, { this, reactor })
  | .event events =>
    let (waiter, woken) := Reactor.deliver { events, data := addr } s.this.waiter
    (.delivered events woken, { s with this := { s.this with waiter } })
  | .elsewhere effect => (.elsewhere, { s with reactor := effect s.reactor })

def exec (addr : Addr) (s : Session T τ κ) : List (Act T τ κ R) → List (Entry τ R) × Session T τ κ
  | [] => ([], s)
  | act :: acts =>
    let (entry, s) := s.step addr act
    let (entries, s) := s.exec addr acts
    (entry :: entries, s)

abbrev history (addr : Addr) (s : Session T τ κ) (acts : List (Act T τ κ R)) : List (Entry τ R) :=
  (s.exec addr acts).1

abbrev after (addr : Addr) (s : Session T τ κ) (acts : List (Act T τ κ R)) : Session T τ κ :=
  (s.exec addr acts).2

variable {addr : Addr} {s : Session T τ κ}

theorem exec_append (acts later : List (Act T τ κ R)) : s.exec addr (acts ++ later) =
    (s.history addr acts ++ (s.after addr acts).history addr later,
      (s.after addr acts).after addr later) := by
  induction acts generalizing s with
  | nil => rfl
  | cons act acts ih =>
    simp only [List.cons_append, exec, ih]
    rfl

@[simp] theorem history_snoc (acts : List (Act T τ κ R)) (act : Act T τ κ R) :
    s.history addr (acts ++ [act]) =
      s.history addr acts ++ [((s.after addr acts).step addr act).1] := by
  simp only [history, exec_append, exec]

@[simp] theorem after_snoc (acts : List (Act T τ κ R)) (act : Act T τ κ R) :
    s.after addr (acts ++ [act]) = ((s.after addr acts).step addr act).2 := by
  simp only [after, exec_append, exec]

namespace Entry

/-- The closure ran and returned `WouldBlock`, so bit `b` is waited for from here. -/
def Blocks (b : Nat) : Entry τ R → Prop
  | .polled _ interest (.blocked _) _ => Has interest.asEvents b
  | _ => False

/-- An event whose mask has bit `b` was delivered. -/
def Carries (b : Nat) : Entry τ R → Prop
  | .delivered events _ => Has events b
  | _ => False

end Entry

def Holds (s : Session T τ κ) : Prop := s.this.inner.isSome

omit [AsRawFd T] [Epoll κ] in
@[simp] theorem holds_fresh (inner : T) (r : Reactor κ) :
    (fresh inner r : Session T τ κ).Holds := rfl

theorem Holds.step (h : s.Holds) (act : Act T τ κ R) : (s.step addr act).2.Holds := by
  cases act with
  | event events => exact h
  | elsewhere effect => exact h
  | poll waker interest f =>
    obtain ⟨inner, hInner⟩ := Option.isSome_iff_exists.mp h
    obtain ⟨registerFor, hAsync⟩ :=
      s.this.pollNonblocking_async addr waker interest f s.reactor
    change (s.this.pollNonblocking addr waker interest f s.reactor).2.1.inner.isSome
    rw [hAsync]
    obtain ⟨-, hAttempt⟩ | ⟨-, -, hAttempt⟩ | ⟨-, -, hAttempt⟩ :=
      Async.pollAttempt_cases hInner waker interest f
    · simp [hAttempt, hInner]
    · simp [hAttempt]
    · simp [hAttempt]

theorem Holds.after (h : s.Holds) (acts : List (Act T τ κ R)) : (s.after addr acts).Holds := by
  induction acts using List.reverseRecOn with
  | nil => exact h
  | append_singleton acts act ih =>
    rw [after_snoc]
    exact ih.step act

theorem has_waitingFor_step (h : s.Holds) (addr : Addr) (act : Act T τ κ R) (b : Nat) :
    Has (s.step addr act).2.this.waiter.waitingFor b ↔
      (s.step addr act).1.Blocks b ∨
        (Has s.this.waiter.waitingFor b ∧ ¬ (s.step addr act).1.Carries b) := by
  cases act with
  | elsewhere effect => simp [step, Entry.Blocks, Entry.Carries]
  | event events => simp [step, Entry.Blocks, Entry.Carries]
  | poll waker interest f =>
    obtain ⟨inner, hInner⟩ := Option.isSome_iff_exists.mp h
    obtain ⟨registerFor, hAsync⟩ :=
      s.this.pollNonblocking_async addr waker interest f s.reactor
    simp only [step, hAsync]
    obtain ⟨-, hAttempt⟩ | ⟨-, -, hAttempt⟩ | ⟨-, -, hAttempt⟩ :=
      Async.pollAttempt_cases hInner waker interest f
    · simp [hAttempt, Entry.Blocks, Entry.Carries]
    · simp [hAttempt, Entry.Blocks, Entry.Carries, or_comm]
    · simp [hAttempt, Entry.Blocks, Entry.Carries]

/-- A bit is awaited exactly when it was blocked on with no event carrying it
since, or was awaited at the start with no such event at all. -/
theorem has_waitingFor_after (h : s.Holds) (acts : List (Act T τ κ R)) (b : Nat) :
    Has (s.after addr acts).this.waiter.waitingFor b ↔
      Since (Entry.Blocks b) (Entry.Carries b) (s.history addr acts) ∨
        (Has s.this.waiter.waitingFor b ∧ ∀ e ∈ s.history addr acts, ¬ e.Carries b) := by
  induction acts using List.reverseRecOn with
  | nil => simp [after, history, exec]
  | append_singleton acts act ih =>
    rw [after_snoc, history_snoc, has_waitingFor_step (h.after acts) addr, ih, since_snoc]
    simp only [List.mem_append, List.mem_singleton]
    constructor
    · rintro (hBlocks | ⟨hSince | ⟨hInit, hNever⟩, hCarries⟩)
      · exact .inl (.inl hBlocks)
      · exact .inl (.inr ⟨hSince, hCarries⟩)
      · exact .inr ⟨hInit, fun e he => he.elim (hNever e) (fun he => he ▸ hCarries)⟩
    · rintro ((hBlocks | ⟨hSince, hCarries⟩) | ⟨hInit, hNever⟩)
      · exact .inl hBlocks
      · exact .inr ⟨.inl hSince, hCarries⟩
      · exact .inr ⟨.inr ⟨hInit, fun e he => hNever e (.inl he)⟩, hNever _ (.inr rfl)⟩

end Session

end Ground
