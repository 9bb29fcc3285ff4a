import Ground.Util
import Mathlib.Data.List.Basic

/-! # Bounded channels

What the chat server takes from `futures::channel::mpsc` and from `SinkExt`. A channel
hands out what was sent into it in the order in which it was accepted. How it makes
room is the `futures` crate's, and only assumed here.
-/

namespace Ground.Chat

/-- A `Sender`, together with the item of the `send` that it polls, if that is not
accepted yet. -/
class SinkExt (σ : Type) (M : outParam Type) where
  send : M → σ → σ
  unsent : σ → Option M

/-- What is accepted and not received yet, how many senders there are, and whether the
receiver is gone. -/
class Mpsc (χ : Type) (σ M : outParam Type) where
  channel : Nat → σ × χ
  clone : σ → χ → σ × χ
  pollSend : σ → χ → Poll (Except Unit Unit) × σ × χ
  dropSender : σ → χ → χ
  pollNext : χ → Poll (Option M) × χ
  dropReceiver : χ → χ
  queue : χ → List M
  senders : χ → Nat
  closed : χ → Bool

open SinkExt Mpsc in
/-- A `send` is done once its item is accepted, and fails, with its item, only when the
receiver is gone. The receiver comes to an end only when all senders are gone. -/
class LawfulMpsc (χ : Type) (σ M : outParam Type) [SinkExt σ M] [Mpsc χ σ M] : Prop where
  unsent_send (item : M) (sender : σ) : unsent (send item sender) = some item
  queue_channel (buffer : Nat) : queue (channel buffer : σ × χ).2 = []
  senders_channel (buffer : Nat) : senders (channel buffer : σ × χ).2 = 1
  closed_channel (buffer : Nat) : closed (channel buffer : σ × χ).2 = false
  queue_clone (sender : σ) (c : χ) : queue (clone sender c).2 = queue c
  senders_clone (sender : σ) (c : χ) : senders (clone sender c).2 = senders c + 1
  closed_clone (sender : σ) (c : χ) : closed (clone sender c).2 = closed c
  unsent_pollSend (sender : σ) (c : χ) :
    unsent (pollSend sender c).2.1 = unsent sender ∧ queue (pollSend sender c).2.2 = queue c ∨
      unsent (pollSend sender c).2.1 = none ∧
        queue (pollSend sender c).2.2 = queue c ++ (unsent sender).toList
  senders_pollSend (sender : σ) (c : χ) : senders (pollSend sender c).2.2 = senders c
  closed_pollSend (sender : σ) (c : χ) : closed (pollSend sender c).2.2 = closed c
  pollSend_ok {sender : σ} {c : χ} : (pollSend sender c).1 = .ready (.ok ()) →
    unsent (pollSend sender c).2.1 = none
  pollSend_error {sender : σ} {c : χ} : (pollSend sender c).1 = .ready (.error ()) →
    unsent (pollSend sender c).2.1 ≠ none ∧ closed c = true
  queue_dropSender (sender : σ) (c : χ) : queue (dropSender sender c) = queue c
  senders_dropSender (sender : σ) (c : χ) : senders (dropSender sender c) = senders c - 1
  closed_dropSender (sender : σ) (c : χ) : closed (dropSender sender c) = closed c
  pollNext_some {c : χ} {item : M} : (pollNext c).1 = .ready (some item) →
    queue c = item :: queue (pollNext c).2
  pollNext_none {c : χ} : (pollNext c).1 = .ready none →
    senders c = 0 ∧ queue c = []
  pollNext_pending {c : χ} : (pollNext c).1 = .pending → queue (pollNext c).2 = queue c
  senders_pollNext (c : χ) : senders (pollNext c).2 = senders c
  closed_pollNext (c : χ) : closed (pollNext c).2 = closed c
  senders_dropReceiver (c : χ) : senders (dropReceiver c) = senders c

/-- A channel that lets its senders wait while more than `buffer` items are in it. -/
structure Bounded (M : Type) where
  queue : List M
  senders : Nat
  closed : Bool
  buffer : Nat

def Holding (M : Type) := Option M

instance {M : Type} : SinkExt (Holding M) M where
  send item _ := some item
  unsent sender := sender

namespace Bounded

variable {M : Type}

def flushed (c : Bounded M) : Poll (Except Unit Unit) :=
  if c.closed || c.queue.length ≤ c.buffer then .ready (.ok ()) else .pending

def pollSend (sender : Holding M) (c : Bounded M) :
    Poll (Except Unit Unit) × Holding M × Bounded M :=
  match sender with
  | none => (c.flushed, none, c)
  | some item =>
    if c.closed then (.ready (.error ()), some item, c)
    else
      let c := { c with queue := c.queue ++ [item] }
      (c.flushed, none, c)

def pollNext (c : Bounded M) : Poll (Option M) × Bounded M :=
  match c.queue with
  | item :: queue => (.ready (some item), { c with queue })
  | [] => (if c.senders = 0 then .ready none else .pending, c)

instance : Mpsc (Bounded M) (Holding M) M where
  channel buffer := (none, { queue := [], senders := 1, closed := false, buffer })
  clone _ c := (none, { c with senders := c.senders + 1 })
  pollSend := pollSend
  dropSender _ c := { c with senders := c.senders - 1 }
  pollNext := pollNext
  dropReceiver c := { c with queue := [], closed := true }
  queue := queue
  senders := senders
  closed := closed

theorem flushed_ne_error (c : Bounded M) : c.flushed ≠ .ready (.error ()) := by
  unfold flushed
  split <;> simp

theorem pollSend_cases (sender : Holding M) (c : Bounded M) :
    sender = none ∧ pollSend sender c = (c.flushed, none, c) ∨
    (∃ item, sender = some item ∧ c.closed = true ∧
      pollSend sender c = (.ready (.error ()), some item, c)) ∨
    ∃ item, sender = some item ∧
      pollSend sender c = (flushed { c with queue := c.queue ++ [item] }, none,
        { c with queue := c.queue ++ [item] }) := by
  cases sender with
  | none => exact .inl ⟨rfl, rfl⟩
  | some item =>
    by_cases hClosed : c.closed
    · exact .inr (.inl ⟨item, rfl, hClosed, if_pos hClosed⟩)
    · exact .inr (.inr ⟨item, rfl, if_neg hClosed⟩)

theorem pollNext_cases (c : Bounded M) :
    (∃ item queue, c.queue = item :: queue ∧
      pollNext c = (.ready (some item), { c with queue })) ∨
    c.queue = [] ∧ pollNext c = (if c.senders = 0 then .ready none else .pending, c) := by
  unfold pollNext
  split
  · rename_i item queue hQueue
    exact .inl ⟨item, queue, hQueue, rfl⟩
  · rename_i hQueue
    exact .inr ⟨hQueue, rfl⟩

open SinkExt Mpsc in
instance : LawfulMpsc (Bounded M) (Holding M) M where
  unsent_send _ _ := rfl
  queue_channel _ := rfl
  senders_channel _ := rfl
  closed_channel _ := rfl
  queue_clone _ _ := rfl
  senders_clone _ _ := rfl
  closed_clone _ _ := rfl
  unsent_pollSend sender c := by
    simp only [Mpsc.pollSend, unsent, Mpsc.queue]
    obtain ⟨rfl, hPoll⟩ | ⟨item, rfl, -, hPoll⟩ | ⟨item, rfl, hPoll⟩ := pollSend_cases sender c
    · simp [hPoll]
    · simp [hPoll]
    · simp [hPoll]
  senders_pollSend sender c := by
    simp only [Mpsc.pollSend, Mpsc.senders]
    obtain ⟨rfl, hPoll⟩ | ⟨item, rfl, -, hPoll⟩ | ⟨item, rfl, hPoll⟩ := pollSend_cases sender c
    all_goals rw [hPoll]
  closed_pollSend sender c := by
    simp only [Mpsc.pollSend, Mpsc.closed]
    obtain ⟨rfl, hPoll⟩ | ⟨item, rfl, -, hPoll⟩ | ⟨item, rfl, hPoll⟩ := pollSend_cases sender c
    all_goals rw [hPoll]
  pollSend_ok {sender c} hOk := by
    simp only [Mpsc.pollSend, unsent] at hOk ⊢
    obtain ⟨rfl, hPoll⟩ | ⟨item, rfl, -, hPoll⟩ | ⟨item, rfl, hPoll⟩ := pollSend_cases sender c
    · rw [hPoll]
    · rw [hPoll] at hOk
      cases hOk
    · rw [hPoll]
  pollSend_error {sender c} hFails := by
    simp only [Mpsc.pollSend, unsent, Mpsc.closed] at hFails ⊢
    obtain ⟨rfl, hPoll⟩ | ⟨item, rfl, hGone, hPoll⟩ | ⟨item, rfl, hPoll⟩ := pollSend_cases sender c
    · rw [hPoll] at hFails
      exact absurd hFails (flushed_ne_error c)
    · rw [hPoll]
      exact ⟨by simp, hGone⟩
    · rw [hPoll] at hFails
      exact absurd hFails (flushed_ne_error _)
  queue_dropSender _ _ := rfl
  senders_dropSender _ _ := rfl
  closed_dropSender _ _ := rfl
  pollNext_some {c item} hSome := by
    simp only [Mpsc.pollNext, Mpsc.queue] at hSome ⊢
    obtain ⟨item', queue, hQueue, hPoll⟩ | ⟨hQueue, hPoll⟩ := pollNext_cases c
    · rw [hPoll] at hSome ⊢
      cases hSome
      exact hQueue
    · rw [hPoll] at hSome
      split at hSome <;> cases hSome
  pollNext_none {c} hNone := by
    simp only [Mpsc.pollNext, Mpsc.queue, Mpsc.senders] at hNone ⊢
    obtain ⟨item', queue, hQueue, hPoll⟩ | ⟨hQueue, hPoll⟩ := pollNext_cases c
    · rw [hPoll] at hNone
      cases hNone
    · rw [hPoll] at hNone
      split at hNone
      · rename_i hSenders
        exact ⟨hSenders, hQueue⟩
      · cases hNone
  pollNext_pending {c} hPending := by
    simp only [Mpsc.pollNext, Mpsc.queue] at hPending ⊢
    obtain ⟨item', queue, hQueue, hPoll⟩ | ⟨hQueue, hPoll⟩ := pollNext_cases c
    · rw [hPoll] at hPending
      cases hPending
    · rw [hPoll]
  senders_pollNext c := by
    simp only [Mpsc.pollNext, Mpsc.senders]
    obtain ⟨item', queue, hQueue, hPoll⟩ | ⟨hQueue, hPoll⟩ := pollNext_cases c
    all_goals rw [hPoll]
  closed_pollNext c := by
    simp only [Mpsc.pollNext, Mpsc.closed]
    obtain ⟨item', queue, hQueue, hPoll⟩ | ⟨hQueue, hPoll⟩ := pollNext_cases c
    all_goals rw [hPoll]
  senders_dropReceiver _ := rfl

end Bounded

end Ground.Chat
