import Mathlib.Order.Basic

/-! # Computations that return or panic

A panic carries its reason and unwinds through every later step. State that a
computation changed before it panicked is threaded beside the outcome by the
definitions that have state, so nothing is rolled back here.
-/

namespace Ground

universe u v

inductive Outcome (π : Type u) (α : Type v) where
  | ret (value : α)
  | panic (reason : π)
  deriving DecidableEq

namespace Outcome

variable {π : Type u} {α β γ : Type v}

protected def bind (x : Outcome π α) (f : α → Outcome π β) : Outcome π β :=
  match x with
  | .ret a => f a
  | .panic p => .panic p

instance : Monad (Outcome π) where
  pure := .ret
  bind := Outcome.bind

@[simp] theorem pure_eq (a : α) : (pure a : Outcome π α) = .ret a := rfl

@[simp] theorem ret_bind (a : α) (f : α → Outcome π β) : (Outcome.ret a >>= f) = f a := rfl

@[simp] theorem panic_bind (p : π) (f : α → Outcome π β) :
    ((Outcome.panic p : Outcome π α) >>= f) = .panic p := rfl

/-- The one inversion lemma for sequencing: a sequence returns only through
a value returned by its first step. -/
theorem bind_eq_ret_iff {x : Outcome π α} {f : α → Outcome π β} {b : β} :
    (x >>= f) = .ret b ↔ ∃ a, x = .ret a ∧ f a = .ret b := by
  cases x with
  | ret a => simp
  | panic p => simp

theorem exists_panic_iff {x : Outcome π α} : (∃ p, x = .panic p) ↔ ∀ a, x ≠ .ret a := by
  cases x with
  | ret a => simp
  | panic p => simp

def map (f : α → β) : Outcome π α → Outcome π β
  | .ret a => .ret (f a)
  | .panic p => .panic p

def mapPanic {π' : Type u} (f : π → π') : Outcome π α → Outcome π' α
  | .ret a => .ret a
  | .panic p => .panic (f p)

@[simp] theorem mapPanic_ret {π' : Type u} (f : π → π') (a : α) :
    (ret a : Outcome π α).mapPanic f = .ret a := rfl

@[simp] theorem mapPanic_panic {π' : Type u} (f : π → π') (p : π) :
    (panic p : Outcome π α).mapPanic f = .panic (f p) := rfl

/-- The computation does not panic. -/
def Returns (x : Outcome π α) : Prop := ∃ a, x = .ret a

@[simp] theorem returns_ret (a : α) : Returns (.ret a : Outcome π α) := ⟨a, rfl⟩

theorem Returns.bind {x : Outcome π α} {f : α → Outcome π β} (hx : x.Returns)
    (hf : ∀ a, x = .ret a → (f a).Returns) : (x >>= f).Returns := by
  obtain ⟨a, rfl⟩ := hx
  exact hf a rfl

end Outcome

end Ground
