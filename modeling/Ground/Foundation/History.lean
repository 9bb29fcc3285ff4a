import Mathlib.Data.List.Induction

/-! # Past-time properties of a history

A history is the list of its entries, oldest first. Of its two operators, "since"
says that an entry of one kind has occurred and none of another kind after it,
and "each" says of every entry something about the entries before it.
-/

namespace Ground.History

variable {ε : Type*} {p q p' q' : ε → Prop}

def Since (p q : ε → Prop) (history : List ε) : Prop :=
  ∃ before e after, history = before ++ e :: after ∧ p e ∧ ∀ x ∈ after, ¬ q x

@[simp] theorem not_since_nil : ¬ Since p q [] := by
  rintro ⟨before, e, after, h, -⟩
  simp at h

theorem Since.mono {history : List ε} (hp : ∀ e, p e → p' e) (hq : ∀ e, q' e → q e)
    (h : Since p q history) : Since p' q' history := by
  obtain ⟨before, e, after, hHistory, he, hAfter⟩ := h
  exact ⟨before, e, after, hHistory, hp e he, fun x hx hx' => hAfter x hx (hq x hx')⟩

theorem since_snoc {history : List ε} {e : ε} :
    Since p q (history ++ [e]) ↔ p e ∨ (Since p q history ∧ ¬ q e) := by
  constructor
  · rintro ⟨before, x, after, h, hp, hq⟩
    obtain rfl | ⟨after, y, rfl⟩ := List.eq_nil_or_concat after
    · obtain ⟨-, hx⟩ := List.append_inj' h rfl
      exact .inl (List.singleton_inj.mp hx ▸ hp)
    · have h' : history ++ [e] = (before ++ x :: after) ++ [y] := by simpa using h
      obtain ⟨hHistory, hy⟩ := List.append_inj' h' rfl
      refine .inr ⟨⟨before, x, after, hHistory, hp, fun z hz => hq z (by simp [hz])⟩, ?_⟩
      rw [List.singleton_inj.mp hy]
      exact hq y (by simp)
  · rintro (hp | ⟨⟨before, x, after, rfl, hp, hq⟩, he⟩)
    · exact ⟨history, e, [], rfl, hp, by simp⟩
    · refine ⟨before, x, after ++ [e], by simp, hp, fun z hz => ?_⟩
      obtain hz | hz := List.mem_append.mp hz
      · exact hq z hz
      · exact List.mem_singleton.mp hz ▸ he

theorem not_since_of_none {history : List ε} (h : ∀ e ∈ history, ¬ p e) : ¬ Since p q history := by
  rintro ⟨before, e, after, rfl, he, -⟩
  exact h e (by simp) he

theorem Since.of_only {before after : List ε} {e : ε} (h : Since p q (before ++ e :: after))
    (hBefore : ∀ x ∈ before, ¬ p x) (hAfter : ∀ x ∈ after, ¬ p x) :
    p e ∧ ∀ x ∈ after, ¬ q x := by
  induction after using List.reverseRecOn with
  | nil => exact ⟨(since_snoc.mp h).resolve_right fun h => not_since_of_none hBefore h.1, by simp⟩
  | append_singleton after x ih =>
    rw [← List.cons_append, ← List.append_assoc, since_snoc] at h
    obtain ⟨hEarlier, hx⟩ := h.resolve_left (hAfter x (by simp))
    obtain ⟨he, hNone⟩ := ih hEarlier fun y hy => hAfter y (List.mem_append_left _ hy)
    refine ⟨he, fun y hy => ?_⟩
    obtain hy | hy := List.mem_append.mp hy
    · exact hNone y hy
    · exact List.mem_singleton.mp hy ▸ hx

def Each (φ : List ε → ε → Prop) (history : List ε) : Prop :=
  ∀ before e after, history = before ++ e :: after → φ before e

variable {φ : List ε → ε → Prop}

@[simp] theorem each_nil : Each φ [] := by
  intro before e after h
  simp at h

theorem each_snoc {history : List ε} {e : ε} :
    Each φ (history ++ [e]) ↔ Each φ history ∧ φ history e := by
  constructor
  · intro h
    refine ⟨fun before x after hHistory => h before x (after ++ [e]) ?_, h history e [] rfl⟩
    simp [hHistory]
  · rintro ⟨hEach, hLast⟩ before x after h
    obtain rfl | ⟨after, y, rfl⟩ := List.eq_nil_or_concat after
    · obtain ⟨rfl, hx⟩ := List.append_inj' h rfl
      exact List.singleton_inj.mp hx ▸ hLast
    · have h' : history ++ [e] = (before ++ x :: after) ++ [y] := by simpa using h
      exact hEach before x after (List.append_inj' h' rfl).1

end Ground.History
