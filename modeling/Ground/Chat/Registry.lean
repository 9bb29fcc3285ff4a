import Ground.Chat.Machine

/-! # The registry of names

A name is in the registry while the task that has claimed it is in its `recv_loop`. What
the channels and the streams do is of no account for it.
-/

namespace Ground.Chat

variable {χ σ ω : Type}

namespace Handling

/-- In `recv_loop`. -/
def InLoop : Handling σ → Prop
  | .receiving _ | .sending .. => True
  | _ => False

theorem inLoop_of_receiving {handling : Handling σ} {todo : List (Text × Message)}
    (h : handling = .receiving todo) : handling.InLoop := by
  rw [h]
  trivial

theorem inLoop_of_sending {handling : Handling σ} {peer : ClientId} {user : Text}
    {message : Message} {sender : σ} {todo : List (Text × Message)}
    (h : handling = .sending peer user message sender todo) : handling.InLoop := by
  rw [h]
  trivial

end Handling

namespace ChatServer

variable {s s' : ChatServer χ σ ω} {i : ClientId}

structure Registered (s : ChatServer χ σ ω) : Prop where
  registered : ∀ name k, s.peers name = some k ↔
    (s.tasks k).name = some name ∧ (s.tasks k).handling.InLoop
  asserted : s.asserted = true

namespace Registered

theorem setTask (h : s.Registered) {task : Task σ} (hName : task.name = (s.tasks i).name)
    (hInLoop : task.handling.InLoop ↔ (s.tasks i).handling.InLoop) :
    (s.setTask i task).Registered := by
  refine ⟨fun name k => ?_, h.asserted⟩
  obtain rfl | hOther := eq_or_ne k i
  · simpa [ChatServer.setTask, hName, hInLoop] using h.registered name k
  · simpa [ChatServer.setTask, hOther] using h.registered name k

theorem setChannel (h : s.Registered) (channel : Channel χ σ) :
    (s.setChannel i channel).Registered := ⟨h.registered, h.asserted⟩

theorem setSendLoop (h : s.Registered) (sendLoop : SendLoop ω) :
    (s.setSendLoop i sendLoop).Registered := ⟨h.registered, h.asserted⟩

theorem setWritten (h : s.Registered) (written : List UInt8) :
    (s.setWritten i written).Registered := ⟨h.registered, h.asserted⟩

theorem handle (h : s.Registered) (hInside : (s.tasks i).handling.InLoop) (handled : Handled)
    (todo : List (Text × Message)) : (s.handle i handled todo).Registered :=
  h.setTask rfl (iff_of_true trivial hInside)

variable [Mpsc χ σ (ClientId × Message)]

theorem claim (h : s.Registered) (hOutside : ¬ (s.tasks i).handling.InLoop) (line : Text) :
    (s.claim i line).Registered := by
  simp only [ChatServer.claim]
  cases hPeer : s.peers (trim line) with
  | some peer => exact h.setTask rfl (iff_of_false (by simp [Handling.InLoop]) hOutside)
  | none =>
    refine ⟨fun name k => ?_, h.asserted⟩
    have hBefore := h.registered name k
    simp only [ChatServer.setTask, ChatServer.setSendLoop, ChatServer.setChannel]
    obtain rfl | hOther := eq_or_ne k i
    · have hNot : s.peers name ≠ some k := fun hSome => hOutside (hBefore.mp hSome).2
      obtain rfl | hName := eq_or_ne name (trim line)
      · simp [Handling.InLoop]
      · simp [hName, hName.symm, hNot]
    · obtain rfl | hName := eq_or_ne name (trim line)
      · simpa [hOther, hOther.symm, hPeer] using hBefore
      · simpa [hOther, hName] using hBefore

theorem leave (h : s.Registered) {name : Text} (hName : (s.tasks i).name = some name)
    (hInside : (s.tasks i).handling.InLoop) : (s.leave i name).Registered := by
  have hPeer : s.peers name = some i := (h.registered name i).mpr ⟨hName, hInside⟩
  simp only [ChatServer.leave, hPeer]
  refine ⟨fun name' k => ?_, by simp [ChatServer.setTask, ChatServer.setChannel, h.asserted]⟩
  have hBefore := h.registered name' k
  simp only [ChatServer.setTask, ChatServer.setChannel]
  obtain rfl | hOther := eq_or_ne k i
  · obtain rfl | hName' := eq_or_ne name' name
    · simp [Handling.InLoop]
    · simp [hName', hName'.symm, hBefore, hName, Handling.InLoop]
  · obtain rfl | hName' := eq_or_ne name' name
    · simpa [hOther, hOther.symm, hPeer] using hBefore
    · simpa [hOther, hName'] using hBefore

variable [AsyncWriteExt ω]

theorem afterWrite (h : s.Registered) (future : ω) : (s.afterWrite i future).Registered := by
  unfold ChatServer.afterWrite
  split
  · exact h.setSendLoop _
  · exact h.setSendLoop _
  · exact (h.setChannel _).setSendLoop _

variable [SinkExt σ (ClientId × Message)]

theorem step (h : s.Registered) {act : Act} (hStep : s.step act = some s') : s'.Registered := by
  cases act with
  | connect i =>
    simp only [ChatServer.step] at hStep
    split at hStep
    · rename_i hAbsent
      cases hStep
      exact h.setTask rfl (by simp [hAbsent, Handling.InLoop])
    · cases hStep
  | readName i line =>
    simp only [ChatServer.step] at hStep
    split at hStep
    · rename_i hNaming
      cases hStep
      exact h.claim (by simp [hNaming, Handling.InLoop]) line
    · cases hStep
  | readLine i line =>
    simp only [ChatServer.step] at hStep
    split at hStep
    · rename_i name hHandling hName
      have hInside := Handling.inLoop_of_receiving hHandling
      split at hStep
      · cases hStep
        exact h.leave hName hInside
      · cases hStep
        exact h.leave hName hInside
      · cases hStep
        exact h.setTask rfl (iff_of_true trivial hInside)
    · cases hStep
  | lookUp i =>
    simp only [ChatServer.step] at hStep
    split at hStep
    · rename_i user message todo hHandling
      have hInside := Handling.inLoop_of_receiving hHandling
      split at hStep
      · cases hStep
        exact h.handle hInside _ _
      · cases hStep
        exact (h.setChannel _).setTask rfl (iff_of_true trivial hInside)
    · cases hStep
  | send i =>
    simp only [ChatServer.step] at hStep
    split at hStep
    · rename_i peer user message sender todo hHandling
      have hInside := Handling.inLoop_of_sending hHandling
      split at hStep
      · cases hStep
        exact (h.setChannel _).setTask rfl (iff_of_true trivial hInside)
      · cases hStep
        exact (h.setChannel _).handle hInside _ _
    · cases hStep
  | next i =>
    simp only [ChatServer.step] at hStep
    split at hStep
    · split at hStep
      · cases hStep
        exact h.setChannel _
      · cases hStep
        exact (h.setChannel _).afterWrite _
      · cases hStep
        exact (h.setChannel _).setSendLoop _
    · cases hStep
  | write i result =>
    simp only [ChatServer.step] at hStep
    split at hStep
    · split at hStep
      · cases hStep
      · cases hStep
        exact (h.setWritten _).afterWrite _
    · cases hStep

end Registered

variable [Mpsc χ σ (ClientId × Message)]

theorem registered_init : (init : ChatServer χ σ ω).Registered :=
  ⟨by simp [init, Handling.InLoop], rfl⟩

variable [AsyncWriteExt ω] [SinkExt σ (ClientId × Message)]

open Transition in
/-- In every run, a name is registered exactly while one task is in its `recv_loop`
under it, and removing it finds it, as the `debug_assert!` says. -/
theorem names_registered_once {acts : List Act}
    (hRun : run ChatServer.step (init : ChatServer χ σ ω) acts = some s) :
    s.asserted = true ∧
    (∀ name i, s.peers name = some i ↔
      (s.tasks i).name = some name ∧ (s.tasks i).handling.InLoop) ∧
    (∀ name i k, (s.tasks i).name = some name → (s.tasks k).name = some name →
      (s.tasks i).handling.InLoop → (s.tasks k).handling.InLoop → i = k) := by
  have hSound : s.Registered :=
    invariant_of_run (I := Registered) (fun _ _ _ h hStep => h.step hStep) registered_init hRun
  have hRegistered := hSound.registered
  refine ⟨hSound.asserted, hRegistered, fun name i k hName hName' hInside hInside' => ?_⟩
  have hPeer := (hRegistered name i).mpr ⟨hName, hInside⟩
  have hPeer' := (hRegistered name k).mpr ⟨hName', hInside'⟩
  exact Option.some.inj (hPeer.symm.trans hPeer')

open Transition in
theorem names_registered_once_taken :
    let name := "a\n".toList
    let acts : List Act := [.connect 0, .connect 1, .readName 1 name, .readName 0 name]
    ∃ s : ChatServer (Bounded (ClientId × Message)) (Holding (ClientId × Message)) WriteOn,
      run ChatServer.step init acts = some s ∧ s.peers ['a'] = some 1 ∧
        (s.tasks 1).name = some ['a'] ∧ (s.tasks 1).handling.InLoop := by
  intro name acts
  let s : ChatServer (Bounded (ClientId × Message)) (Holding (ClientId × Message)) WriteOn :=
    (run ChatServer.step init acts).get (by decide)
  have hRun : run ChatServer.step init acts = some s := (Option.some_get _).symm
  have hPeer : s.peers ['a'] = some 1 := by decide
  obtain ⟨-, hRegistered, -⟩ := names_registered_once hRun
  exact ⟨s, hRun, hPeer, (hRegistered ['a'] 1).mp hPeer⟩

end ChatServer

end Ground.Chat
