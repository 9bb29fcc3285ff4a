import Ground.Chat.Registry

/-! # Senders and receivers

What a task has sent to a client is linked to what the channel of that client has held,
and a channel to the tasks with a sender of it and to the `send_loop` that receives.
-/

namespace Ground.Chat

variable {χ σ ω : Type}

namespace Handling

/-- The sender in the registry that is there for this task. -/
def senders : Handling σ → Nat
  | .receiving _ | .sending .. => 1
  | _ => 0

theorem InLoop.senders {handling : Handling σ} (h : handling.InLoop) : handling.senders = 1 := by
  cases handling with
  | receiving => rfl
  | sending => rfl
  | _ => cases h

def target : Handling σ → Option ClientId
  | .sending peer .. => some peer
  | _ => none

def todo : Handling σ → List (Text × Message)
  | .receiving todo => todo
  | .sending _ user message _ todo => (user, message) :: todo
  | _ => []

variable [SinkExt σ (ClientId × Message)]

/-- What is in the channel of this client from a `send` that is not done. -/
def accepted (k : ClientId) : Handling σ → List Message
  | .sending peer _ message sender _ =>
    if peer = k ∧ (SinkExt.unsent sender).isNone then [message] else []
  | _ => []

/-- A `send` to this client is under the name that it has claimed, and the item is the
message of this task. -/
def Sends (i k : ClientId) (name : Option Text) : Handling σ → Prop
  | .sending peer user message sender _ =>
    peer = k → name = some user ∧ ∀ item, SinkExt.unsent sender = some item → item = (i, message)
  | _ => True

variable {handling : Handling σ}

theorem accepted_eq_nil {k : ClientId} (h : handling.target ≠ some k) :
    handling.accepted k = [] := by
  cases handling with
  | sending peer user message sender todo => exact if_neg fun hBoth => h (congrArg some hBoth.1)
  | _ => rfl

theorem mem_accepted {k : ClientId} {message : Message} (h : message ∈ handling.accepted k) :
    ∃ user sender todo, handling = .sending k user message sender todo := by
  cases handling with
  | sending peer user message' sender todo =>
    obtain ⟨⟨rfl, -⟩, hMem⟩ := List.mem_ite_nil_right.mp h
    obtain rfl := List.mem_singleton.mp hMem
    exact ⟨user, sender, todo, rfl⟩
  | _ => cases h

theorem sends_of_target_ne {i k : ClientId} {name : Option Text} (h : handling.target ≠ some k) :
    handling.Sends i k name := by
  cases handling with
  | sending peer user message sender todo => exact fun hPeer => absurd (congrArg some hPeer) h
  | _ => trivial

theorem Sends.mono {i k : ClientId} {name name' : Option Text} (h : handling.Sends i k name)
    (hName : ∀ user, name = some user → name' = some user) : handling.Sends i k name' := by
  cases handling with
  | sending peer user message sender todo =>
    exact fun hPeer => ⟨hName user (h hPeer).1, (h hPeer).2⟩
  | _ => trivial

end Handling

namespace Channel

def sentBy (channel : Channel χ σ) (i : ClientId) : List Message :=
  (channel.sent.filter (·.1 = i)).map (·.2)

variable {channel channel' : Channel χ σ} {items : List (ClientId × Message)} {i : ClientId}

theorem sentBy_append (h : channel'.sent = channel.sent ++ items) (j : ClientId) :
    channel'.sentBy j = channel.sentBy j ++ (items.filter (·.1 = j)).map (·.2) := by
  rw [sentBy, h, List.filter_append, List.map_append, ← sentBy]

variable [SinkExt σ (ClientId × Message)] {sender sender' : σ} {message : Message}

theorem sentBy_accepted_of_ne (h : channel'.sent = channel.sent ++ accepted sender sender')
    (hItem : ∀ item, SinkExt.unsent sender = some item → item = (i, message)) {j : ClientId}
    (hOther : j ≠ i) : channel'.sentBy j = channel.sentBy j := by
  rw [sentBy_append h, accepted]
  cases hUnsent : SinkExt.unsent sender with
  | none => simp
  | some item =>
    rw [hItem item hUnsent]
    split
    · simp [hOther.symm]
    · simp

/-- What a task has got through, and its latest message once that is accepted. -/
theorem sentBy_accepted (h : channel'.sent = channel.sent ++ accepted sender sender')
    (hItem : ∀ item, SinkExt.unsent sender = some item → item = (i, message))
    (hPoll : SinkExt.unsent sender' = none ∨ SinkExt.unsent sender' = SinkExt.unsent sender)
    {messages : List Message} (hBefore : channel.sentBy i =
      messages ++ if (SinkExt.unsent sender).isNone then [message] else []) :
    channel'.sentBy i =
      messages ++ if (SinkExt.unsent sender').isNone then [message] else [] := by
  rw [sentBy_append h, hBefore, accepted]
  cases hUnsent : SinkExt.unsent sender with
  | none =>
    have hNone : SinkExt.unsent sender' = none := hPoll.elim id fun hSame => hSame.trans hUnsent
    simp [hNone]
  | some item =>
    obtain rfl := hItem item hUnsent
    obtain hNone | hSame := hPoll
    · simp [hNone]
    · simp [hSame, hUnsent]

end Channel

namespace Task

def reached (task : Task σ) (k : ClientId) : List Message :=
  (task.handled.filter (·.fate = .sent k)).map (·.message)

theorem reached_append {task task' : Task σ} {handled : Handled}
    (h : task'.handled = task.handled ++ [handled]) (k : ClientId) :
    task'.reached k =
      task.reached k ++ if handled.fate = .sent k then [handled.message] else [] := by
  rw [reached, h, List.filter_append, List.map_append, ← reached]
  split
  · rename_i hFate
    simp [hFate]
  · rename_i hFate
    simp [hFate]

variable [SinkExt σ (ClientId × Message)]

def sentTo (task : Task σ) (k : ClientId) : List Message :=
  task.reached k ++ task.handling.accepted k

end Task

/-- A message that got through went to a client under the name that it was for, and one
that did not, to a client whose `send_loop` has failed. -/
def Handled.Fated (k : ClientId) (name : Option Text) (sendLoop : SendLoop ω) (h : Handled) :
    Prop :=
  (h.fate = .sent k → name = some h.user) ∧
    (h.fate = .wentAway k → name = some h.user ∧ sendLoop = .returned true)

/-- Between the task of one client and the channel of another. -/
structure Link [SinkExt σ (ClientId × Message)] (i k : ClientId) (task : Task σ)
    (name : Option Text) (channel : Channel χ σ) (sendLoop : SendLoop ω) : Prop where
  sent : channel.sentBy i = task.sentTo k
  clone : i ∈ channel.clones ↔ task.handling.target = some k
  sending : task.handling.Sends i k name
  fated : ∀ h ∈ task.handled, h.Fated k name sendLoop

section

variable [SinkExt σ (ClientId × Message)] {i k : ClientId} {task task' : Task σ}
  {name name' : Option Text} {channel channel' : Channel χ σ} {sendLoop sendLoop' : SendLoop ω}

namespace Link

/-- Names and failures stay. -/
theorem mono (h : Link i k task name channel sendLoop)
    (hName : ∀ user, name = some user → name' = some user)
    (hFailed : name ≠ none → sendLoop = .returned true → sendLoop' = .returned true) :
    Link i k task name' channel sendLoop' := by
  refine ⟨h.sent, h.clone, h.sending.mono hName, fun handled hMem => ?_⟩
  obtain ⟨hSent, hWent⟩ := h.fated handled hMem
  refine ⟨fun hFate => hName _ (hSent hFate), fun hFate => ?_⟩
  obtain ⟨hUser, hReturned⟩ := hWent hFate
  exact ⟨hName _ hUser, hFailed (by simp [hUser]) hReturned⟩

theorem setChannel (h : Link i k task name channel sendLoop)
    (hClone : i ∈ channel'.clones ↔ i ∈ channel.clones)
    (hSent : channel'.sentBy i = channel.sentBy i) : Link i k task name channel' sendLoop :=
  ⟨hSent.trans h.sent, hClone.trans h.clone, h.sending, h.fated⟩

theorem setTask (h : Link i k task name channel sendLoop)
    (hTarget : task.handling.target ≠ some k) (hTarget' : task'.handling.target ≠ some k)
    (hReached : task'.reached k = task.reached k)
    (hHandled : ∀ handled ∈ task'.handled,
      handled ∈ task.handled ∨ handled.Fated k name sendLoop) :
    Link i k task' name channel sendLoop := by
  refine ⟨?_, h.clone.trans (iff_of_false hTarget hTarget'), Handling.sends_of_target_ne hTarget',
    fun handled hMem => (hHandled handled hMem).elim (h.fated handled) id⟩
  rw [h.sent, Task.sentTo, Task.sentTo, Handling.accepted_eq_nil hTarget,
    Handling.accepted_eq_nil hTarget', hReached]

theorem clone_send (h : Link i k task name channel sendLoop) (hIdle : task.handling.target = none)
    {user : Text} {message : Message} {sender : σ} {todo : List (Text × Message)}
    (hHandling : task'.handling = .sending k user message sender todo)
    (hHandled : task'.handled = task.handled) (hUser : name = some user)
    (hUnsent : SinkExt.unsent sender = some (i, message))
    (hClones : channel'.clones = i :: channel.clones) (hSent : channel'.sent = channel.sent) :
    Link i k task' name channel' sendLoop := by
  have hBefore := h.sent
  rw [Task.sentTo, Handling.accepted_eq_nil (by simp [hIdle])] at hBefore
  refine ⟨?_, ?_, ?_, fun handled hMem => h.fated handled (hHandled ▸ hMem)⟩
  · rw [Channel.sentBy, hSent, ← Channel.sentBy, hBefore, Task.sentTo, Task.reached, Task.reached,
      hHandled, hHandling]
    simp [Handling.accepted, hUnsent]
  · simp [hClones, hHandling, Handling.target]
  · rw [hHandling]
    rintro -
    refine ⟨hUser, fun item hItem => ?_⟩
    exact Option.some.inj (hItem.symm.trans hUnsent)

section

variable {user : Text} {message : Message} {sender sender' : σ} {todo : List (Text × Message)}

theorem sentBy_of_sending (h : Link i k task name channel sendLoop)
    (hHandling : task.handling = .sending k user message sender todo) : channel.sentBy i =
      task.reached k ++ if (SinkExt.unsent sender).isNone then [message] else [] := by
  rw [h.sent, Task.sentTo, hHandling]
  simp [Handling.accepted]

theorem item_of_sending (h : Link i k task name channel sendLoop)
    (hHandling : task.handling = .sending k user message sender todo) :
    name = some user ∧ ∀ item, SinkExt.unsent sender = some item → item = (i, message) := by
  have hSends := h.sending
  rw [hHandling] at hSends
  exact hSends rfl

theorem pending (h : Link i k task name channel sendLoop)
    (hHandling : task.handling = .sending k user message sender todo)
    (hHandling' : task'.handling = .sending k user message sender' todo)
    (hHandled : task'.handled = task.handled)
    (hPoll : SinkExt.unsent sender' = none ∨ SinkExt.unsent sender' = SinkExt.unsent sender)
    (hClones : channel'.clones = channel.clones)
    (hSent : channel'.sent = channel.sent ++ Channel.accepted sender sender') :
    Link i k task' name channel' sendLoop := by
  obtain ⟨hUser, hItem⟩ := h.item_of_sending hHandling
  refine ⟨?_, ?_, ?_, fun handled hMem => h.fated handled (hHandled ▸ hMem)⟩
  · rw [Channel.sentBy_accepted hSent hItem hPoll (h.sentBy_of_sending hHandling), Task.sentTo,
      Task.reached, Task.reached, hHandled, hHandling']
    simp [Handling.accepted]
  · rw [hClones, h.clone, hHandling, hHandling']
    rfl
  · rw [hHandling']
    rintro -
    refine ⟨hUser, fun item hUnsent => ?_⟩
    obtain hNone | hSame := hPoll
    · cases hNone.symm.trans hUnsent
    · exact hItem item (hSame.symm.trans hUnsent)

theorem ready (h : Link i k task name channel sendLoop)
    (hHandling : task.handling = .sending k user message sender todo)
    (hIdle : task'.handling.target = none) {fate : Fate}
    (hHandled : task'.handled = task.handled ++ [⟨user, message, fate⟩])
    (hPoll : SinkExt.unsent sender' = none ∨ SinkExt.unsent sender' = SinkExt.unsent sender)
    (hFate : fate = .sent k ∧ SinkExt.unsent sender' = none ∨
      fate = .wentAway k ∧ SinkExt.unsent sender' ≠ none ∧ sendLoop = .returned true)
    (hClone : i ∉ channel'.clones)
    (hSent : channel'.sent = channel.sent ++ Channel.accepted sender sender') :
    Link i k task' name channel' sendLoop := by
  obtain ⟨hUser, hItem⟩ := h.item_of_sending hHandling
  refine ⟨?_, by simp [hClone, hIdle], Handling.sends_of_target_ne (by simp [hIdle]),
    fun handled hMem => ?_⟩
  · rw [Channel.sentBy_accepted hSent hItem hPoll (h.sentBy_of_sending hHandling), Task.sentTo,
      Task.reached_append hHandled, Handling.accepted_eq_nil (by simp [hIdle]), List.append_nil]
    obtain ⟨rfl, hNone⟩ | ⟨rfl, hSome, -⟩ := hFate
    · simp [hNone]
    · simp [hSome]
  · rw [hHandled, List.mem_append, List.mem_singleton] at hMem
    obtain hOld | rfl := hMem
    · exact h.fated handled hOld
    · obtain ⟨rfl, -⟩ | ⟨rfl, -, hFailed⟩ := hFate
      · exact ⟨fun _ => hUser, by simp⟩
      · exact ⟨by simp, fun _ => ⟨hUser, hFailed⟩⟩

end

end Link

end

/-- Each client with its channel and its `send_loop`. -/
structure Host [Mpsc χ σ (ClientId × Message)] (task : Task σ) (channel : Channel χ σ)
    (sendLoop : SendLoop ω) : Prop where
  unspawned : task.name = none → sendLoop = .absent ∧ channel = .new
  nodup : channel.clones.Nodup
  senders : task.name ≠ none →
    Mpsc.senders channel.mpsc = channel.clones.length + task.handling.senders
  returned : Mpsc.closed channel.mpsc = true → ∃ failed, sendLoop = .returned failed
  queued : (∀ failed, sendLoop ≠ .returned failed) →
    channel.received ++ Mpsc.queue channel.mpsc = channel.sent
  received : channel.received <+: channel.sent
  ended : sendLoop = .returned false →
    channel.clones = [] ∧ task.handling.senders = 0 ∧ channel.received = channel.sent

namespace Host

variable [Mpsc χ σ (ClientId × Message)] {task task' : Task σ} {channel : Channel χ σ}
  {sendLoop : SendLoop ω} {i : ClientId}

theorem setTask (h : Host task channel sendLoop) (hName : task'.name = task.name)
    (hSenders : task'.handling.senders = task.handling.senders) : Host task' channel sendLoop := by
  refine ⟨fun hNone => h.unspawned (hName.symm.trans hNone), h.nodup, fun hSome => ?_, h.returned,
    h.queued, h.received, fun hReturned => ?_⟩
  · rw [hSenders]
    exact h.senders (hName ▸ hSome)
  · rw [hSenders]
    exact h.ended hReturned

theorem name_of_mem (h : Host task channel sendLoop) (hMem : i ∈ channel.clones) :
    task.name ≠ none := by
  intro hNone
  rw [(h.unspawned hNone).2] at hMem
  cases hMem

/-- A `send_loop` does not end while a clone is left. -/
theorem not_ended (h : Host task channel sendLoop) (hMem : i ∈ channel.clones) :
    sendLoop ≠ .returned false := by
  intro hReturned
  rw [(h.ended hReturned).1] at hMem
  cases hMem

theorem setSendLoop (h : Host task channel sendLoop) {sendLoop' : SendLoop ω}
    (hSpawned : sendLoop ≠ .absent) (hRuns : ∀ failed, sendLoop ≠ .returned failed)
    (hRuns' : ∀ failed, sendLoop' ≠ .returned failed) : Host task channel sendLoop' := by
  refine ⟨fun hNone => absurd (h.unspawned hNone).1 hSpawned, h.nodup, h.senders,
    fun hClosed => ?_, fun _ => h.queued hRuns, h.received,
    fun hReturned => absurd hReturned (hRuns' false)⟩
  obtain ⟨failed, hReturned⟩ := h.returned hClosed
  exact absurd hReturned (hRuns failed)

theorem receive (h : Host task channel (.waiting : SendLoop ω)) {mpsc : χ}
    {items : List (ClientId × Message)}
    (hQueue : Mpsc.queue channel.mpsc = items ++ Mpsc.queue mpsc)
    (hSenders : Mpsc.senders mpsc = Mpsc.senders channel.mpsc)
    (hClosed : Mpsc.closed mpsc = Mpsc.closed channel.mpsc) :
    Host task { channel with mpsc, received := channel.received ++ items }
      (.waiting : SendLoop ω) := by
  have hQueued := h.queued (by simp)
  rw [hQueue, ← List.append_assoc] at hQueued
  refine ⟨fun hNone => ?_, h.nodup, fun hName => hSenders.trans (h.senders hName),
    fun hGone => h.returned (hClosed.symm.trans hGone), fun _ => hQueued, ?_, by simp⟩
  · cases (h.unspawned hNone).1
  · rw [← hQueued]
    exact List.prefix_append _ _

variable [SinkExt σ (ClientId × Message)] [LawfulMpsc χ σ (ClientId × Message)]

theorem clone (h : Host task channel sendLoop) (hName : task.name ≠ none)
    (hInLoop : task.handling.InLoop) (hFree : i ∉ channel.clones) :
    Host task
      { channel with
        mpsc := (Mpsc.clone channel.sender channel.mpsc).2
        clones := i :: channel.clones } sendLoop := by
  refine ⟨fun hNone => absurd hNone hName, List.nodup_cons.mpr ⟨hFree, h.nodup⟩, fun _ => ?_,
    fun hClosed => h.returned ?_, fun hOpen => ?_, h.received, fun hReturned => ?_⟩
  · rw [LawfulMpsc.senders_clone, h.senders hName, List.length_cons]
    omega
  · rwa [LawfulMpsc.closed_clone] at hClosed
  · rw [LawfulMpsc.queue_clone]
    exact h.queued hOpen
  · have hNone := (h.ended hReturned).2.1
    rw [hInLoop.senders] at hNone
    cases hNone

theorem queue_pollSend (sender : σ) (c : χ) : Mpsc.queue (Mpsc.pollSend sender c).2.2 =
    Mpsc.queue c ++ Channel.accepted sender (Mpsc.pollSend sender c).2.1 := by
  unfold Channel.accepted
  obtain ⟨hSame, hQueue⟩ | ⟨hNone, hQueue⟩ := LawfulMpsc.unsent_pollSend sender c
  · rw [hSame, hQueue]
    cases SinkExt.unsent sender with
    | none => exact (List.append_nil _).symm
    | some item => exact (List.append_nil _).symm
  · rw [hNone, hQueue]
    rfl

theorem pollSend (h : Host task channel sendLoop) (hMem : i ∈ channel.clones) (sender : σ) :
    Host task (channel.pollSend sender).2.2 sendLoop := by
  refine ⟨fun hNone => absurd hNone (h.name_of_mem hMem), h.nodup, fun hName => ?_,
    fun hClosed => h.returned ?_, fun hOpen => ?_, ?_, fun hReturned => ?_⟩
  · exact (LawfulMpsc.senders_pollSend sender channel.mpsc).trans (h.senders hName)
  · exact (LawfulMpsc.closed_pollSend sender channel.mpsc).symm.trans hClosed
  · have hQueue := queue_pollSend sender channel.mpsc
    have hQueued := h.queued hOpen
    simp only [Channel.pollSend, hQueue, ← hQueued, List.append_assoc]
  · exact h.received.trans (List.prefix_append _ _)
  · exact absurd hReturned (h.not_ended hMem)

theorem dropClone (h : Host task channel sendLoop) (hMem : i ∈ channel.clones) (sender : σ) :
    Host task
      { channel with
        mpsc := Mpsc.dropSender sender channel.mpsc
        clones := channel.clones.erase i } sendLoop := by
  refine ⟨fun hNone => absurd hNone (h.name_of_mem hMem), h.nodup.erase i, fun hName => ?_,
    fun hClosed => h.returned ?_, fun hOpen => ?_, h.received, fun hReturned => ?_⟩
  · have hPositive := List.length_pos_of_mem hMem
    rw [LawfulMpsc.senders_dropSender, h.senders hName, List.length_erase_of_mem hMem]
    omega
  · rwa [LawfulMpsc.closed_dropSender] at hClosed
  · rw [LawfulMpsc.queue_dropSender]
    exact h.queued hOpen
  · exact absurd hReturned (h.not_ended hMem)

theorem finish (h : Host task channel (.waiting : SendLoop ω))
    (hNone : (Mpsc.pollNext channel.mpsc).1 = .ready none) :
    Host task
      { channel with mpsc := Mpsc.dropReceiver (Mpsc.pollNext channel.mpsc).2 }
      (.returned false : SendLoop ω) := by
  obtain ⟨hSenders, hQueue⟩ := LawfulMpsc.pollNext_none hNone
  have hQueued := h.queued (by simp)
  rw [hQueue, List.append_nil] at hQueued
  have hName : task.name ≠ none := by
    intro hNone
    cases (h.unspawned hNone).1
  have hGone := h.senders hName
  rw [hSenders] at hGone
  have hClones : channel.clones = [] := List.eq_nil_of_length_eq_zero (by omega)
  refine ⟨fun hNone => absurd hNone hName, h.nodup, fun _ => ?_, fun _ => ⟨false, rfl⟩, by simp,
    h.received, fun _ => ⟨hClones, by omega, hQueued⟩⟩
  rw [LawfulMpsc.senders_dropReceiver, LawfulMpsc.senders_pollNext]
  exact h.senders hName

theorem fail (h : Host task channel sendLoop) (hSpawned : sendLoop ≠ .absent) :
    Host task { channel with mpsc := Mpsc.dropReceiver channel.mpsc }
      (.returned true : SendLoop ω) := by
  refine ⟨fun hNone => absurd (h.unspawned hNone).1 hSpawned, h.nodup, fun hName => ?_,
    fun _ => ⟨true, rfl⟩, by simp, h.received, by simp⟩
  rw [LawfulMpsc.senders_dropReceiver]
  exact h.senders hName

theorem claim (hName : task.name ≠ none) (hInLoop : task.handling.InLoop) :
    Host task (.new : Channel χ σ) (.waiting : SendLoop ω) := by
  refine ⟨fun hNone => absurd hNone hName, List.nodup_nil, fun _ => ?_, fun hClosed => ?_,
    fun _ => LawfulMpsc.queue_channel 16, List.nil_prefix, by simp⟩
  · rw [hInLoop.senders]
    exact LawfulMpsc.senders_channel 16
  · cases (LawfulMpsc.closed_channel 16).symm.trans hClosed

theorem leave (h : Host task channel sendLoop) (hName : task.name ≠ none)
    (hName' : task'.name = task.name) (hInLoop : task.handling.InLoop)
    (hOutside : task'.handling.senders = 0) :
    Host task' { channel with mpsc := Mpsc.dropSender channel.sender channel.mpsc } sendLoop := by
  refine ⟨fun hNone => absurd (hName'.symm.trans hNone) hName, h.nodup, fun _ => ?_,
    fun hClosed => h.returned ?_, fun hOpen => ?_, h.received, fun hReturned => ?_⟩
  · rw [LawfulMpsc.senders_dropSender, h.senders hName, hInLoop.senders, hOutside]
    rfl
  · rwa [LawfulMpsc.closed_dropSender] at hClosed
  · rw [LawfulMpsc.queue_dropSender]
    exact h.queued hOpen
  · have hNone := (h.ended hReturned).2.1
    rw [hInLoop.senders] at hNone
    cases hNone

end Host

end Ground.Chat
