import Ground.Chat.Links

/-! # Every message is accounted for

Each client is written whole lines, in order, each from a client that had claimed the
name it shows, and for the name that this client has claimed. What is not written was
for nobody, or its reader went away.
-/

namespace Ground.Chat

open Transition

variable {χ σ ω : Type}

def formats (items : List (ClientId × Message)) : List UInt8 :=
  items.flatMap fun item => asBytes item.2.format

structure Task.Accounts (task : Task σ) : Prop where
  early : task.handling = .absent ∨ task.handling = .naming → task.name = none
  unnamed : task.name = none → task.lines = [] ∧ task.handled = [] ∧ ¬ task.handling.InLoop
  routed : ∀ name, task.name = some name →
    task.handled.map (fun h => (h.user, h.message)) ++ task.handling.todo =
      task.lines.flatMap (outgoing name)
  lines : ∀ line ∈ task.lines, '\n' ∉ line
  name : ∀ name, task.name = some name → '\n' ∉ name

theorem Task.Accounts.handle {task : Task σ} (h : task.Accounts) {handled : Handled}
    {todo : List (Text × Message)}
    (hTodo : task.handling.todo = (handled.user, handled.message) :: todo)
    (hInside : task.handling.InLoop) :
    ({ task with handled := task.handled ++ [handled], handling := .receiving todo } :
      Task σ).Accounts := by
  refine ⟨by simp, fun hNone => ?_, fun name hName => ?_, h.lines, h.name⟩
  · exact absurd hInside (h.unnamed hNone).2.2
  · rw [← h.routed name hName, hTodo]
    simp [Handling.todo]

theorem Task.Accounts.setHandling {task : Task σ} (h : task.Accounts) {handling : Handling σ}
    (hInside : task.handling.InLoop) (hTodo : handling.todo = task.handling.todo)
    (hLate : handling ≠ .absent ∧ handling ≠ .naming) :
    ({ task with handling } : Task σ).Accounts := by
  refine ⟨fun hEarly => ?_, fun hNone => ?_, fun name hName => ?_, h.lines, h.name⟩
  · exact (hEarly.elim hLate.1 hLate.2).elim
  · exact absurd hInside (h.unnamed hNone).2.2
  · rw [← h.routed name hName, hTodo]

/-- What is written of the messages that a `send_loop` has received. -/
def SendLoop.Wrote [AsyncWriteExt ω] (written : List UInt8)
    (received : List (ClientId × Message)) : SendLoop ω → Prop
  | .writing future => ∃ buf, AsyncWriteExt.next future = .inl buf ∧ buf ≠ [] ∧
      written ++ buf = formats received
  | .returned true => written <+: formats received
  | _ => written = formats received

namespace ChatServer

variable {s s' : ChatServer χ σ ω} {i peer : ClientId} {task : Task σ} {channel : Channel χ σ}
  {sendLoop : SendLoop ω}

theorem received_update (hReceived : channel.received = (s.channels i).received) (k : ClientId) :
    (Function.update s.channels i channel k).received = (s.channels k).received := by
  obtain rfl | hOther := eq_or_ne k i
  · rw [Function.update_self, hReceived]
  · rw [Function.update_of_ne hOther]

variable [SinkExt σ (ClientId × Message)] [Mpsc χ σ (ClientId × Message)]

structure Wired (s : ChatServer χ σ ω) : Prop where
  registered : s.Registered
  accounts : ∀ i, (s.tasks i).Accounts
  hosts : ∀ k, Host (s.tasks k) (s.channels k) (s.sendLoops k)
  links : ∀ i k, Link i k (s.tasks i) (s.tasks k).name (s.channels k) (s.sendLoops k)

namespace Wired

theorem accounts_update (h : s.Wired) (hAccounts : task.Accounts) (j : ClientId) :
    (Function.update s.tasks i task j).Accounts := by
  obtain rfl | hOther := eq_or_ne j i
  · rwa [Function.update_self]
  · rw [Function.update_of_ne hOther]
    exact h.accounts j

theorem links_update (h : s.Wired) (hName : task.name = (s.tasks i).name)
    (hOthers : ∀ j ≠ i, Link j peer (s.tasks j) (s.tasks peer).name channel (s.sendLoops peer))
    (hOwn : Link i peer task (s.tasks peer).name channel (s.sendLoops peer))
    (hElse : ∀ k ≠ peer, Link i k task (s.tasks k).name (s.channels k) (s.sendLoops k))
    (j k : ClientId) :
    Link j k (Function.update s.tasks i task j) (Function.update s.tasks i task k).name
      (Function.update s.channels peer channel k) (s.sendLoops k) := by
  have hNames : (Function.update s.tasks i task k).name = (s.tasks k).name := by
    obtain rfl | hOther := eq_or_ne k i
    · rw [Function.update_self, hName]
    · rw [Function.update_of_ne hOther]
  rw [hNames]
  obtain rfl | hPeer := eq_or_ne k peer
  · rw [Function.update_self]
    obtain rfl | hOther := eq_or_ne j i
    · rwa [Function.update_self]
    · rw [Function.update_of_ne hOther]
      exact hOthers j hOther
  · rw [Function.update_of_ne hPeer]
    obtain rfl | hOther := eq_or_ne j i
    · rw [Function.update_self]
      exact hElse k hPeer
    · rw [Function.update_of_ne hOther]
      exact h.links j k

theorem setBoth (h : s.Wired) (hName : task.name = (s.tasks i).name)
    (hInLoop : task.handling.InLoop ↔ (s.tasks i).handling.InLoop)
    (hSenders : task.handling.senders = (s.tasks i).handling.senders) (hAccounts : task.Accounts)
    (hHost : Host (s.tasks peer) channel (s.sendLoops peer))
    (hOthers : ∀ j ≠ i, Link j peer (s.tasks j) (s.tasks peer).name channel (s.sendLoops peer))
    (hOwn : Link i peer task (s.tasks peer).name channel (s.sendLoops peer))
    (hElse : ∀ k ≠ peer, Link i k task (s.tasks k).name (s.channels k) (s.sendLoops k)) :
    ((s.setChannel peer channel).setTask i task).Wired := by
  refine ⟨(h.registered.setChannel channel).setTask hName hInLoop, h.accounts_update hAccounts,
    fun k => ?_, h.links_update hName hOthers hOwn hElse⟩
  have hClient : Host (s.tasks k) (Function.update s.channels peer channel k) (s.sendLoops k) := by
    obtain rfl | hPeer := eq_or_ne k peer
    · rwa [Function.update_self]
    · rw [Function.update_of_ne hPeer]
      exact h.hosts k
  simp only [ChatServer.setTask, ChatServer.setChannel]
  obtain rfl | hOther := eq_or_ne k i
  · rw [Function.update_self]
    exact hClient.setTask hName hSenders
  · rwa [Function.update_of_ne hOther]

theorem setTask (h : s.Wired) (hName : task.name = (s.tasks i).name)
    (hInLoop : task.handling.InLoop ↔ (s.tasks i).handling.InLoop)
    (hSenders : task.handling.senders = (s.tasks i).handling.senders) (hAccounts : task.Accounts)
    (hLinks : ∀ k, Link i k task (s.tasks k).name (s.channels k) (s.sendLoops k)) :
    (s.setTask i task).Wired := by
  have hBoth := h.setBoth hName hInLoop hSenders hAccounts (h.hosts i) (fun j _ => h.links j i)
    (hLinks i) fun k _ => hLinks k
  rwa [ChatServer.setChannel, Function.update_eq_self] at hBoth

theorem setClient (h : s.Wired) (hHost : Host (s.tasks i) channel sendLoop)
    (hClones : channel.clones = (s.channels i).clones)
    (hSent : channel.sent = (s.channels i).sent) (hRuns : s.sendLoops i ≠ .returned true) :
    ((s.setChannel i channel).setSendLoop i sendLoop).Wired := by
  refine ⟨(h.registered.setChannel channel).setSendLoop sendLoop, h.accounts, fun k => ?_,
    fun j k => ?_⟩
  · simp only [ChatServer.setSendLoop, ChatServer.setChannel]
    obtain rfl | hOther := eq_or_ne k i
    · simpa using hHost
    · simpa [hOther] using h.hosts k
  · simp only [ChatServer.setSendLoop, ChatServer.setChannel]
    obtain rfl | hOther := eq_or_ne k i
    · have hLink : Link j k (s.tasks j) (s.tasks k).name channel (s.sendLoops k) :=
        (h.links j k).setChannel (by rw [hClones])
          (by rw [Channel.sentBy, hSent, ← Channel.sentBy])
      simpa using hLink.mono (fun _ => id) fun _ hFailed => absurd hFailed hRuns
    · simpa [hOther] using h.links j k

theorem connect (h : s.Wired) (hAbsent : (s.tasks i).handling = .absent) :
    (s.setTask i { s.tasks i with handling := .naming }).Wired := by
  have hAccounts := h.accounts i
  have hUnnamed := hAccounts.early (.inl hAbsent)
  obtain ⟨hLines, hHandled, -⟩ := hAccounts.unnamed hUnnamed
  refine h.setTask rfl ?_ ?_ ?_ fun k => ?_
  · simp [hAbsent, Handling.InLoop]
  · simp [hAbsent, Handling.senders]
  · refine ⟨fun _ => hUnnamed, fun _ => ⟨hLines, hHandled, id⟩, fun name hName => ?_,
      hAccounts.lines, hAccounts.name⟩
    cases hUnnamed.symm.trans hName
  · exact (h.links i k).setTask (by simp [hAbsent, Handling.target]) (by simp [Handling.target])
      rfl fun _ hMem => .inl hMem

theorem receive (h : s.Wired) {name line : Text}
    (hHandling : (s.tasks i).handling = .receiving []) (hName : (s.tasks i).name = some name)
    (hLine : '\n' ∉ line) :
    (s.setTask i
      { s.tasks i with
        lines := (s.tasks i).lines ++ [line]
        handling := .receiving (outgoing name line) }).Wired := by
  have hAccounts := h.accounts i
  refine h.setTask rfl ?_ ?_ ?_ fun k => ?_
  · simp [hHandling, Handling.InLoop]
  · simp [hHandling, Handling.senders]
  · refine ⟨by simp, fun hNone => ?_, fun name' hName' => ?_, fun line' hMem => ?_,
      hAccounts.name⟩
    · cases hName.symm.trans hNone
    · obtain rfl := Option.some.inj (hName.symm.trans hName')
      have hRouted := hAccounts.routed name hName
      rw [hHandling, Handling.todo, List.append_nil] at hRouted
      simp only [hRouted, Handling.todo, List.flatMap_append, List.flatMap_singleton]
    · rw [List.mem_append, List.mem_singleton] at hMem
      obtain hOld | rfl := hMem
      · exact hAccounts.lines line' hOld
      · exact hLine
  · exact (h.links i k).setTask (by simp [hHandling, Handling.target])
      (by simp [Handling.target]) rfl fun _ hMem => .inl hMem

theorem skip (h : s.Wired) {user : Text} {message : Message} {todo : List (Text × Message)}
    (hHandling : (s.tasks i).handling = .receiving ((user, message) :: todo)) :
    (s.handle i ⟨user, message, .noSuchUser⟩ todo).Wired := by
  have hInside := Handling.inLoop_of_receiving hHandling
  refine h.setTask rfl (iff_of_true trivial hInside) hInside.senders.symm
    ((h.accounts i).handle (by rw [hHandling, Handling.todo]) hInside) fun k => ?_
  refine (h.links i k).setTask (by simp [hHandling, Handling.target]) (by simp [Handling.target])
    ?_ fun handled hMem => ?_
  · refine (Task.reached_append rfl k).trans ?_
    simp
  · rw [List.mem_append, List.mem_singleton] at hMem
    refine hMem.imp_right ?_
    rintro rfl
    exact ⟨by simp, by simp⟩

theorem reject (h : s.Wired) (hNaming : (s.tasks i).handling = .naming) :
    (s.setTask i { s.tasks i with handling := .returned }).Wired := by
  have hAccounts := h.accounts i
  have hUnnamed := hAccounts.early (.inr hNaming)
  obtain ⟨hLines, hHandled, -⟩ := hAccounts.unnamed hUnnamed
  refine h.setTask rfl ?_ ?_ ?_ fun k => ?_
  · simp [hNaming, Handling.InLoop]
  · simp [hNaming, Handling.senders]
  · refine ⟨by simp, fun _ => ⟨hLines, hHandled, id⟩, fun name hName => ?_, hAccounts.lines,
      hAccounts.name⟩
    cases hUnnamed.symm.trans hName
  · exact (h.links i k).setTask (by simp [hNaming, Handling.target]) (by simp [Handling.target])
      rfl fun _ hMem => .inl hMem

variable [LawfulMpsc χ σ (ClientId × Message)]

theorem claim (h : s.Wired) (hNaming : (s.tasks i).handling = .naming) {line : Text}
    (hLine : IsLine line) : (s.claim i line).Wired := by
  have hAccounts := h.accounts i
  have hUnnamed := hAccounts.early (.inr hNaming)
  obtain ⟨hLines, hHandled, hOutside⟩ := hAccounts.unnamed hUnnamed
  have hRegistered := h.registered.claim hOutside line
  revert hRegistered
  simp only [ChatServer.claim]
  cases hPeer : s.peers (trim line) with
  | some peer =>
    rintro -
    exact h.reject hNaming
  | none =>
    intro hRegistered
    obtain ⟨hAbsent, hNew⟩ := (h.hosts i).unspawned hUnnamed
    refine ⟨hRegistered, h.accounts_update ?_, fun k => ?_, fun j k => ?_⟩
    · refine ⟨by simp, by simp, ?_, hAccounts.lines, ?_⟩
      · rintro _ ⟨⟩
        simp [ChatServer.setSendLoop, ChatServer.setChannel, hHandled, hLines, Handling.todo]
      · rintro _ ⟨⟩
        exact hLine.trim
    · simp only [ChatServer.setTask, ChatServer.setSendLoop, ChatServer.setChannel]
      obtain rfl | hOther := eq_or_ne k i
      · simp only [Function.update_self]
        exact Host.claim (by simp) trivial
      · simpa [hOther] using h.hosts k
    · simp only [ChatServer.setTask, ChatServer.setSendLoop, ChatServer.setChannel, ← hNew,
        Function.update_eq_self]
      have hTask : Link j k
          (Function.update s.tasks i
            { s.tasks i with name := some (trim line), handling := .receiving [] } j)
          (s.tasks k).name (s.channels k) (s.sendLoops k) := by
        obtain rfl | hOther := eq_or_ne j i
        · rw [Function.update_self]
          exact (h.links j k).setTask (by simp [hNaming, Handling.target])
            (by simp [Handling.target]) rfl fun _ hMem => .inl hMem
        · rw [Function.update_of_ne hOther]
          exact h.links j k
      obtain rfl | hOther := eq_or_ne k i
      · exact hTask.mono (by simp [hUnnamed]) (by simp [hUnnamed])
      · simpa [hOther] using hTask

theorem leave (h : s.Wired) {name : Text} (hHandling : (s.tasks i).handling = .receiving [])
    (hName : (s.tasks i).name = some name) : (s.leave i name).Wired := by
  have hAccounts := h.accounts i
  have hInside := Handling.inLoop_of_receiving hHandling
  have hPeer := (h.registered.registered name i).mpr ⟨hName, hInside⟩
  have hRegistered := h.registered.leave hName hInside
  have hOwn : ∀ k, Link i k { s.tasks i with handling := .returned } (s.tasks k).name
      (s.channels k) (s.sendLoops k) := fun k =>
    (h.links i k).setTask (by simp [hHandling, Handling.target]) (by simp [Handling.target]) rfl
      fun _ hMem => .inl hMem
  revert hRegistered
  simp only [ChatServer.leave, hPeer]
  intro hRegistered
  refine ⟨hRegistered, h.accounts_update ?_, fun k => ?_, h.links_update rfl
    (fun j _ => (h.links j i).setChannel Iff.rfl rfl) ((hOwn i).setChannel Iff.rfl rfl)
    fun k _ => hOwn k⟩
  · exact hAccounts.setHandling hInside (by simp [hHandling, Handling.todo]) (by simp)
  · simp only [ChatServer.setTask, ChatServer.setChannel]
    obtain rfl | hOther := eq_or_ne k i
    · simp only [Function.update_self]
      exact (h.hosts k).leave (by simp [hName]) rfl hInside rfl
    · simpa [hOther] using h.hosts k

theorem lookUp (h : s.Wired) {user : Text} {message : Message} {todo : List (Text × Message)}
    (hHandling : (s.tasks i).handling = .receiving ((user, message) :: todo))
    (hPeer : s.peers user = some peer) {sender : σ}
    (hUnsent : SinkExt.unsent sender = some (i, message)) :
    ((s.setChannel peer { s.channels peer with
        mpsc := (Mpsc.clone (s.channels peer).sender (s.channels peer).mpsc).2
        clones := i :: (s.channels peer).clones }).setTask i
      { s.tasks i with handling := .sending peer user message sender todo }).Wired := by
  have hAccounts := h.accounts i
  have hInside := Handling.inLoop_of_receiving hHandling
  have hIdle : (s.tasks i).handling.target = none := by
    rw [hHandling]
    rfl
  obtain ⟨hUser, hInLoop⟩ := (h.registered.registered user peer).mp hPeer
  have hFree : i ∉ (s.channels peer).clones := by
    intro hMem
    cases hIdle.symm.trans ((h.links i peer).clone.mp hMem)
  refine h.setBoth rfl (iff_of_true trivial hInside) hInside.senders.symm ?_
    ((h.hosts peer).clone (by simp [hUser]) hInLoop hFree) (fun j hOther => ?_) ?_
    fun k hPeer' => ?_
  · exact hAccounts.setHandling hInside (by simp [hHandling, Handling.todo]) (by simp)
  · exact (h.links j peer).setChannel (by simp [hOther]) rfl
  · exact (h.links i peer).clone_send hIdle rfl rfl hUser hUnsent rfl rfl
  · exact (h.links i k).setTask (by simp [hIdle]) (by simpa [Handling.target] using hPeer'.symm)
      rfl fun _ hMem => .inl hMem

section

variable {user : Text} {message : Message} {sender : σ} {todo : List (Text × Message)}

theorem pending (h : s.Wired)
    (hHandling : (s.tasks i).handling = .sending peer user message sender todo) :
    let polled := (s.channels peer).pollSend sender
    ((s.setChannel peer polled.2.2).setTask i
      { s.tasks i with handling := .sending peer user message polled.2.1 todo }).Wired := by
  intro polled
  have hAccounts := h.accounts i
  have hInside := Handling.inLoop_of_sending hHandling
  have hTarget : (s.tasks i).handling.target = some peer := by
    rw [hHandling]
    rfl
  have hMem := (h.links i peer).clone.mpr hTarget
  obtain ⟨-, hItem⟩ := (h.links i peer).item_of_sending hHandling
  have hPoll : SinkExt.unsent polled.2.1 = none ∨
      SinkExt.unsent polled.2.1 = SinkExt.unsent sender :=
    (LawfulMpsc.unsent_pollSend sender (s.channels peer).mpsc).symm.imp And.left And.left
  refine h.setBoth rfl (iff_of_true trivial hInside) hInside.senders.symm ?_
    ((h.hosts peer).pollSend hMem sender) (fun j hOther => ?_) ?_ fun k hPeer => ?_
  · exact hAccounts.setHandling hInside (by simp [hHandling, Handling.todo]) (by simp)
  · exact (h.links j peer).setChannel Iff.rfl (Channel.sentBy_accepted_of_ne rfl hItem hOther)
  · exact (h.links i peer).pending hHandling rfl rfl hPoll rfl rfl
  · exact (h.links i k).setTask (by simpa [hTarget] using hPeer.symm)
      (by simpa [Handling.target] using hPeer.symm) rfl fun _ hMem => .inl hMem

theorem ready (h : s.Wired)
    (hHandling : (s.tasks i).handling = .sending peer user message sender todo)
    {result : Except Unit Unit}
    (hReady : ((s.channels peer).pollSend sender).1 = .ready result) :
    let polled := (s.channels peer).pollSend sender
    let fate := Fate.of peer result
    ((s.setChannel peer
        { polled.2.2 with
          mpsc := Mpsc.dropSender polled.2.1 polled.2.2.mpsc
          clones := polled.2.2.clones.erase i }).setTask i
      { s.tasks i with
        handled := (s.tasks i).handled ++ [⟨user, message, fate⟩]
        handling := .receiving todo }).Wired := by
  intro polled fate
  have hInside := Handling.inLoop_of_sending hHandling
  have hTarget : (s.tasks i).handling.target = some peer := by
    rw [hHandling]
    rfl
  have hMem := (h.links i peer).clone.mpr hTarget
  obtain ⟨-, hItem⟩ := (h.links i peer).item_of_sending hHandling
  have hPoll : SinkExt.unsent polled.2.1 = none ∨
      SinkExt.unsent polled.2.1 = SinkExt.unsent sender :=
    (LawfulMpsc.unsent_pollSend sender (s.channels peer).mpsc).symm.imp And.left And.left
  have hFate : fate = .sent peer ∧ SinkExt.unsent polled.2.1 = none ∨
      fate = .wentAway peer ∧ SinkExt.unsent polled.2.1 ≠ none ∧
        s.sendLoops peer = .returned true := by
    cases result with
    | ok => exact .inl ⟨rfl, LawfulMpsc.pollSend_ok hReady⟩
    | error =>
      obtain ⟨hSome, hClosed⟩ := LawfulMpsc.pollSend_error hReady
      obtain ⟨failed, hReturned⟩ := (h.hosts peer).returned hClosed
      cases failed with
      | false => exact absurd hReturned ((h.hosts peer).not_ended hMem)
      | true => exact .inr ⟨rfl, hSome, hReturned⟩
  have hElse : ∀ k, k ≠ peer → fate ≠ .sent k ∧ fate ≠ .wentAway k := by
    intro k hPeer
    obtain ⟨hSent, -⟩ | ⟨hWent, -⟩ := hFate
    · simp [hSent, hPeer.symm]
    · simp [hWent, hPeer.symm]
  refine h.setBoth rfl (iff_of_true trivial hInside) hInside.senders.symm
    ((h.accounts i).handle (by rw [hHandling, Handling.todo]) hInside)
    (((h.hosts peer).pollSend hMem sender).dropClone hMem polled.2.1) (fun j hOther => ?_) ?_
    fun k hPeer => ?_
  · exact (h.links j peer).setChannel (List.mem_erase_of_ne hOther)
      (Channel.sentBy_accepted_of_ne rfl hItem hOther)
  · exact (h.links i peer).ready hHandling rfl rfl hPoll hFate
      ((h.hosts peer).nodup.not_mem_erase) rfl
  · obtain ⟨hSent, hWent⟩ := hElse k hPeer
    refine (h.links i k).setTask (by simpa [hTarget] using hPeer.symm)
      (by simp [Handling.target]) ?_ fun handled hMem => ?_
    · refine (Task.reached_append rfl k).trans ?_
      rw [if_neg hSent, List.append_nil]
    · rw [List.mem_append, List.mem_singleton] at hMem
      refine hMem.imp_right ?_
      rintro rfl
      exact ⟨fun hFate => absurd hFate hSent, fun hFate => absurd hFate hWent⟩

end

omit [LawfulMpsc χ σ (ClientId × Message)] in
theorem setSendLoop (h : s.Wired) (hSpawned : s.sendLoops i ≠ .absent)
    (hRuns : ∀ failed, s.sendLoops i ≠ .returned failed)
    (hRuns' : ∀ failed, sendLoop ≠ .returned failed) : (s.setSendLoop i sendLoop).Wired := by
  have hClient := h.setClient ((h.hosts i).setSendLoop hSpawned hRuns hRuns') rfl rfl (hRuns true)
  rwa [ChatServer.setChannel, Function.update_eq_self] at hClient

end Wired

variable [AsyncWriteExt ω]

structure Sound (s : ChatServer χ σ ω) : Prop where
  wired : s.Wired
  wrote : ∀ k, (s.sendLoops k).Wrote (s.written k) (s.channels k).received

/-- The first line and the next ones are as `read_line` and `lines` yield them, and a
write takes some of its buffer. -/
def Assumed (s : ChatServer χ σ ω) : Act → Prop
  | .readName _ line => IsLine line
  | .readLine _ (some (.ok line)) => '\n' ∉ line
  | .write i (.ok count) => ∀ future buf, s.sendLoops i = .writing future →
      AsyncWriteExt.next future = .inl buf → 0 < count ∧ count ≤ buf.length
  | _ => True

theorem sound_init [LawfulMpsc χ σ (ClientId × Message)] : (init : ChatServer χ σ ω).Sound := by
  refine ⟨⟨registered_init, fun i => ?_, fun k => ?_, fun i k => ?_⟩, fun k => rfl⟩
  · exact ⟨fun _ => rfl, fun _ => ⟨rfl, rfl, id⟩, by simp [init], by simp [init], by simp [init]⟩
  · exact ⟨fun _ => ⟨rfl, rfl⟩, List.nodup_nil, by simp [init],
      fun hClosed => (by cases (LawfulMpsc.closed_channel 16).symm.trans hClosed),
      fun _ => LawfulMpsc.queue_channel 16, List.nil_prefix, by simp [init]⟩
  · exact ⟨rfl, by simp [init, Channel.new, Handling.target], trivial, by simp [init]⟩

namespace Sound

/-- Nothing is received or written. -/
theorem of_wired (h : s.Sound) (hWired : s'.Wired) (hLoops : s'.sendLoops = s.sendLoops)
    (hWritten : s'.written = s.written)
    (hReceived : ∀ k, (s'.channels k).received = (s.channels k).received) : s'.Sound := by
  refine ⟨hWired, fun k => ?_⟩
  rw [hLoops, hWritten, hReceived]
  exact h.wrote k

/-- What a task has sent to a client is for the name of that client. -/
theorem user_of_sentTo (h : s.Sound) {k : ClientId} {message : Message}
    (hMem : message ∈ (s.tasks i).sentTo k) : (s.tasks i).name ≠ none ∧
      ∃ user, (s.tasks k).name = some user ∧
        (user, message) ∈ (s.tasks i).handled.map (fun h => (h.user, h.message)) ++
          (s.tasks i).handling.todo := by
  have hAccounts := h.wired.accounts i
  obtain hReached | hAccepted := List.mem_append.mp hMem
  · obtain ⟨handled, hHandled, rfl⟩ := List.mem_map.mp hReached
    obtain ⟨hHandled, hFate⟩ := List.mem_filter.mp hHandled
    refine ⟨fun hNone => ?_, handled.user, ?_, ?_⟩
    · rw [(hAccounts.unnamed hNone).2.1] at hHandled
      cases hHandled
    · exact ((h.wired.links i k).fated handled hHandled).1 (of_decide_eq_true hFate)
    · exact List.mem_append_left _ (List.mem_map.mpr ⟨handled, hHandled, rfl⟩)
  · obtain ⟨user, sender, todo, hHandling⟩ := Handling.mem_accepted hAccepted
    refine ⟨fun hNone => (hAccounts.unnamed hNone).2.2 ?_, user, ?_, ?_⟩
    · rw [hHandling]
      trivial
    · exact ((h.wired.links i k).item_of_sending hHandling).1
    · rw [hHandling]
      exact List.mem_append_right _ List.mem_cons_self

/-- Where a message in a channel is from. -/
theorem source (h : s.Sound) {k : ClientId} {item : ClientId × Message}
    (hMem : item ∈ (s.channels k).sent) :
    (s.tasks item.1).name = some item.2.sender ∧
      (∃ line ∈ (s.tasks item.1).lines, ∃ user, (s.tasks k).name = some user ∧
        (user, item.2) ∈ outgoing item.2.sender line) ∧
      '\n' ∉ item.2.sender ∧ '\n' ∉ item.2.text := by
  obtain ⟨i, message⟩ := item
  have hAccounts := h.wired.accounts i
  have hSent : message ∈ (s.tasks i).sentTo k := by
    rw [← (h.wired.links i k).sent]
    exact List.mem_map.mpr ⟨(i, message), by simpa using hMem, rfl⟩
  obtain ⟨hNamed, user, hUser, hRouted⟩ := h.user_of_sentTo hSent
  obtain ⟨name, hName⟩ := Option.ne_none_iff_exists'.mp hNamed
  rw [hAccounts.routed name hName] at hRouted
  obtain ⟨line, hLine, hOutgoing⟩ := List.mem_flatMap.mp hRouted
  obtain ⟨rfl, hText⟩ := outgoing_message hOutgoing (hAccounts.lines line hLine)
  exact ⟨hName, ⟨line, hLine, user, hUser, hOutgoing⟩, hAccounts.name _ hName, hText⟩

variable [LawfulMpsc χ σ (ClientId × Message)] {future : ω}

theorem afterWrite (hWired : s.Wired)
    (hOthers : ∀ k ≠ i, (s.sendLoops k).Wrote (s.written k) (s.channels k).received)
    (hSpawned : s.sendLoops i ≠ .absent) (hRuns : ∀ failed, s.sendLoops i ≠ .returned failed)
    (hOutcome : (∃ buf, AsyncWriteExt.next future = .inl buf ∧ buf ≠ [] ∧
        s.written i ++ buf = formats (s.channels i).received) ∨
      AsyncWriteExt.next future = .inr (.ok ()) ∧
        s.written i = formats (s.channels i).received ∨
      ∃ e, AsyncWriteExt.next future = .inr (.error e) ∧
        s.written i <+: formats (s.channels i).received) :
    (s.afterWrite i future).Sound := by
  have hLoop : ∀ sendLoop : SendLoop ω,
      sendLoop.Wrote (s.written i) (s.channels i).received → ∀ k,
        (Function.update s.sendLoops i sendLoop k).Wrote (s.written k)
          (s.channels k).received := by
    intro sendLoop hWrote k
    obtain rfl | hOther := eq_or_ne k i
    · rwa [Function.update_self]
    · rw [Function.update_of_ne hOther]
      exact hOthers k hOther
  obtain ⟨buf, hNext, hWrote⟩ | ⟨hNext, hWrote⟩ | ⟨e, hNext, hWrote⟩ := hOutcome
  · simp only [ChatServer.afterWrite, hNext]
    exact ⟨hWired.setSendLoop hSpawned hRuns (by simp), hLoop _ ⟨buf, hNext, hWrote⟩⟩
  · simp only [ChatServer.afterWrite, hNext]
    exact ⟨hWired.setSendLoop hSpawned hRuns (by simp), hLoop _ hWrote⟩
  · simp only [ChatServer.afterWrite, hNext]
    refine ⟨hWired.setClient ((hWired.hosts i).fail hSpawned) rfl rfl (hRuns true), fun k => ?_⟩
    simp only [ChatServer.setSendLoop, ChatServer.setChannel]
    rw [received_update (by rfl)]
    exact hLoop (.returned true) hWrote k

theorem claim (h : s.Sound) (hNaming : (s.tasks i).handling = .naming) {line : Text}
    (hLine : IsLine line) : (s.claim i line).Sound := by
  have hWired := h.wired.claim hNaming hLine
  have hUnnamed := (h.wired.accounts i).early (.inr hNaming)
  obtain ⟨hAbsent, hNew⟩ := (h.wired.hosts i).unspawned hUnnamed
  revert hWired
  simp only [ChatServer.claim]
  cases hPeer : s.peers (trim line) with
  | some peer => exact fun hWired => h.of_wired hWired rfl rfl fun _ => rfl
  | none =>
    refine fun hWired => ⟨hWired, fun k => ?_⟩
    have hBefore := h.wrote k
    simp only [ChatServer.setTask, ChatServer.setSendLoop, ChatServer.setChannel, ← hNew,
      Function.update_eq_self]
    obtain rfl | hOther := eq_or_ne k i
    · rw [Function.update_self]
      rwa [hAbsent] at hBefore
    · rwa [Function.update_of_ne hOther]

theorem leave (h : s.Sound) {name : Text} (hHandling : (s.tasks i).handling = .receiving [])
    (hName : (s.tasks i).name = some name) : (s.leave i name).Sound := by
  refine h.of_wired (h.wired.leave hHandling hName) ?_ ?_ fun k => ?_
  · simp only [ChatServer.leave]
    split <;> rfl
  · simp only [ChatServer.leave]
    split <;> rfl
  · simp only [ChatServer.leave]
    split
    · rfl
    · exact received_update (by rfl) k

variable [LawfulAsyncWriteExt ω]

theorem next (h : s.Sound) (hStep : s.step (.next i) = some s') : s'.Sound := by
  have hHost := h.wired.hosts i
  have hWrote := h.wrote i
  simp only [ChatServer.step] at hStep
  split at hStep
  · rename_i hWaiting
    rw [hWaiting] at hHost hWrote
    have hSenders := LawfulMpsc.senders_pollNext (s.channels i).mpsc
    have hClosed := LawfulMpsc.closed_pollNext (s.channels i).mpsc
    have hRuns : s.sendLoops i ≠ .returned true := by simp [hWaiting]
    have hReceive : ∀ items,
        Mpsc.queue (s.channels i).mpsc =
          items ++ Mpsc.queue (Mpsc.pollNext (s.channels i).mpsc).2 →
        (s.setChannel i { s.channels i with
          mpsc := (Mpsc.pollNext (s.channels i).mpsc).2
          received := (s.channels i).received ++ items }).Wired := by
      intro items hQueue
      have hClient := h.wired.setClient (hHost.receive hQueue hSenders hClosed) rfl rfl hRuns
      rwa [ChatServer.setSendLoop, ← hWaiting, ChatServer.setChannel,
        Function.update_eq_self] at hClient
    split at hStep
    · rename_i hPending
      cases hStep
      have hWired := hReceive [] (LawfulMpsc.pollNext_pending hPending).symm
      rw [List.append_nil] at hWired
      exact h.of_wired hWired rfl rfl (received_update (by rfl))
    · rename_i item hSome
      cases hStep
      have hWired := hReceive [item] (LawfulMpsc.pollNext_some hSome)
      have hFormat := asBytes_format_ne_nil item.2
      refine afterWrite hWired (fun k hOther => ?_) (by simp [ChatServer.setChannel, hWaiting])
        (by simp [ChatServer.setChannel, hWaiting])
        (.inl ⟨_, LawfulAsyncWriteExt.next_writeAll hFormat, hFormat, ?_⟩)
      · simpa [ChatServer.setChannel, hOther] using h.wrote k
      · have hWritten : s.written i = formats (s.channels i).received := hWrote
        simp [ChatServer.setChannel, hWritten, formats]
    · rename_i hNone
      cases hStep
      refine ⟨h.wired.setClient (hHost.finish hNone) rfl rfl hRuns, fun k => ?_⟩
      simp only [ChatServer.setSendLoop, ChatServer.setChannel]
      rw [received_update (by rfl)]
      obtain rfl | hOther := eq_or_ne k i
      · rw [Function.update_self]
        exact hWrote
      · rw [Function.update_of_ne hOther]
        exact h.wrote k
  · cases hStep

theorem write (h : s.Sound) {result : Except Error Nat}
    (hAssumed : s.Assumed (.write i result)) (hStep : s.step (.write i result) = some s') :
    s'.Sound := by
  have hWrote := h.wrote i
  simp only [ChatServer.step] at hStep
  split at hStep
  · rename_i future hWriting
    split at hStep
    · cases hStep
    · rename_i buf hNext
      cases hStep
      rw [hWriting] at hWrote
      obtain ⟨buf', hNext', hSome, hWritten⟩ := hWrote
      obtain rfl := Sum.inl.inj (hNext'.symm.trans hNext)
      have hWired : (s.setWritten i (s.written i ++ taken buf' result)).Wired :=
        ⟨h.wired.registered.setWritten _, h.wired.accounts, h.wired.hosts, h.wired.links⟩
      refine afterWrite hWired (fun k hOther => ?_) ?_ ?_ ?_
      · simpa [ChatServer.setWritten, hOther] using h.wrote k
      · simp [ChatServer.setWritten, hWriting]
      · simp [ChatServer.setWritten, hWriting]
      · simp only [ChatServer.setWritten, Function.update_self]
        cases result with
        | error e =>
          refine .inr (.inr ⟨e, LawfulAsyncWriteExt.next_error hNext, ?_⟩)
          rw [taken, List.append_nil, ← hWritten]
          exact List.prefix_append _ _
        | ok count =>
          obtain ⟨hCount, hBound⟩ := hAssumed future buf' hWriting hNext
          obtain hPart | rfl := hBound.lt_or_eq
          · refine .inl ⟨buf'.drop count, LawfulAsyncWriteExt.next_part hNext hCount hPart, ?_, ?_⟩
            · exact List.drop_eq_nil_iff.not.mpr (by omega)
            · rw [taken, List.append_assoc, List.take_append_drop, hWritten]
          · refine .inr (.inl ⟨LawfulAsyncWriteExt.next_whole hNext hSome, ?_⟩)
            rw [taken, List.take_length, hWritten]
  · cases hStep

theorem step (h : s.Sound) {act : Act} (hAssumed : s.Assumed act)
    (hStep : s.step act = some s') : s'.Sound := by
  cases act with
  | connect i =>
    simp only [ChatServer.step] at hStep
    split at hStep
    · rename_i hAbsent
      cases hStep
      exact h.of_wired (h.wired.connect hAbsent) rfl rfl fun _ => rfl
    · cases hStep
  | readName i line =>
    simp only [ChatServer.step] at hStep
    split at hStep
    · rename_i hNaming
      cases hStep
      exact h.claim hNaming hAssumed
    · cases hStep
  | readLine i line =>
    simp only [ChatServer.step] at hStep
    split at hStep
    · rename_i name hHandling hName
      split at hStep
      · cases hStep
        exact h.leave hHandling hName
      · cases hStep
        exact h.leave hHandling hName
      · cases hStep
        exact h.of_wired (h.wired.receive hHandling hName hAssumed) rfl rfl fun _ => rfl
    · cases hStep
  | lookUp i =>
    simp only [ChatServer.step] at hStep
    split at hStep
    · rename_i user message todo hHandling
      split at hStep
      · cases hStep
        exact h.of_wired (h.wired.skip hHandling) rfl rfl fun _ => rfl
      · rename_i peer hPeer
        cases hStep
        have hUnsent := LawfulMpsc.unsent_send χ (i, message)
          (Mpsc.clone (s.channels peer).sender (s.channels peer).mpsc).1
        exact h.of_wired (h.wired.lookUp hHandling hPeer hUnsent) rfl rfl
          (received_update (by rfl))
    · cases hStep
  | send i =>
    simp only [ChatServer.step] at hStep
    split at hStep
    · rename_i peer user message sender todo hHandling
      split at hStep
      · cases hStep
        exact h.of_wired (h.wired.pending hHandling) rfl rfl (received_update (by rfl))
      · rename_i result hReady
        cases hStep
        exact h.of_wired (h.wired.ready hHandling hReady) rfl rfl (received_update (by rfl))
    · cases hStep
  | next i => exact h.next hStep
  | write i result => exact h.write hAssumed hStep

end Sound

variable [LawfulMpsc χ σ (ClientId × Message)] [LawfulAsyncWriteExt ω]

/-- In every run, each user that a line names is dealt with once, in order, and what was
sent to a client under its name is what its channel has held. From there it is written
to the client, in order and as whole lines, until a write fails or the task ends; the
task ends only when all of it is written. Every message shows the name of the client
that it is from. -/
theorem messages_accounted {acts : List Act}
    (hAssumed : Meets ChatServer.step Assumed (init : ChatServer χ σ ω) acts)
    (hRun : run ChatServer.step init acts = some s) :
    (∀ i name, (s.tasks i).name = some name →
      (s.tasks i).handled.map (fun h => (h.user, h.message)) ++ (s.tasks i).handling.todo =
        (s.tasks i).lines.flatMap (outgoing name)) ∧
    (∀ i k, ∀ h ∈ (s.tasks i).handled, h.Fated k (s.tasks k).name (s.sendLoops k)) ∧
    (∀ i k, (s.channels k).sentBy i = (s.tasks i).sentTo k) ∧
    (∀ k, (s.sendLoops k).Wrote (s.written k) (s.channels k).received ∧
      (s.channels k).received <+: (s.channels k).sent ∧
      (s.sendLoops k = .returned false → s.written k = formats (s.channels k).sent) ∧
      ((∀ failed, s.sendLoops k ≠ .returned failed) →
        (s.channels k).received ++ Mpsc.queue (s.channels k).mpsc = (s.channels k).sent)) ∧
    (∀ k, ∀ item ∈ (s.channels k).sent, (s.tasks item.1).name = some item.2.sender ∧
      (∃ line ∈ (s.tasks item.1).lines, ∃ user, (s.tasks k).name = some user ∧
        (user, item.2) ∈ outgoing item.2.sender line) ∧
      '\n' ∉ item.2.sender ∧ '\n' ∉ item.2.text) := by
  have hSound : s.Sound := invariant_of_meets (I := Sound)
    (fun _ _ _ h hOk hStep => h.step hOk hStep) sound_init hAssumed hRun
  refine ⟨fun i => (hSound.wired.accounts i).routed, fun i k => (hSound.wired.links i k).fated,
    fun i k => (hSound.wired.links i k).sent, fun k => ?_, fun k item hMem => hSound.source hMem⟩
  have hHost := hSound.wired.hosts k
  have hWrote := hSound.wrote k
  refine ⟨hWrote, hHost.received, fun hReturned => ?_, hHost.queued⟩
  rw [hReturned, (hHost.ended hReturned).2.2] at hWrote
  exact hWrote

theorem messages_accounted_one :
    let acts : List Act :=
      [.connect 0, .connect 1, .readName 0 "a\n".toList, .readName 1 "b\n".toList,
        .readLine 1 (some (.ok "x,a: hi".toList)), .lookUp 1, .lookUp 1, .send 1, .next 0,
        .write 0 (.ok 11)]
    ∃ s : ChatServer (Bounded (ClientId × Message)) (Holding (ClientId × Message)) WriteOn,
      run ChatServer.step init acts = some s ∧
      (s.channels 0).sentBy 1 = [⟨['b'], ['h', 'i']⟩] ∧
      s.written 0 = asBytes "from b: hi\n".toList := by
  intro acts
  let s : ChatServer (Bounded (ClientId × Message)) (Holding (ClientId × Message)) WriteOn :=
    (run ChatServer.step init acts).get (by decide)
  have hRun : run ChatServer.step init acts = some s := (Option.some_get _).symm
  have hAssumed : Meets ChatServer.step Assumed
      (init : ChatServer (Bounded (ClientId × Message)) (Holding (ClientId × Message)) WriteOn)
      acts := by
    have hLine : '\n' ∉ "x,a: hi".toList := by decide
    refine .cons trivial rfl (.cons trivial rfl (.cons ⟨['a'], by decide, .inr rfl⟩ rfl ?_))
    refine .cons ⟨['b'], by decide, .inr rfl⟩ rfl (.cons hLine rfl (.cons trivial rfl ?_))
    refine .cons trivial rfl (.cons trivial rfl (.cons trivial rfl ?_))
    refine ⟨?_, fun _ _ => trivial⟩
    rintro future buf ⟨⟩ ⟨⟩
    decide
  obtain ⟨-, -, hSent, hWrote, -⟩ := messages_accounted hAssumed hRun
  have hTo : (s.tasks 1).sentTo 0 = [⟨['b'], ['h', 'i']⟩] := by decide
  have hReceived : (s.channels 0).received = [(1, ⟨['b'], ['h', 'i']⟩)] := by decide
  have hWaiting : s.sendLoops 0 = .waiting := by rfl
  have hWritten := (hWrote 0).1
  rw [hWaiting, hReceived] at hWritten
  exact ⟨s, hRun, (hSent 1 0).trans hTo, hWritten⟩

end ChatServer

end Ground.Chat
