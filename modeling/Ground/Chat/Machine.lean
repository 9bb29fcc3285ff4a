import Ground.Chat.Channel
import Ground.Chat.Text
import Ground.Foundation.Transition
import Ground.Stream.Ext
import Mathlib.Logic.Function.Basic

/-! # The chat server

`chat-server.rs`: a task for each client, which claims a name and routes what it reads,
and one for each name, which writes what is routed to it. Between any two awaits of a
task the others may run. What `read_line` and `lines` yield comes from the clients.
-/

namespace Ground.Chat

abbrev ClientId := Nat

variable {χ σ ω : Type}

inductive Fate where
  | sent (peer : ClientId)
  | noSuchUser
  | wentAway (peer : ClientId)
  deriving DecidableEq

def Fate.of (peer : ClientId) : Except Unit Unit → Fate
  | .ok () => .sent peer
  | .error () => .wentAway peer

structure Handled where
  user : Text
  message : Message
  fate : Fate
  deriving DecidableEq

/-- Where `handle_client` is: not spawned, at its first line, in `recv_loop` with the rest
of a line, or there with a clone of the sender of this peer, or at its end. -/
inductive Handling (σ : Type) where
  | absent
  | naming
  | receiving (todo : List (Text × Message))
  | sending (peer : ClientId) (user : Text) (message : Message) (sender : σ)
      (todo : List (Text × Message))
  | returned

structure Task (σ : Type) where
  handling : Handling σ
  name : Option Text
  lines : List Text
  handled : List Handled

/-- With the sender in the registry and with those who hold a clone of it. Each message
is with the client that it is from. -/
structure Channel (χ σ : Type) where
  mpsc : χ
  sender : σ
  clones : List ClientId
  sent : List (ClientId × Message)
  received : List (ClientId × Message)

inductive SendLoop (ω : Type) where
  | absent
  | waiting
  | writing (future : ω)
  | returned (failed : Bool)

structure ChatServer (χ σ ω : Type) where
  peers : Text → Option ClientId
  tasks : ClientId → Task σ
  channels : ClientId → Channel χ σ
  sendLoops : ClientId → SendLoop ω
  written : ClientId → List UInt8
  asserted : Bool

namespace ChatServer

def setTask (s : ChatServer χ σ ω) (i : ClientId) (task : Task σ) : ChatServer χ σ ω :=
  { s with tasks := Function.update s.tasks i task }

def setChannel (s : ChatServer χ σ ω) (i : ClientId) (channel : Channel χ σ) :
    ChatServer χ σ ω :=
  { s with channels := Function.update s.channels i channel }

def setSendLoop (s : ChatServer χ σ ω) (i : ClientId) (sendLoop : SendLoop ω) :
    ChatServer χ σ ω :=
  { s with sendLoops := Function.update s.sendLoops i sendLoop }

def setWritten (s : ChatServer χ σ ω) (i : ClientId) (written : List UInt8) :
    ChatServer χ σ ω :=
  { s with written := Function.update s.written i written }

end ChatServer

variable [SinkExt σ (ClientId × Message)] [Mpsc χ σ (ClientId × Message)]

namespace Channel

def new : Channel χ σ :=
  let (sender, mpsc) := Mpsc.channel 16
  { mpsc, sender, clones := [], sent := [], received := [] }

omit [Mpsc χ σ (ClientId × Message)] in
/-- What a poll of a `send` has put into its channel. -/
def accepted (sender sender' : σ) : List (ClientId × Message) :=
  if (SinkExt.unsent sender').isNone then (SinkExt.unsent sender).toList else []

def pollSend (channel : Channel χ σ) (sender : σ) :
    Poll (Except Unit Unit) × σ × Channel χ σ :=
  let (result, sender', mpsc) := Mpsc.pollSend sender channel.mpsc
  (result, sender', { channel with mpsc, sent := channel.sent ++ accepted sender sender' })

end Channel

namespace ChatServer

def init : ChatServer χ σ ω where
  peers _ := none
  tasks _ := { handling := .absent, name := none, lines := [], handled := [] }
  channels _ := .new
  sendLoops _ := .absent
  written _ := []
  asserted := true

/-- The first line and the next of `lines` come from the client, and so does the result of
a write to it. -/
inductive Act where
  | connect (i : ClientId)
  | readName (i : ClientId) (line : Text)
  | readLine (i : ClientId) (line : Option (Except Error Text))
  | lookUp (i : ClientId)
  | send (i : ClientId)
  | next (i : ClientId)
  | write (i : ClientId) (result : Except Error Nat)

def claim (s : ChatServer χ σ ω) (i : ClientId) (line : Text) : ChatServer χ σ ω :=
  let name := trim line
  match s.peers name with
  | some _ => s.setTask i { s.tasks i with handling := .returned }
  | none =>
    let s := { s with peers := Function.update s.peers name (some i) }
    let s := (s.setChannel i .new).setSendLoop i .waiting
    s.setTask i { s.tasks i with name := some name, handling := .receiving [] }

def leave (s : ChatServer χ σ ω) (i : ClientId) (name : Text) : ChatServer χ σ ω :=
  let removed := s.peers name
  let s := { s with
    peers := Function.update s.peers name none
    asserted := s.asserted && removed.isSome }
  let s := match removed with
    | none => s
    | some peer =>
      let channel := s.channels peer
      s.setChannel peer { channel with mpsc := Mpsc.dropSender channel.sender channel.mpsc }
  s.setTask i { s.tasks i with handling := .returned }

def handle (s : ChatServer χ σ ω) (i : ClientId) (handled : Handled)
    (todo : List (Text × Message)) : ChatServer χ σ ω :=
  let task := s.tasks i
  s.setTask i { task with handled := task.handled ++ [handled], handling := .receiving todo }

def taken (buf : List UInt8) : Except Error Nat → List UInt8
  | .ok count => buf.take count
  | .error _ => []

variable [AsyncWriteExt ω]

/-- `send_loop` after a poll of `write_all`. When it fails, the receiver is dropped. -/
def afterWrite (s : ChatServer χ σ ω) (i : ClientId) (future : ω) : ChatServer χ σ ω :=
  match AsyncWriteExt.next future with
  | .inl _ => s.setSendLoop i (.writing future)
  | .inr (.ok ()) => s.setSendLoop i .waiting
  | .inr (.error _) =>
    let channel := s.channels i
    let s := s.setChannel i { channel with mpsc := Mpsc.dropReceiver channel.mpsc }
    s.setSendLoop i (.returned true)

def step (s : ChatServer χ σ ω) : Act → Option (ChatServer χ σ ω)
  | .connect i =>
    match (s.tasks i).handling with
    | .absent => some (s.setTask i { s.tasks i with handling := .naming })
    | _ => none
  | .readName i line =>
    match (s.tasks i).handling with
    | .naming => some (s.claim i line)
    | _ => none
  | .readLine i line =>
    let task := s.tasks i
    match task.handling, task.name with
    | .receiving [], some name =>
      match line with
      | none | some (.error _) => some (s.leave i name)
      | some (.ok line) =>
        let task := { task with lines := task.lines ++ [line] }
        some (s.setTask i { task with handling := .receiving (outgoing name line) })
    | _, _ => none
  | .lookUp i =>
    let task := s.tasks i
    match task.handling with
    | .receiving ((user, message) :: todo) =>
      match s.peers user with
      | none => some (s.handle i ⟨user, message, .noSuchUser⟩ todo)
      | some peer =>
        let channel := s.channels peer
        let (sender, mpsc) := Mpsc.clone channel.sender channel.mpsc
        let s := s.setChannel peer { channel with mpsc, clones := i :: channel.clones }
        let sender := SinkExt.send (i, message) sender
        some (s.setTask i { task with handling := .sending peer user message sender todo })
    | _ => none
  | .send i =>
    let task := s.tasks i
    match task.handling with
    | .sending peer user message sender todo =>
      let (result, sender, channel) := (s.channels peer).pollSend sender
      match result with
      | .pending =>
        let s := s.setChannel peer channel
        some (s.setTask i { task with handling := .sending peer user message sender todo })
      | .ready result =>
        let s := s.setChannel peer
          { channel with
            mpsc := Mpsc.dropSender sender channel.mpsc
            clones := channel.clones.erase i }
        some (s.handle i ⟨user, message, .of peer result⟩ todo)
    | _ => none
  | .next i =>
    let channel := s.channels i
    match s.sendLoops i with
    | .waiting =>
      let (result, mpsc) := Mpsc.pollNext channel.mpsc
      match result with
      | .pending => some (s.setChannel i { channel with mpsc })
      | .ready (some item) =>
        let s := s.setChannel i { channel with mpsc, received := channel.received ++ [item] }
        some (s.afterWrite i (AsyncWriteExt.writeAll (asBytes item.2.format)))
      | .ready none =>
        let s := s.setChannel i { channel with mpsc := Mpsc.dropReceiver mpsc }
        some (s.setSendLoop i (.returned false))
    | _ => none
  | .write i result =>
    match s.sendLoops i with
    | .writing future =>
      match AsyncWriteExt.next future with
      | .inr _ => none
      | .inl buf =>
        let s := s.setWritten i (s.written i ++ taken buf result)
        some (s.afterWrite i (AsyncWriteExt.resume future result))
    | _ => none

end ChatServer

end Ground.Chat
