import Ground.Edge.Paid

/-! # Data behind the descriptors

Behind each descriptor is a file: what its peer has sent and is not read yet, and
what is written and the peer has not fetched yet. The system calls of the closures act
on it while a poll runs. How they do is the kernel's, and only assumed here.
-/

namespace Ground

open Mask Transition

variable {T τ φ α R : Type} [AsRawFd T]

def EINVAL : Errno := 22

/-- A stream of bytes, or a listener with its backlog of connections. `recv` is for
buffers of this length in all. -/
class File (φ : Type) (α : outParam Type) where
  unread : φ → List α
  ended : φ → Prop
  unsent : φ → List α
  readable : φ → Bool
  writable : φ → Bool
  recv : Nat → φ → Except Errno (List α) × φ
  accept : φ → Except Errno α × φ
  send : List α → φ → Except Errno Nat × φ

structure Call (φ α R : Type) where
  interest : Interest
  run : φ → Except Errno R × φ
  received : R → List α
  sent : R → List α

namespace File

variable [File φ α]

def readiness (file : φ) : Events := directions (readable file) (writable file)

def read (length : Nat) : Call φ α (List α) where
  interest := .read
  run := recv length
  received items := items
  sent _ := []

def next : Call φ α α where
  interest := .read
  run := accept
  received connection := [connection]
  sent _ := []

def write (buf : List α) : Call φ α Nat where
  interest := .write
  run := send buf
  received _ := []
  sent count := buf.take count

/-- One state of a file comes after another without a call: these items have arrived, the
peer has fetched those, and what is unread or unsent is not lost. -/
structure Changes (file file' : φ) (arrived fetched : List α) : Prop where
  unread : File.unread file' = File.unread file ++ arrived
  unsent : File.unsent file = fetched ++ File.unsent file'
  ended : ended file → ended file' ∧ arrived = []

end File

/-- The call moves what its result says, and nothing when it fails. It blocks only when
nothing is ready in its direction. An end stays. -/
structure Call.Obeys [File φ α] (call : Call φ α R) : Prop where
  ok : ∀ file result, (call.run file).1 = .ok result →
    call.received result ++ File.unread (call.run file).2 = File.unread file ∧
      File.unsent (call.run file).2 = File.unsent file ++ call.sent result
  error : ∀ file errno, (call.run file).1 = .error errno →
    File.unread (call.run file).2 = File.unread file ∧
      File.unsent (call.run file).2 = File.unsent file
  blocks : ∀ file, (call.run file).1 = .error EAGAIN →
    call.interest.asEvents &&& File.readiness file = 0#32
  ended : ∀ file, File.ended file → File.ended (call.run file).2

/-- What the documentation of the calls and of epoll promises. -/
class LawfulFile (φ : Type) (α : outParam Type) [File φ α] : Prop where
  read (length : Nat) : (File.read length : Call φ α (List α)).Obeys
  next : (File.next : Call φ α α).Obeys
  write (buf : List α) : (File.write buf : Call φ α Nat).Obeys
  recv_nil {length : Nat} {file : φ} : length ≠ 0 → (File.recv length file).1 = .ok [] →
    File.unread file = [] ∧ File.ended file
  send_ok {buf : List α} {file : φ} {count : Nat} : buf ≠ [] →
    (File.send buf file).1 = .ok count → 0 < count ∧ count ≤ buf.length
  readable_of_unread {file : φ} : File.unread file ≠ [] → File.readable file = true

/-- What has passed through a descriptor: what its peer has sent and fetched, and what
polls have reported as read and written. -/
structure Account (α : Type) where
  arrived : List α
  received : List α
  accepted : List α
  fetched : List α

namespace Account

def new [File φ α] (file : φ) : Account α where
  arrived := File.unread file
  received := []
  accepted := File.unsent file
  fetched := []

def change (account : Account α) (arrived fetched : List α) : Account α :=
  { account with
    arrived := account.arrived ++ arrived
    fetched := account.fetched ++ fetched }

def report (account : Account α) (received sent : List α) : Account α :=
  { account with
    received := account.received ++ received
    accepted := account.accepted ++ sent }

end Account

structure Traffic (T τ φ α : Type) where
  edge : Edge T τ
  files : RawFd → φ
  accounts : RawFd → Account α

namespace Traffic

variable [File φ α]

def init (files : RawFd → φ) : Traffic T τ φ α where
  edge := .init fun fd => File.readiness (files fd)
  files := files
  accounts fd := .new (files fd)

/-- The thread, and then the kernel and the peers: `reopen` opens another file under
this number, and a change may queue a registered descriptor `again`. -/
inductive Act (T τ φ α : Type) where
  | new (addr : Addr) (fcntl : Fcntl) (value : T)
  | take (addr : Addr)
  | drop (addr : Addr)
  | read (addr : Addr) (waker : Waker τ) (length : Nat)
  | accept (addr : Addr) (waker : Waker τ)
  | write (addr : Addr) (waker : Waker τ) (buf : List α)
  | register
  | wait (fds : List RawFd)
  | deliver
  | reopen (fd : RawFd) (file : φ)
  | change (fd : RawFd) (file : φ) (arrived fetched : List α) (again : Bool)

def setFile (s : Traffic T τ φ α) (fd : RawFd) (file : φ) : Traffic T τ φ α :=
  { s with
    edge := s.edge.withKernel (s.edge.kernel.become fd (File.readiness file))
    files := Function.update s.files fd file }

def notify (s : Traffic T τ φ α) (fd : RawFd) (again : Bool) : Traffic T τ φ α :=
  if again then { s with edge := s.edge.notify fd } else s

/-- The closure that makes this system call on the descriptor of the wrapped value. -/
def syscall (files : RawFd → φ) (call : Call φ α R) : Closure T R :=
  fun value => (.ret ((call.run (files (asRawFd value))).1.mapError Error.fromRawOsError), value)

/-- The first half of a poll with this system call, and what the call of a poll that
is ready has returned. -/
def poll (s : Traffic T τ φ α) (addr : Addr) (waker : Waker τ) (call : Call φ α R) :
    Option (Option (RawFd × Except Errno R) × Traffic T τ φ α) := do
  let this ← s.edge.world.asyncs addr
  let edge ← s.edge.step (.poll addr waker call.interest (syscall s.files call))
  let s' := { s with edge }
  match this.inner, (this.pollAttempt waker call.interest (syscall s.files call)).1 with
  | some inner, .finished _ =>
    let fd := asRawFd inner
    let (result, file) := call.run (s.files fd)
    some (some (fd, result), s'.setFile fd file)
  | some inner, .blocked _ =>
    let fd := asRawFd inner
    some (none, s'.setFile fd (call.run (s.files fd)).2)
  | _, _ => some (none, s')

def book (s : Traffic T τ φ α) (fd : RawFd) (entry : Account α → Account α) : Traffic T τ φ α :=
  { s with accounts := Function.update s.accounts fd (entry (s.accounts fd)) }

def booked (call : Call φ α R) :
    Option (RawFd × Except Errno R) × Traffic T τ φ α → Traffic T τ φ α
  | (some (fd, .ok result), s) =>
    s.book fd fun account => account.report (call.received result) (call.sent result)
  | (_, s) => s

def polled (s : Traffic T τ φ α) (addr : Addr) (waker : Waker τ) (call : Call φ α R) :
    Option (Traffic T τ φ α) :=
  (s.poll addr waker call).map (booked call)

def below (s : Traffic T τ φ α) (act : Edge.Act T τ Unit) : Option (Traffic T τ φ α) :=
  (s.edge.step act).map fun edge => { s with edge }

def step (s : Traffic T τ φ α) : Act T τ φ α → Option (Traffic T τ φ α)
  | .new addr fcntl value => s.below (.new addr fcntl value)
  | .take addr => s.below (.take addr)
  | .drop addr => s.below (.drop addr)
  | .read addr waker length => s.polled addr waker (File.read length)
  | .accept addr waker => s.polled addr waker File.next
  | .write addr waker buf => s.polled addr waker (File.write buf)
  | .register => s.below .register
  | .wait fds => s.below (.wait fds)
  | .deliver => s.below .deliver
  | .reopen fd file => some ((s.setFile fd file).book fd fun _ => .new file)
  | .change fd file arrived fetched again =>
    let s := (s.setFile fd file).notify fd again
    some (s.book fd fun account => account.change arrived fetched)

end Traffic

structure Buffered (α : Type) where
  unread : List α
  hungUp : Bool
  unsent : List α
  capacity : Nat

namespace Buffered

def recv (length : Nat) (file : Buffered α) : Except Errno (List α) × Buffered α :=
  if length = 0 then (.ok [], file)
  else if file.unread = [] then (if file.hungUp then .ok [] else .error EAGAIN, file)
  else (.ok (file.unread.take length), { file with unread := file.unread.drop length })

def accept (file : Buffered α) : Except Errno α × Buffered α :=
  match file.unread with
  | [] => (.error (if file.hungUp then EINVAL else EAGAIN), file)
  | connection :: unread => (.ok connection, { file with unread })

def send (buf : List α) (file : Buffered α) : Except Errno Nat × Buffered α :=
  if buf = [] then (.ok 0, file)
  else if file.capacity ≤ file.unsent.length then (.error EAGAIN, file)
  else
    let count := min (file.capacity - file.unsent.length) buf.length
    (.ok count, { file with unsent := file.unsent ++ buf.take count })

instance : File (Buffered α) α where
  unread := unread
  ended file := file.hungUp = true
  unsent := unsent
  readable file := !file.unread.isEmpty || file.hungUp
  writable file := decide (file.unsent.length < file.capacity)
  recv := recv
  accept := accept
  send := send

end Buffered

end Ground
