import Ground.Util

/-! # The reactor

`reactor.rs` over an arbitrary kernel. A waiter's address is the number that
`waiter as u64` puts into an epoll event, and the waiters in memory are a
partial map from addresses.
-/

namespace Ground

abbrev RawFd := Int

/-- The value of a `*mut Waiter`. -/
abbrev Addr := Nat

abbrev Events := BitVec 32

def EPOLLIN : Events := 0x001#32
def EPOLLOUT : Events := 0x004#32
def EPOLLERR : Events := 0x008#32
def EPOLLHUP : Events := 0x010#32
def EPOLLET : Events := 0x80000000#32

variable {τ κ : Type}

structure Waiter (τ : Type) where
  waker : Waker τ
  registerFor : Events
  waitingFor : Events
  deriving DecidableEq

structure EpollEvent where
  events : Events
  data : Addr
  deriving DecidableEq

inductive CtlRequest where
  | add (fd : RawFd) (event : EpollEvent)
  | modify (fd : RawFd) (event : EpollEvent)
  | delete (fd : RawFd)
  deriving DecidableEq

class Epoll (κ : Type) where
  epollCtl : κ → CtlRequest → Except Errno Unit × κ

/-- `epfd` is the kernel object behind the epoll descriptor. -/
structure Reactor (κ : Type) where
  epfd : κ
  isDispatching : Bool

namespace Reactor

def new (epfd : κ) : Reactor κ := { epfd, isDispatching := false }

variable [Epoll κ]

def epollCtl (r : Reactor κ) (request : CtlRequest) : Except Errno Unit × Reactor κ :=
  let (rc, epfd) := Epoll.epollCtl r.epfd request
  (rc, { r with epfd })

def add (r : Reactor κ) (fd : RawFd) (addr : Addr) (waiter : Waiter τ) :
    Except Errno Unit × Reactor κ :=
  r.epollCtl (.add fd { events := waiter.registerFor, data := addr })

def modify (r : Reactor κ) (fd : RawFd) (addr : Addr) (waiter : Waiter τ) :
    Except Errno Unit × Reactor κ :=
  r.epollCtl (.modify fd { events := waiter.registerFor, data := addr })

def delete (r : Reactor κ) (fd : RawFd) : Outcome Panic (Except Errno Unit) × Reactor κ :=
  if r.isDispatching then (.panic .removeDuringDispatch, r)
  else
    let (rc, r) := r.epollCtl (.delete fd)
    (.ret rc, r)

end Reactor

abbrev Waiters (τ : Type) := Addr → Option (Waiter τ)

namespace Reactor

def deliver (event : EpollEvent) (waiter : Waiter τ) : Waiter τ × List τ :=
  ({ waiter with waitingFor := waiter.waitingFor &&& ~~~event.events }, waiter.waker.wakeByRef)

@[simp] theorem deliver_waker (event : EpollEvent) (waiter : Waiter τ) :
    (deliver event waiter).1.waker = waiter.waker := rfl

@[simp] theorem deliver_registerFor (event : EpollEvent) (waiter : Waiter τ) :
    (deliver event waiter).1.registerFor = waiter.registerFor := rfl

@[simp] theorem deliver_waitingFor (event : EpollEvent) (waiter : Waiter τ) :
    (deliver event waiter).1.waitingFor = waiter.waitingFor &&& ~~~event.events := rfl

/-- The delivery loop of `dispatch`. There is no result when an event's data
points to no waiter: the source writes through a dangling pointer there. -/
def deliverAll : List EpollEvent → Waiters τ → Option (Waiters τ × List τ)
  | [], waiters => some (waiters, [])
  | event :: events, waiters => do
    let waiter ← waiters event.data
    let (waiter, woken) := deliver event waiter
    let (waiters, rest) ← deliverAll events (Function.update waiters event.data (some waiter))
    some (waiters, woken ++ rest)

def eventBuffer : Nat := 512

/-- `dispatch`, where `epollWait` is the kernel's answer for the given buffer length. -/
def dispatch (r : Reactor κ) (epollWait : Nat → Except Errno (List EpollEvent))
    (waiters : Waiters τ) :
    Option (Outcome Panic (Except Errno Unit) × Reactor κ × Waiters τ × List τ) :=
  if r.isDispatching then some (.panic .recursiveDispatch, r, waiters, [])
  else
    match epollWait eventBuffer with
    | .error errno => some (.ret (.error errno), r, waiters, [])
    | .ok events => do
      let r := { r with isDispatching := true }
      let (waiters, woken) ← deliverAll events waiters
      let r := { r with isDispatching := false }
      some (.ret (.ok ()), r, waiters, woken)

end Reactor

end Ground
