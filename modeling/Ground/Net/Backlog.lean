import Ground.Edge.Kernel
import Ground.Net.Connect

/-! # A listener with a backlog

Every poll that is not skipped calls `connect`, which blocks on the backlog of the
listener. A socket that is not connected is writable all the time, so the kernel
queues it when it is registered and never again.
-/

namespace Ground.Net

open Mask

variable {τ : Type}

structure Unix (τ : Type) where
  future : Connect τ Unit EdgeKernel
  room : Nat

namespace Unix

def init (kernel : EdgeKernel) (room : Nat) : Unix τ :=
  { future := .start (.new kernel), room }

def kernel (s : Unix τ) : EdgeKernel := s.future.reactor.epfd

inductive Act (τ : Type) where
  | poll (waker : Waker τ) (os : Os)
  | dispatch (fds : List RawFd)
  | backlog (room : Nat)
  | elsewhere (effect : EdgeKernel → EdgeKernel)
  | drop

/-- A new socket is writable and hung up until it is connected. -/
def opened (fd : RawFd) (kernel : EdgeKernel) : EdgeKernel :=
  { kernel with
    ready := Function.update kernel.ready fd (EPOLLOUT ||| EPOLLHUP)
    queued := Function.update kernel.queued fd false }

def poll (s : Unix τ) (address : Except Error Unit) (addr : Addr) (waker : Waker τ) (os : Os) :
    Option (Unix τ) :=
  if os.connect = .error EAGAIN ↔ s.room = 0 then
    match s.future.stage, os.socket with
    | .unresumed, .ok fd =>
      if s.kernel.interest fd = none then
        some { s with future := (s.future.elsewhere (opened fd)).poll (unix address) addr waker os }
      else none
    | _, _ => some { s with future := s.future.poll (unix address) addr waker os }
  else none

/-- A dispatch that takes these descriptors. The kernel reports `EPOLLHUP` whether
or not it is asked for. -/
def dispatch (s : Unix τ) (addr : Addr) (fds : List RawFd) : Option (Unix τ) :=
  if s.kernel.Takes fds Reactor.eventBuffer then
    let future := s.future.elsewhere fun kernel => (kernel.wait fds).2
    match s.future.socket.filter (· ∈ fds) >>= s.kernel.report with
    | some event => some { s with future := future.deliver addr (event.events ||| EPOLLHUP) }
    | none => some { s with future }
  else none

def Spares (s : Unix τ) (effect : EdgeKernel → EdgeKernel) : Prop :=
  ∀ fd ∈ s.future.socket, (effect s.kernel).interest fd = s.kernel.interest fd ∧
    (effect s.kernel).ready fd = s.kernel.ready fd ∧
    (effect s.kernel).queued fd = s.kernel.queued fd

instance (s : Unix τ) (effect : EdgeKernel → EdgeKernel) : Decidable (s.Spares effect) :=
  inferInstanceAs (Decidable (∀ fd ∈ s.future.socket, _ ∧ _ ∧ _))

def step (address : Except Error Unit) (addr : Addr) (s : Unix τ) (act : Act τ) :
    Option (Unix τ) :=
  if s.future.ended then none
  else
    match act with
    | .poll waker os => s.poll address addr waker os
    | .dispatch fds => s.dispatch addr fds
    | .backlog room => some { s with room }
    | .elsewhere effect =>
      if s.Spares effect then some { s with future := s.future.elsewhere effect } else none
    | .drop => some { s with future := s.future.drop }

/-- The future waits, the backlog has room and no event is on its way. -/
def Stranded (s : Unix τ) : Prop :=
  ∃ socket fd, s.future.stage = .connecting socket ∧ s.future.socket = some fd ∧
    EPOLLOUT &&& socket.a.waiter.waitingFor ≠ 0#32 ∧ s.room ≠ 0 ∧ s.kernel.queued fd = false

/-- No poll but the first finds the backlog full. -/
def Keeps (s : Unix τ) : Act τ → Prop
  | .poll _ _ => s.room = 0 → ∀ socket, s.future.stage = .connecting socket →
      EPOLLOUT &&& socket.a.waiter.waitingFor ≠ 0#32
  | _ => True

end Unix

end Ground.Net
