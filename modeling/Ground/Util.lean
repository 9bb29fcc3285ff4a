import Ground.Foundation.Outcome

/-! # Errors, panics and wakers

The part of `std::io::Error`, of panicking and of `std::task::Waker` that the
reactor, the `Async` wrapper and the DNS client look at.
-/

namespace Ground

abbrev Errno := Nat

def EAGAIN : Errno := 11
def ENOENT : Errno := 2
def EEXIST : Errno := 17

inductive ErrorKind where
  | notFound | permissionDenied | connectionRefused | connectionReset | connectionAborted
  | notConnected | addrInUse | addrNotAvailable | brokenPipe | alreadyExists | wouldBlock
  | invalidInput | invalidData | timedOut | writeZero | interrupted | other | unexpectedEof
  deriving DecidableEq

/-- `std::io::Error`: its kind, and the `errno` it was built from, if any. -/
structure Error where
  kind : ErrorKind
  rawOsError : Option Errno
  deriving DecidableEq

def Error.ofKind (kind : ErrorKind) : Error := ⟨kind, none⟩

def decodeErrorKind : Errno → ErrorKind
  | 111 => .connectionRefused -- ECONNREFUSED
  | 104 => .connectionReset -- ECONNRESET
  | 1 => .permissionDenied -- EPERM
  | 13 => .permissionDenied -- EACCES
  | 32 => .brokenPipe -- EPIPE
  | 107 => .notConnected -- ENOTCONN
  | 103 => .connectionAborted -- ECONNABORTED
  | 99 => .addrNotAvailable -- EADDRNOTAVAIL
  | 98 => .addrInUse -- EADDRINUSE
  | 2 => .notFound -- ENOENT
  | 4 => .interrupted -- EINTR
  | 22 => .invalidInput -- EINVAL
  | 110 => .timedOut -- ETIMEDOUT
  | 17 => .alreadyExists -- EEXIST
  | 11 => .wouldBlock -- EAGAIN, EWOULDBLOCK
  | _ => .other

theorem decodeErrorKind_eq_wouldBlock_iff {errno : Errno} :
    decodeErrorKind errno = .wouldBlock ↔ errno = EAGAIN := by
  unfold decodeErrorKind EAGAIN
  split <;> simp_all

def Error.fromRawOsError (errno : Errno) : Error := ⟨decodeErrorKind errno, some errno⟩

inductive Poll (α : Type) where
  | ready (value : α)
  | pending
  deriving DecidableEq

/-- The panics of the reactor and of `Async`, and those a caller's closure raises. -/
inductive Panic where
  | removeDuringDispatch
  | recursiveDispatch
  | setNonblocking
  | register
  | deregister
  | innerTaken
  | closure
  deriving DecidableEq

/-- The message of each panic; a closure's panic carries its own. -/
def Panic.message : Panic → Option String
  | .removeDuringDispatch => some "Can't remove I/O sources during dispatch"
  | .recursiveDispatch => some "Recursive dispatch?"
  | .setNonblocking => some "Failed to put the file descriptor into non-blocking mode"
  | .register => some "Failed to register with epoll"
  | .deregister => some "Failed to deregister from epoll"
  | .innerTaken => some "Inner already taken"
  | .closure => none

/-- `noop` is `noop_waker()`; any other waker makes a task runnable. -/
inductive Waker (τ : Type) where
  | noop
  | task (id : τ)
  deriving DecidableEq

def Waker.wakeByRef {τ : Type} : Waker τ → List τ
  | .noop => []
  | .task id => [id]

end Ground
