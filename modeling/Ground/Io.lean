import Ground.Foundation.Mask
import Ground.Reactor

/-! # `Async`

`io.rs`, by explicit passing of the `Async` and of the reactor. A panic leaves
every change made before it in place, as unwinding does.
-/

namespace Ground

class AsRawFd (T : Type) where
  asRawFd : T → RawFd

export AsRawFd (asRawFd)

instance : AsRawFd RawFd := ⟨id⟩

inductive Interest where
  | read
  | write
  | readWrite
  deriving DecidableEq

def Interest.asEvents : Interest → Events
  | .read => EPOLLIN
  | .write => EPOLLOUT
  | .readWrite => EPOLLIN ||| EPOLLOUT

theorem Interest.asEvents_ne_zero (interest : Interest) : interest.asEvents ≠ 0#32 := by
  cases interest <;> decide

theorem has_read_iff {b : Nat} : Mask.Has Interest.read.asEvents b ↔ b = 0 := by
  constructor
  · intro h
    have hLt := h.lt
    revert h
    revert b
    decide
  · rintro rfl
    decide

theorem has_write_iff {b : Nat} : Mask.Has Interest.write.asEvents b ↔ b = 2 := by
  constructor
  · intro h
    have hLt := h.lt
    revert h
    revert b
    decide
  · rintro rfl
    decide

structure Async (T τ : Type) where
  inner : Option T
  waiter : Waiter τ
  deriving DecidableEq

def O_NONBLOCK : BitVec 32 := 0x800#32

/-- The answers of `fcntl` for `F_GETFL` and `F_SETFL`. -/
structure Fcntl where
  getfl : RawFd → Except Errno (BitVec 32)
  setfl : RawFd → BitVec 32 → Except Errno Unit

def ensureNonblocking (fcntl : Fcntl) (fd : RawFd) : Except Errno Unit :=
  match fcntl.getfl fd with
  | .error errno => .error errno
  | .ok flags =>
    if flags &&& O_NONBLOCK = 0#32 then fcntl.setfl fd (flags ||| O_NONBLOCK) else .ok ()

variable {T τ κ R : Type} [AsRawFd T] [Epoll κ]

def Async.new (fcntl : Fcntl) (inner : T) : Outcome Panic (Async T τ) :=
  match ensureNonblocking fcntl (asRawFd inner) with
  | .error _ => .panic .setNonblocking
  | .ok () => .ret
    { inner := some inner
      waiter := { waker := .noop, registerFor := 0#32, waitingFor := 0#32 } }

theorem Async.new_eq_ret {fcntl : Fcntl} {inner : T} {this : Async T τ}
    (h : Async.new fcntl inner = .ret this) :
    this = { inner := some inner
             waiter := { waker := .noop, registerFor := 0#32, waitingFor := 0#32 } } := by
  unfold Async.new at h
  split at h
  · cases h
  · cases h
    rfl

theorem Async.new_eq_panic {fcntl : Fcntl} {inner : T} {p : Panic}
    (h : (Async.new fcntl inner : Outcome Panic (Async T τ)) = .panic p) :
    p = .setNonblocking := by
  unfold Async.new at h
  split at h
  · cases h
    rfl
  · cases h

/-- `addr` is the address of `waiter`, which the source passes as a pointer. -/
def ensureRegistered (fd : RawFd) (addr : Addr) (waiter : Waiter τ) (interest : Interest)
    (r : Reactor κ) : Outcome Panic Unit × Waiter τ × Reactor κ :=
  let alreadyRegistered := waiter.registerFor
  let registerFor := alreadyRegistered ||| interest.asEvents ||| EPOLLET
  if registerFor = alreadyRegistered then (.ret (), waiter, r)
  else
    let waiter := { waiter with registerFor }
    match if alreadyRegistered = 0#32 then r.add fd addr waiter else r.modify fd addr waiter with
    | (.ok (), r) => (.ret (), waiter, r)
    | (.error _, r) => (.panic .register, waiter, r)

/-- What a caller's closure does to the wrapped value, and how it ends. -/
abbrev Closure (T R : Type) := T → Outcome Unit (Except Error R) × T

def Closure.wouldBlock {T R : Type} : Closure T R :=
  fun value => (.ret (.error ⟨.wouldBlock, some EAGAIN⟩), value)

def Closure.done {T R : Type} (result : R) : Closure T R := fun value => (.ret (.ok result), value)

namespace Async

def deregister (this : Async T τ) (r : Reactor κ) : Outcome Panic Unit × Async T τ × Reactor κ :=
  if this.waiter.registerFor = 0#32 then (.ret (), this, r)
  else
    match this.inner with
    | none => (.ret (), this, r)
    | some inner =>
      match r.delete (asRawFd inner) with
      | (.panic p, r) => (.panic p, this, r)
      | (.ret (.error _), r) => (.panic .deregister, this, r)
      | (.ret (.ok ()), r) =>
        (.ret (), { this with waiter := { this.waiter with registerFor := 0#32 } }, r)

/-- The `&mut T` of `pin_get_mut`, used to put another value in place. -/
def pinReplace (this : Async T τ) (value : T) : Outcome Panic T × Async T τ :=
  match this.inner with
  | none => (.panic .innerTaken, this)
  | some inner => (.ret inner, { this with inner := some value })

def takeInner (this : Async T τ) (r : Reactor κ) : Outcome Panic T × Async T τ × Reactor κ :=
  match this.deregister r with
  | (.panic p, this, r) => (.panic p, this, r)
  | (.ret (), this, r) =>
    match this.inner with
    | none => (.panic .innerTaken, this, r)
    | some inner => (.ret inner, { this with inner := none }, r)

def pollNonblocking (this : Async T τ) (addr : Addr) (waker : Waker τ) (interest : Interest)
    (f : Closure T R) (r : Reactor κ) :
    Outcome Panic (Poll (Except Error R)) × Async T τ × Reactor κ :=
  match this.inner with
  | none => (.panic .innerTaken, this, r)
  | some inner =>
    if interest.asEvents &&& this.waiter.waitingFor ≠ 0#32 then (.ret .pending, this, r)
    else
      let fd := asRawFd inner
      match f inner with
      | (.panic (), inner) => (.panic .closure, { this with inner := some inner }, r)
      | (.ret (.ok value), inner) =>
        (.ret (.ready (.ok value)), { this with inner := some inner }, r)
      | (.ret (.error e), inner) =>
        if e.kind = .wouldBlock then
          let waiter :=
            { this.waiter with
              waker := waker
              waitingFor := this.waiter.waitingFor ||| interest.asEvents }
          match ensureRegistered fd addr waiter interest r with
          | (.ret (), waiter, r) => (.ret .pending, { inner := some inner, waiter }, r)
          | (.panic p, waiter, r) => (.panic p, { inner := some inner, waiter }, r)
        else (.ret (.ready (.error e)), { this with inner := some inner }, r)

def pollClose (this : Async T τ) (addr : Addr) (waker : Waker τ) (flush : Closure T Unit)
    (r : Reactor κ) : Outcome Panic (Poll (Except Error Unit)) × Async T τ × Reactor κ :=
  match this.pollNonblocking addr waker .write flush r with
  | (.ret (.ready (.ok ())), this, r) =>
    match this.takeInner r with
    | (.panic p, this, r) => (.panic p, this, r)
    | (.ret _, this, r) => (.ret (.ready (.ok ())), this, r)
  | (anythingElse, this, r) => (anythingElse, this, r)

/-- `Drop for Async`; the memory is gone afterwards, also when this panics. -/
def drop (this : Async T τ) (r : Reactor κ) : Outcome Panic Unit × Reactor κ :=
  let (outcome, _, r) := this.deregister r
  (outcome, r)

end Async

end Ground
