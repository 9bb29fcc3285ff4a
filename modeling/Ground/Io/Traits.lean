import Ground.Foundation.Sequential
import Ground.Io.Attempt

/-! # The I/O traits of `Async`

`AsyncRead`, `AsyncWrite` and `AsyncBufRead`, over the blocking traits that the
wrapped type implements.
-/

namespace Ground

variable {T τ κ R R' : Type} [AsRawFd T]

/-- `std::io::Read`; a buffer is its length, and what is read into it the result. -/
class Read (T : Type) where
  read : Nat → Closure T (List UInt8)
  readVectored : List Nat → Closure T (List UInt8)

class Write (T : Type) where
  write : List UInt8 → Closure T Nat
  writeVectored : List (List UInt8) → Closure T Nat
  flush : Closure T Unit

class BufRead (T : Type) where
  fillBuf : Closure T (List UInt8)
  consume : Nat → T → T

def Poll.map (f : R → R') : Poll R → Poll R'
  | .ready value => .ready (f value)
  | .pending => .pending

def Closure.map (f : Closure T R) (g : R → R') : Closure T R' := fun value =>
  ((f value).1.map (Except.map g), (f value).2)

namespace Async

/-- A poll does not look into the result of its closure. -/
theorem pollNonblocking_map [Epoll κ] (this : Async T τ) (addr : Addr) (waker : Waker τ)
    (interest : Interest) (f : Closure T R) (g : R → R') (r : Reactor κ) :
    let polled := this.pollNonblocking addr waker interest f r
    this.pollNonblocking addr waker interest (f.map g) r =
      (polled.1.map (Poll.map (Except.map g)), polled.2) := by
  simp only [pollNonblocking, Closure.map]
  cases this.inner with
  | none => rfl
  | some inner =>
    simp only
    split
    · rfl
    · obtain ⟨(e | value) | p, inner'⟩ := f inner
      · simp only [Outcome.map, Except.map]
        split
        · split
          · rfl
          · rfl
        · rfl
      · rfl
      · rfl

section

variable [Epoll κ] (this : Async T τ) (addr : Addr) (waker : Waker τ) (r : Reactor κ)

def pollRead [Read T] (length : Nat) :
    Outcome Panic (Poll (Except Error (List UInt8))) × Async T τ × Reactor κ :=
  this.pollNonblocking addr waker .read (Read.read length) r

def pollReadVectored [Read T] (lengths : List Nat) :
    Outcome Panic (Poll (Except Error (List UInt8))) × Async T τ × Reactor κ :=
  this.pollNonblocking addr waker .read (Read.readVectored lengths) r

def pollWrite [Write T] (buf : List UInt8) :
    Outcome Panic (Poll (Except Error Nat)) × Async T τ × Reactor κ :=
  this.pollNonblocking addr waker .write (Write.write buf) r

def pollWriteVectored [Write T] (bufs : List (List UInt8)) :
    Outcome Panic (Poll (Except Error Nat)) × Async T τ × Reactor κ :=
  this.pollNonblocking addr waker .write (Write.writeVectored bufs) r

def pollFlush [Write T] : Outcome Panic (Poll (Except Error Unit)) × Async T τ × Reactor κ :=
  this.pollNonblocking addr waker .write Write.flush r

def pollFillBuf [BufRead T] :
    Outcome Panic (Poll (Except Error (List UInt8))) × Async T τ × Reactor κ :=
  this.pollNonblocking addr waker .read BufRead.fillBuf r

end

/-- The `&mut T` of `get_mut` and `pin_get_mut`, used to change the value. -/
def pinGetMut (this : Async T τ) (change : T → T) : Outcome Panic Unit × Async T τ :=
  match this.inner with
  | none => (.panic .innerTaken, this)
  | some inner => (.ret (), { this with inner := some (change inner) })

def consume [BufRead T] (this : Async T τ) (amt : Nat) : Outcome Panic Unit × Async T τ :=
  this.pinGetMut (BufRead.consume amt)

def getRef (this : Async T τ) : Outcome Panic T :=
  match this.inner with
  | none => .panic .innerTaken
  | some inner => .ret inner

protected def asRawFd (this : Async T τ) : Outcome Panic RawFd := this.getRef.map asRawFd

end Async

/-- The calls that the traits make on the wrapped value. -/
inductive Operation where
  | read (length : Nat)
  | readVectored (lengths : List Nat)
  | write (buf : List UInt8)
  | writeVectored (bufs : List (List UInt8))
  | flush
  | fillBuf
  | consume (amt : Nat)

inductive Answer where
  | bytes (bytes : List UInt8)
  | count (count : Nat)
  | unit

namespace Operation

variable [Read T] [Write T] [BufRead T]

def interest : Operation → Interest
  | .read _ | .readVectored _ | .fillBuf | .consume _ => .read
  | .write _ | .writeVectored _ | .flush => .write

def serve : Operation → Closure T Answer
  | .read length => (Read.read length : Closure T _).map .bytes
  | .readVectored lengths => (Read.readVectored lengths : Closure T _).map .bytes
  | .write buf => (Write.write buf : Closure T _).map .count
  | .writeVectored bufs => (Write.writeVectored bufs : Closure T _).map .count
  | .flush => (Write.flush : Closure T _).map fun _ => .unit
  | .fillBuf => (BufRead.fillBuf : Closure T _).map .bytes
  | .consume amt => fun value => (.ret (.ok .unit), BufRead.consume amt value)

def answering (g : R → Answer) :
    Outcome Panic (Poll (Except Error R)) × Async T τ × Reactor κ →
      Outcome Panic (Poll (Except Error Answer)) × Async T τ × Reactor κ
  | (outcome, this, r) => (outcome.map (Poll.map (Except.map g)), this, r)

/-- The asynchronous operation. All but `consume` poll. -/
def call [Epoll κ] (this : Async T τ) (addr : Addr) (waker : Waker τ) (r : Reactor κ) :
    Operation → Outcome Panic (Poll (Except Error Answer)) × Async T τ × Reactor κ
  | .read length => answering .bytes (this.pollRead addr waker r length)
  | .readVectored lengths => answering .bytes (this.pollReadVectored addr waker r lengths)
  | .write buf => answering .count (this.pollWrite addr waker r buf)
  | .writeVectored bufs => answering .count (this.pollWriteVectored addr waker r bufs)
  | .flush => answering (fun _ => .unit) (this.pollFlush addr waker r)
  | .fillBuf => answering .bytes (this.pollFillBuf addr waker r)
  | .consume amt =>
    let (outcome, this) := this.consume amt
    (outcome.map fun _ => .ready (.ok .unit), this, r)

theorem call_eq_poll [Epoll κ] (this : Async T τ) (addr : Addr) (waker : Waker τ) (r : Reactor κ)
    (op : Operation) :
    (∃ amt, op = .consume amt) ∨
      op.call this addr waker r = this.pollNonblocking addr waker op.interest op.serve r := by
  cases op with
  | consume amt => exact .inl ⟨amt, rfl⟩
  | read length => exact .inr (Async.pollNonblocking_map ..).symm
  | readVectored lengths => exact .inr (Async.pollNonblocking_map ..).symm
  | write buf => exact .inr (Async.pollNonblocking_map ..).symm
  | writeVectored bufs => exact .inr (Async.pollNonblocking_map ..).symm
  | flush => exact .inr (Async.pollNonblocking_map ..).symm
  | fillBuf => exact .inr (Async.pollNonblocking_map ..).symm

end Operation

end Ground
