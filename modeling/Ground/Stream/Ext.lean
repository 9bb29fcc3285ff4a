import Ground.Util
import Mathlib.Data.List.Basic

/-! # Reads and writes of whole buffers

What the examples take from `futures::io`: futures that poll a stream until they are done.
How they do is the `futures` crate's, and only assumed here.
-/

namespace Ground

/-- The future of `AsyncReadExt::read`: the length of the buffer with which it polls its
stream next, or what it returns, and how it goes on with what that poll returned. -/
class AsyncReadExt (ρ : Type) where
  read : Nat → ρ
  next : ρ → Nat ⊕ Except Error (List UInt8)
  resume : ρ → Except Error (List UInt8) → ρ

/-- The future of `AsyncWriteExt::write_all`, likewise. -/
class AsyncWriteExt (ω : Type) where
  writeAll : List UInt8 → ω
  next : ω → List UInt8 ⊕ Except Error Unit
  resume : ω → Except Error Nat → ω

open AsyncReadExt in
/-- `read` reads once. -/
class LawfulAsyncReadExt (ρ : Type) [AsyncReadExt ρ] : Prop where
  next_read (length : Nat) : next (read length : ρ) = .inl length
  next_resume {future : ρ} {length : Nat} (result : Except Error (List UInt8)) :
    next future = .inl length → next (resume future result) = .inr result

open AsyncWriteExt in
/-- `write_all` polls until everything is written or a poll fails. -/
class LawfulAsyncWriteExt (ω : Type) [AsyncWriteExt ω] : Prop where
  next_writeAll {buf : List UInt8} : buf ≠ [] → next (writeAll buf : ω) = .inl buf
  next_part {future : ω} {buf : List UInt8} {count : Nat} : next future = .inl buf →
    0 < count → count < buf.length → next (resume future (.ok count)) = .inl (buf.drop count)
  next_whole {future : ω} {buf : List UInt8} : next future = .inl buf → buf ≠ [] →
    next (resume future (.ok buf.length)) = .inr (.ok ())
  next_error {future : ω} {buf : List UInt8} {e : Error} : next future = .inl buf →
    next (resume future (.error e)) = .inr (.error e)

def ReadOnce := Nat ⊕ Except Error (List UInt8)

instance : AsyncReadExt ReadOnce where
  read := .inl
  next future := future
  resume _ result := .inr result

instance : LawfulAsyncReadExt ReadOnce where
  next_read _ := rfl
  next_resume _ _ := rfl

def WriteOn := List UInt8 ⊕ Except Error Unit

namespace WriteOn

def writeAll (buf : List UInt8) : WriteOn := if buf = [] then .inr (.ok ()) else .inl buf

def resume (future : WriteOn) (result : Except Error Nat) : WriteOn :=
  match future, result with
  | .inl _, .error e => .inr (.error e)
  | .inl _, .ok 0 => .inr (.error (.ofKind .writeZero))
  | .inl buf, .ok count => writeAll (buf.drop count)
  | .inr result, _ => .inr result

end WriteOn

instance : AsyncWriteExt WriteOn where
  writeAll := WriteOn.writeAll
  next future := future
  resume := WriteOn.resume

instance : LawfulAsyncWriteExt WriteOn where
  next_writeAll hBuf := if_neg hBuf
  next_part {future buf count} hNext hPositive hPart := by
    obtain rfl : future = .inl buf := hNext
    obtain ⟨count, rfl⟩ := Nat.exists_eq_add_one.mpr hPositive
    exact if_neg (List.drop_eq_nil_iff.not.mpr (by omega))
  next_whole {future buf} hNext hBuf := by
    obtain rfl : future = .inl buf := hNext
    obtain ⟨byte, rest, rfl⟩ := List.exists_cons_of_ne_nil hBuf
    exact if_pos (List.drop_eq_nil_iff.mpr (Nat.le_refl _))
  next_error {future buf e} hNext := by
    obtain rfl : future = .inl buf := hNext
    rfl

end Ground
