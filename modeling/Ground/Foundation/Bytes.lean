import Mathlib.Algebra.Group.Nat.Defs
import Ground.Foundation.Outcome

/-! # Byte strings

Checked slices, arrays of a fixed length, and big-endian words. A slice out of
bounds and an unwrapped mismatch of lengths panic with the given reason.
-/

namespace Ground

universe u

abbrev Byte := BitVec 8

abbrev Bytes (n : Nat) := { bytes : List Byte // bytes.length = n }

def slice {π : Type u} (reason : π) (buffer : List Byte) (start stop : Nat) :
    Outcome π (List Byte) :=
  if start ≤ stop ∧ stop ≤ buffer.length then .ret ((buffer.drop start).take (stop - start))
  else .panic reason

def tryFrom (n : Nat) (bytes : List Byte) : Option (Bytes n) :=
  if h : bytes.length = n then some ⟨bytes, h⟩ else none

def unwrap {π α : Type u} (reason : π) : Option α → Outcome π α
  | some a => .ret a
  | none => .panic reason

section slice

variable {π : Type u} (reason : π)

theorem slice_append_mid (front mid back : List Byte) :
    slice reason (front ++ (mid ++ back)) front.length (front.length + mid.length) = .ret mid := by
  rw [slice, if_pos ⟨by omega, by simp only [List.length_append]; omega⟩]
  simp

theorem slice_append_right (front back : List Byte) :
    slice reason (front ++ back) front.length (front ++ back).length = .ret back := by
  have h := slice_append_mid reason front back []
  simpa using h

end slice

theorem tryFrom_eq_some {n : Nat} {bytes : List Byte} (h : bytes.length = n) :
    tryFrom n bytes = some ⟨bytes, h⟩ := by
  rw [tryFrom, dif_pos h]

theorem tryFrom_eq_none {n : Nat} {bytes : List Byte} (h : bytes.length ≠ n) :
    tryFrom n bytes = none := by
  rw [tryFrom, dif_neg h]

/-- The number that big-endian bytes denote. -/
def beNat : List Byte → Nat
  | [] => 0
  | byte :: bytes => byte.toNat * 256 ^ bytes.length + beNat bytes

/-- The `n` low bytes of a number, highest first. -/
def beBytes : Nat → Nat → List Byte
  | 0, _ => []
  | n + 1, x => BitVec.ofNat 8 (x / 256 ^ n) :: beBytes n (x % 256 ^ n)

@[simp] theorem length_beBytes (n x : Nat) : (beBytes n x).length = n := by
  induction n generalizing x with
  | zero => rfl
  | succ n ih => rw [beBytes, List.length_cons, ih]

theorem beNat_lt (bytes : List Byte) : beNat bytes < 256 ^ bytes.length := by
  induction bytes with
  | nil => decide
  | cons byte bytes ih =>
    have hByte : byte.toNat < 256 := byte.isLt
    calc
      beNat (byte :: bytes) = byte.toNat * 256 ^ bytes.length + beNat bytes := rfl
      _ < byte.toNat * 256 ^ bytes.length + 256 ^ bytes.length := by omega
      _ = (byte.toNat + 1) * 256 ^ bytes.length := (Nat.succ_mul ..).symm
      _ ≤ 256 * 256 ^ bytes.length := Nat.mul_le_mul_right _ hByte
      _ = 256 ^ (byte :: bytes).length := by rw [List.length_cons, Nat.pow_succ, Nat.mul_comm]

theorem beNat_beBytes {n x : Nat} (h : x < 256 ^ n) : beNat (beBytes n x) = x := by
  induction n generalizing x with
  | zero =>
    have hx : x = 0 := by simpa using h
    rw [hx]
    rfl
  | succ n ih =>
    have hDigit : x / 256 ^ n < 256 := Nat.div_lt_of_lt_mul (by rwa [Nat.pow_succ] at h)
    have hRest : x % 256 ^ n < 256 ^ n := Nat.mod_lt _ (Nat.pow_pos (by decide))
    rw [beBytes, beNat, length_beBytes, ih hRest, BitVec.toNat_ofNat, Nat.mod_eq_of_lt hDigit]
    exact Nat.div_add_mod' x (256 ^ n)

theorem beBytes_beNat (bytes : List Byte) : beBytes bytes.length (beNat bytes) = bytes := by
  induction bytes with
  | nil => rfl
  | cons byte bytes ih =>
    have hLow := beNat_lt bytes
    have hHigh : beNat (byte :: bytes) / 256 ^ bytes.length = byte.toNat := by
      rw [beNat, Nat.mul_comm, Nat.mul_add_div (Nat.pow_pos (by decide)),
        Nat.div_eq_of_lt hLow, Nat.add_zero]
    have hRest : beNat (byte :: bytes) % 256 ^ bytes.length = beNat bytes := by
      rw [beNat, Nat.mul_comm, Nat.mul_add_mod, Nat.mod_eq_of_lt hLow]
    rw [List.length_cons, beBytes, hHigh, hRest, ih, BitVec.ofNat_toNat]
    simp

def fromBeBytes {n : Nat} (bytes : Bytes n) : BitVec (8 * n) := BitVec.ofNat (8 * n) (beNat bytes)

def toBeBytes {n : Nat} (x : BitVec (8 * n)) : Bytes n := ⟨beBytes n x.toNat, length_beBytes n _⟩

theorem toBeBytes_byte (x : Byte) : (toBeBytes (n := 1) x).1 = [x] := by
  simp [toBeBytes, beBytes]

theorem two_pow_eight_mul (n : Nat) : 2 ^ (8 * n) = 256 ^ n := by
  rw [Nat.pow_mul]

@[simp] theorem fromBeBytes_toBeBytes {n : Nat} (x : BitVec (8 * n)) :
    fromBeBytes (toBeBytes x) = x := by
  have hx : x.toNat < 256 ^ n := by
    rw [← two_pow_eight_mul]
    exact x.isLt
  rw [fromBeBytes, toBeBytes, beNat_beBytes hx, BitVec.ofNat_toNat, BitVec.setWidth_eq]

@[simp] theorem toBeBytes_fromBeBytes {n : Nat} (bytes : Bytes n) :
    toBeBytes (fromBeBytes bytes) = bytes := by
  obtain ⟨bytes, rfl⟩ := bytes
  have hLt : beNat bytes < 2 ^ (8 * bytes.length) := by
    rw [two_pow_eight_mul]
    exact beNat_lt bytes
  apply Subtype.ext
  simp only [toBeBytes, fromBeBytes, BitVec.toNat_ofNat, Nat.mod_eq_of_lt hLt]
  exact beBytes_beNat bytes

theorem exists_toBeBytes {n : Nat} {bytes : List Byte} (h : n ≤ bytes.length) :
    ∃ (x : BitVec (8 * n)) (back : List Byte),
      bytes = (toBeBytes x).1 ++ back ∧ bytes.length = n + back.length := by
  have hTake : (bytes.take n).length = n := by
    rw [List.length_take]
    omega
  refine ⟨fromBeBytes ⟨bytes.take n, hTake⟩, bytes.drop n, ?_, ?_⟩
  · rw [toBeBytes_fromBeBytes, List.take_append_drop]
  · rw [List.length_drop]
    omega

end Ground
