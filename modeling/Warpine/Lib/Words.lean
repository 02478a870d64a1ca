import Mathlib.Data.List.Basic
import Mathlib.Tactic.Ring

/-! Machine words as natural numbers, and their little-endian bytes. A word of
`width` bytes is a natural number below `256 ^ width`. -/
namespace Warpine.Lib

def u16Size : Nat := 2 ^ 16
def u32Size : Nat := 2 ^ 32

/-- `u32::checked_add`. -/
def checkedAdd (a b : Nat) : Option Nat :=
  if a + b < u32Size then some (a + b) else none

/-- Addition and subtraction of `u32` values that wrap. -/
def wrapAdd (a b : Nat) : Nat := (a + b) % u32Size
def wrapSub (a b : Nat) : Nat := (a + (u32Size - b % u32Size)) % u32Size

theorem checkedAdd_eq_some {a b sum : Nat} (h : checkedAdd a b = some sum) :
    sum = a + b ∧ sum < u32Size := by
  unfold checkedAdd at h
  split at h
  · rename_i small
    cases h
    exact ⟨rfl, small⟩
  · contradiction

theorem wrapAdd_of_lt {a b : Nat} (h : a + b < u32Size) : wrapAdd a b = a + b :=
  Nat.mod_eq_of_lt h

theorem wrapSub_of_le {a b : Nat} (h : b ≤ a) (ha : a < u32Size) : wrapSub a b = a - b := by
  unfold wrapSub u32Size at *
  omega

/-- The `width` low bytes of a number, least significant first. -/
def leBytes : Nat → Nat → List UInt8
  | 0, _ => []
  | width + 1, value => UInt8.ofNat value :: leBytes width (value / 256)

def leValue : List UInt8 → Nat
  | [] => 0
  | byte :: rest => byte.toNat + 256 * leValue rest

@[simp] theorem leBytes_length (width value : Nat) : (leBytes width value).length = width := by
  induction width generalizing value with
  | zero => rfl
  | succ width ih => simp [leBytes, ih]

theorem leValue_lt (bytes : List UInt8) : leValue bytes < 256 ^ bytes.length := by
  induction bytes with
  | nil => simp [leValue]
  | cons byte rest ih =>
    have hbyte : byte.toNat < 256 := byte.toNat_lt
    simp only [leValue, List.length_cons, Nat.pow_succ]
    omega

theorem leValue_leBytes_mod (width value : Nat) :
    leValue (leBytes width value) = value % 256 ^ width := by
  induction width generalizing value with
  | zero => simp [leBytes, leValue, Nat.mod_one]
  | succ width ih =>
    have hbyte : (UInt8.ofNat value).toNat = value % 256 := by simp [UInt8.toNat_ofNat']
    rw [leBytes, leValue, hbyte, ih, Nat.pow_succ, Nat.mul_comm (256 ^ width), Nat.mod_mul]

@[simp] theorem leValue_leBytes {width value : Nat} (h : value < 256 ^ width) :
    leValue (leBytes width value) = value := by
  rw [leValue_leBytes_mod, Nat.mod_eq_of_lt h]

/-- A byte string is the encoding of its own value. -/
theorem leBytes_leValue (bytes : List UInt8) : leBytes bytes.length (leValue bytes) = bytes := by
  induction bytes with
  | nil => rfl
  | cons byte rest ih =>
    have hbyte : byte.toNat < 256 := byte.toNat_lt
    have hdiv : (byte.toNat + 256 * leValue rest) / 256 = leValue rest := by omega
    have hlow : UInt8.ofNat (byte.toNat + 256 * leValue rest) = byte := by
      apply UInt8.toNat_inj.mp
      rw [UInt8.toNat_ofNat']
      omega
    rw [leValue, List.length_cons, leBytes, hdiv, hlow, ih]

theorem leBytes_mod (width value : Nat) :
    leBytes width (value % 256 ^ width) = leBytes width value := by
  rw [← leValue_leBytes_mod width value]
  simpa using leBytes_leValue (leBytes width value)

/-- Words of one width have the same bytes exactly when they agree modulo it. -/
theorem leBytes_inj_mod {width a b : Nat} :
    leBytes width a = leBytes width b ↔ a % 256 ^ width = b % 256 ^ width := by
  constructor
  · intro h
    simpa only [leValue_leBytes_mod] using congrArg leValue h
  · intro h
    rw [← leBytes_mod, h, leBytes_mod]

/-- A number of two words is the bytes of the low one and then of the high one. -/
theorem leBytes_append (m n low high : Nat) :
    leBytes (m + n) (low % 256 ^ m + 256 ^ m * high) = leBytes m low ++ leBytes n high := by
  induction m generalizing low with
  | zero => simp [leBytes, Nat.mod_one]
  | succ m ih =>
    have split_ : low % 256 ^ (m + 1) + 256 ^ (m + 1) * high =
        low % 256 + 256 * (low / 256 % 256 ^ m + 256 ^ m * high) := by
      rw [Nat.pow_succ, Nat.mul_comm (256 ^ m) 256, Nat.mod_mul]
      ring
    have byte : UInt8.ofNat (low % 256 + 256 * (low / 256 % 256 ^ m + 256 ^ m * high)) =
        UInt8.ofNat low := by
      apply UInt8.toNat_inj.mp
      rw [UInt8.toNat_ofNat', UInt8.toNat_ofNat']
      omega
    have rest : (low % 256 + 256 * (low / 256 % 256 ^ m + 256 ^ m * high)) / 256 =
        low / 256 % 256 ^ m + 256 ^ m * high := by
      omega
    rw [Nat.add_right_comm, leBytes, split_, byte, rest, ih, leBytes, List.cons_append]

@[simp] theorem leValue_leBytes_uint16 (word : UInt16) :
    leValue (leBytes 2 word.toNat) = word.toNat :=
  leValue_leBytes word.toNat_lt

@[simp] theorem leValue_leBytes_uint32 (word : UInt32) :
    leValue (leBytes 4 word.toNat) = word.toNat :=
  leValue_leBytes word.toNat_lt

end Warpine.Lib
