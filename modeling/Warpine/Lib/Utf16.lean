import Mathlib.Data.List.Basic

/-! UTF-16 with replacement of lone surrogates, as `String::from_utf16_lossy` does it. A unit
is a number below `2 ^ 16`. -/
namespace Warpine.Lib.Utf16

def isHigh (unit : Nat) : Bool := 0xD800 ≤ unit && unit < 0xDC00
def isLow (unit : Nat) : Bool := 0xDC00 ≤ unit && unit < 0xE000

def encodeChar (c : Char) : List Nat :=
  if c.toNat < 0x10000 then [c.toNat]
  else [0xD800 + (c.toNat - 0x10000) / 0x400, 0xDC00 + (c.toNat - 0x10000) % 0x400]

/-- `str::encode_utf16`. -/
def encode (text : List Char) : List Nat := text.flatMap encodeChar

/-- A unit that has no part in a pair. -/
def decodeUnit (unit : Nat) : Char :=
  if isHigh unit || isLow unit then '\uFFFD' else Char.ofNat unit

def fromUtf16Lossy : List Nat → List Char
  | [] => []
  | [unit] => [decodeUnit unit]
  | unit :: second :: rest =>
      if isHigh unit && isLow second then
        Char.ofNat (0x10000 + (unit - 0xD800) * 0x400 + (second - 0xDC00)) :: fromUtf16Lossy rest
      else decodeUnit unit :: fromUtf16Lossy (second :: rest)

theorem toNat_valid (c : Char) : c.toNat < 0xD800 ∨ 0xDFFF < c.toNat ∧ c.toNat < 0x110000 :=
  c.valid

theorem fromUtf16Lossy_single {unit : Nat} (rest : List Nat) (alone : isHigh unit = false) :
    fromUtf16Lossy (unit :: rest) = decodeUnit unit :: fromUtf16Lossy rest := by
  cases rest with
  | nil => rfl
  | cons second rest =>
    rw [fromUtf16Lossy, alone, Bool.false_and]
    exact if_neg Bool.false_ne_true

/-- The first character of a text that has been encoded. -/
theorem fromUtf16Lossy_encodeChar (c : Char) (rest : List Nat) :
    fromUtf16Lossy (encodeChar c ++ rest) = c :: fromUtf16Lossy rest := by
  have valid := toNat_valid c
  unfold encodeChar
  split
  · have high : isHigh c.toNat = false := by
      unfold isHigh
      rw [Bool.and_eq_false_iff, decide_eq_false_iff_not, decide_eq_false_iff_not]
      omega
    have low : isLow c.toNat = false := by
      unfold isLow
      rw [Bool.and_eq_false_iff, decide_eq_false_iff_not, decide_eq_false_iff_not]
      omega
    rw [List.singleton_append, fromUtf16Lossy_single rest high, decodeUnit, high, low,
      Bool.or_false, if_neg Bool.false_ne_true, Char.ofNat_toNat]
  · have high : isHigh (0xD800 + (c.toNat - 0x10000) / 0x400) = true := by
      unfold isHigh
      rw [Bool.and_eq_true, decide_eq_true_iff, decide_eq_true_iff]
      omega
    have low : isLow (0xDC00 + (c.toNat - 0x10000) % 0x400) = true := by
      unfold isLow
      rw [Bool.and_eq_true, decide_eq_true_iff, decide_eq_true_iff]
      omega
    have value : 0x10000 + (0xD800 + (c.toNat - 0x10000) / 0x400 - 0xD800) * 0x400 +
        (0xDC00 + (c.toNat - 0x10000) % 0x400 - 0xDC00) = c.toNat := by
      omega
    rw [List.cons_append, List.cons_append, List.nil_append, fromUtf16Lossy, high, low,
      Bool.and_true, if_pos rfl, value, Char.ofNat_toNat]

/-- A text is read back from its units. -/
theorem fromUtf16Lossy_encode (text : List Char) : fromUtf16Lossy (encode text) = text := by
  induction text with
  | nil => rfl
  | cons c rest ih =>
    rw [encode, List.flatMap_cons, fromUtf16Lossy_encodeChar]
    exact congrArg (List.cons c) ih

/-- Units that come back through another text are well formed. -/
theorem encode_eq_iff {text : List Char} {units : List Nat} :
    encode text = units ↔ encode (fromUtf16Lossy units) = units ∧ text = fromUtf16Lossy units := by
  constructor
  · rintro rfl
    rw [fromUtf16Lossy_encode]
    exact ⟨rfl, rfl⟩
  · rintro ⟨formed, rfl⟩
    exact formed

end Warpine.Lib.Utf16
