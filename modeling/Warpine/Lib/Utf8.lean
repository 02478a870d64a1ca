import Mathlib.Data.List.Basic
import Mathlib.Tactic.SplitIfs

/-! UTF-8 with replacement of what is not well formed, as
`String::from_utf8_lossy` does it. -/
namespace Warpine.Lib.Utf8

def isContinuation (byte : Nat) : Bool := 0x80 ≤ byte && byte ≤ 0xBF

/-- The range of the second byte, given a first byte of three or four. It rules
out overlong forms, surrogates and values beyond Unicode. -/
def secondLow (first : Nat) : Nat :=
  if first = 0xE0 then 0xA0 else if first = 0xF0 then 0x90 else 0x80
def secondHigh (first : Nat) : Nat :=
  if first = 0xED then 0x9F else if first = 0xF4 then 0x8F else 0xBF

/-- The first character and its length, or the length of the part to replace. -/
def decodeChar (bytes : List UInt8) : Option Char × Nat :=
  let byteAt (i : Nat) : Nat := ((bytes[i]?).getD 0).toNat
  let first := byteAt 0
  let second := byteAt 1
  let third := byteAt 2
  let fourth := byteAt 3
  if first < 0x80 then (some (Char.ofNat first), 1)
  else if 0xC2 ≤ first ∧ first ≤ 0xDF then
    if isContinuation second then
      (some (Char.ofNat ((first - 0xC0) * 64 + (second - 0x80))), 2)
    else (none, 1)
  else if 0xE0 ≤ first ∧ first ≤ 0xEF then
    if ¬ (secondLow first ≤ second ∧ second ≤ secondHigh first) then (none, 1)
    else if isContinuation third then
      (some (Char.ofNat ((first - 0xE0) * 4096 + (second - 0x80) * 64 + (third - 0x80))), 3)
    else (none, 2)
  else if 0xF0 ≤ first ∧ first ≤ 0xF4 then
    if ¬ (secondLow first ≤ second ∧ second ≤ secondHigh first) then (none, 1)
    else if ¬ isContinuation third then (none, 2)
    else if isContinuation fourth then
      (some (Char.ofNat ((first - 0xF0) * 262144 + (second - 0x80) * 4096 +
        (third - 0x80) * 64 + (fourth - 0x80))), 4)
    else (none, 3)
  else (none, 1)

/-- At most `fuel` characters; as many as there are bytes is enough. -/
def decodeFrom : Nat → List UInt8 → List Char
  | 0, _ => []
  | _ + 1, [] => []
  | fuel + 1, bytes =>
      let (char, length) := decodeChar bytes
      char.getD '\uFFFD' :: decodeFrom fuel (bytes.drop length)

def fromUtf8Lossy (bytes : List UInt8) : String :=
  String.ofList (decodeFrom bytes.length bytes)

/-- A byte that goes on: six bits from the place `unit` on. -/
def lowBits (n unit : Nat) : UInt8 := UInt8.ofNat (0x80 + n / unit % 64)

def encodeChar (c : Char) : List UInt8 :=
  let n := c.toNat
  if n < 0x80 then [UInt8.ofNat n]
  else if n < 0x800 then [UInt8.ofNat (0xC0 + n / 64), lowBits n 1]
  else if n < 0x10000 then [UInt8.ofNat (0xE0 + n / 4096), lowBits n 64, lowBits n 1]
  else [UInt8.ofNat (0xF0 + n / 262144), lowBits n 4096, lowBits n 64, lowBits n 1]

/-- The bytes of a string. -/
def toBytes (text : String) : List UInt8 := text.toList.flatMap encodeChar

theorem encodeChar_ne_nil (c : Char) : encodeChar c ≠ [] := by
  unfold encodeChar
  dsimp only
  split
  · simp
  · split
    · simp
    · split <;> simp

theorem lowBits_toNat (n unit : Nat) : (lowBits n unit).toNat = 0x80 + n / unit % 64 := by
  rw [lowBits, UInt8.toNat_ofNat', Nat.mod_eq_of_lt]
  have := Nat.mod_lt (n / unit) (show 64 > 0 by decide)
  omega

theorem byte_toNat {n : Nat} (h : n < 256) : (UInt8.ofNat n).toNat = n := by
  rw [UInt8.toNat_ofNat', Nat.mod_eq_of_lt h]

/-- Only the null character has a null byte. -/
theorem zero_not_mem_encodeChar {c : Char} (h : c.toNat ≠ 0) : (0 : UInt8) ∉ encodeChar c := by
  have low : ∀ n unit : Nat, (0 : UInt8) ≠ lowBits n unit := by
    intro n unit heq
    have value := congrArg UInt8.toNat heq
    rw [lowBits_toNat] at value
    have zero : (0 : UInt8).toNat = 0 := rfl
    omega
  have lead : ∀ n, 0 < n → n < 256 → (0 : UInt8) ≠ UInt8.ofNat n := by
    intro n positive small heq
    have value := congrArg UInt8.toNat heq
    rw [byte_toNat small] at value
    have zero : (0 : UInt8).toNat = 0 := rfl
    omega
  have valid : c.toNat < 0x110000 := by
    have := c.valid
    simp only [UInt32.isValidChar, Nat.isValidChar] at this
    change c.val.toNat < 0x110000
    omega
  unfold encodeChar
  dsimp only
  split_ifs
  · simp only [List.mem_singleton]
    exact lead _ (by omega) (by omega)
  · simp only [List.mem_cons, List.not_mem_nil, or_false, not_or]
    exact ⟨lead _ (by omega) (by omega), low _ _⟩
  · simp only [List.mem_cons, List.not_mem_nil, or_false, not_or]
    exact ⟨lead _ (by omega) (by omega), low _ _, low _ _⟩
  · simp only [List.mem_cons, List.not_mem_nil, or_false, not_or]
    exact ⟨lead _ (by omega) (by omega), low _ _, low _ _, low _ _⟩

theorem isContinuation_low (n unit : Nat) : isContinuation (0x80 + n / unit % 64) := by
  have := Nat.mod_lt (n / unit) (show 64 > 0 by decide)
  simp only [isContinuation, Bool.and_eq_true, decide_eq_true_eq]
  omega

theorem decodeChar_encodeChar (c : Char) (rest : List UInt8) :
    decodeChar (encodeChar c ++ rest) = (some c, (encodeChar c).length) := by
  have hvalid : c.toNat < 0xD800 ∨ 0xDFFF < c.toNat ∧ c.toNat < 0x110000 := c.valid
  have hchar : Char.ofNat c.toNat = c := Char.ofNat_toNat c
  generalize hn : c.toNat = n at hvalid hchar
  unfold encodeChar
  dsimp only
  rw [hn]
  split
  · rename_i hone
    simp only [decodeChar, List.cons_append, List.nil_append, List.getElem?_cons_zero,
      Option.getD_some, byte_toNat (show n < 256 by omega), List.length_singleton]
    rw [if_pos hone, hchar]
  · split
    · have hlead := byte_toNat (show 0xC0 + n / 64 < 256 by omega)
      have hvalue : (0xC0 + n / 64 - 0xC0) * 64 + (0x80 + n / 1 % 64 - 0x80) = n := by omega
      simp only [decodeChar, List.cons_append, List.nil_append, List.getElem?_cons_zero,
        List.getElem?_cons_succ, Option.getD_some, hlead, lowBits_toNat]
      rw [if_neg (by omega), if_pos (by omega), if_pos (isContinuation_low n 1), hvalue, hchar]
      rfl
    · split
      · have hlead := byte_toNat (show 0xE0 + n / 4096 < 256 by omega)
        have hvalue : (0xE0 + n / 4096 - 0xE0) * 4096 + (0x80 + n / 64 % 64 - 0x80) * 64 +
          (0x80 + n / 1 % 64 - 0x80) = n := by omega
        have hsecond : secondLow (0xE0 + n / 4096) ≤ 0x80 + n / 64 % 64 ∧
            0x80 + n / 64 % 64 ≤ secondHigh (0xE0 + n / 4096) := by
          unfold secondLow secondHigh
          split_ifs <;> omega
        simp only [decodeChar, List.cons_append, List.nil_append, List.getElem?_cons_zero,
          List.getElem?_cons_succ, Option.getD_some, hlead, lowBits_toNat]
        rw [if_neg (by omega), if_neg (by omega), if_pos (by omega), if_neg (not_not.mpr hsecond),
          if_pos (isContinuation_low n 1), hvalue, hchar]
        rfl
      · have hlead := byte_toNat (show 0xF0 + n / 262144 < 256 by omega)
        have hvalue : (0xF0 + n / 262144 - 0xF0) * 262144 + (0x80 + n / 4096 % 64 - 0x80) * 4096 +
          (0x80 + n / 64 % 64 - 0x80) * 64 + (0x80 + n / 1 % 64 - 0x80) = n := by omega
        have hsecond : secondLow (0xF0 + n / 262144) ≤ 0x80 + n / 4096 % 64 ∧
            0x80 + n / 4096 % 64 ≤ secondHigh (0xF0 + n / 262144) := by
          unfold secondLow secondHigh
          split_ifs <;> omega
        simp only [decodeChar, List.cons_append, List.nil_append, List.getElem?_cons_zero,
          List.getElem?_cons_succ, Option.getD_some, hlead, lowBits_toNat]
        rw [if_neg (by omega), if_neg (by omega), if_neg (by omega), if_pos (by omega),
          if_neg (not_not.mpr hsecond), if_neg (not_not.mpr (isContinuation_low n 64)),
          if_pos (isContinuation_low n 1), hvalue, hchar]
        rfl

theorem decodeFrom_cons (c : Char) (fuel : Nat) (rest : List UInt8) :
    decodeFrom (fuel + 1) (encodeChar c ++ rest) = c :: decodeFrom fuel rest := by
  cases hbytes : encodeChar c ++ rest with
  | nil => simp [encodeChar_ne_nil] at hbytes
  | cons byte bytes =>
    rw [decodeFrom, ← hbytes, decodeChar_encodeChar]
    dsimp only
    rw [List.drop_left, Option.getD_some]
    exact List.cons_ne_nil _ _

theorem decodeFrom_toBytes (chars : List Char) (fuel : Nat)
    (enough : (chars.flatMap encodeChar).length ≤ fuel) :
    decodeFrom fuel (chars.flatMap encodeChar) = chars := by
  induction chars generalizing fuel with
  | nil => cases fuel <;> rfl
  | cons c rest ih =>
    have hsome := List.length_pos_iff.mpr (encodeChar_ne_nil c)
    rw [List.flatMap_cons, List.length_append] at enough
    obtain ⟨more, rfl⟩ : ∃ more, fuel = more + 1 := ⟨fuel - 1, by omega⟩
    rw [List.flatMap_cons, decodeFrom_cons, ih more (by omega)]

/-- A string is read back from its bytes. -/
@[simp] theorem fromUtf8Lossy_toBytes (text : String) : fromUtf8Lossy (toBytes text) = text := by
  unfold fromUtf8Lossy toBytes
  rw [decodeFrom_toBytes _ _ (Nat.le_refl _)]
  exact String.ofList_toList

section Cut

theorem encodeChar_length_le (c : Char) : (encodeChar c).length ≤ 4 := by
  unfold encodeChar
  dsimp only
  split_ifs <;> simp

theorem flatMap_encodeChar_length_le (chars : List Char) :
    (chars.flatMap encodeChar).length ≤ chars.length * 4 := by
  induction chars with
  | nil => simp
  | cons c rest ih =>
    have hfour := encodeChar_length_le c
    rw [List.flatMap_cons, List.length_append, List.length_cons]
    omega

theorem decodeChar_length_pos (bytes : List UInt8) : 0 < (decodeChar bytes).2 := by
  unfold decodeChar
  dsimp only
  split_ifs <;> simp

theorem decodeFrom_length_le (fuel : Nat) (bytes : List UInt8) :
    (decodeFrom fuel bytes).length ≤ bytes.length := by
  induction fuel generalizing bytes with
  | zero => simp [decodeFrom]
  | succ fuel ih =>
    cases bytes with
    | nil => simp [decodeFrom]
    | cons byte rest =>
      have taken := decodeChar_length_pos (byte :: rest)
      have later := ih ((byte :: rest).drop (decodeChar (byte :: rest)).2)
      rw [List.length_drop] at later
      rw [decodeFrom, List.length_cons]
      · rw [List.length_cons] at later ⊢
        omega
      · exact List.cons_ne_nil byte rest

/-- The front of a string's bytes: what is left of the character that is cut is at most
three bytes, and each of them at most a character. -/
theorem decodeFrom_take_length (chars : List Char) (fuel count : Nat) (enough : count ≤ fuel) :
    ((decodeFrom fuel ((chars.flatMap encodeChar).take count)).flatMap encodeChar).length ≤
      count + 9 := by
  induction chars generalizing fuel count with
  | nil => cases fuel <;> simp [decodeFrom]
  | cons c rest ih =>
    have hfour := encodeChar_length_le c
    have hsome := List.length_pos_iff.mpr (encodeChar_ne_nil c)
    rw [List.flatMap_cons]
    by_cases whole : (encodeChar c).length ≤ count
    · obtain ⟨more, rfl⟩ : ∃ more, fuel = more + 1 := ⟨fuel - 1, by omega⟩
      have hrest := ih more (count - (encodeChar c).length) (by omega)
      rw [List.take_append, List.take_of_length_le whole, decodeFrom_cons, List.flatMap_cons,
        List.length_append]
      omega
    · have hcount := decodeFrom_length_le fuel ((encodeChar c ++ rest.flatMap encodeChar).take count)
      rw [List.length_take] at hcount
      generalize decodeFrom fuel _ = decoded at hcount ⊢
      have hbytes := flatMap_encodeChar_length_le decoded
      omega

theorem toBytes_take_length (text : String) (count : Nat) :
    (toBytes (fromUtf8Lossy ((toBytes text).take count))).length ≤ count + 9 := by
  by_cases short : count ≤ (toBytes text).length
  · unfold fromUtf8Lossy
    rw [toBytes, String.toList_ofList]
    apply decodeFrom_take_length
    rw [List.length_take]
    exact Nat.le_min.mpr ⟨Nat.le_refl _, short⟩
  · rw [List.take_of_length_le (by omega), fromUtf8Lossy_toBytes]
    omega

end Cut

end Warpine.Lib.Utf8
