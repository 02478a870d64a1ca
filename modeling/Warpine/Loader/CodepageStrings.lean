import Mathlib.Data.List.Basic
import Warpine.Lib.Lists
import Warpine.Loader.Codepage

/-! Whole strings through a codepage and back. The tables work character by character;
the library puts a reference in the place of a character that a codepage lacks. -/
namespace Warpine.Loader
open Warpine.Lib Warpine.Vfs

section Bytes

/-- What holds of the numbers below 256 holds of the bytes. -/
theorem forall_byte {test : UInt8 → Bool} (h : ∀ n < 256, test (UInt8.ofNat n) = true)
    (byte : UInt8) : test byte = true := by
  have hbyte := h byte.toNat byte.toNat_lt
  rwa [UInt8.ofNat_toNat] at hbyte

variable {upper : List Nat}

/-- One byte by a table. -/
def decodeByte (upper : List Nat) (byte : UInt8) : Char :=
  if byte < 0x80 then Char.ofNat byte.toNat
  else Char.ofNat ((upper[byte.toNat - 0x80]?).getD 0)

/-- What a table has for a character. -/
def tableCode (upper : List Nat) (c : Char) : Option (List UInt8) :=
  if isAscii c then some [UInt8.ofNat c.toNat]
  else (upper.idxOf? c.toNat).map fun idx => [UInt8.ofNat idx + 0x80]

/-- A byte by a table and back. -/
def dosByte (upper : List Nat) (byte : UInt8) : List UInt8 :=
  (tableCode upper (decodeByte upper byte)).getD [questionMark]

theorem encodeSingleByte_eq (text : Path) :
    encodeSingleByte text upper = text.flatMap fun c => (tableCode upper c).getD [questionMark] := by
  unfold encodeSingleByte
  rw [List.map_eq_flatMap]
  apply List.flatMap_congr
  intro c _
  unfold tableCode
  by_cases ascii : isAscii c = true
  · rw [if_pos ascii, if_pos ascii]
    rfl
  · rw [if_neg ascii, if_neg ascii]
    cases upper.idxOf? c.toNat <;> rfl

/-- A table for the bytes from 0x80 on, of characters past ASCII. -/
structure UpperHalf (upper : List Nat) : Prop where
  length : upper.length = 0x80
  past : ∀ entry ∈ upper, 0x80 ≤ entry ∧ entry < 0xD800

/-- Which bytes of the tables repeat a character. -/
theorem upper_tables : (∀ upper ∈ [cp437Upper, cp850Upper, cp852Upper], upper.length = 0x80 ∧
      ∀ entry ∈ upper, 0x80 ≤ entry ∧ entry < 0xD800) ∧
    repeated 0 cp437Upper = List.replicate 0x80 false ∧
      repeated 0 cp850Upper = List.replicate 0x80 false ∧
        repeated 0 cp852Upper =
          (List.range 0x80).map fun idx => idx == 0x66 || idx == 0x67 := by
  decide +kernel

theorem upperHalf (dos : upper ∈ [cp437Upper, cp850Upper, cp852Upper]) : UpperHalf upper :=
  have checked := upper_tables.1 upper dos
  ⟨checked.1, checked.2⟩

theorem upperHalf_of_dos {cp : Nat} (dos : dosUpper cp = some upper) : UpperHalf upper := by
  apply upperHalf
  unfold dosUpper at dos
  split at dos
  · cases dos
    simp
  · split at dos
    · cases dos
      simp
    · split at dos
      · cases dos
        simp
      · cases dos

theorem upperHalf_852 : UpperHalf cp852Upper :=
  upperHalf (List.mem_cons_of_mem _ (List.mem_cons_of_mem _ List.mem_cons_self))

variable {byte : UInt8}

theorem toNat_ofNat {n : Nat} (plane : n < 0xD800) : (Char.ofNat n).toNat = n := by
  rw [Char.ofNat, dif_pos (Or.inl plane)]
  rfl

theorem dosByte_low (low : byte < 0x80) : dosByte upper byte = [byte] := by
  have small : byte.toNat < 0x80 := low
  have char : decodeByte upper byte = Char.ofNat byte.toNat := if_pos low
  have value : (Char.ofNat byte.toNat).toNat = byte.toNat := toNat_ofNat (by omega)
  unfold dosByte tableCode
  rw [char, isAscii, value, if_pos (decide_eq_true small), UInt8.ofNat_toNat]
  rfl

/-- A byte of the table comes back as the one where its character is found first. -/
theorem dosByte_high (table : UpperHalf upper) (high : ¬ byte < 0x80) {entry idx : Nat}
    (here : upper[byte.toNat - 0x80]? = some entry) (first : upper.idxOf? entry = some idx) :
    dosByte upper byte = [UInt8.ofNat idx + 0x80] := by
  obtain ⟨past, plane⟩ := table.past entry (List.mem_of_getElem? here)
  have char : decodeByte upper byte = Char.ofNat entry := by
    rw [decodeByte, if_neg high, here]
    rfl
  have value : (Char.ofNat entry).toNat = entry := toNat_ofNat plane
  unfold dosByte tableCode
  rw [char, isAscii, value, if_neg (by rw [decide_eq_true_iff]; omega), first]
  rfl

/-- The byte itself, where no other has its character before. -/
theorem dosByte_new (table : UpperHalf upper) (high : ¬ byte < 0x80)
    (new : (repeated 0 upper)[byte.toNat - 0x80]? = some false) : dosByte upper byte = [byte] := by
  have past : 0x80 ≤ byte.toNat := Nat.le_of_not_lt high
  have small : byte.toNat < 0x100 := byte.toNat_lt
  have inside : byte.toNat - 0x80 < upper.length := by
    rw [table.length]
    omega
  have here := List.getElem?_eq_getElem inside
  rw [dosByte_high table high here (idxOf?_of_new new here).1]
  have same : UInt8.ofNat (byte.toNat - 0x80) + 0x80 = byte := by
    apply UInt8.toNat.inj
    rw [UInt8.toNat_add, UInt8.toNat_ofNat_of_lt' (by unfold UInt8.size; omega)]
    exact (Nat.mod_eq_of_lt (by change byte.toNat - 0x80 + 0x80 < 256; omega)).trans
      (Nat.sub_add_cancel past)
  rw [same]

theorem new_of_replicate (all : repeated 0 upper = List.replicate 0x80 false) (byte : UInt8) :
    (repeated 0 upper)[byte.toNat - 0x80]? = some false := by
  have small := byte.toNat_lt
  rw [all, List.getElem?_replicate, if_pos (by omega)]

theorem dosByte_437 (byte : UInt8) : dosByte cp437Upper byte = [byte] := by
  by_cases low : byte < 0x80
  · exact dosByte_low low
  · exact dosByte_new (upperHalf List.mem_cons_self) low
      (new_of_replicate upper_tables.2.1 byte)

theorem dosByte_850 (byte : UInt8) : dosByte cp850Upper byte = [byte] := by
  by_cases low : byte < 0x80
  · exact dosByte_low low
  · exact dosByte_new (upperHalf (List.mem_cons_of_mem _ List.mem_cons_self)) low
      (new_of_replicate upper_tables.2.2.1 byte)

/-- Two of the entries of this table are there twice, and the first place is found. -/
theorem dosByte_852 (byte : UInt8) : dosByte cp852Upper byte =
    [if byte = 0xE6 then 0xB8 else if byte = 0xE7 then 0x85 else byte] := by
  by_cases low : byte < 0x80
  · have first : byte ≠ 0xE6 := by
      rintro rfl
      exact absurd low (by decide)
    have second : byte ≠ 0xE7 := by
      rintro rfl
      exact absurd low (by decide)
    rw [dosByte_low low, if_neg first, if_neg second]
  · by_cases first : byte = 0xE6
    · rw [if_pos first, @dosByte_high cp852Upper byte upperHalf_852 low 0x0160 0x38
        (by rw [first]; rfl) (by decide)]
      rfl
    · by_cases second : byte = 0xE7
      · rw [if_neg first, if_pos second, @dosByte_high cp852Upper byte upperHalf_852 low 0x016F 0x05
          (by rw [second]; rfl) (by decide)]
        rfl
      · rw [if_neg first, if_neg second]
        apply dosByte_new upperHalf_852 low
        have past : 0x80 ≤ byte.toNat := Nat.le_of_not_lt low
        have small := byte.toNat_lt
        have one : byte.toNat ≠ 0xE6 := fun same => first (UInt8.toNat.inj same)
        have two : byte.toNat ≠ 0xE7 := fun same => second (UInt8.toNat.inj same)
        rw [upper_tables.2.2.2, List.getElem?_map, List.getElem?_range (by omega), Option.map_some]
        rw [Option.some.injEq, Bool.or_eq_false_iff, beq_eq_false_iff_ne, beq_eq_false_iff_ne]
        omega

theorem twice_852 (byte : UInt8) :
    (if byte = 0xE6 then 0xB8 else if byte = 0xE7 then 0x85 else byte) = byte ↔
      byte ≠ 0xE6 ∧ byte ≠ 0xE7 := by
  by_cases first : byte = 0xE6
  · subst first
    decide
  · by_cases second : byte = 0xE7
    · subst second
      decide
    · rw [if_neg first, if_neg second]
      exact iff_of_true rfl ⟨first, second⟩

end Bytes

section Strings

variable {rs : EncodingRs} {cp : Nat} {upper : List Nat}

/-- The bytes of a DOS codepage are stored and written back one by one. -/
theorem dos_return (dos : dosUpper cp = some upper) (bytes : List UInt8) :
    cpEncode rs (cpDecode rs bytes cp) cp = bytes.flatMap (dosByte upper) := by
  unfold cpEncode cpDecode
  rw [dos]
  dsimp only
  rw [encodeSingleByte_eq, decodeSingleByte, List.flatMap_map]
  rfl

/-- A string of bytes comes back, but for the two that 852 has twice. -/
theorem dos_codepages_return_iff (rs : EncodingRs) {cp : Nat} (bytes : List UInt8)
    (dos : cp = 437 ∨ cp = 850 ∨ cp = 852) :
    cpEncode rs (cpDecode rs bytes cp) cp = bytes ↔
      cp ≠ 852 ∨ ∀ byte ∈ bytes, byte ≠ 0xE6 ∧ byte ≠ 0xE7 := by
  rcases dos with rfl | rfl | rfl
  · rw [@dos_return rs 437 cp437Upper rfl, funext dosByte_437, List.flatMap_singleton']
    simp
  · rw [@dos_return rs 850 cp850Upper rfl, funext dosByte_850, List.flatMap_singleton']
    simp
  · rw [@dos_return rs 852 cp852Upper rfl, funext dosByte_852, ← List.map_eq_flatMap]
    have whole := @List.map_inj_left _ _ bytes
      (fun byte => if byte = 0xE6 then 0xB8 else if byte = 0xE7 then 0x85 else byte) id
    rw [List.map_id] at whole
    rw [whole]
    simp only [ne_eq, not_true_eq_false, false_or, id_eq, twice_852]

theorem dos_codepages_return_iff_name :
    cpEncode noConversions (cpDecode noConversions [0x41, 0xE6, 0x85] 850) 850 =
      [0x41, 0xE6, 0x85] :=
  (dos_codepages_return_iff noConversions [0x41, 0xE6, 0x85] (Or.inr (Or.inl rfl))).mpr
    (Or.inl (by decide))

/-- The small letter s with a caron comes back as a u with a ring. -/
theorem central_europe_altered : ¬ ∀ (rs : EncodingRs) (cp : Nat) (bytes : List UInt8),
    cp = 437 ∨ cp = 850 ∨ cp = 852 → cpEncode rs (cpDecode rs bytes cp) cp = bytes := by
  intro every
  have altered := every noConversions 852 [0xE7] (Or.inr (Or.inr rfl))
  revert altered
  decide

end Strings

section Library

/-- The codepages in which a character may have two bytes. -/
def isDbcs (cp : Nat) : Bool := !(dbcsLeadRanges cp).isEmpty

/-- The reference by which a character is written in markup. -/
def numericReference (c : Char) : List UInt8 :=
  [0x26, 0x23] ++ (Nat.toDigits 10 c.toNat).map (fun digit => UInt8.ofNat digit.toNat) ++ [0x3B]

/-- The library as it is documented, for what its codepages have for each character: it
encodes one after the other, and writes a reference for one that is missing. -/
structure EncodingRs.Documented (rs : EncodingRs) (codes : Nat → Char → Option (List UInt8)) :
    Prop where
  encode : ∀ cp text, cpToEncoding cp = true →
    rs.encode cp text = text.flatMap fun c => (codes cp c).getD (numericReference c)
  oneByte : ∀ cp c code, cpToEncoding cp = true → isDbcs cp = false → codes cp c = some code →
    code.length = 1

/-- What a codepage has for a character. -/
def codepageCode (codes : Nat → Char → Option (List UInt8)) (cp : Nat) (c : Char) :
    Option (List UInt8) :=
  match dosUpper cp with
  | some upper => tableCode upper c
  | none =>
      if cpToEncoding cp then codes cp c
      else if isAscii c then some [UInt8.ofNat c.toNat] else none

/-- A text is written character by character, each by what its codepage has or by one
question mark. -/
structure EncodesByCharacter (rs : EncodingRs) (codes : Nat → Char → Option (List UInt8))
    (cp : Nat) (text : Path) : Prop where
  characters : cpEncode rs text cp =
    text.flatMap fun c => (codepageCode codes cp c).getD [questionMark]
  appends : ∀ more, cpEncode rs (text ++ more) cp = cpEncode rs text cp ++ cpEncode rs more cp
  length : isDbcs cp = false → (cpEncode rs text cp).length = text.length

variable {rs : EncodingRs} {codes : Nat → Char → Option (List UInt8)} {cp : Nat}

theorem numericReference_length (c : Char) : 2 < (numericReference c).length := by
  unfold numericReference
  rw [List.length_append, List.length_append]
  exact Nat.lt_of_lt_of_le (by decide : 2 < 2 + 0 + 1) (by simp)

theorem cpToEncoding_tables {upper : List Nat} (dos : dosUpper cp = some upper) :
    cpToEncoding cp = false := by
  unfold dosUpper at dos
  split at dos
  · subst cp
    rfl
  · split at dos
    · subst cp
      rfl
    · split at dos
      · subst cp
        rfl
      · cases dos

theorem library_tables (library : cpToEncoding cp = true) : dosUpper cp = none := by
  cases found : dosUpper cp with
  | none => rfl
  | some upper =>
    rw [cpToEncoding_tables found] at library
    cases library

theorem cpDecode_library (library : cpToEncoding cp = true) (bytes : List UInt8) :
    cpDecode rs bytes cp = rs.decode cp bytes := by
  unfold cpDecode
  rw [library_tables library]
  exact if_pos library

theorem codepageCode_library (library : cpToEncoding cp = true) (c : Char) :
    codepageCode codes cp c = codes cp c := by
  unfold codepageCode
  rw [library_tables library]
  exact if_pos library

/-- What is put out for a character. -/
def emitted (codes : Nat → Char → Option (List UInt8)) (cp : Nat) (c : Char) : List UInt8 :=
  (codepageCode codes cp c).getD
    (if cpToEncoding cp then numericReference c else [questionMark])

theorem cpEncode_eq (documented : rs.Documented codes) (text : Path) :
    cpEncode rs text cp = text.flatMap (emitted codes cp) := by
  unfold cpEncode
  split
  · rename_i upper dos
    rw [encodeSingleByte_eq]
    apply List.flatMap_congr
    intro c _
    unfold emitted codepageCode
    rw [dos, cpToEncoding_tables dos]
    rfl
  · rename_i dos
    split
    · rename_i library
      rw [documented.encode cp text library]
      apply List.flatMap_congr
      intro c _
      unfold emitted codepageCode
      rw [dos]
      simp only [library, if_true]
    · rename_i unknown
      rw [List.map_eq_flatMap]
      apply List.flatMap_congr
      intro c _
      unfold emitted codepageCode
      rw [dos]
      simp only [unknown]
      by_cases ascii : isAscii c = true <;> simp [ascii]

theorem codepageCode_length (documented : rs.Documented codes) {c : Char} {code : List UInt8}
    (single : isDbcs cp = false) (h : codepageCode codes cp c = some code) : code.length = 1 := by
  unfold codepageCode at h
  split at h
  · unfold tableCode at h
    split at h
    · cases h
      rfl
    · obtain ⟨idx, _, rfl⟩ := Option.map_eq_some_iff.mp h
      rfl
  · split at h
    · rename_i library
      exact documented.oneByte cp c code library single h
    · split at h
      · cases h
        rfl
      · cases h

/-- A library codepage must have every character of the text. -/
theorem encodes_by_character_iff (documented : rs.Documented codes) (cp : Nat) (text : Path) :
    EncodesByCharacter rs codes cp text ↔
      cpToEncoding cp = false ∨ ∀ c ∈ text, codes cp c ≠ none := by
  constructor
  · intro whole
    cases library : cpToEncoding cp with
    | false => exact Or.inl rfl
    | true =>
      right
      intro c inText missing
      have same := whole.characters
      rw [cpEncode_eq documented] at same
      -- a reference is longer than the question mark
      have longer : ∀ c ∈ text, ((codepageCode codes cp c).getD [questionMark]).length ≤
          (emitted codes cp c).length := by
        intro c _
        unfold emitted
        rw [library, if_pos rfl]
        cases codepageCode codes cp c with
        | none => exact Nat.le_of_lt (Nat.lt_of_succ_lt (numericReference_length c))
        | some code => exact Nat.le_refl _
      have equal := length_eq_of_flatMap longer (congrArg List.length same.symm) c inText
      unfold emitted at equal
      rw [library, if_pos rfl, codepageCode_library library, missing] at equal
      exact absurd equal (Nat.ne_of_lt (Nat.lt_of_succ_lt (numericReference_length c)))
  · intro fits
    have each : ∀ c ∈ text, emitted codes cp c = (codepageCode codes cp c).getD [questionMark] := by
      intro c inText
      unfold emitted
      rcases fits with tables | present
      · rw [tables]
        rfl
      · cases library : cpToEncoding cp with
        | false => rfl
        | true =>
          rw [codepageCode_library library]
          cases found : codes cp c with
          | none => exact absurd found (present c inText)
          | some code => rfl
    refine ⟨?_, ?_, ?_⟩
    · rw [cpEncode_eq documented]
      exact List.flatMap_congr each
    · intro more
      rw [cpEncode_eq documented, cpEncode_eq documented, cpEncode_eq documented,
        List.flatMap_append]
    · intro single
      rw [cpEncode_eq documented, List.flatMap_congr each]
      have one : ∀ c, ((codepageCode codes cp c).getD [questionMark]).length = 1 := by
        intro c
        cases found : codepageCode codes cp c with
        | none => rfl
        | some code => exact codepageCode_length documented single found
      rw [List.length_flatMap]
      simp [one]

/-- Western Europe without the signs that it has in the place of control characters, and of
the double-byte codepages the Latin letters of full width. -/
def sampleCode (cp : Nat) (c : Char) : Option (List UInt8) :=
  if isAscii c then some [UInt8.ofNat c.toNat]
  else if isDbcs cp then
    if 0xFF21 ≤ c.toNat ∧ c.toNat ≤ 0xFF3A then some [0x82, UInt8.ofNat (c.toNat - 0xFF21 + 0x60)]
    else if 0xFF41 ≤ c.toNat ∧ c.toNat ≤ 0xFF5A then
      some [0x82, UInt8.ofNat (c.toNat - 0xFF41 + 0x81)]
    else none
  else if 0xA0 ≤ c.toNat ∧ c.toNat < 0x100 then some [UInt8.ofNat c.toNat]
  else none

def sampleWide (trail : UInt8) : Char :=
  if 0x60 ≤ trail ∧ trail ≤ 0x79 then Char.ofNat (0xFF21 + (trail.toNat - 0x60))
  else if 0x81 ≤ trail ∧ trail ≤ 0x9A then Char.ofNat (0xFF41 + (trail.toNat - 0x81))
  else Char.ofNat 0xFFFD

def sampleDecode : List UInt8 → Path
  | [] => []
  | [byte] => [if byte < 0x80 then Char.ofNat byte.toNat else Char.ofNat 0xFFFD]
  | lead :: trail :: rest =>
      if lead < 0x80 then Char.ofNat lead.toNat :: sampleDecode (trail :: rest)
      else (if lead = 0x82 then sampleWide trail else Char.ofNat 0xFFFD) :: sampleDecode rest

def sampleLibrary : EncodingRs where
  decode := fun cp bytes =>
    if isDbcs cp then sampleDecode bytes else bytes.map fun byte => Char.ofNat byte.toNat
  encode := fun cp text => text.flatMap fun c => (sampleCode cp c).getD (numericReference c)

theorem sampleLibrary_documented : sampleLibrary.Documented sampleCode where
  encode := fun _ _ _ => rfl
  oneByte := by
    intro cp c code _ single h
    unfold sampleCode at h
    rw [single] at h
    split at h
    · cases h
      rfl
    · rw [if_neg Bool.false_ne_true] at h
      split at h
      · cases h
        rfl
      · cases h

theorem encodes_by_character_iff_accent :
    EncodesByCharacter sampleLibrary sampleCode 1252 ['A', Char.ofNat 0xE9] :=
  (encodes_by_character_iff sampleLibrary_documented 1252 ['A', Char.ofNat 0xE9]).mpr
    (Or.inr (List.forall_mem_cons.mpr
      ⟨by decide, List.forall_mem_singleton.mpr (by decide)⟩))

/-- A letter that a codepage of the library lacks becomes eight bytes. -/
theorem missing_character_referenced : sampleLibrary.Documented sampleCode ∧
    ¬ ∀ cp text, EncodesByCharacter sampleLibrary sampleCode cp text := by
  refine ⟨sampleLibrary_documented, ?_⟩
  intro every
  have one := (every 1252 [Char.ofNat 0x4E2D]).length (by decide)
  revert one
  decide

end Library

end Warpine.Loader
