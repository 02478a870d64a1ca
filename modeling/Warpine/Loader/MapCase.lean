import Warpine.Guest.Memory
import Warpine.Lib.Units
import Warpine.Loader.CodepageStrings

/-! Capital letters in the guest's codepage. A buffer is changed in place, byte by byte, and
by pairs of bytes where the codepage has such. -/
namespace Warpine.Loader
open Warpine.Lib Warpine.Guest Warpine.Vfs

section Mapping

variable (rs : EncodingRs) (uppercase : Char → Path)

/-- `u8::to_ascii_uppercase`. -/
def toAsciiUpper (byte : UInt8) : UInt8 :=
  if 0x61 ≤ byte ∧ byte ≤ 0x7A then byte - 0x20 else byte

/-- An upper-half byte by a table. -/
def mapCaseSbcs (byte : UInt8) (upper : List Nat) : UInt8 :=
  let ch := Char.ofNat ((upper[byte.toNat - 0x80]?).getD 0)
  match uppercase ch with
  | [up] =>
      if up = ch then byte
      else if isAscii up then UInt8.ofNat up.toNat
      else match upper.idxOf? up.toNat with
        | some idx => UInt8.ofNat idx + 0x80
        | none => byte
  | _ => byte

/-- One byte. No mark of an encoding is a byte long, so that the library decodes it alike
with and without regard to them. -/
def cpMapCaseUpper (byte : UInt8) (cp : Nat) : UInt8 :=
  if byte < 0x80 then toAsciiUpper byte
  else match dosUpper cp with
    | some upper => mapCaseSbcs uppercase byte upper
    | none =>
        if cp = 932 ∨ cp = 936 ∨ cp = 949 ∨ cp = 950 then byte
        else if cpToEncoding cp then
          match (rs.decode cp [byte]).head? with
          | some ch =>
              match uppercase ch with
              | [up] => if up ≠ ch then ((rs.encode cp [up]).head?).getD byte else byte
              | _ => byte
          | none => byte
        else byte

/-- The bytes that are put in the place of a pair. -/
def mapCasePair (lead trail : UInt8) (cp : Nat) : Option (UInt8 × UInt8) :=
  let ch := decodeDbcs rs lead trail cp
  if ch ≠ Char.ofNat 0xFFFD then
    match uppercase ch with
    | [up] =>
        if up ≠ ch ∧ cpToEncoding cp then
          match rs.encode cp [up] with
          | [first, second] => some (first, second)
          | _ => none
        else none
    | _ => none
  else none

/-- The loop from the offset `i` on. -/
def mapCaseFrom (pStr cb : UInt32) (cp : Nat) (mem : GuestMemory) (i : Nat) : GuestMemory :=
  if _more : i < cb.toNat then
    match mem.read 1 (wrapAdd pStr.toNat i) with
    | none => mem
    | some value =>
        let b := UInt8.ofNat value
        let pair :=
          if isDbcsLeadByte b cp ∧ i + 1 < cb.toNat then mem.read 1 (wrapAdd pStr.toNat (i + 1))
          else none
        match pair with
        | some trail =>
            match mapCasePair rs uppercase b (UInt8.ofNat trail) cp with
            | some (first, second) =>
                mapCaseFrom pStr cb cp
                  ((mem.put 1 (wrapAdd pStr.toNat i) first.toNat).put 1
                    (wrapAdd pStr.toNat (i + 1)) second.toNat) (i + 2)
            | none => mapCaseFrom pStr cb cp mem (i + 2)
        | none =>
            let upper := cpMapCaseUpper rs uppercase b cp
            mapCaseFrom pStr cb cp
              (if upper ≠ b then mem.put 1 (wrapAdd pStr.toNat i) upper.toNat else mem) (i + 1)
  else mem
termination_by cb.toNat - i

def mapCaseGuestBuf (pStr cb : UInt32) (cp : Nat) (mem : GuestMemory) : GuestMemory :=
  mapCaseFrom rs uppercase pStr cb cp mem 0

def dosMapCase (cp : Nat) (cb pStr : UInt32) (mem : GuestMemory) : Nat × GuestMemory :=
  (0, if pStr ≠ 0 then mapCaseGuestBuf rs uppercase pStr cb cp mem else mem)

/-- What becomes of one byte, or of a pair. -/
def mapUnit (cp : Nat) : List UInt8 → List UInt8
  | [lead, trail] =>
      match mapCasePair rs uppercase lead trail cp with
      | some (first, second) => [first, second]
      | none => [lead, trail]
  | [byte] => [cpMapCaseUpper rs uppercase byte cp]
  | unit => unit

def mapCaseBytes (cp : Nat) (data : List UInt8) : List UInt8 :=
  mapUnits (isDbcsLeadByte · cp) (mapUnit rs uppercase cp) data

/-- The part of the buffer that is in the memory. -/
def caseBuffer (pStr cb : UInt32) (mem : GuestMemory) : List UInt8 :=
  mem.bytes.load pStr.toNat (min cb.toNat (mem.size - pStr.toNat))

end Mapping

section Loop

variable {rs : EncodingRs} {uppercase : Char → Path} {pStr cb : UInt32} {cp i : Nat}
  {mem : GuestMemory}

theorem mapCaseFrom_end (done : ¬ (i < cb.toNat ∧ pStr.toNat + i < mem.size))
    (address : wrapAdd pStr.toNat i = pStr.toNat + i) :
    mapCaseFrom rs uppercase pStr cb cp mem i = mem := by
  rw [mapCaseFrom]
  by_cases more : i < cb.toNat
  · rw [dif_pos more, GuestMemory.read_byte, address, if_neg (fun inside => done ⟨more, inside⟩)]
  · rw [dif_neg more]

/-- A byte that is no lead byte, or the last. -/
theorem mapCaseFrom_single (more : i < cb.toNat) (inside : pStr.toNat + i < mem.size)
    (small : mem.size < u32Size)
    (alone : isDbcsLeadByte (mem.bytes (pStr.toNat + i)) cp = true → i + 1 < cb.toNat →
      ¬ pStr.toNat + (i + 1) < mem.size) :
    mapCaseFrom rs uppercase pStr cb cp mem i =
      mapCaseFrom rs uppercase pStr cb cp ⟨mem.size, mem.bytes.store (pStr.toNat + i)
        (mapUnit rs uppercase cp [mem.bytes (pStr.toNat + i)])⟩ (i + 1) := by
  have address : wrapAdd pStr.toNat i = pStr.toNat + i := wrapAdd_of_lt (by omega)
  have next : wrapAdd pStr.toNat (i + 1) = pStr.toNat + (i + 1) := wrapAdd_of_lt (by omega)
  have none_ : (if isDbcsLeadByte (mem.bytes (pStr.toNat + i)) cp = true ∧ i + 1 < cb.toNat then
      mem.read 1 (pStr.toNat + (i + 1)) else none) = none := by
    split
    · rename_i lead
      rw [GuestMemory.read_byte, if_neg (alone lead.1 lead.2)]
    · rfl
  rw [mapCaseFrom, dif_pos more, address, GuestMemory.read_byte, if_pos inside]
  simp only [UInt8.ofNat_toNat, next, none_, mapUnit]
  congr 1
  split
  · rw [GuestMemory.put_byte mem _ inside]
  · rename_i same
    rw [ne_eq, Decidable.not_not] at same
    rw [same]
    have stored := mem.bytes.store_load (pStr.toNat + i) 1
    exact congrArg (GuestMemory.mk mem.size) stored.symm

theorem mapCaseFrom_pair (more : i + 1 < cb.toNat) (inside : pStr.toNat + (i + 1) < mem.size)
    (small : mem.size < u32Size)
    (lead : isDbcsLeadByte (mem.bytes (pStr.toNat + i)) cp = true) :
    mapCaseFrom rs uppercase pStr cb cp mem i =
      mapCaseFrom rs uppercase pStr cb cp ⟨mem.size, mem.bytes.store (pStr.toNat + i)
        (mapUnit rs uppercase cp [mem.bytes (pStr.toNat + i), mem.bytes (pStr.toNat + (i + 1))])⟩
        (i + 2) := by
  have address : wrapAdd pStr.toNat i = pStr.toNat + i := wrapAdd_of_lt (by omega)
  have next : wrapAdd pStr.toNat (i + 1) = pStr.toNat + (i + 1) := wrapAdd_of_lt (by omega)
  rw [mapCaseFrom, dif_pos (by omega), address, GuestMemory.read_byte, if_pos (by omega)]
  simp only [UInt8.ofNat_toNat, next]
  rw [if_pos ⟨lead, more⟩, GuestMemory.read_byte, if_pos inside]
  simp only [UInt8.ofNat_toNat, mapUnit]
  split
  · rename_i first second mapped
    rw [GuestMemory.put_byte mem first (by omega)]
    have room : pStr.toNat + (i + 1) < GuestMemory.size
      { mem with bytes := mem.bytes.store (pStr.toNat + i) [first] } := inside
    rw [GuestMemory.put_byte _ second room]
    have joined := mem.bytes.store_append (pStr.toNat + i) [first] [second]
    rw [List.length_singleton, Nat.add_assoc] at joined
    dsimp only
    rw [joined]
    rfl
  · have stored := mem.bytes.store_load (pStr.toNat + i) 2
    have loaded : mem.bytes.load (pStr.toNat + i) 2 =
        [mem.bytes (pStr.toNat + i), mem.bytes (pStr.toNat + (i + 1))] := rfl
    rw [loaded] at stored
    rw [stored]

theorem mapUnit_pair_length (lead trail : UInt8) :
    (mapUnit rs uppercase cp [lead, trail]).length = 2 := by
  simp only [mapUnit]
  split <;> rfl

/-- One unit changed, and then what follows it. -/
theorem store_unit (bytes : ByteStore) (addr len : Nat) (unit : List UInt8)
    (change : List UInt8 → List UInt8) :
    (bytes.store addr unit).store (addr + unit.length)
        (change ((bytes.store addr unit).load (addr + unit.length) len)) =
      bytes.store addr (unit ++ change (bytes.load (addr + unit.length) len)) := by
  rw [ByteStore.load_store_apart bytes (Or.inl (Nat.le_refl _)), ByteStore.store_append]

/-- The loop changes the units of what is left of the buffer. -/
theorem mapCaseFrom_eq {n : Nat} (small : mem.size < u32Size)
    (left : n = min (cb.toNat - i) (mem.size - (pStr.toNat + i)))
    (address : wrapAdd pStr.toNat i = pStr.toNat + i) :
    mapCaseFrom rs uppercase pStr cb cp mem i = ⟨mem.size, mem.bytes.store (pStr.toNat + i)
      (mapCaseBytes rs uppercase cp (mem.bytes.load (pStr.toNat + i) n))⟩ := by
  induction n using Nat.strong_induction_on generalizing mem i with
  | _ n ih =>
    by_cases more : i < cb.toNat ∧ pStr.toNat + i < mem.size
    · have next (k : Nat) (inside : pStr.toNat + (i + k) ≤ mem.size) :
          wrapAdd pStr.toNat (i + k) = pStr.toNat + (i + k) := wrapAdd_of_lt (by omega)
      by_cases paired : isDbcsLeadByte (mem.bytes (pStr.toNat + i)) cp = true ∧
          i + 1 < cb.toNat ∧ pStr.toNat + (i + 1) < mem.size
      · obtain ⟨rest, hrest⟩ : ∃ rest, n = 2 + rest := ⟨n - 2, by omega⟩
        have loaded : mem.bytes.load (pStr.toNat + i) n =
            mem.bytes (pStr.toNat + i) :: mem.bytes (pStr.toNat + (i + 1)) ::
              mem.bytes.load (pStr.toNat + i + 2) rest := by
          rw [hrest, ByteStore.load_append]
          rfl
        have later := @ih rest (by omega) (i + 2) ⟨mem.size, mem.bytes.store (pStr.toNat + i)
          (mapUnit rs uppercase cp [mem.bytes (pStr.toNat + i), mem.bytes (pStr.toNat + (i + 1))])⟩
          small (by dsimp only; omega) (next 2 (by omega))
        have joined := store_unit mem.bytes (pStr.toNat + i) rest
          (mapUnit rs uppercase cp [mem.bytes (pStr.toNat + i), mem.bytes (pStr.toNat + (i + 1))])
          (mapCaseBytes rs uppercase cp)
        rw [mapUnit_pair_length] at joined
        have cut : mapCaseBytes rs uppercase cp (mem.bytes.load (pStr.toNat + i) n) =
            mapUnit rs uppercase cp
                [mem.bytes (pStr.toNat + i), mem.bytes (pStr.toNat + (i + 1))] ++
              mapCaseBytes rs uppercase cp (mem.bytes.load (pStr.toNat + i + 2) rest) := by
          rw [loaded, mapCaseBytes, mapUnits, @units_pair _ (isDbcsLeadByte · cp) _ _ _ paired.1]
          rfl
        rw [mapCaseFrom_pair paired.2.1 paired.2.2 small paired.1, later, cut]
        exact congrArg (GuestMemory.mk mem.size) joined
      · obtain ⟨rest, hrest⟩ : ∃ rest, n = 1 + rest := ⟨n - 1, by omega⟩
        have loaded : mem.bytes.load (pStr.toNat + i) n =
            mem.bytes (pStr.toNat + i) :: mem.bytes.load (pStr.toNat + i + 1) rest := by
          rw [hrest, ByteStore.load_append]
          rfl
        have cut : mapCaseBytes rs uppercase cp (mem.bytes.load (pStr.toNat + i) n) =
            mapUnit rs uppercase cp [mem.bytes (pStr.toNat + i)] ++
              mapCaseBytes rs uppercase cp (mem.bytes.load (pStr.toNat + i + 1) rest) := by
          rw [loaded]
          by_cases lead : isDbcsLeadByte (mem.bytes (pStr.toNat + i)) cp = true
          · -- the last byte, of the buffer or of the memory
            have last : rest = 0 := by
              by_contra some_
              exact paired ⟨lead, by omega, by omega⟩
            rw [last]
            rfl
          · rw [mapCaseBytes, mapUnits, @units_single _ (isDbcsLeadByte · cp) _ _ (Bool.eq_false_iff.mpr lead)]
            rfl
        have later := @ih rest (by omega) (i + 1) ⟨mem.size, mem.bytes.store (pStr.toNat + i)
          (mapUnit rs uppercase cp [mem.bytes (pStr.toNat + i)])⟩ small
          (by dsimp only; omega) (next 1 (by omega))
        have joined := store_unit mem.bytes (pStr.toNat + i) rest
          (mapUnit rs uppercase cp [mem.bytes (pStr.toNat + i)])
          (mapCaseBytes rs uppercase cp)
        rw [mapCaseFrom_single more.1 more.2 small
          (fun lead second inside => paired ⟨lead, second, inside⟩), later, cut]
        exact congrArg (GuestMemory.mk mem.size) joined
    · have none_ : n = 0 := by omega
      rw [mapCaseFrom_end more address, none_]
      exact congrArg (GuestMemory.mk mem.size) (mem.bytes.store_nil _).symm

theorem mapCaseGuestBuf_eq (small : mem.size < u32Size) :
    mapCaseGuestBuf rs uppercase pStr cb cp mem = ⟨mem.size, mem.bytes.store pStr.toNat
      (mapCaseBytes rs uppercase cp (caseBuffer pStr cb mem))⟩ :=
  mapCaseFrom_eq small rfl (wrapAdd_of_lt pStr.toNat_lt)

end Loop

end Warpine.Loader
