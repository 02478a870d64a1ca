import Warpine.Guest.Memory
import Warpine.Loader.Constants

/-! Values of a resource template in guest memory: words, and texts that end with a zero. -/
namespace Warpine.Pm
open Warpine.Lib Warpine.Guest Warpine.Loader

namespace Template

section Read
variable (mem : GuestMemory) (base : Nat)

/-- Memory that is not there reads as zero. -/
def readU16 (addr : Nat) : UInt16 := UInt16.ofNat ((mem.read 2 addr).getD 0)

/-- A text of at most so many bytes, and the offset behind it. -/
def readNulStr : Nat → Nat → List Char × Nat
  | 0, offset => ([], offset)
  | left + 1, offset =>
    let b := (mem.read 1 (wrapAdd base offset)).getD 0
    let offset := offset + 1
    if b = 0 then ([], offset)
    else
      let (s, offset) := readNulStr left offset
      (Char.ofNat b :: s, offset)

def readNulStrAt (offset maxSize : Nat) : List Char × Nat :=
  readNulStr mem base (maxSize - offset) offset

end Read

section Lies
variable {mem : GuestMemory} {base offset : Nat}

/-- The bytes stand at an offset from the base. -/
def Lies (mem : GuestMemory) (base offset : Nat) (bytes : List UInt8) : Prop :=
  mem.slice (base + offset) bytes.length = some bytes

namespace Lies

variable {bytes left right : List UInt8}

theorem append : Lies mem base offset (left ++ right) ↔
    Lies mem base offset left ∧ Lies mem base (offset + left.length) right := by
  unfold Lies
  rw [GuestMemory.slice_append, Nat.add_assoc]

theorem bound (lies : Lies mem base offset bytes) :
    base + offset + bytes.length ≤ mem.size := by
  unfold Lies GuestMemory.slice at lies
  split at lies
  · rename_i inside
    exact of_decide_eq_true inside
  · contradiction

theorem at_offset {other : Nat} (lies : Lies mem base offset bytes) (same : offset = other) :
    Lies mem base other bytes := same ▸ lies

end Lies

/-- Addresses in the memory do not wrap. -/
theorem wrapAdd_within {a b : Nat} (small : mem.size ≤ guestMemSize) (inside : a + b ≤ mem.size) :
    wrapAdd a b = a + b :=
  wrapAdd_of_lt (Nat.lt_of_le_of_lt (inside.trans small) (by decide))

theorem readU16_toNat {value : Nat} (lies : Lies mem base offset (leBytes 2 value))
    (fits : value < 2 ^ 16) : (readU16 mem (base + offset)).toNat = value := by
  have hread : mem.read 2 (base + offset) = some value :=
    (mem.read_eq_some).mpr ⟨fits, by simpa [Lies] using lies⟩
  rw [readU16, hread, Option.getD_some, UInt16.toNat_ofNat_of_lt' fits]

theorem readU16_eq {value : UInt16} (lies : Lies mem base offset (leBytes 2 value.toNat)) :
    readU16 mem (base + offset) = value :=
  UInt16.toNat_inj.mp (readU16_toNat lies value.toNat_lt)

theorem read_byte_lies {byte : UInt8} (lies : Lies mem base offset [byte]) :
    mem.read 1 (base + offset) = some byte.toNat := by
  apply (mem.read_eq_some).mpr
  refine ⟨byte.toNat_lt, ?_⟩
  rw [leBytes, UInt8.ofNat_toNat]
  exact lies

/-- The bytes of a text whose characters are bytes. -/
def nulStr (text : List Char) : List UInt8 := text.map (fun c => UInt8.ofNat c.toNat) ++ [0]

@[simp] theorem nulStr_length (text : List Char) : (nulStr text).length = text.length + 1 := by
  simp [nulStr]

theorem readNulStr_lies {text : List Char} {left : Nat} (small : mem.size ≤ guestMemSize)
    (chars : ∀ c ∈ text, 0 < c.toNat ∧ c.toNat < 256) (lies : Lies mem base offset (nulStr text))
    (room : text.length < left) :
    readNulStr mem base left offset = (text, offset + (text.length + 1)) := by
  induction text generalizing offset left with
  | nil =>
    obtain ⟨left, rfl⟩ := Nat.exists_eq_add_of_lt room
    have hbound := lies.bound
    have hread := read_byte_lies (show Lies mem base offset [0] from lies)
    have haddr : wrapAdd base offset = base + offset := wrapAdd_within small (by omega)
    simp [readNulStr, haddr, hread]
  | cons c text ih =>
    obtain ⟨left, rfl⟩ : ∃ n, left = n + 1 := ⟨left - 1, by omega⟩
    obtain ⟨⟨hpos, hbyte⟩, hrest⟩ := List.forall_mem_cons.mp chars
    have hbound := lies.bound
    have haddr : wrapAdd base offset = base + offset := wrapAdd_within small (by omega)
    obtain ⟨hc, htext⟩ := Lies.append.mp
      (show Lies mem base offset ([UInt8.ofNat c.toNat] ++ nulStr text) from lies)
    have hread : mem.read 1 (base + offset) = some c.toNat := by
      rw [read_byte_lies hc, UInt8.toNat_ofNat_of_lt' hbyte]
    have htail := ih hrest htext (show text.length < left by simpa using room)
    rw [List.length_singleton] at htail
    rw [readNulStr, haddr, hread, Option.getD_some, if_neg (by omega), htail]
    simp only [List.length_cons, Char.ofNat_toNat]
    congr 1
    omega

end Lies

end Template

end Warpine.Pm
