import Warpine.Guest.Footprint
import Warpine.Lib.Dict
import Warpine.Lib.Utf8
import Warpine.Lib.Utf16
import Warpine.Loader.CodepageStrings

/-! Conversion between codepages and UCS-2. A call takes all of its input or, where the
output has no room, none. -/
namespace Warpine.Loader
open Warpine.Lib Warpine.Guest Warpine.Vfs

def ulsSuccess : Nat := 0
def ulsInvalid : Nat := 1
def ulsBadObject : Nat := 2
def ulsBufferFull : Nat := 8

/-- A conversion object for UTF-8 has no codepage. -/
def cpUtf8 : Nat := 0xFFFFFFFE

/-- The codepage of each conversion object. -/
structure UconvManager where
  objects : Dict Nat Nat

def UconvManager.lookup (mgr : UconvManager) (h : Nat) : Option Nat := mgr.objects.get h

/-- The arguments of both calls. All but the first are addresses of words. -/
structure UconvArgs where
  uobj : Nat
  ppIn : Nat
  pInLeft : Nat
  ppOut : Nat
  pOutLeft : Nat
  pSubs : Nat

structure UconvWords where
  inPtr : Nat
  inLeft : Nat
  outPtr : Nat
  outLeft : Nat
deriving DecidableEq, Repr

namespace UconvArgs

variable (args : UconvArgs)

def readWords (mem : GuestMemory) : Option UconvWords := do
  let inPtr ← mem.read 4 args.ppIn
  let inLeft ← mem.read 4 args.pInLeft
  let outPtr ← mem.read 4 args.ppOut
  let outLeft ← mem.read 4 args.pOutLeft
  return ⟨inPtr, inLeft, outPtr, outLeft⟩

end UconvArgs

/-- The units of the input, without those that cannot be read. -/
def readUnits (mem : GuestMemory) (width ptr left : Nat) : List Nat :=
  (List.range left).filterMap fun i => mem.read width (wrapAdd ptr (i * width))

/-- Units of two bytes are written one by one. -/
def writeUnits (mem : GuestMemory) (ptr : Nat) (units : List Nat) : GuestMemory :=
  units.zipIdx.foldl (fun mem unit => mem.put 2 (wrapAdd ptr (unit.2 * 2)) unit.1) mem

/-- Bytes are written as one string. -/
def writeString (mem : GuestMemory) (ptr : Nat) (units : List Nat) : GuestMemory :=
  mem.putBytes ptr (units.map UInt8.ofNat)

/-- A conversion from units of one width to units of another. -/
def uniUconv (inWidth outWidth : Nat) (convert : Nat → List Nat → List Nat)
    (write : GuestMemory → Nat → List Nat → GuestMemory) (mgr : UconvManager) (mem : GuestMemory)
    (args : UconvArgs) : Nat × GuestMemory :=
  match mgr.lookup args.uobj with
  | none => (ulsBadObject, mem)
  | some cp =>
      match args.readWords mem with
      | none => (ulsInvalid, mem)
      | some words =>
          if words.inPtr = 0 ∨ words.outPtr = 0 then (ulsInvalid, mem)
          else
            let input := readUnits mem inWidth words.inPtr words.inLeft
            let output := convert cp input
            if words.outLeft < output.length then (ulsBufferFull, mem)
            else
              let mem := write mem words.outPtr output
              let mem := mem.put 4 args.ppIn (wrapAdd words.inPtr (input.length * inWidth))
              let mem := mem.put 4 args.pInLeft 0
              let mem := mem.put 4 args.ppOut (wrapAdd words.outPtr (output.length * outWidth))
              let mem := mem.put 4 args.pOutLeft (words.outLeft - output.length)
              (ulsSuccess, mem.putAt 4 args.pSubs 0)

section Conversion

variable (rs : EncodingRs)

/-- The text of bytes. -/
def uconvText (cp : Nat) (bytes : List Nat) : Path :=
  let bytes := bytes.map UInt8.ofNat
  if cp = cpUtf8 then (Utf8.fromUtf8Lossy bytes).toList else cpDecode rs bytes cp

/-- The bytes of a text. -/
def uconvBytes (cp : Nat) (text : Path) : List Nat :=
  (if cp = cpUtf8 then text.flatMap Utf8.encodeChar else cpEncode rs text cp).map UInt8.toNat

def toUcs (cp : Nat) (bytes : List Nat) : List Nat := Utf16.encode (uconvText rs cp bytes)

def fromUcs (cp : Nat) (wchars : List Nat) : List Nat :=
  uconvBytes rs cp (Utf16.fromUtf16Lossy wchars)

def uniUconvToUcs (mgr : UconvManager) (mem : GuestMemory) (args : UconvArgs) :
    Nat × GuestMemory :=
  uniUconv 1 2 (toUcs rs) writeUnits mgr mem args

def uniUconvFromUcs (mgr : UconvManager) (mem : GuestMemory) (args : UconvArgs) :
    Nat × GuestMemory :=
  uniUconv 2 1 (fromUcs rs) writeString mgr mem args

end Conversion

section Units

variable {mem : GuestMemory} {ptr : Nat}

theorem writeUnits_eq {units : List Nat} (small : mem.size < u32Size)
    (room : ptr + units.length * 2 ≤ mem.size) :
    writeUnits mem ptr units = mem.putBytes ptr (units.flatMap (leBytes 2)) := by
  have placed (first : Nat) (mem : GuestMemory) (below : ptr + (first + units.length) * 2 < u32Size) :
      (units.zipIdx first).foldl (fun mem unit => mem.put 2 (wrapAdd ptr (unit.2 * 2)) unit.1) mem =
        mem.putAll (ByteStore.sideBySide (ptr + first * 2) (units.map (leBytes 2))) := by
    clear room
    induction units generalizing first mem with
    | nil => rfl
    | cons unit rest ih =>
      rw [List.length_cons] at below
      have address : wrapAdd ptr (first * 2) = ptr + first * 2 := wrapAdd_of_lt (by omega)
      have later := ih (first + 1) (mem.put 2 (ptr + first * 2) unit) (by omega)
      have next : ptr + (first + 1) * 2 = ptr + first * 2 + (leBytes 2 unit).length := by
        rw [leBytes_length]
        omega
      rw [next] at later
      rw [List.zipIdx_cons, List.foldl_cons, address, later, List.map_cons,
        ByteStore.sideBySide]
      rfl
  have lengths : ((units.map (leBytes 2)).flatten).length = units.length * 2 := by
    rw [← List.flatMap_def, List.length_flatMap]
    simp
  rw [List.flatMap_def, ← GuestMemory.putAll_sideBySide mem
    (decide_eq_true (by rw [lengths]; exact room))]
  have whole := placed 0 mem (by omega)
  rw [Nat.zero_mul, Nat.add_zero] at whole
  exact whole

theorem writeString_eq (units : List Nat) :
    writeString mem ptr units = mem.putBytes ptr (units.flatMap (leBytes 1)) := by
  rw [writeString, List.map_eq_flatMap]
  rfl

/-- An input that is in the memory is read as a whole. -/
theorem readUnits_spec {width left : Nat} (small : mem.size < u32Size)
    (inside : ptr + left * width ≤ mem.size) :
    (readUnits mem width ptr left).length = left ∧
      mem.slice ptr (left * width) =
        some ((readUnits mem width ptr left).flatMap (leBytes width)) := by
  induction left with
  | zero =>
    refine ⟨rfl, ?_⟩
    have bound : mem.inBounds ptr (0 * width) = true := decide_eq_true inside
    rw [GuestMemory.slice, if_pos bound, Nat.zero_mul]
    rfl
  | succ left ih =>
    rw [Nat.succ_mul] at inside
    obtain ⟨length, earlier⟩ := ih (by omega)
    have address : wrapAdd ptr (left * width) = ptr + left * width := wrapAdd_of_lt (by omega)
    have bound : mem.inBounds (ptr + left * width) width = true := decide_eq_true (by omega)
    obtain ⟨value, here⟩ : ∃ value, mem.read width (ptr + left * width) = some value := by
      unfold GuestMemory.read GuestMemory.slice
      rw [if_pos bound]
      exact ⟨_, rfl⟩
    have units : readUnits mem width ptr (left + 1) = readUnits mem width ptr left ++ [value] := by
      unfold readUnits
      rw [List.range_succ, List.filterMap_append]
      simp [address, here]
    have bytes := ((GuestMemory.read_eq_some mem).mp here).2
    have lengths : ((readUnits mem width ptr left).flatMap (leBytes width)).length = left * width := by
      rw [List.length_flatMap]
      simp [length]
    refine ⟨by rw [units, List.length_append, length]; rfl, ?_⟩
    rw [units, List.flatMap_append, List.flatMap_singleton]
    have both := (@GuestMemory.slice_append mem ptr
      ((readUnits mem width ptr left).flatMap (leBytes width)) (leBytes width value)).mpr
        ⟨by rw [lengths]; exact earlier, by rw [lengths, leBytes_length]; exact bytes⟩
    rw [List.length_append, lengths, leBytes_length] at both
    rw [Nat.succ_mul]
    exact both

end Units

end Warpine.Loader
