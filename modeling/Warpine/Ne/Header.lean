import Warpine.Lib.Panics
import Warpine.Lib.Utf8

/-! The tables of an NE executable, as they stand in the file. -/
namespace Warpine.Ne
open Warpine.Lib Reader

structure NeHeader where
  signature : List UInt8
  linkerVersion : Nat
  linkerRevision : Nat
  entryTableOffset : Nat
  entryTableSize : Nat
  checksum : Nat
  moduleFlags : Nat
  autoDataSegment : Nat
  initialHeapSize : Nat
  initialStackSize : Nat
  initialCsIp : Nat
  initialSsSp : Nat
  segmentCount : Nat
  moduleRefCount : Nat
  nonResidentNameTableSize : Nat
  segmentTableOffset : Nat
  resourceTableOffset : Nat
  residentNameTableOffset : Nat
  moduleRefTableOffset : Nat
  importedNamesTableOffset : Nat
  nonResidentNameTableFileOffset : Nat
  movableEntryCount : Nat
  alignmentShiftCount : Nat
  resourceSegmentCount : Nat
  targetOs : Nat
  additionalFlags : Nat
  fastLoadOffset : Nat
  fastLoadSize : Nat
  reserved : Nat
  expectedWinVersion : Nat
deriving DecidableEq, Repr

namespace NeHeader

/-- Segment numbers of the entry point and of the stack start at 1. -/
def entryCs (header : NeHeader) : Nat := header.initialCsIp / 0x10000 % 0x10000
def entryIp (header : NeHeader) : Nat := header.initialCsIp % 0x10000
def stackSs (header : NeHeader) : Nat := header.initialSsSp / 0x10000 % 0x10000
def stackSp (header : NeHeader) : Nat := header.initialSsSp % 0x10000

end NeHeader

/-- A little-endian field of a buffer. -/
def field (buf : List UInt8) (pos width : Nat) : Nat := leValue ((buf.drop pos).take width)

/-- `"NE"`. -/
def neSignature : List UInt8 := [0x4E, 0x45]

def NeHeader.decode (buf : List UInt8) : NeHeader where
  signature := buf.take 2
  linkerVersion := field buf 2 1
  linkerRevision := field buf 3 1
  entryTableOffset := field buf 4 2
  entryTableSize := field buf 6 2
  checksum := field buf 8 4
  moduleFlags := field buf 12 2
  autoDataSegment := field buf 14 2
  initialHeapSize := field buf 16 2
  initialStackSize := field buf 18 2
  initialCsIp := field buf 20 4
  initialSsSp := field buf 24 4
  segmentCount := field buf 28 2
  moduleRefCount := field buf 30 2
  nonResidentNameTableSize := field buf 32 2
  segmentTableOffset := field buf 34 2
  resourceTableOffset := field buf 36 2
  residentNameTableOffset := field buf 38 2
  moduleRefTableOffset := field buf 40 2
  importedNamesTableOffset := field buf 42 2
  nonResidentNameTableFileOffset := field buf 44 4
  movableEntryCount := field buf 48 2
  alignmentShiftCount := field buf 50 2
  resourceSegmentCount := field buf 52 2
  targetOs := field buf 54 1
  additionalFlags := field buf 55 1
  fastLoadOffset := field buf 56 2
  fastLoadSize := field buf 58 2
  reserved := field buf 60 2
  expectedWinVersion := field buf 62 2

/-- `{:02X}` of a byte. -/
def hexByte (byte : UInt8) : String :=
  String.ofList (((Nat.toDigits 16 byte.toNat).leftpad 2 '0').map Char.toUpper)

def NeHeader.read (offset : Nat) : Reader NeHeader := do
  seek offset
  let buf ← readExact 64
  if buf.take 2 ≠ neSignature then
    invalidData s!"Invalid NE signature: {hexByte (buf.getD 0 0)} {hexByte (buf.getD 1 0)}"
  return NeHeader.decode buf

structure NeSegmentEntry where
  dataOffset : Nat
  dataLength : Nat
  flags : Nat
  minAllocSize : Nat
deriving DecidableEq, Repr

namespace NeSegmentEntry

def dataFlag : Nat := 0x0001
def hasRelocsFlag : Nat := 0x0100

def decode (buf : List UInt8) : NeSegmentEntry :=
  ⟨field buf 0 2, field buf 2 2, field buf 4 2, field buf 6 2⟩

def read : Reader NeSegmentEntry := do
  let buf ← readExact 8
  return decode buf

def isCode (entry : NeSegmentEntry) : Bool := entry.flags &&& dataFlag == 0

def hasRelocations (entry : NeSegmentEntry) : Bool := entry.flags &&& hasRelocsFlag != 0

/-- No length means 64 KB. -/
def actualDataLength (entry : NeSegmentEntry) : Nat :=
  if entry.dataLength = 0 then 0x10000 else entry.dataLength

def actualMinAlloc (entry : NeSegmentEntry) : Nat :=
  if entry.minAllocSize = 0 then 0x10000 else entry.minAllocSize

/-- The number of bytes in a logical sector is given by its logarithm. -/
def fileOffset (entry : NeSegmentEntry) (alignmentShift : Nat) : Option Nat :=
  shlWord 64 entry.dataOffset alignmentShift

end NeSegmentEntry

inductive NeRelocationTarget where
  | internalRef (segmentNum offset : Nat)
  | importOrdinal (moduleIndex ordinal : Nat)
  | importName (moduleIndex nameOffset : Nat)
  | osFixup (fixupType : Nat)
deriving DecidableEq, Repr

structure NeRelocationEntry where
  sourceType : Nat
  flags : Nat
  sourceOffset : Nat
  target : NeRelocationTarget
deriving DecidableEq, Repr

namespace NeRelocationEntry

def additiveFlag : Nat := 0x04

def isAdditive (reloc : NeRelocationEntry) : Bool := reloc.flags &&& additiveFlag != 0

def decodeTarget (buf : List UInt8) : Option NeRelocationTarget :=
  match field buf 1 1 &&& 0x03 with
  | 0 => some (.internalRef (field buf 4 1) (field buf 6 2))
  | 1 => some (.importOrdinal (field buf 4 2) (field buf 6 2))
  | 2 => some (.importName (field buf 4 2) (field buf 6 2))
  | 3 => some (.osFixup (field buf 4 2))
  | _ => none

def read : Reader NeRelocationEntry := do
  let buf ← readExact 8
  match decodeTarget buf with
  | none => invalidData s!"Unknown NE relocation target type: {field buf 1 1 &&& 0x03}"
  | some target => return ⟨field buf 0 1, field buf 1 1, field buf 2 2, target⟩

end NeRelocationEntry

def entryUnused : Nat := 0x00
def entryMovable : Nat := 0xFF

structure NeEntry where
  ordinal : Nat
  flags : Nat
  segmentNum : Nat
  offset : Nat
deriving DecidableEq, Repr

/-- `u16::from_le_bytes` of two bytes that are indexed one by one. -/
def wordAt (data : List UInt8) (pos : Nat) : Option Nat := do
  let low ← data[pos]?
  let high ← data[pos + 1]?
  return low.toNat + 256 * high.toNat

/-- Up to `count` entries of a bundle; a short one ends it. What is returned is where the
next bundle begins, its first ordinal, and all entries. -/
def parseEntries (data : List UInt8) (indicator : Nat) :
    Nat → Nat → Nat → List NeEntry → Option (Nat × Nat × List NeEntry)
  | 0, pos, ordinal, entries => some (pos, ordinal, entries)
  | count + 1, pos, ordinal, entries =>
      if indicator = entryMovable then
        if data.length < pos + 6 then some (pos, ordinal, entries)
        else do
          let flags ← data[pos]?
          let segmentNum ← data[pos + 3]?
          let offset ← wordAt data (pos + 4)
          let next ← addWord 16 ordinal 1
          parseEntries data indicator count (pos + 6) next
            (entries ++ [⟨ordinal, flags.toNat, segmentNum.toNat, offset⟩])
      else if data.length < pos + 3 then some (pos, ordinal, entries)
      else do
        let flags ← data[pos]?
        let offset ← wordAt data (pos + 1)
        let next ← addWord 16 ordinal 1
        parseEntries data indicator count (pos + 3) next
          (entries ++ [⟨ordinal, flags.toNat, indicator, offset⟩])

/-- The bundles from a position on. Each has two bytes at least, so there are no more than
bytes; to run out of fuel counts as a panic. -/
def parseBundles (data : List UInt8) : Nat → Nat → Nat → List NeEntry → Option (List NeEntry)
  | 0, _, _, _ => none
  | fuel + 1, pos, ordinal, entries =>
      if data.length ≤ pos then some entries
      else do
        let count ← data[pos]?
        if count = 0 then return entries
        let indicator ← data[pos + 1]?
        if indicator.toNat = entryUnused then do
          let ordinal ← addWord 16 ordinal count.toNat
          parseBundles data fuel (pos + 2) ordinal entries
        else do
          let (pos, ordinal, entries) ←
            parseEntries data indicator.toNat count.toNat (pos + 2) ordinal entries
          parseBundles data fuel pos ordinal entries

def parseEntryTable (data : List UInt8) : Option (List NeEntry) :=
  parseBundles data (data.length + 1) 0 1 []

/-- Names with their ordinals, up to an empty one. -/
def parseNames (data : List UInt8) :
    Nat → Nat → List (String × Nat) → Option (List (String × Nat))
  | 0, _, _ => none
  | fuel + 1, pos, entries =>
      if data.length ≤ pos then some entries
      else do
        let len ← data[pos]?
        if len = 0 then return entries
        let pos := pos + 1
        if data.length < pos + len.toNat + 2 then return entries
        let name ← slice data pos (pos + len.toNat)
        let pos := pos + len.toNat
        let ordinal ← wordAt data pos
        parseNames data fuel (pos + 2) (entries ++ [(Utf8.fromUtf8Lossy name, ordinal)])

def parseNameTable (data : List UInt8) : Option (List (String × Nat)) :=
  parseNames data (data.length + 1) 0 []

end Warpine.Ne
