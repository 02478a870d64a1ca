import Warpine.Ne.Header

/-! A parsed NE executable, and its parser. -/
namespace Warpine.Ne
open Warpine.Lib Reader Panicky

structure NeFile where
  header : NeHeader
  segmentTable : List NeSegmentEntry
  relocationsBySegment : List (List NeRelocationEntry)
  importedModules : List String
  entries : List NeEntry
  residentNames : List (String × Nat)
  nonResidentNames : List (String × Nat)
  importedNamesData : List UInt8
  neOffset : Nat
deriving DecidableEq, Repr

namespace NeFile

/-- `"MZ"`. -/
def mzSignature : List UInt8 := [0x4D, 0x5A]

/-- `{:X}` of a number. -/
def hex (value : Nat) : String := String.ofList ((Nat.toDigits 16 value).map Char.toUpper)

def readOffset : Reader Nat := do
  let mz ← readExact 64
  if mz.take 2 ≠ mzSignature then invalidData "Not a valid MZ executable"
  let neOffset := field mz 60 4
  if neOffset < 64 then invalidData s!"Invalid e_lfanew: 0x{hex neOffset}"
  return neOffset

def checkHeader (header : NeHeader) : Reader Unit :=
  if 255 < header.segmentCount then
    invalidData s!"Excessive NE segment count: {header.segmentCount}"
  else return ()

def readSegments (neOffset : Nat) (header : NeHeader) : Panicky (List NeSegmentEntry) := do
  let pos ← ofOption (addWord 64 neOffset header.segmentTableOffset)
  seek pos
  times header.segmentCount NeSegmentEntry.read

/-- The bytes between the offsets of two tables, if the second comes later. -/
def readBetween (neOffset first second : Nat) : Panicky (List UInt8) := do
  let pos ← ofOption (addWord 64 neOffset first)
  let stop ← ofOption (addWord 64 neOffset second)
  if pos < stop then do
    seek pos
    readExact (stop - pos)
  else return []

/-- The name at an offset of the imported names, empty where there is none. -/
def moduleName (names : List UInt8) (offset : Nat) : Option String :=
  if offset < names.length then do
    let len ← names[offset]?
    if offset + 1 + len.toNat ≤ names.length then do
      let name ← slice names (offset + 1) (offset + 1 + len.toNat)
      return Utf8.fromUtf8Lossy name
    else return ""
  else some ""

def readModuleRefs (neOffset : Nat) (header : NeHeader) (names : List UInt8) :
    Panicky (List String) := do
  let pos ← ofOption (addWord 64 neOffset header.moduleRefTableOffset)
  seek pos
  Panicky.forEach (List.range header.moduleRefCount) fun _ => do
    let offset ← readLe 2
    ofOption (moduleName names offset)

def readEntryTable (neOffset : Nat) (header : NeHeader) : Panicky (List UInt8) := do
  let pos ← ofOption (addWord 64 neOffset header.entryTableOffset)
  seek pos
  readExact header.entryTableSize

/-- Where there are no bytes of a name table there are no names. -/
def readResidentNames (neOffset : Nat) (header : NeHeader) : Panicky (List (String × Nat)) := do
  let data ← readBetween neOffset header.residentNameTableOffset header.moduleRefTableOffset
  ofOption (parseNameTable data)

def readNonResidentNames (header : NeHeader) : Panicky (List (String × Nat)) :=
  if 0 < header.nonResidentNameTableFileOffset ∧ 0 < header.nonResidentNameTableSize then do
    seek header.nonResidentNameTableFileOffset
    let data ← readExact header.nonResidentNameTableSize
    ofOption (parseNameTable data)
  else return []

/-- The relocations of a segment stand behind its data. -/
def readRelocations (shift : Nat) (seg : NeSegmentEntry) : Panicky (List NeRelocationEntry) :=
  if seg.hasRelocations ∧ 0 < seg.dataOffset then do
    let start ← ofOption (seg.fileOffset shift)
    let stop ← ofOption (addWord 64 start seg.actualDataLength)
    seek stop
    let count ← readLe 2
    times count NeRelocationEntry.read
  else return []

def read : Panicky NeFile := do
  let neOffset ← readOffset
  let header ← NeHeader.read neOffset
  checkHeader header
  let segmentTable ← readSegments neOffset header
  let importedNamesData ←
    readBetween neOffset header.importedNamesTableOffset header.entryTableOffset
  let importedModules ← readModuleRefs neOffset header importedNamesData
  let entryData ← readEntryTable neOffset header
  let entries ← ofOption (parseEntryTable entryData)
  let residentNames ← readResidentNames neOffset header
  let nonResidentNames ← readNonResidentNames header
  let relocationsBySegment ←
    Panicky.forEach segmentTable (readRelocations header.alignmentShiftCount)
  return {
    header := header,
    segmentTable, relocationsBySegment, importedModules, entries, residentNames,
    nonResidentNames, importedNamesData, neOffset }

/-- The result of the parser, or `none` where it panics. -/
def parse (data : List UInt8) : Option (Except ReadError NeFile) :=
  match read.run data 0 with
  | .error e => some (.error e)
  | .ok (file, _) => file.map .ok

/-- Segment and offset of the entry point with an ordinal. -/
def resolveEntry (file : NeFile) (ordinal : Nat) : Option (Nat × Nat) :=
  (file.entries.find? fun entry => entry.ordinal == ordinal).map fun entry =>
    (entry.segmentNum, entry.offset)

end NeFile
end Warpine.Ne
