import Warpine.Lib.Utf8
import Warpine.Lx.Header

/-! A parsed LX executable. -/
namespace Warpine.Lx
open Warpine.Lib Reader

structure LxExport where
  ordinal : Nat
  objectNum : Nat
  offset : Nat
deriving DecidableEq, Repr

structure LxFile where
  header : LxHeader
  objectTable : List ObjectTableEntry
  pageMap : List ObjectPageMapEntry
  fixupPageTable : List Nat
  fixupRecordsByPage : List (List LxFixupRecord)
  resources : List LxResourceEntry
  importedModules : List String
  importProcedureNames : List UInt8
  exports : List LxExport
  nonresidentNames : List (Nat × String)
deriving DecidableEq, Repr

/-- The length-prefixed name at an offset of the procedure name table. -/
def LxFile.getProcName (file : LxFile) (offset : Nat) : Option String :=
  match file.importProcedureNames[offset]? with
  | none => none
  | some len =>
      if file.importProcedureNames.length < offset + 1 + len.toNat then none
      else
        some (Utf8.fromUtf8Lossy ((file.importProcedureNames.drop (offset + 1)).take len.toNat))

namespace LxFile

def maxObjects : Nat := 1024
def maxPages : Nat := 65536
def maxResources : Nat := 4096

/-- The limits on the header that the parser checks before it reads a table. -/
def checkHeader (header : LxHeader) : Reader Unit := do
  if maxObjects < header.objectCount then
    invalidData s!"Object count {header.objectCount} exceeds maximum {maxObjects}"
  if maxPages < header.moduleNumPages then
    invalidData s!"Page count {header.moduleNumPages} exceeds maximum {maxPages}"
  if 32 ≤ header.pageOffsetShift then
    invalidData s!"Invalid page_offset_shift: {header.pageOffsetShift}"
  if 0 < header.eipObject ∧ header.objectCount < header.eipObject then
    invalidData s!"eip_object {header.eipObject} exceeds object_count {header.objectCount}"
  if 0 < header.espObject ∧ header.objectCount < header.espObject then
    invalidData s!"esp_object {header.espObject} exceeds object_count {header.objectCount}"

/-- A length byte and that many bytes of text. -/
def readPascal : Reader String := do
  let len ← readLe 1
  let name ← readExact len
  return Utf8.fromUtf8Lossy name

/-- The records of one page, between two offsets from the start of the record table. -/
def readPageRecords (tableStart : Nat) (page : Nat × Nat) : Reader (List LxFixupRecord) :=
  if page.1 < page.2 then do
    seek (tableStart + page.1)
    untilPos (tableStart + page.2) LxFixupRecord.read (page.2 - page.1)
  else return []

def readResources (lxOffset : Nat) (header : LxHeader) : Reader (List LxResourceEntry) :=
  if 0 < header.resourceCount ∧ 0 < header.resourceTableOffset then do
    seek (lxOffset + header.resourceTableOffset)
    times header.resourceCount LxResourceEntry.read
  else return []

def readProcedureNames (lxOffset : Nat) (header : LxHeader) : Reader (List UInt8) :=
  if 0 < header.importProcedureNameTableOffset then do
    let tableStart := lxOffset + header.importProcedureNameTableOffset
    seek tableStart
    readExact (lxOffset + header.loaderSectionSize - tableStart)
  else return []

/-- The bundles of the entry table. Only 32-bit entries are exports; the other
kinds take up ordinals, and an unknown kind ends the table. -/
def readBundles : Nat → Nat → Reader (List LxExport)
  | 0, _ => return []
  | fuel + 1, ordinal => do
      let some count ← orElse (readLe 1) | return []
      if count = 0 then return []
      let bundleType ← readLe 1
      match bundleType with
      | 0 => readBundles fuel (wrapAdd ordinal count)
      | 3 => do
          let objectNum ← readLe 2
          let entries ← forEach (List.range count) fun i => do
            let _flags ← readLe 1
            let offset ← readLe 4
            return LxExport.mk (wrapAdd ordinal i) objectNum offset
          let rest ← readBundles fuel (wrapAdd ordinal count)
          return entries ++ rest
      | 1 => do
          let _entries ← times count (readExact 3)
          readBundles fuel (wrapAdd ordinal count)
      | 2 => do
          let _entries ← times count (readExact 5)
          readBundles fuel (wrapAdd ordinal count)
      | _ => return []

def readExports (lxOffset : Nat) (header : LxHeader) : Reader (List LxExport) :=
  if 0 < header.entryTableOffset then do
    seek (lxOffset + header.entryTableOffset)
    let fuel ← dataLength
    readBundles fuel 1
  else return []

def readNames : Nat → Reader (List (Nat × String))
  | 0 => return []
  | fuel + 1 => do
      let some len ← orElse (readLe 1) | return []
      if len = 0 then return []
      let name ← readExact len
      let ordinal ← readLe 2
      let rest ← readNames fuel
      return (ordinal, Utf8.fromUtf8Lossy name) :: rest

/-- The table of non-resident names stands at an offset from the start of the file. -/
def readNonresidentNames (header : LxHeader) : Reader (List (Nat × String)) :=
  if 0 < header.nonResidentNameTableOffset ∧ 0 < header.nonResidentNameTableLength then do
    seek header.nonResidentNameTableOffset
    let fuel ← dataLength
    readNames fuel
  else return []

/-- `"MZ"`. -/
def mzSignature : List UInt8 := [0x4D, 0x5A]

def read : Reader LxFile := do
  let mzHeader ← readExact 64
  if mzHeader.take 2 ≠ mzSignature then invalidData "Invalid MZ signature"
  let lxOffset := leValue ((mzHeader.drop 0x3C).take 4)
  let header ← LxHeader.read lxOffset
  checkHeader header
  seek (lxOffset + header.objectTableOffset)
  let objectTable ← times header.objectCount ObjectTableEntry.read
  seek (lxOffset + header.objectPageMapOffset)
  let pageMap ← times header.moduleNumPages ObjectPageMapEntry.read
  if maxResources < header.resourceCount then
    invalidData s!"Resource count {header.resourceCount} exceeds maximum {maxResources}"
  let resources ← readResources lxOffset header
  seek (lxOffset + header.fixupPageTableOffset)
  let fixupPageTable ← times (header.moduleNumPages + 1) (readLe 4)
  let fixupRecordsByPage ← forEach (fixupPageTable.zip fixupPageTable.tail)
    (readPageRecords (lxOffset + header.fixupRecordTableOffset))
  seek (lxOffset + header.importedModulesNameTableOffset)
  let importedModules ← times header.importedModulesCount readPascal
  let importProcedureNames ← readProcedureNames lxOffset header
  let exports ← readExports lxOffset header
  let nonresidentNames ← readNonresidentNames header
  return {
    header := header,
    objectTable, pageMap, fixupPageTable, fixupRecordsByPage, resources, importedModules,
    importProcedureNames, exports, nonresidentNames }

def parse (data : List UInt8) : Except ReadError LxFile := (read data 0).map Prod.fst

end LxFile
end Warpine.Lx
