import Warpine.Lx.Fixup

/-! The fixed-size tables of an LX executable, as they stand in the file. -/
namespace Warpine.Lx
open Warpine.Lib Reader

structure LxHeader where
  signature : List UInt8
  byteOrder : Nat
  wordOrder : Nat
  formatLevel : Nat
  cpuType : Nat
  osType : Nat
  moduleVersion : Nat
  moduleFlags : Nat
  moduleNumPages : Nat
  eipObject : Nat
  eip : Nat
  espObject : Nat
  esp : Nat
  pageSize : Nat
  pageOffsetShift : Nat
  fixupSectionSize : Nat
  fixupSectionChecksum : Nat
  loaderSectionSize : Nat
  loaderSectionChecksum : Nat
  objectTableOffset : Nat
  objectCount : Nat
  objectPageMapOffset : Nat
  objectIterDataMapOffset : Nat
  resourceTableOffset : Nat
  resourceCount : Nat
  residentNameTableOffset : Nat
  entryTableOffset : Nat
  moduleDirectivesOffset : Nat
  moduleDirectivesCount : Nat
  fixupPageTableOffset : Nat
  fixupRecordTableOffset : Nat
  importedModulesNameTableOffset : Nat
  importedModulesCount : Nat
  importProcedureNameTableOffset : Nat
  perPageChecksumTableOffset : Nat
  dataPagesOffset : Nat
  numPreloadPages : Nat
  nonResidentNameTableOffset : Nat
  nonResidentNameTableLength : Nat
  nonResidentNameTableChecksum : Nat
  autoDsObject : Nat
  debugInfoOffset : Nat
  debugInfoLength : Nat
  numInstancePreload : Nat
  numInstanceDemand : Nat
  heapSize : Nat
deriving DecidableEq, Repr, Inhabited

/-- `"LX"`. -/
def lxSignature : List UInt8 := [0x4C, 0x58]

def LxHeader.read (offset : Nat) : Reader LxHeader := do
  seek offset
  let signature ← readExact 2
  if signature ≠ lxSignature then invalidData "Invalid LX signature"
  let byteOrder ← readLe 1
  let wordOrder ← readLe 1
  let formatLevel ← readLe 4
  let cpuType ← readLe 2
  let osType ← readLe 2
  let moduleVersion ← readLe 4
  let moduleFlags ← readLe 4
  let moduleNumPages ← readLe 4
  let eipObject ← readLe 4
  let eip ← readLe 4
  let espObject ← readLe 4
  let esp ← readLe 4
  let pageSize ← readLe 4
  let pageOffsetShift ← readLe 4
  let fixupSectionSize ← readLe 4
  let fixupSectionChecksum ← readLe 4
  let loaderSectionSize ← readLe 4
  let loaderSectionChecksum ← readLe 4
  let objectTableOffset ← readLe 4
  let objectCount ← readLe 4
  let objectPageMapOffset ← readLe 4
  let objectIterDataMapOffset ← readLe 4
  let resourceTableOffset ← readLe 4
  let resourceCount ← readLe 4
  let residentNameTableOffset ← readLe 4
  let entryTableOffset ← readLe 4
  let moduleDirectivesOffset ← readLe 4
  let moduleDirectivesCount ← readLe 4
  let fixupPageTableOffset ← readLe 4
  let fixupRecordTableOffset ← readLe 4
  let importedModulesNameTableOffset ← readLe 4
  let importedModulesCount ← readLe 4
  let importProcedureNameTableOffset ← readLe 4
  let perPageChecksumTableOffset ← readLe 4
  let dataPagesOffset ← readLe 4
  let numPreloadPages ← readLe 4
  let nonResidentNameTableOffset ← readLe 4
  let nonResidentNameTableLength ← readLe 4
  let nonResidentNameTableChecksum ← readLe 4
  let autoDsObject ← readLe 4
  let debugInfoOffset ← readLe 4
  let debugInfoLength ← readLe 4
  let numInstancePreload ← readLe 4
  let numInstanceDemand ← readLe 4
  let heapSize ← readLe 4
  return {
    signature := signature,
    byteOrder, wordOrder, formatLevel, cpuType, osType, moduleVersion, moduleFlags,
    moduleNumPages, eipObject, eip, espObject, esp, pageSize, pageOffsetShift, fixupSectionSize,
    fixupSectionChecksum, loaderSectionSize, loaderSectionChecksum, objectTableOffset,
    objectCount, objectPageMapOffset, objectIterDataMapOffset, resourceTableOffset,
    resourceCount, residentNameTableOffset, entryTableOffset, moduleDirectivesOffset,
    moduleDirectivesCount, fixupPageTableOffset, fixupRecordTableOffset,
    importedModulesNameTableOffset, importedModulesCount, importProcedureNameTableOffset,
    perPageChecksumTableOffset, dataPagesOffset, numPreloadPages, nonResidentNameTableOffset,
    nonResidentNameTableLength, nonResidentNameTableChecksum, autoDsObject, debugInfoOffset,
    debugInfoLength, numInstancePreload, numInstanceDemand, heapSize }

/-- The fields after the signature, each with its width. -/
def LxHeader.fields (header : LxHeader) : List (Nat × Nat) := [
  (1, header.byteOrder), (1, header.wordOrder), (4, header.formatLevel), (2, header.cpuType),
  (2, header.osType), (4, header.moduleVersion), (4, header.moduleFlags),
  (4, header.moduleNumPages), (4, header.eipObject), (4, header.eip), (4, header.espObject),
  (4, header.esp), (4, header.pageSize), (4, header.pageOffsetShift),
  (4, header.fixupSectionSize), (4, header.fixupSectionChecksum),
  (4, header.loaderSectionSize), (4, header.loaderSectionChecksum),
  (4, header.objectTableOffset), (4, header.objectCount), (4, header.objectPageMapOffset),
  (4, header.objectIterDataMapOffset), (4, header.resourceTableOffset),
  (4, header.resourceCount), (4, header.residentNameTableOffset),
  (4, header.entryTableOffset), (4, header.moduleDirectivesOffset),
  (4, header.moduleDirectivesCount), (4, header.fixupPageTableOffset),
  (4, header.fixupRecordTableOffset), (4, header.importedModulesNameTableOffset),
  (4, header.importedModulesCount), (4, header.importProcedureNameTableOffset),
  (4, header.perPageChecksumTableOffset), (4, header.dataPagesOffset),
  (4, header.numPreloadPages), (4, header.nonResidentNameTableOffset),
  (4, header.nonResidentNameTableLength), (4, header.nonResidentNameTableChecksum),
  (4, header.autoDsObject), (4, header.debugInfoOffset), (4, header.debugInfoLength),
  (4, header.numInstancePreload), (4, header.numInstanceDemand), (4, header.heapSize)]

def fieldBytes (fields : List (Nat × Nat)) : List UInt8 :=
  fields.flatMap fun field => leBytes field.1 field.2

/-- Words in a row, each with what reading it returns. -/
def ReadsFrom (data : List UInt8) : Nat → List (Nat × Nat) → Prop
  | _, [] => True
  | pos, field :: rest =>
      readLe field.1 data pos = .ok (field.2, pos + field.1) ∧ ReadsFrom data (pos + field.1) rest

theorem readsFrom_of_stored {data : List UInt8} {fields : List (Nat × Nat)} {pos : Nat}
    (fits : ∀ field ∈ fields, field.2 < 256 ^ field.1)
    (stored : Stored data pos (fieldBytes fields)) : ReadsFrom data pos fields := by
  induction fields generalizing pos with
  | nil => trivial
  | cons field rest ih =>
    obtain ⟨hfield, hrest⟩ := List.forall_mem_cons.mp fits
    rw [fieldBytes, List.flatMap_cons, Stored.append, leBytes_length] at stored
    exact ⟨readLe_eq_ok.mpr ⟨hfield, stored.1, rfl⟩, ih hrest stored.2⟩

def LxHeader.bytes (header : LxHeader) : List UInt8 := header.signature ++ fieldBytes header.fields

theorem LxHeader.read_stored {data : List UInt8} {pos start : Nat} {header : LxHeader}
    (signature : header.signature = lxSignature)
    (fits : ∀ field ∈ header.fields, field.2 < 256 ^ field.1)
    (stored : Stored data start header.bytes) :
    LxHeader.read start data pos = .ok (header, start + 172) := by
  rw [LxHeader.bytes, Stored.append, signature] at stored
  have hsignature : readExact 2 data start = .ok (lxSignature, start + 2) :=
    readExact_eq_ok.mpr ⟨rfl, stored.1, rfl⟩
  have hfields := readsFrom_of_stored fits stored.2
  simp only [LxHeader.fields, ReadsFrom, show lxSignature.length = 2 from rfl, Nat.add_assoc,
    Nat.reduceAdd] at hfields
  simp only [LxHeader.read, bind_apply, seek_apply, hsignature, pure_apply, hfields, ne_eq,
    not_true_eq_false, if_false, ← signature]

structure ObjectTableEntry where
  size : Nat
  baseAddress : Nat
  flags : Nat
  pageMapIndex : Nat
  pageCount : Nat
  reserved : Nat
deriving DecidableEq, Repr

def ObjectTableEntry.read : Reader ObjectTableEntry := do
  let size ← readLe 4
  let baseAddress ← readLe 4
  let flags ← readLe 4
  let pageMapIndex ← readLe 4
  let pageCount ← readLe 4
  let reserved ← readLe 4
  return { size := size, baseAddress, flags, pageMapIndex, pageCount, reserved }

def ObjectTableEntry.fields (entry : ObjectTableEntry) : List (Nat × Nat) := [
  (4, entry.size), (4, entry.baseAddress), (4, entry.flags), (4, entry.pageMapIndex),
  (4, entry.pageCount), (4, entry.reserved)]

def ObjectTableEntry.bytes (entry : ObjectTableEntry) : List UInt8 := fieldBytes entry.fields

theorem ObjectTableEntry.read_stored {data : List UInt8} {pos : Nat} {entry : ObjectTableEntry}
    (fits : ∀ field ∈ entry.fields, field.2 < 256 ^ field.1)
    (stored : Stored data pos entry.bytes) :
    ObjectTableEntry.read data pos = .ok (entry, pos + 24) := by
  have hfields := readsFrom_of_stored fits stored
  simp only [ObjectTableEntry.fields, ReadsFrom, Nat.add_assoc, Nat.reduceAdd] at hfields
  simp only [ObjectTableEntry.read, bind_apply, pure_apply, hfields]

structure ObjectPageMapEntry where
  dataOffset : Nat
  dataSize : Nat
  flags : Nat
deriving DecidableEq, Repr

def ObjectPageMapEntry.read : Reader ObjectPageMapEntry := do
  let dataOffset ← readLe 4
  let dataSize ← readLe 2
  let flags ← readLe 2
  return { dataOffset := dataOffset, dataSize, flags }

def ObjectPageMapEntry.fields (entry : ObjectPageMapEntry) : List (Nat × Nat) := [
  (4, entry.dataOffset), (2, entry.dataSize), (2, entry.flags)]

def ObjectPageMapEntry.bytes (entry : ObjectPageMapEntry) : List UInt8 := fieldBytes entry.fields

theorem ObjectPageMapEntry.read_stored {data : List UInt8} {pos : Nat}
    {entry : ObjectPageMapEntry} (fits : ∀ field ∈ entry.fields, field.2 < 256 ^ field.1)
    (stored : Stored data pos entry.bytes) :
    ObjectPageMapEntry.read data pos = .ok (entry, pos + 8) := by
  have hfields := readsFrom_of_stored fits stored
  simp only [ObjectPageMapEntry.fields, ReadsFrom, Nat.add_assoc, Nat.reduceAdd] at hfields
  simp only [ObjectPageMapEntry.read, bind_apply, pure_apply, hfields]

structure LxResourceEntry where
  typeId : Nat
  nameId : Nat
  size : Nat
  objectNum : Nat
  offset : Nat
deriving DecidableEq, Repr

def LxResourceEntry.read : Reader LxResourceEntry := do
  let typeId ← readLe 2
  let nameId ← readLe 2
  let size ← readLe 4
  let objectNum ← readLe 2
  let offset ← readLe 4
  return { typeId := typeId, nameId, size, objectNum, offset }

end Warpine.Lx
