import Warpine.Linker.Writer
import Warpine.Lx.File

/-! The parser reads back what the writer put into the file. -/
namespace Warpine.Linker
open Warpine.Lib Reader
open Warpine.Lx (LxFile LxFixupRecord LxHeader ObjectTableEntry ObjectPageMapEntry fieldBytes)

/-- The record as the loader sees it. -/
def LxFixup.record (fixup : LxFixup) : LxFixupRecord :=
  match fixup.target with
  | .internal objectNum targetOffset =>
      ⟨fixup.sourceType, 0x10, [fixup.sourceOffset], .internal objectNum targetOffset, none⟩
  | .externalOrdinal moduleIdx ordinal =>
      ⟨fixup.sourceType, 0x11, [fixup.sourceOffset], .externalOrdinal moduleIdx ordinal, none⟩

structure LxFixup.Fits (fixup : LxFixup) : Prop where
  sourceType : fixup.sourceType = 0x07
  sourceOffset : fixup.sourceOffset < 256 ^ 2
  target : match fixup.target with
    | .internal objectNum targetOffset => objectNum < 256 ∧ targetOffset < 256 ^ 4
    | .externalOrdinal moduleIdx ordinal => moduleIdx < 256 ∧ ordinal < 256 ^ 4

theorem encodeFixup_length (fixup : LxFixup) : (encodeFixup fixup).length = 9 := by
  unfold encodeFixup
  split <;> simp

theorem LxFixup.Fits.record {fixup : LxFixup} (fits : fixup.Fits) :
    fixup.record.Fits true ∧ fixup.record.bytesRead = encodeFixup fixup := by
  obtain ⟨sourceType, sourceOffset, target⟩ := fixup
  obtain ⟨htype, hoffset, htarget⟩ := fits
  dsimp only at htype hoffset htarget
  subst htype
  constructor
  · cases target <;> constructor <;>
      simp_all [LxFixup.record, LxFixupRecord.OffsetsFit, LxFixupRecord.AdditiveFits,
        Lx.FixupTarget.Fits, Lx.hasFlag, Lx.indexWidth, Lx.offsetWidth, Lx.ordinalWidth]
  · cases target <;>
      simp [LxFixup.record, encodeFixup, LxFixupRecord.bytesRead, LxFixupRecord.flagBytes,
        LxFixupRecord.sourceHead, LxFixupRecord.sourceList, LxFixupRecord.hasSourceList,
        Lx.hasFlag, Lx.FixupTarget.bytes, Lx.indexWidth, Lx.offsetWidth, Lx.ordinalWidth,
        LxFixupRecord.additiveBytes]

theorem records_bytesRead {page : List LxFixup} (fits : ∀ fixup ∈ page, fixup.Fits) :
    (page.map LxFixup.record).flatMap LxFixupRecord.bytesRead = page.flatMap encodeFixup := by
  rw [List.flatMap_map]
  exact List.flatMap_congr fun fixup hfixup => (fits fixup hfixup).record.2

/-- The records of one page, which may have none. -/
theorem readPage {data : List UInt8} {tableStart recordsLen : Nat} {page : List LxFixup}
    (fits : ∀ fixup ∈ page, fixup.Fits)
    (stored : Stored data (tableStart + recordsLen) (page.flatMap encodeFixup)) (pos : Nat) :
    ∃ next, LxFile.readPageRecords tableStart
        (recordsLen, recordsLen + (page.flatMap encodeFixup).length) data pos =
      .ok (page.map LxFixup.record, next) := by
  unfold LxFile.readPageRecords
  dsimp only
  split
  · have hlength := congrArg List.length (records_bytesRead fits)
    rw [← records_bytesRead fits] at stored
    refine ⟨tableStart + (recordsLen + (page.flatMap encodeFixup).length), ?_⟩
    simp only [bind_apply, seek_apply]
    apply untilPos_stored _ _ stored
    · omega
    · omega
    · intro record hrecord pos hstored
      obtain ⟨fixup, hfixup, rfl⟩ := List.mem_map.mp hrecord
      exact LxFixupRecord.read_eq_ok.mpr ⟨(fits fixup hfixup).record.1, hstored, rfl⟩
    · intro record hrecord
      obtain ⟨fixup, hfixup, rfl⟩ := List.mem_map.mp hrecord
      rw [(fits fixup hfixup).record.2]
      exact List.ne_nil_of_length_pos (by rw [encodeFixup_length]; decide)
  · rename_i hnone
    cases page with
    | nil => exact ⟨pos, rfl⟩
    | cons fixup rest =>
      rw [List.flatMap_cons, List.length_append, encodeFixup_length] at hnone
      omega

theorem read_encodeModule {data : List UInt8} {pos : Nat} {name : String}
    (fits : (Utf8.toBytes name).length < 256) (stored : Stored data pos (encodeModule name)) :
    LxFile.readPascal data pos = .ok (name, pos + (encodeModule name).length) := by
  rw [encodeModule, Stored.append, leBytes_length] at stored
  have hlen : readLe 1 data pos = .ok ((Utf8.toBytes name).length, pos + 1) :=
    readLe_eq_ok.mpr ⟨fits, stored.1, rfl⟩
  have hname := readExact_eq_ok.mpr ⟨rfl, stored.2, rfl⟩
  unfold LxFile.readPascal encodeModule
  simp only [bind_apply, hlen, hname, pure_apply, Utf8.fromUtf8Lossy_toBytes, List.length_append,
    leBytes_length, Nat.add_assoc]

/-- The records of all pages, from the offsets in the page table. -/
theorem readPages {data : List UInt8} {tableStart recordsLen : Nat} {pages : List (List LxFixup)}
    (fits : ∀ page ∈ pages, ∀ fixup ∈ page, fixup.Fits)
    (stored : Stored data (tableStart + recordsLen)
      (pages.flatMap fun page => page.flatMap encodeFixup)) (pos : Nat) :
    ∃ next, forEach ((fixupPageTable recordsLen pages).zip (fixupPageTable recordsLen pages).tail)
        (LxFile.readPageRecords tableStart) data pos =
      .ok (pages.map fun page => page.map LxFixup.record, next) := by
  induction pages generalizing recordsLen pos with
  | nil => exact ⟨pos, rfl⟩
  | cons page rest ih =>
    obtain ⟨hpage, hrest⟩ := List.forall_mem_cons.mp fits
    rw [List.flatMap_cons, Stored.append, Nat.add_assoc] at stored
    have htail : fixupPageTable (recordsLen + (page.flatMap encodeFixup).length) rest =
        (recordsLen + (page.flatMap encodeFixup).length) ::
          (fixupPageTable (recordsLen + (page.flatMap encodeFixup).length) rest).tail := by
      cases rest <;> rfl
    obtain ⟨middle, hrecords⟩ := readPage hpage stored.1 pos
    obtain ⟨next, hlater⟩ := ih hrest stored.2 middle
    refine ⟨next, ?_⟩
    rw [fixupPageTable, List.tail_cons]
    conv_lhs => rw [htail]
    rw [List.zip_cons_cons, forEach, ← htail]
    simp only [bind_apply, hrecords, hlater, pure_apply, List.map_cons]

namespace Image

variable (image : Image)

def header : LxHeader where
  signature := [0x4C, 0x58]
  byteOrder := 0
  wordOrder := 0
  formatLevel := 0
  cpuType := 2
  osType := 1
  moduleVersion := 0
  moduleFlags := 0
  moduleNumPages := image.totalPages
  eipObject := 1
  eip := image.entryOffset
  espObject := 3
  esp := stackSize
  pageSize := 4096
  pageOffsetShift := 0
  fixupSectionSize := image.fixupSectionSize
  fixupSectionChecksum := 0
  loaderSectionSize := image.fixupPageTableOff
  loaderSectionChecksum := 0
  objectTableOffset := objTableOff
  objectCount := numObjects
  objectPageMapOffset := pageMapOff
  objectIterDataMapOffset := 0
  resourceTableOffset := 0
  resourceCount := 0
  residentNameTableOffset := image.residentNameOff
  entryTableOffset := image.entryTableOff
  moduleDirectivesOffset := 0
  moduleDirectivesCount := 0
  fixupPageTableOffset := image.fixupPageTableOff
  fixupRecordTableOffset := image.fixupRecordOff
  importedModulesNameTableOffset := image.importModulesOff
  importedModulesCount := image.importedModules.length
  importProcedureNameTableOffset := image.importProcNameOff
  perPageChecksumTableOffset := 0
  dataPagesOffset := image.dataPagesOffsetAbs
  numPreloadPages := 0
  nonResidentNameTableOffset := 0
  nonResidentNameTableLength := 0
  nonResidentNameTableChecksum := 0
  autoDsObject := 2
  debugInfoOffset := 0
  debugInfoLength := 0
  numInstancePreload := 0
  numInstanceDemand := 0
  heapSize := 0

def objects : List ObjectTableEntry := [
  { size := image.codeSize
    baseAddress := codeObjectBase
    flags := objRead ||| objExec ||| objBig ||| objUse32
    pageMapIndex := 1
    pageCount := image.codeFixups.length
    reserved := 0 },
  { size := image.dataSize
    baseAddress := dataObjectBase
    flags := objRead ||| objWrite ||| objBig ||| objUse32
    pageMapIndex := image.codeFixups.length + 1
    pageCount := image.dataFixups.length
    reserved := 0 },
  { size := stackSize
    baseAddress := stackObjectBase
    flags := objRead ||| objWrite ||| objBig ||| objUse32
    pageMapIndex := image.codeFixups.length + image.dataFixups.length + 1
    pageCount := stackPages
    reserved := 0 }]

def pageMapEntry (fileOff dataLen pi : Nat) : ObjectPageMapEntry where
  dataOffset := fileOff
  dataSize := wrapSub (min ((pi + 1) * pageSize) dataLen) (pi * pageSize) % u16Size
  flags := 0

def pageMapEntries : List ObjectPageMapEntry :=
  ((List.range image.codeFixups.length).map fun pi =>
      pageMapEntry (pi * pageSize) image.codeData.length pi) ++
    ((List.range image.dataFixups.length).map fun pi =>
      pageMapEntry ((image.codeFixups.length + pi) * pageSize) image.dataData.length pi) ++
    (List.range stackPages).map fun pi =>
      ⟨(image.codeFixups.length + image.dataFixups.length + pi) * pageSize, pageSize, 0⟩

/-- What the parser makes of the file. -/
def file : LxFile where
  header := image.header
  objectTable := image.objects
  pageMap := image.pageMapEntries
  fixupPageTable := fixupPageTable 0 image.pages
  fixupRecordsByPage := image.pages.map fun page => page.map LxFixup.record
  resources := []
  importedModules := image.importedModules
  importProcedureNames := []
  exports := []
  nonresidentNames := []

/-- What the image holds fits the fields of the format. -/
structure Regular : Prop where
  pages : image.totalPages ≤ LxFile.maxPages
  offsets : image.dataPagesOffsetAbs < 256 ^ 4
  entryOffset : image.entryOffset < 256 ^ 4
  fixups : ∀ page ∈ image.codeFixups ++ image.dataFixups, ∀ fixup ∈ page, fixup.Fits
  modules : ∀ name ∈ image.importedModules, (Utf8.toBytes name).length < 256

theorem buildLxHeader_eq : image.buildLxHeader = image.header.bytes := rfl

theorem objectTable_eq : image.objectTable = image.objects.flatMap ObjectTableEntry.bytes := by
  simp [objectTable, objects, encodeObjectEntry, ObjectTableEntry.bytes, ObjectTableEntry.fields,
    fieldBytes, stackPages]

theorem pageMap_eq : image.pageMap = image.pageMapEntries.flatMap ObjectPageMapEntry.bytes := by
  have hentry (fileOff dataLen pi : Nat) : pageEntry fileOff dataLen pi =
      (pageMapEntry fileOff dataLen pi).bytes := by
    have hsize := leBytes_mod 2 (wrapSub (min ((pi + 1) * pageSize) dataLen) (pi * pageSize))
    simp only [pageEntry, pageMapEntry, ObjectPageMapEntry.bytes, ObjectPageMapEntry.fields,
      fieldBytes, List.flatMap_cons, List.flatMap_nil, List.append_nil, List.append_assoc]
    rw [← hsize]
    rfl
  unfold pageMap pageMapEntries
  rw [List.flatMap_append, List.flatMap_append, List.flatMap_map, List.flatMap_map,
    List.flatMap_map]
  simp only [hentry]
  simp [ObjectPageMapEntry.bytes, ObjectPageMapEntry.fields, fieldBytes]

theorem pageMapEntries_length : image.pageMapEntries.length = image.totalPages := by
  simp [pageMapEntries, totalPages]
  omega

theorem objectPageMapEntry_length (entry : ObjectPageMapEntry) : entry.bytes.length = 8 := by
  simp [ObjectPageMapEntry.bytes, ObjectPageMapEntry.fields, fieldBytes]

theorem fixupPageTable_length (recordsLen : Nat) (pages : List (List LxFixup)) :
    (fixupPageTable recordsLen pages).length = pages.length + 1 := by
  induction pages generalizing recordsLen with
  | nil => rfl
  | cons page rest ih => rw [fixupPageTable, List.length_cons, ih, List.length_cons]

theorem fixupPageTable_le {recordsLen entry : Nat} {pages : List (List LxFixup)}
    (h : entry ∈ fixupPageTable recordsLen pages) :
    entry ≤ recordsLen + (pages.flatMap fun page => page.flatMap encodeFixup).length := by
  induction pages generalizing recordsLen with
  | nil => simp [fixupPageTable] at h; omega
  | cons page rest ih =>
    rw [List.flatMap_cons, List.length_append]
    rcases List.mem_cons.mp h with rfl | h
    · omega
    · have := ih h
      omega

theorem pages_length : image.pages.length = image.totalPages := by
  simp [pages, totalPages]
  omega

/-- Where the parser finds each table. -/
structure Tables (data : List UInt8) : Prop where
  mz : Stored data 0 mzStub
  header : Stored data 0x40 image.header.bytes
  objects : Stored data (0x40 + objTableOff) (image.objects.flatMap ObjectTableEntry.bytes)
  pageMap : Stored data (0x40 + pageMapOff)
    (image.pageMapEntries.flatMap ObjectPageMapEntry.bytes)
  entries : Stored data (0x40 + image.entryTableOff) entryTableBytes
  pageTable : Stored data (0x40 + image.fixupPageTableOff)
    ((fixupPageTable 0 image.pages).flatMap (leBytes 4))
  records : Stored data (0x40 + image.fixupRecordOff) image.fixupRecords
  modules : Stored data (0x40 + image.importModulesOff) image.importModulesBytes

theorem buildLxHeader_length : image.buildLxHeader.length = 172 := by
  simp [buildLxHeader, fieldBytes]

theorem objectTable_length : image.objectTable.length = numObjects * 24 := by
  simp [objectTable, encodeObjectEntry, numObjects]

theorem pageMap_length : image.pageMap.length = image.totalPages * 8 := by
  rw [pageMap_eq, List.length_flatMap]
  simp [objectPageMapEntry_length, pageMapEntries_length]

theorem pageTable_length :
    ((fixupPageTable 0 image.pages).flatMap (leBytes 4)).length = (image.totalPages + 1) * 4 := by
  rw [List.length_flatMap]
  simp [fixupPageTable_length, pages_length]

theorem tables_of_stored {data : List UInt8} (stored : Stored data 0 image.bytes) :
    image.Tables data := by
  unfold bytes at stored
  simp only [Stored.append, List.length_append, buildLxHeader_length, objectTable_length,
    pageMap_length, pageTable_length, show mzStub.length = 64 from rfl] at stored
  rw [objectTable_eq, pageMap_eq, buildLxHeader_eq] at stored
  obtain ⟨⟨⟨⟨⟨⟨⟨⟨⟨⟨⟨⟨hmz, hheader⟩, hobjects⟩, hpageMap⟩, _⟩, hentries⟩, hpageTable⟩, hrecords⟩,
    hmodules⟩, _⟩, _⟩, _⟩, _⟩ := stored
  have hoffsets : image.fixupRecordOff = image.entryTableOff + entryTableBytes.length +
      (image.totalPages + 1) * 4 ∧ image.entryTableOff = 172 + numObjects * 24 +
        image.totalPages * 8 + residentNameBytes.length := ⟨rfl, rfl⟩
  exact {
    mz := hmz
    header := hheader
    objects := hobjects
    pageMap := hpageMap
    entries := hentries.at_pos (by omega)
    pageTable := hpageTable.at_pos (by rw [fixupPageTableOff]; omega)
    records := hrecords.at_pos (by omega)
    modules := hmodules.at_pos (by rw [importModulesOff]; omega) }

theorem tables : image.Tables image.bytes := image.tables_of_stored List.prefix_rfl

theorem dataPagesOffsetAbs_ge : image.loaderSectionEnd ≤ image.dataPagesOffsetAbs := by
  unfold dataPagesOffsetAbs alignTo
  omega

theorem importedModules_length :
    image.importedModules.length ≤ image.importModulesBytes.length := by
  unfold importModulesBytes
  have hle : (image.importedModules.flatMap fun name => [name]).length ≤
    (image.importedModules.flatMap encodeModule).length :=
      length_flatMap_le fun name _ => by simp [encodeModule]
  rwa [List.flatMap_singleton'] at hle

variable {image}

theorem header_fits (offsets : image.dataPagesOffsetAbs < 256 ^ 4)
    (entryOffset : image.entryOffset < 256 ^ 4) :
    ∀ field ∈ image.header.fields, field.2 < 256 ^ field.1 := by
  have hdata := image.dataPagesOffsetAbs_ge
  have hmodules := image.importedModules_length
  have hresident : residentNameBytes.length = 11 := rfl
  have htable : entryTableBytes.length = 2 := rfl
  simp only [loaderSectionEnd, lxHeaderOffset, importProcNameOff, importModulesOff, fixupRecordOff,
    fixupPageTableOff, entryTableOff, residentNameOff, pageMapOff, objTableOff, lxHeaderSize,
    numObjects] at hdata
  simp only [LxHeader.fields, header, List.forall_mem_cons, List.not_mem_nil, IsEmpty.forall_iff,
    implies_true, and_true, importProcNameOff, importModulesOff, fixupRecordOff, fixupSectionSize,
    fixupPageTableOff, entryTableOff, residentNameOff, pageMapOff, objTableOff, lxHeaderSize,
    numObjects, stackSize]
  omega

theorem Regular.objects_fit (regular : image.Regular) :
    ∀ entry ∈ image.objects, ∀ field ∈ entry.fields, field.2 < 256 ^ field.1 := by
  have hpages : image.codeFixups.length + image.dataFixups.length + stackPages ≤ 65536 :=
    regular.pages
  have hcode : image.codeSize < 256 ^ 4 := Nat.mod_lt _ (by decide)
  have hdata : image.dataSize < 256 ^ 4 := Nat.mod_lt _ (by decide)
  have hcodeFlags : objRead ||| objExec ||| objBig ||| objUse32 < 256 ^ 4 := by decide
  have hdataFlags : objRead ||| objWrite ||| objBig ||| objUse32 < 256 ^ 4 := by decide
  simp only [objects, ObjectTableEntry.fields, List.forall_mem_cons, List.not_mem_nil,
    IsEmpty.forall_iff, implies_true, and_true, codeObjectBase, dataObjectBase, stackObjectBase,
    stackSize]
  omega

theorem Regular.pageMap_fits (regular : image.Regular) :
    ∀ entry ∈ image.pageMapEntries, ∀ field ∈ entry.fields, field.2 < 256 ^ field.1 := by
  have hpages : image.codeFixups.length + image.dataFixups.length + stackPages ≤ 65536 :=
    regular.pages
  have hentry (entry : ObjectPageMapEntry) (offset : entry.dataOffset < 256 ^ 4)
      (size : entry.dataSize < 256 ^ 2) (flags : entry.flags = 0) :
      ∀ field ∈ entry.fields, field.2 < 256 ^ field.1 := by
    simp [ObjectPageMapEntry.fields, flags]
    omega
  intro entry member
  unfold pageMapEntries pageMapEntry at member
  rcases List.mem_append.mp member with member | member
  · rcases List.mem_append.mp member with member | member
    · obtain ⟨pi, hpi, rfl⟩ := List.mem_map.mp member
      have hlt := List.mem_range.mp hpi
      apply hentry _ _ (Nat.mod_lt _ (by decide)) rfl
      dsimp only [pageSize]
      omega
    · obtain ⟨pi, hpi, rfl⟩ := List.mem_map.mp member
      have hlt := List.mem_range.mp hpi
      apply hentry _ _ (Nat.mod_lt _ (by decide)) rfl
      dsimp only [pageSize]
      omega
  · obtain ⟨pi, hpi, rfl⟩ := List.mem_map.mp member
    have hlt := List.mem_range.mp hpi
    apply hentry _ _ (show pageSize < 256 ^ 2 by decide) rfl
    dsimp only [pageSize]
    omega

theorem Regular.pageTable_fits (regular : image.Regular) :
    ∀ entry ∈ fixupPageTable 0 image.pages, entry < 256 ^ 4 := by
  intro entry member
  have hle := fixupPageTable_le member
  have hdata := image.dataPagesOffsetAbs_ge
  have hoffsets := regular.offsets
  have hrecords : image.fixupRecords.length =
    (image.pages.flatMap fun page => page.flatMap encodeFixup).length := rfl
  simp only [loaderSectionEnd, importProcNameOff, importModulesOff] at hdata
  omega

theorem Regular.records_fit (regular : image.Regular) :
    ∀ page ∈ image.pages, ∀ fixup ∈ page, fixup.Fits := by
  intro page hpage fixup hfixup
  rcases List.mem_append.mp hpage with hpage | hpage
  · exact regular.fixups page hpage fixup hfixup
  · rw [List.eq_of_mem_replicate hpage] at hfixup
    cases hfixup

theorem checkHeader_ok (regular : image.Regular) (data : List UInt8) (pos : Nat) :
    LxFile.checkHeader image.header data pos = .ok ((), pos) := by
  have hpages := Nat.not_lt.mpr regular.pages
  unfold LxFile.checkHeader
  simp [header, numObjects, hpages, LxFile.maxObjects, pure_apply]

/-- The limit on the pages of a file is the parser's own. -/
theorem parse_tooManyPages (offsets : image.dataPagesOffsetAbs < 256 ^ 4)
    (entryOffset : image.entryOffset < 256 ^ 4) (many : LxFile.maxPages < image.totalPages) :
    ∃ message, LxFile.parse image.bytes = .error (.invalidData message) := by
  have tables := image.tables
  generalize image.bytes = data at tables
  have hmz : readExact 64 data 0 = .ok (mzStub, 64) := readExact_eq_ok.mpr ⟨rfl, tables.mz, rfl⟩
  have hheader : LxHeader.read 0x40 data 64 = .ok (image.header, 0x40 + 172) :=
    LxHeader.read_stored rfl (header_fits offsets entryOffset) tables.header
  have hcheck : ∃ message, LxFile.checkHeader image.header data (0x40 + 172) =
      .error (.invalidData message) := by
    unfold LxFile.checkHeader
    simp [header, numObjects, many, LxFile.maxObjects, bind_apply, invalidData]
  obtain ⟨message, hcheck⟩ := hcheck
  refine ⟨message, ?_⟩
  unfold LxFile.parse LxFile.read
  simp only [bind_apply, if_false, ne_eq, not_true_eq_false, hmz,
    show mzStub.take 2 = LxFile.mzSignature from rfl,
    show leValue ((mzStub.drop 0x3C).take 4) = 0x40 from rfl, hheader, hcheck]
  rfl

theorem readProcedureNames_ok (image : Image) (data : List UInt8) (pos : Nat) :
    ∃ next, LxFile.readProcedureNames 0x40 image.header data pos = .ok ([], next) := by
  have hsome : 0 < image.importProcNameOff := by
    simp only [importProcNameOff, importModulesOff, fixupRecordOff]
    omega
  have hnone : 0x40 + image.fixupPageTableOff - (0x40 + image.importProcNameOff) = 0 := by
    simp only [importProcNameOff, importModulesOff, fixupRecordOff]
    omega
  refine ⟨0x40 + image.importProcNameOff + 0, ?_⟩
  unfold LxFile.readProcedureNames
  rw [if_pos (show 0 < image.header.importProcedureNameTableOffset from hsome)]
  dsimp only [header]
  rw [hnone, bind_apply, seek_apply]
  exact readExact_eq_ok.mpr ⟨rfl, Stored.nil, rfl⟩

theorem readExports_ok {data : List UInt8} (tables : image.Tables data) (pos : Nat) :
    ∃ next, LxFile.readExports 0x40 image.header data pos = .ok ([], next) := by
  have hsome : 0 < image.entryTableOff := by
    unfold entryTableOff residentNameOff pageMapOff objTableOff lxHeaderSize
    omega
  have hlength : data.length = (data.length - 1) + 1 := by
    have hmz : mzStub.length ≤ data.length := tables.mz.length_le
    have hstub : mzStub.length = 64 := rfl
    omega
  have hterminator : Stored data (0x40 + image.entryTableOff) ([0] ++ [0]) := tables.entries
  have hcount : readLe 1 data (0x40 + image.entryTableOff) =
      .ok (0, 0x40 + image.entryTableOff + 1) :=
    readLe_eq_ok.mpr ⟨by decide, (Stored.append.mp hterminator).1, rfl⟩
  refine ⟨0x40 + image.entryTableOff + 1, ?_⟩
  unfold LxFile.readExports
  rw [if_pos (show 0 < image.header.entryTableOffset from hsome)]
  simp only [bind_apply, seek_apply]
  change LxFile.readBundles data.length 1 data (0x40 + image.entryTableOff) = _
  rw [hlength, LxFile.readBundles]
  simp only [bind_apply, orElse, hcount, if_true, pure_apply]

theorem readNothing_ok (image : Image) (data : List UInt8) (pos : Nat) :
    LxFile.readResources 0x40 image.header data pos = .ok ([], pos) ∧
      LxFile.readNonresidentNames image.header data pos = .ok ([], pos) := by
  constructor
  · simp [LxFile.readResources, header, pure_apply]
  · simp [LxFile.readNonresidentNames, header, pure_apply]

/-- The parser gets back all that was put in. -/
theorem parse_bytes (regular : image.Regular) : LxFile.parse image.bytes = .ok image.file := by
  have tables := image.tables
  generalize image.bytes = data at tables
  have hmz : readExact 64 data 0 = .ok (mzStub, 64) := readExact_eq_ok.mpr ⟨rfl, tables.mz, rfl⟩
  have hheader : LxHeader.read 0x40 data 64 = .ok (image.header, 0x40 + 172) :=
    LxHeader.read_stored rfl (header_fits regular.offsets regular.entryOffset) tables.header
  have hobjects : times image.header.objectCount ObjectTableEntry.read data
      (0x40 + image.header.objectTableOffset) = .ok (image.objects,
        0x40 + objTableOff + (image.objects.flatMap ObjectTableEntry.bytes).length) :=
    times_stored (fun entry member pos stored =>
      ObjectTableEntry.read_stored (regular.objects_fit entry member) stored) tables.objects
  have hpageMap : times image.header.moduleNumPages ObjectPageMapEntry.read data
      (0x40 + image.header.objectPageMapOffset) = .ok (image.pageMapEntries,
        0x40 + pageMapOff + (image.pageMapEntries.flatMap ObjectPageMapEntry.bytes).length) := by
    rw [show image.header.moduleNumPages = image.pageMapEntries.length from
      image.pageMapEntries_length.symm]
    exact times_stored (fun entry member pos stored =>
      ObjectPageMapEntry.read_stored (regular.pageMap_fits entry member) stored) tables.pageMap
  have hpageTable : times (image.header.moduleNumPages + 1) (readLe 4) data
      (0x40 + image.header.fixupPageTableOffset) = .ok (fixupPageTable 0 image.pages,
        0x40 + image.fixupPageTableOff +
          ((fixupPageTable 0 image.pages).flatMap (leBytes 4)).length) := by
    rw [show image.header.moduleNumPages + 1 = (fixupPageTable 0 image.pages).length by
      rw [fixupPageTable_length, pages_length]; rfl]
    exact times_stored (fun entry member pos stored => readLe_eq_ok.mpr
      ⟨regular.pageTable_fits entry member, stored, by rw [leBytes_length]⟩) tables.pageTable
  obtain ⟨recordsEnd, hrecords⟩ := readPages regular.records_fit
    (show Stored data (0x40 + image.header.fixupRecordTableOffset + 0) _ from tables.records)
    (0x40 + image.fixupPageTableOff + ((fixupPageTable 0 image.pages).flatMap (leBytes 4)).length)
  have hmodules : times image.header.importedModulesCount LxFile.readPascal data
      (0x40 + image.header.importedModulesNameTableOffset) = .ok (image.importedModules,
        0x40 + image.importModulesOff + image.importModulesBytes.length) :=
    times_stored (fun name member pos stored =>
      read_encodeModule (regular.modules name member) stored) tables.modules
  obtain ⟨namesEnd, hnames⟩ := readProcedureNames_ok image data
    (0x40 + image.importModulesOff + image.importModulesBytes.length)
  obtain ⟨exportsEnd, hexports⟩ := readExports_ok tables namesEnd
  have hlimit : ¬ LxFile.maxResources < image.header.resourceCount := Nat.not_lt_zero _
  unfold LxFile.parse LxFile.read
  simp only [bind_apply, pure_apply, seek_apply, if_false, ne_eq, not_true_eq_false, hmz,
    show mzStub.take 2 = LxFile.mzSignature from rfl,
    show leValue ((mzStub.drop 0x3C).take 4) = 0x40 from rfl, hheader, checkHeader_ok regular,
    hobjects, hpageMap, hlimit, readNothing_ok, hpageTable, hrecords, hmodules, hnames, hexports]
  rfl

end Image
end Warpine.Linker
