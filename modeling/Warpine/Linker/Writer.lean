import Warpine.Linker.State
import Warpine.Loader.Constants
import Warpine.Lib.Lists
import Warpine.Lib.Utf8
import Warpine.Lx.Header

/-! The LX file that the linker writes: relocations are patched into the pages,
and the absolute ones get a fixup record as well. -/
namespace Warpine.Linker
open Warpine.Lib Warpine.Loader

inductive FixupTarget where
  | internal (objectNum targetOffset : Nat)
  | externalOrdinal (moduleIdx ordinal : Nat)
deriving DecidableEq, Repr

structure LxFixup where
  sourceType : Nat
  sourceOffset : Nat
  target : FixupTarget
deriving DecidableEq, Repr

/-- From a symbol to its module and ordinal. -/
abbrev DefMap := Table String (String × UInt32)

structure ModuleTable where
  moduleMap : Table String Nat
  importedModules : List String

def ModuleTable.empty : ModuleTable := ⟨.empty, []⟩

/-- The number of a module has one byte. -/
def getOrInsertModule (name : String) (modules : ModuleTable) : Nat × ModuleTable :=
  match modules.moduleMap name with
  | some idx => (idx, modules)
  | none =>
      let importedModules := modules.importedModules ++ [name]
      let idx := importedModules.length % 256
      (idx, ⟨modules.moduleMap.insert name idx, importedModules⟩)

def moduleBases : List (String × Nat) := [
  ("DOSCALLS", 0), ("QUECALLS", 1024), ("PMWIN", pmwinBase), ("PMGPI", pmgpiBase),
  ("KBDCALLS", kbdcallsBase), ("VIOCALLS", viocallsBase), ("SESMGR", sesmgrBase),
  ("NLS", nlsBase), ("MSG", msgBase), ("MDM", mdmBase), ("UCONV", uconvBase)]

def moduleBase (module : String) : Option Nat :=
  (moduleBases.find? fun e => e.1 == module).map Prod.snd

def resolveImport (module : String) (ordinal : Nat) : Nat :=
  match moduleBase module with
  | some base => wrapAdd (magicApiBase + base) ordinal
  | none => magicApiBase

def vaToLxObject (va : Nat) : Nat × Nat :=
  if dataObjectBase ≤ va then (2, va - dataObjectBase) else (1, wrapSub va codeObjectBase)

def internalTarget (va : Nat) : FixupTarget := .internal (vaToLxObject va).1 (vaToLxObject va).2

section Write

variable (objects : List ElfObject) (state : LinkerState) (defMap : DefMap)

/-- The first section of that name counts, also where it is not in the image. -/
def findSectionVa (secName : String) : Option Nat :=
  ((numbered objects).find? fun entry => entry.2.2.name == secName).bind fun entry =>
    (state.codeVaFor entry.1 entry.2.1).orElse fun _ => state.dataVaFor entry.1 entry.2.1

/-- 0 where the target is not found. -/
def resolveReloc (reloc : Reloc) (modules : ModuleTable) :
    (Nat × Option FixupTarget) × ModuleTable :=
  match reloc.target with
  | .symbol name => match state.symbolTable name with
    | some va => ((va, some (internalTarget va)), modules)
    | none => match defMap name with
      | some (module, ordinal) =>
          let (idx, modules) := getOrInsertModule module modules
          ((resolveImport module ordinal.toNat, some (.externalOrdinal idx ordinal.toNat)), modules)
      | none => ((0, none), modules)
  | .ofSection secName => match findSectionVa objects state secName with
    | some base => ((base, some (internalTarget base)), modules)
    | none => ((0, none), modules)

/-- A relocation with the address of its section. -/
structure PlacedReloc where
  isCode : Bool
  sectionVa : Nat
  reloc : Reloc
deriving DecidableEq, Repr

namespace PlacedReloc

def objBase (placed : PlacedReloc) : Nat := if placed.isCode then codeObjectBase else dataObjectBase

/-- The place in the merged section. -/
def bufOff (placed : PlacedReloc) : Nat :=
  wrapSub placed.sectionVa placed.objBase + placed.reloc.offset

def sourceVa (placed : PlacedReloc) : Nat :=
  wrapAdd placed.sectionVa (placed.reloc.offset % u32Size)

def pageIdx (placed : PlacedReloc) : Nat := wrapSub placed.sourceVa placed.objBase / pageSize
def pageOff (placed : PlacedReloc) : Nat := wrapSub placed.sourceVa placed.objBase % pageSize

end PlacedReloc

def placedIn (entry : Nat × Nat × ElfSection) : List PlacedReloc :=
  let isCode := entry.2.2.kind == .text
  let va := if isCode then state.codeVaFor entry.1 entry.2.1 else state.dataVaFor entry.1 entry.2.1
  match va with
  | some va => entry.2.2.relocs.map fun reloc => ⟨isCode, va, reloc⟩
  | none => []

/-- The relocations of all sections that are in the image. -/
def placedRelocs : List PlacedReloc := (numbered objects).flatMap (placedIn state)

/-- What the loop over the relocations builds up. -/
structure Tables where
  modules : ModuleTable
  codeFixups : List (List LxFixup)
  dataFixups : List (List LxFixup)
  codePatches : List (Nat × Nat)
  dataPatches : List (Nat × Nat)
  codePatchesI32 : List (Nat × Nat)

/-- The low 32 bits. -/
def word (value : Int) : Nat := (value % (u32Size : Int)).toNat

def pushFixup (fixups : List (List LxFixup)) (pageIdx : Nat) (fixup : LxFixup) :
    List (List LxFixup) :=
  fixups.modify pageIdx (· ++ [fixup])

def addFixup (tables : Tables) (placed : PlacedReloc) (target : Option FixupTarget) : Tables :=
  match target with
  | none => tables
  | some target =>
      let fixup : LxFixup := ⟨0x07, placed.pageOff, target⟩
      if placed.isCode then
        { tables with codeFixups := pushFixup tables.codeFixups placed.pageIdx fixup }
      else { tables with dataFixups := pushFixup tables.dataFixups placed.pageIdx fixup }

def addPatch (tables : Tables) (placed : PlacedReloc) (value : Nat) : Tables :=
  if placed.isCode then
    { tables with codePatches := tables.codePatches ++ [(placed.bufOff, value)] }
  else { tables with dataPatches := tables.dataPatches ++ [(placed.bufOff, value)] }

def addRelativePatch (tables : Tables) (placed : PlacedReloc) (value : Nat) : Tables :=
  if placed.isCode then
    { tables with codePatchesI32 := tables.codePatchesI32 ++ [(placed.bufOff, value)] }
  else { tables with dataPatches := tables.dataPatches ++ [(placed.bufOff, value)] }

def relocate (tables : Tables) (placed : PlacedReloc) : Tables :=
  let ((targetVa, target), modules) :=
    resolveReloc objects state defMap placed.reloc tables.modules
  let tables := { tables with modules }
  if targetVa = 0 then tables
  else match placed.reloc.kind with
    | .absolute =>
        let actual := word (targetVa + placed.reloc.addend)
        addFixup (addPatch tables placed actual) placed target
    | .relative =>
        let disp := word (targetVa - (placed.sourceVa + 4) + placed.reloc.addend)
        addRelativePatch tables placed disp
    | .other => tables

def codePages : Nat := pageCount state.codeSection.data.length state.codeSection.bssSize
def dataPages : Nat := pageCount state.dataSection.data.length state.dataSection.bssSize
def stackPages : Nat := stackSize / pageSize

def linkTables : Tables :=
  (placedRelocs objects state).foldl (relocate objects state defMap)
    ⟨.empty, List.replicate (codePages state) [], List.replicate (dataPages state) [], [], [], []⟩

def overwrite (buf : List UInt8) (off : Nat) (bytes : List UInt8) : List UInt8 :=
  buf.take off ++ bytes ++ buf.drop (off + bytes.length)

def applyPatches (buf : List UInt8) (patches : List (Nat × Nat)) : List UInt8 :=
  patches.foldl (fun buf patch =>
    if patch.1 + 4 ≤ buf.length then overwrite buf patch.1 (leBytes 4 patch.2) else buf) buf

def padToPage (data : List UInt8) : List UInt8 :=
  let rem := data.length % pageSize
  if rem ≠ 0 then resize data (data.length + (pageSize - rem)) else data

def codeData : List UInt8 :=
  let tables := linkTables objects state defMap
  padToPage (applyPatches (applyPatches state.codeSection.data tables.codePatches)
    tables.codePatchesI32)

def dataData : List UInt8 :=
  padToPage (applyPatches state.dataSection.data (linkTables objects state defMap).dataPatches)

end Write

/-- The flags say: a 32-bit offset of an object, or a 32-bit ordinal of a module. -/
def encodeFixup (fixup : LxFixup) : List UInt8 :=
  match fixup.target with
  | .internal objectNum targetOffset =>
      leBytes 1 fixup.sourceType ++ leBytes 1 0x10 ++ leBytes 2 fixup.sourceOffset ++
        leBytes 1 objectNum ++ leBytes 4 targetOffset
  | .externalOrdinal moduleIdx ordinal =>
      leBytes 1 fixup.sourceType ++ leBytes 1 0x11 ++ leBytes 2 fixup.sourceOffset ++
        leBytes 1 moduleIdx ++ leBytes 4 ordinal

def encodeObjectEntry (size base flags pageMapIndex pageCount : Nat) : List UInt8 :=
  leBytes 4 size ++ leBytes 4 base ++ leBytes 4 flags ++ leBytes 4 pageMapIndex ++
    leBytes 4 pageCount ++ leBytes 4 0

def encodeModule (name : String) : List UInt8 :=
  leBytes 1 (Utf8.toBytes name).length ++ Utf8.toBytes name

/-- Where the records of each page begin, and at last where they end. -/
def fixupPageTable : Nat → List (List LxFixup) → List Nat
  | recordsLen, [] => [recordsLen]
  | recordsLen, page :: rest =>
      recordsLen :: fixupPageTable (recordsLen + (page.flatMap encodeFixup).length) rest

/-- The last pages of an object may lie behind its data, and there the size wraps. -/
def pageEntry (fileOff dataLen pi : Nat) : List UInt8 :=
  let sliceEnd := min ((pi + 1) * pageSize) dataLen
  leBytes 4 fileOff ++ leBytes 2 (wrapSub sliceEnd (pi * pageSize)) ++ leBytes 2 0

def alignTo (val align : Nat) : Nat := (val + align - 1) / align * align

def objRead : Nat := 0x0001
def objWrite : Nat := 0x0002
def objExec : Nat := 0x0004
def objBig : Nat := 0x0040
def objUse32 : Nat := 0x2000

def lxHeaderOffset : Nat := 0x40
def lxHeaderSize : Nat := 172

/-- `"WARPEXE"`. -/
def modName : List UInt8 := [0x57, 0x41, 0x52, 0x50, 0x45, 0x58, 0x45]

def residentNameBytes : List UInt8 := leBytes 1 modName.length ++ modName ++ leBytes 2 0 ++ [0]

def entryTableBytes : List UInt8 := [0, 0]

/-- What goes into the file. -/
structure Image where
  entryOffset : Nat
  codeData : List UInt8
  codeBss : Nat
  dataData : List UInt8
  dataBss : Nat
  codeFixups : List (List LxFixup)
  dataFixups : List (List LxFixup)
  importedModules : List String
deriving DecidableEq, Repr

namespace Image

variable (image : Image)

def pages : List (List LxFixup) :=
  image.codeFixups ++ image.dataFixups ++ List.replicate stackPages []

def totalPages : Nat := image.codeFixups.length + image.dataFixups.length + stackPages

def fixupRecords : List UInt8 := image.pages.flatMap fun page => page.flatMap encodeFixup
def importModulesBytes : List UInt8 := image.importedModules.flatMap encodeModule

def numObjects : Nat := 3
def objTableOff : Nat := lxHeaderSize
def pageMapOff : Nat := objTableOff + numObjects * 24
def residentNameOff : Nat := pageMapOff + image.totalPages * 8
def entryTableOff : Nat := image.residentNameOff + residentNameBytes.length
def fixupPageTableOff : Nat := image.entryTableOff + entryTableBytes.length
def fixupRecordOff : Nat := image.fixupPageTableOff + (image.totalPages + 1) * 4
def importModulesOff : Nat := image.fixupRecordOff + image.fixupRecords.length
def importProcNameOff : Nat := image.importModulesOff + image.importModulesBytes.length

def codeSize : Nat := wrapAdd (image.codeData.length % u32Size) image.codeBss
def dataSize : Nat := wrapAdd (image.dataData.length % u32Size) image.dataBss

def fixupSectionSize : Nat :=
  (image.totalPages + 1) * 4 + image.fixupRecords.length + image.importModulesBytes.length

def loaderSectionEnd : Nat := lxHeaderOffset + image.importProcNameOff
def dataPagesOffsetAbs : Nat := alignTo image.loaderSectionEnd 16

def mzStub : List UInt8 := [0x4D, 0x5A] ++ List.replicate 58 0 ++ [0x40, 0, 0, 0]

def buildLxHeader : List UInt8 := [0x4C, 0x58] ++ Lx.fieldBytes [
  (1, 0), (1, 0), (4, 0), (2, 2), (2, 1), (4, 0), (4, 0), (4, image.totalPages), (4, 1),
  (4, image.entryOffset), (4, 3), (4, stackSize), (4, 4096), (4, 0), (4, image.fixupSectionSize),
  (4, 0), (4, image.fixupPageTableOff), (4, 0), (4, objTableOff), (4, numObjects),
  (4, pageMapOff), (4, 0), (4, 0), (4, 0), (4, image.residentNameOff), (4, image.entryTableOff),
  (4, 0), (4, 0), (4, image.fixupPageTableOff), (4, image.fixupRecordOff),
  (4, image.importModulesOff), (4, image.importedModules.length), (4, image.importProcNameOff),
  (4, 0), (4, image.dataPagesOffsetAbs), (4, 0), (4, 0), (4, 0), (4, 0), (4, 2), (4, 0), (4, 0),
  (4, 0), (4, 0), (4, 0)]

def objectTable : List UInt8 :=
  encodeObjectEntry image.codeSize codeObjectBase
      (objRead ||| objExec ||| objBig ||| objUse32) 1 image.codeFixups.length ++
    encodeObjectEntry image.dataSize dataObjectBase
      (objRead ||| objWrite ||| objBig ||| objUse32) (image.codeFixups.length + 1)
      image.dataFixups.length ++
    encodeObjectEntry stackSize stackObjectBase
      (objRead ||| objWrite ||| objBig ||| objUse32)
      (image.codeFixups.length + image.dataFixups.length + 1) (stackSize / pageSize)

/-- Pages take their places in the file one after the other, those without data as well. -/
def pageMap : List UInt8 :=
  ((List.range image.codeFixups.length).flatMap fun pi =>
      pageEntry (pi * pageSize) image.codeData.length pi) ++
    ((List.range image.dataFixups.length).flatMap fun pi =>
      pageEntry ((image.codeFixups.length + pi) * pageSize) image.dataData.length pi) ++
    (List.range stackPages).flatMap fun pi =>
      leBytes 4 ((image.codeFixups.length + image.dataFixups.length + pi) * pageSize) ++
        leBytes 2 pageSize ++ leBytes 2 0

/-- The file. There are no names of procedures. -/
def bytes : List UInt8 :=
  mzStub ++ image.buildLxHeader ++ image.objectTable ++ image.pageMap ++ residentNameBytes ++
    entryTableBytes ++ (fixupPageTable 0 image.pages).flatMap (leBytes 4) ++ image.fixupRecords ++
    image.importModulesBytes ++
    List.replicate (image.dataPagesOffsetAbs - image.loaderSectionEnd) 0 ++
    image.codeData ++ image.dataData ++ List.replicate (stackPages * pageSize) 0

end Image

section Write

variable (objects : List ElfObject) (state : LinkerState) (defMap : DefMap)

def linkedImage : Image :=
  let tables := linkTables objects state defMap
  { entryOffset := wrapSub state.entryVa codeObjectBase
    codeData := codeData objects state defMap
    codeBss := state.codeSection.bssSize
    dataData := dataData objects state defMap
    dataBss := state.dataSection.bssSize
    codeFixups := tables.codeFixups
    dataFixups := tables.dataFixups
    importedModules := tables.modules.importedModules }

def writeLx : List UInt8 := (linkedImage objects state defMap).bytes

end Write
end Warpine.Linker
