import Warpine.Linker.ReadBack
import Warpine.Linker.Relocated

/-! Whole files: what the linker writes for a list of objects, and what the
parser returns for it. -/
namespace Warpine.Linker
open Warpine.Lib
open Warpine.Lx (LxFile LxFixupRecord)

section Regular

variable {objects : List ElfObject} {state : LinkerState} {defMap : DefMap}

theorem targetVa_internal_lt (built : LinkerState.build objects = some state) {reloc : Reloc}
    {va : Nat} (h : internalVa objects state reloc = some va) : va < u32Size := by
  unfold internalVa at h
  split at h
  · exact LinkerState.symbolTable_words built _ _ h
  · obtain ⟨entry, _, hva⟩ := Option.bind_eq_some_iff.mp h
    cases hcode : state.codeVaFor entry.1 entry.2.1 with
    | some base =>
      rw [hcode] at hva
      cases hva
      exact LinkerState.findMergedVa_lt hcode
    | none =>
      rw [hcode] at hva
      exact LinkerState.findMergedVa_lt hva

theorem fixupOf_fits (built : LinkerState.build objects = some state) {names : List String}
    {placed : PlacedReloc} {fixup : LxFixup}
    (h : fixupOf objects state defMap names placed = some fixup) : fixup.Fits := by
  unfold fixupOf at h
  split at h
  · obtain ⟨target, htarget, rfl⟩ := Option.map_eq_some_iff.mp h
    have hoff : placed.pageOff < pageSize := Nat.mod_lt _ (by decide)
    refine ⟨rfl, Nat.lt_trans hoff (by decide), ?_⟩
    unfold fixupTarget at htarget
    split at htarget
    · rename_i va hva
      cases htarget
      have hlt := targetVa_internal_lt built hva
      unfold internalTarget vaToLxObject wrapSub
      unfold u32Size at *
      dsimp only
      split <;> simp <;> omega
    · obtain ⟨entry, _, rfl⟩ := Option.map_eq_some_iff.mp htarget
      exact ⟨Nat.mod_lt _ (by decide), entry.2.toNat_lt⟩
  · cases h

theorem linkedImage_regular (built : LinkerState.build objects = some state)
    (pages : codePages state + dataPages state + stackPages ≤ LxFile.maxPages)
    (offsets : (linkedImage objects state defMap).dataPagesOffsetAbs < u32Size)
    (names : ∀ name ∈ uses state defMap (placedRelocs objects state),
      (Utf8.toBytes name).length ≤ 255) :
    (linkedImage objects state defMap).Regular where
  pages := by
    have htables := linkTables_spec objects state defMap
    unfold Image.totalPages linkedImage
    dsimp only
    rw [htables.codeFixups, htables.dataFixups]
    simpa using pages
  offsets := offsets
  entryOffset := Nat.mod_lt _ (by decide)
  fixups := by
    have htables := linkTables_spec objects state defMap
    unfold linkedImage
    dsimp only
    rw [htables.codeFixups, htables.dataFixups]
    intro page hpage fixup hfixup
    have hmade : ∃ placed, fixupOf objects state defMap
        (uses state defMap (placedRelocs objects state)) placed = some fixup := by
      rcases List.mem_append.mp hpage with hpage | hpage
      · obtain ⟨pi, _, rfl⟩ := List.mem_map.mp hpage
        obtain ⟨placed, _, hfixup⟩ := List.mem_filterMap.mp hfixup
        exact ⟨placed, hfixup⟩
      · obtain ⟨pi, _, rfl⟩ := List.mem_map.mp hpage
        obtain ⟨placed, _, hfixup⟩ := List.mem_filterMap.mp hfixup
        exact ⟨placed, hfixup⟩
    obtain ⟨placed, hmade⟩ := hmade
    exact fixupOf_fits built hmade
  modules := by
    intro name hname
    have htables := linkTables_spec objects state defMap
    unfold linkedImage at hname
    dsimp only at hname
    rw [htables.modules.imported, List.mem_eraseDups] at hname
    have := names name hname
    omega

end Regular

/-- The file says what the linker decided: three objects whose pages follow one
another, the fixups of each page in order, the modules in the order of their
first use, and the entry point. -/
structure ReadsBack (objects : List ElfObject) (state : LinkerState) (defMap : DefMap)
    (file : LxFile) : Prop where
  bases : file.objectTable.map (·.baseAddress) = [codeObjectBase, dataObjectBase, stackObjectBase]
  sizes : file.objectTable.map (·.size) = [
    wrapAdd ((codeData objects state defMap).length % u32Size) state.codeSection.bssSize,
    wrapAdd ((dataData objects state defMap).length % u32Size) state.dataSection.bssSize,
    stackSize]
  ranges : file.objectTable.map (fun obj => (obj.pageMapIndex, obj.pageCount)) = [
    (1, codePages state), (codePages state + 1, dataPages state),
    (codePages state + dataPages state + 1, stackPages)]
  pages : file.pageMap.length = codePages state + dataPages state + stackPages
  fixups : file.fixupRecordsByPage =
    ((List.range (codePages state)).map fun pi =>
        (fixupsOn objects state defMap (placedRelocs objects state) true pi).map
          LxFixup.record) ++
      ((List.range (dataPages state)).map fun pi =>
        (fixupsOn objects state defMap (placedRelocs objects state) false pi).map
          LxFixup.record) ++ List.replicate stackPages []
  modules : file.importedModules =
    (uses state defMap (placedRelocs objects state)).eraseDups
  entry : file.header.eipObject = 1 ∧
    file.header.eip = wrapSub state.entryVa codeObjectBase

theorem linkedImage_readsBack (objects : List ElfObject) (state : LinkerState) (defMap : DefMap) :
    ReadsBack objects state defMap (linkedImage objects state defMap).file := by
  have htables := linkTables_spec objects state defMap
  have hcode : (linkedImage objects state defMap).codeFixups = _ := htables.codeFixups
  have hdata : (linkedImage objects state defMap).dataFixups = _ := htables.dataFixups
  constructor
  · rfl
  · rfl
  · simp [Image.file, Image.objects, hcode, hdata]
  · simp [Image.file, Image.pageMapEntries_length, Image.totalPages, hcode, hdata]
  · simp [Image.file, Image.pages, hcode, hdata, Function.comp_def]
  · exact htables.modules.imported
  · exact ⟨rfl, rfl⟩

theorem parse_writeLx {objects : List ElfObject} {state : LinkerState} {defMap : DefMap}
    (built : LinkerState.build objects = some state)
    (pages : codePages state + dataPages state + stackPages ≤ LxFile.maxPages)
    (offsets : (linkedImage objects state defMap).dataPagesOffsetAbs < u32Size)
    (names : ∀ name ∈ uses state defMap (placedRelocs objects state),
      (Utf8.toBytes name).length ≤ 255) :
    ∃ file, LxFile.parse (writeLx objects state defMap) = .ok file ∧
      ReadsBack objects state defMap file :=
  ⟨_, Image.parse_bytes (linkedImage_regular built pages offsets names),
    linkedImage_readsBack objects state defMap⟩

/-- Code with a reference to the symbol `x` of its data, and one to an import. -/
def sampleObject (addend : Int) : ElfObject where
  sections := [
    ⟨".text", .text, List.replicate 8 0, 1, [
      ⟨0, .absolute, addend, .symbol "x"⟩, ⟨4, .absolute, 0, .symbol "DosExit"⟩]⟩,
    ⟨".data", .data, List.replicate 8 0, 4, []⟩]
  symbols := [⟨"x", some 1, 4⟩]

def sampleState (addend : Int) : LinkerState :=
  (LinkerState.build [sampleObject addend]).getD
    ⟨.new codeObjectBase, .new dataObjectBase, .empty, codeObjectBase⟩

def sampleDefs : DefMap := Table.empty.insert "DosExit" ("DOSCALLS", 234)

theorem sample_built {addend : Int}
    (h : (LinkerState.build [sampleObject addend]).isSome = true) :
    LinkerState.build [sampleObject addend] = some (sampleState addend) := by
  obtain ⟨state, hstate⟩ := Option.isSome_iff_exists.mp h
  rw [sampleState, hstate]
  rfl

theorem parse_writeLx_sample :
    ∃ file, LxFile.parse (writeLx [sampleObject 4] (sampleState 4) sampleDefs) = .ok file ∧
      ReadsBack [sampleObject 4] (sampleState 4) sampleDefs file :=
  parse_writeLx (sample_built (by decide)) (by decide) (by decide)
    (by decide)

/-- One object with one data section, without relocations. -/
def dataObject (data : List UInt8) : ElfObject := ⟨[⟨".data", .data, data, 1, []⟩], []⟩

def dataState (data : List UInt8) : LinkerState where
  codeSection := .new codeObjectBase
  dataSection := ⟨data, 0, dataObjectBase, [⟨0, 0, 0⟩]⟩
  symbolTable := .empty
  entryVa := codeObjectBase

theorem data_built (data : List UInt8) :
    LinkerState.build [dataObject data] = some (dataState data) := rfl

/-- A data section of as many bytes as 65521 pages have, which with those of the
stack are one page more than the parser takes. -/
theorem data_unreadable {data : List UInt8} (long : data.length = 65521 * 4096) :
    ∃ message, LxFile.parse (writeLx [dataObject data] (dataState data) .empty) =
      .error (.invalidData message) := by
  let image := linkedImage [dataObject data] (dataState data) .empty
  have hpages : dataPages (dataState data) = 65521 := by
    simp [dataPages, pageCount, dataState, long, wrapAdd, u32Size, pageSize]
  have hplaced : placedRelocs [dataObject data] (dataState data) = [] := rfl
  have htables := linkTables_spec [dataObject data] (dataState data) .empty
  have hcode : image.codeFixups = _ := htables.codeFixups
  have hdata : image.dataFixups = _ := htables.dataFixups
  have hmodules : image.importedModules = _ := htables.modules.imported
  rw [hplaced] at hcode hdata hmodules
  rw [show codePages (dataState data) = 0 by
    simp [codePages, pageCount, dataState, MergedSection.new, wrapAdd, pageSize]] at hcode
  have htotal : image.totalPages = 65537 := by
    simp [Image.totalPages, hcode, hdata, hpages, stackPages, stackSize, pageSize]
  have hrecords : image.fixupRecords = [] := by
    have hnone : fixupsOn [dataObject data] (dataState data) .empty [] false = fun _ => [] := rfl
    rw [hnone, List.map_const'] at hdata
    simp [Image.fixupRecords, Image.pages, hcode, hdata]
  have hoffsets : image.dataPagesOffsetAbs < 256 ^ 4 := by
    simp [Image.dataPagesOffsetAbs, alignTo, Image.loaderSectionEnd, lxHeaderOffset,
      Image.importProcNameOff, Image.importModulesOff, Image.fixupRecordOff,
      Image.fixupPageTableOff, Image.entryTableOff, Image.residentNameOff, Image.pageMapOff,
      Image.objTableOff, lxHeaderSize, Image.numObjects, Image.importModulesBytes, hmodules,
      htotal, hrecords, residentNameBytes, modName, entryTableBytes, uses]
  apply Image.parse_tooManyPages hoffsets (Nat.mod_lt _ (by decide))
  rw [htotal]
  decide

theorem many_pages_unreadable :
    LinkerState.build [dataObject (List.replicate (65521 * 4096) 0)] =
        some (dataState (List.replicate (65521 * 4096) 0)) ∧
      ¬ ∃ file, LxFile.parse (writeLx [dataObject (List.replicate (65521 * 4096) 0)]
        (dataState (List.replicate (65521 * 4096) 0)) .empty) = .ok file := by
  refine ⟨data_built _, ?_⟩
  intro ⟨file, hfile⟩
  obtain ⟨message, hmessage⟩ := data_unreadable List.length_replicate
  rw [hmessage] at hfile
  cases hfile

end Warpine.Linker
