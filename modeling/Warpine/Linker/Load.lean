import Warpine.Linker.Patched
import Warpine.Linker.RoundTrip
import Warpine.Loader.Fixups

/-! The loader's fixups on a linked image, against the words the linker patched
into its pages. -/
namespace Warpine.Linker
open Warpine.Lib Warpine.Guest
open Warpine.Lx (LxFile LxFixupRecord)
open Warpine.Loader (DllManager)
open Warpine.Loader.Fixups (applyFixups objectPages objectPages_eq records recordWrites fixupWrites
  siteWrites targetAddr applyFixups_eq nth)

/-- The address of a relocation's field at the preferred bases. -/
def PlacedReloc.site (placed : PlacedReloc) : Nat := placed.objBase + placed.bufOff

section Sites

variable {objects : List ElfObject} {state : LinkerState} {defMap : DefMap}

theorem sectionVa_lt {placed : PlacedReloc} (h : placed ∈ placedRelocs objects state) :
    placed.sectionVa < u32Size := by
  obtain ⟨entry, _, hplaced⟩ := List.mem_flatMap.mp h
  unfold placedIn at hplaced
  dsimp only at hplaced
  split at hplaced
  · rename_i va hva
    obtain ⟨reloc, _, rfl⟩ := List.mem_map.mp hplaced
    dsimp only
    split at hva
    · exact LinkerState.findMergedVa_lt hva
    · exact LinkerState.findMergedVa_lt hva
  · cases hplaced

/-- Where a field lies in the windows, none of the sums wraps. -/
theorem site_eq (fits : state.Fits) (fit : RelocsFit objects state) {placed : PlacedReloc}
    (h : placed ∈ placedRelocs objects state) :
    placed.bufOff + 4 ≤ (mergedData state placed.isCode).length ∧
      placed.pageIdx = placed.bufOff / pageSize ∧ placed.pageOff = placed.bufOff % pageSize ∧
        placed.site = placed.objBase + placed.pageIdx * 4096 + placed.pageOff := by
  have hinside := fit.inside placed h
  have hva := sectionVa_lt h
  have hcode := fits.code
  have hdata := fits.data
  have hbase : placed.objBase ≤ 0x60000 ∧
      (mergedData state placed.isCode).length ≤ 0x50000 := by
    unfold PlacedReloc.objBase mergedData
    unfold codeObjectBase dataObjectBase stackObjectBase stackSize at *
    split <;> omega
  have hsource : wrapSub placed.sourceVa placed.objBase = placed.bufOff := by
    unfold PlacedReloc.sourceVa
    unfold PlacedReloc.bufOff at hinside ⊢
    unfold wrapSub wrapAdd u32Size at *
    omega
  refine ⟨hinside, ?_, ?_, ?_⟩
  · rw [PlacedReloc.pageIdx, hsource]
  · rw [PlacedReloc.pageOff, hsource]
  · rw [PlacedReloc.site, PlacedReloc.pageIdx, PlacedReloc.pageOff, hsource]
    unfold pageSize
    omega

/-- Fields apart have sites apart, also across the two sections. -/
theorem site_apart (fits : state.Fits) (fit : RelocsFit objects state)
    {first second : PlacedReloc} (hfirst : first ∈ placedRelocs objects state)
    (hsecond : second ∈ placedRelocs objects state) (h : FieldsApart first second) :
    Apart first.site 4 second.site 4 := by
  have hone := fit.inside first hfirst
  have htwo := fit.inside second hsecond
  have hcode := fits.code
  unfold FieldsApart at h
  unfold PlacedReloc.site PlacedReloc.objBase
  unfold mergedData at hone htwo
  unfold codeObjectBase dataObjectBase at *
  cases hf : first.isCode <;> cases hs : second.isCode <;>
    simp only [hf, hs, Bool.false_eq_true, if_false, if_true, forall_const, reduceCtorEq,
      IsEmpty.forall_iff] at h hone htwo ⊢ <;> unfold Apart at * <;> omega

theorem placedRelocs_length (fits : state.Fits) (fit : RelocsFit objects state) :
    (placedRelocs objects state).length ≤ 0x70000 := by
  have hnodup : ((placedRelocs objects state).map PlacedReloc.site).Nodup := by
    rw [List.Nodup, List.pairwise_map]
    apply fit.apart.imp_of_mem
    intro first second hfirst hsecond h
    exact (site_apart fits fit hfirst hsecond h).start_ne (by decide) (by decide)
  have hsubset : (placedRelocs objects state).map PlacedReloc.site ⊆ List.range 0x70000 := by
    intro site hsite
    obtain ⟨placed, hplaced, rfl⟩ := List.mem_map.mp hsite
    have hinside := fit.inside placed hplaced
    have hcode := fits.code
    have hdata := fits.data
    unfold PlacedReloc.site PlacedReloc.objBase
    unfold mergedData at hinside
    unfold codeObjectBase dataObjectBase stackObjectBase stackSize at *
    rw [List.mem_range]
    split <;> simp_all <;> omega
  have hle := (List.subperm_of_subset hnodup hsubset).length_le
  rwa [List.length_map, List.length_range] at hle

theorem pages_le (built : LinkerState.build objects = some state) (fits : state.Fits) :
    codePages state ≤ 80 ∧ dataPages state ≤ 16 := by
  have hbss := LinkerState.build_code_bss built
  have hcode := fits.code
  have hdata := fits.data
  unfold codeObjectBase dataObjectBase stackObjectBase stackSize at *
  constructor
  · unfold codePages pageCount
    rw [hbss, wrapAdd_of_lt (by unfold u32Size; omega)]
    unfold pageSize
    omega
  · unfold dataPages pageCount
    rw [wrapAdd_of_lt (by unfold u32Size; omega)]
    unfold pageSize
    omega

theorem fixupsOn_length (list : List PlacedReloc) (isCode : Bool) (pageIdx : Nat) :
    (fixupsOn objects state defMap list isCode pageIdx).length ≤ list.length := by
  unfold fixupsOn
  exact (List.length_filterMap_le _ _).trans (List.length_filter_le _ _)

theorem encodedPages_length {pages : List (List LxFixup)} {count : Nat}
    (h : ∀ page ∈ pages, page.length ≤ count) :
    (pages.flatMap fun page => page.flatMap encodeFixup).length ≤ pages.length * (9 * count) := by
  induction pages with
  | nil => simp
  | cons page rest ih =>
    obtain ⟨hpage, hrest⟩ := List.forall_mem_cons.mp h
    have hbytes : (page.flatMap encodeFixup).length = 9 * page.length := by
      rw [List.length_flatMap]
      simp [encodeFixup_length, Nat.mul_comm]
    rw [List.flatMap_cons, List.length_append, hbytes, List.length_cons,
      Nat.add_mul rest.length, Nat.one_mul]
    have := ih hrest
    omega

theorem encodedModules_length {names : List String}
    (h : ∀ name ∈ names, (Utf8.toBytes name).length ≤ 255) :
    (names.flatMap encodeModule).length ≤ names.length * 256 := by
  induction names with
  | nil => simp
  | cons name rest ih =>
    obtain ⟨hname, hrest⟩ := List.forall_mem_cons.mp h
    have hbytes : (encodeModule name).length = (Utf8.toBytes name).length + 1 := by
      simp [encodeModule, Nat.add_comm]
    rw [List.flatMap_cons, List.length_append, hbytes, List.length_cons, Nat.succ_mul]
    have := ih hrest
    omega

/-- A program in its windows, with not more modules than a byte counts, makes a
file that can be read back. -/
theorem image_regular (built : LinkerState.build objects = some state) (fits : state.Fits)
    (fit : RelocsFit objects state)
    (modules : (uses state defMap (placedRelocs objects state)).eraseDups.length ≤ 255)
    (names : ∀ name ∈ uses state defMap (placedRelocs objects state),
      (Utf8.toBytes name).length ≤ 255) :
    (linkedImage objects state defMap).Regular := by
  obtain ⟨hcodePages, hdataPages⟩ := pages_le built fits
  have hstack : stackPages = 16 := rfl
  apply linkedImage_regular built (by unfold LxFile.maxPages; omega) _ names
  have htables := linkTables_spec objects state defMap
  have hcount := placedRelocs_length fits fit
  have hcodeFixups : (linkedImage objects state defMap).codeFixups = _ := htables.codeFixups
  have hdataFixups : (linkedImage objects state defMap).dataFixups = _ := htables.dataFixups
  have htotal : (linkedImage objects state defMap).totalPages ≤ 112 := by
    simp only [Image.totalPages, hcodeFixups, hdataFixups, List.length_map, List.length_range]
    omega
  have hrecords : (linkedImage objects state defMap).fixupRecords.length ≤
      112 * (9 * 0x70000) := by
    have hpage : ∀ page ∈ (linkedImage objects state defMap).pages, page.length ≤ 0x70000 := by
      intro page hpage
      unfold Image.pages at hpage
      rw [hcodeFixups, hdataFixups, List.mem_append, List.mem_append] at hpage
      rcases hpage with (hpage | hpage) | hpage
      · obtain ⟨pi, _, rfl⟩ := List.mem_map.mp hpage
        exact (fixupsOn_length _ _ _).trans hcount
      · obtain ⟨pi, _, rfl⟩ := List.mem_map.mp hpage
        exact (fixupsOn_length _ _ _).trans hcount
      · rw [List.eq_of_mem_replicate hpage]
        exact Nat.zero_le _
    have hle := encodedPages_length hpage
    rw [Image.pages_length] at hle
    exact hle.trans (Nat.mul_le_mul_right _ htotal)
  have hmodules : (linkedImage objects state defMap).importModulesBytes.length ≤ 255 * 256 := by
    have himported : (linkedImage objects state defMap).importedModules = _ :=
      htables.modules.imported
    have hle := encodedModules_length fun name hname =>
      names name (List.mem_eraseDups.mp (himported ▸ hname))
    rw [Image.importModulesBytes, himported]
    exact (himported ▸ hle).trans (Nat.mul_le_mul_right _ modules)
  have hresident : residentNameBytes.length = 11 := rfl
  have hentries : entryTableBytes.length = 2 := rfl
  simp only [Image.dataPagesOffsetAbs, alignTo, Image.loaderSectionEnd, lxHeaderOffset,
    Image.importProcNameOff, Image.importModulesOff, Image.fixupRecordOff,
    Image.fixupPageTableOff, Image.entryTableOff, Image.residentNameOff, Image.pageMapOff,
    Image.objTableOff, lxHeaderSize, Image.numObjects, hresident, hentries]
  unfold u32Size
  omega

end Sites

/-- The fixups of an object's pages, each with the address of its page. -/
def pageRecords (base : Nat) (pages : List (List LxFixup)) : List (Nat × LxFixupRecord) :=
  (List.range pages.length).flatMap fun p =>
    ((pages[p]?).getD []).map fun fixup => (base + p * 4096, fixup.record)

/-- The pages of an object are a part of all pages. -/
theorem objectPages_records {file : LxFile} {obj : Lx.ObjectTableEntry}
    {front back : List (List LxFixupRecord)} {pages : List (List LxFixup)} (base : Nat)
    (all : file.fixupRecordsByPage = front ++ pages.map (·.map LxFixup.record) ++ back)
    (start : obj.pageMapIndex - 1 = front.length) (count : obj.pageCount = pages.length) :
    (objectPages file base obj).flatMap (fun page => page.2.map fun record => (page.1, record)) =
      pageRecords base pages := by
  have hpage : ∀ p < pages.length, file.fixupRecordsByPage[obj.pageMapIndex - 1 + p]? =
      some (((pages[p]?).getD []).map LxFixup.record) := by
    intro p hp
    rw [all, start, List.append_assoc, List.getElem?_append_right (by omega),
      Nat.add_sub_cancel_left, List.getElem?_append_left (by rwa [List.length_map]),
      List.getElem?_map, List.getElem?_eq_getElem hp]
    rfl
  rw [objectPages_eq base fun p hp => by rw [hpage p (by omega)]; rfl, List.flatMap_map, count]
  apply List.flatMap_congr
  intro p hp
  rw [hpage p (List.mem_range.mp hp), Option.getD_some, List.map_map]
  rfl

/-- The fixup pass meets the fixups of both objects; the stack has none. -/
theorem file_records (image : Image) :
    records image.file (image.file.objectTable.map (·.baseAddress)) =
      pageRecords codeObjectBase image.codeFixups ++
        pageRecords dataObjectBase image.dataFixups := by
  let page (fixups : List LxFixup) : List LxFixupRecord := fixups.map LxFixup.record
  have hpages : image.file.fixupRecordsByPage = image.codeFixups.map page ++
      image.dataFixups.map page ++ (List.replicate stackPages []).map page := by
    simp [Image.file, Image.pages, page]
  have hcode {obj : Lx.ObjectTableEntry} := @objectPages_records image.file obj [] _
    image.codeFixups codeObjectBase (hpages.trans (List.append_assoc _ _ _))
  have hdata {obj : Lx.ObjectTableEntry} := @objectPages_records image.file obj _ _
    image.dataFixups dataObjectBase hpages
  have hstack {obj : Lx.ObjectTableEntry} := @objectPages_records image.file obj _ []
    (List.replicate stackPages []) stackObjectBase (hpages.trans (List.append_nil _).symm)
  have hnone : pageRecords stackObjectBase (List.replicate stackPages []) = [] := by decide
  have hobjects : ∃ code data stack : Lx.ObjectTableEntry,
      image.file.objectTable = [code, data, stack] ∧
        (code.baseAddress = codeObjectBase ∧ code.pageMapIndex - 1 = 0 ∧
          code.pageCount = image.codeFixups.length) ∧
        (data.baseAddress = dataObjectBase ∧ data.pageMapIndex - 1 = image.codeFixups.length ∧
          data.pageCount = image.dataFixups.length) ∧
        stack.baseAddress = stackObjectBase ∧
          stack.pageMapIndex - 1 = image.codeFixups.length + image.dataFixups.length ∧
            stack.pageCount = stackPages :=
    ⟨_, _, _, rfl, ⟨rfl, rfl, rfl⟩, ⟨rfl, rfl, rfl⟩, rfl, rfl, rfl⟩
  obtain ⟨code, data, stack, htable, ⟨hcodeBase, hcodeStart, hcodeCount⟩,
    ⟨hdataBase, hdataStart, hdataCount⟩, hstackBase, hstackStart, hstackCount⟩ := hobjects
  unfold records
  rw [htable]
  simp only [List.map_cons, List.map_nil, List.zip_cons_cons, List.zip_nil_right,
    List.flatMap_cons, List.flatMap_nil, List.append_nil, hcodeBase, hdataBase, hstackBase]
  rw [hcode hcodeStart hcodeCount, hdata (by simpa using hdataStart) hdataCount,
    hstack (by simpa using hstackStart) (by simpa using hstackCount), hnone, List.append_nil]

section Writes

variable {objects : List ElfObject} {state : LinkerState} {defMap : DefMap}
variable (dllMgr : DllManager)

/-- The address the loader finds for a relocation's target. -/
def loadedVa (objects : List ElfObject) (state : LinkerState) (defMap : DefMap)
    (dllMgr : DllManager) (reloc : Reloc) : Nat :=
  match internalVa objects state reloc with
  | some va => va
  | none => match importOf state defMap reloc with
    | some (module, ordinal) => Loader.resolveImport dllMgr module ordinal.toNat
    | none => 0

theorem mem_pageRecords {base count : Nat} {pages : Nat → List LxFixup}
    {entry : Nat × LxFixupRecord} :
    entry ∈ pageRecords base ((List.range count).map pages) ↔
      ∃ p < count, ∃ fixup ∈ pages p, entry = (base + p * 4096, fixup.record) := by
  unfold pageRecords
  rw [List.length_map, List.length_range, List.mem_flatMap]
  constructor
  · intro ⟨p, hp, hentry⟩
    have hlt := List.mem_range.mp hp
    rw [List.getElem?_map, List.getElem?_range hlt] at hentry
    obtain ⟨fixup, hfixup, hsame⟩ := List.mem_map.mp hentry
    exact ⟨p, hlt, fixup, hfixup, hsame.symm⟩
  · intro ⟨p, hlt, fixup, hfixup, hsame⟩
    refine ⟨p, List.mem_range.mpr hlt, ?_⟩
    rw [List.getElem?_map, List.getElem?_range hlt]
    exact List.mem_map.mpr ⟨fixup, hfixup, hsame.symm⟩

theorem mem_fixupsOn {list : List PlacedReloc} {isCode : Bool} {p : Nat} {fixup : LxFixup} :
    fixup ∈ fixupsOn objects state defMap list isCode p ↔
      ∃ placed ∈ list, (placed.isCode = isCode ∧ placed.pageIdx = p) ∧
        fixupOf objects state defMap (uses state defMap list) placed = some fixup := by
  unfold fixupsOn
  simp only [List.mem_filterMap, List.mem_filter, Bool.and_eq_true, beq_iff_eq, and_assoc]

/-- The page of a field is one of its object's pages. -/
theorem pageIdx_lt (built : LinkerState.build objects = some state) (fits : state.Fits)
    (fit : RelocsFit objects state) {placed : PlacedReloc}
    (member : placed ∈ placedRelocs objects state) :
    placed.pageIdx < if placed.isCode then codePages state else dataPages state := by
  obtain ⟨hinside, hpage, _⟩ := site_eq fits fit member
  have hbss := LinkerState.build_code_bss built
  have hcode := fits.code
  have hdata := fits.data
  rw [hpage]
  unfold mergedData at hinside
  unfold codePages dataPages pageCount
  unfold codeObjectBase dataObjectBase stackObjectBase stackSize at *
  rw [hbss, wrapAdd_of_lt (by unfold u32Size; omega), wrapAdd_of_lt (by unfold u32Size; omega)]
  unfold pageSize
  split at hinside <;> simp_all <;> omega

/-- The records of the pass are those of the relocations with a fixup. -/
theorem mem_records (built : LinkerState.build objects = some state) (fits : state.Fits)
    (fit : RelocsFit objects state) {entry : Nat × LxFixupRecord} :
    entry ∈ records (linkedImage objects state defMap).file
        ((linkedImage objects state defMap).file.objectTable.map (·.baseAddress)) ↔
      ∃ placed ∈ placedRelocs objects state, ∃ fixup,
        fixupOf objects state defMap (uses state defMap (placedRelocs objects state)) placed =
            some fixup ∧
          entry = (placed.objBase + placed.pageIdx * 4096, fixup.record) := by
  have htables := linkTables_spec objects state defMap
  have hcode : (linkedImage objects state defMap).codeFixups = _ := htables.codeFixups
  have hdata : (linkedImage objects state defMap).dataFixups = _ := htables.dataFixups
  rw [file_records, List.mem_append, hcode, hdata, mem_pageRecords, mem_pageRecords]
  constructor
  · rintro (⟨p, _, fixup, hfixup, hentry⟩ | ⟨p, _, fixup, hfixup, hentry⟩)
    · obtain ⟨placed, hplaced, ⟨hisCode, hpage⟩, hmade⟩ := mem_fixupsOn.mp hfixup
      refine ⟨placed, hplaced, fixup, hmade, ?_⟩
      rw [hentry, PlacedReloc.objBase, hisCode, hpage]
      rfl
    · obtain ⟨placed, hplaced, ⟨hisCode, hpage⟩, hmade⟩ := mem_fixupsOn.mp hfixup
      refine ⟨placed, hplaced, fixup, hmade, ?_⟩
      rw [hentry, PlacedReloc.objBase, hisCode, hpage]
      rfl
  · intro ⟨placed, hplaced, fixup, hmade, hentry⟩
    have hlt := pageIdx_lt built fits fit hplaced
    unfold PlacedReloc.objBase at hentry
    cases hisCode : placed.isCode with
    | true =>
      rw [hisCode] at hlt hentry
      exact Or.inl ⟨_, hlt, fixup, mem_fixupsOn.mpr ⟨placed, hplaced, ⟨hisCode, rfl⟩, hmade⟩,
        hentry⟩
    | false =>
      rw [hisCode] at hlt hentry
      exact Or.inr ⟨_, hlt, fixup, mem_fixupsOn.mpr ⟨placed, hplaced, ⟨hisCode, rfl⟩, hmade⟩,
        hentry⟩

/-- With no more modules than a byte counts, a number stands for its module. -/
theorem nth_moduleNumber {names : List String} {name : String} (h : name ∈ names)
    (few : names.eraseDups.length ≤ 255) :
    nth names.eraseDups (moduleNumber names name) = some name := by
  have hmember : name ∈ names.eraseDups := List.mem_eraseDups.mpr h
  have hlt := List.idxOf_lt_length_of_mem hmember
  have hnumber : moduleNumber names name = names.eraseDups.idxOf name + 1 :=
    Nat.mod_eq_of_lt (by omega)
  rw [hnumber, nth, if_neg (Nat.succ_ne_zero _), Nat.add_sub_cancel,
    List.getElem?_eq_getElem hlt, List.getElem_idxOf]

theorem file_bases (image : Image) : image.file.objectTable.map (·.baseAddress) =
    [codeObjectBase, dataObjectBase, stackObjectBase] := rfl

/-- Internal targets have the linker's address as 32 bits. -/
theorem targetAddr_internal {file : LxFile} {va off : Nat} (lt : va < u32Size) :
    let target := targetAddr dllMgr file [codeObjectBase, dataObjectBase, stackObjectBase]
      (LxFixup.record ⟨0x07, off, internalTarget va⟩).target
    target ≠ 0 ∧ leBytes 4 target = leBytes 4 va := by
  have hsize : (256 : Nat) ^ 4 = u32Size := rfl
  unfold internalTarget vaToLxObject LxFixup.record
  dsimp only
  rw [leBytes_inj_mod, hsize]
  unfold wrapSub codeObjectBase dataObjectBase u32Size at *
  split
  · simp [targetAddr, nth]
    omega
  · simp [targetAddr, nth]
    omega

theorem siteWrites_offset (target sourcePhys : Nat) :
    siteWrites 0x07 target sourcePhys = [(sourcePhys % u32Size, leBytes 4 target)] := rfl

theorem site_lt (fits : state.Fits) (fit : RelocsFit objects state) {placed : PlacedReloc}
    (member : placed ∈ placedRelocs objects state) : placed.site + 4 ≤ stackObjectBase := by
  have hinside := fit.inside placed member
  have hcode := fits.code
  have hdata := fits.data
  unfold PlacedReloc.site PlacedReloc.objBase
  unfold mergedData at hinside
  unfold codeObjectBase dataObjectBase stackObjectBase stackSize at *
  split <;> simp_all <;> omega

/-- The two modules of the linker and the loader see the same import. -/
theorem targetAddr_import {file : LxFile} {names : List String} {module : String}
    {ordinal off : Nat} {bases : List Nat} (imported : file.importedModules = names.eraseDups)
    (few : names.eraseDups.length ≤ 255) (h : module ∈ names) :
    targetAddr dllMgr file bases
        (LxFixup.record ⟨0x07, off, .externalOrdinal (moduleNumber names module) ordinal⟩).target =
      Loader.resolveImport dllMgr module ordinal := by
  unfold LxFixup.record targetAddr
  dsimp only
  rw [imported, nth_moduleNumber h few, Option.getD_some]

/-- What the pass writes for the fixup of a relocation. -/
theorem recordWrites_eq (built : LinkerState.build objects = some state) (fits : state.Fits)
    (fit : RelocsFit objects state)
    (few : (uses state defMap (placedRelocs objects state)).eraseDups.length ≤ 255)
    {placed : PlacedReloc} (member : placed ∈ placedRelocs objects state) {fixup : LxFixup}
    (made : fixupOf objects state defMap (uses state defMap (placedRelocs objects state)) placed =
      some fixup) :
    recordWrites dllMgr (linkedImage objects state defMap).file
        ((linkedImage objects state defMap).file.objectTable.map (·.baseAddress))
        (placed.objBase + placed.pageIdx * 4096, fixup.record) =
      if loadedVa objects state defMap dllMgr placed.reloc = 0 then []
      else [(placed.site, leBytes 4 (loadedVa objects state defMap dllMgr placed.reloc))] := by
  obtain ⟨_, _, _, hsite⟩ := site_eq fits fit member
  have hend := site_lt fits fit member
  have hsmall : placed.site % u32Size = placed.site := by
    apply Nat.mod_eq_of_lt
    unfold stackObjectBase stackSize u32Size at *
    omega
  unfold fixupOf at made
  split at made
  · rename_i hlinked
    obtain ⟨target, htarget, rfl⟩ := Option.map_eq_some_iff.mp made
    have hwrites (found address : Nat)
        (hfound : targetAddr dllMgr (linkedImage objects state defMap).file
            [codeObjectBase, dataObjectBase, stackObjectBase]
            (LxFixup.record ⟨0x07, placed.pageOff, target⟩).target = found)
        (zero : found = 0 ↔ address = 0) (same : leBytes 4 found = leBytes 4 address) :
        recordWrites dllMgr (linkedImage objects state defMap).file
            [codeObjectBase, dataObjectBase, stackObjectBase]
            (placed.objBase + placed.pageIdx * 4096, LxFixup.record ⟨0x07, placed.pageOff, target⟩) =
          if address = 0 then [] else [(placed.site, leBytes 4 address)] := by
      have hrecord : (LxFixup.record ⟨0x07, placed.pageOff, target⟩).sourceType = 0x07 ∧
          (LxFixup.record ⟨0x07, placed.pageOff, target⟩).sourceOffsets = [placed.pageOff] := by
        cases target <;> exact ⟨rfl, rfl⟩
      unfold recordWrites
      dsimp only
      rw [hrecord.1, hrecord.2, hfound]
      simp only [zero, List.flatMap_cons, List.flatMap_nil, List.append_nil]
      rw [← hsite, ← same, siteWrites_offset, hsmall]
    rw [file_bases]
    unfold fixupTarget at htarget
    unfold loadedVa
    cases hva : internalVa objects state placed.reloc with
    | some va =>
      rw [hva] at htarget
      cases htarget
      have hnonzero : va ≠ 0 := by
        intro hzero
        simp [isLinked, targetVa, hva, hzero] at hlinked
      have hfound := @targetAddr_internal dllMgr (linkedImage objects state defMap).file va
        placed.pageOff (targetVa_internal_lt built hva)
      exact hwrites _ va rfl (iff_of_false hfound.1 hnonzero) hfound.2
    | none =>
      rw [hva] at htarget
      obtain ⟨⟨module, ordinal⟩, himport, rfl⟩ := Option.map_eq_some_iff.mp htarget
      have hmember : module ∈ uses state defMap (placedRelocs objects state) :=
        List.mem_filterMap.mpr ⟨placed, member, by rw [himport]; rfl⟩
      have himported : (linkedImage objects state defMap).file.importedModules = _ :=
        (linkTables_spec objects state defMap).modules.imported
      rw [himport]
      exact hwrites _ _ (targetAddr_import dllMgr himported few hmember) Iff.rfl rfl
  · cases made

/-- The writes of the pass, each at the site of a relocation. -/
theorem mem_fixupWrites (built : LinkerState.build objects = some state) (fits : state.Fits)
    (fit : RelocsFit objects state)
    (few : (uses state defMap (placedRelocs objects state)).eraseDups.length ≤ 255)
    {write : Nat × List UInt8} :
    write ∈ fixupWrites dllMgr (linkedImage objects state defMap).file
        ((linkedImage objects state defMap).file.objectTable.map (·.baseAddress)) ↔
      ∃ placed ∈ placedRelocs objects state, isLinked objects state defMap placed .absolute = true ∧
        loadedVa objects state defMap dllMgr placed.reloc ≠ 0 ∧
          write = (placed.site, leBytes 4 (loadedVa objects state defMap dllMgr placed.reloc)) := by
  unfold fixupWrites
  rw [List.mem_flatMap]
  constructor
  · intro ⟨entry, hentry, hwrite⟩
    obtain ⟨placed, hplaced, fixup, hmade, rfl⟩ := (mem_records built fits fit).mp hentry
    rw [recordWrites_eq dllMgr built fits fit few hplaced hmade] at hwrite
    split at hwrite
    · cases hwrite
    · rename_i hnonzero
      have hlinked : isLinked objects state defMap placed .absolute = true := by
        unfold fixupOf at hmade
        split at hmade
        · assumption
        · cases hmade
      exact ⟨placed, hplaced, hlinked, hnonzero, List.mem_singleton.mp hwrite⟩
  · intro ⟨placed, hplaced, hlinked, hnonzero, hwrite⟩
    have htarget : targetVa objects state defMap placed.reloc ≠ 0 := by
      simp only [isLinked, Bool.and_eq_true, bne_iff_ne] at hlinked
      exact hlinked.2
    obtain ⟨target, htarget⟩ :=
      fixupTarget_isSome (uses state defMap (placedRelocs objects state)) htarget
    have hmade : fixupOf objects state defMap (uses state defMap (placedRelocs objects state))
        placed = some ⟨0x07, placed.pageOff, target⟩ := by
      rw [fixupOf, if_pos hlinked, htarget]
      rfl
    refine ⟨_, (mem_records built fits fit).mpr ⟨placed, hplaced, _, hmade, rfl⟩, ?_⟩
    rw [recordWrites_eq dllMgr built fits fit few hplaced hmade, if_neg hnonzero, hwrite]
    exact List.mem_singleton.mpr rfl

end Writes

/-- The pages are in memory at their preferred bases. -/
structure PagesLoaded (objects : List ElfObject) (state : LinkerState) (defMap : DefMap)
    (mem : GuestMemory) : Prop where
  code : mem.slice codeObjectBase (codeData objects state defMap).length =
    some (codeData objects state defMap)
  data : mem.slice dataObjectBase (dataData objects state defMap).length =
    some (dataData objects state defMap)

/-- What the format and the parser can take: relocations have their fields inside
their sections and apart, and modules have numbers and lengths of one byte. -/
structure WellFormed (objects : List ElfObject) (state : LinkerState) (defMap : DefMap) :
    Prop where
  built : LinkerState.build objects = some state
  fits : state.Fits
  relocs : RelocsFit objects state
  few : (uses state defMap (placedRelocs objects state)).eraseDups.length ≤ 255
  names : ∀ name ∈ uses state defMap (placedRelocs objects state),
    (Utf8.toBytes name).length ≤ 255

/-- The loader takes the file, and after its fixup pass every absolute relocation
that has a target address has that address plus the addend as its word. -/
def LoadsAsLinked (objects : List ElfObject) (state : LinkerState) (defMap : DefMap)
    (dllMgr : DllManager) (mem : GuestMemory) : Prop :=
  ∃ file next, LxFile.parse (writeLx objects state defMap) = .ok file ∧
    applyFixups dllMgr file (file.objectTable.map (·.baseAddress)) mem = some next ∧
      ∀ placed ∈ placedRelocs objects state,
        isLinked objects state defMap placed .absolute = true →
          next.read 4 placed.site = some (absoluteWord objects state defMap placed)

/-- The fixup, which has no addend, does not change the word: the addend is 0, or
the target is an import whose module the linker does not know, and the loader
finds nothing for it or just the address the linker made up. -/
def Keeps (objects : List ElfObject) (state : LinkerState) (defMap : DefMap)
    (dllMgr : DllManager) (reloc : Reloc) : Prop :=
  match internalVa objects state reloc, importOf state defMap reloc with
  | none, some (module, ordinal) =>
      let found := Loader.resolveImport dllMgr module ordinal.toNat
      if moduleBase module = none then
        found = 0 ∨ (found : Int) % u32Size = (Loader.magicApiBase + reloc.addend) % u32Size
      else reloc.addend % u32Size = 0
  | _, _ => reloc.addend % u32Size = 0

instance (objects : List ElfObject) (state : LinkerState) (defMap : DefMap)
    (dllMgr : DllManager) (reloc : Reloc) :
    Decidable (Keeps objects state defMap dllMgr reloc) := by
  unfold Keeps
  split
  · exact inferInstance
  · exact inferInstance

section Words

variable {objects : List ElfObject} {state : LinkerState} {defMap : DefMap}
variable {dllMgr : DllManager} {mem : GuestMemory}

/-- The word at the site of a relocation before the pass. -/
theorem PagesLoaded.slice (wf : WellFormed objects state defMap)
    (loaded : PagesLoaded objects state defMap mem) {placed : PlacedReloc}
    (member : placed ∈ placedRelocs objects state)
    (linked : isLinked objects state defMap placed .absolute = true) :
    mem.slice placed.site 4 = some (leBytes 4 (absoluteWord objects state defMap placed)) := by
  have hinside := wf.relocs.inside placed member
  have hword := patchedData_word wf.relocs member linked
  have hlength := (@patchedData_bounds objects state defMap placed.isCode).1
  have hpages : mem.slice placed.objBase (patchedData objects state defMap placed.isCode).length =
      some (patchedData objects state defMap placed.isCode) := by
    unfold patchedData PlacedReloc.objBase
    cases placed.isCode with
    | true => exact loaded.code
    | false => exact loaded.data
  rw [← hword]
  exact mem.slice_part hpages (by omega)

/-- The writes of the pass are in bounds, and the same or apart. -/
theorem fixupWrites_fit (wf : WellFormed objects state defMap)
    (loaded : PagesLoaded objects state defMap mem) :
    let writes := fixupWrites dllMgr (linkedImage objects state defMap).file
      ((linkedImage objects state defMap).file.objectTable.map (·.baseAddress))
    (∀ write ∈ writes, mem.inBounds write.1 write.2.length = true) ∧
      ∀ first ∈ writes, ∀ second ∈ writes, first = second ∨ ByteStore.WritesApart first second := by
  refine ⟨fun write hwrite => ?_, fun first hfirst second hsecond => ?_⟩
  · obtain ⟨placed, hplaced, hlinked, _, rfl⟩ :=
      (mem_fixupWrites dllMgr wf.built wf.fits wf.relocs wf.few).mp hwrite
    have hslice := loaded.slice wf hplaced hlinked
    unfold GuestMemory.slice at hslice
    rw [leBytes_length]
    split at hslice
    · assumption
    · cases hslice
  · obtain ⟨a, ha, _, _, rfl⟩ :=
      (mem_fixupWrites dllMgr wf.built wf.fits wf.relocs wf.few).mp hfirst
    obtain ⟨b, hb, _, _, rfl⟩ :=
      (mem_fixupWrites dllMgr wf.built wf.fits wf.relocs wf.few).mp hsecond
    rcases wf.relocs.same_or_apart ha hb with rfl | hapart
    · exact Or.inl rfl
    · right
      unfold ByteStore.WritesApart
      rw [leBytes_length, leBytes_length]
      exact site_apart wf.fits wf.relocs ha hb hapart

/-- After the pass, a site has the loader's address, or the linker's word where
the loader found none. -/
theorem slice_after (wf : WellFormed objects state defMap)
    (loaded : PagesLoaded objects state defMap mem) :
    ∃ next, applyFixups dllMgr (linkedImage objects state defMap).file
        ((linkedImage objects state defMap).file.objectTable.map (·.baseAddress)) mem = some next ∧
      ∀ placed ∈ placedRelocs objects state,
        isLinked objects state defMap placed .absolute = true →
          next.slice placed.site 4 = some (leBytes 4
            (if loadedVa objects state defMap dllMgr placed.reloc = 0 then
              absoluteWord objects state defMap placed
            else loadedVa objects state defMap dllMgr placed.reloc)) := by
  obtain ⟨hbounds, hapart⟩ := @fixupWrites_fit _ _ _ dllMgr _ wf loaded
  rw [applyFixups_eq mem (List.length_map _)]
  refine ⟨_, mem.writeAll_eq_some.mpr ⟨hbounds, rfl⟩, fun placed hplaced hlinked => ?_⟩
  have hbefore := loaded.slice wf hplaced hlinked
  unfold GuestMemory.slice GuestMemory.inBounds at hbefore ⊢
  dsimp only
  split at hbefore
  · rename_i hinside
    rw [if_pos hinside]
    split
    · rename_i hzero
      rw [ByteStore.load_storeAll_apart _ _ _ fun write hwrite => ?_]
      · exact hbefore
      · obtain ⟨other, hother, _, hnonzero, rfl⟩ :=
          (mem_fixupWrites dllMgr wf.built wf.fits wf.relocs wf.few).mp hwrite
        rcases wf.relocs.same_or_apart hother hplaced with rfl | hfields
        · exact absurd hzero hnonzero
        · rw [leBytes_length]
          exact site_apart wf.fits wf.relocs hother hplaced hfields
    · rename_i hnonzero
      have hload := mem.bytes.load_storeAll_of_same hapart
        ((mem_fixupWrites dllMgr wf.built wf.fits wf.relocs wf.few).mpr
          ⟨placed, hplaced, hlinked, hnonzero, rfl⟩)
      rw [leBytes_length] at hload
      rw [hload]
  · cases hbefore

/-- The loader knows the modules of the linker, at the same places. -/
theorem builtinBase_of_moduleBase {module : String} {base : Nat}
    (h : moduleBase module = some base) : Loader.builtinBase module = some base := by
  unfold moduleBase at h
  unfold Loader.builtinBase
  obtain ⟨entry, hentry, rfl⟩ := Option.map_eq_some_iff.mp h
  rw [show Loader.moduleBases = moduleBases ++
      [("SO32DLL", Loader.so32dllBase), ("TCP32DLL", Loader.tcp32dllBase)] from rfl,
    List.find?_append, hentry]
  rfl

/-- The loader's address agrees with the linker's word exactly where the fixup keeps it. -/
theorem keeps_iff (built : LinkerState.build objects = some state) {placed : PlacedReloc}
    (linked : isLinked objects state defMap placed .absolute = true) :
    (if loadedVa objects state defMap dllMgr placed.reloc = 0 then
        absoluteWord objects state defMap placed
      else loadedVa objects state defMap dllMgr placed.reloc) % u32Size =
        absoluteWord objects state defMap placed ↔
      Keeps objects state defMap dllMgr placed.reloc := by
  have hmagic : 0 < Loader.magicApiBase ∧ Loader.magicApiBase < 2 ^ 32 := by decide
  have htarget : targetVa objects state defMap placed.reloc ≠ 0 := by
    simp only [isLinked, Bool.and_eq_true, bne_iff_ne] at linked
    exact linked.2
  unfold absoluteWord word Keeps loadedVa
  unfold targetVa at htarget ⊢
  cases hva : internalVa objects state placed.reloc with
  | some va =>
    have hlt := targetVa_internal_lt built hva
    rw [hva] at htarget
    dsimp only at htarget ⊢
    rw [if_neg htarget]
    unfold u32Size at *
    omega
  | none =>
    rw [hva] at htarget
    cases himport : importOf state defMap placed.reloc with
    | none => simp [himport] at htarget
    | some entry =>
      obtain ⟨module, ordinal⟩ := entry
      dsimp only
      cases hbase : moduleBase module with
      | some base =>
        have hloader : Loader.resolveImport dllMgr module ordinal.toNat =
            Loader.magicApiBase + base + ordinal.toNat := by
          rw [Loader.resolveImport, builtinBase_of_moduleBase hbase]
        have hlinker : resolveImport module ordinal.toNat =
            wrapAdd (Loader.magicApiBase + base) ordinal.toNat := by
          rw [resolveImport, hbase]
        simp only [hloader, hlinker, reduceCtorEq, if_false]
        rw [if_neg (by omega)]
        unfold wrapAdd u32Size
        omega
      | none =>
        have hlinker : resolveImport module ordinal.toNat = Loader.magicApiBase := by
          rw [resolveImport, hbase]
        simp only [hlinker, if_true]
        generalize Loader.resolveImport dllMgr module ordinal.toNat = found
        unfold u32Size
        split <;> omega

/-- The word after the pass is the linker's where the fixup keeps it, and only there. -/
theorem word_after (dllMgr : DllManager) (wf : WellFormed objects state defMap)
    (loaded : PagesLoaded objects state defMap mem) :
    ∃ file next, LxFile.parse (writeLx objects state defMap) = .ok file ∧
      applyFixups dllMgr file (file.objectTable.map (·.baseAddress)) mem = some next ∧
        ∀ placed ∈ placedRelocs objects state,
          isLinked objects state defMap placed .absolute = true →
            (next.read 4 placed.site = some (absoluteWord objects state defMap placed) ↔
              Keeps objects state defMap dllMgr placed.reloc) := by
  obtain ⟨next, hnext, hafter⟩ := @slice_after _ _ _ dllMgr _ wf loaded
  refine ⟨_, next,
    Image.parse_bytes (image_regular wf.built wf.fits wf.relocs wf.few wf.names), hnext,
    fun placed hplaced hlinked => ?_⟩
  have hlt : absoluteWord objects state defMap placed < u32Size := by
    unfold absoluteWord word u32Size
    omega
  rw [GuestMemory.read_eq_some, hafter placed hplaced hlinked, Option.some.injEq, leBytes_inj_mod,
    show (256 : Nat) ^ 4 = u32Size from rfl, Nat.mod_eq_of_lt hlt, keeps_iff wf.built hlinked]
  exact and_iff_right hlt

end Words

theorem loads_as_linked_iff {objects : List ElfObject} {state : LinkerState} {defMap : DefMap}
    (dllMgr : DllManager) {mem : GuestMemory} (wf : WellFormed objects state defMap)
    (loaded : PagesLoaded objects state defMap mem) :
    LoadsAsLinked objects state defMap dllMgr mem ↔
      ∀ placed ∈ placedRelocs objects state,
        isLinked objects state defMap placed .absolute = true →
          Keeps objects state defMap dllMgr placed.reloc := by
  obtain ⟨file, next, hparse, hnext, hword⟩ := word_after dllMgr wf loaded
  constructor
  · intro ⟨other, after, hother, hafter, hall⟩ placed hplaced hlinked
    cases (hother.symm.trans hparse)
    cases (hafter.symm.trans hnext)
    exact (hword placed hplaced hlinked).mp (hall placed hplaced hlinked)
  · intro hall
    exact ⟨file, next, hparse, hnext, fun placed hplaced hlinked =>
      (hword placed hplaced hlinked).mpr (hall placed hplaced hlinked)⟩

def loadedMemory (objects : List ElfObject) (state : LinkerState) (defMap : DefMap) :
    GuestMemory :=
  ((⟨0x80000, fun _ => 0⟩ : GuestMemory).putBytes codeObjectBase
    (codeData objects state defMap)).putBytes dataObjectBase (dataData objects state defMap)

theorem loadedMemory_pages {objects : List ElfObject} {state : LinkerState} {defMap : DefMap}
    (code : (codeData objects state defMap).length ≤ 0x50000)
    (data : (dataData objects state defMap).length ≤ 0x20000) :
    PagesLoaded objects state defMap (loadedMemory objects state defMap) := by
  unfold loadedMemory
  have hcode : codeObjectBase + (codeData objects state defMap).length ≤ dataObjectBase := by
    unfold codeObjectBase dataObjectBase
    omega
  constructor
  · rw [GuestMemory.slice_putBytes_apart _ (Or.inr hcode)]
    apply GuestMemory.slice_putBytes
    exact decide_eq_true (by unfold codeObjectBase; dsimp only; omega)
  · apply GuestMemory.slice_putBytes
    refine decide_eq_true ?_
    rw [GuestMemory.putBytes_size]
    unfold dataObjectBase
    dsimp only
    omega

theorem sample_wellFormed {addend : Int}
    (h : (LinkerState.build [sampleObject addend]).isSome = true)
    (fits : (sampleState addend).codeSection.data.length ≤ 8 ∧
      (sampleState addend).dataSection.data.length + (sampleState addend).dataSection.bssSize ≤ 8)
    (inside : ∀ placed ∈ placedRelocs [sampleObject addend] (sampleState addend),
      placed.bufOff + 4 ≤ (mergedData (sampleState addend) placed.isCode).length)
    (apart : (placedRelocs [sampleObject addend] (sampleState addend)).Pairwise FieldsApart)
    (names : uses (sampleState addend) sampleDefs
      (placedRelocs [sampleObject addend] (sampleState addend)) = ["DOSCALLS"]) :
    WellFormed [sampleObject addend] (sampleState addend) sampleDefs where
  built := sample_built h
  fits := ⟨fits.1.trans (by decide), fits.2.trans (by decide)⟩
  relocs := ⟨inside, apart⟩
  few := by
    rw [names]
    decide
  names := by
    rw [names]
    decide

/-- References without an addend. -/
theorem loads_as_linked_iff_sample :
    LoadsAsLinked [sampleObject 0] (sampleState 0) sampleDefs .new
      (loadedMemory [sampleObject 0] (sampleState 0) sampleDefs) := by
  have wf : WellFormed [sampleObject 0] (sampleState 0) sampleDefs :=
    sample_wellFormed (by decide) (by decide) (by decide)
      (by decide) (by decide)
  apply (loads_as_linked_iff .new wf
    (loadedMemory_pages (by decide +kernel) (by decide +kernel))).mpr
  decide

/-- With an addend of 4 the program has the address of `x` where it refers to `x + 4`. -/
theorem addend_lost :
    ¬ ∀ (objects : List ElfObject) (state : LinkerState) (defMap : DefMap)
      (dllMgr : DllManager) (mem : GuestMemory), WellFormed objects state defMap →
        PagesLoaded objects state defMap mem →
          LoadsAsLinked objects state defMap dllMgr mem := by
  intro claim
  have wf : WellFormed [sampleObject 4] (sampleState 4) sampleDefs :=
    sample_wellFormed (by decide) (by decide) (by decide)
      (by decide) (by decide)
  have loaded := @loadedMemory_pages [sampleObject 4] (sampleState 4) sampleDefs
    (by decide +kernel) (by decide +kernel)
  obtain ⟨file, next, hparse, hnext, hword⟩ := word_after .new wf loaded
  obtain ⟨other, after, hother, hafter, hall⟩ := claim _ _ _ .new _ wf loaded
  cases (hother.symm.trans hparse)
  cases (hafter.symm.trans hnext)
  let placed : PlacedReloc := ⟨true, 0x10000, ⟨0, .absolute, 4, .symbol "x"⟩⟩
  have hplaced : placed ∈ placedRelocs [sampleObject 4] (sampleState 4) := by decide
  have hlinked : isLinked [sampleObject 4] (sampleState 4) sampleDefs placed .absolute = true := by
    decide
  have hkeeps := (hword placed hplaced hlinked).mp (hall placed hplaced hlinked)
  exact absurd hkeeps (by decide)

end Warpine.Linker
