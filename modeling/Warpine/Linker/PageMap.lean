import Mathlib.Order.CompletePartialOrder
import Mathlib.Order.Interval.Set.Disjoint
import Warpine.Lib.Layout
import Warpine.Linker.Patched
import Warpine.Linker.RoundTrip

/-! The page map of the file against the pages that it describes, and the address
ranges of the objects. -/
namespace Warpine.Linker
open Warpine.Lib

namespace Image

variable (image : Image)

/-- The entry of a page, as it stands in the file: an offset among the data pages. -/
def mapOffset (i : Nat) : Nat := leValue (bytesAt image.bytes (0x40 + pageMapOff + i * 8) 4)

def mapSize (i : Nat) : Nat := leValue (bytesAt image.bytes (0x40 + pageMapOff + i * 8 + 4) 2)

/-- Where the bytes of a page are, from the offset in the header on. -/
def pagePos (i : Nat) : Nat := image.dataPagesOffsetAbs % u32Size + image.mapOffset i

/-- What the page holds in memory: code, then data, then zeros for the stack. -/
def pageContent (i : Nat) : List UInt8 :=
  if i < image.codeFixups.length then
    resize (chunk pageSize image.codeData i) pageSize
  else if i < image.codeFixups.length + image.dataFixups.length then
    resize (chunk pageSize image.dataData (i - image.codeFixups.length)) pageSize
  else List.replicate pageSize 0

/-- The entry describes bytes among the data pages, which up to the end of the page
are continued by zeros. -/
structure PageSound (i : Nat) : Prop where
  size : image.mapSize i ≤ pageSize
  inside : image.dataPagesOffsetAbs ≤ image.pagePos i ∧
    image.pagePos i + image.mapSize i ≤ image.bytes.length
  content : resize (bytesAt image.bytes (image.pagePos i) (image.mapSize i)) pageSize =
    image.pageContent i

/-- What the writer subtracts for the sizes of the pages of an object. -/
def sizeSubtractions (dataLen pages : Nat) : List (Nat × Nat) :=
  (List.range pages).map fun pi => (min ((pi + 1) * pageSize) dataLen, pi * pageSize)

/-- The subtractions of the page map, and that of the padding in front of the data pages. -/
def subtractions : List (Nat × Nat) :=
  sizeSubtractions image.codeData.length image.codeFixups.length ++
    sizeSubtractions image.dataData.length image.dataFixups.length ++
    [(image.dataPagesOffsetAbs % u32Size, image.loaderSectionEnd % u32Size)]

/-- Base and size of each object. -/
def spans : List (Nat × Nat) := [
  (codeObjectBase, image.codeData.length + image.codeBss),
  (dataObjectBase, image.dataData.length + image.dataBss),
  (stackObjectBase, stackSize)]

end Image

def SpansApart (first second : Nat × Nat) : Prop :=
  Disjoint (Set.Ico first.1 (first.1 + first.2)) (Set.Ico second.1 (second.1 + second.2))

section Sound

variable (objects : List ElfObject) (state : LinkerState) (defMap : DefMap)

def sectionBase (sec : ElfSection) : Nat :=
  if sec.kind == .text then codeObjectBase else dataObjectBase

/-- The address of a section in the object that it goes to. -/
def ownVa (entry : Nat × Nat × ElfSection) : Option Nat :=
  if entry.2.2.kind == .text then state.codeVaFor entry.1 entry.2.1
  else state.dataVaFor entry.1 entry.2.1

/-- The subtraction of `vaToLxObject`. -/
def lxObjectSubtraction (va : Nat) : Nat × Nat :=
  (va, if dataObjectBase ≤ va then dataObjectBase else codeObjectBase)

def relocSubtractions (placed : PlacedReloc) : List (Nat × Nat) :=
  ((internalVa objects state placed.reloc).map lxObjectSubtraction).toList ++
    if isLinked objects state defMap placed .absolute then [(placed.sourceVa, placed.objBase)]
    else []

/-- The addresses that the writer makes relative to their objects. -/
def addressSubtractions : List (Nat × Nat) :=
  (state.entryVa, codeObjectBase) ::
    ((numbered objects).flatMap fun entry =>
      ((ownVa state entry).map fun va => (va, sectionBase entry.2.2)).toList) ++
    (placedRelocs objects state).flatMap (relocSubtractions objects state defMap)

/-- Nothing underflows while the file is written, its page map is right, and its
objects are apart. -/
structure Sound : Prop where
  subtractions : ∀ pair ∈ addressSubtractions objects state defMap ++
    (linkedImage objects state defMap).subtractions, pair.2 ≤ pair.1
  pages : ∀ i < (linkedImage objects state defMap).totalPages,
    (linkedImage objects state defMap).PageSound i
  apart : (linkedImage objects state defMap).spans.Pairwise SpansApart

/-- The addresses are not below the bases they are made relative to. -/
structure AddressesAbove : Prop where
  entry : codeObjectBase ≤ state.entryVa
  sections : ∀ entry ∈ numbered objects, ∀ va ∈ ownVa state entry, sectionBase entry.2.2 ≤ va
  targets : ∀ placed ∈ placedRelocs objects state, ∀ va ∈ internalVa objects state placed.reloc,
    codeObjectBase ≤ va
  sources : ∀ placed ∈ placedRelocs objects state,
    isLinked objects state defMap placed .absolute → placed.objBase ≤ placed.sourceVa

def objPages (isCode : Bool) : Nat := if isCode then codePages state else dataPages state

/-- The relocations that get a fixup record. -/
def recorded (placed : PlacedReloc) : Bool :=
  isLinked objects state defMap placed .absolute && placed.pageIdx < objPages state placed.isCode

/-- How long the file is in front of its data pages: the headers, the object table,
eight bytes a page in the page map and four in the table of the fixups, nine bytes a
fixup, and the names of the modules. -/
def tablesEnd : Nat :=
  64 + 172 + 3 * 24 + (codePages state + dataPages state + stackPages) * 8 + 11 + 2 +
    (codePages state + dataPages state + stackPages + 1) * 4 +
    9 * (placedRelocs objects state).countP (recorded objects state defMap) +
    ((uses state defMap (placedRelocs objects state)).eraseDups.map fun name =>
      1 + (Utf8.toBytes name).length).sum

/-- Addresses are above their bases, the tables end below 4 GiB, the zeroed data fits
the last page of the data, and each object ends where the next one begins or earlier. -/
structure Fitting : Prop where
  addresses : AddressesAbove objects state defMap
  tables : roundUp 16 (tablesEnd objects state defMap) < u32Size
  bss : state.dataSection.data.length + state.dataSection.bssSize ≤
    roundUp pageSize state.dataSection.data.length
  code : roundUp pageSize state.codeSection.data.length ≤ stackObjectBase - codeObjectBase
  codeApart : roundUp pageSize state.codeSection.data.length ≤ dataObjectBase - codeObjectBase ∨
    state.dataSection.data = [] ∧ state.dataSection.bssSize = 0
  data : roundUp pageSize state.dataSection.data.length + state.dataSection.bssSize ≤
    stackObjectBase - dataObjectBase

end Sound

namespace Image

variable (image : Image)

/-- The pages as they stand in the file. -/
def pageBytes : List UInt8 :=
  image.codeData ++ image.dataData ++ List.replicate (stackPages * pageSize) 0

theorem bytes_eq_append : ∃ front, front.length = image.dataPagesOffsetAbs ∧
    image.bytes = front ++ image.pageBytes := by
  refine ⟨mzStub ++ image.buildLxHeader ++ image.objectTable ++ image.pageMap ++
    residentNameBytes ++ entryTableBytes ++ (fixupPageTable 0 image.pages).flatMap (leBytes 4) ++
    image.fixupRecords ++ image.importModulesBytes ++
    List.replicate (image.dataPagesOffsetAbs - image.loaderSectionEnd) 0, ?_, ?_⟩
  · have hpadding := image.dataPagesOffsetAbs_ge
    have hend : image.loaderSectionEnd = 64 + (172 + numObjects * 24 + image.totalPages * 8 +
      residentNameBytes.length + entryTableBytes.length + (image.totalPages + 1) * 4 +
        image.fixupRecords.length + image.importModulesBytes.length) := rfl
    simp only [List.length_append, buildLxHeader_length, objectTable_length, pageMap_length,
      pageTable_length, List.length_replicate, show mzStub.length = 64 from rfl]
    omega
  · unfold bytes pageBytes
    simp only [List.append_assoc]

/-- The size in the entry of a page. -/
def entrySize (i : Nat) : Nat :=
  if i < image.codeFixups.length then
    wrapSub (min ((i + 1) * pageSize) image.codeData.length) (i * pageSize) % u16Size
  else if i < image.codeFixups.length + image.dataFixups.length then
    let pi := i - image.codeFixups.length
    wrapSub (min ((pi + 1) * pageSize) image.dataData.length) (pi * pageSize) % u16Size
  else pageSize

theorem getElem?_pageMapEntries {i : Nat} (h : i < image.totalPages) :
    image.pageMapEntries[i]? = some ⟨i * pageSize, image.entrySize i, 0⟩ := by
  unfold totalPages at h
  unfold pageMapEntries pageMapEntry entrySize
  by_cases hcode : i < image.codeFixups.length
  · rw [if_pos hcode, List.append_assoc, List.getElem?_append_left (by simpa using hcode),
      List.getElem?_map, List.getElem?_range hcode]
    rfl
  · rw [if_neg hcode]
    by_cases hdata : i < image.codeFixups.length + image.dataFixups.length
    · rw [if_pos hdata, List.append_assoc, List.getElem?_append_right (by simpa using hcode),
        List.getElem?_append_left (by simp; omega), List.getElem?_map, List.length_map,
        List.length_range, List.getElem?_range (by omega)]
      simp only [Option.map_some, Nat.add_sub_cancel' (Nat.not_lt.mp hcode)]
    · rw [if_neg hdata, List.getElem?_append_right (by simpa using hdata), List.length_append,
        List.length_map, List.length_map, List.length_range, List.length_range, List.getElem?_map,
        List.getElem?_range (by omega)]
      simp only [Option.map_some, Nat.add_sub_cancel' (Nat.not_lt.mp hdata)]

theorem entrySize_lt (i : Nat) : image.entrySize i < u16Size := by
  unfold entrySize
  split
  · exact Nat.mod_lt _ (by decide)
  · split
    · exact Nat.mod_lt _ (by decide)
    · decide

variable {image}

/-- What the entries of the file say. -/
theorem mapEntry_eq {i : Nat} (h : i < image.totalPages) :
    image.mapOffset i = i * pageSize % u32Size ∧ image.mapSize i = image.entrySize i := by
  have hentry := image.tables.pageMap.of_flatMap objectPageMapEntry_length
    (image.getElem?_pageMapEntries h)
  unfold Lx.ObjectPageMapEntry.bytes Lx.ObjectPageMapEntry.fields at hentry
  simp only [Lx.fieldBytes, List.flatMap_cons, Stored.append] at hentry
  obtain ⟨hoffset, hsize, _⟩ := hentry
  rw [leBytes_length] at hsize
  have hoffset := hoffset.bytesAt_eq
  have hsize := hsize.bytesAt_eq
  rw [leBytes_length] at hoffset hsize
  constructor
  · rw [mapOffset, hoffset, leValue_leBytes_mod]
    rfl
  · rw [mapSize, hsize, leValue_leBytes (image.entrySize_lt i)]

/-- Both sections take whole pages, as many as are described. -/
structure WholePages (image : Image) : Prop where
  code : image.codeData.length = image.codeFixups.length * pageSize
  data : image.dataData.length = image.dataFixups.length * pageSize

theorem resize_length_self (list : List UInt8) : resize list list.length = list := by
  simp [resize]

theorem WholePages.chunk_eq (whole : image.WholePages) {i : Nat} (h : i < image.totalPages) :
    chunk pageSize image.pageBytes i = image.pageContent i := by
  unfold totalPages at h
  unfold pageBytes pageContent
  by_cases hcode : i < image.codeFixups.length
  · have hroom : (i + 1) * pageSize ≤ image.codeData.length := by
      rw [whole.code]
      exact Nat.mul_le_mul_right _ hcode
    have hself := resize_length_self (chunk pageSize image.codeData i)
    rw [chunk_length hroom] at hself
    rw [if_pos hcode, List.append_assoc, chunk_append_left hroom, hself]
  · obtain ⟨pi, rfl⟩ := Nat.le.dest (Nat.not_lt.mp hcode)
    rw [if_neg hcode, List.append_assoc, chunk_append_right whole.code]
    by_cases hdata : pi < image.dataFixups.length
    · have hroom : (pi + 1) * pageSize ≤ image.dataData.length := by
        rw [whole.data]
        exact Nat.mul_le_mul_right _ hdata
      have hself := resize_length_self (chunk pageSize image.dataData pi)
      rw [chunk_length hroom] at hself
      rw [if_pos (by omega), chunk_append_left hroom, Nat.add_sub_cancel_left, hself]
    · obtain ⟨stackPage, rfl⟩ := Nat.le.dest (Nat.not_lt.mp hdata)
      rw [if_neg (by omega), chunk_append_right whole.data]
      apply chunk_replicate
      exact Nat.mul_le_mul_right _ (by omega)

theorem WholePages.pageBytes_length (whole : image.WholePages) :
    image.pageBytes.length = image.totalPages * pageSize := by
  unfold pageBytes totalPages
  rw [List.length_append, List.length_append, List.length_replicate, whole.code, whole.data,
    Nat.add_mul, Nat.add_mul]

theorem WholePages.entrySize_eq (whole : image.WholePages) (i : Nat) :
    image.entrySize i = pageSize := by
  have hcode := whole.code
  have hdata := whole.data
  unfold entrySize wrapSub
  unfold u32Size u16Size pageSize at *
  dsimp only
  split
  · omega
  · split
    · omega
    · rfl

/-- Every page is described where it is. -/
theorem WholePages.pageSound (whole : image.WholePages) (small : image.totalPages ≤ 128)
    (offset : image.dataPagesOffsetAbs < u32Size) {i : Nat} (h : i < image.totalPages) :
    image.PageSound i := by
  obtain ⟨front, hfront, hbytes⟩ := image.bytes_eq_append
  obtain ⟨hoffset, hsize⟩ := mapEntry_eq h
  rw [whole.entrySize_eq i] at hsize
  have hpos : image.pagePos i = front.length + i * pageSize := by
    rw [pagePos, hoffset, Nat.mod_eq_of_lt offset, hfront, Nat.mod_eq_of_lt]
    unfold pageSize u32Size
    omega
  have hroom : (i + 1) * pageSize ≤ image.pageBytes.length := by
    rw [whole.pageBytes_length]
    exact Nat.mul_le_mul_right _ h
  have hdescribed : bytesAt image.bytes (image.pagePos i) (image.mapSize i) =
      chunk pageSize image.pageBytes i := by
    rw [hpos, hsize, hbytes, bytesAt, List.drop_length_add_append]
    rfl
  have hself := resize_length_self (chunk pageSize image.pageBytes i)
  rw [chunk_length hroom] at hself
  rw [Nat.succ_mul] at hroom
  constructor
  · exact Nat.le_of_eq hsize
  · rw [hpos, hsize, hbytes, List.length_append]
    omega
  · rw [hdescribed, hself, whole.chunk_eq h]

theorem sizeSubtractions_le (pages : Nat) :
    ∀ pair ∈ sizeSubtractions (pages * pageSize) pages, pair.2 ≤ pair.1 := by
  intro pair hpair
  obtain ⟨pi, hpi, rfl⟩ := List.mem_map.mp hpair
  have hlt := List.mem_range.mp hpi
  unfold pageSize
  dsimp only
  omega

theorem WholePages.subtractions_le (whole : image.WholePages)
    (offset : image.dataPagesOffsetAbs < u32Size) :
    ∀ pair ∈ image.subtractions, pair.2 ≤ pair.1 := by
  have hpadding := image.dataPagesOffsetAbs_ge
  unfold subtractions
  rw [whole.code, whole.data]
  simp only [List.forall_mem_append, List.forall_mem_singleton]
  refine ⟨⟨sizeSubtractions_le _, sizeSubtractions_le _⟩, ?_⟩
  rw [Nat.mod_eq_of_lt offset]
  exact (Nat.mod_le _ _).trans hpadding

/-- Where the first page and the last one are described inside the file, there are
no more pages than bytes for them. -/
theorem length_ge_of_pageSound (small : image.totalPages ≤ 65536)
    (sound : ∀ i < image.totalPages, image.PageSound i) :
    image.dataPagesOffsetAbs < u32Size ∧
      image.totalPages * pageSize ≤ image.pageBytes.length := by
  obtain ⟨front, hfront, hbytes⟩ := image.bytes_eq_append
  have hstack : stackPages = 16 := rfl
  have hlast : image.totalPages - 1 < image.totalPages := by
    unfold totalPages
    omega
  have hfirst := (sound 0 (Nat.zero_lt_of_lt hlast)).inside.1
  have hend := (sound _ hlast).inside.2
  obtain ⟨hfirstOffset, _⟩ := mapEntry_eq (Nat.zero_lt_of_lt hlast)
  obtain ⟨hlastOffset, hlastSize⟩ := mapEntry_eq hlast
  have hstackSize : image.entrySize (image.totalPages - 1) = pageSize := by
    unfold entrySize
    rw [if_neg (by unfold totalPages; omega), if_neg (by unfold totalPages; omega)]
  have hoffset : image.dataPagesOffsetAbs < u32Size := by
    have hmod := Nat.mod_lt image.dataPagesOffsetAbs (show 0 < u32Size by decide)
    rw [pagePos, hfirstOffset, Nat.zero_mul, Nat.zero_mod] at hfirst
    omega
  refine ⟨hoffset, ?_⟩
  rw [pagePos, hlastOffset, hlastSize, hstackSize, Nat.mod_eq_of_lt hoffset, hbytes,
    List.length_append, hfront] at hend
  unfold pageSize u32Size at *
  omega

end Image

theorem padToPage_length (data : List UInt8) :
    (padToPage data).length = roundUp pageSize data.length := by
  unfold padToPage roundUp pageSize
  dsimp only
  split
  · rw [resize, List.length_append, List.length_take, List.length_replicate]
    omega
  · omega

section Image

variable {objects : List ElfObject} {state : LinkerState} {defMap : DefMap}

/-- The lengths that the condition speaks of are those of the image. -/
theorem linkedImage_lengths :
    let image := linkedImage objects state defMap
    (image.codeData.length = roundUp pageSize state.codeSection.data.length ∧
      image.dataData.length = roundUp pageSize state.dataSection.data.length) ∧
        image.codeFixups.length = codePages state ∧ image.dataFixups.length = dataPages state := by
  have tables := linkTables_spec objects state defMap
  dsimp only [linkedImage]
  refine ⟨⟨?_, ?_⟩, ?_, ?_⟩
  · unfold codeData
    dsimp only
    rw [padToPage_length, applyPatches_length, applyPatches_length]
  · unfold dataData
    rw [padToPage_length, applyPatches_length]
  · rw [tables.codeFixups, List.length_map, List.length_range]
  · rw [tables.dataFixups, List.length_map, List.length_range]

theorem linkedImage_totalPages : (linkedImage objects state defMap).totalPages =
    codePages state + dataPages state + stackPages := by
  obtain ⟨_, hcode, hdata⟩ := @linkedImage_lengths objects state defMap
  rw [Image.totalPages, hcode, hdata]

/-- What is counted page by page is what is counted on all pages together. -/
theorem sum_countP_pages {α : Type} (list : List α) (test : α → Bool) (page : α → Nat) (n : Nat) :
    ((List.range n).map fun pi => list.countP fun item => test item && page item == pi).sum =
      list.countP fun item => test item && decide (page item < n) := by
  induction n with
  | zero => simp
  | succ n ih =>
    rw [List.range_succ, List.map_append, List.sum_append, ih, List.map_singleton,
      List.sum_singleton]
    clear ih
    induction list with
    | nil => rfl
    | cons item rest ih =>
      simp only [List.countP_cons]
      rw [← ih]
      by_cases htest : test item = true
      · rcases Nat.lt_trichotomy (page item) n with hlt | heq | hgt
        · have hne : page item ≠ n := by omega
          simp [htest, hlt, hne, Nat.lt_succ_of_lt hlt]
          omega
        · simp [htest, heq]
          omega
        · have hne : page item ≠ n := by omega
          simp [htest, hne, show ¬ page item < n by omega, show ¬ page item < n + 1 by omega]
      · simp [htest]

theorem fixupOf_isSome (names : List String) (placed : PlacedReloc) :
    (fixupOf objects state defMap names placed).isSome =
      isLinked objects state defMap placed .absolute := by
  unfold fixupOf
  split
  · rename_i hlinked
    have hfound : targetVa objects state defMap placed.reloc ≠ 0 := by
      simp only [isLinked, Bool.and_eq_true, bne_iff_ne] at hlinked
      exact hlinked.2
    obtain ⟨target, htarget⟩ := fixupTarget_isSome names hfound
    rw [htarget, hlinked]
    rfl
  · rename_i hnot
    rw [Bool.not_eq_true] at hnot
    rw [hnot]
    rfl

theorem fixupsOn_countP (list : List PlacedReloc) (isCode : Bool) (pageIdx : Nat) :
    (fixupsOn objects state defMap list isCode pageIdx).length =
      list.countP fun placed => (isLinked objects state defMap placed .absolute &&
        placed.isCode == isCode) && placed.pageIdx == pageIdx := by
  unfold fixupsOn
  rw [List.length_filterMap_eq_countP, List.countP_filter]
  apply List.countP_congr
  intro placed _
  rw [fixupOf_isSome, Bool.and_assoc]

theorem fixupRecords_length : (linkedImage objects state defMap).fixupRecords.length =
    9 * (placedRelocs objects state).countP (recorded objects state defMap) := by
  have tables := linkTables_spec objects state defMap
  have hpages (pages : List (List LxFixup)) :
      (pages.flatMap fun page => page.flatMap encodeFixup).length =
        9 * (pages.map List.length).sum := by
    induction pages with
    | nil => rfl
    | cons page rest ih =>
      rw [List.flatMap_cons, List.length_append, ih, List.length_flatMap]
      simp [encodeFixup_length]
      omega
  have hobject (isCode : Bool) (n : Nat) : (((List.range n).map
      (fixupsOn objects state defMap (placedRelocs objects state) isCode)).map List.length).sum =
        (placedRelocs objects state).countP fun placed =>
          (isLinked objects state defMap placed .absolute && placed.isCode == isCode) &&
            decide (placed.pageIdx < n) := by
    rw [List.map_map, ← sum_countP_pages]
    congr 2
    ext1 pi
    exact fixupsOn_countP _ _ _
  have hsplit : (placedRelocs objects state).countP (recorded objects state defMap) =
      ((placedRelocs objects state).countP fun placed =>
        (isLinked objects state defMap placed .absolute && placed.isCode == true) &&
          decide (placed.pageIdx < codePages state)) +
      (placedRelocs objects state).countP fun placed =>
        (isLinked objects state defMap placed .absolute && placed.isCode == false) &&
          decide (placed.pageIdx < dataPages state) := by
    generalize placedRelocs objects state = list
    induction list with
    | nil => rfl
    | cons placed rest ih =>
      simp only [List.countP_cons]
      rw [ih]
      cases hcode : placed.isCode <;> simp [recorded, objPages, hcode] <;> omega
  unfold Image.fixupRecords Image.pages
  rw [hpages, List.map_append, List.map_append, List.sum_append, List.sum_append, hsplit]
  congr 1
  unfold linkedImage
  dsimp only
  rw [tables.codeFixups, tables.dataFixups, hobject, hobject]
  simp

/-- Where the tables of the file end. -/
theorem loaderSectionEnd_eq : (linkedImage objects state defMap).loaderSectionEnd =
    tablesEnd objects state defMap := by
  have tables := linkTables_spec objects state defMap
  have hmodules : (linkedImage objects state defMap).importModulesBytes.length =
      ((uses state defMap (placedRelocs objects state)).eraseDups.map fun name =>
        1 + (Utf8.toBytes name).length).sum := by
    unfold Image.importModulesBytes linkedImage
    dsimp only
    rw [tables.modules.imported, List.length_flatMap]
    simp [encodeModule]
  have hend : (linkedImage objects state defMap).loaderSectionEnd =
      64 + (172 + Image.numObjects * 24 + (linkedImage objects state defMap).totalPages * 8 +
        residentNameBytes.length + entryTableBytes.length +
        ((linkedImage objects state defMap).totalPages + 1) * 4 +
        (linkedImage objects state defMap).fixupRecords.length +
        (linkedImage objects state defMap).importModulesBytes.length) := rfl
  rw [hend, hmodules, fixupRecords_length, linkedImage_totalPages]
  unfold tablesEnd Image.numObjects
  rw [show residentNameBytes.length = 11 from rfl, show entryTableBytes.length = 2 from rfl]
  omega

theorem dataPagesOffsetAbs_eq : (linkedImage objects state defMap).dataPagesOffsetAbs =
    roundUp 16 (tablesEnd objects state defMap) := by
  rw [Image.dataPagesOffsetAbs, loaderSectionEnd_eq]
  rfl

end Image

section Sound

variable {objects : List ElfObject} {state : LinkerState} {defMap : DefMap}

theorem addressSubtractions_iff :
    (∀ pair ∈ addressSubtractions objects state defMap, pair.2 ≤ pair.1) ↔
      AddressesAbove objects state defMap := by
  have hobject (va : Nat) :
      (lxObjectSubtraction va).2 ≤ (lxObjectSubtraction va).1 ↔ codeObjectBase ≤ va := by
    unfold lxObjectSubtraction codeObjectBase dataObjectBase
    split <;> omega
  unfold addressSubtractions relocSubtractions
  simp only [List.cons_append, List.forall_mem_cons, List.forall_mem_append, List.mem_flatMap,
    forall_exists_index, and_imp]
  constructor
  · intro ⟨hentry, hsections, hrelocs⟩
    refine ⟨hentry, ?_, ?_, ?_⟩
    · intro entry hmember va hva
      exact hsections (va, sectionBase entry.2.2) entry hmember (by simp [Option.mem_def.mp hva])
    · intro placed hmember va hva
      rw [← hobject]
      exact hrelocs _ placed hmember (by simp [Option.mem_def.mp hva])
    · intro placed hmember hlinked
      exact hrelocs (placed.sourceVa, placed.objBase) placed hmember (by simp [hlinked])
  · intro above
    refine ⟨above.entry, ?_, ?_⟩
    · intro pair entry hmember hpair
      rw [Option.mem_toList] at hpair
      obtain ⟨va, hva, rfl⟩ := Option.map_eq_some_iff.mp hpair
      exact above.sections entry hmember va hva
    · intro pair placed hmember hpair
      rcases List.mem_append.mp hpair with hpair | hpair
      · rw [Option.mem_toList] at hpair
        obtain ⟨va, hva, rfl⟩ := Option.map_eq_some_iff.mp hpair
        exact (hobject va).mpr (above.targets placed hmember va hva)
      · split at hpair
        · rename_i hlinked
          rw [List.mem_singleton.mp hpair]
          exact above.sources placed hmember hlinked
        · cases hpair

theorem apart_iff {code data : Nat} :
    [(codeObjectBase, code), (dataObjectBase, data), (stackObjectBase, stackSize)].Pairwise
        SpansApart ↔
      code ≤ stackObjectBase - codeObjectBase ∧ (code ≤ dataObjectBase - codeObjectBase ∨
        data = 0) ∧ data ≤ stackObjectBase - dataObjectBase := by
  simp only [List.pairwise_cons, List.forall_mem_cons, List.not_mem_nil, IsEmpty.forall_iff,
    implies_true, and_true, List.Pairwise.nil, SpansApart, Set.Ico_disjoint_Ico]
  unfold codeObjectBase dataObjectBase stackObjectBase stackSize
  omega

theorem spans_apart_iff (built : LinkerState.build objects = some state) :
    (linkedImage objects state defMap).spans.Pairwise SpansApart ↔
      roundUp pageSize state.codeSection.data.length ≤ stackObjectBase - codeObjectBase ∧
        (roundUp pageSize state.codeSection.data.length ≤ dataObjectBase - codeObjectBase ∨
          state.dataSection.data = [] ∧ state.dataSection.bssSize = 0) ∧
        roundUp pageSize state.dataSection.data.length + state.dataSection.bssSize ≤
          stackObjectBase - dataObjectBase := by
  obtain ⟨⟨hcode, hdata⟩, _⟩ := @linkedImage_lengths objects state defMap
  have hbss : (linkedImage objects state defMap).codeBss = 0 := LinkerState.build_code_bss built
  have hdataBss : (linkedImage objects state defMap).dataBss = state.dataSection.bssSize := rfl
  have hempty : roundUp pageSize state.dataSection.data.length + state.dataSection.bssSize = 0 ↔
      state.dataSection.data = [] ∧ state.dataSection.bssSize = 0 := by
    rw [← List.length_eq_zero_iff]
    unfold roundUp pageSize
    omega
  rw [Image.spans, apart_iff, hcode, hdata, hbss, hdataBss, hempty, Nat.add_zero]

/-- The numbers of pages, where the objects are apart. -/
theorem pages_of_apart (built : LinkerState.build objects = some state)
    (code : roundUp pageSize state.codeSection.data.length ≤ stackObjectBase - codeObjectBase)
    (data : roundUp pageSize state.dataSection.data.length + state.dataSection.bssSize ≤
      stackObjectBase - dataObjectBase) :
    codePages state * pageSize = roundUp pageSize state.codeSection.data.length ∧
      dataPages state * pageSize =
        roundUp pageSize (state.dataSection.data.length + state.dataSection.bssSize) ∧
      codePages state ≤ 96 ∧ dataPages state ≤ 16 := by
  unfold codePages dataPages pageCount
  rw [LinkerState.build_code_bss built]
  unfold roundUp stackObjectBase dataObjectBase codeObjectBase stackSize pageSize at *
  rw [wrapAdd_of_lt (by unfold u32Size; omega), wrapAdd_of_lt (by unfold u32Size; omega)]
  omega

/-- On the way to the end of a page the rounding leads to that end. -/
theorem roundUp_page_of_le {a b : Nat} (low : a ≤ b) (high : b ≤ roundUp pageSize a) :
    roundUp pageSize a = roundUp pageSize b := by
  unfold roundUp pageSize at *
  omega

/-- The whole pages that are described are there exactly when the zeroed data fits
the last page of the data. -/
theorem wholePages_of_bss (built : LinkerState.build objects = some state)
    (code : roundUp pageSize state.codeSection.data.length ≤ stackObjectBase - codeObjectBase)
    (data : roundUp pageSize state.dataSection.data.length + state.dataSection.bssSize ≤
      stackObjectBase - dataObjectBase) :
    (linkedImage objects state defMap).totalPages ≤ 128 ∧
      ((linkedImage objects state defMap).totalPages * pageSize ≤
          (linkedImage objects state defMap).pageBytes.length ↔
        state.dataSection.data.length + state.dataSection.bssSize ≤
          roundUp pageSize state.dataSection.data.length) ∧
      (state.dataSection.data.length + state.dataSection.bssSize ≤
          roundUp pageSize state.dataSection.data.length →
        (linkedImage objects state defMap).WholePages) := by
  obtain ⟨hcodePages, hdataPages, hcodeLe, hdataLe⟩ := pages_of_apart built code data
  obtain ⟨⟨hcode, hdata⟩, hcodeFixups, hdataFixups⟩ := @linkedImage_lengths objects state defMap
  have hstack : stackPages = 16 := rfl
  have hbytes : (linkedImage objects state defMap).pageBytes.length =
      roundUp pageSize state.codeSection.data.length +
        roundUp pageSize state.dataSection.data.length + stackPages * pageSize := by
    unfold Image.pageBytes
    rw [List.length_append, List.length_append, List.length_replicate, hcode, hdata]
  refine ⟨?_, ?_, fun hbss => ⟨?_, ?_⟩⟩
  · rw [linkedImage_totalPages]
    omega
  · rw [linkedImage_totalPages, hbytes, Nat.add_mul, Nat.add_mul, hcodePages, hdataPages]
    unfold roundUp pageSize
    omega
  · rw [hcode, hcodeFixups, hcodePages]
  · rw [hdata, hdataFixups, hdataPages, roundUp_page_of_le (Nat.le_add_right _ _) hbss]

/-- The page map is right, the subtractions stay above zero and the objects are apart
exactly when the sections fit. -/
theorem pageMap_sound_iff (built : LinkerState.build objects = some state) :
    Sound objects state defMap ↔ Fitting objects state defMap := by
  have hoffset := @dataPagesOffsetAbs_eq objects state defMap
  constructor
  · intro sound
    obtain ⟨hcode, hcodeApart, hdata⟩ := (spans_apart_iff built).mp sound.apart
    obtain ⟨hsmall, hfits, _⟩ := @wholePages_of_bss objects state defMap built hcode hdata
    obtain ⟨htables, hlength⟩ := Image.length_ge_of_pageSound (by omega) sound.pages
    refine ⟨?_, ?_, hfits.mp hlength, hcode, hcodeApart, hdata⟩
    · apply addressSubtractions_iff.mp
      exact (List.forall_mem_append.mp sound.subtractions).1
    · rw [← hoffset]
      exact htables
  · intro fitting
    obtain ⟨hsmall, _, hwhole⟩ :=
      @wholePages_of_bss objects state defMap built fitting.code fitting.data
    have whole := hwhole fitting.bss
    have htables := fitting.tables
    rw [← hoffset] at htables
    refine ⟨?_, fun i hi => whole.pageSound hsmall htables hi, ?_⟩
    · rw [List.forall_mem_append]
      refine ⟨addressSubtractions_iff.mpr fitting.addresses, ?_⟩
      exact whole.subtractions_le htables
    · exact (spans_apart_iff built).mpr ⟨fitting.code, fitting.codeApart, fitting.data⟩

end Sound

theorem pageMap_sound_iff_sample : Sound [sampleObject 4] (sampleState 4) sampleDefs := by
  apply (pageMap_sound_iff (sample_built (by decide))).mpr
  exact {
    addresses := ⟨by decide, by decide, by decide, by decide⟩
    tables := by decide
    bss := by decide
    code := by decide
    codeApart := Or.inl (by decide)
    data := by decide }

/-- One byte of data, and zeroed data that starts at the next multiple of four pages. -/
def alignedObject : ElfObject where
  sections := [⟨".data", .data, [1], 1, []⟩, ⟨".bss", .uninitializedData, [], 16384, []⟩]
  symbols := []

def alignedState : LinkerState where
  codeSection := .new codeObjectBase
  dataSection := ⟨[1], 16383, dataObjectBase, [⟨0, 0, 0⟩]⟩
  symbolTable := .empty
  entryVa := codeObjectBase

/-- Of the four pages only the first has data; the size of the third is 4096 - 8192. -/
theorem bss_pages_underflow :
    ¬ ∀ (objects : List ElfObject) (state : LinkerState) (defMap : DefMap),
      LinkerState.build objects = some state → Sound objects state defMap := by
  intro claim
  have hbuilt : LinkerState.build [alignedObject] = some alignedState := rfl
  have hsubtraction : (4096, 8192) ∈
      (linkedImage [alignedObject] alignedState .empty).subtractions := by decide +kernel
  have hle := (claim [alignedObject] alignedState .empty hbuilt).subtractions (4096, 8192)
    (List.mem_append_right _ hsubtraction)
  exact absurd hle (by decide)

end Warpine.Linker
