import Warpine.Loader.DllErrors

/-! Which memory a DLL load fills from the file's pages, and what it leaves in the
rest of the objects. -/
namespace Warpine.Loader
open Warpine.Lib Warpine.Guest Warpine.Lx ByteStore

/-- The data that the file has for a page. -/
def pageBytes (file : LxFile) (data : List UInt8) (page : ObjectPageMapEntry) : List UInt8 :=
  (data.drop (file.header.dataPagesOffset + page.dataOffset <<< file.header.pageOffsetShift)).take
    page.dataSize

/-- All pages of the objects, with their addresses. -/
def objectsPages (file : LxFile) (objectBases : List Nat) : List (Nat × ObjectPageMapEntry) :=
  (file.objectTable.zip objectBases).flatMap fun entry => mappedPages file entry.2 entry.1

section Pages

variable (file : LxFile) (data : List UInt8)

/-- The page has no data, or it can be read into a memory of this size. -/
def passes (size : Nat) (entry : Nat × ObjectPageMapEntry) : Bool :=
  decide (entry.2.dataSize = 0) || decide (entry.1 + entry.2.dataSize ≤ size) &&
    decide (entry.2.dataSize ≤ (pageBytes file data entry.2).length)

def hasData (entry : Nat × ObjectPageMapEntry) : Bool := decide (entry.2.dataSize ≠ 0)

/-- The pages that are read: those with data up to the first that cannot be, and
of that one what the file has, where memory has room for it. -/
def readPages (size : Nat) (pages : List (Nat × ObjectPageMapEntry)) :
    List (Nat × ObjectPageMapEntry) :=
  (pages.takeWhile (passes file data size)).filter hasData ++
    ((pages.dropWhile (passes file data size)).take 1).filter fun entry =>
      decide (entry.1 + entry.2.dataSize ≤ size)

def pageWrites (pages : List (Nat × ObjectPageMapEntry)) : List (Nat × List UInt8) :=
  pages.map fun entry => (entry.1, pageBytes file data entry.2)

theorem loadPages_empty {entry : Nat × ObjectPageMapEntry} (rest : List (Nat × ObjectPageMapEntry))
    (mem : GuestMemory) (empty : entry.2.dataSize = 0) :
    loadPages file data (entry :: rest) mem = loadPages file data rest mem := by
  rw [loadPages, if_pos empty]

theorem loadPages_passes {entry : Nat × ObjectPageMapEntry}
    (rest : List (Nat × ObjectPageMapEntry)) {mem : GuestMemory} (nonempty : entry.2.dataSize ≠ 0)
    (pass : passes file data mem.size entry = true) :
    (pageBytes file data entry.2).length = entry.2.dataSize ∧
      mem.inBounds entry.1 entry.2.dataSize = true ∧
      loadPages file data (entry :: rest) mem =
        loadPages file data rest (mem.putBytes entry.1 (pageBytes file data entry.2)) := by
  simp only [passes, nonempty, decide_false, Bool.false_or, Bool.and_eq_true,
    decide_eq_true_eq] at pass
  obtain ⟨hroom, hlong⟩ := pass
  have hbounds : mem.inBounds entry.1 entry.2.dataSize = true := decide_eq_true hroom
  have hshort : (pageBytes file data entry.2).length ≤ entry.2.dataSize :=
    List.length_take_le _ _
  refine ⟨Nat.le_antisymm hshort hlong, hbounds, ?_⟩
  rw [loadPages, if_neg nonempty, if_neg (not_not.mpr hbounds)]
  exact if_neg (Nat.not_lt.mpr hlong)

theorem loadPages_fails {entry : Nat × ObjectPageMapEntry}
    (rest : List (Nat × ObjectPageMapEntry)) {mem : GuestMemory}
    (fails : passes file data mem.size entry = false) :
    ∃ error, loadPages file data (entry :: rest) mem = (.error error, { mem with
      bytes := mem.bytes.storeAll (pageWrites file data ([entry].filter fun entry =>
        decide (entry.1 + entry.2.dataSize ≤ mem.size))) }) := by
  simp only [passes, Bool.or_eq_false_iff, decide_eq_false_iff_not, Bool.and_eq_false_iff] at fails
  obtain ⟨hnonempty, hfails⟩ := fails
  rw [loadPages, if_neg hnonempty]
  by_cases hroom : entry.1 + entry.2.dataSize ≤ mem.size
  · have hbounds : mem.inBounds entry.1 entry.2.dataSize = true := decide_eq_true hroom
    have hshort := Nat.not_le.mp (hfails.resolve_left (not_not.mpr hroom))
    have hpart : mem.inBounds entry.1 (pageBytes file data entry.2).length = true :=
      decide_eq_true (by omega)
    rw [if_neg (not_not.mpr hbounds), List.filter_cons_of_pos (by simpa using hroom)]
    exact ⟨.pageRead, (if_pos hshort).trans
      (congrArg (Prod.mk _) (GuestMemory.putBytes_of_inBounds _ hpart))⟩
  · have hbounds : ¬ mem.inBounds entry.1 entry.2.dataSize = true := by
      simpa [GuestMemory.inBounds] using hroom
    rw [if_pos hbounds, List.filter_cons_of_neg (by simpa using hroom)]
    exact ⟨_, rfl⟩

/-- The pages are one list of writes, and all of them are made where each passes. -/
theorem loadPages_eq (pages : List (Nat × ObjectPageMapEntry)) (mem : GuestMemory) :
    (loadPages file data pages mem).2 = { mem with
        bytes := mem.bytes.storeAll (pageWrites file data (readPages file data mem.size pages)) } ∧
      ((loadPages file data pages mem).1 = .ok () ↔
        ∀ entry ∈ pages, passes file data mem.size entry = true) := by
  induction pages generalizing mem with
  | nil => exact ⟨rfl, by simp [loadPages]⟩
  | cons entry rest ih =>
    rw [List.forall_mem_cons]
    cases hpass : passes file data mem.size entry with
    | false =>
      obtain ⟨error, hload⟩ := loadPages_fails file data rest hpass
      rw [hload, readPages, List.takeWhile_cons_of_neg (by simp [hpass]),
        List.dropWhile_cons_of_neg (by simp [hpass])]
      exact ⟨rfl, by simp⟩
    | true =>
      by_cases hempty : entry.2.dataSize = 0
      · rw [loadPages_empty file data rest mem hempty, readPages,
          List.takeWhile_cons_of_pos hpass, List.dropWhile_cons_of_pos hpass,
          List.filter_cons_of_neg (by simp [hasData, hempty])]
        obtain ⟨hmem, hok⟩ := ih mem
        exact ⟨hmem, hok.trans (and_iff_right rfl).symm⟩
      · obtain ⟨hlength, hbounds, hload⟩ := loadPages_passes file data rest hempty hpass
        obtain ⟨hmem, hok⟩ := ih (mem.putBytes entry.1 (pageBytes file data entry.2))
        rw [GuestMemory.putBytes_size] at hmem hok
        rw [hload, readPages, List.takeWhile_cons_of_pos hpass, List.dropWhile_cons_of_pos hpass,
          List.filter_cons_of_pos (by simp [hasData, hempty])]
        refine ⟨?_, hok.trans (and_iff_right rfl).symm⟩
        rw [hmem, GuestMemory.putBytes_of_inBounds _ (by rw [hlength]; exact hbounds)]
        rfl

end Pages

/-- The blocks that a load has allocated: `next` has all those of `memMgr` and these. -/
def newBlocks (memMgr next : MemoryManager) : List AllocBlock :=
  next.allocated.drop memMgr.allocated.length

def AllocBlock.Holds (block : AllocBlock) (addr : Nat) : Prop :=
  block.addr ≤ addr ∧ addr < block.addr + block.size

section Fill

variable (file : LxFile) (data : List UInt8) (objectBases : List Nat)

/-- The page data is written inside these blocks only: whatever memory holds, every
byte elsewhere is left as it is. -/
def Confined (blocks : List AllocBlock) (size : Nat) : Prop :=
  ∀ (bytes : ByteStore) (addr : Nat), (∀ block ∈ blocks, ¬ block.Holds addr) →
    (loadPages file data (objectsPages file objectBases) ⟨size, bytes⟩).2.bytes addr = bytes addr

/-- Every byte of the objects' sizes that no page has data for is zero. -/
def Cleared (mem : GuestMemory) : Prop :=
  ∀ entry ∈ file.objectTable.zip objectBases, ∀ i < entry.1.size,
    (∀ page ∈ objectsPages file objectBases,
      ¬ (page.1 ≤ entry.2 + i ∧ entry.2 + i < page.1 + page.2.dataSize)) →
    mem.bytes (entry.2 + i) = 0

/-- Every byte that is read for a page belongs to one of the blocks. -/
def PagesInside (blocks : List AllocBlock) (size : Nat) : Prop :=
  ∀ page ∈ readPages file data size (objectsPages file objectBases),
    ∀ i < (pageBytes file data page.2).length, ∃ block ∈ blocks, block.Holds (page.1 + i)

variable {file data objectBases}

theorem confined_iff (blocks : List AllocBlock) (size : Nat) :
    Confined file data objectBases blocks size ↔
      PagesInside file data objectBases blocks size := by
  have hload (bytes : ByteStore) : (loadPages file data (objectsPages file objectBases)
      ⟨size, bytes⟩).2.bytes = bytes.storeAll (pageWrites file data
        (readPages file data size (objectsPages file objectBases))) := by
    rw [(loadPages_eq file data _ _).1]
  constructor
  · intro confined page hpage i hi
    by_contra hnone
    have houtside : ∀ block ∈ blocks, ¬ block.Holds (page.1 + i) :=
      fun block hblock hholds => hnone ⟨block, hblock, hholds⟩
    have hcovered : ∃ write ∈ pageWrites file data
        (readPages file data size (objectsPages file objectBases)), Covers write (page.1 + i) :=
      ⟨_, List.mem_map_of_mem hpage, Nat.le_add_right _ _, Nat.add_lt_add_left hi _⟩
    obtain ⟨byte, hbyte⟩ := storeAll_covered hcovered
    -- the byte written cannot be the one that was there in both of these memories
    have hzero := confined (fun _ => 0) (page.1 + i) houtside
    have hone := confined (fun _ => 1) (page.1 + i) houtside
    rw [hload, hbyte] at hzero hone
    rw [hzero] at hone
    exact absurd hone (by decide)
  · intro inside bytes addr houtside
    rw [hload]
    apply storeAll_outside
    intro write hwrite ⟨hlow, hhigh⟩
    obtain ⟨page, hpage, rfl⟩ := List.mem_map.mp hwrite
    dsimp only at hlow hhigh
    obtain ⟨block, hblock, hholds⟩ := inside page hpage (addr - page.1) (by omega)
    rw [Nat.add_sub_cancel' hlow] at hholds
    exact houtside block hblock hholds

/-- A load that gets through its pages leaves the uncovered bytes as they were. -/
theorem cleared_iff {mem : GuestMemory}
    (loaded : (loadPages file data (objectsPages file objectBases) mem).1 = .ok ()) :
    Cleared file objectBases (loadPages file data (objectsPages file objectBases) mem).2 ↔
      Cleared file objectBases mem := by
  obtain ⟨hmem, hok⟩ := loadPages_eq file data (objectsPages file objectBases) mem
  have hpass := hok.mp loaded
  have hall : readPages file data mem.size (objectsPages file objectBases) =
      (objectsPages file objectBases).filter hasData := by
    unfold readPages
    rw [List.takeWhile_eq_self_iff.mpr hpass, List.dropWhile_eq_nil_iff.mpr hpass]
    simp
  have hsame : ∀ addr, (∀ page ∈ objectsPages file objectBases,
      ¬ (page.1 ≤ addr ∧ addr < page.1 + page.2.dataSize)) →
      (loadPages file data (objectsPages file objectBases) mem).2.bytes addr = mem.bytes addr := by
    intro addr huncovered
    rw [hmem, hall]
    apply storeAll_outside
    intro write hwrite ⟨hlow, hhigh⟩
    obtain ⟨page, hpage, rfl⟩ := List.mem_map.mp hwrite
    have hlength : (pageBytes file data page.2).length ≤ page.2.dataSize := List.length_take_le _ _
    dsimp only at hlow hhigh
    exact huncovered page (List.mem_filter.mp hpage).1 ⟨hlow, by omega⟩
  unfold Cleared
  constructor
  · intro cleared entry hentry i hi huncovered
    rw [← hsame _ huncovered]
    exact cleared entry hentry i hi huncovered
  · intro cleared entry hentry i hi huncovered
    rw [hsame _ huncovered]
    exact cleared entry hentry i hi huncovered

end Fill

/-- A load that allocates its objects writes page data into their blocks only, and
has zeros where its pages have no data. -/
def FillsBlocks (host : Host) (dllPath : String) (s : DllState) : Prop :=
  ∀ data file bases next, host.files dllPath = some data → LxFile.parse data = .ok file →
    allocObjects s.memMgr file.objectTable = (some bases, next) →
      Confined file data bases (newBlocks s.memMgr next) s.mem.size ∧
        ((loadPages file data (objectsPages file bases) s.mem).1 = .ok () →
          Cleared file bases (loadPages file data (objectsPages file bases) s.mem).2)

/-- All page data belongs into the blocks, and they hold zeros where there is none. -/
def FitsBlocks (host : Host) (dllPath : String) (s : DllState) : Prop :=
  ∀ data file bases next, host.files dllPath = some data → LxFile.parse data = .ok file →
    allocObjects s.memMgr file.objectTable = (some bases, next) →
      PagesInside file data bases (newBlocks s.memMgr next) s.mem.size ∧
        ((loadPages file data (objectsPages file bases) s.mem).1 = .ok () →
          Cleared file bases s.mem)

theorem fills_blocks_iff (host : Host) (dllPath : String) (s : DllState) :
    FillsBlocks host dllPath s ↔ FitsBlocks host dllPath s := by
  unfold FillsBlocks FitsBlocks
  apply forall_congr'
  intro data
  apply forall_congr'
  intro file
  apply forall_congr'
  intro bases
  apply forall_congr'
  intro next
  rw [confined_iff]
  apply imp_congr_right
  intro _
  apply imp_congr_right
  intro _
  apply imp_congr_right
  intro _
  apply and_congr_right
  intro _
  constructor
  · intro h loaded
    exact (cleared_iff loaded).mp (h loaded)
  · intro h loaded
    exact (cleared_iff loaded).mpr (h loaded)

open DllState

/-- Memory that a program has written to before. -/
def usedState : DllState := new 0x1000 0x4000 ⟨0x4000, fun _ => 1⟩

/-- The library "B" has one page of zeros, which are not in its file. -/
theorem used_memory_not_cleared :
    ¬ ∀ (host : Host) (dllPath : String) (s : DllState), FillsBlocks host dllPath s := by
  intro claim
  have hfile : (match LxFile.parse (sampleDll [] 0 []) with
      | .ok file => decide (file.objectTable = [⟨0x1000, 0x10000, 0, 1, 1, 0⟩] ∧
          file.pageMap = [⟨0, 0, 0⟩])
      | .error _ => false) = true := by decide +kernel
  cases hparse : LxFile.parse (sampleDll [] 0 []) with
  | error e =>
    rw [hparse] at hfile
    cases hfile
  | ok file =>
    rw [hparse] at hfile
    obtain ⟨htable, hpages⟩ := of_decide_eq_true hfile
    have hplaced : allocObjects usedState.memMgr file.objectTable =
        (some [0x1000], ⟨[⟨0x1000, 0x1000⟩], [], 0x2000, 0x4000⟩) := by
      rw [htable]
      decide
    have hmapped : objectsPages file [0x1000] = [(0x1000, ⟨0, 0, 0⟩)] := by
      unfold objectsPages mappedPages
      rw [htable, hpages]
      decide
    obtain ⟨_, hcleared⟩ := claim sampleHost "dlls/b.dll" usedState _ file _ _
      (show sampleHost.files "dlls/b.dll" = some (sampleDll [] 0 []) by decide +kernel)
      hparse hplaced
    have hload : loadPages file (sampleDll [] 0 []) (objectsPages file [0x1000]) usedState.mem =
        (.ok (), usedState.mem) := by
      rw [hmapped, loadPages_empty _ _ _ _ rfl]
      rfl
    rw [hload] at hcleared
    have hbyte := hcleared rfl (⟨0x1000, 0x10000, 0, 1, 1, 0⟩, 0x1000) (by rw [htable]; decide)
      0 (by decide) (by rw [hmapped]; decide)
    exact absurd hbyte (by decide)

end Warpine.Loader
