import Warpine.Lib.Attempts
import Warpine.Lib.Panics
import Warpine.Loader.Dll
import Warpine.Lx.Sized

/-! Loading the main executable: its pages go to the addresses it asks for, its resources
are registered, its fixups applied. -/
namespace Warpine.Loader
open Warpine.Lib Warpine.Guest Warpine.Lx Attempt Fixups

/-- How an operation on a file fails. -/
inductive IoError where
  | invalidInput
  | unexpectedEof
deriving DecidableEq, Repr

/-- The part of the shared state that loading and starting a program touch. Of the console
only its size is here. -/
structure SharedState where
  guestMem : GuestMemory
  memMgr : MemoryManager
  dllMgr : DllManager
  resources : Table (Nat × Nat) (Nat × Nat)
  exeName : List Char
  rows : UInt16
  cols : UInt16

/-- Where a page stands in the file. -/
def pageOff (file : LxFile) (page : ObjectPageMapEntry) : Option Nat := do
  let shifted ← shlWord 64 page.dataOffset file.header.pageOffsetShift
  addWord 64 file.header.dataPagesOffset shifted

/-- One turn of the loop over the pages. The file system seeks to no offset past its limit. -/
def loadPage (seekLimit : Nat) (data : List UInt8) (file : LxFile) (mem : GuestMemory)
    (entry : Nat × ObjectPageMapEntry) : Attempt IoError GuestMemory := do
  let off ← ofOption (pageOff file entry.2)
  if entry.2.dataSize = 0 then return mem
  else if seekLimit < off then throw .invalidInput
  else do
    let slice ← ofOption (mem.slice entry.1 entry.2.dataSize)
    if data.length < off + slice.length then throw .unexpectedEof
    else return mem.putBytes entry.1 ((data.drop off).take slice.length)

/-- The pages with their places in guest memory, in the order of the loop. -/
def exePages (file : LxFile) : List (Nat × ObjectPageMapEntry) :=
  file.objectTable.flatMap fun obj => mappedPages file obj.baseAddress obj

/-- A resource of an object that is not there is left out. -/
def addResource (file : LxFile) (resources : Table (Nat × Nat) (Nat × Nat))
    (res : LxResourceEntry) : Option (Table (Nat × Nat) (Nat × Nat)) :=
  match nth file.objectTable res.objectNum with
  | none => some resources
  | some obj => do
      let guestAddr ← addWord 32 obj.baseAddress res.offset
      return resources.insert (res.typeId, res.nameId) (guestAddr, res.size)

def preferredBases (file : LxFile) : List Nat := file.objectTable.map ObjectTableEntry.baseAddress

def load (seekLimit : Nat) (data : List UInt8) (file : LxFile) (s : SharedState) :
    Attempt IoError SharedState := do
  let mem ← (exePages file).foldlM (loadPage seekLimit data file) s.guestMem
  let resources ← ofOption (file.resources.foldlM (addResource file) s.resources)
  let mem ← ofOption (applyFixups s.dllMgr file (preferredBases file) mem)
  return { s with guestMem := mem, resources := resources }

section Pages

variable (seekLimit : Nat) (data : List UInt8) (file : LxFile)

def pageStart (page : ObjectPageMapEntry) : Nat :=
  file.header.dataPagesOffset + page.dataOffset <<< file.header.pageOffsetShift

/-- The loader gets past the page: it takes nothing from the file, or bytes that are there
to a place in guest memory. -/
def PageRead (entry : Nat × ObjectPageMapEntry) : Prop :=
  entry.2.dataSize = 0 ∨
    pageStart file entry.2 ≤ seekLimit ∧ entry.1 + entry.2.dataSize ≤ guestMemSize ∧
      pageStart file entry.2 + entry.2.dataSize ≤ data.length

/-- The page is not looked for, or its place in guest memory is there. -/
def PageSafe (entry : Nat × ObjectPageMapEntry) : Prop :=
  entry.2.dataSize = 0 ∨ seekLimit < pageStart file entry.2 ∨
    entry.1 + entry.2.dataSize ≤ guestMemSize

instance (entry : Nat × ObjectPageMapEntry) : Decidable (PageRead seekLimit data file entry) := by
  unfold PageRead
  infer_instance

instance (entry : Nat × ObjectPageMapEntry) : Decidable (PageSafe seekLimit file entry) := by
  unfold PageSafe
  infer_instance

variable {seekLimit data file}

/-- No page of a file that the parser accepts has its place past a 64-bit word. -/
theorem pageOff_eq (sized : file.Sized) {page : ObjectPageMapEntry} (mapped : page ∈ file.pageMap) :
    pageOff file page = some (pageStart file page) := by
  have offset : page.dataOffset < 2 ^ 32 := sized.pages page mapped (4, _) (by
    simp [ObjectPageMapEntry.fields])
  have base : file.header.dataPagesOffset < 2 ^ 32 := sized.header (4, _) (by
    simp [LxHeader.fields])
  have shift := sized.checked.shift
  have far : page.dataOffset <<< file.header.pageOffsetShift < 2 ^ 63 := by
    rw [Nat.shiftLeft_eq]
    calc page.dataOffset * 2 ^ file.header.pageOffsetShift
        ≤ page.dataOffset * 2 ^ 31 :=
          Nat.mul_le_mul_left _ (Nat.pow_le_pow_right (by decide) (by omega))
      _ < 2 ^ 63 := by omega
  unfold pageOff pageStart shlWord addWord
  rw [if_pos (by omega)]
  simp only [Option.bind_eq_bind, Option.bind_some]
  rw [Nat.mod_eq_of_lt (by omega), if_pos (by omega)]

theorem exePages_mapped {entry : Nat × ObjectPageMapEntry} (member : entry ∈ exePages file) :
    entry.2 ∈ file.pageMap := by
  simp only [exePages, mappedPages, List.mem_flatMap, List.mem_filterMap,
    Option.map_eq_some_iff] at member
  obtain ⟨_, _, _, _, page, found, rfl⟩ := member
  exact List.mem_of_getElem? found

variable {mem next : GuestMemory} {entry : Nat × ObjectPageMapEntry}

theorem slice_length {offset len : Nat} {bytes : List UInt8}
    (h : mem.slice offset len = some bytes) : bytes.length = len := by
  unfold GuestMemory.slice at h
  split at h
  · cases h
    exact ByteStore.load_length ..
  · cases h

theorem loadPage_size (loaded : (loadPage seekLimit data file mem entry).Returns next) :
    next.size = mem.size := by
  unfold loadPage at loaded
  obtain ⟨off, _, loaded⟩ := returns_bind.mp loaded
  split at loaded
  · rw [← returns_pure.mp loaded]
  split at loaded
  · exact (not_returns_throw loaded).elim
  obtain ⟨slice, _, loaded⟩ := returns_bind.mp loaded
  split at loaded
  · exact (not_returns_throw loaded).elim
  · rw [← returns_pure.mp loaded, GuestMemory.putBytes_size]

theorem slice_isSome {offset len : Nat} :
    (∃ bytes, mem.slice offset len = some bytes) ↔ offset + len ≤ mem.size := by
  unfold GuestMemory.slice GuestMemory.inBounds
  simp

theorem loadPage_returns (sized : file.Sized) (mapped : entry.2 ∈ file.pageMap)
    (size : mem.size = guestMemSize) :
    (∃ next, (loadPage seekLimit data file mem entry).Returns next) ↔
      PageRead seekLimit data file entry := by
  unfold loadPage PageRead
  simp only [returns_bind, returns_ofOption, pageOff_eq sized mapped, Option.some.injEq,
    exists_eq_left']
  by_cases empty : entry.2.dataSize = 0
  · simp [empty, returns_pure]
  · by_cases far : seekLimit < pageStart file entry.2
    · simp [empty, far, not_returns_throw, Nat.not_le_of_lt far]
    · simp only [empty, far, if_false, false_or, returns_bind, returns_ofOption,
        Nat.not_lt.mp far, true_and]
      rw [← size, ← slice_isSome]
      constructor
      · rintro ⟨next, bytes, slice, rest⟩
        refine ⟨⟨bytes, slice⟩, ?_⟩
        split at rest
        · exact (not_returns_throw rest).elim
        · rename_i enough
          rw [slice_length slice] at enough
          omega
      · rintro ⟨⟨bytes, slice⟩, enough⟩
        refine ⟨mem.putBytes entry.1 ((data.drop (pageStart file entry.2)).take bytes.length),
          bytes, slice, ?_⟩
        rw [if_neg (by rw [slice_length slice]; omega), returns_pure]

theorem loadPage_not_panics (sized : file.Sized) (mapped : entry.2 ∈ file.pageMap)
    (size : mem.size = guestMemSize) :
    ¬(loadPage seekLimit data file mem entry).Panics ↔ PageSafe seekLimit file entry := by
  unfold loadPage PageSafe
  simp only [panics_bind, panics_ofOption, returns_ofOption, pageOff_eq sized mapped,
    Option.some.injEq, exists_eq_left', reduceCtorEq, false_or]
  by_cases empty : entry.2.dataSize = 0
  · simp [empty, not_panics_pure]
  · by_cases far : seekLimit < pageStart file entry.2
    · simp [empty, far, not_panics_throw]
    · simp only [empty, far, if_false, false_or, panics_bind, panics_ofOption, returns_ofOption,
        not_or]
      rw [← size, ← slice_isSome, ← Option.ne_none_iff_exists', ne_eq]
      refine ⟨And.left, fun there => ⟨there, ?_⟩⟩
      rintro ⟨bytes, _, panics⟩
      split at panics
      · exact not_panics_throw panics
      · exact not_panics_pure panics

end Pages

section Load

variable {seekLimit : Nat} {data : List UInt8} {file : LxFile} {s : SharedState}

theorem addResource_isSome (resources : Table (Nat × Nat) (Nat × Nat)) (res : LxResourceEntry) :
    addResource file resources res ≠ none ↔
      ∀ obj, nth file.objectTable res.objectNum = some obj →
        obj.baseAddress + res.offset < u32Size := by
  unfold addResource addWord
  cases nth file.objectTable res.objectNum with
  | none => simp
  | some obj =>
    simp only [Option.some.injEq, forall_eq', u32Size]
    split <;> simp_all

theorem addResources_isSome (resources : List LxResourceEntry)
    (table : Table (Nat × Nat) (Nat × Nat)) :
    resources.foldlM (addResource file) table ≠ none ↔
      ∀ res ∈ resources, ∀ obj, nth file.objectTable res.objectNum = some obj →
        obj.baseAddress + res.offset < u32Size := by
  induction resources generalizing table with
  | nil => simp
  | cons res rest ih =>
    rw [List.foldlM_cons, List.forall_mem_cons, ← addResource_isSome table]
    cases addResource file table res with
    | none => simp
    | some next => simp [ih]

/-- The fixups go where guest memory is, whatever it holds. -/
theorem applyFixups_isSome (dllMgr : DllManager) {mem : GuestMemory} :
    applyFixups dllMgr file (preferredBases file) mem ≠ none ↔
      ∀ write ∈ fixupWrites dllMgr file (preferredBases file),
        write.1 + write.2.length ≤ mem.size := by
  rw [applyFixups_eq mem (by simp [preferredBases]), ne_eq, ← Option.not_isSome_iff_eq_none,
    not_not, Option.isSome_iff_exists]
  simp only [GuestMemory.writeAll_eq_some, GuestMemory.inBounds, decide_eq_true_eq]
  constructor
  · rintro ⟨_, fit, _⟩
    exact fit
  · intro fit
    exact ⟨_, fit, rfl⟩

/-- Every page before one that is not read is read, and its own place is there. -/
def PagesSafe (seekLimit : Nat) (data : List UInt8) (file : LxFile) : Prop :=
  ∀ before entry, before ++ [entry] <+: exePages file →
    (∀ other ∈ before, PageRead seekLimit data file other) → PageSafe seekLimit file entry

theorem pagesSafe_of_all (all : ∀ entry ∈ exePages file, PageSafe seekLimit file entry) :
    PagesSafe seekLimit data file := by
  intro before entry found _
  exact all entry (found.subset (by simp))

def ResourcesFit (file : LxFile) : Prop :=
  ∀ res ∈ file.resources, ∀ obj, nth file.objectTable res.objectNum = some obj →
    obj.baseAddress + res.offset < u32Size

def FixupsFit (dllMgr : DllManager) (file : LxFile) : Prop :=
  ∀ write ∈ fixupWrites dllMgr file (preferredBases file), write.1 + write.2.length ≤ guestMemSize

instance (dllMgr : DllManager) (file : LxFile) : Decidable (FixupsFit dllMgr file) :=
  inferInstanceAs (Decidable (∀ write ∈ _, _))

theorem pages_return (sized : file.Sized) (size : s.guestMem.size = guestMemSize) :
    (∃ mem, ((exePages file).foldlM (loadPage seekLimit data file) s.guestMem).Returns mem) ↔
      ∀ entry ∈ exePages file, PageRead seekLimit data file entry :=
  returns_foldlM (fun _ _ _ same loaded => (loadPage_size loaded).trans same)
    (fun _ member _ same => loadPage_returns sized (exePages_mapped member) same) size

theorem pages_size {mem : GuestMemory} (size : s.guestMem.size = guestMemSize)
    (loop : ((exePages file).foldlM (loadPage seekLimit data file) s.guestMem).Returns mem) :
    mem.size = guestMemSize :=
  foldlM_keeps (fun _ _ _ same loaded => (loadPage_size loaded).trans same) size loop

/-- A load that returns has changed guest memory and the resources, and nothing else. -/
theorem load_returns {next : SharedState} (size : s.guestMem.size = guestMemSize)
    (loaded : (load seekLimit data file s).Returns next) :
    ∃ mem resources, next = { s with guestMem := mem, resources := resources } ∧
      mem.size = guestMemSize := by
  unfold load at loaded
  simp only [returns_bind, returns_ofOption, returns_pure] at loaded
  obtain ⟨mem, pages, resources, _, final, fixups, rfl⟩ := loaded
  refine ⟨final, resources, rfl, ?_⟩
  rw [applyFixups_eq mem (by simp [preferredBases])] at fixups
  obtain ⟨-, rfl⟩ := mem.writeAll_eq_some.mp fixups
  change mem.size = guestMemSize
  exact pages_size size pages

theorem load_returns_iff (sized : file.Sized) (size : s.guestMem.size = guestMemSize) :
    (∃ next, (load seekLimit data file s).Returns next) ↔
      (∀ entry ∈ exePages file, PageRead seekLimit data file entry) ∧ ResourcesFit file ∧
        FixupsFit s.dllMgr file := by
  unfold load
  simp only [returns_bind, returns_ofOption, returns_pure]
  rw [← pages_return sized size]
  constructor
  · rintro ⟨_, mem, pages, resources, added, final, fixups, rfl⟩
    refine ⟨⟨mem, pages⟩, (addResources_isSome _ _).mp (by rw [added]; simp), ?_⟩
    have fit := (@applyFixups_isSome file s.dllMgr mem).mp (by rw [fixups]; simp)
    rwa [pages_size size pages] at fit
  · rintro ⟨⟨mem, pages⟩, added, fit⟩
    rw [FixupsFit, ← pages_size size pages] at fit
    obtain ⟨resources, added⟩ :=
      Option.ne_none_iff_exists'.mp ((addResources_isSome _ s.resources).mpr added)
    obtain ⟨final, fixups⟩ := Option.ne_none_iff_exists'.mp ((applyFixups_isSome s.dllMgr).mpr fit)
    exact ⟨_, mem, pages, resources, added, final, fixups, rfl⟩

theorem load_not_panics_iff (sized : file.Sized) (size : s.guestMem.size = guestMemSize) :
    ¬(load seekLimit data file s).Panics ↔ PagesSafe seekLimit data file ∧
      ((∀ entry ∈ exePages file, PageRead seekLimit data file entry) →
        ResourcesFit file ∧ FixupsFit s.dllMgr file) := by
  have pages : ¬((exePages file).foldlM (loadPage seekLimit data file) s.guestMem).Panics ↔
      PagesSafe seekLimit data file :=
    not_panics_foldlM (fun _ _ _ same loaded => (loadPage_size loaded).trans same)
      (fun _ member _ same => loadPage_returns sized (exePages_mapped member) same)
      (fun _ member _ same => loadPage_not_panics sized (exePages_mapped member) same) size
  unfold load
  simp only [panics_bind, panics_ofOption, returns_ofOption, not_panics_pure, and_false,
    exists_false, or_false]
  rw [not_or, pages, ← pages_return sized size]
  refine and_congr_right fun _ => ?_
  constructor
  · rintro calm ⟨mem, loop⟩
    have added := fun none => calm ⟨mem, loop, Or.inl none⟩
    obtain ⟨resources, found⟩ := Option.ne_none_iff_exists'.mp added
    have fixed := fun none => calm ⟨mem, loop, Or.inr ⟨resources, found, none⟩⟩
    have fit := (applyFixups_isSome s.dllMgr).mp fixed
    rw [pages_size size loop] at fit
    exact ⟨(addResources_isSome _ _).mp added, fit⟩
  · rintro all ⟨mem, loop, panics⟩
    obtain ⟨added, fit⟩ := all ⟨mem, loop⟩
    rw [FixupsFit, ← pages_size size loop] at fit
    rcases panics with panics | ⟨_, _, panics⟩
    · exact (addResources_isSome _ _).mpr added panics
    · exact (applyFixups_isSome s.dllMgr).mpr fit panics

end Load

end Warpine.Loader
