import Warpine.Loader.DllLinks

/-! What a DLL load that fails leaves behind. -/
namespace Warpine.Loader
open Warpine.Lib Warpine.Guest Warpine.Lx

theorem MemoryManager.alloc_length {mgr next : MemoryManager} {size addr : Nat}
    (h : mgr.alloc size = some (addr, next)) :
    next.allocated.length = mgr.allocated.length + 1 := by
  have haddresses := congrArg List.length (MemoryManager.alloc_addresses h)
  rw [List.length_append, List.length_singleton] at haddresses
  unfold MemoryManager.addresses at haddresses
  rwa [List.length_map, List.length_map] at haddresses

/-- Objects are only ever added to what is allocated. -/
theorem allocObjects_length (placed : Bases) (objects : List ObjectTableEntry) :
    placed.2.allocated.length ≤ (objects.foldl allocObject placed).2.allocated.length := by
  induction objects generalizing placed with
  | nil => exact Nat.le_refl _
  | cons obj rest ih =>
    rw [List.foldl_cons]
    apply Nat.le_trans _ (ih (allocObject placed obj))
    unfold allocObject
    split
    · exact Nat.le_refl _
    · split
      · exact Nat.le_refl _
      · rename_i halloc
        rw [MemoryManager.alloc_length halloc]
        exact Nat.le_succ _

/-- The space is already used up for the first object. -/
theorem allocObjects_first_none {memMgr : MemoryManager} {obj : ObjectTableEntry}
    {rest : List ObjectTableEntry} (h : memMgr.alloc (max obj.size 4096) = none) :
    allocObjects memMgr (obj :: rest) = (none, memMgr) := by
  unfold allocObjects
  rw [List.foldl_cons, allocObject_full h, foldl_allocObject_none]

/-- Allocations are as before only where not even the first object was allocated. -/
theorem allocObjects_unchanged {memMgr : MemoryManager} {objects : List ObjectTableEntry}
    (h : (allocObjects memMgr objects).2.allocated = memMgr.allocated) :
    ∀ obj ∈ objects.head?, memMgr.alloc (max obj.size 4096) = none := by
  intro obj hobj
  cases objects with
  | nil => cases hobj
  | cons first rest =>
    cases hobj
    cases halloc : memMgr.alloc (max obj.size 4096) with
    | none => rfl
    | some found =>
      have hgrown := allocObjects_length (allocObject (some [], memMgr) obj) rest
      rw [allocObject_placed halloc, MemoryManager.alloc_length halloc] at hgrown
      have hsame := congrArg List.length h
      unfold allocObjects at hsame
      rw [List.foldl_cons, allocObject_placed halloc] at hsame
      omega

namespace DllState

/-- The load fails before it allocates anything: the file cannot be opened or
parsed, or there is no space for its first object. -/
def FailsEarly (host : Host) (dllPath : String) (s : DllState) : Prop :=
  ∀ data file, host.files dllPath = some data → LxFile.parse data = .ok file →
    ∀ obj ∈ file.objectTable.head?, s.memMgr.alloc (max obj.size 4096) = none

end DllState

open DllState

/-- A file whose load fails fails before its dependencies, so no module is touched,
and whatever was allocated stays allocated. -/
theorem loadFile_error {host : Host} {load : LoadDll} {name : String} {data : List UInt8}
    {file : LxFile} {s next : DllState} {error : LoadError}
    (h : FileLoad host load name data file s (.error error) next) :
    next.memMgr = (allocObjects s.memMgr file.objectTable).2 ∧ next.dllMgr = s.dllMgr := by
  cases h with
  | outOfMemory placed =>
    rw [placed]
    exact ⟨rfl, rfl⟩
  | badPage placed _ =>
    rw [placed]
    exact ⟨rfl, rfl⟩

/-- A load that fails leaves all allocations, registered modules and reference
counts alone exactly when it fails before it allocates anything. -/
theorem failed_load_unchanged_iff {host : Host} {depth : Nat} {dllName dllPath : String}
    {s next : DllState} {error : LoadError}
    (failed : loadDll host depth dllName dllPath s = some (.error error, next)) :
    next.memMgr.allocated = s.memMgr.allocated ∧ next.dllMgr = s.dllMgr ↔
      FailsEarly host dllPath s := by
  obtain ⟨inner, ends⟩ := loadDllImpl_ends failed
  cases ends with
  | unreadable absent image =>
    refine iff_of_true ⟨rfl, rfl⟩ ?_
    intro data file hdata hparse
    cases image.symm.trans (imageAt_eq_some_iff.mpr ⟨_, hdata, hparse⟩)
  | @read _ file _ _ absent image rest =>
    obtain ⟨hmemMgr, hdllMgr⟩ := loadFile_error rest
    rw [hmemMgr, hdllMgr]
    constructor
    · intro ⟨hsame, _⟩ other found hother hfound
      cases image.symm.trans (imageAt_eq_some_iff.mpr ⟨_, hother, hfound⟩)
      exact allocObjects_unchanged hsame
    · intro early
      obtain ⟨data, hdata, hparse⟩ := imageAt_eq_some_iff.mp image
      have hfirst := early data file hdata hparse
      refine ⟨?_, rfl⟩
      cases htable : file.objectTable with
      | nil => rfl
      | cons obj rest =>
        rw [htable] at hfirst
        rw [allocObjects_first_none (hfirst obj rfl)]

/-- A library of one object, whose page lies behind the end of the file. -/
def truncatedDll : List UInt8 :=
  LxFile.mzSignature ++ List.replicate 58 0 ++ leBytes 4 64 ++ (sampleHeader [] 0).bytes ++
    (ObjectTableEntry.mk 0x1000 0x10000 0 1 1 0).bytes ++
    (ObjectPageMapEntry.mk 0x10000 16 0).bytes ++ leBytes 4 0 ++ leBytes 4 0 ++
    [1, 3, 1, 0, 3, 0, 0, 0, 0, 0]

def truncatedHost : Host where
  files := fun path => if path = "dlls/c.dll" then some truncatedDll else none
  pathExists := fun path => path == "dlls/c.dll"
  exeDir := "dlls"
  driveC := none

/-- Whether a load fails, and leaves the allocations as they were. -/
def failsWith (unchanged : Bool) (s : DllState) (result : Except LoadError Nat × DllState) : Bool :=
  match result.1 with
  | .error _ => decide (result.2.memMgr.allocated = s.memMgr.allocated) == unchanged
  | .ok _ => false

theorem failsWith_eq {unchanged : Bool} {s : DllState}
    {loaded : Option (Except LoadError Nat × DllState)}
    (h : loaded.any (failsWith unchanged s) = true) :
    ∃ error next, loaded = some (.error error, next) ∧
      decide (next.memMgr.allocated = s.memMgr.allocated) = unchanged := by
  obtain ⟨⟨result, next⟩, hloaded, hfails⟩ := (Option.any_eq_true _ _).mp h
  unfold failsWith at hfails
  cases result with
  | ok handle => cases hfails
  | error error => exact ⟨error, next, hloaded, beq_iff_eq.mp hfails⟩

/-- There is no such file. -/
theorem failed_load_unchanged_iff_missing :
    ∃ error next, loadDll truncatedHost 1 "D" "dlls/d.dll" (new 0x1000 0x4000 Fixups.sampleMemory) =
        some (.error error, next) ∧
      next.memMgr.allocated = [] ∧ next.dllMgr = .new := by
  obtain ⟨error, next, hload, _⟩ := @failsWith_eq true (new 0x1000 0x4000 Fixups.sampleMemory)
    (loadDll truncatedHost 1 "D" "dlls/d.dll" (new 0x1000 0x4000 Fixups.sampleMemory))
    (by decide)
  refine ⟨error, next, hload, (failed_load_unchanged_iff hload).mpr ?_⟩
  intro data file hdata
  cases hdata

/-- The block for the object stays allocated. -/
theorem failed_load_leaks :
    ¬ ∀ (host : Host) (depth : Nat) (dllName dllPath : String) (s next : DllState)
      (error : LoadError), loadDll host depth dllName dllPath s = some (.error error, next) →
        next.memMgr.allocated = s.memMgr.allocated ∧ next.dllMgr = s.dllMgr := by
  intro claim
  obtain ⟨error, next, hload, hchanged⟩ :=
    @failsWith_eq false (new 0x1000 0x4000 Fixups.sampleMemory)
      (loadDll truncatedHost 1 "C" "dlls/c.dll" (new 0x1000 0x4000 Fixups.sampleMemory))
      (by decide +kernel)
  exact of_decide_eq_false hchanged (claim _ _ _ _ _ _ _ hload).1

end Warpine.Loader
