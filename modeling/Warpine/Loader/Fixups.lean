import Mathlib.Data.List.TakeWhile
import Warpine.Guest.Memory
import Warpine.Lib.Lists
import Warpine.Loader.Imports
import Warpine.Lx.File

/-! The fixup pass of the LX loader. A panic of the source, from a base that is
missing or a write out of bounds, is `none`. -/
namespace Warpine.Loader
open Warpine.Lib Warpine.Guest Warpine.Lx

namespace Fixups

/-- Numbers of objects and modules in a fixup start at 1. -/
def nth {α : Type} (list : List α) (num : Nat) : Option α :=
  if num = 0 then none else list[num - 1]?

/-- 0 leaves the record out. -/
def targetAddr (dllMgr : DllManager) (file : LxFile) (objectBases : List Nat) :
    FixupTarget → Nat
  | .internal objectNum targetOffset => match nth objectBases objectNum with
      | some base => base + targetOffset
      | none => 0
  | .externalOrdinal moduleOrdinal procOrdinal =>
      resolveImport dllMgr ((nth file.importedModules moduleOrdinal).getD "") procOrdinal
  | .externalName moduleOrdinal procNameOffset =>
      resolveImportByName dllMgr ((nth file.importedModules moduleOrdinal).getD "")
        ((file.getProcName procNameOffset).getD "")
  | .internalEntry _ => 0

/-- The difference as a 32-bit word. -/
def relativeWord (target source : Nat) : Nat :=
  (((target : Int) - (source + 4)) % (u32Size : Int)).toNat

/-- The writes of one source site, in the source's order. -/
def siteWrites (sourceType target sourcePhys : Nat) : List (Nat × List UInt8) :=
  let source := sourcePhys % u32Size
  match sourceType &&& 0x0F with
  | 0x07 => [(source, leBytes 4 target)]
  | 0x08 => [(source, leBytes 4 (relativeWord target sourcePhys))]
  | 0x02 | 0x03 =>
      let selector := (tiledSelStartIndex + target / 65536) * 8
      [(source, leBytes 2 target), (wrapAdd source 2, leBytes 2 selector)]
  | 0x05 => [(source, leBytes 2 target)]
  | 0x06 => [(source, leBytes 4 target), (wrapAdd source 4, leBytes 2 0x08)]
  | _ => []

def applyRecord (dllMgr : DllManager) (file : LxFile) (objectBases : List Nat) (pageBase : Nat)
    (mem : GuestMemory) (record : LxFixupRecord) : Option GuestMemory :=
  let target := targetAddr dllMgr file objectBases record.target
  if target = 0 then some mem
  else record.sourceOffsets.foldlM
    (fun mem off => mem.writeAll (siteWrites record.sourceType target (pageBase + off))) mem

/-- The fixup records of an object's pages, with the address of each page. The
pages stop where the file has no more records. -/
def objectPages (file : LxFile) (base : Nat) (obj : ObjectTableEntry) :
    List (Nat × List LxFixupRecord) :=
  let start := obj.pageMapIndex - 1
  ((List.range obj.pageCount).map fun p => (base + p * 4096, file.fixupRecordsByPage[start + p]?))
    |>.takeWhile (fun page => page.2.isSome)
    |>.map fun page => (page.1, page.2.getD [])

/-- Where every page has its records, the pages are all there. -/
theorem objectPages_eq {file : LxFile} {obj : ObjectTableEntry} (base : Nat)
    (h : ∀ p < obj.pageCount, (file.fixupRecordsByPage[obj.pageMapIndex - 1 + p]?).isSome) :
    objectPages file base obj = (List.range obj.pageCount).map fun p =>
      (base + p * 4096, (file.fixupRecordsByPage[obj.pageMapIndex - 1 + p]?).getD []) := by
  unfold objectPages
  dsimp only
  rw [List.takeWhile_eq_self_iff.mpr, List.map_map]
  · rfl
  · intro page hpage
    obtain ⟨p, hp, rfl⟩ := List.mem_map.mp hpage
    exact h p (List.mem_range.mp hp)

def applyFixups (dllMgr : DllManager) (file : LxFile) (objectBases : List Nat)
    (mem : GuestMemory) : Option GuestMemory :=
  file.objectTable.zipIdx.foldlM
    (fun mem entry => do
      let base ← objectBases[entry.2]?
      (objectPages file base entry.1).foldlM
        (fun mem page =>
          page.2.foldlM (applyRecord dllMgr file objectBases page.1) mem) mem) mem

/-- The source types with one 16- or 32-bit offset as their field. -/
def isOffsetType (sourceType : Nat) : Bool :=
  sourceType &&& 0x0F == 0x05 || sourceType &&& 0x0F == 0x07 || sourceType &&& 0x0F == 0x08

/-- The address a target stands for, where the file and the bases give it one. -/
def resolve (dllMgr : DllManager) (file : LxFile) (objectBases : List Nat) :
    FixupTarget → Option Nat
  | .internal objectNum targetOffset => (nth objectBases objectNum).map (· + targetOffset)
  | .internalEntry entryOrdinal =>
      (file.exports.find? fun entry => entry.ordinal == entryOrdinal).bind fun entry =>
        (nth objectBases entry.objectNum).map (· + entry.offset)
  | .externalOrdinal moduleOrdinal procOrdinal =>
      some (resolveImport dllMgr ((nth file.importedModules moduleOrdinal).getD "") procOrdinal)
  | .externalName moduleOrdinal procNameOffset =>
      some (resolveImportByName dllMgr ((nth file.importedModules moduleOrdinal).getD "")
        ((file.getProcName procNameOffset).getD ""))

/-- The field of a source type 0x05, 0x07 or 0x08 at its site holds the address. -/
def Encodes (mem : GuestMemory) (sourceType address sourcePhys : Nat) : Prop :=
  let source := sourcePhys % u32Size
  if sourceType &&& 0x0F = 0x05 then mem.slice source 2 = some (leBytes 2 address)
  else if sourceType &&& 0x0F = 0x08 then
    mem.slice source 4 = some (leBytes 4 (relativeWord address sourcePhys))
  else mem.slice source 4 = some (leBytes 4 address)

instance (mem : GuestMemory) (sourceType address sourcePhys : Nat) :
    Decidable (Encodes mem sourceType address sourcePhys) := by
  unfold Encodes
  infer_instance

section Pass

variable (dllMgr : DllManager) (file : LxFile) (objectBases : List Nat)

/-- The records of the pass with the address of their page, in its order. -/
def records : List (Nat × LxFixupRecord) :=
  (file.objectTable.zip objectBases).flatMap fun entry =>
    (objectPages file entry.2 entry.1).flatMap fun page => page.2.map fun record =>
      (page.1, record)

def skipped (record : LxFixupRecord) : Bool := targetAddr dllMgr file objectBases record.target == 0

def recordWrites (entry : Nat × LxFixupRecord) : List (Nat × List UInt8) :=
  let target := targetAddr dllMgr file objectBases entry.2.target
  if target = 0 then []
  else entry.2.sourceOffsets.flatMap fun off =>
    siteWrites entry.2.sourceType target (entry.1 + off)

def fixupWrites : List (Nat × List UInt8) :=
  (records file objectBases).flatMap (recordWrites dllMgr file objectBases)

/-- The record was applied, and every site of it encodes target plus additive. -/
def Applied (mem : GuestMemory) (entry : Nat × LxFixupRecord) : Prop :=
  skipped dllMgr file objectBases entry.2 = false ∧
    ∃ address, resolve dllMgr file objectBases entry.2.target = some address ∧
      ∀ off ∈ entry.2.sourceOffsets,
        Encodes mem entry.2.sourceType (address + entry.2.additive.getD 0) (entry.1 + off)

/-- The pass completes and applies every record of these source types. -/
def FixupsApplied (mem : GuestMemory) : Prop :=
  ∃ next, applyFixups dllMgr file objectBases mem = some next ∧
    ∀ entry ∈ records file objectBases, isOffsetType entry.2.sourceType →
      Applied dllMgr file objectBases next entry

/-- The number of addresses that the field of a source type tells apart. -/
def fieldModulus (sourceType : Nat) : Nat :=
  if sourceType &&& 0x0F = 0x05 then u16Size else u32Size

/-- The target is not an entry, it has a nonzero address, and the additive, which
the pass does not use, makes no difference to the field. -/
def Plain (record : LxFixupRecord) : Prop :=
  (∀ entryOrdinal, record.target ≠ .internalEntry entryOrdinal) ∧
    (∃ address, resolve dllMgr file objectBases record.target = some address ∧ address ≠ 0) ∧
      (record.sourceOffsets = [] ∨
        record.additive.getD 0 % fieldModulus record.sourceType = 0)

/-- Every write is in bounds, and every record of these source types is plain. -/
def FixupsPlain (mem : GuestMemory) : Prop :=
  (∀ write ∈ fixupWrites dllMgr file objectBases, mem.inBounds write.1 write.2.length) ∧
    ∀ entry ∈ records file objectBases, isOffsetType entry.2.sourceType →
      Plain dllMgr file objectBases entry.2

variable {dllMgr file objectBases}

/-- Entries apart, the pass uses the address the target stands for. -/
theorem targetAddr_eq {target : FixupTarget}
    (h : ∀ entryOrdinal, target ≠ .internalEntry entryOrdinal) :
    targetAddr dllMgr file objectBases target =
      (resolve dllMgr file objectBases target).getD 0 := by
  cases target with
  | internal objectNum targetOffset =>
    simp only [targetAddr, resolve]
    cases nth objectBases objectNum <;> rfl
  | externalOrdinal moduleOrdinal procOrdinal => rfl
  | externalName moduleOrdinal procNameOffset => rfl
  | internalEntry entryOrdinal => exact absurd rfl (h entryOrdinal)

theorem applyRecord_eq (mem : GuestMemory) (pageBase : Nat) (record : LxFixupRecord) :
    applyRecord dllMgr file objectBases pageBase mem record =
      mem.writeAll (recordWrites dllMgr file objectBases (pageBase, record)) := by
  unfold applyRecord recordWrites
  dsimp only
  split
  · rfl
  · unfold GuestMemory.writeAll
    rw [foldlM_flatMap]

/-- The pass is one list of writes. -/
theorem applyFixups_eq (mem : GuestMemory)
    (bases : objectBases.length = file.objectTable.length) :
    applyFixups dllMgr file objectBases mem =
      mem.writeAll (fixupWrites dllMgr file objectBases) := by
  have hpages : ∀ (pages : List (Nat × List LxFixupRecord)) (mem : GuestMemory),
      pages.foldlM (fun mem page =>
          page.2.foldlM (applyRecord dllMgr file objectBases page.1) mem) mem =
        mem.writeAll ((pages.flatMap fun page => page.2.map fun record => (page.1, record)).flatMap
          (recordWrites dllMgr file objectBases)) := by
    intro pages mem
    unfold GuestMemory.writeAll
    rw [foldlM_flatMap, foldlM_flatMap]
    congr 1
    funext mem page
    rw [List.foldlM_map]
    congr 1
    funext mem record
    exact applyRecord_eq mem page.1 record
  unfold applyFixups fixupWrites records
  have hloop := foldlM_zipIdx_lookup objectBases
    (fun mem obj base => (objectPages file base obj).foldlM (fun mem page =>
      page.2.foldlM (applyRecord dllMgr file objectBases page.1) mem) mem)
    file.objectTable 0 mem (by simpa using bases)
  rw [List.drop_zero] at hloop
  rw [hloop, List.flatMap_assoc]
  conv_rhs => rw [GuestMemory.writeAll, foldlM_flatMap]
  congr 1
  funext mem entry
  exact hpages (objectPages file entry.2 entry.1) mem

/-- A difference of addresses sees them modulo the word. -/
theorem relativeWord_inj {target other source : Nat} :
    leBytes 4 (relativeWord target source) = leBytes 4 (relativeWord other source) ↔
      target % u32Size = other % u32Size := by
  have hsize : (256 : Nat) ^ 4 = u32Size := by decide
  rw [leBytes_inj_mod, hsize]
  unfold relativeWord u32Size
  omega

/-- One site: what the pass writes there encodes the address with the additive
exactly when the additive makes no difference. -/
theorem encodes_siteWrites {mem : GuestMemory} {sourceType target sourcePhys additive : Nat}
    (kind : isOffsetType sourceType)
    (stored : ∀ write ∈ siteWrites sourceType target sourcePhys,
      mem.slice write.1 write.2.length = some write.2) :
    Encodes mem sourceType (target + additive) sourcePhys ↔
      additive % fieldModulus sourceType = 0 := by
  have hword : ∀ value other : Nat,
      leBytes 4 value = leBytes 4 other ↔ value % u32Size = other % u32Size := by
    intro value other
    rw [leBytes_inj_mod]
    rfl
  have hhalf : ∀ value other : Nat,
      leBytes 2 value = leBytes 2 other ↔ value % u16Size = other % u16Size := by
    intro value other
    rw [leBytes_inj_mod]
    rfl
  simp only [isOffsetType, Bool.or_eq_true, beq_iff_eq] at kind
  unfold Encodes fieldModulus
  dsimp only
  rcases kind with (kind | kind) | kind
  · simp only [siteWrites, kind, List.mem_singleton, forall_eq, leBytes_length] at stored
    simp only [kind, if_true, stored, Option.some.injEq, hhalf]
    unfold u16Size
    omega
  · simp only [siteWrites, kind, List.mem_singleton, forall_eq, leBytes_length] at stored
    simp only [kind, stored, Option.some.injEq, hword]
    unfold u32Size
    simp only [Nat.reducePow, Nat.reduceEqDiff, if_false]
    omega
  · simp only [siteWrites, kind, List.mem_singleton, forall_eq, leBytes_length] at stored
    simp only [kind, stored, Option.some.injEq]
    simp only [Nat.reduceEqDiff, if_false, if_true, relativeWord_inj]
    unfold u32Size
    omega

theorem applied_iff {mem : GuestMemory} {entry : Nat × LxFixupRecord}
    (kind : isOffsetType entry.2.sourceType)
    (stored : ∀ write ∈ recordWrites dllMgr file objectBases entry,
      mem.slice write.1 write.2.length = some write.2) :
    Applied dllMgr file objectBases mem entry ↔ Plain dllMgr file objectBases entry.2 := by
  unfold Applied Plain skipped
  by_cases hentry : ∀ entryOrdinal, entry.2.target ≠ .internalEntry entryOrdinal
  · rw [targetAddr_eq hentry]
    cases hresolve : resolve dllMgr file objectBases entry.2.target with
    | none => simp
    | some address =>
      by_cases hzero : address = 0
      · simp [hzero]
      · have hsites : ∀ off ∈ entry.2.sourceOffsets,
            (Encodes mem entry.2.sourceType (address + entry.2.additive.getD 0) (entry.1 + off) ↔
              entry.2.additive.getD 0 % fieldModulus entry.2.sourceType = 0) := by
          intro off hoff
          apply encodes_siteWrites kind
          intro write hwrite
          apply stored
          simp only [recordWrites, targetAddr_eq hentry, hresolve, Option.getD_some, hzero,
            if_false, List.mem_flatMap]
          exact ⟨off, hoff, hwrite⟩
        simp only [Option.getD_some, beq_eq_false_iff_ne, ne_eq, hzero, not_false_eq_true,
          true_and, Option.some.injEq, exists_eq_left']
        constructor
        · intro hall
          refine ⟨hentry, ?_⟩
          cases hoffsets : entry.2.sourceOffsets with
          | nil => exact Or.inl rfl
          | cons off rest =>
            have hoff : off ∈ entry.2.sourceOffsets := by simp [hoffsets]
            exact Or.inr ((hsites off hoff).mp (hall off hoff))
        · rintro ⟨_, hempty | hadditive⟩ off hoff
          · simp [hempty] at hoff
          · exact (hsites off hoff).mpr hadditive
  · obtain ⟨entryOrdinal, htarget⟩ := not_forall.mp hentry
    have htarget := not_not.mp htarget
    constructor
    · intro happlied
      simp [htarget, targetAddr] at happlied
    · intro hplain
      exact absurd htarget (hplain.1 entryOrdinal)

end Pass

/-- Where no two writes of the pass share a byte, it applies every record of
the source types 0x05, 0x07 and 0x08 exactly when all of them are plain. -/
theorem fixups_applied_iff (dllMgr : DllManager) (file : LxFile) (objectBases : List Nat)
    (mem : GuestMemory) (bases : objectBases.length = file.objectTable.length)
    (apart : (fixupWrites dllMgr file objectBases).Pairwise ByteStore.WritesApart) :
    FixupsApplied dllMgr file objectBases mem ↔ FixupsPlain dllMgr file objectBases mem := by
  have hstored : ∀ next, mem.writeAll (fixupWrites dllMgr file objectBases) = some next →
      ∀ entry ∈ records file objectBases, ∀ write ∈ recordWrites dllMgr file objectBases entry,
        next.slice write.1 write.2.length = some write.2 := by
    intro next hnext entry hentry write hwrite
    exact mem.slice_writeAll hnext apart (List.mem_flatMap.mpr ⟨entry, hentry, hwrite⟩)
  unfold FixupsApplied FixupsPlain
  rw [applyFixups_eq mem bases]
  constructor
  · rintro ⟨next, hnext, happlied⟩
    refine ⟨(mem.writeAll_eq_some.mp hnext).1, fun entry hentry kind => ?_⟩
    exact (applied_iff kind (hstored next hnext entry hentry)).mp (happlied entry hentry kind)
  · rintro ⟨hbounds, hplain⟩
    have hnext := mem.writeAll_eq_some.mpr ⟨hbounds, rfl⟩
    refine ⟨_, hnext, fun entry hentry kind => ?_⟩
    exact (applied_iff kind (hstored _ hnext entry hentry)).mpr (hplain entry hentry kind)

/-- One object of one page, with a 32-bit offset fixup to its own offset 0x20. -/
def sampleFile (additive : Option Nat) : LxFile where
  header := default
  objectTable := [⟨0x1000, 0x10000, 0, 1, 1, 0⟩]
  pageMap := [⟨0, 0, 0⟩]
  fixupPageTable := [0, 9]
  fixupRecordsByPage := [[⟨0x07, 0x10, [0x40], .internal 1 0x20, additive⟩]]
  resources := []
  importedModules := []
  importProcedureNames := []
  exports := []
  nonresidentNames := []

def sampleMemory : GuestMemory := ⟨0x4000, fun _ => 0⟩

theorem fixups_applied_iff_sample : FixupsApplied .new (sampleFile none) [0x1000] sampleMemory := by
  apply (fixups_applied_iff .new (sampleFile none) [0x1000] sampleMemory rfl (by decide)).mpr
  refine ⟨by decide, ?_⟩
  intro entry hentry _
  have hrecords : records (sampleFile none) [0x1000] =
      [(0x1000, ⟨0x07, 0x10, [0x40], .internal 1 0x20, none⟩)] := by decide
  rw [hrecords] at hentry
  cases List.mem_singleton.mp hentry
  exact ⟨by simp, ⟨0x1020, rfl, by decide⟩, Or.inr rfl⟩

/-- The same fixup with an additive of 4: the pass leaves the additive out. -/
theorem additive_ignored :
    ¬ ∀ (dllMgr : DllManager) (file : LxFile) (objectBases : List Nat) (mem : GuestMemory),
      objectBases.length = file.objectTable.length →
        (fixupWrites dllMgr file objectBases).Pairwise ByteStore.WritesApart →
          FixupsApplied dllMgr file objectBases mem := by
  intro claim
  obtain ⟨next, hrun, happlied⟩ :=
    claim .new (sampleFile (some 4)) [0x1000] sampleMemory rfl (by decide)
  obtain ⟨_, address, haddress, hsites⟩ :=
    happlied (0x1000, ⟨0x07, 0x10, [0x40], .internal 1 0x20, some 4⟩) (by decide) rfl
  have hsite := hsites 0x40 (by decide)
  cases haddress
  cases hrun
  exact absurd hsite (by decide)

end Fixups
end Warpine.Loader
