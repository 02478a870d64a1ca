import Mathlib.Data.Finset.Max
import Warpine.Guest.Footprint
import Warpine.Loader.Fixups

/-! The source fields of fixups. A record should patch the field of its type at each of its
offsets, which are signed, and nothing else. -/
namespace Warpine.Loader
open Warpine.Lib Warpine.Guest Warpine.Lx

namespace Fixups

/-- The bytes in the field of a source type. Other types have none that the loader knows. -/
def fieldWidth (sourceType : Nat) : Nat :=
  match sourceType &&& 0x0F with
  | 0x02 | 0x05 => 2
  | 0x03 | 0x07 | 0x08 => 4
  | 0x06 => 6
  | _ => 0

/-- A 16-bit offset as it is meant: a field may start on the page before. -/
def signedOffset (off : Nat) : Int := if off < 0x8000 then off else off - 0x10000

/-- The address is in one of the record's fields. -/
def InFields (pageBase : Nat) (record : LxFixupRecord) (addr : Nat) : Prop :=
  ∃ off ∈ record.sourceOffsets, (pageBase : Int) + signedOffset off ≤ addr ∧
    (addr : Int) < pageBase + signedOffset off + fieldWidth record.sourceType

/-- The record patches all of its fields and nothing else. -/
def PatchesFields (dllMgr : DllManager) (file : LxFile) (objectBases : List Nat) (pageBase : Nat)
    (record : LxFixupRecord) : Prop :=
  WritesExactly guestMemSize
    (fun mem => applyRecord dllMgr file objectBases pageBase mem record) (InFields pageBase record)

/-- There is nothing to patch, or the target has a nonzero address and each field is one
that the source writes as it should: no selector alone, on the page or a later one, and in
guest memory. -/
def FieldsFit (dllMgr : DllManager) (file : LxFile) (objectBases : List Nat) (pageBase : Nat)
    (record : LxFixupRecord) : Prop :=
  (∀ off ∈ record.sourceOffsets, fieldWidth record.sourceType ≠ 0 →
    targetAddr dllMgr file objectBases record.target = 0 ∧
      (pageBase : Int) + signedOffset off + fieldWidth record.sourceType ≤ 0) ∨
  (targetAddr dllMgr file objectBases record.target ≠ 0 ∧ record.sourceType &&& 0x0F ≠ 0x02 ∧
    ∀ off ∈ record.sourceOffsets, off < 0x8000 ∧
      pageBase + off + fieldWidth record.sourceType ≤ guestMemSize)

/-- The bytes that the source writes for a site. -/
def writtenWidth (sourceType : Nat) : Nat :=
  if sourceType &&& 0x0F = 0x02 then 4 else fieldWidth sourceType

section Sites

variable {sourceType target sourcePhys addr : Nat}

theorem fieldWidth_le (sourceType : Nat) : fieldWidth sourceType ≤ writtenWidth sourceType := by
  unfold writtenWidth
  split
  · rename_i selector
    simp [fieldWidth, selector]
  · exact Nat.le_refl _

theorem writtenWidth_eq : writtenWidth sourceType = fieldWidth sourceType ↔
    sourceType &&& 0x0F ≠ 0x02 := by
  unfold writtenWidth
  split
  · rename_i selector
    simp [fieldWidth, selector]
  · rename_i other
    simp [other]

theorem writtenWidth_eq_zero : writtenWidth sourceType = 0 ↔ fieldWidth sourceType = 0 := by
  have le := fieldWidth_le sourceType
  by_cases selector : sourceType &&& 0x0F = 0x02
  · simp [writtenWidth, fieldWidth, selector]
  · rw [writtenWidth_eq.mpr selector]

/-- A site has no write, one, or two that lie side by side. -/
theorem siteWrites_cases (sourceType target sourcePhys : Nat) :
    (siteWrites sourceType target sourcePhys = [] ∧ writtenWidth sourceType = 0) ∨
      (∃ bytes, siteWrites sourceType target sourcePhys = [(sourcePhys % u32Size, bytes)] ∧
        bytes.length = writtenWidth sourceType ∧ 0 < bytes.length) ∨
      ∃ first second, siteWrites sourceType target sourcePhys =
          [(sourcePhys % u32Size, first), (wrapAdd (sourcePhys % u32Size) first.length, second)] ∧
        first.length + second.length = writtenWidth sourceType ∧ 0 < first.length ∧
          0 < second.length ∧ first.length ≤ 4 := by
  by_cases direct : sourceType &&& 0x0F = 0x07
  · exact .inr (.inl ⟨leBytes 4 target, by simp [siteWrites, direct],
      by simp [writtenWidth, fieldWidth, direct], by simp⟩)
  by_cases relative : sourceType &&& 0x0F = 0x08
  · exact .inr (.inl ⟨leBytes 4 (relativeWord target sourcePhys), by simp [siteWrites, relative],
      by simp [writtenWidth, fieldWidth, relative], by simp⟩)
  by_cases selector : sourceType &&& 0x0F = 0x02
  · exact .inr (.inr ⟨leBytes 2 target, leBytes 2 ((tiledSelStartIndex + target / 65536) * 8),
      by simp [siteWrites, selector], by simp [writtenWidth, selector], by simp⟩)
  by_cases far : sourceType &&& 0x0F = 0x03
  · exact .inr (.inr ⟨leBytes 2 target, leBytes 2 ((tiledSelStartIndex + target / 65536) * 8),
      by simp [siteWrites, far], by simp [writtenWidth, fieldWidth, far], by simp⟩)
  by_cases offset : sourceType &&& 0x0F = 0x05
  · exact .inr (.inl ⟨leBytes 2 target, by simp [siteWrites, offset],
      by simp [writtenWidth, fieldWidth, offset], by simp⟩)
  by_cases pointer : sourceType &&& 0x0F = 0x06
  · exact .inr (.inr ⟨leBytes 4 target, leBytes 2 0x08,
      by simp [siteWrites, pointer], by simp [writtenWidth, fieldWidth, pointer], by simp⟩)
  · exact .inl ⟨by simp [siteWrites, *], by simp [writtenWidth, fieldWidth, *]⟩

/-- Where the writes of a site have their place, none of them wraps. -/
theorem siteWrites_bounds :
    (∀ write ∈ siteWrites sourceType target sourcePhys,
        write.1 + write.2.length ≤ guestMemSize) ↔
      writtenWidth sourceType = 0 ∨
        sourcePhys % u32Size + writtenWidth sourceType ≤ guestMemSize := by
  rcases siteWrites_cases sourceType target sourcePhys with ⟨none, width⟩ |
    ⟨bytes, one, width, some⟩ | ⟨first, second, two, width, _, _, _⟩
  · simp [none, width]
  · rw [one, ← width, List.forall_mem_singleton]
    dsimp only
    omega
  · rw [two, ← width, List.forall_mem_cons, List.forall_mem_singleton]
    dsimp only
    unfold wrapAdd guestMemSize u32Size
    omega

theorem siteWrites_covers
    (bounds : ∀ write ∈ siteWrites sourceType target sourcePhys,
      write.1 + write.2.length ≤ guestMemSize) :
    (∃ write ∈ siteWrites sourceType target sourcePhys, ByteStore.Covers write addr) ↔
      sourcePhys % u32Size ≤ addr ∧ addr < sourcePhys % u32Size + writtenWidth sourceType := by
  rcases siteWrites_cases sourceType target sourcePhys with ⟨none, width⟩ |
    ⟨bytes, one, width, some⟩ | ⟨first, second, two, width, _, _, _⟩
  · rw [none, width]
    simp
  · rw [one, ← width]
    simp [ByteStore.Covers]
  · rw [two, List.forall_mem_cons, List.forall_mem_singleton] at bounds
    rw [two, ← width, List.exists_mem_cons_iff, List.exists_mem_cons_iff]
    simp only [List.not_mem_nil, false_and, exists_false, or_false, ByteStore.Covers]
    dsimp only at bounds
    unfold wrapAdd guestMemSize u32Size at *
    omega

end Sites

section Records

variable {dllMgr : DllManager} {file : LxFile} {objectBases : List Nat} {pageBase : Nat}
  {record : LxFixupRecord}

/-- A signed offset is at most the offset, and equal to it only on the page or later ones. -/
theorem signedOffset_le (off : Nat) : signedOffset off ≤ off := by
  unfold signedOffset
  split <;> omega

theorem signedOffset_eq {off : Nat} : signedOffset off = off ↔ off < 0x8000 := by
  unfold signedOffset
  split <;> omega

theorem signedOffset_ge (off : Nat) : (off : Int) - 0x10000 ≤ signedOffset off := by
  unfold signedOffset
  split <;> omega

/-- No target, no write: then the fields must have no byte at all. -/
theorem fields_unreached :
    (∀ addr, ¬InFields pageBase record addr) ↔ ∀ off ∈ record.sourceOffsets,
      fieldWidth record.sourceType ≠ 0 →
        (pageBase : Int) + signedOffset off + fieldWidth record.sourceType ≤ 0 := by
  constructor
  · intro none off member width
    by_contra reached
    -- the last byte of the field is an address
    apply none ((pageBase : Int) + signedOffset off + fieldWidth record.sourceType - 1).toNat
    refine ⟨off, member, ?_, ?_⟩ <;> omega
  · rintro below addr ⟨off, member, low, high⟩
    have under := below off member
    omega

theorem patchesFields_writes (dllMgr : DllManager) (file : LxFile) (objectBases : List Nat)
    (pageBase : Nat) (record : LxFixupRecord) :
    PatchesFields dllMgr file objectBases pageBase record ↔
      (∀ write ∈ recordWrites dllMgr file objectBases (pageBase, record),
        write.1 + write.2.length ≤ guestMemSize) ∧
      ∀ addr, (∃ write ∈ recordWrites dllMgr file objectBases (pageBase, record),
        ByteStore.Covers write addr) ↔ InFields pageBase record addr := by
  rw [← writesExactly_writeAll, PatchesFields]
  simp only [applyRecord_eq]

/-- The bytes that the sites of a record write, where there is a target. -/
def Reaches (pageBase : Nat) (record : LxFixupRecord) (addr : Nat) : Prop :=
  ∃ off ∈ record.sourceOffsets, (pageBase + off) % u32Size ≤ addr ∧
    addr < (pageBase + off) % u32Size + writtenWidth record.sourceType

theorem patchesFields_target
    (there : targetAddr dllMgr file objectBases record.target ≠ 0) :
    PatchesFields dllMgr file objectBases pageBase record ↔
      (∀ off ∈ record.sourceOffsets, writtenWidth record.sourceType = 0 ∨
        (pageBase + off) % u32Size + writtenWidth record.sourceType ≤ guestMemSize) ∧
      ∀ addr, Reaches pageBase record addr ↔ InFields pageBase record addr := by
  have writes : recordWrites dllMgr file objectBases (pageBase, record) =
      record.sourceOffsets.flatMap fun off => siteWrites record.sourceType
        (targetAddr dllMgr file objectBases record.target) (pageBase + off) := by
    unfold recordWrites
    dsimp only
    rw [if_neg there]
  have placed : (∀ write ∈ recordWrites dllMgr file objectBases (pageBase, record),
      write.1 + write.2.length ≤ guestMemSize) ↔
        ∀ off ∈ record.sourceOffsets, writtenWidth record.sourceType = 0 ∨
          (pageBase + off) % u32Size + writtenWidth record.sourceType ≤ guestMemSize := by
    rw [writes, List.forall_mem_flatMap]
    exact forall₂_congr fun off _ => siteWrites_bounds
  rw [patchesFields_writes, placed]
  apply and_congr_right
  intro bounds
  refine forall_congr' fun addr => ?_
  have reached : (∃ write ∈ recordWrites dllMgr file objectBases (pageBase, record),
      ByteStore.Covers write addr) ↔ Reaches pageBase record addr := by
    rw [writes]
    unfold Reaches
    simp only [List.mem_flatMap]
    constructor
    · rintro ⟨write, ⟨off, member, written⟩, covers⟩
      exact ⟨off, member, (siteWrites_covers (siteWrites_bounds.mpr (bounds off member))).mp
        ⟨write, written, covers⟩⟩
    · rintro ⟨off, member, inside⟩
      obtain ⟨write, written, covers⟩ :=
        (siteWrites_covers (siteWrites_bounds.mpr (bounds off member))).mpr inside
      exact ⟨write, ⟨off, member, written⟩, covers⟩
  rw [reached]

/-- The last byte written for the greatest offset is in a field only if nothing is wrong. -/
theorem fits_of_reaches (width : fieldWidth record.sourceType ≠ 0)
    (bounds : ∀ off ∈ record.sourceOffsets,
      (pageBase + off) % u32Size + writtenWidth record.sourceType ≤ guestMemSize)
    (same : ∀ addr, Reaches pageBase record addr ↔ InFields pageBase record addr)
    (some : record.sourceOffsets ≠ []) :
    record.sourceType &&& 0x0F ≠ 0x02 ∧ ∀ off ∈ record.sourceOffsets, off < 0x8000 ∧
      pageBase + off + fieldWidth record.sourceType ≤ guestMemSize := by
  have le := fieldWidth_le record.sourceType
  have unwrapped : ∀ off ∈ record.sourceOffsets, pageBase + off < u32Size := by
    intro off member
    by_contra wrapped
    have back := signedOffset_ge off
    unfold u32Size at wrapped
    have inside : InFields pageBase record ((pageBase : Int) + signedOffset off).toNat := by
      refine ⟨off, member, ?_, ?_⟩ <;> omega
    obtain ⟨other, hother, _, high⟩ := (same _).mpr inside
    have placed := bounds other hother
    unfold guestMemSize at placed
    omega
  obtain ⟨top, htop, greatest⟩ :=
    Finset.exists_max_image record.sourceOffsets.toFinset id (by simpa using some)
  simp only [List.mem_toFinset, id] at htop greatest
  have start : (pageBase + top) % u32Size = pageBase + top :=
    Nat.mod_eq_of_lt (unwrapped top htop)
  have reached : Reaches pageBase record (pageBase + top + writtenWidth record.sourceType - 1) := by
    refine ⟨top, htop, ?_, ?_⟩ <;> omega
  obtain ⟨off, member, low, high⟩ := (same _).mp reached
  have atMost := greatest off member
  have signed := signedOffset_le off
  have narrow : writtenWidth record.sourceType = fieldWidth record.sourceType := by omega
  have unsigned : top < 0x8000 := by
    apply signedOffset_eq.mp
    have equal : off = top := by omega
    rw [← equal]
    omega
  refine ⟨writtenWidth_eq.mp narrow, ?_⟩
  intro other hother
  have below := greatest other hother
  have placed := bounds other hother
  rw [Nat.mod_eq_of_lt (unwrapped other hother), narrow] at placed
  exact ⟨by omega, placed⟩

/-- A record patches its fields and nothing else exactly when they fit. -/
theorem patchesFields_fit (dllMgr : DllManager) (file : LxFile) (objectBases : List Nat)
    (pageBase : Nat) (record : LxFixupRecord) :
    PatchesFields dllMgr file objectBases pageBase record ↔
      FieldsFit dllMgr file objectBases pageBase record := by
  by_cases there : targetAddr dllMgr file objectBases record.target = 0
  · have writes : recordWrites dllMgr file objectBases (pageBase, record) = [] := by
      unfold recordWrites
      exact if_pos there
    rw [patchesFields_writes, writes, FieldsFit]
    simp only [List.not_mem_nil, false_imp_iff, implies_true, false_and, exists_false, true_and,
      false_iff, there, ne_eq, not_true_eq_false, or_false]
    exact fields_unreached
  · rw [patchesFields_target there, FieldsFit]
    simp only [there, false_and, imp_false, not_not, ne_eq, not_false_eq_true, true_and]
    constructor
    · rintro ⟨bounds, same⟩
      by_cases width : fieldWidth record.sourceType = 0
      · exact .inl fun _ _ => width
      · have wide : writtenWidth record.sourceType ≠ 0 := fun none =>
          width (writtenWidth_eq_zero.mp none)
        by_cases some : record.sourceOffsets = []
        · simp [some]
        · exact .inr (fits_of_reaches width (fun off member =>
            (bounds off member).resolve_left wide) same some)
    · rintro (width | ⟨kind, fits⟩)
      · have none : ∀ off ∈ record.sourceOffsets, writtenWidth record.sourceType = 0 :=
          fun off member => writtenWidth_eq_zero.mpr (width off member)
        refine ⟨fun off member => .inl (none off member), fun addr => iff_of_false ?_ ?_⟩
        · rintro ⟨off, member, low, high⟩
          have := none off member
          omega
        · rintro ⟨off, member, low, high⟩
          have := width off member
          omega
      · have narrow := writtenWidth_eq.mpr kind
        have start : ∀ off ∈ record.sourceOffsets, (pageBase + off) % u32Size = pageBase + off := by
          intro off member
          apply Nat.mod_eq_of_lt
          have placed := (fits off member).2
          unfold guestMemSize at placed
          unfold u32Size
          omega
        refine ⟨?_, ?_⟩
        · intro off member
          rw [start off member, narrow]
          exact .inr (fits off member).2
        · intro addr
          unfold Reaches InFields
          refine exists_congr fun off => and_congr_right fun member => ?_
          rw [start off member, signedOffset_eq.mpr (fits off member).1, narrow]
          omega

end Records

/-- Record by record the pass patches the fields and nothing else exactly where they fit;
where all of them do, it patches the fields of the file. -/
theorem fields_patched (dllMgr : DllManager) (file : LxFile) (objectBases : List Nat)
    (bases : objectBases.length = file.objectTable.length) :
    (∀ pageBase record, PatchesFields dllMgr file objectBases pageBase record ↔
        FieldsFit dllMgr file objectBases pageBase record) ∧
      ((∀ entry ∈ records file objectBases,
          FieldsFit dllMgr file objectBases entry.1 entry.2) →
        WritesExactly guestMemSize (applyFixups dllMgr file objectBases)
          fun addr => ∃ entry ∈ records file objectBases, InFields entry.1 entry.2 addr) := by
  refine ⟨patchesFields_fit dllMgr file objectBases, ?_⟩
  intro fit
  have exact_ : ∀ entry ∈ records file objectBases,
      (∀ write ∈ recordWrites dllMgr file objectBases entry,
        write.1 + write.2.length ≤ guestMemSize) ∧
      ∀ addr, (∃ write ∈ recordWrites dllMgr file objectBases entry,
        ByteStore.Covers write addr) ↔ InFields entry.1 entry.2 addr := by
    intro entry member
    exact (patchesFields_writes dllMgr file objectBases entry.1 entry.2).mp
      ((patchesFields_fit dllMgr file objectBases entry.1 entry.2).mpr (fit entry member))
  have run : applyFixups dllMgr file objectBases =
      (·.writeAll (fixupWrites dllMgr file objectBases)) :=
    funext fun mem => applyFixups_eq mem bases
  rw [run, writesExactly_writeAll, fixupWrites, List.forall_mem_flatMap]
  refine ⟨fun entry member => (exact_ entry member).1, ?_⟩
  intro addr
  simp only [List.mem_flatMap]
  constructor
  · rintro ⟨write, ⟨entry, member, written⟩, covers⟩
    exact ⟨entry, member, ((exact_ entry member).2 addr).mp ⟨write, written, covers⟩⟩
  · rintro ⟨entry, member, inside⟩
    obtain ⟨write, written, covers⟩ := ((exact_ entry member).2 addr).mpr inside
    exact ⟨write, ⟨entry, member, written⟩, covers⟩

theorem fields_patched_sample :
    WritesExactly guestMemSize (applyFixups .new (sampleFile none) [0x1000]) fun addr =>
      ∃ entry ∈ records (sampleFile none) [0x1000], InFields entry.1 entry.2 addr := by
  apply (fields_patched .new (sampleFile none) [0x1000] rfl).2
  have hrecords : records (sampleFile none) [0x1000] =
      [(0x1000, ⟨0x07, 0x10, [0x40], .internal 1 0x20, none⟩)] := by decide
  rw [hrecords]
  intro entry member
  cases List.mem_singleton.mp member
  exact .inr (by decide)

/-- A selector fixup writes the two bytes behind its field too. -/
theorem selector_overruns : ¬ ∀ (dllMgr : DllManager) (file : LxFile) (objectBases : List Nat)
    (pageBase : Nat) (record : LxFixupRecord),
    PatchesFields dllMgr file objectBases pageBase record := by
  intro claim
  have patched := (patchesFields_writes .new (sampleFile none) [0x1000] 0x1000
    ⟨0x02, 0x10, [0x40], .internal 1 0x20, none⟩).mp (claim ..)
  obtain ⟨off, member, low, high⟩ := (patched.2 0x1042).mp ⟨(0x1042, leBytes 2 48), by decide,
    by unfold ByteStore.Covers; decide⟩
  cases List.mem_singleton.mp member
  exact absurd high (by decide)

end Fixups
end Warpine.Loader
