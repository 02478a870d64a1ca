import Warpine.Ne.Safety

/-! What the parser promises of an NE executable that it accepts: every field fits its word,
and each of at most 255 segments has its list of relocations. -/
namespace Warpine.Ne
open Warpine.Lib Reader Panicky

structure NeSegmentEntry.Sized (seg : NeSegmentEntry) : Prop where
  dataOffset : seg.dataOffset < 2 ^ 16
  dataLength : seg.dataLength < 2 ^ 16
  minAllocSize : seg.minAllocSize < 2 ^ 16

def NeRelocationTarget.Sized : NeRelocationTarget → Prop
  | .internalRef segmentNum offset => segmentNum < 2 ^ 8 ∧ offset < 2 ^ 16
  | .importOrdinal moduleIndex ordinal => moduleIndex < 2 ^ 16 ∧ ordinal < 2 ^ 16
  | .importName moduleIndex nameOffset => moduleIndex < 2 ^ 16 ∧ nameOffset < 2 ^ 16
  | .osFixup fixupType => fixupType < 2 ^ 16

structure NeRelocationEntry.Sized (reloc : NeRelocationEntry) : Prop where
  sourceOffset : reloc.sourceOffset < 2 ^ 16
  target : reloc.target.Sized

namespace NeFile

structure Sized (file : NeFile) : Prop where
  few : file.segmentTable.length ≤ 255
  segments : ∀ seg ∈ file.segmentTable, seg.Sized
  parallel : file.relocationsBySegment.length = file.segmentTable.length
  relocations : ∀ relocs ∈ file.relocationsBySegment, ∀ reloc ∈ relocs, reloc.Sized

end NeFile

section Relocations

variable {data : List UInt8} {pos next : Nat}

theorem segment_sized (buf : List UInt8) : (NeSegmentEntry.decode buf).Sized :=
  ⟨field_lt _ _ _, field_lt _ _ _, field_lt _ _ _⟩

theorem decodeTarget_sized {buf : List UInt8} {target : NeRelocationTarget}
    (h : NeRelocationEntry.decodeTarget buf = some target) : target.Sized := by
  unfold NeRelocationEntry.decodeTarget at h
  split at h <;> cases h
  · exact ⟨field_lt buf 4 1, field_lt buf 6 2⟩
  · exact ⟨field_lt buf 4 2, field_lt buf 6 2⟩
  · exact ⟨field_lt buf 4 2, field_lt buf 6 2⟩
  · exact field_lt buf 4 2

theorem relocation_sized :
    Ensures data NeRelocationEntry.read fun reloc => reloc.Sized := by
  unfold NeRelocationEntry.read
  refine Ensures.any.bind fun buf _ => ?_
  split
  · exact Ensures.of_invalidData
  · rename_i target decoded
    exact Ensures.of_pure ⟨field_lt _ _ _, decodeTarget_sized decoded⟩

theorem readRelocations_sized {shift : Nat} {seg : NeSegmentEntry}
    {relocs : List NeRelocationEntry}
    (h : Returns (NeFile.readRelocations shift seg) data pos relocs next) :
    ∀ reloc ∈ relocs, reloc.Sized := by
  unfold NeFile.readRelocations at h
  split at h
  · simp only [returns_bind, returns_lift] at h
    obtain ⟨_, _, _, _, _, _, _, _, _, count, _, _, read⟩ := h
    exact (relocation_sized.of_times count _ _ _ read).2
  · obtain ⟨rfl, -⟩ := returns_pure.mp h
    simp

end Relocations

namespace NeFile

theorem parse_sized {data : List UInt8} {file : NeFile} (parsed : parse data = some (.ok file)) :
    file.Sized := by
  have words := words_decode data
  have returned : ∃ next, Returns NeFile.read data 0 file next := by
    unfold parse at parsed
    split at parsed
    · cases parsed
    · rename_i found next run
      obtain ⟨other, rfl, same⟩ := Option.map_eq_some_iff.mp parsed
      cases same
      exact ⟨next, run⟩
  obtain ⟨next, returned⟩ := returned
  unfold NeFile.read at returned
  simp only [returns_bind, returns_lift, readOffset_eq_ok, readHeader_eq_ok, checkHeader_eq_ok,
    returns_ofOption, returns_pure] at returned
  obtain ⟨_, _, ⟨_, _, rfl, rfl⟩, _, _, ⟨_, rfl, rfl⟩, _, _, ⟨few, rfl⟩, segments, _, hsegments,
    rest⟩ := returned
  obtain ⟨_, rfl, rfl⟩ := (returns_readSegments words).mp hsegments
  obtain ⟨_, _, _, _, _, _, _, _, _, _, _, _, _, _, _, _, _, _, relocs, _, loop, rfl, _⟩ := rest
  obtain ⟨length, all⟩ := forEach_ensures
    (fun relocs : List NeRelocationEntry => ∀ reloc ∈ relocs, reloc.Sized) (fun _ _ _ _ => readRelocations_sized) loop
  refine ⟨?_, ?_, length, all⟩
  · dsimp only
    rw [List.length_map, List.length_range]
    exact few
  · intro seg member
    obtain ⟨i, _, rfl⟩ := List.mem_map.mp member
    exact segment_sized _

end NeFile
end Warpine.Ne
