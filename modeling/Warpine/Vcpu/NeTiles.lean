import Warpine.Guest.Footprint
import Warpine.Vcpu.NeStart
import Warpine.Vcpu.Selectors

/-! Where the segments of a 16-bit executable lie in guest memory, and what their descriptors
say of them. -/
namespace Warpine.Vcpu
open Warpine.Lib Warpine.Guest Warpine.Ne Warpine.Loader Attempt

section Ranges

def segmentStart (index : Nat) : Nat := neSegmentBase + index * tileSize

/-- How much of a segment the loader reads from the file. -/
def loadedLength (seg : NeSegmentEntry) : Nat :=
  if seg.dataOffset = 0 then 0 else seg.actualDataLength

variable {seg : NeSegmentEntry} {index other : Nat}

theorem loadedLength_le (sized : seg.Sized) : loadedLength seg ≤ tileSize := by
  have := sized.dataLength
  unfold loadedLength NeSegmentEntry.actualDataLength tileSize
  split
  · omega
  · split <;> omega

theorem segments_apart {n m : Nat} (differ : index ≠ other) (one : n ≤ tileSize)
    (two : m ≤ tileSize) : Apart (segmentStart index) n (segmentStart other) m := by
  unfold segmentStart Apart tileSize at *
  omega

/-- The last tile in front of the thunks is that of segment 224. -/
theorem reserved_apart {n : Nat} (low : index < 224) (fits : n ≤ tileSize) :
    Apart (segmentStart index) n neThunkBase tileSize ∧
      Apart (segmentStart index) n magicApiBase stubAreaSize := by
  unfold segmentStart Apart neSegmentBase neThunkBase magicApiBase stubAreaSize tileSize at *
  omega

end Ranges

section Loaded

variable {data : List UInt8} {shift : Nat} {mem : GuestMemory} {entry : NeSegmentEntry × Nat}
  {file : NeFile}

def segmentWrite (data : List UInt8) (shift : Nat) (entry : NeSegmentEntry × Nat) :
    Nat × List UInt8 :=
  (segmentStart entry.2, (data.drop (fileStart shift entry.1)).take (loadedLength entry.1))

theorem placeSegment_eq : placeSegment data shift mem entry =
    mem.putBytes (segmentWrite data shift entry).1 (segmentWrite data shift entry).2 := by
  unfold placeSegment segmentWrite loadedLength
  split
  · cases fits : mem.inBounds (segmentStart entry.2) ([] : List UInt8).length with
    | true => rw [List.take_zero, GuestMemory.putBytes_of_inBounds mem fits, ByteStore.store_nil]
    | false => rw [List.take_zero, GuestMemory.putBytes_of_not_inBounds mem fits]
  · rfl

theorem loadedMemory_eq : loadedMemory data file mem = mem.putAll
    (file.segmentTable.zipIdx.map (segmentWrite data file.header.alignmentShiftCount)) := by
  unfold loadedMemory GuestMemory.putAll
  rw [List.foldl_map]
  congr 1
  funext mem entry
  exact placeSegment_eq

theorem segmentWrite_length {seekLimit : Nat} (read : SegmentRead seekLimit data shift entry.1) :
    (segmentWrite data shift entry).2.length = loadedLength entry.1 := by
  unfold SegmentRead at read
  unfold segmentWrite loadedLength
  rw [List.length_take, List.length_drop]
  split <;> omega

theorem segmentWrite_le (sized : entry.1.Sized) :
    (segmentWrite data shift entry).2.length ≤ tileSize := by
  have fits := loadedLength_le sized
  unfold segmentWrite
  rw [List.length_take]
  omega

theorem segmentWrites_apart (sized : file.Sized) : (file.segmentTable.zipIdx.map
    (segmentWrite data file.header.alignmentShiftCount)).Pairwise ByteStore.WritesApart := by
  apply List.pairwise_map.mpr
  apply List.pairwise_iff_getElem.mpr
  intro i j hi hj before
  have first := (segment_entry sized (List.getElem_mem hi)).1
  have second := (segment_entry sized (List.getElem_mem hj)).1
  apply segments_apart
  · simp only [List.getElem_zipIdx]
    omega
  · exact segmentWrite_le first
  · exact segmentWrite_le second

theorem segmentWrites_inBounds (sized : file.Sized) (size : mem.size = guestMemSize) :
    ∀ write ∈ file.segmentTable.zipIdx.map (segmentWrite data file.header.alignmentShiftCount),
      mem.inBounds write.1 write.2.length := by
  intro write member
  obtain ⟨entry, hentry, rfl⟩ := List.mem_map.mp member
  obtain ⟨fits, few⟩ := segment_entry sized hentry
  have length := @segmentWrite_le data file.header.alignmentShiftCount entry fits
  have room := segment_room few
  rw [GuestMemory.inBounds, size, decide_eq_true_eq]
  unfold tileSize at length
  change segmentStart entry.2 + _ ≤ _
  unfold segmentStart
  omega

/-- The data of each segment, as it was read, with those of the others loaded beside it. -/
theorem slice_loadedMemory (sized : file.Sized) (size : mem.size = guestMemSize)
    (member : entry ∈ file.segmentTable.zipIdx) :
    (loadedMemory data file mem).slice (segmentStart entry.2)
      (segmentWrite data file.header.alignmentShiftCount entry).2.length =
        some (segmentWrite data file.header.alignmentShiftCount entry).2 := by
  have written := writeAll_putAll (@segmentWrites_inBounds data mem file sized size)
  rw [loadedMemory_eq]
  exact mem.slice_writeAll written (segmentWrites_apart sized) (List.mem_map_of_mem member)

end Loaded

section Descriptors

variable {file : NeFile} {final : GuestMemory} {entry : NeSegmentEntry × Nat}

theorem gdtEntry_selectorOf
    (held : final.slice (gdtBase + selectorOf entry.2) 8 = some (descriptorWrite entry).2) :
    gdtEntry final (selectorOf entry.2) = makeGdtEntry (segmentStart entry.2)
      (min (entry.1.actualMinAlloc - 1) 0xFFFF) (if entry.1.isCode then 0x9B else 0xD3) 0x00 := by
  have aligned : selectorOf entry.2 / 8 * 8 = selectorOf entry.2 := by
    unfold selectorOf
    omega
  have access : (if entry.1.isCode then 0x9B else 0xD3) < 2 ^ 8 := by split <;> decide
  have small := @makeGdtEntry_lt (segmentStart entry.2) (min (entry.1.actualMinAlloc - 1) 0xFFFF)
    _ 0x00 access
  have word : final.read 8 (gdtBase + selectorOf entry.2) = some _ :=
    (final.read_eq_some).mpr ⟨small, held⟩
  rw [gdtEntry, aligned, word]
  rfl

theorem gdtEntry_fields (sized : entry.1.Sized) (few : entry.2 < 255)
    (held : final.slice (gdtBase + selectorOf entry.2) 8 = some (descriptorWrite entry).2) :
    gdtEntryBase final (selectorOf entry.2) = segmentStart entry.2 ∧
      gdtEntryLimit final (selectorOf entry.2) + 1 = entry.1.actualMinAlloc := by
  have found := gdtEntry_selectorOf held
  have access : (if entry.1.isCode then 0x9B else 0xD3) < 2 ^ 8 := by split <;> decide
  have start : segmentStart entry.2 < 2 ^ 32 := by
    unfold segmentStart neSegmentBase tileSize
    omega
  refine ⟨gdtEntryBase_of start access found, ?_⟩
  have limit := gdtEntryLimit_of (by omega) access found
  have size : 0 < entry.1.actualMinAlloc ∧ entry.1.actualMinAlloc ≤ 0x10000 := by
    have := sized.minAllocSize
    unfold NeSegmentEntry.actualMinAlloc
    split <;> omega
  rw [limit]
  omega

end Descriptors

section Placed

/-- The segments of a loaded executable have their own ranges of guest memory, up to a number
clear of the thunks and of the stubs, and each has a descriptor of its range. -/
structure SegmentsPlaced (host : Platform) (data : List UInt8) (file : NeFile)
    (final : GuestMemory) (clear : Nat) (covered : NeSegmentEntry → Nat) : Prop where
  apart : ∀ first ∈ file.segmentTable.zipIdx, ∀ second ∈ file.segmentTable.zipIdx,
    first.2 ≠ second.2 → Apart (segmentStart first.2) (loadedLength first.1)
      (segmentStart second.2) (loadedLength second.1)
  reserved : ∀ entry ∈ file.segmentTable.zipIdx, entry.2 < clear →
    Apart (segmentStart entry.2) (loadedLength entry.1) neThunkBase tileSize ∧
      Apart (segmentStart entry.2) (loadedLength entry.1) magicApiBase stubAreaSize
  loaded : ∀ mem next : GuestMemory, mem.size = guestMemSize →
    (file.segmentTable.zipIdx.foldlM
      (loadSegment host.seekLimit data file.header.alignmentShiftCount) mem).Returns next →
      ∀ entry ∈ file.segmentTable.zipIdx,
        next.slice (segmentStart entry.2) (loadedLength entry.1) =
          some ((data.drop (fileStart file.header.alignmentShiftCount entry.1)).take
            (loadedLength entry.1))
  described : ∀ entry ∈ file.segmentTable.zipIdx,
    segSelector (entry.2 + 1) = some (selectorOf entry.2) ∧
      gdtEntryBase final (selectorOf entry.2) = segmentStart entry.2 ∧
      gdtEntryLimit final (selectorOf entry.2) + 1 = covered entry.1

variable {host : Platform} {data : List UInt8} {file : NeFile} {exeName : List Char}
  {rows cols : UInt16} {fuel : Nat} {start : NeStart} {next : SharedState}

theorem loaded_slice (sized : file.Sized) {mem after : GuestMemory} (size : mem.size = guestMemSize)
    (returned : (file.segmentTable.zipIdx.foldlM
      (loadSegment host.seekLimit data file.header.alignmentShiftCount) mem).Returns after)
    {entry : NeSegmentEntry × Nat} (member : entry ∈ file.segmentTable.zipIdx) :
    after.slice (segmentStart entry.2) (loadedLength entry.1) =
      some ((data.drop (fileStart file.header.alignmentShiftCount entry.1)).take
        (loadedLength entry.1)) := by
  -- the first segment is not read where the size of a sector is no word
  have bounded : file.segmentTable ≠ [] → file.header.alignmentShiftCount < 64 := by
    intro some_
    by_contra wide
    exact nomatch returned.symm.trans (segments_panic (Nat.le_of_not_lt wide) some_)
  obtain ⟨read, rfl⟩ := (segments_return sized bounded size).mp returned
  have slice := @slice_loadedMemory data mem entry file sized size member
  rwa [segmentWrite_length (read entry member)] at slice

/-- The start completes where the segments can be read, the relocations have targets and
chains that end, and what is set up beside them fits. -/
theorem startNe_returns (sized : file.Sized)
    (bounded : file.segmentTable ≠ [] → file.header.alignmentShiftCount < 64)
    (read : ∀ entry ∈ file.segmentTable.zipIdx,
      SegmentRead host.seekLimit data file.header.alignmentShiftCount entry.1)
    (targets : ∀ site ∈ sites file, TargetSafe file site.2.target)
    (chains : ∃ after, ChainsEnd file (sites file)
      (loadedMemory data file (newLoader rows cols).guestMem) after)
    (fits : NeEnvironmentFits host.uppercase exeName ∧ ScreenFits rows cols ∧ StackSafe file) :
    ∃ fuel start next, (startNe fuel host data file exeName rows cols).Returns (start, next) := by
  have size : (newLoader rows cols).guestMem.size = guestMemSize := rfl
  obtain ⟨fixed, chains⟩ := chains
  obtain ⟨fuel, applied⟩ := (applyNeFixups_iff sized targets).mpr chains
  have kept : fixed.size = guestMemSize := chains.size.trans (loadedMemory_size.trans size)
  obtain ⟨⟨start, next⟩, setUp⟩ := (@setupGuestNe_isSome file
    { newLoader rows cols with guestMem := fixed, exeName } host.uppercase sized kept rfl).mpr fits
  refine ⟨fuel, start, next, ?_⟩
  unfold startNe loadNe
  simp only [returns_bind, returns_ofOption, returns_pure]
  exact ⟨_, ⟨_, (segments_return sized bounded size).mpr ⟨read, rfl⟩, fixed, applied, rfl⟩, setUp⟩

theorem sampleNe_returns : ∃ fuel start next,
    (startNe fuel sampleHost sampleNe sampleNeFile "app.exe".toList 25 80).Returns (start, next) := by
  apply startNe_returns (NeFile.parse_sized sampleNe_parsed) (by decide) (by decide +kernel)
    sampleNe_targets sampleNe_chains
  exact ⟨by decide, by decide, by decide⟩

end Placed
end Warpine.Vcpu
