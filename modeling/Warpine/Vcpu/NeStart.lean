import Warpine.Vcpu.NeChains

/-! Which 16-bit executables are loaded, linked and set up without a panic and without a
chain that has no end, and that their segments keep their numbers. -/
namespace Warpine.Vcpu
open Warpine.Lib Warpine.Guest Warpine.Ne Warpine.Loader Attempt

section Segments

variable (seekLimit : Nat) (data : List UInt8) (shift : Nat)

def fileStart (seg : NeSegmentEntry) : Nat := (seg.dataOffset <<< shift) % 2 ^ 64

/-- The segment has no data in the file, or data that is there. -/
def SegmentRead (seg : NeSegmentEntry) : Prop :=
  seg.dataOffset = 0 ∨ fileStart shift seg ≤ seekLimit ∧
    fileStart shift seg + seg.actualDataLength ≤ data.length

instance (seg : NeSegmentEntry) : Decidable (SegmentRead seekLimit data shift seg) :=
  inferInstanceAs (Decidable (_ ∨ _))

def placeSegment (mem : GuestMemory) (entry : NeSegmentEntry × Nat) : GuestMemory :=
  if entry.1.dataOffset = 0 then mem
  else mem.putBytes (neSegmentBase + entry.2 * tileSize)
    ((data.drop (fileStart shift entry.1)).take entry.1.actualDataLength)

/-- Guest memory with all segments of the file in their tiles. -/
def loadedMemory (file : NeFile) (mem : GuestMemory) : GuestMemory :=
  file.segmentTable.zipIdx.foldl (placeSegment data file.header.alignmentShiftCount) mem

variable {seekLimit data shift} {mem next : GuestMemory} {entry : NeSegmentEntry × Nat}

theorem placeSegment_size : (placeSegment data shift mem entry).size = mem.size := by
  unfold placeSegment
  split
  · rfl
  · exact GuestMemory.putBytes_size mem

/-- A segment of any length has its place in its tile, and the tile in guest memory. -/
theorem slice_tile (sized : entry.1.Sized) (few : entry.2 < 255) (size : mem.size = guestMemSize) :
    ∃ buf, mem.slice (neSegmentBase + entry.2 * tileSize) entry.1.actualDataLength = some buf ∧
      buf.length = entry.1.actualDataLength := by
  have length : entry.1.actualDataLength ≤ 0x10000 := by
    have := sized.dataLength
    unfold NeSegmentEntry.actualDataLength
    split <;> omega
  have fits : mem.inBounds (neSegmentBase + entry.2 * tileSize) entry.1.actualDataLength := by
    rw [GuestMemory.inBounds, size, decide_eq_true_eq]
    unfold neSegmentBase tileSize guestMemSize
    omega
  exact ⟨_, if_pos fits, ByteStore.load_length ..⟩

theorem loadSegment_returns (sized : entry.1.Sized) (few : entry.2 < 255)
    (bounded : shift < 64) (size : mem.size = guestMemSize) :
    (loadSegment seekLimit data shift mem entry).Returns next ↔
      SegmentRead seekLimit data shift entry.1 ∧ next = placeSegment data shift mem entry := by
  obtain ⟨buf, slice, length⟩ := slice_tile sized few size
  have start : entry.1.fileOffset shift = some (fileStart shift entry.1) := if_pos bounded
  unfold loadSegment SegmentRead placeSegment
  simp only [returns_bind, returns_ofOption, tileAt_eq (show entry.2 ≤ 255 by omega), start,
    Option.some.injEq, exists_eq_left']
  by_cases empty : entry.1.dataOffset = 0
  · simp [empty, returns_pure, eq_comm]
  · simp only [empty, if_false, false_or]
    by_cases far : seekLimit < fileStart shift entry.1
    · simp only [far, if_true, not_returns_throw, false_iff]
      omega
    · simp only [far, if_false, returns_bind, returns_ofOption, slice, Option.some.injEq,
        exists_eq_left', length]
      by_cases short : data.length < fileStart shift entry.1 + entry.1.actualDataLength
      · simp only [short, if_true, not_returns_throw, false_iff]
        omega
      · simp only [short, if_false, returns_pure]
        constructor
        · rintro rfl
          exact ⟨by omega, rfl⟩
        · rintro ⟨-, rfl⟩
          rfl

theorem loadSegment_size (loaded : (loadSegment seekLimit data shift mem entry).Returns next) :
    next.size = mem.size := by
  unfold loadSegment at loaded
  simp only [returns_bind, returns_ofOption] at loaded
  obtain ⟨guestAddr, _, fileOff, _, loaded⟩ := loaded
  split at loaded
  · exact congrArg GuestMemory.size (returns_pure.mp loaded).symm
  split at loaded
  · exact absurd loaded not_returns_throw
  · simp only [returns_bind, returns_ofOption] at loaded
    obtain ⟨buf, _, loaded⟩ := loaded
    split at loaded
    · exact absurd loaded not_returns_throw
    · rw [← returns_pure.mp loaded]
      exact GuestMemory.putBytes_size mem

theorem loadSegment_not_panics (sized : entry.1.Sized) (few : entry.2 < 255)
    (bounded : shift < 64) (size : mem.size = guestMemSize) :
    ¬(loadSegment seekLimit data shift mem entry).Panics := by
  obtain ⟨buf, slice, length⟩ := slice_tile sized few size
  have start : entry.1.fileOffset shift = some (fileStart shift entry.1) := if_pos bounded
  unfold loadSegment
  simp only [panics_bind, panics_ofOption, returns_ofOption,
    tileAt_eq (show entry.2 ≤ 255 by omega), start, Option.some.injEq, exists_eq_left', reduceCtorEq,
    false_or]
  split
  · exact not_panics_pure
  split
  · exact not_panics_throw
  · simp only [panics_bind, panics_ofOption, returns_ofOption, slice, Option.some.injEq,
      exists_eq_left', reduceCtorEq, false_or]
    split
    · exact not_panics_throw
    · exact not_panics_pure

theorem loadSegment_panics (few : entry.2 < 255) (wide : 64 ≤ shift) :
    (loadSegment seekLimit data shift mem entry).Panics := by
  have lost : entry.1.fileOffset shift = none := if_neg (by omega)
  unfold loadSegment
  simp only [panics_bind, panics_ofOption, returns_ofOption,
    tileAt_eq (show entry.2 ≤ 255 by omega), lost, Option.some.injEq, exists_eq_left', true_or,
    or_true]

end Segments

section Loop

variable {seekLimit : Nat} {data : List UInt8} {file : NeFile} {mem next : GuestMemory}

theorem nonempty_of_mem_zipIdx {α : Type} {list : List α} {entry : α × Nat}
    (member : entry ∈ list.zipIdx) : list ≠ [] := by
  rintro rfl
  cases member

theorem segment_entry (sized : file.Sized) {entry : NeSegmentEntry × Nat}
    (member : entry ∈ file.segmentTable.zipIdx) : entry.1.Sized ∧ entry.2 < 255 := by
  have found := List.mem_zipIdx' member
  have few := sized.few
  refine ⟨?_, by omega⟩
  rw [found.2]
  exact sized.segments _ (List.getElem_mem _)

theorem loadedMemory_size : (loadedMemory data file mem).size = mem.size := by
  unfold loadedMemory
  generalize file.segmentTable.zipIdx = entries
  induction entries generalizing mem with
  | nil => rfl
  | cons entry rest ih => exact ih.trans placeSegment_size

/-- The loop over the segments gets to its end where it can read each of them. -/
theorem segments_return (sized : file.Sized)
    (bounded : file.segmentTable ≠ [] → file.header.alignmentShiftCount < 64) (size : mem.size = guestMemSize) :
    (file.segmentTable.zipIdx.foldlM
        (loadSegment seekLimit data file.header.alignmentShiftCount) mem).Returns next ↔
      (∀ entry ∈ file.segmentTable.zipIdx,
        SegmentRead seekLimit data file.header.alignmentShiftCount entry.1) ∧
          next = loadedMemory data file mem := by
  have keeps : ∀ (mem : GuestMemory) (entry : NeSegmentEntry × Nat), mem.size = guestMemSize →
      (placeSegment data file.header.alignmentShiftCount mem entry).size = guestMemSize :=
    fun _ _ kept => placeSegment_size.trans kept
  refine returns_foldlM_eq keeps ?_ size
  intro entry member mem kept next
  obtain ⟨fits, few⟩ := segment_entry sized member
  exact loadSegment_returns fits few (bounded (nonempty_of_mem_zipIdx member)) kept

theorem segments_not_panic (sized : file.Sized)
    (bounded : file.segmentTable ≠ [] → file.header.alignmentShiftCount < 64) (size : mem.size = guestMemSize) :
    ¬(file.segmentTable.zipIdx.foldlM
      (loadSegment seekLimit data file.header.alignmentShiftCount) mem).Panics := by
  have keeps : ∀ (mem : GuestMemory) (entry : NeSegmentEntry × Nat) next,
      mem.size = guestMemSize →
        (loadSegment seekLimit data file.header.alignmentShiftCount mem entry).Returns next →
          next.size = guestMemSize :=
    fun _ _ _ kept loaded => (loadSegment_size loaded).trans kept
  refine not_panics_foldlM_of_never keeps ?_ size
  intro entry member mem kept
  obtain ⟨fits, few⟩ := segment_entry sized member
  exact loadSegment_not_panics fits few (bounded (nonempty_of_mem_zipIdx member)) kept

/-- A sector size that is no word is met at the first segment. -/
theorem segments_panic (wide : 64 ≤ file.header.alignmentShiftCount)
    (some_ : file.segmentTable ≠ []) :
    (file.segmentTable.zipIdx.foldlM
      (loadSegment seekLimit data file.header.alignmentShiftCount) mem).Panics := by
  obtain ⟨seg, rest, table⟩ := List.exists_cons_of_ne_nil some_
  rw [table, List.zipIdx_cons, List.foldlM_cons, panics_bind]
  exact .inl (loadSegment_panics (show 0 < 255 by decide) wide)

end Loop

section Fixups

/-- The relocations of all segments in turn, with the base of the segment. -/
def sites (file : NeFile) : List (Nat × NeRelocationEntry) :=
  file.relocationsBySegment.zipIdx.flatMap fun entry =>
    entry.1.map (neSegmentBase + entry.2 * tileSize, ·)

/-- The target has an offset and a selector that are words. -/
def TargetSafe (file : NeFile) : NeRelocationTarget → Prop
  | .internalRef segmentNum _ => segmentNum ≠ 0
  | .importOrdinal moduleIndex ordinal =>
      thunkBase (importedModule file moduleIndex) + ordinal < 2 ^ 16
  | _ => True

/-- What a safe target stands for, if it is not left out. -/
def placedTarget (file : NeFile) : NeRelocationTarget → Option (Nat × Nat)
  | .internalRef segmentNum offset => some (offset, selectorOf (segmentNum - 1))
  | .importOrdinal moduleIndex ordinal =>
      some (thunkBase (importedModule file moduleIndex) + ordinal, neThunkCodeSelector)
  | .importName _ _ => some (0, neThunkSelector)
  | .osFixup _ => none

/-- The chains of the relocations come to their ends, one after the other. -/
inductive ChainsEnd (file : NeFile) :
    List (Nat × NeRelocationEntry) → GuestMemory → GuestMemory → Prop where
  | done (mem : GuestMemory) : ChainsEnd file [] mem mem
  | leftOut {base : Nat} {reloc : NeRelocationEntry} {rest : List (Nat × NeRelocationEntry)}
      {mem after : GuestMemory} (none : placedTarget file reloc.target = none)
      (others : ChainsEnd file rest mem after) : ChainsEnd file ((base, reloc) :: rest) mem after
  | followed {base : Nat} {reloc : NeRelocationEntry} {rest : List (Nat × NeRelocationEntry)}
      {target : Nat × Nat} {mem middle after : GuestMemory}
      (placed : placedTarget file reloc.target = some target)
      (chain : Chain reloc target base reloc.sourceOffset mem middle)
      (others : ChainsEnd file rest middle after) :
      ChainsEnd file ((base, reloc) :: rest) mem after

variable {file : NeFile} {fuel : Nat} {mem after : GuestMemory}

theorem relocTarget_safe {target : NeRelocationTarget} (sized : target.Sized)
    (safe : TargetSafe file target) : relocTarget file target = some (placedTarget file target) := by
  cases target with
  | internalRef segmentNum offset =>
    have number : segmentNum = segmentNum - 1 + 1 := by
      unfold TargetSafe at safe
      omega
    have selector : segSelector segmentNum = some (selectorOf (segmentNum - 1)) := by
      have few : segmentNum < 2 ^ 8 := sized.1
      rw [number]
      exact segSelector_eq (by omega)
    rw [relocTarget, selector]
    rfl
  | importOrdinal moduleIndex ordinal =>
    have thunk : resolveImport16 (importedModule file moduleIndex) ordinal =
      some (thunkBase (importedModule file moduleIndex) + ordinal) := if_pos safe
    rw [relocTarget, thunk]
    rfl
  | importName | osFixup => rfl

theorem relocTarget_unsafe {target : NeRelocationTarget} (bad : ¬TargetSafe file target) :
    relocTarget file target = none := by
  cases target with
  | internalRef segmentNum offset =>
    have zero : segmentNum = 0 := by
      unfold TargetSafe at bad
      omega
    rw [zero, relocTarget, segSelector_zero]
    rfl
  | importOrdinal moduleIndex ordinal =>
    have lost : resolveImport16 (importedModule file moduleIndex) ordinal = none := if_neg bad
    rw [relocTarget, lost]
    rfl
  | importName | osFixup => exact absurd trivial bad

/-- The loops over segments and relocations as one, since the numbers of the segments fit. -/
theorem applyNeFixups_sites (sized : file.Sized) : applyNeFixups fuel file mem =
    (sites file).foldlM (fun mem site => applyRelocation fuel file site.1 mem site.2) mem := by
  have few : ∀ entry ∈ file.relocationsBySegment.zipIdx, entry.2 < 255 := by
    intro entry member
    have found := (List.mem_zipIdx' member).1
    have parallel := sized.parallel
    have := sized.few
    omega
  unfold applyNeFixups sites
  rw [foldlM_flatMap]
  apply foldlM_congr_mem
  intro entry member mem
  rw [applySegment, segBase_eq (few entry member), List.foldlM_map]
  rfl

theorem applyRelocation_mono {base more : Nat} {reloc : NeRelocationEntry} (le : fuel ≤ more)
    (low : base + 0x10002 ≤ 2 ^ 32) (small : reloc.sourceOffset < 2 ^ 16)
    (h : applyRelocation fuel file base mem reloc = some after) :
    applyRelocation more file base mem reloc = some after := by
  unfold applyRelocation at h ⊢
  obtain ⟨target, found, h⟩ := Option.bind_eq_some_iff.mp h
  refine Option.bind_eq_some_iff.mpr ⟨target, found, ?_⟩
  cases target with
  | none => exact h
  | some place => exact followChain_mono low le small h

theorem sites_mono {more : Nat} {sites : List (Nat × NeRelocationEntry)} (le : fuel ≤ more)
    (placed : ∀ site ∈ sites, site.1 + 0x10002 ≤ 2 ^ 32 ∧ site.2.Sized)
    (h : sites.foldlM (fun mem site => applyRelocation fuel file site.1 mem site.2) mem =
      some after) :
    sites.foldlM (fun mem site => applyRelocation more file site.1 mem site.2) mem =
      some after := by
  induction sites generalizing mem with
  | nil => exact h
  | cons site rest ih =>
    obtain ⟨⟨low, fits⟩, later⟩ := List.forall_mem_cons.mp placed
    rw [List.foldlM_cons] at h ⊢
    obtain ⟨middle, first, h⟩ := Option.bind_eq_some_iff.mp h
    exact Option.bind_eq_some_iff.mpr
      ⟨middle, applyRelocation_mono le low fits.sourceOffset first, ih later h⟩

/-- The places of all relocations lie in guest memory. -/
theorem sites_placed (sized : file.Sized) :
    ∀ site ∈ sites file, site.1 + 0x10003 ≤ guestMemSize ∧ site.2.Sized := by
  intro site member
  obtain ⟨entry, hentry, member⟩ := List.mem_flatMap.mp member
  obtain ⟨reloc, hreloc, rfl⟩ := List.mem_map.mp member
  have found := List.mem_zipIdx' hentry
  have parallel := sized.parallel
  have few := sized.few
  exact ⟨segment_room (by omega),
    sized.relocations entry.1 (found.2 ▸ List.getElem_mem _) reloc hreloc⟩

/-- A relocation whose target is known follows its chain, or leaves the memory as it is. -/
theorem applyRelocation_safe {reloc : NeRelocationEntry} {base : Nat}
    (target : relocTarget file reloc.target = some (placedTarget file reloc.target))
    (fuel : Nat) (mem : GuestMemory) : applyRelocation fuel file base mem reloc =
      match placedTarget file reloc.target with
      | none => some mem
      | some target => followChain reloc target base fuel reloc.sourceOffset mem := by
  rw [applyRelocation, target, Option.bind_eq_bind, Option.bind_some]
  cases placedTarget file reloc.target <;> rfl

/-- Where all targets are safe, the pass ends just when all chains do. -/
theorem applyNeFixups_iff (sized : file.Sized) (safe : ∀ site ∈ sites file,
    TargetSafe file site.2.target) : (∃ fuel, applyNeFixups fuel file mem = some after) ↔
      ChainsEnd file (sites file) mem after := by
  have placed : ∀ site ∈ sites file, site.1 + 0x10002 ≤ 2 ^ 32 ∧ site.2.Sized := by
    intro site member
    obtain ⟨room, fits⟩ := sites_placed sized site member
    exact ⟨low_of_room room, fits⟩
  simp only [applyNeFixups_sites sized]
  generalize sites file = sites at safe placed
  induction sites generalizing mem with
  | nil =>
    constructor
    · rintro ⟨_, h⟩
      cases h
      exact .done _
    · intro chains
      cases chains
      exact ⟨0, rfl⟩
  | cons site rest ih =>
    obtain ⟨base, reloc⟩ := site
    obtain ⟨safeHere, safeLater⟩ := List.forall_mem_cons.mp safe
    obtain ⟨⟨low, fits⟩, placedLater⟩ := List.forall_mem_cons.mp placed
    have target := relocTarget_safe fits.target safeHere
    simp only [List.foldlM_cons, applyRelocation_safe target]
    cases found : placedTarget file reloc.target with
    | none =>
      simp only [Option.bind_eq_bind, Option.bind_some, ih safeLater placedLater]
      constructor
      · exact .leftOut found
      · intro chains
        cases chains with
        | leftOut _ others => exact others
        | followed placed => cases found.symm.trans placed
    | some place =>
      simp only [Option.bind_eq_bind, Option.bind_eq_some_iff]
      constructor
      · rintro ⟨fuel, middle, chain, others⟩
        exact .followed found ((followChain_iff low fits.sourceOffset).mp ⟨fuel, chain⟩)
          ((ih safeLater placedLater).mp ⟨fuel, others⟩)
      · intro chains
        cases chains with
        | leftOut none => cases found.symm.trans none
        | followed placed chain others =>
          cases found.symm.trans placed
          obtain ⟨first, hfirst⟩ := (followChain_iff low fits.sourceOffset).mpr chain
          obtain ⟨second, hsecond⟩ := (ih safeLater placedLater).mpr others
          exact ⟨max first second, _, followChain_mono low (Nat.le_max_left ..) fits.sourceOffset
            hfirst, sites_mono (Nat.le_max_right ..) placedLater hsecond⟩

/-- A pass that ends has found all targets safe. -/
theorem applyNeFixups_safe (sized : file.Sized) (h : applyNeFixups fuel file mem = some after) :
    ∀ site ∈ sites file, TargetSafe file site.2.target := by
  rw [applyNeFixups_sites sized] at h
  generalize sites file = sites at h
  induction sites generalizing mem with
  | nil => simp
  | cons site rest ih =>
    rw [List.foldlM_cons] at h
    obtain ⟨middle, first, h⟩ := Option.bind_eq_some_iff.mp h
    refine List.forall_mem_cons.mpr ⟨?_, ih h⟩
    by_contra bad
    rw [applyRelocation, relocTarget_unsafe bad] at first
    cases first

theorem ChainsEnd.size {rest : List (Nat × NeRelocationEntry)}
    (chains : ChainsEnd file rest mem after) : after.size = mem.size := by
  induction chains with
  | done => rfl
  | leftOut _ _ ih => exact ih
  | followed _ chain _ ih => exact ih.trans chain.size

end Fixups

section SetUp

variable {file : NeFile} {s next : SharedState} {uppercase : List Char → List Char}
  {start : NeStart} {mem : GuestMemory}

/-- The descriptor of a segment stands at the place that its selector names. -/
def descriptorWrite (entry : NeSegmentEntry × Nat) : Nat × List UInt8 :=
  (gdtBase + selectorOf entry.2,
    leBytes 8 (makeGdtEntry (neSegmentBase + entry.2 * tileSize)
      (min (entry.1.actualMinAlloc - 1) 0xFFFF) (if entry.1.isCode then 0x9B else 0xD3) 0x00))

theorem segmentDescriptor_eq {entry : NeSegmentEntry × Nat} (few : entry.2 < 255) :
    segmentDescriptor entry = some (descriptorWrite entry) := by
  have tile : (neSegmentBase + entry.2 * tileSize) / tileSize = 16 + entry.2 := by
    unfold neSegmentBase tileSize
    omega
  have sum : tiledSelStartIndex + (16 + entry.2) = 22 + entry.2 := by
    unfold tiledSelStartIndex
    omega
  have index : addWord 32 tiledSelStartIndex (16 + entry.2) = some (22 + entry.2) := by
    rw [addWord, sum, if_pos (by omega)]
  have same : (22 + entry.2) * 8 = selectorOf entry.2 := rfl
  have selector : mulWord 32 (22 + entry.2) 8 = some (selectorOf entry.2) := by
    rw [mulWord, if_pos (by omega), same]
  have offset : addWord 32 gdtBase (selectorOf entry.2) = some (gdtBase + selectorOf entry.2) := by
    rw [addWord, if_pos]
    rw [← same]
    unfold gdtBase
    omega
  rw [segmentDescriptor, tileAt_eq (show entry.2 ≤ 255 by omega)]
  simp only [Option.bind_eq_bind, Option.bind_some, tile, index, selector, offset, Option.pure_def]
  rw [descriptorWrite]

def descriptorWrites (file : NeFile) : List (Nat × List UInt8) :=
  file.segmentTable.zipIdx.map descriptorWrite

theorem describeSegments_eq (sized : file.Sized) :
    file.segmentTable.zipIdx.foldlM describeSegment mem = mem.writeAll (descriptorWrites file) := by
  unfold GuestMemory.writeAll descriptorWrites
  rw [List.foldlM_map]
  apply foldlM_congr_mem
  intro entry member mem
  rw [describeSegment, segmentDescriptor_eq (segment_entry sized member).2]
  rfl

theorem descriptorWrites_placed (sized : file.Sized) : Placed (descriptorWrites file) := by
  intro write member
  obtain ⟨entry, hentry, rfl⟩ := List.mem_map.mp member
  have few := (segment_entry sized hentry).2
  unfold descriptorWrite selectorOf
  rw [leBytes_length]
  unfold gdtBase tiledSelStartIndex neSegmentBase tileSize guestMemSize
  omega

theorem thunkTile_placed : Placed thunkTile := by
  intro write member
  obtain ⟨i, inside, rfl⟩ := List.mem_map.mp member
  rw [List.mem_range] at inside
  rw [leBytes_length]
  unfold tileSize at inside
  unfold neThunkBase guestMemSize
  omega

theorem neInfoBlocks_placed (envAddr cmdlineAddr : Nat) :
    Placed (neInfoBlocks envAddr cmdlineAddr) :=
  fun write member => infoBlocks_placed envAddr cmdlineAddr write (List.mem_of_mem_tail member)

/-- A selector is computed from any word, though not every one has a segment. -/
theorem entrySelector_isSome {segNum fallback : Nat} (word : segNum < 2 ^ 16) :
    ∃ selector, entrySelector segNum fallback = some selector := by
  unfold entrySelector
  split
  · have tile : addWord 32 (neSegmentBase / tileSize) (segNum - 1) =
        some (neSegmentBase / tileSize + (segNum - 1)) :=
      if_pos (by unfold neSegmentBase tileSize; omega)
    have index : addWord 32 tiledSelStartIndex (neSegmentBase / tileSize + (segNum - 1)) =
        some (tiledSelStartIndex + (neSegmentBase / tileSize + (segNum - 1))) :=
      if_pos (by unfold tiledSelStartIndex neSegmentBase tileSize; omega)
    have selector : mulWord 32 (tiledSelStartIndex + (neSegmentBase / tileSize + (segNum - 1))) 8 =
        some ((tiledSelStartIndex + (neSegmentBase / tileSize + (segNum - 1))) * 8) :=
      if_pos (by unfold tiledSelStartIndex neSegmentBase tileSize; omega)
    simp only [Option.bind_eq_bind, Option.bind_some, tile, index, selector, Option.pure_def]
    exact ⟨_, rfl⟩
  · exact ⟨fallback, rfl⟩

/-- Without a stack pointer, the stack has a segment. -/
def StackSafe (file : NeFile) : Prop :=
  file.header.stackSp = 0 →
    file.header.stackSs ≠ 0 ∧ file.header.stackSs ≤ file.segmentTable.length

instance (file : NeFile) : Decidable (StackSafe file) := inferInstanceAs (Decidable (_ → _))

theorem actualSp_isSome : (∃ sp, actualSp file = some sp) ↔ StackSafe file := by
  unfold actualSp StackSafe
  by_cases top : file.header.stackSp = 0
  · simp only [top, if_true, forall_const, ← nth_eq_some, Option.bind_eq_bind,
      Option.bind_eq_some_iff, Option.pure_def, Option.some.injEq]
    constructor
    · rintro ⟨_, seg, found, _⟩
      exact ⟨seg, found⟩
    · rintro ⟨seg, found⟩
      exact ⟨_, seg, found, rfl⟩
  · simp [top]

def NeEnvironmentFits (uppercase : List Char → List Char) (exeName : List Char) : Prop :=
  (neEnvBlock uppercase exeName).length ≤ guestMemSize - dynamicAllocBase

instance (uppercase : List Char → List Char) (exeName : List Char) :
    Decidable (NeEnvironmentFits uppercase exeName) := inferInstanceAs (Decidable (_ ≤ _))

/-- What a set-up that completes has done on the way. -/
theorem setupGuestNe_eq_some : (∃ found, setupGuestNe uppercase file s = some found) ↔
    (∃ envAddr memMgr env, s.memMgr.alloc ((neEnvBlock uppercase s.exeName).length % u32Size) =
        some (envAddr, memMgr) ∧
      s.guestMem.writeBytes envAddr (neEnvBlock uppercase s.exeName) = some env ∧
      ∃ cmdlineAddr, addWord 32 envAddr neEnvironmentBytes.length = some cmdlineAddr ∧
      ∃ info, env.writeAll (neInfoBlocks envAddr cmdlineAddr) = some info ∧
      ∃ cells pageSize lastRow, mulWord 16 s.cols.toNat s.rows.toNat = some cells ∧
        mulWord 16 cells 2 = some pageSize ∧ subWord s.rows.toNat 1 = some lastRow ∧
      ∃ bios, info.writeAll (biosDataArea s.cols.toNat pageSize lastRow) = some bios ∧
      ∃ stubbed, setupStubs bios = some stubbed ∧
      ∃ tables, setupIdt stubbed = some tables ∧
      ∃ thunks, tables.writeAll thunkTile = some thunks ∧
      ∃ final, file.segmentTable.zipIdx.foldlM describeSegment thunks = some final ∧
      (∃ csSel, entrySelector file.header.entryCs 0x08 = some csSel) ∧
      (∃ ssSel, entrySelector file.header.stackSs 0x10 = some ssSel) ∧
      ∃ sp, actualSp file = some sp) := by
  simp only [setupGuestNe, Option.bind_eq_bind, Option.bind_eq_some_iff, Option.pure_def,
    Option.some.injEq, Prod.exists]
  constructor
  · rintro ⟨_, _, envAddr, memMgr, alloc, cmdlineAddr, cmdline, env, wrote, info, blocks, cells,
      hcells, pageSize, hpage, lastRow, hrow, bios, hbios, stubbed, hstubs, tables, hidt, thunks,
      hthunks, final, described, csSel, hcs, ssSel, hss, sp, hsp, -⟩
    exact ⟨envAddr, memMgr, env, alloc, wrote, cmdlineAddr, cmdline, info, blocks, cells, pageSize,
      lastRow, hcells, hpage, hrow, bios, hbios, stubbed, hstubs, tables, hidt, thunks, hthunks,
      final, described, ⟨csSel, hcs⟩, ⟨ssSel, hss⟩, sp, hsp⟩
  · rintro ⟨envAddr, memMgr, env, alloc, wrote, cmdlineAddr, cmdline, info, blocks, cells, pageSize,
      lastRow, hcells, hpage, hrow, bios, hbios, stubbed, hstubs, tables, hidt, thunks, hthunks,
      final, described, ⟨csSel, hcs⟩, ⟨ssSel, hss⟩, sp, hsp⟩
    exact ⟨_, _, envAddr, memMgr, alloc, cmdlineAddr, cmdline, env, wrote, info, blocks, cells,
      hcells, pageSize, hpage, lastRow, hrow, bios, hbios, stubbed, hstubs, tables, hidt, thunks,
      hthunks, final, described, csSel, hcs, ssSel, hss, sp, hsp, rfl⟩

theorem setupGuestNe_isSome (sized : file.Sized) (size : s.guestMem.size = guestMemSize)
    (fresh : s.memMgr = (newLoader s.rows s.cols).memMgr) :
    (∃ found, setupGuestNe uppercase file s = some found) ↔
      NeEnvironmentFits uppercase s.exeName ∧ ScreenFits s.rows s.cols ∧ StackSafe file := by
  rw [setupGuestNe_eq_some, NeEnvironmentFits, ← @writeEnvironment_isSome s.rows s.cols _ _ size,
    ← screen_isSome, ← fresh, ← actualSp_isSome]
  constructor
  · rintro ⟨envAddr, memMgr, env, alloc, wrote, _, _, _, _, cells, pageSize, lastRow, hcells, hpage,
      hrow, _, _, _, _, _, _, _, _, _, _, _, _, sp⟩
    exact ⟨⟨envAddr, memMgr, env, alloc, wrote⟩, ⟨cells, pageSize, lastRow, hcells, hpage, hrow⟩, sp⟩
  · rintro ⟨⟨envAddr, memMgr, env, alloc, wrote⟩, ⟨cells, pageSize, lastRow, hcells, hpage, hrow⟩,
      sp⟩
    have place : envAddr = dynamicAllocBase :=
      ((@alloc_newLoader s.rows s.cols _ envAddr).mp ⟨memMgr, fresh ▸ alloc⟩).2
    have cmdline : addWord 32 envAddr neEnvironmentBytes.length =
        some (envAddr + neEnvironmentBytes.length) := by
      rw [place]
      decide
    obtain ⟨info, blocks, size⟩ := writeAll_placed (neInfoBlocks_placed envAddr
      (envAddr + neEnvironmentBytes.length)) ((writeBytes_size wrote).trans size)
    obtain ⟨bios, hbios, size⟩ :=
      writeAll_placed (biosDataArea_placed s.cols.toNat pageSize lastRow) size
    obtain ⟨stubbed, hstubs, size⟩ := setupStubs_placed size
    obtain ⟨tables, hidt, size⟩ := setupIdt_placed size
    obtain ⟨thunks, hthunks, size⟩ := writeAll_placed thunkTile_placed size
    obtain ⟨final, described, -⟩ := writeAll_placed (descriptorWrites_placed sized) size
    have word : ∀ n, n % 0x10000 < 2 ^ 16 := fun n => Nat.mod_lt n (by decide)
    exact ⟨envAddr, memMgr, env, alloc, wrote, _, cmdline, info, blocks, cells, pageSize, lastRow,
      hcells, hpage, hrow, bios, hbios, stubbed, hstubs, tables, hidt, thunks, hthunks, final,
      (describeSegments_eq sized).trans described, entrySelector_isSome (word _),
      entrySelector_isSome (word _), sp⟩

theorem descriptorWrites_apart : (descriptorWrites file).Pairwise ByteStore.WritesApart := by
  refine List.pairwise_map.mpr (List.pairwise_iff_getElem.mpr ?_)
  intro i j hi hj before
  simp only [List.getElem_zipIdx]
  refine .inl ?_
  unfold descriptorWrite selectorOf
  rw [leBytes_length]
  dsimp only
  omega

/-- The descriptors of the segments are the last that the set-up writes. -/
theorem setupGuestNe_described (sized : file.Sized)
    (done : setupGuestNe uppercase file s = some (start, next)) :
    ∃ thunks : GuestMemory, thunks.writeAll (descriptorWrites file) = some next.guestMem := by
  simp only [setupGuestNe, Option.bind_eq_bind, Option.bind_eq_some_iff, Option.pure_def,
    Option.some.injEq, Prod.mk.injEq, Prod.exists] at done
  obtain ⟨_, _, _, _, _, _, _, _, _, _, _, _, _, _, _, _, _, _, _, _, _, thunks, _, final, described,
    _, _, _, _, _, _, _, rfl⟩ := done
  exact ⟨thunks, (describeSegments_eq sized).symm.trans described⟩

end SetUp

section Start

variable (host : Platform) (data : List UInt8) (file : NeFile) (exeName : List Char)
  (rows cols : UInt16)

/-- The numbers of the segments lead to their own tiles and selectors, by each of the ways
that the loader computes them. -/
structure Numbered : Prop where
  base : ∀ i < file.segmentTable.length,
    tileAt i = some (neSegmentBase + i * tileSize) ∧ segBase ((i + 1) % 256) = tileAt i
  selector : ∀ i < file.segmentTable.length, ∀ fallback, segSelector (i + 1) = some (selectorOf i) ∧
    entrySelector (i + 1) fallback = some (selectorOf i)
  apart : ∀ i < file.segmentTable.length, ∀ j < file.segmentTable.length,
    segBase ((i + 1) % 256) = segBase ((j + 1) % 256) ∨ segSelector (i + 1) = segSelector (j + 1) →
      i = j

/-- The start never panics and comes to an end, and each segment is treated as the one it is. -/
structure NeStarted : Prop where
  completes : ∃ fuel, ¬(startNe fuel host data file exeName rows cols).Panics
  numbered : Numbered file
  described : ∀ fuel start next,
    (startNe fuel host data file exeName rows cols).Returns (start, next) →
      ∀ entry ∈ file.segmentTable.zipIdx, next.guestMem.slice (gdtBase + selectorOf entry.2) 8 =
        some (descriptorWrite entry).2

/-- The sectors of the segments are smaller than a word; and if all segments can be read,
the relocations have targets that are words and chains that end, and the environment, the
screen and the stack fit. -/
structure NeSafe : Prop where
  sectors : file.segmentTable ≠ [] → file.header.alignmentShiftCount < 64
  rest : (∀ seg ∈ file.segmentTable,
      SegmentRead host.seekLimit data file.header.alignmentShiftCount seg) →
    (∀ site ∈ sites file, TargetSafe file site.2.target) ∧
      (∃ after, ChainsEnd file (sites file)
        (loadedMemory data file (newLoader rows cols).guestMem) after) ∧
      NeEnvironmentFits host.uppercase exeName ∧ ScreenFits rows cols ∧ StackSafe file

variable {host data file exeName rows cols}

theorem numbered (sized : file.Sized) : Numbered file := by
  have few := sized.few
  have selector : ∀ i < file.segmentTable.length, segSelector (i + 1) = some (selectorOf i) :=
    fun i inside => segSelector_eq (by omega)
  refine ⟨?_, ?_, ?_⟩
  · intro i inside
    rw [segBase_eq (by omega), tileAt_eq (by omega)]
    exact ⟨rfl, rfl⟩
  · intro i inside fallback
    refine ⟨selector i inside, ?_⟩
    rw [entrySelector, if_pos (Nat.succ_pos i), ← selector i inside, segSelector, Nat.add_sub_cancel,
      wrapSub_of_le (by omega) (by unfold u32Size; omega), Nat.add_sub_cancel]
  · intro i hi j hj same
    rcases same with base | selectors
    · rw [segBase_eq (by omega), segBase_eq (by omega)] at base
      have equal := Option.some.inj base
      unfold tileSize at equal
      omega
    · rw [selector i hi, selector j hj] at selectors
      have equal := Option.some.inj selectors
      unfold selectorOf at equal
      omega

theorem described (sized : file.Sized) {fuel : Nat} {start : NeStart} {next : SharedState}
    (done : (startNe fuel host data file exeName rows cols).Returns (start, next)) :
    ∀ entry ∈ file.segmentTable.zipIdx, next.guestMem.slice (gdtBase + selectorOf entry.2) 8 =
      some (descriptorWrite entry).2 := by
  intro entry member
  unfold startNe at done
  simp only [returns_bind, returns_ofOption] at done
  obtain ⟨s, _, done⟩ := done
  obtain ⟨thunks, written⟩ := setupGuestNe_described sized done
  have kept := thunks.slice_writeAll written descriptorWrites_apart
    (List.mem_map_of_mem (f := descriptorWrite) member)
  rwa [descriptorWrite, leBytes_length] at kept

/-- The start as its three parts: the segments, the relocations, the set-up. -/
theorem startNe_not_panics {fuel : Nat} :
    ¬(startNe fuel host data file exeName rows cols).Panics ↔
      ¬(file.segmentTable.zipIdx.foldlM (loadSegment host.seekLimit data
        file.header.alignmentShiftCount) (newLoader rows cols).guestMem).Panics ∧
      ∀ mem, (file.segmentTable.zipIdx.foldlM (loadSegment host.seekLimit data
          file.header.alignmentShiftCount) (newLoader rows cols).guestMem).Returns mem →
        ∃ fixed, applyNeFixups fuel file mem = some fixed ∧ ∃ found, setupGuestNe host.uppercase file
          { newLoader rows cols with guestMem := fixed, exeName } = some found := by
  unfold startNe loadNe
  simp only [panics_bind, returns_bind, panics_ofOption, returns_ofOption, returns_pure,
    not_panics_pure, and_false, exists_false, or_false, not_or, and_assoc]
  refine and_congr_right fun _ => ?_
  constructor
  · rintro ⟨fixups, setUp⟩ mem loaded
    obtain ⟨fixed, hfixed⟩ := Option.ne_none_iff_exists'.mp fun none => fixups ⟨mem, loaded, none⟩
    refine ⟨fixed, hfixed, Option.ne_none_iff_exists'.mp fun none => setUp ?_⟩
    exact ⟨_, ⟨mem, loaded, fixed, hfixed, rfl⟩, none⟩
  · intro all
    refine ⟨?_, ?_⟩
    · rintro ⟨mem, loaded, none⟩
      obtain ⟨fixed, hfixed, _⟩ := all mem loaded
      cases none.symm.trans hfixed
    · rintro ⟨_, ⟨mem, loaded, fixed, hfixed, rfl⟩, none⟩
      obtain ⟨other, same, found, hfound⟩ := all mem loaded
      cases hfixed.symm.trans same
      cases none.symm.trans hfound

theorem forall_mem_zipIdx {α : Type} {list : List α} {property : α → Prop} :
    (∀ entry ∈ list.zipIdx, property entry.1) ↔ ∀ item ∈ list, property item := by
  have same : list.zipIdx.map Prod.fst = list := List.zipIdx_map_fst 0 list
  conv_rhs => rw [← same]
  exact List.forall_mem_map.symm

theorem startNe_completes_iff (sized : file.Sized) :
    (∃ fuel, ¬(startNe fuel host data file exeName rows cols).Panics) ↔
      NeSafe host data file exeName rows cols := by
  have size : (newLoader rows cols).guestMem.size = guestMemSize := rfl
  have setUp : ∀ fixed : GuestMemory, fixed.size = guestMemSize →
      ((∃ found, setupGuestNe host.uppercase file
        { newLoader rows cols with guestMem := fixed, exeName } = some found) ↔
          NeEnvironmentFits host.uppercase exeName ∧ ScreenFits rows cols ∧ StackSafe file) :=
    fun fixed kept => @setupGuestNe_isSome file { newLoader rows cols with guestMem := fixed, exeName }
      host.uppercase sized kept rfl
  simp only [startNe_not_panics]
  by_cases bounded : file.segmentTable ≠ [] → file.header.alignmentShiftCount < 64
  · have calm := @segments_not_panic host.seekLimit data file _ sized bounded size
    simp only [segments_return sized bounded size, calm, not_false_eq_true, true_and, and_imp,
      forall_eq_apply_imp_iff, forall_mem_zipIdx]
    constructor
    · rintro ⟨fuel, done⟩
      refine ⟨bounded, fun read => ?_⟩
      obtain ⟨fixed, hfixed, found⟩ := done read
      have targets := applyNeFixups_safe sized hfixed
      have chains := (applyNeFixups_iff sized targets).mp ⟨fuel, hfixed⟩
      have kept : fixed.size = guestMemSize := chains.size.trans (loadedMemory_size.trans size)
      exact ⟨targets, ⟨fixed, chains⟩, (setUp fixed kept).mp found⟩
    · rintro ⟨-, rest⟩
      by_cases read : ∀ seg ∈ file.segmentTable,
          SegmentRead host.seekLimit data file.header.alignmentShiftCount seg
      · obtain ⟨targets, ⟨fixed, chains⟩, fits⟩ := rest read
        have kept : fixed.size = guestMemSize := chains.size.trans (loadedMemory_size.trans size)
        obtain ⟨fuel, hfixed⟩ := (applyNeFixups_iff sized targets).mpr chains
        exact ⟨fuel, fun _ => ⟨fixed, hfixed, (setUp fixed kept).mpr fits⟩⟩
      · exact ⟨0, fun all => absurd all read⟩
  · obtain ⟨some_, wide⟩ := Classical.not_imp.mp bounded
    have panics := @segments_panic host.seekLimit data file (newLoader rows cols).guestMem
      (Nat.le_of_not_lt wide) some_
    constructor
    · rintro ⟨_, calm, _⟩
      exact absurd panics calm
    · rintro ⟨sectors, _⟩
      exact absurd (sectors some_) wide

/-- Every 16-bit executable that was parsed starts as it should exactly where it is safe. -/
theorem startNe_iff (host : Platform) (exeName : List Char) (rows cols : UInt16)
    (parsed : NeFile.parse data = some (.ok file)) :
    NeStarted host data file exeName rows cols ↔ NeSafe host data file exeName rows cols := by
  have sized := NeFile.parse_sized parsed
  rw [← startNe_completes_iff sized]
  constructor
  · exact NeStarted.completes
  · intro completes
    exact ⟨completes, numbered sized, fun _ _ _ => described sized⟩

/-- A program of one segment, whose first word is the start of a chain with two places. -/
def sampleNe : List UInt8 :=
  [0x4D, 0x5A] ++ List.replicate 58 0 ++ leBytes 4 64 ++
    ([0x4E, 0x45, 5, 1] ++ leBytes 2 72 ++ leBytes 2 0 ++ List.replicate 12 0 ++
      leBytes 4 0x10000 ++ leBytes 4 0x10000 ++ leBytes 2 1 ++ leBytes 2 0 ++ leBytes 2 0 ++
      leBytes 2 64 ++ leBytes 2 0 ++ leBytes 2 72 ++ leBytes 2 72 ++ leBytes 2 72 ++
      List.replicate 6 0 ++ leBytes 2 4 ++ List.replicate 12 0) ++
    (leBytes 2 9 ++ leBytes 2 8 ++ leBytes 2 0x101 ++ leBytes 2 0x100) ++ List.replicate 8 0 ++
    [4, 0, 0, 0, 0xFF, 0xFF, 0, 0] ++ leBytes 2 1 ++ [5, 0, 0, 0, 1, 0, 0x34, 0x12]

def sampleNeFile : NeFile where
  header := .decode ((sampleNe.drop 64).take 64)
  segmentTable := [⟨9, 8, 0x101, 0x100⟩]
  relocationsBySegment := [[⟨5, 0, 0, .internalRef 1 0x1234⟩]]
  importedModules := []
  entries := []
  residentNames := []
  nonResidentNames := []
  importedNamesData := []
  neOffset := 64

theorem sampleNe_parsed : NeFile.parse sampleNe = some (.ok sampleNeFile) := by decide

theorem sampleNe_links : Links (loadedMemory sampleNe sampleNeFile (newLoader 25 80).guestMem)
    neSegmentBase [0, 4] :=
  ⟨by decide, by decide, show GuestMemory.read _ 2 _ = some 0xFFFF by decide⟩

theorem sampleNe_targets : ∀ site ∈ sites sampleNeFile, TargetSafe sampleNeFile site.2.target := by
  intro site member
  obtain rfl := List.mem_singleton.mp member
  exact Nat.one_ne_zero

theorem sampleNe_chains : ∃ after, ChainsEnd sampleNeFile (sites sampleNeFile)
    (loadedMemory sampleNe sampleNeFile (newLoader 25 80).guestMem) after := by
  have clear : [0, 4].Pairwise (KeepsClear relocOffset neSegmentBase) := by decide
  have chain := @chain_of_links _ _ (0x1234, selectorOf 0) _ ⟨relocOffset, 0, 0, .internalRef 1 0x1234⟩
    _ rfl (by decide) loadedMemory_size (by decide) sampleNe_links clear
  exact ⟨_, .followed rfl chain (.done _)⟩

theorem startNe_iff_two_places : NeStarted sampleHost sampleNe sampleNeFile "app.exe".toList 25 80 := by
  refine (startNe_iff sampleHost "app.exe".toList 25 80 sampleNe_parsed).mpr ⟨by decide, ?_⟩
  intro read
  exact ⟨sampleNe_targets, sampleNe_chains, by decide, by decide, by decide⟩

/-- An executable without segments, and so without a stack. -/
def bareNeFile : NeFile where
  header := .decode ((bareFile []).drop 64)
  segmentTable := []
  relocationsBySegment := []
  importedModules := []
  entries := []
  residentNames := []
  nonResidentNames := []
  importedNamesData := (bareFile []).drop 64
  neOffset := 64

theorem no_stack_panics : ¬∀ (host : Platform) (data : List UInt8) (file : NeFile)
    (exeName : List Char) (rows cols : UInt16), NeFile.parse data = some (.ok file) →
      NeStarted host data file exeName rows cols := by
  intro all
  have parsed : NeFile.parse (bareFile []) = some (.ok bareNeFile) := by decide
  have started := all sampleHost (bareFile []) bareNeFile "app.exe".toList 25 80 parsed
  have safe := (startNe_completes_iff (NeFile.parse_sized parsed)).mp started.completes
  obtain ⟨-, -, -, -, stack⟩ := safe.rest fun _ member => nomatch member
  revert stack
  decide

end Start
end Warpine.Vcpu
