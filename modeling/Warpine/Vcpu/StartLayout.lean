import Warpine.Vcpu.StartUp

/-! Where the structures of a starting program lie, beside the objects of its image. -/
namespace Warpine.Vcpu
open Warpine.Lib Warpine.Guest Warpine.Lx Warpine.Loader Attempt Fixups

def gdtWrites : List (Nat × List UInt8) :=
  gdtFixed ++ tiles numTiles tiledSelStartIndex 0xD3 ++ tiles numCodeTiles tiledCodeStartIndex 0x9B

/-- What the set-up writes for every program: the information blocks, the screen's data, the
stubs, and the tables of descriptors and vectors. -/
def fixedWrites (envAddr cmdlineAddr cols pageSize lastRow : Nat) : List (Nat × List UInt8) :=
  infoBlocks envAddr cmdlineAddr ++ biosDataArea cols pageSize lastRow ++ stubs ++ gdtWrites ++
    (List.range 32).flatMap idtVector

/-- The writes of `setup_guest` in turn, and the allocator that it leaves. -/
def setupWrites (uppercase : List Char → List Char) (s : SharedState) :
    Option (List (Nat × List UInt8) × MemoryManager) := do
  let block := envBlock uppercase s.exeName
  let (envAddr, memMgr) ← s.memMgr.alloc (block.length % u32Size)
  let cmdlineAddr ← addWord 32 envAddr environmentBytes.length
  let cells ← mulWord 16 s.cols.toNat s.rows.toNat
  let pageSize ← mulWord 16 cells 2
  let lastRow ← subWord s.rows.toNat 1
  return ((envAddr, block) :: fixedWrites envAddr cmdlineAddr s.cols.toNat pageSize lastRow, memMgr)

def extent (write : Nat × List UInt8) : Nat × Nat := (write.1, write.2.length)

/-- The handler of a vector takes 16 bytes, of which these are written. -/
def handlerExtent (vector : Nat) : Nat × Nat :=
  (idtHandlerBase + vector * 16, if hasErrorCode vector then 3 else 5)

def gdtEntryCount : Nat := 6 + numTiles + numCodeTiles

def infoAreas : List (Nat × Nat) := [
  (tibBase, 4), (tibBase + 0x0C, 4), (tibBase + 0x18, 4), (tibBase + 0x30, 4), (tibBase + 0x40, 8),
  (pibBase, 4), (pibBase + 0x0C, 8)]

def biosAreas : List (Nat × Nat) := [(0x449, 9), (0x462, 3), (0x484, 3)]

/-- The bytes that the set-up takes for itself at fixed addresses. -/
def fixedAreas : List (Nat × Nat) :=
  infoAreas ++ biosAreas ++ [(magicApiBase, stubAreaSize)] ++ [(gdtBase, gdtEntryCount * 8)] ++
    ([(idtBase, 256)] ++ (List.range 32).map handlerExtent)

/-- With them, the space that blocks come from, the environment's own among them. -/
def systemAreas : List (Nat × Nat) :=
  (dynamicAllocBase, guestMemSize - dynamicAllocBase) :: fixedAreas

/-- The image stays as it was loaded: no write of the set-up and no later block has a byte
of an object, and no two objects have one in common. -/
structure ImageKept (file : LxFile) (writes : List (Nat × List UInt8)) (memMgr : MemoryManager) :
    Prop where
  system : ∀ obj ∈ file.objectTable, ∀ write ∈ writes,
    Clear obj.baseAddress obj.size write.1 write.2.length
  blocks : ∀ obj ∈ file.objectTable, ∀ block, memMgr.Returned block →
    Clear obj.baseAddress obj.size block.addr block.size
  objects : file.objectTable.Pairwise fun a b => Clear a.baseAddress a.size b.baseAddress b.size

/-- The objects keep out of each other's way and of the system areas. -/
structure LaidOut (file : LxFile) : Prop where
  areas : ∀ obj ∈ file.objectTable, ∀ area ∈ systemAreas,
    Clear obj.baseAddress obj.size area.1 area.2
  objects : file.objectTable.Pairwise fun a b => Clear a.baseAddress a.size b.baseAddress b.size

instance (file : LxFile) : Decidable (LaidOut file) :=
  decidable_of_iff (_ ∧ _) ⟨fun h => LaidOut.mk h.1 h.2, fun h => ⟨h.areas, h.objects⟩⟩

section Extents

variable {addr : Nat}

theorem infoBlocks_covered (envAddr cmdlineAddr : Nat) :
    Covered ((infoBlocks envAddr cmdlineAddr).map extent) addr ↔
      Covered infoAreas addr := by
  simp only [infoBlocks, infoAreas, List.map_cons, List.map_nil, extent, leBytes_length, covered_cons,
    covered_nil, or_false, tibExchainOffset]
  omega

theorem biosDataArea_covered (cols pageSize lastRow : Nat) :
    Covered ((biosDataArea cols pageSize lastRow).map extent) addr ↔
      Covered biosAreas addr := by
  simp only [biosDataArea, biosAreas, List.map_cons, List.map_nil, extent, leBytes_length, covered_cons,
    covered_nil, or_false]
  omega

theorem stubs_covered :
    Covered (stubs.map extent) addr ↔ Covered [(magicApiBase, stubAreaSize)] addr := by
  have row : stubs.map extent = (List.range stubAreaSize).map fun i => (magicApiBase + i * 1, 1) := by
    simp [stubs, extent, Function.comp_def]
  rw [row, covered_row Nat.one_pos]
  simp [covered_cons]

theorem tiles_covered (count startIndex access : Nat) :
    Covered ((tiles count startIndex access).map extent) addr ↔
      gdtBase + startIndex * 8 ≤ addr ∧ addr < gdtBase + startIndex * 8 + count * 8 := by
  have row : (tiles count startIndex access).map extent =
      (List.range count).map fun i => (gdtBase + startIndex * 8 + i * 8, 8) := by
    simp [tiles, extent, Function.comp_def, Nat.add_mul, Nat.add_assoc]
  rw [row, covered_row (by decide)]

/-- The descriptors stand side by side, from the null descriptor to the last code tile. -/
theorem gdtWrites_covered : Covered (gdtWrites.map extent) addr ↔
    Covered [(gdtBase, gdtEntryCount * 8)] addr := by
  unfold gdtWrites
  rw [List.map_append, covered_append, tiles_covered, List.map_append, covered_append,
    tiles_covered]
  simp only [gdtFixed, List.map_cons, List.map_nil, extent, leBytes_length, covered_cons,
    covered_nil, or_false, gdtEntryCount, tiledCodeStartIndex, tiledSelStartIndex, numTiles, numCodeTiles]
  omega

theorem idtVector_covered (vector : Nat) : Covered ((idtVector vector).map extent) addr ↔
    Covered [handlerExtent vector, (idtBase + vector * 8, 8)] addr := by
  unfold idtVector handlerExtent
  by_cases pushed : hasErrorCode vector
  · simp only [pushed, if_true, List.nil_append, List.map_cons, List.map_nil, extent,
      leBytes_length, covered_cons, covered_nil, or_false]
    omega
  · simp only [pushed, Bool.false_eq_true, if_false, List.cons_append, List.nil_append,
      List.map_cons, List.map_nil, extent, leBytes_length, covered_cons, covered_nil, or_false]
    omega

theorem idt_covered : Covered (((List.range 32).flatMap idtVector).map extent) addr ↔
    Covered [(idtBase, 256)] addr ∨ Covered ((List.range 32).map handlerExtent) addr := by
  have gates : Covered [(idtBase, 256)] addr ↔
      Covered ((List.range 32).map fun vector => (idtBase + vector * 8, 8)) addr := by
    rw [covered_row (by decide)]
    simp [covered_cons]
  rw [gates, List.map_flatMap, covered_flatMap]
  simp only [idtVector_covered, covered_cons, covered_nil, or_false]
  unfold Covered
  simp only [List.mem_map]
  constructor
  · rintro ⟨vector, few, handler | gate⟩
    · exact .inr ⟨_, ⟨vector, few, rfl⟩, handler⟩
    · exact .inl ⟨_, ⟨vector, few, rfl⟩, gate⟩
  · rintro (⟨_, ⟨vector, few, rfl⟩, gate⟩ | ⟨_, ⟨vector, few, rfl⟩, handler⟩)
    · exact ⟨vector, few, .inr gate⟩
    · exact ⟨vector, few, .inl handler⟩

theorem fixedWrites_covered (envAddr cmdlineAddr cols pageSize lastRow : Nat) :
    Covered ((fixedWrites envAddr cmdlineAddr cols pageSize lastRow).map extent) addr ↔
      Covered fixedAreas addr := by
  simp only [fixedWrites, fixedAreas, List.map_append, covered_append, infoBlocks_covered,
    biosDataArea_covered, stubs_covered, gdtWrites_covered, idt_covered]

end Extents

section SetUp

variable {uppercase : List Char → List Char} {file : LxFile} {s next : SharedState} {entry : Entry}

theorem writeAll_append {mem middle last : GuestMemory} {left right : List (Nat × List UInt8)}
    (first : mem.writeAll left = some middle) (second : middle.writeAll right = some last) :
    mem.writeAll (left ++ right) = some last := by
  unfold GuestMemory.writeAll at *
  rw [List.foldlM_append, first]
  exact second

/-- A set-up that completes has done these writes, and no others. -/
theorem setupGuest_writes (done : setupGuest uppercase file s = some (entry, next)) :
    ∃ writes, setupWrites uppercase s = some (writes, next.memMgr) ∧
      s.guestMem.writeAll writes = some next.guestMem := by
  obtain ⟨-, -, -, envAddr, memMgr, env, alloc, wrote, cmdlineAddr, cmdline, info, blocks, cells,
    pageSize, lastRow, hcells, hpage, hrow, bios, hbios, stubbed, hstubs, final, hidt, rfl⟩ :=
    setupGuest_eq_some.mp done
  refine ⟨(envAddr, envBlock uppercase s.exeName) ::
    fixedWrites envAddr cmdlineAddr s.cols.toNat pageSize lastRow, ?_, ?_⟩
  · simp only [setupWrites, alloc, cmdline, hcells, hpage, hrow, Option.bind_eq_bind,
      Option.bind_some, Option.pure_def]
  · obtain ⟨fixed, hfixed, hidt⟩ := Option.bind_eq_some_iff.mp hidt
    obtain ⟨data, hdata, hidt⟩ := Option.bind_eq_some_iff.mp hidt
    obtain ⟨code, hcode, hidt⟩ := Option.bind_eq_some_iff.mp hidt
    have gdt : stubbed.writeAll gdtWrites = some code :=
      writeAll_append (writeAll_append hfixed hdata) hcode
    have rest : env.writeAll (fixedWrites envAddr cmdlineAddr s.cols.toNat pageSize lastRow) =
        some final :=
      writeAll_append (writeAll_append (writeAll_append (writeAll_append blocks hbios) hstubs) gdt)
        hidt
    unfold GuestMemory.writeAll at rest ⊢
    rw [List.foldlM_cons, wrote]
    exact rest

/-- What the environment does to the allocator of a new loader. -/
theorem alloc_newLoader_eq {rows cols : UInt16} {size addr : Nat} {memMgr : MemoryManager}
    (h : (newLoader rows cols).memMgr.alloc size = some (addr, memMgr)) :
    ∃ rounded, dynamicAllocBase + rounded ≤ guestMemSize ∧ addr = dynamicAllocBase ∧
      memMgr = ⟨[⟨dynamicAllocBase, rounded⟩], [], dynamicAllocBase + rounded, guestMemSize⟩ := by
  have fresh : (newLoader rows cols).memMgr = ⟨[], [], dynamicAllocBase, guestMemSize⟩ := rfl
  rw [fresh] at h
  obtain ⟨rounded, -, ⟨block, rest, none, _⟩ | ⟨place, -, fits, same⟩⟩ := MemoryManager.alloc_cases h
  · cases none.symm.subset List.mem_cons_self
  · rw [place] at same
    exact ⟨rounded, fits, place, same⟩

theorem within_only {rounded : Nat} (room : dynamicAllocBase + rounded ≤ guestMemSize) :
    MemoryManager.Within dynamicAllocBase guestMemSize
      ⟨[⟨dynamicAllocBase, rounded⟩], [], dynamicAllocBase + rounded, guestMemSize⟩ where
  low := Nat.le_add_right _ _
  high := room
  same := rfl
  blocks := by
    intro block member
    rw [List.mem_singleton.mp member]
    exact ⟨Nat.le_refl _, room⟩

/-- The only block can be freed, and then one block takes the whole space. -/
theorem returned_whole {rounded : Nat} (room : dynamicAllocBase + rounded ≤ guestMemSize) :
    MemoryManager.Returned
      ⟨[⟨dynamicAllocBase, rounded⟩], [], dynamicAllocBase + rounded, guestMemSize⟩
      ⟨dynamicAllocBase, guestMemSize - dynamicAllocBase⟩ := by
  have word : guestMemSize < u32Size := by decide
  have wrap : wrapAdd dynamicAllocBase rounded = dynamicAllocBase + rounded :=
    Nat.mod_eq_of_lt (by omega)
  have freed : MemoryManager.exec
      ⟨[⟨dynamicAllocBase, rounded⟩], [], dynamicAllocBase + rounded, guestMemSize⟩
      (.free (UInt32.ofNat dynamicAllocBase)) = ⟨[], [], dynamicAllocBase, guestMemSize⟩ := by
    have place : (UInt32.ofNat dynamicAllocBase).toNat = dynamicAllocBase := rfl
    simp only [MemoryManager.exec, MemoryManager.free, place, takeFirst, decide_true, if_true,
      List.nil_append, List.insertionSort_cons, List.insertionSort_nil, List.orderedInsert_nil,
      List.reverse_singleton, MemoryManager.reclaimTop, wrap, List.reverse_nil]
  have whole : MemoryManager.alloc ⟨[], [], dynamicAllocBase, guestMemSize⟩
      (UInt32.ofNat (guestMemSize - dynamicAllocBase)).toNat = some (dynamicAllocBase,
        ⟨[⟨dynamicAllocBase, guestMemSize - dynamicAllocBase⟩], [], guestMemSize,
          guestMemSize⟩) := by
    decide
  exact ⟨_, _, _, _, .cons freed (.nil _), whole, rfl⟩

end SetUp

section Layout

variable {uppercase : List Char → List Char} {file : LxFile} {s next : SharedState} {entry : Entry}

theorem areas_clear_iff {base size : Nat} {writes : List (Nat × List UInt8)} :
    (∀ write ∈ writes, Clear base size write.1 write.2.length) ↔
      ∀ addr, base ≤ addr → addr < base + size → ¬Covered (writes.map extent) addr := by
  rw [← forall_clear_iff, List.forall_mem_map]
  rfl

/-- A guest that is set up in a new loader keeps its image exactly where the objects are laid
out so. -/
theorem imageKept_iff (size : s.guestMem.size = guestMemSize)
    (fresh : s.memMgr = (newLoader s.rows s.cols).memMgr) {writes : List (Nat × List UInt8)}
    {memMgr : MemoryManager} (listed : setupWrites uppercase s = some (writes, memMgr))
    {mem : GuestMemory} (written : s.guestMem.writeAll writes = some mem) :
    ImageKept file writes memMgr ↔ LaidOut file := by
  unfold setupWrites at listed
  rw [fresh] at listed
  simp only [Option.bind_eq_bind, Option.bind_eq_some_iff, Prod.exists, Option.pure_def,
    Option.some.injEq, Prod.mk.injEq] at listed
  obtain ⟨envAddr, allocator, alloc, cmdlineAddr, -, cells, -, pageSize, -, lastRow, -, rfl, rfl⟩ :=
    listed
  obtain ⟨rounded, room, rfl, rfl⟩ := alloc_newLoader_eq alloc
  have fits := (s.guestMem.writeAll_eq_some.mp written).1 _ List.mem_cons_self
  rw [GuestMemory.inBounds, size, decide_eq_true_eq] at fits
  dsimp only at fits
  constructor
  · rintro ⟨system, blocks, objects⟩
    refine ⟨fun obj member => ?_, objects⟩
    have whole := blocks obj member _ (returned_whole room)
    refine List.forall_mem_cons.mpr ⟨whole, forall_clear_iff.mpr fun addr low high fixed => ?_⟩
    have apart := areas_clear_iff.mp (system obj member) addr low high
    rw [List.map_cons, covered_cons, fixedWrites_covered] at apart
    exact apart (.inr fixed)
  · rintro ⟨areas, objects⟩
    refine ⟨fun obj member => ?_, fun obj member block returned => ?_, objects⟩
    · obtain ⟨whole, fixed⟩ := List.forall_mem_cons.mp (areas obj member)
      rw [forall_clear_iff] at fixed
      refine areas_clear_iff.mpr fun addr low high => ?_
      have outside := clear_iff.mp whole addr low high
      rw [List.map_cons, covered_cons, fixedWrites_covered]
      rintro (env | other)
      · apply outside
        unfold extent at env
        dsimp only at env ⊢
        omega
      · exact fixed addr low high other
    · obtain ⟨whole, -⟩ := List.forall_mem_cons.mp (areas obj member)
      have inside := MemoryManager.returned_within (by decide) (within_only room) returned
      refine clear_iff.mpr fun addr low high other => clear_iff.mp whole addr low high ?_
      dsimp only
      omega

/-- The bytes of an object are then those that the load has put there. -/
theorem ImageKept.bytes {writes : List (Nat × List UInt8)} {memMgr : MemoryManager}
    {mem : GuestMemory} (kept : ImageKept file writes memMgr)
    (written : s.guestMem.writeAll writes = some mem) {obj : ObjectTableEntry}
    (member : obj ∈ file.objectTable) {addr : Nat} (low : obj.baseAddress ≤ addr)
    (high : addr < obj.baseAddress + obj.size) : mem.bytes addr = s.guestMem.bytes addr := by
  obtain ⟨-, rfl⟩ := s.guestMem.writeAll_eq_some.mp written
  apply ByteStore.storeAll_outside
  intro write hwrite
  exact clear_iff.mp (kept.system obj member write hwrite) addr low high

end Layout

section Image

variable (host : Platform) (data : List UInt8) (file : LxFile) (exeName : List Char)
  (rows cols : UInt16) (s next : SharedState) (entry : Entry)

/-- What setting up the guest leaves of an image. -/
def StartsAsLoaded : Prop :=
  ∃ writes, setupWrites host.uppercase { s with exeName } = some (writes, next.memMgr) ∧
    s.guestMem.writeAll writes = some next.guestMem ∧ ImageKept file writes next.memMgr

/-- Every image that is loaded and set up starts as it was loaded exactly where its objects
are laid out so. -/
theorem startsAsLoaded_iff
    (loaded : (load host.seekLimit data file (newLoader rows cols)).Returns s)
    (done : setupGuest host.uppercase file { s with exeName } = some (entry, next)) :
    StartsAsLoaded host file exeName s next ↔ LaidOut file := by
  have size : (newLoader rows cols).guestMem.size = guestMemSize := rfl
  obtain ⟨mem, resources, rfl, kept⟩ := load_returns size loaded
  obtain ⟨writes, listed, written⟩ := setupGuest_writes done
  have same : ImageKept file writes next.memMgr ↔ LaidOut file :=
    imageKept_iff kept rfl listed written
  unfold StartsAsLoaded
  constructor
  · rintro ⟨others, listedToo, _, image⟩
    rw [listed] at listedToo
    cases listedToo
    exact same.mp image
  · intro laidOut
    exact ⟨writes, listed, written, same.mpr laidOut⟩

end Image

/-- The executable of one object is loaded and set up, wherever its object is in memory. -/
theorem onePageFile_starts (base : Nat) (exeName : List Char)
    (environment : EnvironmentFits sampleHost.uppercase exeName)
    (parsed : LxFile.parse (onePageBytes base) = .ok (onePageFile base))
    (read : ∀ entry ∈ exePages (onePageFile base),
      PageRead sampleHost.seekLimit (onePageBytes base) (onePageFile base) entry)
    (fixups : FixupsFit .new (onePageFile base)) :
    ∃ s entry next, (load sampleHost.seekLimit (onePageBytes base) (onePageFile base)
        (newLoader 25 80)).Returns s ∧
      setupGuest sampleHost.uppercase (onePageFile base) { s with exeName } =
        some (entry, next) := by
  have sized := LxFile.parse_sized parsed
  have size : (newLoader 25 80).guestMem.size = guestMemSize := rfl
  have resources : ResourcesFit (onePageFile base) := by
    intro res member
    cases member
  obtain ⟨s, loaded⟩ := (load_returns_iff sized size).mpr ⟨read, resources, fixups⟩
  obtain ⟨mem, resources, rfl, kept⟩ := load_returns size loaded
  have screen : ScreenFits 25 80 := by decide
  obtain ⟨⟨entry, next⟩, done⟩ := (@setupGuest_isSome (onePageFile base)
    { newLoader 25 80 with guestMem := mem, resources, exeName }
    sampleHost.uppercase sized kept rfl).mpr
      ⟨Nat.one_ne_zero, Nat.one_ne_zero, environment, screen⟩
  exact ⟨_, entry, next, loaded, done⟩

theorem startsAsLoaded_iff_one_page : ∃ s next,
    (load sampleHost.seekLimit (onePageBytes 0x10000) (onePageFile 0x10000)
      (newLoader 25 80)).Returns s ∧
        StartsAsLoaded sampleHost (onePageFile 0x10000) "app.exe".toList s next := by
  obtain ⟨s, entry, next, loaded, done⟩ :=
    onePageFile_starts 0x10000 "app.exe".toList (by decide) (by decide)
      (by decide +kernel) (by decide +kernel)
  exact ⟨s, next, loaded, (startsAsLoaded_iff sampleHost (onePageBytes 0x10000) (onePageFile 0x10000)
    "app.exe".toList 25 80 s next entry loaded done).mpr (by decide)⟩

/-- An object at the address of the descriptor table is written over. -/
theorem object_on_descriptors : ¬∀ (host : Platform) (data : List UInt8) (file : LxFile)
    (exeName : List Char) (rows cols : UInt16) (s next : SharedState) (entry : Entry),
      (load host.seekLimit data file (newLoader rows cols)).Returns s →
        setupGuest host.uppercase file { s with exeName } = some (entry, next) →
          StartsAsLoaded host file exeName s next := by
  intro all
  obtain ⟨s, entry, next, loaded, done⟩ :=
    onePageFile_starts 0x80000 "app.exe".toList (by decide) (by decide)
      (by decide +kernel) (by decide +kernel)
  obtain ⟨writes, listed, _, kept⟩ := all _ _ _ _ _ _ s next entry loaded done
  have descriptor : (gdtBase, leBytes 8 0) ∈ writes := by
    unfold setupWrites at listed
    simp only [Option.bind_eq_bind, Option.bind_eq_some_iff, Prod.exists, Option.pure_def,
      Option.some.injEq, Prod.mk.injEq] at listed
    obtain ⟨_, _, _, _, _, _, _, _, _, _, _, rfl, _⟩ := listed
    simp [fixedWrites, gdtWrites, gdtFixed]
  have clear := kept.system ⟨0x1000, 0x80000, 0, 1, 1, 0⟩ List.mem_cons_self _ descriptor
  revert clear
  decide

end Warpine.Vcpu
