import Warpine.Lib.Posix
import Warpine.Loader.LoadExe
import Warpine.Vcpu.Seh

/-! From the loaded executable to the first instruction: the environment, the thread and
process blocks, the descriptor tables and the initial stack. A panic is `none`. -/
namespace Warpine.Vcpu
open Warpine.Lib Warpine.Guest Warpine.Lx Warpine.Loader Attempt Fixups

def envAddr : Nat := 0x00092000
def gdtBase : Nat := 0x00080000
def idtBase : Nat := 0x0008D000
def numTiles : Nat := 4096
def numCodeTiles : Nat := 2048
def tiledCodeStartIndex : Nat := tiledSelStartIndex + numTiles

/-- What starting a program sees of the host: how far its file system seeks, Unicode upper
case, and the registers of a vCPU that the backend has just made. -/
structure Platform where
  seekLimit : Nat
  uppercase : List Char → List Char
  vcpu : GuestRegs

/-- `Loader::new`. -/
def newLoader (rows cols : UInt16) : SharedState where
  guestMem := ⟨guestMemSize, fun _ => 0⟩
  memMgr := .new (UInt32.ofNat dynamicAllocBase) (UInt32.ofNat guestMemSize)
  dllMgr := .new
  resources := .empty
  exeName := []
  rows := rows
  cols := cols

section Environment

def environment : List String := ["PATH=C:\\", "COMSPEC=C:\\4OS2.EXE", "OS=OS2", "TMP=C:\\TMP"]

/-- The name that the program sees as its own. -/
def os2Exe (uppercase : List Char → List Char) (exeName : List Char) : List Char :=
  if exeName = [] then "C:\\APP.EXE".toList
  else "C:\\".toList ++ match Posix.fileName (Posix.components exeName) with
    | some name => uppercase name
    | none => "APP.EXE".toList

def environmentBytes : List UInt8 := environment.flatMap (fun entry => Utf8.toBytes entry ++ [0]) ++ [0]

def envBlock (uppercase : List Char → List Char) (exeName : List Char) : List UInt8 :=
  environmentBytes ++ (os2Exe uppercase exeName).flatMap Utf8.encodeChar ++ [0]

end Environment

section FixedPlaces

/-- Thread and process information blocks. -/
def infoBlocks (envAddr cmdlineAddr : Nat) : List (Nat × List UInt8) :=
  let tib2Addr := tibBase + 0x40
  [(tibBase + tibExchainOffset, leBytes 4 xcptChainEnd), (tibBase + 0x0C, leBytes 4 tib2Addr),
    (tibBase + 0x18, leBytes 4 tibBase), (tibBase + 0x30, leBytes 4 pibBase),
    (tib2Addr, leBytes 4 1), (tib2Addr + 0x04, leBytes 4 0), (pibBase, leBytes 4 42),
    (pibBase + 0x0C, leBytes 4 cmdlineAddr), (pibBase + 0x10, leBytes 4 envAddr)]

def biosDataArea (cols pageSize lastRow : Nat) : List (Nat × List UInt8) := [
  (0x449, leBytes 1 0x03), (0x44A, leBytes 2 cols), (0x44C, leBytes 2 pageSize),
  (0x44E, leBytes 2 0), (0x450, leBytes 2 0), (0x462, leBytes 1 0), (0x463, leBytes 2 0x3D4),
  (0x484, leBytes 1 lastRow), (0x485, leBytes 2 16)]

def stubs : List (Nat × List UInt8) :=
  (List.range stubAreaSize).map fun i => (magicApiBase + i, leBytes 1 0xCC)

def makeGdtEntry (base limit access flags : Nat) : Nat :=
  (limit &&& 0xFFFF) ||| (base &&& 0xFFFF) <<< 16 ||| (base >>> 16 &&& 0xFF) <<< 32 |||
    access <<< 40 ||| ((limit >>> 16 &&& 0x0F) ||| (flags &&& 0xF0)) <<< 48 |||
    (base >>> 24 &&& 0xFF) <<< 56

def gdtFixed : List (Nat × List UInt8) := [
  (gdtBase, leBytes 8 0),
  (gdtBase + 8, leBytes 8 (makeGdtEntry 0 0xFFFFF 0x9B 0xCF)),
  (gdtBase + 16, leBytes 8 (makeGdtEntry 0 0xFFFFF 0x93 0xCF)),
  (gdtBase + 24, leBytes 8 (makeGdtEntry 0 0xFFFFF 0x93 0xCF)),
  (gdtBase + 32, leBytes 8 (makeGdtEntry 0 0xFFFF 0x93 0x00)),
  (gdtBase + 40, leBytes 8 (makeGdtEntry 0 0xFFFF 0x9B 0x00))]

/-- One descriptor for each tile of 64 KiB, from an entry of the table on. -/
def tiles (count startIndex access : Nat) : List (Nat × List UInt8) :=
  (List.range count).map fun i =>
    (gdtBase + (startIndex + i) * 8, leBytes 8 (makeGdtEntry (i * tileSize) 0xFFFF access 0x00))

/-- The exceptions for which the processor pushes an error code. -/
def hasErrorCode (vector : Nat) : Bool := vector ∈ [8, 10, 11, 12, 13, 14, 17]

/-- The handler of a vector, and its gate. -/
def idtVector (vector : Nat) : List (Nat × List UInt8) :=
  let handlerAddr := idtHandlerBase + vector * 16
  let fakeCode := if hasErrorCode vector then []
    else [(handlerAddr, leBytes 1 0x6A), (handlerAddr + 1, leBytes 1 0x00)]
  let off := if hasErrorCode vector then 0 else 2
  let entryAddr := idtBase + vector * 8
  fakeCode ++ [(handlerAddr + off, leBytes 1 0x6A), (handlerAddr + off + 1, leBytes 1 vector),
    (handlerAddr + off + 2, leBytes 1 0xCC), (entryAddr, leBytes 2 (handlerAddr &&& 0xFFFF)),
    (entryAddr + 2, leBytes 2 0x08), (entryAddr + 4, leBytes 2 0x8E00),
    (entryAddr + 6, leBytes 2 (handlerAddr >>> 16 &&& 0xFFFF))]

def setupStubs (mem : GuestMemory) : Option GuestMemory := mem.writeAll stubs

def setupIdt (mem : GuestMemory) : Option GuestMemory := do
  let mem ← mem.writeAll gdtFixed
  let mem ← mem.writeAll (tiles numTiles tiledSelStartIndex 0xD3)
  let mem ← mem.writeAll (tiles numCodeTiles tiledCodeStartIndex 0x9B)
  mem.writeAll ((List.range 32).flatMap idtVector)

end FixedPlaces

/-- A place in an object, which the header gives by the object's number. -/
def objectAddress (file : LxFile) (objectNum offset : Nat) : Option Nat := do
  let obj ← nth file.objectTable objectNum
  addWord 64 obj.baseAddress offset

structure Entry where
  eip : Nat
  esp : Nat
  tibBase : Nat

def setupGuest (uppercase : List Char → List Char) (file : LxFile) (s : SharedState) :
    Option (Entry × SharedState) := do
  let entryEip ← objectAddress file file.header.eipObject file.header.eip
  let entryEsp ← objectAddress file file.header.espObject file.header.esp
  let block := envBlock uppercase s.exeName
  let (envAddr, memMgr) ← s.memMgr.alloc (block.length % u32Size)
  let cmdlineAddr ← addWord 32 envAddr environmentBytes.length
  let mem ← s.guestMem.writeBytes envAddr block
  let mem ← mem.writeAll (infoBlocks envAddr cmdlineAddr)
  let cells ← mulWord 16 s.cols.toNat s.rows.toNat
  let pageSize ← mulWord 16 cells 2
  let lastRow ← subWord s.rows.toNat 1
  let mem ← mem.writeAll (biosDataArea s.cols.toNat pageSize lastRow)
  let mem ← setupStubs mem
  let mem ← setupIdt mem
  return (⟨entryEip, entryEsp, tibBase⟩, { s with guestMem := mem, memMgr })

/-- Return address, module handle, a reserved word, environment and command line. -/
def initialStack (envAddr cmdlineAddr : Nat) : List (Nat × Nat) :=
  [(0, exitTrapAddr), (4, 0), (8, 0), (12, envAddr), (16, cmdlineAddr)]

def pushWord (sp : Nat) (mem : GuestMemory) (slot : Nat × Nat) : Option GuestMemory := do
  let addr ← addWord 32 sp slot.1
  mem.write 4 addr slot.2

def createInitialVcpu (vcpu : GuestRegs) (entry : Entry) (s : SharedState) :
    Option (GuestRegs × SharedState) := do
  let rsp ← subWord entry.esp 20
  let cmdlineAddr := (s.guestMem.read 4 (pibBase + 0x0C)).getD envAddr
  let env := (s.guestMem.read 4 (pibBase + 0x10)).getD envAddr
  let mem ← (initialStack env cmdlineAddr).foldlM (pushWord (rsp % u32Size)) s.guestMem
  return ({ vcpu with rip := entry.eip, rsp, rflags := 2 }, { s with guestMem := mem })

/-- The two steps of the start after the load. -/
def enter (host : Platform) (file : LxFile) (exeName : List Char) (s : SharedState) :
    Attempt IoError (GuestRegs × SharedState) := do
  let (entry, s) ← ofOption (setupGuest host.uppercase file { s with exeName })
  ofOption (createInitialVcpu host.vcpu entry s)

/-- What the emulator does with an executable that it has parsed, up to the run. -/
def startUp (host : Platform) (data : List UInt8) (file : LxFile) (exeName : List Char)
    (rows cols : UInt16) : Attempt IoError (GuestRegs × SharedState) := do
  let s ← load host.seekLimit data file (newLoader rows cols)
  enter host file exeName s

section FixedPlaces

variable {mem : GuestMemory} {writes : List (Nat × List UInt8)}

/-- Every write has its place in guest memory. -/
def Placed (writes : List (Nat × List UInt8)) : Prop :=
  ∀ write ∈ writes, write.1 + write.2.length ≤ guestMemSize

theorem writeAll_placed (placed : Placed writes) (size : mem.size = guestMemSize) :
    ∃ next, mem.writeAll writes = some next ∧ next.size = guestMemSize := by
  have fit : ∀ write ∈ writes, mem.inBounds write.1 write.2.length := by
    intro write member
    rw [GuestMemory.inBounds, size]
    exact decide_eq_true (placed write member)
  exact ⟨_, mem.writeAll_eq_some.mpr ⟨fit, rfl⟩, size⟩

theorem infoBlocks_placed (envAddr cmdlineAddr : Nat) : Placed (infoBlocks envAddr cmdlineAddr) := by
  simp only [Placed, infoBlocks, List.forall_mem_cons, leBytes_length]
  decide

theorem biosDataArea_placed (cols pageSize lastRow : Nat) :
    Placed (biosDataArea cols pageSize lastRow) := by
  simp only [Placed, biosDataArea, List.forall_mem_cons, leBytes_length]
  decide

theorem stubs_placed : Placed stubs := by
  intro write member
  obtain ⟨i, inside, rfl⟩ := List.mem_map.mp member
  rw [List.mem_range] at inside
  rw [leBytes_length]
  unfold stubAreaSize at inside
  unfold magicApiBase guestMemSize
  omega

theorem gdtFixed_placed : Placed gdtFixed := by
  simp only [Placed, gdtFixed, List.forall_mem_cons, leBytes_length]
  decide

theorem tiles_placed {count startIndex : Nat} (access : Nat) (few : startIndex + count ≤ 0x2000) :
    Placed (tiles count startIndex access) := by
  intro write member
  obtain ⟨i, inside, rfl⟩ := List.mem_map.mp member
  rw [List.mem_range] at inside
  rw [leBytes_length]
  unfold gdtBase guestMemSize
  omega

theorem idtVector_placed : ∀ vector < 32, Placed (idtVector vector) := by
  unfold Placed
  decide +kernel

theorem idtVectors_placed : Placed ((List.range 32).flatMap idtVector) := by
  intro write member
  obtain ⟨vector, inside, member⟩ := List.mem_flatMap.mp member
  exact idtVector_placed vector (List.mem_range.mp inside) write member

theorem setupStubs_placed (size : mem.size = guestMemSize) :
    ∃ next, setupStubs mem = some next ∧ next.size = guestMemSize := by
  unfold setupStubs
  exact writeAll_placed stubs_placed size

theorem setupIdt_placed (size : mem.size = guestMemSize) :
    ∃ next, setupIdt mem = some next ∧ next.size = guestMemSize := by
  obtain ⟨fixed, hfixed, size⟩ := writeAll_placed gdtFixed_placed size
  obtain ⟨data, hdata, size⟩ :=
    writeAll_placed (@tiles_placed numTiles tiledSelStartIndex 0xD3 (by decide)) size
  obtain ⟨code, hcode, size⟩ :=
    writeAll_placed (@tiles_placed numCodeTiles tiledCodeStartIndex 0x9B (by decide)) size
  obtain ⟨next, hnext, size⟩ := writeAll_placed idtVectors_placed size
  refine ⟨next, ?_, size⟩
  unfold setupIdt
  refine Option.bind_eq_some_iff.mpr ⟨fixed, hfixed, ?_⟩
  refine Option.bind_eq_some_iff.mpr ⟨data, hdata, ?_⟩
  exact Option.bind_eq_some_iff.mpr ⟨code, hcode, hnext⟩

end FixedPlaces

section Entry

variable {file : LxFile} {s next : SharedState}

theorem nth_eq_some {α : Type} {list : List α} {num : Nat} :
    (∃ item, nth list num = some item) ↔ num ≠ 0 ∧ num ≤ list.length := by
  unfold nth
  split
  · simp [*]
  · rw [← Option.isSome_iff_exists, isSome_getElem?]
    omega

theorem nth_mem {α : Type} {list : List α} {num : Nat} {item : α} (h : nth list num = some item) :
    item ∈ list := by
  unfold nth at h
  split at h
  · cases h
  · exact List.mem_of_getElem? h

/-- The sum of two 32-bit words stays in a 64-bit one. -/
theorem objectAddress_eq_some (sized : file.Sized) {num offset addr : Nat}
    (small : offset < 2 ^ 32) :
    objectAddress file num offset = some addr ↔
      ∃ obj, nth file.objectTable num = some obj ∧ addr = obj.baseAddress + offset := by
  unfold objectAddress
  rw [Option.bind_eq_bind, Option.bind_eq_some_iff]
  refine exists_congr fun obj => and_congr_right fun found => ?_
  have base : obj.baseAddress < 2 ^ 32 := sized.objects obj (nth_mem found) (4, _) (by
    simp [ObjectTableEntry.fields])
  rw [addWord, if_pos (by omega), Option.some.injEq, eq_comm]

/-- The stack words have their places exactly where the last of them has. -/
theorem pushWords_isSome {mem : GuestMemory} (size : mem.size = guestMemSize) (sp : Nat)
    (slots : List (Nat × Nat)) :
    slots.foldlM (pushWord sp) mem ≠ none ↔ ∀ slot ∈ slots, sp + slot.1 + 4 ≤ guestMemSize := by
  induction slots generalizing mem with
  | nil => simp
  | cons slot rest ih =>
    rw [List.foldlM_cons, List.forall_mem_cons]
    by_cases fits : sp + slot.1 + 4 ≤ guestMemSize
    · have word : addWord 32 sp slot.1 = some (sp + slot.1) := by
        rw [addWord, if_pos]
        unfold guestMemSize at fits
        omega
      have written : pushWord sp mem slot = some (mem.put 4 (sp + slot.1) slot.2) := by
        have bounds : mem.inBounds (sp + slot.1) (leBytes 4 slot.2).length := by
          rw [GuestMemory.inBounds, leBytes_length, size]
          exact decide_eq_true fits
        rw [pushWord, word, Option.bind_eq_bind, Option.bind_some, GuestMemory.write,
          GuestMemory.writeBytes, if_pos bounds, GuestMemory.put, mem.putBytes_of_inBounds bounds]
      rw [written, Option.bind_eq_bind, Option.bind_some, ih (by
        rw [GuestMemory.put, GuestMemory.putBytes_size, size]), and_iff_right fits]
    · have refused : pushWord sp mem slot = none := by
        rw [pushWord, Option.bind_eq_bind, Option.bind_eq_none_iff]
        intro addr word
        rw [addWord] at word
        split at word
        · cases word
          rw [GuestMemory.write, GuestMemory.writeBytes, if_neg]
          rw [GuestMemory.inBounds, leBytes_length, size, decide_eq_true_eq]
          exact fits
        · cases word
      rw [refused]
      simp [fits]

theorem initialStack_isSome {mem : GuestMemory} (size : mem.size = guestMemSize) (sp : Nat)
    (envAddr cmdlineAddr : Nat) :
    (∃ next, (initialStack envAddr cmdlineAddr).foldlM (pushWord sp) mem = some next) ↔
      sp + 20 ≤ guestMemSize := by
  rw [← Option.ne_none_iff_exists', pushWords_isSome size]
  simp only [initialStack, List.forall_mem_cons, List.not_mem_nil, false_imp_iff, implies_true,
    and_true]
  omega

theorem createInitialVcpu_isSome (vcpu : GuestRegs) (entry : Entry)
    (size : s.guestMem.size = guestMemSize) :
    (∃ found, createInitialVcpu vcpu entry s = some found) ↔
      20 ≤ entry.esp ∧ (entry.esp - 20) % u32Size + 20 ≤ guestMemSize := by
  unfold createInitialVcpu subWord
  by_cases room : 20 ≤ entry.esp
  · rw [if_pos room, and_iff_right room, ← initialStack_isSome size _
      ((s.guestMem.read 4 (pibBase + 0x10)).getD envAddr)
      ((s.guestMem.read 4 (pibBase + 0x0C)).getD envAddr)]
    simp only [Option.bind_eq_bind, Option.bind_some, Option.bind_eq_some_iff, Option.pure_def]
    constructor
    · rintro ⟨_, mem, pushed, _⟩
      exact ⟨mem, pushed⟩
    · rintro ⟨mem, pushed⟩
      exact ⟨_, mem, pushed, rfl⟩
  · simp [room]

end Entry

section Guest

variable {file : LxFile} {s next : SharedState} {uppercase : List Char → List Char}

/-- The allocator of a new loader places one block, of any size that there is room for. -/
theorem alloc_newLoader {rows cols : UInt16} {size addr : Nat} :
    (∃ next, (newLoader rows cols).memMgr.alloc size = some (addr, next)) ↔
      size ≤ guestMemSize - dynamicAllocBase ∧ addr = dynamicAllocBase := by
  have fresh : (newLoader rows cols).memMgr = ⟨[], [], dynamicAllocBase, guestMemSize⟩ := rfl
  rw [fresh]
  simp only [MemoryManager.alloc, takeFirst, checkedAdd, Option.bind_eq_bind,
    Option.bind_eq_some_iff, Option.ite_none_right_eq_some, Option.ite_none_left_eq_some,
    Option.some.injEq, Prod.mk.injEq]
  unfold u32Size guestMemSize dynamicAllocBase
  constructor
  · rintro ⟨_, padded, ⟨_, rfl⟩, stop, ⟨_, rfl⟩, low, rfl, _⟩
    omega
  · rintro ⟨room, rfl⟩
    exact ⟨_, _, ⟨by omega, rfl⟩, _, ⟨by omega, rfl⟩, by omega, rfl, rfl⟩

/-- The environment block has room in the memory that programs allocate. -/
def EnvironmentFits (uppercase : List Char → List Char) (exeName : List Char) : Prop :=
  (envBlock uppercase exeName).length ≤ guestMemSize - dynamicAllocBase

/-- A page of the screen, in bytes, is a 16-bit word. -/
def ScreenFits (rows cols : UInt16) : Prop := 1 ≤ rows.toNat ∧ cols.toNat * rows.toNat * 2 < 2 ^ 16

instance (uppercase : List Char → List Char) (exeName : List Char) :
    Decidable (EnvironmentFits uppercase exeName) := inferInstanceAs (Decidable (_ ≤ _))

instance (rows cols : UInt16) : Decidable (ScreenFits rows cols) :=
  inferInstanceAs (Decidable (_ ∧ _))

/-- The environment goes into one block right at the bottom of that memory. -/
theorem writeEnvironment_isSome {rows cols : UInt16} {mem : GuestMemory} {block : List UInt8}
    (size : mem.size = guestMemSize) :
    (∃ addr memMgr next, (newLoader rows cols).memMgr.alloc (block.length % u32Size) =
      some (addr, memMgr) ∧ mem.writeBytes addr block = some next) ↔
        block.length ≤ guestMemSize - dynamicAllocBase := by
  have written : ∀ addr, (∃ next, mem.writeBytes addr block = some next) ↔
      addr + block.length ≤ guestMemSize := by
    intro addr
    unfold GuestMemory.writeBytes GuestMemory.inBounds
    rw [size]
    simp
  constructor
  · rintro ⟨addr, memMgr, next, placed, wrote⟩
    obtain ⟨-, rfl⟩ := alloc_newLoader.mp ⟨memMgr, placed⟩
    have fits := (written _).mp ⟨next, wrote⟩
    omega
  · intro fits
    have small : block.length % u32Size = block.length := by
      apply Nat.mod_eq_of_lt
      unfold guestMemSize at fits
      unfold u32Size
      omega
    obtain ⟨memMgr, placed⟩ :=
      (@alloc_newLoader rows cols _ dynamicAllocBase).mpr ⟨small.symm ▸ fits, rfl⟩
    obtain ⟨next, wrote⟩ := (written dynamicAllocBase).mpr (by
      unfold guestMemSize dynamicAllocBase at *
      omega)
    exact ⟨_, memMgr, next, placed, wrote⟩

theorem screen_isSome {rows cols : UInt16} :
    (∃ cells pageSize lastRow, mulWord 16 cols.toNat rows.toNat = some cells ∧
      mulWord 16 cells 2 = some pageSize ∧ subWord rows.toNat 1 = some lastRow) ↔
        ScreenFits rows cols := by
  simp only [mulWord, subWord, Option.ite_none_right_eq_some, Option.some.injEq, ScreenFits]
  constructor
  · rintro ⟨_, _, _, ⟨_, rfl⟩, ⟨small, _⟩, low, _⟩
    exact ⟨low, small⟩
  · rintro ⟨low, small⟩
    exact ⟨_, _, _, ⟨by omega, rfl⟩, ⟨small, rfl⟩, low, rfl⟩

variable {entry : Entry}

/-- What a set-up that completes has done on the way. -/
theorem setupGuest_eq_some : setupGuest uppercase file s = some (entry, next) ↔
    objectAddress file file.header.eipObject file.header.eip = some entry.eip ∧
      objectAddress file file.header.espObject file.header.esp = some entry.esp ∧
      entry.tibBase = tibBase ∧
      ∃ envAddr memMgr env, s.memMgr.alloc ((envBlock uppercase s.exeName).length % u32Size) =
          some (envAddr, memMgr) ∧
        s.guestMem.writeBytes envAddr (envBlock uppercase s.exeName) = some env ∧
      ∃ cmdlineAddr, addWord 32 envAddr environmentBytes.length = some cmdlineAddr ∧
      ∃ info, env.writeAll (infoBlocks envAddr cmdlineAddr) = some info ∧
      ∃ cells pageSize lastRow, mulWord 16 s.cols.toNat s.rows.toNat = some cells ∧
        mulWord 16 cells 2 = some pageSize ∧ subWord s.rows.toNat 1 = some lastRow ∧
      ∃ bios, info.writeAll (biosDataArea s.cols.toNat pageSize lastRow) = some bios ∧
      ∃ stubbed, setupStubs bios = some stubbed ∧
      ∃ final, setupIdt stubbed = some final ∧
        { s with guestMem := final, memMgr := memMgr } = next := by
  simp only [setupGuest, Option.bind_eq_bind, Option.bind_eq_some_iff, Option.pure_def,
    Option.some.injEq, Prod.mk.injEq, Prod.exists]
  constructor
  · rintro ⟨_, eip, _, esp, envAddr, memMgr, alloc, cmdlineAddr, cmdline, env, wrote, info, blocks,
      cells, hcells, pageSize, hpage, lastRow, hrow, bios, hbios, stubbed, hstubs, final, hidt,
      rfl, hnext⟩
    exact ⟨eip, esp, rfl, envAddr, memMgr, env, alloc, wrote, cmdlineAddr, cmdline, info, blocks,
      cells, pageSize, lastRow, hcells, hpage, hrow, bios, hbios, stubbed, hstubs, final, hidt,
      hnext⟩
  · rintro ⟨eip, esp, tib, envAddr, memMgr, env, alloc, wrote, cmdlineAddr, cmdline, info, blocks,
      cells, pageSize, lastRow, hcells, hpage, hrow, bios, hbios, stubbed, hstubs, final, hidt,
      hnext⟩
    exact ⟨_, eip, _, esp, envAddr, memMgr, alloc, cmdlineAddr, cmdline, env, wrote, info, blocks,
      cells, hcells, pageSize, hpage, lastRow, hrow, bios, hbios, stubbed, hstubs, final, hidt,
      by rw [← tib], hnext⟩

theorem objectAddress_isSome (sized : file.Sized) {num offset : Nat} (small : offset < 2 ^ 32)
    (inside : num ≤ file.header.objectCount) :
    (∃ addr, objectAddress file num offset = some addr) ↔ num ≠ 0 := by
  simp only [objectAddress_eq_some sized small]
  constructor
  · rintro ⟨_, obj, found, _⟩
    exact (nth_eq_some.mp ⟨obj, found⟩).1
  · intro nonzero
    obtain ⟨obj, found⟩ := nth_eq_some.mpr ⟨nonzero, sized.count.symm ▸ inside⟩
    exact ⟨_, obj, found, rfl⟩

theorem entry_small (sized : file.Sized) :
    file.header.eip < 2 ^ 32 ∧ file.header.esp < 2 ^ 32 := by
  constructor
  · exact sized.header (4, _) (by simp [LxHeader.fields])
  · exact sized.header (4, _) (by simp [LxHeader.fields])

theorem writeBytes_size {mem written : GuestMemory} {offset : Nat} {data : List UInt8}
    (h : mem.writeBytes offset data = some written) : written.size = mem.size := by
  unfold GuestMemory.writeBytes at h
  split at h <;> cases h
  rfl

theorem writeAll_size {mem written : GuestMemory} {writes : List (Nat × List UInt8)}
    (h : mem.writeAll writes = some written) : written.size = mem.size := by
  obtain ⟨-, rfl⟩ := mem.writeAll_eq_some.mp h
  rfl

theorem setupGuest_isSome (sized : file.Sized) (size : s.guestMem.size = guestMemSize)
    (fresh : s.memMgr = (newLoader s.rows s.cols).memMgr) :
    (∃ found, setupGuest uppercase file s = some found) ↔
      file.header.eipObject ≠ 0 ∧ file.header.espObject ≠ 0 ∧
        EnvironmentFits uppercase s.exeName ∧ ScreenFits s.rows s.cols := by
  obtain ⟨eipSmall, espSmall⟩ := entry_small sized
  rw [← objectAddress_isSome sized eipSmall sized.checked.eip,
    ← objectAddress_isSome sized espSmall sized.checked.esp, EnvironmentFits,
    ← @writeEnvironment_isSome s.rows s.cols _ _ size, ← screen_isSome, ← fresh]
  constructor
  · rintro ⟨⟨entry, next⟩, done⟩
    obtain ⟨eip, esp, -, envAddr, memMgr, env, alloc, wrote, _, _, _, _, cells, pageSize, lastRow,
      hcells, hpage, hrow, _⟩ := setupGuest_eq_some.mp done
    exact ⟨⟨_, eip⟩, ⟨_, esp⟩, ⟨envAddr, memMgr, env, alloc, wrote⟩,
      ⟨cells, pageSize, lastRow, hcells, hpage, hrow⟩⟩
  · rintro ⟨⟨eip, heip⟩, ⟨esp, hesp⟩, ⟨envAddr, memMgr, env, alloc, wrote⟩,
      ⟨cells, pageSize, lastRow, hcells, hpage, hrow⟩⟩
    have place : envAddr = dynamicAllocBase :=
      ((@alloc_newLoader s.rows s.cols _ envAddr).mp ⟨memMgr, fresh ▸ alloc⟩).2
    have cmdline : addWord 32 envAddr environmentBytes.length =
        some (envAddr + environmentBytes.length) := by
      rw [place]
      decide +kernel
    obtain ⟨info, blocks, size⟩ := writeAll_placed (infoBlocks_placed envAddr
      (envAddr + environmentBytes.length)) ((writeBytes_size wrote).trans size)
    obtain ⟨bios, hbios, size⟩ :=
      writeAll_placed (biosDataArea_placed s.cols.toNat pageSize lastRow) size
    obtain ⟨stubbed, hstubs, size⟩ := setupStubs_placed size
    obtain ⟨final, hidt, -⟩ := setupIdt_placed size
    exact ⟨(⟨eip, esp, tibBase⟩, _), setupGuest_eq_some.mpr ⟨heip, hesp, rfl, envAddr, memMgr, env,
      alloc, wrote, _, cmdline, info, blocks, cells, pageSize, lastRow, hcells, hpage, hrow, bios,
      hbios, stubbed, hstubs, final, hidt, rfl⟩⟩

/-- The stack starts in the object that the header names, and guest memory keeps its size. -/
theorem setupGuest_stack (sized : file.Sized) (size : s.guestMem.size = guestMemSize)
    (done : setupGuest uppercase file s = some (entry, next)) :
    (∃ obj, nth file.objectTable file.header.espObject = some obj ∧
      entry.esp = obj.baseAddress + file.header.esp) ∧ next.guestMem.size = guestMemSize := by
  obtain ⟨-, esp, -, envAddr, memMgr, env, _, wrote, cmdlineAddr, _, info, blocks, cells, pageSize,
    lastRow, _, _, _, bios, hbios, stubbed, hstubs, final, hidt, rfl⟩ := setupGuest_eq_some.mp done
  refine ⟨(objectAddress_eq_some sized (entry_small sized).2).mp esp, ?_⟩
  have before : stubbed.size = guestMemSize := by
    unfold setupStubs at hstubs
    rw [writeAll_size hstubs, writeAll_size hbios, writeAll_size blocks, writeBytes_size wrote,
      size]
  obtain ⟨last, same, placed⟩ := setupIdt_placed before
  rw [same] at hidt
  cases hidt
  exact placed

end Guest

section StartUp

variable (host : Platform) (data : List UInt8) (file : LxFile) (exeName : List Char)
  (rows cols : UInt16)

/-- The initial stack lies in guest memory, below the place that the header gives. -/
def StackFits : Prop :=
  ∃ obj, nth file.objectTable file.header.espObject = some obj ∧
    20 ≤ obj.baseAddress + file.header.esp ∧
      (obj.baseAddress + file.header.esp - 20) % u32Size + 20 ≤ guestMemSize

/-- What the set-up of the guest asks of the file, the environment and the screen. -/
structure GuestSafe : Prop where
  entry : file.header.eipObject ≠ 0
  stack : StackFits file
  environment : EnvironmentFits host.uppercase exeName
  screen : ScreenFits rows cols

/-- An image that is loaded to its end can be started. -/
structure ImageSafe : Prop where
  resources : ResourcesFit file
  fixups : FixupsFit .new file
  guest : GuestSafe host file exeName rows cols

/-- Every page that the loader comes to has its place, and if all pages are read, the image
can be started. -/
structure StartsSafely : Prop where
  pages : PagesSafe host.seekLimit data file
  image : (∀ entry ∈ exePages file, PageRead host.seekLimit data file entry) →
    ImageSafe host file exeName rows cols

variable {data file rows cols}

theorem enter_not_panics_iff {s : SharedState} (sized : file.Sized)
    (size : s.guestMem.size = guestMemSize)
    (fresh : s.memMgr = (newLoader s.rows s.cols).memMgr) :
    ¬(enter host file exeName s).Panics ↔ GuestSafe host file exeName s.rows s.cols := by
  have isSome := @setupGuest_isSome file { s with exeName } host.uppercase sized size fresh
  dsimp only at isSome
  unfold enter
  simp only [panics_bind, returns_ofOption, panics_ofOption, Prod.exists, not_or]
  rw [← ne_eq, Option.ne_none_iff_exists', isSome]
  constructor
  · rintro ⟨⟨entry, stacked, environment, screen⟩, calm⟩
    obtain ⟨⟨start, next⟩, done⟩ := isSome.mpr ⟨entry, stacked, environment, screen⟩
    obtain ⟨⟨obj, found, place⟩, kept⟩ :=
      @setupGuest_stack file { s with exeName } next host.uppercase start sized size done
    have made := (createInitialVcpu_isSome host.vcpu start kept).mp
      (Option.ne_none_iff_exists'.mp fun none => calm ⟨start, next, done, none⟩)
    rw [place] at made
    exact ⟨entry, ⟨obj, found, made⟩, environment, screen⟩
  · rintro ⟨entry, ⟨obj, found, made⟩, environment, screen⟩
    have stacked : file.header.espObject ≠ 0 := (nth_eq_some.mp ⟨obj, found⟩).1
    refine ⟨⟨entry, stacked, environment, screen⟩, ?_⟩
    rintro ⟨start, next, done, none⟩
    obtain ⟨⟨other, same, place⟩, kept⟩ :=
      @setupGuest_stack file { s with exeName } next host.uppercase start sized size done
    cases found.symm.trans same
    rw [← place] at made
    obtain ⟨vcpu, made⟩ := (createInitialVcpu_isSome host.vcpu start kept).mpr made
    cases none.symm.trans made

variable (rows cols)

/-- Starting up an executable that was parsed never panics exactly where the pages that the
loader comes to, the resources, the fixups, the entry, the stack, the environment and the
screen all fit. -/
theorem startUp_not_panics_iff (parsed : LxFile.parse data = .ok file) :
    ¬(startUp host data file exeName rows cols).Panics ↔
      StartsSafely host data file exeName rows cols := by
  have sized := LxFile.parse_sized parsed
  have size : (newLoader rows cols).guestMem.size = guestMemSize := rfl
  have loads := @load_not_panics_iff host.seekLimit data file _ sized size
  have completes := @load_returns_iff host.seekLimit data file _ sized size
  have rest : ∀ s, (load host.seekLimit data file (newLoader rows cols)).Returns s →
      (¬(enter host file exeName s).Panics ↔ GuestSafe host file exeName rows cols) := by
    intro s loaded
    obtain ⟨mem, resources, rfl, sizeKept⟩ := load_returns size loaded
    exact enter_not_panics_iff host exeName sized sizeKept rfl
  unfold startUp
  rw [panics_bind, not_or, loads]
  constructor
  · rintro ⟨⟨pages, fit⟩, calm⟩
    refine ⟨pages, fun read => ?_⟩
    obtain ⟨added, fixed⟩ := fit read
    obtain ⟨s, loaded⟩ := completes.mpr ⟨read, added, fixed⟩
    exact ⟨added, fixed, (rest s loaded).mp fun panics => calm ⟨s, loaded, panics⟩⟩
  · rintro ⟨pages, image⟩
    refine ⟨⟨pages, fun read => ⟨(image read).resources, (image read).fixups⟩⟩, ?_⟩
    rintro ⟨s, loaded, panics⟩
    have read := (completes.mp ⟨s, loaded⟩).1
    exact (rest s loaded).mpr (image read).guest panics

/-- An executable of one object, which asks for 16 bytes of the file at its address. -/
def onePageFile (base : Nat) : LxFile where
  header := { (default : LxHeader) with
    signature := lxSignature
    moduleNumPages := 1
    eipObject := 1
    espObject := 1
    esp := 0x1000
    objectTableOffset := 172
    objectCount := 1
    objectPageMapOffset := 196
    fixupPageTableOffset := 204 }
  objectTable := [⟨0x1000, base, 0, 1, 1, 0⟩]
  pageMap := [⟨0, 16, 0⟩]
  fixupPageTable := [0, 0]
  fixupRecordsByPage := [[]]
  resources := []
  importedModules := []
  importProcedureNames := []
  exports := []
  nonresidentNames := []

def onePageBytes (base : Nat) : List UInt8 :=
  let file := onePageFile base
  LxFile.mzSignature ++ List.replicate 58 0 ++ leBytes 4 64 ++ file.header.bytes ++
    file.objectTable.flatMap ObjectTableEntry.bytes ++
    file.pageMap.flatMap ObjectPageMapEntry.bytes ++ file.fixupPageTable.flatMap (leBytes 4)

def sampleHost : Platform where
  seekLimit := 2 ^ 63 - 1
  uppercase := List.map Char.toUpper
  vcpu := ⟨0, 0, 0, 0, 0, 0, 0, 0, 0, 2⟩

theorem startUp_not_panics_one_page :
    ¬(startUp sampleHost (onePageBytes 0x10000) (onePageFile 0x10000) "app.exe".toList 25
      80).Panics := by
  apply (startUp_not_panics_iff sampleHost "app.exe".toList 25 80
    (show LxFile.parse (onePageBytes 0x10000) = .ok (onePageFile 0x10000) by decide +kernel)).mpr
  refine ⟨pagesSafe_of_all (by decide +kernel), fun _ => ⟨?_, by decide +kernel, ?_⟩⟩
  · intro res member
    cases member
  · exact ⟨by decide, ⟨⟨0x1000, 0x10000, 0, 1, 1, 0⟩, rfl, by decide, by decide⟩, by decide +kernel,
      by decide⟩

/-- The same executable at the first address past guest memory. -/
theorem page_past_memory_panics :
    ¬∀ (host : Platform) (data : List UInt8) (file : LxFile) (exeName : List Char)
      (rows cols : UInt16), LxFile.parse data = .ok file →
        ¬(startUp host data file exeName rows cols).Panics := by
  intro claim
  exact claim sampleHost (onePageBytes 0x10000000) (onePageFile 0x10000000) "app.exe".toList 25 80
    (by decide +kernel) (by decide +kernel)

end StartUp

end Warpine.Vcpu
