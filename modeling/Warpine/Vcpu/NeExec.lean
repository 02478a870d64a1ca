import Warpine.Ne.Sized
import Warpine.Vcpu.StartUp

/-! Loading a 16-bit executable: its segments go to tiles of guest memory one after another,
its relocations are applied along their chains, and each segment gets its descriptor. -/
namespace Warpine.Vcpu
open Warpine.Lib Warpine.Guest Warpine.Ne Warpine.Loader Attempt

def neSegmentBase : Nat := 0x00100000
def neThunkSelector : Nat := (tiledSelStartIndex + neThunkBase / tileSize) * 8
def neThunkCodeSelector : Nat := (tiledCodeStartIndex + neThunkBase / tileSize) * 8

def relocLobyte : Nat := 0
def relocSelector : Nat := 2
def relocFarPointer : Nat := 3
def relocOffset : Nat := 5

section Load

/-- Where the loop over the segments puts the one of an index. -/
def tileAt (index : Nat) : Option Nat := do
  let tile ← mulWord 32 index tileSize
  addWord 32 neSegmentBase tile

def loadSegment (seekLimit : Nat) (data : List UInt8) (shift : Nat) (mem : GuestMemory)
    (entry : NeSegmentEntry × Nat) : Attempt IoError GuestMemory := do
  let guestAddr ← ofOption (tileAt entry.2)
  let fileOff ← ofOption (entry.1.fileOffset shift)
  if entry.1.dataOffset = 0 then return mem
  else if seekLimit < fileOff then throw .invalidInput
  else do
    let buf ← ofOption (mem.slice guestAddr entry.1.actualDataLength)
    if data.length < fileOff + buf.length then throw .unexpectedEof
    else return mem.putBytes guestAddr ((data.drop fileOff).take buf.length)

/-- The base of a segment by its number, which is a byte. -/
def segBase (segNum : Nat) : Option Nat := tileAt (wrapSub segNum 1)

def segSelector (segNum : Nat) : Option Nat := do
  let tileIdx ← addWord 32 (neSegmentBase / tileSize) (wrapSub segNum 1)
  let index ← addWord 32 tiledSelStartIndex tileIdx
  let selector ← mulWord 32 index 8
  return selector % u16Size

/-- A module that is not known gets the last place of the thunks. -/
def thunkBase (module : String) : Nat :=
  if module = "DOSCALLS" then 0
  else if module = "VIOCALLS" then viocallsBase
  else if module = "KBDCALLS" then kbdcallsBase
  else if module = "SESMGR" then sesmgrBase
  else if module = "NLS" then nlsBase
  else if module = "MSG" then msgBase
  else stubAreaSize - 1

def resolveImport16 (module : String) (ordinal : Nat) : Option Nat :=
  addWord 16 (thunkBase module) ordinal

def importedModule (file : NeFile) (moduleIndex : Nat) : String :=
  (Fixups.nth file.importedModules moduleIndex).getD "?"

/-- Offset and selector of a target. The inner `none` leaves the relocation out. -/
def relocTarget (file : NeFile) : NeRelocationTarget → Option (Option (Nat × Nat))
  | .internalRef segmentNum offset => do
      let selector ← segSelector segmentNum
      return some (offset, selector)
  | .importOrdinal moduleIndex ordinal => do
      let thunkOffset ← resolveImport16 (importedModule file moduleIndex) ordinal
      return some (thunkOffset, neThunkCodeSelector)
  | .importName _ _ => some (some (0, neThunkSelector))
  | .osFixup _ => some none

/-- One place of a chain is patched. A write that does not fit changes nothing. -/
def patch (sourceType : Nat) (target : Nat × Nat) (mem : GuestMemory) (patchAddr : Nat) :
    Option GuestMemory :=
  if sourceType = relocFarPointer then do
    let second ← addWord 32 patchAddr 2
    return (mem.put 2 patchAddr target.1).put 2 second target.2
  else if sourceType = relocSelector then some (mem.put 2 patchAddr target.2)
  else if sourceType = relocOffset then some (mem.put 2 patchAddr target.1)
  else if sourceType = relocLobyte then some (mem.put 1 patchAddr target.1)
  else some mem

/-- Where the chain goes on: the word that the place holds before it is patched. -/
def nextOffset (reloc : NeRelocationEntry) (mem : GuestMemory) (patchAddr : Nat) : Nat :=
  if reloc.isAdditive then 0xFFFF else (mem.read 2 patchAddr).getD 0xFFFF

/-- The chain of a relocation from an offset on, of so many places at most. -/
def followChain (reloc : NeRelocationEntry) (target : Nat × Nat) (base : Nat) :
    Nat → Nat → GuestMemory → Option GuestMemory
  | 0, _, _ => none
  | fuel + 1, offset, mem => do
      let patchAddr ← addWord 32 base offset
      let patched ← patch reloc.sourceType target mem patchAddr
      if nextOffset reloc mem patchAddr = 0xFFFF then return patched
      else followChain reloc target base fuel (nextOffset reloc mem patchAddr) patched

def applyRelocation (fuel : Nat) (file : NeFile) (base : Nat) (mem : GuestMemory)
    (reloc : NeRelocationEntry) : Option GuestMemory := do
  match ← relocTarget file reloc.target with
  | none => return mem
  | some target => followChain reloc target base fuel reloc.sourceOffset mem

/-- The relocations of one segment, whose number is cut to a byte. -/
def applySegment (fuel : Nat) (file : NeFile) (mem : GuestMemory)
    (entry : List NeRelocationEntry × Nat) : Option GuestMemory := do
  let base ← segBase ((entry.2 + 1) % 256)
  entry.1.foldlM (applyRelocation fuel file base) mem

def applyNeFixups (fuel : Nat) (file : NeFile) (mem : GuestMemory) : Option GuestMemory :=
  file.relocationsBySegment.zipIdx.foldlM (applySegment fuel file) mem

/-- A panic, or a chain without end, is no attempt at all. -/
def loadNe (fuel seekLimit : Nat) (data : List UInt8) (file : NeFile) (s : SharedState) :
    Attempt IoError SharedState := do
  let mem ← file.segmentTable.zipIdx.foldlM
    (loadSegment seekLimit data file.header.alignmentShiftCount) s.guestMem
  let mem ← ofOption (applyNeFixups fuel file mem)
  return { s with guestMem := mem }

end Load

section SetUp

def neEnvironment : List String := ["PATH=C:\\", "COMSPEC=C:\\CMD.EXE", "OS=OS2"]

def neEnvironmentBytes : List UInt8 :=
  neEnvironment.flatMap (fun entry => Utf8.toBytes entry ++ [0]) ++ [0]

def neEnvBlock (uppercase : List Char → List Char) (exeName : List Char) : List UInt8 :=
  neEnvironmentBytes ++ (os2Exe uppercase exeName).flatMap Utf8.encodeChar ++ [0]

/-- Without the head of the chain of exception handlers. -/
def neInfoBlocks (envAddr cmdlineAddr : Nat) : List (Nat × List UInt8) :=
  (infoBlocks envAddr cmdlineAddr).tail

def thunkTile : List (Nat × List UInt8) :=
  (List.range tileSize).map fun i => (neThunkBase + i, leBytes 1 0xCC)

/-- The descriptor of a segment, with its own limit. -/
def segmentDescriptor (entry : NeSegmentEntry × Nat) : Option (Nat × List UInt8) := do
  let guestBase ← tileAt entry.2
  let gdtIdx ← addWord 32 tiledSelStartIndex (guestBase / tileSize)
  let selector ← mulWord 32 gdtIdx 8
  let gdtOffset ← addWord 32 gdtBase selector
  let limit := min (entry.1.actualMinAlloc - 1) 0xFFFF
  let access := if entry.1.isCode then 0x9B else 0xD3
  return (gdtOffset, leBytes 8 (makeGdtEntry guestBase limit access 0x00))

def describeSegment (mem : GuestMemory) (entry : NeSegmentEntry × Nat) : Option GuestMemory := do
  let write ← segmentDescriptor entry
  mem.writeBytes write.1 write.2

/-- The selector of a segment by its number, which may be any word here. -/
def entrySelector (segNum fallback : Nat) : Option Nat :=
  if 0 < segNum then do
    let tileIdx ← addWord 32 (neSegmentBase / tileSize) (segNum - 1)
    let index ← addWord 32 tiledSelStartIndex tileIdx
    let selector ← mulWord 32 index 8
    return selector % u16Size
  else some fallback

/-- No stack pointer means the end of the stack's segment. -/
def actualSp (file : NeFile) : Option Nat :=
  if file.header.stackSp = 0 then do
    let seg ← Fixups.nth file.segmentTable file.header.stackSs
    return seg.actualMinAlloc % u16Size
  else some file.header.stackSp

structure NeStart where
  csSel : Nat
  entryIp : Nat
  ssSel : Nat
  sp : Nat
deriving DecidableEq, Repr

def setupGuestNe (uppercase : List Char → List Char) (file : NeFile) (s : SharedState) :
    Option (NeStart × SharedState) := do
  let block := neEnvBlock uppercase s.exeName
  let (envAddr, memMgr) ← s.memMgr.alloc (block.length % u32Size)
  let cmdlineAddr ← addWord 32 envAddr neEnvironmentBytes.length
  let mem ← s.guestMem.writeBytes envAddr block
  let mem ← mem.writeAll (neInfoBlocks envAddr cmdlineAddr)
  let cells ← mulWord 16 s.cols.toNat s.rows.toNat
  let pageSize ← mulWord 16 cells 2
  let lastRow ← subWord s.rows.toNat 1
  let mem ← mem.writeAll (biosDataArea s.cols.toNat pageSize lastRow)
  let mem ← setupStubs mem
  let mem ← setupIdt mem
  let mem ← mem.writeAll thunkTile
  let mem ← file.segmentTable.zipIdx.foldlM describeSegment mem
  let csSel ← entrySelector file.header.entryCs 0x08
  let ssSel ← entrySelector file.header.stackSs 0x10
  let sp ← actualSp file
  return (⟨csSel, file.header.entryIp, ssSel, sp⟩, { s with guestMem := mem, memMgr })

end SetUp

/-- From the parsed executable to the registers it starts with. -/
def startNe (fuel : Nat) (host : Platform) (data : List UInt8) (file : NeFile)
    (exeName : List Char) (rows cols : UInt16) : Attempt IoError (NeStart × SharedState) := do
  let s ← loadNe fuel host.seekLimit data file (newLoader rows cols)
  ofOption (setupGuestNe host.uppercase file { s with exeName })

section Numbers

variable {index : Nat}

/-- The segments are numbered by bytes, so that their tiles lie in guest memory. -/
theorem tileAt_eq (few : index ≤ 255) : tileAt index = some (neSegmentBase + index * tileSize) := by
  have small : index * tileSize < 2 ^ 32 := by
    unfold tileSize
    omega
  have place : neSegmentBase + index * tileSize < 2 ^ 32 := by
    unfold neSegmentBase tileSize
    omega
  rw [tileAt, mulWord, if_pos small, Option.bind_eq_bind, Option.bind_some, addWord, if_pos place]

theorem segBase_eq (few : index < 255) :
    segBase ((index + 1) % 256) = some (neSegmentBase + index * tileSize) := by
  have number : (index + 1) % 256 = index + 1 := Nat.mod_eq_of_lt (by omega)
  have back : wrapSub (index + 1) 1 = index := by
    rw [wrapSub_of_le (by omega) (by unfold u32Size; omega)]
    rfl
  rw [number, segBase, back, tileAt_eq (by omega)]

/-- Selectors of the segments, from the tile after the first megabyte on. -/
def selectorOf (index : Nat) : Nat := (tiledSelStartIndex + neSegmentBase / tileSize + index) * 8

theorem segSelector_eq (few : index ≤ 255) : segSelector (index + 1) = some (selectorOf index) := by
  have back : wrapSub (index + 1) 1 = index := by
    rw [wrapSub_of_le (by omega) (by unfold u32Size; omega)]
    rfl
  have tile : addWord 32 (neSegmentBase / tileSize) index = some (16 + index) :=
    if_pos (by unfold neSegmentBase tileSize; omega)
  have sum : tiledSelStartIndex + (16 + index) = 22 + index := by
    unfold tiledSelStartIndex
    omega
  have place : addWord 32 tiledSelStartIndex (16 + index) = some (22 + index) := by
    rw [addWord, sum, if_pos (by omega)]
  have selector : mulWord 32 (22 + index) 8 = some ((22 + index) * 8) := if_pos (by omega)
  have small : (22 + index) * 8 % u16Size = selectorOf index := by
    unfold u16Size selectorOf tiledSelStartIndex neSegmentBase tileSize
    omega
  rw [segSelector, back, tile]
  simp only [Option.bind_eq_bind, Option.bind_some, place, selector, small, Option.pure_def]

/-- A reference to segment 0 goes one below the first tile, with an overflow. -/
theorem segSelector_zero : segSelector 0 = none := rfl

end Numbers
end Warpine.Vcpu
