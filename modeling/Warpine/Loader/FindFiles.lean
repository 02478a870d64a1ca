import Warpine.Guest.Memory
import Warpine.Loader.Codepage
import Warpine.Vfs.DriveManager
import Warpine.Vfs.HostDir

/-! The guest's directory searches: what the calls write, and what the guest
reads back from its buffers. -/
namespace Warpine.Loader
open Warpine.Lib Warpine.Guest Warpine.Vfs

def maxGuestStringLen : Nat := 4096

def readGuestString (rs : EncodingRs) (cp : Nat) (mem : GuestMemory) (ptr : Nat) : Path :=
  let maxLen := min maxGuestStringLen (mem.size - ptr)
  if mem.size ≤ ptr then []
  else cpDecode rs ((mem.bytes.load ptr maxLen).takeWhile (· ≠ 0)) cp

/-- The buffer of a search call, and its count, which goes in and out. -/
structure FindBuffer where
  bufPtr : UInt32
  bufLen : UInt32
  pcFoundPtr : UInt32
deriving DecidableEq, Repr

/-- Two bytes, the second a colon. -/
def isDrive : Path → Bool
  | [letter, ':'] => isAscii letter
  | _ => false

/-- A bare directory stands for everything in it. -/
def expandSpec (spec : Path) : Path :=
  let spec := (spec.reverse.dropWhile (· < ' ')).reverse
  let trimmed := (spec.reverse.dropWhile DriveManager.isSeparator).reverse
  let endsOpen := spec.getLast?.any DriveManager.isSeparator
  if endsOpen || isDrive trimmed then
    (if endsOpen then spec else spec ++ ['\\']) ++ "*.*".toList
  else spec

def requested (mem : GuestMemory) (pcFoundPtr : Nat) : Nat :=
  if pcFoundPtr ≠ 0 then max ((mem.read 4 pcFoundPtr).getD 1) 1 else 1

/-- At most `count` entries, up to the first error. -/
def pullEntries {β : Type} [VfsBackend β] (hdir : Nat) :
    Nat → DriveManager β → List DirEntry × DriveManager β
  | 0, dm => ([], dm)
  | count + 1, dm => match dm.findNext hdir with
    | (.error _, dm) => ([], dm)
    | (.ok entry, dm) =>
        let (entries, dm) := pullEntries hdir count dm
        (entry :: entries, dm)

def filestatus3Writes (status : FileStatus) (offset : Nat) : List (Nat × List UInt8) := [
  (offset, leBytes 2 status.creationDate.toNat),
  (wrapAdd offset 2, leBytes 2 status.creationTime.toNat),
  (wrapAdd offset 4, leBytes 2 status.lastAccessDate.toNat),
  (wrapAdd offset 6, leBytes 2 status.lastAccessTime.toNat),
  (wrapAdd offset 8, leBytes 2 status.lastWriteDate.toNat),
  (wrapAdd offset 10, leBytes 2 status.lastWriteTime.toNat),
  (wrapAdd offset 12, leBytes 4 status.fileSize.toNat),
  (wrapAdd offset 16, leBytes 4 status.fileAlloc.toNat),
  (wrapAdd offset 20, leBytes 4 status.attributes.bits.toNat)]

def eaFieldSize (includeEaSize : Bool) : Nat := if includeEaSize then 4 else 0

/-- The writes of one record. Its link to the next one is written with that one. -/
def entryWrites (includeEaSize : Bool) (entryPtr : Nat) (status : FileStatus)
    (name : List UInt8) : List (Nat × List UInt8) :=
  let nameOffset := 28 + eaFieldSize includeEaSize
  [(entryPtr, leBytes 4 0)] ++ filestatus3Writes status (wrapAdd entryPtr 4) ++
    (if includeEaSize then [(wrapAdd entryPtr 28, leBytes 4 4)] else []) ++
    [(wrapAdd entryPtr nameOffset, leBytes 1 name.length),
      (wrapAdd entryPtr (nameOffset + 1), name),
      (wrapAdd entryPtr (nameOffset + 1 + name.length), [0])]

/-- A name is cut where its length byte ends. -/
def nameBytes (encode : Path → List UInt8) (entry : DirEntry) : List UInt8 :=
  (encode entry.name).take 255

def entrySize (encode : Path → List UInt8) (includeEaSize : Bool) (entry : DirEntry) : Nat :=
  4 + 24 + eaFieldSize includeEaSize + 1 + (nameBytes encode entry).length + 1

/-- Rounded up to four bytes. -/
def alignedSize (size : Nat) : Nat := (size + 3) / 4 * 4

structure PackState where
  mem : GuestMemory
  offset : Nat
  count : Nat
  prevEntryPtr : Option Nat

section Pack

variable (encode : Path → List UInt8) (bufPtr bufLen : Nat) (includeEaSize : Bool)

def linkPrevious (mem : GuestMemory) (prevEntryPtr : Option Nat) (entryPtr : Nat) : GuestMemory :=
  match prevEntryPtr with
  | some prev => mem.put 4 prev (wrapSub entryPtr prev)
  | none => mem

def packEntry (st : PackState) (entry : DirEntry) : PackState :=
  let entryPtr := wrapAdd bufPtr st.offset
  let mem := st.mem.putAll
    (entryWrites includeEaSize entryPtr entry.status (nameBytes encode entry))
  { mem := linkPrevious mem st.prevEntryPtr entryPtr
    offset := wrapAdd st.offset (alignedSize (entrySize encode includeEaSize entry))
    count := st.count + 1
    prevEntryPtr := some entryPtr }

/-- The loop over the entries. It ends at the first that does not fit. -/
def packEntries : List DirEntry → PackState → PackState
  | [], st => st
  | entry :: rest, st =>
      if bufLen < wrapAdd st.offset (entrySize encode includeEaSize entry) then st
      else packEntries rest (packEntry encode bufPtr includeEaSize st entry)

end Pack

def errorBufferOverflow : Nat := 111
def errorInvalidLevel : Nat := 124
def errorNoMoreFiles : Nat := 18

def writeFilefindbuf3Multi (encode : Path → List UInt8) (mem : GuestMemory)
    (entries : List DirEntry) (buffer : FindBuffer) (includeEaSize : Bool) : Nat × GuestMemory :=
  let st := packEntries encode buffer.bufPtr.toNat buffer.bufLen.toNat includeEaSize entries
    ⟨mem, 0, 0, none⟩
  (if st.count = 0 then errorBufferOverflow else 0,
    st.mem.putAt 4 buffer.pcFoundPtr.toNat st.count)

/-- The arguments of `DosFindFirst`, and the memory they are in. -/
structure FindFirstCall where
  mem : GuestMemory
  pszSpecPtr : UInt32
  phdirPtr : UInt32
  attr : UInt32
  level : UInt32
  buffer : FindBuffer

/-- The guest may write its memory between two calls. -/
structure FindNextCall where
  mem : GuestMemory
  buffer : FindBuffer

section Calls

variable {β : Type} [VfsBackend β] (rs : EncodingRs) (cp : Nat)

def FindFirstCall.spec (call : FindFirstCall) : Path :=
  expandSpec (readGuestString rs cp call.mem call.pszSpecPtr.toNat)

def dosFindFirst (dm : DriveManager β) (call : FindFirstCall) :
    Nat × GuestMemory × DriveManager β :=
  if call.level ≠ 1 ∧ call.level ≠ 2 then (errorInvalidLevel, call.mem, dm)
  else
    let requested := requested call.mem call.buffer.pcFoundPtr.toNat
    match dm.findFirst (call.spec rs cp) ⟨call.attr⟩ call.level.toNat with
    | (.error e, dm) => (e.code, call.mem, dm)
    | (.ok (hdir, firstEntry), dm) =>
        let mem := call.mem.put 4 call.phdirPtr.toNat hdir
        let (entries, dm) := pullEntries hdir (requested - 1) dm
        let (code, mem) := writeFilefindbuf3Multi (cpEncode rs · cp) mem (firstEntry :: entries)
          call.buffer (call.level == 2)
        (code, mem, dm)

def dosFindNext (hdir : Nat) (dm : DriveManager β) (call : FindNextCall) :
    Nat × GuestMemory × DriveManager β :=
  let (entries, dm) := pullEntries hdir (requested call.mem call.buffer.pcFoundPtr.toNat) dm
  if entries = [] then (errorNoMoreFiles, call.mem, dm)
  else
    let (code, mem) := writeFilefindbuf3Multi (cpEncode rs · cp) call.mem entries call.buffer
      (dm.findLevel hdir == 2)
    (code, mem, dm)

end Calls

/-- An entry as the guest reads it, its name in the guest's codepage. -/
structure FoundEntry where
  name : List UInt8
  status : FileStatus
deriving DecidableEq, Repr

def readFileStatus (mem : GuestMemory) (ptr : Nat) : Option FileStatus := do
  let creationDate ← mem.read 2 ptr
  let creationTime ← mem.read 2 (ptr + 2)
  let lastAccessDate ← mem.read 2 (ptr + 4)
  let lastAccessTime ← mem.read 2 (ptr + 6)
  let lastWriteDate ← mem.read 2 (ptr + 8)
  let lastWriteTime ← mem.read 2 (ptr + 10)
  let fileSize ← mem.read 4 (ptr + 12)
  let fileAlloc ← mem.read 4 (ptr + 16)
  let attributes ← mem.read 4 (ptr + 20)
  return {
    creationDate := UInt16.ofNat creationDate
    creationTime := UInt16.ofNat creationTime
    lastAccessDate := UInt16.ofNat lastAccessDate
    lastAccessTime := UInt16.ofNat lastAccessTime
    lastWriteDate := UInt16.ofNat lastWriteDate
    lastWriteTime := UInt16.ofNat lastWriteTime
    fileSize := UInt32.ofNat fileSize
    fileAlloc := UInt32.ofNat fileAlloc
    attributes := ⟨UInt32.ofNat attributes⟩ }

/-- The record at an address, with the distance to the next one. -/
def readEntry (includeEaSize : Bool) (mem : GuestMemory) (ptr : Nat) :
    Option (Nat × FoundEntry) := do
  let nameOffset := 28 + eaFieldSize includeEaSize
  let next ← mem.read 4 ptr
  let status ← readFileStatus mem (ptr + 4)
  let nameLen ← mem.read 1 (ptr + nameOffset)
  let name ← mem.slice (ptr + nameOffset + 1) nameLen
  return (next, ⟨name, status⟩)

/-- The walk of the guest along the records of a buffer. -/
def readEntries (includeEaSize : Bool) (mem : GuestMemory) : Nat → Nat → Option (List FoundEntry)
  | 0, _ => some []
  | count + 1, ptr => do
      let (next, entry) ← readEntry includeEaSize mem ptr
      let rest ← readEntries includeEaSize mem count (ptr + next)
      return entry :: rest

/-- What the guest finds in its buffer after a call: as many records as the
count says, or one where it passed no count. -/
def delivered (includeEaSize : Bool) (buffer : FindBuffer) (code : Nat) (mem : GuestMemory) :
    Option (List FoundEntry) :=
  if code ≠ 0 then some []
  else do
    let count ← if buffer.pcFoundPtr = 0 then some 1 else mem.read 4 buffer.pcFoundPtr.toNat
    readEntries includeEaSize mem count buffer.bufPtr.toNat

end Warpine.Loader
