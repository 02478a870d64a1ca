import Warpine.Ipc.MuxWait
import Warpine.Ipc.Queue
import Warpine.Loader.FindFiles

/-! Semaphores, queues and shared memory that are opened by name. Each kind keeps its
names in a table of its own; beside them is the list of what was created and still
exists, with the name that it was created under. -/
namespace Warpine.Ipc
open Warpine.Lib Warpine.Guest Warpine.Loader

inductive ObjectKind where
  | event
  | mutex
  | queue
  | memory
deriving DecidableEq

structure LiveObject where
  kind : ObjectKind
  handle : Nat
  name : Option String
deriving DecidableEq

def LiveObject.isAt (kind : ObjectKind) (handle : Nat) (obj : LiveObject) : Bool :=
  decide (obj.kind = kind ∧ obj.handle = handle)

structure NameState where
  guestMem : GuestMemory
  codepage : Nat
  memMgr : MemoryManager
  eventSems : Table Nat EventSemaphore
  mutexSems : Table Nat MutexSemaphore
  nextSem : Nat
  queues : Table Nat OS2Queue
  nextQueue : Nat
  namedBlocks : Table String Nat
  live : List LiveObject

/-- The loop over a hash map that looks for a name: `order` is the order in which the
map happens to be visited. -/
def findNamed {α : Type} (table : Table Nat α) (nameOf : α → Option String) (order : List Nat)
    (name : String) : Option Nat :=
  order.find? fun h => (table h).any fun obj => nameOf obj == some name

/-- Every entry is visited. -/
def Visits {α : Type} (order : List Nat) (table : Table Nat α) : Prop :=
  ∀ h, h ∈ order ↔ (table h).isSome

def supportedCps : List Nat :=
  [437, 850, 852, 932, 949, 950, 1250, 1251, 1252, 1253, 1254, 1255, 1256, 1257, 1258]

def errorFileNotFound : Nat := 2
def errorQueueNameNotExist : Nat := 343

inductive NameCall where
  | createEventSem (pszName phev flAttr fState : UInt32)
  | closeEventSem (hev : UInt32)
  | createMutexSem (pszName phmtx flAttr fState : UInt32)
  | closeMutexSem (hmtx : UInt32)
  | createQueue (phq attr pszName : UInt32)
  | closeQueue (hq : UInt32)
  | allocSharedMem (ppb pszName cb : UInt32)
  | allocMem (ppb cb : UInt32)
  | freeMem (pb : UInt32)
  | setProcessCp (cp : UInt32)
  /-- Any other write to guest memory. -/
  | store (offset : UInt32) (data : List UInt8)

namespace NameState

def initial (guestMem : GuestMemory) (codepage : Nat) (memMgr : MemoryManager) : NameState where
  guestMem
  codepage
  memMgr
  eventSems := .empty
  mutexSems := .empty
  nextSem := 1
  queues := .empty
  nextQueue := 1
  namedBlocks := .empty
  live := memMgr.addresses.map fun addr => ⟨.memory, addr, none⟩

variable (rs : EncodingRs) (s : NameState)

def nameAt (ptr : UInt32) : String :=
  String.ofList (readGuestString rs s.codepage s.guestMem ptr.toNat)

def givenName (pszName : UInt32) : Option String :=
  if pszName ≠ 0 then some (s.nameAt rs pszName) else none

def createEvent (name : Option String) (attr : UInt32) (posted : Bool) : Nat × NameState :=
  (s.nextSem, { s with
    eventSems := s.eventSems.insert s.nextSem { posted, attr, name }
    nextSem := wrapAdd s.nextSem 1 })

def createMutex (name : Option String) (attr : UInt32) (state : Bool) : Nat × NameState :=
  let ownerTid := if state then some 0 else none
  let requestCount := if state then 1 else 0
  (s.nextSem, { s with
    mutexSems := s.mutexSems.insert s.nextSem { ownerTid, requestCount, attr, name }
    nextSem := wrapAdd s.nextSem 1 })

def create (name : String) (attr : UInt32) : Nat × NameState :=
  (s.nextQueue, { s with
    queues := s.queues.insert s.nextQueue { name, items := [], attr }
    nextQueue := wrapAdd s.nextQueue 1 })

/-- The handle goes to the guest, and the object to the list of those that exist. -/
def created (kind : ObjectKind) (handle : Nat) (name : Option String) (ptr : UInt32) : NameState :=
  { s with
    guestMem := s.guestMem.put 4 ptr.toNat handle
    live := s.live ++ [⟨kind, handle, name⟩] }

def closed (kind : ObjectKind) (handle : Nat) : List LiveObject :=
  s.live.eraseP (LiveObject.isAt kind handle)

/-- The name is dropped. -/
def dosCreateEventSem (pszName phev flAttr fState : UInt32) : NameState :=
  let (h, next) := s.createEvent none flAttr (fState ≠ 0)
  next.created .event h (s.givenName rs pszName) phev

def dosCreateMutexSem (pszName phmtx flAttr fState : UInt32) : NameState :=
  let (h, next) := s.createMutex none flAttr (fState ≠ 0)
  next.created .mutex h (s.givenName rs pszName) phmtx

def dosCreateQueue (phq attr pszName : UInt32) : NameState :=
  let name := s.nameAt rs pszName
  let (h, next) := s.create name attr
  next.created .queue h (some name) phq

def register (name : String) (addr : Nat) : NameState :=
  { s with namedBlocks := s.namedBlocks.insert name addr }

def dosAllocSharedMem (ppb pszName cb : UInt32) : NameState :=
  let name := (s.givenName rs pszName).filter (· ≠ "")
  match s.memMgr.alloc cb.toNat with
  | some (addr, memMgr) =>
      let next := { s with memMgr }.created .memory addr name ppb
      match name with
      | some name => next.register name addr
      | none => next
  | none => s

def dosAllocMem (ppb cb : UInt32) : NameState :=
  match s.memMgr.alloc cb.toNat with
  | some (addr, memMgr) => { s with memMgr }.created .memory addr none ppb
  | none => s

/-- The names of the block stay. -/
def dosFreeMem (pb : UInt32) : NameState :=
  match s.memMgr.free pb.toNat with
  | (true, memMgr) => { s with memMgr, live := s.closed .memory pb.toNat }
  | (false, _) => s

def exec : NameCall → NameState
  | .createEventSem pszName phev flAttr fState => s.dosCreateEventSem rs pszName phev flAttr fState
  | .closeEventSem hev => { s with
      eventSems := s.eventSems.erase hev.toNat, live := s.closed .event hev.toNat }
  | .createMutexSem pszName phmtx flAttr fState => s.dosCreateMutexSem rs pszName phmtx flAttr fState
  | .closeMutexSem hmtx => { s with
      mutexSems := s.mutexSems.erase hmtx.toNat, live := s.closed .mutex hmtx.toNat }
  | .createQueue phq attr pszName => s.dosCreateQueue rs phq attr pszName
  | .closeQueue hq => { s with
      queues := s.queues.erase hq.toNat, live := s.closed .queue hq.toNat }
  | .allocSharedMem ppb pszName cb => s.dosAllocSharedMem rs ppb pszName cb
  | .allocMem ppb cb => s.dosAllocMem ppb cb
  | .freeMem pb => s.dosFreeMem pb
  | .setProcessCp cp => if cp.toNat ∈ supportedCps then { s with codepage := cp.toNat } else s
  | .store offset data => { s with guestMem := s.guestMem.putBytes offset.toNat data }

def step : Step NameState NameCall := fun s call next => s.exec rs call = next

def openEventByName (order : List Nat) (name : String) : Option Nat :=
  findNamed s.eventSems EventSemaphore.name order name

def openMutexByName (order : List Nat) (name : String) : Option Nat :=
  findNamed s.mutexSems MutexSemaphore.name order name

def findQueueByName (order : List Nat) (name : String) : Option Nat :=
  findNamed s.queues (fun queue => some queue.name) order name

/-- A call that opens by name: its result, and the memory with the handle. -/
def opened (found : Option Nat) (ptr : UInt32) (missing : Nat) : Nat × GuestMemory :=
  match found with
  | some h => (0, s.guestMem.put 4 ptr.toNat h)
  | none => (missing, s.guestMem)

/-- Without a name the call only looks whether the guest has a valid handle. -/
def checked {α : Type} (table : Table Nat α) (ptr : UInt32) : Nat × GuestMemory :=
  (if (table ((s.guestMem.read 4 ptr.toNat).getD 0)).isSome then 0 else 6, s.guestMem)

def dosOpenEventSem (order : List Nat) (pszName phev : UInt32) : Nat × GuestMemory :=
  if pszName ≠ 0 then
    s.opened (s.openEventByName order (s.nameAt rs pszName)) phev errorFileNotFound
  else s.checked s.eventSems phev

def dosOpenMutexSem (order : List Nat) (pszName phmtx : UInt32) : Nat × GuestMemory :=
  if pszName ≠ 0 then
    s.opened (s.openMutexByName order (s.nameAt rs pszName)) phmtx errorFileNotFound
  else s.checked s.mutexSems phmtx

def dosOpenQueue (order : List Nat) (phq pszName : UInt32) : Nat × GuestMemory :=
  s.opened (s.findQueueByName order (s.nameAt rs pszName)) phq errorQueueNameNotExist

def dosGetNamedSharedMem (ppb pszName : UInt32) : Nat × GuestMemory :=
  s.opened (s.namedBlocks (s.nameAt rs pszName)) ppb errorFileNotFound

def openByName (kind : ObjectKind) (order : List Nat) (pszName ptr : UInt32) : Nat × GuestMemory :=
  match kind with
  | .event => s.dosOpenEventSem rs order pszName ptr
  | .mutex => s.dosOpenMutexSem rs order pszName ptr
  | .queue => s.dosOpenQueue rs order ptr pszName
  | .memory => s.dosGetNamedSharedMem rs ptr pszName

/-- The handle or address is one that other calls accept. -/
def Valid (obj : LiveObject) : Prop :=
  match obj.kind with
  | .event => (s.eventSems obj.handle).isSome
  | .mutex => (s.mutexSems obj.handle).isSome
  | .queue => (s.queues obj.handle).isSome
  | .memory => obj.handle ∈ s.memMgr.addresses

def Order (kind : ObjectKind) (order : List Nat) : Prop :=
  match kind with
  | .event => Visits order s.eventSems
  | .mutex => Visits order s.mutexSems
  | .queue => Visits order s.queues
  | .memory => True

end NameState
end Warpine.Ipc
