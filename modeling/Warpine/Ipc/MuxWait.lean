import Warpine.Guest.Memory
import Warpine.Ipc.Mutex

/-! `DosWaitMuxWaitSem` under any interleaving of guest threads. A pass over the
records takes the semaphore manager's lock anew for each record, so every other
thread can act between two samples, and between the last one and the return. -/
namespace Warpine.Ipc
open Warpine.Lib Warpine.Guest

structure EventSemaphore where
  posted : Bool
  attr : UInt32
  name : Option String

inductive SemHandle where
  | event (h : UInt32)
  | mutex (h : UInt32)
deriving DecidableEq

def SemHandle.handle : SemHandle → Nat
  | .event h => h.toNat
  | .mutex h => h.toNat

structure MuxWaitRecord where
  hsem : SemHandle
  user : UInt32
deriving DecidableEq

structure MuxWaitSemaphore where
  records : List MuxWaitRecord
  waitAll : Bool
  attr : UInt32
  name : Option String

/-- The semaphore that a handle stands for. -/
inductive SemObject where
  | event (object : Nat)
  | mutex (object : Nat)
deriving DecidableEq

/-- A call in progress, with its pass over the records. The last two fields are
history: the semaphore found ready at each record of the pass, and whether all
the listed semaphores have been available at one moment of the call. -/
structure MuxWait where
  mux : MuxWaitSemaphore
  pulUserPtr : UInt32
  i : Nat
  readyIdx : Option Nat
  allReady : Bool
  found : Table Nat SemObject
  instant : Bool

namespace MuxWait

def start (mux : MuxWaitSemaphore) (pulUserPtr : UInt32) : MuxWait :=
  { mux, pulUserPtr, i := 0, readyIdx := none, allReady := true, found := .empty,
    instant := false }

def nextPass (wait : MuxWait) : MuxWait :=
  { wait with i := 0, readyIdx := none, allReady := true, found := .empty }

def complete (wait : MuxWait) : Bool := wait.i == wait.mux.records.length

/-- The test after a pass that lets the call return 0. -/
def passed (wait : MuxWait) : Bool :=
  (wait.mux.waitAll && wait.allReady) || (!wait.mux.waitAll && wait.readyIdx.isSome)

/-- The records whose semaphores satisfy the wait. -/
def Satisfies (wait : MuxWait) (idx : Nat) : Prop :=
  if wait.mux.waitAll then idx < wait.mux.records.length else wait.readyIdx = some idx

end MuxWait

/-- The mutexes and the handle counter are those of `MutexState`. -/
structure MuxState where
  base : MutexState
  eventSems : Table Nat Nat
  events : Table Nat EventSemaphore
  nextEvent : Nat
  muxSems : Table Nat MuxWaitSemaphore
  waits : Table Tid MuxWait
  memory : GuestMemory

/-- Handles that a creating call stores for its caller are guest writes as any other. -/
inductive MuxEvent where
  | mutex (event : Event)
  | createEvent (tid flAttr fState : UInt32)
  | closeEvent (tid hev : UInt32)
  | postEvent (tid hev : UInt32)
  | createMux (tid count recordsPtr flAttr : UInt32)
  | closeMux (tid hmux : UInt32)
  | waitMux (tid hmux pulUserPtr : UInt32)
  | sample (tid : Tid)
  | returnReady (tid : Tid)
  | retry (tid : Tid)
  | timeOut (tid : Tid)
  | guestWrites (bytes : ByteStore)

namespace MuxState

def initial (memory : GuestMemory) : MuxState where
  base := .initial
  eventSems := .empty
  events := .empty
  nextEvent := 0
  muxSems := .empty
  waits := .empty
  memory := memory

/-- An event is looked for first, whatever kind the record names. -/
def lookup (state : MuxState) (h : Nat) : Option SemObject :=
  match state.eventSems h with
  | some object => some (.event object)
  | none => (state.base.semMgr.mutexSems h).map .mutex

def isReady (state : MuxState) (tid : Tid) : SemObject → Bool
  | .event object => (state.events object).any fun sem => sem.posted
  | .mutex object => (state.base.heap object).any fun sem =>
      sem.ownerTid.isNone || sem.ownerTid == some tid

/-- The semaphore of a handle, if the thread finds it ready. -/
def readySem (state : MuxState) (tid : Tid) (h : Nat) : Option SemObject :=
  (state.lookup h).filter (state.isReady tid)

def idle (state : MuxState) (tid : Tid) : Bool :=
  (state.waits tid).isNone && (state.base.pending tid).isNone

def bumpHandle (base : MutexState) : MutexState :=
  { base with semMgr := { base.semMgr with nextHandle := wrapAdd base.semMgr.nextHandle 1 } }

def createEvent (state : MuxState) (attr : UInt32) (posted : Bool) : MuxState :=
  { state with
    base := bumpHandle state.base
    eventSems := state.eventSems.insert state.base.semMgr.nextHandle state.nextEvent
    events := state.events.insert state.nextEvent { posted, attr, name := none }
    nextEvent := state.nextEvent + 1 }

def postEvent (state : MuxState) (hev : UInt32) : MuxState :=
  match state.eventSems hev.toNat with
  | some object =>
      match state.events object with
      | some sem =>
          { state with events := state.events.insert object { sem with posted := true } }
      | none => state
  | none => state

/-- Every record is taken for an event's. -/
def readRecords (memory : GuestMemory) (count recordsPtr : UInt32) : List MuxWaitRecord :=
  (List.range count.toNat).map fun i =>
    let at_ := recordsPtr + UInt32.ofNat i * 8
    { hsem := .event (UInt32.ofNat ((memory.read 4 at_.toNat).getD 0))
      user := UInt32.ofNat ((memory.read 4 (at_ + 4).toNat).getD 0) }

def createMux (state : MuxState) (count recordsPtr flAttr : UInt32) : MuxState :=
  { state with
    base := bumpHandle state.base
    muxSems := state.muxSems.insert state.base.semMgr.nextHandle
      { records := readRecords state.memory count recordsPtr
        waitAll := flAttr &&& 4 != 0
        attr := flAttr
        name := none } }

/-- One turn of the loop over the records. -/
def sampleRecord (state : MuxState) (tid : Tid) (wait : MuxWait) (record : MuxWaitRecord) :
    MuxWait :=
  match state.readySem tid record.hsem.handle with
  | some sem =>
      { wait with
        i := wait.i + 1
        readyIdx := some wait.i
        found := wait.found.insert wait.i sem }
  | none => { wait with i := wait.i + 1, allReady := false }

def storeUser (memory : GuestMemory) (wait : MuxWait) : GuestMemory :=
  match wait.readyIdx.bind fun idx => wait.mux.records[idx]? with
  | some record => memory.putAt 4 wait.pulUserPtr.toNat record.user.toNat
  | none => memory

def act (state : MuxState) : MuxEvent → Option MuxState
  | .mutex event =>
      if (state.waits event.tid).isNone then
        (state.base.exec event).map fun base => { state with base }
      else none
  | .createEvent tid flAttr fState =>
      if state.idle tid then some (state.createEvent flAttr (fState != 0)) else none
  | .closeEvent tid hev =>
      if state.idle tid then some { state with eventSems := state.eventSems.erase hev.toNat }
      else none
  | .postEvent tid hev => if state.idle tid then some (state.postEvent hev) else none
  | .createMux tid count recordsPtr flAttr =>
      if state.idle tid then some (state.createMux count recordsPtr flAttr) else none
  | .closeMux tid hmux =>
      if state.idle tid then some { state with muxSems := state.muxSems.erase hmux.toNat }
      else none
  | .waitMux tid hmux pulUserPtr =>
      if state.idle tid then
        match state.muxSems hmux.toNat with
        | some mux => some { state with waits := state.waits.insert tid (.start mux pulUserPtr) }
        | none => some state
      else none
  | .sample tid => do
      let wait ← state.waits tid
      let record ← wait.mux.records[wait.i]?
      some { state with waits := state.waits.insert tid (state.sampleRecord tid wait record) }
  | .returnReady tid => do
      let wait ← state.waits tid
      if wait.complete && wait.passed then
        some { state with
          waits := state.waits.erase tid
          memory := storeUser state.memory wait }
      else none
  | .retry tid => do
      let wait ← state.waits tid
      if wait.complete && !wait.passed then
        some { state with waits := state.waits.insert tid wait.nextPass }
      else none
  | .timeOut tid => do
      let wait ← state.waits tid
      -- A call gives up after a pass, or before one when the system shuts down.
      if wait.complete && !wait.passed || wait.i == 0 then
        some { state with waits := state.waits.erase tid }
      else none
  | .guestWrites bytes => some { state with memory := { state.memory with bytes } }

/-- All semaphores of a call are available to it now. -/
def available (state : MuxState) (tid : Tid) (wait : MuxWait) : Bool :=
  wait.mux.records.all fun record => (state.readySem tid record.hsem.handle).isSome

/-- Notes the calls whose semaphores are all available. -/
def observe (state : MuxState) : MuxState :=
  { state with
    waits := fun tid => (state.waits tid).map fun wait =>
      { wait with instant := wait.instant || state.available tid wait } }

def exec (state : MuxState) (event : MuxEvent) : Option MuxState :=
  (state.act event).map observe

def step : Step MuxState MuxEvent := fun state event next => state.exec event = some next

/-- What a return code of 0 promises the caller. -/
structure Promise (wait : MuxWait) (tid : Tid) (next : MuxState) : Prop where
  instant : wait.mux.waitAll = true → wait.instant = true
  owned : ∀ idx object, wait.Satisfies idx → wait.found idx = some (.mutex object) →
    ∃ sem, next.base.heap object = some sem ∧ sem.ownerTid = some tid
  user : wait.pulUserPtr ≠ 0 → next.memory.inBounds wait.pulUserPtr.toNat 4 = true →
    ∃ idx record, wait.Satisfies idx ∧ wait.mux.records[idx]? = some record ∧
      next.memory.read 4 wait.pulUserPtr.toNat = some record.user.toNat

/-- Every call that can return 0 now keeps its promise. -/
def Sound (state : MuxState) : Prop :=
  ∀ tid wait next, state.waits tid = some wait →
    state.exec (.returnReady tid) = some next → Promise wait tid next

end MuxState

/-- A pass of a wait for all that has found every handle ready so far, this one among them. -/
def MuxWait.Protects (wait : MuxWait) (h : Nat) : Prop :=
  wait.mux.waitAll = true ∧ wait.allReady = true ∧
    ∃ idx < wait.i, ∃ record, wait.mux.records[idx]? = some record ∧ record.hsem.handle = h

namespace MuxState

def Protected (state : MuxState) (h : Nat) : Prop :=
  ∃ tid wait, state.waits tid = some wait ∧ wait.Protects h

/-- No wait counts a free mutex as ready, a wait for all lists something, and a
handle that a wait for all relies on is neither closed nor given out anew. -/
def Allowed (state : MuxState) : MuxEvent → Prop
  | .mutex (.createMutex _ _ _) => ¬ state.Protected state.base.semMgr.nextHandle
  | .mutex (.closeMutex _ hmtx) => ¬ state.Protected hmtx.toNat
  | .createEvent _ _ _ => ¬ state.Protected state.base.semMgr.nextHandle
  | .closeEvent _ hev => ¬ state.Protected hev.toNat
  | .waitMux _ hmux _ => ∀ mux, state.muxSems hmux.toNat = some mux → mux.waitAll = true →
      mux.records ≠ []
  | .sample tid => ∀ wait record object sem, state.waits tid = some wait →
      wait.mux.records[wait.i]? = some record →
      state.lookup record.hsem.handle = some (.mutex object) →
      state.base.heap object = some sem → sem.ownerTid ≠ none
  | _ => True

/-- A posted event, or a mutex of the thread itself. -/
def Holds (state : MuxState) (tid : Tid) : SemObject → Prop
  | .event object => ∃ sem, state.events object = some sem ∧ sem.posted = true
  | .mutex object => ∃ sem, state.base.heap object = some sem ∧ sem.ownerTid = some tid

theorem isReady_of_holds {state : MuxState} {tid : Tid} {sem : SemObject}
    (h : state.Holds tid sem) : state.isReady tid sem = true := by
  cases sem with
  | event object =>
    obtain ⟨sem, hsem, hposted⟩ := h
    simp [isReady, hsem, hposted]
  | mutex object =>
    obtain ⟨sem, hsem, howner⟩ := h
    simp [isReady, hsem, howner]

/-- The invariant of a call in progress. -/
structure Backed (state : MuxState) (tid : Tid) (wait : MuxWait) : Prop where
  listed : wait.mux.waitAll = true → wait.mux.records ≠ []
  last : ∀ idx, wait.readyIdx = some idx → idx < wait.mux.records.length
  seen : wait.allReady = true → 0 < wait.i → wait.readyIdx.isSome = true
  held : ∀ idx sem, wait.found idx = some sem → state.Holds tid sem
  all : wait.mux.waitAll = true → wait.allReady = true → ∀ idx < wait.i, ∃ record sem,
    wait.mux.records[idx]? = some record ∧ state.lookup record.hsem.handle = some sem ∧
      state.Holds tid sem

structure Inv (state : MuxState) : Prop where
  backed : ∀ tid wait, state.waits tid = some wait → state.Backed tid wait
  freshEvent : ∀ object, state.nextEvent ≤ object → state.events object = none
  freshMutex : ∀ object, state.base.nextObject ≤ object → state.base.heap object = none

/-- A finished pass of a wait for all that found everything ready has seen the instant. -/
def Observed (state : MuxState) : Prop :=
  ∀ tid wait, state.waits tid = some wait → wait.mux.waitAll = true → wait.allReady = true →
    wait.complete = true → wait.instant = true

end MuxState

namespace MuxState

variable {state next : MuxState}

theorem inv_initial (memory : GuestMemory) : (initial memory).Inv where
  backed := by simp [initial]
  freshEvent := by simp [initial]
  freshMutex := by simp [initial, MutexState.initial]

theorem Backed.frame {tid : Tid} {wait : MuxWait} (backed : state.Backed tid wait)
    (holds : ∀ sem, state.Holds tid sem → next.Holds tid sem)
    (lookups : ∀ h, wait.Protects h → next.lookup h = state.lookup h) :
    next.Backed tid wait where
  listed := backed.listed
  last := backed.last
  seen := backed.seen
  held := fun idx sem hfound => holds sem (backed.held idx sem hfound)
  all := by
    intro hall hready idx hidx
    obtain ⟨record, sem, hrecord, hlookup, hholds⟩ := backed.all hall hready idx hidx
    refine ⟨record, sem, hrecord, ?_, holds sem hholds⟩
    rw [lookups _ ⟨hall, hready, idx, hidx, record, hrecord, rfl⟩]
    exact hlookup

/-- A step of one thread that leaves the calls in progress alone. -/
theorem Inv.others (inv : state.Inv) (hwaits : next.waits = state.waits)
    (freshEvent : ∀ object, next.nextEvent ≤ object → next.events object = none)
    (freshMutex : ∀ object, next.base.nextObject ≤ object → next.base.heap object = none)
    (holds : ∀ tid wait sem, state.waits tid = some wait → state.Holds tid sem →
      next.Holds tid sem)
    (lookups : ∀ h, state.Protected h → next.lookup h = state.lookup h) : next.Inv where
  backed := by
    intro tid wait hwait
    rw [hwaits] at hwait
    apply (inv.backed tid wait hwait).frame (holds tid wait · hwait)
    intro h hprotects
    exact lookups h ⟨tid, wait, hwait, hprotects⟩
  freshEvent := freshEvent
  freshMutex := freshMutex

/-- A step that changes neither semaphores nor handles of semaphores. -/
theorem Inv.quiet (inv : state.Inv) (hevents : next.events = state.events)
    (hnext : next.nextEvent = state.nextEvent) (hheap : next.base.heap = state.base.heap)
    (hobject : next.base.nextObject = state.base.nextObject)
    (heventSems : next.eventSems = state.eventSems)
    (hmutexSems : next.base.semMgr.mutexSems = state.base.semMgr.mutexSems)
    (backed : ∀ tid wait, next.waits tid = some wait → state.Backed tid wait) : next.Inv where
  backed := by
    intro tid wait hwait
    apply (backed tid wait hwait).frame
    · intro sem hsem
      cases sem with
      | event object => simpa only [Holds, hevents] using hsem
      | mutex object => simpa only [Holds, hheap] using hsem
    · intro h _
      simp only [lookup, heventSems, hmutexSems]
  freshEvent := by
    rw [hevents, hnext]
    exact inv.freshEvent
  freshMutex := by
    rw [hheap, hobject]
    exact inv.freshMutex

theorem Inv.setWait (inv : state.Inv) {tid : Tid} {wait : MuxWait}
    (backed : state.Backed tid wait) :
    Inv { state with waits := state.waits.insert tid wait } := by
  refine inv.quiet rfl rfl rfl rfl rfl rfl ?_
  intro other found hfound
  rcases Table.insert_eq_some.mp hfound with ⟨rfl, rfl⟩ | ⟨_, hold⟩
  · exact backed
  · exact inv.backed other found hold

theorem Inv.endWait (inv : state.Inv) (tid : Tid) (memory : GuestMemory) :
    Inv { state with waits := state.waits.erase tid, memory } := by
  refine inv.quiet rfl rfl rfl rfl rfl rfl ?_
  intro other found hfound
  exact inv.backed other found (Table.erase_eq_some.mp hfound).2

theorem backed_start (tid : Tid) (mux : MuxWaitSemaphore) (pulUserPtr : UInt32)
    (listed : mux.waitAll = true → mux.records ≠ []) :
    state.Backed tid (.start mux pulUserPtr) where
  listed := listed
  last := by simp [MuxWait.start]
  seen := by simp [MuxWait.start]
  held := by simp [MuxWait.start]
  all := by simp [MuxWait.start]

theorem backed_nextPass {tid : Tid} {wait : MuxWait} (backed : state.Backed tid wait) :
    state.Backed tid wait.nextPass where
  listed := backed.listed
  last := by simp [MuxWait.nextPass]
  seen := by simp [MuxWait.nextPass]
  held := by simp [MuxWait.nextPass]
  all := by simp [MuxWait.nextPass]

/-- A semaphore found ready that is not a free mutex. -/
theorem holds_of_readySem {tid : Tid} {h : Nat} {sem : SemObject}
    (ready : state.readySem tid h = some sem)
    (taken : ∀ object mutex, state.lookup h = some (.mutex object) →
      state.base.heap object = some mutex → mutex.ownerTid ≠ none) :
    state.lookup h = some sem ∧ state.Holds tid sem := by
  obtain ⟨hlookup, hready⟩ := Option.filter_eq_some_iff.mp ready
  refine ⟨hlookup, ?_⟩
  cases sem with
  | event object =>
    obtain ⟨sem, hsem, hposted⟩ := (Option.any_eq_true _ _).mp hready
    exact ⟨sem, hsem, hposted⟩
  | mutex object =>
    obtain ⟨sem, hsem, hfree⟩ := (Option.any_eq_true _ _).mp hready
    have hsome := taken object sem hlookup hsem
    refine ⟨sem, hsem, ?_⟩
    cases howner : sem.ownerTid with
    | none => exact absurd howner hsome
    | some owner => simpa [howner] using hfree

theorem backed_sample {tid : Tid} {wait : MuxWait} {record : MuxWaitRecord}
    (backed : state.Backed tid wait) (hrecord : wait.mux.records[wait.i]? = some record)
    (taken : ∀ object mutex, state.lookup record.hsem.handle = some (.mutex object) →
      state.base.heap object = some mutex → mutex.ownerTid ≠ none) :
    state.Backed tid (state.sampleRecord tid wait record) := by
  unfold sampleRecord
  split
  · rename_i sem hready
    obtain ⟨hlookup, hholds⟩ := holds_of_readySem hready taken
    refine ⟨backed.listed, ?_, by simp, ?_, ?_⟩
    · intro idx hidx
      cases hidx
      exact (List.getElem?_eq_some_iff.mp hrecord).1
    · intro idx found hfound
      rcases Table.insert_eq_some.mp hfound with ⟨_, rfl⟩ | ⟨_, hold⟩
      · exact hholds
      · exact backed.held idx found hold
    · intro hall hsofar idx hidx
      by_cases hlast : idx = wait.i
      · subst hlast
        exact ⟨record, sem, hrecord, hlookup, hholds⟩
      · have hbefore : idx < wait.i := by
          dsimp only at hidx
          omega
        exact backed.all hall hsofar idx hbefore
  · exact ⟨backed.listed, backed.last, by simp, backed.held, by simp⟩

theorem inv_mutex (inv : state.Inv) {event : Event} {base : MutexState}
    (allowed : state.Allowed (.mutex event)) (away : state.waits event.tid = none)
    (h : state.base.exec event = some base) : Inv { state with base } := by
  refine inv.others rfl inv.freshEvent (MutexState.fresh_of_exec inv.freshMutex h) ?_ ?_
  · intro tid wait sem hwait hsem
    cases sem with
    | event object => exact hsem
    | mutex object =>
      obtain ⟨sem, hfound, howner⟩ := hsem
      have hother : tid ≠ event.tid := by
        rintro rfl
        rw [away] at hwait
        cases hwait
      exact MutexState.owner_kept inv.freshMutex h hother hfound howner
  · intro handle hprotected
    have hsame : base.semMgr.mutexSems handle = state.base.semMgr.mutexSems handle := by
      apply MutexState.mutexSems_of_exec h
      · rintro tid flAttr fState rfl rfl
        exact allowed hprotected
      · rintro tid hmtx rfl rfl
        exact allowed hprotected
    simp only [lookup, hsame]

theorem inv_createEvent (inv : state.Inv) (attr : UInt32) (posted : Bool)
    (unused : ¬ state.Protected state.base.semMgr.nextHandle) :
    (state.createEvent attr posted).Inv := by
  refine inv.others rfl ?_ ?_ ?_ ?_
  · intro object hobject
    have hge : state.nextEvent + 1 ≤ object := hobject
    have hne : object ≠ state.nextEvent := by omega
    simp only [createEvent, Table.insert_ne _ _ hne]
    exact inv.freshEvent object (by omega)
  · exact inv.freshMutex
  · intro tid wait sem _ hsem
    cases sem with
    | mutex object => exact hsem
    | event object =>
      obtain ⟨sem, hfound, hposted⟩ := hsem
      have hne : object ≠ state.nextEvent := by
        rintro rfl
        rw [inv.freshEvent _ (Nat.le_refl _)] at hfound
        cases hfound
      refine ⟨sem, ?_, hposted⟩
      simp only [createEvent, Table.insert_ne _ _ hne]
      exact hfound
  · intro handle hprotected
    have hne : handle ≠ state.base.semMgr.nextHandle := by
      rintro rfl
      exact unused hprotected
    simp only [lookup, createEvent, Table.insert_ne _ _ hne]
    rfl

theorem inv_postEvent (inv : state.Inv) (hev : UInt32) : (state.postEvent hev).Inv := by
  unfold postEvent
  split
  · rename_i object _
    split
    · rename_i sem hsem
      refine inv.others rfl ?_ ?_ ?_ ?_
      · intro other hother
        have hnone := inv.freshEvent other hother
        have hne : other ≠ object := by
          rintro rfl
          rw [hnone] at hsem
          cases hsem
        simp only [Table.insert_ne _ _ hne, hnone]
      · exact inv.freshMutex
      · intro tid wait found _ hfound
        cases found with
        | mutex other => exact hfound
        | event other =>
          obtain ⟨old, hold, hposted⟩ := hfound
          by_cases hsame : other = object
          · subst hsame
            exact ⟨{ sem with posted := true }, by simp, rfl⟩
          · exact ⟨old, by simp [hsame, hold], hposted⟩
      · exact fun _ _ => rfl
    · exact inv
  · exact inv

theorem inv_act (inv : state.Inv) (event : MuxEvent) (allowed : state.Allowed event)
    (h : state.act event = some next) : next.Inv := by
  cases event with
  | mutex event =>
    simp only [act] at h
    split at h
    · rename_i haway
      obtain ⟨base, hbase, rfl⟩ := Option.map_eq_some_iff.mp h
      exact inv_mutex inv allowed (Option.isNone_iff_eq_none.mp haway) hbase
    · cases h
  | createEvent tid flAttr fState =>
    simp only [act] at h
    split at h
    · cases h
      exact inv_createEvent inv flAttr _ allowed
    · cases h
  | closeEvent tid hev =>
    simp only [act] at h
    split at h
    · cases h
      refine inv.others rfl inv.freshEvent inv.freshMutex (fun _ _ _ _ hsem => hsem) ?_
      intro handle hprotected
      have hne : handle ≠ hev.toNat := by
        rintro rfl
        exact allowed hprotected
      simp only [lookup, Table.erase_ne _ hne]
    · cases h
  | postEvent tid hev =>
    simp only [act] at h
    split at h
    · cases h
      exact inv_postEvent inv hev
    · cases h
  | createMux tid count recordsPtr flAttr =>
    simp only [act] at h
    split at h
    · cases h
      exact inv.quiet rfl rfl rfl rfl rfl rfl inv.backed
    · cases h
  | closeMux tid hmux =>
    simp only [act] at h
    split at h
    · cases h
      exact inv.quiet rfl rfl rfl rfl rfl rfl inv.backed
    · cases h
  | waitMux tid hmux pulUserPtr =>
    simp only [act] at h
    split at h
    · split at h
      · rename_i mux hmux
        cases h
        exact inv.setWait (backed_start tid mux pulUserPtr (allowed mux hmux))
      · cases h
        exact inv
    · cases h
  | sample tid =>
    simp only [act] at h
    obtain ⟨wait, hwait, h⟩ := Option.bind_eq_some_iff.mp h
    obtain ⟨record, hrecord, h⟩ := Option.bind_eq_some_iff.mp h
    cases h
    apply inv.setWait
    apply backed_sample (inv.backed tid wait hwait) hrecord
    exact fun object sem => allowed wait record object sem hwait hrecord
  | returnReady tid =>
    simp only [act] at h
    obtain ⟨wait, hwait, h⟩ := Option.bind_eq_some_iff.mp h
    split at h
    · cases h
      exact inv.endWait tid _
    · cases h
  | retry tid =>
    simp only [act] at h
    obtain ⟨wait, hwait, h⟩ := Option.bind_eq_some_iff.mp h
    split at h
    · cases h
      exact inv.setWait (backed_nextPass (inv.backed tid wait hwait))
    · cases h
  | timeOut tid =>
    simp only [act] at h
    obtain ⟨wait, hwait, h⟩ := Option.bind_eq_some_iff.mp h
    split at h
    · cases h
      exact inv.endWait tid _
    · cases h
  | guestWrites bytes =>
    cases h
    exact inv.quiet rfl rfl rfl rfl rfl rfl inv.backed

/-- A call whose pass found everything ready sees it available at once. -/
theorem available_of_backed {tid : Tid} {wait : MuxWait} (backed : state.Backed tid wait)
    (hall : wait.mux.waitAll = true) (hready : wait.allReady = true)
    (hcomplete : wait.complete = true) : state.available tid wait = true := by
  have hlength : wait.i = wait.mux.records.length := by simpa [MuxWait.complete] using hcomplete
  apply List.all_eq_true.mpr
  intro record hmember
  obtain ⟨idx, hidx, hget⟩ := List.mem_iff_getElem.mp hmember
  obtain ⟨found, sem, hfound, hlookup, hholds⟩ := backed.all hall hready idx (hlength ▸ hidx)
  rw [List.getElem?_eq_getElem hidx, hget] at hfound
  cases hfound
  simp [readySem, hlookup, isReady_of_holds hholds]

theorem inv_observe (inv : state.Inv) : state.observe.Inv ∧ state.observe.Observed := by
  have hwaits : ∀ tid wait, state.observe.waits tid = some wait → ∃ old,
      state.waits tid = some old ∧
        { old with instant := old.instant || state.available tid old } = wait := by
    intro tid wait hwait
    exact Option.map_eq_some_iff.mp hwait
  constructor
  · refine inv.quiet rfl rfl rfl rfl rfl rfl ?_
    intro tid wait hwait
    obtain ⟨old, hold, rfl⟩ := hwaits tid wait hwait
    have backed := inv.backed tid old hold
    exact ⟨backed.listed, backed.last, backed.seen, backed.held, backed.all⟩
  · intro tid wait hwait hall hready hcomplete
    obtain ⟨old, hold, rfl⟩ := hwaits tid wait hwait
    have hnow := available_of_backed (inv.backed tid old hold) hall hready hcomplete
    simp [hnow]

theorem inv_exec (inv : state.Inv) (event : MuxEvent) (allowed : state.Allowed event)
    (h : state.exec event = some next) : next.Inv ∧ next.Observed := by
  obtain ⟨middle, hact, rfl⟩ := Option.map_eq_some_iff.mp h
  exact inv_observe (inv_act inv event allowed hact)

theorem read_storeUser {wait : MuxWait} {memory : GuestMemory} {idx : Nat}
    {record : MuxWaitRecord} (hidx : wait.readyIdx = some idx)
    (hrecord : wait.mux.records[idx]? = some record) (hptr : wait.pulUserPtr ≠ 0)
    (fits : (storeUser memory wait).inBounds wait.pulUserPtr.toNat 4 = true) :
    (storeUser memory wait).read 4 wait.pulUserPtr.toNat = some record.user.toNat := by
  have hnonzero : wait.pulUserPtr.toNat ≠ 0 := by
    intro hzero
    exact hptr (UInt32.toNat_inj.mp hzero)
  have hstore : storeUser memory wait =
      memory.put 4 wait.pulUserPtr.toNat record.user.toNat := by
    simp [storeUser, hidx, hrecord, GuestMemory.putAt, hnonzero]
  rw [hstore] at fits ⊢
  apply GuestMemory.read_put
  · exact record.user.toNat_lt
  · simpa [GuestMemory.put, GuestMemory.inBounds] using fits

theorem sound_of_inv (inv : state.Inv) (observed : state.Observed) : state.Sound := by
  intro tid wait next hwait h
  obtain ⟨middle, hact, rfl⟩ := Option.map_eq_some_iff.mp h
  have backed := inv.backed tid wait hwait
  simp only [act, hwait, Option.bind_eq_bind, Option.bind_some] at hact
  split at hact
  · rename_i hend
    cases hact
    obtain ⟨hcomplete, hpassed⟩ := Bool.and_eq_true_iff.mp hend
    have hready : wait.mux.waitAll = true → wait.allReady = true := by
      intro hall
      simpa [MuxWait.passed, hall] using hpassed
    constructor
    · intro hall
      exact observed tid wait hwait hall (hready hall) hcomplete
    · intro idx object _ hfound
      exact backed.held idx (.mutex object) hfound
    · intro hptr fits
      have hsome : wait.readyIdx.isSome = true := by
        by_cases hall : wait.mux.waitAll = true
        · apply backed.seen (hready hall)
          have hlength : wait.i = wait.mux.records.length := by
            simpa [MuxWait.complete] using hcomplete
          have hpos := List.length_pos_of_ne_nil (backed.listed hall)
          omega
        · simpa [MuxWait.passed, hall] using hpassed
      obtain ⟨idx, hidx⟩ := Option.isSome_iff_exists.mp hsome
      have hlt := backed.last idx hidx
      have hrecord := List.getElem?_eq_getElem hlt
      refine ⟨idx, _, ?_, hrecord, read_storeUser hidx hrecord hptr fits⟩
      unfold MuxWait.Satisfies
      split
      · exact hlt
      · exact hidx
  · cases hact

/-- Under every interleaving of allowed steps a call that returns 0 keeps its promise. -/
theorem allowed_wait_sound (memory : GuestMemory) (events : List MuxEvent) (state : MuxState)
    (run : Run (step.guarded Allowed) (initial memory) events state) : state.Sound := by
  have hinv : state.Inv ∧ state.Observed := by
    refine run.invariant (fun state => state.Inv ∧ state.Observed) ?_
      ⟨inv_initial memory, by simp [Observed, initial]⟩
    rintro start event finish ⟨inv, _⟩ ⟨hallowed, hstep⟩
    exact inv_exec inv event hallowed hstep
  exact sound_of_inv hinv.1 hinv.2

/-- Records for the handles 1 and 2 at address 8, with the user values 11 and 22. -/
def twoRecords : GuestMemory :=
  let empty : GuestMemory := ⟨64, fun _ => 0⟩
  (((empty.put 4 8 1).put 4 12 11).put 4 16 2).put 4 20 22

/-- A wait for all over a posted event and a mutex of the caller. -/
theorem allowed_wait_sound_both :
    ∃ state, [MuxEvent.createEvent 0 0 1, .mutex (.createMutex 0 0 1), .createMux 0 2 8 4,
      .waitMux 0 3 32, .sample 0, .sample 0].foldlM exec (initial twoRecords) = some state ∧
        (state.exec (.returnReady 0)).isSome ∧ state.Sound := by
  refine ⟨_, rfl, by decide, allowed_wait_sound twoRecords
    [MuxEvent.createEvent 0 0 1, .mutex (.createMutex 0 0 1), .createMux 0 2 8 4,
      .waitMux 0 3 32, .sample 0, .sample 0] _
    (.cons ⟨?_, rfl⟩ (.cons ⟨?_, rfl⟩ (.cons ⟨trivial, rfl⟩ (.cons ⟨?_, rfl⟩
      (.cons ⟨?_, rfl⟩ (.cons ⟨?_, rfl⟩ (.nil _)))))))⟩
  · rintro ⟨tid, wait, hwait, _⟩
    cases hwait
  · rintro ⟨tid, wait, hwait, _⟩
    cases hwait
  · intro mux hmux _
    cases hmux
    decide
  · intro wait record object sem hwait hrecord hlookup _
    cases hwait
    cases hrecord
    cases hlookup
  · intro wait record object sem hwait hrecord hlookup hsem
    cases hwait
    cases hrecord
    cases hlookup
    cases hsem
    simp

/-- Thread 1 takes the mutex that the pass has found free, and only then posts the event. -/
theorem sampled_apart :
    ¬ ∀ (memory : GuestMemory) (events : List MuxEvent) (state : MuxState),
      Run step (initial memory) events state → state.Sound := by
  intro claim
  let events : List MuxEvent := [.mutex (.createMutex 0 0 0), .createEvent 0 0 0,
    .createMux 0 2 8 4, .waitMux 0 3 32, .sample 0, .mutex (.requestMutex 1 1),
    .mutex (.tryAcquire 1), .postEvent 1 2, .sample 0]
  have hinstant : ((events.foldlM exec (initial twoRecords)).bind fun state =>
      (state.waits 0).map fun wait => (wait.mux.waitAll, wait.instant)) = some (true, false) := by
    decide
  have hreturns : ((events.foldlM exec (initial twoRecords)).bind fun state =>
      state.exec (.returnReady 0)).isSome = true := by
    decide
  obtain ⟨state, hstate, hinstant⟩ := Option.bind_eq_some_iff.mp hinstant
  obtain ⟨wait, hwait, hvalues⟩ := Option.map_eq_some_iff.mp hinstant
  rw [hstate, Option.bind_some] at hreturns
  obtain ⟨next, hnext⟩ := Option.isSome_iff_exists.mp hreturns
  have hsound := claim twoRecords events state (.of_foldlM (fun _ _ _ h => h) hstate)
  have hpromise := (hsound 0 wait next hwait hnext).instant (congrArg Prod.fst hvalues)
  have hfalse : wait.instant = false := congrArg Prod.snd hvalues
  rw [hfalse] at hpromise
  cases hpromise

end MuxState
end Warpine.Ipc
