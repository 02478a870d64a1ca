import Warpine.Guest.Memory
import Warpine.Ipc.Mutex
import Warpine.Loader.MemoryManager

/-! Queues under any interleaving of writers and readers. A read takes the front
element under the queue's lock and finds guest memory for it after that; other
threads may allocate in between. A history beside each queue follows its
elements from the write to the end of the read that took them. -/
namespace Warpine.Ipc
open Warpine.Lib Warpine.Guest Warpine.Loader

structure QueueEntry where
  data : List UInt8
  event : UInt32
  priority : UInt32
deriving DecidableEq

structure OS2Queue where
  name : String
  items : List QueueEntry
  attr : UInt32

namespace OS2Queue

/-- The two low bits of the attribute give the order: 0 is FIFO, 2 is by priority. -/
def isFifo (queue : OS2Queue) : Bool := queue.attr &&& 3 == 0
def isPriority (queue : OS2Queue) : Bool := queue.attr &&& 3 == 2

end OS2Queue

structure QueueManager where
  queues : Table Nat Nat
  nextHandle : Nat

/-- The pointers of a `DosReadQueue` call. -/
structure ReadArgs where
  preqPtr : UInt32
  pcbPtr : UInt32
  ppbufPtr : UInt32
  wait : UInt32
  pprioPtr : UInt32

inductive ReadCall where
  | looping (object : Nat) (args : ReadArgs)
  | taken (object : Nat) (entry : QueueEntry) (args : ReadArgs)

structure QueueHistory where
  written : List QueueEntry
  taken : List QueueEntry
  inFlight : List (Tid × QueueEntry)
  /-- Elements of reads that returned 0, and of reads that returned an error. -/
  delivered : List QueueEntry
  failed : List QueueEntry
  /-- Elements taken while one of higher priority waited, with the one that waited. -/
  overtaken : List (QueueEntry × QueueEntry)

def QueueHistory.empty : QueueHistory := ⟨[], [], [], [], [], []⟩

structure QueueState where
  queueMgr : QueueManager
  heap : Table Nat OS2Queue
  nextObject : Nat
  memMgr : MemoryManager
  guestMem : GuestMemory
  pending : Table Tid ReadCall
  history : Nat → QueueHistory

inductive QueueEvent where
  | createQueue (attr : UInt32) (name : String)
  | writeQueue (hq event len bufPtr priority : UInt32)
  | readQueue (tid : Tid) (hq : UInt32) (args : ReadArgs)
  | takeFront (tid : Tid)
  | finishRead (tid : Tid)
  | giveUp (tid : Tid)
  | memory (call : MemoryManager.Call)
  | guestStore (offset : UInt32) (data : List UInt8)

namespace QueueState

def initial (memMgr : MemoryManager) (guestMem : GuestMemory) : QueueState where
  queueMgr := ⟨.empty, 1⟩
  heap := .empty
  nextObject := 0
  memMgr := memMgr
  guestMem := guestMem
  pending := .empty
  history := fun _ => .empty

def createQueue (state : QueueState) (attr : UInt32) (name : String) : QueueState :=
  let h := state.queueMgr.nextHandle
  { state with
    queueMgr := ⟨state.queueMgr.queues.insert h state.nextObject, wrapAdd h 1⟩
    heap := state.heap.insert state.nextObject { name, items := [], attr }
    nextObject := state.nextObject + 1 }

/-- The guest's bytes, capped at 64 MB; zeros where they are out of bounds. -/
def guestData (mem : GuestMemory) (bufPtr len : UInt32) : List UInt8 :=
  let len := min len.toNat (64 * 1024 * 1024)
  (mem.slice bufPtr.toNat len).getD (List.replicate len 0)

def writeQueue (state : QueueState) (hq event len bufPtr priority : UInt32) : QueueState :=
  match state.queueMgr.queues hq.toNat with
  | none => state
  | some object => match state.heap object with
    | none => state
    | some queue =>
        let entry : QueueEntry := ⟨guestData state.guestMem bufPtr len, event, priority⟩
        let history := state.history object
        { state with
          heap := state.heap.insert object { queue with items := queue.items ++ [entry] }
          history := Function.update state.history object
            { history with written := history.written ++ [entry] } }

def readQueue (state : QueueState) (tid : Tid) (hq : UInt32) (args : ReadArgs) : QueueState :=
  match state.queueMgr.queues hq.toNat with
  | none => state
  | some object => { state with pending := state.pending.insert tid (.looping object args) }

/-- `pop_front` under the queue's lock. -/
def takeFront (state : QueueState) (tid : Tid) (object : Nat) (args : ReadArgs) : QueueState :=
  match state.heap object with
  | none => state
  | some queue => match queue.items with
    | [] => state
    | entry :: rest =>
        let history := state.history object
        let overtaking := rest.filter fun other => entry.priority < other.priority
        { state with
          heap := state.heap.insert object { queue with items := rest }
          pending := state.pending.insert tid (.taken object entry args)
          history := Function.update state.history object
            { history with
              taken := history.taken ++ [entry]
              inFlight := (tid, entry) :: history.inFlight
              overtaken := history.overtaken ++ overtaking.map fun other => (entry, other) } }

def storeEntry (mem : GuestMemory) (guestAddr : Nat) (entry : QueueEntry) (args : ReadArgs) :
    GuestMemory :=
  let mem := mem.putBytes guestAddr entry.data
  let mem := mem.put 4 args.ppbufPtr.toNat guestAddr
  let mem := mem.put 4 args.pcbPtr.toNat entry.data.length
  let mem :=
    if args.preqPtr ≠ 0 then mem.put 4 (wrapAdd args.preqPtr.toNat 4) entry.event.toNat else mem
  mem.putAt 1 args.pprioPtr.toNat entry.priority.toNat

/-- The read returns 0 if a guest block is found for its element, and 8 if not. -/
def finishRead (state : QueueState) (tid : Tid) (object : Nat) (entry : QueueEntry)
    (args : ReadArgs) : QueueState :=
  let history := state.history object
  let inFlight := history.inFlight.erase (tid, entry)
  let pending := state.pending.erase tid
  match state.memMgr.alloc entry.data.length with
  | some (guestAddr, memMgr) =>
      { state with
        memMgr
        pending
        guestMem := storeEntry state.guestMem guestAddr entry args
        history := Function.update state.history object
          { history with inFlight, delivered := history.delivered ++ [entry] } }
  | none =>
      { state with
        pending
        history := Function.update state.history object
          { history with inFlight, failed := history.failed ++ [entry] } }

/-- A reader gives up when the queue is empty and it does not wait, and at any
time when the system shuts down. -/
def exec (state : QueueState) : QueueEvent → Option QueueState
  | .createQueue attr name => some (state.createQueue attr name)
  | .writeQueue hq event len bufPtr priority =>
      some (state.writeQueue hq event len bufPtr priority)
  | .readQueue tid hq args =>
      if (state.pending tid).isNone then some (state.readQueue tid hq args) else none
  | .takeFront tid => match state.pending tid with
      | some (.looping object args) => some (state.takeFront tid object args)
      | _ => none
  | .finishRead tid => match state.pending tid with
      | some (.taken object entry args) => some (state.finishRead tid object entry args)
      | _ => none
  | .giveUp tid => match state.pending tid with
      | some (.looping _ _) => some { state with pending := state.pending.erase tid }
      | _ => none
  | .memory call => some { state with memMgr := state.memMgr.exec call }
  | .guestStore offset data =>
      some { state with guestMem := state.guestMem.putBytes offset.toNat data }

def step : Step QueueState QueueEvent := fun state event next => state.exec event = some next

end QueueState

/-- What the guest relies on of one queue: no element is lost or delivered
twice, the order is the one the queue was created with, and a read that fails
has taken nothing. -/
structure OS2Queue.Sound (queue : OS2Queue) (history : QueueHistory) : Prop where
  kept : history.written.Perm (history.taken ++ queue.items)
  accounted : history.taken.Perm (history.delivered ++ history.inFlight.map Prod.snd)
  fifo : queue.isFifo → history.written = history.taken ++ queue.items
  descending : queue.isPriority → history.overtaken = []
  errors : history.failed = []

/-- The invariant. The order is that of the writes, whatever the attribute says. -/
structure OS2Queue.Accounted (queue : OS2Queue) (history : QueueHistory) : Prop where
  order : history.written = history.taken ++ queue.items
  accounted : history.taken.Perm (history.delivered ++ history.inFlight.map Prod.snd)
  descending : queue.isPriority → history.overtaken = []
  errors : history.failed = []

theorem OS2Queue.Accounted.sound {queue : OS2Queue} {history : QueueHistory}
    (h : queue.Accounted history) : queue.Sound history where
  kept := by rw [h.order]
  accounted := h.accounted
  fifo := fun _ => h.order
  descending := h.descending
  errors := h.errors

namespace QueueState

def Sound (state : QueueState) : Prop :=
  ∀ object queue, state.heap object = some queue → queue.Sound (state.history object)

structure Inv (state : QueueState) : Prop where
  accounted : ∀ object queue, state.heap object = some queue →
    queue.Accounted (state.history object)
  flying : ∀ tid object entry args, state.pending tid = some (.taken object entry args) →
    (tid, entry) ∈ (state.history object).inFlight ∧ (state.heap object).isSome
  fresh : ∀ object, state.nextObject ≤ object →
    state.heap object = none ∧ state.history object = .empty

/-- A read takes the front of a priority queue only where no element of higher
priority waits, and guest memory is found for what it takes. -/
def Allowed (state : QueueState) : QueueEvent → Prop
  | .takeFront tid => ∀ object args queue entry rest,
      state.pending tid = some (.looping object args) → state.heap object = some queue →
        queue.items = entry :: rest → queue.isPriority →
          ∀ other ∈ rest, other.priority ≤ entry.priority
  | .finishRead tid => ∀ object entry args, state.pending tid = some (.taken object entry args) →
      (state.memMgr.alloc entry.data.length).isSome
  | _ => True

theorem inv_initial (memMgr : MemoryManager) (guestMem : GuestMemory) :
    (initial memMgr guestMem).Inv where
  accounted := by simp [initial]
  flying := by simp [initial]
  fresh := by simp [initial]

theorem Inv.live {state : QueueState} (inv : state.Inv) {object : Nat} {queue : OS2Queue}
    (h : state.heap object = some queue) : object < state.nextObject := by
  by_contra hge
  have := (inv.fresh object (by omega)).1
  simp [this] at h

/-- Steps that touch neither queues nor histories, and start no read's end. -/
theorem Inv.frame {state next : QueueState} (inv : state.Inv) (hheap : next.heap = state.heap)
    (hhistory : next.history = state.history) (hobject : next.nextObject = state.nextObject)
    (hpending : ∀ tid object entry args, next.pending tid = some (.taken object entry args) →
      state.pending tid = some (.taken object entry args)) : next.Inv where
  accounted := by
    rw [hheap, hhistory]
    exact inv.accounted
  flying := by
    intro tid object entry args htaken
    rw [hheap, hhistory]
    exact inv.flying tid object entry args (hpending tid object entry args htaken)
  fresh := by
    rw [hheap, hhistory, hobject]
    exact inv.fresh

theorem inv_createQueue {state : QueueState} (inv : state.Inv) (attr : UInt32) (name : String) :
    (state.createQueue attr name).Inv where
  accounted := by
    intro object queue hqueue
    rcases Table.insert_eq_some.mp hqueue with ⟨rfl, rfl⟩ | ⟨_, hold⟩
    · have hempty := (inv.fresh state.nextObject (Nat.le_refl _)).2
      constructor <;> simp [createQueue, hempty, QueueHistory.empty]
    · exact inv.accounted object queue hold
  flying := by
    intro tid object entry args htaken
    obtain ⟨hmem, hlive⟩ := inv.flying tid object entry args htaken
    refine ⟨hmem, ?_⟩
    simp only [createQueue]
    by_cases hsame : object = state.nextObject
    · simp [hsame]
    · simpa [hsame] using hlive
  fresh := by
    intro object hobject
    simp only [createQueue] at hobject ⊢
    have hne : object ≠ state.nextObject := by omega
    rw [Table.insert_ne _ _ hne]
    exact inv.fresh object (by omega)

/-- An edit of one queue with its history, and perhaps of one thread's call. -/
theorem Inv.edit {state next : QueueState} (inv : state.Inv) {object : Nat} (queue : OS2Queue)
    {history : QueueHistory} (hlive : object < state.nextObject)
    (hheap : next.heap = state.heap.insert object queue)
    (hhistory : next.history = Function.update state.history object history)
    (hobject : next.nextObject = state.nextObject) (haccounted : queue.Accounted history)
    (hflying : ∀ tid target entry args, next.pending tid = some (.taken target entry args) →
      (tid, entry) ∈ (next.history target).inFlight ∧ (next.heap target).isSome) :
    next.Inv where
  accounted := by
    intro other found hfound
    rw [hheap] at hfound
    rw [hhistory]
    rcases Table.insert_eq_some.mp hfound with ⟨rfl, rfl⟩ | ⟨hne, hold⟩
    · simpa using haccounted
    · rw [Function.update_of_ne hne]
      exact inv.accounted other found hold
  flying := hflying
  fresh := by
    intro other hother
    have hne : other ≠ object := by omega
    rw [hheap, hhistory, Table.insert_ne _ _ hne, Function.update_of_ne hne]
    exact inv.fresh other (by omega)

theorem inv_writeQueue {state : QueueState} (inv : state.Inv)
    (hq event len bufPtr priority : UInt32) :
    (state.writeQueue hq event len bufPtr priority).Inv := by
  unfold writeQueue
  split
  · exact inv
  · rename_i object _
    split
    · exact inv
    · rename_i queue hqueue
      have haccounted := inv.accounted object queue hqueue
      refine inv.edit _ (inv.live hqueue) rfl rfl rfl ?_ ?_
      · exact ⟨by simp [haccounted.order], haccounted.accounted, haccounted.descending,
          haccounted.errors⟩
      · intro tid target entry args htaken
        obtain ⟨hmem, hlive⟩ := inv.flying tid target entry args htaken
        by_cases hsame : target = object
        · subst hsame
          simpa using hmem
        · simp [hsame, hmem, hlive]

theorem inv_takeFront {state : QueueState} (inv : state.Inv) (tid : Tid) (object : Nat)
    (args : ReadArgs)
    (greatest : ∀ queue entry rest, state.heap object = some queue → queue.items = entry :: rest →
      queue.isPriority → ∀ other ∈ rest, other.priority ≤ entry.priority) :
    (state.takeFront tid object args).Inv := by
  unfold takeFront
  split
  · exact inv
  · rename_i queue hqueue
    split
    · exact inv
    · rename_i entry rest hitems
      have haccounted := inv.accounted object queue hqueue
      refine inv.edit _ (inv.live hqueue) rfl rfl rfl ?_ ?_
      · refine ⟨?_, ?_, ?_, haccounted.errors⟩
        · simp [haccounted.order, hitems]
        · simp only [List.map_cons]
          calc (state.history object).taken ++ [entry]
            _ |>.Perm (entry :: (state.history object).taken) := List.perm_append_singleton _ _
            _ |>.Perm (entry :: ((state.history object).delivered ++
                (state.history object).inFlight.map Prod.snd)) := haccounted.accounted.cons entry
            _ |>.Perm ((state.history object).delivered ++
                entry :: (state.history object).inFlight.map Prod.snd) := List.perm_middle.symm
        · intro hpriority
          have hnone : rest.filter (fun other => entry.priority < other.priority) = [] := by
            apply List.filter_eq_nil_iff.mpr
            intro other hother
            simpa using greatest queue entry rest hqueue hitems hpriority other hother
          simp [haccounted.descending hpriority, hnone]
      · intro other target found foundArgs htaken
        rcases Table.insert_eq_some.mp htaken with ⟨rfl, hcall⟩ | ⟨_, hold⟩
        · cases hcall
          simp
        · obtain ⟨hmem, hlive⟩ := inv.flying other target found foundArgs hold
          by_cases hsame : target = object
          · subst hsame
            simp [hmem]
          · simp [hsame, hmem, hlive]

/-- What a finishing read leaves in flight. -/
theorem Inv.flying_erase {state : QueueState} (inv : state.Inv) {tid : Tid} {object : Nat}
    {entry : QueueEntry} (history : QueueHistory)
    (hflight : history.inFlight = (state.history object).inFlight.erase (tid, entry)) :
    ∀ other target found args, state.pending.erase tid other = some (.taken target found args) →
      (other, found) ∈ (Function.update state.history object history target).inFlight ∧
        (state.heap target).isSome := by
  intro other target found args htaken
  obtain ⟨hne, hold⟩ := Table.erase_eq_some.mp htaken
  obtain ⟨hmem, hlive⟩ := inv.flying other target found args hold
  refine ⟨?_, hlive⟩
  by_cases hsame : target = object
  · subst hsame
    have hpair : (other, found) ≠ (tid, entry) := fun h => hne (congrArg Prod.fst h)
    rw [Function.update_self, hflight]
    exact (List.mem_erase_of_ne hpair).mpr hmem
  · simpa [hsame] using hmem

theorem inv_finishRead {state : QueueState} (inv : state.Inv) (tid : Tid) (object : Nat)
    (entry : QueueEntry) (args : ReadArgs)
    (hpending : state.pending tid = some (.taken object entry args))
    (room : (state.memMgr.alloc entry.data.length).isSome) :
    (state.finishRead tid object entry args).Inv := by
  obtain ⟨hmem, hlive⟩ := inv.flying tid object entry args hpending
  obtain ⟨queue, hqueue⟩ := Option.isSome_iff_exists.mp hlive
  have haccounted := inv.accounted object queue hqueue
  have hsame : state.heap.insert object queue = state.heap := by
    funext other
    by_cases hother : other = object
    · simp [hother, hqueue]
    · simp [hother]
  unfold finishRead
  dsimp only
  split
  · rename_i guestAddr memMgr halloc
    refine inv.edit queue (inv.live hqueue) hsame.symm rfl rfl ?_ ?_
    · refine ⟨haccounted.order, ?_, haccounted.descending, haccounted.errors⟩
      have hflight := (List.perm_cons_erase hmem).map Prod.snd
      simp only [List.map_cons] at hflight
      calc (state.history object).taken
        _ |>.Perm ((state.history object).delivered ++
            (state.history object).inFlight.map Prod.snd) := haccounted.accounted
        _ |>.Perm ((state.history object).delivered ++ entry ::
            ((state.history object).inFlight.erase (tid, entry)).map Prod.snd) :=
          hflight.append_left _
        _ |>.Perm ((state.history object).delivered ++ [entry] ++
            ((state.history object).inFlight.erase (tid, entry)).map Prod.snd) := by simp
    · exact inv.flying_erase _ rfl
  · rename_i halloc
    simp [halloc] at room

theorem inv_exec {state next : QueueState} (inv : state.Inv) (event : QueueEvent)
    (allowed : state.Allowed event) (h : state.exec event = some next) : next.Inv := by
  cases event with
  | createQueue attr name =>
    cases h
    exact inv_createQueue inv attr name
  | writeQueue hq event len bufPtr priority =>
    cases h
    exact inv_writeQueue inv hq event len bufPtr priority
  | readQueue tid hq args =>
    simp only [exec] at h
    split at h
    · cases h
      unfold readQueue
      split
      · exact inv
      · refine inv.frame rfl rfl rfl ?_
        intro other object entry found htaken
        rcases Table.insert_eq_some.mp htaken with ⟨_, hcall⟩ | ⟨_, hold⟩
        · cases hcall
        · exact hold
    · cases h
  | takeFront tid =>
    simp only [exec] at h
    split at h
    · rename_i object args hpending
      cases h
      exact inv_takeFront inv tid object args
        fun queue entry rest => allowed object args queue entry rest hpending
    · cases h
  | finishRead tid =>
    simp only [exec] at h
    split at h
    · rename_i object entry args hpending
      rw [← Option.some.inj h]
      exact inv_finishRead inv tid object entry args hpending
        (allowed object entry args hpending)
    · cases h
  | giveUp tid =>
    simp only [exec] at h
    split at h
    · cases h
      exact inv.frame rfl rfl rfl fun _ _ _ _ htaken => (Table.erase_eq_some.mp htaken).2
    · cases h
  | memory call =>
    cases h
    exact inv.frame rfl rfl rfl fun _ _ _ _ htaken => htaken
  | guestStore offset data =>
    cases h
    exact inv.frame rfl rfl rfl fun _ _ _ _ htaken => htaken

/-- Under every interleaving of allowed steps all queues are sound. -/
theorem allowed_queue_sound (memMgr : MemoryManager) (guestMem : GuestMemory)
    (events : List QueueEvent) (state : QueueState)
    (run : Run (step.guarded Allowed) (initial memMgr guestMem) events state) :
    state.Sound := by
  have hinv : state.Inv := by
    refine run.invariant Inv ?_ (inv_initial memMgr guestMem)
    rintro start event finish inv ⟨hallowed, hstep⟩
    exact inv_exec inv event hallowed hstep
  intro object queue hqueue
  exact (hinv.accounted object queue hqueue).sound

/-- Two elements of a queue, of which one is read. -/
def readOne (attr : UInt32) : List QueueEvent :=
  [.createQueue attr "q", .writeQueue 1 7 0 0 0, .writeQueue 1 8 0 0 5,
    .readQueue 1 1 ⟨0, 0, 0, 1, 0⟩, .takeFront 1, .finishRead 1]

theorem allowed_queue_sound_fifo :
    ∃ state, (readOne 0).foldlM exec (initial (.new 0x1000 0x2000) ⟨0, fun _ => 0⟩) = some state ∧
      state.Sound := by
  refine ⟨_, rfl, allowed_queue_sound (.new 0x1000 0x2000) ⟨0, fun _ => 0⟩ (readOne 0) _
    (.cons ⟨trivial, rfl⟩ (.cons ⟨trivial, rfl⟩ (.cons ⟨trivial, rfl⟩ (.cons ⟨trivial, rfl⟩
      (.cons ⟨?_, rfl⟩ (.cons ⟨?_, rfl⟩ (.nil _)))))))⟩
  · intro object args queue entry rest hpending hqueue hitems hpriority
    cases hpending
    cases hqueue
    simp [OS2Queue.isPriority] at hpriority
  · intro object entry args hpending
    cases hpending
    decide

/-- The same writes to a priority queue: the read takes the element of priority 0. -/
theorem priority_ignored :
    ¬ ∀ (memMgr : MemoryManager) (guestMem : GuestMemory) (events : List QueueEvent)
      (state : QueueState), Run step (initial memMgr guestMem) events state → state.Sound := by
  intro claim
  have hsound := claim (.new 0x1000 0x2000) ⟨0, fun _ => 0⟩
    ((readOne 2).take 5) _
    (.cons rfl (.cons rfl (.cons rfl (.cons rfl (.cons rfl (.nil _)))))) 0 _ rfl
  have hovertaken := hsound.descending rfl
  exact absurd hovertaken (by decide)

end QueueState
end Warpine.Ipc
