import Warpine.Lib.Run
import Warpine.Lib.Table
import Warpine.Lib.Words

/-! Mutex semaphores under any interleaving of guest threads. A call looks its
handle up first and then works on the shared semaphore under its lock, so the
two parts are separate steps; a waiting request may be tried again at any time. -/
namespace Warpine.Ipc
open Warpine.Lib

abbrev Tid := UInt32

structure MutexSemaphore where
  ownerTid : Option Tid
  requestCount : Nat
  attr : UInt32
  name : Option String
deriving DecidableEq, Repr

namespace MutexSemaphore

/-- One turn of the loop in `DosRequestMutexSem`; `none` waits on. -/
def request (sem : MutexSemaphore) (tid : Tid) : Option MutexSemaphore :=
  match sem.ownerTid with
  | none => some { sem with ownerTid := some tid, requestCount := 1 }
  | some owner =>
      if owner = tid then some { sem with requestCount := wrapAdd sem.requestCount 1 }
      else none

/-- The return code of `DosReleaseMutexSem`, and the semaphore it leaves. -/
def release (sem : MutexSemaphore) (tid : Tid) : Nat × MutexSemaphore :=
  if sem.ownerTid = some tid then
    let requestCount := wrapSub sem.requestCount 1
    (0, { sem with
      requestCount
      ownerTid := if requestCount = 0 then none else sem.ownerTid })
  else (288, sem)

end MutexSemaphore

/-- Handles map to shared semaphores, which a call in progress keeps alive. -/
structure SemaphoreManager where
  mutexSems : Table Nat Nat
  nextHandle : Nat

/-- A call that has looked its handle up. -/
inductive Pending where
  | request (object : Nat)
  | release (object : Nat)

structure MutexState where
  semMgr : SemaphoreManager
  heap : Table Nat MutexSemaphore
  nextObject : Nat
  pending : Table Tid Pending
  /-- Successful requests less releases, by semaphore and thread, as the
  threads see them: a semaphore created in the set state counts as one request
  of its creator. -/
  holds : Nat → Tid → Nat

inductive Event where
  | createMutex (tid flAttr fState : UInt32)
  | requestMutex (tid hmtx : UInt32)
  | tryAcquire (tid : Tid)
  | giveUp (tid : Tid)
  | releaseMutex (tid hmtx : UInt32)
  | finishRelease (tid : Tid)
  | closeMutex (tid hmtx : UInt32)

def Event.tid : Event → Tid
  | .createMutex tid _ _ => tid
  | .requestMutex tid _ => tid
  | .tryAcquire tid => tid
  | .giveUp tid => tid
  | .releaseMutex tid _ => tid
  | .finishRelease tid => tid
  | .closeMutex tid _ => tid

namespace MutexState

def initial : MutexState where
  semMgr := ⟨.empty, 1⟩
  heap := .empty
  nextObject := 0
  pending := .empty
  holds := fun _ _ => 0

def setHolds (state : MutexState) (object : Nat) (tid : Tid) (count : Nat) : Nat → Tid → Nat :=
  fun other thread =>
    if other = object ∧ thread = tid then count else state.holds other thread

/-- The creating thread is not passed on to the semaphore manager. -/
def createMutex (state : MutexState) (attr : UInt32) (held : Bool) : MutexState :=
  let h := state.semMgr.nextHandle
  { state with
    semMgr := ⟨state.semMgr.mutexSems.insert h state.nextObject, wrapAdd h 1⟩
    heap := state.heap.insert state.nextObject
      { ownerTid := if held then some 0 else none
        requestCount := if held then 1 else 0
        attr
        name := none }
    nextObject := state.nextObject + 1 }

def lookup (state : MutexState) (tid hmtx : UInt32) (make : Nat → Pending) : MutexState :=
  match state.semMgr.mutexSems hmtx.toNat with
  | some object => { state with pending := state.pending.insert tid (make object) }
  | none => state

def tryAcquire (state : MutexState) (tid : Tid) (object : Nat) : MutexState :=
  match (state.heap object).bind fun sem => sem.request tid with
  | some sem =>
      { state with
        heap := state.heap.insert object sem
        pending := state.pending.erase tid
        holds := state.setHolds object tid (state.holds object tid + 1) }
  | none => state

def finishRelease (state : MutexState) (tid : Tid) (object : Nat) : MutexState :=
  match (state.heap object).map fun sem => sem.release tid with
  | some (code, sem) =>
      { state with
        heap := state.heap.insert object sem
        pending := state.pending.erase tid
        holds :=
          if code = 0 then state.setHolds object tid (state.holds object tid - 1)
          else state.holds }
  | none => state

/-- A thread starts a call only when it has none in progress. -/
def exec (state : MutexState) : Event → Option MutexState
  | .createMutex tid flAttr fState =>
      if (state.pending tid).isNone then
        let held := fState != 0
        let next := state.createMutex flAttr held
        some { next with
          holds := if held then state.setHolds state.nextObject tid 1 else state.holds }
      else none
  | .requestMutex tid hmtx =>
      if (state.pending tid).isNone then some (state.lookup tid hmtx .request) else none
  | .tryAcquire tid => match state.pending tid with
      | some (.request object) => some (state.tryAcquire tid object)
      | _ => none
  | .giveUp tid => match state.pending tid with
      | some (.request _) => some { state with pending := state.pending.erase tid }
      | _ => none
  | .releaseMutex tid hmtx =>
      if (state.pending tid).isNone then some (state.lookup tid hmtx .release) else none
  | .finishRelease tid => match state.pending tid with
      | some (.release object) => some (state.finishRelease tid object)
      | _ => none
  | .closeMutex tid hmtx =>
      if (state.pending tid).isNone then
        some { state with
          semMgr := { state.semMgr with
            mutexSems := state.semMgr.mutexSems.erase hmtx.toNat } }
      else none

def step : Step MutexState Event := fun state event next => state.exec event = some next

section Inversion

variable {state next : MutexState} {event : Event}

/-- What one event does to the semaphores: nothing, a new one, or an edit that
leaves the semaphore to an owner who did not act. -/
theorem heap_of_exec (h : state.exec event = some next) :
    next.heap = state.heap ∧ next.nextObject = state.nextObject ∨
      (∃ sem, next.heap = state.heap.insert state.nextObject sem ∧
        next.nextObject = state.nextObject + 1) ∨
      ∃ object sem sem', state.heap object = some sem ∧
        next.heap = state.heap.insert object sem' ∧ next.nextObject = state.nextObject ∧
          ∀ owner, owner ≠ event.tid → sem.ownerTid = some owner →
            sem'.ownerTid = some owner := by
  cases event with
  | createMutex tid flAttr fState =>
    simp only [exec] at h
    split at h
    · cases h
      exact Or.inr (Or.inl ⟨_, rfl, rfl⟩)
    · cases h
  | requestMutex tid hmtx =>
    simp only [exec, lookup] at h
    split at h
    · cases h
      left
      split <;> exact ⟨rfl, rfl⟩
    · cases h
  | tryAcquire tid =>
    simp only [exec] at h
    split at h
    · rename_i object _
      cases h
      unfold tryAcquire
      split
      · rename_i sem' hrequest
        obtain ⟨sem, hsem, hrequest⟩ := Option.bind_eq_some_iff.mp hrequest
        refine Or.inr (Or.inr ⟨object, sem, sem', hsem, rfl, rfl, ?_⟩)
        intro owner hother howner
        simp only [MutexSemaphore.request, howner] at hrequest
        rw [if_neg (show ¬ owner = tid from hother)] at hrequest
        cases hrequest
      · exact Or.inl ⟨rfl, rfl⟩
    · cases h
  | giveUp tid =>
    simp only [exec] at h
    split at h
    · cases h
      exact Or.inl ⟨rfl, rfl⟩
    · cases h
  | releaseMutex tid hmtx =>
    simp only [exec, lookup] at h
    split at h
    · cases h
      left
      split <;> exact ⟨rfl, rfl⟩
    · cases h
  | finishRelease tid =>
    simp only [exec] at h
    split at h
    · rename_i object _
      cases h
      unfold finishRelease
      split
      · rename_i code sem' hrelease
        obtain ⟨sem, hsem, hrelease⟩ := Option.map_eq_some_iff.mp hrelease
        refine Or.inr (Or.inr ⟨object, sem, sem', hsem, rfl, rfl, ?_⟩)
        intro owner hother howner
        have hnot : ¬ sem.ownerTid = some tid := by
          rw [howner]
          exact fun hsame => hother (Option.some.inj hsame)
        rw [MutexSemaphore.release, if_neg hnot] at hrelease
        cases hrelease
        exact howner
      · exact Or.inl ⟨rfl, rfl⟩
    · cases h
  | closeMutex tid hmtx =>
    simp only [exec] at h
    split at h
    · cases h
      exact Or.inl ⟨rfl, rfl⟩
    · cases h

/-- Only creating and closing touch the table of handles, each at one handle. -/
theorem mutexSems_of_exec (h : state.exec event = some next) {handle : Nat}
    (created : ∀ tid flAttr fState, event = .createMutex tid flAttr fState →
      handle ≠ state.semMgr.nextHandle)
    (closed : ∀ tid hmtx, event = .closeMutex tid hmtx → handle ≠ hmtx.toNat) :
    next.semMgr.mutexSems handle = state.semMgr.mutexSems handle := by
  cases event with
  | createMutex tid flAttr fState =>
    simp only [exec] at h
    split at h
    · cases h
      exact Table.insert_ne _ _ (created tid flAttr fState rfl)
    · cases h
  | requestMutex tid hmtx =>
    simp only [exec, lookup] at h
    split at h
    · cases h
      split <;> rfl
    · cases h
  | tryAcquire tid =>
    simp only [exec, tryAcquire] at h
    split at h
    · cases h
      split <;> rfl
    · cases h
  | giveUp tid =>
    simp only [exec] at h
    split at h
    · cases h
      rfl
    · cases h
  | releaseMutex tid hmtx =>
    simp only [exec, lookup] at h
    split at h
    · cases h
      split <;> rfl
    · cases h
  | finishRelease tid =>
    simp only [exec, finishRelease] at h
    split at h
    · cases h
      split <;> rfl
    · cases h
  | closeMutex tid hmtx =>
    simp only [exec] at h
    split at h
    · cases h
      exact Table.erase_ne _ (closed tid hmtx rfl)
    · cases h

/-- A thread keeps its mutex whatever the others do. -/
theorem owner_kept (fresh : ∀ object, state.nextObject ≤ object → state.heap object = none)
    (h : state.exec event = some next) {tid : Tid} (other : tid ≠ event.tid) {object : Nat}
    {sem : MutexSemaphore} (hsem : state.heap object = some sem)
    (howner : sem.ownerTid = some tid) :
    ∃ sem', next.heap object = some sem' ∧ sem'.ownerTid = some tid := by
  rcases heap_of_exec h with ⟨hheap, _⟩ | ⟨created, hheap, _⟩ |
    ⟨edited, old, new, hold, hheap, _, keeps⟩
  · rw [hheap]
    exact ⟨sem, hsem, howner⟩
  · have hne : object ≠ state.nextObject := by
      rintro rfl
      rw [fresh _ (Nat.le_refl _)] at hsem
      cases hsem
    rw [hheap, Table.insert_ne _ _ hne]
    exact ⟨sem, hsem, howner⟩
  · rw [hheap]
    by_cases hsame : object = edited
    · subst hsame
      rw [hsem] at hold
      cases hold
      exact ⟨new, by simp, keeps tid other howner⟩
    · rw [Table.insert_ne _ _ hsame]
      exact ⟨sem, hsem, howner⟩

theorem fresh_of_exec (fresh : ∀ object, state.nextObject ≤ object → state.heap object = none)
    (h : state.exec event = some next) :
    ∀ object, next.nextObject ≤ object → next.heap object = none := by
  intro object hobject
  rcases heap_of_exec h with ⟨hheap, hnext⟩ | ⟨created, hheap, hnext⟩ |
    ⟨edited, old, new, hold, hheap, hnext, _⟩
  · rw [hheap]
    exact fresh object (hnext ▸ hobject)
  · rw [hheap, Table.insert_ne _ _ (by omega)]
    exact fresh object (by omega)
  · have hnone := fresh object (hnext ▸ hobject)
    have hne : object ≠ edited := by
      rintro rfl
      rw [hnone] at hold
      cases hold
    rw [hheap, Table.insert_ne _ _ hne, hnone]

end Inversion

end MutexState

/-- What the guest relies on of one semaphore, given what each thread holds of it. -/
structure MutexSemaphore.Sound (sem : MutexSemaphore) (holds : Tid → Nat) : Prop where
  exclusive : ∀ tid other, 0 < holds tid → 0 < holds other → tid = other
  counted : sem.ownerTid.isSome ↔ 0 < sem.requestCount
  owned : ∀ tid, 0 < holds tid ↔ sem.ownerTid = some tid
  exact_count : ∀ tid, sem.ownerTid = some tid → sem.requestCount = holds tid
  only_owner : ∀ tid, (sem.release tid).1 = 0 → 0 < holds tid

/-- The invariant: the count is the owner's, and no other thread holds any. -/
structure MutexSemaphore.Owned (sem : MutexSemaphore) (holds : Tid → Nat) : Prop where
  counted : sem.ownerTid.isSome ↔ 0 < sem.requestCount
  bounded : sem.requestCount < u32Size
  held : ∀ tid, holds tid = if sem.ownerTid = some tid then sem.requestCount else 0

namespace MutexSemaphore

variable {sem next : MutexSemaphore} {holds : Tid → Nat}

theorem Owned.pos_iff (h : sem.Owned holds) (tid : Tid) :
    0 < holds tid ↔ sem.ownerTid = some tid := by
  rw [h.held tid]
  split
  · rename_i howner
    have hcount : 0 < sem.requestCount := h.counted.mp (by simp [howner])
    simp [howner, hcount]
  · rename_i howner
    simp [howner]

theorem Owned.sound (h : sem.Owned holds) : sem.Sound holds where
  exclusive := by
    intro tid other htid hother
    have hfirst := (h.pos_iff tid).mp htid
    have hsecond := (h.pos_iff other).mp hother
    rw [hfirst] at hsecond
    simpa using hsecond
  counted := h.counted
  owned := h.pos_iff
  exact_count := by
    intro tid howner
    rw [h.held tid, if_pos howner]
  only_owner := by
    intro tid hrelease
    apply (h.pos_iff tid).mpr
    unfold release at hrelease
    split at hrelease
    · assumption
    · simp at hrelease

/-- A request of the owner that the count has no room for. -/
def Saturated (sem : MutexSemaphore) (tid : Tid) : Prop :=
  sem.ownerTid = some tid ∧ sem.requestCount + 1 = u32Size

theorem owned_request (h : sem.Owned holds) {tid : Tid} (room : ¬ sem.Saturated tid)
    (hrequest : sem.request tid = some next) :
    next.Owned fun thread => if thread = tid then holds tid + 1 else holds thread := by
  unfold request at hrequest
  split at hrequest
  · rename_i hfree
    cases hrequest
    refine ⟨by simp, by dsimp only [u32Size]; omega, ?_⟩
    intro thread
    have hnone := h.held thread
    have hown := h.held tid
    simp only [hfree, reduceCtorEq, if_false] at hnone hown
    by_cases hsame : thread = tid
    · simp [hsame, hown]
    · simp [hsame, hnone, Ne.symm hsame]
  · rename_i owner howner
    split at hrequest
    · rename_i hsame
      cases hrequest
      subst hsame
      have hcount : 0 < sem.requestCount := h.counted.mp (by simp [howner])
      have hbounded := h.bounded
      have hroom : sem.requestCount + 1 < u32Size := by
        have : sem.requestCount + 1 ≠ u32Size := fun hfull => room ⟨howner, hfull⟩
        omega
      have hown := h.held owner
      rw [if_pos howner] at hown
      rw [wrapAdd_of_lt hroom]
      refine ⟨by simp [howner], hroom, ?_⟩
      intro thread
      have hthread := h.held thread
      by_cases hsame : thread = owner
      · simp [hsame, howner, hown]
      · simp only [howner, Option.some.injEq] at hthread
        simp [hsame, howner, Ne.symm hsame, hthread]
    · cases hrequest

theorem owned_release (h : sem.Owned holds) (tid : Tid) :
    (sem.release tid).2.Owned
      (if (sem.release tid).1 = 0 then
        fun thread => if thread = tid then holds tid - 1 else holds thread
      else holds) := by
  unfold release
  split
  · rename_i howner
    have hcount : 0 < sem.requestCount := h.counted.mp (by simp [howner])
    have hbounded := h.bounded
    have hwrap : wrapSub sem.requestCount 1 = sem.requestCount - 1 :=
      wrapSub_of_le hcount hbounded
    have hown := h.held tid
    rw [if_pos howner] at hown
    dsimp only
    rw [hwrap, if_pos rfl]
    constructor
    · dsimp only
      split <;> simp [howner] <;> omega
    · dsimp only
      omega
    · intro thread
      have hthread := h.held thread
      by_cases hzero : sem.requestCount - 1 = 0
      · by_cases hsame : thread = tid
        · simp [hzero, hsame, hown]
        · simp only [howner, Option.some.injEq, Ne.symm hsame, if_false] at hthread
          simp [hzero, hsame, hthread]
      · by_cases hsame : thread = tid
        · simp [hzero, hsame, hown, howner]
        · simp only [howner, Option.some.injEq, Ne.symm hsame, if_false] at hthread
          simp [hzero, hsame, hthread, howner, Ne.symm hsame]
  · simpa using h

end MutexSemaphore

namespace MutexState

/-- Each semaphore is sound for what the threads hold of it. -/
def Sound (state : MutexState) : Prop :=
  ∀ object sem, state.heap object = some sem → sem.Sound (state.holds object)

structure Inv (state : MutexState) : Prop where
  owned : ∀ object sem, state.heap object = some sem → sem.Owned (state.holds object)
  fresh : ∀ object, state.nextObject ≤ object →
    state.heap object = none ∧ ∀ tid, state.holds object tid = 0

theorem inv_initial : initial.Inv where
  owned := by simp [initial]
  fresh := by simp [initial]

/-- The main thread creates the semaphores that start out set, and no owner
requests one more time than the count can hold. -/
def Allowed (state : MutexState) : Event → Prop
  | .createMutex tid _ fState => fState ≠ 0 → tid = 0
  | .tryAcquire tid => ∀ object sem, state.pending tid = some (.request object) →
      state.heap object = some sem → ¬ sem.Saturated tid
  | _ => True

theorem setHolds_row (state : MutexState) (object : Nat) (tid : Tid) (count : Nat) :
    state.setHolds object tid count object =
      fun thread => if thread = tid then count else state.holds object thread := by
  funext thread
  simp [setHolds]

theorem setHolds_other (state : MutexState) {object other : Nat} (tid : Tid) (count : Nat)
    (h : other ≠ object) : state.setHolds object tid count other = state.holds other := by
  funext thread
  simp [setHolds, h]

/-- An edit of one semaphore and of what is held of it. -/
theorem Inv.edit {state next : MutexState} (inv : state.Inv) (object : Nat) {sem : MutexSemaphore}
    (hobject : object < next.nextObject) (hgrow : state.nextObject ≤ next.nextObject)
    (hheap : next.heap = state.heap.insert object sem)
    (howned : sem.Owned (next.holds object))
    (hothers : ∀ other, other ≠ object → next.holds other = state.holds other) : next.Inv where
  owned := by
    intro other found hfound
    rw [hheap] at hfound
    rcases Table.insert_eq_some.mp hfound with ⟨rfl, rfl⟩ | ⟨hne, hold⟩
    · exact howned
    · rw [hothers other hne]
      exact inv.owned other found hold
  fresh := by
    intro other hother
    have hne : other ≠ object := by omega
    rw [hheap, hothers other hne, Table.insert_ne state.heap sem hne]
    exact inv.fresh other (by omega)

/-- Steps that touch neither semaphores nor holdings. -/
theorem Inv.frame {state next : MutexState} (inv : state.Inv) (hheap : next.heap = state.heap)
    (hholds : next.holds = state.holds) (hobject : next.nextObject = state.nextObject) :
    next.Inv where
  owned := by
    rw [hheap, hholds]
    exact inv.owned
  fresh := by
    rw [hheap, hholds, hobject]
    exact inv.fresh

theorem Inv.live {state : MutexState} (inv : state.Inv) {object : Nat} {sem : MutexSemaphore}
    (h : state.heap object = some sem) : object < state.nextObject := by
  by_contra hge
  have := (inv.fresh object (by omega)).1
  simp [this] at h

theorem inv_createMutex {state : MutexState} (inv : state.Inv) (tid attr fState : UInt32)
    (main : fState ≠ 0 → tid = 0) :
    ({ state.createMutex attr (fState != 0) with
      holds := if fState != 0 then state.setHolds state.nextObject tid 1 else state.holds } :
      MutexState).Inv := by
  refine inv.edit state.nextObject (Nat.lt_succ_self _) (Nat.le_succ _) rfl ?_ ?_
  · have hfresh := (inv.fresh state.nextObject (Nat.le_refl _)).2
    by_cases hstate : fState = 0
    · subst hstate
      exact ⟨by simp, by simp [u32Size], by simpa using hfresh⟩
    · have htid := main hstate
      subst htid
      have hset : (fState != 0) = true := by simpa using hstate
      rw [hset]
      refine ⟨by simp, by simp [u32Size], ?_⟩
      intro thread
      simp only [if_true, setHolds_row, hfresh]
      by_cases hthread : thread = 0
      · simp [hthread]
      · simp [hthread, Ne.symm hthread]
  · intro other hother
    by_cases hset : (fState != 0) = true
    · simp only [hset, if_true]
      exact setHolds_other state tid 1 hother
    · simp [hset]

theorem inv_tryAcquire {state : MutexState} (inv : state.Inv) (tid : Tid) (object : Nat)
    (room : ∀ sem, state.heap object = some sem → ¬ sem.Saturated tid) :
    (state.tryAcquire tid object).Inv := by
  unfold tryAcquire
  split
  · rename_i next hrequest
    obtain ⟨sem, hsem, hnext⟩ := Option.bind_eq_some_iff.mp hrequest
    have howned := MutexSemaphore.owned_request (inv.owned object sem hsem) (room sem hsem) hnext
    refine inv.edit object (inv.live hsem) (Nat.le_refl _) rfl ?_ ?_
    · simpa only [setHolds_row] using howned
    · exact fun other hother => setHolds_other state tid _ hother
  · exact inv

theorem inv_finishRelease {state : MutexState} (inv : state.Inv) (tid : Tid) (object : Nat) :
    (state.finishRelease tid object).Inv := by
  unfold finishRelease
  split
  · rename_i code next hrelease
    obtain ⟨sem, hsem, hnext⟩ := Option.map_eq_some_iff.mp hrelease
    have howned := MutexSemaphore.owned_release (inv.owned object sem hsem) tid
    rw [hnext] at howned
    refine inv.edit object (inv.live hsem) (Nat.le_refl _) rfl ?_ ?_
    · dsimp only
      split
      · rename_i hcode
        simpa only [hcode, if_true, setHolds_row] using howned
      · rename_i hcode
        simpa only [hcode, if_false] using howned
    · intro other hother
      dsimp only
      split
      · exact setHolds_other state tid _ hother
      · rfl
  · exact inv

theorem inv_lookup {state : MutexState} (inv : state.Inv) (tid hmtx : UInt32)
    (make : Nat → Pending) : (state.lookup tid hmtx make).Inv := by
  unfold lookup
  split
  · exact inv.frame rfl rfl rfl
  · exact inv

theorem inv_exec {state next : MutexState} (inv : state.Inv) (event : Event)
    (allowed : state.Allowed event) (h : state.exec event = some next) : next.Inv := by
  cases event with
  | createMutex tid flAttr fState =>
    simp only [exec] at h
    split at h
    · cases h
      exact inv_createMutex inv tid flAttr fState allowed
    · cases h
  | requestMutex tid hmtx =>
    simp only [exec] at h
    split at h
    · cases h
      exact inv_lookup inv tid hmtx .request
    · cases h
  | tryAcquire tid =>
    simp only [exec] at h
    split at h
    · rename_i object hpending
      cases h
      exact inv_tryAcquire inv tid object fun sem hsem => allowed object sem hpending hsem
    · cases h
  | giveUp tid =>
    simp only [exec] at h
    split at h
    · cases h
      exact inv.frame rfl rfl rfl
    · cases h
  | releaseMutex tid hmtx =>
    simp only [exec] at h
    split at h
    · cases h
      exact inv_lookup inv tid hmtx .release
    · cases h
  | finishRelease tid =>
    simp only [exec] at h
    split at h
    · rename_i object hpending
      cases h
      exact inv_finishRelease inv tid object
    · cases h
  | closeMutex tid hmtx =>
    simp only [exec] at h
    split at h
    · cases h
      exact inv.frame rfl rfl rfl
    · cases h

/-- Under every interleaving of allowed steps all semaphores are sound. -/
theorem allowed_mutex_sound (events : List Event) (state : MutexState)
    (run : Run (step.guarded Allowed) initial events state) : state.Sound := by
  have hinv : state.Inv := by
    refine run.invariant Inv ?_ inv_initial
    rintro start event finish inv ⟨hallowed, hstep⟩
    exact inv_exec inv event hallowed hstep
  intro object sem hsem
  exact (hinv.owned object sem hsem).sound

/-- The main thread creates a set semaphore, keeps another thread waiting, and
releases it. -/
theorem allowed_mutex_sound_handover :
    ∃ state, [Event.createMutex 0 0 1, .requestMutex 1 1, .tryAcquire 1, .releaseMutex 0 1,
      .finishRelease 0].foldlM exec initial = some state ∧ state.Sound := by
  refine ⟨_, rfl, allowed_mutex_sound
    [Event.createMutex 0 0 1, .requestMutex 1 1, .tryAcquire 1, .releaseMutex 0 1,
      .finishRelease 0] _
    (.cons ⟨fun _ => rfl, rfl⟩ (.cons ⟨trivial, rfl⟩ (.cons ⟨?_, rfl⟩ (.cons ⟨trivial, rfl⟩
      (.cons ⟨trivial, rfl⟩ (.nil _))))))⟩
  intro object sem hpending hsem hfull
  cases hpending
  cases hsem
  exact absurd hfull.1 (by decide)

/-- A semaphore that thread 1 creates set belongs to thread 0. -/
theorem created_set_by_other :
    ¬ ∀ (events : List Event) (state : MutexState), Run step initial events state →
      state.Sound := by
  intro claim
  have hsound := claim [.createMutex 1 0 1] _ (.cons rfl (.nil _)) 0 _ rfl
  exact absurd ((hsound.owned 1).mp (by decide)) (by decide)

end MutexState
end Warpine.Ipc
