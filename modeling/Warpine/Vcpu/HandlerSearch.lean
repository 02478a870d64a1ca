import Mathlib.Data.Set.Finite.Basic
import Mathlib.Logic.Relation
import Warpine.Lib.Orbit
import Warpine.Vcpu.RaiseResume
import Warpine.Vcpu.ThreadChains

/-! The search for a handler that wants an exception. The links of the chain are read
from the guest's memory, one at each return of a handler, and nothing counts them. -/
namespace Warpine.Vcpu
open Warpine.Lib Warpine.Guest Warpine.Loader

def xcptContinueSearch : Nat := 1

namespace VcpuState

/-- The dispatch to the next record, where there is one with a handler. -/
def nextDispatch (state : VcpuState) (saved : FaultContext)
    (nextHandler excReport ctxRecord : Nat) (guestAllocs : List Nat) : Option ExceptionDispatch :=
  if nextHandler = xcptChainEnd then none
  else
    let handlerAddr := state.readOr (wrapAdd nextHandler xerrecHandler)
    let next := (state.mem.read 4 (wrapAdd nextHandler xerrecPrev)).getD xcptChainEnd
    if handlerAddr = 0 then none
    else some ⟨handlerAddr, excReport, nextHandler, ctxRecord, saved, next, guestAllocs⟩

/-- No handler wants the exception: the process ends. -/
def giveUp (state : VcpuState) (guestAllocs : List Nat) : VcpuState :=
  { state.freeBlocks guestAllocs with shuttingDown := true }

/-- The stack takes the return address and the arguments of a handler. -/
def HasRoom (state : VcpuState) : Prop :=
  20 ≤ state.regs.rsp ∧ (state.regs.rsp - 20) % u32Size + 20 ≤ state.mem.size

/-- The thread is in a handler, or at its return. -/
def Waits (state : VcpuState) (nextHandler : Nat) (guestAllocs : List Nat) : Prop :=
  ∃ saved context excReport ctxRecord, state.callbackStack.head? =
    some ⟨saved, .exceptionHandler context nextHandler excReport ctxRecord guestAllocs⟩

end VcpuState

/-- The link after a record, where the search goes on from there. -/
def link (mem : GuestMemory) (nextHandler : Nat) : Option Nat :=
  if nextHandler = xcptChainEnd ∨ (mem.read 4 (wrapAdd nextHandler xerrecHandler)).getD 0 = 0 then
    none
  else some ((mem.read 4 (wrapAdd nextHandler xerrecPrev)).getD xcptChainEnd)

/-- An exception has its blocks, and is about to be dispatched to the first handler. -/
inductive Dispatched (start : VcpuState) : VcpuState → ExceptionDispatch → Prop where
  | fault {context : FaultContext} {vector : Nat} {dispatch : ExceptionDispatch} {seh : SehMemory}
      (h : SehMemory.tryHwExceptionDispatch ⟨start.mem, start.memMgr⟩ context vector =
        some (some dispatch, seh)) : Dispatched start (start.withSeh seh) dispatch
  | raise {pExcRec : Nat} {dispatch : ExceptionDispatch} {seh : SehMemory} {home : Resume}
      {record : GuestMemory}
      (h : SehMemory.dosRaiseException ⟨start.mem, start.memMgr⟩ pExcRec =
        some (.exceptionDispatch dispatch, seh))
      (caller : (start.withSeh seh).caller = some home)
      (patch : (start.withSeh seh).patchRecord dispatch.ctxRecord home = some record) :
      Dispatched start { start.withSeh seh with mem := record }
        { dispatch with saved := { dispatch.saved with
            eip := home.rip, esp := home.rsp % u32Size } }

inductive SearchPhase where
  | dispatching (state : VcpuState) (dispatch : ExceptionDispatch)
  | called (state : VcpuState)
  | returned (state : VcpuState)
  | unhandled (state : VcpuState) (exitCode : Nat)
  | continued (state : VcpuState)
  | panicked

/-- A search, with the records whose handlers it has called and the blocks it has freed. -/
structure Search where
  tried : List Nat
  freed : List Nat
  phase : SearchPhase

/-- A handler is back at the trap. It may have done anything to its registers and to the
memory, but the frames belong to the host. -/
structure HandlerReturns (called back : VcpuState) : Prop where
  trap : back.regs.rip = callbackRetTrap
  frames : back.callbackStack = called.callbackStack
  size : back.mem.size = called.mem.size

inductive SearchStep : Search → Search → Prop where
  | call {tried freed : List Nat} {state next : VcpuState} {dispatch : ExceptionDispatch}
      (h : state.setupExceptionDispatch dispatch = some next) :
      SearchStep ⟨tried, freed, .dispatching state dispatch⟩
        ⟨dispatch.regRec :: tried, freed, .called next⟩
  | stackFull {tried freed : List Nat} {state : VcpuState} {dispatch : ExceptionDispatch}
      (h : state.setupExceptionDispatch dispatch = none) :
      SearchStep ⟨tried, freed, .dispatching state dispatch⟩ ⟨tried, freed, .panicked⟩
  | handler {tried freed : List Nat} {called back : VcpuState}
      (returns : HandlerReturns called back) :
      SearchStep ⟨tried, freed, .called called⟩ ⟨tried, freed, .returned back⟩
  | continueExecution {tried freed : List Nat} {back : VcpuState} {saved : Resume}
      {context : FaultContext} {nextHandler excReport ctxRecord : Nat} {guestAllocs : List Nat}
      (at' : back.AtTrap ⟨saved, .exceptionHandler context nextHandler excReport ctxRecord
        guestAllocs⟩)
      (h : back.result = xcptContinueExecution) :
      SearchStep ⟨tried, freed, .returned back⟩
        ⟨tried, freed ++ guestAllocs, .continued (back.resumeContext ctxRecord guestAllocs)⟩
  | search {tried freed : List Nat} {back : VcpuState} {saved : Resume}
      {context : FaultContext} {nextHandler excReport ctxRecord : Nat} {guestAllocs : List Nat}
      {dispatch : ExceptionDispatch}
      (at' : back.AtTrap ⟨saved, .exceptionHandler context nextHandler excReport ctxRecord
        guestAllocs⟩)
      (other : back.result ≠ xcptContinueExecution)
      (h : back.popFrame.nextDispatch context nextHandler excReport ctxRecord guestAllocs =
        some dispatch) :
      SearchStep ⟨tried, freed, .returned back⟩ ⟨tried, freed, .dispatching back.popFrame dispatch⟩
  | giveUp {tried freed : List Nat} {back : VcpuState} {saved : Resume}
      {context : FaultContext} {nextHandler excReport ctxRecord : Nat} {guestAllocs : List Nat}
      (at' : back.AtTrap ⟨saved, .exceptionHandler context nextHandler excReport ctxRecord
        guestAllocs⟩)
      (other : back.result ≠ xcptContinueExecution)
      (h : back.popFrame.nextDispatch context nextHandler excReport ctxRecord guestAllocs = none) :
      SearchStep ⟨tried, freed, .returned back⟩
        ⟨tried, freed ++ guestAllocs, .unhandled (back.popFrame.giveUp guestAllocs) 1⟩

namespace Search

def start (state : VcpuState) (dispatch : ExceptionDispatch) : Search :=
  ⟨[], [], .dispatching state dispatch⟩

/-- The searches that one leads to, with a condition on the states before the steps. -/
def Reaches (guard : Search → Prop) : Search → Search → Prop :=
  Relation.ReflTransGen fun before after => guard before ∧ SearchStep before after

/-- The exception is handled, or the process ends. -/
def isOver (search : Search) : Bool :=
  match search.phase with
  | .unhandled .. | .continued _ => true
  | _ => false

/-- What is wanted of a search at any time: not too many calls, no panic, and each block
freed once, at the end. Where no handler is running the search goes on to its end. -/
structure Settled (bound : Nat) (blocks : List Nat) (search : Search) : Prop where
  calls : search.tried.length ≤ bound
  whole : search.phase ≠ .panicked
  freed : search.freed = if search.isOver then blocks else []
  goesOn : search.isOver ∨ (∃ state, search.phase = .called state) ∨ ∃ next, SearchStep search next

def Ends (guard : Search → Prop) (state : VcpuState) (dispatch : ExceptionDispatch) : Prop :=
  ∃ bound, ∀ search, Reaches guard (start state dispatch) search →
    search.Settled bound dispatch.guestAllocs

/-- The handlers do not want the exception, and the stack has room for each call. -/
def Declines (search : Search) : Prop :=
  match search.phase with
  | .dispatching state _ => state.HasRoom
  | .returned back => back.result = xcptContinueSearch
  | _ => True

/-- The handlers leave the records that the chain leads to. -/
def KeepsChain (mem : GuestMemory) (first : Nat) (search : Search) : Prop :=
  match search.phase with
  | .returned back =>
      ∀ n place, walk (link mem) n first = some place → link back.mem place = link mem place
  | _ => True

def Quiet (mem : GuestMemory) (first : Nat) (search : Search) : Prop :=
  search.Declines ∧ search.KeepsChain mem first

/-- A record is called that the search has not called before, and the stack has room. -/
def New (search : Search) : Prop :=
  match search.phase with
  | .dispatching state dispatch => dispatch.regRec ∉ search.tried ∧ state.HasRoom
  | _ => True

end Search

namespace SehMemory

variable {seh next : SehMemory}

theorem alloc_block {size addr : Nat} (h : seh.alloc size = some (addr, next)) :
    next.mem.size = seh.mem.size ∧ next.memMgr.addresses = seh.memMgr.addresses ++ [addr] := by
  obtain ⟨⟨base, memMgr⟩, hmgr, hpair⟩ := Option.map_eq_some_iff.mp h
  cases hpair
  exact ⟨rfl, MemoryManager.alloc_addresses hmgr⟩

theorem writeAll_block {addr : Nat} {words : List (Nat × Nat)}
    (h : seh.writeAll addr words = some next) :
    next.mem.size = seh.mem.size ∧ next.memMgr = seh.memMgr := by
  obtain ⟨mem, hmem, rfl⟩ := Option.map_eq_some_iff.mp h
  obtain ⟨_, rfl⟩ := (seh.mem.writeAll_eq_some).mp hmem
  exact ⟨rfl, rfl⟩

/-- The blocks of a dispatch are new ones, and its first links are words. -/
structure Begins (seh : SehMemory) (dispatch : ExceptionDispatch) (next : SehMemory) : Prop where
  regRec : dispatch.regRec < u32Size
  nextHandler : dispatch.nextHandler < u32Size
  size : next.mem.size = seh.mem.size
  blocks : next.memMgr.addresses = seh.memMgr.addresses ++ dispatch.guestAllocs

theorem tryHwExceptionDispatch_begins {context : FaultContext} {vector : Nat}
    {dispatch : ExceptionDispatch}
    (h : seh.tryHwExceptionDispatch context vector = some (some dispatch, next)) :
    seh.Begins dispatch next := by
  simp only [tryHwExceptionDispatch] at h
  split at h
  · cases h
  split at h
  · cases h
  obtain ⟨⟨excReport, ctxRecord, after⟩, halloc, h⟩ := Option.bind_eq_some_iff.mp h
  cases h
  obtain ⟨⟨report, first⟩, hreport, halloc⟩ := Option.bind_eq_some_iff.mp halloc
  obtain ⟨⟨record, second⟩, hrecord, halloc⟩ := Option.bind_eq_some_iff.mp halloc
  obtain ⟨third, hthird, halloc⟩ := Option.bind_eq_some_iff.mp halloc
  obtain ⟨fourth, hfourth, halloc⟩ := Option.bind_eq_some_iff.mp halloc
  cases halloc
  obtain ⟨sizeFirst, blocksFirst⟩ := alloc_block hreport
  obtain ⟨sizeSecond, blocksSecond⟩ := alloc_block hrecord
  obtain ⟨sizeThird, sameThird⟩ := writeAll_block hthird
  obtain ⟨sizeFourth, sameFourth⟩ := writeAll_block hfourth
  refine ⟨chainHead_lt _, prevStructure_lt _, ?_, ?_⟩
  · rw [sizeFourth, sizeThird, sizeSecond, sizeFirst]
  · rw [sameFourth, sameThird, blocksSecond, blocksFirst, List.append_assoc, List.singleton_append]

theorem dosRaiseException_begins {pExcRec : Nat} {dispatch : ExceptionDispatch}
    (h : seh.dosRaiseException pExcRec = some (.exceptionDispatch dispatch, next)) :
    seh.Begins dispatch next := by
  simp only [dosRaiseException] at h
  split at h
  · cases h
  split at h
  · cases h
  split at h
  · cases h
  obtain ⟨⟨ctxRecord, first⟩, halloc, h⟩ := Option.bind_eq_some_iff.mp h
  obtain ⟨second, hsecond, h⟩ := Option.bind_eq_some_iff.mp h
  cases h
  obtain ⟨sizeFirst, blocksFirst⟩ := alloc_block halloc
  obtain ⟨sizeSecond, sameSecond⟩ := writeAll_block hsecond
  refine ⟨chainHead_lt _, prevStructure_lt _, ?_, ?_⟩
  · rw [sizeSecond, sizeFirst]
  · rw [sameSecond, blocksFirst]

end SehMemory

theorem Dispatched.begins {start state : VcpuState} {dispatch : ExceptionDispatch}
    (dispatched : Dispatched start state dispatch) :
    SehMemory.Begins ⟨start.mem, start.memMgr⟩ dispatch ⟨state.mem, state.memMgr⟩ := by
  cases dispatched with
  | fault h => exact SehMemory.tryHwExceptionDispatch_begins h
  | raise h caller patch =>
    obtain ⟨regRec, nextHandler, size, blocks⟩ := SehMemory.dosRaiseException_begins h
    obtain ⟨first, heip, hesp⟩ := Option.bind_eq_some_iff.mp patch
    obtain ⟨_, rfl⟩ := GuestMemory.write_eq_some heip
    obtain ⟨_, rfl⟩ := GuestMemory.write_eq_some hesp
    refine ⟨regRec, nextHandler, ?_, blocks⟩
    exact (GuestMemory.putBytes_size _).trans ((GuestMemory.putBytes_size _).trans size)

namespace VcpuState

variable {state next : VcpuState} {context : FaultContext} {dispatch : ExceptionDispatch}
  {nextHandler excReport ctxRecord : Nat} {guestAllocs : List Nat}

/-- The search is the choice of the next record and the call of its handler. -/
theorem searchNext_eq : state.searchNext context nextHandler excReport ctxRecord guestAllocs =
    (state.nextDispatch context nextHandler excReport ctxRecord guestAllocs).bind
      state.setupExceptionDispatch := by
  simp only [searchNext, nextDispatch]
  split
  · rfl
  · split <;> rfl

theorem nextDispatch_link (state : VcpuState) (context : FaultContext)
    (nextHandler excReport ctxRecord : Nat) (guestAllocs : List Nat) :
    (state.nextDispatch context nextHandler excReport ctxRecord guestAllocs).map
      ExceptionDispatch.nextHandler = link state.mem nextHandler := by
  simp only [nextDispatch, link]
  by_cases last : nextHandler = xcptChainEnd
  · rw [if_pos last, if_pos (.inl last), Option.map_none]
  · by_cases null : state.readOr (wrapAdd nextHandler xerrecHandler) = 0
    · rw [if_neg last, if_pos null, if_pos (.inr null), Option.map_none]
    · rw [if_neg last, if_neg null, Option.map_some]
      exact (if_neg (not_or.mpr ⟨last, null⟩)).symm

theorem link_lt {mem : GuestMemory} {place : Nat} (h : link mem nextHandler = some place) :
    place < u32Size := by
  unfold link at h
  split at h
  · contradiction
  · obtain rfl := Option.some.inj h
    cases hread : mem.read 4 (wrapAdd nextHandler xerrecPrev) with
    | none => decide
    | some word => exact GuestMemory.read_lt hread

theorem nextDispatch_eq_some
    (h : state.nextDispatch context nextHandler excReport ctxRecord guestAllocs = some dispatch) :
    dispatch.regRec = nextHandler ∧ dispatch.guestAllocs = guestAllocs ∧
      link state.mem nextHandler = some dispatch.nextHandler := by
  have linked := nextDispatch_link state context nextHandler excReport ctxRecord guestAllocs
  rw [h, Option.map_some] at linked
  simp only [nextDispatch] at h
  split at h
  · contradiction
  split at h
  · contradiction
  · cases h
    exact ⟨rfl, rfl, linked.symm⟩

/-- A call that goes through writes its words inside the memory. -/
theorem writeWords_inside {mem after : GuestMemory} {sp : Nat} {words : List Nat}
    (h : writeWords mem sp words = some after) (small : mem.size < u32Size) :
    after.size = mem.size ∧ (words ≠ [] → sp + 4 * words.length ≤ mem.size) := by
  induction words generalizing mem sp with
  | nil =>
    cases h
    exact ⟨rfl, fun none => absurd rfl none⟩
  | cons word rest ih =>
    obtain ⟨middle, hwrite, hrest⟩ := Option.bind_eq_some_iff.mp h
    obtain ⟨fits, rfl⟩ := GuestMemory.write_eq_some hwrite
    have size : (mem.put 4 sp word).size = mem.size := mem.putBytes_size
    have inside : sp + 4 ≤ mem.size := of_decide_eq_true fits
    rw [wrapAdd_of_lt (by omega)] at hrest
    obtain ⟨sized, room⟩ := ih hrest (size.symm ▸ small)
    refine ⟨sized.trans size, fun _ => ?_⟩
    rw [List.length_cons]
    cases rest with
    | nil => exact inside
    | cons second others =>
      have more := room (List.cons_ne_nil _ _)
      rw [size, List.length_cons] at more
      rw [List.length_cons]
      omega

/-- What a call leaves in the memory. -/
theorem enterGuest_mem (state : VcpuState) {entry : Nat} {args : List Nat}
    (room : 4 * (args.length + 1) ≤ state.regs.rsp) :
    (state.enterGuest entry args).map VcpuState.mem =
      writeWords state.mem ((state.regs.rsp - 4 * (args.length + 1)) % u32Size)
        (callbackRetTrap :: args) := by
  unfold enterGuest
  dsimp only
  rw [if_neg (Nat.not_lt.mpr room), Option.map_map]
  exact Option.map_id'

theorem setupExceptionDispatch_mem (dispatch : ExceptionDispatch) (room : 20 ≤ state.regs.rsp) :
    (state.setupExceptionDispatch dispatch).map VcpuState.mem =
      writeWords state.mem ((state.regs.rsp - 20) % u32Size)
        [callbackRetTrap, dispatch.excReport, dispatch.regRec, dispatch.ctxRecord, 0] :=
  enterGuest_mem (state.pushFrame _ _) room

/-- The call of a handler goes through where the stack has room, and only there. -/
theorem setupExceptionDispatch_isSome_iff (dispatch : ExceptionDispatch)
    (small : state.mem.size < u32Size) :
    (state.setupExceptionDispatch dispatch).isSome ↔ state.HasRoom := by
  by_cases low : state.regs.rsp < 20
  · have panics : state.setupExceptionDispatch dispatch = none := if_pos low
    rw [panics]
    exact iff_of_false Bool.false_ne_true fun room => Nat.not_le.mpr low room.1
  · have room := Nat.not_lt.mp low
    rw [← Option.isSome_map (f := VcpuState.mem), setupExceptionDispatch_mem dispatch room]
    constructor
    · intro goes
      obtain ⟨mem, hwords⟩ := Option.isSome_iff_exists.mp goes
      exact ⟨room, (writeWords_inside hwords small).2 (List.cons_ne_nil _ _)⟩
    · intro fits
      exact writeWords_isSome fits.2 small

theorem setupExceptionDispatch_size (small : state.mem.size < u32Size)
    (h : state.setupExceptionDispatch dispatch = some next) :
    next.mem.size = state.mem.size := by
  have room := (setupExceptionDispatch_isSome_iff dispatch small).mp (Option.isSome_of_mem h)
  have words := setupExceptionDispatch_mem dispatch room.1
  rw [h, Option.map_some] at words
  exact (writeWords_inside words.symm small).1

theorem setupExceptionDispatch_waits (h : state.setupExceptionDispatch dispatch = some next) :
    next.Waits dispatch.nextHandler dispatch.guestAllocs := by
  have frames := setupExceptionDispatch_eq_some h
  exact ⟨_, _, _, _, congrArg List.head? frames⟩

/-- The frame at the trap is the one that the handler was called with. -/
theorem Waits.atTrap {saved : Resume} {blocks : List Nat} {here : Nat}
    (waits : state.Waits here blocks)
    (at' : state.AtTrap ⟨saved, .exceptionHandler context nextHandler excReport ctxRecord
      guestAllocs⟩) : nextHandler = here ∧ guestAllocs = blocks := by
  obtain ⟨_, _, _, _, top⟩ := waits
  cases Option.some.inj (at'.2.symm.trans top)
  exact ⟨rfl, rfl⟩

end VcpuState

/-- What is known of a search in a phase, whatever its handlers have done. -/
def SearchPhase.Kept (blocks : List Nat) : SearchPhase → Prop
  | .dispatching state dispatch => state.mem.size = guestMemSize ∧ dispatch.guestAllocs = blocks ∧
      dispatch.regRec < u32Size ∧ dispatch.nextHandler < u32Size
  | .called state => state.mem.size = guestMemSize ∧
      ∃ nextHandler, nextHandler < u32Size ∧ state.Waits nextHandler blocks
  | .returned state => state.mem.size = guestMemSize ∧ state.regs.rip = callbackRetTrap ∧
      ∃ nextHandler, nextHandler < u32Size ∧ state.Waits nextHandler blocks
  | _ => True

/-- Where a search is on the chain that its start has. -/
def SearchPhase.OnWalk (mem : GuestMemory) (first calls : Nat) : SearchPhase → Prop
  | .dispatching _ dispatch => walk (link mem) calls first = some dispatch.nextHandler
  | .called state | .returned state => ∃ n nextHandler blocks, calls = n + 1 ∧
      walk (link mem) n first = some nextHandler ∧ state.Waits nextHandler blocks
  | _ => True

/-- The search is a run of the thread; a call that is due will go on with it. -/
def SearchPhase.Runs (initial : VcpuState) : SearchPhase → Prop
  | .dispatching state dispatch => ∀ next, state.setupExceptionDispatch dispatch = some next →
      ∃ marks, Run VcpuStep initial marks next
  | .called state | .returned state | .continued state => ∃ marks, Run VcpuStep initial marks state
  | _ => True

namespace Search

structure Kept (blocks : List Nat) (search : Search) : Prop where
  tried : ∀ regRec ∈ search.tried, regRec < u32Size
  freed : search.freed = if search.isOver then blocks else []
  phase : search.phase.Kept blocks

structure OnWalk (mem : GuestMemory) (first : Nat) (search : Search) : Prop where
  reached : ∃ n, search.tried.length ≤ n + 1 ∧ walk (link mem) n first ≠ none
  phase : search.phase.OnWalk mem first search.tried.length

variable {guard : Search → Prop} {mem : GuestMemory} {first : Nat} {blocks : List Nat}
  {before after search : Search} {state : VcpuState} {dispatch : ExceptionDispatch}

/-- A property that the allowed steps keep holds of all that is reached. -/
theorem Reaches.invariant (inv : Search → Prop)
    (preserved : ∀ before after, inv before → guard before → SearchStep before after → inv after)
    (reaches : Reaches guard before after) (holds : inv before) : inv after := by
  induction reaches with
  | refl => exact holds
  | tail _ step ih => exact preserved _ _ ih step.1 step.2

/-- What a handler does is a step of the guest. -/
theorem guest_of_returns {called back : VcpuState} (returns : HandlerReturns called back) :
    VcpuStep called none back := by
  have same : back = { called.share back.dlgShared back.mem back.memMgr with regs := back.regs } := by
    obtain ⟨regs, frames, mem, memMgr, wm, shuttingDown⟩ := back
    obtain rfl : frames = called.callbackStack := returns.frames
    rfl
  rw [same]
  exact .guest called _ _ _ _

theorem step_runs {initial : VcpuState} (runs : before.phase.Runs initial)
    (step : SearchStep before after) : after.phase.Runs initial := by
  cases step with
  | call h => exact runs _ h
  | stackFull => trivial
  | handler returns =>
    obtain ⟨marks, run⟩ := runs
    exact ⟨_, run.append (.cons (guest_of_returns returns) (.nil _))⟩
  | continueExecution at' h =>
    obtain ⟨marks, run⟩ := runs
    exact ⟨_, run.append (.cons (.continueExecution at' h) (.nil _))⟩
  | search at' other h =>
    obtain ⟨marks, run⟩ := runs
    intro next hcall
    have found := VcpuState.searchNext_eq.trans (h ▸ Option.bind_some _ _)
    exact ⟨_, run.append (.cons (.continueSearch at' other (found.trans hcall)) (.nil _))⟩
  | giveUp => trivial

/-- The handlers that a search calls are called in a run of the thread. -/
theorem Reaches.runs (reaches : Reaches guard (start state dispatch) search) :
    search.phase.Runs state := by
  apply reaches.invariant (fun search => search.phase.Runs state)
  · exact fun _ _ runs _ step => step_runs runs step
  · intro next h
    exact ⟨_, .cons (.fault h) (.nil next)⟩

theorem small_of_size {mem : GuestMemory} (size : mem.size = guestMemSize) : mem.size < u32Size := by
  rw [size]
  decide

/-- No step loses the blocks of the dispatch, and only the last ones free them. -/
theorem step_kept (kept : before.Kept blocks) (step : SearchStep before after) :
    after.Kept blocks := by
  obtain ⟨tried, freed, phase⟩ := kept
  cases step with
  | call h =>
    obtain ⟨size, allocs, regRec, nextHandler⟩ := phase
    have waits := VcpuState.setupExceptionDispatch_waits h
    rw [allocs] at waits
    refine ⟨List.forall_mem_cons.mpr ⟨regRec, tried⟩, freed, ?_, _, nextHandler, waits⟩
    exact (VcpuState.setupExceptionDispatch_size (small_of_size size) h).trans size
  | stackFull => exact ⟨tried, freed, trivial⟩
  | handler returns =>
    obtain ⟨size, nextHandler, small, waits⟩ := phase
    refine ⟨tried, freed, returns.size.trans size, returns.trap, nextHandler, small, ?_⟩
    rwa [VcpuState.Waits, returns.frames]
  | continueExecution at' h =>
    obtain ⟨_, _, nextHandler, _, waits⟩ := phase
    obtain ⟨_, rfl⟩ := waits.atTrap at'
    exact ⟨tried, congrArg (· ++ _) freed, trivial⟩
  | search at' other h =>
    obtain ⟨size, _, nextHandler, small, waits⟩ := phase
    obtain ⟨rfl, rfl⟩ := waits.atTrap at'
    obtain ⟨regRec, allocs, linked⟩ := VcpuState.nextDispatch_eq_some h
    exact ⟨tried, freed, size, allocs, regRec ▸ small, VcpuState.link_lt linked⟩
  | giveUp at' other h =>
    obtain ⟨_, _, nextHandler, _, waits⟩ := phase
    obtain ⟨_, rfl⟩ := waits.atTrap at'
    exact ⟨tried, congrArg (· ++ _) freed, trivial⟩

/-- Where no handler is running there is a next step, up to the end. -/
theorem Kept.goesOn (kept : search.Kept blocks) (whole : search.phase ≠ .panicked) :
    search.isOver ∨ (∃ state, search.phase = .called state) ∨ ∃ next, SearchStep search next := by
  obtain ⟨tried, freed, phase⟩ := search
  cases phase with
  | dispatching state dispatch =>
    cases h : state.setupExceptionDispatch dispatch with
    | none => exact .inr (.inr ⟨_, .stackFull h⟩)
    | some next => exact .inr (.inr ⟨_, .call h⟩)
  | called state => exact .inr (.inl ⟨state, rfl⟩)
  | returned back =>
    obtain ⟨_, trap, nextHandler, _, saved, context, excReport, ctxRecord, top⟩ := kept.phase
    have at' : back.AtTrap _ := ⟨trap, top⟩
    by_cases h : back.result = xcptContinueExecution
    · exact .inr (.inr ⟨_, .continueExecution at' h⟩)
    · cases hnext : back.popFrame.nextDispatch context nextHandler excReport ctxRecord blocks with
      | none => exact .inr (.inr ⟨_, .giveUp at' h hnext⟩)
      | some dispatch => exact .inr (.inr ⟨_, .search at' h hnext⟩)
  | unhandled => exact .inl rfl
  | continued => exact .inl rfl
  | panicked => exact absurd rfl whole

theorem start_kept {seh next : SehMemory} (begins : seh.Begins dispatch next)
    (size : state.mem.size = guestMemSize) :
    (start state dispatch).Kept dispatch.guestAllocs where
  tried := by simp [start]
  freed := rfl
  phase := ⟨size, rfl, begins.regRec, begins.nextHandler⟩

/-- Records that are called once each are not more than there are addresses. -/
theorem length_le_of_nodup {tried : List Nat} (nodup : tried.Nodup)
    (small : ∀ regRec ∈ tried, regRec < u32Size) : tried.length ≤ u32Size := by
  have inside : tried.Subperm (List.range u32Size) :=
    List.subperm_of_subset nodup fun regRec member => List.mem_range.mpr (small regRec member)
  have bound := inside.length_le
  rwa [List.length_range] at bound

/-- A step with room on the stack does not panic. -/
theorem step_whole (kept : before.Kept blocks)
    (room : ∀ state dispatch, before.phase = .dispatching state dispatch → state.HasRoom)
    (step : SearchStep before after) : after.phase ≠ .panicked := by
  cases step with
  | @stackFull _ _ state dispatch h =>
    have small := small_of_size kept.phase.1
    have goes : (state.setupExceptionDispatch dispatch).isSome :=
      (VcpuState.setupExceptionDispatch_isSome_iff dispatch small).mpr (room _ _ rfl)
    rw [h] at goes
    contradiction
  | _ => exact SearchPhase.noConfusion

theorem New.room (new : before.New) (state : VcpuState) (dispatch : ExceptionDispatch)
    (here : before.phase = .dispatching state dispatch) : state.HasRoom := by
  rw [New, here] at new
  exact new.2

theorem Declines.room (declines : before.Declines) (state : VcpuState)
    (dispatch : ExceptionDispatch) (here : before.phase = .dispatching state dispatch) :
    state.HasRoom := by
  rwa [Declines, here] at declines

/-- A step that calls a new record keeps the records distinct. -/
theorem step_nodup (new : before.New) (nodup : before.tried.Nodup)
    (step : SearchStep before after) : after.tried.Nodup := by
  cases step with
  | call h => exact List.nodup_cons.mpr ⟨new.1, nodup⟩
  | _ => exact nodup

/-- A search that calls no record twice, with room on the stack for each call, ends. -/
theorem ends_new {seh next : SehMemory} (begins : seh.Begins dispatch next)
    (size : state.mem.size = guestMemSize) : Ends New state dispatch := by
  refine ⟨u32Size, fun search reaches => ?_⟩
  obtain ⟨kept, nodup, whole⟩ := reaches.invariant
    (fun search => search.Kept dispatch.guestAllocs ∧ search.tried.Nodup ∧
      search.phase ≠ .panicked)
    (fun _ _ inv new step => ⟨step_kept inv.1 step, step_nodup new inv.2.1 step,
      step_whole inv.1 new.room step⟩)
    ⟨start_kept begins size, List.nodup_nil, SearchPhase.noConfusion⟩
  exact ⟨length_le_of_nodup nodup kept.tried, whole, kept.freed, kept.goesOn whole⟩

/-- Quiet handlers take the search along the links of the chain. -/
theorem step_onWalk (quiet : before.Quiet mem first) (onWalk : before.OnWalk mem first)
    (step : SearchStep before after) : after.OnWalk mem first := by
  obtain ⟨reached, phase⟩ := onWalk
  cases step with
  | @call tried _ _ _ dispatch h =>
    have here : walk (link mem) tried.length first = some dispatch.nextHandler := phase
    have waits := VcpuState.setupExceptionDispatch_waits h
    refine ⟨⟨tried.length, Nat.le_refl _, ?_⟩, tried.length, _, _, rfl, here, waits⟩
    rw [here]
    exact Option.some_ne_none _
  | stackFull => exact ⟨reached, trivial⟩
  | handler returns =>
    obtain ⟨n, nextHandler, blocks, count, here, waits⟩ := phase
    refine ⟨reached, n, nextHandler, blocks, count, here, ?_⟩
    rwa [VcpuState.Waits, returns.frames]
  | search at' other h =>
    obtain ⟨n, nextHandler, blocks, count, here, waits⟩ := phase
    obtain ⟨rfl, rfl⟩ := waits.atTrap at'
    obtain ⟨_, _, linked⟩ := VcpuState.nextDispatch_eq_some h
    refine ⟨reached, ?_⟩
    have same := (quiet.2 n _ here).symm.trans linked
    exact (count ▸ walk_succ here).trans same
  | continueExecution => exact ⟨reached, trivial⟩
  | giveUp => exact ⟨reached, trivial⟩

/-- With quiet handlers a search that comes to the end of the chain ends. -/
theorem ends_quiet {seh next : SehMemory} (begins : seh.Begins dispatch next)
    (size : state.mem.size = guestMemSize) {stop : Nat}
    (ends : walk (link mem) stop dispatch.nextHandler = none) :
    Ends (Quiet mem dispatch.nextHandler) state dispatch := by
  refine ⟨stop, fun search reaches => ?_⟩
  obtain ⟨⟨kept, whole⟩, onWalk⟩ := reaches.invariant
    (fun search => (search.Kept dispatch.guestAllocs ∧ search.phase ≠ .panicked) ∧
      search.OnWalk mem dispatch.nextHandler)
    (fun _ _ inv quiet step => ⟨⟨step_kept inv.1.1 step, step_whole inv.1.1 quiet.1.room step⟩,
      step_onWalk quiet inv.2 step⟩)
    ⟨⟨start_kept begins size, SearchPhase.noConfusion⟩, ⟨0, Nat.zero_le _, Option.some_ne_none _⟩,
      rfl⟩
  obtain ⟨n, count, reached⟩ := onWalk.reached
  have earlier : n < stop := Nat.lt_of_not_le fun later => reached (walk_none ends later)
  exact ⟨by omega, whole, kept.freed, kept.goesOn whole⟩

/-- A handler that takes its arguments off the stack and changes nothing. -/
def declined (state called : VcpuState) : VcpuState :=
  { called with
    mem := state.mem
    regs := { called.regs with
      rip := callbackRetTrap, rsp := state.regs.rsp, rax := xcptContinueSearch } }

/-- One call on a chain that goes on: the search comes to the next record. -/
theorem quiet_round (first : Nat) (tried freed : List Nat) {place : Nat} (room : state.HasRoom)
    (size : state.mem.size = guestMemSize)
    (linked : link state.mem dispatch.nextHandler = some place) :
    ∃ later next, later.mem = state.mem ∧ later.regs.rsp = state.regs.rsp ∧
      next.nextHandler = place ∧
      Reaches (Quiet state.mem first) ⟨tried, freed, .dispatching state dispatch⟩
        ⟨dispatch.regRec :: tried, freed, .dispatching later next⟩ := by
  have small := small_of_size size
  obtain ⟨called, hcall⟩ := Option.isSome_iff_exists.mp
    ((VcpuState.setupExceptionDispatch_isSome_iff dispatch small).mpr room)
  have sized := VcpuState.setupExceptionDispatch_size small hcall
  obtain ⟨saved, context, excReport, ctxRecord, top⟩ := VcpuState.setupExceptionDispatch_waits hcall
  let back := declined state called
  have returns : HandlerReturns called back := ⟨rfl, rfl, sized.symm⟩
  have at' : back.AtTrap _ := ⟨rfl, top⟩
  have other : back.result ≠ xcptContinueExecution := by
    change xcptContinueSearch % u32Size ≠ xcptContinueExecution
    decide
  have goes := VcpuState.nextDispatch_link back.popFrame context dispatch.nextHandler excReport
    ctxRecord dispatch.guestAllocs
  rw [show link back.popFrame.mem dispatch.nextHandler = some place from linked] at goes
  obtain ⟨next, hnext, rfl⟩ := Option.map_eq_some_iff.mp goes
  refine ⟨back.popFrame, next, rfl, rfl, rfl, ?_⟩
  have reaches : Reaches (Quiet state.mem first) ⟨tried, freed, .dispatching state dispatch⟩
      ⟨dispatch.regRec :: tried, freed, .called called⟩ := .single ⟨⟨room, trivial⟩, .call hcall⟩
  exact (reaches.tail ⟨⟨trivial, trivial⟩, .handler returns⟩).tail
    ⟨⟨rfl, fun _ _ _ => rfl⟩, .search at' other hnext⟩

/-- On a chain without an end there are searches of any number of calls. -/
theorem quiet_reaches (room : state.HasRoom) (size : state.mem.size = guestMemSize)
    (endless : ∀ k, walk (link state.mem) k dispatch.nextHandler ≠ none) (n : Nat) :
    ∃ tried later next, tried.length = n ∧ later.mem = state.mem ∧
      later.regs.rsp = state.regs.rsp ∧
      walk (link state.mem) n dispatch.nextHandler = some next.nextHandler ∧
      Reaches (Quiet state.mem dispatch.nextHandler) (start state dispatch)
        ⟨tried, [], .dispatching later next⟩ := by
  induction n with
  | zero => exact ⟨[], state, dispatch, rfl, rfl, rfl, rfl, .refl⟩
  | succ n ih =>
    obtain ⟨tried, later, next, rfl, same, rsp, here, reaches⟩ := ih
    have further := walk_succ here
    obtain ⟨place, linked⟩ := Option.ne_none_iff_exists'.mp (endless (tried.length + 1))
    rw [linked, ← same] at further
    have still : later.HasRoom := by
      rw [VcpuState.HasRoom, rsp, same]
      exact room
    obtain ⟨last, final, keeps, stack, rfl, round⟩ :=
      quiet_round dispatch.nextHandler tried [] still (same ▸ size) further.symm
    rw [same] at round
    exact ⟨_, last, final, rfl, keeps.trans same, stack.trans rsp, linked, reaches.trans round⟩

/-- With quiet handlers a search ends exactly when the chain comes to no record twice. -/
theorem ends_quiet_iff {seh next : SehMemory} (begins : seh.Begins dispatch next)
    (size : state.mem.size = guestMemSize) (room : state.HasRoom) :
    Ends (Quiet state.mem dispatch.nextHandler) state dispatch ↔
      ∀ n m place, walk (link state.mem) n dispatch.nextHandler = some place →
        walk (link state.mem) m dispatch.nextHandler = some place → n = m := by
  have words : ∀ n place, walk (link state.mem) n dispatch.nextHandler = some place →
      place ∈ {place | place < u32Size} := by
    intro n place here
    cases n with
    | zero =>
      obtain rfl := Option.some.inj here
      exact begins.nextHandler
    | succ n =>
      obtain ⟨before, _, linked⟩ := Option.bind_eq_some_iff.mp here
      exact VcpuState.link_lt linked
  rw [← walk_ends_iff (Set.finite_lt_nat u32Size) words]
  constructor
  · rintro ⟨bound, settled⟩
    by_contra endless
    obtain ⟨tried, later, next, count, _, _, _, reaches⟩ := quiet_reaches room size
      (fun k ends => endless ⟨k, ends⟩) (bound + 1)
    have calls : tried.length ≤ bound := (settled _ reaches).calls
    omega
  · rintro ⟨stop, ends⟩
    exact ends_quiet begins size ends

/-- The search for a handler ends, with its blocks freed once, where no record is called
twice and the stack has room for each call. Handlers that leave the chain alone can only
do that if the chain comes to no record twice. -/
theorem search_ends_iff {initial : VcpuState} (dispatched : Dispatched initial state dispatch)
    (size : initial.mem.size = guestMemSize) :
    state.memMgr.addresses = initial.memMgr.addresses ++ dispatch.guestAllocs ∧
      Ends New state dispatch ∧
      (state.HasRoom → (Ends (Quiet state.mem dispatch.nextHandler) state dispatch ↔
        ∀ n m place, walk (link state.mem) n dispatch.nextHandler = some place →
          walk (link state.mem) m dispatch.nextHandler = some place → n = m)) := by
  have begins := dispatched.begins
  have sized : state.mem.size = guestMemSize := begins.size.trans size
  exact ⟨begins.blocks, ends_new begins sized, ends_quiet_iff begins sized⟩

/-- A fault of a thread whose chain has one record. -/
theorem sample_dispatched : ∃ state dispatch,
    Dispatched (VcpuState.sampleCaller 0) state dispatch ∧
    state.regs.rsp = 0x8000 ∧ dispatch.nextHandler = xcptChainEnd := by
  have result : (SehMemory.tryHwExceptionDispatch
      ⟨(VcpuState.sampleCaller 0).mem, (VcpuState.sampleCaller 0).memMgr⟩
      Threads.sampleFault 13).map (fun out => out.1.map ExceptionDispatch.nextHandler) =
        some (some xcptChainEnd) := by decide
  obtain ⟨⟨found, seh⟩, h, hfound⟩ := Option.map_eq_some_iff.mp result
  obtain ⟨dispatch, rfl, hnext⟩ := Option.map_eq_some_iff.mp hfound
  exact ⟨_, dispatch, .fault h, rfl, hnext⟩

/-- The stack of the sample thread has room. -/
theorem room_of_sample (rsp : state.regs.rsp = 0x8000) (size : state.mem.size = guestMemSize) :
    state.HasRoom := by
  rw [VcpuState.HasRoom, rsp, size]
  decide

theorem search_ends_iff_one : ∃ state dispatch, Dispatched (VcpuState.sampleCaller 0) state dispatch ∧
    Ends New state dispatch ∧ Ends (Quiet state.mem dispatch.nextHandler) state dispatch := by
  obtain ⟨state, dispatch, dispatched, rsp, last⟩ := sample_dispatched
  have room := room_of_sample rsp dispatched.begins.size
  obtain ⟨_, new, quiet⟩ := search_ends_iff dispatched rfl
  refine ⟨state, dispatch, dispatched, new, (quiet room).mpr ?_⟩
  have stop : walk (link state.mem) 1 dispatch.nextHandler = none := if_pos (.inl last)
  intro n m place here there
  have early {n : Nat} (here : walk (link state.mem) n dispatch.nextHandler = some place) : n = 0 := by
    by_contra later
    rw [walk_none stop (Nat.pos_of_ne_zero later)] at here
    contradiction
  rw [early here, early there]

/-- The record at the head of the chain is its own next one. -/
def sampleCycle : VcpuState :=
  { VcpuState.sampleCaller 0 with
    mem := ⟨guestMemSize, fun i =>
      if i = 0x1001 then 0x10 else if 0x1000 ≤ i ∧ i < 0x1004 then 0
      else (VcpuState.sampleCaller 0).mem.bytes i⟩ }

theorem Ends.mono {weaker : Search → Prop} (ends : Ends weaker state dispatch)
    (follows : ∀ search, guard search → weaker search) : Ends guard state dispatch := by
  obtain ⟨bound, settled⟩ := ends
  refine ⟨bound, fun search reaches => settled search ?_⟩
  induction reaches with
  | refl => exact .refl
  | tail _ step ih => exact ih.tail ⟨follows _ step.1, step.2⟩

/-- On a record that is its own next one the handlers are called for ever. -/
theorem search_endless : ¬∀ (initial state : VcpuState) (dispatch : ExceptionDispatch),
    Dispatched initial state dispatch → initial.mem.size = guestMemSize →
      Ends Declines state dispatch := by
  intro all
  have result : (SehMemory.tryHwExceptionDispatch ⟨sampleCycle.mem, sampleCycle.memMgr⟩
      Threads.sampleFault 13).map (fun out =>
        (out.1.map ExceptionDispatch.nextHandler, link out.2.mem 0x1000)) =
          some (some 0x1000, some 0x1000) := by decide
  obtain ⟨⟨found, seh⟩, h, hpair⟩ := Option.map_eq_some_iff.mp result
  obtain ⟨hfound, hlink⟩ := Prod.mk.inj hpair
  obtain ⟨dispatch, rfl, hnext⟩ := Option.map_eq_some_iff.mp hfound
  have dispatched : Dispatched sampleCycle (sampleCycle.withSeh seh) dispatch := .fault h
  have begins := dispatched.begins
  have room := room_of_sample rfl begins.size
  have ends : Ends (Quiet (sampleCycle.withSeh seh).mem dispatch.nextHandler)
      (sampleCycle.withSeh seh) dispatch :=
    (all _ _ _ dispatched rfl).mono fun _ quiet => quiet.1
  have once := (ends_quiet_iff begins begins.size room).mp ends
  rw [hnext] at once
  exact absurd (once 0 1 0x1000 rfl hlink) (by decide)

end Search
end Warpine.Vcpu
