import Warpine.Lib.Brackets
import Warpine.Vcpu.DialogStack

/-! Nested callbacks of one thread. The starts of callbacks and the returns of the API
calls that started them form a word of brackets, and the frames are what still waits. -/
namespace Warpine.Vcpu
open Warpine.Lib Warpine.Guest Warpine.Loader Warpine.Pm

/-- An API call that starts a callback, with the place after the call; or an exception,
with the record that its handlers get and the place it was raised at. -/
inductive Opened where
  | call (home : Resume)
  | exception (ctxRecord : Nat) (home : Resume)
deriving DecidableEq

/-- The thread goes on with the code that called the API, or with what the record of an
exception holds. -/
inductive Closed where
  | returned (place : Resume)
  | continued (ctxRecord : Nat) (place : Resume)
deriving DecidableEq

abbrev Mark := Paren Opened Closed

/-- A call returns to its own place, and an exception ends by its own record. -/
def Fits : Opened → Closed → Prop
  | .call home, .returned place => place = home
  | .exception ctxRecord _, .continued record _ => record = ctxRecord
  | _, _ => False

namespace VcpuState

def place (state : VcpuState) : Resume := ⟨state.regs.rip, state.regs.rsp⟩

/-- The guest has called a stub of the API. -/
def AtApi (state : VcpuState) (ordinal : Nat) : Prop :=
  state.regs.rip = magicApiBase + ordinal ∧ ordinal < stubAreaSize ∧
    state.regs.rip ≠ exitTrapAddr ∧ state.regs.rip ≠ callbackRetTrap

/-- The guest is at the trap, with a frame to return from. -/
def AtTrap (state : VcpuState) (frame : CallbackFrame) : Prop :=
  state.regs.rip = callbackRetTrap ∧ state.callbackStack.head? = some frame

def result (state : VcpuState) : Nat := state.regs.rax % u32Size

/-- A dismissed dialog leaves the stack of windows. -/
def endDlg (state : VcpuState) (saved : Resume) (hwndDlg : Hwnd) (result : UInt32) : VcpuState :=
  { state.popFrame.leaveDlg saved result.toNat with wm := state.wm.zRemove hwndDlg }

def resumeContext (state : VcpuState) (ctxRecord : Nat) (guestAllocs : List Nat) : VcpuState :=
  (state.popFrame.restoreContext ctxRecord).freeBlocks guestAllocs

end VcpuState

/-- The results that start a callback at once. -/
def ApiResult.StartsCall : ApiResult → Prop
  | .callback .. | .wmCreateCallback .. | .callGuest .. => True
  | _ => False

/-- The steps of a thread. Between the exits of the guest anything may happen to its
registers and to what it shares, by its own code, by the work of an API call and by the
other threads; the frames belong to the host. -/
inductive VcpuStep : Step VcpuState (Option Mark) where
  | guest (state : VcpuState) (regs : GuestRegs) (shared : DlgShared) (mem : GuestMemory)
      (memMgr : MemoryManager) :
      VcpuStep state none { state.share shared mem memMgr with regs }
  | apiReturn {state next : VcpuState} {ordinal value : Nat} (at' : state.AtApi ordinal)
      (h : state.apiReturn ordinal (.normal value) = some next) : VcpuStep state none next
  | startCall {state next : VcpuState} {ordinal : Nat} {result : ApiResult} {home : Resume}
      (at' : state.AtApi ordinal) (starts : result.StartsCall) (caller : state.caller = some home)
      (h : state.apiReturn ordinal result = some next) :
      VcpuStep state (some (.opening (.call home))) next
  | openDialog {state next : VcpuState} {ordinal : Nat} {dlgProc : UInt32} {hwndDlg : Hwnd}
      {hmq : UInt32} {home : Resume} {message : OS2Message} (at' : state.AtApi ordinal)
      (caller : state.caller = some home)
      (h : SetupDlg dlgProc hwndDlg hmq home state (some message) next) :
      VcpuStep state (some (.opening (.call home))) next
  | skipDialog {state next : VcpuState} {ordinal : Nat} {dlgProc : UInt32} {hwndDlg : Hwnd}
      {hmq : UInt32} {home : Resume} (at' : state.AtApi ordinal)
      (caller : state.caller = some home)
      (h : SetupDlg dlgProc hwndDlg hmq home state none next) : VcpuStep state none next
  | raise {state next : VcpuState} {ordinal : Nat} {dispatch : ExceptionDispatch} {home : Resume}
      (at' : state.AtApi ordinal) (caller : state.caller = some home)
      (h : state.apiReturn ordinal (.exceptionDispatch dispatch) = some next) :
      VcpuStep state (some (.opening (.exception dispatch.ctxRecord
        ⟨home.rip, home.rsp % u32Size⟩))) next
  | fault {state next : VcpuState} {dispatch : ExceptionDispatch}
      (h : state.setupExceptionDispatch dispatch = some next) :
      VcpuStep state (some (.opening (.exception dispatch.ctxRecord
        ⟨dispatch.saved.eip, dispatch.saved.esp⟩))) next
  | callReturn {state next : VcpuState} {saved : Resume} {kind : FrameKind}
      (at' : state.AtTrap ⟨saved, kind⟩)
      (h : state.popFrame.callReturn saved state.result kind = some next) :
      VcpuStep state (some (.closing (.returned next.place))) next
  | dlgDismissed {state : VcpuState} {saved : Resume} {dlgProc : UInt32} {hwndDlg : Hwnd}
      {hmq result : UInt32} (at' : state.AtTrap ⟨saved, .dlgRunLoop dlgProc hwndDlg hmq⟩)
      (h : state.dismissedDlg hwndDlg = some result) :
      VcpuStep state (some (.closing (.returned (state.endDlg saved hwndDlg result).place)))
        (state.endDlg saved hwndDlg result)
  | dlgNext {state next : VcpuState} {saved : Resume} {dlgProc : UInt32} {hwndDlg : Hwnd}
      {hmq : UInt32} {message : OS2Message}
      (at' : state.AtTrap ⟨saved, .dlgRunLoop dlgProc hwndDlg hmq⟩)
      (running : state.dismissedDlg hwndDlg = none)
      (h : SetupDlg dlgProc hwndDlg hmq saved state.popFrame (some message) next) :
      VcpuStep state none next
  | dlgLeft {state next : VcpuState} {saved : Resume} {dlgProc : UInt32} {hwndDlg : Hwnd}
      {hmq : UInt32} (at' : state.AtTrap ⟨saved, .dlgRunLoop dlgProc hwndDlg hmq⟩)
      (running : state.dismissedDlg hwndDlg = none)
      (h : SetupDlg dlgProc hwndDlg hmq saved state.popFrame none next) :
      VcpuStep state (some (.closing (.returned next.place))) next
  | continueExecution {state : VcpuState} {saved : Resume} {context : FaultContext}
      {nextHandler excReport ctxRecord : Nat} {guestAllocs : List Nat}
      (at' : state.AtTrap ⟨saved, .exceptionHandler context nextHandler excReport ctxRecord
        guestAllocs⟩)
      (h : state.result = xcptContinueExecution) :
      VcpuStep state (some (.closing (.continued ctxRecord
        (state.resumeContext ctxRecord guestAllocs).place)))
        (state.resumeContext ctxRecord guestAllocs)
  | continueSearch {state next : VcpuState} {saved : Resume} {context : FaultContext}
      {nextHandler excReport ctxRecord : Nat} {guestAllocs : List Nat}
      (at' : state.AtTrap ⟨saved, .exceptionHandler context nextHandler excReport ctxRecord
        guestAllocs⟩)
      (other : state.result ≠ xcptContinueExecution)
      (h : state.popFrame.searchNext context nextHandler excReport ctxRecord guestAllocs =
        some next) :
      VcpuStep state none next

/-- What a frame waits for. -/
def CallbackFrame.opened (frame : CallbackFrame) : Opened :=
  match frame.kind with
  | .exceptionHandler context _ _ ctxRecord _ =>
      .exception ctxRecord ⟨context.eip, context.esp⟩
  | _ => .call frame.saved

namespace VcpuState

def waiting (state : VcpuState) : List Opened := state.callbackStack.map CallbackFrame.opened

variable {state next : VcpuState}

theorem waiting_atTrap {frame : CallbackFrame} (h : state.AtTrap frame) :
    state.waiting = frame.opened :: state.popFrame.waiting := by
  obtain ⟨_, top⟩ := h
  obtain ⟨tail, hstack⟩ := List.head?_eq_some_iff.mp top
  simp [waiting, popFrame, hstack]

/-- Every result that starts a callback leaves a frame for the call. -/
theorem waiting_startCall {ordinal : Nat} {result : ApiResult} {home : Resume}
    (starts : result.StartsCall) (caller : state.caller = some home)
    (h : state.apiReturn ordinal result = some next) :
    next.waiting = .call home :: state.waiting := by
  have pushed {kind : FrameKind} {entry : Nat} {args : List Nat}
      (h : state.startCallback kind entry args = some next)
      (plain : ∀ saved, CallbackFrame.opened ⟨saved, kind⟩ = .call saved) :
      next.waiting = .call home :: state.waiting := by
    obtain ⟨other, hother, hstack⟩ := startCallback_eq_some h
    obtain rfl := Option.some.inj (caller.symm.trans hother)
    rw [waiting, hstack, List.map_cons, plain, waiting]
  cases result with
  | callback => exact pushed h fun _ => rfl
  | wmCreateCallback => exact pushed h fun _ => rfl
  | callGuest addr hmod phmod objectBases =>
    simp only [apiReturn] at h
    split at h <;> exact pushed h fun _ => rfl
  | _ => cases starts

theorem waiting_setupExceptionDispatch {dispatch : ExceptionDispatch}
    (h : state.setupExceptionDispatch dispatch = some next) :
    next.waiting =
      .exception dispatch.ctxRecord ⟨dispatch.saved.eip, dispatch.saved.esp⟩ :: state.waiting := by
  rw [waiting, setupExceptionDispatch_eq_some h]
  rfl

theorem waiting_raiseException {dispatch : ExceptionDispatch} {home : Resume}
    (caller : state.caller = some home) (h : state.raiseException dispatch = some next) :
    next.waiting = .exception dispatch.ctxRecord ⟨home.rip, home.rsp % u32Size⟩ ::
      state.waiting := by
  simp only [raiseException, caller, Option.bind_eq_bind, Option.bind_some] at h
  obtain ⟨first, _, h⟩ := Option.bind_eq_some_iff.mp h
  obtain ⟨second, _, h⟩ := Option.bind_eq_some_iff.mp h
  exact waiting_setupExceptionDispatch h

theorem waiting_searchNext {context : FaultContext} {nextHandler excReport ctxRecord : Nat}
    {guestAllocs : List Nat}
    (h : state.searchNext context nextHandler excReport ctxRecord guestAllocs = some next) :
    next.waiting = .exception ctxRecord ⟨context.eip, context.esp⟩ :: state.waiting := by
  unfold searchNext at h
  split at h
  · contradiction
  dsimp only at h
  split at h
  · contradiction
  · exact waiting_setupExceptionDispatch h

/-- The return of a callback that ends its API call takes the thread to the saved place. -/
theorem callReturn_eq_some {saved : Resume} {result : Nat} {kind : FrameKind}
    (h : state.callReturn saved result kind = some next) :
    next.waiting = state.waiting ∧ next.place = saved ∧
      CallbackFrame.opened ⟨saved, kind⟩ = .call saved := by
  cases kind with
  | pmCallback | wmCreate | initTermUnload =>
    obtain rfl := Option.some.inj h
    exact ⟨rfl, rfl, rfl⟩
  | initTerm hmod phmod =>
    obtain rfl := Option.some.inj h
    unfold initTermReturn
    split <;> exact ⟨rfl, rfl, rfl⟩
  | _ => contradiction

theorem waiting_setupDlg {dlgProc : UInt32} {hwndDlg : Hwnd} {hmq : UInt32} {home : Resume}
    {message : OS2Message} (h : SetupDlg dlgProc hwndDlg hmq home state (some message) next) :
    next.waiting = .call home :: state.waiting := by
  rw [waiting, (setupDlg_called h).1]
  rfl

theorem waiting_setupDlg_left {dlgProc : UInt32} {hwndDlg : Hwnd} {hmq : UInt32} {home : Resume}
    (h : SetupDlg dlgProc hwndDlg hmq home state none next) : next.waiting = state.waiting := by
  rw [waiting, (setupDlg_left h).1]
  rfl

end VcpuState

/-- A step with no mark leaves what waits, and the others read their mark. -/
def Advances (before : List Opened) (mark : Option Mark) (after : List Opened) : Prop :=
  match mark with
  | none => after = before
  | some paren => Paren.Reads Fits before paren after

theorem step_advances {state next : VcpuState} {mark : Option Mark}
    (step : VcpuStep state mark next) : Advances state.waiting mark next.waiting := by
  cases step with
  | guest => exact rfl
  | apiReturn at' h =>
    obtain ⟨caller, _, rfl⟩ := Option.map_eq_some_iff.mp h
    exact rfl
  | startCall at' starts caller h =>
    rw [VcpuState.waiting_startCall starts caller h]
    exact .opening _ _
  | openDialog at' caller h =>
    rw [VcpuState.waiting_setupDlg h]
    exact .opening _ _
  | skipDialog at' caller h =>
    exact VcpuState.waiting_setupDlg_left h
  | raise at' caller h =>
    rw [VcpuState.waiting_raiseException caller h]
    exact .opening _ _
  | fault h =>
    rw [VcpuState.waiting_setupExceptionDispatch h]
    exact .opening _ _
  | callReturn at' h =>
    obtain ⟨hwaiting, hplace, hopened⟩ := VcpuState.callReturn_eq_some h
    rw [VcpuState.waiting_atTrap at', hwaiting, hopened, hplace]
    exact .closing _ rfl
  | dlgDismissed at' h =>
    rw [VcpuState.waiting_atTrap at']
    exact .closing _ rfl
  | dlgNext at' running h =>
    rw [VcpuState.waiting_atTrap at', VcpuState.waiting_setupDlg h]
    exact rfl
  | dlgLeft at' running h =>
    rw [VcpuState.waiting_atTrap at', VcpuState.waiting_setupDlg_left h]
    exact .closing _ (setupDlg_left h).2
  | continueExecution at' h =>
    rw [VcpuState.waiting_atTrap at']
    exact .closing _ rfl
  | continueSearch at' other h =>
    rw [VcpuState.waiting_atTrap at', VcpuState.waiting_searchNext h]
    exact rfl

/-- The marks of a run, as one word. -/
def word (marks : List (Option Mark)) : List Mark := marks.filterMap id

theorem run_reads {start finish : VcpuState} {marks : List (Option Mark)}
    (run : Run VcpuStep start marks finish) :
    Run (Paren.Reads Fits) start.waiting (word marks) finish.waiting := by
  induction run with
  | nil state => exact .nil _
  | @cons start middle finish mark rest first _ ih =>
    have advance := step_advances first
    cases mark with
    | none => exact (show middle.waiting = start.waiting from advance) ▸ ih
    | some paren => exact .cons advance ih

/-- A thread that raises an exception, on a memory of zeros. -/
def sampleRaising : VcpuState where
  regs := ⟨magicApiBase + 356, 0x1000, 0, 0, 0, 0, 0, 0, 0, 0⟩
  callbackStack := []
  mem := ⟨0x2000, fun _ => 0⟩
  memMgr := .new 0x2000000 0x2001000
  wm := .new
  shuttingDown := false

def sampleDispatch : ExceptionDispatch where
  handlerAddr := 0x20000
  excReport := 0
  regRec := 0
  ctxRecord := 0x100
  saved := ⟨0, 0, 0, 0, 0, 0, 0, 0, 0, 0, 0, 0, 0, 0, 0, 0⟩
  nextHandler := xcptChainEnd
  guestAllocs := []

def sampleFrame : CallbackFrame where
  saved := ⟨0, 0x1004⟩
  kind := .exceptionHandler { sampleDispatch.saved with esp := 0x1004 } xcptChainEnd 0 0x100 []

/-- The handler has put another address into its record. -/
def sampleMoved : GuestMemory := ⟨0x2000, fun i => if i = 0x1B9 then 0x50 else 0⟩

def sampleMarks : List (Option Mark) := [
  some (.opening (.exception 0x100 ⟨0, 0x1004⟩)), none,
  some (.closing (.continued 0x100 ⟨0x5000, 0⟩))]

theorem sample_run : ∃ finish, Run VcpuStep sampleRaising sampleMarks finish := by
  have frames : (sampleRaising.raiseException sampleDispatch).map (·.callbackStack) =
      some [sampleFrame] := by decide
  obtain ⟨raised, hraised, hframes⟩ := Option.map_eq_some_iff.mp frames
  let back : VcpuState := { raised.share raised.dlgShared sampleMoved raised.memMgr with
    regs := { raised.regs with rip := callbackRetTrap, rax := xcptContinueExecution } }
  have atTrap : back.AtTrap sampleFrame := ⟨rfl, congrArg List.head? hframes⟩
  have atApi : sampleRaising.AtApi 356 := ⟨rfl, by decide, by decide, by decide⟩
  have caller : sampleRaising.caller = some ⟨0, 0x1004⟩ := by decide
  have raise : VcpuStep sampleRaising (some (.opening (.exception 0x100 ⟨0, 0x1004⟩))) raised :=
    .raise atApi caller hraised
  have eip : (sampleMoved.read 4 (wrapAdd 0x100 ctxEip)).getD 0 = 0x5000 := by decide
  have esp : (sampleMoved.read 4 (wrapAdd 0x100 ctxEsp)).getD 0 = 0 := by decide
  have place : (back.resumeContext 0x100 []).place = ⟨0x5000, 0⟩ :=
    congrArg₂ Resume.mk eip esp
  have resume := VcpuStep.continueExecution atTrap rfl
  rw [place] at resume
  exact ⟨_, .cons raise (.cons (.guest raised _ _ _ _) (.cons resume (.nil _)))⟩

/-- Everything goes on at its own place. -/
def FitsOwnPlace : Opened → Closed → Prop
  | .call home, .returned place => place = home
  | .exception _ home, .continued _ place => place = home
  | _, _ => False

end Warpine.Vcpu
