import Warpine.Guest.Memory
import Warpine.Loader.MemoryManager
import Warpine.Loader.StubArea
import Warpine.Pm.WindowManager

/-! One guest thread: its registers, and the stack of the callbacks that it is in.
A callback returns to a trap, where its frame says what becomes of the API call that
started it. `none` is a failed access to the guest's stack, which ends the thread. -/
namespace Warpine.Vcpu
open Warpine.Lib Warpine.Guest Warpine.Loader Warpine.Pm

structure GuestRegs where
  rip : Nat
  rsp : Nat
  rax : Nat
  rbx : Nat
  rcx : Nat
  rdx : Nat
  rsi : Nat
  rdi : Nat
  rbp : Nat
  rflags : Nat
deriving DecidableEq

structure FaultContext where
  eax : Nat
  ebx : Nat
  ecx : Nat
  edx : Nat
  esi : Nat
  edi : Nat
  ebp : Nat
  esp : Nat
  eip : Nat
  eflags : Nat
  cs : Nat
  ds : Nat
  es : Nat
  fs : Nat
  gs : Nat
  ss : Nat
deriving DecidableEq

inductive FrameKind where
  | pmCallback
  | initTerm (hmod phmod : Nat)
  | initTermUnload (hmod : Nat) (objectBases : List Nat)
  | exceptionHandler (saved : FaultContext) (nextHandler excReport ctxRecord : Nat)
      (guestAllocs : List Nat)
  | wmCreate (hFrame : Hwnd)
  | dlgRunLoop (dlgProc : UInt32) (hwndDlg : Hwnd) (hmq : UInt32)
deriving DecidableEq

/-- Where a thread goes on: an address, and the stack pointer there. -/
structure Resume where
  rip : Nat
  rsp : Nat
deriving DecidableEq

structure CallbackFrame where
  saved : Resume
  kind : FrameKind
deriving DecidableEq

/-- The handler to call, and what its frame needs. -/
structure ExceptionDispatch where
  handlerAddr : Nat
  excReport : Nat
  regRec : Nat
  ctxRecord : Nat
  saved : FaultContext
  nextHandler : Nat
  guestAllocs : List Nat

inductive ApiResult where
  | normal (value : Nat)
  | callback (wndProc : UInt32) (hwnd : Hwnd) (msg mp1 mp2 : UInt32)
  | wmCreateCallback (wndProc : UInt32) (hwnd hFrame : Hwnd)
  | callGuest (addr hmod phmod : Nat) (objectBases : List Nat)
  | dlgRunLoop (dlgProc : UInt32) (hwndDlg : Hwnd) (hmq : UInt32)
  | exceptionDispatch (dispatch : ExceptionDispatch)

/-- A thread, with what it shares with the others. -/
structure VcpuState where
  regs : GuestRegs
  callbackStack : List CallbackFrame
  mem : GuestMemory
  memMgr : MemoryManager
  wm : WindowManager
  shuttingDown : Bool

def ctxEdi : Nat := 0x9C
def ctxEsi : Nat := 0xA0
def ctxEax : Nat := 0xA4
def ctxEbx : Nat := 0xA8
def ctxEcx : Nat := 0xAC
def ctxEdx : Nat := 0xB0
def ctxEbp : Nat := 0xB4
def ctxEip : Nat := 0xB8
def ctxEflags : Nat := 0xC0
def ctxEsp : Nat := 0xC4

def xerrecPrev : Nat := 0x00
def xerrecHandler : Nat := 0x04
def xcptChainEnd : Nat := 0xFFFFFFFF
def xcptContinueExecution : Nat := 0xFFFFFFFF
def errorInitRoutineFailed : Nat := 199
def didCancel : Nat := 2

/-- What the Pascal calls of two modules take off the stack themselves. -/
def viocallsArgBytes (ordinal : Nat) : Nat :=
  if ordinal ∈ [21, 32, 27, 5, 3, 51, 22] then 8
  else if ordinal ∈ [19, 9, 15, 42, 46, 31, 43] then 12
  else if ordinal = 39 then 16
  else if ordinal ∈ [52, 26, 24, 10] then 20
  else if ordinal = 48 then 24
  else if ordinal ∈ [7, 47] then 28
  else 0

def kbdcallsArgBytes (ordinal : Nat) : Nat :=
  if ordinal = 4 then 12 else if ordinal = 10 then 8 else if ordinal = 9 then 16 else 0

def pascalArgBytes (ordinal : Nat) : Nat :=
  if viocallsBase ≤ ordinal ∧ ordinal < sesmgrBase then viocallsArgBytes (ordinal - viocallsBase)
  else if kbdcallsBase ≤ ordinal ∧ ordinal < viocallsBase then
    kbdcallsArgBytes (ordinal - kbdcallsBase)
  else 0

namespace VcpuState

variable (state : VcpuState)

/-- The low half of the stack pointer. -/
def sp : Nat := state.regs.rsp % u32Size

def resumeAt (home : Resume) : VcpuState :=
  { state with regs := { state.regs with rip := home.rip, rsp := home.rsp } }

def setRax (value : Nat) : VcpuState := { state with regs := { state.regs with rax := value } }

/-- The return address of the API call, and the stack pointer above it. -/
def caller : Option Resume :=
  (state.mem.read 4 state.sp).map fun rip => ⟨rip, state.regs.rsp + 4⟩

def pushFrame (saved : Resume) (kind : FrameKind) : VcpuState :=
  { state with callbackStack := ⟨saved, kind⟩ :: state.callbackStack }

def writeWords : GuestMemory → Nat → List Nat → Option GuestMemory
  | mem, _, [] => some mem
  | mem, sp, word :: rest => (mem.write 4 sp word).bind fun mem => writeWords mem (wrapAdd sp 4) rest

/-- A call of a guest procedure that will return to the trap. -/
def enterGuest (entry : Nat) (args : List Nat) : Option VcpuState :=
  let size := 4 * (args.length + 1)
  if state.regs.rsp < size then none
  else
    let rsp := state.regs.rsp - size
    (writeWords state.mem (rsp % u32Size) (callbackRetTrap :: args)).map fun mem =>
      { state with mem, regs := { state.regs with rip := entry, rsp } }

/-- The saved stack pointer is past the return address. -/
def startCallback (kind : FrameKind) (entry : Nat) (args : List Nat) : Option VcpuState :=
  state.caller.bind fun caller => (state.pushFrame caller kind).enterGuest entry args

def setupExceptionDispatch (dispatch : ExceptionDispatch) : Option VcpuState :=
  let kind := .exceptionHandler dispatch.saved dispatch.nextHandler dispatch.excReport
    dispatch.ctxRecord dispatch.guestAllocs
  (state.pushFrame ⟨dispatch.saved.eip, dispatch.saved.esp⟩ kind).enterGuest dispatch.handlerAddr
    [dispatch.excReport, dispatch.regRec, dispatch.ctxRecord, 0]

/-- A raised exception resumes after its API call. -/
def raiseException (dispatch : ExceptionDispatch) : Option VcpuState := do
  let caller ← state.caller
  let esp := caller.rsp % u32Size
  let mem ← state.mem.write 4 (wrapAdd dispatch.ctxRecord ctxEip) caller.rip
  let mem ← mem.write 4 (wrapAdd dispatch.ctxRecord ctxEsp) esp
  let saved := { dispatch.saved with eip := caller.rip, esp }
  { state with mem }.setupExceptionDispatch { dispatch with saved }

/-- What becomes of an API call, but for a dialog, whose loop may wait for messages. -/
def apiReturn (ordinal : Nat) : ApiResult → Option VcpuState
  | .normal value => state.caller.map fun caller =>
      (state.resumeAt ⟨caller.rip, caller.rsp + pascalArgBytes ordinal⟩).setRax value
  | .callback wndProc hwnd msg mp1 mp2 =>
      state.startCallback .pmCallback wndProc.toNat [hwnd.toNat, msg.toNat, mp1.toNat, mp2.toNat]
  | .wmCreateCallback wndProc hwnd hFrame =>
      state.startCallback (.wmCreate hFrame) wndProc.toNat [hwnd.toNat, wmCreate.toNat, 0, 0]
  | .callGuest addr hmod phmod objectBases =>
      if objectBases = [] then state.startCallback (.initTerm hmod phmod) addr [hmod, 0]
      else state.startCallback (.initTermUnload hmod objectBases) addr [hmod, 1]
  | .exceptionDispatch dispatch => state.raiseException dispatch
  | .dlgRunLoop .. => none

def freeBlocks (blocks : List Nat) : VcpuState :=
  { state with memMgr := blocks.foldl (fun memMgr base => (memMgr.free base).2) state.memMgr }

def readOr (offset : Nat) : Nat := (state.mem.read 4 offset).getD 0

/-- Every register from the record, as the handler left it. -/
def restoreContext (ctxRecord : Nat) : VcpuState :=
  let field := fun offset => state.readOr (wrapAdd ctxRecord offset)
  { state with regs := {
      rip := field ctxEip
      rsp := field ctxEsp
      rax := field ctxEax
      rbx := field ctxEbx
      rcx := field ctxEcx
      rdx := field ctxEdx
      rsi := field ctxEsi
      rdi := field ctxEdi
      rbp := field ctxEbp
      rflags := (state.mem.read 4 (wrapAdd ctxRecord ctxEflags)).getD 2 } }

/-- The rest of the chain, where this handler does not want the exception. `none` ends
the process. -/
def searchNext (saved : FaultContext) (nextHandler excReport ctxRecord : Nat)
    (guestAllocs : List Nat) : Option VcpuState :=
  if nextHandler = xcptChainEnd then none
  else
    let handlerAddr := state.readOr (wrapAdd nextHandler xerrecHandler)
    let next := (state.mem.read 4 (wrapAdd nextHandler xerrecPrev)).getD xcptChainEnd
    if handlerAddr = 0 then none
    else state.setupExceptionDispatch ⟨handlerAddr, excReport, nextHandler, ctxRecord, saved, next,
      guestAllocs⟩

/-- The return of `_DLL_InitTerm` at load time. -/
def initTermReturn (hmod phmod result : Nat) : VcpuState :=
  if result ≠ 0 then { state with mem := state.mem.putAt 4 phmod hmod }.setRax 0
  else { state with mem := state.mem.putAt 4 phmod 0 }.setRax errorInitRoutineFailed

/-- What the return of a callback does for the API call that started it, where the call
returns then: the frame is off the stack, and the result of the callback is in `eax`. -/
def callReturn (saved : Resume) (result : Nat) : FrameKind → Option VcpuState
  | .pmCallback => (state.resumeAt saved).setRax result
  | .wmCreate hFrame => (state.resumeAt saved).setRax hFrame.toNat
  | .initTerm hmod phmod => (state.resumeAt saved).initTermReturn hmod phmod result
  | .initTermUnload _ objectBases => ((state.resumeAt saved).freeBlocks objectBases).setRax 0
  | _ => none

variable {state}

/-- A call takes its return address and its arguments from the stack, and no more. -/
theorem enterGuest_eq_some {entry : Nat} {args : List Nat} {next : VcpuState}
    (h : state.enterGuest entry args = some next) :
    next.callbackStack = state.callbackStack ∧ next.regs.rip = entry ∧
      next.regs.rsp + 4 * (args.length + 1) = state.regs.rsp := by
  unfold enterGuest at h
  dsimp only at h
  split at h
  · contradiction
  · rename_i room
    obtain ⟨mem, _, rfl⟩ := Option.map_eq_some_iff.mp h
    exact ⟨rfl, rfl, Nat.sub_add_cancel (Nat.not_lt.mp room)⟩

theorem writeWords_isSome {mem : GuestMemory} {sp : Nat} {words : List Nat}
    (room : sp + 4 * words.length ≤ mem.size) (small : mem.size < u32Size) :
    (writeWords mem sp words).isSome := by
  induction words generalizing mem sp with
  | nil => rfl
  | cons word rest ih =>
    rw [List.length_cons] at room
    have fits : mem.inBounds sp (leBytes 4 word).length := by
      simp only [GuestMemory.inBounds, leBytes_length, decide_eq_true_eq]
      omega
    have hwrite : mem.write 4 sp word =
        some { mem with bytes := mem.bytes.store sp (leBytes 4 word) } := if_pos fits
    have hnext : wrapAdd sp 4 = sp + 4 := wrapAdd_of_lt (by omega)
    unfold writeWords
    rw [hwrite, Option.bind_some, hnext]
    exact ih (by dsimp only; omega) small

/-- A call goes through where the guest's stack has room for it. -/
theorem enterGuest_isSome {entry : Nat} {args : List Nat}
    (room : 4 * (args.length + 1) ≤ state.regs.rsp) (inside : state.regs.rsp ≤ state.mem.size)
    (small : state.mem.size < u32Size) : (state.enterGuest entry args).isSome := by
  have low : (state.regs.rsp - 4 * (args.length + 1)) % u32Size =
      state.regs.rsp - 4 * (args.length + 1) := Nat.mod_eq_of_lt (by omega)
  unfold enterGuest
  rw [if_neg (Nat.not_lt.mpr room), Option.isSome_map, low]
  exact writeWords_isSome (by simp only [List.length_cons]; omega) small

/-- Every start of a callback pushes one frame, with the place after the API call. -/
theorem startCallback_eq_some {kind : FrameKind} {entry : Nat} {args : List Nat}
    {next : VcpuState} (h : state.startCallback kind entry args = some next) :
    ∃ home, state.caller = some home ∧
      next.callbackStack = ⟨home, kind⟩ :: state.callbackStack := by
  obtain ⟨home, hhome, h⟩ := Option.bind_eq_some_iff.mp h
  exact ⟨home, hhome, (enterGuest_eq_some h).1⟩

theorem setupExceptionDispatch_eq_some {dispatch : ExceptionDispatch} {next : VcpuState}
    (h : state.setupExceptionDispatch dispatch = some next) :
    next.callbackStack = ⟨⟨dispatch.saved.eip, dispatch.saved.esp⟩, .exceptionHandler dispatch.saved
      dispatch.nextHandler dispatch.excReport dispatch.ctxRecord dispatch.guestAllocs⟩ ::
        state.callbackStack :=
  (enterGuest_eq_some h).1

end VcpuState
end Warpine.Vcpu
