import Warpine.Vcpu.DialogLoop

/-! A modal dialog on the guest's stack: the loop calls the dialog procedure for each
message, and comes back to it through the trap. -/
namespace Warpine.Vcpu
open Warpine.Lib Warpine.Guest Warpine.Loader Warpine.Pm

namespace VcpuState

/-- What other threads and waiting leave alone. -/
def share (state : VcpuState) (shared : DlgShared) (mem : GuestMemory) (memMgr : MemoryManager) :
    VcpuState :=
  { state with mem, memMgr, wm := shared.wm, shuttingDown := shared.shuttingDown }

def dlgShared (state : VcpuState) : DlgShared := ⟨state.wm, state.shuttingDown⟩

def leaveDlg (state : VcpuState) (home : Resume) (result : Nat) : VcpuState :=
  (state.resumeAt home).setRax result

/-- The registers are read again here, not taken from the frame. -/
def callDlgProc (state : VcpuState) (dlgProc : UInt32) (hwndDlg : Hwnd) (hmq : UInt32)
    (home : Resume) (message : OS2Message) : Option VcpuState :=
  (state.pushFrame home (.dlgRunLoop dlgProc hwndDlg hmq)).enterGuest dlgProc.toNat
    [message.hwnd.toNat, message.msg.toNat, message.mp1.toNat, message.mp2.toNat]

def popFrame (state : VcpuState) : VcpuState :=
  { state with callbackStack := state.callbackStack.tail }

/-- The result of a dialog that was dismissed. -/
def dismissedDlg (state : VcpuState) (hwndDlg : Hwnd) : Option UInt32 :=
  (state.wm.windows hwndDlg).bind fun win =>
    if win.dialogDismissed then some win.dialogResult else none

end VcpuState

/-- Turns that go on with the loop, between anything that the other threads do. -/
def GoesOn : DlgEvent → Prop
  | .turn _ taken => taken.result = none ∧ ∀ message, taken ≠ .dispatched message
  | .others => True

/-- The loop ends with a call of the dialog procedure, or with the return of the API
call that opened the dialog. -/
inductive SetupDlg (dlgProc : UInt32) (hwndDlg : Hwnd) (hmq : UInt32) (home : Resume)
    (start : VcpuState) : Option OS2Message → VcpuState → Prop where
  | noQueue (missing : start.wm.msgQueues hmq = none) :
      SetupDlg dlgProc hwndDlg hmq home start none (start.leaveDlg home didCancel)
  | left {events : List DlgEvent} {shared : DlgShared} {result : Nat} {mem : GuestMemory}
      {memMgr : MemoryManager} (queue : (start.wm.msgQueues hmq).isSome)
      (run : Run (DlgStep hwndDlg hmq) start.dlgShared events shared)
      (waits : ∀ event ∈ events, GoesOn event)
      (ends : (dlgTurn hwndDlg hmq shared).1.result = some result) :
      SetupDlg dlgProc hwndDlg hmq home start none
        ((start.share (dlgTurn hwndDlg hmq shared).2 mem memMgr).leaveDlg home result)
  | called {events : List DlgEvent} {shared : DlgShared} {message : OS2Message}
      {mem : GuestMemory} {memMgr : MemoryManager} {next : VcpuState}
      (queue : (start.wm.msgQueues hmq).isSome)
      (run : Run (DlgStep hwndDlg hmq) start.dlgShared events shared)
      (waits : ∀ event ∈ events, GoesOn event)
      (taken : (dlgTurn hwndDlg hmq shared).1 = .dispatched message)
      (calls : (start.share (dlgTurn hwndDlg hmq shared).2 mem memMgr).callDlgProc dlgProc hwndDlg
        hmq home message = some next) :
      SetupDlg dlgProc hwndDlg hmq home start (some message) next

variable {dlgProc : UInt32} {hwndDlg : Hwnd} {hmq : UInt32} {home : Resume}
  {start finish : VcpuState} {message : OS2Message}

theorem callDlgProc_eq_some (h : start.callDlgProc dlgProc hwndDlg hmq home message = some finish) :
    finish.callbackStack = ⟨home, .dlgRunLoop dlgProc hwndDlg hmq⟩ :: start.callbackStack ∧
      finish.regs.rsp + 20 = start.regs.rsp := by
  obtain ⟨hstack, _, hrsp⟩ := VcpuState.enterGuest_eq_some h
  exact ⟨hstack, hrsp⟩

/-- A call of the dialog procedure goes 20 bytes down from where the thread stands. -/
theorem setupDlg_called (h : SetupDlg dlgProc hwndDlg hmq home start (some message) finish) :
    finish.callbackStack = ⟨home, .dlgRunLoop dlgProc hwndDlg hmq⟩ :: start.callbackStack ∧
      finish.regs.rsp + 20 = start.regs.rsp := by
  cases h with
  | called queue run waits taken calls =>
    have pushed := callDlgProc_eq_some calls
    exact pushed

theorem setupDlg_left (h : SetupDlg dlgProc hwndDlg hmq home start none finish) :
    finish.callbackStack = start.callbackStack ∧
      (⟨finish.regs.rip, finish.regs.rsp⟩ : Resume) = home := by
  cases h <;> exact ⟨rfl, rfl⟩

/-- The guest is back at the trap from a callback: its `ret` took the return address,
and the callbacks inside have left the stack of frames as it was. -/
structure ReturnsToTrap (called back : VcpuState) : Prop where
  rip : back.regs.rip = callbackRetTrap
  rsp : back.regs.rsp = called.regs.rsp + 4
  frames : back.callbackStack = called.callbackStack

/-- The stack pointers at the calls of the dialog procedure, from the first on. -/
inductive DialogCalls (dlgProc : UInt32) (hwndDlg : Hwnd) (hmq : UInt32) (start : VcpuState) :
    List Nat → VcpuState → Prop where
  | first {home : Resume} {message : OS2Message} {called : VcpuState}
      (caller : start.caller = some home)
      (setup : SetupDlg dlgProc hwndDlg hmq home start (some message) called) :
      DialogCalls dlgProc hwndDlg hmq start [called.regs.rsp] called
  | next {sps : List Nat} {last back called : VcpuState} {frame : CallbackFrame}
      {message : OS2Message} (before : DialogCalls dlgProc hwndDlg hmq start sps last)
      (returns : ReturnsToTrap last back) (top : back.callbackStack.head? = some frame)
      (running : back.dismissedDlg hwndDlg = none)
      (setup : SetupDlg dlgProc hwndDlg hmq frame.saved back.popFrame (some message) called) :
      DialogCalls dlgProc hwndDlg hmq start (sps ++ [called.regs.rsp]) called

/-- Every message takes 16 bytes: 20 for its call, of which the return gives back 4. -/
theorem dialogCalls_descend {sps : List Nat}
    (run : DialogCalls dlgProc hwndDlg hmq start sps finish) :
    finish.regs.rsp + 16 * sps.length + 4 = start.regs.rsp ∧
      ∀ n sp : Nat, sps[n]? = some sp → sp + 16 * n + 20 = start.regs.rsp := by
  induction run with
  | first caller setup =>
    have hcall := (setupDlg_called setup).2
    refine ⟨by simp only [List.length_singleton]; omega, ?_⟩
    intro n sp hsp
    obtain ⟨rfl, rfl⟩ : n = 0 ∧ sp = _ := by simpa [List.getElem?_singleton, eq_comm] using hsp
    omega
  | @next sps last back called frame message before returns top running setup ih =>
    obtain ⟨hlast, hsps⟩ := ih
    have hcall : called.regs.rsp + 20 = back.regs.rsp := (setupDlg_called setup).2
    have hback := returns.rsp
    refine ⟨by rw [List.length_append, List.length_singleton]; omega, ?_⟩
    intro n sp hsp
    rw [List.getElem?_append] at hsp
    split at hsp
    · exact hsps n sp hsp
    · rename_i past
      obtain ⟨hn, rfl⟩ : n - sps.length = 0 ∧ sp = called.regs.rsp := by
        simpa [List.getElem?_singleton, eq_comm] using hsp
      omega

/-- The stack pointer is the same at every call of the dialog procedure exactly where
there is one call. -/
theorem dialog_stack_level {sps : List Nat}
    (run : DialogCalls dlgProc hwndDlg hmq start sps finish) :
    (∀ n sp : Nat, sps[n]? = some sp → sps[0]? = some sp) ↔ sps.length ≤ 1 := by
  have descend := (dialogCalls_descend run).2
  constructor
  · intro level
    by_contra many
    have hfirst : sps[0]? = some sps[0] := List.getElem?_eq_getElem (by omega)
    have hsecond : sps[1]? = some sps[1] := List.getElem?_eq_getElem (by omega)
    have hsame : sps[0] = sps[1] := Option.some.inj (hfirst.symm.trans (level 1 _ hsecond))
    have h0 := descend 0 _ hfirst
    have h1 := descend 1 _ hsecond
    omega
  · intro few n sp hsp
    have hn : n = 0 := by
      have := (List.getElem?_eq_some_iff.mp hsp).1
      omega
    exact hn ▸ hsp

/-- A thread that opens the dialog of the sample, at the top of a small memory. -/
def sampleThread : VcpuState where
  regs := ⟨magicApiBase, 0x1000, 0, 0, 0, 0, 0, 0, 0, 0⟩
  callbackStack := []
  mem := ⟨0x2000, fun _ => 0⟩
  memMgr := .new 0x2000000 0x2001000
  wm := (sampleDialog (.plain 0x1000 0x7A 0 0)).wm
  shuttingDown := false

/-- From any place of the sample the loop finds the message and calls the procedure. -/
theorem sample_call (home : Resume) (state : VcpuState) (regs : state.regs.rsp ≤ 0x2000)
    (room : 20 ≤ state.regs.rsp) (same : state.dlgShared = sampleThread.dlgShared)
    (size : state.mem.size = 0x2000) :
    ∃ called, SetupDlg 0x20000 0x1000 0x3000 home state (some (.plain 0x1000 0x7A 0 0)) called := by
  have taken : (dlgTurn 0x1000 0x3000 sampleThread.dlgShared).1 =
      .dispatched (.plain 0x1000 0x7A 0 0) := by decide
  have wm : state.wm = sampleThread.wm := congrArg DlgShared.wm same
  have queue : (state.wm.msgQueues 0x3000).isSome := by
    rw [wm]
    decide
  have calls : ((state.share (dlgTurn 0x1000 0x3000 state.dlgShared).2 state.mem
      state.memMgr).callDlgProc 0x20000 0x1000 0x3000 home (.plain 0x1000 0x7A 0 0)).isSome :=
    VcpuState.enterGuest_isSome room (size ▸ regs) (size ▸ by decide)
  obtain ⟨called, hcalled⟩ := Option.isSome_iff_exists.mp calls
  exact ⟨called, .called queue (.nil _) (by simp) (same ▸ taken) hcalled⟩

theorem sample_caller : sampleThread.caller = some ⟨0, 0x1004⟩ := by decide

/-- One message: the only call stands where the first one does. -/
theorem dialog_stack_level_once : ∃ called : VcpuState,
    ∀ n sp : Nat, [called.regs.rsp][n]? = some sp → [called.regs.rsp][0]? = some sp := by
  obtain ⟨called, setup⟩ := sample_call ⟨0, 0x1004⟩ sampleThread (by decide) (by decide) rfl rfl
  exact ⟨called, (dialog_stack_level (.first sample_caller setup)).mpr (by simp)⟩

/-- The second message finds the stack 16 bytes lower. -/
theorem dialog_stack_sinks : ¬∀ (dlgProc : UInt32) (hwndDlg : Hwnd) (hmq : UInt32)
    (start finish : VcpuState) (sps : List Nat),
    DialogCalls dlgProc hwndDlg hmq start sps finish →
      ∀ n sp : Nat, sps[n]? = some sp → sps[0]? = some sp := by
  intro all
  obtain ⟨called, setup⟩ := sample_call ⟨0, 0x1004⟩ sampleThread (by decide) (by decide) rfl rfl
  obtain ⟨hframes, hrsp⟩ := setupDlg_called setup
  have hcalled : called.regs.rsp + 20 = 0x1000 := hrsp
  let back : VcpuState := { sampleThread with
    regs := { called.regs with rip := callbackRetTrap, rsp := called.regs.rsp + 4 }
    callbackStack := called.callbackStack }
  have hback : back.regs.rsp = called.regs.rsp + 4 := rfl
  obtain ⟨again, setupAgain⟩ := sample_call ⟨0, 0x1004⟩ back.popFrame
    (by simp only [VcpuState.popFrame]; omega) (by simp only [VcpuState.popFrame]; omega) rfl rfl
  have hagain : again.regs.rsp + 20 = back.regs.rsp := (setupDlg_called setupAgain).2
  have top : back.callbackStack.head? =
      some ⟨⟨0, 0x1004⟩, .dlgRunLoop 0x20000 0x1000 0x3000⟩ := congrArg List.head? hframes
  have returns : ReturnsToTrap called back := ⟨rfl, rfl, rfl⟩
  have running : back.dismissedDlg 0x1000 = none := by
    have dialog : sampleThread.dismissedDlg 0x1000 = none := by decide
    exact dialog
  have run := DialogCalls.next (.first sample_caller setup) returns top running setupAgain
  have same := Option.some.inj (all _ _ _ _ _ _ run 1 again.regs.rsp rfl)
  omega

end Warpine.Vcpu
