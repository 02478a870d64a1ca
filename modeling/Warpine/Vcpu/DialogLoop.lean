import Warpine.Lib.Run
import Warpine.Vcpu.Callbacks

/-! The message loop of a modal dialog. Each turn of the loop takes one message of the
thread's queue; the other threads may act between the turns. -/
namespace Warpine.Vcpu
open Warpine.Lib Warpine.Pm

/-- What the loop looks at, which the other threads share. -/
structure DlgShared where
  wm : WindowManager
  shuttingDown : Bool

inductive DlgTurn where
  | dismissed (result : UInt32)
  | destroyed
  | shutDown
  | quit (message : OS2Message)
  | painted (message : OS2Message)
  | dispatched (message : OS2Message)
  | waiting
deriving DecidableEq

namespace DlgTurn

/-- The result of the dialog, where the loop ends. -/
def result : DlgTurn → Option Nat
  | .dismissed result => some result.toNat
  | .destroyed | .shutDown | .quit _ => some didCancel
  | .painted _ | .dispatched _ | .waiting => none

/-- The message that the turn took. -/
def message : DlgTurn → Option OS2Message
  | .quit message | .painted message | .dispatched message => some message
  | .dismissed _ | .destroyed | .shutDown | .waiting => none

end DlgTurn

/-- How a message that was taken is treated. -/
def sortMessage (message : OS2Message) : DlgTurn :=
  if message.msg = wmQuit then .quit message
  else if message.msg = wmPaint then .painted message
  else .dispatched message

def takeMessage (shared : DlgShared) (hmq : UInt32) : DlgTurn × DlgShared :=
  match shared.wm.msgQueues hmq with
  | some (message :: rest) =>
      (sortMessage message,
        { shared with wm.msgQueues := shared.wm.msgQueues.insert hmq rest })
  | _ => (.waiting, shared)

def dlgTurn (hwndDlg : Hwnd) (hmq : UInt32) (shared : DlgShared) : DlgTurn × DlgShared :=
  match shared.wm.windows hwndDlg with
  | none => (.destroyed, shared)
  | some win =>
      if win.dialogDismissed then (.dismissed win.dialogResult, shared)
      else if shared.shuttingDown then (.shutDown, shared)
      else takeMessage shared hmq

/-- A turn, with the windows as it found them, or anything that others do. -/
inductive DlgEvent where
  | turn (wm : WindowManager) (taken : DlgTurn)
  | others

inductive DlgStep (hwndDlg : Hwnd) (hmq : UInt32) : Step DlgShared DlgEvent where
  | turn (shared : DlgShared) :
      DlgStep hwndDlg hmq shared (.turn shared.wm (dlgTurn hwndDlg hmq shared).1)
        (dlgTurn hwndDlg hmq shared).2
  | others (shared next : DlgShared) : DlgStep hwndDlg hmq shared .others next

section Delivery

inductive Recipient where
  | guest (proc : UInt32)
  | builtin
deriving DecidableEq

def ownProc (wm : WindowManager) (hwnd : Hwnd) : UInt32 :=
  ((wm.windows hwnd).map OS2Window.pfnWp).getD 0

/-- Where the loop of an application takes a message. -/
def winDispatchMsg (wm : WindowManager) (message : OS2Message) : Recipient :=
  if ownProc wm message.hwnd ≠ 0 then .guest (ownProc wm message.hwnd) else .builtin

/-- Where the turn took its message; a quit message goes nowhere. -/
def DlgTurn.recipient (dlgProc : UInt32) : DlgTurn → Option Recipient
  | .painted _ => some .builtin
  | .dispatched _ => some (.guest dlgProc)
  | _ => none

/-- The procedure of the window that a message is for. -/
def addressee (dlgProc : UInt32) (hwndDlg : Hwnd) (wm : WindowManager) (message : OS2Message) :
    Recipient :=
  if message.hwnd = hwndDlg then .guest dlgProc else winDispatchMsg wm message

/-- A message that the turn took went to the window it is for. -/
def DlgEvent.Delivered (dlgProc : UInt32) (hwndDlg : Hwnd) : DlgEvent → Prop
  | .turn wm taken => ∀ message, taken.message = some message →
      taken.recipient dlgProc = some (addressee dlgProc hwndDlg wm message)
  | .others => True

/-- The messages that the loop has a way for: paint messages of built-in windows, and
others of the dialog or of a window with the procedure of the dialog. -/
def OnItsWay (dlgProc : UInt32) (hwndDlg : Hwnd) (wm : WindowManager) (message : OS2Message) :
    Prop :=
  message.msg ≠ wmQuit ∧
    if message.msg = wmPaint then message.hwnd ≠ hwndDlg ∧ ownProc wm message.hwnd = 0
    else message.hwnd = hwndDlg ∨ dlgProc ≠ 0 ∧ ownProc wm message.hwnd = dlgProc

def DlgEvent.OnItsWay (dlgProc : UInt32) (hwndDlg : Hwnd) : DlgEvent → Prop
  | .turn wm taken => ∀ message, taken.message = some message →
      Vcpu.OnItsWay dlgProc hwndDlg wm message
  | .others => True

variable {dlgProc : UInt32} {hwndDlg : Hwnd} {hmq : UInt32}

@[simp] theorem sortMessage_message (message : OS2Message) :
    (sortMessage message).message = some message := by
  unfold sortMessage
  repeat' split
  all_goals rfl

/-- A turn that took a message sorted it by its number only. -/
theorem dlgTurn_message {shared : DlgShared} {message : OS2Message}
    (h : (dlgTurn hwndDlg hmq shared).1.message = some message) :
    (dlgTurn hwndDlg hmq shared).1 = sortMessage message := by
  unfold dlgTurn takeMessage at *
  repeat' split at h
  all_goals first | contradiction | skip
  rename_i win hwin hrunning hdown queue first rest hqueue
  simp_all

theorem recipient_sortMessage (wm : WindowManager) (message : OS2Message) :
    (sortMessage message).recipient dlgProc = some (addressee dlgProc hwndDlg wm message) ↔
      Vcpu.OnItsWay dlgProc hwndDlg wm message := by
  unfold sortMessage Vcpu.OnItsWay addressee winDispatchMsg
  by_cases hquit : message.msg = wmQuit
  · simp [hquit, DlgTurn.recipient]
  by_cases hpaint : message.msg = wmPaint
  · rw [if_neg hquit, if_pos hpaint, if_pos hpaint]
    by_cases hdlg : message.hwnd = hwndDlg
    · simp [hdlg, DlgTurn.recipient]
    · by_cases hown : ownProc wm message.hwnd = 0 <;> simp [hquit, hdlg, hown, DlgTurn.recipient]
  · rw [if_neg hquit, if_neg hpaint, if_neg hpaint]
    by_cases hdlg : message.hwnd = hwndDlg
    · simp [hquit, hdlg, DlgTurn.recipient]
    · by_cases hown : ownProc wm message.hwnd = 0
      · simp [hquit, hdlg, hown, DlgTurn.recipient, eq_comm]
      · simp only [hdlg, if_false, if_pos hown, DlgTurn.recipient, Option.some.injEq,
          Recipient.guest.injEq]
        grind

/-- One turn delivers its message exactly where the loop has a way for it. -/
theorem delivered_step {start finish : DlgShared} {event : DlgEvent}
    (step : DlgStep hwndDlg hmq start event finish) :
    event.Delivered dlgProc hwndDlg ↔ event.OnItsWay dlgProc hwndDlg := by
  cases step with
  | turn =>
    constructor
    · intro delivered message taken
      have here := delivered message taken
      rw [dlgTurn_message taken] at here
      exact (recipient_sortMessage start.wm message).mp here
    · intro way message taken
      rw [dlgTurn_message taken]
      exact (recipient_sortMessage start.wm message).mpr (way message taken)
  | others => exact Iff.rfl

/-- Over any messages, and whatever the other threads and the dialog procedure do
between them. -/
theorem dialog_delivers {start finish : DlgShared} {events : List DlgEvent}
    (run : Run (DlgStep hwndDlg hmq) start events finish) :
    (∀ event ∈ events, event.Delivered dlgProc hwndDlg) ↔
      ∀ event ∈ events, event.OnItsWay dlgProc hwndDlg := by
  induction run with
  | nil state => simp
  | cons first _ ih => rw [List.forall_mem_cons, List.forall_mem_cons, delivered_step first, ih]

end Delivery

/-- A dialog with a push button, and one message in the queue of the thread. -/
def sampleDialog (message : OS2Message) : DlgShared where
  wm :=
    let dialog := (WindowManager.new.createMq.2.createWindow "#Dialog" 0 0x3000).2
    (dialog.createWindow "WC_BUTTON" 0x1000 0x3000).2.post 0x3000 [message]
  shuttingDown := false

/-- A key for the dialog itself is delivered. -/
theorem dialog_delivers_key :
    (dlgTurn 0x1000 0x3000 (sampleDialog (.plain 0x1000 0x7A 0 0))).1 =
        .dispatched (.plain 0x1000 0x7A 0 0) ∧
      (DlgEvent.turn (sampleDialog (.plain 0x1000 0x7A 0 0)).wm
        (.dispatched (.plain 0x1000 0x7A 0 0))).Delivered 0x20000 0x1000 := by
  have taken : (dlgTurn 0x1000 0x3000 (sampleDialog (.plain 0x1000 0x7A 0 0))).1 =
      .dispatched (.plain 0x1000 0x7A 0 0) := by decide
  refine ⟨taken, ?_⟩
  rw [← taken]
  refine (dialog_delivers (.cons (.turn _) (.nil _))).mpr ?_ _ List.mem_cons_self
  intro event member
  obtain rfl := List.mem_singleton.mp member
  rw [taken]
  intro message same
  obtain rfl := Option.some.inj same
  exact ⟨by decide, .inl rfl⟩

/-- A key for the button goes to the dialog procedure. -/
theorem button_key_misdelivered : ¬∀ (dlgProc : UInt32) (hwndDlg : Hwnd) (hmq : UInt32)
    (start finish : DlgShared) (events : List DlgEvent), Run (DlgStep hwndDlg hmq) start events finish →
      ∀ event ∈ events, event.Delivered dlgProc hwndDlg := by
  intro all
  have delivered := all 0x20000 0x1000 0x3000 (sampleDialog (.plain 0x1001 0x7A 0 0)) _ _
    (.cons (.turn _) (.nil _)) _ List.mem_cons_self (.plain 0x1001 0x7A 0 0) (by decide)
  revert delivered
  decide

end Warpine.Vcpu
