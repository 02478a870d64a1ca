import Warpine.Pm.WindowManager

/-! The calls of the window API, as they change the windows of the process. A call
takes the values that it reads from the guest's stack. -/
namespace Warpine.Pm
open Warpine.Lib

def swpSize : UInt32 := 0x0001
def swpMove : UInt32 := 0x0002
def swpZorder : UInt32 := 0x0004
def swpShow : UInt32 := 0x0008
def swpHide : UInt32 := 0x0010
def swpActivate : UInt32 := 0x0020

def hwndTop : Hwnd := 1
def hwndBottom : Hwnd := 2
def hwndFloat : Hwnd := 3

def fcfTitlebar : UInt32 := 0x00000001
def chromeTitleH : Int32 := 20

structure DlgItem where
  x : Int16
  y : Int16
  cx : Int16
  cy : Int16
  id : UInt16
  flStyle : UInt32
  className : String
  text : String

structure DlgTemplate where
  x : Int16
  y : Int16
  cx : Int16
  cy : Int16
  title : String
  items : List DlgItem

namespace WindowManager

variable (wm : WindowManager)

def focus (hwnd : Hwnd) : WindowManager := { wm with focusedHwnd := hwnd }

def linkClient (frame client : Hwnd) : WindowManager :=
  { wm with frameToClient := wm.frameToClient.insert frame client }

def winCreateMsgQueue (tid : UInt32) : WindowManager :=
  let (hmq, wm) := wm.createMq
  { wm with tidToHmq := wm.tidToHmq.insert tid hmq }

/-- A frame and its client window. -/
def winCreateStdWindow (tid : UInt32) (parent : Hwnd) (style flCreateFlags : UInt32)
    (className title : String) : (Hwnd × Hwnd) × WindowManager :=
  let hmq := wm.threadMq tid
  let (hFrame, wm) := wm.createWindow className parent hmq
  let (hClient, wm) := wm.createWindow className hFrame hmq
  let wm := wm.linkClient hFrame hClient
  let wm := wm.modifyWindow hFrame fun win => { win with
    cx := 640
    cy := 480
    frameFlags := flCreateFlags
    visible := style &&& wsVisible ≠ 0
    text := title }
  let clientCy := if flCreateFlags &&& fcfTitlebar ≠ 0 then 480 - chromeTitleH else 480
  let wm := wm.modifyWindow hClient fun win => { win with cx := 640, cy := clientCy }
  let wm := (wm.zPushTop hFrame).focus hFrame
  ((hFrame, hClient), wm.post (wm.threadMq tid) [.plain hClient wmPaint 0 0])

def winCreateWindow (tid : UInt32) (parent : Hwnd) (className text : String)
    (flStyle : UInt32) (x y cx cy : Int32) (id : UInt32) : Hwnd × WindowManager :=
  let (h, wm) := wm.createWindow className parent (wm.threadMq tid)
  let visible := flStyle &&& wsVisible ≠ 0
  let wm := wm.modifyWindow h fun win => { win with
    text, x, y, cx, cy, id, style := flStyle, visible }
  (h, if visible then wm.post (wm.threadMq tid) [.plain h wmPaint 0 0] else wm)

/-- One control of a dialog. -/
def createDlgItem (dlg : Hwnd) (hmq : UInt32) (item : DlgItem) : WindowManager :=
  let className := if item.className.isEmpty then "WC_STATIC" else item.className
  let (ch, wm) := wm.createWindow className dlg hmq
  wm.modifyWindow ch fun win => { win with
    text := item.text
    x := item.x.toInt32
    y := item.y.toInt32
    cx := item.cx.toInt32
    cy := item.cy.toInt32
    id := item.id.toUInt32
    style := item.flStyle
    visible := item.flStyle &&& wsVisible ≠ 0 }

def createDialogFromTemplate (tid : UInt32) (parent : Hwnd) (pfnDlgProc : UInt32)
    (template : DlgTemplate) : Hwnd × WindowManager :=
  let hmq := wm.threadMq tid
  let (h, wm) := wm.createWindow "#Dialog" parent hmq
  let wm := wm.modifyWindow h fun win => { win with
    text := template.title
    pfnWp := pfnDlgProc
    x := template.x.toInt32
    y := template.y.toInt32
    cx := template.cx.toInt32
    cy := template.cy.toInt32
    visible := true }
  let wm := wm.zPushTop h
  (h, template.items.foldl (fun wm item => wm.createDlgItem h hmq item) wm)

/-- A template that is missing or does not parse gives a bare dialog, which stays out
of the stack. -/
def winLoadDlg (tid : UInt32) (parent : Hwnd) (pfnDlgProc : UInt32)
    (template : Option DlgTemplate) (pCreateParams : UInt32) : Hwnd × WindowManager :=
  let hmq := wm.threadMq tid
  let (h, wm) := match template with
    | some template => wm.createDialogFromTemplate tid parent pfnDlgProc template
    | none =>
        let (h, wm) := wm.createWindow "#Dialog" parent hmq
        (h, wm.modifyWindow h fun win => { win with pfnWp := pfnDlgProc })
  let firstChild := ((wm.windows h).bind fun win => win.children.head?).getD 0
  let messages := [.plain h wmInitdlg firstChild pCreateParams, .plain h wmPaint 0 0]
  (h, if hmq ≠ 0 then wm.post hmq messages else wm)

/-- Up to the message loop. -/
def winDlgBox (tid : UInt32) (parent : Hwnd) (pfnDlgProc : UInt32)
    (template : Option DlgTemplate) (pCreateParams : UInt32) : Option (Hwnd × WindowManager) :=
  if pfnDlgProc = 0 then none
  else some (wm.winLoadDlg tid parent pfnDlgProc template pCreateParams)

def isFrame (hwnd : Hwnd) : Bool := wm.frameToClient.contains hwnd

/-- Place in the stack; the first three handles are not windows. -/
def placeBehind (hwnd behind : Hwnd) : WindowManager :=
  if behind = hwndTop ∨ behind = hwndFloat then wm.zPushTop hwnd
  else if behind = hwndBottom then wm.zPushBottom hwnd
  else if behind = 0 then wm
  else wm.zInsertBehind hwnd behind

def winSetWindowPos (hwnd behind : Hwnd) (x y cx cy : Int32) (fl : UInt32) : WindowManager :=
  let wm := wm.modifyWindow hwnd fun win =>
    let win := if fl &&& swpMove ≠ 0 then { win with x, y } else win
    let win := if fl &&& swpSize ≠ 0 then { win with cx, cy } else win
    let win := if fl &&& swpShow ≠ 0 then { win with visible := true } else win
    if fl &&& swpHide ≠ 0 then { win with visible := false } else win
  let wm := if fl &&& swpZorder ≠ 0 ∧ wm.isFrame hwnd then wm.placeBehind hwnd behind else wm
  let wm :=
    if fl &&& swpActivate ≠ 0 ∧ wm.isFrame hwnd then (wm.focus hwnd).zPushTop hwnd else wm
  if fl &&& (swpMove ||| swpSize ||| swpShow ||| swpHide ||| swpActivate) ≠ 0 then wm.markDirty hwnd
  else wm

def winSetActiveWindow (hwnd : Hwnd) : WindowManager :=
  let candidate := wm.clientToFrame hwnd
  let frame := if wm.isFrame candidate then candidate else hwnd
  let prev := wm.focusedHwnd
  if wm.isFrame frame then
    let wm := (wm.focus frame).zPushTop frame
    if frame ≠ 0 ∧ prev ≠ frame then
      let wm := if prev ≠ 0 then wm.postTo prev (.plain prev wmActivate 0 frame) else wm
      wm.postTo frame (.plain frame wmActivate 1 prev)
    else wm
  else wm

def winShowWindow (hwnd : Hwnd) (show' : Bool) : WindowManager :=
  (wm.modifyWindow hwnd fun win => { win with visible := show' }).markDirty hwnd

/-- Only frames are cleaned up. -/
def winDestroyWindow (hwnd : Hwnd) : WindowManager :=
  if wm.isFrame hwnd then
    { wm.zRemove hwnd with frameToClient := wm.frameToClient.erase hwnd }
  else wm

def winStartTimer (hwnd : Hwnd) (idTimer : UInt32) : WindowManager :=
  { wm with timers := wm.timers.insert (hwnd, idTimer) () }

def winStopTimer (hwnd : Hwnd) (idTimer : UInt32) : WindowManager :=
  { wm with timers := wm.timers.erase (hwnd, idTimer) }

def winSubclassWindow (hwnd : Hwnd) (pfnWp : UInt32) : WindowManager :=
  wm.modifyWindow hwnd fun win => { win with pfnWp }

def winDismissDlg (hwnd : Hwnd) (result : UInt32) : WindowManager :=
  wm.modifyWindow hwnd fun win => { win with dialogDismissed := true, dialogResult := result }

def winPostMsg (hwnd : Hwnd) (msg mp1 mp2 : UInt32) : WindowManager :=
  wm.postTo hwnd (.plain hwnd msg mp1 mp2)

end WindowManager
end Warpine.Pm
