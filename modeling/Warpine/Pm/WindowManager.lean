import Warpine.Lib.Dict
import Warpine.Lib.Table
import Mathlib.Data.Finset.Basic
import Mathlib.Data.Finset.Insert

/-! Presentation Manager windows: their records, their queues, and the stack of
top-level windows from the bottom to the top. -/
namespace Warpine.Pm
open Warpine.Lib

abbrev Hwnd := UInt32

def wmCreate : UInt32 := 0x0001
def wmInitdlg : UInt32 := 0x0021
def wmPaint : UInt32 := 0x0023
def wmQuit : UInt32 := 0x002A
def wmActivate : UInt32 := 0x0042
def wsVisible : UInt32 := 0x80000000

structure OS2Message where
  hwnd : Hwnd
  msg : UInt32
  mp1 : UInt32
  mp2 : UInt32
  time : UInt32
  x : Int16
  y : Int16
deriving DecidableEq

/-- A message that only names its window and its parameters. -/
def OS2Message.plain (hwnd : Hwnd) (msg mp1 mp2 : UInt32) : OS2Message where
  hwnd := hwnd
  msg := msg
  mp1 := mp1
  mp2 := mp2
  time := 0
  x := 0
  y := 0

structure WindowClass where
  name : String
  pfnWp : UInt32
  style : UInt32

structure OS2Window where
  handle : Hwnd
  className : String
  pfnWp : UInt32
  parent : Hwnd
  hmq : UInt32
  text : String
  id : UInt32
  children : List Hwnd
  x : Int32
  y : Int32
  cx : Int32
  cy : Int32
  visible : Bool
  style : UInt32
  dialogDismissed : Bool
  dialogResult : UInt32
  frameFlags : UInt32

structure WindowManager where
  classes : Table String WindowClass
  windows : Table Hwnd OS2Window
  msgQueues : Table UInt32 (List OS2Message)
  frameToClient : Dict Hwnd Hwnd
  tidToHmq : Dict UInt32 UInt32
  timers : Table (Hwnd × UInt32) Unit
  windowAccel : Table Hwnd UInt32
  nextHwnd : Hwnd
  nextHmq : UInt32
  zOrder : List Hwnd
  focusedHwnd : Hwnd
  dirty : Finset Hwnd

namespace WindowManager

def new : WindowManager where
  classes := .empty
  windows := .empty
  msgQueues := .empty
  frameToClient := []
  tidToHmq := []
  timers := .empty
  windowAccel := .empty
  nextHwnd := 0x1000
  nextHmq := 0x3000
  zOrder := []
  focusedHwnd := 0
  dirty := ∅

variable (wm : WindowManager)

def registerClass (name : String) (pfnWp style : UInt32) : WindowManager :=
  { wm with classes := wm.classes.insert name ⟨name, pfnWp, style⟩ }

def getWindow (hwnd : Hwnd) : Option OS2Window := wm.windows hwnd

def modifyWindow (hwnd : Hwnd) (f : OS2Window → OS2Window) : WindowManager :=
  match wm.windows hwnd with
  | some win => { wm with windows := wm.windows.insert hwnd (f win) }
  | none => wm

/-- The parent need not exist. -/
def createWindow (className : String) (parent : Hwnd) (hmq : UInt32) : Hwnd × WindowManager :=
  let h := wm.nextHwnd
  let win : OS2Window := {
    handle := h
    className
    pfnWp := ((wm.classes className).map WindowClass.pfnWp).getD 0
    parent
    hmq
    text := ""
    id := 0
    children := []
    x := 0
    y := 0
    cx := 0
    cy := 0
    visible := false
    style := 0
    dialogDismissed := false
    dialogResult := 0
    frameFlags := 0 }
  let wm := { wm with windows := wm.windows.insert h win }
  let wm := if parent ≠ 0 then
      wm.modifyWindow parent fun p => { p with children := p.children ++ [h] }
    else wm
  (h, { wm with nextHwnd := wm.nextHwnd + 1 })

def createMq : UInt32 × WindowManager :=
  (wm.nextHmq,
    { wm with msgQueues := wm.msgQueues.insert wm.nextHmq [], nextHmq := wm.nextHmq + 1 })

def getMq (hmq : UInt32) : Option (List OS2Message) := wm.msgQueues hmq

def threadMq (tid : UInt32) : UInt32 := (wm.tidToHmq.get tid).getD 0

/-- A window without a queue of its own takes any that a thread has. -/
def findHmqForHwnd (hwnd : Hwnd) : Option UInt32 :=
  let any := (wm.tidToHmq.find? fun entry => (wm.msgQueues entry.2).isSome).map Prod.snd
  match wm.windows hwnd with
  | some win => if win.hmq ≠ 0 then some win.hmq else any
  | none => any

/-- Appends to a queue, if there is one. -/
def post (hmq : UInt32) (messages : List OS2Message) : WindowManager :=
  match wm.msgQueues hmq with
  | some queue => { wm with msgQueues := wm.msgQueues.insert hmq (queue ++ messages) }
  | none => wm

def postTo (hwnd : Hwnd) (message : OS2Message) : WindowManager :=
  match wm.findHmqForHwnd hwnd with
  | some hmq => wm.post hmq [message]
  | none => wm

def clientToFrame (client : Hwnd) : Hwnd :=
  ((wm.frameToClient.find? fun entry => entry.2 = client).map Prod.fst).getD client

def setWindowAccel (hwnd : Hwnd) (haccel : UInt32) : WindowManager :=
  if haccel = 0 then { wm with windowAccel := wm.windowAccel.erase hwnd }
  else { wm with windowAccel := wm.windowAccel.insert hwnd haccel }

def findChildById (parent : Hwnd) (id : UInt32) : Option Hwnd :=
  (wm.windows parent).bind fun win =>
    win.children.find? fun child => (wm.windows child).any fun c => c.id = id

def markDirty (hwnd : Hwnd) : WindowManager := { wm with dirty := insert hwnd wm.dirty }

def markAllDirty : WindowManager := { wm with dirty := wm.dirty ∪ wm.zOrder.toFinset }

def zPushTop (frame : Hwnd) : WindowManager :=
  let zOrder :=
    if frame ∈ wm.zOrder then wm.zOrder.filter (· ≠ frame) ++ [frame]
    else wm.zOrder ++ [frame]
  { wm with zOrder }.markAllDirty

/-- Focus falls to the window that is on top then. -/
def zRemove (frame : Hwnd) : WindowManager :=
  let zOrder := wm.zOrder.filter (· ≠ frame)
  let focusedHwnd :=
    if wm.focusedHwnd = frame then zOrder.getLast?.getD 0 else wm.focusedHwnd
  { wm with zOrder, focusedHwnd }.markAllDirty

def zPushBottom (frame : Hwnd) : WindowManager :=
  { wm with zOrder := frame :: wm.zOrder.filter (· ≠ frame) }.markAllDirty

def zInsertBehind (frame behind : Hwnd) : WindowManager :=
  let rest := wm.zOrder.filter (· ≠ frame)
  let zOrder := match rest.findIdx? (· = behind) with
    | some pos => rest.take pos ++ frame :: rest.drop pos
    | none => rest ++ [frame]
  { wm with zOrder }.markAllDirty

/-- The topmost visible window at a point. -/
def zHitTest (px py : Int32) : Option Hwnd :=
  wm.zOrder.reverse.find? fun hwnd => (wm.windows hwnd).any fun win =>
    win.visible && decide (win.x ≤ px) && decide (px < win.x + win.cx) &&
      decide (win.y ≤ py) && decide (py < win.y + win.cy)

end WindowManager
end Warpine.Pm
