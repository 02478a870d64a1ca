import Warpine.Gui.Messages
import Warpine.Lib.Writes

/-! The desktop as it is made up from the frames, which are painted from the bottom of their
stack to the top: the content of each, then its title bar and its border. Rows count from the
top of the screen here, and arithmetic is that of the release build. -/
namespace Warpine.Gui
open Warpine.Lib Warpine.Pm

def fcfSysmenu : UInt32 := 0x00000002
def fcfSizeborder : UInt32 := 0x00000008
def fcfMinbutton : UInt32 := 0x00000010
def fcfMaxbutton : UInt32 := 0x00000020
def fcfDlgborder : UInt32 := 0x00000100
def fcfBorder : UInt32 := 0x00000200

def desktopBg : UInt32 := 0x00408040
def chromeBorderW : Int32 := 2
def chromeBtnW : Int32 := 16
def chromeBtnGap : Int32 := 2
def chromeBtnMargin : Int32 := 2
def chromeTitleActive : UInt32 := 0x00000080
def chromeTitleInactive : UInt32 := 0x00404040
def chromeTextColor : UInt32 := 0x00FFFFFF
def chromeBorderColor : UInt32 := 0x00808080

/-- `value as usize`, for an `i32`. -/
def asUsize (value : Int32) : Nat := (value.toInt % 2 ^ 64).toNat

/-- A pixel is known by the frame in whose turn it was painted. -/
inductive DesktopPixel where
  | background
  | painted (frame : Hwnd) (color : UInt32)

namespace DesktopPixel

def color : DesktopPixel → UInt32
  | .background => desktopBg
  | .painted _ color => color

def frame : DesktopPixel → Option Hwnd
  | .background => none
  | .painted frame _ => some frame

end DesktopPixel

/-- The window system gives sizes as signed numbers, and no textures without pixels. -/
structure DesktopCanvas where
  buffer : List DesktopPixel
  width : UInt32
  height : UInt32
  sides : (0 < width.toNat ∧ width.toNat < 2 ^ 31) ∧ 0 < height.toNat ∧ height.toNat < 2 ^ 31
  size : buffer.length = height.toNat * width.toNat

namespace DesktopCanvas

def dw (desktop : DesktopCanvas) : Nat := desktop.width.toNat
def dh (desktop : DesktopCanvas) : Int32 := desktop.height.toInt32

/-- The same canvas with other pixels. -/
def redraw (desktop : DesktopCanvas) (after : Option (List DesktopPixel))
    (keeps : ∀ buf, after = some buf → buf.length = desktop.buffer.length) :
    Option DesktopCanvas :=
  after.attach.map fun buf =>
    { desktop with buffer := buf.1, size := (keeps buf.1 buf.2).trans desktop.size }

end DesktopCanvas

structure FrameSnap where
  hwnd : Hwnd
  x : Int32
  y : Int32
  cx : Int32
  cy : Int32
  visible : Bool
  frameFlags : UInt32
  title : List Char
  isFocused : Bool

section Draw

variable (font : Font) (desktop : DesktopCanvas)

def drawTextScreen (sx sy : Int32) (text : List Char) (color : UInt32) : List (Write UInt32) :=
  text.zipIdx.flatMap fun ch =>
    (font ch.1).toList.zipIdx.flatMap fun bits =>
      let py := sy + Int32.ofNat bits.2
      if py < 0 ∨ desktop.dh ≤ py then []
      else (List.range 8).flatMap fun col =>
        let px := sx + Int32.ofNat ch.2 * 8 + Int32.ofNat col
        let idx := asUsize py * desktop.dw + asUsize px
        if hasInk bits.1 col ∧ (0 ≤ px ∧ px < Int32.ofNat desktop.dw) ∧
            idx < desktop.buffer.length then [(idx, some color)]
        else []

def drawFilledRect (x0 y0 x1 y1 : Int32) (color : UInt32) : List (Write UInt32) :=
  let bufH := desktop.buffer.length / max desktop.dw 1
  let rx0 := asUsize (max x0 0)
  let ry0 := asUsize (max y0 0)
  let rx1 := asUsize (max (min x1 (Int32.ofNat desktop.dw)) 0)
  let ry1 := asUsize (max (min y1 (Int32.ofNat bufH)) 0)
  block desktop.dw ry0 ry1 rx0 rx1 color

end Draw

namespace FrameSnap

variable (font : Font) (desktop : DesktopCanvas) (snap : FrameSnap)

/-- Whether one of these flags is set. -/
def Has (flags : UInt32) : Prop := snap.frameFlags &&& flags ≠ 0

instance (flags : UInt32) : Decidable (snap.Has flags) := inferInstanceAs (Decidable (_ ≠ _))

def titleH : Int32 := if snap.Has fcfTitlebar then chromeTitleH else 0

def borderW : Int32 :=
  if snap.Has (fcfBorder ||| fcfDlgborder ||| fcfSizeborder) then chromeBorderW else 0

def dstTopY : Int32 := desktop.dh - snap.y - snap.cy

def contentTopY : Int32 := snap.dstTopY desktop + snap.titleH

def contentLeftX : Int32 := snap.x + snap.borderW

/-- So many rows or columns of a buffer as the window has and the desktop could show. -/
def blitLength (size : UInt32) (extent limit first : Int32) : Int32 :=
  min (min size.toInt32 extent) (limit - max first 0)

def blitH (fb : FrameBuffer) : Int32 :=
  blitLength fb.height (snap.cy - snap.titleH) desktop.dh (snap.contentTopY desktop)

def blitW (fb : FrameBuffer) : Int32 :=
  blitLength fb.width (snap.cx - snap.borderW * 2) (Int32.ofNat desktop.dw) snap.contentLeftX

def blit (fb : FrameBuffer) : List (Write UInt32) :=
  if 0 < snap.blitH desktop fb ∧ 0 < snap.blitW desktop fb then
    (List.range (asUsize (snap.blitH desktop fb))).flatMap fun py =>
      let dy := snap.contentTopY desktop + Int32.ofNat py
      if dy < 0 ∨ desktop.dh ≤ dy then []
      else (List.range (asUsize (snap.blitW desktop fb))).flatMap fun px =>
        let dx := snap.contentLeftX + Int32.ofNat px
        if dx < 0 ∨ Int32.ofNat desktop.dw ≤ dx then []
        else [(asUsize dy * desktop.dw + asUsize dx, fb.buffer[py * fb.width.toNat + px]?)]
  else []

/-- The loops are over signed numbers; they start at zero or above. -/
def titleBlock : List (Write UInt32) :=
  let titleColor := if snap.isFocused then chromeTitleActive else chromeTitleInactive
  let x0 := max snap.x 0
  let x1 := min (snap.x + snap.cx) (Int32.ofNat desktop.dw)
  let y0 := max (snap.dstTopY desktop) 0
  let y1 := min (snap.dstTopY desktop + snap.titleH) desktop.dh
  block desktop.dw y0.toNatClampNeg y1.toNatClampNeg x0.toNatClampNeg x1.toNatClampNeg titleColor

def sysmenuIcon : List (Write UInt32) :=
  if snap.Has fcfSysmenu then
    drawFilledRect desktop (snap.x + 3) (snap.dstTopY desktop + 3) (snap.x + 3 + chromeBtnW)
      (snap.dstTopY desktop + snap.titleH - 3) 0x00C0C0C0
  else []

def textLeft : Int32 :=
  if snap.Has fcfSysmenu then snap.x + 3 + chromeBtnW + 4 else snap.x + 4

def textY : Int32 := snap.dstTopY desktop + (snap.titleH - 8) / 2

/-- Where the buttons are: the close button, then those that make the window larger and
smaller, from the right to the left. -/
def closeX : Int32 := snap.x + snap.cx - chromeBtnMargin - chromeBtnW

def maxX : Int32 := snap.closeX - (chromeBtnW + chromeBtnGap)

def minX : Int32 :=
  if snap.Has fcfMaxbutton then snap.maxX - (chromeBtnW + chromeBtnGap) else snap.maxX

/-- A text in the title bar. -/
def drawTitle (sx : Int32) (text : List Char) : List (Write UInt32) :=
  drawTextScreen font desktop sx (snap.textY desktop) text chromeTextColor

def buttons : List (Write UInt32) :=
  snap.drawTitle font desktop snap.closeX ['×'] ++
    (if snap.Has fcfMaxbutton then snap.drawTitle font desktop snap.maxX ['^'] else []) ++
      if snap.Has fcfMinbutton then snap.drawTitle font desktop snap.minX ['_'] else []

def titleBar : List (Write UInt32) :=
  if 0 < snap.titleH then
    snap.titleBlock desktop ++ snap.sysmenuIcon desktop ++
      snap.drawTitle font desktop snap.textLeft snap.title ++ snap.buttons font desktop
  else []

/-- The edges of the border on the desktop. A far edge below zero becomes a huge number. -/
def bx0 : Nat := asUsize (max snap.x 0)
def bx1 : Nat := asUsize (min (snap.x + snap.cx) (Int32.ofNat desktop.dw))
def by0 : Nat := asUsize (max (snap.dstTopY desktop) 0)
def by1 : Nat := asUsize (min (snap.dstTopY desktop + snap.cy) desktop.dh)

/-- The edges of the border, so many lines in from the outermost ones. -/
def borderLines (i : Nat) : List (Write UInt32) :=
  let row (ty : Nat) :=
    block desktop.dw ty (ty + 1) snap.bx0 (snap.bx1 desktop) chromeBorderColor
  let column (tx : Nat) :=
    block desktop.dw (snap.by0 desktop) (snap.by1 desktop) tx (tx + 1) chromeBorderColor
  let ty := snap.by0 desktop + i
  let by_ := snap.by1 desktop - (1 + i)
  let lx := snap.bx0 + i
  let rx := snap.bx1 desktop - (1 + i)
  (if ty < snap.by1 desktop then row ty else []) ++
    (if snap.by0 desktop ≤ by_ then row by_ else []) ++
      (if lx < snap.bx1 desktop then column lx else []) ++
        if snap.bx0 ≤ rx then column rx else []

def border : List (Write UInt32) :=
  if 0 < snap.borderW then (List.range (asUsize snap.borderW)).flatMap (snap.borderLines desktop)
  else []

def paint (fb : FrameBuffer) : List (Write UInt32) :=
  snap.blit desktop fb ++ snap.titleBar font desktop ++ snap.border desktop

end FrameSnap

structure Compositor where
  desktop : DesktopCanvas
  frameBuffers : Table Hwnd FrameBuffer
  dragging : Bool
  resizing : Bool

def frameSnap (wm : WindowManager) (hwnd : Hwnd) : Option FrameSnap :=
  (wm.getWindow hwnd).map fun w => {
    hwnd
    x := w.x
    y := w.y
    cx := w.cx
    cy := w.cy
    visible := w.visible
    frameFlags := w.frameFlags
    title := w.text.toList
    isFocused := hwnd == wm.focusedHwnd }

namespace Compositor

variable (font : Font) (compositor : Compositor)

/-- A frame that is hidden or has no buffer is passed over. -/
def turn (snap : FrameSnap) : List (Write DesktopPixel) :=
  if snap.visible then
    match compositor.frameBuffers snap.hwnd with
    | some fb => (snap.paint font compositor.desktop fb).map (Write.map (.painted snap.hwnd))
    | none => []
  else []

def composite (wm : WindowManager) : Option (List DesktopPixel) :=
  writeTurns (wm.zOrder.filterMap (frameSnap wm)) (compositor.turn font)
    (compositor.desktop.buffer.map fun _ => .background)

theorem composite_length {wm : WindowManager} {buf : List DesktopPixel}
    (h : compositor.composite font wm = some buf) :
    buf.length = compositor.desktop.buffer.length := by
  rw [writeTurns_length h, List.length_map]

/-- Nothing has changed, and nothing is being moved. -/
def Idle (wm : WindowManager) : Prop :=
  wm.dirty = ∅ ∧ compositor.dragging = false ∧ compositor.resizing = false

instance (wm : WindowManager) : Decidable (compositor.Idle wm) :=
  inferInstanceAs (Decidable (_ ∧ _))

def compositeAndPresent (wm : WindowManager) : Option (Compositor × WindowManager) :=
  if compositor.Idle wm then some (compositor, wm)
  else
    (compositor.desktop.redraw (compositor.composite font wm) fun _ =>
      compositor.composite_length font).map fun desktop =>
        ({ compositor with desktop }, { wm with dirty := ∅ })

end Compositor
end Warpine.Gui
