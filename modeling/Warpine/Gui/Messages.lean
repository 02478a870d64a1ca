import Warpine.Gui.Overflow
import Warpine.Gui.RenderText
import Warpine.Pm.WindowManager

/-! Drawing messages, and what the renderer does with them. Each frame window has a buffer of
its own, which is made when the first message for it comes. -/
namespace Warpine.Gui
open Warpine.Lib Warpine.Pm

def fcfTitlebar : UInt32 := 0x00000001

def chromeTitleH : Int32 := 20

structure FrameBuffer where
  buffer : List UInt32
  width : UInt32
  height : UInt32
  size : buffer.length = width.toNat * height.toNat

namespace FrameBuffer

def new (width height : UInt32) : FrameBuffer where
  buffer := List.replicate (width.toNat * height.toNat) 0xFFFFFFFF
  width := width
  height := height
  size := List.length_replicate

/-- The same buffer with other pixels. -/
def redraw (fb : FrameBuffer) (after : Option (List UInt32))
    (keeps : ∀ buf, after = some buf → buf.length = fb.buffer.length) : Option FrameBuffer :=
  after.attach.map fun buf =>
    { fb with buffer := buf.1, size := (keeps buf.1 buf.2).trans fb.size }

variable {fb : FrameBuffer} {after : Option (List UInt32)}
  {keeps : ∀ buf, after = some buf → buf.length = fb.buffer.length}

theorem redraw_isSome : (fb.redraw after keeps).isSome = after.isSome := by
  rw [redraw, Option.isSome_map, Option.isSome_attach]

theorem redraw_sides {next : FrameBuffer} (h : fb.redraw after keeps = some next) :
    next.width = fb.width ∧ next.height = fb.height := by
  obtain ⟨buf, _, rfl⟩ := Option.map_eq_some_iff.mp h
  exact ⟨rfl, rfl⟩

end FrameBuffer

inductive GUIMessage where
  | drawBox (handle : Hwnd) (x1 y1 x2 y2 : Int32) (color : UInt32) (fill : Bool)
  | drawLine (handle : Hwnd) (x1 y1 x2 y2 : Int32) (color : UInt32)
  | drawText (handle : Hwnd) (x y : Int32) (text : List Char) (color : UInt32)

def GUIMessage.handle : GUIMessage → Hwnd
  | .drawBox handle .. => handle
  | .drawLine handle .. => handle
  | .drawText handle .. => handle

structure Sdl2Renderer where
  frameBuffers : Table Hwnd FrameBuffer
  desktopWidth : UInt32
  desktopHeight : UInt32

/-- The buffer after a message. A line takes so many turns of its loop. -/
def FrameBuffer.drawn (font : Font) (turns : Nat) (fb : FrameBuffer) :
    GUIMessage → Option FrameBuffer
  | .drawBox _ x1 y1 x2 y2 color fill =>
      fb.redraw (checkedRect fb.buffer fb.width.toNat fb.height.toNat x1.toInt y1.toInt x2.toInt
        y2.toInt color fill) fun _ => checkedRect_length
  | .drawLine _ x1 y1 x2 y2 color =>
      fb.redraw ((renderLineToBuffer turns fb.buffer fb.width.toNat fb.height.toNat x1.toInt
        y1.toInt x2.toInt y2.toInt color).map LineTrace.buf) fun _ drawn => by
          obtain ⟨trace, run, rfl⟩ := Option.map_eq_some_iff.mp drawn
          exact renderLineToBuffer_length fb.size run
  | .drawText _ x y text color =>
      fb.redraw (renderTextToBuffer fb.width.toNat fb.height.toNat x.toInt y.toInt color font text
        fb.buffer) fun _ => renderTextToBuffer_length

namespace Sdl2Renderer

/-- The size of a window's buffer: its client area, or the desktop. -/
def frameSize (renderer : Sdl2Renderer) (wm : WindowManager) (handle : Hwnd) : UInt32 × UInt32 :=
  match (wm.getWindow handle).filter fun win => decide (0 < win.cx) && decide (0 < win.cy) with
  | some win =>
      let titleH := if win.frameFlags &&& fcfTitlebar ≠ 0 then chromeTitleH else 0
      (win.cx.toUInt32, (max (win.cy - titleH) 1).toUInt32)
  | none => (renderer.desktopWidth, renderer.desktopHeight)

def getOrCreateFb (renderer : Sdl2Renderer) (wm : WindowManager) (handle : Hwnd) : FrameBuffer :=
  (renderer.frameBuffers handle).getD
    (.new (renderer.frameSize wm handle).1 (renderer.frameSize wm handle).2)

def handleMessage (font : Font) (turns : Nat) (wm : WindowManager) (renderer : Sdl2Renderer)
    (message : GUIMessage) : Option Sdl2Renderer := do
  let fb ← (renderer.getOrCreateFb wm message.handle).drawn font turns message
  return { renderer with frameBuffers := renderer.frameBuffers.insert message.handle fb }

end Sdl2Renderer

/-- What a message asks for fits the buffer. -/
def FrameBuffer.Fits (font : Font) (fb : FrameBuffer) : GUIMessage → Prop
  | .drawBox .. => BoxFits fb.width.toNat fb.height.toNat
  | .drawLine _ x1 y1 x2 y2 _ =>
      LineFits fb.width.toNat fb.height.toNat x1.toInt y1.toInt x2.toInt y2.toInt
  | .drawText _ x y text _ =>
      TextFits font fb.width.toNat fb.height.toNat x.toInt y.toInt text

theorem inI32_toInt (value : Int32) : InI32 value.toInt := ⟨value.le_toInt, value.toInt_lt⟩

section Messages

variable {font : Font} {turns : Nat} {wm : WindowManager} {renderer : Sdl2Renderer}
  {fb : FrameBuffer} {message : GUIMessage}

theorem drawBox_isSome (handle : Hwnd) (x1 y1 x2 y2 : Int32) (color : UInt32) (fill : Bool) :
    (fb.drawn font turns (.drawBox handle x1 y1 x2 y2 color fill)).isSome = true ↔
      BoxFits fb.width.toNat fb.height.toNat := by
  rw [FrameBuffer.drawn, FrameBuffer.redraw_isSome]
  exact checkedRect_isSome ⟨UInt32.toNat_lt _, UInt32.toNat_lt _⟩

theorem drawn_isSome_iff :
    (∀ turns, (fb.drawn font turns message).isSome = true) ↔ fb.Fits font message := by
  cases message with
  | drawBox handle x1 y1 x2 y2 color fill =>
    simp only [drawBox_isSome, forall_const]
    rfl
  | drawLine handle x1 y1 x2 y2 color =>
    simp only [FrameBuffer.drawn, FrameBuffer.redraw_isSome, Option.isSome_map]
    exact renderLineToBuffer_isSome ⟨inI32_toInt x1, inI32_toInt x2⟩
      ⟨inI32_toInt y1, inI32_toInt y2⟩ fb.size
  | drawText handle x y text color =>
    simp only [FrameBuffer.drawn, FrameBuffer.redraw_isSome,
      renderTextToBuffer_isSome fb.size (inI32_toInt x), forall_const]
    rfl

theorem drawn_sides {next : FrameBuffer} (h : fb.drawn font turns message = some next) :
    next.width = fb.width ∧ next.height = fb.height := by
  unfold FrameBuffer.drawn at h
  split at h
  · exact FrameBuffer.redraw_sides h
  · exact FrameBuffer.redraw_sides h
  · exact FrameBuffer.redraw_sides h

theorem handleMessage_isSome :
    (renderer.handleMessage font turns wm message).isSome =
      ((renderer.getOrCreateFb wm message.handle).drawn font turns message).isSome := by
  rw [Sdl2Renderer.handleMessage, Option.bind_eq_bind, Option.pure_def]
  cases (renderer.getOrCreateFb wm message.handle).drawn font turns message <;> rfl

/-- A message draws in its own window's buffer, whose sides stay. -/
theorem handleMessage_sides {next : Sdl2Renderer}
    (h : renderer.handleMessage font turns wm message = some next) :
    (next.getOrCreateFb wm message.handle).width =
        (renderer.getOrCreateFb wm message.handle).width ∧
      (next.getOrCreateFb wm message.handle).height =
        (renderer.getOrCreateFb wm message.handle).height := by
  rw [Sdl2Renderer.handleMessage, Option.bind_eq_bind, Option.bind_eq_some_iff] at h
  obtain ⟨fb, drawn, after⟩ := h
  rw [Option.pure_def, Option.some.injEq] at after
  subst after
  have sides := drawn_sides drawn
  unfold Sdl2Renderer.getOrCreateFb at sides ⊢
  dsimp only
  rw [Table.insert_self, Option.getD_some]
  exact sides

/-- Boxes of one window: their coordinates do not matter. -/
theorem boxes_isSome {frame : Hwnd} {messages : List GUIMessage}
    (boxes : ∀ message ∈ messages, ∃ x1 y1 x2 y2 color fill,
      message = .drawBox frame x1 y1 x2 y2 color fill) :
    (messages.foldlM (Sdl2Renderer.handleMessage font turns wm) renderer).isSome = true ↔
      (messages ≠ [] → BoxFits (renderer.getOrCreateFb wm frame).width.toNat
        (renderer.getOrCreateFb wm frame).height.toNat) := by
  have loop := @isSome_foldlM _ _ (Sdl2Renderer.handleMessage font turns wm)
    (fun now => (now.getOrCreateFb wm frame).width = (renderer.getOrCreateFb wm frame).width ∧
      (now.getOrCreateFb wm frame).height = (renderer.getOrCreateFb wm frame).height)
    (fun _ => BoxFits (renderer.getOrCreateFb wm frame).width.toNat
      (renderer.getOrCreateFb wm frame).height.toNat) messages renderer
    (by
      intro now message member next same handled
      obtain ⟨x1, y1, x2, y2, color, fill, rfl⟩ := boxes message member
      have sides := handleMessage_sides handled
      exact ⟨sides.1.trans same.1, sides.2.trans same.2⟩)
    (by
      intro now message member same
      obtain ⟨x1, y1, x2, y2, color, fill, rfl⟩ := boxes message member
      rw [handleMessage_isSome, drawBox_isSome]
      dsimp only [GUIMessage.handle]
      rw [same.1, same.2])
    ⟨rfl, rfl⟩
  rw [loop]
  constructor
  · intro all some_
    obtain ⟨message, member⟩ := List.exists_mem_of_ne_nil _ some_
    exact all message member
  · intro fits message member
    exact fits (List.ne_nil_of_mem member)

/-- A single message. -/
theorem single_isSome_iff :
    (∀ turns, ([message].foldlM (Sdl2Renderer.handleMessage font turns wm) renderer).isSome =
      true) ↔ (renderer.getOrCreateFb wm message.handle).Fits font message := by
  rw [← drawn_isSome_iff]
  apply forall_congr'
  intro turns
  rw [List.foldlM_cons, ← handleMessage_isSome, Option.bind_eq_bind]
  cases renderer.handleMessage font turns wm message <;> rfl

end Messages

end Warpine.Gui
