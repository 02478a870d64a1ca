import Warpine.Guest.Memory
import Warpine.Gui.Messages
import Warpine.Loader.Codepage

/-! The drawing calls. Coordinates are what the guest gives; addresses wrap, and an overflow of
a coordinate is a panic. -/
namespace Warpine.Loader
open Warpine.Lib Warpine.Guest Warpine.Gui Warpine.Pm

abbrev Hps := UInt32

structure PresentationSpace where
  hwnd : Hwnd
  color : UInt32
  currentPos : Int32 × Int32

structure Gpi where
  guestMem : GuestMemory
  activeCodepage : Nat
  wm : WindowManager
  psMap : Table Hps PresentationSpace
  guiTx : Bool

inductive GpiCall where
  | move (hps : Hps) (pptl : UInt32)
  | box (hps : Hps) (control pptl : UInt32)
  | line (hps : Hps) (pptl : UInt32)
  | charStringAt (hps : Hps) (pptl count pch : UInt32)
  | charString (hps : Hps) (count pch : UInt32)
  | fullArc (hps : Hps) (control : UInt32)

def checked (value : Int) : Option Int32 := (i32 value).map Int32.ofInt

namespace Gpi

def readLong (gpi : Gpi) (addr : UInt32) : Int32 :=
  (UInt32.ofNat ((gpi.guestMem.read 4 addr.toNat).getD 0)).toInt32

def readPoint (gpi : Gpi) (pptl : UInt32) : Int32 × Int32 :=
  (gpi.readLong pptl, gpi.readLong (pptl + 4))

def readText (gpi : Gpi) (count pch : UInt32) : List UInt8 :=
  (List.range count.toNat).map fun i =>
    UInt8.ofNat ((gpi.guestMem.read 1 (pch + UInt32.ofNat i).toNat).getD 0)

/-- Nothing is sent without a window system. -/
def send (gpi : Gpi) (messages : List GUIMessage) : List GUIMessage :=
  if gpi.guiTx then messages else []

def setPos (gpi : Gpi) (hps : Hps) (pos : Int32 × Int32) : Gpi :=
  match gpi.psMap hps with
  | some ps => { gpi with psMap := gpi.psMap.insert hps { ps with currentPos := pos } }
  | none => gpi

def move (gpi : Gpi) (hps : Hps) (pptl : UInt32) : Gpi := gpi.setPos hps (gpi.readPoint pptl)

def doFill (control : UInt32) : Bool := control == 1 || control == 3

def doOutline (control : UInt32) : Bool := control == 2 || control == 3

def boxMessages (control : UInt32) (box : Bool → GUIMessage) : List GUIMessage :=
  (if doFill control then [box true] else []) ++ if doOutline control then [box false] else []

def box (gpi : Gpi) (hps : Hps) (control pptl : UInt32) : List GUIMessage :=
  let (x2, y2) := gpi.readPoint pptl
  match gpi.psMap hps with
  | some ps =>
      let (x1, y1) := ps.currentPos
      let frame := gpi.wm.clientToFrame ps.hwnd
      gpi.send (boxMessages control (.drawBox frame x1 y1 x2 y2 ps.color))
  | none => []

def line (gpi : Gpi) (hps : Hps) (pptl : UInt32) : Gpi × List GUIMessage :=
  let (x2, y2) := gpi.readPoint pptl
  match gpi.psMap hps with
  | some ps =>
      let (x1, y1) := ps.currentPos
      let frame := gpi.wm.clientToFrame ps.hwnd
      (gpi.setPos hps (x2, y2), gpi.send [.drawLine frame x1 y1 x2 y2 ps.color])
  | none => (gpi, [])

/-- `x + (count as i32 * 8)`. -/
def advance (x : Int32) (count : UInt32) : Option Int32 := do
  let width ← i32 (asI32 count.toNat * 8)
  checked (x.toInt + width)

/-- The text is drawn also without a presentation space. -/
def drawString (rs : EncodingRs) (gpi : Gpi) (hps : Hps) (pos : Int32 × Int32)
    (count pch : UInt32) : Option (Gpi × List GUIMessage) :=
  let text := cpDecode rs (gpi.readText count pch) gpi.activeCodepage
  let (x, y) := pos
  let color := ((gpi.psMap hps).map PresentationSpace.color).getD 0
  let hwnd := ((gpi.psMap hps).map PresentationSpace.hwnd).getD 0
  let messages := gpi.send [.drawText (gpi.wm.clientToFrame hwnd) x y text color]
  match gpi.psMap hps with
  | some _ => do
      let right ← advance x count
      return (gpi.setPos hps (right, y), messages)
  | none => some (gpi, messages)

def charStringAt (rs : EncodingRs) (gpi : Gpi) (hps : Hps) (pptl count pch : UInt32) :
    Option (Gpi × List GUIMessage) :=
  gpi.drawString rs hps (gpi.readPoint pptl) count pch

def currentPos (gpi : Gpi) (hps : Hps) : Int32 × Int32 :=
  ((gpi.psMap hps).map PresentationSpace.currentPos).getD (0, 0)

def charString (rs : EncodingRs) (gpi : Gpi) (hps : Hps) (count pch : UInt32) :
    Option (Gpi × List GUIMessage) :=
  gpi.drawString rs hps (gpi.currentPos hps) count pch

/-- A circle is approximated by the square around it. -/
def arcBox (pos : Int32 × Int32) (message : Int32 → Int32 → Int32 → Int32 → GUIMessage) :
    Option GUIMessage := do
  let x1 ← checked (pos.1.toInt - 10)
  let y1 ← checked (pos.2.toInt - 10)
  let x2 ← checked (pos.1.toInt + 10)
  let y2 ← checked (pos.2.toInt + 10)
  return message x1 y1 x2 y2

def squareMessages (control : UInt32) (frame : Hwnd) (pos : Int32 × Int32) (color : UInt32) :
    Option (List GUIMessage) := do
  let square (fill : Bool) := arcBox pos fun x1 y1 x2 y2 => .drawBox frame x1 y1 x2 y2 color fill
  let filled ← if doFill control then (square true).map ([·]) else some []
  let outlined ← if doOutline control then (square false).map ([·]) else some []
  return filled ++ outlined

def fullArc (gpi : Gpi) (hps : Hps) (control : UInt32) : Option (List GUIMessage) :=
  match gpi.psMap hps with
  | some ps =>
      if gpi.guiTx then
        squareMessages control (gpi.wm.clientToFrame ps.hwnd) ps.currentPos ps.color
      else some []
  | none => some []

end Gpi

/-- What a call does to the presentation spaces, and the messages it sends. -/
def handlePmgpiCall (rs : EncodingRs) (gpi : Gpi) : GpiCall → Option (Gpi × List GUIMessage)
  | .move hps pptl => some (gpi.move hps pptl, [])
  | .box hps control pptl => some (gpi, gpi.box hps control pptl)
  | .line hps pptl => some (gpi.line hps pptl)
  | .charStringAt hps pptl count pch => gpi.charStringAt rs hps pptl count pch
  | .charString hps count pch => gpi.charString rs hps count pch
  | .fullArc hps control => (gpi.fullArc hps control).map (gpi, ·)

/-- A call, and what the renderer does with its messages. -/
def gpiCall (rs : EncodingRs) (font : Font) (turns : Nat) (gpi : Gpi) (renderer : Sdl2Renderer)
    (call : GpiCall) : Option (Gpi × Sdl2Renderer) := do
  let (after, messages) ← handlePmgpiCall rs gpi call
  let renderer ← messages.foldlM (Sdl2Renderer.handleMessage font turns after.wm) renderer
  return (after, renderer)

/-- The buffer that a window's calls are drawn in. -/
def Gpi.canvas (gpi : Gpi) (renderer : Sdl2Renderer) (hwnd : Hwnd) : FrameBuffer :=
  renderer.getOrCreateFb gpi.wm (gpi.wm.clientToFrame hwnd)

/-- The square around a position. -/
def ArcFits (pos : Int32 × Int32) : Prop :=
  (-2 ^ 31 + 10 ≤ pos.1.toInt ∧ pos.1.toInt + 10 < 2 ^ 31) ∧
    -2 ^ 31 + 10 ≤ pos.2.toInt ∧ pos.2.toInt + 10 < 2 ^ 31

/-- The position behind a text. -/
def AdvanceFits (x : Int32) (count : UInt32) : Prop :=
  (-2 ^ 28 ≤ asI32 count.toNat ∧ asI32 count.toNat < 2 ^ 28) ∧
    InI32 (x.toInt + 8 * asI32 count.toNat)

/-- The text as it is drawn, and the position behind it. -/
def Gpi.StringFits (rs : EncodingRs) (font : Font) (gpi : Gpi) (renderer : Sdl2Renderer)
    (hps : Hps) (pos : Int32 × Int32) (count pch : UInt32) : Prop :=
  let fb := gpi.canvas renderer (((gpi.psMap hps).map PresentationSpace.hwnd).getD 0)
  (gpi.guiTx = true → TextFits font fb.width.toNat fb.height.toNat pos.1.toInt pos.2.toInt
    (cpDecode rs (gpi.readText count pch) gpi.activeCodepage)) ∧
      ((gpi.psMap hps).isSome = true → AdvanceFits pos.1 count)

/-- The numbers of a call fit, where it comes to use them. -/
def GpiCall.Fits (rs : EncodingRs) (font : Font) (gpi : Gpi) (renderer : Sdl2Renderer) :
    GpiCall → Prop
  | .move .. => True
  | .box hps control _ => ∀ ps, gpi.psMap hps = some ps → gpi.guiTx = true →
      1 ≤ control ∧ control ≤ 3 → BoxFits (gpi.canvas renderer ps.hwnd).width.toNat
        (gpi.canvas renderer ps.hwnd).height.toNat
  | .line hps pptl => ∀ ps, gpi.psMap hps = some ps → gpi.guiTx = true →
      LineFits (gpi.canvas renderer ps.hwnd).width.toNat (gpi.canvas renderer ps.hwnd).height.toNat
        ps.currentPos.1.toInt ps.currentPos.2.toInt (gpi.readPoint pptl).1.toInt
          (gpi.readPoint pptl).2.toInt
  | .charStringAt hps pptl count pch =>
      gpi.StringFits rs font renderer hps (gpi.readPoint pptl) count pch
  | .charString hps count pch =>
      gpi.StringFits rs font renderer hps (gpi.currentPos hps) count pch
  | .fullArc hps control => ∀ ps, gpi.psMap hps = some ps → gpi.guiTx = true →
      1 ≤ control ∧ control ≤ 3 → ArcFits ps.currentPos ∧
        BoxFits (gpi.canvas renderer ps.hwnd).width.toNat
          (gpi.canvas renderer ps.hwnd).height.toNat

section Calls

variable {rs : EncodingRs} {font : Font} {turns : Nat} {gpi : Gpi} {renderer : Sdl2Renderer}

theorem setPos_wm (hps : Hps) (pos : Int32 × Int32) : (gpi.setPos hps pos).wm = gpi.wm := by
  unfold Gpi.setPos
  split <;> rfl

theorem advance_isSome (x : Int32) (count : UInt32) :
    (Gpi.advance x count).isSome = true ↔ AdvanceFits x count := by
  unfold Gpi.advance checked AdvanceFits
  rw [Option.bind_eq_bind, isSome_i32_bind, Option.isSome_map, isSome_i32]
  unfold InI32 Lib.InRange
  omega

theorem isSome_checked_bind {α : Type} {value : Int} {next : Int32 → Option α} :
    ((checked value).bind next).isSome = true ↔
      InI32 value ∧ (next (Int32.ofInt value)).isSome = true := by
  rw [checked, Option.bind_map, isSome_i32_bind]
  rfl

theorem arcBox_isSome (pos : Int32 × Int32)
    (message : Int32 → Int32 → Int32 → Int32 → GUIMessage) :
    (Gpi.arcBox pos message).isSome = true ↔ ArcFits pos := by
  have first := inI32_toInt pos.1
  have second := inI32_toInt pos.2
  unfold Gpi.arcBox ArcFits
  simp only [Option.bind_eq_bind, isSome_checked_bind, Option.pure_def, Option.isSome_some,
    and_true]
  unfold InI32 Lib.InRange at *
  omega

/-- What is sent is drawn by the renderer when there is a window system. -/
theorem send_isSome_iff {messages : List GUIMessage} {wm : WindowManager} :
    ((gpi.send messages).foldlM (Sdl2Renderer.handleMessage font turns wm) renderer).isSome =
        true ↔
      (gpi.guiTx = true →
        (messages.foldlM (Sdl2Renderer.handleMessage font turns wm) renderer).isSome = true) := by
  unfold Gpi.send
  by_cases shown : gpi.guiTx = true
  · rw [if_pos shown, imp_iff_right shown]
  · rw [if_neg shown]
    exact iff_of_true rfl fun now => absurd now shown

theorem sendOne_isSome_iff {message : GUIMessage} {wm : WindowManager} :
    (∀ turns, ((gpi.send [message]).foldlM (Sdl2Renderer.handleMessage font turns wm)
      renderer).isSome = true) ↔
        (gpi.guiTx = true → (renderer.getOrCreateFb wm message.handle).Fits font message) := by
  simp only [send_isSome_iff]
  rw [forall_comm, single_isSome_iff]

theorem drawString_safe_iff (hps : Hps) (pos : Int32 × Int32) (count pch : UInt32) :
    (∀ turns, ((gpi.drawString rs hps pos count pch).bind fun sent =>
      sent.2.foldlM (Sdl2Renderer.handleMessage font turns sent.1.wm) renderer).isSome = true) ↔
        gpi.StringFits rs font renderer hps pos count pch := by
  unfold Gpi.drawString Gpi.StringFits
  dsimp only
  cases gpi.psMap hps with
  | none =>
    simp only [Option.bind_some, sendOne_isSome_iff, Option.isSome_none, Bool.false_eq_true,
      false_implies, and_true]
    rfl
  | some ps =>
    rw [Option.isSome_some, imp_iff_right rfl, ← advance_isSome]
    cases Gpi.advance pos.1 count with
    | none =>
      apply iff_of_false
      · intro runs
        exact Bool.false_ne_true (runs 0)
      · intro both
        exact Bool.false_ne_true both.2
    | some right =>
      simp only [Option.bind_eq_bind, Option.pure_def, Option.bind_some, setPos_wm,
        Option.isSome_some, and_true, sendOne_isSome_iff]
      rfl

theorem drawsBox_iff (control : UInt32) :
    1 ≤ control ∧ control ≤ 3 ↔ Gpi.doFill control = true ∨ Gpi.doOutline control = true := by
  simp only [Gpi.doFill, Gpi.doOutline, Bool.or_eq_true, beq_iff_eq, ← UInt32.toNat_inj,
    UInt32.le_iff_toNat_le, UInt32.reduceToNat]
  omega

/-- The one box or the two of a call. -/
theorem boxMessages_isSome {wm : WindowManager} (control : UInt32) (frame : Hwnd)
    (x1 y1 x2 y2 : Int32) (color : UInt32) :
    ((Gpi.boxMessages control (.drawBox frame x1 y1 x2 y2 color)).foldlM
      (Sdl2Renderer.handleMessage font turns wm) renderer).isSome = true ↔
        (1 ≤ control ∧ control ≤ 3 → BoxFits (renderer.getOrCreateFb wm frame).width.toNat
          (renderer.getOrCreateFb wm frame).height.toNat) := by
  have boxes : ∀ message ∈ Gpi.boxMessages control (.drawBox frame x1 y1 x2 y2 color),
      ∃ x1 y1 x2 y2 color fill, message = .drawBox frame x1 y1 x2 y2 color fill := by
    intro message member
    unfold Gpi.boxMessages at member
    rw [List.mem_append] at member
    rcases member with filled | outlined
    · split at filled
      · exact ⟨x1, y1, x2, y2, color, true, List.mem_singleton.mp filled⟩
      · contradiction
    · split at outlined
      · exact ⟨x1, y1, x2, y2, color, false, List.mem_singleton.mp outlined⟩
      · contradiction
  rw [boxes_isSome boxes, drawsBox_iff]
  unfold Gpi.boxMessages
  cases Gpi.doFill control <;> cases Gpi.doOutline control <;> simp

theorem arcBox_corners {pos : Int32 × Int32} (fits : ArcFits pos) :
    ∃ x1 y1 x2 y2, ∀ message, Gpi.arcBox pos message = some (message x1 y1 x2 y2) := by
  refine ⟨.ofInt (pos.1.toInt - 10), .ofInt (pos.2.toInt - 10), .ofInt (pos.1.toInt + 10),
    .ofInt (pos.2.toInt + 10), fun message => ?_⟩
  obtain ⟨columns, rows⟩ := fits
  have first := inI32_toInt pos.1
  have second := inI32_toInt pos.2
  unfold InI32 Lib.InRange at first second
  unfold Gpi.arcBox checked
  rw [i32_of_inI32 ⟨by omega, by omega⟩, i32_of_inI32 ⟨by omega, by omega⟩,
    i32_of_inI32 ⟨by omega, by omega⟩, i32_of_inI32 ⟨by omega, by omega⟩]
  rfl

/-- A circle's square is drawn as one box or two, if its corners fit. -/
theorem squareMessages_isSome {wm : WindowManager} (control : UInt32) (frame : Hwnd)
    (pos : Int32 × Int32) (color : UInt32) :
    ((Gpi.squareMessages control frame pos color).bind fun messages =>
      messages.foldlM (Sdl2Renderer.handleMessage font turns wm) renderer).isSome = true ↔
        (1 ≤ control ∧ control ≤ 3 → ArcFits pos ∧
          BoxFits (renderer.getOrCreateFb wm frame).width.toNat
            (renderer.getOrCreateFb wm frame).height.toNat) := by
  by_cases fits : ArcFits pos
  · obtain ⟨x1, y1, x2, y2, corners⟩ := arcBox_corners fits
    have messages : Gpi.squareMessages control frame pos color =
        some (Gpi.boxMessages control (.drawBox frame x1 y1 x2 y2 color)) := by
      unfold Gpi.squareMessages Gpi.boxMessages
      simp only [corners]
      cases Gpi.doFill control <;> cases Gpi.doOutline control <;> rfl
    rw [messages, Option.bind_some, boxMessages_isSome]
    simp only [fits, true_and]
  · have none (message) : Gpi.arcBox pos message = none := by
      rw [← Option.not_isSome_iff_eq_none, arcBox_isSome]
      exact fits
    rw [drawsBox_iff]
    unfold Gpi.squareMessages
    simp only [none, fits, false_and]
    cases Gpi.doFill control <;> cases Gpi.doOutline control <;> simp

theorem gpiCall_isSome (turns : Nat) (call : GpiCall) :
    (gpiCall rs font turns gpi renderer call).isSome =
      ((handlePmgpiCall rs gpi call).bind fun sent =>
        sent.2.foldlM (Sdl2Renderer.handleMessage font turns sent.1.wm) renderer).isSome := by
  rw [gpiCall]
  cases handlePmgpiCall rs gpi call with
  | none => rfl
  | some sent =>
    obtain ⟨after, messages⟩ := sent
    rw [Option.bind_eq_bind, Option.bind_some, Option.bind_some]
    dsimp only
    cases messages.foldlM (Sdl2Renderer.handleMessage font turns after.wm) renderer <;> rfl

end Calls

/-- Exactly the calls whose numbers fit run to their end. -/
theorem gpi_call_safe_iff (rs : EncodingRs) (font : Font) (gpi : Gpi) (renderer : Sdl2Renderer)
    (call : GpiCall) :
    (∀ turns, (gpiCall rs font turns gpi renderer call).isSome = true) ↔
      call.Fits rs font gpi renderer := by
  simp only [gpiCall_isSome]
  cases call with
  | move hps pptl => exact iff_of_true (fun _ => rfl) trivial
  | charStringAt hps pptl count pch =>
    simp only [handlePmgpiCall, Gpi.charStringAt, drawString_safe_iff, GpiCall.Fits]
  | charString hps count pch =>
    simp only [handlePmgpiCall, Gpi.charString, drawString_safe_iff, GpiCall.Fits]
  | line hps pptl =>
    simp only [handlePmgpiCall, Gpi.line, Option.bind_some, GpiCall.Fits]
    cases gpi.psMap hps with
    | none => exact iff_of_true (fun _ => rfl) nofun
    | some ps =>
      simp only [setPos_wm, sendOne_isSome_iff, Option.some.injEq, forall_eq']
      rfl
  | box hps control pptl =>
    simp only [handlePmgpiCall, Gpi.box, Option.bind_some, GpiCall.Fits]
    cases gpi.psMap hps with
    | none => exact iff_of_true (fun _ => rfl) nofun
    | some ps =>
      simp only [send_isSome_iff, Option.some.injEq, forall_eq', boxMessages_isSome, forall_const]
      rfl
  | fullArc hps control =>
    simp only [handlePmgpiCall, Gpi.fullArc, GpiCall.Fits]
    cases gpi.psMap hps with
    | none => exact iff_of_true (fun _ => rfl) nofun
    | some ps =>
      simp only [Option.some.injEq, forall_eq', Option.bind_map]
      by_cases shown : gpi.guiTx = true
      · rw [imp_iff_right shown]
        simp only [if_pos shown, Gpi.canvas, Function.comp_def, squareMessages_isSome, forall_const]
      · simp only [if_neg shown]
        exact iff_of_true (fun _ => rfl) fun now => absurd now shown

/-- One presentation space, and a point at the right end of the coordinates in memory. -/
def farPoint : Gpi where
  guestMem := ⟨8, fun addr => if addr < 3 then 0xFF else if addr = 3 then 0x7F else 0⟩
  activeCodepage := 437
  wm := .new
  psMap := Table.empty.insert 1 ⟨0, 0, (0, 0)⟩
  guiTx := true

def smallDesktop : Sdl2Renderer := ⟨.empty, 2, 2⟩

def blankFont : Font := fun _ => Vector.replicate 16 0

/-- A circle at a point that the guest has moved to. -/
theorem circle_overflows :
    ∃ moved renderer, gpiCall noConversions blankFont 4 farPoint smallDesktop (.move 1 0) =
        some (moved, renderer) ∧
      ¬ (gpiCall noConversions blankFont 4 moved renderer (.fullArc 1 1)).isSome = true :=
  ⟨_, _, rfl, by decide⟩

end Warpine.Loader
