import Warpine.Gui.FrameRegions
import Warpine.Pm.Stacking

/-! The frame that a pixel of the desktop is painted by, and the frame that the hit test finds
there: one is the last of the stack that is painted on the pixel, and the other the last whose
box has the point in it. -/
namespace Warpine.Gui
open Warpine.Lib Warpine.Pm

/-- The point of the desktop has its row counted from the bottom. -/
def DesktopCanvas.hitTest (desktop : DesktopCanvas) (wm : WindowManager) (row col : Nat) :
    Option Hwnd :=
  wm.zHitTest (Int32.ofNat col) (desktop.dh - 1 - Int32.ofNat row)

/-- The frame that a pixel is painted by, if there is such a pixel. -/
def DesktopCanvas.frameAt (desktop : DesktopCanvas) (row col : Nat) : Option (Option Hwnd) :=
  desktop.buffer[row * desktop.dw + col]?.map DesktopPixel.frame

/-- The window is visible, and its box has the pixel. -/
def Hits (desktop : DesktopCanvas) (wm : WindowManager) (hwnd : Hwnd) (row col : Nat) : Prop :=
  ∃ snap, frameSnap wm hwnd = some snap ∧ snap.visible = true ∧ snap.InBox desktop row col

namespace Compositor

variable (font : Font) (compositor : Compositor) (wm : WindowManager)

/-- The window is painted on the pixel. -/
def Paints (hwnd : Hwnd) (row col : Nat) : Prop :=
  ∃ snap, frameSnap wm hwnd = some snap ∧ snap.visible = true ∧
    ∃ fb, compositor.frameBuffers snap.hwnd = some fb ∧
      snap.Shown font compositor.desktop fb row col

/-- Every visible frame has a buffer that is at least as large as its client area. -/
def Covered : Prop :=
  ∀ hwnd ∈ wm.zOrder, ∀ snap, frameSnap wm hwnd = some snap → snap.visible = true →
    ∃ fb, compositor.frameBuffers snap.hwnd = some fb ∧
      snap.cx.toInt - 2 * snap.borderW.toInt ≤ fb.width.toNat ∧
        snap.cy.toInt - snap.titleH.toInt ≤ fb.height.toNat

/-- The desktop is made up without an index out of range, and where all frames are covered each
pixel is painted by the frame that the hit test finds, or by none if it finds none. -/
def CompositesRight : Prop :=
  ∃ after wm', compositor.compositeAndPresent font wm = some (after, wm') ∧
    (¬ compositor.Idle wm → compositor.Covered wm →
      ∀ row col, row < compositor.desktop.rows → col < compositor.desktop.dw →
        after.desktop.frameAt row col = some (compositor.desktop.hitTest wm row col))

/-- No frame that is painted has a border that goes past the end of the buffer. -/
def BordersSafe : Prop :=
  ∀ hwnd ∈ wm.zOrder, ∀ snap, frameSnap wm hwnd = some snap → snap.visible = true →
    ∀ fb, compositor.frameBuffers snap.hwnd = some fb → snap.HasBorder →
      snap.BorderSafe compositor.desktop

/-- A frame that lies under no other frame's box at the pixel is painted there exactly if the
pixel is in its own box. -/
def TopmostRight (row col : Nat) : Prop :=
  ∀ above hwnd below, wm.zOrder.reverse = above ++ hwnd :: below →
    (∀ other ∈ above, ¬ Hits compositor.desktop wm other row col) →
      (compositor.Paints font wm hwnd row col ↔ Hits compositor.desktop wm hwnd row col)

section Agreement

variable {font compositor wm}

theorem frameSnap_hwnd {hwnd : Hwnd} {snap : FrameSnap} (h : frameSnap wm hwnd = some snap) :
    snap.hwnd = hwnd := by
  obtain ⟨win, _, rfl⟩ := Option.map_eq_some_iff.mp h
  rfl

theorem turn_lands_iff {snap : FrameSnap} :
    (∀ write ∈ compositor.turn font snap, write.Lands compositor.desktop.buffer.length) ↔
      (snap.visible = true → ∀ fb, compositor.frameBuffers snap.hwnd = some fb →
        snap.HasBorder → snap.BorderSafe compositor.desktop) := by
  have size : compositor.desktop.buffer.length =
    compositor.desktop.rows * compositor.desktop.dw := compositor.desktop.size
  unfold turn
  cases snap.visible with
  | false => simp
  | true =>
    cases compositor.frameBuffers snap.hwnd with
    | none => simp
    | some fb =>
      simp only [if_true, size, List.forall_mem_map, Write.lands_map, Option.some.injEq,
        forall_eq', forall_const]
      exact snap.paint_lands_iff font compositor.desktop fb

theorem composite_isSome :
    (compositor.composite font wm).isSome = true ↔ compositor.BordersSafe wm := by
  rw [composite, writeTurns_isSome]
  simp only [List.length_map, turn_lands_iff, List.mem_filterMap]
  constructor
  · intro safe hwnd member snap here
    exact safe snap ⟨hwnd, member, here⟩
  · rintro safe snap ⟨hwnd, member, here⟩
    exact safe hwnd member snap here

/-- A frame's turn writes to the pixels it is shown on. -/
theorem turn_touches_iff {snap : FrameSnap} {row col : Nat}
    (safe : snap.visible = true → ∀ fb, compositor.frameBuffers snap.hwnd = some fb →
      snap.HasBorder → snap.BorderSafe compositor.desktop)
    (onRows : row < compositor.desktop.rows) (onCols : col < compositor.desktop.dw) :
    touches (compositor.turn font snap) (row * compositor.desktop.dw + col) = true ↔
      snap.visible = true ∧ ∃ fb, compositor.frameBuffers snap.hwnd = some fb ∧
        snap.Shown font compositor.desktop fb row col := by
  unfold turn
  cases shown : snap.visible with
  | false => simp [touches]
  | true =>
    cases buffer : compositor.frameBuffers snap.hwnd with
    | none => simp [touches]
    | some fb =>
      have fills := FrameSnap.paint_fills font fb (safe shown fb buffer)
      simp only [if_true, touches_map, fills.touches_iff onRows onCols, Option.some.injEq,
        exists_eq_left', true_and]

theorem turn_frame {snap : FrameSnap} {write : Write DesktopPixel} {pixel : DesktopPixel}
    (member : write ∈ compositor.turn font snap) (value : write.2 = some pixel) :
    pixel.frame = some snap.hwnd := by
  unfold turn at member
  split at member
  · split at member
    · obtain ⟨source, _, rfl⟩ := List.mem_map.mp member
      obtain ⟨color, _, rfl⟩ := Option.map_eq_some_iff.mp value
      rfl
    · contradiction
  · contradiction

/-- The last frame of the stack whose turn writes to the pixel. -/
def lastTurn (font : Font) (compositor : Compositor) (wm : WindowManager) (row col : Nat) :
    Option Hwnd :=
  wm.zOrder.reverse.find? fun hwnd => (frameSnap wm hwnd).any fun snap =>
    touches (compositor.turn font snap) (row * compositor.desktop.dw + col)

theorem composite_frame {buf : List DesktopPixel} (h : compositor.composite font wm = some buf)
    {row col : Nat} (onRows : row < compositor.desktop.rows)
    (onCols : col < compositor.desktop.dw) :
    buf[row * compositor.desktop.dw + col]?.map DesktopPixel.frame =
      some (compositor.lastTurn font wm row col) := by
  have stored : row * compositor.desktop.dw + col < compositor.desktop.buffer.length :=
    compositor.desktop.size ▸ place_lt onRows onCols
  rw [composite] at h
  rw [writeTurns_mark (fun _ _ _ member _ value => turn_frame member value) h
    (by rw [List.length_map]; exact stored), lastTurn, ← List.filterMap_reverse,
    List.find?_filterMap, List.getElem?_map, List.getElem?_eq_getElem stored]
  cases found : wm.zOrder.reverse.find? fun hwnd => (frameSnap wm hwnd).any fun snap =>
    touches (compositor.turn font snap) (row * compositor.desktop.dw + col) with
  | none => rfl
  | some hwnd =>
    have passes := List.find?_some found
    rw [Option.any_eq_true] at passes
    obtain ⟨snap, here, _⟩ := passes
    rw [Option.bind_some, here, Option.elim_some, frameSnap_hwnd here]

theorem point_toInt {desktop : DesktopCanvas} {row : Nat} (onRows : row < desktop.rows) :
    (desktop.dh - 1 - Int32.ofNat row).toInt = (desktop.rows - 1 - row : Nat) := by
  have one : (1 : Int32).toInt = 1 := rfl
  have bounds := desktop.bounds
  have number : (Int32.ofNat row).toInt = row := Int32.toInt_ofNat_of_lt (by omega)
  have last : (desktop.dh - 1).toInt = desktop.rows - 1 :=
    toInt_sub_eq (by rw [desktop.dh_toInt, one]) (by omega) (by omega)
  exact toInt_sub_eq (by omega) (by omega) (by omega)

/-- The test that the hit test makes on a window. -/
theorem hits_iff {desktop : DesktopCanvas} {hwnd : Hwnd} {row col : Nat}
    (onRows : row < desktop.rows) (onCols : col < desktop.dw) :
    ((wm.windows hwnd).any fun win => win.visible && decide (win.x ≤ Int32.ofNat col) &&
        decide (Int32.ofNat col < win.x + win.cx) &&
          decide (win.y ≤ desktop.dh - 1 - Int32.ofNat row) &&
            decide (desktop.dh - 1 - Int32.ofNat row < win.y + win.cy)) = true ↔
      Hits desktop wm hwnd row col := by
  have bounds := desktop.bounds
  have column : (Int32.ofNat col).toInt = col := Int32.toInt_ofNat_of_lt (by omega)
  unfold Hits frameSnap WindowManager.getWindow FrameSnap.InBox Between
  cases wm.windows hwnd with
  | none => simp
  | some win =>
    simp only [Option.any_some, Bool.and_eq_true, decide_eq_true_iff, Int32.le_iff_toInt_le,
      Int32.lt_iff_toInt_lt, column, point_toInt onRows, Option.map_some, Option.some.injEq,
      exists_eq_left', and_assoc]

theorem lastTurn_iff {hwnd : Hwnd} {row col : Nat} (safe : compositor.BordersSafe wm)
    (member : hwnd ∈ wm.zOrder) (onRows : row < compositor.desktop.rows)
    (onCols : col < compositor.desktop.dw) :
    ((frameSnap wm hwnd).any fun snap =>
        touches (compositor.turn font snap) (row * compositor.desktop.dw + col)) = true ↔
      compositor.Paints font wm hwnd row col := by
  rw [Option.any_eq_true]
  apply exists_congr
  intro snap
  apply and_congr_right
  intro here
  exact turn_touches_iff (safe hwnd member snap here) onRows onCols

/-- The two searches find the same frame where the topmost frames are right. -/
theorem lastTurn_eq_hitTest_iff {row col : Nat} (safe : compositor.BordersSafe wm)
    (onRows : row < compositor.desktop.rows) (onCols : col < compositor.desktop.dw) :
    compositor.lastTurn font wm row col = compositor.desktop.hitTest wm row col ↔
      compositor.TopmostRight font wm row col := by
  rw [lastTurn, DesktopCanvas.hitTest, WindowManager.zHitTest, find?_eq_find?_iff]
  unfold TopmostRight
  apply forall_congr'
  intro above
  apply forall_congr'
  intro hwnd
  apply forall_congr'
  intro below
  apply forall_congr'
  intro order
  have member : hwnd ∈ wm.zOrder := by
    rw [← List.mem_reverse, order]
    exact List.mem_append_right _ List.mem_cons_self
  simp only [← Bool.not_eq_true, hits_iff onRows onCols]
  rw [Bool.eq_iff_iff, hits_iff onRows onCols, lastTurn_iff safe member onRows onCols]

variable (font) in
theorem compositeAndPresent_isSome (awake : ¬ compositor.Idle wm) :
    (compositor.compositeAndPresent font wm).isSome = true ↔ compositor.BordersSafe wm := by
  rw [compositeAndPresent, if_neg awake, DesktopCanvas.redraw, Option.isSome_map,
    Option.isSome_map, Option.isSome_attach, composite_isSome]

theorem compositeAndPresent_frame {after : Compositor} {wm' : WindowManager}
    (awake : ¬ compositor.Idle wm)
    (h : compositor.compositeAndPresent font wm = some (after, wm')) {row col : Nat}
    (onRows : row < compositor.desktop.rows) (onCols : col < compositor.desktop.dw) :
    after.desktop.frameAt row col = some (compositor.lastTurn font wm row col) := by
  rw [compositeAndPresent, if_neg awake] at h
  obtain ⟨desktop, redrawn, same⟩ := Option.map_eq_some_iff.mp h
  obtain ⟨buf, _, rfl⟩ := Option.map_eq_some_iff.mp redrawn
  obtain ⟨rfl, -⟩ := Prod.mk.inj same
  exact composite_frame buf.2 onRows onCols

theorem right_of_topmost (safe : compositor.BordersSafe wm)
    (right : compositor.Covered wm → ∀ row col, row < compositor.desktop.rows →
      col < compositor.desktop.dw → compositor.TopmostRight font wm row col) :
    compositor.CompositesRight font wm := by
  by_cases idle : compositor.Idle wm
  · exact ⟨compositor, wm, if_pos idle, fun awake => absurd idle awake⟩
  · obtain ⟨⟨after, wm'⟩, run⟩ := Option.isSome_iff_exists.mp
      ((compositeAndPresent_isSome font idle).mpr safe)
    refine ⟨after, wm', run, fun _ covered row col onRows onCols => ?_⟩
    have here := right covered row col onRows onCols
    rw [compositeAndPresent_frame idle run onRows onCols, Option.some.injEq]
    exact (lastTurn_eq_hitTest_iff safe onRows onCols).mpr here

end Agreement

/-- The desktop is right exactly where it does not change, or no border that is painted goes past
the end of the buffer and, if all frames are covered, at every pixel the topmost frames are
painted in their boxes and only there. -/
theorem composites_right_iff (font : Font) (compositor : Compositor) (wm : WindowManager) :
    compositor.CompositesRight font wm ↔ compositor.Idle wm ∨
      (compositor.BordersSafe wm ∧ (compositor.Covered wm →
        ∀ row col, row < compositor.desktop.rows → col < compositor.desktop.dw →
          compositor.TopmostRight font wm row col)) := by
  by_cases idle : compositor.Idle wm
  · refine iff_of_true ⟨compositor, wm, if_pos idle, fun awake => absurd idle awake⟩ (.inl idle)
  rw [or_iff_right idle]
  constructor
  · rintro ⟨after, wm', run, agrees⟩
    have safe := (compositeAndPresent_isSome font idle).mp (Option.isSome_iff_exists.mpr ⟨_, run⟩)
    refine ⟨safe, fun covered row col onRows onCols => ?_⟩
    have here := agrees idle covered row col onRows onCols
    rw [compositeAndPresent_frame idle run onRows onCols, Option.some.injEq] at here
    exact (lastTurn_eq_hitTest_iff safe onRows onCols).mp here
  · rintro ⟨safe, right⟩
    exact right_of_topmost safe right

end Compositor

/-- A desktop with one window, which has a border, wholly to the left of it. -/
def besideDesktop : Compositor where
  desktop := {
    buffer := List.replicate (480 * 640) .background
    width := 640
    height := 480
    sides := by decide
    size := List.length_replicate }
  frameBuffers := Table.empty.insert 0x1000 (.new 96 46)
  dragging := true
  resizing := false

def besideWindow : OS2Window :=
  { atEdge with x := -200, y := 100, cx := 100, cy := 50, frameFlags := fcfBorder }

theorem window_beside_desktop :
    ¬∀ (font : Font) (compositor : Compositor) (wm : WindowManager),
      compositor.CompositesRight font wm := by
  intro claim
  have awake : ¬ besideDesktop.Idle (edgeDesktop besideWindow) := by decide
  obtain ⟨after, wm', run, _⟩ :=
    claim (fun _ => Vector.replicate 16 0) besideDesktop (edgeDesktop besideWindow)
  have safe := (Compositor.compositeAndPresent_isSome _ awake).mp
    (Option.isSome_iff_exists.mpr ⟨_, run⟩) 0x1000 List.mem_cons_self _ rfl rfl _ rfl (by decide)
  exact safe.1 (by decide) (by decide)

end Warpine.Gui
