import Mathlib.Algebra.Group.Int.Defs
import Warpine.Lib.Lists
import Warpine.Pm.WindowRun

/-! The stack of frames call by call: where a frame lands, what stays of the others,
and which frame a point on the desktop belongs to. -/
namespace Warpine.Pm
open Warpine.Lib

/-- The coordinate lies before a far edge as 32 bits hold it: one that leaves them on the
low side comes in again at the high one. -/
def Before (p x c : Int32) : Prop :=
  x.toInt + c.toInt < 2 ^ 31 ∧
    (p.toInt < x.toInt + c.toInt ∨
      x.toInt + c.toInt < -2 ^ 31 ∧ p.toInt < x.toInt + c.toInt + 2 ^ 32)

instance (p x c : Int32) : Decidable (Before p x c) := inferInstanceAs (Decidable (_ ∧ _))

theorem lt_add_iff {p x c : Int32} (after : x.toInt ≤ p.toInt) : p < x + c ↔ Before p x c := by
  have hx := x.le_toInt
  have hc := c.le_toInt
  have hc' := c.toInt_lt
  have hp := p.le_toInt
  rw [Int32.lt_iff_toInt_lt, Int32.toInt_add, Before, Int.bmod_def]
  split <;> omega

namespace OS2Window

variable (win : OS2Window) (px py : Int32)

/-- The point lies in the rectangle; its far edges are no part of it. -/
def Contains : Prop :=
  win.x.toInt ≤ px.toInt ∧ px.toInt < win.x.toInt + win.cx.toInt ∧
    win.y.toInt ≤ py.toInt ∧ py.toInt < win.y.toInt + win.cy.toInt

instance : Decidable (win.Contains px py) := inferInstanceAs (Decidable (_ ∧ _))

/-- The point lies in the rectangle, and a far edge beyond 32 bits. -/
def Loses : Prop :=
  win.Contains px py ∧
    (2 ^ 31 ≤ win.x.toInt + win.cx.toInt ∨ 2 ^ 31 ≤ win.y.toInt + win.cy.toInt)

instance : Decidable (win.Loses px py) := inferInstanceAs (Decidable (_ ∧ _))

/-- A far edge below 32 bits comes in again beyond the point. -/
def Grabs : Prop :=
  win.x.toInt ≤ px.toInt ∧ Before px win.x win.cx ∧
    win.y.toInt ≤ py.toInt ∧ Before py win.y win.cy ∧
    (win.x.toInt + win.cx.toInt < -2 ^ 31 ∨ win.y.toInt + win.cy.toInt < -2 ^ 31)

instance : Decidable (win.Grabs px py) := inferInstanceAs (Decidable (_ ∧ _))

/-- The comparisons that the hit test makes, on one window. -/
def inside : Bool :=
  decide (win.x ≤ px) && decide (px < win.x + win.cx) &&
    decide (win.y ≤ py) && decide (py < win.y + win.cy)

theorem inside_iff : win.inside px py ↔
    win.x.toInt ≤ px.toInt ∧ Before px win.x win.cx ∧
      win.y.toInt ≤ py.toInt ∧ Before py win.y win.cy := by
  have hx : win.x ≤ px ∧ px < win.x + win.cx ↔
      win.x.toInt ≤ px.toInt ∧ Before px win.x win.cx := by
    rw [Int32.le_iff_toInt_le]
    exact and_congr_right lt_add_iff
  have hy : win.y ≤ py ∧ py < win.y + win.cy ↔
      win.y.toInt ≤ py.toInt ∧ Before py win.y win.cy := by
    rw [Int32.le_iff_toInt_le]
    exact and_congr_right lt_add_iff
  simp only [inside, Bool.and_eq_true, decide_eq_true_eq, and_assoc, hy]
  rw [← and_assoc, hx, and_assoc]

theorem inside_eq_iff :
    win.inside px py = decide (win.Contains px py) ↔ ¬win.Loses px py ∧ ¬win.Grabs px py := by
  have hpx := px.le_toInt
  have hpy := py.le_toInt
  rw [Bool.eq_iff_iff, decide_eq_true_iff, inside_iff, Loses, Grabs, Contains, Before, Before]
  omega

end OS2Window

namespace WindowManager

/-- What a frame's move keeps of the stack: no other window comes or goes, and the others
stay in their order. -/
structure Restacked (frame : Hwnd) (old new : List Hwnd) : Prop where
  nodup : new.Nodup
  mem : ∀ x, x ∈ new ↔ x = frame ∨ x ∈ old
  others : new.filter (· ≠ frame) = old.filter (· ≠ frame)

theorem Placed.restacked {frame : Hwnd} {old new : List Hwnd} (placed : Placed frame old new)
    (nodup : old.Nodup) (others : new.filter (· ≠ frame) = old.filter (· ≠ frame)) :
    Restacked frame old new :=
  ⟨placed.nodup nodup, placed.mem, others⟩

theorem filter_without (frame : Hwnd) (list : List Hwnd) :
    (list.filter (· ≠ frame)).filter (· ≠ frame) = list.filter (· ≠ frame) := by
  rw [List.filter_filter]
  simp

theorem filter_beside (frame : Hwnd) (below above : List Hwnd) :
    (below ++ frame :: above).filter (· ≠ frame) = (below ++ above).filter (· ≠ frame) := by
  simp [List.filter_append]

variable (wm : WindowManager) (frame behind : Hwnd) (px py : Int32)

theorem zPushTop_order :
    (wm.zPushTop frame).zOrder = wm.zOrder.filter (· ≠ frame) ++ [frame] := by
  simp only [zPushTop, markAllDirty]
  split
  · rfl
  · rename_i absent
    congr 1
    symm
    apply List.filter_eq_self.mpr
    intro x there
    simp only [decide_eq_true_eq]
    exact fun same => absent (same ▸ there)

theorem zInsertBehind_order (there : behind ∈ wm.zOrder) (apart : behind ≠ frame) :
    ∃ below above, wm.zOrder.filter (· ≠ frame) = below ++ behind :: above ∧
      (wm.zInsertBehind frame behind).zOrder = below ++ frame :: behind :: above := by
  have kept : behind ∈ wm.zOrder.filter (· ≠ frame) := List.mem_filter.mpr ⟨there, by simpa⟩
  cases hpos : (wm.zOrder.filter (· ≠ frame)).findIdx? (· = behind) with
  | none =>
    have := List.findIdx?_eq_none_iff.mp hpos behind kept
    simp at this
  | some pos =>
    obtain ⟨hlt, hbehind, -⟩ := List.findIdx?_eq_some_iff_getElem.mp hpos
    have here : (wm.zOrder.filter (· ≠ frame))[pos] = behind := by simpa using hbehind
    have hdrop := List.drop_eq_getElem_cons hlt
    rw [here] at hdrop
    refine ⟨(wm.zOrder.filter (· ≠ frame)).take pos,
      (wm.zOrder.filter (· ≠ frame)).drop (pos + 1), ?_, ?_⟩
    · rw [← hdrop, List.take_append_drop]
    · simp only [zInsertBehind, markAllDirty, hpos]
      rw [hdrop]

/-- Where each call leaves the frame, and what it keeps of the rest. -/
structure StackCalls : Prop where
  top : Restacked frame wm.zOrder (wm.zPushTop frame).zOrder
  last : (wm.zPushTop frame).zOrder.getLast? = some frame
  bottom : Restacked frame wm.zOrder (wm.zPushBottom frame).zOrder
  first : (wm.zPushBottom frame).zOrder.head? = some frame
  insert : Restacked frame wm.zOrder (wm.zInsertBehind frame behind).zOrder
  below : ∃ below above,
    (wm.zInsertBehind frame behind).zOrder = below ++ frame :: behind :: above
  remove : (wm.zRemove frame).zOrder.Nodup
  absent : ∀ x, x ∈ (wm.zRemove frame).zOrder ↔ x ≠ frame ∧ x ∈ wm.zOrder
  others : (wm.zRemove frame).zOrder.filter (· ≠ frame) = wm.zOrder.filter (· ≠ frame)

variable {behind} in
theorem stackCalls (nodup : wm.zOrder.Nodup) (there : behind ∈ wm.zOrder)
    (apart : behind ≠ frame) : wm.StackCalls frame behind where
  top := by
    apply (wm.zPushTop_placed frame).restacked nodup
    rw [zPushTop_order, filter_beside, List.append_nil, filter_without]
  last := by rw [zPushTop_order, List.getLast?_concat]
  bottom := by
    apply (wm.zPushBottom_placed frame).restacked nodup
    exact (filter_beside frame [] _).trans (filter_without frame _)
  first := rfl
  insert := by
    apply (wm.zInsertBehind_placed frame behind).restacked nodup
    obtain ⟨below, above, hrest, horder⟩ := wm.zInsertBehind_order frame behind there apart
    rw [horder, filter_beside, ← hrest, filter_without]
  below := by
    obtain ⟨below, above, -, horder⟩ := wm.zInsertBehind_order frame behind there apart
    exact ⟨below, above, horder⟩
  remove := without_nodup nodup frame
  absent := by
    intro x
    simp [zRemove, markAllDirty, and_comm]
  others := filter_without frame _

/-- A visible frame with the point in its rectangle. -/
def Shows : Prop := ∃ win, wm.windows frame = some win ∧ win.visible ∧ win.Contains px py

instance : Decidable (wm.Shows frame px py) :=
  decidable_of_iff
    ((wm.windows frame).any fun win => win.visible && decide (win.Contains px py))
    (by simp [Shows, Option.any_eq_true])

/-- The last frame of the stack that shows at the point, if any does. -/
def Hit : Option Hwnd → Prop
  | some frame => wm.Shows frame px py ∧ ∃ below above,
      wm.zOrder = below ++ frame :: above ∧ ∀ other ∈ above, ¬wm.Shows other px py
  | none => ∀ frame ∈ wm.zOrder, ¬wm.Shows frame px py

theorem hit_iff (found : Option Hwnd) : wm.Hit px py found ↔
    wm.zOrder.reverse.find? (fun frame => decide (wm.Shows frame px py)) = found := by
  cases found with
  | none => simp [Hit]
  | some frame =>
    rw [List.find?_eq_some_iff_append, Hit, decide_eq_true_iff]
    refine and_congr_right fun _ => ?_
    constructor
    · rintro ⟨below, above, horder, hidden⟩
      refine ⟨above.reverse, below.reverse, by rw [horder]; simp, ?_⟩
      simpa using hidden
    · rintro ⟨above, below, horder, hidden⟩
      refine ⟨below.reverse, above.reverse, ?_, by simpa using hidden⟩
      rw [← List.reverse_reverse wm.zOrder, horder]
      simp

/-- From the top down to the first frame that shows at the point, no visible frame has a far
edge that wraps to the wrong side of it. -/
def EdgesHold : Prop :=
  ∀ below frame above, wm.zOrder = below ++ frame :: above →
    (∀ other ∈ above, ¬wm.Shows other px py) →
    ∀ win, wm.windows frame = some win → win.visible → ¬win.Loses px py ∧ ¬win.Grabs px py

theorem judged_iff :
    ((wm.windows frame).any fun win => win.visible && decide (win.x ≤ px) &&
        decide (px < win.x + win.cx) && decide (win.y ≤ py) && decide (py < win.y + win.cy)) =
      decide (wm.Shows frame px py) ↔
    ∀ win, wm.windows frame = some win → win.visible → ¬win.Loses px py ∧ ¬win.Grabs px py := by
  cases hwin : wm.windows frame with
  | none => simp [Shows, hwin]
  | some win =>
    cases hvisible : win.visible with
    | false => simp [Shows, hwin, hvisible]
    | true =>
      have hjudged := win.inside_eq_iff px py
      rw [OS2Window.inside] at hjudged
      simp only [Option.some.injEq, forall_eq', hvisible, forall_const, ← hjudged]
      simp [Shows, hwin, hvisible, Bool.and_assoc]

theorem hit_zHitTest_iff : wm.Hit px py (wm.zHitTest px py) ↔ wm.EdgesHold px py := by
  rw [hit_iff, eq_comm, zHitTest, find?_eq_find?_iff]
  have turn {before : List Hwnd} {frame : Hwnd} {after : List Hwnd} :
      wm.zOrder.reverse = before ++ frame :: after ↔
        wm.zOrder = after.reverse ++ frame :: before.reverse := by
    rw [List.reverse_eq_iff]
    simp
  constructor
  · intro agree below frame above horder hidden
    apply (wm.judged_iff frame px py).mp
    exact agree above.reverse frame below.reverse (turn.mpr (by simpa using horder))
      (by simpa using hidden)
  · intro holds above frame below horder hidden
    apply (wm.judged_iff frame px py).mpr
    exact holds below.reverse frame above.reverse (turn.mp horder) (by simpa using hidden)

/-- The calls place the frame as they say. The hit test then finds the frame on top at the
point exactly when it meets no edge that wraps on the way down to it. -/
theorem stack_and_hit_iff (nodup : wm.zOrder.Nodup) (there : behind ∈ wm.zOrder)
    (apart : behind ≠ frame) :
    wm.StackCalls frame behind ∧ wm.Hit px py (wm.zHitTest px py) ↔ wm.EdgesHold px py := by
  rw [hit_zHitTest_iff]
  exact and_iff_right (wm.stackCalls frame nodup there apart)

end WindowManager

/-- A frame as wide as 32 bits allow, one column in from the left. -/
def atEdge : OS2Window where
  handle := 0x1000
  className := ""
  pfnWp := 0
  parent := 0
  hmq := 0
  text := ""
  id := 0
  children := []
  x := 1
  y := 0
  cx := 0x7FFFFFFF
  cy := 16
  visible := true
  style := 0
  dialogDismissed := false
  dialogResult := 0
  frameFlags := 0

def edgeDesktop (frame : OS2Window) : WindowManager :=
  { WindowManager.new with
    windows := (WindowManager.new.windows.insert 0x1000 frame)
    zOrder := [0x1000] }

theorem stack_and_hit_inside :
    (edgeDesktop { atEdge with x := 0 }).StackCalls 0x1001 0x1000 ∧
      (edgeDesktop { atEdge with x := 0 }).Hit 1 1
        ((edgeDesktop { atEdge with x := 0 }).zHitTest 1 1) := by
  apply (WindowManager.stack_and_hit_iff _ _ _ _ _ (by decide) (by decide) (by decide)).mpr
  intro below frame above horder _ win hwin _
  have single : frame ∈ [(0x1000 : Hwnd)] := by
    rw [show [(0x1000 : Hwnd)] = below ++ frame :: above from horder]
    simp
  rw [List.mem_singleton.mp single] at hwin
  obtain rfl : { atEdge with x := 0 } = win := Option.some.inj hwin
  decide

/-- The frame is there, and a point in it hits nothing. -/
theorem edge_frame_missed :
    ¬∀ (wm : WindowManager) (frame behind : Hwnd) (px py : Int32), wm.zOrder.Nodup →
      behind ∈ wm.zOrder → behind ≠ frame →
      wm.StackCalls frame behind ∧ wm.Hit px py (wm.zHitTest px py) := by
  intro claim
  have miss := (claim (edgeDesktop atEdge) 0x1001 0x1000 40 8 (by decide) (by decide)
    (by decide)).2
  have hnone : (edgeDesktop atEdge).zHitTest 40 8 = none := by decide
  rw [hnone] at miss
  exact miss 0x1000 (by decide) (by decide)

end Warpine.Pm
