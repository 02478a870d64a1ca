import Warpine.Lib.Forest
import Warpine.Lib.Run
import Warpine.Pm.WindowRun
import Mathlib.Data.UInt

/-! The parent links of the windows: which parents a guest may name so that they stay
a forest, and the walks that follow them. -/
namespace Warpine.Pm
open Warpine.Lib

def menuBarHeight : Int32 := 20

namespace WindowManager

variable (wm : WindowManager)

/-- Walks up to the top-level frame, or to the last window below none. -/
def findFrameForHwnd : Nat → Hwnd → Option Hwnd
  | 0, _ => none
  | fuel + 1, h =>
      match wm.windows h with
      | none => some h
      | some win =>
          if win.parent = 0 then some h
          else if wm.isFrame win.parent then some win.parent
          else findFrameForHwnd fuel win.parent

/-- The loop of the absolute rectangle, which sums up the offsets on its way. -/
def absOrigin : Nat → Hwnd → Int32 → Int32 → Option (Int32 × Int32)
  | 0, _, _, _ => none
  | fuel + 1, h, ax, ay =>
      match wm.windows h with
      | none => some (ax, ay)
      | some win =>
          let ax := ax + win.x
          let ay := ay + win.y
          if win.parent = 0 then some (ax, ay)
          else if wm.isFrame win.parent then some (ax, ay)
          else absOrigin fuel win.parent ax ay

/-- The rectangle of a window in the client area of its root frame. -/
def getAbsRectInFrame (fuel : Nat) (hwnd : Hwnd) : Option (Int32 × Int32 × Int32 × Int32) :=
  let (cx, cy) := ((wm.windows hwnd).map fun win => (win.cx, win.cy)).getD (0, 0)
  (wm.absOrigin fuel hwnd 0 0).map fun (ax, ay) => (ax, ay, cx, cy)

/-- The items of a menu stand beside its window. -/
def winCreateMenu (parent : Hwnd) : Hwnd × WindowManager := wm.createWindow "#Menu" parent 0

def winLoadMenu (frame : Hwnd) : Hwnd × WindowManager :=
  let (frameCx, frameCy) := ((wm.windows frame).map fun win => (win.cx, win.cy)).getD (640, 480)
  let (h, wm) := wm.createWindow "#Menu" frame 0
  let wm := wm.modifyWindow h fun win => { win with
    x := 0
    y := frameCy - chromeTitleH - menuBarHeight
    cx := frameCx
    cy := menuBarHeight }
  (h, match wm.findHmqForHwnd frame with
    | some hmq => wm.post hmq [.plain h wmPaint 0 0]
    | none => wm)

/-- The parent that a walk goes on to; zero stands for none. -/
def parentLink (parent : Hwnd) : Option Hwnd := if parent = 0 then none else some parent

def links : Hwnd → Option Hwnd := fun h => (wm.windows h).bind fun win => parentLink win.parent

/-- The links are a forest, and the walks along them end. -/
structure Rooted : Prop where
  forest : Forest wm.links
  frame : ∀ hwnd, Ends fun fuel => wm.findFrameForHwnd fuel hwnd
  rect : ∀ hwnd, Ends fun fuel => wm.getAbsRectInFrame fuel hwnd

section Links

variable (h : Hwnd) (f : OS2Window → OS2Window) (className : String) (parent : Hwnd)
  (hmq : UInt32)

@[simp] theorem modifyWindow_links (same : ∀ win, (f win).parent = win.parent) :
    (wm.modifyWindow h f).links = wm.links := by
  unfold modifyWindow
  cases hwin : wm.windows h with
  | none => rfl
  | some win =>
    ext1 other
    by_cases here : other = h
    · simp [links, here, hwin, same]
    · simp [links, here]

@[simp] theorem modifyWindow_nextHwnd : (wm.modifyWindow h f).nextHwnd = wm.nextHwnd := by
  unfold modifyWindow
  split <;> rfl

@[simp] theorem createWindow_fst : (wm.createWindow className parent hmq).1 = wm.nextHwnd := by
  unfold createWindow
  split <;> rfl

@[simp] theorem createWindow_nextHwnd :
    (wm.createWindow className parent hmq).2.nextHwnd = wm.nextHwnd + 1 := by
  unfold createWindow
  split <;> simp

@[simp] theorem createWindow_links :
    (wm.createWindow className parent hmq).2.links =
      Function.update wm.links wm.nextHwnd (parentLink parent) := by
  have inserted (win : OS2Window) (hparent : win.parent = parent) :
      ({ wm with windows := wm.windows.insert wm.nextHwnd win } : WindowManager).links =
        Function.update wm.links wm.nextHwnd (parentLink parent) := by
    ext1 other
    by_cases here : other = wm.nextHwnd
    · simp [links, here, hparent]
    · simp [links, here]
  unfold createWindow
  dsimp only
  split
  · apply (modifyWindow_links _ _ _ ?_).trans
    · apply inserted
      rfl
    · intro win
      rfl
  · apply inserted
    rfl

@[simp] theorem post_links (messages : List OS2Message) :
    (wm.post hmq messages).links = wm.links := by
  unfold links
  rw [post_windows]

@[simp] theorem postTo_links (message : OS2Message) : (wm.postTo h message).links = wm.links := by
  unfold links
  rw [postTo_windows]

@[simp] theorem zPushTop_links : (wm.zPushTop h).links = wm.links := rfl

@[simp] theorem zPushTop_nextHwnd : (wm.zPushTop h).nextHwnd = wm.nextHwnd := rfl

end Links

theorem links_some {h : Hwnd} {win : OS2Window} (found : wm.windows h = some win)
    (below : win.parent ≠ 0) : wm.links h = some win.parent := by
  simp [links, found, parentLink, below]

instance : Finite Hwnd :=
  .of_injective UInt32.toFin fun _ _ same => UInt32.toFin_inj.mp same

variable {wm}

theorem findFrame_ends (forest : Forest wm.links) (hwnd : Hwnd) :
    Ends fun fuel => wm.findFrameForHwnd fuel hwnd := by
  induction hwnd using forest.wellFounded.induction with | h hwnd ih
  cases found : wm.windows hwnd with
  | none => exact .now hwnd fun fuel => by simp [findFrameForHwnd, found]
  | some win =>
    by_cases root : win.parent = 0
    · exact .now hwnd fun fuel => by simp [findFrameForHwnd, found, root]
    by_cases frame : wm.isFrame win.parent
    · exact .now win.parent fun fuel => by simp [findFrameForHwnd, found, root, frame]
    · refine Ends.step (fun fuel => ?_) (ih win.parent (wm.links_some found root))
      simp [findFrameForHwnd, found, root, frame]

theorem absOrigin_ends (forest : Forest wm.links) (hwnd : Hwnd) (ax ay : Int32) :
    Ends fun fuel => wm.absOrigin fuel hwnd ax ay := by
  induction hwnd using forest.wellFounded.induction generalizing ax ay with | h hwnd ih
  cases found : wm.windows hwnd with
  | none => exact .now (ax, ay) fun fuel => by simp [absOrigin, found]
  | some win =>
    by_cases root : win.parent = 0
    · exact .now (ax + win.x, ay + win.y) fun fuel => by simp [absOrigin, found, root]
    by_cases frame : wm.isFrame win.parent
    · exact .now (ax + win.x, ay + win.y) fun fuel => by simp [absOrigin, found, root, frame]
    · refine Ends.step (fun fuel => ?_)
        (ih win.parent (wm.links_some found root) (ax + win.x) (ay + win.y))
      simp [absOrigin, found, root, frame]

/-- Along a forest every walk ends. -/
theorem Rooted.of_forest (forest : Forest wm.links) : wm.Rooted where
  forest := forest
  frame := findFrame_ends forest
  rect := by
    intro hwnd
    obtain ⟨fuel, origin, rest⟩ := absOrigin_ends forest hwnd 0 0
    let size := ((wm.windows hwnd).map fun win => (win.cx, win.cy)).getD (0, 0)
    refine ⟨fuel, (origin.1, origin.2, size.1, size.2), fun more enough => ?_⟩
    have there : wm.absOrigin more hwnd 0 0 = some origin := rest more enough
    simp only [getAbsRectInFrame, there]
    rfl

end WindowManager

/-- The links after some windows are created below one root. -/
def plantBelow (up : Hwnd → Option Hwnd) (root child : Hwnd) : Nat → Hwnd → Option Hwnd
  | 0 => up
  | n + 1 => plantBelow (Function.update up child (WindowManager.parentLink root)) root (child + 1) n

theorem handle_succ (child : Hwnd) (j : Nat) :
    child + 1 + UInt32.ofNat j = child + UInt32.ofNat (j + 1) := by
  rw [UInt32.ofNat_add, add_assoc, add_comm 1]
  rfl

theorem plantBelow_forest {up : Hwnd → Option Hwnd} (forest : Forest up) (root child : Hwnd)
    (n : Nat) (apart : ∀ j < n, ¬Climbs up root (child + UInt32.ofNat j)) :
    Forest (plantBelow up root child n) := by
  induction n generalizing up child with
  | zero => exact forest
  | succ n ih =>
    have here : ¬Climbs up root child := by simpa using apart 0 (Nat.succ_pos n)
    refine ih (forest.update ?_) (child + 1) ?_
    · intro p link
      have same : p = root := by
        unfold WindowManager.parentLink at link
        split at link
        · contradiction
        · exact (Option.some.inj link).symm
      rwa [same]
    · intro j hj
      rw [climbs_update here, handle_succ]
      exact apart (j + 1) (by omega)

/-- The window calls, with the two that make menus. -/
inductive TreeCall where
  | window (call : WindowCall)
  | createMenu (parent : Hwnd)
  | loadMenu (frame : Hwnd)

def WindowManager.execTree (wm : WindowManager) : TreeCall → WindowManager
  | .window call => wm.exec call
  | .createMenu parent => (wm.winCreateMenu parent).2
  | .loadMenu frame => (wm.winLoadMenu frame).2

def controls (template : Option DlgTemplate) : Nat :=
  (template.map fun t => t.items.length).getD 0

/-- The parent that the guest names for a new window, and how many more windows the call
creates below that one. -/
def TreeCall.plants : TreeCall → Option (Hwnd × Nat)
  | .window (.createStdWindow _ parent _ _ _ _) => some (parent, 1)
  | .window (.createWindow _ parent _ _ _ _ _ _ _ _) => some (parent, 0)
  | .window (.dlgBox _ parent pfnDlgProc template _) =>
      if pfnDlgProc = 0 then none else some (parent, controls template)
  | .window (.loadDlg _ parent _ template _) => some (parent, controls template)
  | .createMenu parent | .loadMenu parent => some (parent, 0)
  | _ => none

namespace WindowManager

variable (wm : WindowManager)

theorem createDlgItems_links (dlg : Hwnd) (hmq : UInt32) (items : List DlgItem) :
    (items.foldl (fun wm item => wm.createDlgItem dlg hmq item) wm).links =
      plantBelow wm.links dlg wm.nextHwnd items.length := by
  induction items generalizing wm with
  | nil => rfl
  | cons item rest ih =>
    have one : (wm.createDlgItem dlg hmq item).links =
        Function.update wm.links wm.nextHwnd (parentLink dlg) := by
      simp [createDlgItem]
    have next : (wm.createDlgItem dlg hmq item).nextHwnd = wm.nextHwnd + 1 := by
      simp [createDlgItem]
    rw [List.foldl_cons, ih, one, next]
    rfl

theorem createDialog_links (tid : UInt32) (parent : Hwnd) (pfnDlgProc : UInt32)
    (template : DlgTemplate) :
    (wm.createDialogFromTemplate tid parent pfnDlgProc template).2.links =
      plantBelow (Function.update wm.links wm.nextHwnd (parentLink parent)) wm.nextHwnd
        (wm.nextHwnd + 1) template.items.length := by
  unfold createDialogFromTemplate
  dsimp only
  rw [createDlgItems_links]
  simp

theorem winLoadDlg_links (tid : UInt32) (parent : Hwnd) (pfnDlgProc : UInt32)
    (template : Option DlgTemplate) (pCreateParams : UInt32) :
    (wm.winLoadDlg tid parent pfnDlgProc template pCreateParams).2.links =
      plantBelow (Function.update wm.links wm.nextHwnd (parentLink parent)) wm.nextHwnd
        (wm.nextHwnd + 1) (controls template) := by
  unfold winLoadDlg
  cases template with
  | some template =>
    rw [controls, Option.map_some, Option.getD_some,
      ← wm.createDialog_links tid parent pfnDlgProc template]
    dsimp only
    split <;> simp
  | none =>
    dsimp only
    split <;> simp [plantBelow, controls]

@[simp] theorem markDirty_links (hwnd : Hwnd) : (wm.markDirty hwnd).links = wm.links := rfl

@[simp] theorem focus_links (hwnd : Hwnd) : (wm.focus hwnd).links = wm.links := rfl

@[simp] theorem linkClient_links (frame client : Hwnd) :
    (wm.linkClient frame client).links = wm.links := rfl

@[simp] theorem placeBehind_links (hwnd behind : Hwnd) :
    (wm.placeBehind hwnd behind).links = wm.links := by
  unfold links
  rw [placeBehind_windows]

theorem activate_links (frame : Hwnd) : ((wm.focus frame).zPushTop frame).links = wm.links := rfl

variable {wm} in
theorem links_ite {next : WindowManager} (same : next.links = wm.links) (c : Prop) [Decidable c] :
    (if c then next else wm).links = wm.links := by
  split
  · exact same
  · rfl

theorem winSetWindowPos_links (hwnd behind : Hwnd) (x y cx cy : Int32) (fl : UInt32) :
    (wm.winSetWindowPos hwnd behind x y cx cy fl).links = wm.links := by
  unfold winSetWindowPos
  dsimp only
  refine Eq.trans (links_ite (markDirty_links _ hwnd) _) ?_
  refine Eq.trans (links_ite (activate_links _ hwnd) _) ?_
  refine Eq.trans (links_ite (placeBehind_links _ hwnd behind) _) ?_
  refine wm.modifyWindow_links hwnd _ fun win => ?_
  split_ifs <;> rfl

theorem winSetActiveWindow_links (hwnd : Hwnd) :
    (wm.winSetActiveWindow hwnd).links = wm.links := by
  unfold winSetActiveWindow
  dsimp only
  split_ifs <;> simp

/-- The links after a call that plants nothing, and after one that does. -/
theorem execTree_links (call : TreeCall) :
    (wm.execTree call).links = match call.plants with
      | none => wm.links
      | some (parent, n) =>
          plantBelow (Function.update wm.links wm.nextHwnd (parentLink parent)) wm.nextHwnd
            (wm.nextHwnd + 1) n := by
  cases call with
  | createMenu parent => exact wm.createWindow_links "#Menu" parent 0
  | loadMenu frame =>
    simp only [execTree, winLoadMenu, TreeCall.plants]
    split <;> simp [plantBelow]
  | window call =>
    cases call with
    | createStdWindow =>
      simp [execTree, exec, winCreateStdWindow, TreeCall.plants, plantBelow]
    | createWindow =>
      simp only [execTree, exec, winCreateWindow, TreeCall.plants]
      split <;> simp [plantBelow]
    | dlgBox tid parent pfnDlgProc template pCreateParams =>
      by_cases noProc : pfnDlgProc = 0
      · simp [execTree, exec, winDlgBox, TreeCall.plants, noProc]
      · simpa [execTree, exec, winDlgBox, TreeCall.plants, noProc] using
          wm.winLoadDlg_links tid parent pfnDlgProc template pCreateParams
    | loadDlg tid parent pfnDlgProc template pCreateParams =>
      exact wm.winLoadDlg_links tid parent pfnDlgProc template pCreateParams
    | setWindowPos hwnd behind x y cx cy fl =>
      exact wm.winSetWindowPos_links hwnd behind x y cx cy fl
    | setActiveWindow hwnd => exact wm.winSetActiveWindow_links hwnd
    | showWindow hwnd show' => exact wm.modifyWindow_links hwnd _ fun _ => rfl
    | subclassWindow hwnd => exact wm.modifyWindow_links hwnd _ fun _ => rfl
    | dismissDlg hwnd => exact wm.modifyWindow_links hwnd _ fun _ => rfl
    | destroyWindow hwnd =>
      simp only [execTree, exec, winDestroyWindow, TreeCall.plants]
      split <;> rfl
    | setAccelTable hwnd haccel =>
      simp only [execTree, exec, setWindowAccel, TreeCall.plants]
      split <;> rfl
    | postMsg hwnd => exact wm.postTo_links hwnd _
    | registerClass | createMsgQueue | endDialog | startTimer | stopTimer => rfl

/-- The chain of the parent that the guest names leads to none of the handles that come
next. A template counts its controls in 16 bits. -/
def ParentClear (call : TreeCall) : Prop :=
  ∀ parent n, call.plants = some (parent, n) → n < 2 ^ 16 ∧
    (parent = 0 ∨ ∀ i ≤ n, ¬Climbs wm.links parent (wm.nextHwnd + UInt32.ofNat i))

theorem handle_ne (h : Hwnd) {j : Nat} (pos : 0 < j) (small : j < 2 ^ 32) :
    h + UInt32.ofNat j ≠ h := by
  intro same
  have zero : UInt32.ofNat j = 0 := by simpa using same
  have value := congrArg UInt32.toNat zero
  rw [UInt32.toNat_ofNat_of_lt' small] at value
  exact absurd value (Nat.pos_iff_ne_zero.mp pos)

variable {wm}

/-- The new root hangs clear of the new handles, and the other windows hang below it. -/
theorem plant_forest (forest : Forest wm.links) {parent : Hwnd} {n : Nat} (small : n < 2 ^ 16)
    (clear : parent = 0 ∨ ∀ i ≤ n, ¬Climbs wm.links parent (wm.nextHwnd + UInt32.ofNat i)) :
    Forest (plantBelow (Function.update wm.links wm.nextHwnd (parentLink parent)) wm.nextHwnd
      (wm.nextHwnd + 1) n) := by
  have fresh (j : Nat) (hj : j < n) : wm.nextHwnd + 1 + UInt32.ofNat j ≠ wm.nextHwnd := by
    rw [handle_succ]
    exact handle_ne wm.nextHwnd (Nat.succ_pos j) (by omega)
  by_cases root : parent = 0
  · have link : parentLink parent = none := by simp [parentLink, root]
    refine plantBelow_forest (forest.update ?_) _ _ _ fun j hj climbs => ?_
    · rw [link]
      rintro p ⟨⟩
    · exact fresh j hj (climbs.of_root (by simp [link]))
  · have link : parentLink parent = some parent := by simp [parentLink, root]
    have apart := clear.resolve_left root
    have here : ¬Climbs wm.links parent wm.nextHwnd := by simpa using apart 0 (Nat.zero_le n)
    refine plantBelow_forest (forest.update ?_) _ _ _ fun j hj climbs => ?_
    · rw [link]
      rintro p ⟨⟩
      exact here
    · rcases climbs.of_child (by simpa using link) with same | above
      · exact fresh j hj same
      · rw [climbs_update here, handle_succ] at above
        exact apart (j + 1) hj above

theorem execTree_forest {call : TreeCall} (clear : wm.ParentClear call)
    (forest : Forest wm.links) : Forest (wm.execTree call).links := by
  rw [execTree_links]
  cases planted : call.plants with
  | none => exact forest
  | some root =>
    obtain ⟨small, apart⟩ := clear root.1 root.2 planted
    exact plant_forest forest small apart

def treeStep : Step WindowManager TreeCall := fun wm call next => next = wm.execTree call

/-- Where no guest names a parent that leads to a handle still to come, the windows are a
forest and the walks end. -/
theorem clear_run_rooted {calls : List TreeCall} {finish : WindowManager}
    (run : Run (Step.guarded treeStep ParentClear) .new calls finish) : finish.Rooted := by
  apply Rooted.of_forest
  refine run.invariant (fun wm => Forest wm.links) ?_ (forest_of_roots fun _ => rfl)
  rintro start call finish forest ⟨clear, rfl⟩
  exact execTree_forest clear forest

def stdWindow (parent : Hwnd) : TreeCall := .window (.createStdWindow 1 parent 0 0 "Frame" "Title")

theorem clear_run_rooted_menu :
    ((new.execTree (stdWindow 0)).execTree (.createMenu 0x1000)).Rooted := by
  refine clear_run_rooted (.cons ⟨?_, rfl⟩ (.cons ⟨?_, rfl⟩ (.nil _)))
  · rintro parent n ⟨⟩
    exact ⟨by decide, .inl rfl⟩
  · rintro parent n ⟨⟩
    refine ⟨by decide, .inr fun i hi climbs => ?_⟩
    have same := climbs.of_root (by decide)
    obtain rfl : i = 0 := Nat.le_zero.mp hi
    exact absurd same (by decide)

/-- A first window that names its own handle as its parent: the walk from it never ends. -/
theorem own_parent_loops : ¬∀ (calls : List TreeCall) (finish : WindowManager),
    Run treeStep .new calls finish → finish.Rooted := by
  intro all
  let call : TreeCall := .window (.createWindow 1 0x1000 "WC_BUTTON" "" 0 0 0 0 0 0)
  have rooted := all [call] _ (.cons rfl (.nil _))
  obtain ⟨fuel, result, ends⟩ := rooted.frame 0x1000
  have loops (fuel : Nat) : (new.execTree call).findFrameForHwnd fuel 0x1000 = none := by
    induction fuel with
    | zero => rfl
    | succ fuel ih => exact ih
  have found := (loops fuel).symm.trans (ends fuel (Nat.le_refl fuel))
  contradiction

end WindowManager
end Warpine.Pm
