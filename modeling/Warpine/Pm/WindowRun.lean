import Warpine.Pm.WindowCalls

/-! The windows over any sequence of calls: the stack and the focus stay in order,
and what a destroyed window leaves behind. -/
namespace Warpine.Pm
open Warpine.Lib

namespace WindowManager

variable (wm : WindowManager) (h other : Hwnd)

section Frames
variable (f : OS2Window → OS2Window) (className : String) (parent : Hwnd) (hmq : UInt32)
  (messages : List OS2Message) (message : OS2Message)

@[simp] theorem modifyWindow_zOrder : (wm.modifyWindow h f).zOrder = wm.zOrder := by
  unfold modifyWindow
  split <;> rfl

@[simp] theorem modifyWindow_focusedHwnd :
    (wm.modifyWindow h f).focusedHwnd = wm.focusedHwnd := by
  unfold modifyWindow
  split <;> rfl

@[simp] theorem modifyWindow_isSome :
    ((wm.modifyWindow h f).windows other).isSome = (wm.windows other).isSome := by
  unfold modifyWindow
  split
  · rename_i win hwin
    by_cases same : other = h
    · simp [same, hwin]
    · simp [same]
  · rfl

@[simp] theorem createWindow_zOrder :
    (wm.createWindow className parent hmq).2.zOrder = wm.zOrder := by
  unfold createWindow
  split <;> simp

@[simp] theorem createWindow_focusedHwnd :
    (wm.createWindow className parent hmq).2.focusedHwnd = wm.focusedHwnd := by
  unfold createWindow
  split <;> simp

theorem createWindow_isSome (there : (wm.windows other).isSome) :
    ((wm.createWindow className parent hmq).2.windows other).isSome := by
  have inserted (win : OS2Window) :
      ((wm.windows.insert wm.nextHwnd win) other).isSome := by
    by_cases same : other = wm.nextHwnd
    · simp [same]
    · simpa [same] using there
  unfold createWindow
  split <;> simp [inserted]

@[simp] theorem post_zOrder : (wm.post hmq messages).zOrder = wm.zOrder := by
  unfold post
  split <;> rfl

@[simp] theorem post_focusedHwnd : (wm.post hmq messages).focusedHwnd = wm.focusedHwnd := by
  unfold post
  split <;> rfl

@[simp] theorem post_windows : (wm.post hmq messages).windows = wm.windows := by
  unfold post
  split <;> rfl

@[simp] theorem postTo_zOrder : (wm.postTo h message).zOrder = wm.zOrder := by
  unfold postTo
  split <;> simp

@[simp] theorem postTo_focusedHwnd : (wm.postTo h message).focusedHwnd = wm.focusedHwnd := by
  unfold postTo
  split <;> simp

@[simp] theorem postTo_windows : (wm.postTo h message).windows = wm.windows := by
  unfold postTo
  split <;> simp

end Frames

/-- No window is stacked twice, and the focus is on a stacked window or on none. -/
structure StackOk : Prop where
  nodup : wm.zOrder.Nodup
  focus : wm.focusedHwnd = 0 ∨ wm.focusedHwnd ∈ wm.zOrder

/-- Placing a window: it is in the stack once, and no other comes or goes. -/
structure Placed (frame : Hwnd) (old new : List Hwnd) : Prop where
  mem : ∀ x, x ∈ new ↔ x = frame ∨ x ∈ old
  nodup : old.Nodup → new.Nodup

theorem without_nodup {old : List Hwnd} (nodup : old.Nodup) (frame : Hwnd) :
    (old.filter (· ≠ frame)).Nodup :=
  nodup.filter _

theorem placed_perm {frame : Hwnd} {old new : List Hwnd}
    (perm : new.Perm (frame :: old.filter (· ≠ frame))) : Placed frame old new where
  mem := by
    intro x
    rw [perm.mem_iff]
    by_cases same : x = frame <;> simp [same]
  nodup := by
    intro nodup
    rw [perm.nodup_iff, List.nodup_cons]
    exact ⟨by simp, without_nodup nodup frame⟩

theorem zPushTop_placed (frame : Hwnd) : Placed frame wm.zOrder (wm.zPushTop frame).zOrder := by
  apply placed_perm
  simp only [zPushTop, markAllDirty]
  split
  · exact List.perm_append_comm
  · rename_i absent
    have same : wm.zOrder.filter (· ≠ frame) = wm.zOrder := by
      apply List.filter_eq_self.mpr
      intro x hx
      simp only [decide_eq_true_eq]
      exact fun h => absent (h ▸ hx)
    rw [same]
    exact List.perm_append_comm

theorem zPushBottom_placed (frame : Hwnd) :
    Placed frame wm.zOrder (wm.zPushBottom frame).zOrder :=
  placed_perm (.refl _)

theorem zInsertBehind_placed (frame behind : Hwnd) :
    Placed frame wm.zOrder (wm.zInsertBehind frame behind).zOrder := by
  apply placed_perm
  simp only [zInsertBehind, markAllDirty]
  split
  · rename_i pos _
    refine List.perm_middle.trans ?_
    rw [List.take_append_drop]
  · exact List.perm_append_comm

variable {wm} in
theorem StackOk.place (ok : wm.StackOk) {next : WindowManager} {frame : Hwnd}
    (placed : Placed frame wm.zOrder next.zOrder)
    (focus : next.focusedHwnd = wm.focusedHwnd ∨ next.focusedHwnd = frame) : next.StackOk where
  nodup := placed.nodup ok.nodup
  focus := by
    rcases focus with h | h
    · rw [h]
      exact ok.focus.imp_right fun there => (placed.mem _).mpr (.inr there)
    · rw [h]
      exact .inr ((placed.mem _).mpr (.inl rfl))

variable {wm} in
/-- Calls that do not touch the stack. -/
theorem StackOk.same (ok : wm.StackOk) {next : WindowManager} (stack : next.zOrder = wm.zOrder)
    (focus : next.focusedHwnd = wm.focusedHwnd) : next.StackOk where
  nodup := stack ▸ ok.nodup
  focus := by rw [stack, focus]; exact ok.focus

variable {wm} in
theorem StackOk.zRemove (ok : wm.StackOk) (frame : Hwnd) : (wm.zRemove frame).StackOk where
  nodup := without_nodup ok.nodup frame
  focus := by
    simp only [WindowManager.zRemove, markAllDirty]
    split
    · cases htop : (wm.zOrder.filter (· ≠ frame)).getLast? with
      | none => exact .inl rfl
      | some top => exact .inr (List.mem_of_getLast? htop)
    · rename_i apart
      refine ok.focus.imp_right fun there => ?_
      simpa [there] using apart

/-- No window's record goes away. -/
def Keeps (next : WindowManager) : Prop :=
  ∀ h, (wm.windows h).isSome → (next.windows h).isSome

@[simp] theorem zPushTop_windows (frame : Hwnd) : (wm.zPushTop frame).windows = wm.windows := rfl

@[simp] theorem placeBehind_windows (hwnd behind : Hwnd) :
    (wm.placeBehind hwnd behind).windows = wm.windows := by
  unfold placeBehind
  repeat' split
  all_goals rfl

/-- What a call does to the stack and to the records. -/
structure Tidy (next : WindowManager) : Prop where
  stack : wm.StackOk → next.StackOk
  keeps : wm.Keeps next

section Calls

variable {wm} {next last : WindowManager}

theorem Tidy.refl : wm.Tidy wm := ⟨id, fun _ => id⟩

theorem Tidy.trans (first : wm.Tidy next) (second : next.Tidy last) : wm.Tidy last :=
  ⟨second.stack ∘ first.stack, fun h => second.keeps h ∘ first.keeps h⟩

/-- Calls that only touch queues, timers, accelerators and the like. -/
theorem Tidy.aside (stack : next.zOrder = wm.zOrder) (focus : next.focusedHwnd = wm.focusedHwnd)
    (windows : next.windows = wm.windows) : wm.Tidy next :=
  ⟨fun ok => ok.same stack focus, fun _ there => windows ▸ there⟩

end Calls

theorem modifyWindow_tidy (h : Hwnd) (f : OS2Window → OS2Window) :
    wm.Tidy (wm.modifyWindow h f) where
  stack := fun ok => ok.same (by simp) (by simp)
  keeps := by simp [Keeps]

theorem createWindow_tidy (className : String) (parent : Hwnd) (hmq : UInt32) :
    wm.Tidy (wm.createWindow className parent hmq).2 where
  stack := fun ok => ok.same (by simp) (by simp)
  keeps := fun h => wm.createWindow_isSome h className parent hmq

theorem post_tidy (hmq : UInt32) (messages : List OS2Message) : wm.Tidy (wm.post hmq messages) :=
  .aside (by simp) (by simp) (by simp)

theorem postTo_tidy (hwnd : Hwnd) (message : OS2Message) : wm.Tidy (wm.postTo hwnd message) :=
  .aside (by simp) (by simp) (by simp)

theorem placed_tidy {next : WindowManager} {frame : Hwnd}
    (placed : Placed frame wm.zOrder next.zOrder)
    (focus : next.focusedHwnd = wm.focusedHwnd ∨ next.focusedHwnd = frame)
    (windows : next.windows = wm.windows) : wm.Tidy next where
  stack := fun ok => ok.place placed focus
  keeps := fun _ there => windows ▸ there

theorem zRemove_tidy (frame : Hwnd) : wm.Tidy (wm.zRemove frame) where
  stack := fun ok => ok.zRemove frame
  keeps := fun _ => id

/-- Focus together with the top of the stack. -/
theorem activate_tidy (frame : Hwnd) : wm.Tidy ((wm.focus frame).zPushTop frame) :=
  wm.placed_tidy ((wm.focus frame).zPushTop_placed frame) (.inr rfl) rfl

variable {wm} in
theorem Tidy.ite {next : WindowManager} (tidy : wm.Tidy next) (c : Prop) [Decidable c] :
    wm.Tidy (if c then next else wm) := by
  split
  · exact tidy
  · exact .refl

theorem placeBehind_tidy (hwnd behind : Hwnd) : wm.Tidy (wm.placeBehind hwnd behind) := by
  unfold placeBehind
  split
  · exact wm.placed_tidy (wm.zPushTop_placed hwnd) (.inl rfl) rfl
  split
  · exact wm.placed_tidy (wm.zPushBottom_placed hwnd) (.inl rfl) rfl
  split
  · exact .refl
  · exact wm.placed_tidy (wm.zInsertBehind_placed hwnd behind) (.inl rfl) rfl

theorem winCreateMsgQueue_tidy (tid : UInt32) : wm.Tidy (wm.winCreateMsgQueue tid) :=
  .aside rfl rfl rfl

theorem linkClient_tidy (frame client : Hwnd) : wm.Tidy (wm.linkClient frame client) :=
  .aside rfl rfl rfl

theorem markDirty_tidy (hwnd : Hwnd) : wm.Tidy (wm.markDirty hwnd) := .aside rfl rfl rfl

theorem winCreateStdWindow_tidy (tid : UInt32) (parent : Hwnd) (style flCreateFlags : UInt32)
    (className title : String) :
    wm.Tidy (wm.winCreateStdWindow tid parent style flCreateFlags className title).2 := by
  unfold winCreateStdWindow
  dsimp only
  refine Tidy.trans ?_ (post_tidy _ _ _)
  refine Tidy.trans ?_ (placed_tidy _ (zPushTop_placed _ _) (.inr rfl) rfl)
  refine Tidy.trans ?_ (modifyWindow_tidy _ _ _)
  refine Tidy.trans ?_ (modifyWindow_tidy _ _ _)
  refine Tidy.trans ?_ (linkClient_tidy _ _ _)
  exact (wm.createWindow_tidy _ _ _).trans (createWindow_tidy _ _ _ _)

theorem winCreateWindow_tidy (tid : UInt32) (parent : Hwnd) (className text : String)
    (flStyle : UInt32) (x y cx cy : Int32) (id : UInt32) :
    wm.Tidy (wm.winCreateWindow tid parent className text flStyle x y cx cy id).2 := by
  unfold winCreateWindow
  dsimp only
  have created := wm.createWindow_tidy className parent (wm.threadMq tid)
  split
  · refine Tidy.trans ?_ (post_tidy _ _ _)
    exact created.trans (modifyWindow_tidy _ _ _)
  · exact created.trans (modifyWindow_tidy _ _ _)

theorem createDlgItem_tidy (dlg : Hwnd) (hmq : UInt32) (item : DlgItem) :
    wm.Tidy (wm.createDlgItem dlg hmq item) :=
  Tidy.trans (wm.createWindow_tidy _ dlg hmq) (modifyWindow_tidy _ _ _)

theorem createDlgItems_tidy (dlg : Hwnd) (hmq : UInt32) (items : List DlgItem) :
    wm.Tidy (items.foldl (fun wm item => wm.createDlgItem dlg hmq item) wm) := by
  induction items generalizing wm with
  | nil => exact .refl
  | cons item rest ih => exact (wm.createDlgItem_tidy dlg hmq item).trans (ih _)

theorem createDialogFromTemplate_tidy (tid : UInt32) (parent : Hwnd) (pfnDlgProc : UInt32)
    (template : DlgTemplate) :
    wm.Tidy (wm.createDialogFromTemplate tid parent pfnDlgProc template).2 := by
  unfold createDialogFromTemplate
  dsimp only
  refine Tidy.trans ?_ (createDlgItems_tidy _ _ _ _)
  refine Tidy.trans ?_ (placed_tidy _ (zPushTop_placed _ _) (.inl rfl) rfl)
  exact Tidy.trans (wm.createWindow_tidy _ parent _) (modifyWindow_tidy _ _ _)

theorem winLoadDlg_tidy (tid : UInt32) (parent : Hwnd) (pfnDlgProc : UInt32)
    (template : Option DlgTemplate) (pCreateParams : UInt32) :
    wm.Tidy (wm.winLoadDlg tid parent pfnDlgProc template pCreateParams).2 := by
  unfold winLoadDlg
  cases template with
  | some template =>
    exact (wm.createDialogFromTemplate_tidy tid parent pfnDlgProc template).trans
      ((post_tidy _ _ _).ite _)
  | none =>
    have created := wm.createWindow_tidy "#Dialog" parent (wm.threadMq tid)
    exact (created.trans (modifyWindow_tidy _ _ _)).trans ((post_tidy _ _ _).ite _)

theorem winSetWindowPos_tidy (hwnd behind : Hwnd) (x y cx cy : Int32) (fl : UInt32) :
    wm.Tidy (wm.winSetWindowPos hwnd behind x y cx cy fl) := by
  unfold winSetWindowPos
  dsimp only
  refine Tidy.trans ?_ ((markDirty_tidy _ hwnd).ite _)
  refine Tidy.trans ?_ ((activate_tidy _ hwnd).ite _)
  refine Tidy.trans ?_ ((placeBehind_tidy _ hwnd behind).ite _)
  exact wm.modifyWindow_tidy hwnd _

theorem winSetActiveWindow_tidy (hwnd : Hwnd) : wm.Tidy (wm.winSetActiveWindow hwnd) := by
  unfold winSetActiveWindow
  dsimp only
  refine Tidy.ite ((wm.activate_tidy _).trans (Tidy.ite ?_ _)) _
  exact ((postTo_tidy _ _ _).ite _).trans (postTo_tidy _ _ _)

theorem winShowWindow_tidy (hwnd : Hwnd) (show' : Bool) : wm.Tidy (wm.winShowWindow hwnd show') :=
  (wm.modifyWindow_tidy hwnd _).trans (.aside rfl rfl rfl)

theorem winDestroyWindow_tidy (hwnd : Hwnd) : wm.Tidy (wm.winDestroyWindow hwnd) := by
  unfold winDestroyWindow
  split
  · exact (wm.zRemove_tidy hwnd).trans (.aside rfl rfl rfl)
  · exact .refl

theorem setWindowAccel_tidy (hwnd : Hwnd) (haccel : UInt32) :
    wm.Tidy (wm.setWindowAccel hwnd haccel) := by
  unfold setWindowAccel
  split <;> exact .aside rfl rfl rfl

/-- What is left of a window that is gone: nothing that a search, a hit test or a
posted message could find. -/
structure Gone : Prop where
  window : wm.windows h = none
  children : ∀ parent win, wm.windows parent = some win → h ∉ win.children
  stack : h ∉ wm.zOrder
  frame : wm.isFrame h = false
  timers : ∀ idTimer, wm.timers (h, idTimer) = none
  accel : wm.windowAccel h = none
  hit : ∀ px py, wm.zHitTest px py ≠ some h
  child : ∀ parent id, wm.findChildById parent id ≠ some h
  posted : ∀ msg mp1 mp2, wm.winPostMsg h msg mp1 mp2 = wm

/-- There is such a window, and it is a frame or a dialog. -/
def isFrameOrDialog : Bool :=
  (wm.windows h).any fun win => wm.isFrame h || win.className = "#Dialog"

end WindowManager

inductive WindowCall where
  | registerClass (name : String) (pfnWp style : UInt32)
  | createMsgQueue (tid : UInt32)
  | createStdWindow (tid : UInt32) (parent : Hwnd) (style flCreateFlags : UInt32)
      (className title : String)
  | createWindow (tid : UInt32) (parent : Hwnd) (className text : String) (flStyle : UInt32)
      (x y cx cy : Int32) (id : UInt32)
  | dlgBox (tid : UInt32) (parent : Hwnd) (pfnDlgProc : UInt32) (template : Option DlgTemplate)
      (pCreateParams : UInt32)
  | loadDlg (tid : UInt32) (parent : Hwnd) (pfnDlgProc : UInt32) (template : Option DlgTemplate)
      (pCreateParams : UInt32)
  | dismissDlg (hwnd : Hwnd) (result : UInt32)
  /-- The end of a modal loop takes its dialog off the stack. -/
  | endDialog (hwnd : Hwnd)
  | setWindowPos (hwnd behind : Hwnd) (x y cx cy : Int32) (fl : UInt32)
  | setActiveWindow (hwnd : Hwnd)
  | showWindow (hwnd : Hwnd) (show' : Bool)
  | destroyWindow (hwnd : Hwnd)
  | subclassWindow (hwnd : Hwnd) (pfnWp : UInt32)
  | startTimer (hwnd : Hwnd) (idTimer : UInt32)
  | stopTimer (hwnd : Hwnd) (idTimer : UInt32)
  | setAccelTable (hwnd : Hwnd) (haccel : UInt32)
  | postMsg (hwnd : Hwnd) (msg mp1 mp2 : UInt32)

def WindowManager.exec (wm : WindowManager) : WindowCall → WindowManager
  | .registerClass name pfnWp style => wm.registerClass name pfnWp style
  | .createMsgQueue tid => wm.winCreateMsgQueue tid
  | .createStdWindow tid parent style flCreateFlags className title =>
      (wm.winCreateStdWindow tid parent style flCreateFlags className title).2
  | .createWindow tid parent className text flStyle x y cx cy id =>
      (wm.winCreateWindow tid parent className text flStyle x y cx cy id).2
  | .dlgBox tid parent pfnDlgProc template pCreateParams =>
      ((wm.winDlgBox tid parent pfnDlgProc template pCreateParams).map Prod.snd).getD wm
  | .loadDlg tid parent pfnDlgProc template pCreateParams =>
      (wm.winLoadDlg tid parent pfnDlgProc template pCreateParams).2
  | .dismissDlg hwnd result => wm.winDismissDlg hwnd result
  | .endDialog hwnd => wm.zRemove hwnd
  | .setWindowPos hwnd behind x y cx cy fl => wm.winSetWindowPos hwnd behind x y cx cy fl
  | .setActiveWindow hwnd => wm.winSetActiveWindow hwnd
  | .showWindow hwnd show' => wm.winShowWindow hwnd show'
  | .destroyWindow hwnd => wm.winDestroyWindow hwnd
  | .subclassWindow hwnd pfnWp => wm.winSubclassWindow hwnd pfnWp
  | .startTimer hwnd idTimer => wm.winStartTimer hwnd idTimer
  | .stopTimer hwnd idTimer => wm.winStopTimer hwnd idTimer
  | .setAccelTable hwnd haccel => wm.setWindowAccel hwnd haccel
  | .postMsg hwnd msg mp1 mp2 => wm.winPostMsg hwnd msg mp1 mp2

theorem WindowManager.exec_tidy (wm : WindowManager) (call : WindowCall) :
    wm.Tidy (wm.exec call) := by
  cases call with
  | registerClass => exact .aside rfl rfl rfl
  | createMsgQueue tid => exact wm.winCreateMsgQueue_tidy tid
  | createStdWindow => exact wm.winCreateStdWindow_tidy ..
  | createWindow => exact wm.winCreateWindow_tidy ..
  | dlgBox tid parent pfnDlgProc template pCreateParams =>
    simp only [exec, winDlgBox]
    split
    · exact .refl
    · exact wm.winLoadDlg_tidy ..
  | loadDlg => exact wm.winLoadDlg_tidy ..
  | dismissDlg hwnd => exact wm.modifyWindow_tidy hwnd _
  | endDialog hwnd => exact wm.zRemove_tidy hwnd
  | setWindowPos => exact wm.winSetWindowPos_tidy ..
  | setActiveWindow hwnd => exact wm.winSetActiveWindow_tidy hwnd
  | showWindow hwnd show' => exact wm.winShowWindow_tidy hwnd show'
  | destroyWindow hwnd => exact wm.winDestroyWindow_tidy hwnd
  | subclassWindow hwnd => exact wm.modifyWindow_tidy hwnd _
  | startTimer | stopTimer => exact .aside rfl rfl rfl
  | setAccelTable hwnd haccel => exact wm.setWindowAccel_tidy hwnd haccel
  | postMsg hwnd => exact wm.postTo_tidy hwnd _

/-- The windows, with the frames and dialogs that were destroyed so far. -/
structure WindowState where
  wm : WindowManager
  destroyed : List Hwnd

namespace WindowState

def initial : WindowState := ⟨.new, []⟩

def exec (state : WindowState) (call : WindowCall) : WindowState where
  wm := state.wm.exec call
  destroyed := match call with
    | .destroyWindow hwnd =>
        if state.wm.isFrameOrDialog hwnd then hwnd :: state.destroyed else state.destroyed
    | _ => state.destroyed

def run (calls : List WindowCall) : WindowState := calls.foldl exec initial

/-- Destroyed windows keep their records. -/
structure Inv (state : WindowState) : Prop where
  stack : state.wm.StackOk
  kept : ∀ h ∈ state.destroyed, (state.wm.windows h).isSome

theorem exec_inv {state : WindowState} (inv : state.Inv) (call : WindowCall) :
    (state.exec call).Inv where
  stack := (state.wm.exec_tidy call).stack inv.stack
  kept := by
    intro h member
    apply (state.wm.exec_tidy call).keeps
    cases call with
    | destroyWindow hwnd =>
      simp only [exec] at member
      split at member
      · rename_i there
        rcases List.mem_cons.mp member with rfl | member
        · exact Option.isSome_of_any there
        · exact inv.kept h member
      · exact inv.kept h member
    | _ => exact inv.kept h member

theorem run_inv (calls : List WindowCall) : (run calls).Inv := by
  have go (state : WindowState) (inv : state.Inv) : (calls.foldl exec state).Inv := by
    induction calls generalizing state with
    | nil => exact inv
    | cons call rest ih => exact ih _ (exec_inv inv call)
  refine go initial ⟨⟨List.nodup_nil, .inl rfl⟩, ?_⟩
  intro h member
  cases member

/-- The stack and the focus are right after any calls, and the destroyed frames and
dialogs are gone exactly where there are none. -/
theorem windows_after_calls (calls : List WindowCall) :
    (run calls).wm.StackOk ∧
      ((∀ h ∈ (run calls).destroyed, (run calls).wm.Gone h) ↔ (run calls).destroyed = []) := by
  have inv := run_inv calls
  refine ⟨inv.stack, ?_⟩
  constructor
  · intro gone
    apply List.eq_nil_iff_forall_not_mem.mpr
    intro h member
    have kept := inv.kept h member
    rw [(gone h member).window] at kept
    contradiction
  · intro none h member
    rw [none] at member
    contradiction

/-- A frame that is created and destroyed leaves its record behind. -/
theorem destroyed_frame_stays : ¬∀ (calls : List WindowCall),
    (run calls).wm.StackOk ∧ ∀ h ∈ (run calls).destroyed, (run calls).wm.Gone h := by
  intro all
  have gone := (all [.createStdWindow 0 0 0 0 "Frame" "Title", .destroyWindow 0x1000]).2 0x1000
    (by decide)
  have kept : ((run [.createStdWindow 0 0 0 0 "Frame" "Title", .destroyWindow 0x1000]).wm.windows
      0x1000).isSome := by decide
  rw [gone.window] at kept
  contradiction

end WindowState
end Warpine.Pm
