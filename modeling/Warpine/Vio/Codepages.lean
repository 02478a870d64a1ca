import Warpine.Vio.Screen

/-! The codepage of the process against the one by which the cells of the screen are
told to be halves of double-byte characters. No call sets the latter. -/
namespace Warpine.Vio
open Warpine.Lib Warpine.Loader

section Codepage

variable {rs : EncodingRs} {vio : VioManager}

theorem nextRow_codepage : vio.nextRow.codepage = vio.codepage := by
  by_cases bottom : vio.rows ≤ (vio.cursorRow + 1) % u16Size
  · have painted := @VioManager.scrollUp_painted (fun _ _ => True) VioManager.blankCell
      VioManager.space trivial
      { vio with cursorRow := (vio.cursorRow + 1) % u16Size, cursorCol := 0 } 0
      ((vio.rows + (u16Size - 1)) % u16Size) 1
    simp only [VioManager.nextRow_scrolls bottom, painted.codepage]
  · simp only [VioManager.nextRow_moves bottom]

theorem writeTtyByte_codepage {attr : UInt8} {cp : Nat} {ch : UInt8} :
    (vio.writeTtyByte rs attr cp ch).codepage = vio.codepage := by
  have painted := @VioManager.putAtCursor_painted (fun _ _ => True)
    (VioManager.decodeVioByte rs ch cp, attr) ch trivial vio
  unfold VioManager.writeTtyByte
  split
  · exact nextRow_codepage
  · split
    · rfl
    · split
      · rfl
      · split
        · rfl
        · unfold VioManager.advance
          dsimp only
          split
          · exact nextRow_codepage.trans painted.codepage
          · exact painted.codepage

theorem resize_codepage {newRows newCols : Nat} :
    (vio.resize newRows newCols).codepage = vio.codepage := by
  unfold VioManager.resize
  split
  · rfl
  · exact (@VioManager.copied_painted (fun _ _ => True) vio (fun _ _ _ _ _ => trivial) newRows
      newCols _).codepage

theorem exec_codepage (cp : Nat) (call : VioCall) :
    (call.exec rs cp vio).codepage = vio.codepage := by
  cases call with
  | wrtTty data attr =>
    unfold VioCall.exec VioManager.writeTty
    induction data generalizing vio with
    | nil => rfl
    | cons ch rest ih => exact ih.trans writeTtyByte_codepage
  | wrtCharStrAtt data row col attr =>
    exact (@VioManager.writeCells_painted (fun _ _ => True) _ (fun _ _ => trivial) _ vio _).codepage
  | wrtNCell ch attr count row col =>
    exact (@VioManager.writeCells_painted (fun _ _ => True) _ (fun _ _ => trivial) _ vio _).codepage
  | wrtNAttr attr count row col =>
    exact (@VioManager.writeNAttr_painted (fun _ _ => True) (fun _ _ _ _ _ => trivial) _ attr vio _
      _).codepage
  | scrollUp top bottom lines cell =>
    exact (@VioManager.scrollUp_painted (fun _ _ => True) _ _ trivial vio _ _ _).codepage
  | scrollDn top bottom lines cell =>
    exact (@VioManager.scrollDown_painted (fun _ _ => True) _ _ trivial vio _ _ _).codepage
  | setCurPos row col => rfl
  | setCurType yStart cEnd attr => rfl
  | setAnsi flag => rfl
  | setMode mode =>
    change (vioSetMode vio mode).2.codepage = vio.codepage
    obtain hsame | ⟨row, col, _, _, hresized⟩ := vioSetMode_cases vio mode
    · rw [hsame]
    · rw [hresized]
      exact resize_codepage
  | enableSdl2Mode => exact resize_codepage

end Codepage

/-- The cells are told apart by the codepage they are decoded by. -/
def System.CpsAgree (sys : System) : Prop := sys.annotationCp = sys.activeCodepage

section Runs

variable {rs : EncodingRs}

theorem step_annotationCp (sys : System) (call : Call) :
    (sys.exec rs call).annotationCp = sys.annotationCp := by
  cases call with
  | dosSetProcessCp cp =>
    unfold System.exec System.dosSetProcessCp
    dsimp only
    split <;> rfl
  | vioSetCp cp => rfl
  | vio call => exact exec_codepage sys.activeCodepage call

theorem run_annotationCp (sys : System) (calls : List Call) :
    (sys.run rs calls).annotationCp = sys.annotationCp := by
  induction calls generalizing sys with
  | nil => rfl
  | cons call rest ih => exact (ih _).trans (step_annotationCp sys call)

theorem run_activeCodepage {sys : System} {calls : List Call} {cp : Nat}
    (start : sys.activeCodepage = cp) (keeps : ∀ call ∈ calls, call.KeepsCp cp) :
    (sys.run rs calls).activeCodepage = cp := by
  induction calls generalizing sys with
  | nil => exact start
  | cons call rest ih =>
    obtain ⟨hcall, hrest⟩ := List.forall_mem_cons.mp keeps
    apply ih _ hrest
    cases call with
    | dosSetProcessCp other =>
      unfold System.exec System.dosSetProcessCp
      dsimp only
      split
      · rename_i hsupported
        exact hcall other rfl hsupported
      · exact start
    | vioSetCp other => exact start
    | vio call => exact start

/-- The two codepages are the same in every state of a run exactly when no accepted
call sets another one than the first. -/
theorem codepages_agree_iff (rs : EncodingRs) (winsize : Option (UInt16 × UInt16))
    (calls : List Call) :
    (∀ before, before <+: calls → ((System.new winsize).run rs before).CpsAgree) ↔
      ∀ cp, .dosSetProcessCp cp ∈ calls → supportedCps.contains cp → cp = 437 := by
  have hfixed (before : List Call) :
      ((System.new winsize).run rs before).annotationCp = 437 := run_annotationCp _ _
  constructor
  · intro agree cp hcall hsupported
    obtain ⟨before, after, rfl⟩ := List.append_of_mem hcall
    have hagree := agree (before ++ [.dosSetProcessCp cp]) ⟨after, by simp⟩
    have hset : ((System.new winsize).run rs (before ++ [.dosSetProcessCp cp])).activeCodepage =
        cp := by
      unfold System.run
      rw [List.foldl_append, List.foldl_cons, List.foldl_nil, System.exec, System.dosSetProcessCp,
        if_pos hsupported]
    rw [System.CpsAgree, hfixed, hset] at hagree
    exact hagree.symm
  · intro allowed before hfront
    unfold System.CpsAgree
    rw [hfixed]
    symm
    apply run_activeCodepage rfl
    rintro call hcall other rfl hsupported
    exact allowed other (hfront.subset hcall) hsupported

end Runs

/-- After the process takes the Japanese codepage the screen is still read by the first. -/
theorem screen_codepage_left :
    ¬ ∀ (rs : EncodingRs) (winsize : Option (UInt16 × UInt16)) (calls before : List Call),
      before <+: calls → ((System.new winsize).run rs before).CpsAgree := by
  intro claim
  have hagree := claim ⟨fun _ _ => [], fun _ _ => []⟩ none [.dosSetProcessCp 932]
    [.dosSetProcessCp 932] (List.prefix_refl _)
  have hset : (437 : Nat) = 932 := hagree
  exact absurd hset (by decide)

end Warpine.Vio
