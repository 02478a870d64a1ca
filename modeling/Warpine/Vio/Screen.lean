import Warpine.Vio.Calls

/-! What every operation keeps of the screen: its size, the cursor inside it, and
that each cell shows the character of its byte. -/
namespace Warpine.Vio
open Warpine.Lib Warpine.Loader
open VioManager (decodeVioByte blankCell space)

namespace VioManager

/-- Both arrays have one entry for each place, and the cursor is on one of them. -/
structure Sized (vio : VioManager) : Prop where
  rows : 1 ≤ vio.rows ∧ vio.rows < u16Size
  cols : 1 ≤ vio.cols ∧ vio.cols < u16Size
  buffer : vio.buffer.length = vio.rows * vio.cols
  rawBytes : vio.rawBytes.length = vio.rows * vio.cols
  cursorRow : vio.cursorRow < vio.rows
  cursorCol : vio.cursorCol < vio.cols

/-- A relation between each cell and its byte. -/
def Cells (good : Cell → UInt8 → Prop) (vio : VioManager) : Prop :=
  ∀ (i : Nat) cell raw, vio.buffer[i]? = some cell → vio.rawBytes[i]? = some raw → good cell raw

def Decoded (rs : EncodingRs) (cp : Nat) : VioManager → Prop :=
  Cells fun cell raw => cell.1 = decodeVioByte rs raw cp

/-- An edit of cells: sizes and cursor stay, and so does the relation. -/
structure Painted (good : Cell → UInt8 → Prop) (before after : VioManager) : Prop where
  rows : after.rows = before.rows
  cols : after.cols = before.cols
  cursorRow : after.cursorRow = before.cursorRow
  cursorCol : after.cursorCol = before.cursorCol
  buffer : after.buffer.length = before.buffer.length
  rawBytes : after.rawBytes.length = before.rawBytes.length
  codepage : after.codepage = before.codepage
  cells : Cells good before → Cells good after

section Painting

variable {good : Cell → UInt8 → Prop} {vio other third : VioManager}

theorem Painted.refl (vio : VioManager) : Painted good vio vio := by
  constructor <;> first | rfl | exact id

theorem Painted.trans (first : Painted good vio other) (second : Painted good other third) :
    Painted good vio third where
  rows := second.rows.trans first.rows
  cols := second.cols.trans first.cols
  cursorRow := second.cursorRow.trans first.cursorRow
  cursorCol := second.cursorCol.trans first.cursorCol
  buffer := second.buffer.trans first.buffer
  rawBytes := second.rawBytes.trans first.rawBytes
  codepage := second.codepage.trans first.codepage
  cells := fun h => second.cells (first.cells h)

theorem Painted.foldl {α : Type} {body : VioManager → α → VioManager}
    (turn : ∀ vio item, Painted good vio (body vio item)) (items : List α) (vio : VioManager) :
    Painted good vio (items.foldl body vio) := by
  induction items generalizing vio with
  | nil => exact Painted.refl vio
  | cons item rest ih => exact (turn vio item).trans (ih (body vio item))

theorem Painted.sized (painted : Painted good vio other) (sized : Sized vio) : Sized other := by
  constructor
  · rw [painted.rows]
    exact sized.rows
  · rw [painted.cols]
    exact sized.cols
  · rw [painted.buffer, painted.rows, painted.cols]
    exact sized.buffer
  · rw [painted.rawBytes, painted.rows, painted.cols]
    exact sized.rawBytes
  · rw [painted.cursorRow, painted.rows]
    exact sized.cursorRow
  · rw [painted.cursorCol, painted.cols]
    exact sized.cursorCol

theorem put_painted {cell : Cell} {raw : UInt8} (h : good cell raw) (vio : VioManager) (idx : Nat) :
    Painted good vio (vio.put idx cell raw) := by
  unfold put
  split
  · constructor <;> try rfl
    · exact List.length_set
    · exact List.length_set
    · intro cells i other byte hother hbyte
      dsimp only at hother hbyte
      by_cases hi : idx = i
      · subst hi
        obtain ⟨_, rfl⟩ := List.getElem?_eq_some_iff.mp hother
        obtain ⟨_, rfl⟩ := List.getElem?_eq_some_iff.mp hbyte
        rw [List.getElem_set_self, List.getElem_set_self]
        exact h
      · rw [List.getElem?_set_ne hi] at hother hbyte
        exact cells i other byte hother hbyte
  · exact Painted.refl vio

/-- An attribute does not count for the relation. -/
theorem putAttr_painted (blind : ∀ c attr other raw, good (c, attr) raw → good (c, other) raw)
    (vio : VioManager) (idx : Nat) (attr : UInt8) : Painted good vio (vio.putAttr idx attr) := by
  unfold putAttr
  split
  · rename_i old hold
    constructor <;> try rfl
    · exact List.length_set
    · intro cells i other byte hother hbyte
      dsimp only at hother hbyte
      by_cases hi : idx = i
      · subst hi
        obtain ⟨_, rfl⟩ := List.getElem?_eq_some_iff.mp hother
        rw [List.getElem_set_self]
        exact blind _ _ _ _ (cells idx old byte hold hbyte)
      · rw [List.getElem?_set_ne hi] at hother
        exact cells i other byte hother hbyte
  · exact Painted.refl vio

theorem copyFrom_painted {source : VioManager} (h : Cells good vio → Cells good source)
    (dst src : Nat) : Painted good vio (vio.copyFrom source dst src) := by
  unfold copyFrom
  split
  · rename_i cell raw hcell hraw
    have hput (hgood : good cell raw) := put_painted hgood vio dst
    have hframe := @put_painted (fun _ _ => True) cell raw trivial vio dst
    exact ⟨hframe.rows, hframe.cols, hframe.cursorRow, hframe.cursorCol, hframe.buffer,
      hframe.rawBytes, hframe.codepage, fun cells => (hput (h cells src cell raw hcell hraw)).cells cells⟩
  · exact Painted.refl vio

theorem copyRow_painted (vio : VioManager) (dst src : Nat) :
    Painted good vio (vio.copyRow dst src) :=
  Painted.foldl (fun _ _ => copyFrom_painted id _ _) _ vio

theorem fillRows_painted {cell : Cell} {raw : UInt8} (h : good cell raw) (vio : VioManager)
    (first stop : Nat) : Painted good vio (vio.fillRows first stop cell raw) :=
  Painted.foldl (fun vio _ => Painted.foldl (fun vio _ => put_painted h vio _) _ vio) _ vio

theorem scrollUp_painted {cell : Cell} {raw : UInt8} (h : good cell raw) (vio : VioManager)
    (top bottom lines : Nat) : Painted good vio (vio.scrollUp top bottom lines cell raw) := by
  unfold scrollUp
  split
  · exact Painted.refl vio
  · split
    · exact fillRows_painted h vio _ _
    · apply Painted.trans _ (fillRows_painted h _ _ _)
      exact Painted.foldl (fun vio _ => copyRow_painted vio _ _) _ vio

theorem scrollDown_painted {cell : Cell} {raw : UInt8} (h : good cell raw) (vio : VioManager)
    (top bottom lines : Nat) : Painted good vio (vio.scrollDown top bottom lines cell raw) := by
  unfold scrollDown
  split
  · exact Painted.refl vio
  · split
    · exact fillRows_painted h vio _ _
    · apply Painted.trans _ (fillRows_painted h _ _ _)
      exact Painted.foldl (fun vio _ => copyRow_painted vio _ _) _ vio

theorem writeCells_painted {cells : List (Cell × UInt8)} (h : ∀ entry ∈ cells, good entry.1 entry.2)
    (row : Nat) (vio : VioManager) (c : Nat) : Painted good vio (writeCells row vio c cells) := by
  induction cells generalizing vio c with
  | nil => exact Painted.refl vio
  | cons entry rest ih =>
    obtain ⟨hentry, hrest⟩ := List.forall_mem_cons.mp h
    unfold writeCells
    split
    · exact Painted.refl vio
    · exact (put_painted hentry vio _).trans (ih hrest _ _)

theorem writeNAttr_painted (blind : ∀ c attr other raw, good (c, attr) raw → good (c, other) raw)
    (row : Nat) (attr : UInt8) (vio : VioManager) (c count : Nat) :
    Painted good vio (writeNAttr row attr vio c count) := by
  induction count generalizing vio c with
  | zero => exact Painted.refl vio
  | succ count ih =>
    unfold writeNAttr
    split
    · exact Painted.refl vio
    · exact (putAttr_painted blind vio _ attr).trans (ih _ _)

end Painting

section Calls

variable {good : Cell → UInt8 → Prop} {vio : VioManager}

/-- The next row with its numbers left open. -/
theorem nextRow_numbers (vio : VioManager) : ∃ row last, vio.nextRow =
    if vio.rows ≤ row then
      { ({ vio with cursorRow := row, cursorCol := 0 } : VioManager).scrollUp 0 last 1 blankCell
          space with cursorRow := last }
    else { vio with cursorRow := row, cursorCol := 0 } :=
  ⟨_, _, rfl⟩

/-- From the last row the screen scrolls. -/
theorem nextRow_scrolls (bottom : vio.rows ≤ (vio.cursorRow + 1) % u16Size) :
    vio.nextRow =
      { { vio with cursorRow := (vio.cursorRow + 1) % u16Size, cursorCol := 0 }.scrollUp 0
          ((vio.rows + (u16Size - 1)) % u16Size) 1 blankCell space with
        cursorRow := (vio.rows + (u16Size - 1)) % u16Size } := by
  simp only [nextRow, if_pos bottom]

theorem nextRow_moves (above : ¬vio.rows ≤ (vio.cursorRow + 1) % u16Size) :
    vio.nextRow = { vio with cursorRow := (vio.cursorRow + 1) % u16Size, cursorCol := 0 } := by
  simp only [nextRow, if_neg above]

/-- The cells do not depend on the cursor. -/
theorem Cells.setRow (cells : Cells good vio) (row : Nat) :
    Cells good { vio with cursorRow := row } := cells

theorem nextRow_cells (blank : good blankCell space) (cells : Cells good vio) :
    Cells good vio.nextRow := by
  by_cases bottom : vio.rows ≤ (vio.cursorRow + 1) % u16Size
  · rw [nextRow_scrolls bottom]
    apply Cells.setRow
    exact (scrollUp_painted blank
      { vio with cursorRow := (vio.cursorRow + 1) % u16Size, cursorCol := 0 } 0
      ((vio.rows + (u16Size - 1)) % u16Size) 1).cells cells
  · rw [nextRow_moves bottom]
    exact cells

/-- The cursor may be behind the end of its row. -/
theorem nextRow_sized (sized : Sized { vio with cursorCol := 0 }) : Sized vio.nextRow := by
  obtain ⟨hrows, hcols, hbuffer, hraw, hrow, hcol⟩ := sized
  dsimp only at hrows hcols hbuffer hraw hrow hcol
  have hnext : (vio.cursorRow + 1) % u16Size = vio.cursorRow + 1 :=
    Nat.mod_eq_of_lt (Nat.lt_of_le_of_lt hrow hrows.2)
  have hlast : (vio.rows + (u16Size - 1)) % u16Size = vio.rows - 1 := by
    unfold u16Size at *
    omega
  by_cases bottom : vio.rows ≤ vio.cursorRow + 1
  · rw [nextRow_scrolls (hnext.symm ▸ bottom), hnext, hlast]
    have painted := @scrollUp_painted (fun _ _ => True) blankCell space trivial
      { vio with cursorRow := vio.cursorRow + 1, cursorCol := 0 } 0 (vio.rows - 1) 1
    constructor <;> dsimp only
    · rw [painted.rows]
      exact hrows
    · rw [painted.cols]
      exact hcols
    · rw [painted.buffer, painted.rows, painted.cols]
      exact hbuffer
    · rw [painted.rawBytes, painted.rows, painted.cols]
      exact hraw
    · rw [painted.rows]
      dsimp only
      omega
    · rw [painted.cols, painted.cursorCol]
      exact hcol
  · rw [nextRow_moves (hnext.symm ▸ bottom), hnext]
    exact ⟨hrows, hcols, hbuffer, hraw, Nat.not_le.mp bottom, hcol⟩

theorem putAtCursor_painted {cell : Cell} {raw : UInt8} (h : good cell raw) (vio : VioManager) :
    Painted good vio (vio.putAtCursor cell raw) := by
  unfold putAtCursor
  split
  · exact put_painted h vio _
  · exact Painted.refl vio

theorem advance_cells (blank : good blankCell space) (cells : Cells good vio) :
    Cells good vio.advance := by
  unfold advance
  dsimp only
  split
  · exact nextRow_cells blank cells
  · exact cells

theorem advance_sized (sized : Sized vio) : Sized vio.advance := by
  unfold advance
  dsimp only
  split
  · apply nextRow_sized
    exact { sized with cursorCol := Nat.lt_of_lt_of_le Nat.zero_lt_one sized.cols.1 }
  · rename_i hinside
    exact { sized with cursorCol := Nat.not_le.mp hinside }

theorem writeTtyByte_cells {rs : EncodingRs} {attr : UInt8} {cp : Nat} {ch : UInt8}
    (blank : good blankCell space) (shown : good (decodeVioByte rs ch cp, attr) ch)
    (cells : Cells good vio) : Cells good (vio.writeTtyByte rs attr cp ch) := by
  unfold writeTtyByte
  split
  · exact nextRow_cells blank cells
  · split
    · exact cells
    · split
      · exact cells
      · split
        · exact cells
        · apply advance_cells blank
          exact (putAtCursor_painted shown vio).cells cells

theorem writeTtyByte_sized {rs : EncodingRs} {attr : UInt8} {cp : Nat} {ch : UInt8}
    (sized : Sized vio) : Sized (vio.writeTtyByte rs attr cp ch) := by
  have hreturn : Sized { vio with cursorCol := 0 } :=
    { sized with cursorCol := Nat.lt_of_lt_of_le Nat.zero_lt_one sized.cols.1 }
  unfold writeTtyByte
  split
  · exact nextRow_sized hreturn
  · split
    · exact hreturn
    · split
      · exact { sized with cursorCol := Nat.lt_of_le_of_lt (Nat.sub_le _ _) sized.cursorCol }
      · split
        · exact sized
        · apply advance_sized
          have painted := @putAtCursor_painted (fun _ _ => True) (decodeVioByte rs ch cp, attr) ch
            trivial vio
          exact painted.sized sized

theorem copied_painted (cells : Cells good vio)
    (newRows newCols : Nat) (start : VioManager) :
    Painted good start ((List.range (min vio.rows newRows)).foldl (fun new r =>
      (List.range (min vio.cols newCols)).foldl (fun new c =>
        new.copyFrom vio (r * newCols + c) (r * vio.cols + c)) new) start) :=
  Painted.foldl (fun new _ => Painted.foldl (fun _ _ => copyFrom_painted (fun _ => cells) _ _) _ new)
    _ start

theorem cells_replicate (blank : good blankCell space) (vio : VioManager) (n : Nat)
    (buffer : vio.buffer = List.replicate n blankCell)
    (rawBytes : vio.rawBytes = List.replicate n space) : Cells good vio := by
  intro i cell raw hcell hraw
  rw [buffer] at hcell
  rw [rawBytes] at hraw
  rw [List.eq_of_mem_replicate (List.mem_of_getElem? hcell),
    List.eq_of_mem_replicate (List.mem_of_getElem? hraw)]
  exact blank

theorem resize_cells (blank : good blankCell space) (cells : Cells good vio)
    (newRows newCols : Nat) : Cells good (vio.resize newRows newCols) := by
  unfold resize
  split
  · exact cells
  · apply (copied_painted cells newRows newCols _).cells
    exact cells_replicate blank _ (newRows * newCols) rfl rfl

theorem resize_sized {newRows newCols : Nat} (rows : 1 ≤ newRows ∧ newRows < u16Size)
    (cols : 1 ≤ newCols ∧ newCols < u16Size) (sized : Sized vio) :
    Sized (vio.resize newRows newCols) := by
  unfold resize
  split
  · exact sized
  · have painted := @copied_painted (fun _ _ => True) vio (fun _ _ _ _ _ => trivial)
      newRows newCols { vio with
        buffer := List.replicate (newRows * newCols) blankCell
        rawBytes := List.replicate (newRows * newCols) space
        rows := newRows
        cols := newCols }
    constructor <;> dsimp only
    · rw [painted.rows]
      exact rows
    · rw [painted.cols]
      exact cols
    · rw [painted.buffer, painted.rows, painted.cols]
      exact List.length_replicate
    · rw [painted.rawBytes, painted.rows, painted.cols]
      exact List.length_replicate
    · rw [painted.rows]
      dsimp only
      omega
    · rw [painted.cols]
      dsimp only
      omega

theorem setCursorPos_sized {row col : Nat} (sized : Sized vio) :
    Sized (vio.setCursorPos row col) := by
  have hrows := sized.rows
  have hcols := sized.cols
  unfold u16Size at hrows hcols
  constructor <;> dsimp only [setCursorPos]
  · exact sized.rows
  · exact sized.cols
  · exact sized.buffer
  · exact sized.rawBytes
  · unfold u16Size
    omega
  · unfold u16Size
    omega

theorem new_sized (winsize : Option (UInt16 × UInt16)) : Sized (new winsize) := by
  have hsize : (1 ≤ (detectTerminalSize winsize).1 ∧ (detectTerminalSize winsize).1 < u16Size) ∧
      1 ≤ (detectTerminalSize winsize).2 ∧ (detectTerminalSize winsize).2 < u16Size := by
    unfold detectTerminalSize
    split
    · rename_i wsRow wsCol
      split
      · rename_i hpositive
        have hrow : 0 < wsRow.toNat := UInt16.lt_iff_toNat_lt.mp hpositive.1
        have hcol : 0 < wsCol.toNat := UInt16.lt_iff_toNat_lt.mp hpositive.2
        exact ⟨⟨hrow, wsRow.toNat_lt⟩, hcol, wsCol.toNat_lt⟩
      · decide
    · decide
  unfold new
  exact {
    rows := hsize.1
    cols := hsize.2
    buffer := List.length_replicate
    rawBytes := List.length_replicate
    cursorRow := hsize.1.1
    cursorCol := hsize.2.1 }

end Calls

end VioManager

section Runs

open VioManager (Sized Cells Decoded)

variable {rs : EncodingRs} {cp : Nat} {vio : VioManager}

/-- A mode is refused or has at least one row and one column. -/
theorem vioSetMode_cases (vio : VioManager) (mode : Option VioModeInfo) :
    (vioSetMode vio mode).2 = vio ∨ ∃ row col : UInt16, 1 ≤ row.toNat ∧ 1 ≤ col.toNat ∧
      (vioSetMode vio mode).2 = vio.resize row.toNat col.toNat := by
  unfold vioSetMode
  split
  · exact Or.inl rfl
  · rename_i mode
    split
    · exact Or.inl rfl
    · split
      · exact Or.inl rfl
      · split
        · exact Or.inl rfl
        · rename_i hlimits
          simp only [not_or, UInt16.not_lt] at hlimits
          exact Or.inr ⟨mode.row, mode.col, UInt16.le_iff_toNat_le.mp hlimits.2.1,
            UInt16.le_iff_toNat_le.mp hlimits.1, rfl⟩

theorem exec_sized (call : VioCall) (sized : Sized vio) : Sized (call.exec rs cp vio) := by
  cases call with
  | wrtTty data attr =>
    unfold VioCall.exec VioManager.writeTty
    exact List.foldlRecOn data _ sized fun _ h _ _ => VioManager.writeTtyByte_sized h
  | wrtCharStrAtt data row col attr =>
    exact (@VioManager.writeCells_painted (fun _ _ => True) _ (fun _ _ => trivial) _ vio _).sized
      sized
  | wrtNCell ch attr count row col =>
    exact (@VioManager.writeCells_painted (fun _ _ => True) _ (fun _ _ => trivial) _ vio _).sized
      sized
  | wrtNAttr attr count row col =>
    exact (@VioManager.writeNAttr_painted (fun _ _ => True) (fun _ _ _ _ _ => trivial) _ attr vio _
      _).sized sized
  | scrollUp top bottom lines cell =>
    exact (@VioManager.scrollUp_painted (fun _ _ => True) _ _ trivial vio _ _ _).sized sized
  | scrollDn top bottom lines cell =>
    exact (@VioManager.scrollDown_painted (fun _ _ => True) _ _ trivial vio _ _ _).sized sized
  | setCurPos row col => exact VioManager.setCursorPos_sized sized
  | setCurType yStart cEnd attr => exact { sized with }
  | setAnsi flag => exact { sized with }
  | setMode mode =>
    change Sized (vioSetMode vio mode).2
    obtain hsame | ⟨row, col, hrow, hcol, hresized⟩ := vioSetMode_cases vio mode
    · rwa [hsame]
    · rw [hresized]
      exact VioManager.resize_sized ⟨hrow, row.toNat_lt⟩ ⟨hcol, col.toNat_lt⟩ sized
  | enableSdl2Mode =>
    exact VioManager.resize_sized (by decide) (by decide) { sized with }

theorem decodeVioByte_ascii {byte : UInt8} (h : byte < 0x80) :
    decodeVioByte rs byte cp = Char.ofNat byte.toNat := by
  unfold VioManager.decodeVioByte
  rw [if_pos h]

theorem decoded_blank : blankCell.1 = decodeVioByte rs space cp := by
  rw [decodeVioByte_ascii (show space < 0x80 by decide)]
  rfl

theorem decoded_fill (cell : Option (UInt8 × UInt8)) :
    (fillOf rs cp cell).1.1 = decodeVioByte rs (fillOf rs cp cell).2 cp := by
  cases cell with
  | none => exact decoded_blank
  | some entry => rfl

theorem exec_decoded (call : VioCall) (decoded : Decoded rs cp vio) :
    Decoded rs cp (call.exec rs cp vio) := by
  have blank : blankCell.1 = decodeVioByte rs space cp := decoded_blank
  cases call with
  | wrtTty data attr =>
    unfold VioCall.exec VioManager.writeTty
    exact List.foldlRecOn data _ decoded fun _ h _ _ => VioManager.writeTtyByte_cells blank rfl h
  | wrtCharStrAtt data row col attr =>
    apply (VioManager.writeCells_painted _ _ vio _).cells decoded
    intro entry hentry
    obtain ⟨ch, _, rfl⟩ := List.mem_map.mp hentry
    rfl
  | wrtNCell ch attr count row col =>
    apply (VioManager.writeCells_painted _ _ vio _).cells decoded
    intro entry hentry
    rw [List.eq_of_mem_replicate hentry]
  | wrtNAttr attr count row col =>
    exact (VioManager.writeNAttr_painted (fun _ _ _ _ h => h) _ _ _ _ _).cells decoded
  | scrollUp top bottom lines cell =>
    exact (VioManager.scrollUp_painted (decoded_fill cell) vio _ _ _).cells decoded
  | scrollDn top bottom lines cell =>
    exact (VioManager.scrollDown_painted (decoded_fill cell) vio _ _ _).cells decoded
  | setCurPos row col => exact decoded
  | setCurType yStart cEnd attr => exact decoded
  | setAnsi flag => exact decoded
  | setMode mode =>
    change Decoded rs cp (vioSetMode vio mode).2
    obtain hsame | ⟨row, col, _, _, hresized⟩ := vioSetMode_cases vio mode
    · rwa [hsame]
    · rw [hresized]
      exact VioManager.resize_cells blank decoded _ _
  | enableSdl2Mode =>
    exact @VioManager.resize_cells _ { vio with sdl2Mode := true } blank decoded 25 80

/-- A call that leaves the codepage as it is. -/
def Call.KeepsCp (cp : Nat) (call : Call) : Prop :=
  ∀ other, call = .dosSetProcessCp other → supportedCps.contains other → other = cp

theorem step_sized (sys : System) (call : Call) (sized : Sized sys.console) :
    Sized (sys.exec rs call).console := by
  cases call with
  | dosSetProcessCp other =>
    unfold System.exec System.dosSetProcessCp
    dsimp only
    split <;> exact sized
  | vioSetCp other => exact sized
  | vio call => exact exec_sized call sized

theorem run_sized (sys : System) (calls : List Call) (sized : Sized sys.console) :
    Sized (sys.run rs calls).console := by
  induction calls generalizing sys with
  | nil => exact sized
  | cons call rest ih => exact ih _ (step_sized sys call sized)

theorem step_decoded {sys : System} {call : Call} (cp_eq : sys.activeCodepage = cp)
    (keeps : call.KeepsCp cp) (decoded : Decoded rs cp sys.console) :
    (sys.exec rs call).activeCodepage = cp ∧ Decoded rs cp (sys.exec rs call).console := by
  cases call with
  | dosSetProcessCp other =>
    unfold System.exec System.dosSetProcessCp
    dsimp only
    split
    · rename_i hsupported
      exact ⟨keeps other rfl hsupported, decoded⟩
    · exact ⟨cp_eq, decoded⟩
  | vioSetCp other => exact ⟨cp_eq, decoded⟩
  | vio call =>
    subst cp_eq
    exact ⟨rfl, exec_decoded call decoded⟩

theorem run_decoded {sys : System} {calls : List Call} (cp_eq : sys.activeCodepage = cp)
    (keeps : ∀ call ∈ calls, call.KeepsCp cp) (decoded : Decoded rs cp sys.console) :
    Decoded rs cp (sys.run rs calls).console := by
  induction calls generalizing sys with
  | nil => exact decoded
  | cons call rest ih =>
    obtain ⟨hcall, hrest⟩ := List.forall_mem_cons.mp keeps
    obtain ⟨hcp, hnext⟩ := step_decoded cp_eq hcall decoded
    exact ih hcp hrest hnext

/-- In every state the screen has its cells and its cursor on one of them, and as long
as the codepage stays the same each cell shows its byte. -/
theorem screen_kept (rs : EncodingRs) (winsize : Option (UInt16 × UInt16)) (cp : Nat)
    (calls : List Call) :
    let sys := System.run rs { System.new winsize with activeCodepage := cp } calls
    Sized sys.console ∧ ((∀ call ∈ calls, call.KeepsCp cp) → Decoded rs cp sys.console) := by
  constructor
  · exact run_sized _ calls (VioManager.new_sized winsize)
  · intro keeps
    apply run_decoded rfl keeps
    exact VioManager.cells_replicate decoded_blank _ _ rfl rfl

end Runs

theorem screen_kept_text :
    VioManager.Decoded ⟨fun _ _ => [], fun _ _ => []⟩ 437
      ((System.new none).run ⟨fun _ _ => [], fun _ _ => []⟩ [.vio (.wrtTty [0x80] 0x07)]).console := by
  apply (screen_kept ⟨fun _ _ => [], fun _ _ => []⟩ none 437 [.vio (.wrtTty [0x80] 0x07)]).2
  intro call hcall other hset
  rw [List.mem_singleton.mp hcall] at hset
  cases hset

end Warpine.Vio
