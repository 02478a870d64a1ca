import Warpine.Lib.Lists
import Warpine.Vcpu.StartUp
import Warpine.Vio.Scrolling

/-! The screen's operations with the overflow check on. The numbers of rows and columns are
16-bit words; what is printed to a terminal counts them from one. -/
namespace Warpine.Vio.Checked
open Warpine.Lib Warpine.Loader Warpine.Vcpu
open VioManager (decodeVioByte blankCell space Sized)

/-- `"\x1b[{};{}H", row + 1, col + 1`, for terminals only. -/
def cursorTo (vio : VioManager) (row col : Nat) : Option Unit :=
  if vio.sdl2Mode then some ()
  else do
    let _ ← addWord 16 row 1
    let _ ← addWord 16 col 1
    return ()

/-- The screen is scrolled while the cursor is still below it. -/
def nextRow (vio : VioManager) : Option VioManager := do
  let cursorRow ← addWord 16 vio.cursorRow 1
  let vio := { vio with cursorRow, cursorCol := 0 }
  if vio.rows ≤ vio.cursorRow then do
    let bottom ← subWord vio.rows 1
    let _ ← vio.scrollUpWords 0 bottom 1
    let scrolled := vio.scrollUp 0 bottom 1 blankCell space
    let last ← subWord scrolled.rows 1
    return { scrolled with cursorRow := last }
  else return vio

def advance (vio : VioManager) : Option VioManager := do
  let cursorCol ← addWord 16 vio.cursorCol 1
  let vio := { vio with cursorCol }
  if vio.cols ≤ vio.cursorCol then nextRow vio else return vio

def writeTtyByte (rs : EncodingRs) (attr : UInt8) (cp : Nat) (vio : VioManager) (ch : UInt8) :
    Option VioManager :=
  if ch = 0x0A then nextRow vio
  else if ch = 0x0D then some { vio with cursorCol := 0 }
  else if ch = 0x08 then
    if 0 < vio.cursorCol then do
      let cursorCol ← subWord vio.cursorCol 1
      return { vio with cursorCol }
    else some vio
  else if ch = 0x07 then some vio
  else advance (vio.putAtCursor (decodeVioByte rs ch cp, attr) ch)

def writeTty (rs : EncodingRs) (vio : VioManager) (text : List UInt8) (attr : UInt8) (cp : Nat) :
    Option VioManager :=
  text.foldlM (writeTtyByte rs attr cp) vio

def writeCells (row : Nat) : VioManager → Nat → List (Cell × UInt8) → Option VioManager
  | vio, _, [] => some vio
  | vio, c, (cell, raw) :: rest =>
      if vio.cols ≤ c then some vio
      else do
        let next ← addWord 16 c 1
        writeCells row (vio.put (row * vio.cols + c) cell raw) next rest

def writeAttrs (row : Nat) (attr : UInt8) : VioManager → Nat → Nat → Option VioManager
  | vio, _, 0 => some vio
  | vio, c, count + 1 =>
      if vio.cols ≤ c then some vio
      else do
        let next ← addWord 16 c 1
        writeAttrs row attr (vio.putAttr (row * vio.cols + c) attr) next count

/-- The cursor goes to the place, the cells are written, and it comes back. -/
def writtenAt (vio : VioManager) (row col : Nat) (written : Option VioManager) :
    Option VioManager := do
  cursorTo vio row col
  let vio ← written
  cursorTo vio vio.cursorRow vio.cursorCol
  return vio

def writeCharStrAtt (rs : EncodingRs) (vio : VioManager) (row col : Nat) (text : List UInt8)
    (attr : UInt8) (cp : Nat) : Option VioManager :=
  writtenAt vio row col
    (writeCells row vio col (text.map fun ch => ((decodeVioByte rs ch cp, attr), ch)))

def writeNCell (vio : VioManager) (row col : Nat) (rawByte : UInt8) (cell : Cell) (count : Nat) :
    Option VioManager :=
  writtenAt vio row col (writeCells row vio col (List.replicate count (cell, rawByte)))

def writeNAttr (vio : VioManager) (row col : Nat) (attr : UInt8) (count : Nat) :
    Option VioManager :=
  writtenAt vio row col (writeAttrs row attr vio col count)

/-- A cell for each turn of the loop, up to the end of the row. -/
def readCells (vio : VioManager) (row : Nat) : Nat → Nat → Option (List Cell)
  | _, 0 => some []
  | c, count + 1 =>
      if vio.cols ≤ c then some []
      else do
        let next ← addWord 16 c 1
        let rest ← readCells vio row next count
        return (vio.buffer[row * vio.cols + c]?).toList ++ rest

def readCellStr (vio : VioManager) (row col maxLen : Nat) : Option (List Cell) :=
  readCells vio row col (maxLen / 2)

def setCursorPos (vio : VioManager) (row col : Nat) : Option VioManager := do
  let lastRow ← subWord vio.rows 1
  let lastCol ← subWord vio.cols 1
  let vio := { vio with cursorRow := min row lastRow, cursorCol := min col lastCol }
  cursorTo vio vio.cursorRow vio.cursorCol
  return vio

/-- `VIOMODEINFO`, from its place on. -/
def vioGetMode (vio : VioManager) (pMode : UInt32) : Option (List (Nat × List UInt8)) :=
  if pMode = 0 then some []
  else do
    let hres ← mulWord 16 vio.cols 8
    let vres ← mulWord 16 vio.rows 16
    return [(0, leBytes 2 12), (2, leBytes 1 1), (3, leBytes 1 4), (4, leBytes 2 vio.cols),
      (6, leBytes 2 vio.rows), (8, leBytes 2 hres), (10, leBytes 2 vres)]

/-- What the set-up of a program writes of the screen. It is the same for both formats. -/
def biosScreen (vio : VioManager) : Option (List (Nat × List UInt8)) := do
  let cells ← mulWord 16 vio.cols vio.rows
  let pageSize ← mulWord 16 cells 2
  let lastRow ← subWord vio.rows 1
  return biosDataArea vio.cols pageSize lastRow

/-- A call of the guest that writes. -/
def vioCall (rs : EncodingRs) (cp : Nat) (vio : VioManager) (call : VioCall) : Option VioManager :=
  match call with
  | .wrtTty data attr => writeTty rs vio data attr cp
  | .wrtCharStrAtt data row col attr =>
      writeCharStrAtt rs vio row.toUInt16.toNat col.toUInt16.toNat data attr cp
  | .wrtNCell ch attr count row col =>
      writeNCell vio row.toUInt16.toNat col.toUInt16.toNat ch (decodeVioByte rs ch cp, attr)
        count.toUInt16.toNat
  | .wrtNAttr attr count row col =>
      writeNAttr vio row.toUInt16.toNat col.toUInt16.toNat attr count.toUInt16.toNat
  | .scrollUp top bottom lines _ =>
      (vio.scrollUpWords top.toUInt16.toNat bottom.toUInt16.toNat lines.toUInt16.toNat).map
        fun _ => call.exec rs cp vio
  | .scrollDn top bottom lines _ =>
      (vio.scrollDownWords top.toUInt16.toNat bottom.toUInt16.toNat lines.toUInt16.toNat).map
        fun _ => call.exec rs cp vio
  | .setCurPos row col => setCursorPos vio row.toUInt16.toNat col.toUInt16.toNat
  | .setCurType .. | .setAnsi .. | .setMode .. | .enableSdl2Mode => some (call.exec rs cp vio)

/-- What is done with the screen: the set-up of either format of program, and the calls. -/
inductive ScreenOp where
  | setupGuest
  | setupGuestNe
  | vioGetMode (pMode : UInt32)
  | vioReadCellStr (row col : UInt32) (maxLen : UInt16)
  | guest (call : Call)

def ScreenOp.step (rs : EncodingRs) (sys : System) : ScreenOp → Option System
  | .setupGuest | .setupGuestNe => (biosScreen sys.console).map fun _ => sys
  | .vioGetMode pMode => (Checked.vioGetMode sys.console pMode).map fun _ => sys
  | .vioReadCellStr row col maxLen =>
      (readCellStr sys.console row.toUInt16.toNat col.toUInt16.toNat maxLen.toNat).map fun _ => sys
  | .guest (.vio call) =>
      (vioCall rs sys.activeCodepage sys.console call).map fun console => { sys with console }
  | .guest other => some (sys.exec rs other)

/-- How the system is left by what changes it. -/
def ScreenOp.exec (rs : EncodingRs) (sys : System) : ScreenOp → System
  | .guest call => sys.exec rs call
  | _ => sys

/-- The screen has a row to scroll, and its rows can be counted from one below it. -/
def ScrollsFit (vio : VioManager) : Prop :=
  2 ≤ vio.rows ∧ (vio.sdl2Mode = true ∨ vio.rows + 1 < 2 ^ 16)

/-- How often a text goes to the next row, in rows of so many columns. -/
def breaks (cols : Nat) : Nat → List UInt8 → Nat
  | _, [] => 0
  | col, ch :: rest =>
      if ch = 0x0A then breaks cols 0 rest + 1
      else if ch = 0x0D then breaks cols 0 rest
      else if ch = 0x08 then breaks cols (col - 1) rest
      else if ch = 0x07 then breaks cols col rest
      else if col + 1 < cols then breaks cols (col + 1) rest
      else breaks cols 0 rest + 1

/-- Neither number of a place is the last 16-bit word. -/
def PlaceFits (vio : VioManager) (row col : UInt32) : Prop :=
  vio.sdl2Mode = true ∨ row.toUInt16 ≠ 0xFFFF ∧ col.toUInt16 ≠ 0xFFFF

def CallFits (vio : VioManager) : VioCall → Prop
  | .wrtTty data _ =>
      ScrollsFit vio ∨ vio.cursorRow + breaks vio.cols vio.cursorCol data < vio.rows
  | .wrtCharStrAtt _ row col _ => PlaceFits vio row col
  | .wrtNCell _ _ _ row col => PlaceFits vio row col
  | .wrtNAttr _ _ row col => PlaceFits vio row col
  | .scrollUp top bottom lines _ => top.toUInt16 = 0 → bottom.toUInt16.toNat < vio.rows →
      lines.toUInt16 ≤ bottom.toUInt16
  | _ => True

/-- The words that are counted for a screen of this size. -/
def ScreenOp.Fits (sys : System) : ScreenOp → Prop
  | .setupGuest | .setupGuestNe => sys.console.cols * sys.console.rows * 2 < 2 ^ 16
  | .vioGetMode pMode => pMode = 0 ∨ sys.console.cols < 2 ^ 13 ∧ sys.console.rows < 2 ^ 12
  | .vioReadCellStr .. => True
  | .guest (.vio call) => CallFits sys.console call
  | .guest _ => True

section Words

variable {vio next : VioManager} {row col : Nat}

theorem cursorTo_eq_some : cursorTo vio row col = some () ↔
    vio.sdl2Mode = true ∨ row + 1 < 2 ^ 16 ∧ col + 1 < 2 ^ 16 := by
  unfold cursorTo
  by_cases sdl2 : vio.sdl2Mode = true
  · rw [if_pos sdl2]
    exact iff_of_true rfl (.inl sdl2)
  · rw [if_neg sdl2, or_iff_right sdl2]
    by_cases rowFits : row + 1 < 2 ^ 16
    · rw [addWord_of_lt rowFits]
      by_cases colFits : col + 1 < 2 ^ 16
      · rw [addWord_of_lt colFits]
        exact iff_of_true rfl ⟨rowFits, colFits⟩
      · rw [addWord_of_le (Nat.not_lt.mp colFits)]
        exact iff_of_false nofun fun both => colFits both.2
    · rw [addWord_of_le (Nat.not_lt.mp rowFits)]
      exact iff_of_false nofun fun both => rowFits both.1

/-- Scrolling the whole screen by one row with the cursor below it. -/
theorem scrollWords_iff (rows : 1 ≤ vio.rows ∧ vio.rows < 2 ^ 16) (cursor : vio.cursorRow = vio.rows)
    (start : vio.cursorCol = 0) :
    vio.scrollUpWords 0 (vio.rows - 1) 1 = some () ↔ ScrollsFit vio := by
  unfold VioManager.scrollUpWords ScrollsFit
  rw [if_neg (by omega), if_neg (by omega), subWord_of_le (Nat.zero_le _)]
  simp only [Option.bind_eq_bind, Option.bind_some, Nat.sub_zero]
  rw [addWord_of_lt (by omega)]
  simp only [Option.bind_some]
  rw [Nat.min_eq_left (by omega)]
  by_cases two : 2 ≤ vio.rows
  · rw [subWord_of_le (by omega)]
    simp only [Option.bind_some]
    rw [addWord_of_lt (by omega)]
    simp only [Option.bind_some, VioManager.terminalWords]
    by_cases sdl2 : vio.sdl2Mode = true
    · rw [if_pos sdl2]
      exact iff_of_true rfl ⟨two, .inl sdl2⟩
    · rw [if_neg sdl2, cursor, start, addWord_of_lt (by omega), addWord_of_lt (by omega)]
      simp only [Option.bind_eq_bind, Option.bind_some]
      by_cases last : vio.rows + 1 < 2 ^ 16
      · rw [addWord_of_lt last]
        exact iff_of_true rfl ⟨two, .inr last⟩
      · rw [addWord_of_le (Nat.not_lt.mp last)]
        exact iff_of_false nofun fun fits => last (fits.2.resolve_left sdl2)
  · rw [subWord_of_lt (by omega)]
    exact iff_of_false nofun fun fits => two fits.1

end Words

section Typing

variable {vio next : VioManager} {rs : EncodingRs} {attr : UInt8} {cp : Nat}

/-- The next row is reached inside the screen, or by a scroll that fits. -/
theorem nextRow_eq_some (rows : 1 ≤ vio.rows ∧ vio.rows < 2 ^ 16)
    (cursor : vio.cursorRow < vio.rows) :
    nextRow vio = some next ↔
      (vio.cursorRow + 1 < vio.rows ∨ ScrollsFit vio) ∧ next = vio.nextRow := by
  have word : (vio.cursorRow + 1) % u16Size = vio.cursorRow + 1 :=
    Nat.mod_eq_of_lt (show vio.cursorRow + 1 < 2 ^ 16 by omega)
  unfold nextRow
  rw [addWord_of_lt (show vio.cursorRow + 1 < 2 ^ 16 by omega), Option.bind_eq_bind,
    Option.bind_some]
  dsimp only
  by_cases bottom : vio.rows ≤ vio.cursorRow + 1
  · have below : vio.cursorRow + 1 = vio.rows := by omega
    have last : (vio.rows + (u16Size - 1)) % u16Size = vio.rows - 1 := by
      unfold u16Size
      omega
    rw [VioManager.nextRow_scrolls (word.symm ▸ bottom), word, last, if_pos bottom,
      subWord_of_le rows.1, Option.bind_some, or_iff_right (by omega)]
    have words := @scrollWords_iff { vio with cursorRow := vio.cursorRow + 1, cursorCol := 0 }
      rows below rfl
    have same : ScrollsFit { vio with cursorRow := vio.cursorRow + 1, cursorCol := 0 } ↔
      ScrollsFit vio := Iff.rfl
    have painted := @VioManager.scrollUp_painted (fun _ _ => True) blankCell space trivial
      { vio with cursorRow := vio.cursorRow + 1, cursorCol := 0 } 0 (vio.rows - 1) 1
    rw [← same, ← words]
    cases counted : { vio with cursorRow := vio.cursorRow + 1, cursorCol := 0 }.scrollUpWords 0
        (vio.rows - 1) 1 with
    | none => exact iff_of_false nofun fun both => nomatch both.1
    | some _ =>
      have lastRow := congrArg (subWord · 1) painted.rows
      dsimp only at lastRow
      rw [Option.bind_eq_bind, Option.bind_some, lastRow, subWord_of_le rows.1, Option.bind_some]
      simp only [Option.pure_def, Option.some.injEq, true_and]
      exact eq_comm
  · rw [VioManager.nextRow_moves (word.symm ▸ bottom), word, if_neg bottom]
    simp only [Option.pure_def, Option.some.injEq, show vio.cursorRow + 1 < vio.rows by omega,
      true_or, true_and, eq_comm]

theorem scrollsFit_congr {other : VioManager} (rows : other.rows = vio.rows)
    (mode : other.sdl2Mode = vio.sdl2Mode) : ScrollsFit other ↔ ScrollsFit vio := by
  unfold ScrollsFit
  rw [rows, mode]

end Typing

section Modes

variable (vio : VioManager)

theorem put_mode (idx : Nat) (cell : Cell) (raw : UInt8) :
    (vio.put idx cell raw).sdl2Mode = vio.sdl2Mode := by
  unfold VioManager.put
  split <;> rfl

theorem foldl_mode {α : Type} {body : VioManager → α → VioManager}
    (turn : ∀ vio item, (body vio item).sdl2Mode = vio.sdl2Mode) (items : List α) :
    (items.foldl body vio).sdl2Mode = vio.sdl2Mode := by
  induction items generalizing vio with
  | nil => rfl
  | cons item rest ih => exact (ih (body vio item)).trans (turn vio item)

theorem copyFrom_mode (source : VioManager) (dst src : Nat) :
    (vio.copyFrom source dst src).sdl2Mode = vio.sdl2Mode := by
  unfold VioManager.copyFrom
  split
  · exact put_mode vio dst _ _
  · rfl

theorem scrollUp_mode (top bottom lines : Nat) (cell : Cell) (raw : UInt8) :
    (vio.scrollUp top bottom lines cell raw).sdl2Mode = vio.sdl2Mode := by
  have filled (vio : VioManager) (first stop : Nat) :
      (vio.fillRows first stop cell raw).sdl2Mode = vio.sdl2Mode :=
    foldl_mode vio (fun vio _ => foldl_mode vio (fun vio _ => put_mode vio _ _ _) _) _
  unfold VioManager.scrollUp
  split
  · rfl
  · split
    · exact filled vio _ _
    · apply (filled _ _ _).trans
      exact foldl_mode vio
        (fun vio _ => foldl_mode vio (fun vio _ => copyFrom_mode vio vio _ _) _) _

theorem putAtCursor_mode (cell : Cell) (raw : UInt8) :
    (vio.putAtCursor cell raw).sdl2Mode = vio.sdl2Mode := by
  unfold VioManager.putAtCursor
  split
  · exact put_mode vio _ _ _
  · rfl

theorem nextRow_mode : vio.nextRow.sdl2Mode = vio.sdl2Mode := by
  obtain ⟨row, last, numbers⟩ := vio.nextRow_numbers
  rw [numbers]
  split
  · exact scrollUp_mode { vio with cursorRow := row, cursorCol := 0 } 0 last 1 blankCell space
  · rfl

end Modes

/-- The cursor after a byte that does not scroll, and whether the byte goes to the next row. -/
def typed (cols col : Nat) (ch : UInt8) : Bool × Nat :=
  if ch = 0x0A then (true, 0)
  else if ch = 0x0D then (false, 0)
  else if ch = 0x08 then (false, col - 1)
  else if ch = 0x07 then (false, col)
  else if col + 1 < cols then (false, col + 1)
  else (true, 0)

theorem breaks_cons (cols col : Nat) (ch : UInt8) (rest : List UInt8) :
    breaks cols col (ch :: rest) =
      breaks cols (typed cols col ch).2 rest + (typed cols col ch).1.toNat := by
  rw [breaks]
  unfold typed
  repeat' split
  all_goals rfl

section Bytes

variable {vio next : VioManager} {rs : EncodingRs} {attr : UInt8} {cp : Nat}

/-- A byte leaves the size of the screen and its mode. -/
structure SameScreen (before after : VioManager) : Prop where
  rows : after.rows = before.rows
  cols : after.cols = before.cols
  mode : after.sdl2Mode = before.sdl2Mode

theorem nextRow_same (vio : VioManager) : SameScreen vio vio.nextRow := by
  have mode := nextRow_mode vio
  obtain ⟨row, last, numbers⟩ := vio.nextRow_numbers
  rw [numbers] at mode ⊢
  split at mode
  · have painted := @VioManager.scrollUp_painted (fun _ _ => True) blankCell space trivial
      { vio with cursorRow := row, cursorCol := 0 } 0 last 1
    rw [if_pos ‹_›]
    exact ⟨painted.rows, painted.cols, mode⟩
  · rw [if_neg ‹_›]
    exact ⟨rfl, rfl, rfl⟩

theorem drawn_same (vio : VioManager) (cell : Cell) (raw : UInt8) :
    SameScreen vio (vio.putAtCursor cell raw) := by
  have painted := @VioManager.putAtCursor_painted (fun _ _ => True) cell raw trivial vio
  exact ⟨painted.rows, painted.cols, putAtCursor_mode vio cell raw⟩

theorem SameScreen.trans {third : VioManager} (first : SameScreen vio next)
    (second : SameScreen next third) : SameScreen vio third :=
  ⟨second.rows.trans first.rows, second.cols.trans first.cols, second.mode.trans first.mode⟩

theorem advance_same (vio : VioManager) : SameScreen vio vio.advance := by
  unfold VioManager.advance
  generalize (vio.cursorCol + 1) % u16Size = col
  dsimp only
  split
  · have moved : SameScreen vio { vio with cursorCol := col } := ⟨rfl, rfl, rfl⟩
    exact moved.trans (nextRow_same _)
  · exact ⟨rfl, rfl, rfl⟩

theorem writeTtyByte_same (vio : VioManager) (ch : UInt8) :
    SameScreen vio (vio.writeTtyByte rs attr cp ch) := by
  unfold VioManager.writeTtyByte
  split
  · exact nextRow_same vio
  · split
    · exact ⟨rfl, rfl, rfl⟩
    · split
      · exact ⟨rfl, rfl, rfl⟩
      · split
        · exact ⟨rfl, rfl, rfl⟩
        · exact (drawn_same vio _ ch).trans (advance_same _)

/-- The row and the column of the cursor. -/
structure CursorAt (vio : VioManager) (row col : Nat) : Prop where
  row : vio.cursorRow = row
  col : vio.cursorCol = col

theorem nextRow_cursor (small : vio.rows < 2 ^ 16) (inside : vio.cursorRow + 1 < vio.rows) :
    CursorAt vio.nextRow (vio.cursorRow + 1) 0 := by
  have word : (vio.cursorRow + 1) % u16Size = vio.cursorRow + 1 :=
    Nat.mod_eq_of_lt (show vio.cursorRow + 1 < 2 ^ 16 by omega)
  rw [VioManager.nextRow_moves (by rw [word]; omega), word]
  exact ⟨rfl, rfl⟩

theorem advance_eq_some (sized : Sized vio) : advance vio = some next ↔
    (vio.cursorCol + 1 < vio.cols ∨ vio.cursorRow + 1 < vio.rows ∨ ScrollsFit vio) ∧
      next = vio.advance := by
  have rows := sized.rows
  have cols := sized.cols
  have row := sized.cursorRow
  have col := sized.cursorCol
  unfold u16Size at rows cols
  have word : (vio.cursorCol + 1) % u16Size = vio.cursorCol + 1 :=
    Nat.mod_eq_of_lt (show vio.cursorCol + 1 < 2 ^ 16 by omega)
  unfold advance VioManager.advance
  rw [addWord_of_lt (by omega), Option.bind_eq_bind, Option.bind_some, word]
  dsimp only
  by_cases full : vio.cols ≤ vio.cursorCol + 1
  · rw [if_pos full, if_pos full, or_iff_right (by omega)]
    exact @nextRow_eq_some { vio with cursorCol := vio.cursorCol + 1 } next rows row
  · rw [if_neg full, if_neg full]
    simp only [Option.pure_def, Option.some.injEq, show vio.cursorCol + 1 < vio.cols by omega,
      true_or, true_and, eq_comm]

theorem advance_cursor (sized : Sized vio)
    (inside : vio.cursorCol + 1 < vio.cols ∨ vio.cursorRow + 1 < vio.rows) :
    CursorAt vio.advance
      (if vio.cursorCol + 1 < vio.cols then vio.cursorRow else vio.cursorRow + 1)
      (if vio.cursorCol + 1 < vio.cols then vio.cursorCol + 1 else 0) := by
  have rows := sized.rows
  have cols := sized.cols
  have col := sized.cursorCol
  unfold u16Size at rows cols
  have word : (vio.cursorCol + 1) % u16Size = vio.cursorCol + 1 :=
    Nat.mod_eq_of_lt (show vio.cursorCol + 1 < 2 ^ 16 by omega)
  unfold VioManager.advance
  rw [word]
  dsimp only
  by_cases full : vio.cols ≤ vio.cursorCol + 1
  · rw [if_pos full, if_neg (by omega), if_neg (by omega)]
    have below : vio.cursorRow + 1 < vio.rows := by omega
    exact @nextRow_cursor { vio with cursorCol := vio.cursorCol + 1 } rows.2 below
  · rw [if_neg full, if_pos (by omega), if_pos (by omega)]
    exact ⟨rfl, rfl⟩

/-- A back step in the first column stays there. -/
theorem backspace_eq (vio : VioManager) :
    (if 0 < vio.cursorCol then do
        let cursorCol ← subWord vio.cursorCol 1
        return { vio with cursorCol }
      else some vio : Option VioManager) = some { vio with cursorCol := vio.cursorCol - 1 } := by
  by_cases inside : 0 < vio.cursorCol
  · rw [if_pos inside, subWord_of_le inside]
    rfl
  · rw [if_neg inside, Nat.sub_eq_zero_of_le (by omega), ← Nat.eq_zero_of_not_pos inside]

section Drawn

variable {cell : Cell} {raw : UInt8}

theorem drawn_sized (sized : Sized vio) : Sized (vio.putAtCursor cell raw) :=
  (@VioManager.putAtCursor_painted (fun _ _ => True) cell raw trivial vio).sized sized

theorem drawn_cursor : (vio.putAtCursor cell raw).cursorRow = vio.cursorRow ∧
    (vio.putAtCursor cell raw).cursorCol = vio.cursorCol := by
  have painted := @VioManager.putAtCursor_painted (fun _ _ => True) cell raw trivial vio
  exact ⟨painted.cursorRow, painted.cursorCol⟩

end Drawn

/-- A byte that is counted without an overflow does what it does anyway. -/
theorem writeTtyByte_eq_some (sized : Sized vio) (ch : UInt8) :
    writeTtyByte rs attr cp vio ch = some next ↔
      (vio.cursorRow + (typed vio.cols vio.cursorCol ch).1.toNat < vio.rows ∨ ScrollsFit vio) ∧
        next = vio.writeTtyByte rs attr cp ch := by
  have row := sized.cursorRow
  unfold writeTtyByte VioManager.writeTtyByte typed
  by_cases newline : ch = 0x0A
  · simp only [if_pos newline]
    exact nextRow_eq_some sized.rows row
  by_cases carriage : ch = 0x0D
  · simp only [if_neg newline, if_pos carriage, Bool.toNat_false, Nat.add_zero, row, true_or,
      true_and, Option.some.injEq, eq_comm]
  by_cases back : ch = 0x08
  · rw [backspace_eq]
    simp only [if_neg newline, if_neg carriage, if_pos back, Bool.toNat_false, Nat.add_zero, row,
      true_or, true_and, Option.some.injEq, eq_comm]
  by_cases bell : ch = 0x07
  · simp only [if_neg newline, if_neg carriage, if_neg back, if_pos bell, Bool.toNat_false,
      Nat.add_zero, row, true_or, true_and, Option.some.injEq, eq_comm]
  have same := drawn_same vio (decodeVioByte rs ch cp, attr) ch
  simp only [if_neg newline, if_neg carriage, if_neg back, if_neg bell]
  rw [advance_eq_some (drawn_sized sized), same.rows, same.cols, drawn_cursor.1, drawn_cursor.2,
    scrollsFit_congr same.rows same.mode, ← or_assoc]
  apply and_congr_left
  intro _
  apply or_congr_left
  by_cases inside : vio.cursorCol + 1 < vio.cols
  · rw [if_pos inside]
    exact iff_of_true (.inl inside) row
  · rw [if_neg inside, or_iff_right inside]
    rfl

theorem writeTtyByte_cursor (sized : Sized vio) (ch : UInt8)
    (inside : vio.cursorRow + (typed vio.cols vio.cursorCol ch).1.toNat < vio.rows) :
    CursorAt (vio.writeTtyByte rs attr cp ch)
      (vio.cursorRow + (typed vio.cols vio.cursorCol ch).1.toNat)
      (typed vio.cols vio.cursorCol ch).2 := by
  unfold VioManager.writeTtyByte
  unfold typed at inside ⊢
  by_cases newline : ch = 0x0A
  · simp only [if_pos newline] at inside ⊢
    exact nextRow_cursor sized.rows.2 inside
  by_cases carriage : ch = 0x0D
  · simp only [if_neg newline, if_pos carriage]
    exact ⟨rfl, rfl⟩
  by_cases back : ch = 0x08
  · simp only [if_neg newline, if_neg carriage, if_pos back]
    exact ⟨rfl, rfl⟩
  by_cases bell : ch = 0x07
  · simp only [if_neg newline, if_neg carriage, if_neg back, if_pos bell]
    exact ⟨rfl, rfl⟩
  have same := drawn_same vio (decodeVioByte rs ch cp, attr) ch
  have cursor := @drawn_cursor vio (decodeVioByte rs ch cp, attr) ch
  simp only [if_neg newline, if_neg carriage, if_neg back, if_neg bell] at inside ⊢
  have moved := advance_cursor (@drawn_sized vio (decodeVioByte rs ch cp, attr) ch sized)
  rw [same.rows, same.cols, cursor.1, cursor.2] at moved
  by_cases room : vio.cursorCol + 1 < vio.cols
  · simp only [if_pos room] at moved ⊢
    exact moved (.inl room)
  · simp only [if_neg room, Bool.toNat_true] at inside moved ⊢
    exact moved (.inr inside)

/-- A text is written without an overflow if it can scroll or does not come to it. -/
theorem writeTty_eq_some (sized : Sized vio) (text : List UInt8) :
    writeTty rs vio text attr cp = some next ↔
      (ScrollsFit vio ∨ vio.cursorRow + breaks vio.cols vio.cursorCol text < vio.rows) ∧
        next = vio.writeTty rs text attr cp := by
  unfold writeTty VioManager.writeTty
  induction text generalizing vio with
  | nil =>
    have row := sized.cursorRow
    simp only [List.foldlM_nil, Option.pure_def, Option.some.injEq, breaks, Nat.add_zero, row,
      or_true, true_and, List.foldl_nil, eq_comm]
  | cons ch rest ih =>
    have same := @writeTtyByte_same rs attr cp vio ch
    have later := @ih (vio.writeTtyByte rs attr cp ch) (VioManager.writeTtyByte_sized sized)
    rw [scrollsFit_congr same.rows same.mode, same.rows, same.cols] at later
    rw [List.foldlM_cons, List.foldl_cons, Option.bind_eq_bind, Option.bind_eq_some_iff,
      breaks_cons]
    simp only [writeTtyByte_eq_some sized, and_assoc, exists_and_left, exists_eq_left, later]
    by_cases scrolls : ScrollsFit vio
    · simp only [scrolls, or_true, true_or, true_and]
    · rw [or_iff_left scrolls, or_iff_right scrolls, or_iff_right scrolls, ← and_assoc]
      apply and_congr_left
      intro _
      constructor
      · intro ⟨inside, below⟩
        have cursor := @writeTtyByte_cursor vio rs attr cp sized ch inside
        rw [cursor.row, cursor.col] at below
        omega
      · intro below
        have inside : vio.cursorRow + (typed vio.cols vio.cursorCol ch).1.toNat < vio.rows := by
          omega
        have cursor := @writeTtyByte_cursor vio rs attr cp sized ch inside
        rw [cursor.row, cursor.col]
        omega

end Bytes

section Cells

variable {vio next : VioManager}

theorem writeCells_eq (row c : Nat) (cells : List (Cell × UInt8)) (small : vio.cols < 2 ^ 16) :
    writeCells row vio c cells = some (VioManager.writeCells row vio c cells) := by
  induction cells generalizing vio c with
  | nil => rfl
  | cons entry rest ih =>
    have painted := @VioManager.put_painted (fun _ _ => True) entry.1 entry.2 trivial vio
      (row * vio.cols + c)
    unfold writeCells VioManager.writeCells
    split
    · rfl
    · rw [addWord_of_lt (by omega)]
      exact ih (c + 1) (painted.cols.symm ▸ small)

theorem writeAttrs_eq (row c count : Nat) (attr : UInt8) (small : vio.cols < 2 ^ 16) :
    writeAttrs row attr vio c count = some (VioManager.writeNAttr row attr vio c count) := by
  induction count generalizing vio c with
  | zero => rfl
  | succ count ih =>
    have painted := @VioManager.putAttr_painted (fun _ _ => True) (fun _ _ _ _ _ => trivial) vio
      (row * vio.cols + c) attr
    unfold writeAttrs VioManager.writeNAttr
    split
    · rfl
    · rw [addWord_of_lt (by omega)]
      exact ih (c + 1) (painted.cols.symm ▸ small)

theorem readCells_isSome (row c count : Nat) (small : vio.cols < 2 ^ 16) :
    (readCells vio row c count).isSome = true := by
  induction count generalizing c with
  | zero => rfl
  | succ count ih =>
    unfold readCells
    split
    · rfl
    · obtain ⟨rest, read⟩ := Option.isSome_iff_exists.mp (ih (c + 1))
      rw [addWord_of_lt (by omega), Option.bind_eq_bind, Option.bind_some, read]
      rfl

theorem cursorTo_home (sized : Sized vio) :
    cursorTo vio vio.cursorRow vio.cursorCol = some () := by
  have rows := sized.rows
  have cols := sized.cols
  have row := sized.cursorRow
  have col := sized.cursorCol
  unfold u16Size at rows cols
  exact cursorTo_eq_some.mpr (.inr ⟨by omega, by omega⟩)

theorem place_iff (row col : UInt32) : PlaceFits vio row col ↔
    vio.sdl2Mode = true ∨ row.toUInt16.toNat + 1 < 2 ^ 16 ∧ col.toUInt16.toNat + 1 < 2 ^ 16 := by
  have last (word : UInt16) : word ≠ 0xFFFF ↔ word.toNat + 1 < 2 ^ 16 := by
    have small := word.toNat_lt
    rw [ne_eq, ← UInt16.toNat_inj]
    simp only [UInt16.reduceToNat]
    omega
  rw [PlaceFits, last, last]

theorem writtenAt_eq_some {row col : UInt32} {written : Option VioManager} {after : VioManager}
    (done : written = some after) (sized : Sized after) :
    writtenAt vio row.toUInt16.toNat col.toUInt16.toNat written = some next ↔
      PlaceFits vio row col ∧ next = after := by
  rw [place_iff, ← cursorTo_eq_some, writtenAt, done]
  cases cursorTo vio row.toUInt16.toNat col.toUInt16.toNat with
  | none => exact iff_of_false nofun fun both => nomatch both.1
  | some _ =>
    simp only [Option.bind_eq_bind, Option.bind_some, cursorTo_home sized, Option.pure_def,
      Option.some.injEq, true_and, eq_comm]

theorem setCursorPos_eq (sized : Sized vio) (row col : Nat) :
    setCursorPos vio row col = some (vio.setCursorPos row col) := by
  have home := cursorTo_home (@VioManager.setCursorPos_sized vio row col sized)
  have last (size : Nat) (range : 1 ≤ size ∧ size < u16Size) :
      (size + (u16Size - 1)) % u16Size = size - 1 := by
    unfold u16Size at *
    omega
  unfold VioManager.setCursorPos at home ⊢
  rw [last _ sized.rows, last _ sized.cols] at home ⊢
  rw [setCursorPos, subWord_of_le sized.rows.1, subWord_of_le sized.cols.1]
  simp only [Option.bind_eq_bind, Option.bind_some]
  rw [home]
  rfl

end Cells

section Calls

variable {vio next : VioManager} {rs : EncodingRs} {cp : Nat}

theorem scrollUp_fits_iff (sized : Sized vio) (top bottom lines : UInt32)
    (cell : Option (UInt8 × UInt8)) :
    vio.scrollUpWords top.toUInt16.toNat bottom.toUInt16.toNat lines.toUInt16.toNat = some () ↔
      CallFits vio (.scrollUp top bottom lines cell) := by
  unfold CallFits
  dsimp only
  rw [← UInt16.toNat_inj, UInt16.le_iff_toNat_le]
  simp only [UInt16.reduceToNat]
  by_cases region : bottom.toUInt16.toNat < top.toUInt16.toNat ∨ vio.rows ≤ bottom.toUInt16.toNat
  · rw [VioManager.scrollUpWords, if_pos region]
    exact iff_of_true rfl fun _ inside => by omega
  · rw [VioManager.scrollUpWords_iff sized (by omega) (by omega)]
    omega

theorem scrollDn_fits (sized : Sized vio) (top bottom lines : Nat) :
    vio.scrollDownWords top bottom lines = some () := by
  by_cases region : bottom < top ∨ vio.rows ≤ bottom
  · rw [VioManager.scrollDownWords, if_pos region]
  · exact VioManager.scrollDownWords_fit sized (by omega) (by omega)

/-- A call that is counted without an overflow does what it does anyway. -/
theorem vioCall_eq_some (sized : Sized vio) (call : VioCall) :
    vioCall rs cp vio call = some next ↔ CallFits vio call ∧ next = call.exec rs cp vio := by
  have cols : vio.cols < 2 ^ 16 := sized.cols.2
  have after := @exec_sized rs cp vio call sized
  cases call with
  | wrtTty data attr => exact writeTty_eq_some sized data
  | wrtCharStrAtt data row col attr => exact writtenAt_eq_some (writeCells_eq _ _ _ cols) after
  | wrtNCell ch attr count row col => exact writtenAt_eq_some (writeCells_eq _ _ _ cols) after
  | wrtNAttr attr count row col => exact writtenAt_eq_some (writeAttrs_eq _ _ _ attr cols) after
  | scrollUp top bottom lines cell =>
    rw [← scrollUp_fits_iff sized, vioCall]
    cases vio.scrollUpWords top.toUInt16.toNat bottom.toUInt16.toNat lines.toUInt16.toNat with
    | none => exact iff_of_false nofun fun both => nomatch both.1
    | some _ => simp only [Option.map_some, Option.some.injEq, true_and, eq_comm]
  | scrollDn top bottom lines cell =>
    rw [vioCall, scrollDn_fits sized]
    simp only [Option.map_some, Option.some.injEq, CallFits, true_and, eq_comm]
  | setCurPos row col =>
    rw [vioCall, setCursorPos_eq sized]
    simp only [VioCall.exec, Option.some.injEq, CallFits, true_and, eq_comm]
  | setCurType yStart cEnd attr =>
    simp only [vioCall, Option.some.injEq, CallFits, true_and, eq_comm]
  | setAnsi flag => simp only [vioCall, Option.some.injEq, CallFits, true_and, eq_comm]
  | setMode mode => simp only [vioCall, Option.some.injEq, CallFits, true_and, eq_comm]
  | enableSdl2Mode => simp only [vioCall, Option.some.injEq, CallFits, true_and, eq_comm]

end Calls

section Runs

variable {rs : EncodingRs} {sys next : System}

theorem biosScreen_isSome {vio : VioManager} (sized : Sized vio) :
    (biosScreen vio).isSome = true ↔ vio.cols * vio.rows * 2 < 2 ^ 16 := by
  unfold biosScreen
  rw [subWord_of_le sized.rows.1]
  by_cases page : vio.cols * vio.rows * 2 < 2 ^ 16
  · rw [mulWord_of_lt (show vio.cols * vio.rows < 2 ^ 16 by omega)]
    simp only [Option.bind_eq_bind, Option.bind_some]
    rw [mulWord_of_lt page]
    exact iff_of_true rfl page
  · refine iff_of_false (fun h => ?_) page
    by_cases cells : vio.cols * vio.rows < 2 ^ 16
    · rw [mulWord_of_lt cells] at h
      simp only [Option.bind_eq_bind, Option.bind_some] at h
      rw [mulWord_of_le (Nat.not_lt.mp page)] at h
      contradiction
    · rw [mulWord_of_le (Nat.not_lt.mp cells)] at h
      contradiction

theorem vioGetMode_isSome {vio : VioManager} (pMode : UInt32) :
    (vioGetMode vio pMode).isSome = true ↔
      pMode = 0 ∨ vio.cols < 2 ^ 13 ∧ vio.rows < 2 ^ 12 := by
  unfold vioGetMode
  by_cases null : pMode = 0
  · rw [if_pos null]
    exact iff_of_true rfl (.inl null)
  rw [if_neg null, or_iff_right null]
  by_cases wide : vio.cols < 2 ^ 13
  · rw [mulWord_of_lt (by omega), Option.bind_eq_bind, Option.bind_some]
    by_cases tall : vio.rows < 2 ^ 12
    · rw [mulWord_of_lt (by omega)]
      exact iff_of_true rfl ⟨wide, tall⟩
    · rw [mulWord_of_le (by omega)]
      exact iff_of_false nofun fun both => tall both.2
  · rw [mulWord_of_le (by omega)]
    exact iff_of_false nofun fun both => wide both.1

theorem map_const_eq_some {α β : Type} {found : Option α} {value result : β} :
    found.map (fun _ => value) = some result ↔ found.isSome = true ∧ result = value := by
  cases found with
  | none => exact iff_of_false nofun fun both => nomatch both.1
  | some _ => simp only [Option.map_some, Option.some.injEq, Option.isSome_some, true_and, eq_comm]

/-- What is done to a screen is done without an overflow where it fits. -/
theorem step_eq_some (sized : Sized sys.console) (op : ScreenOp) :
    op.step rs sys = some next ↔ op.Fits sys ∧ next = op.exec rs sys := by
  cases op with
  | setupGuest =>
    rw [ScreenOp.step, map_const_eq_some, biosScreen_isSome sized]
    rfl
  | setupGuestNe =>
    rw [ScreenOp.step, map_const_eq_some, biosScreen_isSome sized]
    rfl
  | vioGetMode pMode =>
    rw [ScreenOp.step, map_const_eq_some, vioGetMode_isSome]
    rfl
  | vioReadCellStr row col maxLen =>
    rw [ScreenOp.step, map_const_eq_some, readCellStr, readCells_isSome _ _ _ sized.cols.2]
    simp only [ScreenOp.Fits, ScreenOp.exec, true_and]
  | guest call =>
    cases call with
    | dosSetProcessCp other =>
      simp only [ScreenOp.step, ScreenOp.Fits, ScreenOp.exec, Option.some.injEq, true_and, eq_comm]
    | vioSetCp other =>
      simp only [ScreenOp.step, ScreenOp.Fits, ScreenOp.exec, Option.some.injEq, true_and, eq_comm]
    | vio call =>
      rw [ScreenOp.step, Option.map_eq_some_iff]
      simp only [vioCall_eq_some sized, and_assoc, exists_and_left, exists_eq_left, eq_comm]
      rfl

theorem exec_keeps (sized : Sized sys.console) (op : ScreenOp) :
    Sized (op.exec rs sys).console := by
  cases op with
  | guest call => exact step_sized sys call sized
  | _ => exact sized

/-- A run is without an overflow if each of its steps fits the screen it comes to. -/
theorem run_isSome_iff (sized : Sized sys.console) (ops : List ScreenOp) :
    (ops.foldlM (ScreenOp.step rs) sys).isSome = true ↔
      ∀ before op after, ops = before ++ op :: after →
        op.Fits (before.foldl (ScreenOp.exec rs) sys) := by
  induction ops generalizing sys with
  | nil => exact iff_of_true rfl fun before op after none_ => by simp at none_
  | cons first rest ih =>
    have later := @ih (first.exec rs sys) (exec_keeps sized first)
    rw [List.foldlM_cons, Option.bind_eq_bind]
    constructor
    · intro runs before op after split_
      obtain ⟨next, step, runs⟩ := Option.bind_eq_some_iff.mp (Option.eq_some_of_isSome runs)
      obtain ⟨fits, rfl⟩ := (step_eq_some sized first).mp step
      cases before with
      | nil =>
        obtain ⟨rfl, rfl⟩ := List.cons.inj split_
        exact fits
      | cons head tail =>
        obtain ⟨rfl, restSplit⟩ := List.cons.inj split_
        exact later.mp (Option.isSome_iff_exists.mpr ⟨_, runs⟩) tail op after restSplit
    · intro fits
      rw [(step_eq_some sized first).mpr ⟨fits [] first rest rfl, rfl⟩, Option.bind_some, later]
      intro before op after split_
      exact fits (first :: before) op after (congrArg _ split_)

end Runs

/-- Exactly the runs whose steps fit are without an overflow, on every terminal. -/
theorem screen_words_fit_iff (rs : EncodingRs) (winsize : Option (UInt16 × UInt16))
    (ops : List ScreenOp) :
    (ops.foldlM (ScreenOp.step rs) (System.new winsize)).isSome = true ↔
      ∀ before op after, ops = before ++ op :: after →
        op.Fits (before.foldl (ScreenOp.exec rs) (System.new winsize)) :=
  run_isSome_iff (VioManager.new_sized winsize) ops

/-- The page of a screen of 100 rows and 400 columns has 80000 bytes. -/
theorem wide_page_overflows :
    ¬ ([ScreenOp.setupGuest].foldlM (ScreenOp.step noConversions)
      (System.new (some (100, 400)))).isSome = true := by
  decide

end Warpine.Vio.Checked
