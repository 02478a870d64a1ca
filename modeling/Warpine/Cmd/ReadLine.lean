import Mathlib.Logic.Function.Iterate
import Warpine.Cmd.Parse
import Warpine.Lib.Utf8
import Warpine.Vio.Keyboard
import Warpine.Vio.Scrolling

/-! The line editor of the shell. Its line consists of characters and is counted in bytes
of UTF-8, and the screen has a cell for each byte that is written. -/
namespace Warpine.Cmd
open Warpine.Lib Warpine.Loader Warpine.Vfs Warpine.Vio
open VioManager (decodeVioByte Sized blankCell)

def historySize : Nat := 20
def attrNormal : UInt8 := 0x07

def scanBackspace : UInt8 := 0x0E
def scanEnter : UInt8 := 0x1C
def scanEscape : UInt8 := 0x01
def scanUp : UInt8 := 0x48
def scanDown : UInt8 := 0x50

/-- The bytes of a text on the host. -/
def asBytes (text : Path) : List UInt8 := text.flatMap Utf8.encodeChar

/-- Back, a blank, and back again. -/
def eraseBytes : List UInt8 := [0x08, 0x20, 0x08]

inductive EditKey where
  | enter
  | backspace
  | escape
  | up
  | down
  | printable (ch : UInt8)
  | other
deriving DecidableEq, Repr

/-- What a key is to the editor, by the tests in their order. -/
def editKey (ki : KbdKeyInfo) : EditKey :=
  if ki.ch = 0x0D ∨ ki.scan = scanEnter then .enter
  else if ki.ch = 0x08 ∨ ki.scan = scanBackspace then .backspace
  else if ki.ch = 0x1B ∨ ki.scan = scanEscape then .escape
  else if ki.scan = scanUp then .up
  else if ki.scan = scanDown then .down
  else if 0x20 ≤ ki.ch then .printable ki.ch
  else .other

/-- The history, the screen with its codepage, and the variables of `read_line`. -/
structure CmdShell where
  shared : System
  history : List Path
  line : Path
  histIdx : Nat

namespace CmdShell

/-- The last entry is not repeated, and the oldest one makes place. -/
def historyPush (history : List Path) (line : Path) : List Path :=
  if history.getLast? = some line then history
  else (if historySize ≤ history.length then history.tail else history) ++ [line]

section Editing

variable (rs : EncodingRs)

def writeOut (bytes : List UInt8) (shell : CmdShell) : CmdShell :=
  { shell with shared := { shell.shared with
      console := shell.shared.console.writeTty rs bytes attrNormal shell.shared.activeCodepage } }

/-- Erases so many times, whatever is on the screen. -/
def eraseInput (n : Nat) (shell : CmdShell) : CmdShell := (writeOut rs eraseBytes)^[n] shell

def replaceInput (newText : Path) (shell : CmdShell) : CmdShell :=
  writeOut rs (asBytes newText)
    { eraseInput rs (asBytes shell.line).length shell with line := newText }

/-- An entry of the history; behind the last one the empty line. -/
def entry (shell : CmdShell) (idx : Nat) : Path := (shell.history[idx]?).getD []

/-- One turn of the loop of `read_line`, with the line where it is entered. -/
def readLineKey (shell : CmdShell) (ki : KbdKeyInfo) : CmdShell × Option Path :=
  match editKey ki with
  | .enter => (writeOut rs [0x0D, 0x0A] shell, some shell.line)
  | .backspace =>
    if shell.line = [] then (shell, none)
    else (writeOut rs eraseBytes { shell with line := shell.line.dropLast }, none)
  | .escape =>
    ({ eraseInput rs (asBytes shell.line).length shell with
        line := []
        histIdx := shell.history.length }, none)
  | .up =>
    if 0 < shell.histIdx then
      (replaceInput rs (shell.entry (shell.histIdx - 1))
        { shell with histIdx := shell.histIdx - 1 }, none)
    else (shell, none)
  | .down =>
    if shell.histIdx < shell.history.length then
      (replaceInput rs (shell.entry (shell.histIdx + 1))
        { shell with histIdx := shell.histIdx + 1 }, none)
    else (shell, none)
  | .printable ch =>
    (writeOut rs [ch] { shell with line := shell.line ++ [Char.ofNat ch.toNat] }, none)
  | .other => (shell, none)

end Editing

/-- The line that was entered is put into the history, and after its command and the next
prompt another one is begun. -/
def nextLine (shell : CmdShell) (text : Path) (shared : System) : CmdShell :=
  let trimmed := trim text
  let history := if trimmed = [] then shell.history else historyPush shell.history trimmed
  { shared, history, line := [], histIdx := history.length }

end CmdShell

section Cells

/-- The cell of the cursor, counted along the rows. -/
def cursorAt (vio : VioManager) : Nat := vio.cursorRow * vio.cols + vio.cursorCol

/-- The cells of a screen that has scrolled some rows up since the line was begun: in front of
the line what was there, then its characters, and behind it blanks or what was there. -/
structure Shown (opened : VioManager) (cells : List Cell) (scrolled : Nat) (text : Path) : Prop where
  prompt : ∀ j, j + scrolled * opened.cols < cursorAt opened →
    cells[j]? = opened.buffer[j + scrolled * opened.cols]?
  each : ∀ j i, j + scrolled * opened.cols = cursorAt opened + i → i < text.length →
    (cells[j]?).map Prod.fst = text[i]?
  behind : ∀ j < cells.length, cursorAt opened + text.length ≤ j + scrolled * opened.cols →
    (cells[j]?).map Prod.fst = some ' ' ∨ cells[j]? = opened.buffer[j + scrolled * opened.cols]?

variable {opened : VioManager} {cells : List Cell} {scrolled j : Nat} {line : Path}

theorem Shown.push (shown : Shown opened cells scrolled line) (inside : j < cells.length)
    (place : j + scrolled * opened.cols = cursorAt opened + line.length) (ch : Char) (attr : UInt8) :
    Shown opened (cells.set j (ch, attr)) scrolled (line ++ [ch]) where
  prompt := by
    intro k before
    rw [List.getElem?_set_ne (by omega)]
    exact shown.prompt k before
  each := by
    intro k i same short
    rw [List.length_append, List.length_singleton] at short
    by_cases last : i = line.length
    · subst last
      have : k = j := by omega
      subst this
      rw [List.getElem?_set_self inside, List.getElem?_concat_length]
      rfl
    · rw [List.getElem?_set_ne (by omega), List.getElem?_append_left (by omega)]
      exact shown.each k i same (by omega)
  behind := by
    intro k screen after_
    rw [List.length_set] at screen
    rw [List.length_append, List.length_singleton] at after_
    rw [List.getElem?_set_ne (by omega)]
    exact shown.behind k screen (by omega)

/-- The last character is erased, and without any a blank is put where the line begins. -/
theorem Shown.pop (shown : Shown opened cells scrolled line) (inside : j < cells.length)
    (place : j + scrolled * opened.cols = cursorAt opened + line.dropLast.length) (attr : UInt8) :
    Shown opened (cells.set j (' ', attr)) scrolled line.dropLast where
  prompt := by
    intro k before
    rw [List.getElem?_set_ne (by omega)]
    exact shown.prompt k before
  each := by
    intro k i same short
    have shorter : line.dropLast.length = line.length - 1 := List.length_dropLast
    rw [List.getElem?_set_ne (by omega), List.getElem?_dropLast, if_pos (by omega)]
    exact shown.each k i same (by omega)
  behind := by
    intro k screen after_
    rw [List.length_set] at screen
    have shorter : line.dropLast.length = line.length - 1 := List.length_dropLast
    by_cases same : j = k
    · subst same
      left
      rw [List.getElem?_set_self inside]
      rfl
    · rw [List.getElem?_set_ne same]
      exact shown.behind k screen (by omega)

/-- All cells one row up. The line ends on the screen. -/
theorem Shown.scroll {after : List Cell} (shown : Shown opened cells scrolled line)
    (fits : cursorAt opened + line.length ≤ cells.length + scrolled * opened.cols)
    (length : after.length = cells.length)
    (up : ∀ j < cells.length, after[j]? =
      if j + opened.cols < cells.length then cells[j + opened.cols]? else some blankCell) :
    Shown opened after (scrolled + 1) line where
  prompt := by
    intro k before
    rw [Nat.succ_mul] at before
    rw [up k (by omega), if_pos (by omega), shown.prompt _ (by omega), Nat.succ_mul]
    congr 1
    omega
  each := by
    intro k i same short
    rw [Nat.succ_mul] at same
    rw [up k (by omega), if_pos (by omega)]
    exact shown.each _ i (by omega) short
  behind := by
    intro k screen after_
    rw [Nat.succ_mul] at after_
    rw [length] at screen
    rw [up k screen]
    split
    · rename_i above
      have cell := shown.behind (k + opened.cols) above (by omega)
      rw [Nat.succ_mul, Nat.add_comm (scrolled * opened.cols), ← Nat.add_assoc]
      exact cell
    · exact Or.inl rfl

/-- The screen while a line is edited: the line stands behind the end of the prompt, which is
still on the screen, and the cursor behind the line. -/
structure Displays (opened vio : VioManager) (scrolled : Nat) (line : Path) : Prop where
  sized : Sized vio
  rows : vio.rows = opened.rows
  cols : vio.cols = opened.cols
  above : scrolled ≤ opened.cursorRow
  cursor : cursorAt vio + scrolled * opened.cols = cursorAt opened + line.length
  shown : Shown opened vio.buffer scrolled line

variable {rs : EncodingRs} {cp : Nat} {vio : VioManager} {attr ch : UInt8}

theorem Displays.begin (sized : Sized opened) : Displays opened opened 0 [] where
  sized := sized
  rows := rfl
  cols := rfl
  above := Nat.zero_le _
  cursor := by simp
  shown := {
    prompt := by
      intro j _
      rw [Nat.zero_mul, Nat.add_zero]
    each := by
      intro j i _ short
      exact absurd short (Nat.not_lt_zero i)
    behind := by
      intro j _ _
      rw [Nat.zero_mul, Nat.add_zero]
      exact Or.inr rfl }

/-- A byte with a cell, in a line that stays short of a screenful. -/
theorem Displays.type (displays : Displays opened vio scrolled line) (plain : isControl ch = false)
    (fits : opened.cursorCol + line.length + 1 < opened.rows * opened.cols) :
    ∃ scrolled, Displays opened (vio.writeTtyByte rs attr cp ch) scrolled
      (line ++ [decodeVioByte rs ch cp]) := by
  have sized := displays.sized
  have screen : cursorAt vio < vio.buffer.length := by
    rw [sized.buffer]
    exact place_lt sized.cursorRow sized.cursorCol
  have typed := displays.shown.push screen displays.cursor (decodeVioByte rs ch cp) attr
  have next := @VioManager.writeTtyByte_sized vio rs attr cp ch sized
  have cursor := displays.cursor
  have buffer := sized.buffer
  by_cases room : cursorAt vio + 1 < vio.rows * vio.cols
  · obtain ⟨hbuffer, hrows, hcols, hcursor⟩ :=
      @writeTtyByte_plain rs cp vio attr ch sized plain room
    refine ⟨scrolled, next, hrows.trans displays.rows, hcols.trans displays.cols, displays.above,
      ?_, hbuffer ▸ typed⟩
    rw [List.length_append, List.length_singleton]
    unfold cursorAt at *
    omega
  · have last : cursorAt vio + 1 = vio.rows * vio.cols := by omega
    obtain ⟨hrows, hcols, hcursor, hcells⟩ :=
      @VioManager.writeTtyByte_scrolls vio rs cp attr ch sized plain last
    rw [← displays.rows, ← displays.cols] at fits
    rw [← displays.cols] at cursor
    have above : scrolled < opened.cursorRow := by
      apply Nat.lt_of_mul_lt_mul_right (a := vio.cols)
      unfold cursorAt at cursor last
      rw [← displays.cols] at cursor
      omega
    have length : (vio.writeTtyByte rs attr cp ch).buffer.length = vio.buffer.length := by
      rw [next.buffer, hrows, hcols, buffer]
    refine ⟨scrolled + 1, next, hrows.trans displays.rows, hcols.trans displays.cols, above, ?_, ?_⟩
    · rw [List.length_append, List.length_singleton, Nat.succ_mul, ← displays.cols]
      unfold cursorAt at *
      omega
    · apply typed.scroll
      · rw [List.length_append, List.length_singleton, List.length_set, ← displays.cols]
        omega
      · rw [length, List.length_set]
      · rw [List.length_set, buffer, ← displays.cols]
        exact hcells

/-- Bytes that all have cells. -/
theorem Displays.write {bytes : List UInt8} (displays : Displays opened vio scrolled line)
    (plain : ∀ byte ∈ bytes, isControl byte = false)
    (fits : opened.cursorCol + line.length + bytes.length < opened.rows * opened.cols) :
    ∃ scrolled, Displays opened (vio.writeTty rs bytes attr cp) scrolled
      (line ++ bytes.map fun byte => decodeVioByte rs byte cp) := by
  induction bytes generalizing vio scrolled line with
  | nil =>
    rw [List.map_nil, List.append_nil]
    exact ⟨scrolled, displays⟩
  | cons ch rest ih =>
    obtain ⟨hch, hrest⟩ := List.forall_mem_cons.mp plain
    rw [List.length_cons] at fits
    obtain ⟨_, typed⟩ := @Displays.type _ _ _ rs cp vio attr ch displays hch (by omega)
    rw [List.map_cons, List.append_cons]
    exact ih typed hrest (by rw [List.length_append, List.length_singleton]; omega)

/-- A byte in front of the last column leaves its row. -/
theorem writeTtyByte_inside (sized : Sized vio) (plain : isControl ch = false)
    (inside : vio.cursorCol + 1 < vio.cols) :
    let next := vio.writeTtyByte rs attr cp ch
    next.rows = vio.rows ∧ next.cols = vio.cols ∧ next.cursorRow = vio.cursorRow ∧
      next.cursorCol = vio.cursorCol + 1 ∧
        next.buffer = vio.buffer.set (cursorAt vio) (decodeVioByte rs ch cp, attr) := by
  have hcols := sized.cols.2
  obtain ⟨hrows, hputCols, hrow, hcol⟩ := put_frame vio
    (vio.cursorRow * vio.cols + vio.cursorCol) (decodeVioByte rs ch cp, attr) ch
  have hbuffer := put_buffer vio (vio.cursorRow * vio.cols + vio.cursorCol)
    (decodeVioByte rs ch cp, attr) ch
  dsimp only
  rw [writeTtyByte_drawn sized plain]
  generalize vio.put _ _ _ = drawn at *
  have next : (drawn.cursorCol + 1) % u16Size = vio.cursorCol + 1 := by
    rw [hcol, Nat.mod_eq_of_lt (by omega)]
  unfold VioManager.advance
  dsimp only
  rw [next, if_neg (by omega)]
  exact ⟨hrows, hputCols, hrow, rfl, hbuffer⟩

/-- One cell back is made blank; in the first column the cursor stays. -/
theorem writeTty_erase (sized : Sized vio) (wide : 2 ≤ vio.cols) :
    let next := vio.writeTty rs eraseBytes attr cp
    next.rows = vio.rows ∧ next.cols = vio.cols ∧ next.cursorRow = vio.cursorRow ∧
      next.cursorCol = vio.cursorCol - 1 ∧
        next.buffer = vio.buffer.set (vio.cursorRow * vio.cols + (vio.cursorCol - 1)) (' ', attr) := by
  have hcol := sized.cursorCol
  have back := @VioManager.writeTtyByte_sized vio rs attr cp 0x08 sized
  obtain ⟨hrows, hcols, hrow, hnext, hbuffer⟩ := @writeTtyByte_inside rs cp _ attr 0x20 back rfl
    (show vio.cursorCol - 1 + 1 < vio.cols by omega)
  rw [decodeVioByte_ascii (by decide)] at hbuffer
  refine ⟨hrows, hcols, hrow, ?_, hbuffer⟩
  exact (congrArg (· - 1) hnext).trans (Nat.add_sub_cancel _ 1)

/-- One character less, where the line has one exactly when its row has a cell to go back to. -/
theorem Displays.erase (displays : Displays opened vio scrolled line) (wide : 2 ≤ vio.cols)
    (step : min 1 vio.cursorCol = min 1 line.length) :
    let next := vio.writeTty rs eraseBytes attr cp
    Displays opened next scrolled line.dropLast ∧ next.cursorCol = vio.cursorCol - 1 := by
  have sized := displays.sized
  have hcol := sized.cursorCol
  have cursor := displays.cursor
  have shorter : line.dropLast.length = line.length - 1 := List.length_dropLast
  obtain ⟨hrows, hcols, hrow, hnext, hbuffer⟩ := @writeTty_erase rs cp vio attr sized wide
  have place : vio.cursorRow * vio.cols + (vio.cursorCol - 1) + scrolled * opened.cols =
      cursorAt opened + line.dropLast.length := by
    unfold cursorAt at *
    omega
  refine ⟨⟨?_, hrows.trans displays.rows, hcols.trans displays.cols, displays.above, ?_, ?_⟩, hnext⟩
  · exact exec_sized (.wrtTty eraseBytes attr) sized
  · unfold cursorAt at *
    rw [hrow, hcols, hnext]
    exact place
  · rw [hbuffer]
    apply displays.shown.pop _ place
    rw [sized.buffer]
    exact place_lt sized.cursorRow (by omega)

end Cells

section Erasing

variable {rs : EncodingRs} {opened : VioManager} {scrolled : Nat} {shell : CmdShell}

namespace CmdShell

def console (shell : CmdShell) : VioManager := shell.shared.console

/-- As many erasures as the line has bytes go back over its characters and no farther: each
character is one byte, or the end of the prompt is in the first column, and the cursor is
still in the row of it. -/
def Erasable (shell : CmdShell) : Prop :=
  min (asBytes shell.line).length shell.console.cursorCol = shell.line.length

theorem eraseInput_succ (n : Nat) :
    eraseInput rs (n + 1) shell = writeOut rs eraseBytes (eraseInput rs n shell) :=
  Function.iterate_succ_apply' _ n shell

/-- Erasing only changes the screen. -/
theorem eraseInput_eq (n : Nat) : eraseInput rs n shell =
    { shell with shared := { shell.shared with console := (eraseInput rs n shell).console } } := by
  induction n with
  | zero => rfl
  | succ n ih =>
    rw [eraseInput_succ]
    generalize eraseInput rs n shell = before at ih
    rw [ih]
    rfl

theorem eraseInput_history (n : Nat) : (eraseInput rs n shell).history = shell.history := by
  rw [eraseInput_eq]

theorem eraseInput_histIdx (n : Nat) : (eraseInput rs n shell).histIdx = shell.histIdx := by
  rw [eraseInput_eq]

theorem entry_cases (idx : Nat) : shell.entry idx = [] ∨ shell.entry idx ∈ shell.history := by
  unfold entry
  cases at_ : shell.history[idx]? with
  | none => exact Or.inl rfl
  | some text => exact Or.inr (List.mem_of_getElem? at_)

theorem mem_historyPush {history : List Path} {line text : Path}
    (member : text ∈ historyPush history line) : text ∈ history ∨ text = line := by
  unfold historyPush at member
  split at member
  · exact Or.inl member
  · rw [List.mem_append, List.mem_singleton] at member
    apply member.imp_left
    intro old
    split at old
    · exact List.mem_of_mem_tail old
    · exact old

end CmdShell

/-- While a line is erased, what is left of it is shown. -/
theorem Displays.eraseInput (displays : Displays opened shell.console scrolled shell.line)
    (erasable : shell.Erasable) (n : Nat) (le : n ≤ (asBytes shell.line).length) :
    Displays opened (shell.eraseInput rs n).console scrolled
        (shell.line.take (shell.line.length - n)) ∧
      (shell.eraseInput rs n).console.cursorCol = shell.console.cursorCol - n := by
  induction n with
  | zero =>
    rw [Nat.sub_zero, List.take_length, Nat.sub_zero]
    exact ⟨displays, rfl⟩
  | succ n ih =>
    obtain ⟨before, hcol⟩ := ih (Nat.le_of_succ_le le)
    unfold CmdShell.Erasable at erasable
    have hcolumn := displays.sized.cursorCol
    have nonempty : shell.line ≠ [] := by
      intro empty
      rw [empty] at le
      exact absurd le (Nat.not_succ_le_zero n)
    have long := List.length_pos_iff.mpr nonempty
    have left_ : (shell.line.take (shell.line.length - n)).length = shell.line.length - n := by
      rw [List.length_take]
      omega
    have wide : 2 ≤ (shell.eraseInput rs n).console.cols := by
      rw [before.cols, ← displays.cols]
      omega
    obtain ⟨erased, hnext⟩ := @Displays.erase _ _ _ rs
      (shell.eraseInput rs n).shared.activeCodepage _ attrNormal before wide
      (by rw [hcol, left_]; omega)
    have shorter : (shell.line.take (shell.line.length - n)).dropLast =
        shell.line.take (shell.line.length - (n + 1)) := by
      rw [List.dropLast_eq_take, left_, List.take_take]
      congr 1
      omega
    rw [shorter] at erased
    rw [CmdShell.eraseInput_succ]
    refine ⟨erased, hnext.trans ?_⟩
    rw [hcol, Nat.sub_sub]

/-- After all erasures the cursor is at the end of the prompt. -/
theorem Displays.erased (displays : Displays opened shell.console scrolled shell.line)
    (erasable : shell.Erasable) :
    Displays opened (shell.eraseInput rs (asBytes shell.line).length).console scrolled [] := by
  have all := (@Displays.eraseInput rs _ _ _ displays erasable _ (Nat.le_refl _)).1
  unfold CmdShell.Erasable at erasable
  rw [Nat.sub_eq_zero_of_le (by omega), List.take_zero] at all
  exact all

/-- Each byte of a text has a cell, and the codepage makes its character of it. -/
def Echoed (rs : EncodingRs) (cp : Nat) (text : Path) : Prop :=
  (∀ byte ∈ asBytes text, isControl byte = false) ∧
    (asBytes text).map (fun byte => decodeVioByte rs byte cp) = text

instance : Decidable shell.Erasable := inferInstanceAs (Decidable (_ = _))
instance {cp : Nat} {text : Path} : Decidable (Echoed rs cp text) :=
  @instDecidableAnd _ _ (List.decidableBAll _ _) inferInstance

theorem Displays.replace {text : Path}
    (displays : Displays opened shell.console scrolled shell.line) (erasable : shell.Erasable)
    (echoed : Echoed rs shell.shared.activeCodepage text)
    (fits : opened.cursorCol + text.length < opened.rows * opened.cols) :
    ∃ scrolled, Displays opened (shell.replaceInput rs text).console scrolled text := by
  have bytes : (asBytes text).length = text.length := by
    rw [← List.length_map fun byte => decodeVioByte rs byte shell.shared.activeCodepage, echoed.2]
  obtain ⟨scrolled, written⟩ := @Displays.write _ _ _ rs shell.shared.activeCodepage _ attrNormal _
    (@Displays.erased rs _ _ _ displays erasable) echoed.1
    (by rw [List.length_nil, Nat.add_zero, bytes]; exact fits)
  rw [echoed.2, List.nil_append] at written
  refine ⟨scrolled, ?_⟩
  have codepage : (shell.eraseInput rs (asBytes shell.line).length).shared.activeCodepage =
      shell.shared.activeCodepage := by
    rw [CmdShell.eraseInput_eq]
  unfold CmdShell.replaceInput CmdShell.writeOut CmdShell.console
  dsimp only
  rw [codepage]
  exact written

end Erasing

end Warpine.Cmd
