import Warpine.Lib.Lists
import Warpine.Loader.CodepageStrings
import Warpine.Vio.Screen

/-! Reading cells back. A byte is decoded when it is written and encoded again when
its cell is read, so what counts is whether its codepage leads back to it. -/
namespace Warpine.Vio
open Warpine.Lib Warpine.Loader
open VioManager (decodeVioByte Sized)

section Reading

variable (rs : EncodingRs) (cp : Nat)

/-- The byte for a character that is on the screen. -/
def encodeVioChar (ch : Char) : UInt8 :=
  if isAscii ch then UInt8.ofNat ch.toNat else ((cpEncode rs [ch] cp).head?).getD questionMark

/-- What is put into the caller's buffer. -/
def vioReadCellStr (vio : VioManager) (row col maxLen : Nat) : List (UInt8 × UInt8) :=
  ((vio.readCellStr row col maxLen).take (maxLen / 2)).map fun cell =>
    (encodeVioChar rs cp cell.1, cell.2)

/-- The library decodes the byte to a character that it encodes by this byte again. -/
def LibraryReturns (byte : UInt8) : Prop :=
  let ch := ((rs.decode cp [byte]).head?).getD (Char.ofNat byte.toNat)
  isAscii ch = false ∧ (rs.encode cp [ch]).head? = some byte

/-- The bytes that come back: two entries of the table for 852 are there twice, and
to the library a byte has to be a character of its own. -/
def Survives (byte : UInt8) : Prop :=
  byte < 0x80 ∨ cp = 437 ∨ cp = 850 ∨ (cp = 852 ∧ byte ≠ 0xE6 ∧ byte ≠ 0xE7) ∨
    (cpToEncoding cp = true ∧ LibraryReturns rs cp byte)

end Reading

/-- A byte that `VioWrtTTY` does not put into a cell. -/
def isControl (byte : UInt8) : Bool :=
  byte == 0x0A || byte == 0x0D || byte == 0x08 || byte == 0x07

theorem isControl_printable {ch : UInt8} (printable : 0x20 ≤ ch) : isControl ch = false := by
  rw [← Bool.not_eq_true]
  intro control
  unfold isControl at control
  simp only [Bool.or_eq_true, beq_iff_eq] at control
  obtain ((rfl | rfl) | rfl) | rfl := control <;> exact absurd printable (by decide)

/-- The number of the first cell that a call fills, and what it stores from there on:
for calls that store bytes, at a place on the screen and without scrolling. -/
def VioCall.stored (vio : VioManager) (call : VioCall) : Option (Nat × List (UInt8 × UInt8)) :=
  match call with
  | .wrtTty data attr =>
      let start := vio.cursorRow * vio.cols + vio.cursorCol
      if (data.all fun byte => !isControl byte) ∧ start + data.length < vio.rows * vio.cols then
        some (start, data.map fun byte => (byte, attr))
      else none
  | .wrtCharStrAtt data row col attr =>
      let row := row.toUInt16.toNat
      let col := col.toUInt16.toNat
      if row < vio.rows ∧ col < vio.cols then
        some (row * vio.cols + col, (data.take (vio.cols - col)).map fun byte => (byte, attr))
      else none
  | .wrtNCell ch attr count row col =>
      let row := row.toUInt16.toNat
      let col := col.toUInt16.toNat
      if row < vio.rows ∧ col < vio.cols then
        some (row * vio.cols + col,
          List.replicate (min count.toUInt16.toNat (vio.cols - col)) (ch, attr))
      else none
  | _ => none

/-- Whatever part of the stored cells is read, in one row and by a length that fits its
word, it is what was stored. -/
def ReadsBack (rs : EncodingRs) (cp : Nat) (vio : VioManager) (start : Nat)
    (written : List (UInt8 × UInt8)) : Prop :=
  ∀ row col maxLen, maxLen < u16Size → col + maxLen / 2 ≤ vio.cols →
    start ≤ row * vio.cols + col → row * vio.cols + col + maxLen / 2 ≤ start + written.length →
      vioReadCellStr rs cp vio row col maxLen =
        (written.drop (row * vio.cols + col - start)).take (maxLen / 2)

section Bytes

variable {rs : EncodingRs} {cp : Nat}

/-- A byte through the table of a DOS codepage and back. -/
def dosCell (upper : List Nat) (byte : UInt8) : UInt8 :=
  let ch := ((decodeSingleByte [byte] upper).head?).getD (Char.ofNat byte.toNat)
  if isAscii ch then UInt8.ofNat ch.toNat
  else ((encodeSingleByte [ch] upper).head?).getD questionMark

theorem dosCell_eq (upper : List Nat) (byte : UInt8) :
    dosCell upper byte = ((dosByte upper byte).head?).getD questionMark := by
  have each := @encodeSingleByte_eq upper [decodeByte upper byte]
  rw [List.flatMap_singleton] at each
  change (if isAscii (decodeByte upper byte) then UInt8.ofNat (decodeByte upper byte).toNat
    else ((encodeSingleByte [decodeByte upper byte] upper).head?).getD questionMark) = _
  rw [each]
  unfold dosByte tableCode
  by_cases ascii : isAscii (decodeByte upper byte) = true <;> simp [ascii]

theorem dosCell_437 (byte : UInt8) : dosCell cp437Upper byte = byte := by
  rw [dosCell_eq, dosByte_437]
  rfl

theorem dosCell_850 (byte : UInt8) : dosCell cp850Upper byte = byte := by
  rw [dosCell_eq, dosByte_850]
  rfl

theorem dosCell_852 (byte : UInt8) :
    dosCell cp852Upper byte = byte ↔ byte ≠ 0xE6 ∧ byte ≠ 0xE7 := by
  rw [dosCell_eq, dosByte_852]
  exact twice_852 byte

theorem cell_ascii {byte : UInt8} (low : byte < 0x80) :
    encodeVioChar rs cp (decodeVioByte rs byte cp) = byte := by
  have h := @forall_byte (fun byte => decide (byte < 0x80 →
    isAscii (Char.ofNat byte.toNat) = true ∧ UInt8.ofNat (Char.ofNat byte.toNat).toNat = byte))
    (by decide +kernel) byte
  obtain ⟨hascii, hvalue⟩ := of_decide_eq_true h low
  rw [decodeVioByte_ascii low, encodeVioChar, if_pos hascii, hvalue]

theorem cell_dos {upper : List Nat} {byte : UInt8} (dos : dosUpper cp = some upper)
    (high : ¬ byte < 0x80) :
    encodeVioChar rs cp (decodeVioByte rs byte cp) = dosCell upper byte := by
  unfold encodeVioChar decodeVioByte cpDecode cpEncode
  rw [if_neg high, dos]
  rfl

/-- What a character of ASCII is written as is not in the upper half. -/
theorem ascii_low {ch : Char} (h : isAscii ch = true) : UInt8.ofNat ch.toNat < 0x80 := by
  have hlt : ch.toNat < 128 := of_decide_eq_true h
  rw [UInt8.lt_iff_toNat_lt, UInt8.toNat_ofNat']
  exact Nat.lt_of_le_of_lt (Nat.mod_le _ _) hlt

theorem cell_library {byte : UInt8} (dos : dosUpper cp = none) (library : cpToEncoding cp = true)
    (high : ¬ byte < 0x80) :
    encodeVioChar rs cp (decodeVioByte rs byte cp) = byte ↔ LibraryReturns rs cp byte := by
  unfold encodeVioChar decodeVioByte cpDecode cpEncode LibraryReturns
  rw [if_neg high, dos]
  simp only [library, if_true]
  generalize ((rs.decode cp [byte]).head?).getD (Char.ofNat byte.toNat) = ch
  by_cases hascii : isAscii ch = true
  · rw [if_pos hascii]
    constructor
    · intro hsame
      exact absurd (hsame ▸ ascii_low hascii) high
    · intro hreturns
      rw [hreturns.1] at hascii
      cases hascii
  · rw [if_neg hascii]
    rw [Bool.not_eq_true] at hascii
    cases hhead : (rs.encode cp [ch]).head? with
    | none =>
      constructor
      · intro hsame
        exact absurd (hsame ▸ show questionMark < 0x80 by decide) high
      · intro hreturns
        cases hreturns.2
    | some value => simp [hascii]

theorem cell_unknown {byte : UInt8} (dos : dosUpper cp = none) (library : cpToEncoding cp = false)
    (high : ¬ byte < 0x80) : encodeVioChar rs cp (decodeVioByte rs byte cp) ≠ byte := by
  have h := @forall_byte (fun byte => decide (¬ byte < 0x80 →
    isAscii (Char.ofNat byte.toNat) = false)) (by decide +kernel) byte
  have hascii := of_decide_eq_true h high
  unfold encodeVioChar decodeVioByte cpDecode cpEncode
  rw [if_neg high, dos]
  simp only [library, Bool.false_eq_true, if_false, List.map_cons, List.map_nil, List.head?_cons,
    Option.getD_some, hascii]
  intro hsame
  exact high (hsame ▸ show questionMark < 0x80 by decide)

/-- A byte comes back exactly when its codepage leads back to it. -/
theorem cell_returns_iff (byte : UInt8) :
    encodeVioChar rs cp (decodeVioByte rs byte cp) = byte ↔ Survives rs cp byte := by
  unfold Survives
  by_cases low : byte < 0x80
  · simp only [low, true_or, iff_true]
    exact cell_ascii low
  · by_cases h437 : cp = 437
    · subst h437
      simp only [true_or, or_true, iff_true]
      rw [@cell_dos rs _ cp437Upper _ rfl low]
      exact dosCell_437 byte
    · by_cases h850 : cp = 850
      · subst h850
        simp only [true_or, or_true, iff_true]
        rw [@cell_dos rs _ cp850Upper _ rfl low]
        exact dosCell_850 byte
      · by_cases h852 : cp = 852
        · subst h852
          rw [@cell_dos rs _ cp852Upper _ rfl low, dosCell_852]
          simp [low, cpToEncoding]
        · have dos : dosUpper cp = none := by simp [dosUpper, h437, h850, h852]
          cases library : cpToEncoding cp with
          | true => simp [low, h437, h850, h852, cell_library dos library low]
          | false => simp [low, h437, h850, h852, cell_unknown dos library low]

end Bytes

section Cells

variable {rs : EncodingRs} {cp : Nat} {vio : VioManager}

theorem put_buffer (vio : VioManager) (idx : Nat) (cell : Cell) (raw : UInt8) :
    (vio.put idx cell raw).buffer = vio.buffer.set idx cell := by
  unfold VioManager.put
  split
  · rfl
  · rename_i hbehind
    rw [List.set_eq_of_length_le (Nat.not_lt.mp hbehind)]

theorem put_frame (vio : VioManager) (idx : Nat) (cell : Cell) (raw : UInt8) :
    (vio.put idx cell raw).rows = vio.rows ∧ (vio.put idx cell raw).cols = vio.cols ∧
      (vio.put idx cell raw).cursorRow = vio.cursorRow ∧
        (vio.put idx cell raw).cursorCol = vio.cursorCol := by
  have painted := @VioManager.put_painted (fun _ _ => True) cell raw trivial vio idx
  exact ⟨painted.rows, painted.cols, painted.cursorRow, painted.cursorCol⟩

/-- Cells in front of a write stay. -/
theorem writeCells_before (row : Nat) (cells : List (Cell × UInt8)) (vio : VioManager) (c i : Nat)
    (h : i < row * vio.cols + c) :
    (VioManager.writeCells row vio c cells).buffer[i]? = vio.buffer[i]? := by
  induction cells generalizing vio c with
  | nil => rfl
  | cons entry rest ih =>
    unfold VioManager.writeCells
    split
    · rfl
    · have hcols := (put_frame vio (row * vio.cols + c) entry.1 entry.2).2.1
      rw [ih _ _ (by rw [hcols]; omega), put_buffer, List.getElem?_set_ne (by omega)]

/-- The cells of a write, up to the end of the row. -/
theorem writeCells_at {row : Nat} {cells : List (Cell × UInt8)} {vio : VioManager} {c k : Nat}
    (inside : row * vio.cols + vio.cols ≤ vio.buffer.length) (fits : c + k < vio.cols)
    (h : k < cells.length) :
    (VioManager.writeCells row vio c cells).buffer[row * vio.cols + (c + k)]? =
      some (cells[k]).1 := by
  induction cells generalizing vio c k with
  | nil => exact absurd h (Nat.not_lt_zero k)
  | cons entry rest ih =>
    have hcols := (put_frame vio (row * vio.cols + c) entry.1 entry.2).2.1
    unfold VioManager.writeCells
    rw [if_neg (by omega)]
    cases k with
    | zero =>
      rw [writeCells_before _ _ _ _ _ (by rw [hcols]; omega), put_buffer, Nat.add_zero,
        List.getElem?_set_self (by omega)]
      rfl
    | succ k =>
      have hrest := @ih (vio.put (row * vio.cols + c) entry.1 entry.2) (c + 1) k
        (by rw [hcols, put_buffer, List.length_set]; exact inside) (by rw [hcols]; omega)
        (Nat.lt_of_succ_lt_succ h)
      rw [hcols, Nat.add_assoc, Nat.add_comm 1 k] at hrest
      exact hrest

/-- A byte that is put into a cell is put where the cursor is. -/
theorem writeTtyByte_drawn {attr : UInt8} {ch : UInt8} (sized : Sized vio)
    (plain : isControl ch = false) :
    vio.writeTtyByte rs attr cp ch = (vio.put (vio.cursorRow * vio.cols + vio.cursorCol)
      (decodeVioByte rs ch cp, attr) ch).advance := by
  unfold isControl at plain
  simp only [Bool.or_eq_false_iff, beq_eq_false_iff_ne] at plain
  obtain ⟨⟨⟨hlf, hcr⟩, hbs⟩, hbell⟩ := plain
  unfold VioManager.writeTtyByte VioManager.putAtCursor
  rw [if_neg hlf, if_neg hcr, if_neg hbs, if_neg hbell, if_pos ⟨sized.cursorRow, sized.cursorCol⟩]

/-- One byte on the screen that does not reach its end. -/
theorem writeTtyByte_plain {attr : UInt8} {ch : UInt8} (sized : Sized vio)
    (plain : isControl ch = false)
    (room : vio.cursorRow * vio.cols + vio.cursorCol + 1 < vio.rows * vio.cols) :
    let next := vio.writeTtyByte rs attr cp ch
    next.buffer = vio.buffer.set (vio.cursorRow * vio.cols + vio.cursorCol)
        (decodeVioByte rs ch cp, attr) ∧
      next.rows = vio.rows ∧ next.cols = vio.cols ∧
        next.cursorRow * next.cols + next.cursorCol =
          vio.cursorRow * vio.cols + vio.cursorCol + 1 := by
  have hrow := sized.cursorRow
  have hcol := sized.cursorCol
  have hrows := sized.rows.2
  have hcols := sized.cols.2
  obtain ⟨hputRows, hputCols, hputRow, hputCol⟩ := put_frame vio
    (vio.cursorRow * vio.cols + vio.cursorCol) (decodeVioByte rs ch cp, attr) ch
  have hbuffer := put_buffer vio (vio.cursorRow * vio.cols + vio.cursorCol)
    (decodeVioByte rs ch cp, attr) ch
  dsimp only
  rw [writeTtyByte_drawn sized plain]
  generalize vio.put (vio.cursorRow * vio.cols + vio.cursorCol) (decodeVioByte rs ch cp, attr) ch =
    drawn at hputRows hputCols hputRow hputCol hbuffer
  have hnextCol : (drawn.cursorCol + 1) % u16Size = vio.cursorCol + 1 := by
    rw [hputCol]
    exact Nat.mod_eq_of_lt (Nat.lt_of_le_of_lt hcol hcols)
  have hnextRow : (drawn.cursorRow + 1) % u16Size = vio.cursorRow + 1 := by
    rw [hputRow]
    exact Nat.mod_eq_of_lt (Nat.lt_of_le_of_lt hrow hrows)
  unfold VioManager.advance
  dsimp only
  rw [hnextCol]
  split
  · rename_i hfull
    rw [hputCols] at hfull
    have hlast : vio.cursorCol + 1 = vio.cols := by omega
    have hbelow : vio.cursorRow + 1 < vio.rows := by
      apply Nat.lt_of_mul_lt_mul_right (a := vio.cols)
      rw [Nat.succ_mul]
      omega
    unfold VioManager.nextRow
    dsimp only
    rw [hnextRow, if_neg (by rw [hputRows]; omega)]
    refine ⟨hbuffer, hputRows, hputCols, ?_⟩
    dsimp only
    rw [hputCols, Nat.succ_mul]
    omega
  · refine ⟨hbuffer, hputRows, hputCols, ?_⟩
    dsimp only
    rw [hputRow, hputCols]
    omega

/-- The text stands from the cursor on, and what is in front of it stays. -/
theorem writeTty_at {attr : UInt8} {data : List UInt8} (sized : Sized vio)
    (plain : ∀ ch ∈ data, isControl ch = false)
    (room : vio.cursorRow * vio.cols + vio.cursorCol + data.length < vio.rows * vio.cols) :
    (vio.writeTty rs data attr cp).cols = vio.cols ∧
      (∀ i < vio.cursorRow * vio.cols + vio.cursorCol,
        (vio.writeTty rs data attr cp).buffer[i]? = vio.buffer[i]?) ∧
      ∀ (k : Nat) (hk : k < data.length),
        (vio.writeTty rs data attr cp).buffer[vio.cursorRow * vio.cols + vio.cursorCol + k]? =
          some (decodeVioByte rs data[k] cp, attr) := by
  induction data generalizing vio with
  | nil => exact ⟨rfl, fun _ _ => rfl, fun _ hk => absurd hk (Nat.not_lt_zero _)⟩
  | cons ch rest ih =>
    obtain ⟨hch, hrest⟩ := List.forall_mem_cons.mp plain
    rw [List.length_cons] at room
    obtain ⟨hbuffer, hrows, hcols, hpos⟩ :=
      @writeTtyByte_plain rs cp vio attr ch sized hch (by omega)
    have hsized := @VioManager.writeTtyByte_sized vio rs attr cp ch sized
    obtain ⟨hlaterCols, hbefore, hat⟩ := @ih (vio.writeTtyByte rs attr cp ch) hsized hrest
      (by rw [hpos, hrows, hcols]; omega)
    rw [hpos] at hbefore hat
    refine ⟨hlaterCols.trans hcols, ?_, ?_⟩
    · intro i hi
      refine (hbefore i (by omega)).trans ?_
      rw [hbuffer, List.getElem?_set_ne (by omega)]
    · intro k hk
      cases k with
      | zero =>
        refine (hbefore _ (Nat.lt_succ_self _)).trans ?_
        have hinside : vio.cursorRow * vio.cols + vio.cursorCol < vio.buffer.length := by
          rw [sized.buffer]
          omega
        rw [hbuffer, List.getElem?_set_self hinside]
        rfl
      | succ k =>
        have hlater := hat k (Nat.lt_of_succ_lt_succ hk)
        rw [Nat.add_assoc, Nat.add_comm 1 k] at hlater
        exact hlater

/-- What a call stores is on the screen, decoded. -/
theorem stored_shown {call : VioCall} {start : Nat} {written : List (UInt8 × UInt8)}
    (sized : Sized vio) (stored : call.stored vio = some (start, written)) :
    (call.exec rs cp vio).cols = vio.cols ∧
      start + written.length ≤ vio.rows * vio.cols ∧
      ∀ (k : Nat) (hk : k < written.length), (call.exec rs cp vio).buffer[start + k]? =
        some (decodeVioByte rs (written[k]).1 cp, (written[k]).2) := by
  have hroom {row : Nat} (hrow : row < vio.rows) :
      row * vio.cols + vio.cols ≤ vio.buffer.length := by
    rw [sized.buffer, ← Nat.succ_mul]
    exact Nat.mul_le_mul_right _ hrow
  have hcells (cells : List (Cell × UInt8)) (row col : Nat) :
      (VioManager.writeCells row vio col cells).cols = vio.cols :=
    (@VioManager.writeCells_painted (fun _ _ => True) cells (fun _ _ => trivial) row vio col).cols
  unfold VioCall.stored at stored
  split at stored
  · rename_i data attr
    dsimp only at stored
    split at stored
    · rename_i hplain
      cases stored
      have hplainBytes : ∀ ch ∈ data, isControl ch = false := by simpa using hplain.1
      obtain ⟨hcols, _, hat⟩ := @writeTty_at rs cp vio attr data sized hplainBytes hplain.2
      refine ⟨hcols, by rw [List.length_map]; omega, ?_⟩
      intro k hk
      rw [List.length_map] at hk
      rw [List.getElem_map]
      exact hat k hk
    · cases stored
  · rename_i data row col attr
    dsimp only at stored
    split at stored
    · rename_i hinside
      cases stored
      refine ⟨hcells _ _ _, ?_, ?_⟩
      · rw [List.length_map, List.length_take]
        have := hroom hinside.1
        rw [sized.buffer] at this
        omega
      · intro k hk
        rw [List.length_map, List.length_take] at hk
        have hat := @writeCells_at row.toUInt16.toNat
          (data.map fun ch => ((decodeVioByte rs ch cp, attr), ch)) vio col.toUInt16.toNat k
          (hroom hinside.1) (by omega) (by rw [List.length_map]; omega)
        rw [List.getElem_map] at hat
        rw [List.getElem_map, List.getElem_take, Nat.add_assoc]
        exact hat
    · cases stored
  · rename_i ch attr count row col
    dsimp only at stored
    split at stored
    · rename_i hinside
      cases stored
      refine ⟨hcells _ _ _, ?_, ?_⟩
      · rw [List.length_replicate]
        have := hroom hinside.1
        rw [sized.buffer] at this
        omega
      · intro k hk
        rw [List.length_replicate] at hk
        have hat := @writeCells_at row.toUInt16.toNat
          (List.replicate count.toUInt16.toNat ((decodeVioByte rs ch cp, attr), ch)) vio
          col.toUInt16.toNat k (hroom hinside.1) (by omega) (by rw [List.length_replicate]; omega)
        rw [List.getElem_replicate] at hat
        rw [List.getElem_replicate, Nat.add_assoc]
        exact hat
    · cases stored
  · cases stored

/-- Reading cells of which all is known. -/
theorem vioReadCellStr_eq {row col maxLen : Nat} {shown : List Cell}
    (inside : col + maxLen / 2 ≤ vio.cols) (length : shown.length = maxLen / 2)
    (h : ∀ (i : Nat) (hi : i < shown.length),
      vio.buffer[row * vio.cols + (col + i)]? = some shown[i]) :
    vioReadCellStr rs cp vio row col maxLen =
      shown.map fun cell => (encodeVioChar rs cp cell.1, cell.2) := by
  unfold vioReadCellStr VioManager.readCellStr
  dsimp only
  rw [Nat.min_eq_left inside, Nat.add_sub_cancel_left, ← length,
    @filterMap_range'_eq _ (fun c => vio.buffer[row * vio.cols + c]?) shown col h, List.take_length]

/-- What is read of the cells that a call stored. -/
theorem vioReadCellStr_stored {call : VioCall} {start row col maxLen : Nat}
    {written : List (UInt8 × UInt8)} (sized : Sized vio)
    (stored : call.stored vio = some (start, written))
    (inside : col + maxLen / 2 ≤ (call.exec rs cp vio).cols)
    (low : start ≤ row * (call.exec rs cp vio).cols + col)
    (high : row * (call.exec rs cp vio).cols + col + maxLen / 2 ≤ start + written.length) :
    vioReadCellStr rs cp (call.exec rs cp vio) row col maxLen =
      ((written.drop (row * (call.exec rs cp vio).cols + col - start)).take (maxLen / 2)).map
        fun entry => (encodeVioChar rs cp (decodeVioByte rs entry.1 cp), entry.2) := by
  obtain ⟨_, _, hshown⟩ := @stored_shown rs cp vio call start written sized stored
  obtain ⟨skip, hskip⟩ := Nat.le.dest low
  have hlength : ((written.drop skip).take (maxLen / 2)).length = maxLen / 2 := by
    rw [List.length_take, List.length_drop]
    omega
  rw [← hskip, Nat.add_sub_cancel_left]
  rw [@vioReadCellStr_eq rs cp (call.exec rs cp vio) row col maxLen
    (((written.drop skip).take (maxLen / 2)).map fun entry =>
      (decodeVioByte rs entry.1 cp, entry.2)) inside (by rw [List.length_map, hlength]),
    List.map_map]
  · rfl
  · intro i hi
    rw [List.length_map, hlength] at hi
    have hat := hshown (skip + i) (by omega)
    rw [← Nat.add_assoc, hskip, Nat.add_assoc] at hat
    rw [hat, List.getElem_map, List.getElem_take, List.getElem_drop]

end Cells

theorem map_returns_iff {rs : EncodingRs} {cp : Nat} {entries : List (UInt8 × UInt8)} :
    (entries.map fun entry => (encodeVioChar rs cp (decodeVioByte rs entry.1 cp), entry.2)) =
        entries ↔
      ∀ entry ∈ entries, Survives rs cp entry.1 := by
  induction entries with
  | nil => simp
  | cons entry rest ih =>
    rw [List.map_cons, List.cons_eq_cons, ih, List.forall_mem_cons, ← cell_returns_iff]
    constructor
    · intro ⟨hhead, hrest⟩
      exact ⟨congrArg Prod.fst hhead, hrest⟩
    · intro ⟨hhead, hrest⟩
      exact ⟨by rw [hhead], hrest⟩

/-- In every reachable state the cells that a call stores are read back as they were
written exactly when every byte of them comes back from its codepage. -/
theorem cells_read_back_iff (rs : EncodingRs) (winsize : Option (UInt16 × UInt16))
    (calls : List Call) {call : VioCall} {start : Nat} {written : List (UInt8 × UInt8)}
    (stored : call.stored ((System.new winsize).run rs calls).console = some (start, written)) :
    let sys := (System.new winsize).run rs calls
    ReadsBack rs sys.activeCodepage (sys.exec rs (.vio call)).console start written ↔
      ∀ entry ∈ written, Survives rs sys.activeCodepage entry.1 := by
  have sized := @run_sized rs (System.new winsize) calls (VioManager.new_sized winsize)
  dsimp only
  generalize (System.new winsize).run rs calls = sys at stored sized
  obtain ⟨hcols, hroom, _⟩ := @stored_shown rs sys.activeCodepage sys.console call start written
    sized stored
  constructor
  · intro back entry hentry
    obtain ⟨k, hk, rfl⟩ := List.getElem_of_mem hentry
    have hpositive : 0 < sys.console.cols := sized.cols.1
    have hplace := Nat.div_add_mod (start + k) sys.console.cols
    have hcol := Nat.mod_lt (start + k) hpositive
    rw [Nat.mul_comm] at hplace
    -- the two bytes of this cell alone
    have hread := back ((start + k) / sys.console.cols) ((start + k) % sys.console.cols) 2
      (by decide)
    have hinside : (start + k) % sys.console.cols + 2 / 2 ≤
        (call.exec rs sys.activeCodepage sys.console).cols := by
      rw [hcols]
      exact hcol
    have hlow : start ≤ (start + k) / sys.console.cols *
        (call.exec rs sys.activeCodepage sys.console).cols + (start + k) % sys.console.cols := by
      rw [hcols, hplace]
      exact Nat.le_add_right _ _
    have hhigh : (start + k) / sys.console.cols *
        (call.exec rs sys.activeCodepage sys.console).cols + (start + k) % sys.console.cols +
          2 / 2 ≤ start + written.length := by
      rw [hcols, hplace]
      omega
    have hcell := (vioReadCellStr_stored sized stored hinside hlow hhigh).symm.trans
      (hread hinside hlow hhigh)
    apply map_returns_iff.mp hcell
    rw [hcols, hplace, Nat.add_sub_cancel_left, List.drop_eq_getElem_cons hk]
    exact List.mem_cons_self
  · intro survive row col maxLen _ hinside hlow hhigh
    refine (vioReadCellStr_stored sized stored hinside hlow hhigh).trans ?_
    apply map_returns_iff.mpr
    intro entry hentry
    exact survive entry (List.mem_of_mem_drop (List.mem_of_mem_take hentry))

/-- No codepage is left to the library here. -/
def noLibrary : EncodingRs := ⟨fun _ _ => [], fun _ _ => []⟩

theorem cells_read_back_iff_letter :
    let sys := (System.new (some (2, 2))).run noLibrary [.dosSetProcessCp 850]
    ReadsBack noLibrary sys.activeCodepage
      (sys.exec noLibrary (.vio (.wrtCharStrAtt [0x84] 1 0 0x1F))).console 2 [(0x84, 0x1F)] := by
  apply (cells_read_back_iff noLibrary (some (2, 2)) [.dosSetProcessCp 850] (by decide)).mpr
  intro entry _
  exact Or.inr (Or.inr (Or.inl rfl))

/-- In codepage 852 the byte of one letter comes back as that of another one. -/
theorem letter_not_read_back :
    ¬ ∀ (rs : EncodingRs) (winsize : Option (UInt16 × UInt16)) (calls : List Call)
      (call : VioCall) (start : Nat) (written : List (UInt8 × UInt8)),
        call.stored ((System.new winsize).run rs calls).console = some (start, written) →
          ReadsBack rs ((System.new winsize).run rs calls).activeCodepage
            (((System.new winsize).run rs calls).exec rs (.vio call)).console start written := by
  intro claim
  have hback := claim noLibrary (some (1, 1)) [.dosSetProcessCp 852] (.wrtCharStrAtt [0xE7] 0 0 7) 0
    [(0xE7, 7)] (by decide) 0 0 2 (by decide) (by decide) (by decide)
    (by decide)
  exact absurd hback (by decide)

end Warpine.Vio
