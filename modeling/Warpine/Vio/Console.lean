import Warpine.Lib.Words
import Warpine.Loader.Codepage

/-! The screen of the VIO subsystem: cells with their characters, and beside them
the bytes that the guest wrote. What goes to the host's terminal is left out. -/
namespace Warpine.Vio
open Warpine.Lib Warpine.Loader

abbrev Cell := Char × UInt8

structure VioManager where
  buffer : List Cell
  rawBytes : List UInt8
  rows : Nat
  cols : Nat
  cursorRow : Nat
  cursorCol : Nat
  cursorVisible : Bool
  cursorStart : Nat
  cursorEnd : Nat
  ansiMode : Bool
  codepage : Nat
  sdl2Mode : Bool
  stdinPendingLf : Bool
  stdinCookedChars : Int
deriving DecidableEq, Repr

namespace VioManager

def space : UInt8 := 0x20
def blankCell : Cell := (' ', 0x07)

/-- What the terminal says of itself, if it says anything. -/
def detectTerminalSize (winsize : Option (UInt16 × UInt16)) : Nat × Nat :=
  match winsize with
  | some (wsRow, wsCol) => if 0 < wsRow ∧ 0 < wsCol then (wsRow.toNat, wsCol.toNat) else (25, 80)
  | none => (25, 80)

def new (winsize : Option (UInt16 × UInt16)) : VioManager :=
  let (rows, cols) := detectTerminalSize winsize
  { buffer := List.replicate (rows * cols) blankCell
    rawBytes := List.replicate (rows * cols) space
    rows
    cols
    cursorRow := 0
    cursorCol := 0
    cursorVisible := true
    cursorStart := 14
    cursorEnd := 15
    ansiMode := true
    codepage := 437
    sdl2Mode := false
    stdinPendingLf := false
    stdinCookedChars := 0 }

/-- The first character of what the codepage makes of the byte alone. -/
def decodeVioByte (rs : EncodingRs) (byte : UInt8) (cp : Nat) : Char :=
  if byte < 0x80 then Char.ofNat byte.toNat
  else ((cpDecode rs [byte] cp).head?).getD (Char.ofNat byte.toNat)

variable (vio : VioManager)

/-- Both arrays at one place; behind the end of the buffer nothing. -/
def put (idx : Nat) (cell : Cell) (raw : UInt8) : VioManager :=
  if idx < vio.buffer.length then
    { vio with buffer := vio.buffer.set idx cell, rawBytes := vio.rawBytes.set idx raw }
  else vio

def putAttr (idx : Nat) (attr : UInt8) : VioManager :=
  match vio.buffer[idx]? with
  | some cell => { vio with buffer := vio.buffer.set idx (cell.1, attr) }
  | none => vio

/-- Puts to one place what is at another one, here or in another screen. -/
def copyFrom (source : VioManager) (dst src : Nat) : VioManager :=
  match source.buffer[src]?, source.rawBytes[src]? with
  | some cell, some raw => vio.put dst cell raw
  | _, _ => vio

def copyRow (dst src : Nat) : VioManager :=
  (List.range vio.cols).foldl (fun vio c => vio.copyFrom vio (dst + c) (src + c)) vio

def fillRow (base : Nat) (fillCell : Cell) (fillRaw : UInt8) : VioManager :=
  (List.range vio.cols).foldl (fun vio c => vio.put (base + c) fillCell fillRaw) vio

/-- The rows from `first` to before `stop`. -/
def fillRows (first stop : Nat) (fillCell : Cell) (fillRaw : UInt8) : VioManager :=
  (List.range' first (stop - first)).foldl
    (fun vio row => vio.fillRow (row * vio.cols) fillCell fillRaw) vio

/-- No lines at all means the whole region. With `bottom + 1` lines the source's
`bottom - lines + 1` wraps to the same number in between. -/
def scrollUp (top bottom lines : Nat) (fillCell : Cell) (fillRaw : UInt8) : VioManager :=
  if bottom < top ∨ vio.rows ≤ bottom then vio
  else if lines = 0 then vio.fillRows top (bottom + 1) fillCell fillRaw
  else
    let lines := min lines (bottom - top + 1)
    let stop := bottom + 1 - lines
    let shifted := (List.range' top (stop - top)).foldl
      (fun vio row => vio.copyRow (row * vio.cols) ((row + lines) * vio.cols)) vio
    shifted.fillRows stop (bottom + 1) fillCell fillRaw

def scrollDown (top bottom lines : Nat) (fillCell : Cell) (fillRaw : UInt8) : VioManager :=
  if bottom < top ∨ vio.rows ≤ bottom then vio
  else if lines = 0 then vio.fillRows top (bottom + 1) fillCell fillRaw
  else
    let lines := min lines (bottom - top + 1)
    let first := top + lines
    let shifted := (List.range' first (bottom + 1 - first)).reverse.foldl
      (fun vio row => vio.copyRow (row * vio.cols) ((row - lines) * vio.cols)) vio
    shifted.fillRows top first fillCell fillRaw

/-- To the next row, with a new one at the bottom where there is none left. -/
def nextRow : VioManager :=
  let vio := { vio with cursorRow := (vio.cursorRow + 1) % u16Size, cursorCol := 0 }
  if vio.rows ≤ vio.cursorRow then
    let lastRow := (vio.rows + (u16Size - 1)) % u16Size
    { vio.scrollUp 0 lastRow 1 blankCell space with cursorRow := lastRow }
  else vio

def putAtCursor (cell : Cell) (raw : UInt8) : VioManager :=
  if vio.cursorRow < vio.rows ∧ vio.cursorCol < vio.cols then
    vio.put (vio.cursorRow * vio.cols + vio.cursorCol) cell raw
  else vio

def advance : VioManager :=
  let vio := { vio with cursorCol := (vio.cursorCol + 1) % u16Size }
  if vio.cols ≤ vio.cursorCol then vio.nextRow else vio

def writeTtyByte (rs : EncodingRs) (attr : UInt8) (cp : Nat) (ch : UInt8) : VioManager :=
  if ch = 0x0A then vio.nextRow
  else if ch = 0x0D then { vio with cursorCol := 0 }
  else if ch = 0x08 then { vio with cursorCol := vio.cursorCol - 1 }
  else if ch = 0x07 then vio
  else (vio.putAtCursor (decodeVioByte rs ch cp, attr) ch).advance

def writeTty (rs : EncodingRs) (text : List UInt8) (attr : UInt8) (cp : Nat) : VioManager :=
  text.foldl (fun vio ch => vio.writeTtyByte rs attr cp ch) vio

/-- Cells with their bytes from a column on, up to the end of the row. -/
def writeCells (row : Nat) : VioManager → Nat → List (Cell × UInt8) → VioManager
  | vio, _, [] => vio
  | vio, c, (cell, raw) :: rest =>
      if vio.cols ≤ c then vio
      else writeCells row (vio.put (row * vio.cols + c) cell raw) (c + 1) rest

def writeCharStrAtt (rs : EncodingRs) (row col : Nat) (text : List UInt8) (attr : UInt8) (cp : Nat) :
    VioManager :=
  writeCells row vio col (text.map fun ch => ((decodeVioByte rs ch cp, attr), ch))

def writeNCell (row col : Nat) (rawByte : UInt8) (cell : Cell) (count : Nat) : VioManager :=
  writeCells row vio col (List.replicate count (cell, rawByte))

def writeNAttr (row : Nat) (attr : UInt8) : VioManager → Nat → Nat → VioManager
  | vio, _, 0 => vio
  | vio, c, count + 1 =>
      if vio.cols ≤ c then vio
      else writeNAttr row attr (vio.putAttr (row * vio.cols + c) attr) (c + 1) count

/-- Two bytes a cell. -/
def readCellStr (row col maxLen : Nat) : List Cell :=
  let stop := min (col + maxLen / 2) vio.cols
  (List.range' col (stop - col)).filterMap fun c => vio.buffer[row * vio.cols + c]?

def setCursorPos (row col : Nat) : VioManager :=
  { vio with
    cursorRow := min row ((vio.rows + (u16Size - 1)) % u16Size)
    cursorCol := min col ((vio.cols + (u16Size - 1)) % u16Size) }

def setCursorType (visible : Bool) : VioManager := { vio with cursorVisible := visible }

def setCursorShape (start stop : Nat) : VioManager :=
  { vio with cursorStart := start, cursorEnd := stop }

/-- What fits in the top left corner is kept. -/
def resize (newRows newCols : Nat) : VioManager :=
  if vio.rows = newRows ∧ vio.cols = newCols then vio
  else
    let blank := { vio with
      buffer := List.replicate (newRows * newCols) blankCell
      rawBytes := List.replicate (newRows * newCols) space
      rows := newRows
      cols := newCols }
    let copied := (List.range (min vio.rows newRows)).foldl (fun new r =>
      (List.range (min vio.cols newCols)).foldl (fun new c =>
        new.copyFrom vio (r * newCols + c) (r * vio.cols + c)) new) blank
    { copied with
      cursorRow := min vio.cursorRow (newRows - 1)
      cursorCol := min vio.cursorCol (newCols - 1) }

def enableSdl2Mode : VioManager := { vio with sdl2Mode := true }.resize 25 80

end VioManager
end Warpine.Vio
