import Warpine.Vio.Console

/-! The calls that write to the screen, from the arguments of the guest on. What
they write is decoded by the process's codepage; the screen has one of its own for
telling which cells are halves of a double-byte character. -/
namespace Warpine.Vio
open Warpine.Lib Warpine.Loader
open VioManager (decodeVioByte blankCell space)

def invalidFunction : Nat := 87
def invalidLevel : Nat := 124
def vioRow : Nat := 426
def vioCol : Nat := 427
def invalidCodePage : Nat := 470

structure System where
  activeCodepage : Nat
  console : VioManager

def System.new (winsize : Option (UInt16 × UInt16)) : System := ⟨437, .new winsize⟩

structure VioModeInfo where
  cb : UInt16
  fbType : UInt8
  col : UInt16
  row : UInt16
deriving DecidableEq, Repr

/-- The operations on the screen, with what they read from the guest's memory. The
writes of other calls and of the shell are `wrtTty` as well. -/
inductive VioCall where
  | wrtTty (data : List UInt8) (attr : UInt8)
  | wrtCharStrAtt (data : List UInt8) (row col : UInt32) (attr : UInt8)
  | wrtNCell (ch attr : UInt8) (count row col : UInt32)
  | wrtNAttr (attr : UInt8) (count row col : UInt32)
  | scrollUp (top bottom lines : UInt32) (cell : Option (UInt8 × UInt8))
  | scrollDn (top bottom lines : UInt32) (cell : Option (UInt8 × UInt8))
  | setCurPos (row col : UInt32)
  | setCurType (yStart cEnd attr : UInt16)
  | setAnsi (flag : UInt32)
  | setMode (mode : Option VioModeInfo)
  | enableSdl2Mode
deriving DecidableEq, Repr

section Calls

variable (rs : EncodingRs) (cp : Nat) (vio : VioManager)

/-- The fill cell with its byte; without one a blank. -/
def fillOf (cell : Option (UInt8 × UInt8)) : Cell × UInt8 :=
  match cell with
  | some (chByte, attr) => ((decodeVioByte rs chByte cp, attr), chByte)
  | none => (blankCell, space)

def vioSetMode (mode : Option VioModeInfo) : Nat × VioManager :=
  match mode with
  | none => (invalidFunction, vio)
  | some mode =>
      if mode.cb < 8 then (invalidLevel, vio)
      else if mode.fbType ≠ 1 then (invalidFunction, vio)
      else if mode.col < 1 ∨ mode.row < 1 ∨ 255 < mode.col ∨ 255 < mode.row then
        (invalidLevel, vio)
      else (0, vio.resize mode.row.toNat mode.col.toNat)

/-- The screen after a call. Rows, columns and counts are cut to 16 bits. -/
def VioCall.exec (call : VioCall) : VioManager :=
  match call with
  | .wrtTty data attr => vio.writeTty rs data attr cp
  | .wrtCharStrAtt data row col attr =>
      vio.writeCharStrAtt rs row.toUInt16.toNat col.toUInt16.toNat data attr cp
  | .wrtNCell ch attr count row col =>
      vio.writeNCell row.toUInt16.toNat col.toUInt16.toNat ch (decodeVioByte rs ch cp, attr)
        count.toUInt16.toNat
  | .wrtNAttr attr count row col =>
      VioManager.writeNAttr row.toUInt16.toNat attr vio col.toUInt16.toNat count.toUInt16.toNat
  | .scrollUp top bottom lines cell =>
      vio.scrollUp top.toUInt16.toNat bottom.toUInt16.toNat lines.toUInt16.toNat
        (fillOf rs cp cell).1 (fillOf rs cp cell).2
  | .scrollDn top bottom lines cell =>
      vio.scrollDown top.toUInt16.toNat bottom.toUInt16.toNat lines.toUInt16.toNat
        (fillOf rs cp cell).1 (fillOf rs cp cell).2
  | .setCurPos row col => vio.setCursorPos row.toUInt16.toNat col.toUInt16.toNat
  | .setCurType yStart cEnd attr =>
      (vio.setCursorType (attr != 0xFFFF)).setCursorShape yStart.toUInt8.toNat cEnd.toUInt8.toNat
  | .setAnsi flag => { vio with ansiMode := flag != 0 }
  | .setMode mode => (vioSetMode vio mode).2
  | .enableSdl2Mode => vio.enableSdl2Mode

end Calls

def supportedCps : List Nat :=
  [437, 850, 852, 932, 949, 950, 1250, 1251, 1252, 1253, 1254, 1255, 1256, 1257, 1258]

inductive Call where
  | dosSetProcessCp (cp : Nat)
  | vioSetCp (cp : Nat)
  | vio (call : VioCall)
deriving DecidableEq, Repr

namespace System

variable (rs : EncodingRs)

def dosSetProcessCp (sys : System) (cp : Nat) : Nat × System :=
  if supportedCps.contains cp then (0, { sys with activeCodepage := cp })
  else (invalidCodePage, sys)

/-- A stub. -/
def vioSetCp (sys : System) (_cp : Nat) : Nat × System := (0, sys)

def exec (sys : System) (call : Call) : System :=
  match call with
  | .dosSetProcessCp cp => (sys.dosSetProcessCp cp).2
  | .vioSetCp cp => (sys.vioSetCp cp).2
  | .vio call => { sys with console := call.exec rs sys.activeCodepage sys.console }

def run (sys : System) (calls : List Call) : System := calls.foldl (exec rs) sys

end System

section Annotation

inductive CellKind where
  | sbcs
  | dbcsLead
  | dbcsTail
deriving DecidableEq, Repr

/-- The scan from the cell with number `i` on. -/
def annotateFrom (cp cols : Nat) : Nat → List UInt8 → List CellKind
  | _, [] => []
  | _, [_] => [.sbcs]
  | i, lead :: trail :: rest =>
      if isDbcsLeadByte lead cp ∧ i % cols + 1 < cols then
        .dbcsLead :: .dbcsTail :: annotateFrom cp cols (i + 2) rest
      else .sbcs :: annotateFrom cp cols (i + 1) (trail :: rest)

def annotateDbcs (rawBytes : List UInt8) (cp cols : Nat) : List CellKind :=
  if (dbcsLeadRanges cp).isEmpty ∨ cols = 0 then List.replicate rawBytes.length .sbcs
  else annotateFrom cp cols 0 rawBytes

structure VgaTextBuffer where
  rows : Nat
  cols : Nat
  cells : List Cell
  rawBytes : List UInt8
  cellKind : List CellKind
  cursorRow : Nat
  cursorCol : Nat
  cursorVisible : Bool
  cursorStart : Nat
  cursorEnd : Nat

variable (rs : EncodingRs) (sys : System)

/-- The codepage by which cells are told to be halves. -/
def System.annotationCp : Nat := sys.console.codepage

/-- A lead cell shows the character of the pair. -/
def snapshotCell (cp : Nat) (rawBytes : List UInt8) (kinds : List CellKind) (i : Nat) (cell : Cell) :
    Cell :=
  match kinds[i]?, rawBytes[i]?, rawBytes[i + 1]? with
  | some .dbcsLead, some lead, some trail => (decodeDbcs rs lead trail cp, cell.2)
  | _, _, _ => cell

def System.snapshot : VgaTextBuffer :=
  let vio := sys.console
  let kinds := annotateDbcs vio.rawBytes sys.annotationCp vio.cols
  { rows := vio.rows
    cols := vio.cols
    cells := vio.buffer.zipIdx.map fun entry =>
      snapshotCell rs sys.annotationCp vio.rawBytes kinds entry.2 entry.1
    rawBytes := vio.rawBytes
    cellKind := kinds
    cursorRow := vio.cursorRow
    cursorCol := vio.cursorCol
    cursorVisible := vio.cursorVisible
    cursorStart := vio.cursorStart
    cursorEnd := vio.cursorEnd }

/-- The kind of a cell, or the error. -/
def System.vioCheckCharType (row col : Nat) : Except Nat CellKind :=
  let vio := sys.console
  if vio.rows ≤ row then .error vioRow
  else if vio.cols ≤ col then .error vioCol
  else
    let rowBytes := (vio.rawBytes.drop (row * vio.cols)).take vio.cols
    .ok (((annotateDbcs rowBytes sys.annotationCp vio.cols)[col]?).getD .sbcs)

end Annotation
end Warpine.Vio
