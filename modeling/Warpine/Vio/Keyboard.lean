import Warpine.Lib.Feed
import Warpine.Lib.Run
import Warpine.Vio.Calls

/-! The keyboard of the text window. The window puts keys into a queue that the
calls of any number of guest threads share, and `DosRead` of handle 0 makes two
bytes of an Enter, for which the console has a flag. -/
namespace Warpine.Vio
open Warpine.Lib Warpine.Loader

structure KbdKeyInfo where
  ch : UInt8
  scan : UInt8
  state : UInt16
deriving DecidableEq

/-- A `KBDKEYINFO` of the guest, less its reserved byte and its time, which are zero. -/
structure KbdKeyRecord where
  charCode : UInt8
  scanCode : UInt8
  fbStatus : UInt8
  shiftState : UInt16

def KbdKeyInfo.record (ki : KbdKeyInfo) : KbdKeyRecord :=
  ⟨ki.ch, ki.scan, if ki.ch = 0 then 0x02 else 0x40, ki.state⟩

def KbdKeyRecord.none : KbdKeyRecord := ⟨0, 0, 0, 0⟩

/-- Nothing is written to address zero. -/
def KbdKeyRecord.writtenTo (record : KbdKeyRecord) (pKeyInfo : Nat) : Option KbdKeyRecord :=
  if pKeyInfo = 0 then Option.none else some record

def carriageReturn : UInt8 := 0x0D
def lineFeed : UInt8 := 0x0A
def backspace : UInt8 := 0x08
def delete : UInt8 := 0x7F

/-- The calls that read keys. The length is what the guest's memory has for it,
absent where its address is null; `dosRead` is for handle 0. -/
inductive KbdCall where
  | kbdCharIn (pKeyInfo wait : Nat)
  | kbdStringIn (maxLen : Option UInt16) (wait : Nat)
  | dosRead (len : Nat)

/-- What a call leaves in the guest's memory. A byte of `dosRead` is that of a key
or the line feed after an Enter. -/
inductive KbdReply where
  | failed (rc : Nat)
  | keyInfo (written : Option KbdKeyRecord)
  | line (chars : List UInt8)
  | noBytes
  | byte (ki : KbdKeyInfo)
  | lineFeed

/-- The bytes for the readers of handle 0. -/
def KbdReply.bytes : KbdReply → List UInt8
  | .byte ki => [ki.ch]
  | .lineFeed => [Vio.lineFeed]
  | _ => []

def KbdReply.key : KbdReply → Option KbdKeyInfo
  | .byte ki => some ki
  | _ => none

/-- How far a call has got. Each step but the last takes a lock. -/
inductive KbdPhase where
  | charIn (pKeyInfo wait : Nat)
  | stringIn (maxLen : UInt16) (wait : Nat) (chars : List UInt8)
  | echoing (maxLen : UInt16) (wait : Nat) (chars : List UInt8) (b : UInt8)
  | pendingCheck
  | wantsKey
  | hasKey (ki : KbdKeyInfo)
  | answering (reply : KbdReply)

def KbdCall.start : KbdCall → KbdPhase
  | .kbdCharIn pKeyInfo wait => .charIn pKeyInfo wait
  | .kbdStringIn none _ => .answering (.failed invalidFunction)
  | .kbdStringIn (some maxLen) wait => .stringIn maxLen wait []
  | .dosRead len => if len = 0 then .answering .noBytes else .pendingCheck

inductive KbdThread where
  | running
  | inCall (number : Nat) (call : KbdCall) (phase : KbdPhase)

structure KbdAnswer where
  number : Nat
  call : KbdCall
  reply : KbdReply

/-- Calls are numbered as they are made, and a key is taken under the number of
the call. -/
structure KbdState where
  kbdQueue : Feed Nat KbdKeyInfo
  sys : System
  exitRequested : Bool
  threads : Nat → KbdThread
  calls : Nat
  /-- In the order of return. -/
  answers : List KbdAnswer

/-- The line that `KbdStringIn` has after one more byte. -/
def lineTakes (chars : List UInt8) (b : UInt8) : List UInt8 :=
  if b = backspace ∨ b = delete then chars.dropLast
  else if 0x20 ≤ b then chars ++ [b]
  else chars

namespace KbdState

def initial (winsize : Option (UInt16 × UInt16)) : KbdState where
  kbdQueue := .empty
  sys := .new winsize
  exitRequested := false
  threads := fun _ => .running
  calls := 0
  answers := []

def goes (s : KbdState) (thread number : Nat) (call : KbdCall) (phase : KbdPhase) : KbdState :=
  { s with threads := Function.update s.threads thread (.inCall number call phase) }

def calling (s : KbdState) (thread : Nat) (call : KbdCall) : KbdState :=
  { s with calls := s.calls + 1 }.goes thread s.calls call call.start

def returns (s : KbdState) (thread number : Nat) (call : KbdCall) (reply : KbdReply) : KbdState :=
  { s with
    threads := Function.update s.threads thread .running
    answers := s.answers ++ [⟨number, call, reply⟩] }

def setConsole (s : KbdState) (console : VioManager) : KbdState :=
  { s with sys := { s.sys with console := console } }

def takes (s : KbdState) (number : Nat) : KbdState :=
  { s with kbdQueue := s.kbdQueue.take number }

section Work

variable (rs : EncodingRs) (s : KbdState) (thread number : Nat) (call : KbdCall)

/-- One turn of the loop of `kbd_char_in`, under the lock of the queue. -/
def kbdCharIn (pKeyInfo wait : Nat) : KbdState :=
  if s.exitRequested then s.goes thread number call (.answering (.failed invalidFunction))
  else match s.kbdQueue.queue with
    | ki :: _ =>
        (s.takes number).goes thread number call
          (.answering (.keyInfo (ki.record.writtenTo pKeyInfo)))
    | [] =>
        if wait = 1 then
          s.goes thread number call (.answering (.keyInfo (KbdKeyRecord.none.writtenTo pKeyInfo)))
        else s

/-- One turn of the loop of `kbd_string_in`, up to the byte that the host's
standard input has, if it has one. -/
def kbdStringIn (maxLen : UInt16) (wait : Nat) (chars : List UInt8) (host : Option UInt8) :
    KbdState :=
  if s.exitRequested ∨ maxLen.toNat ≤ chars.length then
    s.goes thread number call (.answering (.line chars))
  else match host with
    | some b => s.goes thread number call (.echoing maxLen wait chars b)
    | none => if wait = 1 then s.goes thread number call (.answering (.line chars)) else s

/-- The rest of that turn. -/
def kbdStringEcho (maxLen : UInt16) (wait : Nat) (chars : List UInt8) (b : UInt8) : KbdState :=
  if b = carriageReturn then s.goes thread number call (.answering (.line chars))
  else
    let console :=
      if b = backspace ∨ b = delete then
        if 0 < chars.length then s.sys.console.writeTty rs [backspace, 0x20, backspace] 0x07 437
        else s.sys.console
      else if 0x20 ≤ b then s.sys.console.writeTty rs [b] 0x07 s.sys.activeCodepage
      else s.sys.console
    (s.setConsole console).goes thread number call (.stringIn maxLen wait (lineTakes chars b))

/-- `dos_read_stdin` looks for a line feed that is still to be read. -/
def takePendingLf : KbdState :=
  if s.sys.console.stdinPendingLf then
    (s.setConsole { s.sys.console with stdinPendingLf := false }).goes thread number call
      (.answering .lineFeed)
  else s.goes thread number call .wantsKey

def takeKey : KbdState :=
  if s.exitRequested then s.goes thread number call (.answering (.failed invalidFunction))
  else match s.kbdQueue.queue with
    | ki :: _ => (s.takes number).goes thread number call (.hasKey ki)
    | [] => s

/-- The console gets the key, which is echoed and answered with. A backspace at
the start of the line is thrown away. -/
def typeKey (ki : KbdKeyInfo) : KbdState :=
  let console := s.sys.console
  let answers (console : VioManager) :=
    (s.setConsole console).goes thread number call (.answering (.byte ki))
  if ki.ch = carriageReturn then
    answers ({ console with stdinPendingLf := true, stdinCookedChars := 0 }.writeTty rs
      [carriageReturn, lineFeed] 0x07 437)
  else if ki.ch = backspace then
    if 0 < console.stdinCookedChars then
      answers ({ console with stdinCookedChars := console.stdinCookedChars - 1 }.writeTty rs
        [backspace, 0x20, backspace] 0x07 437)
    else s.goes thread number call .wantsKey
  else if 0x20 ≤ ki.ch then
    answers ({ console with stdinCookedChars := console.stdinCookedChars + 1 }.writeTty rs
      [ki.ch] 0x07 s.sys.activeCodepage)
  else answers console

/-- The next step of a thread that is in a call. -/
def work (host : Option UInt8) : KbdPhase → KbdState
  | .charIn pKeyInfo wait => s.kbdCharIn thread number call pKeyInfo wait
  | .stringIn maxLen wait chars => s.kbdStringIn thread number call maxLen wait chars host
  | .echoing maxLen wait chars b => s.kbdStringEcho rs thread number call maxLen wait chars b
  | .pendingCheck => s.takePendingLf thread number call
  | .wantsKey => s.takeKey thread number call
  | .hasKey ki => s.typeKey rs thread number call ki
  | .answering reply => s.returns thread number call reply

end Work

end KbdState

inductive KbdEvent where
  | press (keys : List KbdKeyInfo)
  | call (thread : Nat) (call : KbdCall)
  | work (thread : Nat) (host : Option UInt8)
  /-- A call that writes to the screen or sets the codepage. -/
  | screen (call : Call)
  | quit

/-- The steps of the window and of the threads, in any order. -/
inductive KbdStep (rs : EncodingRs) : KbdState → KbdEvent → KbdState → Prop where
  | press {s : KbdState} (keys : List KbdKeyInfo) :
      KbdStep rs s (.press keys) { s with kbdQueue := s.kbdQueue.push keys }
  | call {s : KbdState} {thread : Nat} (call : KbdCall) (running : s.threads thread = .running) :
      KbdStep rs s (.call thread call) (s.calling thread call)
  | work {s : KbdState} {thread number : Nat} {call : KbdCall} {phase : KbdPhase}
      (host : Option UInt8) (inside : s.threads thread = .inCall number call phase) :
      KbdStep rs s (.work thread host) (s.work rs thread number call host phase)
  | screen {s : KbdState} (call : Call) :
      KbdStep rs s (.screen call) { s with sys := s.sys.exec rs call }
  | quit {s : KbdState} : KbdStep rs s .quit { s with exitRequested := true }

end Warpine.Vio
