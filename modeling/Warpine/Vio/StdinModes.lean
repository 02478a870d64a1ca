import Warpine.Lib.Echo
import Warpine.Vio.KeyLines
import Warpine.Vio.Scrolling

/-! `DosRead` of handle 0 in its two modes. In the text window it takes keys from the
queue and counts the characters of the line, on a terminal it takes bytes from the
host and counts nothing. -/
namespace Warpine.Vio
open Warpine.Lib Warpine.Loader
open VioManager (Sized)

/-- The host's terminal: each character takes a cell, and a backspace goes back by a cell
at most. -/
structure Tty (σ κ : Type) extends Display σ κ where
  write : σ → UInt8 → σ
  prints : ∀ s byte, 0x20 ≤ byte → toDisplay.Prints s (write s byte)
  stepsBack : ∀ s, toDisplay.StepsBack s (write s backspace)

def eraseEcho : List UInt8 := [backspace, 0x20, backspace]

/-- The rows that leave the screen at the top as a byte is written. -/
def VioManager.rowsLost (vio : VioManager) (ch : UInt8) : Nat :=
  if ch = lineFeed then if vio.cursorRow + 1 = vio.rows then 1 else 0
  else if isControl ch then 0
  else if vio.cursorRow * vio.cols + vio.cursorCol + 1 = vio.rows * vio.cols then 1 else 0

/-- The text window. The rows that it has lost are counted for its display only. -/
structure SdlStdin where
  sys : System
  kbdQueue : List KbdKeyInfo
  rowsLost : Nat

namespace SdlStdin

variable (rs : EncodingRs) (s : SdlStdin)

def withConsole (console : VioManager) : SdlStdin :=
  { s with sys := { s.sys with console := console } }

def echoByte (cp : Nat) (ch : UInt8) : SdlStdin where
  sys := { s.sys with console := s.sys.console.writeTtyByte rs 0x07 cp ch }
  kbdQueue := s.kbdQueue
  rowsLost := s.rowsLost + s.sys.console.rowsLost ch

def echo (cp : Nat) (text : List UInt8) : SdlStdin :=
  text.foldl (fun s ch => s.echoByte rs cp ch) s

/-- A key with the byte to deliver; a backspace at the start of the line has none. -/
def typeKey (ki : KbdKeyInfo) : Option UInt8 × SdlStdin :=
  let console := s.sys.console
  if ki.ch = carriageReturn then
    let console := { console with stdinPendingLf := true, stdinCookedChars := 0 }
    (some carriageReturn, (s.withConsole console).echo rs 437 [carriageReturn, lineFeed])
  else if ki.ch = backspace then
    if 0 < console.stdinCookedChars then
      let console := { console with stdinCookedChars := console.stdinCookedChars - 1 }
      (some ki.ch, (s.withConsole console).echo rs 437 eraseEcho)
    else (none, s)
  else if 0x20 ≤ ki.ch then
    let console := { console with stdinCookedChars := console.stdinCookedChars + 1 }
    (some ki.ch, (s.withConsole console).echo rs s.sys.activeCodepage [ki.ch])
  else (some ki.ch, s)

/-- The loop over the queue, up to a key that is delivered. -/
def takeKeys (s : SdlStdin) : List KbdKeyInfo → Option (UInt8 × SdlStdin)
  | [] => none
  | ki :: rest =>
      match { s with kbdQueue := rest }.typeKey rs ki with
      | (some byte, next) => some (byte, next)
      | (none, _) => takeKeys s rest

def dosReadStdin : Option (UInt8 × SdlStdin) :=
  if s.sys.console.stdinPendingLf then
    some (lineFeed, s.withConsole { s.sys.console with stdinPendingLf := false })
  else s.takeKeys rs s.kbdQueue

/-- The cells of the console, counted from the first row that it has lost. -/
def display : Display SdlStdin Cell where
  place s := s.sys.console.cursorRow * s.sys.console.cols + s.sys.console.cursorCol +
    s.rowsLost * s.sys.console.cols
  cell s j :=
    if (s.rowsLost * s.sys.console.cols : Int) ≤ j then
      s.sys.console.buffer[(j - s.rowsLost * s.sys.console.cols).toNat]?
    else none

end SdlStdin

/-- A terminal, with what was typed there. A read that finds nothing is made again. -/
structure TermStdin (σ : Type) where
  console : VioManager
  input : List UInt8
  screen : σ

namespace TermStdin

variable {σ κ : Type} (tty : Tty σ κ) (s : TermStdin σ)

def echo (text : List UInt8) : TermStdin σ := { s with screen := text.foldl tty.write s.screen }

def typeByte (byte : UInt8) : TermStdin σ :=
  if byte = carriageReturn then
    { s with console := { s.console with stdinPendingLf := true } }.echo tty
      [carriageReturn, lineFeed]
  else if byte = backspace ∨ byte = delete then s.echo tty eraseEcho
  else if 0x20 ≤ byte then s.echo tty [byte]
  else s

def dosReadStdin : Option (UInt8 × TermStdin σ) :=
  if s.console.stdinPendingLf then
    some (lineFeed, { s with console := { s.console with stdinPendingLf := false } })
  else match s.input with
    | [] => none
    | byte :: rest => some (byte, { s with input := rest }.typeByte tty byte)

def display : Display (TermStdin σ) κ where
  place s := tty.place s.screen
  cell s := tty.cell s.screen

end TermStdin

/-- A printable character, a backspace or an Enter. -/
def KbdKeyInfo.Typed (ki : KbdKeyInfo) : Prop :=
  ki.ch = carriageReturn ∨ ki.ch = backspace ∨ (0x20 ≤ ki.ch ∧ ki.ch ≠ delete)

/-- The characters of the input line after a key. -/
def lineLength (length : Nat) (ki : KbdKeyInfo) : Nat :=
  if ki.ch = carriageReturn then 0
  else if ki.ch = backspace then length - 1
  else length + 1

/-- No key is a backspace where the input line is empty. -/
def Erasable : Nat → List KbdKeyInfo → Prop
  | _, [] => True
  | length, ki :: rest =>
      (ki.ch = backspace → 0 < length) ∧ Erasable (lineLength length ki) rest

/-- The keys less the backspaces in empty lines. -/
def effective : Nat → List KbdKeyInfo → List KbdKeyInfo
  | _, [] => []
  | length, ki :: rest =>
      if ki.ch = backspace ∧ length = 0 then effective length rest
      else ki :: effective (lineLength length ki) rest

/-- Both modes deliver the same bytes for any number of calls, and neither erases a cell
in front of the line. -/
structure ModesAgree {σ κ : Type} (rs : EncodingRs) (tty : Tty σ κ) (sdl : SdlStdin)
    (term : TermStdin σ) : Prop where
  bytes : ∀ n, (reads (SdlStdin.dosReadStdin rs) n sdl).1 =
    (reads (TermStdin.dosReadStdin tty) n term).1
  sdlLines : SdlStdin.display.KeepsLines (SdlStdin.dosReadStdin rs) lineFeed carriageReturn sdl
  termLines : (TermStdin.display tty).KeepsLines (TermStdin.dosReadStdin tty) lineFeed
    carriageReturn term

section Keys

variable {length : Nat} {keys : List KbdKeyInfo}

theorem effective_sublist (length : Nat) (keys : List KbdKeyInfo) :
    (effective length keys).Sublist keys := by
  induction keys generalizing length with
  | nil => exact .slnil
  | cons ki rest ih =>
    unfold effective
    split
    · exact (ih length).cons ki
    · exact (ih (lineLength length ki)).cons_cons ki

theorem effective_eq_self : effective length keys = keys ↔ Erasable length keys := by
  induction keys generalizing length with
  | nil => exact iff_of_true rfl trivial
  | cons ki rest ih =>
    unfold effective Erasable
    split
    · rename_i idle
      apply iff_of_false
      · intro same
        have shorter := (effective_sublist length rest).length_le
        rw [same, List.length_cons] at shorter
        omega
      · intro erasable
        have := erasable.1 idle.1
        omega
    · rename_i useful
      rw [List.cons_inj_right, ih]
      constructor
      · intro erasable
        refine ⟨?_, erasable⟩
        intro back
        by_contra empty
        exact useful ⟨back, by omega⟩
      · exact fun erasable => erasable.2

/-- The bytes of one key. -/
def keyBytes (ch : UInt8) : List UInt8 :=
  if ch = carriageReturn then [carriageReturn, lineFeed] else [ch]

theorem crlf_cons (ki : KbdKeyInfo) (rest : List KbdKeyInfo) :
    crlf (ki :: rest) = keyBytes ki.ch ++ crlf rest := List.flatMap_cons

theorem keyBytes_pos (ch : UInt8) : 0 < (keyBytes ch).length := by
  unfold keyBytes
  split <;> exact Nat.succ_pos _

/-- Each key that is left out is a byte less. -/
theorem crlf_fewer {part : List KbdKeyInfo} (sub : part.Sublist keys) :
    (crlf part).length + keys.length ≤ (crlf keys).length + part.length := by
  induction sub with
  | slnil => exact Nat.le_refl _
  | cons ki sub ih =>
    have pos := keyBytes_pos ki.ch
    rw [crlf_cons, List.length_append, List.length_cons]
    omega
  | cons_cons ki sub ih =>
    rw [crlf_cons, crlf_cons, List.length_append, List.length_append, List.length_cons,
      List.length_cons]
    omega

theorem crlf_effective : crlf (effective length keys) = crlf keys ↔ Erasable length keys := by
  rw [← effective_eq_self]
  constructor
  · intro same
    have sub := effective_sublist length keys
    have fewer := crlf_fewer sub
    rw [same] at fewer
    exact sub.eq_of_length_le (by omega)
  · exact congrArg crlf

end Keys

namespace SdlStdin

section Echoes

variable {rs : EncodingRs} {s opened : SdlStdin} {cp d : Nat} {ch : UInt8}

theorem echo_kbdQueue (text : List UInt8) : (s.echo rs cp text).kbdQueue = s.kbdQueue := by
  induction text generalizing s with
  | nil => rfl
  | cons ch rest ih => exact ih

theorem echo_sys (text : List UInt8) : (s.echo rs cp text).sys =
    { s.sys with console := s.sys.console.writeTty rs text 0x07 cp } := by
  induction text generalizing s with
  | nil => rfl
  | cons ch rest ih => exact ih

theorem echoByte_prints (sized : Sized s.sys.console) (plain : isControl ch = false) :
    display.Prints s (s.echoByte rs cp ch) := by
  have other : ch ≠ lineFeed := by
    rintro rfl
    contradiction
  have cursor := place_lt sized.cursorRow sized.cursorCol
  by_cases room : s.sys.console.cursorRow * s.sys.console.cols + s.sys.console.cursorCol + 1 <
      s.sys.console.rows * s.sys.console.cols
  · obtain ⟨hbuffer, hrows, hcols, hcursor⟩ :=
      @writeTtyByte_plain rs cp s.sys.console 0x07 ch sized plain room
    have none_ : s.sys.console.rowsLost ch = 0 := by
      rw [VioManager.rowsLost, if_neg other, plain, if_neg Bool.false_ne_true, if_neg (by omega)]
    constructor
    · simp only [display, echoByte, none_, hcols, Nat.add_zero] at hcursor ⊢
      omega
    · intro j before
      left
      simp only [display, echoByte, none_, hcols, hbuffer, Nat.add_zero] at before ⊢
      split
      · rw [List.getElem?_set_ne (by omega)]
      · rfl
  · have last : s.sys.console.cursorRow * s.sys.console.cols + s.sys.console.cursorCol + 1 =
        s.sys.console.rows * s.sys.console.cols := by omega
    obtain ⟨hrows, hcols, hcursor, hcells⟩ :=
      @VioManager.writeTtyByte_scrolls s.sys.console rs cp 0x07 ch sized plain last
    have one : s.sys.console.rowsLost ch = 1 := by
      rw [VioManager.rowsLost, if_neg other, plain, if_neg Bool.false_ne_true, if_pos last]
    have grown : ((s.rowsLost + 1 : Nat) : Int) * s.sys.console.cols =
        s.rowsLost * s.sys.console.cols + s.sys.console.cols := by
      push_cast
      ring
    constructor
    · simp only [display, echoByte, one, hcols, grown] at hcursor ⊢
      omega
    · intro j before
      simp only [display, echoByte, one, hcols, grown] at before ⊢
      split
      · left
        rename_i shown
        rw [if_pos (by omega), hcells _ (by omega), if_pos (by omega),
          List.getElem?_set_ne (by omega)]
        congr 1
        omega
      · exact .inr rfl

theorem echoByte_back : display.StepsBack s (s.echoByte rs cp backspace) where
  place := by
    have kept : s.sys.console.rowsLost backspace = 0 := rfl
    have moved : s.sys.console.writeTtyByte rs 0x07 cp backspace =
        { s.sys.console with cursorCol := s.sys.console.cursorCol - 1 } := rfl
    simp only [display, echoByte, kept, moved, Nat.add_zero]
    omega
  cell := fun _ => rfl

theorem echo_erases (sized : Sized s.sys.console) (ahead : display.Ahead opened (d + 1) s) :
    display.Ahead opened d (s.echo rs cp eraseEcho) := by
  have back : Sized (s.echoByte rs cp backspace).sys.console := by
    change Sized (s.sys.console.writeTtyByte rs 0x07 cp backspace)
    exact VioManager.writeTtyByte_sized sized
  exact ahead.erase echoByte_back (echoByte_prints back rfl) echoByte_back

end Echoes

/-- The text window within a line: so many characters are typed, and none while a line feed
is still to be read. -/
structure Within (length : Nat) (s : SdlStdin) : Prop where
  sized : Sized s.sys.console
  counted : s.sys.console.stdinCookedChars = length
  between : s.sys.console.stdinPendingLf = true → length = 0
  typed : ∀ ki ∈ s.kbdQueue, ki.Typed

/-- What is still to be delivered. -/
def stream (s : SdlStdin) : List UInt8 :=
  (if s.sys.console.stdinPendingLf then [lineFeed] else []) ++
    crlf (effective s.sys.console.stdinCookedChars.toNat s.kbdQueue)

section Typing

variable {rs : EncodingRs} {s next : SdlStdin} {length : Nat} {ki : KbdKeyInfo} {byte : UInt8}

/-- What a key does that is delivered. -/
structure Types (length : Nat) (s : SdlStdin) (ki : KbdKeyInfo) (next : SdlStdin) : Prop where
  within : Within (lineLength length ki) next
  queue : next.kbdQueue = s.kbdQueue
  pending : next.sys.console.stdinPendingLf = decide (ki.ch = carriageReturn)
  ahead : ki.ch ≠ carriageReturn → ∀ opened, display.Ahead opened length s →
    display.Ahead opened (lineLength length ki) next

/-- The flags are not on the screen. -/
theorem ahead_flags {opened : SdlStdin} {d : Nat} (pending : Bool) (cooked : Int)
    (ahead : display.Ahead opened d s) : display.Ahead opened d (s.withConsole
      { s.sys.console with stdinPendingLf := pending, stdinCookedChars := cooked }) :=
  ⟨ahead.place, ahead.kept⟩

theorem sized_flags (pending : Bool) (cooked : Int) (sized : Sized s.sys.console) :
    Sized { s.sys.console with stdinPendingLf := pending, stdinCookedChars := cooked } :=
  { sized with }

theorem lineLength_enter (enter : ki.ch = carriageReturn) : lineLength length ki = 0 :=
  if_pos enter

/-- A key that sets the flags of the console, and is echoed. -/
theorem types_echo {console : VioManager} {cp : Nat} {text : List UInt8} (sized : Sized console)
    (counted : console.stdinCookedChars = lineLength length ki)
    (pending : console.stdinPendingLf = decide (ki.ch = carriageReturn))
    (typed : ∀ ki ∈ s.kbdQueue, ki.Typed)
    (ahead : ki.ch ≠ carriageReturn → ∀ opened, display.Ahead opened length s →
      display.Ahead opened (lineLength length ki) ((s.withConsole console).echo rs cp text)) :
    Types length s ki ((s.withConsole console).echo rs cp text) where
  within := {
    sized := by
      rw [echo_sys]
      exact exec_sized (.wrtTty text 0x07) sized
    counted := by
      rw [echo_sys]
      exact (writeTty_cookedChars _ _ _ _).trans counted
    between := by
      rw [echo_sys]
      intro flag
      have enter := pending.symm.trans ((writeTty_pendingLf _ _ _ _).symm.trans flag)
      exact lineLength_enter (of_decide_eq_true enter)
    typed := by
      rw [echo_kbdQueue]
      exact typed }
  queue := echo_kbdQueue text
  pending := by
    rw [echo_sys]
    exact (writeTty_pendingLf _ _ _ _).trans pending
  ahead := ahead

theorem typeKey_types (rs : EncodingRs) (within : Within length s)
    (free : s.sys.console.stdinPendingLf = false) (typed : ki.Typed)
    (useful : ki.ch = backspace → 0 < length) :
    (s.typeKey rs ki).1 = some ki.ch ∧ Types length s ki (s.typeKey rs ki).2 := by
  have counted := within.counted
  unfold typeKey
  by_cases enter : ki.ch = carriageReturn
  · rw [if_pos enter]
    refine ⟨congrArg some enter.symm, types_echo { within.sized with } ?_ ?_ within.typed ?_⟩
    · rw [lineLength_enter enter]
      rfl
    · exact (decide_eq_true enter).symm
    · exact fun other => absurd enter other
  rw [if_neg enter]
  by_cases back : ki.ch = backspace
  · have long := useful back
    have shorter : lineLength length ki = length - 1 := by
      rw [lineLength, if_neg enter, if_pos back]
    rw [if_pos back, if_pos (by omega)]
    refine ⟨rfl, types_echo { within.sized with } ?_ ?_ within.typed ?_⟩
    · dsimp only
      omega
    · exact free.trans (decide_eq_false enter).symm
    · intro _ opened ahead
      rw [shorter]
      rw [← Nat.sub_add_cancel long] at ahead
      exact echo_erases (sized_flags _ _ within.sized) (ahead_flags _ _ ahead)
  · have printable : 0x20 ≤ ki.ch := by
      rcases typed with enter' | back' | ⟨printable, _⟩
      · contradiction
      · contradiction
      · exact printable
    have longer : lineLength length ki = length + 1 := by
      rw [lineLength, if_neg enter, if_neg back]
    rw [if_neg back, if_pos printable]
    refine ⟨rfl, types_echo { within.sized with } ?_ ?_ within.typed ?_⟩
    · dsimp only
      omega
    · exact free.trans (decide_eq_false enter).symm
    · intro _ opened ahead
      rw [longer]
      exact (ahead_flags _ _ ahead).prints (echoByte_prints (sized_flags _ _ within.sized)
        (isControl_printable printable))

theorem typeKey_idle (rs : EncodingRs) (within : Within 0 s) (back : ki.ch = backspace) :
    s.typeKey rs ki = (none, s) := by
  have other : ¬ ki.ch = carriageReturn := by
    rw [back]
    decide
  have counted := within.counted
  rw [typeKey, if_neg other, if_pos back, if_neg (by omega)]

/-- A thread that types a key does this to its console and its answer. -/
theorem typeKey_thread (rs : EncodingRs) (s : KbdState) (thread number : Nat) (call : KbdCall)
    (ki : KbdKeyInfo) (queue : List KbdKeyInfo) (rowsLost : Nat) :
    let result := SdlStdin.typeKey rs ⟨s.sys, queue, rowsLost⟩ ki
    s.typeKey rs thread number call ki =
      ({ s with sys := result.2.sys } : KbdState).goes thread number call
        (match result.1 with
          | some _ => .answering (.byte ki)
          | none => .wantsKey) := by
  unfold typeKey KbdState.typeKey
  dsimp only
  split_ifs
  · rw [echo_sys]
    rfl
  · rw [echo_sys]
    rfl
  · rfl
  · rw [echo_sys]
    rfl
  · rfl

/-- The loop comes to the first key that is not a backspace in an empty line. -/
theorem takeKeys_cases (rs : EncodingRs) {keys : List KbdKeyInfo} (within : Within length s)
    (free : s.sys.console.stdinPendingLf = false) (typed : ∀ ki ∈ keys, ki.Typed) :
    (effective length keys = [] ∧ s.takeKeys rs keys = none) ∨
      ∃ ki rest next, effective length keys = ki :: effective (lineLength length ki) rest ∧
        s.takeKeys rs keys = some (ki.ch, next) ∧ ki.Typed ∧
          Types length { s with kbdQueue := rest } ki next := by
  induction keys with
  | nil => exact .inl ⟨rfl, rfl⟩
  | cons ki rest ih =>
    obtain ⟨first, others⟩ := List.forall_mem_cons.mp typed
    have inside : Within length { s with kbdQueue := rest } := { within with typed := others }
    by_cases idle : ki.ch = backspace ∧ length = 0
    · obtain ⟨back, rfl⟩ := idle
      have nothing := typeKey_idle rs inside back
      rw [effective, if_pos ⟨back, rfl⟩, takeKeys, nothing]
      exact ih others
    · right
      have useful : ki.ch = backspace → 0 < length := by
        intro back
        by_contra empty
        exact idle ⟨back, by omega⟩
      obtain ⟨byte, types⟩ := typeKey_types rs inside free first useful
      refine ⟨ki, rest, _, ?_, ?_, first, types⟩
      · rw [effective, if_neg idle]
      · rw [takeKeys]
        generalize typeKey rs { s with kbdQueue := rest } ki = result at byte
        obtain ⟨delivered, next⟩ := result
        cases byte
        rfl

/-- A call delivers the line feed that is pending, or what the loop comes to. -/
theorem dosReadStdin_cases (rs : EncodingRs) (within : Within length s) :
    (s.sys.console.stdinPendingLf = true ∧ length = 0 ∧
      s.dosReadStdin rs = some (lineFeed, s.withConsole
        { s.sys.console with stdinPendingLf := false })) ∨
    (s.sys.console.stdinPendingLf = false ∧ s.dosReadStdin rs = s.takeKeys rs s.kbdQueue) := by
  unfold dosReadStdin
  cases flag : s.sys.console.stdinPendingLf with
  | true => exact .inl ⟨rfl, within.between flag, rfl⟩
  | false => exact .inr ⟨rfl, rfl⟩

theorem within_withConsole (within : Within 0 s) :
    Within 0 (s.withConsole { s.sys.console with stdinPendingLf := false }) where
  sized := sized_flags _ _ within.sized
  counted := within.counted
  between := fun _ => rfl
  typed := within.typed

theorem stream_eq (within : Within length s) : s.stream =
    (if s.sys.console.stdinPendingLf then [lineFeed] else []) ++
      crlf (effective length s.kbdQueue) := by
  rw [stream, within.counted, Int.toNat_natCast]

/-- After a key, the line feed of an Enter is what comes next. -/
theorem Types.stream_eq {rest : List KbdKeyInfo}
    (types : Types length { s with kbdQueue := rest } ki next) :
    ki.ch :: next.stream = keyBytes ki.ch ++ crlf (effective (lineLength length ki) rest) := by
  rw [SdlStdin.stream_eq types.within, types.queue, types.pending, keyBytes]
  by_cases enter : ki.ch = carriageReturn
  · rw [decide_eq_true enter, if_pos enter, if_pos rfl, enter]
    rfl
  · rw [decide_eq_false enter, if_neg enter, if_neg Bool.false_ne_true]
    rfl

/-- What a call delivers is the next byte of the stream, and only a pending line feed begins
a line. -/
theorem dosReadStdin_delivers (within : Within length s)
    (call : s.dosReadStdin rs = some (byte, next)) :
    s.stream = byte :: next.stream ∧ (∃ length, Within length next) ∧
      (byte = lineFeed → Within 0 next ∧ next.sys.console.stdinPendingLf = false) := by
  rw [SdlStdin.stream_eq within]
  rcases dosReadStdin_cases rs within with ⟨flag, rfl, pending⟩ | ⟨flag, taken⟩
  · cases Option.some.inj (call.symm.trans pending)
    have begun := within_withConsole within
    rw [flag, if_pos rfl, SdlStdin.stream_eq begun]
    exact ⟨rfl, ⟨0, begun⟩, fun _ => ⟨begun, rfl⟩⟩
  · rw [flag, if_neg Bool.false_ne_true]
    rcases takeKeys_cases rs within flag within.typed with
      ⟨_, nothing⟩ | ⟨ki, rest, after, left_, found, typed, types⟩
    · rw [taken, nothing] at call
      contradiction
    · cases Option.some.inj (call.symm.trans (taken.trans found))
      rw [left_, List.nil_append, crlf_cons, types.stream_eq]
      refine ⟨rfl, ⟨_, types.within⟩, ?_⟩
      intro feed
      rcases typed with enter | back | ⟨printable, _⟩
      · rw [feed] at enter
        contradiction
      · rw [feed] at back
        contradiction
      · rw [feed] at printable
        contradiction

theorem dosReadStdin_streams (rs : EncodingRs) :
    Streams (dosReadStdin rs) (fun s => ∃ length, Within length s) stream where
  waits := by
    rintro s ⟨length, within⟩ call
    rw [SdlStdin.stream_eq within]
    rcases dosReadStdin_cases rs within with ⟨_, _, pending⟩ | ⟨flag, taken⟩
    · rw [call] at pending
      contradiction
    · rcases takeKeys_cases rs within flag within.typed with
        ⟨empty, _⟩ | ⟨ki, rest, after, _, found, _⟩
      · rw [flag, empty]
        rfl
      · rw [taken, found] at call
        contradiction
  delivers := by
    rintro s byte next ⟨length, within⟩ call
    have delivered := dosReadStdin_delivers within call
    exact ⟨delivered.1, delivered.2.1⟩

/-- The text window goes back only over what was typed in the line. -/
theorem keepsLines (within : Within 0 s) (free : s.sys.console.stdinPendingLf = false) :
    display.KeepsLines (dosReadStdin rs) lineFeed carriageReturn s := by
  apply @Display.keepsLines_of_line _ _ _ _ _ _ _ (fun s => ∃ length, Within length s)
    (fun length s => Within length s ∧ s.sys.console.stdinPendingLf = false)
  · rintro s byte next ⟨length, within⟩ call
    exact (dosReadStdin_delivers within call).2
  · rintro length s byte next ⟨within, free⟩ call other
    rcases dosReadStdin_cases rs within with ⟨flag, _⟩ | ⟨flag, taken⟩
    · rw [free] at flag
      contradiction
    · rcases takeKeys_cases rs within flag within.typed with
        ⟨_, nothing⟩ | ⟨ki, rest, after, left_, found, typed, types⟩
      · rw [taken, nothing] at call
        contradiction
      · cases Option.some.inj (call.symm.trans (taken.trans found))
        refine ⟨_, ⟨types.within, types.pending.trans (decide_eq_false other)⟩, ?_⟩
        intro opened ahead
        exact types.ahead other opened ⟨ahead.place, ahead.kept⟩
  · exact ⟨0, within⟩
  · exact ⟨within, free⟩

end Typing

end SdlStdin

namespace TermStdin

variable {σ κ : Type} {tty : Tty σ κ} {s next opened : TermStdin σ} {length d : Nat}

/-- The terminal within a line, where no backspace to come is in an empty line. -/
structure Within (length : Nat) (s : TermStdin σ) : Prop where
  between : s.console.stdinPendingLf = true → length = 0
  typed : ∃ keys : List KbdKeyInfo, s.input = keys.map KbdKeyInfo.ch ∧
    (∀ ki ∈ keys, ki.Typed) ∧ Erasable length keys

/-- What is still to be delivered. -/
def stream (s : TermStdin σ) : List UInt8 :=
  (if s.console.stdinPendingLf then [lineFeed] else []) ++ s.input.flatMap keyBytes

theorem typeByte_input (byte : UInt8) : (s.typeByte tty byte).input = s.input := by
  unfold typeByte
  split_ifs <;> rfl

theorem typeByte_pending (tty : Tty σ κ) (byte : UInt8)
    (free : s.console.stdinPendingLf = false) :
    (s.typeByte tty byte).console.stdinPendingLf = decide (byte = carriageReturn) := by
  unfold typeByte
  split_ifs with enter back printable
  · exact (decide_eq_true enter).symm
  · exact free.trans (decide_eq_false enter).symm
  · exact free.trans (decide_eq_false enter).symm
  · exact free.trans (decide_eq_false enter).symm

/-- A call delivers the line feed that is pending, or waits, or delivers the next byte. -/
theorem dosReadStdin_cases (tty : Tty σ κ) (s : TermStdin σ) :
    (s.console.stdinPendingLf = true ∧ s.dosReadStdin tty =
      some (lineFeed, { s with console := { s.console with stdinPendingLf := false } })) ∨
    (s.console.stdinPendingLf = false ∧ s.input = [] ∧ s.dosReadStdin tty = none) ∨
    (s.console.stdinPendingLf = false ∧ ∃ byte rest, s.input = byte :: rest ∧
      s.dosReadStdin tty = some (byte, { s with input := rest }.typeByte tty byte)) := by
  unfold dosReadStdin
  cases flag : s.console.stdinPendingLf with
  | true => exact .inl ⟨rfl, rfl⟩
  | false =>
    right
    cases input : s.input with
    | nil => exact .inl ⟨rfl, rfl, rfl⟩
    | cons byte rest => exact .inr ⟨rfl, byte, rest, rfl, rfl⟩

theorem dosReadStdin_streams (tty : Tty σ κ) :
    Streams (dosReadStdin tty) (fun _ => True) (@stream σ) where
  waits := by
    intro s _ call
    rcases dosReadStdin_cases tty s with
      ⟨_, pending⟩ | ⟨free, empty, _⟩ | ⟨_, byte, rest, _, typed⟩
    · rw [call] at pending
      contradiction
    · rw [stream, free, empty]
      rfl
    · rw [call] at typed
      contradiction
  delivers := by
    intro s byte next _ call
    refine ⟨?_, trivial⟩
    rcases dosReadStdin_cases tty s with
      ⟨flag, pending⟩ | ⟨_, _, waits⟩ | ⟨free, first, rest, input, typed⟩
    · cases Option.some.inj (call.symm.trans pending)
      rw [stream, flag]
      rfl
    · rw [call] at waits
      contradiction
    · cases Option.some.inj (call.symm.trans typed)
      have after := typeByte_pending (s := { s with input := rest }) tty byte free
      rw [stream, stream, free, input, typeByte_input, after, List.flatMap_cons, keyBytes]
      by_cases enter : byte = carriageReturn
      · rw [if_pos enter, decide_eq_true enter, enter]
        rfl
      · rw [if_neg enter, decide_eq_false enter]
        rfl

/-- A key echoed on the terminal. -/
theorem typeByte_ahead {ki : KbdKeyInfo} (typed : ki.Typed) (other : ki.ch ≠ carriageReturn)
    (useful : ki.ch = backspace → 0 < length)
    (ahead : (display tty).Ahead opened length s) :
    (display tty).Ahead opened (lineLength length ki) (s.typeByte tty ki.ch) := by
  have screen : tty.Ahead opened.screen length s.screen := ⟨ahead.place, ahead.kept⟩
  have lift {next : TermStdin σ} {d : Nat} (ahead : tty.Ahead opened.screen d next.screen) :
      (display tty).Ahead opened d next := ⟨ahead.place, ahead.kept⟩
  apply lift
  unfold typeByte lineLength
  rw [if_neg other, if_neg other]
  by_cases back : ki.ch = backspace
  · rw [if_pos (Or.inl back), if_pos back]
    rw [← Nat.sub_add_cancel (useful back)] at screen
    exact screen.erase (tty.stepsBack _) (tty.prints _ 0x20 (by decide)) (tty.stepsBack _)
  · rcases typed with enter | back' | ⟨printable, shown⟩
    · contradiction
    · contradiction
    · rw [if_neg (not_or.mpr ⟨back, shown⟩), if_pos printable, if_neg back]
      exact screen.prints (tty.prints _ _ printable)

/-- What a call keeps of a line, and that only a pending line feed begins one. -/
theorem dosReadStdin_line {byte : UInt8} (within : Within length s)
    (call : s.dosReadStdin tty = some (byte, next)) :
    (∃ length, Within length next) ∧
      (byte = lineFeed → Within 0 next ∧ next.console.stdinPendingLf = false) ∧
        (s.console.stdinPendingLf = false → byte ≠ carriageReturn →
          ∃ d, Within d next ∧ next.console.stdinPendingLf = false ∧ ∀ opened,
            (display tty).Ahead opened length s → (display tty).Ahead opened d next) := by
  rcases dosReadStdin_cases tty s with
    ⟨flag, pending⟩ | ⟨_, _, waits⟩ | ⟨free, first, rest, input, typed⟩
  · cases Option.some.inj (call.symm.trans pending)
    cases within.between flag
    have begun : Within 0 { s with console := { s.console with stdinPendingLf := false } } :=
      ⟨fun _ => rfl, within.typed⟩
    refine ⟨⟨0, begun⟩, fun _ => ⟨begun, rfl⟩, ?_⟩
    intro free
    rw [flag] at free
    contradiction
  · rw [call] at waits
    contradiction
  · cases Option.some.inj (call.symm.trans typed)
    obtain ⟨keys, same, all, erasable⟩ := within.typed
    rw [input] at same
    cases keys with
    | nil => contradiction
    | cons ki keys =>
      obtain ⟨rfl, rfl⟩ := List.cons.inj same
      obtain ⟨one, others⟩ := List.forall_mem_cons.mp all
      have after := typeByte_pending (s := { s with input := keys.map KbdKeyInfo.ch }) tty
        ki.ch free
      have inside : Within (lineLength length ki)
          ({ s with input := keys.map KbdKeyInfo.ch }.typeByte tty ki.ch) := by
        refine ⟨?_, keys, typeByte_input _, others, erasable.2⟩
        intro flag
        exact SdlStdin.lineLength_enter (of_decide_eq_true (after.symm.trans flag))
      refine ⟨⟨_, inside⟩, ?_, ?_⟩
      · intro feed
        rcases one with enter | back | ⟨printable, _⟩
        · rw [feed] at enter
          contradiction
        · rw [feed] at back
          contradiction
        · rw [feed] at printable
          contradiction
      · intro _ other
        refine ⟨_, inside, after.trans (decide_eq_false other), ?_⟩
        intro opened ahead
        exact typeByte_ahead one other erasable.1 ⟨ahead.place, ahead.kept⟩

/-- The terminal goes back only over what was typed in the line, as long as no backspace is
typed in an empty one. -/
theorem keepsLines (within : Within 0 s) (free : s.console.stdinPendingLf = false) :
    (display tty).KeepsLines (dosReadStdin tty) lineFeed carriageReturn s := by
  apply @Display.keepsLines_of_line _ _ _ _ _ _ _ (fun s => ∃ length, Within length s)
    (fun length s => Within length s ∧ s.console.stdinPendingLf = false)
  · rintro s byte next ⟨length, within⟩ call
    have line := dosReadStdin_line within call
    exact ⟨line.1, line.2.1⟩
  · rintro length s byte next ⟨within, free⟩ call other
    obtain ⟨d, inside, flag, ahead⟩ := (dosReadStdin_line within call).2.2 free other
    exact ⟨d, ⟨inside, flag⟩, ahead⟩
  · exact ⟨0, within⟩
  · exact ⟨within, free⟩

end TermStdin

section Modes

variable {σ κ : Type}

/-- The two modes agree exactly where no backspace is typed in an empty line. -/
theorem stdin_modes_agree_iff (rs : EncodingRs) (tty : Tty σ κ) (sys : System) (screen : σ)
    (keys : List KbdKeyInfo) (sized : Sized sys.console) (fresh : sys.console.stdin = (false, 0))
    (typed : ∀ ki ∈ keys, ki.Typed) :
    ModesAgree rs tty ⟨sys, keys, 0⟩ ⟨sys.console, keys.map KbdKeyInfo.ch, screen⟩ ↔
      Erasable 0 keys := by
  obtain ⟨free, none_⟩ := Prod.mk.inj fresh
  have sdl : SdlStdin.Within 0 ⟨sys, keys, 0⟩ := ⟨sized, none_, fun _ => rfl, typed⟩
  have bytes := (SdlStdin.dosReadStdin_streams rs).agree (TermStdin.dosReadStdin_streams tty)
    ⟨0, sdl⟩ (t := ⟨sys.console, keys.map KbdKeyInfo.ch, screen⟩) trivial
  have streams : SdlStdin.stream ⟨sys, keys, 0⟩ =
      TermStdin.stream (⟨sys.console, keys.map KbdKeyInfo.ch, screen⟩ : TermStdin σ) ↔
        Erasable 0 keys := by
    rw [SdlStdin.stream_eq sdl, TermStdin.stream, free, ← crlf_effective]
    simp only [Bool.false_eq_true, if_false, List.nil_append, List.flatMap_map]
    rfl
  constructor
  · intro agree
    exact streams.mp (bytes.mp agree.bytes)
  · intro erasable
    exact {
      bytes := bytes.mpr (streams.mpr erasable)
      sdlLines := SdlStdin.keepsLines sdl free
      termLines := TermStdin.keepsLines ⟨fun _ => rfl, keys, rfl, typed, erasable⟩ free }

/-- A terminal with one endless row, for lines without an Enter. -/
def rowTty : Tty ((Int → UInt8) × Int) UInt8 where
  place s := s.2
  cell s j := some (s.1 j)
  write s byte :=
    if byte = backspace then (s.1, s.2 - 1)
    else if 0x20 ≤ byte then (Function.update s.1 s.2 byte, s.2 + 1)
    else s
  prints := by
    intro s byte printable
    have other : byte ≠ backspace := by
      rintro rfl
      contradiction
    rw [if_neg other, if_pos printable]
    refine ⟨Int.le_refl _, ?_⟩
    intro j before
    left
    simp only [Function.update_of_ne (Int.ne_of_lt before)]
  stepsBack := by
    intro s
    rw [if_pos rfl]
    exact ⟨Int.le_refl _, fun _ => rfl⟩

theorem letter_erased_alike :
    ModesAgree noConversions rowTty
      ⟨⟨437, .new none⟩, [⟨0x61, 0x1E, 0⟩, ⟨0x08, 0x0E, 0⟩], 0⟩
      ⟨.new none, [0x61, 0x08], (fun _ => 0, 0)⟩ ↔
        Erasable 0 [⟨0x61, 0x1E, 0⟩, ⟨0x08, 0x0E, 0⟩] :=
  stdin_modes_agree_iff noConversions rowTty ⟨437, .new none⟩ (fun _ => 0, 0)
    [⟨0x61, 0x1E, 0⟩, ⟨0x08, 0x0E, 0⟩] (VioManager.new_sized none) rfl (by
      intro ki member
      simp only [List.mem_cons, List.not_mem_nil, or_false] at member
      rcases member with rfl | rfl
      · exact .inr (.inr ⟨by decide, by decide⟩)
      · exact .inr (.inl rfl))

theorem idle_backspace_differs :
    ¬ ∀ (rs : EncodingRs) (tty : Tty ((Int → UInt8) × Int) UInt8) (sys : System)
      (screen : (Int → UInt8) × Int) (keys : List KbdKeyInfo), Sized sys.console →
        sys.console.stdin = (false, 0) → (∀ ki ∈ keys, ki.Typed) →
          ModesAgree rs tty ⟨sys, keys, 0⟩ ⟨sys.console, keys.map KbdKeyInfo.ch, screen⟩ := by
  intro all
  have agree := all noConversions rowTty ⟨437, .new none⟩ (fun _ => 0, 0) [⟨0x08, 0x0E, 0⟩]
    (VioManager.new_sized none) rfl (by
      intro ki member
      rw [List.mem_singleton.mp member]
      exact .inr (.inl rfl))
  have first := agree.bytes 1
  rw [reads_waits rfl] at first
  contradiction

end Modes

end Warpine.Vio
