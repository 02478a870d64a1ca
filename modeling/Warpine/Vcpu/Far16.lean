import Warpine.Vcpu.Callbacks
import Warpine.Vcpu.StartUp

/-! The bypass of thunks to 16-bit code. A thunk saves six registers and its own
frame pointer, and faults where it would go to 16-bit code. The bypass looks for the
saved frame pointer from the top of the stack page and returns to the caller. -/
namespace Warpine.Vcpu
open Warpine.Lib Warpine.Guest Warpine.Loader

structure SegmentReg where
  selector : Nat
  base : Nat
  limit : Nat
  db : Nat
  type : Nat
deriving DecidableEq

structure SpecialRegs where
  cs : SegmentReg
  ds : SegmentReg
  es : SegmentReg
  ss : SegmentReg
deriving DecidableEq

/-- What the stub of an exception pushes. -/
structure FaultFrame where
  vector : Nat
  errorCode : Nat
  eip : Nat
  cs : Nat
  eflags : Nat

/-- A thread that has stopped in the stub of an exception. -/
structure StubStop where
  regs : GuestRegs
  sregs : SpecialRegs
  mem : GuestMemory

def flatSegment (selector type : Nat) : SegmentReg := ⟨selector, 0, 0xFFFFFFFF, 1, type⟩

/-- The saved frame pointer is the address above it and the saved stack segment. -/
def isSavedEbp (mem : GuestMemory) (addr : Nat) : Bool :=
  (mem.read 4 addr).getD 0 = addr + 8 && (mem.read 2 (addr + 4)).getD 0 = 0x10

/-- The addresses that the scan looks at, and the frame pointer that it finds. -/
def scanStack (mem : GuestMemory) (scanEnd addr : Nat) : List Nat × Option Nat :=
  if scanEnd + 8 ≤ addr then
    if isSavedEbp mem addr then ([addr], some (addr + 8))
    else
      -- `wrapping_sub`, of an address that is at least eight
      let rest := scanStack mem scanEnd (addr - 4)
      (addr :: rest.1, rest.2)
  else ([], none)
termination_by addr

namespace StubStop

variable (stop : StubStop)

/-- A 16-bit stack segment uses the low half of the stack pointer. -/
def frameBase : Nat :=
  if stop.sregs.ss.db = 0 then
    wrapAdd (stop.sregs.ss.base % u32Size) (stop.regs.rsp % u16Size)
  else stop.regs.rsp % u32Size

def fault : FaultFrame where
  vector := (stop.mem.read 4 stop.frameBase).getD 0xFF
  errorCode := (stop.mem.read 4 (wrapAdd stop.frameBase 4)).getD 0
  eip := (stop.mem.read 4 (wrapAdd stop.frameBase 8)).getD 0
  cs := (stop.mem.read 4 (wrapAdd stop.frameBase 12)).getD 0
  eflags := (stop.mem.read 4 (wrapAdd stop.frameBase 16)).getD 0

def isTiled : Bool :=
  let index := stop.fault.errorCode / 8
  (tiledSelStartIndex ≤ index && index < tiledSelStartIndex + numTiles) ||
    (tiledCodeStartIndex ≤ index && index < tiledCodeStartIndex + numCodeTiles)

def codeByte (offset : Nat) : Nat :=
  (stop.mem.read 1 (wrapAdd stop.fault.eip offset)).getD 0

def isJmpFar : Bool := stop.codeByte 0 = 0x66 && stop.codeByte 1 = 0xEA

def isLssSpEsp : Bool :=
  stop.codeByte 0 = 0x66 && stop.codeByte 1 = 0x0F && stop.codeByte 2 = 0xB2

/-- The fault of a thunk. -/
def atThunk : Bool :=
  stop.fault.vector = 13 && stop.fault.cs = 0x08 && stop.isTiled &&
    (stop.isJmpFar || stop.isLssSpEsp)

/-- The start of the stack page. -/
def stackUpper : Nat := stop.regs.rsp % u32Size / tileSize * tileSize

def scan : List Nat × Option Nat :=
  scanStack stop.mem stop.stackUpper (stop.stackUpper + 0xFF00)

/-- No sum overflows, the frame pointer is in the page. -/
def unwind (ebp : Nat) : GuestRegs × SpecialRegs :=
  let word (offset : Nat) := (stop.mem.read 4 (ebp + offset)).getD 0
  let ds := (stop.mem.read 4 ebp).getD 0x10 % u16Size
  ({ stop.regs with
      rip := word 24, rsp := ebp + 28, rax := 0, rbx := word 12, rdx := word 8,
      rdi := word 16, rbp := word 20, rflags := stop.fault.eflags },
    ⟨flatSegment 0x08 0x0B, flatSegment ds 0x03, flatSegment ds 0x03, flatSegment ds 0x03⟩)

/-- Where there is no bypass, the exception goes to the handlers. -/
def bypassFar16 : Option (GuestRegs × SpecialRegs) :=
  if stop.atThunk then stop.scan.2.map stop.unwind else none

end StubStop

/-- What a thunk saves, and where it returns to. -/
structure ThunkSaves where
  ds : Nat
  es : Nat
  edx : Nat
  ebx : Nat
  edi : Nat
  ebp : Nat
  ret : Nat

/-- The frame of a thunk: the six registers from the frame pointer up, the stack segment
and the frame pointer below. -/
structure ThunkFrame (mem : GuestMemory) (ebp : Nat) (saves : ThunkSaves) : Prop where
  room : 8 ≤ ebp
  self : mem.read 4 (ebp - 8) = some ebp
  ss : mem.read 2 (ebp - 4) = some 0x10
  ds : mem.read 4 ebp = some saves.ds
  es : mem.read 4 (ebp + 4) = some saves.es
  edx : mem.read 4 (ebp + 8) = some saves.edx
  ebx : mem.read 4 (ebp + 12) = some saves.ebx
  edi : mem.read 4 (ebp + 16) = some saves.edi
  saved : mem.read 4 (ebp + 20) = some saves.ebp
  ret : mem.read 4 (ebp + 24) = some saves.ret

/-- The caller of a thunk goes on, with its registers. -/
structure ReturnsFrom (ebp : Nat) (saves : ThunkSaves) (regs : GuestRegs)
    (sregs : SpecialRegs) : Prop where
  eip : regs.rip = saves.ret
  esp : regs.rsp = ebp + 28
  ebx : regs.rbx = saves.ebx
  edx : regs.rdx = saves.edx
  edi : regs.rdi = saves.edi
  ebp : regs.rbp = saves.ebp
  ds : sregs.ds.selector = saves.ds % u16Size
  es : sregs.es.selector = saves.es % u16Size

namespace StubStop

/-- The bypass returns from this frame, and the scan stays in the page. -/
structure Bypasses (stop : StubStop) (ebp : Nat) (saves : ThunkSaves) : Prop where
  resumes : ∃ regs sregs, stop.bypassFar16 = some (regs, sregs) ∧
    ReturnsFrom ebp saves regs sregs
  inPage : ∀ addr ∈ stop.scan.1,
    stop.stackUpper ≤ addr ∧ addr + 6 ≤ stop.stackUpper + tileSize

/-- The scan gets to this frame before any other match, and the two data segments are
the same. -/
structure Reached (stop : StubStop) (ebp : Nat) (saves : ThunkSaves) : Prop where
  aligned : ebp % 4 = 0
  low : stop.stackUpper + 16 ≤ ebp
  high : ebp ≤ stop.stackUpper + 0xFF08
  first : ∀ addr, ebp - 8 < addr → addr ≤ stop.stackUpper + 0xFF00 → addr % 4 = 0 →
    isSavedEbp stop.mem addr = false
  segments : saves.es % u16Size = saves.ds % u16Size

end StubStop

variable {mem : GuestMemory} {scanEnd addr : Nat}

/-- The scan looks at addresses below the one where it starts only. -/
theorem scanStack_inPage :
    ∀ seen ∈ (scanStack mem scanEnd addr).1, scanEnd + 8 ≤ seen ∧ seen ≤ addr := by
  fun_induction scanStack mem scanEnd addr with
  | case1 addr low found =>
    intro seen member
    rw [List.mem_singleton.mp member]
    exact ⟨low, Nat.le_refl _⟩
  | case2 addr low missed rest ih =>
    intro seen member
    rcases List.mem_cons.mp member with rfl | later
    · exact ⟨low, Nat.le_refl _⟩
    · have below := ih seen later
      exact ⟨below.1, by omega⟩
  | case3 addr past =>
    intro seen member
    contradiction

/-- The scan finds the highest match. -/
theorem scanStack_eq_some {ebp : Nat} :
    (scanStack mem scanEnd addr).2 = some ebp ↔
      ∃ slot, ebp = slot + 8 ∧ slot % 4 = addr % 4 ∧ scanEnd + 8 ≤ slot ∧ slot ≤ addr ∧
        isSavedEbp mem slot = true ∧
        ∀ higher, slot < higher → higher ≤ addr → higher % 4 = addr % 4 →
          isSavedEbp mem higher = false := by
  fun_induction scanStack mem scanEnd addr with
  | case1 addr low found =>
    constructor
    · intro h
      cases h
      refine ⟨addr, rfl, rfl, low, Nat.le_refl _, found, ?_⟩
      intro higher above below
      omega
    · rintro ⟨slot, rfl, same, inside, below, matched, first⟩
      by_cases here : slot = addr
      · rw [here]
      · have missed := first addr (by omega) (Nat.le_refl _) rfl
        rw [found] at missed
        contradiction
  | case2 addr low missed rest ih =>
    rw [ih]
    apply exists_congr
    intro slot
    constructor
    · rintro ⟨rfl, same, inside, below, matched, first⟩
      refine ⟨rfl, by omega, inside, by omega, matched, ?_⟩
      intro higher above bound class_
      by_cases here : higher = addr
      · rw [here]
        exact Bool.eq_false_iff.mpr missed
      · exact first higher above (by omega) (by omega)
    · rintro ⟨rfl, same, inside, below, matched, first⟩
      have other : slot ≠ addr := by
        rintro rfl
        exact missed matched
      refine ⟨rfl, by omega, inside, by omega, matched, ?_⟩
      intro higher above bound class_
      exact first higher above (by omega) (by omega)
  | case3 addr past =>
    constructor
    · intro h
      contradiction
    · rintro ⟨slot, rfl, same, inside, below, matched, first⟩
      omega

/-- A frame matches the pattern. -/
theorem ThunkFrame.matched {ebp : Nat} {saves : ThunkSaves} (frame : ThunkFrame mem ebp saves) :
    isSavedEbp mem (ebp - 8) = true := by
  have room := frame.room
  have self : ebp - 8 + 8 = ebp := by omega
  have ss : ebp - 8 + 4 = ebp - 4 := by omega
  simp [isSavedEbp, self, ss, frame.self, frame.ss]

namespace StubStop

variable {stop : StubStop} {ebp : Nat} {saves : ThunkSaves}

theorem stackUpper_mod (stop : StubStop) : stop.stackUpper % 4 = 0 := by
  unfold stackUpper tileSize
  omega

theorem scan_inPage :
    ∀ addr ∈ stop.scan.1, stop.stackUpper ≤ addr ∧ addr + 6 ≤ stop.stackUpper + tileSize := by
  intro addr member
  have bounds := scanStack_inPage addr member
  unfold tileSize
  omega

/-- The scan finds a frame that is in its range, where no match is above it. -/
theorem scan_eq_some (frame : ThunkFrame stop.mem ebp saves) :
    stop.scan.2 = some ebp ↔
      ebp % 4 = 0 ∧ stop.stackUpper + 16 ≤ ebp ∧ ebp ≤ stop.stackUpper + 0xFF08 ∧
        ∀ addr, ebp - 8 < addr → addr ≤ stop.stackUpper + 0xFF00 → addr % 4 = 0 →
          isSavedEbp stop.mem addr = false := by
  have whole := stop.stackUpper_mod
  have high := frame.room
  have class_ : (stop.stackUpper + 0xFF00) % 4 = 0 := by omega
  rw [scan, scanStack_eq_some, class_]
  constructor
  · rintro ⟨slot, rfl, aligned, low, below, _, first⟩
    rw [Nat.add_sub_cancel]
    exact ⟨by omega, by omega, by omega, first⟩
  · rintro ⟨aligned, low, below, first⟩
    exact ⟨ebp - 8, by omega, by omega, by omega, by omega, frame.matched, first⟩

/-- The registers come from the frame, and both data segments from one word of it. -/
theorem unwind_returns (frame : ThunkFrame stop.mem ebp saves) :
    ReturnsFrom ebp saves (stop.unwind ebp).1 (stop.unwind ebp).2 ↔
      saves.es % u16Size = saves.ds % u16Size := by
  have ds : (stop.unwind ebp).2.ds.selector = saves.ds % u16Size := by
    simp [unwind, flatSegment, frame.ds]
  have es : (stop.unwind ebp).2.es.selector = saves.ds % u16Size := by
    simp [unwind, flatSegment, frame.ds]
  constructor
  · intro returns
    rw [← returns.es, es]
  · intro same
    exact {
      eip := by simp [unwind, frame.ret]
      esp := rfl
      ebx := by simp [unwind, frame.ebx]
      edx := by simp [unwind, frame.edx]
      edi := by simp [unwind, frame.edi]
      ebp := by simp [unwind, frame.saved]
      ds := ds
      es := es.trans same.symm }

/-- A bypass that returns from a frame has found this frame. -/
theorem Bypasses.found (bypasses : stop.Bypasses ebp saves) :
    stop.scan.2 = some ebp ∧ ReturnsFrom ebp saves (stop.unwind ebp).1 (stop.unwind ebp).2 := by
  obtain ⟨regs, sregs, bypass, returns⟩ := bypasses.resumes
  unfold bypassFar16 at bypass
  split at bypass
  · obtain ⟨other, found, unwound⟩ := Option.map_eq_some_iff.mp bypass
    have same : other + 28 = ebp + 28 := (congrArg (·.1.rsp) unwound).trans returns.esp
    cases Nat.add_right_cancel same
    rw [unwound]
    exact ⟨found, returns⟩
  · contradiction

/-- The bypass returns from the frame of the thunk exactly where the frame is a match that
the scan gets to, no match is above it, and both data segments were saved alike. -/
theorem far16_bypass_iff (stop : StubStop) (ebp : Nat) (saves : ThunkSaves)
    (fault : stop.atThunk = true) (frame : ThunkFrame stop.mem ebp saves) :
    stop.Bypasses ebp saves ↔ stop.Reached ebp saves := by
  constructor
  · intro bypasses
    have seen := (scan_eq_some frame).mp bypasses.found.1
    exact ⟨seen.1, seen.2.1, seen.2.2.1, seen.2.2.2, (unwind_returns frame).mp bypasses.found.2⟩
  · intro reached
    have found := (scan_eq_some frame).mpr
      ⟨reached.aligned, reached.low, reached.high, reached.first⟩
    refine ⟨⟨_, _, ?_, (unwind_returns frame).mpr reached.segments⟩, scan_inPage⟩
    rw [bypassFar16, if_pos fault, found]
    rfl

end StubStop

/-- A thunk at the start of the first object, with a frame at `0x20068`. -/
def sampleThunk : List (Nat × UInt8) :=
  [(0x10000, 0x66), (0x10001, 0xEA), (0x20040, 13), (0x20044, 0x30), (0x2004A, 1), (0x2004C, 8),
    (0x20050, 2), (0x20060, 0x68), (0x20062, 2), (0x20064, 0x10), (0x20068, 0x10),
    (0x2006C, 0x10), (0x20080, 0x30), (0x20082, 1)]

/-- What an earlier thunk has left on the stack, above the frame. -/
def sampleLeftover : List (Nat × UInt8) := [(0x20088, 0x90), (0x2008A, 2), (0x2008C, 0x10)]

def sampleStop (bytes : List (Nat × UInt8)) : StubStop where
  regs := ⟨0, 0x20040, 0, 0, 0, 0, 0, 0, 0, 0⟩
  sregs := ⟨flatSegment 0x08 0x0B, flatSegment 0x10 0x03, flatSegment 0x10 0x03,
    flatSegment 0x10 0x03⟩
  mem := ⟨guestMemSize, fun i => (bytes.lookup i).getD 0⟩

def sampleSaves : ThunkSaves := ⟨0x10, 0x10, 0, 0, 0, 0, 0x10030⟩

theorem lone_thunk_bypassed :
    (sampleStop sampleThunk).Bypasses 0x20068 sampleSaves ↔
      (sampleStop sampleThunk).Reached 0x20068 sampleSaves :=
  StubStop.far16_bypass_iff (sampleStop sampleThunk) 0x20068 sampleSaves (by decide)
    ⟨by decide, by decide, by decide, by decide, by decide, by decide, by decide, by decide,
      by decide, by decide⟩

theorem leftover_frame_taken :
    ¬ ∀ (stop : StubStop) (ebp : Nat) (saves : ThunkSaves), stop.atThunk = true →
      ThunkFrame stop.mem ebp saves → stop.Bypasses ebp saves := by
  intro all
  have frame : ThunkFrame (sampleStop (sampleThunk ++ sampleLeftover)).mem 0x20068 sampleSaves :=
    ⟨by decide, by decide, by decide, by decide, by decide, by decide, by decide, by decide,
      by decide, by decide⟩
  have bypasses := all _ 0x20068 sampleSaves (by decide) frame
  have first := ((StubStop.scan_eq_some frame).mp bypasses.found.1).2.2.2
  have missed := first 0x20088 (by decide) (by decide) (by decide)
  have matched :
      isSavedEbp (sampleStop (sampleThunk ++ sampleLeftover)).mem 0x20088 = true := by decide
  rw [matched] at missed
  contradiction

end Warpine.Vcpu
