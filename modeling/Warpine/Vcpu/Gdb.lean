import Warpine.Guest.Memory
import Warpine.Lib.Patches
import Warpine.Lib.Run
import Warpine.Loader.Constants

/-! The debugger's software breakpoints, between the thread that talks to the debugger
and the one that runs the guest. The processor is a parameter. -/
namespace Warpine.Vcpu.Gdb
open Warpine.Lib Warpine.Guest Warpine.Loader

def int3 : UInt8 := 0xCC

/-- Something that happens to registers and memory: it depends on the bytes that it
reads, and gives its writes. -/
structure Action (σ : Type) where
  run : ByteStore → σ → σ × List (Nat × List UInt8)
  reads : ByteStore → σ → List Nat
  reads_only : ∀ mem other regs, (∀ addr ∈ reads mem regs, other addr = mem addr) →
    run other regs = run mem regs

/-- `instr` is an instruction other than INT 3. After an INT 3 the thread gets `trapped`
registers, where only the instruction pointer may differ; in the stub areas the loader
serves what the guest asks for. -/
structure Cpu (σ : Type) where
  rip : σ → UInt32
  csBase : σ → Nat
  withRip : σ → UInt32 → σ
  trapped : σ → σ
  instr : Action σ
  serve : Action σ
  withRip_trapped : ∀ regs, withRip (trapped regs) (rip regs) = regs

inductive ResumeCmd where
  | cont
  | step
deriving DecidableEq

/-- Where the thread of the guest waits for the debugger. -/
inductive Wait where
  | initial
  | swBreakpoint (bpAddr : Nat)
  | singleStep
  | interrupt
deriving DecidableEq

/-- The last three fields are history: where the program would be without a debugger,
how it was resumed last, and the breakpoint that it was resumed from and has not left. -/
structure Guest (σ : Type) where
  regs : σ
  mem : GuestMemory
  swBreakpoints : Table Nat UInt8
  singleStep : Bool
  stopRequested : Bool
  waiting : Option Wait
  running : Bool
  plain : σ × ByteStore
  asked : Option ResumeCmd
  off : Option Nat

/-- The commands of the debugger, its interrupt, and a turn of the guest's thread: the
head of its loop, or one instruction. -/
inductive Event where
  | addSwBreakpoint (addr : UInt32)
  | removeSwBreakpoint (addr : UInt32)
  | writeAddrs (startAddr : UInt32) (data : List UInt8)
  | resume (cmd : ResumeCmd)
  | interrupt
  | turn

/-- The bytes that `write_addrs` writes: it ends where one does not fit. -/
def pokes (size : Nat) : UInt32 → List UInt8 → List (Nat × List UInt8)
  | _, [] => []
  | addr, byte :: rest =>
      if addr.toNat < size then (addr.toNat, [byte]) :: pokes size (addr + 1) rest else []

def writeAddrs : GuestMemory → UInt32 → List UInt8 → GuestMemory
  | mem, _, [] => mem
  | mem, addr, byte :: rest => match mem.writeBytes addr.toNat [byte] with
    | some mem => writeAddrs mem (addr + 1) rest
    | none => mem

theorem writeAddrs_eq (mem : GuestMemory) (addr : UInt32) (data : List UInt8) :
    writeAddrs mem addr data =
      { mem with bytes := mem.bytes.storeAll (pokes mem.size addr data) } := by
  induction data generalizing mem addr with
  | nil => rfl
  | cons byte rest ih =>
    unfold writeAddrs pokes GuestMemory.writeBytes GuestMemory.inBounds
    simp only [List.length_cons, List.length_nil, decide_eq_true_eq]
    by_cases fits : addr.toNat < mem.size
    · rw [if_pos (by omega), if_pos fits]
      exact ih _ _
    · rw [if_neg (by omega), if_neg fits]
      rfl

variable {σ : Type} (cpu : Cpu σ)

/-- The address of the next instruction. -/
def Cpu.fetch (regs : σ) : Nat := cpu.csBase regs + (cpu.rip regs).toNat

def Cpu.inStub (regs : σ) : Bool :=
  let rip := (cpu.rip regs).toNat
  let flatRip := cpu.csBase regs + rip
  decide (magicApiBase ≤ rip ∧ rip < magicApiBase + stubAreaSize ∨
    idtHandlerBase ≤ rip ∧ rip < idtHandlerBase + 32 * 16 ∨
    neThunkBase ≤ flatRip ∧ flatRip < neThunkBase + tileSize)

def Action.act (action : Action σ) (state : σ × ByteStore) : σ × ByteStore :=
  let (regs, writes) := action.run state.2 state.1
  (regs, state.2.storeAll writes)

/-- The program alone: an instruction, or what an INT 3 asks the loader for. -/
def Cpu.plainStep (state : σ × ByteStore) : σ × ByteStore :=
  if state.2 (cpu.fetch state.1) = int3 then cpu.serve.act (cpu.trapped state.1, state.2)
  else cpu.instr.act state

namespace Guest

def initial (regs : σ) (mem : GuestMemory) : Guest σ where
  regs
  mem
  swBreakpoints := .empty
  singleStep := false
  stopRequested := false
  waiting := some .initial
  running := false
  plain := (regs, mem.bytes)
  asked := none
  off := none

variable (s : Guest σ)

/-- The byte is read and written at one address, so both work or none. -/
def addSwBreakpoint (addr : Nat) : Guest σ :=
  if (s.swBreakpoints addr).isSome then s
  else if s.mem.inBounds addr 1 then { s with
    swBreakpoints := s.swBreakpoints.insert addr (s.mem.bytes addr)
    mem := s.mem.putBytes addr [int3] }
  else s

def removeSwBreakpoint (addr : Nat) : Guest σ :=
  match s.swBreakpoints addr with
  | some orig => { s with
      swBreakpoints := s.swBreakpoints.erase addr
      mem := s.mem.putBytes addr [orig] }
  | none => s

/-- What the thread does before it goes on, by where it waited. -/
def resumed (wait : Wait) : ResumeCmd → Guest σ
  | .step => { s with singleStep := true }
  | .cont => match wait with
    | .swBreakpoint bpAddr => { s with
        mem := s.mem.putBytes bpAddr [int3], singleStep := true }
    | .interrupt => { s with singleStep := false }
    | _ => s

def resume (wait : Wait) (cmd : ResumeCmd) : Guest σ :=
  { s.resumed wait cmd with
    waiting := none
    asked := some cmd
    off := match wait with
      | .swBreakpoint bpAddr => some bpAddr
      | _ => none }

def loopHead : Guest σ :=
  if s.stopRequested then { s with stopRequested := false, waiting := some .interrupt }
  else { s with running := true }

/-- An exit to the thread: a breakpoint by the address before the instruction pointer,
a single step by an address outside of the stub areas. -/
def debugExit : Guest σ :=
  let s := { s with running := false }
  let bpAddr := (cpu.rip s.regs - 1).toNat
  match s.swBreakpoints bpAddr with
  | some orig => { s with
      mem := s.mem.putBytes bpAddr [orig]
      regs := cpu.withRip s.regs (cpu.rip s.regs - 1)
      singleStep := false
      waiting := some (.swBreakpoint bpAddr) }
  | none =>
      if ¬cpu.inStub s.regs then { s with singleStep := false, waiting := some .singleStep }
      else
        let (regs, bytes) := cpu.serve.act (s.regs, s.mem.bytes)
        { s with
          regs
          mem := { s.mem with bytes }
          plain := cpu.plainStep s.plain
          off := none }

def execute : Guest σ :=
  if s.mem.bytes (cpu.fetch s.regs) = int3 then
    debugExit cpu { s with regs := cpu.trapped s.regs }
  else
    let (regs, bytes) := cpu.instr.act (s.regs, s.mem.bytes)
    let s := { s with
      regs
      mem := { s.mem with bytes }
      plain := cpu.plainStep s.plain
      off := none }
    if s.singleStep then debugExit cpu s else s

/-- The debugger gives commands while the guest is stopped. -/
def exec : Event → Option (Guest σ)
  | .addSwBreakpoint addr => s.waiting.map fun _ => s.addSwBreakpoint addr.toNat
  | .removeSwBreakpoint addr => s.waiting.map fun _ => s.removeSwBreakpoint addr.toNat
  | .writeAddrs startAddr data => s.waiting.map fun _ => { s with
      mem := Gdb.writeAddrs s.mem startAddr data
      plain := (s.plain.1, s.plain.2.storeAll (pokes s.mem.size startAddr data)) }
  | .resume cmd => s.waiting.map fun wait => s.resume wait cmd
  | .interrupt => some { s with stopRequested := true }
  | .turn =>
      if s.waiting.isSome then none
      else if s.running then some (s.execute cpu)
      else some s.loopHead

def step : Step (Guest σ) Event := fun s event next => s.exec cpu event = some next

end Guest
end Warpine.Vcpu.Gdb
