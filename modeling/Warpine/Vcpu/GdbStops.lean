import Warpine.Vcpu.Gdb

/-! What the debugger sees of a program, over any commands and interrupts. -/
namespace Warpine.Vcpu.Gdb
open Warpine.Lib Warpine.Guest Warpine.Loader

variable {σ : Type} (cpu : Cpu σ)

namespace Guest

variable (s : Guest σ)

/-- The guest is where the program would be that has executed as many instructions
without a debugger, and memory is as the program has it once no breakpoint is set. -/
structure Transparent : Prop where
  regs : s.regs = s.plain.1
  memory : (∀ addr, s.swBreakpoints addr = none) → s.mem.bytes = s.plain.2

/-- The turn executes one instruction of the program; a single step into the stub areas
has its request served as well. -/
def Executes (next : Guest σ) : Prop :=
  next.plain = cpu.plainStep s.plain ∨
    cpu.inStub (cpu.plainStep s.plain).1 ∧ next.plain = cpu.plainStep (cpu.plainStep s.plain)

def Justified (next : Guest σ) : Wait → Prop
  | .initial => False
  | .swBreakpoint bpAddr => (s.swBreakpoints bpAddr).isSome ∧ cpu.fetch s.plain.1 = bpAddr ∧
      next.plain = s.plain
  | .singleStep => s.asked = some .step ∧ next.plain = cpu.plainStep s.plain
  | .interrupt => s.stopRequested ∧ next.plain = s.plain

/-- A turn at a breakpoint stops there, but for the one that leaves the breakpoint the
guest was resumed from, which executes the instruction. No other stop is reported than
for a breakpoint, a step that was asked for or an interrupt. -/
structure Faithful (next : Guest σ) : Prop where
  fires : s.running → ∀ bpAddr, cpu.fetch s.plain.1 = bpAddr → (s.swBreakpoints bpAddr).isSome →
    s.off ≠ some bpAddr → next.waiting = some (.swBreakpoint bpAddr)
  leaves : s.running → s.off.isSome → s.Executes cpu next
  stops : ∀ wait, next.waiting = some wait → s.Justified cpu next wait

/-- No breakpoint is on what the action reads or writes. -/
def Untouched (action : Action σ) (regs : σ) (mem : ByteStore) : Prop :=
  (∀ addr ∈ action.reads mem regs, s.swBreakpoints addr = none) ∧
    Patched.Spares s.swBreakpoints (action.run mem regs).2

/-- Just before the instruction pointer there is no breakpoint. -/
def NoneBefore (regs : σ) : Prop := s.swBreakpoints (cpu.rip regs - 1).toNat = none

/-- A single step ends after its instruction: at an address outside of the stub areas,
or with the request that the program's INT 3 there would make. -/
def StepEnds (state : σ × ByteStore) : Prop :=
  s.NoneBefore cpu state.1 ∧ (cpu.inStub state.1 → state.2 (cpu.fetch state.1) = int3 ∧
    s.swBreakpoints (cpu.fetch state.1) = none ∧ cpu.trapped state.1 = state.1 ∧
      s.Untouched cpu.serve state.1 state.2)

/-- At a breakpoint the trap leaves the instruction pointer one byte behind it. An INT 3
of the program is in the stub areas, and any other instruction is whole. -/
def CleanTurn : Prop :=
  if (s.swBreakpoints (cpu.fetch s.regs)).isSome then
    cpu.rip (cpu.trapped s.regs) - 1 = cpu.rip s.regs ∧
      (cpu.rip s.regs).toNat = cpu.fetch s.regs
  else if s.mem.bytes (cpu.fetch s.regs) = int3 then
    cpu.inStub (cpu.trapped s.regs) ∧ s.NoneBefore cpu (cpu.trapped s.regs) ∧
      s.Untouched cpu.serve (cpu.trapped s.regs) s.mem.bytes
  else
    s.Untouched cpu.instr s.regs s.mem.bytes ∧
      (s.singleStep → s.StepEnds cpu (cpu.instr.act (s.regs, s.mem.bytes)))

/-- A stopped breakpoint is taken out before the guest steps off it. -/
def CleanResume (cmd : ResumeCmd) : Wait → Prop
  | .swBreakpoint bpAddr => cmd = .step ∧ s.swBreakpoints bpAddr = none
  | _ => True

/-- Besides, memory is not written under a breakpoint. -/
def Clean : Event → Prop
  | .writeAddrs startAddr data => Patched.Spares s.swBreakpoints (pokes s.mem.size startAddr data)
  | .resume cmd => ∀ wait ∈ s.waiting, s.CleanResume cmd wait
  | .turn => s.running → s.CleanTurn cpu
  | _ => True

/-- The breakpoint whose mark is off. -/
def lifted : Option Nat :=
  match s.waiting with
  | some (.swBreakpoint bpAddr) => some bpAddr
  | _ => none

structure Inv : Prop where
  patched : Patched int3 s.lifted s.swBreakpoints s.plain.2 s.mem.bytes
  regs : s.regs = s.plain.1
  inside : ∀ addr, (s.swBreakpoints addr).isSome → addr < s.mem.size
  stopped : s.waiting.isSome → s.running = false
  stepping : s.singleStep → s.asked = some .step ∧
    (s.waiting = none ∨ s.waiting = some .interrupt)
  atStop : ∀ bpAddr, s.waiting = some (.swBreakpoint bpAddr) → cpu.fetch s.regs = bpAddr
  leaving : s.waiting = none → ∀ bpAddr, s.off = some bpAddr →
    cpu.fetch s.regs = bpAddr ∧ s.swBreakpoints bpAddr = none

variable {cpu s} {next : Guest σ}

theorem Inv.transparent (inv : s.Inv cpu) : s.Transparent :=
  ⟨inv.regs, inv.patched.eq_plain⟩

theorem putByte {mem : GuestMemory} {addr : Nat} (fits : addr < mem.size) (byte : UInt8) :
    mem.putBytes addr [byte] = { mem with bytes := mem.bytes.store addr [byte] } :=
  GuestMemory.putBytes_of_inBounds mem (decide_eq_true fits)

theorem inv_initial (regs : σ) (mem : GuestMemory) : (initial regs mem).Inv cpu where
  patched := .nil _ _
  regs := rfl
  inside := by simp [initial]
  stopped := fun _ => rfl
  stepping := by simp [initial]
  atStop := by simp [initial]
  leaving := by simp [initial]

theorem inv_addSwBreakpoint (inv : s.Inv cpu) (stopped : s.waiting.isSome) (addr : Nat) :
    (s.addSwBreakpoint addr).Inv cpu := by
  unfold addSwBreakpoint
  split
  · exact inv
  rename_i unset
  split
  · rename_i fits
    have fits : addr < s.mem.size := of_decide_eq_true fits
    have free : s.swBreakpoints addr = none := by simpa using unset
    rw [putByte fits]
    refine ⟨inv.patched.patch free, inv.regs, ?_, inv.stopped, inv.stepping, inv.atStop, ?_⟩
    · intro other some
      obtain ⟨byte, hbyte⟩ := Option.isSome_iff_exists.mp some
      rcases Table.insert_eq_some.mp hbyte with ⟨rfl, _⟩ | ⟨_, old⟩
      · exact fits
      · exact inv.inside other (by rw [old]; rfl)
    · intro running
      rw [running] at stopped
      cases stopped
  · exact inv

theorem inv_removeSwBreakpoint (inv : s.Inv cpu) (stopped : s.waiting.isSome) (addr : Nat) :
    (s.removeSwBreakpoint addr).Inv cpu := by
  unfold removeSwBreakpoint
  split
  · rename_i orig horig
    rw [putByte (inv.inside addr (by rw [horig]; rfl))]
    refine ⟨inv.patched.unpatch horig, inv.regs, ?_, inv.stopped, inv.stepping, inv.atStop, ?_⟩
    · intro other some
      obtain ⟨byte, hbyte⟩ := Option.isSome_iff_exists.mp some
      obtain ⟨_, old⟩ := Table.erase_eq_some.mp hbyte
      exact inv.inside other (by rw [old]; rfl)
    · intro running
      rw [running] at stopped
      cases stopped
  · exact inv

theorem inv_writeAddrs (inv : s.Inv cpu) {startAddr : UInt32} {data : List UInt8}
    (clean : s.Clean cpu (.writeAddrs startAddr data)) :
    Inv cpu { s with
      mem := Gdb.writeAddrs s.mem startAddr data
      plain := (s.plain.1, s.plain.2.storeAll (pokes s.mem.size startAddr data)) } := by
  rw [writeAddrs_eq]
  exact ⟨inv.patched.storeAll clean, inv.regs, inv.inside, inv.stopped, inv.stepping, inv.atStop,
    inv.leaving⟩

theorem inv_resume (inv : s.Inv cpu) {wait : Wait} {cmd : ResumeCmd}
    (waiting : s.waiting = some wait) (clean : s.Clean cpu (.resume cmd)) :
    (s.resume wait cmd).Inv cpu := by
  have allowed := clean wait waiting
  have running := inv.stopped (by rw [waiting]; rfl)
  have idle : s.singleStep → wait = .interrupt := by
    intro single
    rcases (inv.stepping single).2 with gone | here
    · rw [waiting] at gone
      cases gone
    · exact Option.some.inj (waiting.symm.trans here)
  have marks : Patched int3 none s.swBreakpoints s.plain.2 s.mem.bytes := by
    have patched := inv.patched
    unfold lifted at patched
    rw [waiting] at patched
    cases wait with
    | swBreakpoint bpAddr => exact patched.drop allowed.2
    | _ => exact patched
  cases wait with
  | swBreakpoint bpAddr =>
    obtain ⟨rfl, gone⟩ := allowed
    refine ⟨marks, inv.regs, inv.inside, by simp [resume], by simp [resume], by simp [resume], ?_⟩
    rintro - _ ⟨⟩
    exact ⟨inv.atStop _ waiting, gone⟩
  | interrupt =>
    cases cmd <;>
      exact ⟨marks, inv.regs, inv.inside, by simp [resume], by simp [resume, resumed],
        by simp [resume], by simp [resume]⟩
  | _ =>
    cases cmd
    · refine ⟨marks, inv.regs, inv.inside, by simp [resume], ?_, by simp [resume], by simp [resume]⟩
      intro single
      cases idle single
    · exact ⟨marks, inv.regs, inv.inside, by simp [resume], by simp [resume, resumed],
        by simp [resume], by simp [resume]⟩

theorem Inv.marks (inv : s.Inv cpu) (waiting : s.waiting = none) :
    Patched int3 none s.swBreakpoints s.plain.2 s.mem.bytes := by
  have patched := inv.patched
  unfold lifted at patched
  rwa [waiting] at patched

theorem inv_loopHead (inv : s.Inv cpu) (waiting : s.waiting = none) (idle : s.running = false) :
    s.loopHead.Inv cpu := by
  have marks := inv.marks waiting
  unfold loopHead
  split
  · exact ⟨marks, inv.regs, inv.inside, fun _ => idle,
      fun single => ⟨(inv.stepping single).1, .inr rfl⟩, by simp, by simp⟩
  · refine ⟨inv.patched, inv.regs, inv.inside, ?_, inv.stepping, inv.atStop, inv.leaving⟩
    intro stopped
    dsimp only at stopped
    rw [waiting] at stopped
    cases stopped

/-- An action that leaves the breakpoints alone does to the guest what it does to the
program. -/
theorem act_plain {action : Action σ} {regs : σ} (marks : Patched int3 none s.swBreakpoints
    s.plain.2 s.mem.bytes) (untouched : s.Untouched action regs s.mem.bytes) :
    (action.act (regs, s.mem.bytes)).1 = (action.act (regs, s.plain.2)).1 ∧
      Patched int3 none s.swBreakpoints (action.act (regs, s.plain.2)).2
        (action.act (regs, s.mem.bytes)).2 := by
  have same : action.run s.plain.2 regs = action.run s.mem.bytes regs :=
    action.reads_only _ _ _ fun addr member => (marks.clear addr (untouched.1 addr member)).symm
  simp only [Action.act, same, true_and]
  exact marks.storeAll untouched.2

theorem debugExit_hit {orig : UInt8} {regs : σ} {bpAddr : Nat}
    (behind : cpu.rip (cpu.trapped regs) - 1 = cpu.rip regs) (here : (cpu.rip regs).toNat = bpAddr)
    (set : s.swBreakpoints bpAddr = some orig) :
    debugExit cpu { s with regs := cpu.trapped regs } = { s with
      running := false
      regs
      mem := s.mem.putBytes bpAddr [orig]
      singleStep := false
      waiting := some (.swBreakpoint bpAddr) } := by
  unfold debugExit
  dsimp only
  rw [behind, here, set, cpu.withRip_trapped]

theorem debugExit_step (none : s.NoneBefore cpu s.regs) (outside : cpu.inStub s.regs = false) :
    s.debugExit cpu = { s with
      running := false, singleStep := false, waiting := some .singleStep } := by
  unfold NoneBefore at none
  unfold debugExit
  dsimp only
  rw [none, outside]
  rfl

theorem debugExit_serve (none : s.NoneBefore cpu s.regs) (inside : cpu.inStub s.regs) :
    s.debugExit cpu = { s with
      running := false
      regs := (cpu.serve.act (s.regs, s.mem.bytes)).1
      mem := { s.mem with bytes := (cpu.serve.act (s.regs, s.mem.bytes)).2 }
      plain := cpu.plainStep s.plain
      off := Option.none } := by
  unfold NoneBefore at none
  unfold debugExit
  dsimp only
  rw [none, inside]
  rfl

/-- The guest goes on as the program does. -/
theorem Inv.advance (inv : s.Inv cpu) (waiting : s.waiting = none) {regs : σ} {bytes : ByteStore}
    {plain : σ × ByteStore} (same : regs = plain.1)
    (marks : Patched int3 none s.swBreakpoints plain.2 bytes) (running : Bool) :
    Inv cpu { s with
      regs, mem := { s.mem with bytes }, plain, off := none, running } where
  patched := by
    unfold lifted
    rw [waiting]
    exact marks
  regs := same
  inside := inv.inside
  stopped := by
    dsimp only
    rw [waiting]
    simp
  stepping := inv.stepping
  atStop := by
    dsimp only
    rw [waiting]
    simp
  leaving := by simp

theorem plainStep_int3 {state : σ × ByteStore} (trap : state.2 (cpu.fetch state.1) = int3) :
    cpu.plainStep state = cpu.serve.act (cpu.trapped state.1, state.2) :=
  if_pos trap

theorem plainStep_instr {state : σ × ByteStore} (whole : state.2 (cpu.fetch state.1) ≠ int3) :
    cpu.plainStep state = cpu.instr.act state :=
  if_neg whole

/-- A turn at a breakpoint. -/
theorem execute_hit (inv : s.Inv cpu) (waiting : s.waiting = none) {orig : UInt8}
    (set : s.swBreakpoints (cpu.fetch s.regs) = some orig)
    (behind : cpu.rip (cpu.trapped s.regs) - 1 = cpu.rip s.regs)
    (here : (cpu.rip s.regs).toNat = cpu.fetch s.regs) :
    (s.execute cpu).Inv cpu ∧ s.Faithful cpu (s.execute cpu) := by
  have marks := inv.marks waiting
  have mark := marks.marked (cpu.fetch s.regs) (by rw [set]; rfl) (by simp)
  have fits := inv.inside (cpu.fetch s.regs) (by rw [set]; rfl)
  have same : s.execute cpu = { s with
      running := false
      mem := { s.mem with bytes := s.mem.bytes.store (cpu.fetch s.regs) [orig] }
      singleStep := false
      waiting := some (.swBreakpoint (cpu.fetch s.regs)) } := by
    unfold execute
    rw [if_pos mark, debugExit_hit behind here set, putByte fits]
  rw [same]
  refine ⟨⟨marks.lift set, inv.regs, inv.inside, by simp, by simp, ?_, by simp⟩, ⟨?_, ?_, ?_⟩⟩
  · rintro _ ⟨⟩
    rfl
  · rintro - bpAddr rfl - -
    rw [← inv.regs]
  · intro _ off
    obtain ⟨bpAddr, hoff⟩ := Option.isSome_iff_exists.mp off
    obtain ⟨rfl, gone⟩ := inv.leaving waiting bpAddr hoff
    rw [gone] at set
    cases set
  · rintro _ ⟨⟩
    exact ⟨by rw [set]; rfl, congrArg cpu.fetch inv.regs.symm, rfl⟩

/-- A turn that executes something of the program and stays in the loop. -/
theorem faithful_on {next : Guest σ} (inv : s.Inv cpu)
    (unset : s.swBreakpoints (cpu.fetch s.regs) = none) (waiting : next.waiting = none)
    (executes : s.Executes cpu next) : s.Faithful cpu next where
  fires := by
    rintro - bpAddr rfl set
    rw [← inv.regs, unset] at set
    cases set
  leaves := fun _ _ => executes
  stops := by
    rw [waiting]
    simp

theorem execute_serve (inv : s.Inv cpu) (waiting : s.waiting = none)
    (unset : s.swBreakpoints (cpu.fetch s.regs) = none)
    (trap : s.mem.bytes (cpu.fetch s.regs) = int3) (inside : cpu.inStub (cpu.trapped s.regs))
    (before : s.NoneBefore cpu (cpu.trapped s.regs))
    (untouched : s.Untouched cpu.serve (cpu.trapped s.regs) s.mem.bytes) :
    (s.execute cpu).Inv cpu ∧ s.Faithful cpu (s.execute cpu) := by
  have marks := inv.marks waiting
  have step : cpu.plainStep s.plain = cpu.serve.act (cpu.trapped s.regs, s.plain.2) := by
    rw [plainStep_int3 (by rw [← inv.regs, ← marks.clear _ unset, trap]), ← inv.regs]
  obtain ⟨sameRegs, sameMem⟩ := act_plain marks untouched
  unfold execute
  rw [if_pos trap, debugExit_serve before inside]
  refine ⟨?_, faithful_on inv unset waiting (.inl rfl)⟩
  refine inv.advance waiting ?_ ?_ false
  · rw [step]
    exact sameRegs
  · rw [step]
    exact sameMem

/-- The state after an instruction that does not touch a breakpoint. -/
def afterInstr (cpu : Cpu σ) (s : Guest σ) : Guest σ :=
  let (regs, bytes) := cpu.instr.act (s.regs, s.mem.bytes)
  { s with regs, mem := { s.mem with bytes }, plain := cpu.plainStep s.plain, off := none }

theorem execute_instr (whole : s.mem.bytes (cpu.fetch s.regs) ≠ int3) :
    s.execute cpu =
      if s.singleStep then debugExit cpu (s.afterInstr cpu) else s.afterInstr cpu := by
  unfold execute
  rw [if_neg whole]
  rfl

/-- The program executes the same instruction. -/
theorem plain_afterInstr (inv : s.Inv cpu) (waiting : s.waiting = none)
    (unset : s.swBreakpoints (cpu.fetch s.regs) = none)
    (whole : s.mem.bytes (cpu.fetch s.regs) ≠ int3)
    (untouched : s.Untouched cpu.instr s.regs s.mem.bytes) :
    (s.afterInstr cpu).regs = (cpu.plainStep s.plain).1 ∧
      Patched int3 none s.swBreakpoints (cpu.plainStep s.plain).2 (s.afterInstr cpu).mem.bytes := by
  have marks := inv.marks waiting
  have step : cpu.plainStep s.plain = cpu.instr.act (s.regs, s.plain.2) := by
    rw [plainStep_instr (by rwa [← inv.regs, ← marks.clear _ unset]), inv.regs]
  rw [step]
  exact act_plain marks untouched

/-- The step that was asked for. -/
theorem step_reported (inv : s.Inv cpu) (single : s.singleStep)
    (unset : s.swBreakpoints (cpu.fetch s.regs) = none)
    (sameRegs : (s.afterInstr cpu).regs = (cpu.plainStep s.plain).1)
    (marks : Patched int3 none s.swBreakpoints (cpu.plainStep s.plain).2
      (s.afterInstr cpu).mem.bytes)
    (before : (s.afterInstr cpu).NoneBefore cpu (s.afterInstr cpu).regs)
    (outside : cpu.inStub (s.afterInstr cpu).regs = false) :
    (debugExit cpu (s.afterInstr cpu)).Inv cpu ∧
      s.Faithful cpu (debugExit cpu (s.afterInstr cpu)) := by
  rw [debugExit_step before outside]
  refine ⟨⟨marks, sameRegs, inv.inside, by simp, by simp, by simp, by simp⟩, ⟨?_, ?_, ?_⟩⟩
  · rintro - bpAddr rfl set
    rw [← inv.regs, unset] at set
    cases set
  · exact fun _ _ => .inl rfl
  · rintro _ ⟨⟩
    exact ⟨(inv.stepping single).1, rfl⟩

/-- A step into the stub areas, where the request is served at once. -/
theorem step_served (inv : s.Inv cpu) (waiting : s.waiting = none)
    (unset : s.swBreakpoints (cpu.fetch s.regs) = none)
    (sameRegs : (s.afterInstr cpu).regs = (cpu.plainStep s.plain).1)
    (marks : Patched int3 none s.swBreakpoints (cpu.plainStep s.plain).2
      (s.afterInstr cpu).mem.bytes)
    (ends : s.StepEnds cpu ((s.afterInstr cpu).regs, (s.afterInstr cpu).mem.bytes))
    (inside : cpu.inStub (s.afterInstr cpu).regs) :
    (debugExit cpu (s.afterInstr cpu)).Inv cpu ∧
      s.Faithful cpu (debugExit cpu (s.afterInstr cpu)) := by
  obtain ⟨before, stub⟩ := ends
  obtain ⟨trap, free, traps, untouched⟩ := stub inside
  have after : (s.afterInstr cpu).Inv cpu := inv.advance waiting sameRegs marks s.running
  have step : cpu.plainStep (cpu.plainStep s.plain) =
      cpu.serve.act ((s.afterInstr cpu).regs, (cpu.plainStep s.plain).2) := by
    have here : (cpu.plainStep s.plain).2 (cpu.fetch (cpu.plainStep s.plain).1) = int3 := by
      rw [← sameRegs, ← marks.clear _ free]
      exact trap
    have trapped : cpu.trapped (cpu.plainStep s.plain).1 = (s.afterInstr cpu).regs := by
      rw [← sameRegs]
      exact traps
    rw [plainStep_int3 here, trapped]
  obtain ⟨served, still⟩ := act_plain (s := s.afterInstr cpu) marks untouched
  rw [debugExit_serve before inside]
  refine ⟨after.advance waiting ?_ ?_ false, faithful_on inv unset waiting (.inr ⟨?_, rfl⟩)⟩
  · change _ = (cpu.plainStep (cpu.plainStep s.plain)).1
    rw [step]
    exact served
  · change Patched _ _ _ (cpu.plainStep (cpu.plainStep s.plain)).2 _
    rw [step]
    exact still
  · rw [← sameRegs]
    exact inside

theorem execute_whole (inv : s.Inv cpu) (waiting : s.waiting = none)
    (unset : s.swBreakpoints (cpu.fetch s.regs) = none)
    (whole : s.mem.bytes (cpu.fetch s.regs) ≠ int3)
    (untouched : s.Untouched cpu.instr s.regs s.mem.bytes)
    (ends : s.singleStep → s.StepEnds cpu (cpu.instr.act (s.regs, s.mem.bytes))) :
    (s.execute cpu).Inv cpu ∧ s.Faithful cpu (s.execute cpu) := by
  obtain ⟨sameRegs, marks⟩ := plain_afterInstr inv waiting unset whole untouched
  rw [execute_instr whole]
  split
  · rename_i single
    cases place : cpu.inStub (s.afterInstr cpu).regs with
    | false => exact step_reported inv single unset sameRegs marks (ends single).1 place
    | true => exact step_served inv waiting unset sameRegs marks (ends single) place
  · exact ⟨inv.advance waiting sameRegs marks s.running,
      faithful_on inv unset waiting (.inl rfl)⟩

theorem execute_clean (inv : s.Inv cpu) (waiting : s.waiting = none) (clean : s.CleanTurn cpu) :
    (s.execute cpu).Inv cpu ∧ s.Faithful cpu (s.execute cpu) := by
  unfold CleanTurn at clean
  split at clean
  · rename_i set
    obtain ⟨orig, horig⟩ := Option.isSome_iff_exists.mp set
    exact execute_hit inv waiting horig clean.1 clean.2
  · rename_i set
    have unset : s.swBreakpoints (cpu.fetch s.regs) = none := by simpa using set
    split at clean
    · rename_i trap
      exact execute_serve inv waiting unset trap clean.1 clean.2.1 clean.2.2
    · rename_i whole
      exact execute_whole inv waiting unset whole clean.1 clean.2

theorem faithful_loopHead (waiting : s.waiting = none) (idle : s.running = false) :
    s.Faithful cpu s.loopHead where
  fires := by
    rw [idle]
    simp
  leaves := by
    rw [idle]
    simp
  stops := by
    unfold loopHead
    split
    · rename_i asked
      rintro _ ⟨⟩
      exact ⟨asked, rfl⟩
    · intro wait stopped
      dsimp only at stopped
      rw [waiting] at stopped
      cases stopped

/-- A turn is the head of the loop or an instruction. -/
theorem exec_turn (h : s.exec cpu .turn = some next) : s.waiting = none ∧
    (s.running ∧ next = s.execute cpu ∨ s.running = false ∧ next = s.loopHead) := by
  unfold exec at h
  dsimp only at h
  split at h
  · cases h
  · rename_i free
    refine ⟨by simpa using free, ?_⟩
    split at h
    · rename_i running
      exact .inl ⟨running, (Option.some.inj h).symm⟩
    · rename_i idle
      exact .inr ⟨by simpa using idle, (Option.some.inj h).symm⟩

theorem exec_clean {event : Event} (inv : s.Inv cpu) (clean : s.Clean cpu event)
    (h : s.exec cpu event = some next) : next.Inv cpu := by
  cases event with
  | addSwBreakpoint addr =>
    obtain ⟨wait, waiting, rfl⟩ := Option.map_eq_some_iff.mp h
    exact inv_addSwBreakpoint inv (by rw [waiting]; rfl) addr.toNat
  | removeSwBreakpoint addr =>
    obtain ⟨wait, waiting, rfl⟩ := Option.map_eq_some_iff.mp h
    exact inv_removeSwBreakpoint inv (by rw [waiting]; rfl) addr.toNat
  | writeAddrs startAddr data =>
    obtain ⟨wait, _, rfl⟩ := Option.map_eq_some_iff.mp h
    exact inv_writeAddrs inv clean
  | resume cmd =>
    obtain ⟨wait, waiting, rfl⟩ := Option.map_eq_some_iff.mp h
    exact inv_resume inv waiting clean
  | interrupt =>
    cases h
    exact ⟨inv.patched, inv.regs, inv.inside, inv.stopped, inv.stepping, inv.atStop, inv.leaving⟩
  | turn =>
    obtain ⟨waiting, ⟨running, rfl⟩ | ⟨idle, rfl⟩⟩ := exec_turn h
    · exact (execute_clean inv waiting (clean running)).1
    · exact inv_loopHead inv waiting idle

theorem turn_faithful (inv : s.Inv cpu) (clean : s.Clean cpu .turn)
    (h : s.exec cpu .turn = some next) : s.Faithful cpu next := by
  obtain ⟨waiting, ⟨running, rfl⟩ | ⟨idle, rfl⟩⟩ := exec_turn h
  · exact (execute_clean inv waiting (clean running)).2
  · exact faithful_loopHead waiting idle

/-- Over every run in which breakpoints are stepped off only after they are taken out and
no instruction meets one, the debugger sees the program as it runs alone, and stops where
it asked for. -/
theorem clean_run_faithful (cpu : Cpu σ) (regs : σ) (mem : GuestMemory) (events : List Event)
    (s : Guest σ)
    (run : Run ((step cpu).guarded fun s => s.Clean cpu) (initial regs mem) events s) :
    s.Transparent ∧ ∀ next, (step cpu).guarded (fun s => s.Clean cpu) s .turn next →
      s.Faithful cpu next := by
  have inv : s.Inv cpu :=
    run.invariant (fun s => s.Inv cpu) (fun _ _ _ inv next => exec_clean inv next.1 next.2)
      (inv_initial regs mem)
  exact ⟨inv.transparent, fun next h => turn_faithful inv h.1 h.2⟩

section Sample

variable [DecidableEq σ] (cpu : Cpu σ) (s : Guest σ)

instance (action : Action σ) (regs : σ) (mem : ByteStore) :
    Decidable (s.Untouched action regs mem) := inferInstanceAs (Decidable (_ ∧ _))

instance (regs : σ) : Decidable (s.NoneBefore cpu regs) := inferInstanceAs (Decidable (_ = _))

instance (state : σ × ByteStore) : Decidable (s.StepEnds cpu state) :=
  inferInstanceAs (Decidable (_ ∧ _))

instance : Decidable (s.CleanTurn cpu) := by
  unfold CleanTurn
  infer_instance

instance (cmd : ResumeCmd) (wait : Wait) : Decidable (s.CleanResume cmd wait) := by
  unfold CleanResume
  split <;> infer_instance

instance (event : Event) : Decidable (s.Clean cpu event) := by
  unfold Clean
  split
  · infer_instance
  · infer_instance
  · infer_instance
  · infer_instance

def cleanExec (event : Event) : Option (Guest σ) :=
  if s.Clean cpu event then s.exec cpu event else none

theorem cleanExec_step (start : Guest σ) (event : Event) (finish : Guest σ)
    (h : start.cleanExec cpu event = some finish) :
    (step cpu).guarded (fun s => s.Clean cpu) start event finish := by
  unfold cleanExec at h
  split at h
  · rename_i clean
    exact ⟨clean, h⟩
  · cases h

end Sample

/-- A processor of which only the instruction pointer matters, as long as it executes
instructions of one byte that do nothing. -/
def sampleCpu : Cpu UInt32 where
  rip := id
  csBase := fun _ => 0
  withRip := fun _ rip => rip
  trapped := fun rip => rip + 1
  instr := ⟨fun _ rip => (rip + 1, []), fun _ rip => [rip.toNat], fun _ _ _ _ => rfl⟩
  serve := ⟨fun _ rip => (rip, []), fun _ _ => [], fun _ _ _ _ => rfl⟩
  withRip_trapped := fun _ => rfl

def sampleMem : GuestMemory := ⟨16, fun _ => 0x90⟩

/-- A breakpoint is hit, taken out, stepped off and set again, and the guest continues. -/
def sampleEvents : List Event :=
  [.addSwBreakpoint 1, .resume .cont, .turn, .turn, .turn, .removeSwBreakpoint 1, .resume .step,
    .turn, .turn, .addSwBreakpoint 1, .resume .cont, .turn]

theorem clean_run_faithful_stepped : ∃ s : Guest UInt32,
    sampleEvents.foldlM (cleanExec sampleCpu) (initial 0 sampleMem) = some s ∧ s.regs = 2 ∧
      s.Transparent ∧ ∀ next, (step sampleCpu).guarded (fun s => s.Clean sampleCpu) s .turn next →
        s.Faithful sampleCpu next := by
  have hrun : (sampleEvents.foldlM (cleanExec sampleCpu) (initial 0 sampleMem)).map Guest.regs =
      some 2 := by decide
  obtain ⟨s, hs, hregs⟩ := Option.map_eq_some_iff.mp hrun
  exact ⟨s, hs, hregs, clean_run_faithful sampleCpu 0 sampleMem sampleEvents s
    (Run.of_foldlM (cleanExec_step sampleCpu) hs)⟩

/-- A guest that continues from a breakpoint stops at it again, and executes nothing. -/
theorem breakpoint_not_left : ¬∀ (σ : Type) (cpu : Cpu σ) (regs : σ) (mem : GuestMemory)
    (events : List Event) (s : Guest σ), Run (step cpu) (initial regs mem) events s →
      s.Transparent ∧ ∀ next, step cpu s .turn next → s.Faithful cpu next := by
  intro all
  have hrun : (([.addSwBreakpoint 0, .resume .cont, .turn, .turn, .resume .cont,
      .turn].foldlM (exec sampleCpu) (initial 0 sampleMem)).bind fun s =>
        (s.exec sampleCpu .turn).map fun next => (s.running, s.off, next.plain.1,
          (sampleCpu.plainStep s.plain).1, (sampleCpu.plainStep (sampleCpu.plainStep s.plain)).1)) =
      some (true, some 0, 0, 1, 2) := by decide
  obtain ⟨s, hs, hnext⟩ := Option.bind_eq_some_iff.mp hrun
  obtain ⟨next, hturn, hresult⟩ := Option.map_eq_some_iff.mp hnext
  simp only [Prod.mk.injEq] at hresult
  obtain ⟨running, off, same, once, twice⟩ := hresult
  have run : Run (step sampleCpu) (initial 0 sampleMem) _ s :=
    Run.of_foldlM (fun _ _ _ h => h) hs
  rcases ((all _ _ _ _ _ s run).2 next hturn).leaves running (by rw [off]; rfl) with h | ⟨_, h⟩
  · rw [← h, same] at once
    exact absurd once (by decide)
  · rw [← h, same] at twice
    exact absurd twice (by decide)

end Guest
end Warpine.Vcpu.Gdb
