import Warpine.Guest.Footprint
import Warpine.Vcpu.Seh

/-! `DosCreateThread` with what it leaves behind where it fails, and the way back out of a
thread. The bottom of a stack holds the address of a trap, which is the one that the main
thread exits the process by. -/
namespace Warpine.Vcpu
open Warpine.Lib Warpine.Guest Warpine.Loader

/-- The registers that a new thread starts with, and its information block. -/
structure ThreadStart where
  tid : Nat
  tib : Nat
  rip : Nat
  rsp : Nat
  rax : Nat
  rflags : Nat

inductive CreateOutcome where
  | refused (rc : Nat)
  /-- The host panics, and the call does not return. -/
  | panicked
  | started (thread : ThreadStart)

/-- The bottom of a stack. -/
def threadFrame (param : Nat) : List UInt8 := leBytes 4 exitTrapAddr ++ leBytes 4 param

/-- What goes to the information block and to the bottom of the stack. -/
def frameWrites (tib sp param : Nat) : List (Nat × List UInt8) :=
  [(tib + 0x18, leBytes 4 tib), (tib + 0x30, leBytes 4 pibBase), (sp, leBytes 4 exitTrapAddr),
    (sp + 4, leBytes 4 param)]

namespace SehMemory

/-- The host may have no processor for the thread. What a panic has written before is left
out. -/
def startThread (seh : SehMemory) (vcpuFails : Bool)
    (stackBase stackSize tib tid ptidPtr pfn param : Nat) : CreateOutcome × SehMemory :=
  let sp := stackBase + stackSize - 12
  match seh.mem.writeAll (frameWrites tib sp param) with
  | none => (.panicked, seh)
  | some mem =>
      if vcpuFails then (.panicked, { seh with mem })
      else
        (.started { tid, tib, rip := pfn, rsp := sp, rax := param, rflags := 2 },
          { seh with mem := mem.put 4 ptidPtr tid })

def createOn (seh : SehMemory) (vcpuFails : Bool) (stackSize tid ptidPtr pfn param : Nat) :
    CreateOutcome × SehMemory :=
  match seh.alloc stackSize with
  | none => (.refused 8, seh)
  | some (stackBase, stacked) =>
      match stacked.alloc 4096 with
      | none => (.panicked, stacked)
      | some (tib, both) =>
          both.startThread vcpuFails stackBase stackSize tib tid ptidPtr pfn param

def createThread (seh : SehMemory) (vcpuFails : Bool) (tid ptidPtr pfn param cbStack : Nat) :
    CreateOutcome × SehMemory :=
  seh.createOn vcpuFails (threadStackSize cbStack) tid ptidPtr pfn param

end SehMemory

/-- The threads of a process and its exit flag. -/
structure Process where
  exitRequested : Bool
  running : Nat → Bool

namespace Process

variable (p : Process)

def ends (tid : Nat) : Process := { p with running := Function.update p.running tid false }

/-- A thread is at the exit trap. -/
def exitTrap (tid : Nat) : Process := { p with exitRequested := true }.ends tid

/-- A thread is at the head of its loop. -/
def turn (tid : Nat) : Process := if p.exitRequested then p.ends tid else p

def turns (tids : List Nat) : Process := tids.foldl turn p

/-- The other threads go on as they would have done. -/
def EndsOnly (tid : Nat) : Prop := ∀ tids other, tid ∉ tids → other ≠ tid →
  ((p.exitTrap tid).turns tids).running other = (p.turns tids).running other

end Process

def Encloses (block : AllocBlock) (addr len : Nat) : Prop :=
  block.addr ≤ addr ∧ addr + len ≤ block.addr + block.size

/-- The frame and the information block lie in two new blocks, and nothing else is written but
the number of the thread. -/
structure ThreadPlaced (seh next : SehMemory) (thread : ThreadStart) (ptidPtr param : Nat)
    (stack tib : AllocBlock) : Prop where
  allocated : next.memMgr.allocated = seh.memMgr.allocated ++ [stack, tib]
  frame : Encloses stack thread.rsp 8
  block : Encloses tib thread.tib 0x34
  others : ∀ addr, ¬ Encloses stack addr 1 → ¬ Encloses tib addr 1 →
    (addr < ptidPtr ∨ ptidPtr + 4 ≤ addr) → next.mem.bytes addr = seh.mem.bytes addr
  trap : next.mem.slice thread.rsp 8 = some (threadFrame param)

/-- A call that fails leaves no block behind. One that starts a thread places it, and the
return of the thread ends only the thread. -/
structure CreatesRight (seh : SehMemory) (p : Process) (tid ptidPtr param : Nat)
    (result : CreateOutcome × SehMemory) : Prop where
  failed : (∀ thread, result.1 ≠ .started thread) → result.2.memMgr = seh.memMgr
  started : ∀ thread, result.1 = .started thread →
    ∃ stack tib, ThreadPlaced seh result.2 thread ptidPtr param stack tib
  returns : ∀ thread, result.1 = .started thread → p.EndsOnly tid

/-- The number of the thread, where it goes to memory, leaves the frame as it is. -/
def SparesFrame (size ptidPtr tid sp param : Nat) : Prop := ptidPtr + 4 ≤ size →
  ∀ i j, i < 4 → j < 8 → ptidPtr + i = sp + j → (leBytes 4 tid)[i]? = (threadFrame param)[j]?

/-- Both blocks can be had. -/
def SehMemory.CanStart (seh : SehMemory) (stackSize tid ptidPtr param : Nat) : Prop :=
  ∃ stackBase stacked tib both, seh.alloc stackSize = some (stackBase, stacked) ∧
    stacked.alloc 4096 = some (tib, both) ∧
    SparesFrame seh.mem.size ptidPtr tid (stackBase + stackSize - 12) param

section Ends

variable {p : Process} {tid : Nat}

theorem turns_running (tids : List Nat) (other : Nat) : (p.turns tids).running other =
    (p.running other && !(p.exitRequested && tids.contains other)) := by
  induction tids generalizing p with
  | nil => simp [Process.turns]
  | cons first rest ih =>
    change ((p.turn first).turns rest).running other = _
    rw [ih, Process.turn]
    cases flag : p.exitRequested with
    | false => simp [flag]
    | true =>
      by_cases here : other = first
      · subst here
        simp [Process.ends]
      · simp [Process.ends, flag, here]

/-- The return ends other threads, unless the exit was asked for before or there are none. -/
theorem endsOnly_iff : p.EndsOnly tid ↔
    p.exitRequested = true ∨ ∀ other, other ≠ tid → p.running other = false := by
  constructor
  · intro only
    cases flag : p.exitRequested with
    | true => exact .inl rfl
    | false =>
      right
      intro other apart
      have after := only [other] other (by simpa using Ne.symm apart) apart
      rw [turns_running, turns_running, flag] at after
      simpa [Process.exitTrap, Process.ends, Function.update_of_ne apart] using after.symm
  · rintro (flag | alone) tids other _ apart
    · rw [turns_running, turns_running]
      simp [Process.exitTrap, Process.ends, Function.update_of_ne apart, flag]
    · rw [turns_running, turns_running]
      simp [Process.exitTrap, Process.ends, Function.update_of_ne apart, alone other apart]

end Ends

section Creates

variable {seh : SehMemory} {p : Process} {vcpuFails : Bool}
variable {tid stackBase stackSize tib ptidPtr pfn param : Nat}

/-- Without the state that a panic leaves, this is the call as the other threads see it. -/
theorem dosCreateThread_eq (seh : SehMemory) (tid ptidPtr pfn param cbStack : Nat) :
    seh.dosCreateThread tid ptidPtr param cbStack =
      match seh.createThread false tid ptidPtr pfn param cbStack with
      | (.refused _, after) => some (none, after)
      | (.panicked, _) => none
      | (.started thread, after) => some (some thread.tib, after) := by
  unfold SehMemory.dosCreateThread SehMemory.createThread
  generalize threadStackSize cbStack = stackSize
  unfold SehMemory.createOn
  dsimp only
  cases stack : seh.alloc stackSize with
  | none => simp only
  | some first =>
    obtain ⟨stackBase, stacked⟩ := first
    unfold SehMemory.placeThread
    simp only
    cases block : stacked.alloc 4096 with
    | none => simp
    | some second =>
      obtain ⟨tib, both⟩ := second
      simp only [SehMemory.startThread, frameWrites, GuestMemory.writeAll, List.foldlM_cons,
        List.foldlM_nil, SehMemory.write, GuestMemory.write, Option.bind_eq_bind, Option.bind_some,
        Bool.false_eq_true, if_false]
      cases self : both.mem.writeBytes (tib + 0x18) (leBytes 4 tib) with
      | none => simp
      | some first =>
        cases info : first.writeBytes (tib + 0x30) (leBytes 4 pibBase) with
        | none => simp [info]
        | some second =>
          cases back : second.writeBytes (stackBase + stackSize - 12) (leBytes 4 exitTrapAddr) with
          | none => simp [info, back]
          | some third =>
            cases last : third.writeBytes (stackBase + stackSize - 12 + 4) (leBytes 4 param) with
            | none => simp [info, back, last]
            | some mem => simp [info, back, last]

/-- A block that the allocator gives is in the memory that it manages. -/
theorem alloc_encloses {next : SehMemory} {size addr : Nat} (word : seh.mem.size < u32Size)
    (within : seh.memMgr.Within dynamicAllocBase seh.mem.size)
    (h : seh.alloc size = some (addr, next)) :
    next.mem = seh.mem ∧ next.memMgr.Within dynamicAllocBase seh.mem.size ∧
      ∃ block : AllocBlock, next.memMgr.allocated = seh.memMgr.allocated ++ [block] ∧
        block.addr = addr ∧ size ≤ block.size ∧ dynamicAllocBase ≤ addr ∧
          addr + block.size ≤ seh.mem.size := by
  obtain ⟨⟨base, memMgr⟩, hmgr, hpair⟩ := Option.map_eq_some_iff.mp h
  obtain ⟨rfl, rfl⟩ := Prod.mk.inj hpair
  obtain ⟨rounded, large, allocated⟩ := MemoryManager.alloc_allocated hmgr
  have after := MemoryManager.within_alloc word within hmgr
  have inside := after.blocks ⟨base, rounded⟩ (by simp [allocated])
  exact ⟨rfl, after, ⟨base, rounded⟩, allocated, rfl, large, inside.1, inside.2⟩

/-- Two new blocks, for the stack of a thread and for its information block. -/
structure Blocks (seh both : SehMemory) (stackSize : Nat) (stack block : AllocBlock) : Prop where
  same : both.mem = seh.mem
  allocated : both.memMgr.allocated = seh.memMgr.allocated ++ [stack, block]
  low : 12 ≤ stack.addr
  long : stackSize ≤ stack.size
  stackFits : stack.addr + stack.size ≤ seh.mem.size
  page : 4096 ≤ block.size
  blockFits : block.addr + block.size ≤ seh.mem.size

theorem alloc_blocks {stacked both : SehMemory} (word : seh.mem.size < u32Size)
    (within : seh.memMgr.Within dynamicAllocBase seh.mem.size)
    (stack : seh.alloc stackSize = some (stackBase, stacked))
    (block : stacked.alloc 4096 = some (tib, both)) :
    ∃ stack block, stack.addr = stackBase ∧ block.addr = tib ∧
      Blocks seh both stackSize stack block := by
  obtain ⟨sameStack, withinStack, first, stackAllocated, stackAddr, long, low, stackFits⟩ :=
    alloc_encloses word within stack
  rw [← sameStack] at word withinStack
  obtain ⟨sameTib, _, second, tibAllocated, tibAddr, page, _, blockFits⟩ :=
    alloc_encloses word withinStack block
  refine ⟨first, second, stackAddr, tibAddr, ?_⟩
  subst stackAddr tibAddr
  rw [sameStack] at blockFits
  refine ⟨sameTib.trans sameStack, ?_, Nat.le_trans (by decide) low, long, stackFits, page,
    blockFits⟩
  rw [tibAllocated, stackAllocated, List.append_assoc]
  rfl

section Placing

variable {both : SehMemory} {stack block : AllocBlock}

/-- Every write for a new thread has its place in memory. -/
theorem frameWrites_fit (blocks : Blocks seh both stackSize stack block) :
    ∀ write ∈ frameWrites block.addr (stack.addr + stackSize - 12) param,
      both.mem.inBounds write.1 write.2.length := by
  obtain ⟨same, _, low, long, stackFits, page, blockFits⟩ := blocks
  intro write member
  simp only [frameWrites, List.mem_cons, List.not_mem_nil, or_false] at member
  rw [same]
  rcases member with rfl | rfl | rfl | rfl <;>
    · simp only [GuestMemory.inBounds, leBytes_length, decide_eq_true_eq]
      omega

/-- So only the missing processor can make the host panic. -/
theorem startThread_eq (blocks : Blocks seh both stackSize stack block) :
    both.startThread vcpuFails stack.addr stackSize block.addr tid ptidPtr pfn param =
      let sp := stack.addr + stackSize - 12
      let mem := { both.mem with
        bytes := both.mem.bytes.storeAll (frameWrites block.addr sp param) }
      if vcpuFails then (.panicked, { both with mem })
      else
        (.started { tid, tib := block.addr, rip := pfn, rsp := sp, rax := param, rflags := 2 },
          { both with mem := mem.put 4 ptidPtr tid }) := by
  unfold SehMemory.startThread
  dsimp only
  rw [both.mem.writeAll_eq_some.mpr ⟨frameWrites_fit blocks, rfl⟩]

@[simp] theorem threadFrame_length : (threadFrame param).length = 8 := by
  simp [threadFrame]

/-- The frame is written last. -/
theorem storeAll_frame (mem : ByteStore) {sp : Nat} :
    (mem.storeAll (frameWrites tib sp param)).load sp 8 = threadFrame param := by
  have bottom (mem : ByteStore) : (mem.store sp (leBytes 4 exitTrapAddr)).store (sp + 4)
      (leBytes 4 param) = mem.store sp (threadFrame param) := by
    rw [threadFrame, ← ByteStore.store_append, leBytes_length]
  have whole (mem : ByteStore) : (mem.store sp (threadFrame param)).load sp
      (threadFrame param).length = threadFrame param := mem.load_store
  simp only [threadFrame_length] at whole
  simp only [ByteStore.storeAll, frameWrites, List.foldl_cons, List.foldl_nil, bottom, whole]

theorem frame_written (mem : GuestMemory) (tib param : Nat) {sp : Nat} (h : sp + 8 ≤ mem.size) :
    GuestMemory.slice { mem with bytes := mem.bytes.storeAll (frameWrites tib sp param) } sp 8 =
      some (threadFrame param) :=
  (GuestMemory.slice_eq_some _).mpr ⟨decide_eq_true h, storeAll_frame mem.bytes⟩

/-- The number of the thread goes over no byte of the frame but by an equal one. -/
theorem frame_kept_iff {mem : GuestMemory} {sp : Nat}
    (h : mem.slice sp 8 = some (threadFrame param)) :
    (mem.put 4 ptidPtr tid).slice sp 8 = some (threadFrame param) ↔
      SparesFrame mem.size ptidPtr tid sp param := by
  rw [← threadFrame_length] at h ⊢
  rw [GuestMemory.put, mem.slice_putBytes_same_iff h]
  simp only [GuestMemory.inBounds, leBytes_length, threadFrame_length, decide_eq_true_eq,
    SparesFrame]

/-- What is outside both blocks keeps its bytes, but for the number of the thread. -/
theorem others_kept {mem : GuestMemory} {sp addr : Nat} (frame : Encloses stack sp 8)
    (info : Encloses block tib 0x34) (offStack : ¬ Encloses stack addr 1)
    (offBlock : ¬ Encloses block addr 1) (offPtid : addr < ptidPtr ∨ ptidPtr + 4 ≤ addr) :
    (({ mem with bytes := mem.bytes.storeAll (frameWrites tib sp param) } : GuestMemory).put 4
      ptidPtr tid).bytes addr = mem.bytes addr := by
  rw [GuestMemory.bytes_put_outside _ offPtid]
  apply ByteStore.storeAll_outside
  unfold Encloses at frame info offStack offBlock
  intro write member covers
  simp only [frameWrites, List.mem_cons, List.not_mem_nil, or_false] at member
  unfold ByteStore.Covers at covers
  rcases member with rfl | rfl | rfl | rfl <;>
    · rw [leBytes_length] at covers
      omega

/-- A thread is placed right from 12 bytes of stack on. -/
theorem blocks_placed_iff (blocks : Blocks seh both stackSize stack block) {thread : ThreadStart}
    {next : SehMemory}
    (start : both.startThread false stack.addr stackSize block.addr tid ptidPtr pfn param =
      (.started thread, next)) :
    (∃ stack block, ThreadPlaced seh next thread ptidPtr param stack block) ↔
      12 ≤ stackSize ∧
        SparesFrame seh.mem.size ptidPtr tid (stack.addr + stackSize - 12) param := by
  rw [startThread_eq blocks] at start
  cases start
  obtain ⟨same, allocated, low, long, stackFits, page, blockFits⟩ := blocks
  have frame := frame_written both.mem block.addr param
    (show stack.addr + stackSize - 12 + 8 ≤ both.mem.size by rw [same]; omega)
  rw [← same, ← frame_kept_iff frame]
  constructor
  · rintro ⟨first, second, placed⟩
    have equal := List.append_cancel_left (allocated.symm.trans placed.allocated)
    obtain ⟨rfl, rfl⟩ : stack = first ∧ block = second := by simpa using equal
    have inside : stack.addr ≤ stack.addr + stackSize - 12 := placed.frame.1
    exact ⟨by omega, placed.trap⟩
  · rintro ⟨enough, spared⟩
    have inside : Encloses stack (stack.addr + stackSize - 12) 8 := ⟨by omega, by omega⟩
    have info : Encloses block block.addr 0x34 := ⟨Nat.le_refl _, by omega⟩
    refine ⟨stack, block, allocated, inside, info, ?_, spared⟩
    intro addr offStack offBlock offPtid
    rw [← same]
    exact others_kept inside info offStack offBlock offPtid

end Placing

/-- A call that does not start a thread has to give its blocks back. -/
theorem left_behind {result : CreateOutcome × SehMemory} {blocks : List AllocBlock}
    (idle : ∀ thread, result.1 ≠ .started thread) (more : blocks ≠ [])
    (allocated : result.2.memMgr.allocated = seh.memMgr.allocated ++ blocks) :
    ¬ CreatesRight seh p tid ptidPtr param result := by
  intro right
  rw [right.failed idle] at allocated
  exact more (List.self_eq_append_right.mp allocated)

theorem createsRight_started {next : SehMemory} {thread : ThreadStart} :
    CreatesRight seh p tid ptidPtr param (.started thread, next) ↔
      (∃ stack block, ThreadPlaced seh next thread ptidPtr param stack block) ∧ p.EndsOnly tid := by
  constructor
  · exact fun right => ⟨right.started thread rfl, right.returns thread rfl⟩
  · rintro ⟨placed, alone⟩
    refine ⟨fun idle => absurd rfl (idle thread), ?_, fun _ _ => alone⟩
    rintro _ ⟨⟩
    exact placed

theorem canStart_iff {stacked both : SehMemory}
    (stack : seh.alloc stackSize = some (stackBase, stacked))
    (block : stacked.alloc 4096 = some (tib, both)) (thread : Nat) :
    seh.CanStart stackSize thread ptidPtr param ↔
      SparesFrame seh.mem.size ptidPtr thread (stackBase + stackSize - 12) param := by
  constructor
  · rintro ⟨_, _, _, _, first, _, spared⟩
    obtain ⟨rfl, rfl⟩ := Prod.mk.inj (Option.some.inj (stack.symm.trans first))
    exact spared
  · exact fun spared => ⟨_, _, _, _, stack, block, spared⟩

theorem createOn_right_iff (word : seh.mem.size < u32Size)
    (within : seh.memMgr.Within dynamicAllocBase seh.mem.size) :
    CreatesRight seh p tid ptidPtr param
        (seh.createOn vcpuFails stackSize tid ptidPtr pfn param) ↔
      seh.alloc stackSize = none ∨
        (seh.CanStart stackSize tid ptidPtr param ∧ vcpuFails = false ∧ 12 ≤ stackSize ∧
          p.EndsOnly tid) := by
  unfold SehMemory.createOn
  cases stack : seh.alloc stackSize with
  | none =>
    have refused : CreatesRight seh p tid ptidPtr param (.refused 8, seh) :=
      ⟨fun _ => rfl, fun _ started => (nomatch started), fun _ started => (nomatch started)⟩
    simpa using refused
  | some first =>
    obtain ⟨stackBase, stacked⟩ := first
    simp only [reduceCtorEq, false_or]
    cases block : stacked.alloc 4096 with
    | none =>
      obtain ⟨_, _, stackBlock, allocated, -⟩ := alloc_encloses word within stack
      apply iff_of_false (left_behind (by simp) (List.cons_ne_nil _ _) allocated)
      rintro ⟨⟨_, _, _, _, first, second, -⟩, -⟩
      obtain ⟨rfl, rfl⟩ := Prod.mk.inj (Option.some.inj (stack.symm.trans first))
      exact nomatch block.symm.trans second
    | some second =>
      obtain ⟨tib, both⟩ := second
      obtain ⟨stackBlock, tibBlock, rfl, rfl, blocks⟩ := alloc_blocks word within stack block
      rw [canStart_iff stack block]
      dsimp only
      cases vcpuFails with
      | true =>
        rw [startThread_eq blocks]
        apply iff_of_false (left_behind (by simp) (List.cons_ne_nil _ _) blocks.allocated)
        exact fun ⟨_, failed, _⟩ => nomatch failed
      | false =>
        obtain ⟨⟨thread, next⟩, start⟩ : ∃ result : ThreadStart × SehMemory,
            both.startThread false stackBlock.addr stackSize tibBlock.addr tid ptidPtr pfn param =
              (.started result.1, result.2) := ⟨(_, _), startThread_eq blocks⟩
        rw [start, createsRight_started, blocks_placed_iff blocks start]
        constructor
        · exact fun ⟨⟨enough, spared⟩, alone⟩ => ⟨spared, rfl, enough, alone⟩
        · exact fun ⟨spared, _, enough, alone⟩ => ⟨⟨enough, spared⟩, alone⟩

/-- Where memory can be had a call does what it should only for a thread that has 12 bytes of
stack, and that has no others beside it when it returns. -/
theorem create_thread_right_iff (tid : Nat) (ptidPtr pfn param cbStack : UInt32)
    (word : seh.mem.size < u32Size) (within : seh.memMgr.Within dynamicAllocBase seh.mem.size) :
    CreatesRight seh p tid ptidPtr.toNat param.toNat
        (seh.createThread vcpuFails tid ptidPtr.toNat pfn.toNat param.toNat cbStack.toNat) ↔
      seh.alloc (threadStackSize cbStack.toNat) = none ∨
        (seh.CanStart (threadStackSize cbStack.toNat) tid ptidPtr.toNat param.toNat ∧
          vcpuFails = false ∧ 12 ≤ threadStackSize cbStack.toNat ∧
          (p.exitRequested = true ∨ ∀ other, other ≠ tid → p.running other = false)) := by
  unfold SehMemory.createThread
  generalize threadStackSize cbStack.toNat = stackSize
  rw [createOn_right_iff word within, endsOnly_iff]

end Creates

/-- The memory of a program that has had no block yet. -/
def unusedMemory : SehMemory where
  mem := ⟨guestMemSize, fun _ => 0⟩
  memMgr := ⟨[], [], dynamicAllocBase, guestMemSize⟩

theorem unusedMemory_word : unusedMemory.mem.size < u32Size := by decide

theorem unusedMemory_within :
    unusedMemory.memMgr.Within dynamicAllocBase unusedMemory.mem.size :=
  ⟨Nat.le_refl _, by decide, rfl, by simp [unusedMemory]⟩

/-- The default stack, and the block after it. -/
theorem unusedMemory_stack : unusedMemory.alloc 65536 = some (dynamicAllocBase,
    { unusedMemory with memMgr := ⟨[⟨dynamicAllocBase, 65536⟩], [], dynamicAllocBase + 65536,
                                   guestMemSize⟩ }) := by
  have allocated : unusedMemory.memMgr.alloc 65536 = some (dynamicAllocBase,
      ⟨[⟨dynamicAllocBase, 65536⟩], [], dynamicAllocBase + 65536, guestMemSize⟩) := by decide
  rw [SehMemory.alloc, allocated, Option.map_some]

theorem unusedMemory_block : SehMemory.alloc
    { unusedMemory with memMgr := ⟨[⟨dynamicAllocBase, 65536⟩], [], dynamicAllocBase + 65536,
                                   guestMemSize⟩ } 4096 =
      some (dynamicAllocBase + 65536,
        { unusedMemory with
          memMgr := ⟨[⟨dynamicAllocBase, 65536⟩, ⟨dynamicAllocBase + 65536, 4096⟩], [],
                     dynamicAllocBase + 69632, guestMemSize⟩ }) := by
  have allocated : MemoryManager.alloc ⟨[⟨dynamicAllocBase, 65536⟩], [], dynamicAllocBase + 65536,
      guestMemSize⟩ 4096 = some (dynamicAllocBase + 65536,
        ⟨[⟨dynamicAllocBase, 65536⟩, ⟨dynamicAllocBase + 65536, 4096⟩], [],
          dynamicAllocBase + 69632, guestMemSize⟩) := by decide
  rw [SehMemory.alloc, allocated, Option.map_some]

/-- The last thread of a program. -/
theorem lone_thread_right : CreatesRight unusedMemory ⟨false, fun thread => thread == 1⟩ 1 0x1000 7
    (unusedMemory.createThread false 1 0x1000 0x10000 7 0) := by
  have spared : SparesFrame guestMemSize 0x1000 1 (dynamicAllocBase + 65536 - 12) 7 := by
    intro _ i j low _ here
    unfold dynamicAllocBase at here
    omega
  apply (create_thread_right_iff 1 0x1000 0x10000 7 0 unusedMemory_word unusedMemory_within).mpr
  exact .inr ⟨⟨_, _, _, _, unusedMemory_stack, unusedMemory_block, spared⟩, rfl, by decide,
    .inr fun other apart => by simpa using apart⟩

/-- A thread that returns while the first thread runs ends the first thread too. -/
theorem return_ends_others : ¬ CreatesRight unusedMemory ⟨false, fun _ => true⟩ 1 0x1000 7
    (unusedMemory.createThread false 1 0x1000 0x10000 7 65536) := by
  intro right
  rcases (createOn_right_iff unusedMemory_word unusedMemory_within).mp right with
    refused | ⟨_, _, _, only⟩
  · exact nomatch unusedMemory_stack.symm.trans refused
  · rcases endsOnly_iff.mp only with asked | alone
    · exact absurd asked (by decide)
    · exact absurd (alone 0 (by decide)) (by decide)

end Warpine.Vcpu
