import Warpine.Lib.Run
import Warpine.Lib.Lists
import Warpine.Lib.Ranges
import Warpine.Lib.Words
import Mathlib.Data.List.Sort

/-! The allocator of guest address space. A `u32` is a natural number below
`2 ^ 32`; the sums the source leaves unchecked wrap there. -/
namespace Warpine.Loader
open Warpine.Lib

structure AllocBlock where
  addr : Nat
  size : Nat
deriving DecidableEq, Repr

/-- The blocks are nonempty, lie in `[base, top)` and share no address. -/
structure Tiled (base top : Nat) (blocks : List AllocBlock) : Prop where
  apart : blocks.Pairwise fun a b => Apart a.addr a.size b.addr b.size
  placed : ∀ block ∈ blocks, 0 < block.size ∧ base ≤ block.addr ∧ block.addr + block.size ≤ top

namespace Tiled

variable {base top : Nat} {block : AllocBlock} {blocks other : List AllocBlock}

theorem perm (h : Tiled base top blocks) (same : blocks.Perm other) : Tiled base top other where
  apart := h.apart.perm same Apart.symm
  placed := fun block member => h.placed block (same.mem_iff.mpr member)

theorem append_left (h : Tiled base top (blocks ++ other)) : Tiled base top blocks where
  apart := (List.pairwise_append.mp h.apart).1
  placed := fun block member => h.placed block (List.mem_append_left other member)

/-- The bump pointer places a block above all others. -/
theorem push (h : Tiled base top blocks) (low : base ≤ top) {size : Nat} (positive : 0 < size) :
    Tiled base (top + size) (⟨top, size⟩ :: blocks) where
  apart := by
    refine List.pairwise_cons.mpr ⟨fun b member => ?_, h.apart⟩
    exact Or.inr (h.placed b member).2.2
  placed := by
    intro b member
    rcases List.mem_cons.mp member with rfl | member
    · exact ⟨positive, low, Nat.le_refl _⟩
    · obtain ⟨hpos, hlow, hhigh⟩ := h.placed b member
      exact ⟨hpos, hlow, by omega⟩

/-- A block that ends at the top can be given back to the bump pointer. -/
theorem pop (h : Tiled base top (block :: blocks)) (atTop : block.addr + block.size = top) :
    Tiled base block.addr blocks where
  apart := (List.pairwise_cons.mp h.apart).2
  placed := by
    intro b member
    obtain ⟨hpos, hlow, hhigh⟩ := h.placed b (List.mem_cons_of_mem block member)
    have hapart := (List.pairwise_cons.mp h.apart).1 b member
    unfold Apart at hapart
    exact ⟨hpos, hlow, by omega⟩

/-- Splitting a block keeps both parts inside it. -/
theorem cut (h : Tiled base top (block :: blocks)) {size : Nat} (positive : 0 < size)
    (smaller : size < block.size) :
    Tiled base top (⟨block.addr, size⟩ :: ⟨block.addr + size, block.size - size⟩ :: blocks) where
  apart := by
    have hblock := (List.pairwise_cons.mp h.apart).1
    refine List.pairwise_cons.mpr ⟨fun b member => ?_, List.pairwise_cons.mpr
      ⟨fun b member => ?_, (List.pairwise_cons.mp h.apart).2⟩⟩
    · rcases List.mem_cons.mp member with rfl | member
      · exact Or.inl (Nat.le_refl _)
      · exact (hblock b member).shrink (Nat.le_refl _) (by dsimp only; omega)
    · exact (hblock b member).shrink (by dsimp only; omega) (by dsimp only; omega)
  placed := by
    obtain ⟨_, hlow, hhigh⟩ := h.placed block List.mem_cons_self
    intro b member
    rcases List.mem_cons.mp member with rfl | member
    · exact ⟨positive, hlow, by dsimp only; omega⟩
    · rcases List.mem_cons.mp member with rfl | member
      · exact ⟨by dsimp only; omega, by dsimp only; omega, by dsimp only; omega⟩
      · exact h.placed b (List.mem_cons_of_mem block member)

end Tiled

structure MemoryManager where
  allocated : List AllocBlock
  freeList : List AllocBlock
  nextFree : Nat
  limit : Nat
deriving DecidableEq, Repr

namespace MemoryManager

def new (base limit : UInt32) : MemoryManager where
  allocated := []
  freeList := []
  nextFree := base.toNat
  limit := limit.toNat

/-- First fit over the freed blocks, then the bump pointer. `none` is the failure
the source returns, which leaves the manager as it was. -/
def alloc (mgr : MemoryManager) (size : Nat) : Option (Nat × MemoryManager) := do
  let padded ← checkedAdd size 4095
  let size := padded / 4096 * 4096 -- `& !4095`
  match takeFirst (fun block => decide (size ≤ block.size)) mgr.freeList with
  | some (block, freeList) =>
      let freeList :=
        if size < block.size then
          freeList ++ [⟨wrapAdd block.addr size, block.size - size⟩]
        else freeList
      some (block.addr,
        { mgr with freeList, allocated := mgr.allocated ++ [⟨block.addr, size⟩] })
  | none =>
      let stop ← checkedAdd mgr.nextFree size
      if mgr.limit < stop then none
      else some (mgr.nextFree,
        { mgr with allocated := mgr.allocated ++ [⟨mgr.nextFree, size⟩], nextFree := stop })

/-- The coalescing loop, over the address-ordered free list read from its end. -/
def reclaimTop : List AllocBlock → Nat → List AllocBlock × Nat
  | [], nextFree => ([], nextFree)
  | last :: init, nextFree =>
      if wrapAdd last.addr last.size = nextFree then reclaimTop init last.addr
      else (last :: init, nextFree)

def free (mgr : MemoryManager) (addr : Nat) : Bool × MemoryManager :=
  match takeFirst (fun block => decide (block.addr = addr)) mgr.allocated with
  | none => (false, mgr)
  | some (block, allocated) =>
      let sorted := (mgr.freeList ++ [block]).insertionSort fun a b => a.addr ≤ b.addr
      let (kept, nextFree) := reclaimTop sorted.reverse mgr.nextFree
      (true, { mgr with allocated, freeList := kept.reverse, nextFree })

/-- Where the live blocks start. -/
def addresses (mgr : MemoryManager) : List Nat := mgr.allocated.map AllocBlock.addr

/-- The calls guest code reaches the manager with. -/
inductive Call where
  | alloc (size : UInt32)
  | free (addr : UInt32)

def exec (mgr : MemoryManager) : Call → MemoryManager
  | .alloc size => ((mgr.alloc size.toNat).map Prod.snd).getD mgr
  | .free addr => (mgr.free addr.toNat).2

def step : Step MemoryManager Call := fun mgr call next => mgr.exec call = next

/-- What every call with a nonzero size keeps: allocated and freed blocks
together tile a part of the space below the bump pointer. -/
structure Layout (base : Nat) (mgr : MemoryManager) : Prop where
  tiled : Tiled base mgr.nextFree (mgr.allocated ++ mgr.freeList)
  low : base ≤ mgr.nextFree
  high : mgr.nextFree = base ∨ mgr.nextFree ≤ mgr.limit
  bounded : mgr.nextFree < u32Size

theorem layout_new (base limit : UInt32) : (new base limit).Layout base.toNat where
  tiled := ⟨by simp [new], by simp [new]⟩
  low := Nat.le_refl _
  high := Or.inl rfl
  bounded := base.toNat_lt

/-- Both ways an allocation succeeds, with the block each one takes. -/
theorem alloc_cases {mgr next : MemoryManager} {size addr : Nat}
    (h : mgr.alloc size = some (addr, next)) :
    ∃ rounded, rounded = (size + 4095) / 4096 * 4096 ∧
      ((∃ block rest, mgr.freeList.Perm (block :: rest) ∧ rounded ≤ block.size ∧
          addr = block.addr ∧ next.allocated = mgr.allocated ++ [⟨addr, rounded⟩] ∧
          next.freeList = (if rounded < block.size then
            rest ++ [⟨wrapAdd block.addr rounded, block.size - rounded⟩] else rest) ∧
          next.nextFree = mgr.nextFree ∧ next.limit = mgr.limit) ∨
        (addr = mgr.nextFree ∧ mgr.nextFree + rounded < u32Size ∧
          mgr.nextFree + rounded ≤ mgr.limit ∧
          next = { mgr with
            allocated := mgr.allocated ++ [⟨addr, rounded⟩]
            nextFree := mgr.nextFree + rounded })) := by
  unfold alloc at h
  obtain ⟨padded, hpadded, h⟩ := Option.bind_eq_some_iff.mp h
  obtain ⟨rfl, _⟩ := checkedAdd_eq_some hpadded
  refine ⟨_, rfl, ?_⟩
  dsimp only at h
  split at h
  · rename_i block rest htake
    obtain ⟨rfl, rfl⟩ := Prod.mk.inj (Option.some.inj h)
    refine Or.inl ⟨block, rest, takeFirst_perm htake, ?_, rfl, rfl, rfl, rfl, rfl⟩
    simpa using takeFirst_test htake
  · obtain ⟨stop, hstop, h⟩ := Option.bind_eq_some_iff.mp h
    obtain ⟨rfl, hsmall⟩ := checkedAdd_eq_some hstop
    split at h
    · cases h
    · rename_i fits
      obtain ⟨rfl, rfl⟩ := Prod.mk.inj (Option.some.inj h)
      exact Or.inr ⟨rfl, hsmall, Nat.le_of_not_lt fits, rfl⟩

theorem layout_alloc {base : Nat} {mgr next : MemoryManager} {size addr : Nat}
    (layout : mgr.Layout base) (nonzero : size ≠ 0) (h : mgr.alloc size = some (addr, next)) :
    next.Layout base ∧ next.limit = mgr.limit := by
  obtain ⟨rounded, hrounded, reuse | bump⟩ := alloc_cases h
  · obtain ⟨block, rest, hperm, hfits, rfl, hallocated, hfree, hnext, hlimit⟩ := reuse
    have hpositive : 0 < rounded := by omega
    have hblocks : Tiled base mgr.nextFree (block :: (mgr.allocated ++ rest)) :=
      layout.tiled.perm ((hperm.append_left _).trans List.perm_middle)
    have hinside := (hblocks.placed block List.mem_cons_self).2.2
    have hbounded := layout.bounded
    refine ⟨⟨?_, by rw [hnext]; exact layout.low, by rw [hnext, hlimit]; exact layout.high,
      by rw [hnext]; exact hbounded⟩, hlimit⟩
    rw [hallocated, hfree, hnext]
    split
    · rename_i hsplit
      have hwrap : wrapAdd block.addr rounded = block.addr + rounded :=
        Nat.mod_eq_of_lt (by omega)
      rw [hwrap]
      apply (hblocks.cut hpositive hsplit).perm
      simp only [List.append_assoc, List.singleton_append]
      refine List.Perm.trans ?_ List.perm_middle.symm
      refine List.Perm.cons _ ?_
      rw [← List.append_assoc]
      exact (List.perm_append_singleton _ _).symm
    · rename_i hwhole
      have hsame : (⟨block.addr, rounded⟩ : AllocBlock) = block := by
        cases block
        simp only [AllocBlock.mk.injEq, true_and]
        dsimp only at hfits hwhole
        omega
      rw [hsame, List.append_assoc, List.singleton_append]
      exact hblocks.perm List.perm_middle.symm
  · obtain ⟨rfl, hsmall, hfits, rfl⟩ := bump
    have hpositive : 0 < rounded := by omega
    refine ⟨⟨?_, ?_, Or.inr hfits, hsmall⟩, rfl⟩
    · apply (layout.tiled.push layout.low hpositive).perm
      simp only [List.append_assoc, List.singleton_append]
      exact List.perm_middle.symm
    · have := layout.low
      dsimp only
      omega

/-- The coalescing loop only returns blocks that end at the bump pointer. -/
theorem reclaimTop_tiled {base : Nat} {allocated : List AllocBlock} :
    ∀ (reversed : List AllocBlock) {nextFree : Nat}, nextFree < u32Size → base ≤ nextFree →
      Tiled base nextFree (allocated ++ reversed) →
      Tiled base (reclaimTop reversed nextFree).2 (allocated ++ (reclaimTop reversed nextFree).1) ∧
        base ≤ (reclaimTop reversed nextFree).2 ∧ (reclaimTop reversed nextFree).2 ≤ nextFree
  | [], nextFree, _, low, tiled => ⟨tiled, low, Nat.le_refl _⟩
  | last :: init, nextFree, bounded, low, tiled => by
      have hcons : Tiled base nextFree (last :: (allocated ++ init)) :=
        tiled.perm List.perm_middle
      obtain ⟨_, hlow, hhigh⟩ := hcons.placed last List.mem_cons_self
      unfold reclaimTop
      split
      · rename_i hend
        have hsum : last.addr + last.size = nextFree := by
          rwa [wrapAdd, Nat.mod_eq_of_lt (by omega)] at hend
        obtain ⟨htiled, hbase, hle⟩ :=
          reclaimTop_tiled init (by omega) hlow (hcons.pop hsum)
        exact ⟨htiled, hbase, by omega⟩
      · exact ⟨tiled, low, Nat.le_refl _⟩

theorem layout_free {base : Nat} {mgr : MemoryManager} (addr : Nat) (layout : mgr.Layout base) :
    (mgr.free addr).2.Layout base ∧ (mgr.free addr).2.limit = mgr.limit := by
  unfold free
  split
  · exact ⟨layout, rfl⟩
  · rename_i block allocated htake
    have hsorted : Tiled base mgr.nextFree (allocated ++ ((mgr.freeList ++ [block]).insertionSort
        fun a b => a.addr ≤ b.addr).reverse) := by
      apply layout.tiled.perm
      calc (mgr.allocated ++ mgr.freeList).Perm (block :: allocated ++ mgr.freeList) :=
            (takeFirst_perm htake).append_right _
        _ |>.Perm (allocated ++ (mgr.freeList ++ [block])) := by
            rw [List.cons_append, ← List.append_assoc]
            exact (List.perm_append_singleton _ _).symm
        _ |>.Perm (allocated ++ ((mgr.freeList ++ [block]).insertionSort
              fun a b => a.addr ≤ b.addr).reverse) :=
            ((List.perm_insertionSort _ _).symm.trans (List.reverse_perm _).symm).append_left _
    obtain ⟨htiled, hbase, hle⟩ :=
      reclaimTop_tiled _ layout.bounded layout.low hsorted
    have hbounded := layout.bounded
    refine ⟨⟨htiled.perm ((List.reverse_perm _).symm.append_left _), hbase, ?_, ?_⟩, rfl⟩
    · have hhigh := layout.high
      dsimp only
      omega
    · dsimp only
      omega

/-- What the guest relies on: live blocks lie in `[base, limit)`, share no
address with each other or with freed space, and are never handed out again. -/
structure Sound (base limit : Nat) (mgr : MemoryManager) : Prop where
  disjoint : mgr.allocated.Pairwise fun a b => Apart a.addr a.size b.addr b.size
  distinct : (mgr.allocated.map AllocBlock.addr).Nodup
  inside : ∀ block ∈ mgr.allocated,
    base ≤ block.addr ∧ block.addr < limit ∧ block.addr + block.size ≤ limit
  unfreed : ∀ block ∈ mgr.allocated, ∀ freed ∈ mgr.freeList,
    Apart block.addr block.size freed.addr freed.size
  fresh : ∀ (size : UInt32) addr next, mgr.alloc size.toNat = some (addr, next) →
    ∀ block ∈ mgr.allocated, block.addr ≠ addr

theorem Layout.distinct {base : Nat} {mgr : MemoryManager} (layout : mgr.Layout base) :
    (mgr.allocated.map AllocBlock.addr).Nodup := by
  have htiled := layout.tiled.append_left
  refine List.pairwise_map.mpr ?_
  refine List.Pairwise.imp_of_mem ?_ htiled.apart
  intro a b ha hb hapart
  exact hapart.start_ne (htiled.placed a ha).1 (htiled.placed b hb).1

theorem Layout.fresh {base : Nat} {mgr next : MemoryManager} {size addr : Nat}
    (layout : mgr.Layout base) (h : mgr.alloc size = some (addr, next)) :
    ∀ block ∈ mgr.allocated, block.addr ≠ addr := by
  intro live member
  have hlive := layout.tiled.placed live (List.mem_append_left _ member)
  obtain ⟨rounded, _, reuse | bump⟩ := alloc_cases h
  · obtain ⟨block, rest, hperm, _, rfl, _⟩ := reuse
    have hblock : block ∈ mgr.freeList := hperm.mem_iff.mpr List.mem_cons_self
    exact ((List.pairwise_append.mp layout.tiled.apart).2.2 live member block hblock).start_ne
      hlive.1 (layout.tiled.placed block (List.mem_append_right _ hblock)).1
  · obtain ⟨rfl, _⟩ := bump
    omega

/-- Memory that will not be handed out: below the base, or in a live block. -/
def Held (base : Nat) (mgr : MemoryManager) (addr len : Nat) : Prop :=
  addr + len ≤ base ∨
    ∃ block ∈ mgr.allocated, block.addr ≤ addr ∧ addr + len ≤ block.addr + block.size

instance (base : Nat) (mgr : MemoryManager) (addr len : Nat) : Decidable (Held base mgr addr len) :=
  inferInstanceAs (Decidable (_ ∨ _))

theorem Layout.alloc_apart {base : Nat} {mgr next : MemoryManager} {size addr other len : Nat}
    (layout : mgr.Layout base) (h : mgr.alloc size = some (addr, next))
    (held : mgr.Held base other len) : Apart addr size other len := by
  have hlow := layout.low
  obtain ⟨rounded, hrounded, ⟨block, rest, hperm, hfits, rfl, _⟩ | ⟨rfl, _⟩⟩ := alloc_cases h
  · have hblock : block ∈ mgr.freeList := hperm.mem_iff.mpr List.mem_cons_self
    have hplaced := layout.tiled.placed block (List.mem_append_right _ hblock)
    rcases held with below | ⟨live, member, hstart, hstop⟩
    · exact .inr (by omega)
    · have hapart := (List.pairwise_append.mp layout.tiled.apart).2.2 live member block hblock
      exact (hapart.shrink hstart hstop).symm.shrink (Nat.le_refl _) (by omega)
  · rcases held with below | ⟨live, member, hstart, hstop⟩
    · exact .inr (by omega)
    · have hplaced := layout.tiled.placed live (List.mem_append_left _ member)
      exact .inr (by omega)

theorem alloc_allocated {mgr next : MemoryManager} {size addr : Nat}
    (h : mgr.alloc size = some (addr, next)) :
    ∃ rounded, size ≤ rounded ∧ next.allocated = mgr.allocated ++ [⟨addr, rounded⟩] := by
  obtain ⟨rounded, hrounded, ⟨_, _, _, _, _, hallocated, _⟩ | ⟨_, _, _, rfl⟩⟩ := alloc_cases h
  · exact ⟨rounded, by omega, hallocated⟩
  · exact ⟨rounded, by omega, rfl⟩

theorem Held.alloc {base : Nat} {mgr next : MemoryManager} {size addr other len : Nat}
    (held : mgr.Held base other len) (h : mgr.alloc size = some (addr, next)) :
    next.Held base other len := by
  obtain ⟨rounded, _, hallocated⟩ := alloc_allocated h
  rcases held with below | ⟨live, member, inside⟩
  · exact .inl below
  · exact .inr ⟨live, hallocated ▸ List.mem_append_left _ member, inside⟩

theorem Held.shrink {base : Nat} {mgr : MemoryManager} {addr len low n : Nat}
    (held : mgr.Held base addr len) (start : addr ≤ low) (stop : low + n ≤ addr + len) :
    mgr.Held base low n := by
  rcases held with below | ⟨live, member, first, last⟩
  · exact .inl (by omega)
  · exact .inr ⟨live, member, by omega, by omega⟩

theorem held_alloc {base : Nat} {mgr next : MemoryManager} {size addr : Nat}
    (h : mgr.alloc size = some (addr, next)) : next.Held base addr size := by
  obtain ⟨rounded, hsize, hallocated⟩ := alloc_allocated h
  exact .inr ⟨⟨addr, rounded⟩, by simp [hallocated], Nat.le_refl _, Nat.add_le_add_left hsize _⟩

theorem alloc_addresses {mgr next : MemoryManager} {size addr : Nat}
    (h : mgr.alloc size = some (addr, next)) : next.addresses = mgr.addresses ++ [addr] := by
  unfold addresses
  obtain ⟨rounded, _, ⟨block, rest, _, _, _, hallocated, _⟩ | ⟨_, _, _, rfl⟩⟩ := alloc_cases h
  · rw [hallocated, List.map_append]
    rfl
  · rw [List.map_append]
    rfl

/-- A free takes the first block at its address away. -/
theorem free_addresses (mgr : MemoryManager) (addr : Nat) :
    (mgr.free addr).2.addresses = mgr.addresses.erase addr := by
  unfold free
  split
  · rename_i htake
    refine (List.erase_of_not_mem fun member => ?_).symm
    obtain ⟨block, hblock, rfl⟩ := List.mem_map.mp member
    exact takeFirst_none htake block hblock (decide_eq_true rfl)
  · rename_i block allocated htake
    obtain ⟨before, after, hlist, hrest, hfound, hbefore⟩ := takeFirst_split htake
    have hblock : block.addr = addr := by simpa using hfound
    have absent : addr ∉ before.map AllocBlock.addr := by
      intro member
      obtain ⟨other, hother, same⟩ := List.mem_map.mp member
      simpa [same] using hbefore other hother
    unfold addresses
    dsimp only
    rw [hlist, hrest, List.map_append, List.map_append, List.map_cons,
      List.erase_append_right _ absent, hblock, List.erase_cons_head]

/-- Freeing one address leaves every other one. -/
theorem mem_free_addresses {mgr : MemoryManager} {addr other : Nat} (hne : other ≠ addr)
    (h : other ∈ mgr.addresses) : other ∈ (mgr.free addr).2.addresses := by
  unfold free
  split
  · exact h
  · rename_i block allocated htake
    have hblock : block.addr = addr := by simpa using takeFirst_test htake
    have hperm : mgr.addresses.Perm (block.addr :: allocated.map AllocBlock.addr) :=
      (takeFirst_perm htake).map AllocBlock.addr
    rcases List.mem_cons.mp (hperm.mem_iff.mp h) with hsame | hrest
    · exact absurd (hsame.trans hblock) hne
    · exact hrest

theorem Layout.sound {base : Nat} {mgr : MemoryManager} (layout : mgr.Layout base) :
    mgr.Sound base mgr.limit where
  disjoint := layout.tiled.append_left.apart
  distinct := layout.distinct
  inside := by
    intro block member
    obtain ⟨hpositive, hlow, hhigh⟩ := layout.tiled.placed block (List.mem_append_left _ member)
    rcases layout.high with hempty | hlimit <;> omega
  unfreed := fun block member freed hfreed =>
    (List.pairwise_append.mp layout.tiled.apart).2.2 block member freed hfreed
  fresh := fun _ _ _ h => layout.fresh h

/-- The guest asks for at least one byte. -/
def Call.nonzero : Call → Bool
  | .alloc size => size != 0
  | .free _ => true

theorem layout_exec {base : Nat} {mgr : MemoryManager} {call : Call} (layout : mgr.Layout base)
    (nonzero : call.nonzero) : (mgr.exec call).Layout base ∧ (mgr.exec call).limit = mgr.limit := by
  cases call with
  | alloc size =>
    have hexec : mgr.exec (.alloc size) = ((mgr.alloc size.toNat).map Prod.snd).getD mgr := rfl
    rw [hexec]
    cases h : mgr.alloc size.toNat with
    | none => exact ⟨layout, rfl⟩
    | some result =>
      have hsize : size.toNat ≠ 0 := by
        intro hzero
        have : size = 0 := UInt32.toNat_inj.mp hzero
        simp [Call.nonzero, this] at nonzero
      exact layout_alloc layout hsize h
  | free addr => exact layout_free addr.toNat layout

/-- A zero-size block keeps its address available, so it breaks every part of
this: over runs that never ask for zero bytes the manager is sound. -/
theorem nonzero_run_sound (base limit : UInt32) (calls : List Call) (mgr : MemoryManager)
    (run : Run (step.guarded fun _ call => call.nonzero) (new base limit) calls mgr) :
    mgr.Sound base.toNat limit.toNat := by
  have hlayout : mgr.Layout base.toNat ∧ mgr.limit = limit.toNat := by
    refine run.invariant (fun mgr => mgr.Layout base.toNat ∧ mgr.limit = limit.toNat) ?_
      ⟨layout_new base limit, rfl⟩
    rintro start call finish ⟨hlayout, hlimit⟩ ⟨hnonzero, rfl⟩
    obtain ⟨hnext, hsame⟩ := layout_exec hlayout hnonzero
    exact ⟨hnext, hsame.trans hlimit⟩
  rw [← hlayout.2]
  exact hlayout.1.sound

theorem nonzero_run_sound_reuse :
    ((((new 0x1000 0x10000).exec (.alloc 5000)).exec (.alloc 1)).exec (.free 0x1000)).Sound
      0x1000 0x10000 :=
  nonzero_run_sound 0x1000 0x10000 [.alloc 5000, .alloc 1, .free 0x1000] _
    (.cons ⟨rfl, rfl⟩ (.cons ⟨rfl, rfl⟩ (.cons ⟨rfl, rfl⟩ (.nil _))))

/-- Two allocations of zero bytes return the same address. -/
theorem zero_run_collides :
    ¬ ∀ (base limit : UInt32) (calls : List Call) (mgr : MemoryManager),
      base.toNat % 4096 = 0 → base ≤ limit → Run step (new base limit) calls mgr →
        mgr.Sound base.toNat limit.toNat := by
  intro claim
  have hsound := claim 0x1000 0x10000 [.alloc 0, .alloc 0] _ (by decide) (by decide)
    (.cons rfl (.cons rfl (.nil _)))
  exact absurd hsound.distinct (by decide)

/-- What every call keeps, whatever it asks for: nothing is placed outside the space. -/
structure Within (base limit : Nat) (mgr : MemoryManager) : Prop where
  low : base ≤ mgr.nextFree
  high : mgr.nextFree ≤ limit
  same : mgr.limit = limit
  blocks : ∀ block ∈ mgr.allocated ++ mgr.freeList,
    base ≤ block.addr ∧ block.addr + block.size ≤ limit

theorem within_alloc {base limit : Nat} {mgr next : MemoryManager} {size addr : Nat}
    (word : limit < u32Size) (within : mgr.Within base limit)
    (h : mgr.alloc size = some (addr, next)) : next.Within base limit := by
  obtain ⟨low, high, same, blocks⟩ := within
  obtain ⟨rounded, -, reuse | ⟨rfl, -, fits, rfl⟩⟩ := alloc_cases h
  · obtain ⟨block, rest, hperm, hfits, rfl, hallocated, hfree, hnext, hlimit⟩ := reuse
    have inside := blocks block (List.mem_append_right _ (hperm.mem_iff.mpr List.mem_cons_self))
    have kept : ∀ other ∈ mgr.allocated ++ rest,
        base ≤ other.addr ∧ other.addr + other.size ≤ limit := by
      intro other member
      rcases List.mem_append.mp member with old | free
      · exact blocks other (List.mem_append_left _ old)
      · exact blocks other (List.mem_append_right _
          (hperm.mem_iff.mpr (List.mem_cons_of_mem _ free)))
    refine ⟨hnext ▸ low, hnext ▸ high, hlimit.trans same, ?_⟩
    intro other member
    rw [hallocated, hfree] at member
    rcases List.mem_append.mp member with live | free
    · rcases List.mem_append.mp live with old | new
      · exact kept other (List.mem_append_left _ old)
      · rw [List.mem_singleton.mp new]
        dsimp only
        omega
    · split at free
      · rcases List.mem_append.mp free with old | new
        · exact kept other (List.mem_append_right _ old)
        · have wrap : wrapAdd block.addr rounded = block.addr + rounded :=
            Nat.mod_eq_of_lt (by omega)
          rw [List.mem_singleton.mp new, wrap]
          dsimp only
          omega
      · exact kept other (List.mem_append_right _ free)
  · refine ⟨by dsimp only; omega, same ▸ fits, same, ?_⟩
    intro other member
    rcases List.mem_append.mp member with live | free
    · rcases List.mem_append.mp live with old | new
      · exact blocks other (List.mem_append_left _ old)
      · rw [List.mem_singleton.mp new]
        dsimp only
        omega
    · exact blocks other (List.mem_append_right _ free)

theorem reclaimTop_within {base limit : Nat} : ∀ (reversed : List AllocBlock) {nextFree : Nat},
    base ≤ nextFree → nextFree ≤ limit →
      (∀ block ∈ reversed, base ≤ block.addr ∧ block.addr + block.size ≤ limit) →
        (∀ block ∈ (reclaimTop reversed nextFree).1, block ∈ reversed) ∧
          base ≤ (reclaimTop reversed nextFree).2 ∧ (reclaimTop reversed nextFree).2 ≤ limit
  | [], nextFree, low, high, _ => ⟨fun _ member => member, low, high⟩
  | last :: init, nextFree, low, high, blocks => by
      obtain ⟨first, rest⟩ := List.forall_mem_cons.mp blocks
      unfold reclaimTop
      split
      · obtain ⟨kept, bounds⟩ := reclaimTop_within init first.1 (by omega) rest
        exact ⟨fun block member => List.mem_cons_of_mem _ (kept block member), bounds⟩
      · exact ⟨fun _ member => member, low, high⟩

theorem within_free {base limit : Nat} {mgr : MemoryManager} (addr : Nat)
    (within : mgr.Within base limit) : (mgr.free addr).2.Within base limit := by
  unfold free
  split
  · exact within
  · rename_i block allocated htake
    obtain ⟨low, high, same, blocks⟩ := within
    have hperm := takeFirst_perm htake
    have sorted : ∀ other ∈ ((mgr.freeList ++ [block]).insertionSort
        fun a b => a.addr ≤ b.addr).reverse, base ≤ other.addr ∧ other.addr + other.size ≤ limit := by
      intro other member
      rw [List.mem_reverse, List.mem_insertionSort] at member
      rcases List.mem_append.mp member with free | new
      · exact blocks other (List.mem_append_right _ free)
      · rw [List.mem_singleton.mp new]
        exact blocks block (List.mem_append_left _ (hperm.mem_iff.mpr List.mem_cons_self))
    obtain ⟨kept, nextLow, nextHigh⟩ := reclaimTop_within _ low high sorted
    refine ⟨nextLow, nextHigh, same, ?_⟩
    intro other member
    rcases List.mem_append.mp member with live | free
    · exact blocks other (List.mem_append_left _
        (hperm.mem_iff.mpr (List.mem_cons_of_mem _ live)))
    · exact sorted other (kept other (List.mem_reverse.mp free))

theorem within_exec {base limit : Nat} {mgr : MemoryManager} (call : Call)
    (word : limit < u32Size) (within : mgr.Within base limit) :
    (mgr.exec call).Within base limit := by
  cases call with
  | alloc size =>
    change (((mgr.alloc size.toNat).map Prod.snd).getD mgr).Within base limit
    cases h : mgr.alloc size.toNat with
    | none => exact within
    | some result => exact within_alloc word within h
  | free addr => exact within_free addr.toNat within

/-- A block that some run of calls ends in getting. -/
def Returned (mgr : MemoryManager) (block : AllocBlock) : Prop :=
  ∃ (calls : List Call) (later : MemoryManager) (size : UInt32) (next : MemoryManager),
    Run step mgr calls later ∧ later.alloc size.toNat = some (block.addr, next) ∧
      next.allocated = later.allocated ++ [block]

/-- Over every run, blocks come only from the manager's own space. -/
theorem returned_within {base limit : Nat} {mgr : MemoryManager} {block : AllocBlock}
    (word : limit < u32Size) (within : mgr.Within base limit) (returned : mgr.Returned block) :
    base ≤ block.addr ∧ block.addr + block.size ≤ limit := by
  obtain ⟨calls, later, size, next, run, alloc, placed⟩ := returned
  have kept : later.Within base limit := by
    apply run.invariant (fun mgr => mgr.Within base limit) _ within
    rintro start call finish before rfl
    exact within_exec call word before
  apply (within_alloc word kept alloc).blocks
  rw [placed, List.append_assoc]
  exact List.mem_append_right _ List.mem_cons_self

end MemoryManager
end Warpine.Loader
