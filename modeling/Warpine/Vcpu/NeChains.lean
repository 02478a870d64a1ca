import Mathlib.Data.Finite.Prod
import Mathlib.Data.Fintype.Pi
import Warpine.Lib.Orbit
import Warpine.Vcpu.NeExec

/-! The chains of a 16-bit executable's relocations. The links are read from the words that
are patched, and nothing but the links themselves ends a chain. -/
namespace Warpine.Vcpu
open Warpine.Lib Warpine.Guest Warpine.Ne Warpine.Loader

section Chains

/-- What patching one place makes of guest memory. -/
def patched (sourceType : Nat) (target : Nat × Nat) (mem : GuestMemory) (patchAddr : Nat) :
    GuestMemory := (patch sourceType target mem patchAddr).getD mem

/-- The chain of a relocation from an offset on comes to an end. Its links are read as the
places before have left them. -/
inductive Chain (reloc : NeRelocationEntry) (target : Nat × Nat) (base : Nat) :
    Nat → GuestMemory → GuestMemory → Prop where
  | last {offset : Nat} {mem : GuestMemory} (ends : nextOffset reloc mem (base + offset) = 0xFFFF) :
      Chain reloc target base offset mem (patched reloc.sourceType target mem (base + offset))
  | next {offset : Nat} {mem after : GuestMemory}
      (goes : nextOffset reloc mem (base + offset) ≠ 0xFFFF)
      (rest : Chain reloc target base (nextOffset reloc mem (base + offset))
        (patched reloc.sourceType target mem (base + offset)) after) :
      Chain reloc target base offset mem after

variable {reloc : NeRelocationEntry} {target : Nat × Nat} {base offset fuel : Nat}
  {mem after : GuestMemory}

theorem patch_eq {sourceType patchAddr : Nat} (low : patchAddr + 2 < 2 ^ 32) :
    patch sourceType target mem patchAddr = some (patched sourceType target mem patchAddr) := by
  have second : addWord 32 patchAddr 2 = some (patchAddr + 2) := if_pos low
  have known : (patch sourceType target mem patchAddr).isSome := by
    unfold patch
    rw [second]
    split
    · rfl
    split
    · rfl
    split
    · rfl
    split <;> rfl
  obtain ⟨next, found⟩ := Option.isSome_iff_exists.mp known
  rw [patched, found, Option.getD_some]

/-- A link is a word. -/
theorem nextOffset_lt (patchAddr : Nat) : nextOffset reloc mem patchAddr < 2 ^ 16 := by
  unfold nextOffset
  split
  · decide
  · cases found : mem.read 2 patchAddr with
    | none => exact show 0xFFFF < 2 ^ 16 by decide
    | some value => exact GuestMemory.read_lt found

theorem followChain_succ (low : base + 0x10002 ≤ 2 ^ 32) (small : offset < 2 ^ 16) :
    followChain reloc target base (fuel + 1) offset mem =
      if nextOffset reloc mem (base + offset) = 0xFFFF then
        some (patched reloc.sourceType target mem (base + offset))
      else followChain reloc target base fuel (nextOffset reloc mem (base + offset))
        (patched reloc.sourceType target mem (base + offset)) := by
  have place : addWord 32 base offset = some (base + offset) := if_pos (by omega)
  have fits := @patch_eq target mem reloc.sourceType (base + offset) (by omega)
  rw [followChain, place]
  simp only [Option.bind_eq_bind, Option.bind_some, fits, Option.pure_def]

theorem followChain_mono (low : base + 0x10002 ≤ 2 ^ 32) {more : Nat} (le : fuel ≤ more)
    (small : offset < 2 ^ 16) (h : followChain reloc target base fuel offset mem = some after) :
    followChain reloc target base more offset mem = some after := by
  induction fuel generalizing more offset mem with
  | zero => cases h
  | succ fuel ih =>
    obtain ⟨more, rfl⟩ : ∃ rest, more = rest + 1 := ⟨more - 1, by omega⟩
    rw [followChain_succ low small] at h ⊢
    split at h
    · rename_i ends
      rw [if_pos ends]
      exact h
    · rename_i goes
      rw [if_neg goes]
      exact ih (by omega) (nextOffset_lt _) h

/-- The loop along a chain ends just when the chain does. -/
theorem followChain_iff (low : base + 0x10002 ≤ 2 ^ 32) (small : offset < 2 ^ 16) :
    (∃ fuel, followChain reloc target base fuel offset mem = some after) ↔
      Chain reloc target base offset mem after := by
  constructor
  · rintro ⟨fuel, h⟩
    induction fuel generalizing offset mem with
    | zero => cases h
    | succ fuel ih =>
      rw [followChain_succ low small] at h
      split at h
      · rename_i ends
        cases h
        exact .last ends
      · rename_i goes
        exact .next goes (ih (nextOffset_lt _) h)
  · intro chain
    induction chain with
    | last ends => exact ⟨1, by rw [followChain_succ low small, if_pos ends]⟩
    | next goes _ ih =>
      obtain ⟨fuel, h⟩ := ih (nextOffset_lt _)
      exact ⟨fuel + 1, by rw [followChain_succ low small, if_neg goes, h]⟩

theorem patched_size (sourceType : Nat) (target : Nat × Nat) (mem : GuestMemory)
    (patchAddr : Nat) : (patched sourceType target mem patchAddr).size = mem.size := by
  have kept : ∀ next ∈ patch sourceType target mem patchAddr, next.size = mem.size := by
    intro next h
    unfold patch at h
    split at h
    · obtain ⟨_, _, h⟩ := Option.bind_eq_some_iff.mp h
      cases h
      rw [GuestMemory.put, GuestMemory.putBytes_size, GuestMemory.put, GuestMemory.putBytes_size]
    split at h
    · cases h
      exact GuestMemory.putBytes_size mem
    split at h
    · cases h
      exact GuestMemory.putBytes_size mem
    split at h
    · cases h
      exact GuestMemory.putBytes_size mem
    · cases h
      rfl
  unfold patched
  cases found : patch sourceType target mem patchAddr with
  | none => rfl
  | some next => exact kept next found

theorem Chain.size (chain : Chain reloc target base offset mem after) : after.size = mem.size := by
  induction chain with
  | last => exact patched_size ..
  | next _ _ ih => exact ih.trans (patched_size ..)

end Chains

section Fields

/-- How many bytes a relocation patches at a place. -/
def fieldWidth (sourceType : Nat) : Nat :=
  if sourceType = relocFarPointer then 4
  else if sourceType = relocSelector then 2
  else if sourceType = relocOffset then 2
  else if sourceType = relocLobyte then 1
  else 0

/-- What it patches there. A far pointer has its offset first. -/
def fieldValue (sourceType : Nat) (target : Nat × Nat) : Nat :=
  if sourceType = relocFarPointer then target.1 % 2 ^ 16 + 2 ^ 16 * target.2
  else if sourceType = relocSelector then target.2
  else target.1

variable {sourceType base offset : Nat} {target : Nat × Nat} {mem : GuestMemory}

theorem fieldWidth_le (sourceType : Nat) : fieldWidth sourceType ≤ 4 := by
  unfold fieldWidth
  repeat' split
  all_goals omega

theorem low_of_room (room : base + 0x10003 ≤ guestMemSize) : base + 0x10002 ≤ 2 ^ 32 := by
  unfold guestMemSize at room
  omega

/-- All places of a segment lie in guest memory, whatever their offset. -/
theorem inBounds_place (room : base + 0x10003 ≤ guestMemSize) (size : mem.size = guestMemSize)
    (small : offset < 2 ^ 16) {width : Nat} (narrow : width ≤ 4) :
    mem.inBounds (base + offset) width := by
  rw [GuestMemory.inBounds, size, decide_eq_true_eq]
  omega

theorem patched_eq_put (room : base + 0x10003 ≤ guestMemSize) (size : mem.size = guestMemSize)
    (small : offset < 2 ^ 16) : patched sourceType target mem (base + offset) =
      mem.put (fieldWidth sourceType) (base + offset) (fieldValue sourceType target) := by
  have low : base + offset + 2 < 2 ^ 32 := by
    unfold guestMemSize at room
    omega
  have second : addWord 32 (base + offset) 2 = some (base + offset + 2) := if_pos low
  have fits : mem.inBounds (base + offset) (leBytes 2 target.1 ++ leBytes 2 target.2).length :=
    inBounds_place room size small (by simp)
  have pair : (mem.put 2 (base + offset) target.1).put 2 (base + offset + 2) target.2 =
      mem.put 4 (base + offset) (target.1 % 2 ^ 16 + 2 ^ 16 * target.2) := by
    have sides := @GuestMemory.putAll_sideBySide mem (base + offset)
      [leBytes 2 target.1, leBytes 2 target.2] (by simpa using fits)
    have bytes : leBytes 4 (target.1 % 2 ^ 16 + 2 ^ 16 * target.2) =
        leBytes 2 target.1 ++ leBytes 2 target.2 := leBytes_append 2 2 target.1 target.2
    have whole : mem.put 4 (base + offset) (target.1 % 2 ^ 16 + 2 ^ 16 * target.2) =
        mem.putBytes (base + offset) (leBytes 2 target.1 ++ leBytes 2 target.2) :=
      congrArg (mem.putBytes (base + offset)) bytes
    rw [whole]
    simpa [GuestMemory.putAll, ByteStore.sideBySide, GuestMemory.put] using sides
  have nothing : mem.put 0 (base + offset) target.1 = mem := by
    have empty : mem.inBounds (base + offset) (leBytes 0 target.1).length :=
      inBounds_place room size small (Nat.zero_le 4)
    rw [GuestMemory.put, GuestMemory.putBytes_of_inBounds mem empty, leBytes, ByteStore.store_nil]
  unfold patched patch fieldWidth fieldValue
  split
  · simp only [second, Option.bind_eq_bind, Option.bind_some, Option.pure_def, Option.getD_some]
    exact pair
  split
  · rfl
  split
  · rfl
  split
  · rfl
  · exact nothing.symm

theorem patched_bytes (room : base + 0x10003 ≤ guestMemSize) (size : mem.size = guestMemSize)
    (small : offset < 2 ^ 16) : (patched sourceType target mem (base + offset)).bytes =
      mem.bytes.store (base + offset)
        (leBytes (fieldWidth sourceType) (fieldValue sourceType target)) := by
  have fits : mem.inBounds (base + offset)
      (leBytes (fieldWidth sourceType) (fieldValue sourceType target)).length := by
    rw [leBytes_length]
    exact inBounds_place room size small (fieldWidth_le sourceType)
  rw [patched_eq_put room size small, GuestMemory.put, GuestMemory.putBytes_of_inBounds mem fits]

end Fields

section Links

/-- The word that a place holds. -/
def linkAt (mem : GuestMemory) (base offset : Nat) : Nat :=
  (mem.read 2 (base + offset)).getD 0xFFFF

variable {base offset other : Nat} {sourceType : Nat} {target : Nat × Nat} {mem : GuestMemory}

theorem nextOffset_eq {reloc : NeRelocationEntry} (single : reloc.isAdditive = false) :
    nextOffset reloc mem (base + offset) = linkAt mem base offset := by
  rw [nextOffset, single]
  rfl

theorem linkAt_eq (room : base + 0x10003 ≤ guestMemSize) (size : mem.size = guestMemSize)
    (small : offset < 2 ^ 16) : linkAt mem base offset =
      (mem.bytes (base + offset)).toNat + 256 * (mem.bytes (base + offset + 1)).toNat := by
  have fits : mem.inBounds (base + offset) 2 := inBounds_place room size small (by omega)
  rw [linkAt, GuestMemory.read, GuestMemory.slice, if_pos fits]
  rfl

/-- The field that is patched at a place keeps clear of the link and the field at another. -/
def KeepsClear (sourceType base offset other : Nat) : Prop :=
  Apart (base + offset) (fieldWidth sourceType) (base + other) (max 2 (fieldWidth sourceType))

instance (sourceType base offset other : Nat) : Decidable (KeepsClear sourceType base offset other) :=
  inferInstanceAs (Decidable (Apart ..))

theorem read_patched_clear (room : base + 0x10003 ≤ guestMemSize)
    (size : mem.size = guestMemSize) (small : offset < 2 ^ 16)
    (clear : KeepsClear sourceType base offset other) :
    (patched sourceType target mem (base + offset)).read 2 (base + other) =
      mem.read 2 (base + other) := by
  have apart : Apart (base + offset) (fieldWidth sourceType) (base + other) 2 :=
    (clear.symm.shrink (Nat.le_refl _) (by omega)).symm
  rw [patched_eq_put room size small, GuestMemory.read, GuestMemory.slice_put_apart apart]
  rfl

theorem linkAt_patched_clear (room : base + 0x10003 ≤ guestMemSize)
    (size : mem.size = guestMemSize) (small : offset < 2 ^ 16)
    (clear : KeepsClear sourceType base offset other) :
    linkAt (patched sourceType target mem (base + offset)) base other = linkAt mem base other := by
  rw [linkAt, read_patched_clear room size small clear, linkAt]

/-- The word that a patched place holds, where the field is no smaller than a word. -/
def writtenLink (sourceType : Nat) (target : Nat × Nat) : Option Nat :=
  if sourceType = relocSelector then some target.2
  else if sourceType = relocFarPointer ∨ sourceType = relocOffset then some target.1
  else none

theorem writtenLink_eq {link : Nat} (words : target.1 < 2 ^ 16 ∧ target.2 < 2 ^ 16)
    (written : writtenLink sourceType target = some link) :
    2 ≤ fieldWidth sourceType ∧ fieldValue sourceType target % 2 ^ 16 = link := by
  unfold writtenLink at written
  split at written
  · rename_i selector
    subst selector
    cases written
    exact ⟨by decide, Nat.mod_eq_of_lt words.2⟩
  split at written
  · rename_i field
    cases written
    rcases field with rfl | rfl
    · have low : (target.1 % 2 ^ 16 + 2 ^ 16 * target.2) % 2 ^ 16 = target.1 := by omega
      exact ⟨by decide, low⟩
    · exact ⟨by decide, Nat.mod_eq_of_lt words.1⟩
  · contradiction

theorem writtenLink_lt {link : Nat} (words : target.1 < 2 ^ 16 ∧ target.2 < 2 ^ 16)
    (written : writtenLink sourceType target = some link) : link < 2 ^ 16 := by
  obtain ⟨_, value⟩ := writtenLink_eq words written
  omega

/-- The first two bytes of a field. -/
theorem store_first (bytes : ByteStore) (addr more value : Nat) :
    bytes.store addr (leBytes (more + 1) value) addr = UInt8.ofNat value :=
  @ByteStore.store_inside bytes addr (leBytes (more + 1) value) 0 (by simp)

theorem store_second (bytes : ByteStore) (addr more value : Nat) :
    bytes.store addr (leBytes (more + 2) value) (addr + 1) = UInt8.ofNat (value / 256) :=
  @ByteStore.store_inside bytes addr (leBytes (more + 2) value) 1 (by simp)

theorem linkAt_patched_self {link : Nat} (room : base + 0x10003 ≤ guestMemSize)
    (size : mem.size = guestMemSize) (small : offset < 2 ^ 16)
    (words : target.1 < 2 ^ 16 ∧ target.2 < 2 ^ 16)
    (written : writtenLink sourceType target = some link) :
    linkAt (patched sourceType target mem (base + offset)) base offset = link := by
  obtain ⟨wide, value⟩ := writtenLink_eq words written
  obtain ⟨more, width⟩ := Nat.exists_eq_add_of_le' wide
  have kept : (patched sourceType target mem (base + offset)).size = guestMemSize :=
    (patched_size ..).trans size
  rw [linkAt_eq room kept small, patched_bytes room size small, width, store_first, store_second,
    UInt8.toNat_ofNat', UInt8.toNat_ofNat']
  omega

/-- A chain as a linker writes it: every place holds the offset of the next one. -/
def Links (mem : GuestMemory) (base : Nat) : List Nat → Prop
  | [] => False
  | [last] => mem.read 2 (base + last) = some 0xFFFF
  | offset :: next :: rest =>
      mem.read 2 (base + offset) = some next ∧ next ≠ 0xFFFF ∧ Links mem base (next :: rest)

theorem Links.patched {places : List Nat} (room : base + 0x10003 ≤ guestMemSize)
    (size : mem.size = guestMemSize) (small : offset < 2 ^ 16) (links : Links mem base places)
    (clear : ∀ place ∈ places, KeepsClear sourceType base offset place) :
    Links (patched sourceType target mem (base + offset)) base places := by
  induction places with
  | nil => exact links
  | cons place rest ih =>
    obtain ⟨clearHere, clearLater⟩ := List.forall_mem_cons.mp clear
    have same := @read_patched_clear _ _ _ _ target _ room size small clearHere
    cases rest with
    | nil => exact same.trans links
    | cons next more => exact ⟨same.trans links.1, links.2.1, ih links.2.2 clearLater⟩

/-- The fields that are patched along a chain. -/
def fieldWrites (sourceType : Nat) (target : Nat × Nat) (base : Nat) (places : List Nat) :
    List (Nat × List UInt8) :=
  places.map fun place =>
    (base + place, leBytes (fieldWidth sourceType) (fieldValue sourceType target))

/-- A chain whose places keep out of each other's way ends, and has patched all of them. -/
theorem chain_of_links {reloc : NeRelocationEntry} {places : List Nat}
    (single : reloc.isAdditive = false) (room : base + 0x10003 ≤ guestMemSize)
    (size : mem.size = guestMemSize) (small : offset < 2 ^ 16)
    (links : Links mem base (offset :: places))
    (clear : (offset :: places).Pairwise (KeepsClear reloc.sourceType base)) :
    Chain reloc target base offset mem
      (mem.putAll (fieldWrites reloc.sourceType target base (offset :: places))) := by
  induction places generalizing offset mem with
  | nil =>
    have ends : nextOffset reloc mem (base + offset) = 0xFFFF := by
      change mem.read 2 (base + offset) = some 0xFFFF at links
      rw [nextOffset_eq single, linkAt, links]
      rfl
    have last : mem.putAll (fieldWrites reloc.sourceType target base [offset]) =
        Vcpu.patched reloc.sourceType target mem (base + offset) :=
      (patched_eq_put room size small).symm
    rw [last]
    exact .last ends
  | cons next rest ih =>
    obtain ⟨held, goes, more⟩ := links
    obtain ⟨clearHere, clearLater⟩ := List.pairwise_cons.mp clear
    have link : nextOffset reloc mem (base + offset) = next := by
      rw [nextOffset_eq single, linkAt, held]
      rfl
    have small' : next < 2 ^ 16 := GuestMemory.read_lt held
    have kept := (patched_size reloc.sourceType target mem (base + offset)).trans size
    have chain := ih kept small' (more.patched room size small clearHere) clearLater
    have first : mem.putAll (fieldWrites reloc.sourceType target base (offset :: next :: rest)) =
        (Vcpu.patched reloc.sourceType target mem (base + offset)).putAll
          (fieldWrites reloc.sourceType target base (next :: rest)) := by
      rw [patched_eq_put room size small]
      rfl
    rw [first]
    refine .next (link ▸ goes) ?_
    rw [link]
    exact chain

end Links

section Ends

/-- The loop along a chain gets to its end. -/
def ChainStops (reloc : NeRelocationEntry) (target : Nat × Nat) (base offset : Nat)
    (mem : GuestMemory) : Prop :=
  ∃ fuel after, followChain reloc target base fuel offset mem = some after

/-- One turn of the loop: where it goes on and what it leaves, unless it ends there. -/
def chainStep (reloc : NeRelocationEntry) (target : Nat × Nat) (base : Nat)
    (state : Nat × GuestMemory) : Option (Nat × GuestMemory) :=
  if nextOffset reloc state.2 (base + state.1) = 0xFFFF then none
  else some (nextOffset reloc state.2 (base + state.1),
    patched reloc.sourceType target state.2 (base + state.1))

variable {reloc : NeRelocationEntry} {target : Nat × Nat} {base offset : Nat} {mem : GuestMemory}

theorem chainStops_iff_chain (low : base + 0x10002 ≤ 2 ^ 32) (small : offset < 2 ^ 16) :
    ChainStops reloc target base offset mem ↔ ∃ after, Chain reloc target base offset mem after := by
  unfold ChainStops
  rw [exists_comm]
  simp only [followChain_iff low small]

theorem chain_iff_walk : (∃ after, Chain reloc target base offset mem after) ↔
    ∃ n, walk (chainStep reloc target base) n (offset, mem) = none := by
  constructor
  · rintro ⟨after, chain⟩
    induction chain with
    | last ends => exact ⟨1, if_pos ends⟩
    | next goes _ ih =>
      obtain ⟨n, ends⟩ := ih
      refine ⟨n + 1, ?_⟩
      rw [walk_front, chainStep, if_neg goes]
      exact ends
  · rintro ⟨n, ends⟩
    induction n generalizing offset mem with
    | zero => contradiction
    | succ n ih =>
      rw [walk_front, chainStep] at ends
      split at ends
      · rename_i last
        exact ⟨_, .last last⟩
      · rename_i goes
        obtain ⟨after, chain⟩ := ih ends
        exact ⟨after, .next goes chain⟩

/-- The offsets and memories that a chain in one segment can come to. -/
def Confined (base : Nat) (mem : GuestMemory) : Set (Nat × GuestMemory) :=
  {state | state.1 < 2 ^ 16 ∧ state.2.size = mem.size ∧
    ∀ addr, addr < base ∨ base + 0x10003 ≤ addr → state.2.bytes addr = mem.bytes addr}

/-- What of a state can change: the offset, and the bytes that a field can reach. -/
def view (base : Nat) (state : Nat × GuestMemory) : Fin (2 ^ 16) × (Fin 0x10003 → Fin (2 ^ 8)) :=
  (Fin.ofNat _ state.1, fun i => (state.2.bytes (base + i)).toFin)

theorem confined_finite (base : Nat) (mem : GuestMemory) : (Confined base mem).Finite := by
  apply Set.Finite.of_finite_image (f := view base) (Set.toFinite _)
  rintro ⟨first, left⟩ ⟨smallFirst, sizeLeft, outLeft⟩ ⟨second, right⟩
    ⟨smallSecond, sizeRight, outRight⟩ same
  dsimp only at smallFirst sizeLeft outLeft smallSecond sizeRight outRight
  obtain ⟨offsets, windows⟩ := Prod.mk.inj same
  have numbers : first % 2 ^ 16 = second % 2 ^ 16 := congrArg Fin.val offsets
  rw [Nat.mod_eq_of_lt smallFirst, Nat.mod_eq_of_lt smallSecond] at numbers
  have bytes : left.bytes = right.bytes := by
    funext addr
    by_cases inside : base ≤ addr ∧ addr < base + 0x10003
    · have there := congrFun windows ⟨addr - base, by omega⟩
      have index : base + (addr - base) = addr := by omega
      dsimp only at there
      rw [index] at there
      exact UInt8.toFin_inj.mp there
    · rw [outLeft addr (by omega), outRight addr (by omega)]
  have memories : left = right := by
    cases left
    cases right
    cases sizeLeft.trans sizeRight.symm
    cases bytes
    rfl
  rw [numbers, memories]

theorem chainStep_confined {state next : Nat × GuestMemory} (room : base + 0x10003 ≤ guestMemSize)
    (size : mem.size = guestMemSize) (here : state ∈ Confined base mem)
    (step : chainStep reloc target base state = some next) : next ∈ Confined base mem := by
  obtain ⟨small, kept, outside⟩ := here
  unfold chainStep at step
  split at step
  · contradiction
  cases step
  refine ⟨nextOffset_lt _, (patched_size ..).trans kept, ?_⟩
  intro addr away
  have narrow := fieldWidth_le reloc.sourceType
  rw [patched_bytes room (kept.trans size) small, ByteStore.store_outside, outside addr away]
  rw [leBytes_length]
  omega

theorem walk_confined (room : base + 0x10003 ≤ guestMemSize) (size : mem.size = guestMemSize)
    (small : offset < 2 ^ 16) (n : Nat) :
    ∀ state, walk (chainStep reloc target base) n (offset, mem) = some state →
      state ∈ Confined base mem := by
  induction n with
  | zero =>
    intro state start
    cases start
    exact ⟨small, rfl, fun _ _ => rfl⟩
  | succ n ih =>
    intro state reached
    rw [walk] at reached
    obtain ⟨before, earlier, step⟩ := Option.bind_eq_some_iff.mp reached
    exact chainStep_confined room size (ih before earlier) step

/-- What the loop comes to twice, it comes to for ever; and there is nothing else that could
keep it from its end. -/
theorem chainStops_iff_once (room : base + 0x10003 ≤ guestMemSize)
    (size : mem.size = guestMemSize) (small : offset < 2 ^ 16) :
    ChainStops reloc target base offset mem ↔
      ∀ n m state, walk (chainStep reloc target base) n (offset, mem) = some state →
        walk (chainStep reloc target base) m (offset, mem) = some state → n = m := by
  have low := low_of_room room
  rw [chainStops_iff_chain low small, chain_iff_walk,
    walk_ends_iff (confined_finite base mem) (walk_confined room size small)]

end Ends

section Images

variable {reloc : NeRelocationEntry} {target : Nat × Nat} {base offset link : Nat}
  {mem : GuestMemory}

theorem linkAt_lt (mem : GuestMemory) (base offset : Nat) : linkAt mem base offset < 2 ^ 16 := by
  unfold linkAt
  cases found : mem.read 2 (base + offset) with
  | none => exact show 0xFFFF < 2 ^ 16 by decide
  | some value => exact GuestMemory.read_lt found

/-- A place that goes on holding its own offset is patched for ever. -/
theorem not_chain_of_self (single : reloc.isAdditive = false) (goes : offset ≠ 0xFFFF)
    (keeps : ∀ now : GuestMemory, now.size = guestMemSize → linkAt now base offset = offset →
      linkAt (patched reloc.sourceType target now (base + offset)) base offset = offset)
    {start : Nat} {after : GuestMemory} (chain : Chain reloc target base start mem after)
    (here : start = offset) (size : mem.size = guestMemSize)
    (held : linkAt mem base offset = offset) : False := by
  induction chain with
  | last ends =>
    subst here
    rw [nextOffset_eq single, held] at ends
    exact goes ends
  | @next _ now _ _ _ ih =>
    subst here
    have onward : nextOffset reloc now (base + _) = _ := (nextOffset_eq single).trans held
    exact ih onward ((patched_size ..).trans size) (keeps now size held)

/-- Memory that is empty but for one word, which is the offset of its place. -/
def selfLink (base offset : Nat) : GuestMemory :=
  (GuestMemory.mk guestMemSize fun _ => 0).put 2 (base + offset) offset

theorem selfLink_size : (selfLink base offset).size = guestMemSize := GuestMemory.putBytes_size _

theorem linkAt_selfLink (room : base + 0x10003 ≤ guestMemSize) (small : offset < 2 ^ 16) :
    linkAt (selfLink base offset) base offset = offset := by
  have held : (selfLink base offset).read 2 (base + offset) = some offset :=
    GuestMemory.read_put _ small (inBounds_place room rfl small (by omega))
  rw [linkAt, held]
  rfl

/-- A field of a byte changes nothing in a word that has it as its low byte already. -/
theorem linkAt_patched_byte (room : base + 0x10003 ≤ guestMemSize) (size : mem.size = guestMemSize)
    (narrow : fieldWidth reloc.sourceType ≤ 1)
    (start : offset = fieldValue reloc.sourceType target % 256)
    (held : linkAt mem base offset = offset) :
    linkAt (patched reloc.sourceType target mem (base + offset)) base offset = offset := by
  have small : offset < 2 ^ 16 := by omega
  have kept := (patched_size reloc.sourceType target mem (base + offset)).trans size
  rw [linkAt_eq room size small] at held
  rw [linkAt_eq room kept small, patched_bytes room size small]
  obtain none | byte : fieldWidth reloc.sourceType = 0 ∨ fieldWidth reloc.sourceType = 1 := by
    omega
  · rw [none, leBytes, ByteStore.store_nil]
    exact held
  · have first := store_first mem.bytes (base + offset) 0 (fieldValue reloc.sourceType target)
    have second : mem.bytes.store (base + offset) (leBytes 1 (fieldValue reloc.sourceType target))
        (base + offset + 1) = mem.bytes (base + offset + 1) :=
      ByteStore.store_outside _ (.inr (by simp))
    rw [Nat.zero_add] at first
    rw [byte, first, second, UInt8.toNat_ofNat']
    omega

theorem fieldWidth_of_none {sourceType : Nat} (none : writtenLink sourceType target = none) :
    fieldWidth sourceType ≤ 1 := by
  unfold writtenLink at none
  unfold fieldWidth
  split at none
  · contradiction
  split at none
  · contradiction
  · rename_i selector other
    obtain ⟨far, offset⟩ := not_or.mp other
    rw [if_neg far, if_neg selector, if_neg offset]
    split <;> omega

/-- Where the loop does not write the end mark itself, there is a segment that it never leaves. -/
theorem exists_endless (single : reloc.isAdditive = false) (room : base + 0x10003 ≤ guestMemSize)
    (words : target.1 < 2 ^ 16 ∧ target.2 < 2 ^ 16)
    (other : writtenLink reloc.sourceType target ≠ some 0xFFFF) :
    ∃ offset < 2 ^ 16, ¬∃ after, Chain reloc target base offset (selfLink base offset) after := by
  cases written : writtenLink reloc.sourceType target with
  | some link =>
    have small := writtenLink_lt words written
    refine ⟨link, small, ?_⟩
    rintro ⟨after, chain⟩
    refine not_chain_of_self single ?_ ?_ chain rfl selfLink_size (linkAt_selfLink room small)
    · rintro rfl
      exact other written
    · intro now size _
      exact linkAt_patched_self room size small words written
  | none =>
    have small : fieldValue reloc.sourceType target % 256 < 2 ^ 16 := by omega
    refine ⟨fieldValue reloc.sourceType target % 256, small, ?_⟩
    rintro ⟨after, chain⟩
    refine not_chain_of_self single (by omega) ?_ chain rfl selfLink_size
      (linkAt_selfLink room small)
    intro now size held
    exact linkAt_patched_byte room size (fieldWidth_of_none written) rfl held

/-- A place in front of a patched end mark stays at its end if it was there. -/
theorem linkAt_patched_below {place : Nat} (room : base + 0x10003 ≤ guestMemSize)
    (size : mem.size = guestMemSize) (small : offset < 2 ^ 16)
    (words : target.1 < 2 ^ 16 ∧ target.2 < 2 ^ 16)
    (written : writtenLink reloc.sourceType target = some 0xFFFF) (before : place < offset)
    (ended : linkAt mem base place = 0xFFFF) :
    linkAt (patched reloc.sourceType target mem (base + offset)) base place = 0xFFFF := by
  obtain ⟨wide, value⟩ := writtenLink_eq words written
  obtain ⟨more, width⟩ := Nat.exists_eq_add_of_le' wide
  have kept := (patched_size reloc.sourceType target mem (base + offset)).trans size
  rw [linkAt_eq room size (by omega)] at ended
  rw [linkAt_eq room kept (by omega), patched_bytes room size small, width]
  have first : mem.bytes.store (base + offset)
      (leBytes (more + 2) (fieldValue reloc.sourceType target)) (base + place) =
        mem.bytes (base + place) :=
    ByteStore.store_outside _ (.inl (by omega))
  have low := (mem.bytes (base + place)).toNat_lt
  have high := (mem.bytes (base + place + 1)).toNat_lt
  rw [first]
  by_cases next : place + 1 = offset
  · rw [Nat.add_assoc, next, store_first, UInt8.toNat_ofNat']
    omega
  · rw [ByteStore.store_outside _ (.inl (by omega))]
    exact ended

/-- The marks of a state are the places that are not at their end. -/
def unended (base : Nat) (state : Nat × GuestMemory) (place : Fin (2 ^ 16)) : Bool :=
  linkAt state.2 base place != 0xFFFF

/-- Where the loop writes the end mark itself it ends in every segment: each turn clears the
mark of its place, and none in front of it is set. -/
theorem chain_of_end (single : reloc.isAdditive = false) (room : base + 0x10003 ≤ guestMemSize)
    (words : target.1 < 2 ^ 16 ∧ target.2 < 2 ^ 16)
    (written : writtenLink reloc.sourceType target = some 0xFFFF)
    (size : mem.size = guestMemSize) (small : offset < 2 ^ 16) :
    ∃ after, Chain reloc target base offset mem after := by
  rw [chain_iff_walk]
  apply @walk_ends_of_marks _ _ _ _ (fun state => state.1 < 2 ^ 16 ∧ state.2.size = guestMemSize)
    (unended base)
  · intro here there ⟨_, size⟩ step
    unfold chainStep at step
    split at step <;> cases step
    exact ⟨nextOffset_lt _, (patched_size ..).trans size⟩
  · intro here there ⟨small, size⟩ step
    unfold chainStep at step
    split at step
    · contradiction
    rename_i goes
    cases step
    rw [nextOffset_eq single] at goes
    refine ⟨⟨here.1, small⟩, ?_, ?_, ?_⟩
    · exact bne_iff_ne.mpr goes
    · have ended := linkAt_patched_self room size small words written
      exact bne_eq_false_iff_eq.mpr ended
    · intro place before unset
      by_contra ended
      have mark : linkAt here.2 base place = 0xFFFF := by
        rw [Bool.not_eq_true] at ended
        exact bne_eq_false_iff_eq.mp ended
      exact bne_iff_ne.mp unset (linkAt_patched_below room size small words written before mark)
  · exact ⟨small, size⟩

end Images

section Unpatched

/-- Where a place leads to in a segment that is not patched. -/
def followLink (mem : GuestMemory) (base offset : Nat) : Option Nat :=
  if linkAt mem base offset = 0xFFFF then none else some (linkAt mem base offset)

def LinksEnd (mem : GuestMemory) (base offset : Nat) : Prop :=
  ∃ n, walk (followLink mem base) n offset = none

def Linked (mem : GuestMemory) (base offset place : Nat) : Prop :=
  ∃ n, walk (followLink mem base) n offset = some place

/-- The places that the links lead to from an offset and from another keep out of each
other's way. -/
def PlacesClear (sourceType : Nat) (mem : GuestMemory) (base offset link : Nat) : Prop :=
  ∀ first second, first ≠ second → Linked mem base offset first ∨ Linked mem base link first →
    Linked mem base offset second ∨ Linked mem base link second →
      KeepsClear sourceType base first second

variable {reloc : NeRelocationEntry} {target : Nat × Nat} {base offset link place n : Nat}
  {mem now : GuestMemory}

theorem linksEnd_of_last (last : linkAt mem base offset = 0xFFFF) : LinksEnd mem base offset :=
  ⟨1, if_pos last⟩

theorem linksEnd_of_next (ends : LinksEnd mem base (linkAt mem base offset)) :
    LinksEnd mem base offset := by
  by_cases last : linkAt mem base offset = 0xFFFF
  · exact linksEnd_of_last last
  · obtain ⟨n, ends⟩ := ends
    refine ⟨n + 1, ?_⟩
    rw [walk_front, followLink, if_neg last]
    exact ends

theorem Linked.here : Linked mem base offset offset := ⟨0, rfl⟩

theorem Linked.onward (goes : linkAt mem base offset ≠ 0xFFFF)
    (linked : Linked mem base (linkAt mem base offset) place) : Linked mem base offset place := by
  obtain ⟨n, reached⟩ := linked
  refine ⟨n + 1, ?_⟩
  rw [walk_front, followLink, if_neg goes]
  exact reached

theorem Linked.next (linked : Linked mem base offset place) (goes : linkAt mem base place ≠ 0xFFFF) :
    Linked mem base offset (linkAt mem base place) := by
  obtain ⟨n, reached⟩ := linked
  refine ⟨n + 1, ?_⟩
  rw [walk_succ reached, followLink, if_neg goes]

theorem Linked.lt (small : offset < 2 ^ 16) (linked : Linked mem base offset place) :
    place < 2 ^ 16 := by
  obtain ⟨n, reached⟩ := linked
  induction n generalizing place with
  | zero =>
    cases reached
    exact small
  | succ n ih =>
    rw [walk] at reached
    obtain ⟨before, _, step⟩ := Option.bind_eq_some_iff.mp reached
    unfold followLink at step
    split at step <;> cases step
    exact linkAt_lt mem base before

theorem Linked.ends (linked : Linked mem base offset place) (ends : LinksEnd mem base offset) :
    LinksEnd mem base place := by
  obtain ⟨k, reached⟩ := linked
  obtain ⟨n, ends⟩ := ends
  have past := walk_none ends (Nat.le_add_left n k)
  rw [walk_add, reached, Option.bind_some] at past
  exact ⟨n, past⟩

/-- From a place whose links end, and that hold what they held, the chain ends. -/
theorem chain_of_linksEnd (single : reloc.isAdditive = false)
    (room : base + 0x10003 ≤ guestMemSize) (size : now.size = guestMemSize)
    (small : offset < 2 ^ 16) (ends : walk (followLink mem base) n offset = none)
    (same : ∀ place, Linked mem base offset place → linkAt now base place = linkAt mem base place)
    (clear : ∀ first second, first ≠ second → Linked mem base offset first →
      Linked mem base offset second → KeepsClear reloc.sourceType base first second) :
    ∃ after, Chain reloc target base offset now after := by
  induction n generalizing offset now with
  | zero => contradiction
  | succ n ih =>
    have held : nextOffset reloc now (base + offset) = linkAt mem base offset :=
      (nextOffset_eq single).trans (same offset .here)
    by_cases last : linkAt mem base offset = 0xFFFF
    · exact ⟨_, .last (held.trans last)⟩
    · have step : followLink mem base offset = some (linkAt mem base offset) := if_neg last
      -- a place that came back to itself would never end
      have left : ∀ place, Linked mem base (linkAt mem base offset) place → offset ≠ place := by
        rintro place ⟨k, reached⟩ rfl
        have back : walk (followLink mem base) (k + 1) offset = some offset := by
          rw [walk_front, step, Option.bind_some, reached]
        exact walk_isSome_of_twice rfl back (Nat.succ_pos k) (n + 1) ends
      have rest : walk (followLink mem base) n (linkAt mem base offset) = none := by
        rwa [walk_front, step, Option.bind_some] at ends
      have kept := (patched_size reloc.sourceType target now (base + offset)).trans size
      obtain ⟨after, chain⟩ := ih kept (linkAt_lt mem base offset) rest
        (fun place linked => by
          have apart := clear offset place (left place linked) .here (linked.onward last)
          rw [linkAt_patched_clear room size small apart, same place (linked.onward last)])
        (fun first second differ one two =>
          clear first second differ (one.onward last) (two.onward last))
      refine ⟨after, .next ?_ ?_⟩
      · rwa [held]
      · rwa [held]

/-- Some places hold the word that is written over them, and all others their own. -/
structure PatchedAt (mem now : GuestMemory) (base offset link : Nat) (visited : Finset Nat) :
    Prop where
  size : now.size = guestMemSize
  linked : ∀ place ∈ visited, Linked mem base offset place ∨ Linked mem base link place
  endless : ∀ place ∈ visited, ¬LinksEnd mem base place
  written : ∀ place ∈ visited, linkAt now base place = link
  own : ∀ place, Linked mem base offset place ∨ Linked mem base link place → place ∉ visited →
    linkAt now base place = linkAt mem base place

variable {visited : Finset Nat}

theorem PatchedAt.patch (h : PatchedAt mem now base offset link visited)
    (room : base + 0x10003 ≤ guestMemSize) (small : place < 2 ^ 16)
    (words : target.1 < 2 ^ 16 ∧ target.2 < 2 ^ 16)
    (written : writtenLink reloc.sourceType target = some link)
    (clear : PlacesClear reloc.sourceType mem base offset link)
    (here : Linked mem base offset place ∨ Linked mem base link place)
    (endless : ¬LinksEnd mem base place) :
    PatchedAt mem (patched reloc.sourceType target now (base + place)) base offset link
      (insert place visited) := by
  have apart : ∀ other, Linked mem base offset other ∨ Linked mem base link other → place ≠ other →
      linkAt (patched reloc.sourceType target now (base + place)) base other =
        linkAt now base other := by
    intro other there differ
    exact linkAt_patched_clear room h.size small (clear place other differ here there)
  refine ⟨(patched_size ..).trans h.size, ?_, ?_, ?_, ?_⟩
  · exact Finset.forall_mem_insert .. |>.mpr ⟨here, h.linked⟩
  · exact Finset.forall_mem_insert .. |>.mpr ⟨endless, h.endless⟩
  · intro other member
    by_cases same : place = other
    · subst same
      exact linkAt_patched_self room h.size small words written
    · have earlier := Finset.mem_of_mem_insert_of_ne member (Ne.symm same)
      rw [apart other (h.linked other earlier) same, h.written other earlier]
  · intro other there away
    obtain ⟨differ, later⟩ := not_or.mp (mt Finset.mem_insert.mpr away)
    rw [apart other there (Ne.symm differ), h.own other there later]

/-- Where neither the links from the offset nor those from the written word end, nothing does. -/
theorem PatchedAt.not_chain (single : reloc.isAdditive = false)
    (room : base + 0x10003 ≤ guestMemSize) (words : target.1 < 2 ^ 16 ∧ target.2 < 2 ^ 16)
    (written : writtenLink reloc.sourceType target = some link) (goes : link ≠ 0xFFFF)
    (small : offset < 2 ^ 16) (clear : PlacesClear reloc.sourceType mem base offset link)
    (lost : ¬LinksEnd mem base link) {after : GuestMemory}
    (chain : Chain reloc target base place now after)
    (h : PatchedAt mem now base offset link visited)
    (here : Linked mem base offset place ∨ Linked mem base link place)
    (endless : ¬LinksEnd mem base place) : False := by
  have word := writtenLink_lt words written
  induction chain generalizing visited with
  | @last place now ends =>
    rw [nextOffset_eq single] at ends
    by_cases member : place ∈ visited
    · exact goes ((h.written place member).symm.trans ends)
    · exact endless (linksEnd_of_last ((h.own place here member).symm.trans ends))
  | @next place now _ onward _ ih =>
    have bound : place < 2 ^ 16 := here.elim (Linked.lt small) (Linked.lt word)
    have patched := h.patch room bound words written clear here endless
    rw [nextOffset_eq single] at ih onward
    by_cases member : place ∈ visited
    · rw [h.written place member] at ih
      exact ih patched (.inr .here) lost
    · rw [h.own place here member] at ih onward
      refine ih patched (here.imp (·.next onward) (·.next onward)) ?_
      exact fun ends => endless (linksEnd_of_next ends)

/-- A chain that turns back leads to the written word, and from there to its end. -/
theorem PatchedAt.chain (single : reloc.isAdditive = false)
    (room : base + 0x10003 ≤ guestMemSize) (words : target.1 < 2 ^ 16 ∧ target.2 < 2 ^ 16)
    (written : writtenLink reloc.sourceType target = some link) (goes : link ≠ 0xFFFF)
    (small : offset < 2 ^ 16) (clear : PlacesClear reloc.sourceType mem base offset link)
    (ends : LinksEnd mem base link) (h : PatchedAt mem now base offset link visited)
    (bounded : visited ⊆ Finset.range (2 ^ 16))
    (here : Linked mem base offset place) (endless : ¬LinksEnd mem base place) :
    ∃ after, Chain reloc target base place now after := by
  have word := writtenLink_lt words written
  -- each turn visits one place more
  generalize hleft : 2 ^ 16 - visited.card = left
  induction left using Nat.strong_induction_on generalizing visited place now with
  | _ left ih =>
    have bound := here.lt small
    have patched := h.patch room bound words written clear (.inl here) endless
    by_cases member : place ∈ visited
    · have turn : nextOffset reloc now (base + place) = link :=
        (nextOffset_eq single).trans (h.written place member)
      have own : ∀ other, Linked mem base link other →
          linkAt (Vcpu.patched reloc.sourceType target now (base + place)) base other =
            linkAt mem base other := by
        intro other there
        exact patched.own other (.inr there) fun again => patched.endless other again (there.ends ends)
      obtain ⟨n, last⟩ := ends
      obtain ⟨after, chain⟩ := chain_of_linksEnd single room patched.size word last own
        (fun first second differ one two => clear first second differ (.inr one) (.inr two))
      exact ⟨after, .next (turn ▸ goes) (turn ▸ chain)⟩
    · have turn : nextOffset reloc now (base + place) = linkAt mem base place :=
        (nextOffset_eq single).trans (h.own place (.inl here) member)
      have onward : linkAt mem base place ≠ 0xFFFF := fun last => endless (linksEnd_of_last last)
      have more : (insert place visited).card = visited.card + 1 := Finset.card_insert_of_notMem member
      have inside : insert place visited ⊆ Finset.range (2 ^ 16) :=
        Finset.insert_subset (Finset.mem_range.mpr bound) bounded
      have fits := Finset.card_le_card inside
      rw [Finset.card_range, more] at fits
      obtain ⟨after, chain⟩ := ih (2 ^ 16 - (visited.card + 1)) (by omega) patched inside
        (here.next onward) (fun ends => endless (linksEnd_of_next ends)) (by rw [more])
      exact ⟨after, .next (turn ▸ onward) (turn ▸ chain)⟩

/-- In a segment whose places are clear, the chain ends where the links from its start do, or
those from the word that it writes. -/
theorem chain_iff_linksEnd (single : reloc.isAdditive = false)
    (room : base + 0x10003 ≤ guestMemSize) (words : target.1 < 2 ^ 16 ∧ target.2 < 2 ^ 16)
    (written : writtenLink reloc.sourceType target = some link) (goes : link ≠ 0xFFFF)
    (size : mem.size = guestMemSize) (small : offset < 2 ^ 16)
    (clear : PlacesClear reloc.sourceType mem base offset link) :
    (∃ after, Chain reloc target base offset mem after) ↔
      LinksEnd mem base offset ∨ LinksEnd mem base link := by
  have fresh : PatchedAt mem mem base offset link ∅ :=
    ⟨size, by simp, by simp, by simp, fun _ _ _ => rfl⟩
  constructor
  · rintro ⟨after, chain⟩
    by_contra neither
    obtain ⟨endless, lost⟩ := not_or.mp neither
    exact fresh.not_chain single room words written goes small clear lost chain (.inl .here) endless
  · intro either
    by_cases direct : LinksEnd mem base offset
    · obtain ⟨n, ends⟩ := direct
      exact chain_of_linksEnd single room size small ends (fun _ _ => rfl)
        (fun first second differ one two => clear first second differ (.inl one) (.inl two))
    · have ends := either.resolve_left direct
      exact fresh.chain single room words written goes small clear ends (by simp) .here direct

end Unpatched

section Stops

/-- When the loop along a chain gets to its end. -/
structure StopsWhen (reloc : NeRelocationEntry) (target : Nat × Nat) (base : Nat) : Prop where
  everywhere : (∀ offset < 2 ^ 16, ∀ mem : GuestMemory, mem.size = guestMemSize →
      ChainStops reloc target base offset mem) ↔
    reloc.isAdditive ∨ writtenLink reloc.sourceType target = some 0xFFFF
  once : ∀ offset < 2 ^ 16, ∀ mem : GuestMemory, mem.size = guestMemSize →
    (ChainStops reloc target base offset mem ↔
      ∀ n m state, walk (chainStep reloc target base) n (offset, mem) = some state →
        walk (chainStep reloc target base) m (offset, mem) = some state → n = m)
  unpatched : ∀ offset < 2 ^ 16, ∀ mem : GuestMemory, mem.size = guestMemSize →
    reloc.isAdditive = false → ∀ link, writtenLink reloc.sourceType target = some link →
      link ≠ 0xFFFF → PlacesClear reloc.sourceType mem base offset link →
        (ChainStops reloc target base offset mem ↔
          LinksEnd mem base offset ∨ LinksEnd mem base link)

variable {reloc : NeRelocationEntry} {target : Nat × Nat} {index : Nat}

theorem segment_room (few : index < 255) :
    neSegmentBase + index * tileSize + 0x10003 ≤ guestMemSize := by
  unfold neSegmentBase tileSize guestMemSize
  omega

theorem chain_stops (few : index < 255) (words : target.1 < 2 ^ 16 ∧ target.2 < 2 ^ 16) :
    StopsWhen reloc target (neSegmentBase + index * tileSize) := by
  have room := segment_room few
  generalize neSegmentBase + index * tileSize = base at room
  have low := low_of_room room
  refine ⟨?_, fun offset small mem size => chainStops_iff_once room size small, ?_⟩
  · constructor
    · intro stops
      by_contra neither
      obtain ⟨additive, other⟩ := not_or.mp neither
      have single : reloc.isAdditive = false := Bool.not_eq_true _ ▸ additive
      obtain ⟨offset, small, endless⟩ := exists_endless single room words other
      exact endless ((chainStops_iff_chain low small).mp (stops offset small _ selfLink_size))
    · intro either offset small mem size
      rw [chainStops_iff_chain low small]
      cases single : reloc.isAdditive with
      | true => exact ⟨_, .last (if_pos single)⟩
      | false =>
        have written := either.resolve_left (by simp [single])
        exact chain_of_end single room words written size small
  · intro offset small mem size single link written goes clear
    rw [chainStops_iff_chain low small]
    exact chain_iff_linksEnd single room words written goes size small clear

theorem chain_stops_first : StopsWhen ⟨relocOffset, 0, 0, .internalRef 1 0x1234⟩
    (0x1234, selectorOf 0) (neSegmentBase + 0 * tileSize) :=
  chain_stops (by decide) (by decide)

/-- The first word of a segment of zeros is a link to itself, and stays one. -/
theorem zero_link_endless : ¬∀ (reloc : NeRelocationEntry) (target : Nat × Nat)
    (index offset : Nat) (mem : GuestMemory), target.1 < 2 ^ 16 ∧ target.2 < 2 ^ 16 →
      index < 255 → offset < 2 ^ 16 → mem.size = guestMemSize →
        ChainStops reloc target (neSegmentBase + index * tileSize) offset mem := by
  intro all
  have zero : (0 : Nat) < 2 ^ 16 := by decide
  have words : (0 : Nat) < 2 ^ 16 ∧ selectorOf 0 < 2 ^ 16 := by decide
  have room := segment_room (show 0 < 255 by decide)
  have stops := all ⟨relocOffset, 0, 0, .internalRef 1 0⟩ (0, selectorOf 0) 0 0
    ⟨guestMemSize, fun _ => 0⟩ words (by decide) zero rfl
  obtain ⟨after, chain⟩ := (chainStops_iff_chain (by decide) zero).mp stops
  refine not_chain_of_self rfl (by decide) ?_ chain rfl rfl (linkAt_eq room rfl zero)
  intro now size _
  exact linkAt_patched_self room size zero words rfl

end Stops

end Warpine.Vcpu
