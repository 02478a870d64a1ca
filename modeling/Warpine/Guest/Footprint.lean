import Warpine.Guest.Memory

/-! Footprints. A computation writes exactly a region when its bytes come out the same from
every memory and all other bytes stay as they are. -/
namespace Warpine.Guest
open Warpine.Lib

def WritesExactly (size : Nat) (run : GuestMemory → Option GuestMemory) (region : Nat → Prop) :
    Prop :=
  ∃ value : Nat → UInt8, ∀ mem : GuestMemory, mem.size = size → ∃ next, run mem = some next ∧
    ∀ addr, (region addr → next.bytes addr = value addr) ∧
      (¬region addr → next.bytes addr = mem.bytes addr)

section Writes

variable {size : Nat} {writes : List (Nat × List UInt8)} {region : Nat → Prop}

theorem inBounds_iff {mem : GuestMemory} (hsize : mem.size = size) (write : Nat × List UInt8) :
    mem.inBounds write.1 write.2.length ↔ write.1 + write.2.length ≤ size := by
  rw [GuestMemory.inBounds, hsize, decide_eq_true_iff]

/-- Writes that all fit are made, one after the other. -/
theorem writeAll_putAll {mem : GuestMemory}
    (fit : ∀ write ∈ writes, mem.inBounds write.1 write.2.length) :
    mem.writeAll writes = some (mem.putAll writes) := by
  induction writes generalizing mem with
  | nil => rfl
  | cons write rest ih =>
    obtain ⟨here, later⟩ := List.forall_mem_cons.mp fit
    have first : mem.writeBytes write.1 write.2 = some (mem.putBytes write.1 write.2) := by
      rw [GuestMemory.putBytes, GuestMemory.writeBytes, if_pos here]
      rfl
    have room : ∀ other ∈ rest, (mem.putBytes write.1 write.2).inBounds other.1 other.2.length := by
      intro other member
      rw [GuestMemory.inBounds, GuestMemory.putBytes_size]
      exact later other member
    rw [GuestMemory.writeAll, List.foldlM_cons, first, GuestMemory.putAll, List.foldl_cons]
    exact ih room

/-- A list of writes has its own bytes as footprint, where all of them have their place. -/
theorem writesExactly_writeAll :
    WritesExactly size (·.writeAll writes) region ↔
      (∀ write ∈ writes, write.1 + write.2.length ≤ size) ∧
        ∀ addr, (∃ write ∈ writes, ByteStore.Covers write addr) ↔ region addr := by
  constructor
  · rintro ⟨value, exact_⟩
    -- two memories that differ in every byte
    have stored (byte : UInt8) := exact_ ⟨size, fun _ => byte⟩ rfl
    have run (byte : UInt8) : (∀ write ∈ writes, write.1 + write.2.length ≤ size) ∧
        ∀ addr, (region addr → ByteStore.storeAll (fun _ => byte) writes addr = value addr) ∧
          (¬region addr → ByteStore.storeAll (fun _ => byte) writes addr = byte) := by
      obtain ⟨next, hnext, hbytes⟩ := stored byte
      obtain ⟨bounds, rfl⟩ := (GuestMemory.writeAll_eq_some _).mp hnext
      exact ⟨fun write member => (inBounds_iff rfl write).mp (bounds write member), hbytes⟩
    refine ⟨(run 0).1, ?_⟩
    intro addr
    constructor
    · intro covered
      by_contra outside
      obtain ⟨byte, same⟩ := ByteStore.storeAll_covered covered
      have zero := ((run 0).2 addr).2 outside
      have one := ((run 1).2 addr).2 outside
      rw [same] at zero one
      exact absurd (zero.symm.trans one) (by decide)
    · intro inside
      by_contra uncovered
      have spared : ∀ write ∈ writes, ¬ByteStore.Covers write addr :=
        fun write member covers => uncovered ⟨write, member, covers⟩
      have zero := ((run 0).2 addr).1 inside
      have one := ((run 1).2 addr).1 inside
      rw [ByteStore.storeAll_outside _ spared] at zero one
      exact absurd (zero.trans one.symm) (by decide)
  · rintro ⟨bounds, covered⟩
    have each (addr : Nat) : ∃ byte, region addr → ∀ mem : ByteStore,
        mem.storeAll writes addr = byte := by
      by_cases inside : region addr
      · obtain ⟨byte, same⟩ := ByteStore.storeAll_covered ((covered addr).mpr inside)
        exact ⟨byte, fun _ => same⟩
      · exact ⟨0, fun inside' => absurd inside' inside⟩
    obtain ⟨value, hvalue⟩ := Classical.axiomOfChoice each
    refine ⟨value, ?_⟩
    intro mem hsize
    refine ⟨{ mem with bytes := mem.bytes.storeAll writes }, ?_, ?_⟩
    · exact mem.writeAll_eq_some.mpr
        ⟨fun write member => (inBounds_iff hsize write).mpr (bounds write member), rfl⟩
    · intro addr
      refine ⟨fun inside => hvalue addr inside mem.bytes, ?_⟩
      intro outside
      apply ByteStore.storeAll_outside
      intro write member covers
      exact outside ((covered addr).mp ⟨write, member, covers⟩)

end Writes

end Warpine.Guest
