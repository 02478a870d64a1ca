import Warpine.Lib.Memory
import Warpine.Lib.Table

/-! Memory with a mark over some of its bytes, and a table of the bytes under the marks. -/
namespace Warpine.Lib

/-- `mem` is `plain` but for the marks, one over each saved byte. The mark at `lifted`
may be off. -/
structure Patched (mark : UInt8) (lifted : Option Nat) (saved : Table Nat UInt8)
    (plain mem : ByteStore) : Prop where
  clear : ∀ addr, saved addr = none → mem addr = plain addr
  kept : ∀ addr byte, saved addr = some byte → byte = plain addr
  marked : ∀ addr, (saved addr).isSome → lifted ≠ some addr → mem addr = mark

theorem store_byte (mem : ByteStore) (addr : Nat) (byte : UInt8) (i : Nat) :
    mem.store addr [byte] i = if i = addr then byte else mem i := by
  by_cases here : i = addr
  · subst here
    simp [ByteStore.store]
  · rw [if_neg here]
    apply ByteStore.store_outside
    simp only [List.length_cons, List.length_nil]
    omega

namespace Patched

variable {mark byte : UInt8} {lifted : Option Nat} {saved : Table Nat UInt8}
  {plain mem : ByteStore} {addr : Nat}

theorem nil (mark : UInt8) (mem : ByteStore) : Patched mark none .empty mem mem where
  clear := fun _ _ => rfl
  kept := by simp
  marked := by simp

/-- Without saved bytes there are no marks. -/
theorem eq_plain (patched : Patched mark lifted saved plain mem)
    (empty : ∀ addr, saved addr = none) : mem = plain :=
  funext fun addr => patched.clear addr (empty addr)

theorem patch (patched : Patched mark lifted saved plain mem) (free : saved addr = none) :
    Patched mark lifted (saved.insert addr (mem addr)) plain (mem.store addr [mark]) where
  clear := by
    intro other none
    by_cases here : other = addr
    · rw [here, Table.insert_self] at none
      cases none
    · rw [Table.insert_ne _ _ here] at none
      rw [store_byte, if_neg here]
      exact patched.clear other none
  kept := by
    intro other byte hbyte
    rcases Table.insert_eq_some.mp hbyte with ⟨rfl, rfl⟩ | ⟨_, old⟩
    · exact patched.clear _ free
    · exact patched.kept other byte old
  marked := by
    intro other some down
    rw [store_byte]
    by_cases here : other = addr
    · rw [if_pos here]
    · rw [Table.insert_ne _ _ here] at some
      rw [if_neg here]
      exact patched.marked other some down

theorem unpatch (patched : Patched mark lifted saved plain mem) (under : saved addr = some byte) :
    Patched mark lifted (saved.erase addr) plain (mem.store addr [byte]) where
  clear := by
    intro other none
    rw [store_byte]
    by_cases here : other = addr
    · rw [if_pos here, here]
      exact patched.kept addr byte under
    · rw [Table.erase_ne _ here] at none
      rw [if_neg here]
      exact patched.clear other none
  kept := fun other byte hbyte => patched.kept other byte (Table.erase_eq_some.mp hbyte).2
  marked := by
    intro other some down
    by_cases here : other = addr
    · rw [here, Table.erase_self] at some
      cases some
    · rw [Table.erase_ne _ here] at some
      rw [store_byte, if_neg here]
      exact patched.marked other some down

theorem lift (patched : Patched mark none saved plain mem) (under : saved addr = some byte) :
    Patched mark (some addr) saved plain (mem.store addr [byte]) where
  clear := by
    intro other none
    have apart : other ≠ addr := by
      rintro rfl
      rw [under] at none
      cases none
    rw [store_byte, if_neg apart]
    exact patched.clear other none
  kept := patched.kept
  marked := by
    intro other some down
    have apart : other ≠ addr := fun here => down (congrArg _ here.symm)
    rw [store_byte, if_neg apart]
    exact patched.marked other some (by simp)

/-- A lifted mark is gone for good where its byte is not saved any more. -/
theorem drop (patched : Patched mark (some addr) saved plain mem) (gone : saved addr = none) :
    Patched mark none saved plain mem where
  clear := patched.clear
  kept := patched.kept
  marked := by
    intro other some _
    apply patched.marked other some
    rintro ⟨⟩
    rw [gone] at some
    cases some

/-- Nothing is written over a mark. -/
def Spares (saved : Table Nat UInt8) (writes : List (Nat × List UInt8)) : Prop :=
  ∀ write ∈ writes, ∀ i < write.2.length, saved (write.1 + i) = none

instance (saved : Table Nat UInt8) (writes : List (Nat × List UInt8)) :
    Decidable (Spares saved writes) := by
  unfold Spares
  infer_instance

theorem storeAll (patched : Patched mark lifted saved plain mem) {writes : List (Nat × List UInt8)}
    (spares : Spares saved writes) :
    Patched mark lifted saved (plain.storeAll writes) (mem.storeAll writes) := by
  have outside : ∀ addr, (saved addr).isSome → ∀ write ∈ writes, ¬ByteStore.Covers write addr := by
    rintro addr some write member ⟨low, high⟩
    have none := spares write member (addr - write.1) (by omega)
    rw [Nat.add_sub_cancel' low] at none
    rw [none] at some
    cases some
  refine ⟨?_, ?_, ?_⟩
  · intro addr none
    by_cases covered : ∃ write ∈ writes, ByteStore.Covers write addr
    · obtain ⟨byte, hbyte⟩ := ByteStore.storeAll_covered covered
      rw [hbyte, hbyte]
    · have apart : ∀ write ∈ writes, ¬ByteStore.Covers write addr :=
        fun write member covers => covered ⟨write, member, covers⟩
      rw [ByteStore.storeAll_outside _ apart, ByteStore.storeAll_outside _ apart]
      exact patched.clear addr none
  · intro addr byte hbyte
    rw [ByteStore.storeAll_outside _ (outside addr (by rw [hbyte]; rfl))]
    exact patched.kept addr byte hbyte
  · intro addr some down
    rw [ByteStore.storeAll_outside _ (outside addr some)]
    exact patched.marked addr some down

end Patched
end Warpine.Lib
