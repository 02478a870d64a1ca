import Mathlib.Data.List.Forall2
import Warpine.Lib.Memory

/-! The bits of words in storage. Storing zeros sets none. -/
namespace Warpine.Lib

/-- Every bit of the first byte is one of the second. -/
def BitsWithin (a b : UInt8) : Prop := ∀ k, a.toNat.testBit k = true → b.toNat.testBit k = true

theorem leValue_testBit_cons (byte : UInt8) (rest : List UInt8) (k : Nat) :
    (leValue (byte :: rest)).testBit k =
      if k < 8 then byte.toNat.testBit k else (leValue rest).testBit (k - 8) := by
  rw [leValue, Nat.add_comm]
  exact Nat.testBit_two_pow_mul_add (leValue rest) (i := 8) byte.toNat_lt k

theorem leValue_testBit_mono {low high : List UInt8} (h : List.Forall₂ BitsWithin low high) :
    ∀ k, (leValue low).testBit k = true → (leValue high).testBit k = true := by
  induction h with
  | nil => exact fun k set => set
  | cons head tail ih =>
    intro k set
    rw [leValue_testBit_cons] at set ⊢
    split
    · rename_i first
      rw [if_pos first] at set
      exact head k set
    · rename_i later
      rw [if_neg later] at set
      exact ih _ set

theorem ByteStore.load_store_zeros (mem : ByteStore) (addr count other len : Nat) :
    List.Forall₂ BitsWithin ((mem.store addr (List.replicate count 0)).load other len)
      (mem.load other len) := by
  unfold ByteStore.load
  rw [List.forall₂_map_left_iff, List.forall₂_map_right_iff, List.forall₂_same]
  intro i _ k set
  unfold ByteStore.store at set
  split at set
  · by_cases inside : other + i - addr < count
    · rw [List.getElem?_replicate, if_pos inside] at set
      simp at set
    · rw [List.getElem?_replicate, if_neg inside] at set
      exact set
  · exact set

end Warpine.Lib
