import Mathlib.Data.List.Induction
import Mathlib.Data.List.Pairwise
import Warpine.Lib.Ranges
import Warpine.Lib.Words

/-! Byte-addressed storage: writing a string of bytes, and reading one back. -/
namespace Warpine.Lib

abbrev ByteStore := Nat → UInt8

namespace ByteStore

def store (mem : ByteStore) (addr : Nat) (data : List UInt8) : ByteStore := fun i =>
  if addr ≤ i then (data[i - addr]?).getD (mem i) else mem i

def load (mem : ByteStore) (addr len : Nat) : List UInt8 :=
  (List.range len).map fun i => mem (addr + i)

variable (mem : ByteStore) {addr : Nat} {data : List UInt8}

@[simp] theorem load_length (addr len : Nat) : (mem.load addr len).length = len := by
  simp [load]

/-- Bytes outside the string are as before. -/
theorem store_outside {i : Nat} (h : i < addr ∨ addr + data.length ≤ i) :
    mem.store addr data i = mem i := by
  unfold store
  split
  · rw [List.getElem?_eq_none (by omega), Option.getD_none]
  · rfl

@[simp] theorem store_nil (addr : Nat) : mem.store addr [] = mem := by
  funext i
  simp [store]

theorem store_inside {i : Nat} (h : i < data.length) :
    mem.store addr data (addr + i) = data[i] := by
  have hindex : addr + i - addr = i := by omega
  simp [store, hindex, h]

@[simp] theorem load_store : (mem.store addr data).load addr data.length = data := by
  apply List.ext_getElem
  · simp
  · intro i hlow hhigh
    simp only [load, List.getElem_map, List.getElem_range]
    exact mem.store_inside hhigh

theorem load_store_apart {other len : Nat} (h : Apart addr data.length other len) :
    (mem.store addr data).load other len = mem.load other len := by
  unfold load
  apply List.map_congr_left
  intro i hi
  have hlt : i < len := List.mem_range.mp hi
  unfold Apart at h
  exact mem.store_outside (by omega)

/-- A string that is written over keeps its bytes if the new bytes there are the same. -/
theorem load_store_same_iff {other : Nat} {old : List UInt8}
    (h : mem.load other old.length = old) :
    (mem.store addr data).load other old.length = old ↔
      ∀ i j, i < data.length → j < old.length → addr + i = other + j → data[i]? = old[j]? := by
  have before {j : Nat} (hj : j < old.length) : mem (other + j) = old[j] := by
    have byte := List.getElem_of_eq h (by simpa using hj)
    simpa [load] using byte
  constructor
  · intro same i j hi hj here
    have byte := List.getElem_of_eq same (by simpa using hj)
    simp only [load, List.getElem_map, List.getElem_range] at byte
    rw [List.getElem?_eq_getElem hi, List.getElem?_eq_getElem hj, ← byte, ← here,
      mem.store_inside hi]
  · intro agree
    apply List.ext_getElem
    · simp
    · intro j hlow hj
      simp only [load, List.getElem_map, List.getElem_range]
      by_cases covered : addr ≤ other + j ∧ other + j < addr + data.length
      · obtain ⟨i, here⟩ := Nat.exists_eq_add_of_le covered.1
        have hi : i < data.length := by omega
        have byte := agree i j hi hj here.symm
        rw [List.getElem?_eq_getElem hi, List.getElem?_eq_getElem hj] at byte
        rw [here, mem.store_inside hi]
        exact Option.some.inj byte
      · rw [mem.store_outside (by omega)]
        exact before hj

/-- What is there already. -/
@[simp] theorem store_load (addr len : Nat) : mem.store addr (mem.load addr len) = mem := by
  funext i
  unfold store load
  split
  · rename_i above
    by_cases inside : i - addr < len
    · simp [inside, Nat.add_sub_cancel' above]
    · rw [List.getElem?_eq_none (by simpa using Nat.le_of_not_lt inside), Option.getD_none]
  · rfl

theorem load_append (addr left right : Nat) :
    mem.load addr (left + right) = mem.load addr left ++ mem.load (addr + left) right := by
  unfold load
  rw [List.range_add, List.map_append, List.map_map]
  congr 1
  apply List.map_congr_left
  intro i _
  simp only [Function.comp_apply, Nat.add_assoc]

/-- Two strings side by side are one string. -/
theorem store_append (addr : Nat) (left right : List UInt8) :
    (mem.store addr left).store (addr + left.length) right = mem.store addr (left ++ right) := by
  funext i
  unfold store
  by_cases hbelow : i < addr
  · rw [if_neg (by omega), if_neg (by omega), if_neg (by omega)]
  · by_cases hleft : i - addr < left.length
    · rw [if_neg (by omega), if_pos (by omega), if_pos (by omega),
        List.getElem?_append_left hleft]
    · have hsub : i - (addr + left.length) = i - addr - left.length := by omega
      rw [if_pos (by omega), if_pos (by omega), if_pos (by omega), hsub,
        List.getElem?_append_right (by omega), List.getElem?_eq_none (l := left) (by omega),
        Option.getD_none]

/-- Several strings, one after the other. -/
def storeAll (mem : ByteStore) (writes : List (Nat × List UInt8)) : ByteStore :=
  writes.foldl (fun mem write => mem.store write.1 write.2) mem

def WritesApart (first second : Nat × List UInt8) : Prop :=
  Apart first.1 first.2.length second.1 second.2.length

instance (first second : Nat × List UInt8) : Decidable (WritesApart first second) :=
  inferInstanceAs (Decidable (Apart _ _ _ _))

theorem load_storeAll_apart {writes : List (Nat × List UInt8)} (other len : Nat)
    (h : ∀ write ∈ writes, Apart write.1 write.2.length other len) :
    (mem.storeAll writes).load other len = mem.load other len := by
  induction writes generalizing mem with
  | nil => rfl
  | cons write rest ih =>
    have hrest := ih (mem.store write.1 write.2) fun next hnext => h next (by simp [hnext])
    simp only [storeAll, List.foldl_cons] at hrest ⊢
    rw [hrest]
    exact mem.load_store_apart (h write (by simp))

def Covers (write : Nat × List UInt8) (addr : Nat) : Prop :=
  write.1 ≤ addr ∧ addr < write.1 + write.2.length

theorem storeAll_outside {writes : List (Nat × List UInt8)} {addr : Nat}
    (h : ∀ write ∈ writes, ¬ Covers write addr) : mem.storeAll writes addr = mem addr := by
  induction writes generalizing mem with
  | nil => rfl
  | cons write rest ih =>
    obtain ⟨hwrite, hrest⟩ := List.forall_mem_cons.mp h
    have hlater := ih (mem.store write.1 write.2) hrest
    unfold Covers at hwrite
    simp only [storeAll, List.foldl_cons] at hlater ⊢
    rw [hlater]
    exact mem.store_outside (by omega)

/-- What covers an address decides its byte, whatever was there before. -/
theorem storeAll_covered {writes : List (Nat × List UInt8)} {addr : Nat}
    (h : ∃ write ∈ writes, Covers write addr) :
    ∃ byte, ∀ mem : ByteStore, mem.storeAll writes addr = byte := by
  induction writes with
  | nil => simp at h
  | cons write rest ih =>
    by_cases hrest : ∃ other ∈ rest, Covers other addr
    · obtain ⟨byte, hbyte⟩ := ih hrest
      exact ⟨byte, fun mem => hbyte (mem.store write.1 write.2)⟩
    · obtain ⟨other, hother, hcovers⟩ := h
      have hhead : other = write := by
        rcases List.mem_cons.mp hother with rfl | hlater
        · rfl
        · exact absurd ⟨other, hlater, hcovers⟩ hrest
      rw [hhead] at hcovers
      obtain ⟨hlow, hhigh⟩ := hcovers
      have hindex : addr - write.1 < write.2.length := by omega
      refine ⟨write.2[addr - write.1], fun mem => ?_⟩
      have hlater := (mem.store write.1 write.2).storeAll_outside
        fun next hnext hcovers => hrest ⟨next, hnext, hcovers⟩
      have hstored := @store_inside mem write.1 write.2 _ hindex
      rw [Nat.add_sub_cancel' hlow] at hstored
      exact hlater.trans hstored

/-- Of writes that are the same or share no address, each can be read back. -/
theorem load_storeAll_of_same {writes : List (Nat × List UInt8)}
    (apart : ∀ first ∈ writes, ∀ second ∈ writes, first = second ∨ WritesApart first second)
    {write : Nat × List UInt8} (member : write ∈ writes) :
    (mem.storeAll writes).load write.1 write.2.length = write.2 := by
  induction writes using List.reverseRecOn with
  | nil => simp at member
  | append_singleton init last ih =>
    have hlast : last ∈ init ++ [last] := by simp
    have hstep : mem.storeAll (init ++ [last]) = (mem.storeAll init).store last.1 last.2 := by
      simp [storeAll, List.foldl_append]
    rw [hstep]
    rcases apart last hlast write member with rfl | hapart
    · exact load_store _
    · rw [load_store_apart _ hapart]
      rcases List.mem_append.mp member with hinit | hsame
      · exact ih (fun first hfirst second hsecond => apart first (List.mem_append_left _ hfirst)
          second (List.mem_append_left _ hsecond)) hinit
      · rw [List.mem_singleton.mp hsame]
        rw [List.mem_singleton.mp hsame] at hapart
        unfold WritesApart Apart at hapart
        have hempty : last.2.length = 0 := by omega
        rw [List.length_eq_zero_iff.mp hempty]
        rfl

theorem load_storeAll {writes : List (Nat × List UInt8)} (apart : writes.Pairwise WritesApart)
    {write : Nat × List UInt8} (member : write ∈ writes) :
    (mem.storeAll writes).load write.1 write.2.length = write.2 := by
  have hsymm : Std.Symm fun first second => first = second ∨ WritesApart first second :=
    ⟨fun _ _ h => h.imp Eq.symm Apart.symm⟩
  exact mem.load_storeAll_of_same
    (List.Pairwise.forall_of_forall (fun _ _ => Or.inl rfl) (apart.imp Or.inr)) member

/-- Strings laid side by side from an address on. -/
def sideBySide : Nat → List (List UInt8) → List (Nat × List UInt8)
  | _, [] => []
  | addr, bytes :: rest => (addr, bytes) :: sideBySide (addr + bytes.length) rest

/-- Strings of one length, counted from `first` on. -/
theorem sideBySide_range' {width : Nat} {bytes : Nat → List UInt8}
    (widths : ∀ k, (bytes k).length = width) (addr first count : Nat) :
    sideBySide (addr + first * width) ((List.range' first count).map bytes) =
      (List.range' first count).map fun k => (addr + k * width, bytes k) := by
  induction count generalizing first with
  | zero => rfl
  | succ count ih =>
    rw [List.range'_succ, List.map_cons, List.map_cons, sideBySide, widths, ← ih (first + 1),
      Nat.succ_mul, Nat.add_assoc]

end ByteStore
end Warpine.Lib
