import Mathlib.Data.Nat.Bitwise
import Warpine.Lib.Ranges

/-! Items laid out one after the other, each at the next multiple of its alignment. -/
namespace Warpine.Lib

def roundUp (align val : Nat) : Nat := (val + (align - 1)) / align * align

theorem roundUp_mod (align val : Nat) : roundUp align val % align = 0 := Nat.mul_mod_left _ _

theorem le_roundUp {align : Nat} (val : Nat) (pos : 0 < align) : val ≤ roundUp align val := by
  unfold roundUp
  have hdiv := Nat.div_add_mod (val + (align - 1)) align
  have hmod := Nat.mod_lt (val + (align - 1)) pos
  rw [Nat.mul_comm] at hdiv
  omega

/-- Masking the low bits off rounds down. -/
theorem and_high_bits {val width k : Nat} (small : val < 2 ^ width) (hk : k ≤ width) :
    val &&& (2 ^ width - 2 ^ k) = val / 2 ^ k * 2 ^ k := by
  have hmask : 2 ^ width - 2 ^ k = (2 ^ (width - k) - 1) <<< k := by
    rw [Nat.shiftLeft_eq, Nat.sub_mul, Nat.one_mul, ← Nat.pow_add, Nat.sub_add_cancel hk]
  rw [hmask, ← Nat.shiftRight_eq_div_pow, ← Nat.shiftLeft_eq]
  apply Nat.eq_of_testBit_eq
  intro i
  rw [Nat.testBit_and, Nat.testBit_shiftLeft, Nat.testBit_shiftLeft, Nat.testBit_shiftRight,
    Nat.testBit_two_pow_sub_one]
  by_cases hi : k ≤ i
  · by_cases hhigh : i - k < width - k
    · simp [hi, hhigh]
    · have hzero : val.testBit i = false :=
        Nat.testBit_lt_two_pow
          (Nat.lt_of_lt_of_le small (Nat.pow_le_pow_right (by decide) (by omega)))
      simp [hi, hzero]
  · simp [hi]

/-- An item of a layout: its size and its alignment. -/
structure Item where
  size : Nat
  align : Nat
deriving DecidableEq, Repr

/-- Where each item starts, when the first one comes at `start` or later. -/
def layout : Nat → List Item → List Nat
  | _, [] => []
  | start, item :: rest =>
      roundUp item.align start :: layout (roundUp item.align start + item.size) rest

def layoutEnd : Nat → List Item → Nat
  | start, [] => start
  | start, item :: rest => layoutEnd (roundUp item.align start + item.size) rest

theorem layout_length (start : Nat) (items : List Item) :
    (layout start items).length = items.length := by
  induction items generalizing start with
  | nil => rfl
  | cons item rest ih => rw [layout, List.length_cons, ih, List.length_cons]

theorem le_layoutEnd {start : Nat} {items : List Item} (pos : ∀ item ∈ items, 0 < item.align) :
    start ≤ layoutEnd start items := by
  induction items generalizing start with
  | nil => exact Nat.le_refl _
  | cons item rest ih =>
    obtain ⟨hitem, hrest⟩ := List.forall_mem_cons.mp pos
    have hround := le_roundUp start hitem
    have htail := @ih (roundUp item.align start + item.size) hrest
    rw [layoutEnd]
    omega

/-- Each item is aligned, and lies between the start and the end. -/
theorem mem_layout {start : Nat} {items : List Item} (pos : ∀ item ∈ items, 0 < item.align)
    {item : Item} {place : Nat} (member : (item, place) ∈ items.zip (layout start items)) :
    start ≤ place ∧ place % item.align = 0 ∧ place + item.size ≤ layoutEnd start items := by
  induction items generalizing start with
  | nil => cases member
  | cons head rest ih =>
    obtain ⟨hhead, hrest⟩ := List.forall_mem_cons.mp pos
    have hround := le_roundUp start hhead
    rw [layout, List.zip_cons_cons] at member
    rw [layoutEnd]
    rcases List.mem_cons.mp member with hsame | hmember
    · cases hsame
      exact ⟨hround, roundUp_mod _ _, le_layoutEnd hrest⟩
    · obtain ⟨hlow, hmod, hhigh⟩ := ih hrest hmember
      exact ⟨by omega, hmod, hhigh⟩

/-- The items follow one another. -/
theorem layout_pairwise {start : Nat} {items : List Item} (pos : ∀ item ∈ items, 0 < item.align) :
    (items.zip (layout start items)).Pairwise fun first second =>
      first.2 + first.1.size ≤ second.2 := by
  induction items generalizing start with
  | nil => exact List.Pairwise.nil
  | cons head rest ih =>
    obtain ⟨_, hrest⟩ := List.forall_mem_cons.mp pos
    rw [layout, List.zip_cons_cons]
    apply List.Pairwise.cons
    · intro second hsecond
      exact (mem_layout hrest hsecond).1
    · exact ih hrest

section Chunks

variable {α : Type} {left right list : List α} {size i k : Nat}

/-- The list cut into parts of one length. -/
def chunk (size : Nat) (list : List α) (i : Nat) : List α := (list.drop (i * size)).take size

theorem chunk_length (h : (i + 1) * size ≤ list.length) : (chunk size list i).length = size := by
  rw [Nat.succ_mul] at h
  unfold chunk
  rw [List.length_take, List.length_drop]
  omega

theorem chunk_append_left (h : (i + 1) * size ≤ left.length) :
    chunk size (left ++ right) i = chunk size left i := by
  rw [Nat.succ_mul] at h
  unfold chunk
  rw [List.drop_append_of_le_length (by omega),
    List.take_append_of_le_length (by rw [List.length_drop]; omega)]

theorem chunk_append_right (h : left.length = k * size) :
    chunk size (left ++ right) (k + i) = chunk size right i := by
  unfold chunk
  rw [Nat.add_mul, ← h, List.drop_length_add_append]

theorem chunk_replicate {count : Nat} (value : α) (h : (i + 1) * size ≤ count) :
    chunk size (List.replicate count value) i = List.replicate size value := by
  rw [Nat.succ_mul] at h
  unfold chunk
  rw [List.drop_replicate, List.take_replicate, Nat.min_eq_left (by omega)]

end Chunks

end Warpine.Lib
