import Mathlib.Data.List.Basic

/-! Half-open ranges of addresses, given by their start and length. -/
namespace Warpine.Lib

/-- The ranges `[a, a + n)` and `[b, b + m)` share no address. -/
def Apart (a n b m : Nat) : Prop := a + n ≤ b ∨ b + m ≤ a

instance (a n b m : Nat) : Decidable (Apart a n b m) :=
  inferInstanceAs (Decidable (_ ∨ _))

theorem Apart.symm {a n b m : Nat} (h : Apart a n b m) : Apart b m a n := Or.symm h

/-- Two nonempty ranges that share no address start at different ones. -/
theorem Apart.start_ne {a n b m : Nat} (h : Apart a n b m) (hn : 0 < n) (hm : 0 < m) : a ≠ b := by
  unfold Apart at h
  omega

/-- A part of a range stays apart from what the range is apart from. -/
theorem Apart.shrink {a n b m c k : Nat} (h : Apart a n b m) (low : a ≤ c)
    (high : c + k ≤ a + n) : Apart c k b m := by
  unfold Apart at h ⊢
  omega

/-- Two ranges, each of them possibly empty, share no address. -/
def Clear (a n b m : Nat) : Prop := n = 0 ∨ m = 0 ∨ Apart a n b m

instance (a n b m : Nat) : Decidable (Clear a n b m) := inferInstanceAs (Decidable (_ ∨ _))

/-- Some range of the list, each given by its start and length, has the address. -/
def Covered (ranges : List (Nat × Nat)) (addr : Nat) : Prop :=
  ∃ range ∈ ranges, range.1 ≤ addr ∧ addr < range.1 + range.2

theorem clear_iff {a n b m : Nat} :
    Clear a n b m ↔ ∀ addr, a ≤ addr → addr < a + n → ¬(b ≤ addr ∧ addr < b + m) := by
  unfold Clear Apart
  constructor
  · intro clear addr low high
    omega
  · intro clear
    have atStart := clear a (Nat.le_refl a)
    have atOther := clear b
    omega

/-- A range is clear of all the others where it has no address that they have. -/
theorem forall_clear_iff {a n : Nat} {ranges : List (Nat × Nat)} :
    (∀ range ∈ ranges, Clear a n range.1 range.2) ↔
      ∀ addr, a ≤ addr → addr < a + n → ¬Covered ranges addr := by
  constructor
  · rintro clear addr low high ⟨range, member, inside⟩
    exact clear_iff.mp (clear range member) addr low high inside
  · intro uncovered range member
    apply clear_iff.mpr
    intro addr low high inside
    exact uncovered addr low high ⟨range, member, inside⟩

@[simp] theorem covered_nil (addr : Nat) : ¬Covered [] addr := by
  rintro ⟨_, member, _⟩
  cases member

theorem covered_cons {range : Nat × Nat} {ranges : List (Nat × Nat)} {addr : Nat} :
    Covered (range :: ranges) addr ↔
      (range.1 ≤ addr ∧ addr < range.1 + range.2) ∨ Covered ranges addr := by
  unfold Covered
  rw [List.exists_mem_cons_iff]

theorem covered_append {left right : List (Nat × Nat)} {addr : Nat} :
    Covered (left ++ right) addr ↔ Covered left addr ∨ Covered right addr := by
  unfold Covered
  simp only [List.mem_append, or_and_right, exists_or]

theorem covered_flatMap {α : Type} {items : List α} {ranges : α → List (Nat × Nat)} {addr : Nat} :
    Covered (items.flatMap ranges) addr ↔ ∃ item ∈ items, Covered (ranges item) addr := by
  unfold Covered
  simp only [List.mem_flatMap]
  constructor
  · rintro ⟨range, ⟨item, hitem, member⟩, inside⟩
    exact ⟨item, hitem, range, member, inside⟩
  · rintro ⟨item, hitem, range, member, inside⟩
    exact ⟨range, ⟨item, hitem, member⟩, inside⟩

/-- Ranges of one width that stand side by side cover what one range does. -/
theorem covered_row {start width count addr : Nat} (positive : 0 < width) :
    Covered ((List.range count).map fun i => (start + i * width, width)) addr ↔
      start ≤ addr ∧ addr < start + count * width := by
  unfold Covered
  simp only [List.mem_map, List.mem_range]
  constructor
  · rintro ⟨_, ⟨i, few, rfl⟩, low, high⟩
    have next : (i + 1) * width ≤ count * width := Nat.mul_le_mul_right width few
    rw [Nat.add_mul, Nat.one_mul] at next
    omega
  · rintro ⟨low, high⟩
    have split := Nat.div_add_mod' (addr - start) width
    have part := Nat.mod_lt (addr - start) positive
    refine ⟨_, ⟨(addr - start) / width, ?_, rfl⟩, ?_, ?_⟩
    · exact Nat.div_lt_of_lt_mul (by rw [Nat.mul_comm]; omega)
    · omega
    · omega

end Warpine.Lib
