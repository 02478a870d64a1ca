import Mathlib.Data.List.Basic
import Mathlib.Logic.Function.Basic

/-! Items of a numbered family that are moved in place, one after the other, by a distance. The
order in which they are taken keeps an item until it has been moved. -/
namespace Warpine.Lib.Shifts
open Function

variable {α : Type}

/-- Each item from `first` on takes the place of the one `distance` before it. -/
theorem foldl_shift_back (items : Nat → α) (first count distance : Nat) :
    (List.range' first count).foldl (fun items i => update items i (items (i + distance))) items =
      fun i => if first ≤ i ∧ i < first + count then items (i + distance) else items i := by
  induction count with
  | zero =>
    funext i
    rw [if_neg (by omega)]
    rfl
  | succ count ih =>
    rw [List.range'_concat, List.foldl_append, ih]
    funext i
    simp only [Nat.one_mul, List.foldl_cons, List.foldl_nil, update_apply]
    by_cases last : i = first + count
    · subst last
      rw [if_pos rfl, if_neg (by omega), if_pos (by omega)]
    · rw [if_neg last]
      by_cases before : first ≤ i ∧ i < first + count
      · rw [if_pos before, if_pos (by omega)]
      · rw [if_neg before, if_neg (by omega)]

/-- The other way the last item is the first to be taken. -/
theorem foldl_shift_on (items : Nat → α) (first count distance : Nat) :
    (List.range' first count).reverse.foldl
        (fun items i => update items i (items (i - distance))) items =
      fun i => if first ≤ i ∧ i < first + count then items (i - distance) else items i := by
  induction count generalizing first with
  | zero =>
    funext i
    rw [if_neg (by omega)]
    rfl
  | succ count ih =>
    rw [List.range'_succ, List.reverse_cons, List.foldl_append, ih]
    funext i
    simp only [List.foldl_cons, List.foldl_nil, update_apply]
    by_cases here : i = first
    · subst here
      rw [if_pos rfl, if_neg (by omega), if_pos (by omega)]
    · rw [if_neg here]
      by_cases after : first + 1 ≤ i ∧ i < first + 1 + count
      · rw [if_pos after, if_pos (by omega)]
      · rw [if_neg after, if_neg (by omega)]

theorem foldl_fill (items : Nat → α) (first count : Nat) (fill : α) :
    (List.range' first count).foldl (fun items i => update items i fill) items =
      fun i => if first ≤ i ∧ i < first + count then fill else items i := by
  induction count with
  | zero =>
    funext i
    rw [if_neg (by omega)]
    rfl
  | succ count ih =>
    rw [List.range'_concat, List.foldl_append, ih]
    funext i
    simp only [Nat.one_mul, List.foldl_cons, List.foldl_nil, update_apply]
    by_cases last : i = first + count
    · rw [if_pos last, if_pos (by omega)]
    · rw [if_neg last]
      by_cases before : first ≤ i ∧ i < first + count
      · rw [if_pos before, if_pos (by omega)]
      · rw [if_neg before, if_neg (by omega)]

end Warpine.Lib.Shifts
