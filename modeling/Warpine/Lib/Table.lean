import Mathlib.Logic.Function.Basic

/-! Finite maps as partial functions, with the updates of a hash map. -/
namespace Warpine.Lib

abbrev Table (κ α : Type) := κ → Option α

namespace Table

variable {κ α : Type} [DecidableEq κ]

def empty : Table κ α := fun _ => none

def insert (table : Table κ α) (key : κ) (value : α) : Table κ α :=
  fun other => if other = key then some value else table other

def erase (table : Table κ α) (key : κ) : Table κ α :=
  fun other => if other = key then none else table other

omit [DecidableEq κ] in
@[simp] theorem empty_apply (key : κ) : (empty : Table κ α) key = none := rfl

@[simp] theorem insert_self (table : Table κ α) (key : κ) (value : α) :
    table.insert key value key = some value := by
  simp [insert]

@[simp] theorem insert_ne (table : Table κ α) {key other : κ} (value : α) (h : other ≠ key) :
    table.insert key value other = table other := by
  simp [insert, h]

@[simp] theorem erase_self (table : Table κ α) (key : κ) : table.erase key key = none := by
  simp [erase]

@[simp] theorem erase_ne (table : Table κ α) {key other : κ} (h : other ≠ key) :
    table.erase key other = table other := by
  simp [erase, h]

theorem erase_none {table : Table κ α} {key : κ} (h : table key = none) :
    table.erase key = table := by
  funext other
  by_cases hother : other = key
  · rw [hother, erase_self, h]
  · exact erase_ne table hother

/-- The two ways a lookup succeeds after an insertion. -/
theorem insert_eq_some {table : Table κ α} {key other : κ} {value found : α} :
    table.insert key value other = some found ↔
      other = key ∧ found = value ∨ other ≠ key ∧ table other = some found := by
  by_cases h : other = key
  · subst h
    simp [eq_comm]
  · simp [h]

theorem erase_eq_some {table : Table κ α} {key other : κ} {found : α} :
    table.erase key other = some found ↔ other ≠ key ∧ table other = some found := by
  by_cases h : other = key
  · subst h
    simp
  · simp [h]

end Table
end Warpine.Lib
