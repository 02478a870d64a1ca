import Mathlib.Data.List.Basic
import Mathlib.Data.List.Range

/-! Painting a grid kept as one list, row by row: which places an action gives
the colour, and which it leaves alone. -/
namespace Warpine.Lib

section Places

variable {rows cols r c : Nat}

theorem place_lt (hr : r < rows) (hc : c < cols) : r * cols + c < rows * cols := by
  have := Nat.mul_le_mul_right cols (show r + 1 ≤ rows from hr)
  rw [Nat.succ_mul] at this
  omega

theorem place_inj {r' c' : Nat} (hc : c < cols) (hc' : c' < cols)
    (same : r * cols + c = r' * cols + c') : r = r' ∧ c = c' := by
  have row : (r * cols + c) / cols = r := by
    rw [Nat.add_comm, Nat.add_mul_div_right _ _ (by omega), Nat.div_eq_of_lt hc, Nat.zero_add]
  have row' : (r' * cols + c') / cols = r' := by
    rw [Nat.add_comm, Nat.add_mul_div_right _ _ (by omega), Nat.div_eq_of_lt hc', Nat.zero_add]
  have rows : r = r' := by rw [← row, ← row', same]
  subst rows
  exact ⟨rfl, Nat.add_left_cancel same⟩

end Places

/-- The loop `for i in low..=high`. -/
def closedRange (low high : Nat) : List Nat := List.range' low (high + 1 - low)

theorem mem_closedRange {low high i : Nat} : i ∈ closedRange low high ↔ low ≤ i ∧ i ≤ high := by
  rw [closedRange, List.mem_range'_1]
  omega

variable {α : Type} {color : α}

/-- The action gives the colour to the places of the area and leaves all others alone. -/
def Paints (color : α) (area : Nat → Prop) (action : List α → List α) : Prop :=
  ∀ buf i, (area i → (action buf)[i]? = buf[i]?.map fun _ => color) ∧
    (¬ area i → (action buf)[i]? = buf[i]?)

namespace Paints

variable {area other : Nat → Prop} {action next : List α → List α}

theorem congr (h : Paints color area action) (same : ∀ i, area i ↔ other i) :
    Paints color other action := by
  intro buf i
  simpa only [same i] using h buf i

theorem none : Paints color (fun _ => False) fun buf => buf :=
  fun _ _ => ⟨fun h => h.elim, fun _ => rfl⟩

/-- A single place, when it lies in the buffer. -/
theorem set (place : Nat) : Paints color (· = place) fun buf => buf.set place color := by
  intro buf i
  rw [List.getElem?_set]
  constructor
  · intro here
    subst here
    rw [if_pos rfl]
    split
    · rw [List.getElem?_eq_getElem ‹_›, Option.map_some]
    · rw [List.getElem?_eq_none (by omega), Option.map_none]
  · intro away
    rw [if_neg (Ne.symm away)]

/-- One action after the other paints both areas. -/
theorem comp (h : Paints color area action) (after : Paints color other next) :
    Paints color (fun i => area i ∨ other i) fun buf => next (action buf) := by
  intro buf i
  have first := h buf i
  have second := after (action buf) i
  constructor
  · intro either
    by_cases here : other i
    · rw [second.1 here]
      by_cases before : area i
      · rw [first.1 before, Option.map_map]
        rfl
      · rw [first.2 before]
    · rw [second.2 here, first.1 (either.resolve_right here)]
  · intro neither
    rw [second.2 fun here => neither (.inr here), first.2 fun here => neither (.inl here)]

/-- A loop paints what its turns paint. -/
theorem foldl {ι : Type} {areas : ι → Nat → Prop} {body : List α → ι → List α}
    (turns : List ι) (each : ∀ turn ∈ turns, Paints color (areas turn) fun buf => body buf turn) :
    Paints color (fun i => ∃ turn ∈ turns, areas turn i) fun buf => turns.foldl body buf := by
  induction turns with
  | nil => exact none.congr (by simp)
  | cons turn rest ih =>
    have first := each turn List.mem_cons_self
    have later := ih fun turn member => each turn (List.mem_cons_of_mem _ member)
    apply (first.comp later).congr
    intro i
    simp only [List.mem_cons, exists_eq_or_imp]

theorem length (h : Paints color area action) (buf : List α) :
    (action buf).length = buf.length := by
  have same : ∀ i : Nat, (action buf).length ≤ i ↔ buf.length ≤ i := by
    intro i
    rw [← List.getElem?_eq_none_iff, ← List.getElem?_eq_none_iff]
    by_cases here : area i
    · rw [(h buf i).1 here, Option.map_eq_none_iff]
    · rw [(h buf i).2 here]
  exact Nat.le_antisymm ((same _).mpr (Nat.le_refl _)) ((same _).mp (Nat.le_refl _))

end Paints
end Warpine.Lib
