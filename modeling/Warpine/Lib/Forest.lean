import Mathlib.Data.Fintype.Card
import Mathlib.Logic.Function.Basic
import Mathlib.Logic.Relation

/-! Forests as partial functions to the parent, and the loops that climb them. -/
namespace Warpine.Lib
open Relation

section Climbing

variable {α : Type} (up : α → Option α)

/-- One step towards the root. -/
def Child (a b : α) : Prop := up a = some b

/-- The second is the first or one of its ancestors. -/
def Climbs : α → α → Prop := ReflTransGen (Child up)

/-- Nothing is its own ancestor. -/
def Forest : Prop := ∀ a, ¬TransGen (Child up) a a

variable {up}

theorem Climbs.of_root {a b : α} (root : up a = none) (climbs : Climbs up a b) : b = a := by
  rcases ReflTransGen.cases_head climbs with same | ⟨c, first, _⟩
  · exact same.symm
  · rw [Child, root] at first
    contradiction

theorem Climbs.of_child {a p b : α} (link : up a = some p) (climbs : Climbs up a b) :
    b = a ∨ Climbs up p b := by
  rcases ReflTransGen.cases_head climbs with same | ⟨c, first, rest⟩
  · exact .inl same.symm
  · rw [Child, link] at first
    cases first
    exact .inr rest

theorem forest_of_roots (roots : ∀ a, up a = none) : Forest up := by
  intro a cycle
  obtain ⟨b, first, _⟩ := TransGen.head'_iff.mp cycle
  rw [Child, roots a] at first
  contradiction

/-- On a finite type every climb comes to an end. -/
theorem Forest.wellFounded [Finite α] (forest : Forest up) :
    WellFounded fun b a => Child up a b := by
  let parent := fun b a => Child up a b
  have irrefl : Std.Irrefl (TransGen parent) := by
    constructor
    intro a cycle
    exact forest a (transGen_swap.mp cycle)
  have wf : WellFounded (TransGen parent) := Finite.wellFounded_of_trans_of_irrefl _
  have sub : Subrelation parent (TransGen parent) := fun link => .single link
  exact sub.wf wf

/-- Whatever a cycle leads to leads back to it. -/
theorem Climbs.back {x y : α} (climbs : Climbs up x y) (cycle : TransGen (Child up) x x) :
    Climbs up y x := by
  induction climbs with
  | refl => exact .refl
  | @tail y _ _ last ih =>
    obtain ⟨z, first, rest⟩ : ∃ z, Child up y z ∧ Climbs up z x := by
      rcases ReflTransGen.cases_head ih with same | onward
      · rw [same]
        exact TransGen.head'_iff.mp cycle
      · exact onward
    rw [Child, last] at first
    cases first
    exact rest

variable [DecidableEq α]

/-- A new parent for one node moves no chain that stays clear of the node. -/
theorem climbs_update {a b : α} {parent : Option α} (apart : ¬Climbs up b a) (c : α) :
    Climbs (Function.update up a parent) b c ↔ Climbs up b c := by
  constructor
  · intro climbs
    induction climbs with
    | refl => exact .refl
    | tail _ last ih =>
      refine ih.tail ?_
      have clear : _ ≠ a := fun same => apart (same ▸ ih)
      rwa [Child, Function.update_of_ne clear] at last
  · intro climbs
    induction climbs with
    | refl => exact .refl
    | tail before last ih =>
      refine ih.tail ?_
      have clear : _ ≠ a := fun same => apart (same ▸ before)
      rwa [Child, Function.update_of_ne clear]

/-- A node may hang anywhere but below itself. -/
theorem Forest.update (forest : Forest up) {a : α} {parent : Option α}
    (apart : ∀ p, parent = some p → ¬Climbs up p a) :
    Forest (Function.update up a parent) := by
  have no_cycle_at : ¬TransGen (Child (Function.update up a parent)) a a := by
    intro cycle
    obtain ⟨p, first, back⟩ := TransGen.head'_iff.mp cycle
    have link : parent = some p := by simpa [Child] using first
    exact apart p link ((climbs_update (apart p link) a).mp back)
  intro x cycle
  obtain ⟨z, first, back⟩ := TransGen.head'_iff.mp cycle
  by_cases through : Climbs (Function.update up a parent) z a
  · -- the cycle goes through the node that moved, so there is one from there
    have there : Climbs (Function.update up a parent) x a := through.head first
    have away : TransGen (Child (Function.update up a parent)) a x :=
      TransGen.trans_right (there.back cycle) cycle
    exact no_cycle_at (TransGen.trans_left away there)
  · have clear : x ≠ a := fun same => through (same ▸ back)
    rw [Child, Function.update_of_ne clear] at first
    have restored : Climbs (Function.update (Function.update up a parent) a (up a)) z x :=
      (climbs_update through x).mpr back
    rw [Function.update_idem, Function.update_eq_self] at restored
    exact forest x (TransGen.head' first restored)

end Climbing

/-- A loop with fuel gives one result from some fuel on. -/
def Ends {β : Type} (loop : Nat → Option β) : Prop :=
  ∃ fuel result, ∀ more, fuel ≤ more → loop more = some result

section Loops

variable {β : Type} {loop next : Nat → Option β}

theorem Ends.now (result : β) (h : ∀ fuel, loop (fuel + 1) = some result) : Ends loop := by
  refine ⟨1, result, fun more enough => ?_⟩
  obtain ⟨fuel, rfl⟩ := Nat.exists_eq_add_of_le' enough
  exact h fuel

theorem Ends.step (h : ∀ fuel, loop (fuel + 1) = next fuel) (ends : Ends next) : Ends loop := by
  obtain ⟨fuel, result, rest⟩ := ends
  refine ⟨fuel + 1, result, fun more enough => ?_⟩
  obtain ⟨spare, rfl⟩ := Nat.exists_eq_add_of_le' enough
  rw [← Nat.add_assoc, h]
  exact rest _ (Nat.le_add_left _ _)

end Loops
end Warpine.Lib
