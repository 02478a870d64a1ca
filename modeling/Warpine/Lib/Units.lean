import Mathlib.Data.List.Basic

/-! Strings in which a character has one element or two: a lead element takes the next one
with it, as far as there is one. -/
namespace Warpine.Lib

section Units

variable {α : Type} {isLead : α → Bool} {change : List α → List α}

def units (isLead : α → Bool) : List α → List (List α)
  | [] => []
  | [item] => [[item]]
  | lead :: trail :: rest =>
      if isLead lead then [lead, trail] :: units isLead rest
      else [lead] :: units isLead (trail :: rest)

def mapUnits (isLead : α → Bool) (change : List α → List α) (data : List α) : List α :=
  (units isLead data).flatMap change

/-- A change of units that leaves their form as it is. -/
structure KeepsForm (isLead : α → Bool) (change : List α → List α) : Prop where
  single : ∀ item, ∃ item', change [item] = [item'] ∧ isLead item' = isLead item
  pair : ∀ lead trail, isLead lead = true → ∃ lead' trail',
    change [lead, trail] = [lead', trail'] ∧ isLead lead' = true

theorem units_pair {lead trail : α} {rest : List α} (h : isLead lead = true) :
    units isLead (lead :: trail :: rest) = [lead, trail] :: units isLead rest := by
  rw [units, if_pos h]

theorem units_single {item : α} {rest : List α} (h : isLead item = false) :
    units isLead (item :: rest) = [item] :: units isLead rest := by
  cases rest with
  | nil => rfl
  | cons trail rest => rw [units, if_neg (by rw [h]; exact Bool.false_ne_true)]

theorem units_no_lead {data : List α} (none_ : ∀ item, isLead item = false) :
    units isLead data = data.map fun item => [item] := by
  induction data with
  | nil => rfl
  | cons item rest ih => rw [units_single (none_ item), ih, List.map_cons]

/-- A unit is one element of the string, or a lead element with another. -/
theorem mem_units {data unit : List α} (member : unit ∈ units isLead data) :
    (∃ item ∈ data, unit = [item]) ∨ ∃ lead trail, isLead lead = true ∧ unit = [lead, trail] := by
  induction data using units.induct isLead with
  | case1 => cases member
  | case2 item =>
    rw [units, List.mem_singleton] at member
    exact Or.inl ⟨item, List.mem_singleton_self item, member⟩
  | case3 lead trail rest hlead ih =>
    rw [units_pair hlead, List.mem_cons] at member
    rcases member with here | later
    · exact Or.inr ⟨lead, trail, hlead, here⟩
    · rcases ih later with ⟨item, inside, same⟩ | pair
      · exact Or.inl ⟨item, List.mem_cons_of_mem _ (List.mem_cons_of_mem _ inside), same⟩
      · exact Or.inr pair
  | case4 lead trail rest hlead ih =>
    rw [units_single (Bool.eq_false_iff.mpr hlead), List.mem_cons] at member
    rcases member with here | later
    · exact Or.inl ⟨lead, List.mem_cons_self, here⟩
    · rcases ih later with ⟨item, inside, same⟩ | pair
      · exact Or.inl ⟨item, List.mem_cons_of_mem _ inside, same⟩
      · exact Or.inr pair

/-- The changed string falls into the changed units. -/
theorem units_mapUnits (keeps : KeepsForm isLead change) (data : List α) :
    units isLead (mapUnits isLead change data) = (units isLead data).map change := by
  unfold mapUnits
  induction data using units.induct isLead with
  | case1 => rfl
  | case2 item =>
    obtain ⟨item', changed, _⟩ := keeps.single item
    change units isLead (change [item] ++ []) = [change [item]]
    rw [changed]
    rfl
  | case3 lead trail rest hlead ih =>
    obtain ⟨lead', trail', changed, hlead'⟩ := keeps.pair lead trail hlead
    rw [units_pair hlead, List.flatMap_cons, List.map_cons, changed, ← ih]
    exact units_pair hlead'
  | case4 lead trail rest hlead ih =>
    obtain ⟨lead', changed, same⟩ := keeps.single lead
    rw [Bool.not_eq_true] at hlead
    rw [units_single hlead, List.flatMap_cons, List.map_cons, changed, ← ih]
    exact units_single (same.trans hlead)

theorem length_mapUnits (keeps : KeepsForm isLead change) (data : List α) :
    (mapUnits isLead change data).length = data.length := by
  unfold mapUnits
  induction data using units.induct isLead with
  | case1 => rfl
  | case2 item =>
    obtain ⟨item', changed, _⟩ := keeps.single item
    change (change [item] ++ []).length = 1
    rw [changed]
    rfl
  | case3 lead trail rest hlead ih =>
    obtain ⟨lead', trail', changed, _⟩ := keeps.pair lead trail hlead
    rw [units_pair hlead, List.flatMap_cons, changed, List.length_append, ih, Nat.add_comm]
    rfl
  | case4 lead trail rest hlead ih =>
    obtain ⟨lead', changed, _⟩ := keeps.single lead
    rw [units_single (Bool.eq_false_iff.mpr hlead), List.flatMap_cons, changed,
      List.length_append, ih, Nat.add_comm]
    rfl

/-- A change of each unit that is done once for all is so for the string. -/
theorem mapUnits_twice (keeps : KeepsForm isLead change) {data : List α}
    (once : ∀ unit ∈ units isLead data, change (change unit) = change unit) :
    mapUnits isLead change (mapUnits isLead change data) = mapUnits isLead change data := by
  unfold mapUnits
  have cut := units_mapUnits keeps data
  unfold mapUnits at cut
  rw [cut, List.flatMap_map]
  exact List.flatMap_congr once

end Units

end Warpine.Lib
