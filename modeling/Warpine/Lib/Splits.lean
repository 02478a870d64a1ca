import Mathlib.Data.List.Forall2

/-! Texts that are cut into consecutive pieces, one for each letter of a pattern. -/
namespace Warpine.Lib

variable {α β : Type}

/-- The text is a piece for each letter, one after another. -/
def Splits (piece : α → List β → Prop) (pattern : List α) (text : List β) : Prop :=
  ∃ pieces, List.Forall₂ piece pattern pieces ∧ pieces.flatten = text

namespace Splits

variable {piece : α → List β → Prop} {letter : α} {pattern : List α} {text : List β}

theorem nil_iff : Splits piece [] text ↔ text = [] := by
  constructor
  · rintro ⟨pieces, fits, rfl⟩
    rw [List.forall₂_nil_left_iff.mp fits, List.flatten_nil]
  · rintro rfl
    exact ⟨[], .nil, List.flatten_nil⟩

/-- The piece of the first letter stands in front of the others. -/
theorem cons_iff : Splits piece (letter :: pattern) text ↔
    ∃ front back, front ++ back = text ∧ piece letter front ∧ Splits piece pattern back := by
  constructor
  · rintro ⟨pieces, fits, rfl⟩
    obtain ⟨front, rest, first, others, rfl⟩ := List.forall₂_cons_left_iff.mp fits
    exact ⟨front, rest.flatten, List.flatten_cons.symm, first, rest, others, rfl⟩
  · rintro ⟨front, _, rfl, first, rest, others, rfl⟩
    exact ⟨front :: rest, .cons first others, List.flatten_cons⟩

/-- A letter that any piece fits. -/
theorem cons_any_iff (any : ∀ front, piece letter front) : Splits piece (letter :: pattern) text ↔
    ∃ front back, front ++ back = text ∧ Splits piece pattern back := by
  rw [cons_iff]
  constructor
  · exact fun ⟨front, back, joined, _, rest⟩ => ⟨front, back, joined, rest⟩
  · exact fun ⟨front, back, joined, rest⟩ => ⟨front, back, joined, any front, rest⟩

/-- A letter whose pieces are single letters of the text. -/
theorem cons_one_iff {test : β → Prop}
    (one : ∀ front, piece letter front ↔ ∃ c, front = [c] ∧ test c) :
    Splits piece (letter :: pattern) text ↔
      ∃ c back, text = c :: back ∧ test c ∧ Splits piece pattern back := by
  rw [cons_iff]
  constructor
  · rintro ⟨front, back, rfl, first, rest⟩
    obtain ⟨c, rfl, tested⟩ := (one front).mp first
    exact ⟨c, back, rfl, tested, rest⟩
  · rintro ⟨c, back, rfl, tested, rest⟩
    exact ⟨[c], back, rfl, (one [c]).mpr ⟨c, rfl, tested⟩, rest⟩

end Splits
end Warpine.Lib
