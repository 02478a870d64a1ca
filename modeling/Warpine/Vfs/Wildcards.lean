import Warpine.Lib.Splits
import Warpine.Vfs.HostDir

/-! What a pattern of `DosFindFirst` matches. The matcher tries both continuations of
each star; the names it accepts are those that fall into a piece for each letter. -/
namespace Warpine.Vfs
open Warpine.Lib Posix

/-- The piece of a name that a letter of a pattern stands for. -/
def Stands (letter : Char) (piece : Name) : Prop :=
  if letter = '*' then True
  else if letter = '?' then ∃ c, piece = [c]
  else ∃ c, piece = [c] ∧ c.toLower = letter.toLower

/-- Texts that differ in the case of ASCII letters only. -/
def SameCase (text other : List Char) : Prop := text.map Char.toLower = other.map Char.toLower

/-- The rest of the pattern matches some end of the name. -/
theorem starMatch_map {rest : Name → Bool} {name : Name} :
    starMatch rest (name.map Char.toLower) = true ↔
      ∃ front back, front ++ back = name ∧ rest (back.map Char.toLower) = true := by
  induction name with
  | nil =>
    constructor
    · exact fun matched => ⟨[], [], rfl, matched⟩
    · rintro ⟨front, back, joined, matched⟩
      obtain ⟨_, rfl⟩ := List.append_eq_nil_iff.mp joined
      exact matched
  | cons c name ih =>
    rw [List.map_cons, starMatch, Bool.or_eq_true, ih]
    constructor
    · rintro (here | ⟨front, back, rfl, later⟩)
      · exact ⟨[], c :: name, rfl, here⟩
      · exact ⟨c :: front, back, rfl, later⟩
    · rintro ⟨front, back, joined, matched⟩
      cases front with
      | nil =>
        obtain rfl : back = c :: name := joined
        exact .inl matched
      | cons first front =>
        obtain ⟨_, rfl⟩ := List.cons.inj joined
        exact .inr ⟨front, back, rfl, matched⟩

theorem toNat_toLower (c : Char) :
    c.toLower.toNat = if 65 ≤ c.toNat ∧ c.toNat ≤ 90 then c.toNat + 32 else c.toNat := by
  have bounds : (c.val ≥ 'A'.val ∧ c.val ≤ 'Z'.val) ↔ 65 ≤ c.toNat ∧ c.toNat ≤ 90 := by
    rw [ge_iff_le, UInt32.le_iff_toNat_le, UInt32.le_iff_toNat_le]
    exact Iff.rfl
  by_cases upper : c.val ≥ 'A'.val ∧ c.val ≤ 'Z'.val
  · have value : c.toLower.val = c.val + ('a'.val - 'A'.val) := by
      delta Char.toLower
      rw [dif_pos upper]
    have small := (bounds.mp upper).2
    rw [if_pos (bounds.mp upper), Char.toNat, value, UInt32.toNat_add]
    have distance : ('a'.val - 'A'.val).toNat = 32 := rfl
    have same : c.val.toNat = c.toNat := rfl
    omega
  · have same : c.toLower = c := dif_neg upper
    rw [if_neg fun inside => upper (bounds.mpr inside), same]

/-- A mark that is no letter has no case. -/
theorem toLower_eq_iff {c mark : Char} (below : mark.toNat < 65) :
    c.toLower = mark ↔ c = mark := by
  rw [← Char.toNat_inj, toNat_toLower, ← Char.toNat_inj]
  split <;> omega

theorem map_toLower_eq_iff {text marks : List Char} (below : ∀ mark ∈ marks, mark.toNat < 65) :
    text.map Char.toLower = marks ↔ text = marks := by
  induction marks generalizing text with
  | nil => exact List.map_eq_nil_iff
  | cons mark marks ih =>
    obtain ⟨first, others⟩ := List.forall_mem_cons.mp below
    cases text with
    | nil => simp
    | cons c text =>
      rw [List.map_cons, List.cons.injEq, List.cons.injEq, toLower_eq_iff first, ih others]

/-- The matcher, letter by letter. -/
theorem wildcardMatchRecursive_iff {pattern : Path} {name : Name} :
    wildcardMatchRecursive (pattern.map Char.toLower) (name.map Char.toLower) = true ↔
      Splits Stands pattern name := by
  induction pattern generalizing name with
  | nil => simp only [List.map_nil, wildcardMatchRecursive, List.isEmpty_map, List.isEmpty_iff,
      Splits.nil_iff]
  | cons letter pattern ih =>
    have star := @toLower_eq_iff letter '*' (by decide)
    have question := @toLower_eq_iff letter '?' (by decide)
    rw [List.map_cons]
    by_cases isStar : letter = '*'
    · have any : ∀ front, Stands letter front := by
        intro front
        rw [Stands, if_pos isStar]
        trivial
      rw [Splits.cons_any_iff any, star.mpr isStar, wildcardMatchRecursive, starMatch_map]
      simp only [ih]
    by_cases isQuestion : letter = '?'
    · have one : ∀ front, Stands letter front ↔ ∃ c, front = [c] ∧ True := by
        intro front
        rw [Stands, if_neg isStar, if_pos isQuestion]
        simp only [and_true]
      rw [Splits.cons_one_iff one, question.mpr isQuestion]
      cases name with
      | nil => simp [wildcardMatchRecursive]
      | cons c name => simp [wildcardMatchRecursive, ih]
    · have one : ∀ front, Stands letter front ↔
          ∃ c, front = [c] ∧ c.toLower = letter.toLower := by
        intro front
        rw [Stands, if_neg isStar, if_neg isQuestion]
      rw [Splits.cons_one_iff one]
      have plainStar := mt star.mp isStar
      have plainQuestion := mt question.mp isQuestion
      generalize letter.toLower = lower at plainStar plainQuestion
      cases name with
      | nil => simp [wildcardMatchRecursive]
      | cons c name =>
        simp only [List.map_cons, wildcardMatchRecursive, Bool.and_eq_true, beq_iff_eq, ih]
        constructor
        · rintro ⟨same, rest⟩
          exact ⟨c, name, rfl, same.symm, rest⟩
        · rintro ⟨_, _, joined, same, rest⟩
          obtain ⟨rfl, rfl⟩ := List.cons.inj joined
          exact ⟨same.symm, rest⟩

/-- A name matches exactly where it falls into consecutive pieces, one for each letter of
the pattern, and `*.*` matches every name. The case of ASCII letters does not matter. -/
theorem wildcardMatch_iff (pattern : Path) (name : Name) :
    (wildcardMatch pattern name = true ↔
        pattern = "*.*".toList ∨ Splits Stands pattern name) ∧
      ∀ otherPattern otherName, SameCase pattern otherPattern → SameCase name otherName →
        wildcardMatch otherPattern otherName = wildcardMatch pattern name := by
  constructor
  · have below : ∀ mark ∈ ['*', '.', '*'], mark.toNat < 65 := by simp
    have all := @map_toLower_eq_iff pattern "*.*".toList below
    rw [wildcardMatch, ← wildcardMatchRecursive_iff, ← all]
    by_cases every : pattern.map Char.toLower = "*.*".toList
    · simp only [every, if_true, true_or]
    · simp only [every, if_false, false_or]
  · intro otherPattern otherName samePattern sameName
    rw [wildcardMatch, wildcardMatch, ← samePattern, ← sameName]

end Warpine.Vfs
