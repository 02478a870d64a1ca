import Mathlib.Data.Set.Defs

/-! Parts of things that are held through handles: who holds what of which thing, and
when no two handles hold the same part of one thing. -/
namespace Warpine.Lib

/-- What each handle holds. -/
abbrev Holdings (η β : Type) := η → β → Bool

namespace Holdings

variable {η φ β : Type} (holder : η → Prop) [DecidablePred holder] (part : β → Bool)

/-- Some handles let go of a part. -/
def release (held : Holdings η β) : Holdings η β := fun handle byte =>
  if holder handle ∧ part byte then false else held handle byte

/-- Some handles get hold of a part. -/
def take (held : Holdings η β) : Holdings η β := fun handle byte =>
  if holder handle ∧ part byte then true else held handle byte

/-- No two handles on one thing hold the same part of it. -/
def Apart (thing : η → Option φ) (held : Holdings η β) : Prop :=
  ∀ first second, first ≠ second → ∀ one, thing first = some one → thing second = some one →
    ∀ byte, ¬ (held first byte ∧ held second byte)

variable {held : Holdings η β} {thing : η → Option φ} {handle : η} {byte : β}

theorem of_release (h : held.release holder part handle byte) : held handle byte := by
  unfold release at h
  split at h
  · cases h
  · exact h

theorem not_release (there : holder handle) (inside : part byte) :
    held.release holder part handle byte = false := by
  rw [release, if_pos ⟨there, inside⟩]

theorem release_same (idle : part byte → held handle byte = false) :
    held.release holder part handle byte = held handle byte := by
  unfold release
  split
  · rename_i both
    exact (idle both.2).symm
  · rfl

theorem take_same (idle : part byte → held handle byte = true) :
    held.take holder part handle byte = held handle byte := by
  unfold take
  split
  · rename_i both
    exact (idle both.2).symm
  · rfl

theorem Apart.release (apart : Apart thing held) : Apart thing (held.release holder part) := by
  intro first second differ one hfirst hsecond byte both
  exact apart first second differ one hfirst hsecond byte
    ⟨of_release holder part both.1, of_release holder part both.2⟩

/-- One handle may take what no other handle on the same thing holds. -/
theorem Apart.take [DecidableEq η] (apart : Apart thing held) {one : φ} (there : thing handle = some one)
    (free : ∀ other, other ≠ handle → thing other = some one → ∀ byte, part byte →
      held other byte = false) : Apart thing (held.take (· = handle) part) := by
  have others : ∀ other, other ≠ handle → held.take (· = handle) part other = held other := by
    intro other differ
    ext1 byte
    rw [Holdings.take, if_neg fun both => differ both.1]
  have first : ∀ other, other ≠ handle → ∀ thing', thing other = some thing' →
      thing handle = some thing' → ∀ byte,
        ¬ (held other byte ∧ held.take (· = handle) part handle byte) := by
    rintro other differ thing' hother hhandle byte ⟨left, right⟩
    rw [Holdings.take] at right
    split at right
    · rename_i both
      rw [there] at hhandle
      cases hhandle
      rw [free other differ hother byte both.2] at left
      cases left
    · exact apart other handle differ thing' hother hhandle byte ⟨left, right⟩
  intro left right differ thing' hleft hright byte both
  by_cases isLeft : left = handle
  · subst isLeft
    rw [others right (Ne.symm differ)] at both
    exact first right (Ne.symm differ) thing' hright hleft byte both.symm
  · rw [others left isLeft] at both
    by_cases isRight : right = handle
    · subst isRight
      exact first left isLeft thing' hleft hright byte both
    · rw [others right isRight] at both
      exact apart left right differ thing' hleft hright byte both

end Holdings
end Warpine.Lib
