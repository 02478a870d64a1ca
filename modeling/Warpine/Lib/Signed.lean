import Mathlib.Data.Int.Notation

/-! Signed words with the overflow check on: a value outside them is a panic. -/
namespace Warpine.Lib

/-- A signed number of that size. -/
def InRange (bound value : Int) : Prop := -bound ≤ value ∧ value < bound

instance (bound value : Int) : Decidable (InRange bound value) :=
  inferInstanceAs (Decidable (_ ∧ _))

abbrev InI32 : Int → Prop := InRange 2147483648

def i32 (value : Int) : Option Int := if InI32 value then some value else none

variable {value result : Int}

theorem i32_of_inI32 (h : InI32 value) : i32 value = some value := if_pos h

theorem i32_of_not_inI32 (h : ¬ InI32 value) : i32 value = none := if_neg h

theorem i32_eq_some : i32 value = some result ↔ InI32 value ∧ value = result := by
  unfold i32
  split <;> simp [*]

theorem isSome_i32 : (i32 value).isSome = true ↔ InI32 value := by
  unfold i32
  split <;> simp [*]

theorem isSome_i32_bind {α : Type} {next : Int → Option α} :
    ((i32 value).bind next).isSome = true ↔ InI32 value ∧ (next value).isSome = true := by
  by_cases fits : InI32 value
  · rw [i32_of_inI32 fits, Option.bind_some]
    exact (and_iff_right fits).symm
  · rw [i32_of_not_inI32 fits, Option.bind_none]
    exact iff_of_false Bool.false_ne_true fun both => fits both.1

end Warpine.Lib
