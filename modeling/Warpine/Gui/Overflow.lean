import Warpine.Gui.RenderLine

/-! Which rectangles and which lines are drawn without an overflow. -/
namespace Warpine.Gui
open Warpine.Lib

/-- `width as i32 - 1` and `height as i32 - 1` are the only sums on a rectangle's edges that the
code checks. -/
def checkedRect (buf : List UInt32) (width height : Nat) (x1 y1 x2 y2 : Int) (color : UInt32)
    (fill : Bool) : Option (List UInt32) :=
  if width = 0 ∨ height = 0 then some buf
  else do
    let _ ← i32 (asI32 width - 1)
    let _ ← i32 (asI32 height - 1)
    return renderRectToBuffer buf width height x1 y1 x2 y2 color fill

/-- The last column and row have numbers. -/
def BoxFits (width height : Nat) : Prop :=
  width = 0 ∨ height = 0 ∨ (width ≠ 2 ^ 31 ∧ height ≠ 2 ^ 31)

section Boxes

variable {width height : Nat} {x1 y1 x2 y2 : Int} {color : UInt32} {fill : Bool}
  {buf after : List UInt32}

theorem last_inI32 {size : Nat} (small : size < u32Size) :
    InI32 (asI32 size - 1) ↔ size ≠ 2 ^ 31 := by
  unfold asI32 InI32 InRange
  rw [Int.bmod_def]
  unfold u32Size at small ⊢
  omega

theorem checkedRect_isSome (small : width < u32Size ∧ height < u32Size) :
    (checkedRect buf width height x1 y1 x2 y2 color fill).isSome = true ↔
      BoxFits width height := by
  unfold checkedRect BoxFits
  by_cases none : width = 0 ∨ height = 0
  · rw [if_pos none]
    exact iff_of_true rfl (none.elim .inl fun zero => .inr (.inl zero))
  · obtain ⟨wide, tall⟩ := not_or.mp none
    rw [if_neg none, or_iff_right wide, or_iff_right tall, ← last_inI32 small.1,
      ← last_inI32 small.2]
    simp only [Option.bind_eq_bind, isSome_i32_bind, Option.pure_def, Option.isSome_some, and_true]

theorem renderRectToBuffer_length :
    (renderRectToBuffer buf width height x1 y1 x2 y2 color fill).length = buf.length := by
  unfold renderRectToBuffer
  split
  · rfl
  · cases fill with
    | true => exact Paints.length (fillRows_paints width _ _ _ _ color) buf
    | false =>
      exact Paints.length ((outlineRows_paints width _ _ _ _ color).comp
        (outlineColumns_paints width _ _ _ _ color)) buf

theorem checkedRect_length (h : checkedRect buf width height x1 y1 x2 y2 color fill = some after) :
    after.length = buf.length := by
  unfold checkedRect at h
  split at h
  · rw [← Option.some.inj h]
  · simp only [Option.bind_eq_bind, Option.bind_eq_some_iff, Option.pure_def,
      Option.some.injEq] at h
    obtain ⟨_, _, _, _, rfl⟩ := h
    exact renderRectToBuffer_length

end Boxes

/-- The errors of a line's loop, by the lengths of its sides: the largest multiple of their
common divisor below half of the longer side says how large they get. -/
def ErrorsFit (dx dy : Int) : Prop :=
  if dy ≤ dx then
    2 * (DigitalLine.underHalf (Int.gcd dx dy) dx + (dx - dy)) < 2 ^ 31 ∧
      2 * dy + DigitalLine.upToHalf (Int.gcd dx dy) dx ≤ dx + 2 ^ 31
  else
    2 * (DigitalLine.underHalf (Int.gcd dx dy) dy + (dy - dx)) ≤ 2 ^ 31 ∧
      (dx = 0 ∨ 2 * dy ≤ 2 ^ 31 + (DigitalLine.upToHalf (Int.gcd dx dy) dy + Int.gcd dx dy))

/-- The distances of a line's ends, the rows of both ends, and the errors in between. -/
def LineFits (width height : Nat) (x1 y1 x2 y2 : Int) : Prop :=
  width = 0 ∨ height = 0 ∨ SidesFit x1 y1 x2 y2 ∧ (FlipFits height y1 ∧ FlipFits height y2) ∧
    ErrorsFit (x2 - x1).natAbs (y2 - y1).natAbs

section Lines

open DigitalLine

theorem errorsFit_iff {dx dy : Int} (longX : 0 ≤ dx ∧ InI32 dx) (longY : 0 ≤ dy ∧ InI32 dy) :
    (∀ k, k < steps dx dy → TurnFits 2147483648 dx dy (walk dx dy k)) ↔ ErrorsFit dx dy := by
  have turns (side : Int) (k : Nat) : k < side.toNat ↔ (k : Int) < side := by omega
  unfold ErrorsFit steps
  by_cases flat : dy ≤ dx
  · rw [if_pos flat, Int.max_eq_left flat]
    by_cases none : dx = 0
    · obtain rfl : dy = 0 := by omega
      subst none
      exact iff_of_true (fun k inside => absurd inside (Nat.not_lt_zero k)) (by decide)
    · simp only [turns]
      exact turnsFit_flat (by omega) flat longY.1 longX.2.2
  · rw [if_neg flat, Int.max_eq_right (by omega)]
    simp only [turns]
    exact turnsFit_steep (by omega) longX.1 longY.2.2

variable {width height : Nat} {x1 y1 x2 y2 : Int} {color : UInt32} {buf after : List UInt32}

theorem lineLoop_length {dx dy sx sy : Int} {turns : Nat} {s : LineState} {trace : LineTrace}
    (size : buf.length = width * height)
    (h : lineLoop width height color x2 y2 dx dy sx sy turns s buf = some trace) :
    trace.buf.length = buf.length := by
  induction turns generalizing s buf trace with
  | zero => rw [← Option.some.inj h]
  | succ turns ih =>
    rw [lineLoop_succ size, Option.ite_none_right_eq_some] at h
    obtain ⟨_, h⟩ := h
    dsimp only at h
    split at h
    · rw [← Option.some.inj h, paintPlace_length]
    · obtain ⟨next, _, h⟩ := Option.bind_eq_some_iff.mp h
      obtain ⟨rest, later, rfl⟩ := Option.map_eq_some_iff.mp h
      exact (ih (by rw [paintPlace_length, size]) later).trans (paintPlace_length _)

/-- Where the sides have lengths, the loop can start. -/
theorem sidesFit_of_isSome {turns : Nat} (some_ : ¬ (width = 0 ∨ height = 0))
    (h : (renderLineToBuffer turns buf width height x1 y1 x2 y2 color).isSome = true) :
    SidesFit x1 y1 x2 y2 := by
  rw [renderLineToBuffer, if_neg some_, distance_eq, distance_eq] at h
  by_contra far
  by_cases columns : InI32 (x2 - x1) ∧ InI32 (x2 - x1).natAbs
  · rw [if_pos columns, Option.bind_eq_bind, Option.bind_some,
      if_neg fun rows => far ⟨columns, rows⟩] at h
    contradiction
  · rw [if_neg columns] at h
    contradiction

theorem renderLineToBuffer_length {turns : Nat} {trace : LineTrace}
    (size : buf.length = width * height)
    (h : renderLineToBuffer turns buf width height x1 y1 x2 y2 color = some trace) :
    trace.buf.length = buf.length := by
  by_cases none : width = 0 ∨ height = 0
  · rw [renderLineToBuffer, if_pos none] at h
    rw [← Option.some.inj h]
  · have sides := sidesFit_of_isSome none (Option.isSome_iff_exists.mpr ⟨_, h⟩)
    rw [renderLineToBuffer_eq turns none sides] at h
    exact lineLoop_length size h

/-- Exactly the lines that fit are drawn, however many turns the loop takes. -/
theorem renderLineToBuffer_isSome (rangeX : InI32 x1 ∧ InI32 x2) (rangeY : InI32 y1 ∧ InI32 y2)
    (size : buf.length = width * height) :
    (∀ turns, (renderLineToBuffer turns buf width height x1 y1 x2 y2 color).isSome = true) ↔
      LineFits width height x1 y1 x2 y2 := by
  by_cases none : width = 0 ∨ height = 0
  · refine iff_of_true (fun turns => ?_) (none.elim .inl fun zero => .inr (.inl zero))
    rw [renderLineToBuffer, if_pos none]
    rfl
  obtain ⟨wide, tall⟩ := not_or.mp none
  unfold LineFits
  rw [or_iff_right wide, or_iff_right tall]
  have sideX := side_of x1 x2
  have sideY := side_of y1 y2
  constructor
  · intro runs
    have sides := sidesFit_of_isSome none (runs 0)
    obtain ⟨trace, ended⟩ := Option.isSome_iff_exists.mp
      (runs (steps (x2 - x1).natAbs (y2 - y1).natAbs + 1))
    rw [renderLineToBuffer_eq _ none sides] at ended
    obtain ⟨flips, fits⟩ := fits_of_lineLoop sideX sideY rangeX rangeY sides.rows.2 size
      (Nat.zero_le _) (by omega) ended
    refine ⟨sides, (flips_iff sideX sideY height).mp fun k => flips k (Nat.zero_le k), ?_⟩
    exact (errorsFit_iff ⟨by omega, sides.columns.2⟩ ⟨by omega, sides.rows.2⟩).mp
      fun k => fits k (Nat.zero_le k)
  · rintro ⟨sides, flips, errors⟩ turns
    have rows := (flips_iff sideX sideY height).mpr flips
    have fits := (errorsFit_iff ⟨by omega, sides.columns.2⟩ ⟨by omega, sides.rows.2⟩).mpr errors
    rw [renderLineToBuffer_eq _ none sides, lineLoop_fits sideX sideY rangeX rangeY sides.rows.2
      turns size (Nat.zero_le _) (fun k _ => rows k) (fun k _ => fits k)]
    rfl

end Lines

end Warpine.Gui
