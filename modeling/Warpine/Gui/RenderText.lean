import Warpine.Gui.RenderLine
import Warpine.Lib.Lists

/-! Text in a window's pixel buffer, and which text is drawn without an overflow. The glyphs
come from a font that is a parameter. -/
namespace Warpine.Gui
open Warpine.Lib

/-- Sixteen rows from the top, with the leftmost pixel in the highest bit. -/
abbrev Glyph := Vector UInt8 16

/-- `get_glyph_for_char`. -/
abbrev Font := Char → Glyph

/-- `bits & (0x80 >> col) != 0`. -/
def hasInk (bits : UInt8) (col : Nat) : Prop := bits &&& (0x80 >>> UInt8.ofNat col) ≠ 0

instance (bits : UInt8) (col : Nat) : Decidable (hasInk bits col) :=
  inferInstanceAs (Decidable (_ ≠ _))

def textScreenY (y row charH : Int) (height : Nat) : Option Int := do
  let below ← i32 (asI32 height - y)
  let top ← i32 (below - charH)
  i32 (top + row)

section Render

variable (width height : Nat) (x y : Int) (color : UInt32)

def renderDot (cx : Int) (row : Nat) (bits : UInt8) (buf : List UInt32) (col : Nat) :
    Option (List UInt32) :=
  if hasInk bits col then do
    let px ← i32 (cx + col)
    let py ← textScreenY y row 16 height
    plot buf width height color px py
  else some buf

def renderGlyph (glyph : Glyph) (cx : Int) (buf : List UInt32) : Option (List UInt32) :=
  glyph.toList.zipIdx.foldlM (fun buf entry =>
    (List.range 8).foldlM (renderDot width height y color cx entry.2 entry.1) buf) buf

def renderChar (font : Font) (buf : List UInt32) (entry : Char × Nat) : Option (List UInt32) := do
  let offset ← i32 (asI32 entry.2 * 8)
  let cx ← i32 (x + offset)
  renderGlyph width height y color (font entry.1) cx buf

def renderTextToBuffer (font : Font) (text : List Char) (buf : List UInt32) :
    Option (List UInt32) :=
  if width = 0 ∨ height = 0 then some buf
  else text.zipIdx.foldlM (renderChar width height x y color font) buf

end Render

/-- A pixel that the glyph has. -/
def Inked (glyph : Glyph) (row col : Nat) : Prop :=
  col < 8 ∧ ∃ bits, glyph.toList[row]? = some bits ∧ hasInk bits col

/-- Where the glyphs of a text stand, and their pixels, have coordinates that fit. -/
def TextFits (font : Font) (width height : Nat) (x y : Int) (text : List Char) : Prop :=
  width = 0 ∨ height = 0 ∨ ∀ last, text.getLast? = some last →
    (text.length ≤ 2 ^ 28 ∧ x + 8 * (text.length - 1) < 2 ^ 31) ∧
      (∀ row col, Inked (font last) row col → x + 8 * (text.length - 1) + col < 2 ^ 31) ∧
        ((∃ char ∈ text, ∃ row col, Inked (font char) row col) →
          InI32 (asI32 height - y) ∧ InI32 (asI32 height - y - 16))

section Lengths

variable {width height : Nat} {color : UInt32} {buf after : List UInt32}

theorem plot_isSome (size : buf.length = width * height) (x fy : Int) :
    (plot buf width height color x fy).isSome = true := by
  unfold plot putPixel
  by_cases on : OnBuffer width height x fy
  · rw [if_pos on, if_pos (size ▸ pixelIdx_lt on), Option.isSome_some]
  · rw [if_neg on, Option.isSome_some]

theorem plot_length {x fy : Int} (h : plot buf width height color x fy = some after) :
    after.length = buf.length := by
  unfold plot putPixel at h
  split at h
  · rw [Option.ite_none_right_eq_some, Option.some.injEq] at h
    rw [← h.2, List.length_set]
  · rw [← Option.some.inj h]

theorem renderDot_length {y cx : Int} {row col : Nat} {bits : UInt8}
    (h : renderDot width height y color cx row bits buf col = some after) :
    after.length = buf.length := by
  unfold renderDot at h
  split at h
  · simp only [Option.bind_eq_bind, Option.bind_eq_some_iff] at h
    obtain ⟨px, _, py, _, plotted⟩ := h
    exact plot_length plotted
  · rw [← Option.some.inj h]

theorem renderGlyph_length {y cx : Int} {glyph : Glyph}
    (h : renderGlyph width height y color glyph cx buf = some after) :
    after.length = buf.length :=
  foldlM_length (fun _ _ _ row => foldlM_length (fun _ _ _ dot => renderDot_length dot) row) h

theorem renderChar_length {font : Font} {x y : Int} {entry : Char × Nat}
    (h : renderChar width height x y color font buf entry = some after) :
    after.length = buf.length := by
  unfold renderChar at h
  simp only [Option.bind_eq_bind, Option.bind_eq_some_iff] at h
  obtain ⟨offset, _, cx, _, glyph⟩ := h
  exact renderGlyph_length glyph

theorem renderTextToBuffer_length {font : Font} {x y : Int} {text : List Char}
    (h : renderTextToBuffer width height x y color font text buf = some after) :
    after.length = buf.length := by
  unfold renderTextToBuffer at h
  split at h
  · rw [← Option.some.inj h]
  · exact foldlM_length (fun _ _ _ char => renderChar_length char) h

end Lengths

/-- The numbers that a pixel of a glyph is placed with. -/
def DotFits (height : Nat) (y cx : Int) (row col : Nat) : Prop :=
  InI32 (cx + col) ∧ InI32 (asI32 height - y) ∧ InI32 (asI32 height - y - 16) ∧
    InI32 (asI32 height - y - 16 + row)

section Safe

variable {width height : Nat} {x y : Int} {color : UInt32} {buf : List UInt32}
  (size : buf.length = width * height)

include size

theorem renderDot_isSome (cx : Int) (row : Nat) (bits : UInt8) (col : Nat) :
    (renderDot width height y color cx row bits buf col).isSome = true ↔
      (hasInk bits col → DotFits height y cx row col) := by
  unfold renderDot
  by_cases ink : hasInk bits col
  · have plotted := @plot_isSome width height color buf size
    rw [if_pos ink, imp_iff_right ink]
    simp only [textScreenY, Option.bind_eq_bind, Option.bind_assoc, isSome_i32_bind, plotted,
      and_true, DotFits]
  · rw [if_neg ink, Option.isSome_some]
    exact iff_of_true rfl fun now => absurd now ink

theorem renderGlyph_isSome (glyph : Glyph) (cx : Int) :
    (renderGlyph width height y color glyph cx buf).isSome = true ↔
      ∀ row col, Inked glyph row col → DotFits height y cx row col := by
  have row (entry : UInt8 × Nat) (now : List UInt32) (same : now.length = width * height) :
      ((List.range 8).foldlM (renderDot width height y color cx entry.2 entry.1) now).isSome =
        true ↔ ∀ col ∈ List.range 8, hasInk entry.1 col → DotFits height y cx entry.2 col :=
    isSome_foldlM (fun _ _ _ _ same dot => (renderDot_length dot).trans same)
      (fun _ _ _ same => renderDot_isSome same cx _ _ _) same
  have rows : (renderGlyph width height y color glyph cx buf).isSome = true ↔ _ :=
    isSome_foldlM (fun now _ _ next same (loop : _ = some next) =>
      (foldlM_length (fun _ _ _ dot => renderDot_length dot) loop).trans same)
      (fun now entry _ same => row entry now same) size
  rw [rows]
  constructor
  · rintro fits r c ⟨inside, bits, place, ink⟩
    exact fits (bits, r) (List.mem_zipIdx_iff_getElem?.mpr place) c (List.mem_range.mpr inside) ink
  · intro fits entry member c inside ink
    exact fits entry.2 c ⟨List.mem_range.mp inside, entry.1,
      List.mem_zipIdx_iff_getElem?.mp member, ink⟩

/-- The numbers that a character of a text is placed with. -/
def CharFits (font : Font) (height : Nat) (x y : Int) (entry : Char × Nat) : Prop :=
  InI32 (asI32 entry.2 * 8) ∧ InI32 (x + asI32 entry.2 * 8) ∧
    ∀ row col, Inked (font entry.1) row col → DotFits height y (x + asI32 entry.2 * 8) row col

theorem renderChar_isSome (font : Font) (entry : Char × Nat) :
    (renderChar width height x y color font buf entry).isSome = true ↔
      CharFits font height x y entry := by
  unfold renderChar CharFits
  simp only [Option.bind_eq_bind, isSome_i32_bind, renderGlyph_isSome size]

theorem renderText_isSome_iff (font : Font) (text : List Char)
    (some_ : ¬ (width = 0 ∨ height = 0)) :
    (renderTextToBuffer width height x y color font text buf).isSome = true ↔
      ∀ i char, text[i]? = some char → CharFits font height x y (char, i) := by
  rw [renderTextToBuffer, if_neg some_, isSome_foldlM
    (fun _ _ _ _ same char => (renderChar_length char).trans same)
    (fun _ entry _ same => renderChar_isSome same font entry) size]
  constructor
  · intro fits i char place
    exact fits (char, i) (List.mem_zipIdx_iff_getElem?.mpr place)
  · intro fits entry member
    exact fits entry.2 entry.1 (List.mem_zipIdx_iff_getElem?.mp member)

end Safe

section Closed

variable {font : Font} {height : Nat} {x y : Int} {text : List Char}

theorem asI32_index {i : Nat} (small : i < 2 ^ 31) : asI32 i = i := asI32_of_lt small

/-- The rows of a glyph are sixteen. -/
theorem inked_lt {glyph : Glyph} {row col : Nat} (ink : Inked glyph row col) :
    row < 16 ∧ col < 8 := by
  obtain ⟨inside, bits, place, _⟩ := ink
  have length := (List.getElem?_eq_some_iff.mp place).1
  rw [Vector.length_toList] at length
  exact ⟨length, inside⟩

/-- A text that fits has its last character in the range, and the others are left of it. -/
theorem all_fit_iff (rangeX : InI32 x) :
    (∀ i char, text[i]? = some char → CharFits font height x y (char, i)) ↔
      ∀ last, text.getLast? = some last →
        (text.length ≤ 2 ^ 28 ∧ x + 8 * (text.length - 1) < 2 ^ 31) ∧
          (∀ row col, Inked (font last) row col → x + 8 * (text.length - 1) + col < 2 ^ 31) ∧
            ((∃ char ∈ text, ∃ row col, Inked (font char) row col) →
              InI32 (asI32 height - y) ∧ InI32 (asI32 height - y - 16)) := by
  constructor
  · intro fits last ended
    rw [List.getLast?_eq_getElem?] at ended
    have inside := (List.getElem?_eq_some_iff.mp ended).1
    have short : text.length ≤ 2 ^ 28 := by
      by_contra long
      have far := (fits _ _ (List.getElem?_eq_getElem (show 2 ^ 28 < text.length by omega))).1
      dsimp only at far
      rw [asI32_index (by decide)] at far
      exact absurd far.2 (by decide)
    obtain ⟨_, left, dots⟩ := fits _ _ ended
    rw [asI32_index (show text.length - 1 < 2 ^ 31 by omega)] at left dots
    unfold InI32 InRange at left
    refine ⟨⟨short, by omega⟩, ?_, ?_⟩
    · intro row col ink
      have column := (dots row col ink).1
      unfold InI32 InRange at column
      omega
    · rintro ⟨char, member, row, col, ink⟩
      obtain ⟨i, place⟩ := List.getElem?_of_mem member
      have dot := (fits i char place).2.2 row col ink
      exact ⟨dot.2.1, dot.2.2.1⟩
  · intro fits i char place
    have inside := (List.getElem?_eq_some_iff.mp place).1
    obtain ⟨last, ended⟩ : ∃ last, text.getLast? = some last := by
      rw [List.getLast?_eq_getElem?]
      exact ⟨_, List.getElem?_eq_getElem (by omega)⟩
    obtain ⟨⟨short, left⟩, columns, rows⟩ := fits last ended
    unfold CharFits
    rw [asI32_index (show i < 2 ^ 31 by omega)]
    unfold InI32 InRange at rangeX
    refine ⟨?_, ?_, ?_⟩
    · unfold InI32 InRange
      omega
    · unfold InI32 InRange
      omega
    · intro row col ink
      obtain ⟨low, high⟩ := inked_lt ink
      obtain ⟨below, top⟩ := rows ⟨char, List.mem_of_getElem? place, row, col, ink⟩
      have column : InI32 (x + i * 8 + col) := by
        unfold InI32 InRange
        by_cases ends : i = text.length - 1
        · rw [List.getLast?_eq_getElem?, ← ends, place] at ended
          have right := columns row col (Option.some.inj ended ▸ ink)
          omega
        · omega
      refine ⟨column, below, top, ?_⟩
      unfold InI32 InRange at below top ⊢
      omega

end Closed

/-- Exactly the text that fits is drawn without an overflow. -/
theorem renderTextToBuffer_isSome {font : Font} {width height : Nat} {x y : Int}
    {color : UInt32} {text : List Char} {buf : List UInt32} (size : buf.length = width * height)
    (rangeX : InI32 x) :
    (renderTextToBuffer width height x y color font text buf).isSome = true ↔
      TextFits font width height x y text := by
  by_cases none : width = 0 ∨ height = 0
  · rw [renderTextToBuffer, if_pos none]
    exact iff_of_true rfl (none.elim .inl fun zero => .inr (.inl zero))
  · rw [renderText_isSome_iff size font text none, all_fit_iff rangeX]
    obtain ⟨wide, tall⟩ := not_or.mp none
    unfold TextFits
    rw [or_iff_right wide, or_iff_right tall]

end Warpine.Gui
