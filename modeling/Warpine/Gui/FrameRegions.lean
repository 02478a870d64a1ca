import Warpine.Gui.Compositor

/-! The pixels of the desktop that a frame is painted on, part by part. -/
namespace Warpine.Gui
open Warpine.Lib Warpine.Pm

section Words

variable {a b : Int32}

theorem toInt_max : (max a b).toInt = max a.toInt b.toInt := by
  have larger : max a b = if a ≤ b then b else a := rfl
  rw [larger]
  split
  · have := Int32.le_iff_toInt_le.mp ‹_›
    omega
  · have := mt Int32.le_iff_toInt_le.mpr ‹_›
    omega

theorem toInt_min : (min a b).toInt = min a.toInt b.toInt := by
  have smaller : min a b = if a ≤ b then a else b := rfl
  rw [smaller]
  split
  · have := Int32.le_iff_toInt_le.mp ‹_›
    omega
  · have := mt Int32.le_iff_toInt_le.mpr ‹_›
    omega

theorem toInt_add_eq {sum : Int} (value : a.toInt + b.toInt = sum) (low : -2 ^ 31 ≤ sum)
    (high : sum < 2 ^ 31) : (a + b).toInt = sum := by
  rw [Int32.toInt_add, value, Int.bmod_def]
  omega

theorem toInt_sub_eq {difference : Int} (value : a.toInt - b.toInt = difference)
    (low : -2 ^ 31 ≤ difference) (high : difference < 2 ^ 31) : (a - b).toInt = difference := by
  rw [Int32.toInt_sub, value, Int.bmod_def]
  omega

theorem asUsize_of_nonneg (nonneg : 0 ≤ a.toInt) : (asUsize a : Int) = a.toInt := by
  have := a.toInt_lt
  unfold asUsize
  omega

/-- A negative number becomes one that no buffer is as long as. -/
theorem asUsize_of_neg (negative : a.toInt < 0) : (asUsize a : Int) = a.toInt + 2 ^ 64 := by
  have := a.le_toInt
  unfold asUsize
  omega

theorem toNatClampNeg_cast : (a.toNatClampNeg : Int) = max a.toInt 0 := by
  rw [← Int32.toNat_toInt]
  omega

end Words

namespace DesktopCanvas

variable (desktop : DesktopCanvas)

/-- The number of rows. -/
def rows : Nat := desktop.height.toNat

theorem dw_toInt : (Int32.ofNat desktop.dw).toInt = desktop.dw :=
  Int32.toInt_ofNat_of_lt desktop.sides.1.2

theorem dh_toInt : desktop.dh.toInt = desktop.rows := by
  have below := desktop.sides.2.2
  have signed : desktop.dh = Int32.ofNat desktop.rows := by
    rw [rows, ← UInt32.toInt32_ofNat', UInt32.ofNat_toNat]
    rfl
  rw [signed]
  exact Int32.toInt_ofNat_of_lt below

theorem bounds : (0 < desktop.dw ∧ desktop.dw < 2 ^ 31) ∧ 0 < desktop.rows ∧
    desktop.rows < 2 ^ 31 := desktop.sides

end DesktopCanvas

/-- The rows or columns of a buffer that are shown, where the first one has that number. What
lies before the desktop counts for its length too. -/
def Along (size : UInt32) (extent : Int32) (limit : Nat) (first : Int32) (p : Nat) : Prop :=
  first.toInt ≤ p ∧ p < first.toInt + size.toInt32.toInt ∧ p < first.toInt + extent.toInt ∧
    (first.toInt < 0 → p < first.toInt + limit)

/-- Signed numbers from the first up to the second. -/
def Between (low high : Int32) (p : Nat) : Prop := low.toInt ≤ p ∧ p < high.toInt

/-- The two numbers at either end of a range. An empty range at zero still has its first one,
since the code subtracts from zero without going below it. -/
def Lines (low high p : Nat) : Prop :=
  (low ≤ p ∧ p < high ∧ (p < low + 2 ∨ high ≤ p + 2)) ∨ (low = 0 ∧ high = 0 ∧ p = 0)

/-- Whether the range has such numbers. -/
def HasLines (low high : Nat) : Prop := low < high ∨ (low = 0 ∧ high = 0)

instance (low high : Nat) : Decidable (HasLines low high) :=
  inferInstanceAs (Decidable (_ ∨ _))

theorem lines_iff {low high p : Nat} :
    (∃ i, i < 2 ∧ ((low + i < high ∧ p = low + i) ∨
      (low ≤ high - (1 + i) ∧ p = high - (1 + i)))) ↔ Lines low high p := by
  unfold Lines
  constructor
  · rintro ⟨i, turn, start | stop⟩
    · omega
    · omega
  · rintro (⟨after, before, near | far⟩ | ⟨first, last, here⟩)
    · exact ⟨p - low, by omega, .inl (by omega)⟩
    · by_cases outer : high = p + 1
      · exact ⟨0, by omega, .inr (by omega)⟩
      · exact ⟨1, by omega, .inr (by omega)⟩
    · exact ⟨0, by omega, .inr (by omega)⟩

theorem exists_lines {low high : Nat} (some_ : HasLines low high) : ∃ p, Lines low high p := by
  rcases some_ with range | ⟨first, last⟩
  · exact ⟨low, .inl (by omega)⟩
  · exact ⟨0, .inr ⟨first, last, rfl⟩⟩

/-- The pixels of a text. -/
def InkAt (font : Font) (sx sy : Int32) (text : List Char) (row col : Nat) : Prop :=
  ∃ i ch, text[i]? = some ch ∧ ∃ r c, Inked (font ch) r c ∧
    (sy + Int32.ofNat r).toInt = row ∧
      (sx + Int32.ofNat i * 8 + Int32.ofNat c).toInt = col

section Fills

variable {font : Font} {desktop : DesktopCanvas}

theorem blitLength_toInt {size : UInt32} {extent limit first : Int32} {side : Nat}
    (same : limit.toInt = side) :
    (FrameSnap.blitLength size extent limit first).toInt =
      min (min size.toInt32.toInt extent.toInt) (side - max first.toInt 0) := by
  have zero : (0 : Int32).toInt = 0 := rfl
  have below := limit.toInt_lt
  have start := first.toInt_lt
  have room : (limit - max first 0).toInt = side - max first.toInt 0 :=
    toInt_sub_eq (by rw [toInt_max, zero, same]) (by omega) (by omega)
  rw [FrameSnap.blitLength, toInt_min, toInt_min, room]

variable {size : UInt32} {extent limit first : Int32} {side : Nat}

/-- No sum of the loop leaves the range. -/
theorem blit_place (same : limit.toInt = side) {k : Nat}
    (inside : k < asUsize (FrameSnap.blitLength size extent limit first))
    (positive : 0 < (FrameSnap.blitLength size extent limit first).toInt) :
    (first + Int32.ofNat k).toInt = first.toInt + k := by
  have length := @blitLength_toInt size extent limit first side same
  have cast := asUsize_of_nonneg positive.le
  have below := limit.toInt_lt
  have low := first.le_toInt
  have number : (Int32.ofNat k).toInt = k := Int32.toInt_ofNat_of_lt (by omega)
  exact toInt_add_eq (by rw [number]) (by omega) (by omega)

theorem along_iff (same : limit.toInt = side) {p : Nat} (on : p < side) :
    (0 < FrameSnap.blitLength size extent limit first ∧
      ∃ k ∈ List.range (asUsize (FrameSnap.blitLength size extent limit first)),
        ¬ (first + Int32.ofNat k < 0 ∨ limit ≤ first + Int32.ofNat k) ∧
          p = asUsize (first + Int32.ofNat k)) ↔
      Along size extent side first p := by
  have zero : (0 : Int32).toInt = 0 := rfl
  have length := @blitLength_toInt size extent limit first side same
  simp only [Int32.lt_iff_toInt_lt, Int32.le_iff_toInt_le, List.mem_range, zero]
  constructor
  · rintro ⟨positive, k, inside, clipped, place⟩
    have sum := blit_place same inside positive
    have cast := asUsize_of_nonneg positive.le
    have here := @asUsize_of_nonneg (first + Int32.ofNat k) (by omega)
    unfold Along
    omega
  · rintro ⟨after, within, extends_, reached⟩
    have positive : 0 < (FrameSnap.blitLength size extent limit first).toInt := by omega
    have cast := asUsize_of_nonneg positive.le
    have inside : (p - first.toInt).toNat <
        asUsize (FrameSnap.blitLength size extent limit first) := by omega
    have sum := blit_place same inside positive
    refine ⟨positive, _, inside, by omega, ?_⟩
    have here := @asUsize_of_nonneg (first + Int32.ofNat (p - first.toInt).toNat) (by omega)
    omega

/-- A number that was not clipped. -/
theorem asUsize_lt {value : Int32} (same : limit.toInt = side)
    (shown : ¬ (value < 0 ∨ limit ≤ value)) : asUsize value < side := by
  have zero : (0 : Int32).toInt = 0 := rfl
  rw [Int32.lt_iff_toInt_lt, Int32.le_iff_toInt_le, zero] at shown
  have cast := @asUsize_of_nonneg value (by omega)
  omega

/-- The numbers on a side of the desktop are the ones that are not clipped. -/
theorem unclipped_iff {value : Int32} (same : limit.toInt = side) {p : Nat} (on : p < side) :
    ¬ (value < 0 ∨ limit ≤ value) ∧ p = asUsize value ↔ value.toInt = p := by
  have zero : (0 : Int32).toInt = 0 := rfl
  rw [Int32.lt_iff_toInt_lt, Int32.le_iff_toInt_le, zero]
  constructor
  · rintro ⟨shown, place⟩
    have cast := @asUsize_of_nonneg value (by omega)
    omega
  · intro place
    have cast := @asUsize_of_nonneg value (by omega)
    omega

theorem unclipped_of_between {value : Int32} (within : 0 ≤ value ∧ value < limit) :
    ¬ (value < 0 ∨ limit ≤ value) := by
  simp only [Int32.lt_iff_toInt_lt, Int32.le_iff_toInt_le] at within ⊢
  omega

theorem between_of_unclipped {value : Int32} (shown : ¬ (value < 0 ∨ limit ≤ value)) :
    0 ≤ value ∧ value < limit := by
  simp only [Int32.lt_iff_toInt_lt, Int32.le_iff_toInt_le] at shown ⊢
  omega

theorem drawTextScreen_fills (sx sy : Int32) (text : List Char) (color : UInt32) :
    Fills desktop.rows desktop.dw (InkAt font sx sy text)
      (drawTextScreen font desktop sx sy text color) := by
  unfold drawTextScreen
  apply (Fills.flatMap fun ch _ => Fills.flatMap fun bits _ => Fills.skip fun onRows =>
    Fills.flatMap fun c _ => Fills.ite fun on =>
      Fills.single (asUsize_lt desktop.dh_toInt onRows)
        (asUsize_lt desktop.dw_toInt (unclipped_of_between on.2.1)) rfl).congr
  intro row col onRows onCols
  constructor
  · rintro ⟨ch, letter, bits, line, shown, c, inside, ⟨ink, within, _⟩, place, place'⟩
    rw [List.mem_zipIdx_iff_getElem?] at letter line
    refine ⟨ch.2, ch.1, letter, bits.2, c, ⟨List.mem_range.mp inside, bits.1, line, ink⟩, ?_, ?_⟩
    · exact (unclipped_iff desktop.dh_toInt onRows).mp ⟨shown, place⟩
    · exact (unclipped_iff desktop.dw_toInt onCols).mp ⟨unclipped_of_between within, place'⟩
  · rintro ⟨i, ch, letter, r, c, ⟨inside, bits, line, ink⟩, atRow, atCol⟩
    obtain ⟨shown, place⟩ := (unclipped_iff desktop.dh_toInt onRows).mpr atRow
    obtain ⟨shown', place'⟩ := (unclipped_iff desktop.dw_toInt onCols).mpr atCol
    have stored : row * desktop.dw + col < desktop.buffer.length :=
      desktop.size ▸ place_lt onRows onCols
    refine ⟨(ch, i), List.mem_zipIdx_iff_getElem?.mpr letter, (bits, r),
      List.mem_zipIdx_iff_getElem?.mpr line, shown, c, List.mem_range.mpr inside,
      ⟨ink, between_of_unclipped shown', ?_⟩, place, place'⟩
    rw [← place, ← place']
    exact stored

/-- A rectangle of signed numbers that is cut to the desktop. -/
theorem block_fills {top bottom left right : Nat} {y0 y1 x0 x1 : Int32} (color : UInt32)
    (top_ : (top : Int) = max y0.toInt 0)
    (bottom_ : (bottom : Int) = max (min y1.toInt desktop.rows) 0)
    (left_ : (left : Int) = max x0.toInt 0)
    (right_ : (right : Int) = max (min x1.toInt desktop.dw) 0) :
    Fills desktop.rows desktop.dw (fun row col => Between y0 y1 row ∧ Between x0 x1 col)
      (block desktop.dw top bottom left right color) := by
  apply (Fills.block (by omega) (by omega) color).congr
  intro row col onRows onCols
  unfold Between
  omega

theorem drawFilledRect_fills (x0 y0 x1 y1 : Int32) (color : UInt32) :
    Fills desktop.rows desktop.dw (fun row col => Between y0 y1 row ∧ Between x0 x1 col)
      (drawFilledRect desktop x0 y0 x1 y1 color) := by
  have zero : (0 : Int32).toInt = 0 := rfl
  have clipped (value : Int32) : (asUsize (max value 0) : Int) = max value.toInt 0 := by
    rw [asUsize_of_nonneg, toInt_max, zero]
    rw [toInt_max, zero]
    omega
  have bounds := desktop.bounds
  have rows : desktop.buffer.length / max desktop.dw 1 = desktop.rows := by
    rw [max_eq_left bounds.1.1, desktop.size]
    exact Nat.mul_div_cancel _ bounds.1.1
  have last : (Int32.ofNat desktop.rows).toInt = desktop.rows :=
    Int32.toInt_ofNat_of_lt bounds.2.2
  unfold drawFilledRect
  dsimp only
  rw [rows]
  apply block_fills
  · exact clipped y0
  · rw [clipped, toInt_min, last]
  · exact clipped x0
  · rw [clipped, toInt_min, desktop.dw_toInt]

end Fills

namespace FrameSnap

variable (font : Font) (desktop : DesktopCanvas) (snap : FrameSnap)

def ClientShown (fb : FrameBuffer) (row col : Nat) : Prop :=
  Along fb.height (snap.cy - snap.titleH) desktop.rows (snap.contentTopY desktop) row ∧
    Along fb.width (snap.cx - snap.borderW * 2) desktop.dw snap.contentLeftX col

/-- The loops read the buffer where it has pixels. -/
theorem blit_reads (fb : FrameBuffer) {py px : Nat} (row : py < asUsize (snap.blitH desktop fb))
    (tall : 0 < snap.blitH desktop fb) (col : px < asUsize (snap.blitW desktop fb))
    (wide : 0 < snap.blitW desktop fb) :
    (fb.buffer[py * fb.width.toNat + px]?).isSome = true := by
  have inside {size : UInt32} {extent limit first : Int32} {side i : Nat}
      (same : limit.toInt = side) (positive : 0 < blitLength size extent limit first)
      (below : i < asUsize (blitLength size extent limit first)) : i < size.toNat := by
    have zero : (0 : Int32).toInt = 0 := rfl
    rw [Int32.lt_iff_toInt_lt, zero] at positive
    have length := @blitLength_toInt size extent limit first side same
    have cast := asUsize_of_nonneg positive.le
    have signed : size.toInt32.toInt ≤ size.toNat := by
      rw [← UInt32.ofNat_toNat (x := size), UInt32.toInt32_ofNat', Int32.toInt_ofNat',
        UInt32.ofNat_toNat]
      exact asI32_le size.toNat
    omega
  have place := place_lt (inside desktop.dh_toInt tall row) (inside desktop.dw_toInt wide col)
  rw [Nat.mul_comm fb.height.toNat, ← fb.size] at place
  rw [List.getElem?_eq_getElem place, Option.isSome_some]

theorem blit_fills (fb : FrameBuffer) :
    Fills desktop.rows desktop.dw (snap.ClientShown desktop fb) (snap.blit desktop fb) := by
  unfold blit
  apply (Fills.ite fun positive => Fills.flatMap fun py inside => Fills.skip fun onRows =>
    Fills.flatMap fun px within => Fills.skip fun onCols =>
      Fills.single (asUsize_lt desktop.dh_toInt onRows) (asUsize_lt desktop.dw_toInt onCols)
        (snap.blit_reads desktop fb (List.mem_range.mp inside) positive.1
          (List.mem_range.mp within) positive.2)).congr
  intro row col onRows onCols
  have rows := @along_iff fb.height (snap.cy - snap.titleH) desktop.dh (snap.contentTopY desktop)
    desktop.rows desktop.dh_toInt row onRows
  have cols := @along_iff fb.width (snap.cx - snap.borderW * 2) (Int32.ofNat desktop.dw)
    snap.contentLeftX desktop.dw desktop.dw_toInt col onCols
  unfold ClientShown
  rw [← rows, ← cols]
  constructor
  · rintro ⟨⟨tall, wide⟩, py, inside, shown, px, within, shown', place, place'⟩
    exact ⟨⟨tall, py, inside, shown, place⟩, wide, px, within, shown', place'⟩
  · rintro ⟨⟨tall, py, inside, shown, place⟩, wide, px, within, shown', place'⟩
    exact ⟨⟨tall, wide⟩, py, inside, shown, px, within, shown', place, place'⟩

theorem titleBlock_fills :
    Fills desktop.rows desktop.dw (fun row col =>
      Between (snap.dstTopY desktop) (snap.dstTopY desktop + snap.titleH) row ∧
        Between snap.x (snap.x + snap.cx) col) (snap.titleBlock desktop) := by
  have zero : (0 : Int32).toInt = 0 := rfl
  have first (value : Int32) : ((max value 0).toNatClampNeg : Int) = max value.toInt 0 := by
    rw [toNatClampNeg_cast, toInt_max, zero]
    omega
  apply block_fills
  · exact first _
  · rw [toNatClampNeg_cast, toInt_min, desktop.dh_toInt]
  · exact first _
  · rw [toNatClampNeg_cast, toInt_min, desktop.dw_toInt]

/-- The icon at the left end of the title bar, and the title. -/
def IconShown (row col : Nat) : Prop :=
  snap.Has fcfSysmenu ∧
    Between (snap.dstTopY desktop + 3) (snap.dstTopY desktop + snap.titleH - 3) row ∧
      Between (snap.x + 3) (snap.x + 3 + chromeBtnW) col

def ButtonsShown (row col : Nat) : Prop :=
  InkAt font snap.closeX (snap.textY desktop) ['×'] row col ∨
    (snap.Has fcfMaxbutton ∧ InkAt font snap.maxX (snap.textY desktop) ['^'] row col) ∨
      snap.Has fcfMinbutton ∧ InkAt font snap.minX (snap.textY desktop) ['_'] row col

def TitleShown (row col : Nat) : Prop :=
  snap.Has fcfTitlebar ∧
    ((Between (snap.dstTopY desktop) (snap.dstTopY desktop + snap.titleH) row ∧
        Between snap.x (snap.x + snap.cx) col) ∨
      snap.IconShown desktop row col ∨
        InkAt font snap.textLeft (snap.textY desktop) snap.title row col ∨
          snap.ButtonsShown font desktop row col)

theorem titleH_pos : 0 < snap.titleH ↔ snap.Has fcfTitlebar := by
  unfold titleH
  split
  · exact iff_of_true (by decide) ‹_›
  · exact iff_of_false (by decide) ‹_›

theorem titleBar_fills :
    Fills desktop.rows desktop.dw (snap.TitleShown font desktop) (snap.titleBar font desktop) := by
  unfold titleBar buttons drawTitle sysmenuIcon
  apply (Fills.ite fun _ => (((titleBlock_fills desktop snap).append
    (.ite fun _ => drawFilledRect_fills _ _ _ _ _)).append
      (drawTextScreen_fills _ _ _ _)).append
        (((drawTextScreen_fills _ _ _ _).append
          (.ite fun _ => drawTextScreen_fills _ _ _ _)).append
            (.ite fun _ => drawTextScreen_fills _ _ _ _))).congr
  intro row col _ _
  unfold TitleShown IconShown ButtonsShown
  rw [titleH_pos]
  simp only [or_assoc]

/-- The lines of the border, where its edges are as large as they are. -/
def BorderAt (row col : Nat) : Prop :=
  (Lines (snap.by0 desktop) (snap.by1 desktop) row ∧ snap.bx0 ≤ col ∧ col < snap.bx1 desktop) ∨
    Lines snap.bx0 (snap.bx1 desktop) col ∧ snap.by0 desktop ≤ row ∧ row < snap.by1 desktop

abbrev HasBorder : Prop := snap.Has (fcfBorder ||| fcfDlgborder ||| fcfSizeborder)

def BorderShown (row col : Nat) : Prop := snap.HasBorder ∧ snap.BorderAt desktop row col

/-- A far edge before the desktop is safe only where no line of the border runs across it. -/
def BorderSafe : Prop :=
  ((snap.x + snap.cx).toInt < 0 → ¬ HasLines (snap.by0 desktop) (snap.by1 desktop)) ∧
    ((snap.dstTopY desktop + snap.cy).toInt < 0 → ¬ HasLines snap.bx0 (snap.bx1 desktop))

theorem borderW_pos : 0 < snap.borderW ↔ snap.HasBorder := by
  unfold borderW
  split
  · exact iff_of_true (by decide) ‹_›
  · exact iff_of_false (by decide) ‹_›

theorem mem_borderLines {i : Nat} {write : Write UInt32} :
    write ∈ snap.borderLines desktop i ↔ ∃ row col,
      ((((snap.by0 desktop + i < snap.by1 desktop ∧ row = snap.by0 desktop + i) ∨
          (snap.by0 desktop ≤ snap.by1 desktop - (1 + i) ∧
            row = snap.by1 desktop - (1 + i))) ∧ snap.bx0 ≤ col ∧ col < snap.bx1 desktop) ∨
        ((snap.bx0 + i < snap.bx1 desktop ∧ col = snap.bx0 + i) ∨
          (snap.bx0 ≤ snap.bx1 desktop - (1 + i) ∧ col = snap.bx1 desktop - (1 + i))) ∧
            snap.by0 desktop ≤ row ∧ row < snap.by1 desktop) ∧
      write = (row * desktop.dw + col, some chromeBorderColor) := by
  have one (line p : Nat) : line ≤ p ∧ p < line + 1 ↔ p = line := by omega
  unfold borderLines
  simp only [List.mem_append, List.mem_ite_nil_right, mem_block, one]
  constructor
  · rintro (((⟨on, row, col, rfl, across, rfl⟩ | ⟨on, row, col, rfl, across, rfl⟩) |
      ⟨on, row, col, down, rfl, rfl⟩) | ⟨on, row, col, down, rfl, rfl⟩)
    · exact ⟨_, col, .inl ⟨.inl ⟨on, rfl⟩, across⟩, rfl⟩
    · exact ⟨_, col, .inl ⟨.inr ⟨on, rfl⟩, across⟩, rfl⟩
    · exact ⟨row, _, .inr ⟨.inl ⟨on, rfl⟩, down⟩, rfl⟩
    · exact ⟨row, _, .inr ⟨.inr ⟨on, rfl⟩, down⟩, rfl⟩
  · rintro ⟨row, col, ⟨⟨on, here⟩ | ⟨on, here⟩, across⟩ | ⟨⟨on, here⟩ | ⟨on, here⟩, down⟩, rfl⟩
    · exact .inl (.inl (.inl ⟨on, row, col, here, across, rfl⟩))
    · exact .inl (.inl (.inr ⟨on, row, col, here, across, rfl⟩))
    · exact .inl (.inr ⟨on, row, col, down, here, rfl⟩)
    · exact .inr ⟨on, row, col, down, here, rfl⟩

theorem mem_border {write : Write UInt32} :
    write ∈ snap.border desktop ↔ ∃ row col, snap.BorderShown desktop row col ∧
      write = (row * desktop.dw + col, some chromeBorderColor) := by
  unfold border BorderShown
  rw [List.mem_ite_nil_right, borderW_pos]
  by_cases has : snap.HasBorder
  · have width : asUsize snap.borderW = 2 := by
      unfold borderW
      rw [if_pos has]
      decide
    rw [and_iff_right has, width]
    simp only [List.mem_flatMap, List.mem_range, mem_borderLines, BorderAt, ← lines_iff,
      and_iff_right has]
    constructor
    · rintro ⟨i, turn, row, col, ⟨line, across⟩ | ⟨line, down⟩, same⟩
      · exact ⟨row, col, .inl ⟨⟨i, turn, line⟩, across⟩, same⟩
      · exact ⟨row, col, .inr ⟨⟨i, turn, line⟩, down⟩, same⟩
    · rintro ⟨row, col, ⟨⟨i, turn, line⟩, across⟩ | ⟨⟨i, turn, line⟩, down⟩, same⟩
      · exact ⟨i, turn, row, col, .inl ⟨line, across⟩, same⟩
      · exact ⟨i, turn, row, col, .inr ⟨line, down⟩, same⟩
  · simp only [has, false_and, exists_false]

/-- A far edge is on the desktop or a number that no place of it has. -/
theorem edge_cases {edge limit : Int32} {side : Nat} (same : limit.toInt = side) :
    (0 ≤ edge.toInt ∧ asUsize (min edge limit) ≤ side) ∨
      (edge.toInt < 0 ∧ 2 ^ 63 ≤ asUsize (min edge limit)) := by
  have cut := @toInt_min edge limit
  rcases Int.lt_or_le edge.toInt 0 with negative | nonneg
  · have huge := @asUsize_of_neg (min edge limit) (by omega)
    have low := (min edge limit).le_toInt
    exact .inr ⟨negative, by omega⟩
  · have cast := @asUsize_of_nonneg (min edge limit) (by omega)
    exact .inl ⟨nonneg, by omega⟩

theorem start_le (value : Int32) : asUsize (max value 0) < 2 ^ 31 := by
  have zero : (0 : Int32).toInt = 0 := rfl
  have start := @toInt_max value 0
  have cast := @asUsize_of_nonneg (max value 0) (by omega)
  have below := value.toInt_lt
  omega

variable {desktop snap} in
theorem borderAt_on (safe : snap.BorderSafe desktop) {row col : Nat}
    (at_ : snap.BorderAt desktop row col) : row < desktop.rows ∧ col < desktop.dw := by
  have bounds := desktop.bounds
  have right := @edge_cases (snap.x + snap.cx) _ _ desktop.dw_toInt
  have bottom := @edge_cases (snap.dstTopY desktop + snap.cy) _ _ desktop.dh_toInt
  obtain ⟨columns, rows⟩ := safe
  unfold HasLines at columns rows
  unfold BorderAt Lines at at_
  change _ ∧ snap.bx1 desktop ≤ _ ∨ _ ∧ _ ≤ snap.bx1 desktop at right
  change _ ∧ snap.by1 desktop ≤ _ ∨ _ ∧ _ ≤ snap.by1 desktop at bottom
  omega

variable {desktop snap} in
theorem border_fills (safe : snap.HasBorder → snap.BorderSafe desktop) :
    Fills desktop.rows desktop.dw (snap.BorderShown desktop) (snap.border desktop) where
  on := by
    intro write member
    obtain ⟨row, col, shown, rfl⟩ := mem_border desktop snap |>.mp member
    obtain ⟨onRows, onCols⟩ := borderAt_on (safe shown.1) shown.2
    exact ⟨rfl, row, col, onRows, onCols, shown, rfl⟩
  all := by
    intro row col _ _ shown
    exact ⟨_, (mem_border desktop snap).mpr ⟨row, col, shown, rfl⟩, rfl⟩

/-- The border is painted without an index out of range exactly where it is safe. -/
theorem border_lands_iff :
    (∀ write ∈ snap.border desktop, write.Lands (desktop.rows * desktop.dw)) ↔
      (snap.HasBorder → snap.BorderSafe desktop) := by
  constructor
  · intro lands has
    have bounds := desktop.bounds
    have area : desktop.rows * desktop.dw < 2 ^ 31 * 2 ^ 31 :=
      Nat.mul_lt_mul'' bounds.2.2 bounds.1.2
    have place {row col : Nat} (at_ : snap.BorderAt desktop row col) :
        row * desktop.dw + col < desktop.rows * desktop.dw :=
      (lands _ ((mem_border desktop snap).mpr ⟨row, col, ⟨has, at_⟩, rfl⟩)).1
    have right := @edge_cases (snap.x + snap.cx) _ _ desktop.dw_toInt
    have bottom := @edge_cases (snap.dstTopY desktop + snap.cy) _ _ desktop.dh_toInt
    change _ ∧ snap.bx1 desktop ≤ _ ∨ _ ∧ _ ≤ snap.bx1 desktop at right
    change _ ∧ snap.by1 desktop ≤ _ ∨ _ ∧ _ ≤ snap.by1 desktop at bottom
    have left : snap.bx0 < 2 ^ 31 := start_le snap.x
    have top : snap.by0 desktop < 2 ^ 31 := start_le (snap.dstTopY desktop)
    constructor
    · intro negative lines
      obtain ⟨row, line⟩ := exists_lines lines
      have far := @place row (snap.bx1 desktop - 1) (.inl ⟨line, by omega, by omega⟩)
      omega
    · intro negative lines
      obtain ⟨col, line⟩ := exists_lines lines
      have far := @place (snap.by1 desktop - 1) col (.inr ⟨line, by omega, by omega⟩)
      have rows := Nat.le_mul_of_pos_right (snap.by1 desktop - 1) bounds.1.1
      omega
  · intro safe
    exact (border_fills safe).lands

/-- The box of the hit test. -/
def InBox (row col : Nat) : Prop :=
  Between snap.x (snap.x + snap.cx) col ∧
    Between snap.y (snap.y + snap.cy) (desktop.rows - 1 - row)

/-- Where a frame is painted. -/
def Shown (fb : FrameBuffer) (row col : Nat) : Prop :=
  (snap.ClientShown desktop fb row col ∨ snap.TitleShown font desktop row col) ∨
    snap.BorderShown desktop row col

variable {desktop snap} in
theorem paint_fills (fb : FrameBuffer) (safe : snap.HasBorder → snap.BorderSafe desktop) :
    Fills desktop.rows desktop.dw (snap.Shown font desktop fb) (snap.paint font desktop fb) :=
  ((blit_fills desktop snap fb).append (titleBar_fills font desktop snap)).append
    (border_fills safe)

theorem paint_lands_iff (fb : FrameBuffer) :
    (∀ write ∈ snap.paint font desktop fb, write.Lands (desktop.rows * desktop.dw)) ↔
      (snap.HasBorder → snap.BorderSafe desktop) := by
  unfold paint
  simp only [List.forall_mem_append, border_lands_iff]
  exact and_iff_right ⟨(blit_fills desktop snap fb).lands, (titleBar_fills font desktop snap).lands⟩

end FrameSnap
end Warpine.Gui
