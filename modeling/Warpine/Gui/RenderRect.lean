import Mathlib.Data.Int.Init
import Warpine.Lib.Painting
import Warpine.Lib.Words

/-! Rectangles in a window's pixel buffer. The buffer is kept row by row from the top of the
window, and the coordinates of the calls count from its bottom left corner. -/
namespace Warpine.Gui
open Warpine.Lib

/-- `value as i32`. -/
def asI32 (value : Nat) : Int := Int.bmod value u32Size

/-- `value as u32`. -/
def asU32 (value : Int) : Nat := (value % u32Size).toNat

/-- The largest column or row number of a buffer of that size, and 0 below it. -/
def clampEdge (edge : Int) (size : Nat) : Nat :=
  asU32 (min (max edge 0) (asI32 size - 1))

section Render

variable (buf : List UInt32) (width height : Nat) (x1 y1 x2 y2 : Int) (color : UInt32)

def pixelIdx (width x y : Nat) : Nat := (y * width + x) % u32Size

/-- `if idx < buf.len() { buf[idx] = color; }`. -/
def setPixel (idx : Nat) : List UInt32 :=
  if idx < buf.length then buf.set idx color else buf

def fillRows (left right bottomY topY : Nat) : List UInt32 :=
  (closedRange bottomY topY).foldl (fun buf y =>
    (closedRange left right).foldl (fun buf x => setPixel buf color (pixelIdx width x y)) buf) buf

def outlineRows (left right bottomY topY : Nat) : List UInt32 :=
  (closedRange left right).foldl (fun buf x =>
    setPixel (setPixel buf color (pixelIdx width x bottomY)) color (pixelIdx width x topY)) buf

def outlineColumns (left right bottomY topY : Nat) : List UInt32 :=
  (closedRange bottomY topY).foldl (fun buf y =>
    setPixel (setPixel buf color (pixelIdx width left y)) color (pixelIdx width right y)) buf

def renderRectToBuffer (fill : Bool) : List UInt32 :=
  if width = 0 ∨ height = 0 then buf
  else
    let left := clampEdge (min x1 x2) width
    let right := clampEdge (max x1 x2) width
    let bottom := clampEdge (min y1 y2) height
    let top := clampEdge (max y1 y2) height
    let topY := wrapSub (wrapSub height 1) bottom
    let bottomY := wrapSub (wrapSub height 1) top
    if fill then fillRows buf width color left right bottomY topY
    else
      let rows := outlineRows buf width color left right bottomY topY
      outlineColumns rows width color left right bottomY topY

end Render

/-- A rectangle with its edges in it, in the coordinates of the calls. -/
structure Rect where
  left : Int
  right : Int
  bottom : Int
  top : Int

namespace Rect

/-- What two opposite corners span. -/
def ofCorners (x1 y1 x2 y2 : Int) : Rect where
  left := min x1 x2
  right := max x1 x2
  bottom := min y1 y2
  top := max y1 y2

def Contains (rect : Rect) (x y : Int) : Prop :=
  (rect.left ≤ x ∧ x ≤ rect.right) ∧ rect.bottom ≤ y ∧ y ≤ rect.top

/-- All of the rectangle when it is filled, and its boundary when not. -/
def Shape (rect : Rect) (fill : Bool) (x y : Int) : Prop :=
  rect.Contains x y ∧
    (fill = true ∨ (x = rect.left ∨ x = rect.right) ∨ y = rect.bottom ∨ y = rect.top)

def clamped (rect : Rect) (width height : Nat) : Rect where
  left := clampEdge rect.left width
  right := clampEdge rect.right width
  bottom := clampEdge rect.bottom height
  top := clampEdge rect.top height

end Rect

/-- The pixel at a place counted from the bottom left corner. -/
def pixel (buf : List UInt32) (width height x y : Nat) : Option UInt32 :=
  buf[(height - 1 - y) * width + x]?

/-- The pixels of the area have the colour, and all others are as they were. -/
def Draws (area : Int → Int → Prop) (width height : Nat) (color : UInt32)
    (buf after : List UInt32) : Prop :=
  after.length = buf.length ∧ ∀ x y : Nat, x < width → y < height →
    (area x y → pixel after width height x y = some color) ∧
      (¬ area x y → pixel after width height x y = pixel buf width height x y)

theorem setPixel_paints (color : UInt32) (idx : Nat) :
    Paints color (· = idx) fun buf => setPixel buf color idx := by
  have same : (fun buf => setPixel buf color idx) = fun buf => buf.set idx color := by
    funext buf
    unfold setPixel
    split
    · rfl
    · rw [List.set_eq_of_length_le (by omega)]
  rw [same]
  exact .set idx

section Loops

variable (width left right bottomY topY : Nat) (color : UInt32)

theorem fillRows_paints : Paints color
    (fun i => ∃ y ∈ closedRange bottomY topY, ∃ x ∈ closedRange left right,
      i = pixelIdx width x y)
    fun buf => fillRows buf width color left right bottomY topY :=
  .foldl _ fun y _ => .foldl _ fun x _ => setPixel_paints color (pixelIdx width x y)

theorem outlineRows_paints : Paints color
    (fun i => ∃ x ∈ closedRange left right,
      i = pixelIdx width x bottomY ∨ i = pixelIdx width x topY)
    fun buf => outlineRows buf width color left right bottomY topY :=
  .foldl _ fun x _ => (setPixel_paints color (pixelIdx width x bottomY)).comp
    (setPixel_paints color (pixelIdx width x topY))

theorem outlineColumns_paints : Paints color
    (fun i => ∃ y ∈ closedRange bottomY topY,
      i = pixelIdx width left y ∨ i = pixelIdx width right y)
    fun buf => outlineColumns buf width color left right bottomY topY :=
  .foldl _ fun y _ => (setPixel_paints color (pixelIdx width left y)).comp
    (setPixel_paints color (pixelIdx width right y))

end Loops

section Sized

variable {width height : Nat}

theorem clampEdge_eq {size : Nat} (pos : 1 ≤ size) (small : size < 2 ^ 31) (edge : Int) :
    (clampEdge edge size : Int) = min (max edge 0) (size - 1) := by
  have signed : asI32 size = size := by
    unfold asI32 u32Size
    rw [Int.bmod_def]
    omega
  unfold clampEdge asU32 u32Size
  rw [signed]
  omega

theorem clampEdge_lt {size : Nat} (pos : 1 ≤ size) (small : size < 2 ^ 31) (edge : Int) :
    clampEdge edge size < size := by
  have := clampEdge_eq pos small edge
  omega

theorem clampEdge_mono {size : Nat} (pos : 1 ≤ size) (small : size < 2 ^ 31) {low high : Int}
    (h : low ≤ high) : clampEdge low size ≤ clampEdge high size := by
  have := clampEdge_eq pos small low
  have := clampEdge_eq pos small high
  omega

theorem pixelIdx_eq (small : width * height < 2 ^ 30) {x y : Nat} (hx : x < width)
    (hy : y < height) : pixelIdx width x y = y * width + x := by
  have inside := place_lt hy hx
  rw [Nat.mul_comm height width] at inside
  exact Nat.mod_eq_of_lt (by unfold u32Size; omega)

/-- Two pixels of the buffer are one only when they are in one column and one row. -/
theorem pixelIdx_inj (small : width * height < 2 ^ 30) {x y x' y' : Nat} (hx : x < width)
    (hy : y < height) (hx' : x' < width) :
    y' * width + x' = pixelIdx width x y ↔ x' = x ∧ y' = y := by
  rw [pixelIdx_eq small hx hy]
  constructor
  · intro same
    exact (place_inj hx' hx same).symm
  · intro same
    rw [same.1, same.2]

/-- What an action paints, told by columns and rows. -/
theorem draws_of_paints {area : Nat → Prop} {shape : Int → Int → Prop} {color : UInt32}
    {action : List UInt32 → List UInt32} (paints : Paints color area action)
    {buf : List UInt32} (size : buf.length = width * height)
    (same : ∀ x y : Nat, x < width → y < height →
      (area ((height - 1 - y) * width + x) ↔ shape x y)) :
    Draws shape width height color buf (action buf) := by
  apply And.intro (paints.length buf)
  intro x y hx hy
  have inside := place_lt (show height - 1 - y < height by omega) hx
  rw [Nat.mul_comm height width, ← size] at inside
  have place := paints buf ((height - 1 - y) * width + x)
  rw [same x y hx hy, List.getElem?_eq_getElem inside, Option.map_some] at place
  unfold pixel
  rw [List.getElem?_eq_getElem inside]
  exact place

/-- The four edges as the code has them, seen from the bottom left corner. -/
structure Clamped (rect : Rect) (width height left right bottomY topY : Nat) : Prop where
  leftEdge : rect.left = left
  rightEdge : rect.right = right
  bottomEdge : rect.bottom = height - 1 - topY
  topEdge : rect.top = height - 1 - bottomY
  columns : left ≤ right ∧ right < width
  rows : bottomY ≤ topY ∧ topY < height

section Edges

variable {rect : Rect} {left right bottomY topY : Nat} {color : UInt32} {buf : List UInt32}

theorem fillRows_draws (small : width * height < 2 ^ 30)
    (edges : Clamped rect width height left right bottomY topY)
    (size : buf.length = width * height) :
    Draws (rect.Shape true) width height color buf
      (fillRows buf width color left right bottomY topY) := by
  apply draws_of_paints (fillRows_paints width left right bottomY topY color) size
  intro x y hx hy
  obtain ⟨hleft, hright, hbottom, htop, hcolumns, hrows⟩ := edges
  simp only [mem_closedRange, Rect.Shape, Rect.Contains, true_or, and_true]
  constructor
  · intro ⟨y', hy', x', hx', same⟩
    obtain ⟨rfl, flipped⟩ := (pixelIdx_inj small (by omega) (by omega) hx).mp same
    omega
  · intro inside
    exact ⟨height - 1 - y, by omega, x, by omega,
      ((pixelIdx_inj small hx (by omega) hx).mpr ⟨rfl, rfl⟩)⟩

theorem outline_draws (small : width * height < 2 ^ 30)
    (edges : Clamped rect width height left right bottomY topY)
    (size : buf.length = width * height) :
    Draws (rect.Shape false) width height color buf
      (outlineColumns (outlineRows buf width color left right bottomY topY)
        width color left right bottomY topY) := by
  apply draws_of_paints ((outlineRows_paints width left right bottomY topY color).comp
    (outlineColumns_paints width left right bottomY topY color)) size
  intro x y hx hy
  obtain ⟨hleft, hright, hbottom, htop, hcolumns, hrows⟩ := edges
  have place : ∀ x' y', x' < width → y' < height →
      ((height - 1 - y) * width + x = pixelIdx width x' y' ↔ x = x' ∧ height - 1 - y = y') :=
    fun x' y' hx' hy' => pixelIdx_inj small hx' hy' hx
  simp only [mem_closedRange, Rect.Shape, Rect.Contains, Bool.false_eq_true, false_or]
  constructor
  · intro painted
    rcases painted with ⟨x', hx', same⟩ | ⟨y', hy', same⟩
    · rw [place x' bottomY (by omega) (by omega), place x' topY (by omega) (by omega)] at same
      omega
    · rw [place left y' (by omega) (by omega), place right y' (by omega) (by omega)] at same
      omega
  · intro ⟨inside, onEdge⟩
    rcases onEdge with column | row
    · right
      apply Exists.intro (height - 1 - y)
      rw [place left _ (by omega) (by omega), place right _ (by omega) (by omega)]
      omega
    · left
      apply Exists.intro x
      rw [place x bottomY hx (by omega), place x topY hx (by omega)]
      omega

end Edges

/-- The sides of a buffer that is not too large. -/
theorem sides_lt (hwidth : 1 ≤ width) (hheight : 1 ≤ height) (small : width * height < 2 ^ 30) :
    width < 2 ^ 31 ∧ height < 2 ^ 31 := by
  have wide := Nat.le_mul_of_pos_right width hheight
  have tall := Nat.le_mul_of_pos_left height hwidth
  exact ⟨by omega, by omega⟩

/-- The clamped rectangle is drawn, whatever the corners. -/
theorem render_draws_clamped (hwidth : 1 ≤ width) (hheight : 1 ≤ height)
    (small : width * height < 2 ^ 30) (x1 y1 x2 y2 : Int) (color : UInt32) (fill : Bool)
    {buf : List UInt32} (size : buf.length = width * height) :
    Draws (((Rect.ofCorners x1 y1 x2 y2).clamped width height).Shape fill) width height color buf
      (renderRectToBuffer buf width height x1 y1 x2 y2 color fill) := by
  obtain ⟨wide, tall⟩ := sides_lt hwidth hheight small
  have columns := clampEdge_mono hwidth wide (show min x1 x2 ≤ max x1 x2 by omega)
  have rows := clampEdge_mono hheight tall (show min y1 y2 ≤ max y1 y2 by omega)
  have hright := clampEdge_lt hwidth wide (max x1 x2)
  have htop := clampEdge_lt hheight tall (max y1 y2)
  have flip : ∀ row, row < height → wrapSub (wrapSub height 1) row = height - 1 - row := by
    intro row inside
    rw [wrapSub_of_le hheight (by unfold u32Size; omega),
      wrapSub_of_le (by omega) (by unfold u32Size; omega)]
  have edges : Clamped ((Rect.ofCorners x1 y1 x2 y2).clamped width height) width height
      (clampEdge (min x1 x2) width) (clampEdge (max x1 x2) width)
      (height - 1 - clampEdge (max y1 y2) height) (height - 1 - clampEdge (min y1 y2) height) :=
    { leftEdge := rfl
      rightEdge := rfl
      bottomEdge := by simp only [Rect.clamped, Rect.ofCorners]; omega
      topEdge := by simp only [Rect.clamped, Rect.ofCorners]; omega
      columns := ⟨columns, hright⟩
      rows := by omega }
  unfold renderRectToBuffer
  rw [if_neg (by omega)]
  dsimp only
  rw [flip _ htop, flip _ (by omega)]
  cases fill with
  | true => exact fillRows_draws small edges size
  | false => exact outline_draws small edges size

/-- Two areas are drawn alike on every buffer only when they have the same pixels. -/
theorem draws_iff {shape other : Int → Int → Prop} {color : UInt32}
    {action : List UInt32 → List UInt32}
    (draws : ∀ buf, buf.length = width * height → Draws other width height color buf (action buf)) :
    (∀ buf, buf.length = width * height → Draws shape width height color buf (action buf)) ↔
      ∀ x y : Nat, x < width → y < height → (other x y ↔ shape x y) := by
  constructor
  · intro all x y hx hy
    have size : (List.replicate (width * height) (color + 1)).length = width * height :=
      List.length_replicate
    have inside := place_lt (show height - 1 - y < height by omega) hx
    rw [Nat.mul_comm height width] at inside
    have before : pixel (List.replicate (width * height) (color + 1)) width height x y =
        some (color + 1) := by
      unfold pixel
      rw [List.getElem?_replicate, if_pos inside]
    have changed : some (color + 1) ≠ some color := by
      intro same
      exact absurd (Option.some.inj same) (by simp)
    have first := (all _ size).2 x y hx hy
    have second := (draws _ size).2 x y hx hy
    rw [before] at first second
    by_cases here : other x y
    · by_cases there : shape x y
      · simp only [here, there]
      · exact absurd ((first.2 there).symm.trans (second.1 here)) changed
    · by_cases there : shape x y
      · exact absurd ((second.2 here).symm.trans (first.1 there)) changed
      · simp only [here, there]
  · intro same buf size
    apply And.intro (draws buf size).1
    intro x y hx hy
    have place := (draws buf size).2 x y hx hy
    rwa [same x y hx hy] at place

end Sized

/-- The range has a row or column of the buffer in it. -/
def Meets (low high : Int) (size : Nat) : Prop := low ≤ size - 1 ∧ 0 ≤ high

/-- The line an outer edge is moved to is an edge already. -/
def EdgesKept (low high : Int) (size : Nat) : Prop :=
  (0 ≤ low ∨ high = 0) ∧ (high ≤ size - 1 ∨ low = size - 1)

/-- A row or column of the buffer lies strictly between the two edges. -/
def HasInner (low high : Int) (size : Nat) : Prop := max (low + 1) 0 < min high size

instance (low high : Int) (size : Nat) : Decidable (Meets low high size) :=
  inferInstanceAs (Decidable (_ ∧ _))

instance (low high : Int) (size : Nat) : Decidable (EdgesKept low high size) :=
  inferInstanceAs (Decidable (_ ∧ _))

instance (low high : Int) (size : Nat) : Decidable (HasInner low high size) :=
  inferInstanceAs (Decidable (_ < _))

/-- The rectangle reaches into the buffer, and for an outline no edge outside of it is moved
to a line it does not have. -/
def Rect.Drawable (rect : Rect) (width height : Nat) (fill : Bool) : Prop :=
  (Meets rect.left rect.right width ∧ Meets rect.bottom rect.top height) ∧
    (fill = true ∨
      (EdgesKept rect.left rect.right width ∨ ¬ HasInner rect.bottom rect.top height) ∧
        (EdgesKept rect.bottom rect.top height ∨ ¬ HasInner rect.left rect.right width))

instance (rect : Rect) (width height : Nat) (fill : Bool) :
    Decidable (rect.Drawable width height fill) :=
  inferInstanceAs (Decidable ((_ ∧ _) ∧ (_ ∨ _)))

section Axis

variable {low high : Int} {size : Nat}

theorem clamped_between (pos : 1 ≤ size) (small : size < 2 ^ 31) (meets : Meets low high size)
    {x : Nat} (hx : x < size) :
    (clampEdge low size : Int) ≤ x ∧ (x : Int) ≤ clampEdge high size ↔ low ≤ x ∧ x ≤ high := by
  obtain ⟨hlow, hhigh⟩ := meets
  rw [clampEdge_eq pos small, clampEdge_eq pos small]
  omega

theorem meets_of_clamped (pos : 1 ≤ size) (small : size < 2 ^ 31)
    (h : low ≤ clampEdge low size ∧ clampEdge low size ≤ high) : Meets low high size := by
  unfold Meets
  rw [clampEdge_eq pos small] at h
  omega

theorem edge_clamped (pos : 1 ≤ size) (small : size < 2 ^ 31) {x : Nat} (hx : x < size)
    (edge : (x : Int) = low ∨ x = high) :
    (x : Int) = clampEdge low size ∨ (x : Int) = clampEdge high size := by
  rw [clampEdge_eq pos small, clampEdge_eq pos small]
  omega

/-- Inside the buffer, the clamped edges are the edges. -/
theorem edge_of_clamped (pos : 1 ≤ size) (small : size < 2 ^ 31) (ordered : low ≤ high)
    (meets : Meets low high size) (kept : EdgesKept low high size) {x : Nat}
    (edge : (x : Int) = clampEdge low size ∨ (x : Int) = clampEdge high size) :
    (x : Int) = low ∨ x = high := by
  obtain ⟨hlow, hhigh⟩ := meets
  obtain ⟨first, second⟩ := kept
  rw [clampEdge_eq pos small, clampEdge_eq pos small] at edge
  omega

theorem edge_of_no_inner (none : ¬ HasInner low high size) {x : Nat} (hx : x < size)
    (inside : low ≤ x ∧ x ≤ high) : (x : Int) = low ∨ x = high := by
  unfold HasInner at none
  omega

/-- An edge that is moved is moved to a line of the buffer that is not an edge. -/
theorem moved_edge (pos : 1 ≤ size) (small : size < 2 ^ 31) (ordered : low ≤ high)
    (meets : Meets low high size) (moved : ¬ EdgesKept low high size) :
    ∃ x : Nat, x < size ∧ ((x : Int) = clampEdge low size ∨ (x : Int) = clampEdge high size) ∧
      ¬ ((x : Int) = low ∨ x = high) ∧
      (clampEdge low size : Int) ≤ x ∧ (x : Int) ≤ clampEdge high size := by
  obtain ⟨hlow, hhigh⟩ := meets
  have ends := And.intro (clampEdge_lt pos small low) (clampEdge_lt pos small high)
  have first := clampEdge_eq pos small low
  have second := clampEdge_eq pos small high
  unfold EdgesKept at moved
  by_cases below : 0 ≤ low ∨ high = 0
  · exact ⟨clampEdge high size, ends.2, .inr rfl, by omega, by omega, by omega⟩
  · exact ⟨clampEdge low size, ends.1, .inl rfl, by omega, by omega, by omega⟩

theorem inner_place (inner : HasInner low high size) :
    ∃ x : Nat, x < size ∧ (low ≤ x ∧ x ≤ high) ∧ ¬ ((x : Int) = low ∨ x = high) := by
  unfold HasInner at inner
  exact ⟨(max (low + 1) 0).toNat, by omega, by omega, by omega⟩

/-- Edges that are moved show at a place inside the other axis. -/
theorem edges_kept (pos : 1 ≤ size) (small : size < 2 ^ 31) (ordered : low ≤ high)
    (meets : Meets low high size) {low' high' : Int} {size' : Nat} (pos' : 1 ≤ size')
    (small' : size' < 2 ^ 31) (meets' : Meets low' high' size')
    (same : ∀ u v : Nat, u < size → v < size' →
      (clampEdge low size : Int) ≤ u ∧ (u : Int) ≤ clampEdge high size →
      ((u : Int) = clampEdge low size ∨ (u : Int) = clampEdge high size) →
      (clampEdge low' size' : Int) ≤ v ∧ (v : Int) ≤ clampEdge high' size' →
      ((u : Int) = low ∨ (u : Int) = high) ∨ ((v : Int) = low' ∨ (v : Int) = high')) :
    EdgesKept low high size ∨ ¬ HasInner low' high' size' := by
  by_contra moved
  rw [not_or, not_not] at moved
  obtain ⟨u, hu, edge, away, between⟩ := moved_edge pos small ordered meets moved.1
  obtain ⟨v, hv, inside, apart⟩ := inner_place moved.2
  have shown := (clamped_between pos' small' meets' hv).mpr inside
  rcases same u v hu hv between edge shown with kept | onEdge
  · exact away kept
  · exact apart onEdge

end Axis

namespace Rect

variable {rect : Rect} {width height : Nat} {fill : Bool}

/-- Clamping keeps what the buffer shows of the rectangle. -/
def SameShown (rect : Rect) (width height : Nat) (fill : Bool) : Prop :=
  ∀ x y : Nat, x < width → y < height →
    ((rect.clamped width height).Shape fill x y ↔ rect.Shape fill x y)

section Sized

variable (hwidth : 1 ≤ width) (hheight : 1 ≤ height) (wide : width < 2 ^ 31)
  (tall : height < 2 ^ 31)

include hwidth hheight wide tall

theorem meets_of_sameShown (columns : rect.left ≤ rect.right) (rows : rect.bottom ≤ rect.top)
    (same : rect.SameShown width height fill) :
    Meets rect.left rect.right width ∧ Meets rect.bottom rect.top height := by
  have lowX := clampEdge_mono hwidth wide columns
  have lowY := clampEdge_mono hheight tall rows
  have corner := same (clampEdge rect.left width) (clampEdge rect.bottom height)
    (clampEdge_lt hwidth wide _) (clampEdge_lt hheight tall _)
  have shown : (rect.clamped width height).Shape fill (clampEdge rect.left width)
      (clampEdge rect.bottom height) := by
    simp only [Shape, Contains, clamped, true_or, or_true, and_true]
    omega
  have inside := (corner.mp shown).1
  exact ⟨meets_of_clamped hwidth wide inside.1, meets_of_clamped hheight tall inside.2⟩

theorem contains_clamped
    (meets : Meets rect.left rect.right width ∧ Meets rect.bottom rect.top height) {x y : Nat}
    (hx : x < width) (hy : y < height) :
    (rect.clamped width height).Contains x y ↔ rect.Contains x y :=
  and_congr (clamped_between hwidth wide meets.1 hx) (clamped_between hheight tall meets.2 hy)

theorem sameShown_of_drawable (columns : rect.left ≤ rect.right) (rows : rect.bottom ≤ rect.top)
    (drawable : rect.Drawable width height fill) : rect.SameShown width height fill := by
  intro x y hx hy
  obtain ⟨meets, outline⟩ := drawable
  unfold Shape
  rw [contains_clamped hwidth hheight wide tall meets hx hy]
  apply and_congr_right
  intro inside
  rcases outline with rfl | ⟨keptColumns, keptRows⟩
  · simp only [true_or]
  · apply or_congr_right
    constructor
    · rintro (column | row)
      · rcases keptColumns with kept | none
        · exact .inl (edge_of_clamped hwidth wide columns meets.1 kept column)
        · exact .inr (edge_of_no_inner none hy inside.2)
      · rcases keptRows with kept | none
        · exact .inr (edge_of_clamped hheight tall rows meets.2 kept row)
        · exact .inl (edge_of_no_inner none hx inside.1)
    · exact Or.imp (edge_clamped hwidth wide hx) (edge_clamped hheight tall hy)

theorem columns_kept (columns : rect.left ≤ rect.right)
    (meets : Meets rect.left rect.right width ∧ Meets rect.bottom rect.top height)
    (same : rect.SameShown width height false) :
    EdgesKept rect.left rect.right width ∨ ¬ HasInner rect.bottom rect.top height := by
  apply edges_kept hwidth wide columns meets.1 hheight tall meets.2
  intro x y hx hy between edge inside
  have shown := (same x y hx hy).mp ⟨⟨between, inside⟩, .inr (.inl edge)⟩
  exact shown.2.resolve_left Bool.false_ne_true

theorem rows_kept (rows : rect.bottom ≤ rect.top)
    (meets : Meets rect.left rect.right width ∧ Meets rect.bottom rect.top height)
    (same : rect.SameShown width height false) :
    EdgesKept rect.bottom rect.top height ∨ ¬ HasInner rect.left rect.right width := by
  apply edges_kept hheight tall rows meets.2 hwidth wide meets.1
  intro y x hy hx between edge inside
  have shown := (same x y hx hy).mp ⟨⟨inside, between⟩, .inr (.inr edge)⟩
  exact (shown.2.resolve_left Bool.false_ne_true).symm

theorem sameShown_iff (columns : rect.left ≤ rect.right) (rows : rect.bottom ≤ rect.top) :
    rect.SameShown width height fill ↔ rect.Drawable width height fill := by
  constructor
  · intro same
    have meets := meets_of_sameShown hwidth hheight wide tall columns rows same
    apply And.intro meets
    cases fill with
    | true => exact .inl rfl
    | false => exact .inr ⟨columns_kept hwidth hheight wide tall columns meets same,
        rows_kept hwidth hheight wide tall rows meets same⟩
  · exact sameShown_of_drawable hwidth hheight wide tall columns rows

end Sized

end Rect

/-- Exactly the drawable rectangles are drawn pixel for pixel on every buffer. -/
theorem rect_drawn_iff {width height : Nat} (hwidth : 1 ≤ width) (hheight : 1 ≤ height)
    (small : width * height < 2 ^ 30) (x1 y1 x2 y2 : Int) (color : UInt32) (fill : Bool) :
    (∀ buf, buf.length = width * height →
      Draws ((Rect.ofCorners x1 y1 x2 y2).Shape fill) width height color buf
        (renderRectToBuffer buf width height x1 y1 x2 y2 color fill)) ↔
      (Rect.ofCorners x1 y1 x2 y2).Drawable width height fill := by
  obtain ⟨wide, tall⟩ := sides_lt hwidth hheight small
  rw [draws_iff fun buf size =>
    render_draws_clamped hwidth hheight small x1 y1 x2 y2 color fill size]
  exact Rect.sameShown_iff hwidth hheight wide tall (show min x1 x2 ≤ max x1 x2 by omega)
    (show min y1 y2 ≤ max y1 y2 by omega)

/-- An outline with its left edge out of the buffer: the right one is the first column. -/
theorem rect_drawn_at_corner :
    Draws ((Rect.ofCorners (-1) 1 0 5).Shape false) 2 2 7 [0, 0, 0, 0]
      (renderRectToBuffer [0, 0, 0, 0] 2 2 (-1) 1 0 5 7 false) :=
  (rect_drawn_iff (by decide) (by decide) (by decide) (-1) 1 0 5 7 false).mpr (by decide)
    [0, 0, 0, 0] rfl

/-- A rectangle to the right of the window colours the window's last column. -/
theorem outside_rect_drawn :
    ¬ Draws ((Rect.ofCorners 5 0 6 1).Shape true) 2 2 7 [0, 0, 0, 0]
      (renderRectToBuffer [0, 0, 0, 0] 2 2 5 0 6 1 7 true) := by
  intro draws
  have place := (draws.2 1 0 (by decide) (by decide)).2 (by
    simp only [Rect.Shape, Rect.Contains, Rect.ofCorners]
    omega)
  exact absurd place (by decide)

end Warpine.Gui
