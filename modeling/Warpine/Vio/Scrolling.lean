import Warpine.Lib.Painting
import Warpine.Lib.Panics
import Warpine.Lib.Shifts
import Warpine.Vio.ReadBack

/-! Scrolling a part of the screen. The rows are moved as a whole, and the arithmetic on them
is that of 16-bit words. -/
namespace Warpine.Vio
open Function Warpine.Lib Warpine.Loader
open VioManager (Sized)

namespace VioManager

section Checked

variable (vio : VioManager)

/-- What is counted for the terminal, which has no part in SDL mode. -/
def terminalWords (top bottom : Nat) : Option Unit :=
  if vio.sdl2Mode then some ()
  else do
    let _ ← addWord 16 top 1
    let _ ← addWord 16 bottom 1
    let _ ← addWord 16 vio.cursorRow 1
    let _ ← addWord 16 vio.cursorCol 1
    return ()

/-- The words that are counted before rows are moved up, with overflow checks. -/
def scrollUpWords (top bottom lines : Nat) : Option Unit :=
  if bottom < top ∨ vio.rows ≤ bottom then some ()
  else if lines = 0 then vio.terminalWords top bottom
  else do
    let height ← subWord bottom top
    let height ← addWord 16 height 1
    let before ← subWord bottom (min lines height)
    let _ ← addWord 16 before 1
    vio.terminalWords top bottom

def scrollDownWords (top bottom lines : Nat) : Option Unit :=
  if bottom < top ∨ vio.rows ≤ bottom then some ()
  else if lines = 0 then vio.terminalWords top bottom
  else do
    let height ← subWord bottom top
    let height ← addWord 16 height 1
    let _ ← addWord 16 top (min lines height)
    vio.terminalWords top bottom

end Checked

/-- The row that is moved to a row. No lines at all mean that none is. -/
def sourceUp (bottom lines r : Nat) : Option Nat :=
  if lines ≠ 0 ∧ r + lines ≤ bottom then some (r + lines) else none

def sourceDown (top lines r : Nat) : Option Nat :=
  if lines ≠ 0 ∧ top + lines ≤ r then some (r - lines) else none

/-- Every cell of the screen and its byte. -/
structure Shows (rows cols : Nat) (cells : Nat → Nat → Cell × UInt8) (vio : VioManager) : Prop where
  rowCount : vio.rows = rows
  colCount : vio.cols = cols
  buffer : vio.buffer.length = rows * cols
  rawBytes : vio.rawBytes.length = rows * cols
  each : ∀ r c, r < rows → c < cols → vio.buffer[r * cols + c]? = some (cells r c).1 ∧
    vio.rawBytes[r * cols + c]? = some (cells r c).2

/-- What a screen shows. -/
def shown (vio : VioManager) (r c : Nat) : Cell × UInt8 :=
  ((vio.buffer[r * vio.cols + c]?).getD blankCell, (vio.rawBytes[r * vio.cols + c]?).getD space)

section Showing

variable {rows cols r c dst src : Nat} {cells other : Nat → Nat → Cell × UInt8} {vio : VioManager}

theorem shows_shown (sized : Sized vio) : Shows vio.rows vio.cols vio.shown vio where
  rowCount := rfl
  colCount := rfl
  buffer := sized.buffer
  rawBytes := sized.rawBytes
  each := by
    intro r c hr hc
    have inside := place_lt hr hc
    unfold shown
    rw [List.getElem?_eq_getElem (by rw [sized.buffer]; exact inside),
      List.getElem?_eq_getElem (by rw [sized.rawBytes]; exact inside)]
    exact ⟨rfl, rfl⟩

theorem Shows.congr (shows_ : Shows rows cols cells vio)
    (same : ∀ r c, r < rows → c < cols → cells r c = other r c) : Shows rows cols other vio :=
  ⟨shows_.rowCount, shows_.colCount, shows_.buffer, shows_.rawBytes, fun r c hr hc => by
    rw [← same r c hr hc]
    exact shows_.each r c hr hc⟩

theorem Shows.foldl {ι : Type} {body : VioManager → ι → VioManager}
    {change : (Nat → Nat → Cell × UInt8) → ι → Nat → Nat → Cell × UInt8} {items : List ι}
    (turn : ∀ cells vio, ∀ item ∈ items, Shows rows cols cells vio →
      Shows rows cols (change cells item) (body vio item))
    (shows_ : Shows rows cols cells vio) :
    Shows rows cols (items.foldl change cells) (items.foldl body vio) := by
  induction items generalizing cells vio with
  | nil => exact shows_
  | cons item rest ih =>
    exact ih (fun cells vio later member => turn cells vio later (List.mem_cons_of_mem item member))
      (turn cells vio item List.mem_cons_self shows_)

theorem put_shows (shows_ : Shows rows cols cells vio) (hr : r < rows) (hc : c < cols) (cell : Cell)
    (raw : UInt8) : Shows rows cols (update cells r (update (cells r) c (cell, raw)))
      (vio.put (r * cols + c) cell raw) := by
  have inside := place_lt hr hc
  unfold put
  rw [if_pos (by rw [shows_.buffer]; exact inside)]
  refine ⟨shows_.rowCount, shows_.colCount, List.length_set.trans shows_.buffer,
    List.length_set.trans shows_.rawBytes, ?_⟩
  intro r' c' hr' hc'
  dsimp only
  by_cases same : r' = r ∧ c' = c
  · obtain ⟨rfl, rfl⟩ := same
    rw [update_self, update_self,
      List.getElem?_set_self (by rw [shows_.buffer]; exact inside),
      List.getElem?_set_self (by rw [shows_.rawBytes]; exact inside)]
    exact ⟨rfl, rfl⟩
  · have apart : r * cols + c ≠ r' * cols + c' := by
      intro equal
      obtain ⟨hrow, hcol⟩ := place_inj hc hc' equal
      exact same ⟨hrow.symm, hcol.symm⟩
    have kept : update cells r (update (cells r) c (cell, raw)) r' c' = cells r' c' := by
      by_cases row : r' = r
      · subst row
        rw [update_self, update_of_ne (fun col => same ⟨rfl, col⟩)]
      · rw [update_of_ne row]
    rw [kept, List.getElem?_set_ne apart, List.getElem?_set_ne apart]
    exact shows_.each r' c' hr' hc'

/-- A part of a row that takes the values of another. -/
def rowPart (cells : Nat → Nat → Cell × UInt8) (dst n : Nat) (values : Nat → Cell × UInt8) :
    Nat → Nat → Cell × UInt8 :=
  update cells dst fun c => if c < n then values c else cells dst c

theorem rowPart_succ (n : Nat) (values : Nat → Cell × UInt8) :
    update (rowPart cells dst n values) dst
        (update (rowPart cells dst n values dst) n (values n)) =
      rowPart cells dst (n + 1) values := by
  funext r c
  unfold rowPart
  by_cases row : r = dst
  · subst row
    rw [update_self, update_self, update_self]
    by_cases col : c = n
    · subst col
      rw [update_self, if_pos (Nat.lt_succ_self c)]
    · rw [update_of_ne col]
      by_cases before : c < n
      · rw [if_pos before, if_pos (Nat.lt_succ_of_lt before)]
      · rw [if_neg before, if_neg (by omega)]
  · rw [update_of_ne row, update_of_ne row, update_of_ne row]

/-- A row put in place cell by cell, each by its value. -/
theorem row_shows {body : VioManager → Nat → VioManager} {values : Nat → Cell × UInt8}
    (shows_ : Shows rows cols cells vio)
    (turn : ∀ c < cols, ∀ vio, Shows rows cols (rowPart cells dst c values) vio →
      Shows rows cols (update (rowPart cells dst c values) dst
        (update (rowPart cells dst c values dst) c (values c))) (body vio c)) :
    Shows rows cols (update cells dst values) ((List.range cols).foldl body vio) := by
  have part (n : Nat) (inside : n ≤ cols) :
      Shows rows cols (rowPart cells dst n values) ((List.range n).foldl body vio) := by
    induction n with
    | zero =>
      apply shows_.congr
      intro r c _ _
      by_cases row : r = dst
      · subst row
        exact (congrFun (update_self r _ cells) c).symm
      · exact (congrFun (update_of_ne row _ cells) c).symm
    | succ n ih =>
      rw [List.range_succ, List.foldl_append, ← rowPart_succ]
      exact turn n inside _ (ih (Nat.le_of_succ_le inside))
  apply (part cols (Nat.le_refl cols)).congr
  intro r c _ hc
  unfold rowPart
  by_cases row : r = dst
  · subst row
    rw [update_self, update_self, if_pos hc]
  · rw [update_of_ne row, update_of_ne row]

theorem copyRow_shows (shows_ : Shows rows cols cells vio) (hdst : dst < rows) (hsrc : src < rows)
    (apart : src ≠ dst) :
    Shows rows cols (update cells dst (cells src)) (vio.copyRow (dst * cols) (src * cols)) := by
  unfold copyRow
  rw [shows_.colCount]
  apply row_shows shows_
  intro c hc vio shows_
  obtain ⟨cell, raw⟩ := shows_.each src c hsrc hc
  have source : rowPart cells dst c (cells src) src = cells src := update_of_ne apart _ cells
  rw [source] at cell raw
  unfold copyFrom
  rw [cell, raw]
  exact put_shows shows_ hdst hc _ _

theorem fillRow_shows (shows_ : Shows rows cols cells vio) (hdst : dst < rows) (cell : Cell)
    (raw : UInt8) :
    Shows rows cols (update cells dst fun _ => (cell, raw)) (vio.fillRow (dst * cols) cell raw) := by
  unfold fillRow
  rw [shows_.colCount]
  exact row_shows shows_ fun c hc vio shows_ => put_shows shows_ hdst hc _ _

/-- The rows from `first` to before `stop` are filled. -/
theorem fillRows_shows {first stop : Nat} (shows_ : Shows rows cols cells vio) (inside : stop ≤ rows)
    (order : first ≤ stop) (cell : Cell) (raw : UInt8) :
    Shows rows cols
      (fun r => if first ≤ r ∧ r < stop then fun _ => (cell, raw) else cells r)
      (vio.fillRows first stop cell raw) := by
  have filled := @Shows.foldl rows cols cells vio Nat
    (fun vio row => vio.fillRow (row * vio.cols) cell raw)
    (fun cells row => update cells row fun _ => (cell, raw)) (List.range' first (stop - first))
    (fun cells vio row member shows_ => by
      have bound := List.mem_range'_1.mp member
      rw [shows_.colCount]
      exact fillRow_shows shows_ (by omega) cell raw) shows_
  rw [Shifts.foldl_fill, Nat.add_sub_cancel' order] at filled
  exact filled

/-- The rows of a region after each has taken its source's place, or is filled. -/
def moved (top bottom : Nat) (source : Nat → Option Nat) (fill : Cell × UInt8)
    (cells : Nat → Nat → Cell × UInt8) : Nat → Nat → Cell × UInt8 :=
  fun r => if top ≤ r ∧ r ≤ bottom then
    match source r with
    | some other => cells other
    | none => fun _ => fill
  else cells r

section Moved

variable {top bottom : Nat} {source : Nat → Option Nat} {fill : Cell × UInt8}

theorem moved_some {other : Nat} (region : top ≤ r ∧ r ≤ bottom) (from_ : source r = some other) :
    moved top bottom source fill cells r = cells other := by
  unfold moved
  rw [if_pos region, from_]

theorem moved_none (region : top ≤ r ∧ r ≤ bottom) (vacated : source r = none) :
    moved top bottom source fill cells r = fun _ => fill := by
  unfold moved
  rw [if_pos region, vacated]

theorem moved_outside (region : ¬ (top ≤ r ∧ r ≤ bottom)) :
    moved top bottom source fill cells r = cells r := if_neg region

/-- Without any lines the region is cleared. -/
theorem clear_shows {cell : Cell} {raw : UInt8} (shows_ : Shows rows cols cells vio)
    (order : top ≤ bottom) (inside : bottom < rows) (vacated : ∀ r, source r = none) :
    Shows rows cols (moved top bottom source (cell, raw) cells)
      (vio.fillRows top (bottom + 1) cell raw) := by
  apply (fillRows_shows shows_ (show bottom + 1 ≤ rows from inside) (by omega) cell raw).congr
  intro r c _ _
  by_cases region : top ≤ r ∧ r ≤ bottom
  · rw [moved_none region (vacated r), if_pos (by omega)]
  · rw [moved_outside region, if_neg (by omega)]

end Moved

theorem scrollUp_shows {top bottom lines : Nat} (shows_ : Shows rows cols cells vio)
    (order : top ≤ bottom) (inside : bottom < rows) (cell : Cell) (raw : UInt8) :
    Shows rows cols (moved top bottom (sourceUp bottom lines) (cell, raw) cells)
      (vio.scrollUp top bottom lines cell raw) := by
  unfold scrollUp
  rw [if_neg (by rw [shows_.rowCount]; omega)]
  by_cases none_ : lines = 0
  · rw [if_pos none_]
    exact clear_shows shows_ order inside fun r => if_neg fun both => both.1 none_
  · rw [if_neg none_]
    dsimp only
    obtain ⟨height, hheight⟩ : ∃ height, height = min lines (bottom - top + 1) := ⟨_, rfl⟩
    rw [← hheight]
    have shifted := @Shows.foldl rows cols cells vio Nat
      (fun vio row => vio.copyRow (row * vio.cols) ((row + height) * vio.cols))
      (fun cells row => update cells row (cells (row + height)))
      (List.range' top (bottom + 1 - height - top))
      (fun cells vio row member shows_ => by
        have bound := List.mem_range'_1.mp member
        rw [shows_.colCount]
        exact copyRow_shows shows_ (by omega) (by omega) (by omega)) shows_
    rw [Shifts.foldl_shift_back] at shifted
    have filled := fillRows_shows shifted (show bottom + 1 ≤ rows from inside)
      (show bottom + 1 - height ≤ bottom + 1 by omega) cell raw
    apply filled.congr
    intro r c _ _
    by_cases region : top ≤ r ∧ r ≤ bottom
    · by_cases source : r + lines ≤ bottom
      · have all : height = lines := by omega
        rw [moved_some region (if_pos ⟨none_, source⟩), if_neg (by omega), if_pos (by omega), all]
      · rw [moved_none region (if_neg fun both => source both.2), if_pos (by omega)]
    · rw [moved_outside region, if_neg (by omega), if_neg (by omega)]

theorem scrollDown_shows {top bottom lines : Nat} (shows_ : Shows rows cols cells vio)
    (order : top ≤ bottom) (inside : bottom < rows) (cell : Cell) (raw : UInt8) :
    Shows rows cols (moved top bottom (sourceDown top lines) (cell, raw) cells)
      (vio.scrollDown top bottom lines cell raw) := by
  unfold scrollDown
  rw [if_neg (by rw [shows_.rowCount]; omega)]
  by_cases none_ : lines = 0
  · rw [if_pos none_]
    exact clear_shows shows_ order inside fun r => if_neg fun both => both.1 none_
  · rw [if_neg none_]
    dsimp only
    obtain ⟨height, hheight⟩ : ∃ height, height = min lines (bottom - top + 1) := ⟨_, rfl⟩
    rw [← hheight]
    have shifted := @Shows.foldl rows cols cells vio Nat
      (fun vio row => vio.copyRow (row * vio.cols) ((row - height) * vio.cols))
      (fun cells row => update cells row (cells (row - height)))
      (List.range' (top + height) (bottom + 1 - (top + height))).reverse
      (fun cells vio row member shows_ => by
        have bound := List.mem_range'_1.mp (List.mem_reverse.mp member)
        rw [shows_.colCount]
        exact copyRow_shows shows_ (by omega) (by omega) (by omega)) shows_
    rw [Shifts.foldl_shift_on] at shifted
    have filled := fillRows_shows shifted (show top + height ≤ rows by omega)
      (Nat.le_add_right top height) cell raw
    apply filled.congr
    intro r c _ _
    by_cases region : top ≤ r ∧ r ≤ bottom
    · by_cases source : top + lines ≤ r
      · have all : height = lines := by omega
        rw [moved_some region (if_pos ⟨none_, source⟩), if_neg (by omega), if_pos (by omega), all]
      · rw [moved_none region (if_neg fun both => source both.2), if_pos (by omega)]
    · rw [moved_outside region, if_neg (by omega), if_neg (by omega)]

/-- The whole screen one row up, its cells counted along the rows. The cursor may be
anywhere. -/
theorem scrollUp_buffer {bottom i : Nat} (sized : Sized { vio with cursorRow := 0, cursorCol := 0 })
    (last : bottom + 1 = vio.rows) (inside : i < vio.rows * vio.cols) :
    (vio.scrollUp 0 bottom 1 blankCell space).buffer[i]? =
      if i + vio.cols < vio.rows * vio.cols then vio.buffer[i + vio.cols]? else some blankCell := by
  have place := Nat.div_add_mod' i vio.cols
  have hcol := Nat.mod_lt i (show 0 < vio.cols from sized.cols.1)
  have hrow : i / vio.cols < vio.rows := Nat.div_lt_of_lt_mul (Nat.mul_comm _ _ ▸ inside)
  have shows_ : Shows vio.rows vio.cols vio.shown vio :=
    ⟨rfl, rfl, sized.buffer, sized.rawBytes, (shows_shown sized).each⟩
  have after := (@scrollUp_shows _ _ _ _ 0 bottom 1 shows_ (Nat.zero_le _) (by omega)
    blankCell space).each _ _ hrow hcol
  rw [place] at after
  rw [after.1]
  have region : 0 ≤ i / vio.cols ∧ i / vio.cols ≤ bottom := ⟨Nat.zero_le _, by omega⟩
  by_cases source : i / vio.cols + 1 ≤ bottom
  · have below : (i / vio.cols + 1) * vio.cols + i % vio.cols = i + vio.cols := by
      rw [Nat.succ_mul]
      omega
    have cell := shows_.each (i / vio.cols + 1) _ (by omega) hcol
    rw [below] at cell
    have screen := place_lt (show i / vio.cols + 1 < vio.rows by omega) hcol
    rw [below] at screen
    rw [moved_some region (if_pos ⟨one_ne_zero, source⟩), cell.1, if_pos screen]
  · have behind : vio.rows * vio.cols ≤ i + vio.cols := by
      have := Nat.mul_le_mul_right vio.cols (show vio.rows ≤ i / vio.cols + 1 by omega)
      rw [Nat.succ_mul] at this
      omega
    rw [moved_none region (if_neg fun both => source both.2), if_neg (Nat.not_lt.mpr behind)]

/-- A byte in the last cell of the screen moves all of it one row up. -/
theorem writeTtyByte_scrolls {rs : EncodingRs} {cp : Nat} {attr ch : UInt8} (sized : Sized vio)
    (plain : isControl ch = false)
    (last : vio.cursorRow * vio.cols + vio.cursorCol + 1 = vio.rows * vio.cols) :
    let next := vio.writeTtyByte rs attr cp ch
    next.rows = vio.rows ∧ next.cols = vio.cols ∧
      next.cursorRow * next.cols + next.cursorCol + vio.cols = vio.rows * vio.cols ∧
        ∀ i < vio.rows * vio.cols, next.buffer[i]? =
          if i + vio.cols < vio.rows * vio.cols then
            (vio.buffer.set (vio.cursorRow * vio.cols + vio.cursorCol)
              (decodeVioByte rs ch cp, attr))[i + vio.cols]?
          else some blankCell := by
  have hrow := sized.cursorRow
  have hcol := sized.cursorCol
  have hrows := sized.rows
  have hcols := sized.cols
  have bottom : vio.cursorRow + 1 = vio.rows := by
    by_contra above
    have := place_lt (show vio.cursorRow + 1 < vio.rows by omega) hcol
    rw [Nat.succ_mul] at this
    omega
  have corner : vio.cursorCol + 1 = vio.cols := by
    have := congrArg (· * vio.cols) bottom
    simp only [Nat.succ_mul] at this
    omega
  dsimp only
  rw [writeTtyByte_drawn sized plain]
  have painted := @put_painted (fun _ _ => True) (decodeVioByte rs ch cp, attr) ch trivial vio
    (vio.cursorRow * vio.cols + vio.cursorCol)
  have hbuffer := put_buffer vio (vio.cursorRow * vio.cols + vio.cursorCol)
    (decodeVioByte rs ch cp, attr) ch
  generalize vio.put (vio.cursorRow * vio.cols + vio.cursorCol) (decodeVioByte rs ch cp, attr) ch =
    drawn at painted hbuffer
  have scrolled : drawn.advance =
      { { drawn with cursorRow := vio.rows, cursorCol := 0 }.scrollUp 0 (vio.rows - 1) 1
          blankCell space with cursorRow := vio.rows - 1 } := by
    have full : (drawn.cursorCol + 1) % u16Size = vio.cols := by
      rw [painted.cursorCol, corner, Nat.mod_eq_of_lt hcols.2]
    have below : (drawn.cursorRow + 1) % u16Size = vio.rows := by
      rw [painted.cursorRow, bottom, Nat.mod_eq_of_lt hrows.2]
    have lastRow : (drawn.rows + (u16Size - 1)) % u16Size = vio.rows - 1 := by
      rw [painted.rows]
      unfold u16Size at *
      omega
    unfold advance
    dsimp only
    rw [full, if_pos (by rw [painted.cols]), nextRow_scrolls (by dsimp only; rw [below, painted.rows])]
    dsimp only
    rw [below, lastRow]
  have before := painted.sized sized
  have moved_ := @scrollUp_painted (fun _ _ => True) blankCell space trivial
    { drawn with cursorRow := vio.rows, cursorCol := 0 } 0 (vio.rows - 1) 1
  rw [scrolled]
  refine ⟨moved_.rows.trans painted.rows, moved_.cols.trans painted.cols, ?_, ?_⟩
  · have cols : ({ drawn with cursorRow := vio.rows, cursorCol := 0 }.scrollUp 0 (vio.rows - 1) 1
        blankCell space).cols = vio.cols := moved_.cols.trans painted.cols
    dsimp only
    rw [moved_.cursorCol, cols, Nat.add_zero, ← Nat.succ_mul, Nat.succ_eq_add_one,
      Nat.sub_add_cancel hrows.1]
  · intro i inside
    have cell := @scrollUp_buffer { drawn with cursorRow := vio.rows, cursorCol := 0 }
      (vio.rows - 1) i
      { before with
        cursorRow := Nat.lt_of_lt_of_le Nat.zero_lt_one before.rows.1
        cursorCol := Nat.lt_of_lt_of_le Nat.zero_lt_one before.cols.1 }
      (by rw [painted.rows, Nat.sub_add_cancel hrows.1])
      (by dsimp only; rw [painted.rows, painted.cols]; exact inside)
    apply cell.trans
    dsimp only
    rw [painted.rows, painted.cols, hbuffer]

/-- A screen is read as what it shows. -/
theorem Shows.shown_eq (shows_ : Shows rows cols cells vio) (hr : r < rows) (hc : c < cols) :
    vio.shown r c = cells r c := by
  obtain ⟨cell, raw⟩ := shows_.each r c hr hc
  rw [shown, shows_.colCount, cell, raw]
  rfl

end Showing

section Words

variable {vio : VioManager} {top bottom lines : Nat}

theorem terminalWords_fit (sized : Sized vio) (order : top ≤ bottom) (inside : bottom < vio.rows) :
    vio.terminalWords top bottom = some () := by
  have rows := sized.rows
  have cols := sized.cols
  have cursorRow := sized.cursorRow
  have cursorCol := sized.cursorCol
  unfold u16Size at rows cols
  unfold terminalWords
  split
  · rfl
  · rw [addWord_of_lt (by omega), addWord_of_lt (by omega), addWord_of_lt (by omega),
      addWord_of_lt (by omega)]
    rfl

/-- The row before the one that stays the first of the vacated ones is counted below zero. -/
theorem scrollUpWords_iff (sized : Sized vio) (order : top ≤ bottom) (inside : bottom < vio.rows) :
    vio.scrollUpWords top bottom lines = some () ↔ lines = 0 ∨ top ≠ 0 ∨ lines ≤ bottom := by
  have rows := sized.rows
  unfold u16Size at rows
  unfold scrollUpWords
  rw [if_neg (by omega), terminalWords_fit sized order inside]
  by_cases none_ : lines = 0
  · rw [if_pos none_]
    exact iff_of_true rfl (Or.inl none_)
  · rw [if_neg none_, subWord_of_le order]
    simp only [Option.bind_eq_bind, Option.bind_some]
    rw [addWord_of_lt (by omega)]
    simp only [Option.bind_some]
    by_cases below : min lines (bottom - top + 1) ≤ bottom
    · rw [subWord_of_le below]
      simp only [Option.bind_some]
      rw [addWord_of_lt (by omega)]
      exact iff_of_true rfl (by omega)
    · rw [show subWord bottom (min lines (bottom - top + 1)) = none from if_neg below]
      exact iff_of_false (by simp) (by omega)

theorem scrollDownWords_fit (sized : Sized vio) (order : top ≤ bottom) (inside : bottom < vio.rows) :
    vio.scrollDownWords top bottom lines = some () := by
  have rows := sized.rows
  unfold u16Size at rows
  unfold scrollDownWords
  rw [if_neg (by omega), terminalWords_fit sized order inside]
  by_cases none_ : lines = 0
  · exact if_pos none_
  · rw [if_neg none_, subWord_of_le order]
    simp only [Option.bind_eq_bind, Option.bind_some]
    rw [addWord_of_lt (by omega)]
    simp only [Option.bind_some]
    rw [addWord_of_lt (by omega)]
    rfl

end Words

end VioManager

section Calls

variable (rs : EncodingRs) (cp : Nat) (vio : VioManager)

/-- `VioScrollUp`, whose columns are for the log only; without a result where a word
overflows. -/
def vioScrollUp (top _left bottom _right lines : UInt32) (cell : Option (UInt8 × UInt8)) :
    Option VioManager :=
  (vio.scrollUpWords top.toUInt16.toNat bottom.toUInt16.toNat lines.toUInt16.toNat).map fun _ =>
    (VioCall.scrollUp top bottom lines cell).exec rs cp vio

def vioScrollDn (top _left bottom _right lines : UInt32) (cell : Option (UInt8 × UInt8)) :
    Option VioManager :=
  (vio.scrollDownWords top.toUInt16.toNat bottom.toUInt16.toNat lines.toUInt16.toNat).map fun _ =>
    (VioCall.scrollDn top bottom lines cell).exec rs cp vio

end Calls

/-- Each row of the window takes what another row had before, or is filled, and the rows above
and below the window stay. -/
structure Scrolled (before after : VioManager) (top left bottom right : Nat)
    (source : Nat → Option Nat) (fill : Cell × UInt8) : Prop where
  rows : after.rows = before.rows
  cols : after.cols = before.cols
  inside : ∀ r c, top ≤ r → r ≤ bottom → left ≤ c → c ≤ right → after.shown r c =
    match source r with
    | some other => before.shown other c
    | none => fill
  outside : ∀ r c, r < before.rows → c < before.cols → r < top ∨ bottom < r →
    after.shown r c = before.shown r c

section Results

variable {rs : EncodingRs} {cp : Nat} {vio : VioManager}

/-- The rows of a call are inside the screen, and so are words. -/
theorem row_toNat {row : UInt32} {rows : Nat} (inside : row.toNat < rows) (small : rows < u16Size) :
    row.toUInt16.toNat = row.toNat := by
  rw [UInt32.toNat_toUInt16]
  exact Nat.mod_eq_of_lt (Nat.lt_trans inside small)

theorem scrolled_of_shows {after : VioManager} {top left bottom right : Nat}
    {source : Nat → Option Nat} {fill : Cell × UInt8}
    (inside : bottom < vio.rows) (window : right < vio.cols)
    (shows_ : VioManager.Shows vio.rows vio.cols
      (VioManager.moved top bottom source fill vio.shown) after) :
    Scrolled vio after top left bottom right source fill where
  rows := shows_.rowCount
  cols := shows_.colCount
  inside := by
    intro r c first last _ col
    rw [shows_.shown_eq (by omega) (by omega)]
    cases from_ : source r with
    | some other => exact congrFun (VioManager.moved_some ⟨first, last⟩ from_) c
    | none => exact congrFun (VioManager.moved_none ⟨first, last⟩ from_) c
  outside := by
    intro r c hr hc apart
    rw [shows_.shown_eq hr hc, VioManager.moved_outside (by omega)]

section Region

variable {top left bottom right lines : UInt32} {cell : Option (UInt8 × UInt8)}

theorem vioScrollUp_scrolled (sized : Sized vio) (order : top.toNat ≤ bottom.toNat)
    (inside : bottom.toNat < vio.rows) (window : right.toNat < vio.cols)
    (fits : lines.toUInt16 = 0 ∨ top ≠ 0 ∨ lines.toUInt16.toNat ≤ bottom.toNat) :
    ∃ after, vioScrollUp rs cp vio top left bottom right lines cell = some after ∧
      Scrolled vio after top.toNat left.toNat bottom.toNat right.toNat
        (VioManager.sourceUp bottom.toNat lines.toUInt16.toNat) (fillOf rs cp cell) := by
  have hbottom := row_toNat inside sized.rows.2
  have htop := row_toNat (Nat.lt_of_le_of_lt order inside) sized.rows.2
  have words : vio.scrollUpWords top.toNat bottom.toNat lines.toUInt16.toNat = some () := by
    apply (VioManager.scrollUpWords_iff sized order inside).mpr
    refine fits.imp (fun none_ => by rw [none_]; rfl) (Or.imp_left fun below zero => below ?_)
    exact UInt32.toNat_inj.mp zero
  unfold vioScrollUp
  dsimp only [VioCall.exec]
  rw [htop, hbottom, words]
  exact ⟨_, rfl, scrolled_of_shows inside window
    (VioManager.scrollUp_shows (VioManager.shows_shown sized) order inside _ _)⟩

theorem vioScrollDn_scrolled (sized : Sized vio) (order : top.toNat ≤ bottom.toNat)
    (inside : bottom.toNat < vio.rows) (window : right.toNat < vio.cols) :
    ∃ after, vioScrollDn rs cp vio top left bottom right lines cell = some after ∧
      Scrolled vio after top.toNat left.toNat bottom.toNat right.toNat
        (VioManager.sourceDown top.toNat lines.toUInt16.toNat) (fillOf rs cp cell) := by
  have hbottom := row_toNat inside sized.rows.2
  have htop := row_toNat (Nat.lt_of_le_of_lt order inside) sized.rows.2
  unfold vioScrollDn
  dsimp only [VioCall.exec]
  rw [htop, hbottom, VioManager.scrollDownWords_fit sized order inside]
  exact ⟨_, rfl, scrolled_of_shows inside window
    (VioManager.scrollDown_shows (VioManager.shows_shown sized) order inside _ _)⟩

end Region

/-- On every screen that calls can leave, the rows of a region move and the vacated ones are
filled; a count of zero clears the region. -/
theorem scroll_calls_move (rs : EncodingRs) (winsize : Option (UInt16 × UInt16))
    (calls : List Call) (cp : Nat) (top left bottom right lines : UInt32)
    (cell : Option (UInt8 × UInt8)) :
    let vio := ((System.new winsize).run rs calls).console
    top.toNat ≤ bottom.toNat → bottom.toNat < vio.rows → left.toNat ≤ right.toNat →
    right.toNat < vio.cols →
      (lines.toUInt16 = 0 ∨ top ≠ 0 ∨ lines.toUInt16.toNat ≤ bottom.toNat →
        ∃ after, vioScrollUp rs cp vio top left bottom right lines cell = some after ∧
          Scrolled vio after top.toNat left.toNat bottom.toNat right.toNat
            (VioManager.sourceUp bottom.toNat lines.toUInt16.toNat) (fillOf rs cp cell)) ∧
      ∃ after, vioScrollDn rs cp vio top left bottom right lines cell = some after ∧
        Scrolled vio after top.toNat left.toNat bottom.toNat right.toNat
          (VioManager.sourceDown top.toNat lines.toUInt16.toNat) (fillOf rs cp cell) := by
  intro vio order inside _ window
  have sized : Sized vio := run_sized _ calls (VioManager.new_sized winsize)
  exact ⟨vioScrollUp_scrolled sized order inside window,
    vioScrollDn_scrolled sized order inside window⟩

end Results

theorem scroll_calls_move_two :
    let vio := ((System.new (some (2, 2))).run noLibrary
      [.vio (.wrtCharStrAtt [0x61] 1 1 0x07)]).console
    ∃ after, vioScrollUp noLibrary 437 vio 0 1 1 1 1 (some (0x2A, 0x1A)) = some after ∧
      Scrolled vio after 0 1 1 1 (VioManager.sourceUp 1 1) (('*', 0x1A), 0x2A) :=
  (scroll_calls_move noLibrary (some (2, 2)) [.vio (.wrtCharStrAtt [0x61] 1 1 0x07)] 437 0 1 1 1 1
    (some (0x2A, 0x1A)) (by decide) (by decide) (by decide) (by decide)).1
      (Or.inr (Or.inr (by decide)))

/-- The rows of the window move by the count alone, and no cell outside the window changes. -/
structure WindowScrolled (before after : VioManager) (top left bottom right lines : Nat)
    (fill : Cell × UInt8) : Prop where
  inside : ∀ r c, top ≤ r → r ≤ bottom → left ≤ c → c ≤ right → after.shown r c =
    if r + lines ≤ bottom then before.shown (r + lines) c else fill
  outside : ∀ r c, r < before.rows → c < before.cols →
    ¬ (top ≤ r ∧ r ≤ bottom ∧ left ≤ c ∧ c ≤ right) → after.shown r c = before.shown r c

/-- The letter right of the window moves as well, a count of zero clears what it would leave,
and a count of more rows than there are is not taken from the first row on. -/
theorem scroll_leaves_window :
    let vio := ((System.new (some (2, 2))).run noLibrary
      [.vio (.wrtCharStrAtt [0x61] 1 1 0x07)]).console
    (¬ ∃ after, vioScrollUp noLibrary 437 vio 0 0 1 0 1 none = some after ∧
      WindowScrolled vio after 0 0 1 0 1 (VioManager.blankCell, VioManager.space)) ∧
    (¬ ∃ after, vioScrollUp noLibrary 437 vio 0 0 1 1 0 none = some after ∧
      WindowScrolled vio after 0 0 1 1 0 (VioManager.blankCell, VioManager.space)) ∧
    vioScrollUp noLibrary 437 vio 0 0 1 1 3 none = none := by
  intro vio
  refine ⟨?_, ?_, by decide⟩
  · rintro ⟨after, call, same⟩
    have kept := same.outside 0 1 (by decide) (by decide) (by decide)
    rw [← Option.some.inj call] at kept
    exact absurd kept (by decide)
  · rintro ⟨after, call, same⟩
    have kept := same.inside 1 1 (by decide) (by decide) (by decide) (by decide)
    rw [← Option.some.inj call] at kept
    exact absurd kept (by decide)

end Warpine.Vio
