import Warpine.Gui.RenderRect
import Warpine.Lib.DigitalLine

/-! Lines in a window's pixel buffer. The loop stops only when it is at the end of the line. -/
namespace Warpine.Gui
open Warpine.Lib

/-- `buf[idx] = color`. An index outside the buffer is a panic. -/
def putPixel (buf : List UInt32) (color : UInt32) (idx : Nat) : Option (List UInt32) :=
  if idx < buf.length then some (buf.set idx color) else none

def flipY (y : Int) (height : Nat) : Option Int := do
  let top ← i32 (asI32 height - 1)
  i32 (top - y)

/-- A place has a pixel of the buffer. Its row is told from the top. -/
def OnBuffer (width height : Nat) (x fy : Int) : Prop :=
  (0 ≤ x ∧ x < asI32 width) ∧ 0 ≤ fy ∧ fy < asI32 height

instance (width height : Nat) (x fy : Int) : Decidable (OnBuffer width height x fy) :=
  inferInstanceAs (Decidable (_ ∧ _))

def plot (buf : List UInt32) (width height : Nat) (color : UInt32) (x fy : Int) :
    Option (List UInt32) :=
  if OnBuffer width height x fy then
    putPixel buf color (pixelIdx width (asU32 x) (asU32 fy))
  else some buf

def distance (first second : Int) : Option Int := do
  let difference ← i32 (second - first)
  i32 difference.natAbs

structure LineState where
  x : Int
  y : Int
  err : Int

/-- What a loop has done so far: the places it was at, and the pixels. -/
structure LineTrace where
  visited : List (Int × Int)
  buf : List UInt32
  ended : Bool

/-- `if .. { err += change; place += dir; }`. -/
def sideStep (moves : Bool) (err change place dir : Int) : Option (Int × Int) :=
  if moves then do
    let err ← i32 (err + change)
    let place ← i32 (place + dir)
    return (err, place)
  else some (err, place)

section Loop

variable (width height : Nat) (color : UInt32) (x2 y2 dx dy sx sy : Int)

def lineTurn (s : LineState) : Option LineState := do
  let e2 ← i32 (2 * s.err)
  let low ← i32 (-dy)
  let (err, x) ← sideStep (decide (low < e2)) s.err low s.x sx
  let (err, y) ← sideStep (decide (e2 < dx)) err dx s.y sy
  return { x, y, err }

def lineLoop : Nat → LineState → List UInt32 → Option LineTrace
  | 0, _, buf => some ⟨[], buf, false⟩
  | turns + 1, s, buf => do
      let fy ← flipY s.y height
      let buf ← plot buf width height color s.x fy
      if s.x = x2 ∧ s.y = y2 then return ⟨[(s.x, s.y)], buf, true⟩
      let next ← lineTurn dx dy sx sy s
      let rest ← lineLoop turns next buf
      return { rest with visited := (s.x, s.y) :: rest.visited }

end Loop

/-- The line after so many turns of its loop. -/
def renderLineToBuffer (turns : Nat) (buf : List UInt32) (width height : Nat)
    (x1 y1 x2 y2 : Int) (color : UInt32) : Option LineTrace :=
  if width = 0 ∨ height = 0 then some ⟨[], buf, true⟩
  else do
    let dx ← distance x1 x2
    let dy ← distance y1 y2
    let sx := if x1 < x2 then 1 else -1
    let sy := if y1 < y2 then 1 else -1
    let err ← i32 (dx - dy)
    lineLoop width height color x2 y2 dx dy sx sy turns ⟨x1, y1, err⟩ buf

/-- One step along the longer side, and one or none along the shorter. -/
def Advances (dx dy : Int) (place next : Int × Int) : Prop :=
  if dy.natAbs ≤ dx.natAbs then
    next.1 = place.1 + dx.sign ∧ (next.2 = place.2 ∨ next.2 = place.2 + dy.sign)
  else next.2 = place.2 + dy.sign ∧ (next.1 = place.1 ∨ next.1 = place.1 + dx.sign)

/-- The places of a line. None is off it by more than half of a pixel along the shorter side. -/
structure LinePlaces (x1 y1 x2 y2 : Int) (places : List (Int × Int)) : Prop where
  count : places.length = max (x2 - x1).natAbs (y2 - y1).natAbs + 1
  first : places.head? = some (x1, y1)
  last : places.getLast? = some (x2, y2)
  advances : ∀ k place next, places[k]? = some place → places[k + 1]? = some next →
    Advances (x2 - x1) (y2 - y1) place next
  near : ∀ place ∈ places, 2 * ((place.2 - y1) * (x2 - x1) - (place.1 - x1) * (y2 - y1)).natAbs ≤
    max (x2 - x1).natAbs (y2 - y1).natAbs

/-- A side of a line: its length and its direction. -/
structure Side (first second length dir : Int) : Prop where
  nonneg : 0 ≤ length
  unit : dir = 1 ∨ dir = -1
  ends : second = first + dir * length

section Sides

variable {first second length dir i : Int}

theorem side_of (first second : Int) :
    Side first second (second - first).natAbs (if first < second then 1 else -1) := by
  split
  · exact ⟨by omega, .inl rfl, by omega⟩
  · exact ⟨by omega, .inr rfl, by omega⟩

theorem Side.natAbs (side : Side first second length dir) :
    ((second - first).natAbs : Int) = length := by
  obtain ⟨nonneg, rfl | rfl, rfl⟩ := side
  · omega
  · omega

theorem Side.sign (side : Side first second length dir) (some_ : 0 < length) :
    (second - first).sign = dir := by
  obtain ⟨_, rfl | rfl, rfl⟩ := side
  · rw [Int.sign_eq_one_of_pos (by omega)]
  · rw [Int.sign_eq_neg_one_of_neg (by omega)]

theorem Side.inI32 (side : Side first second length dir) (low : InI32 first) (high : InI32 second)
    (inside : 0 ≤ i ∧ i ≤ length) : InI32 (first + dir * i) := by
  unfold InI32 InRange at *
  obtain ⟨_, rfl | rfl, rfl⟩ := side
  · omega
  · omega

theorem Side.between (side : Side first second length dir) (inside : 0 ≤ i ∧ i ≤ length) :
    min first second ≤ first + dir * i ∧ first + dir * i ≤ max first second := by
  obtain ⟨_, rfl | rfl, rfl⟩ := side
  · omega
  · omega

theorem Side.at_end_iff (side : Side first second length dir) :
    first + dir * i = second ↔ i = length := by
  obtain ⟨_, rfl | rfl, rfl⟩ := side
  · omega
  · omega

end Sides

section Turns

open DigitalLine

def placeAt (x1 y1 a b sx sy : Int) (k : Nat) : Int × Int :=
  (x1 + sx * (walk a b k).1, y1 + sy * (walk a b k).2)

/-- The state after so many turns. -/
def stateAt (x1 y1 a b sx sy : Int) (k : Nat) : LineState where
  x := (placeAt x1 y1 a b sx sy k).1
  y := (placeAt x1 y1 a b sx sy k).2
  err := error a b (walk a b k).1 (walk a b k).2

theorem sideStep_eq_some {moves : Bool} {err change place dir : Int} {next : Int × Int} :
    sideStep moves err change place dir = some next ↔
      (moves = true → InI32 (err + change) ∧ InI32 (place + dir)) ∧
        next = (if moves then err + change else err, if moves then place + dir else place) := by
  unfold sideStep
  cases moves with
  | false => simp [eq_comm]
  | true =>
    simp only [if_true, Option.bind_eq_bind, Option.bind_eq_some_iff, i32_eq_some, Option.pure_def,
      Option.some.injEq, true_implies]
    constructor
    · rintro ⟨_, ⟨first, rfl⟩, _, ⟨second, rfl⟩, rfl⟩
      exact ⟨⟨first, second⟩, rfl⟩
    · rintro ⟨⟨first, second⟩, rfl⟩
      exact ⟨_, ⟨first, rfl⟩, _, ⟨second, rfl⟩, rfl⟩

theorem lineTurn_eq_some {dx dy sx sy : Int} {s next : LineState} :
    lineTurn dx dy sx sy s = some next ↔ InI32 (2 * s.err) ∧ InI32 (-dy) ∧
      (-dy < 2 * s.err → InI32 (s.err - dy) ∧ InI32 (s.x + sx)) ∧
        (2 * s.err < dx → InI32 ((if -dy < 2 * s.err then s.err - dy else s.err) + dx) ∧
          InI32 (s.y + sy)) ∧
            next = {
              x := if -dy < 2 * s.err then s.x + sx else s.x
              y := if 2 * s.err < dx then s.y + sy else s.y
              err := if 2 * s.err < dx then
                  (if -dy < 2 * s.err then s.err - dy else s.err) + dx
                else if -dy < 2 * s.err then s.err - dy else s.err } := by
  unfold lineTurn
  simp only [Option.bind_eq_bind, Option.bind_eq_some_iff, i32_eq_some, sideStep_eq_some,
    decide_eq_true_eq, Option.pure_def, Option.some.injEq]
  constructor
  · rintro ⟨_, ⟨double, rfl⟩, _, ⟨low, rfl⟩, _, ⟨alongX, rfl⟩, _, ⟨alongY, rfl⟩, rfl⟩
    exact ⟨double, low, alongX, alongY, rfl⟩
  · rintro ⟨double, low, alongX, alongY, rfl⟩
    exact ⟨_, ⟨double, rfl⟩, _, ⟨low, rfl⟩, _, ⟨alongX, rfl⟩, _, ⟨alongY, rfl⟩, rfl⟩

variable {x1 y1 x2 y2 a b sx sy : Int} {k : Nat}

/-- The state takes the same steps as the walk. -/
theorem stateAt_succ (x1 y1 a b sx sy : Int) (k : Nat) :
    let s := stateAt x1 y1 a b sx sy k
    stateAt x1 y1 a b sx sy (k + 1) = {
      x := if -b < 2 * s.err then s.x + sx else s.x
      y := if 2 * s.err < a then s.y + sy else s.y
      err := if 2 * s.err < a then (if -b < 2 * s.err then s.err - b else s.err) + a
        else if -b < 2 * s.err then s.err - b else s.err } := by
  unfold stateAt placeAt
  rw [DigitalLine.walk]
  obtain ⟨i, j⟩ := walk a b k
  unfold step
  dsimp only
  have right : error a b (i + 1) j = error a b i j - b := by
    rw [error_eq, error_eq, offset_right]
    omega
  have up (i : Int) : error a b i (j + 1) = error a b i j + a := by
    rw [error_eq, error_eq, offset_up]
    omega
  by_cases forward : -b < 2 * error a b i j
  · by_cases climbs : 2 * error a b i j < a
    · simp only [if_pos forward, if_pos climbs, Int.mul_add, Int.mul_one, Int.add_assoc, up, right]
    · simp only [if_pos forward, if_neg climbs, Int.mul_add, Int.mul_one, Int.add_assoc, right]
  · by_cases climbs : 2 * error a b i j < a
    · simp only [if_neg forward, if_pos climbs, Int.mul_add, Int.mul_one, Int.add_assoc, up]
    · simp only [if_neg forward, if_neg climbs]

section Bounded

variable (sideX : Side x1 x2 a sx) (sideY : Side y1 y2 b sy)
  (rangeX : InI32 x1 ∧ InI32 x2) (rangeY : InI32 y1 ∧ InI32 y2)

include sideX sideY rangeX rangeY

theorem placeAt_inI32 (some_ : 0 < steps a b) (inside : k ≤ steps a b) :
    InI32 (placeAt x1 y1 a b sx sy k).1 ∧ InI32 (placeAt x1 y1 a b sx sy k).2 := by
  have between := walk_between sideX.nonneg sideY.nonneg some_ inside
  exact ⟨sideX.inI32 rangeX.1 rangeX.2 between.1, sideY.inI32 rangeY.1 rangeY.2 between.2⟩

/-- A turn before the end walks one step, if its numbers fit. -/
theorem lineTurn_stateAt (short : InI32 b) (inside : k < steps a b) {next : LineState} :
    lineTurn a b sx sy (stateAt x1 y1 a b sx sy k) = some next ↔
      TurnFits 2147483648 a b (walk a b k) ∧ next = stateAt x1 y1 a b sx sy (k + 1) := by
  have range := placeAt_inI32 sideX sideY rangeX rangeY (k := k + 1) (by omega) (by omega)
  have low : InI32 (-b) := by
    have := sideY.nonneg
    unfold InI32 InRange at short ⊢
    omega
  have succ := stateAt_succ x1 y1 a b sx sy k
  have placeX := congrArg LineState.x succ
  have placeY := congrArg LineState.y succ
  dsimp only at placeX placeY
  rw [lineTurn_eq_some, succ]
  constructor
  · rintro ⟨double, _, alongX, alongY, rfl⟩
    exact ⟨⟨double, fun moves => (alongX moves).1, fun moves => (alongY moves).1⟩, rfl⟩
  · rintro ⟨⟨double, alongX, alongY⟩, rfl⟩
    refine ⟨double, low, fun moves => ⟨alongX moves, ?_⟩, fun moves => ⟨alongY moves, ?_⟩, rfl⟩
    · rw [if_pos moves] at placeX
      exact placeX ▸ range.1
    · rw [if_pos moves] at placeY
      exact placeY ▸ range.2

end Bounded

end Turns

/-- A row number counted from the top fits. -/
def FlipFits (height : Nat) (y : Int) : Prop :=
  InI32 (asI32 height - 1) ∧ InI32 (asI32 height - 1 - y)

instance (height : Nat) (y : Int) : Decidable (FlipFits height y) :=
  inferInstanceAs (Decidable (_ ∧ _))

theorem flipY_eq (y : Int) (height : Nat) : flipY y height =
    if FlipFits height y then some (asI32 height - 1 - y) else none := by
  unfold flipY
  by_cases high : InI32 (asI32 height - 1)
  · rw [i32_of_inI32 high, Option.bind_eq_bind, Option.bind_some]
    by_cases fits : InI32 (asI32 height - 1 - y)
    · rw [i32_of_inI32 fits, if_pos ⟨high, fits⟩]
    · rw [i32_of_not_inI32 fits, if_neg fun both => fits both.2]
  · rw [i32_of_not_inI32 high, if_neg fun both => high both.1]
    rfl

section Plots

variable {buf : List UInt32} {width height : Nat} {color : UInt32} {x fy : Int}

theorem asI32_le (value : Nat) : asI32 value ≤ value := by
  unfold asI32 u32Size
  rw [Int.bmod_def]
  omega

theorem asU32_le {value : Int} (nonneg : 0 ≤ value) : (asU32 value : Int) ≤ value := by
  unfold asU32 u32Size
  omega

/-- A place on the buffer has its index in it. -/
theorem pixelIdx_lt (on : OnBuffer width height x fy) :
    pixelIdx width (asU32 x) (asU32 fy) < width * height := by
  obtain ⟨⟨left, right⟩, top, bottom⟩ := on
  have column := Int.lt_of_lt_of_le right (asI32_le width)
  have row := Int.lt_of_lt_of_le bottom (asI32_le height)
  have first := asU32_le left
  have second := asU32_le top
  have inside := place_lt (show asU32 fy < height by omega) (show asU32 x < width by omega)
  rw [Nat.mul_comm height width] at inside
  exact Nat.lt_of_le_of_lt (Nat.mod_le _ _) inside

def paintPlace (width height : Nat) (color : UInt32) (buf : List UInt32) (place : Int × Int) :
    List UInt32 :=
  let fy := asI32 height - 1 - place.2
  if OnBuffer width height place.1 fy then
    buf.set (pixelIdx width (asU32 place.1) (asU32 fy)) color
  else buf

@[simp] theorem paintPlace_length (place : Int × Int) :
    (paintPlace width height color buf place).length = buf.length := by
  unfold paintPlace
  dsimp only
  split
  · exact List.length_set
  · rfl

theorem plot_eq_paintPlace (size : buf.length = width * height) (place : Int × Int) :
    plot buf width height color place.1 (asI32 height - 1 - place.2) =
      some (paintPlace width height color buf place) := by
  unfold plot paintPlace
  by_cases on : OnBuffer width height place.1 (asI32 height - 1 - place.2)
  · have inside := pixelIdx_lt on
    rw [← size] at inside
    rw [if_pos on, putPixel, if_pos inside]
    dsimp only
    rw [if_pos on]
  · rw [if_neg on]
    dsimp only
    rw [if_neg on]

end Plots

theorem lineLoop_succ {width height : Nat} {color : UInt32} {x2 y2 dx dy sx sy : Int}
    {turns : Nat} {s : LineState} {buf : List UInt32} (size : buf.length = width * height) :
    lineLoop width height color x2 y2 dx dy sx sy (turns + 1) s buf =
      if FlipFits height s.y then
        let buf := paintPlace width height color buf (s.x, s.y)
        if s.x = x2 ∧ s.y = y2 then some ⟨[(s.x, s.y)], buf, true⟩
        else (lineTurn dx dy sx sy s).bind fun next =>
          (lineLoop width height color x2 y2 dx dy sx sy turns next buf).map fun rest =>
            { rest with visited := (s.x, s.y) :: rest.visited }
      else none := by
  rw [lineLoop, flipY_eq]
  by_cases flips : FlipFits height s.y
  · have plotted := @plot_eq_paintPlace buf width height color size (s.x, s.y)
    dsimp only at plotted
    rw [if_pos flips, if_pos flips, Option.bind_eq_bind, Option.bind_some, plotted,
      Option.bind_eq_bind, Option.bind_some]
    dsimp only
    by_cases ended : s.x = x2 ∧ s.y = y2
    · rw [if_pos ended, if_pos ended]
      rfl
    · rw [if_neg ended, if_neg ended]
      congr
      funext next
      rw [Option.map_eq_bind]
      rfl
  · rw [if_neg flips, if_neg flips]
    rfl

section Runs

open DigitalLine

variable {width height : Nat} {color : UInt32} {x1 y1 x2 y2 a b sx sy : Int} {k : Nat}
  {buf : List UInt32}

/-- The places of the turns from one on. -/
def placesFrom (x1 y1 a b sx sy : Int) (k turns : Nat) : List (Int × Int) :=
  (List.range' k turns).map (placeAt x1 y1 a b sx sy)

theorem placesFrom_succ (x1 y1 a b sx sy : Int) (k turns : Nat) :
    placesFrom x1 y1 a b sx sy k (turns + 1) =
      placeAt x1 y1 a b sx sy k :: placesFrom x1 y1 a b sx sy (k + 1) turns := by
  rw [placesFrom, List.range'_succ, List.map_cons, placesFrom]

section Bounded

variable (sideX : Side x1 x2 a sx) (sideY : Side y1 y2 b sy)

include sideX sideY

theorem stateAt_end_iff (inside : k ≤ steps a b) :
    (stateAt x1 y1 a b sx sy k).x = x2 ∧ (stateAt x1 y1 a b sx sy k).y = y2 ↔
      k = steps a b := by
  rw [← walk_eq_end_iff sideX.nonneg sideY.nonneg inside, Prod.ext_iff]
  exact and_congr sideX.at_end_iff sideY.at_end_iff

variable (rangeX : InI32 x1 ∧ InI32 x2) (rangeY : InI32 y1 ∧ InI32 y2) (short : InI32 b)

include rangeX rangeY short

/-- As long as all numbers fit the loop visits the places of the walk. -/
theorem lineLoop_fits (turns : Nat) (size : buf.length = width * height)
    (inside : k ≤ steps a b)
    (flips : ∀ m, k ≤ m → m ≤ steps a b → FlipFits height (placeAt x1 y1 a b sx sy m).2)
    (fits : ∀ m, k ≤ m → m < steps a b → TurnFits 2147483648 a b (walk a b m)) :
    let places := placesFrom x1 y1 a b sx sy k (min turns (steps a b + 1 - k))
    lineLoop width height color x2 y2 a b sx sy turns (stateAt x1 y1 a b sx sy k) buf =
      some ⟨places, places.foldl (paintPlace width height color) buf,
        decide (steps a b < k + turns)⟩ := by
  induction turns generalizing k buf with
  | zero =>
    rw [Nat.zero_min, Nat.add_zero, decide_eq_false (by omega)]
    rfl
  | succ turns ih =>
    have count : min (turns + 1) (steps a b + 1 - k) =
        min turns (steps a b + 1 - (k + 1)) + 1 := by omega
    have flip : FlipFits height (stateAt x1 y1 a b sx sy k).y := flips k (Nat.le_refl k) inside
    rw [count, placesFrom_succ, lineLoop_succ size, if_pos flip]
    dsimp only
    by_cases ended : k = steps a b
    · have none : min turns (steps a b + 1 - (k + 1)) = 0 := by omega
      rw [if_pos ((stateAt_end_iff sideX sideY inside).mpr ended), none,
        decide_eq_true (by omega)]
      rfl
    · have turn := (lineTurn_stateAt sideX sideY rangeX rangeY short
        (Nat.lt_of_le_of_ne inside ended)).mpr ⟨fits k (Nat.le_refl k) (by omega), rfl⟩
      have rest := @ih (k + 1)
        (paintPlace width height color buf (placeAt x1 y1 a b sx sy k))
        (by rw [paintPlace_length, size]) (by omega)
        (fun m later => flips m (by omega)) (fun m later => fits m (by omega))
      rw [if_neg (mt (stateAt_end_iff sideX sideY inside).mp ended), turn, Option.bind_some]
      dsimp only at rest
      rw [show ((stateAt x1 y1 a b sx sy k).x, (stateAt x1 y1 a b sx sy k).y) =
        placeAt x1 y1 a b sx sy k from rfl, rest, Option.map_some, List.foldl_cons,
        Nat.add_right_comm, Nat.add_assoc]

/-- A loop that does not panic on its way to the end has only numbers that fit. -/
theorem fits_of_lineLoop {turns : Nat} (size : buf.length = width * height)
    (inside : k ≤ steps a b) (enough : steps a b < k + turns) {trace : LineTrace}
    (h : lineLoop width height color x2 y2 a b sx sy turns (stateAt x1 y1 a b sx sy k) buf =
      some trace) :
    (∀ m, k ≤ m → m ≤ steps a b → FlipFits height (placeAt x1 y1 a b sx sy m).2) ∧
      ∀ m, k ≤ m → m < steps a b → TurnFits 2147483648 a b (walk a b m) := by
  induction turns generalizing k buf trace with
  | zero => omega
  | succ turns ih =>
    rw [lineLoop_succ size] at h
    by_cases flip : FlipFits height (stateAt x1 y1 a b sx sy k).y
    · rw [if_pos flip] at h
      dsimp only at h
      by_cases ended : k = steps a b
      · refine ⟨fun m low high => ?_, fun m low high => by omega⟩
        obtain rfl : m = k := by omega
        exact flip
      · rw [if_neg (mt (stateAt_end_iff sideX sideY inside).mp ended)] at h
        obtain ⟨next, turn, h⟩ := Option.bind_eq_some_iff.mp h
        obtain ⟨rest, h, _⟩ := Option.map_eq_some_iff.mp h
        obtain ⟨now, rfl⟩ := (lineTurn_stateAt sideX sideY rangeX rangeY short
          (Nat.lt_of_le_of_ne inside ended)).mp turn
        obtain ⟨flips, fits⟩ := ih (by rw [paintPlace_length, size]) (by omega) (by omega) h
        constructor
        · intro m low high
          by_cases here : m = k
          · subst here
            exact flip
          · exact flips m (by omega) high
        · intro m low high
          by_cases here : m = k
          · subst here
            exact now
          · exact fits m (by omega) high
    · rw [if_neg flip] at h
      contradiction

end Bounded

end Runs

section Calls

open DigitalLine

variable {width height : Nat} {color : UInt32} {x1 y1 x2 y2 : Int} {buf : List UInt32}

theorem distance_eq (first second : Int) : distance first second =
    if InI32 (second - first) ∧ InI32 (second - first).natAbs then
      some ((second - first).natAbs : Int)
    else none := by
  unfold distance
  by_cases fits : InI32 (second - first)
  · rw [i32_of_inI32 fits, Option.bind_eq_bind, Option.bind_some]
    by_cases short : InI32 (second - first).natAbs
    · rw [i32_of_inI32 short, if_pos ⟨fits, short⟩]
    · rw [i32_of_not_inI32 short, if_neg fun both => short both.2]
  · rw [i32_of_not_inI32 fits, if_neg fun both => fits both.1]
    rfl

/-- The distances of the ends in columns and in rows. -/
structure SidesFit (x1 y1 x2 y2 : Int) : Prop where
  columns : InI32 (x2 - x1) ∧ InI32 (x2 - x1).natAbs
  rows : InI32 (y2 - y1) ∧ InI32 (y2 - y1).natAbs

/-- The loop of a line starts at the first place of the walk. -/
theorem renderLineToBuffer_eq (turns : Nat) (some_ : ¬ (width = 0 ∨ height = 0))
    (sides : SidesFit x1 y1 x2 y2) :
    renderLineToBuffer turns buf width height x1 y1 x2 y2 color =
      lineLoop width height color x2 y2 (x2 - x1).natAbs (y2 - y1).natAbs
        (if x1 < x2 then 1 else -1) (if y1 < y2 then 1 else -1) turns
        (stateAt x1 y1 (x2 - x1).natAbs (y2 - y1).natAbs (if x1 < x2 then 1 else -1)
          (if y1 < y2 then 1 else -1) 0) buf := by
  have difference : InI32 ((x2 - x1).natAbs - (y2 - y1).natAbs) := by
    have first := sides.columns.2
    have second := sides.rows.2
    unfold InI32 InRange at *
    omega
  have start (sx sy : Int) : stateAt x1 y1 (x2 - x1).natAbs (y2 - y1).natAbs sx sy 0 =
      ⟨x1, y1, (x2 - x1).natAbs - (y2 - y1).natAbs⟩ := by
    simp [stateAt, placeAt, DigitalLine.walk, error]
  rw [renderLineToBuffer, if_neg some_, distance_eq, if_pos sides.columns, distance_eq,
    if_pos sides.rows, Option.bind_eq_bind, Option.bind_some, Option.bind_some]
  dsimp only
  rw [i32_of_inI32 difference, Option.bind_some, start]

end Calls

section Places

open DigitalLine

variable {x1 y1 x2 y2 a b sx sy : Int} {k : Nat} (sideX : Side x1 x2 a sx)
  (sideY : Side y1 y2 b sy)

include sideX sideY

theorem steps_eq : steps a b = max (x2 - x1).natAbs (y2 - y1).natAbs := by
  have first := sideX.natAbs
  have second := sideY.natAbs
  unfold steps
  omega

theorem placeAt_advances (inside : k < steps a b) :
    Advances (x2 - x1) (y2 - y1) (placeAt x1 y1 a b sx sy k)
      (placeAt x1 y1 a b sx sy (k + 1)) := by
  have lengthX := sideX.natAbs
  have lengthY := sideY.natAbs
  have later := walk_between (k := k + 1) sideX.nonneg sideY.nonneg (by omega) (by omega)
  have some_ : 0 < max a b := by
    unfold steps at inside
    omega
  unfold Advances placeAt
  rw [DigitalLine.walk] at later ⊢
  rcases walk_cases sideX.nonneg sideY.nonneg k (by omega) with
    ⟨flat, j, here, near⟩ | ⟨steep, i, here, near⟩
  · obtain ⟨next, _⟩ := step_near (by omega) flat sideY.nonneg near
    rw [here, next] at later ⊢
    dsimp only at later ⊢
    rw [if_pos (by omega), sideX.sign (by omega)]
    constructor
    · rw [Int.mul_add, Int.mul_one, Int.add_assoc]
    · by_cases climbs : 2 * error a b k j < a
      · rw [if_pos climbs] at later ⊢
        right
        have rows := near_between (by omega) sideY.nonneg near (by omega)
          (by unfold steps at inside; omega)
        rw [sideY.sign (by omega), Int.mul_add, Int.mul_one, Int.add_assoc]
      · rw [if_neg climbs]
        exact .inl rfl
  · have turned := step_swap b a ((k : Int), i)
    obtain ⟨next, _⟩ := step_near (by omega) (Int.le_of_lt steep) sideX.nonneg near
    rw [Prod.swap_prod_mk, next, Prod.swap_prod_mk] at turned
    rw [here, turned] at later ⊢
    dsimp only at later ⊢
    rw [if_neg (by omega), sideY.sign (by omega)]
    constructor
    · rw [Int.mul_add, Int.mul_one, Int.add_assoc]
    · by_cases aside : 2 * error b a k i < b
      · rw [if_pos aside] at later ⊢
        right
        have columns := near_between (by omega) sideX.nonneg near (by omega)
          (by unfold steps at inside; omega)
        rw [sideX.sign (by omega), Int.mul_add, Int.mul_one, Int.add_assoc]
      · rw [if_neg aside]
        exact .inl rfl

theorem cross_eq (k : Nat) :
    (((placeAt x1 y1 a b sx sy k).2 - y1) * (x2 - x1) -
      ((placeAt x1 y1 a b sx sy k).1 - x1) * (y2 - y1)).natAbs =
        (offset a b (walk a b k).1 (walk a b k).2).natAbs := by
  obtain ⟨_, unitX, rfl⟩ := sideX
  obtain ⟨_, unitY, rfl⟩ := sideY
  have units : (sx * sy).natAbs = 1 := by
    rcases unitX with rfl | rfl
    · rcases unitY with rfl | rfl <;> rfl
    · rcases unitY with rfl | rfl <;> rfl
  rw [show (placeAt x1 y1 a b sx sy k).1 = x1 + sx * (walk a b k).1 from rfl,
    show (placeAt x1 y1 a b sx sy k).2 = y1 + sy * (walk a b k).2 from rfl]
  calc _ = (sx * sy * offset a b (walk a b k).1 (walk a b k).2).natAbs := by
        unfold offset
        congr 1
        ring
    _ = _ := by rw [Int.natAbs_mul, units, Nat.one_mul]

/-- The place is half a pixel off the line at most. -/
theorem placeAt_near (k : Nat) (inside : k ≤ steps a b) :
    2 * (((placeAt x1 y1 a b sx sy k).2 - y1) * (x2 - x1) -
      ((placeAt x1 y1 a b sx sy k).1 - x1) * (y2 - y1)).natAbs ≤ steps a b := by
  rw [cross_eq sideX sideY]
  by_cases none : steps a b = 0
  · obtain rfl : k = 0 := by omega
    rw [show walk a b 0 = (0, 0) from rfl, offset_start]
    exact Nat.zero_le _
  have some_ : 0 < steps a b := by omega
  have cases_ := walk_cases sideX.nonneg sideY.nonneg k some_
  unfold steps
  rcases cases_ with ⟨flat, j, here, near⟩ | ⟨steep, i, here, near⟩
  · rw [here]
    obtain ⟨under, beyond⟩ := near
    dsimp only
    omega
  · obtain ⟨under, beyond⟩ := near
    have turned : offset b a k i = -offset a b i k := by
      unfold offset
      ring
    rw [here]
    dsimp only
    omega

omit sideX sideY in
theorem placesFrom_getElem? (x1 y1 a b sx sy : Int) (turns k : Nat) :
    (placesFrom x1 y1 a b sx sy 0 turns)[k]? =
      if k < turns then some (placeAt x1 y1 a b sx sy k) else none := by
  rw [placesFrom, List.getElem?_map]
  by_cases inside : k < turns
  · rw [List.getElem?_range' inside, Option.map_some, if_pos inside, Nat.zero_add, Nat.one_mul]
  · rw [List.getElem?_eq_none (by rw [List.length_range']; omega), Option.map_none, if_neg inside]

/-- The places of the walk are those of a line. -/
theorem linePlaces_placesFrom :
    LinePlaces x1 y1 x2 y2 (placesFrom x1 y1 a b sx sy 0 (steps a b + 1)) where
  count := by
    rw [placesFrom, List.length_map, List.length_range', steps_eq sideX sideY]
  first := by
    rw [placesFrom_succ, List.head?_cons]
    simp [placeAt, DigitalLine.walk]
  last := by
    have ended := (stateAt_end_iff sideX sideY (Nat.le_refl (steps a b))).mpr rfl
    rw [List.getLast?_eq_getElem?, placesFrom_getElem?, placesFrom, List.length_map,
      List.length_range', if_pos (by omega)]
    exact congrArg some (Prod.ext ended.1 ended.2)
  advances := by
    intro k place next here there
    rw [placesFrom_getElem?, Option.ite_none_right_eq_some, Option.some.injEq] at here there
    obtain ⟨_, rfl⟩ := here
    obtain ⟨inside, rfl⟩ := there
    exact placeAt_advances sideX sideY (by omega)
  near := by
    intro place member
    rw [← steps_eq sideX sideY]
    obtain ⟨k, inside, rfl⟩ := List.mem_map.mp member
    rw [List.mem_range'_1] at inside
    exact placeAt_near sideX sideY k (by omega)

end Places

section Rows

open DigitalLine

variable {x1 y1 x2 y2 a b sx sy : Int} (sideX : Side x1 x2 a sx) (sideY : Side y1 y2 b sy)

include sideX sideY

theorem walk_inside {k : Nat} (inside : k ≤ steps a b) :
    0 ≤ (walk a b k).2 ∧ (walk a b k).2 ≤ b := by
  by_cases none : steps a b = 0
  · obtain rfl : k = 0 := by omega
    exact ⟨Int.le_refl 0, sideY.nonneg⟩
  · exact (walk_between sideX.nonneg sideY.nonneg (by omega) inside).2

/-- The rows of a line are between those of its ends. -/
theorem flips_iff (height : Nat) :
    (∀ k, k ≤ steps a b → FlipFits height (placeAt x1 y1 a b sx sy k).2) ↔
      FlipFits height y1 ∧ FlipFits height y2 := by
  constructor
  · intro flips
    have start := flips 0 (Nat.zero_le _)
    have ended := flips (steps a b) (Nat.le_refl _)
    rw [show (placeAt x1 y1 a b sx sy 0).2 = y1 from by simp [placeAt, DigitalLine.walk]] at start
    rw [show (placeAt x1 y1 a b sx sy (steps a b)).2 = y2 from
      ((stateAt_end_iff sideX sideY (Nat.le_refl _)).mpr rfl).2] at ended
    exact ⟨start, ended⟩
  · rintro ⟨⟨top, start⟩, -, ended⟩ k inside
    have between := sideY.between (walk_inside sideX sideY inside)
    apply And.intro top
    unfold placeAt
    dsimp only
    unfold InI32 InRange at start ended ⊢
    omega

end Rows

section Drawing

variable {width height : Nat} {color : UInt32}

theorem paintPlace_paints (place : Int × Int) : Paints color
    (fun i => OnBuffer width height place.1 (asI32 height - 1 - place.2) ∧
      i = pixelIdx width (asU32 place.1) (asU32 (asI32 height - 1 - place.2)))
    fun buf => paintPlace width height color buf place := by
  unfold paintPlace
  dsimp only
  by_cases on : OnBuffer width height place.1 (asI32 height - 1 - place.2)
  · simp only [true_and, on]
    exact .set _
  · simp only [false_and, on]
    exact .none

theorem asI32_of_lt {value : Nat} (small : value < 2 ^ 31) : asI32 value = value := by
  unfold asI32 u32Size
  rw [Int.bmod_def]
  omega

theorem asU32_of_lt {value : Int} (nonneg : 0 ≤ value) (small : value < 2 ^ 32) :
    (asU32 value : Int) = value := by
  unfold asU32 u32Size
  omega

/-- The pixels of the places that lie on the buffer. -/
theorem places_draw (hwidth : 1 ≤ width) (hheight : 1 ≤ height)
    (small : width * height < 2 ^ 30) (color : UInt32) (places : List (Int × Int))
    {buf : List UInt32} (size : buf.length = width * height) :
    Draws (fun x y => (x, y) ∈ places) width height color buf
      (places.foldl (paintPlace width height color) buf) := by
  obtain ⟨wide, tall⟩ := sides_lt hwidth hheight small
  have signedWidth := asI32_of_lt wide
  have signedHeight := asI32_of_lt tall
  apply draws_of_paints (.foldl places fun place _ => paintPlace_paints place) size
  intro x y hx hy
  unfold OnBuffer
  rw [signedWidth, signedHeight]
  constructor
  · rintro ⟨⟨px, py⟩, member, ⟨⟨left, right⟩, top, bottom⟩, same⟩
    dsimp only at left right top bottom same
    have column := asU32_of_lt left (by omega)
    have row := asU32_of_lt top (by omega)
    obtain ⟨sameX, sameY⟩ := (pixelIdx_inj small (by omega) (by omega) hx).mp same
    obtain rfl : px = x := by omega
    obtain rfl : py = y := by omega
    exact member
  · intro member
    refine ⟨((x : Int), (y : Int)), member, by dsimp only; omega, ?_⟩
    dsimp only
    have column := asU32_of_lt (show (0 : Int) ≤ x by omega) (by omega)
    have row := asU32_of_lt (show (0 : Int) ≤ (height : Int) - 1 - y by omega) (by omega)
    exact (pixelIdx_inj small (by omega) (by omega) hx).mpr ⟨by omega, by omega⟩

end Drawing

section Bounded

open DigitalLine

variable {a b : Int} {k : Nat}

theorem turnFits_of_small (lowA : 0 ≤ a) (lowB : 0 ≤ b) (smallA : a ≤ 2 ^ 29)
    (smallB : b ≤ 2 ^ 29) (inside : k < steps a b) : TurnFits 2147483648 a b (walk a b k) := by
  unfold TurnFits InRange
  dsimp only
  rw [error_eq]
  rcases walk_cases lowA lowB k (by omega) with ⟨flat, j, here, under, beyond⟩ |
    ⟨steep, i, here, under, beyond⟩
  · rw [here]
    dsimp only
    refine ⟨by omega, fun _ => by omega, fun _ => ?_⟩
    split <;> omega
  · have turned := error_swap a b i k
    rw [error_eq, error_eq] at turned
    rw [here]
    dsimp only
    refine ⟨by omega, fun _ => by omega, fun _ => ?_⟩
    split <;> omega

end Bounded

/-- A coordinate of a line that is not too far out. -/
def Moderate (value : Int) : Prop := -2 ^ 28 ≤ value ∧ value ≤ 2 ^ 28

/-- The loop ends after the places of the line, and has drawn those that the buffer has. -/
theorem line_drawn {width height : Nat} (hwidth : 1 ≤ width) (hheight : 1 ≤ height)
    (small : width * height < 2 ^ 30) {x1 y1 x2 y2 : Int}
    (first : Moderate x1 ∧ Moderate y1) (second : Moderate x2 ∧ Moderate y2) (color : UInt32)
    {buf : List UInt32} (size : buf.length = width * height) :
    ∃ places after, LinePlaces x1 y1 x2 y2 places ∧
      Draws (fun x y => (x, y) ∈ places) width height color buf after ∧
      ∀ turns, places.length ≤ turns →
        renderLineToBuffer turns buf width height x1 y1 x2 y2 color =
          some ⟨places, after, true⟩ := by
  obtain ⟨wide, tall⟩ := sides_lt hwidth hheight small
  have signedHeight := asI32_of_lt tall
  have sideX := side_of x1 x2
  have sideY := side_of y1 y2
  have fine := linePlaces_placesFrom sideX sideY
  have drawn := places_draw hwidth hheight small color
    (placesFrom x1 y1 (x2 - x1).natAbs (y2 - y1).natAbs (if x1 < x2 then 1 else -1)
      (if y1 < y2 then 1 else -1) 0
      (DigitalLine.steps (x2 - x1).natAbs (y2 - y1).natAbs + 1)) size
  refine ⟨_, _, fine, drawn, ?_⟩
  intro turns enough
  rw [placesFrom, List.length_map, List.length_range'] at enough
  unfold Moderate at first second
  have rangeX : InI32 x1 ∧ InI32 x2 := by
    unfold InI32 InRange
    omega
  have rangeY : InI32 y1 ∧ InI32 y2 := by
    unfold InI32 InRange
    omega
  have sides : SidesFit x1 y1 x2 y2 := by
    constructor
    · unfold InI32 InRange
      omega
    · unfold InI32 InRange
      omega
  have lower : height < 2 ^ 30 := Nat.lt_of_le_of_lt (Nat.le_mul_of_pos_left height hwidth) small
  have flips := (flips_iff sideX sideY height).mpr (by
    unfold FlipFits InI32 InRange
    omega)
  rw [renderLineToBuffer_eq turns (by omega) sides,
    lineLoop_fits sideX sideY rangeX rangeY sides.rows.2 turns size (Nat.zero_le _)
      (fun k _ inside => flips k inside)
      (fun k _ inside => turnFits_of_small (by omega) (by omega) (by omega) (by omega) inside),
    Nat.min_eq_right (by omega), decide_eq_true (by omega)]
  rfl

/-- Two steps to the left and one down, the end of it outside of the buffer. -/
theorem line_drawn_off_the_edge :
    ∃ places after, LinePlaces 1 0 (-1) 1 places ∧
      Draws (fun x y => (x, y) ∈ places) 2 2 7 [0, 0, 0, 0] after ∧
      ∀ turns, places.length ≤ turns →
        renderLineToBuffer turns [0, 0, 0, 0] 2 2 1 0 (-1) 1 7 = some ⟨places, after, true⟩ :=
  line_drawn (by decide) (by decide) (by decide)
    ⟨⟨by decide, by decide⟩, by decide, by decide⟩ ⟨⟨by decide, by decide⟩, by decide, by decide⟩
    7 rfl

end Warpine.Gui
