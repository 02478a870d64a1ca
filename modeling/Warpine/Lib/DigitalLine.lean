import Mathlib.Data.Int.GCD
import Mathlib.Tactic.Linarith
import Mathlib.Tactic.LinearCombination
import Mathlib.Tactic.Ring
import Warpine.Lib.Signed

/-! Lines on a grid, from the origin to a point. The walk of one takes a step along the longer
side each time and one along the shorter side now and then, by the sign of an error. -/
namespace Warpine.Lib.DigitalLine

/-- The error after `i` steps along the side `a` and `j` along the side `b`. -/
def error (a b i j : Int) : Int := a * (j + 1) - b * (i + 1)

def step (a b : Int) (place : Int × Int) : Int × Int :=
  (if -b < 2 * error a b place.1 place.2 then place.1 + 1 else place.1,
    if 2 * error a b place.1 place.2 < a then place.2 + 1 else place.2)

def walk (a b : Int) : Nat → Int × Int
  | 0 => (0, 0)
  | k + 1 => step a b (walk a b k)

/-- How far a place is off the line, times the longer side. -/
def offset (a b i j : Int) : Int := a * j - b * i

/-- At most half a step off the line, and less than that above it. -/
def Near (a b i j : Int) : Prop := -a ≤ 2 * offset a b i j ∧ 2 * offset a b i j < a

variable {a b i j : Int} {k : Nat}

theorem error_eq (a b i j : Int) : error a b i j = offset a b i j + (a - b) := by
  unfold error offset
  ring

theorem offset_start (a b : Int) : offset a b 0 0 = 0 := by
  simp [offset]

theorem offset_right (a b i j : Int) : offset a b (i + 1) j = offset a b i j - b := by
  unfold offset
  ring

theorem offset_up (a b i j : Int) : offset a b i (j + 1) = offset a b i j + a := by
  unfold offset
  ring

theorem error_swap (a b i j : Int) : error b a j i = -error a b i j := by
  unfold error
  ring

/-- The two sides are alike. -/
theorem step_swap (a b : Int) (place : Int × Int) :
    step b a place.swap = (step a b place).swap := by
  have negated := error_swap a b place.1 place.2
  unfold step
  dsimp only [Prod.fst_swap, Prod.snd_swap, Prod.swap_prod_mk]
  apply Prod.ext
  · exact if_congr (by omega) rfl rfl
  · exact if_congr (by omega) rfl rfl

theorem walk_swap (a b : Int) (k : Nat) : walk b a k = (walk a b k).swap := by
  induction k with
  | zero => rfl
  | succ k ih => rw [walk, walk, ih, step_swap]

/-- On a diagonal an offset is a multiple of the side, and not half of it. -/
theorem no_half_diagonal (pos : 0 < a) : 2 * offset a a i j ≠ -a := by
  intro half
  have product : a * (2 * (j - i) + 1) = 0 := by
    unfold offset at half
    linear_combination half
  rcases Int.mul_eq_zero.mp product with zero | odd
  · omega
  · omega

theorem near_forward (pos : 0 < a) (flat : b ≤ a) (near : Near a b i j) :
    -b < 2 * error a b i j := by
  obtain ⟨under, _⟩ := near
  rw [error_eq]
  by_cases diagonal : b = a
  · subst diagonal
    have := @no_half_diagonal b i j pos
    omega
  · omega

/-- A step from a place near the line leads to the place near it in the next column. -/
theorem step_near (pos : 0 < a) (flat : b ≤ a) (low : 0 ≤ b) (near : Near a b i j) :
    step a b (i, j) = (i + 1, if 2 * error a b i j < a then j + 1 else j) ∧
      Near a b (i + 1) (if 2 * error a b i j < a then j + 1 else j) := by
  have forward := near_forward pos flat near
  have error' := error_eq a b i j
  obtain ⟨under, beyond⟩ := near
  constructor
  · unfold step
    rw [if_pos forward]
  · unfold Near
    by_cases up : 2 * error a b i j < a
    · rw [if_pos up, offset_up, offset_right]
      omega
    · rw [if_neg up, offset_right]
      omega

theorem near_start (pos : 0 < a) : Near a b 0 0 := by
  unfold Near
  rw [offset_start]
  omega

/-- A flat line is walked column by column. -/
theorem walk_near (pos : 0 < a) (flat : b ≤ a) (low : 0 ≤ b) (k : Nat) :
    ∃ j, walk a b k = ((k : Int), j) ∧ Near a b k j := by
  induction k with
  | zero => exact ⟨0, rfl, near_start pos⟩
  | succ k ih =>
    obtain ⟨j, here, near⟩ := ih
    obtain ⟨next, near'⟩ := step_near pos flat low near
    refine ⟨_, ?_, by rw [Nat.cast_add_one]; exact near'⟩
    rw [walk, here, next, Nat.cast_add_one]

/-- Only one place of a column is near the line. -/
theorem near_unique (h : Near a b i j) {j' : Int} (h' : Near a b i j') : j = j' := by
  unfold Near offset at h h'
  have first : a * (j - j') < a := by linarith [mul_sub a j j']
  have second : a * (j' - j) < a := by linarith [mul_sub a j' j]
  have pos : 0 < a := by omega
  have low : j - j' < 1 := by nlinarith
  have high : j' - j < 1 := by nlinarith
  omega

/-- The line ends at its end. -/
theorem walk_end (pos : 0 < a) (flat : b ≤ a) (low : 0 ≤ b) : walk a b a.toNat = (a, b) := by
  obtain ⟨j, here, near⟩ := walk_near pos flat low a.toNat
  have cast : (a.toNat : Int) = a := Int.toNat_of_nonneg (Int.le_of_lt pos)
  rw [cast] at here near
  have last : Near a b a b := by
    unfold Near offset
    rw [Int.mul_comm b a]
    omega
  rw [here, near_unique near last]

theorem near_between (pos : 0 < a) (low : 0 ≤ b) (near : Near a b i j) (first : 0 ≤ i)
    (last : i ≤ a) : 0 ≤ j ∧ j ≤ b := by
  obtain ⟨under, beyond⟩ := near
  unfold offset at under beyond
  have rise : 0 ≤ b * i := Int.mul_nonneg low first
  have top : b * i ≤ b * a := Int.mul_le_mul_of_nonneg_left last low
  constructor
  · by_contra below
    have : a * j ≤ a * (-1) := Int.mul_le_mul_of_nonneg_left (by omega) (Int.le_of_lt pos)
    omega
  · by_contra above
    have : a * (b + 1) ≤ a * j := Int.mul_le_mul_of_nonneg_left (by omega) (Int.le_of_lt pos)
    rw [Int.mul_add, Int.mul_comm a b] at this
    omega

/-- How many steps there are. -/
def steps (a b : Int) : Nat := (max a b).toNat

section Walk

variable (lowA : 0 ≤ a) (lowB : 0 ≤ b)

include lowA lowB

/-- The walk along either side: near the line, a step a turn. -/
theorem walk_cases (k : Nat) (some_ : 0 < steps a b) :
    (b ≤ a ∧ ∃ j, walk a b k = ((k : Int), j) ∧ Near a b k j) ∨
      (a < b ∧ ∃ i, walk a b k = (i, (k : Int)) ∧ Near b a k i) := by
  unfold steps at some_
  by_cases flat : b ≤ a
  · exact .inl ⟨flat, walk_near (by omega) flat lowB k⟩
  · obtain ⟨i, here, near⟩ := @walk_near b a (by omega) (by omega) lowA k
    exact .inr ⟨by omega, i, by rw [walk_swap, here, Prod.swap_prod_mk], near⟩

theorem walk_between (some_ : 0 < steps a b) (inside : k ≤ steps a b) :
    (0 ≤ (walk a b k).1 ∧ (walk a b k).1 ≤ a) ∧ 0 ≤ (walk a b k).2 ∧ (walk a b k).2 ≤ b := by
  unfold steps at some_ inside
  rcases walk_cases lowA lowB k some_ with ⟨flat, j, here, near⟩ | ⟨steep, i, here, near⟩
  · have between := near_between (by omega) lowB near (by omega) (by omega)
    rw [here]
    exact ⟨⟨by omega, by omega⟩, between⟩
  · have between := near_between (by omega) lowA near (by omega) (by omega)
    rw [here]
    exact ⟨between, by omega, by omega⟩

/-- The walk is at the end after all its steps and not before. -/
theorem walk_eq_end_iff (inside : k ≤ steps a b) : walk a b k = (a, b) ↔ k = steps a b := by
  unfold steps at inside ⊢
  by_cases none : max a b = 0
  · obtain ⟨rfl, rfl⟩ : a = 0 ∧ b = 0 := by omega
    obtain rfl : k = 0 := by omega
    exact iff_of_true rfl rfl
  constructor
  · intro ended
    rcases walk_cases lowA lowB k (show 0 < (max a b).toNat by omega) with
      ⟨flat, j, here, _⟩ | ⟨steep, i, here, _⟩
    · have last : (k : Int) = a := congrArg Prod.fst (here.symm.trans ended)
      omega
    · have last : (k : Int) = b := congrArg Prod.snd (here.symm.trans ended)
      omega
  · rintro rfl
    by_cases flat : b ≤ a
    · rw [Int.max_eq_left flat]
      exact walk_end (by omega) flat lowB
    · rw [Int.max_eq_right (by omega), walk_swap, walk_end (by omega) (by omega) lowA]
      rfl

end Walk

section Offsets

theorem gcd_dvd_offset (a b i j : Int) : (Int.gcd a b : Int) ∣ offset a b i j :=
  Int.dvd_sub (Int.dvd_mul_of_dvd_left (Int.gcd_dvd_left ..))
    (Int.dvd_mul_of_dvd_left (Int.gcd_dvd_right ..))

/-- Every multiple of the common divisor that is small enough is the offset in some column. -/
theorem offset_of_dvd (pos : 0 < a) (flat : b ≤ a) (low : 0 ≤ b) {e : Int}
    (multiple : (Int.gcd a b : Int) ∣ e) (under : -a ≤ 2 * e) (beyond : 2 * e < a) :
    ∃ k : Nat, (k : Int) < a ∧ ∃ j, walk a b k = ((k : Int), j) ∧ Near a b k j ∧
      offset a b k j = e := by
  obtain ⟨t, rfl⟩ := multiple
  let turns := -(Int.gcdB a b * t)
  have column : -(Int.gcdB a b * t) = turns % a + a * (turns / a) :=
    (Int.emod_add_mul_ediv turns a).symm
  have first := Int.emod_nonneg turns (Int.ne_of_gt pos)
  have last := Int.emod_lt_of_pos turns pos
  have place : offset a b (turns % a) (Int.gcdA a b * t - b * (turns / a)) = Int.gcd a b * t := by
    rw [Int.gcd_eq_gcd_ab]
    unfold offset
    linear_combination b * column
  have cast : ((turns % a).toNat : Int) = turns % a := Int.toNat_of_nonneg first
  obtain ⟨j, here, near⟩ := walk_near pos flat low (turns % a).toNat
  refine ⟨(turns % a).toNat, by omega, j, here, near, ?_⟩
  have other : Near a b (turns % a) (Int.gcdA a b * t - b * (turns / a)) := by
    unfold Near
    rw [place]
    exact ⟨under, beyond⟩
  rw [cast] at near ⊢
  rw [near_unique near other, place]

end Offsets

section Bounds

/-- The largest multiple of `g` that is less than half of `n`. -/
def underHalf (g n : Int) : Int := g * ((n / g - 1) / 2)

/-- The largest multiple of `g` that is at most half of `n`. -/
def upToHalf (g n : Int) : Int := g * (n / g / 2)

variable {g n e : Int}

theorem dvd_underHalf (g n : Int) : g ∣ underHalf g n := Int.dvd_mul_right ..

theorem dvd_upToHalf (g n : Int) : g ∣ upToHalf g n := Int.dvd_mul_right ..

theorem le_underHalf (pos : 0 < g) (whole : g ∣ n) (multiple : g ∣ e) (less : 2 * e < n) :
    e ≤ underHalf g n := by
  obtain ⟨m, rfl⟩ := whole
  obtain ⟨t, rfl⟩ := multiple
  have count : 2 * t < m := by
    apply Int.lt_of_mul_lt_mul_left _ (Int.le_of_lt pos)
    exact Int.mul_left_comm g 2 t ▸ less
  rw [underHalf, Int.mul_ediv_cancel_left _ (Int.ne_of_gt pos)]
  exact Int.mul_le_mul_of_nonneg_left (by omega) (Int.le_of_lt pos)

theorem underHalf_spec (pos : 0 < g) (whole : g ∣ n) (some_ : 0 < n) :
    0 ≤ underHalf g n ∧ 2 * underHalf g n < n := by
  obtain ⟨m, rfl⟩ := whole
  have count : 0 < m := (mul_pos_iff_of_pos_left pos).mp some_
  rw [underHalf, Int.mul_ediv_cancel_left _ (Int.ne_of_gt pos)]
  constructor
  · exact Int.mul_nonneg (Int.le_of_lt pos) (by omega)
  · rw [Int.mul_left_comm]
    exact Int.mul_lt_mul_of_pos_left (by omega) pos

theorem le_upToHalf (pos : 0 < g) (whole : g ∣ n) (multiple : g ∣ e) (most : 2 * e ≤ n) :
    e ≤ upToHalf g n := by
  obtain ⟨m, rfl⟩ := whole
  obtain ⟨t, rfl⟩ := multiple
  have count : 2 * t ≤ m := by
    apply Int.le_of_mul_le_mul_left _ pos
    exact Int.mul_left_comm g 2 t ▸ most
  rw [upToHalf, Int.mul_ediv_cancel_left _ (Int.ne_of_gt pos)]
  exact Int.mul_le_mul_of_nonneg_left (by omega) (Int.le_of_lt pos)

theorem upToHalf_spec (pos : 0 < g) (whole : g ∣ n) (some_ : 0 < n) :
    0 ≤ upToHalf g n ∧ 2 * upToHalf g n ≤ n ∧ n ≤ 2 * upToHalf g n + g := by
  obtain ⟨m, rfl⟩ := whole
  have count : 0 < m := (mul_pos_iff_of_pos_left pos).mp some_
  rw [upToHalf, Int.mul_ediv_cancel_left _ (Int.ne_of_gt pos)]
  refine ⟨Int.mul_nonneg (Int.le_of_lt pos) (by omega), ?_, ?_⟩
  · rw [Int.mul_left_comm]
    exact Int.mul_le_mul_of_nonneg_left (by omega) (Int.le_of_lt pos)
  · have more : g * m ≤ g * (2 * (m / 2) + 1) :=
      Int.mul_le_mul_of_nonneg_left (by omega) (Int.le_of_lt pos)
    rw [Int.mul_add, Int.mul_one, Int.mul_left_comm] at more
    exact more

/-- What a multiple that is more than half lies above. -/
theorem upToHalf_add_le (pos : 0 < g) (whole : g ∣ n) (multiple : g ∣ e) (more : n < 2 * e) :
    upToHalf g n + g ≤ e := by
  obtain ⟨m, rfl⟩ := whole
  obtain ⟨t, rfl⟩ := multiple
  have count : m < 2 * t := by
    apply Int.lt_of_mul_lt_mul_left _ (Int.le_of_lt pos)
    exact Int.mul_left_comm g 2 t ▸ more
  rw [upToHalf, Int.mul_ediv_cancel_left _ (Int.ne_of_gt pos)]
  have above : g * (m / 2 + 1) ≤ g * t :=
    Int.mul_le_mul_of_nonneg_left (by omega) (Int.le_of_lt pos)
  rwa [Int.mul_add, Int.mul_one] at above

end Bounds

section Fits

/-- What a turn computes with the error: it doubles it, and takes the sides from it in turn. -/
def TurnFits (bound a b : Int) (place : Int × Int) : Prop :=
  let err := error a b place.1 place.2
  InRange bound (2 * err) ∧ (-b < 2 * err → InRange bound (err - b)) ∧
    (2 * err < a → InRange bound ((if -b < 2 * err then err - b else err) + a))

variable {bound : Int}

/-- A flat line: its doubled error is largest above the line, and its error after a step is
smallest below it. -/
theorem turnsFit_flat (pos : 0 < a) (flat : b ≤ a) (low : 0 ≤ b) (small : a < bound) :
    (∀ k : Nat, (k : Int) < a → TurnFits bound a b (walk a b k)) ↔
      2 * (underHalf (Int.gcd a b) a + (a - b)) < bound ∧
        2 * b + upToHalf (Int.gcd a b) a ≤ a + bound := by
  have divisor : (0 : Int) < Int.gcd a b := by
    rw [Int.natCast_pos, Int.gcd_pos_iff]
    omega
  have whole : (Int.gcd a b : Int) ∣ a := Int.gcd_dvd_left ..
  obtain ⟨some_, under⟩ := underHalf_spec divisor whole pos
  obtain ⟨some', most, _⟩ := upToHalf_spec divisor whole pos
  constructor
  · intro fits
    obtain ⟨k, column, j, here, near, top⟩ := offset_of_dvd pos flat low
      (dvd_underHalf _ a) (by omega) under
    obtain ⟨k', column', j', here', near', bottom⟩ := offset_of_dvd pos flat low
      (Int.dvd_neg.mpr (dvd_upToHalf _ a)) (by omega) (by omega)
    have double := (fits k column).1.2
    have less := ((fits k' column').2.1 (here' ▸ near_forward pos flat near')).1
    rw [here, error_eq, top] at double
    rw [here', error_eq, bottom] at less
    exact ⟨double, by omega⟩
  · intro ⟨double, less⟩ k column
    obtain ⟨j, here, near⟩ := walk_near pos flat low k
    have forward := near_forward pos flat near
    have multiple := gcd_dvd_offset a b k j
    have top := le_underHalf divisor whole multiple near.2
    have bottom := le_upToHalf divisor whole (Int.dvd_neg.mpr multiple)
      (show 2 * -offset a b k j ≤ a by have := near.1; omega)
    rw [here]
    unfold TurnFits
    dsimp only
    rw [if_pos forward]
    rw [error_eq] at forward ⊢
    obtain ⟨least, most⟩ := near
    unfold InRange
    refine ⟨by omega, fun _ => by omega, fun _ => by omega⟩

/-- A steep line takes the one side from the error before it adds the other, so the smallest
error of a turn is that before a step aside. -/
theorem turnsFit_steep (steep : a < b) (low : 0 ≤ a) (small : b < bound) :
    (∀ k : Nat, (k : Int) < b → TurnFits bound a b (walk a b k)) ↔
      2 * (underHalf (Int.gcd a b) b + (b - a)) ≤ bound ∧
        (a = 0 ∨ 2 * b ≤ bound + (upToHalf (Int.gcd a b) b + Int.gcd a b)) := by
  have pos : 0 < b := Int.lt_of_le_of_lt low steep
  have divisor : (0 : Int) < Int.gcd a b := by
    rw [Int.natCast_pos, Int.gcd_pos_iff]
    omega
  have swapped : Int.gcd b a = Int.gcd a b := Int.gcd_comm ..
  have whole : (Int.gcd a b : Int) ∣ b := Int.gcd_dvd_right ..
  have whole' : (Int.gcd a b : Int) ∣ a := Int.gcd_dvd_left ..
  obtain ⟨some_, under⟩ := underHalf_spec divisor whole pos
  obtain ⟨some', most, more⟩ := upToHalf_spec divisor whole pos
  have column {e : Int} (multiple : (Int.gcd a b : Int) ∣ e) (under : -b ≤ 2 * e)
      (beyond : 2 * e < b) : ∃ k : Nat, (k : Int) < b ∧ ∃ i, walk a b k = (i, (k : Int)) ∧
        error a b i k = -(e + (b - a)) := by
    rw [← swapped] at multiple
    obtain ⟨k, inside, i, here, _, place⟩ :=
      offset_of_dvd pos (Int.le_of_lt steep) low multiple under beyond
    refine ⟨k, inside, i, ?_, ?_⟩
    · rw [walk_swap, here, Prod.swap_prod_mk]
    · rw [error_swap, error_eq, place]
  constructor
  · intro fits
    constructor
    · obtain ⟨k, inside, i, here, value⟩ := column (dvd_underHalf _ b) (by omega) under
      have double := (fits k inside).1.1
      rw [here] at double
      dsimp only at double
      rw [value] at double
      omega
    · by_cases upright : a = 0
      · exact .inl upright
      right
      have least : (Int.gcd a b : Int) ≤ a := Int.le_of_dvd (by omega) whole'
      obtain ⟨k, inside, i, here, value⟩ := @column
        (a - (upToHalf (Int.gcd a b) b + Int.gcd a b))
        (Int.dvd_sub whole' (Int.dvd_add (dvd_upToHalf ..) (Int.dvd_refl _))) (by omega) (by omega)
      have less := (fits k inside).2.1
      rw [here] at less
      dsimp only at less
      rw [value] at less
      have bottom := (less (by omega)).1
      omega
  · intro ⟨double, less⟩ k inside
    obtain ⟨i, here, near⟩ := walk_near pos (Int.le_of_lt steep) low k
    have forward := near_forward pos (Int.le_of_lt steep) near
    have multiple := gcd_dvd_offset b a k i
    rw [swapped] at multiple
    have top := le_underHalf divisor whole multiple near.2
    have value : error a b i k = -(offset b a k i + (b - a)) := by
      rw [error_swap, error_eq]
    have aside : -b < 2 * error a b i k →
        a ≠ 0 ∧ upToHalf (Int.gcd a b) b + Int.gcd a b ≤ a - offset b a k i := by
      intro aside
      constructor
      · rintro rfl
        have := near.1
        omega
      · exact upToHalf_add_le divisor whole (Int.dvd_sub whole' multiple) (by omega)
    rw [walk_swap, here]
    unfold TurnFits
    dsimp only [Prod.swap_prod_mk]
    obtain ⟨least, most⟩ := near
    unfold InRange
    refine ⟨by omega, fun now => ?_, fun _ => ?_⟩
    · obtain ⟨leaning, enough⟩ := aside now
      have := less.resolve_left leaning
      omega
    · split
      · omega
      · omega

end Fits

end Warpine.Lib.DigitalLine
