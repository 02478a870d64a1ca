import Mathlib.Data.DFinsupp.WellFounded
import Mathlib.Order.Preorder.Finite

/-! Links that are followed from one place to the next. Such a walk ends exactly when it
comes to no place twice, where there are only finitely many places. -/
namespace Warpine.Lib

variable {α : Type}

/-- The place after some links, or `none` past the end. -/
def walk (next : α → Option α) : Nat → α → Option α
  | 0, start => some start
  | n + 1, start => (walk next n start).bind next

variable {next : α → Option α} {start place : α} {n m : Nat}

theorem walk_succ (h : walk next n start = some place) : walk next (n + 1) start = next place := by
  rw [walk, h, Option.bind_some]

theorem walk_add : walk next (n + m) start = (walk next n start).bind (walk next m) := by
  induction m with
  | zero => exact (Option.bind_fun_some _).symm
  | succ m ih =>
    rw [← Nat.add_assoc, walk, ih, Option.bind_assoc]
    rfl

theorem walk_front : walk next (n + 1) start = (next start).bind (walk next n) := by
  rw [Nat.add_comm, walk_add]
  rfl

/-- Past the end there is nothing. -/
theorem walk_none (h : walk next n start = none) (later : n ≤ m) : walk next m start = none := by
  obtain ⟨more, rfl⟩ := Nat.exists_eq_add_of_le later
  rw [walk_add, h, Option.bind_none]

/-- A walk that has come back to its start comes back again and again. -/
theorem walk_round (back : walk next m start = some start) :
    walk next (n * m) start = some start := by
  induction n with
  | zero => rw [Nat.zero_mul, walk]
  | succ n ih => rw [Nat.succ_mul, walk_add, ih, Option.bind_some, back]

/-- A place that is reached twice is reached for ever. -/
theorem walk_isSome_of_twice (first : walk next n start = some place)
    (second : walk next m start = some place) (earlier : n < m) (k : Nat) :
    walk next k start ≠ none := by
  intro ends
  have back : walk next (m - n) place = some place := by
    rw [← Nat.add_sub_of_le (Nat.le_of_lt earlier), walk_add, first, Option.bind_some] at second
    exact second
  have rounds : walk next (n + k * (m - n)) start = some place := by
    rw [walk_add, first, Option.bind_some, walk_round back]
  have far : k ≤ n + k * (m - n) := by
    have : k * 1 ≤ k * (m - n) := Nat.mul_le_mul_left k (by omega)
    omega
  rw [walk_none ends far] at rounds
  contradiction

/-- A walk among finitely many places ends exactly when it reaches none of them twice. -/
theorem walk_ends_iff {places : Set α} (finite : places.Finite)
    (stays : ∀ n place, walk next n start = some place → place ∈ places) :
    (∃ n, walk next n start = none) ↔
      ∀ n m place, walk next n start = some place → walk next m start = some place → n = m := by
  constructor
  · rintro ⟨stop, ends⟩ n m place first second
    rcases Nat.lt_trichotomy n m with earlier | same | later
    · exact absurd ends (walk_isSome_of_twice first second earlier stop)
    · exact same
    · exact absurd ends (walk_isSome_of_twice second first later stop)
  · intro once
    by_contra endless
    have goesOn : ∀ n, ∃ place, walk next n start = some place := by
      intro n
      exact Option.ne_none_iff_exists'.mp fun ends => endless ⟨n, ends⟩
    choose at' reaches using goesOn
    obtain ⟨n, m, earlier, same⟩ := Set.Finite.exists_lt_map_eq_of_forall_mem
      (fun n => stays n (at' n) (reaches n)) finite
    exact absurd (once n m (at' n) (reaches n) (same ▸ reaches m)) (Nat.ne_of_lt earlier)

/-- Each step of a walk clears a mark and sets none in front of it. Then the walk ends. -/
theorem walk_ends_of_marks {count : Nat} {good : α → Prop} (marks : α → Fin count → Bool)
    (stays : ∀ here there, good here → next here = some there → good there)
    (clears : ∀ here there, good here → next here = some there → ∃ i, marks here i = true ∧
      marks there i = false ∧ ∀ j < i, marks there j = true → marks here j = true)
    (begins : good start) : ∃ n, walk next n start = none := by
  have founded : WellFounded (Pi.Lex (· < ·) (@fun (_ : Fin count) (a b : Bool) => a < b)) :=
    Pi.Lex.wellFounded _ fun _ => wellFounded_lt
  generalize hmarks : marks start = pattern
  induction pattern using founded.induction generalizing start with
  | _ pattern ih =>
    subst hmarks
    cases step : next start with
    | none => exact ⟨1, step⟩
    | some there =>
      obtain ⟨i, set, cleared, kept⟩ := clears start there begins step
      have differ : marks there i ≠ marks start i := by
        rw [set, cleared]
        exact Bool.false_ne_true
      obtain ⟨least, changed, first⟩ :=
        wellFounded_lt.has_min {j | marks there j ≠ marks start j} ⟨i, differ⟩
      have lower : ∀ j < least, marks there j = marks start j := by
        intro j before
        by_contra other
        exact first j other before
      have notBehind : least ≤ i := not_lt.mp (first i differ)
      have smaller : marks there least < marks start least := by
        rcases lt_or_eq_of_le notBehind with before | rfl
        · have unset := kept least before
          change marks there least ≠ marks start least at changed
          revert changed unset
          cases marks there least <;> cases marks start least <;> decide
        · rw [set, cleared]
          decide
      obtain ⟨n, ends⟩ := ih (marks there) ⟨least, lower, smaller⟩
        (stays start there begins step) rfl
      refine ⟨n + 1, ?_⟩
      rw [walk_front, step, Option.bind_some, ends]

end Warpine.Lib
