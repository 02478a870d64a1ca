import Mathlib.Data.List.Basic
import Mathlib.Order.Lattice

/-! Calls that each deliver an item of a stream, and displays that show the items as
they are delivered. The cells of a display are counted from the first one that it has
ever shown, so that a display that scrolls is one that no longer shows some of them. -/
namespace Warpine.Lib

section Reads

variable {σ α : Type}

/-- What a number of calls deliver, and the state after them. A call without an item to
deliver waits. -/
def reads (read : σ → Option (α × σ)) : Nat → σ → List α × σ
  | 0, s => ([], s)
  | n + 1, s =>
      match read s with
      | none => ([], s)
      | some (item, next) =>
          let rest := reads read n next
          (item :: rest.1, rest.2)

variable {read : σ → Option (α × σ)} {s next : σ} {item : α}

theorem reads_waits (waits : read s = none) (n : Nat) : reads read n s = ([], s) := by
  cases n with
  | zero => rfl
  | succ n => simp only [reads, waits]

theorem reads_succ (delivers : read s = some (item, next)) (n : Nat) :
    reads read (n + 1) s = (item :: (reads read n next).1, (reads read n next).2) := by
  simp only [reads, delivers]

/-- The stream that the calls deliver, item by item. -/
structure Streams (read : σ → Option (α × σ)) (inv : σ → Prop) (stream : σ → List α) : Prop where
  waits : ∀ s, inv s → read s = none → stream s = []
  delivers : ∀ s item next, inv s → read s = some (item, next) →
    stream s = item :: stream next ∧ inv next

variable {inv : σ → Prop} {stream : σ → List α}

theorem Streams.reads_eq (streams : Streams read inv stream) (n : Nat) (h : inv s) :
    (reads read n s).1 = (stream s).take n := by
  induction n generalizing s with
  | zero => rfl
  | succ n ih =>
    cases call : read s with
    | none =>
      rw [reads_waits call, streams.waits s h call]
      rfl
    | some result =>
      obtain ⟨item, next⟩ := result
      obtain ⟨split, kept⟩ := streams.delivers s item next h call
      rw [reads_succ call, split, List.take_succ_cons, ih kept]

/-- Calls that agree, however many they are, deliver the same stream. -/
theorem Streams.agree {τ : Type} {other : τ → Option (α × τ)} {otherInv : τ → Prop}
    {otherStream : τ → List α} {t : τ} (streams : Streams read inv stream)
    (others : Streams other otherInv otherStream) (h : inv s) (k : otherInv t) :
    (∀ n, (reads read n s).1 = (reads other n t).1) ↔ stream s = otherStream t := by
  constructor
  · intro same
    have all := same ((stream s).length ⊔ (otherStream t).length)
    rw [streams.reads_eq _ h, others.reads_eq _ k, List.take_of_length_le le_sup_left,
      List.take_of_length_le le_sup_right] at all
    exact all
  · intro same n
    rw [streams.reads_eq n h, others.reads_eq n k, same]

end Reads

/-- A state as a display: where its cursor is, and what its cells show. -/
structure Display (σ κ : Type) where
  place : σ → Int
  cell : σ → Int → Option κ

namespace Display

variable {σ κ : Type} (view : Display σ κ)

/-- The cells in front of where the cursor was are as they were, if they are still shown. -/
def KeepsLeft (opened now : σ) : Prop :=
  ∀ j < view.place opened, view.cell now j = view.cell opened j ∨ view.cell now j = none

/-- A character at the cursor, and the cursor moves on. -/
structure Prints (before after : σ) : Prop where
  place : view.place before + 1 ≤ view.place after
  cell : ∀ j < view.place before, view.cell after j = view.cell before j ∨ view.cell after j = none

/-- The cursor moves back by a cell, or not at all. -/
structure StepsBack (before after : σ) : Prop where
  place : view.place before - 1 ≤ view.place after
  cell : ∀ j, view.cell after j = view.cell before j

/-- The cursor is some cells ahead of where it was, and what is left of that is kept. -/
structure Ahead (opened : σ) (distance : Nat) (now : σ) : Prop where
  place : view.place opened + distance ≤ view.place now
  kept : view.KeepsLeft opened now

variable {view} {opened now next : σ} {distance : Nat}

theorem Ahead.begin : view.Ahead opened 0 opened where
  place := by omega
  kept := fun _ _ => .inl rfl

theorem Ahead.prints (ahead : view.Ahead opened distance now) (prints : view.Prints now next) :
    view.Ahead opened (distance + 1) next where
  place := by
    have moved := prints.place
    have before := ahead.place
    omega
  kept := by
    intro j left_
    have before := ahead.place
    rcases prints.cell j (by omega) with same | gone
    · rw [same]
      exact ahead.kept j left_
    · exact .inr gone

theorem Ahead.back (ahead : view.Ahead opened (distance + 1) now)
    (back : view.StepsBack now next) : view.Ahead opened distance next where
  place := by
    have moved := back.place
    have before := ahead.place
    omega
  kept := by
    intro j left_
    rw [back.cell j]
    exact ahead.kept j left_

/-- A cell back, a character there, and a cell back again. -/
theorem Ahead.erase {first second : σ} (ahead : view.Ahead opened (distance + 1) now)
    (back : view.StepsBack now first) (prints : view.Prints first second)
    (again : view.StepsBack second next) : view.Ahead opened distance next :=
  ((ahead.back back).prints prints).back again

section Lines

variable {α : Type} (view) (read : σ → Option (α × σ)) (opens closes : α)

/-- A line begins with the first call and after each opening item, and lasts up to the next
closing one. As long as it lasts, the cells in front of it are kept. -/
def KeepsLines (s : σ) : Prop :=
  ∀ m n, (m = 0 ∨ (reads read m s).1.getLast? = some opens) →
    closes ∉ (reads read n (reads read m s).2).1 →
      view.KeepsLeft (reads read m s).2 (reads read n (reads read m s).2).2

variable {view read opens closes} {inv : σ → Prop} {line : Nat → σ → Prop} {s : σ}

/-- A line with so many characters in it: what a call delivers closes the line, or keeps
the cursor ahead by the characters. -/
theorem ahead_of_line
    (type : ∀ d s item next, line d s → read s = some (item, next) → item ≠ closes →
      ∃ d', line d' next ∧ ∀ opened, view.Ahead opened d s → view.Ahead opened d' next)
    {d : Nat} (n : Nat) (h : line d s) (ahead : view.Ahead opened d s)
    (lasts : closes ∉ (reads read n s).1) :
    ∃ d', view.Ahead opened d' (reads read n s).2 := by
  induction n generalizing s d with
  | zero => exact ⟨d, ahead⟩
  | succ n ih =>
    cases call : read s with
    | none =>
      rw [reads_waits call]
      exact ⟨d, ahead⟩
    | some result =>
      obtain ⟨item, next⟩ := result
      rw [reads_succ call] at lasts ⊢
      obtain ⟨other, more⟩ := List.ne_and_not_mem_of_not_mem_cons lasts
      obtain ⟨d', kept, step⟩ := type d s item next h call (Ne.symm other)
      exact ih kept (step _ ahead) more

/-- After an opening item a new line begins. -/
theorem line_of_opens
    (step : ∀ s item next, inv s → read s = some (item, next) →
      inv next ∧ (item = opens → line 0 next))
    (n : Nat) (h : inv s) (last : (reads read n s).1.getLast? = some opens) :
    line 0 (reads read n s).2 := by
  induction n generalizing s with
  | zero => contradiction
  | succ n ih =>
    cases call : read s with
    | none =>
      rw [reads_waits call] at last
      contradiction
    | some result =>
      obtain ⟨item, next⟩ := result
      obtain ⟨kept, opened⟩ := step s item next h call
      rw [reads_succ call] at last ⊢
      cases more : read next with
      | none =>
        rw [reads_waits more] at last ⊢
        exact opened (Option.some.inj last)
      | some result =>
        cases n with
        | zero => exact opened (Option.some.inj last)
        | succ n =>
          obtain ⟨second, third⟩ := result
          apply ih kept
          rw [reads_succ more] at last ⊢
          exact (List.getLast?_cons_cons).symm.trans last

theorem keepsLines_of_line
    (step : ∀ s item next, inv s → read s = some (item, next) →
      inv next ∧ (item = opens → line 0 next))
    (type : ∀ d s item next, line d s → read s = some (item, next) → item ≠ closes →
      ∃ d', line d' next ∧ ∀ opened, view.Ahead opened d s → view.Ahead opened d' next)
    (h : inv s) (first : line 0 s) : view.KeepsLines read opens closes s := by
  intro m n begins lasts
  have line : line 0 (reads read m s).2 := by
    rcases begins with rfl | last
    · exact first
    · exact line_of_opens step m h last
  obtain ⟨d, ahead⟩ := ahead_of_line type n line Ahead.begin lasts
  exact ahead.kept

end Lines

end Display

end Warpine.Lib
