import Mathlib.Data.List.Infix

/-! Computations that return, fail with an error, or panic. An error is a result that the
caller sees, a panic ends the program. Last, what two runs of one computation have in common. -/
namespace Warpine.Lib

/-- A result that comes out of two steps. -/
theorem except_bind_eq_ok {ε α β : Type} {first : Except ε α} {next : α → Except ε β}
    {result : β} :
    (first >>= next) = .ok result ↔ ∃ value, first = .ok value ∧ next value = .ok result := by
  cases first with
  | error e =>
    apply iff_of_false nofun
    rintro ⟨_, returned, _⟩
    cases returned
  | ok value =>
    constructor
    · exact fun h => ⟨value, rfl, h⟩
    · rintro ⟨_, ⟨⟩, h⟩
      exact h

/-- A panic is `none`. -/
abbrev Attempt (ε α : Type) := ExceptT ε Option α

namespace Attempt

variable {ε α β σ ι : Type}

def ofOption (value : Option α) : Attempt ε α := ExceptT.mk (value.map .ok)

def Returns (attempt : Attempt ε α) (value : α) : Prop := attempt.run = some (.ok value)

def Panics (attempt : Attempt ε α) : Prop := attempt.run = none

instance (attempt : Attempt ε α) : Decidable attempt.Panics :=
  decidable_of_iff (attempt.run.isNone) Option.isNone_iff_eq_none

variable {attempt : Attempt ε α} {f : α → Attempt ε β}

theorem returns_bind {result : β} : (attempt >>= f).Returns result ↔
    ∃ value, attempt.Returns value ∧ (f value).Returns result := by
  unfold Returns
  rw [ExceptT.run_bind]
  cases attempt.run with
  | none => simp
  | some found => cases found <;> simp

theorem panics_bind : (attempt >>= f).Panics ↔
    attempt.Panics ∨ ∃ value, attempt.Returns value ∧ (f value).Panics := by
  unfold Panics Returns
  rw [ExceptT.run_bind]
  cases attempt.run with
  | none => simp
  | some found => cases found <;> simp

theorem returns_pure {value result : α} :
    (pure value : Attempt ε α).Returns result ↔ value = result := by
  unfold Returns
  rw [ExceptT.run_pure]
  simp

theorem not_panics_pure {value : α} : ¬(pure value : Attempt ε α).Panics := nofun

theorem returns_ofOption {found : Option α} {value : α} :
    (ofOption found : Attempt ε α).Returns value ↔ found = some value := by
  unfold Returns ofOption
  rw [ExceptT.run_mk]
  cases found <;> simp

theorem panics_ofOption {found : Option α} :
    (ofOption found : Attempt ε α).Panics ↔ found = none := by
  unfold Panics ofOption
  rw [ExceptT.run_mk, Option.map_eq_none_iff]

theorem not_returns_throw {error : ε} {value : α} :
    ¬(throw error : Attempt ε α).Returns value := by
  unfold Returns
  rw [ExceptT.run_throw]
  simp

theorem not_panics_throw {error : ε} : ¬(throw error : Attempt ε α).Panics := nofun

section Loops

variable {step : σ → ι → Attempt ε σ} {inv : σ → Prop} {done safe : ι → Prop} {items : List ι}
  {s : σ}

theorem foldlM_keeps (keeps : ∀ s i next, inv s → (step s i).Returns next → inv next) {last : σ}
    (start : inv s) (loop : (items.foldlM step s).Returns last) : inv last := by
  induction items generalizing s with
  | nil => exact returns_pure.mp loop ▸ start
  | cons i rest ih =>
    rw [List.foldlM_cons, returns_bind] at loop
    obtain ⟨next, first, loop⟩ := loop
    exact ih (keeps s i next start first) loop

/-- A loop gets to its end where it gets past each item. -/
theorem returns_foldlM (keeps : ∀ s i next, inv s → (step s i).Returns next → inv next)
    (item : ∀ i ∈ items, ∀ s, inv s → ((∃ next, (step s i).Returns next) ↔ done i))
    (start : inv s) : (∃ next, (items.foldlM step s).Returns next) ↔ ∀ i ∈ items, done i := by
  induction items generalizing s with
  | nil => simp [returns_pure]
  | cons i rest ih =>
    obtain ⟨head, tail⟩ := List.forall_mem_cons.mp item
    rw [List.foldlM_cons, List.forall_mem_cons, ← head s start]
    simp only [returns_bind]
    constructor
    · rintro ⟨last, next, first, loop⟩
      exact ⟨⟨next, first⟩, (ih tail (keeps s i next start first)).mp ⟨last, loop⟩⟩
    · rintro ⟨⟨next, first⟩, loop⟩
      obtain ⟨last, loop⟩ := (ih tail (keeps s i next start first)).mpr loop
      exact ⟨last, next, first, loop⟩

/-- A loop whose turns are all known ends in what they amount to. -/
theorem returns_foldlM_eq {turn : σ → ι → σ} (keeps : ∀ s i, inv s → inv (turn s i))
    (item : ∀ i ∈ items, ∀ s, inv s → ∀ next, (step s i).Returns next ↔ done i ∧ next = turn s i)
    (start : inv s) {last : σ} :
    (items.foldlM step s).Returns last ↔ (∀ i ∈ items, done i) ∧ last = items.foldl turn s := by
  induction items generalizing s with
  | nil => simp [returns_pure, eq_comm]
  | cons i rest ih =>
    obtain ⟨head, tail⟩ := List.forall_mem_cons.mp item
    rw [List.foldlM_cons, returns_bind, List.forall_mem_cons, List.foldl_cons]
    simp only [head s start]
    constructor
    · rintro ⟨next, ⟨first, rfl⟩, loop⟩
      obtain ⟨others, result⟩ := (ih tail (keeps s i start)).mp loop
      exact ⟨⟨first, others⟩, result⟩
    · rintro ⟨⟨first, others⟩, result⟩
      exact ⟨_, ⟨first, rfl⟩, (ih tail (keeps s i start)).mpr ⟨others, result⟩⟩

/-- A loop panics at the first item that it does not get past, if it does. -/
theorem not_panics_foldlM (keeps : ∀ s i next, inv s → (step s i).Returns next → inv next)
    (item : ∀ i ∈ items, ∀ s, inv s → ((∃ next, (step s i).Returns next) ↔ done i))
    (turn : ∀ i ∈ items, ∀ s, inv s → (¬(step s i).Panics ↔ safe i)) (start : inv s) :
    ¬(items.foldlM step s).Panics ↔
      ∀ before i, before ++ [i] <+: items → (∀ other ∈ before, done other) → safe i := by
  induction items generalizing s with
  | nil => simp [not_panics_pure]
  | cons i rest ih =>
    obtain ⟨past, later⟩ := List.forall_mem_cons.mp item
    obtain ⟨calm, calmLater⟩ := List.forall_mem_cons.mp turn
    rw [List.foldlM_cons, panics_bind, not_or, calm s start]
    constructor
    · rintro ⟨head, tail⟩ before other found passed
      cases before with
      | nil =>
        obtain ⟨rfl, -⟩ := List.cons_prefix_cons.mp found
        exact head
      | cons first before =>
        rw [List.cons_append] at found
        obtain ⟨rfl, inside⟩ := List.cons_prefix_cons.mp found
        obtain ⟨head, passed⟩ := List.forall_mem_cons.mp passed
        obtain ⟨next, goes⟩ := (past s start).mpr head
        have loop := fun panic => tail ⟨next, goes, panic⟩
        exact (ih later calmLater (keeps s first next start goes)).mp loop before other inside passed
    · intro all
      refine ⟨all [] i (List.prefix_append [i] rest) (by simp), ?_⟩
      rintro ⟨next, goes, panic⟩
      refine (ih later calmLater (keeps s i next start goes)).mpr ?_ panic
      intro before other found passed
      have head := (past s start).mp ⟨next, goes⟩
      exact all (i :: before) other (List.cons_prefix_cons.mpr ⟨rfl, found⟩)
        (List.forall_mem_cons.mpr ⟨head, passed⟩)

/-- A loop whose turns never panic does not either. -/
theorem not_panics_foldlM_of_never (keeps : ∀ s i next, inv s → (step s i).Returns next → inv next)
    (never : ∀ i ∈ items, ∀ s, inv s → ¬(step s i).Panics) (start : inv s) :
    ¬(items.foldlM step s).Panics := by
  induction items generalizing s with
  | nil => exact not_panics_pure
  | cons i rest ih =>
    obtain ⟨head, tail⟩ := List.forall_mem_cons.mp never
    rw [List.foldlM_cons, panics_bind]
    rintro (panic | ⟨next, goes, panic⟩)
    · exact head s start panic
    · exact ih tail (keeps s i next start goes) panic

end Loops

end Attempt

section Agreement

variable {ε σ α β ι : Type} {rel : σ → σ → Prop}

/-- Both fail with one error, or return one value in states that are related again. -/
inductive Together (rel : σ → σ → Prop) : Except ε (α × σ) → Except ε (α × σ) → Prop where
  | failed (error : ε) : Together rel (.error error) (.error error)
  | returned (value : α) {s t : σ} (related : rel s t) :
      Together rel (.ok (value, s)) (.ok (value, t))

/-- A computation that does not see in what related states differ. -/
def Agrees (rel : σ → σ → Prop) (compute : StateT σ (Except ε) α) : Prop :=
  ∀ s t, rel s t → Together rel (compute s) (compute t)

theorem bind_of_ok {first : StateT σ (Except ε) α} {next : α → StateT σ (Except ε) β} {s t : σ}
    {value : α} (ends : first s = .ok (value, t)) : (first >>= next) s = next value t := by
  change (first s >>= _) = _
  rw [ends]
  rfl

theorem Agrees.pure (value : α) : Agrees rel (pure value : StateT σ (Except ε) α) :=
  fun _ _ related => .returned value related

theorem Agrees.bind {first : StateT σ (Except ε) α} {next : α → StateT σ (Except ε) β}
    (head : Agrees rel first) (tail : ∀ value, Agrees rel (next value)) :
    Agrees rel (first >>= next) := by
  intro s t related
  have together := head s t related
  change Together rel (first s >>= fun done => next done.1 done.2)
    (first t >>= fun done => next done.1 done.2)
  generalize first s = one at together
  generalize first t = other at together
  cases together with
  | failed error => exact .failed error
  | returned value related => exact tail value _ _ related

theorem Agrees.forM {step : ι → StateT σ (Except ε) PUnit} (each : ∀ i, Agrees rel (step i))
    (items : List ι) : Agrees rel (items.forM step) := by
  induction items with
  | nil => exact .pure _
  | cons i rest ih => exact .bind (each i) fun _ => ih

end Agreement
end Warpine.Lib
