import Mathlib.Data.List.Basic

/-! Runs of labelled transition systems. A run carries its list of labels, so
that a condition on the labels can be put on every step of it. -/
namespace Warpine.Lib

/-- A labelled transition relation. -/
abbrev Step (σ ε : Type) := σ → ε → σ → Prop

inductive Run {σ ε : Type} (step : Step σ ε) : σ → List ε → σ → Prop where
  | nil (state : σ) : Run step state [] state
  | cons {start middle finish : σ} {event : ε} {events : List ε} :
      step start event middle → Run step middle events finish →
        Run step start (event :: events) finish

/-- The same steps, kept only where the guard holds of the state before and
of the label. -/
def Step.guarded {σ ε : Type} (step : Step σ ε) (guard : σ → ε → Prop) : Step σ ε :=
  fun start event finish => guard start event ∧ step start event finish

variable {σ ε : Type} {step : Step σ ε}

/-- A property that every step preserves holds at the end of every run. -/
theorem Run.invariant (inv : σ → Prop)
    (preserved : ∀ start event finish, inv start → step start event finish → inv finish)
    {start finish : σ} {events : List ε} (run : Run step start events finish)
    (holds : inv start) : inv finish := by
  induction run with
  | nil state => exact holds
  | cons first _ ih => exact ih (preserved _ _ _ holds first)

theorem Run.append {start middle finish : σ} {first second : List ε}
    (before : Run step start first middle) (after : Run step middle second finish) :
    Run step start (first ++ second) finish := by
  induction before with
  | nil state => exact after
  | cons head _ ih => exact .cons head (ih after)

theorem Run.unguarded {guard : σ → ε → Prop} {start finish : σ} {events : List ε}
    (run : Run (step.guarded guard) start events finish) : Run step start events finish := by
  induction run with
  | nil state => exact .nil state
  | cons first _ ih => exact .cons first.2 ih

/-- A guard that follows from another one wherever the invariant of its runs holds. -/
theorem Run.reguard {guard weaker : σ → ε → Prop} (inv : σ → Prop)
    (preserved : ∀ start event finish, inv start → guard start event →
      step start event finish → inv finish)
    (follows : ∀ state event, inv state → guard state event → weaker state event)
    {start finish : σ} {events : List ε} (run : Run (step.guarded guard) start events finish)
    (holds : inv start) : Run (step.guarded weaker) start events finish := by
  induction run with
  | nil state => exact .nil state
  | cons first _ ih =>
    exact .cons ⟨follows _ _ holds first.1, first.2⟩
      (ih (preserved _ _ _ holds first.1 first.2))

/-- A condition on all labels of a run holds at each of its steps. -/
theorem Run.restrict {allowed : ε → Prop} {start finish : σ} {events : List ε}
    (run : Run step start events finish) (all : ∀ event ∈ events, allowed event) :
    Run (step.guarded fun _ event => allowed event) start events finish := by
  induction run with
  | nil state => exact .nil state
  | cons first _ ih =>
    exact .cons ⟨all _ List.mem_cons_self, first⟩
      (ih fun event member => all event (List.mem_cons_of_mem _ member))

/-- A function that only takes steps of the relation runs it along a list of labels. -/
theorem Run.of_foldlM {exec : σ → ε → Option σ}
    (sound : ∀ start event finish, exec start event = some finish → step start event finish)
    {start finish : σ} {events : List ε} (h : events.foldlM exec start = some finish) :
    Run step start events finish := by
  induction events generalizing start with
  | nil => exact Option.some.inj h ▸ .nil start
  | cons event rest ih =>
    rw [List.foldlM_cons] at h
    obtain ⟨middle, hfirst, hrest⟩ := Option.bind_eq_some_iff.mp h
    exact .cons (sound _ _ _ hfirst) (ih hrest)

end Warpine.Lib
