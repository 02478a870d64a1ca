import Warpine.Lib.Run

/-! Words of openings and closings. Such a word is read with the stack of the
openings that still wait, and a closing has to fit the innermost of them. -/
namespace Warpine.Lib

inductive Paren (α β : Type) where
  | opening (a : α)
  | closing (b : β)
deriving DecidableEq

namespace Paren

variable {α β : Type}

inductive Reads (fits : α → β → Prop) : Step (List α) (Paren α β) where
  | opening (stack : List α) (a : α) : Reads fits stack (.opening a) (a :: stack)
  | closing (stack : List α) {a : α} {b : β} (fit : fits a b) :
      Reads fits (a :: stack) (.closing b) stack

/-- Every opening of the word is closed inside it. -/
inductive Balanced (fits : α → β → Prop) : List (Paren α β) → Prop where
  | nil : Balanced fits []
  | pair {a : α} {b : β} {inner rest : List (Paren α β)} (fit : fits a b) :
      Balanced fits inner → Balanced fits rest →
        Balanced fits (.opening a :: (inner ++ .closing b :: rest))

/-- One place in the rest of the word closes the opening, and what stands before
it is closed by itself. -/
def Answered (fits : α → β → Prop) (a : α) (post : List (Paren α β)) : Prop :=
  ∃! parts : List (Paren α β) × β × List (Paren α β),
    post = parts.1 ++ .closing parts.2.1 :: parts.2.2 ∧
      Balanced fits parts.1 ∧ fits a parts.2.1

/-- The rest of the word closes only what it opened. -/
def Waiting (fits : α → β → Prop) (post : List (Paren α β)) : Prop :=
  ∃ above, Run (Reads fits) [] post above

variable {fits : α → β → Prop} {a : α} {b : β} {word post : List (Paren α β)}
  {start middle finish below : List α}

/-- What waits below is not touched. -/
theorem reads_frame (run : Run (Reads fits) start word finish) (below : List α) :
    Run (Reads fits) (start ++ below) word (finish ++ below) := by
  induction run with
  | nil state => exact .nil _
  | cons first _ ih =>
    cases first with
    | opening stack a => exact .cons (.opening _ a) ih
    | closing stack fit => exact .cons (.closing _ fit) ih

theorem reads_append (left : Run (Reads fits) start word middle)
    (right : Run (Reads fits) middle post finish) :
    Run (Reads fits) start (word ++ post) finish := by
  induction left with
  | nil state => exact right
  | cons first _ ih => exact .cons first (ih right)

theorem reads_split (run : Run (Reads fits) start (word ++ post) finish) :
    ∃ middle, Run (Reads fits) start word middle ∧ Run (Reads fits) middle post finish := by
  induction word generalizing start with
  | nil => exact ⟨start, .nil start, run⟩
  | cons bracket rest ih =>
    cases run with
    | cons first others =>
      obtain ⟨middle, left, right⟩ := ih others
      exact ⟨middle, .cons first left, right⟩

theorem reads_unique {other : List α} (run : Run (Reads fits) start word finish)
    (again : Run (Reads fits) start word other) : finish = other := by
  induction run with
  | nil state => cases again; rfl
  | cons first _ ih =>
    cases again with
    | cons second others => cases first <;> cases second <;> exact ih others

/-- A balanced word leaves the stack as it was. -/
theorem Balanced.reads (balanced : Balanced fits word) (stack : List α) :
    Run (Reads fits) stack word stack := by
  induction balanced generalizing stack with
  | nil => exact .nil stack
  | pair fit _ _ inner rest =>
    exact .cons (.opening stack _) (reads_append (inner _) (.cons (.closing stack fit) (rest stack)))

/-- The opening on top of the stack is closed by the word, with a balanced word
before that, or waits to its end. -/
theorem reads_top (word : List (Paren α β)) {a : α} {below finish : List α}
    (run : Run (Reads fits) (a :: below) word finish) :
    (∃ inner b rest, word = inner ++ .closing b :: rest ∧ Balanced fits inner ∧ fits a b ∧
        Run (Reads fits) below rest finish) ∨
      ∃ above, finish = above ++ a :: below ∧ Run (Reads fits) [] word above := by
  match word, run with
  | [], .nil _ => exact .inr ⟨[], rfl, .nil _⟩
  | .closing b :: rest, .cons (.closing _ fit) others =>
    exact .inl ⟨[], b, rest, rfl, .nil, fit, others⟩
  | .opening c :: rest, .cons (.opening _ _) others =>
    rcases reads_top rest others with
      ⟨inner, d, tail, rfl, balanced, fit, after⟩ | ⟨above, rfl, waits⟩
    · -- `c` is closed first, and `a` is looked for after that
      rcases reads_top tail after with
        ⟨inner', b, rest, rfl, balanced', fit', beyond⟩ | ⟨above, rfl, waits⟩
      · refine .inl ⟨.opening c :: (inner ++ .closing d :: inner'), b, rest, ?_,
          .pair fit balanced balanced', fit', beyond⟩
        simp
      · refine .inr ⟨above, rfl, .cons (.opening [] c) ?_⟩
        exact reads_append (balanced.reads [c]) (.cons (.closing [] fit) waits)
    · refine .inr ⟨above ++ [c], by simp, .cons (.opening [] c) ?_⟩
      exact reads_frame waits [c]
termination_by word.length
decreasing_by all_goals simp_all; try omega

/-- Nothing closes what a balanced word has already left. -/
theorem balanced_no_closing {inner rest : List (Paren α β)} {above : List α}
    (balanced : Balanced fits inner)
    (run : Run (Reads fits) [] (inner ++ .closing b :: rest) above) : False := by
  obtain ⟨middle, left, right⟩ := reads_split run
  rw [reads_unique left (balanced.reads [])] at right
  cases right with
  | cons first _ => cases first

theorem balanced_prefix_unique {inner other rest tail : List (Paren α β)} {b c : β}
    (left : Balanced fits inner) (right : Balanced fits other)
    (same : inner ++ .closing b :: rest = other ++ .closing c :: tail) :
    inner = other ∧ b = c ∧ rest = tail := by
  rcases List.append_eq_append_iff.mp same with ⟨more, hother, htail⟩ | ⟨more, hinner, htail⟩
  · cases more with
    | nil => simp_all
    | cons bracket more =>
      obtain ⟨rfl, rfl⟩ := List.cons.inj htail
      exact (balanced_no_closing left (hother ▸ right.reads [])).elim
  · cases more with
    | nil => simp_all
    | cons bracket more =>
      obtain ⟨rfl, rfl⟩ := List.cons.inj htail
      exact (balanced_no_closing right (hinner ▸ left.reads [])).elim

/-- Every opening of a word that is read through is answered once, or still waits. -/
theorem reads_answered {pre : List (Paren α β)}
    (run : Run (Reads fits) start (pre ++ .opening a :: post) finish) :
    Answered fits a post ∨ Waiting fits post := by
  obtain ⟨stack, _, rest⟩ := reads_split run
  cases rest with
  | cons first others =>
    cases first
    rcases reads_top post others with ⟨inner, b, rest, hpost, balanced, fit, _⟩ | ⟨above, _, h⟩
    · refine .inl ⟨(inner, b, rest), ⟨hpost, balanced, fit⟩, ?_⟩
      rintro ⟨inner', b', rest'⟩ ⟨hpost', balanced', _⟩
      obtain ⟨rfl, rfl, rfl⟩ := balanced_prefix_unique balanced balanced' (hpost ▸ hpost')
      rfl
    · exact .inr ⟨above, h⟩

end Paren
end Warpine.Lib
