import Warpine.Lib.Reader

/-! Readers that may panic. An index out of range, an overflow or a shift by the width of
the word ends the program, which is neither a result nor an error of the reader. -/
namespace Warpine.Lib

/-- Addition of unsigned words of so many bits, with the overflow check on. -/
def addWord (bits a b : Nat) : Option Nat := if a + b < 2 ^ bits then some (a + b) else none

/-- `<<` on words. The bits that leave the word are lost without a check. -/
def shlWord (bits value shift : Nat) : Option Nat :=
  if shift < bits then some ((value <<< shift) % 2 ^ bits) else none

/-- Multiplication, and subtraction below zero, are checked in the same way. -/
def mulWord (bits a b : Nat) : Option Nat := if a * b < 2 ^ bits then some (a * b) else none
def subWord (a b : Nat) : Option Nat := if b ≤ a then some (a - b) else none

section Words

variable {bits a b : Nat}

theorem addWord_of_lt (small : a + b < 2 ^ bits) : addWord bits a b = some (a + b) := if_pos small

theorem addWord_of_le (large : 2 ^ bits ≤ a + b) : addWord bits a b = none :=
  if_neg (Nat.not_lt.mpr large)

theorem mulWord_of_lt (small : a * b < 2 ^ bits) : mulWord bits a b = some (a * b) := if_pos small

theorem mulWord_of_le (large : 2 ^ bits ≤ a * b) : mulWord bits a b = none :=
  if_neg (Nat.not_lt.mpr large)

theorem subWord_of_le (le : b ≤ a) : subWord a b = some (a - b) := if_pos le

theorem subWord_of_lt (less : a < b) : subWord a b = none := if_neg (Nat.not_le.mpr less)

end Words

/-- `bytes[start..stop]`. -/
def slice (bytes : List UInt8) (start stop : Nat) : Option (List UInt8) :=
  if start ≤ stop ∧ stop ≤ bytes.length then some ((bytes.drop start).take (stop - start))
  else none

abbrev Panicky (α : Type) := OptionT Reader α

namespace Panicky

variable {α β : Type}

def ofOption (value : Option α) : Panicky α := OptionT.mk (pure value)

/-- One item for each element of the list. -/
def forEach {ι : Type} (items : List ι) (reader : ι → Panicky α) : Panicky (List α) :=
  match items with
  | [] => return []
  | item :: rest => do
      let head ← reader item
      let tail ← forEach rest reader
      return head :: tail

def Returns (reader : Panicky α) (data : List UInt8) (pos : Nat) (value : α) (next : Nat) : Prop :=
  reader.run data pos = .ok (some value, next)

def Panics (reader : Panicky α) (data : List UInt8) (pos : Nat) : Prop :=
  ∃ next, reader.run data pos = .ok (none, next)

variable {data : List UInt8} {pos next : Nat} {reader : Panicky α} {f : α → Panicky β}

theorem run_bind : (reader >>= f).run data pos = match reader.run data pos with
    | .error e => .error e
    | .ok (none, middle) => .ok (none, middle)
    | .ok (some value, middle) => (f value).run data middle := by
  rw [OptionT.run_bind, Option.elimM, Reader.bind_apply]
  cases reader.run data pos with
  | error e => rfl
  | ok result =>
    obtain ⟨found, middle⟩ := result
    cases found <;> rfl

theorem returns_bind {result : β} : Returns (reader >>= f) data pos result next ↔
    ∃ value middle, Returns reader data pos value middle ∧
      Returns (f value) data middle result next := by
  unfold Returns
  rw [run_bind]
  cases reader.run data pos with
  | error e => simp
  | ok found =>
    obtain ⟨value, middle⟩ := found
    cases value <;> simp

theorem panics_bind : Panics (reader >>= f) data pos ↔
    Panics reader data pos ∨
      ∃ value middle, Returns reader data pos value middle ∧ Panics (f value) data middle := by
  unfold Panics Returns
  rw [run_bind]
  cases reader.run data pos with
  | error e => simp
  | ok found =>
    obtain ⟨value, middle⟩ := found
    cases value <;> simp

theorem run_lift {inner : Reader α} : (liftM inner : Panicky α).run data pos =
    match inner data pos with
    | .error e => .error e
    | .ok (found, middle) => .ok (some found, middle) := by
  change (do let found ← inner; pure (some found) : Reader (Option α)) data pos = _
  rw [Reader.bind_apply]
  cases inner data pos <;> rfl

theorem returns_lift {inner : Reader α} {value : α} :
    Returns (liftM inner) data pos value next ↔ inner data pos = .ok (value, next) := by
  unfold Returns
  rw [run_lift]
  cases inner data pos with
  | error e => simp
  | ok found => simp [Prod.ext_iff]

theorem not_panics_lift {inner : Reader α} : ¬ Panics (liftM inner) data pos := by
  rintro ⟨next, h⟩
  rw [run_lift] at h
  cases found : inner data pos with
  | error e => simp [found] at h
  | ok found' => simp [found] at h

theorem returns_pure {value result : α} :
    Returns (pure value) data pos result next ↔ value = result ∧ pos = next := by
  change (pure (some value) : Reader (Option α)) data pos = _ ↔ _
  simp [Reader.pure_apply]

theorem not_panics_pure {value : α} : ¬ Panics (pure value) data pos := by
  rintro ⟨next, h⟩
  change (pure (some value) : Reader (Option α)) data pos = _ at h
  simp [Reader.pure_apply] at h

theorem returns_ofOption {found : Option α} {value : α} :
    Returns (ofOption found) data pos value next ↔ found = some value ∧ pos = next := by
  change (pure found : Reader (Option α)) data pos = _ ↔ _
  simp [Reader.pure_apply]

theorem panics_ofOption {found : Option α} : Panics (ofOption found) data pos ↔ found = none := by
  change (∃ next, (pure found : Reader (Option α)) data pos = _) ↔ _
  simp [Reader.pure_apply]

section Loops

variable {ι : Type} {items : List ι} {body : ι → Panicky α}

/-- A loop panics only where its body can. -/
theorem not_panics_forEach (never : ∀ item ∈ items, ∀ pos, ¬ Panics (body item) data pos) :
    ¬ Panics (forEach items body) data pos := by
  induction items generalizing pos with
  | nil => exact not_panics_pure
  | cons item rest ih =>
    rw [forEach, panics_bind]
    rintro (head | ⟨_, _, _, tail⟩)
    · exact never item List.mem_cons_self pos head
    · rw [panics_bind] at tail
      rcases tail with loop | ⟨_, _, _, done⟩
      · exact ih (fun other member => never other (List.mem_cons_of_mem _ member)) loop
      · exact not_panics_pure done

/-- What the body ensures of an item's result holds of all results, one for each item. -/
theorem forEach_ensures (property : α → Prop)
    (body_ : ∀ item pos value next, Returns (body item) data pos value next → property value)
    {values : List α} (loop : Returns (forEach items body) data pos values next) :
    values.length = items.length ∧ ∀ value ∈ values, property value := by
  induction items generalizing pos next values with
  | nil =>
    obtain ⟨rfl, -⟩ := returns_pure.mp loop
    exact ⟨rfl, by simp⟩
  | cons item rest ih =>
    simp only [forEach, returns_bind, returns_pure] at loop
    obtain ⟨head, _, first, tail, _, more, rfl, -⟩ := loop
    obtain ⟨length, all⟩ := ih more
    exact ⟨congrArg (· + 1) length, List.forall_mem_cons.mpr ⟨body_ item _ head _ first, all⟩⟩

/-- A loop over items of one size gets to its end where all of them are there. -/
theorem returns_forEach_within {size : Nat}
    (item : ∀ item ∈ items, ∀ pos, (∀ value next, Returns (body item) data pos value next →
      next = pos + size) ∧ ((∃ value next, Returns (body item) data pos value next) ↔
        Within data pos size)) :
    (∃ values next, Returns (forEach items body) data pos values next) ↔
      Within data pos (size * items.length) := by
  induction items generalizing pos with
  | nil => simp [forEach, returns_pure, Within]
  | cons head rest ih =>
    obtain ⟨moves, reads⟩ := item head List.mem_cons_self pos
    have tail := @ih (pos + size) fun other member => item other (List.mem_cons_of_mem _ member)
    rw [List.length_cons, Reader.within_succ, ← reads, ← tail]
    simp only [forEach, returns_bind, returns_pure]
    constructor
    · rintro ⟨_, _, value, middle, first, values, last, loop, _⟩
      rw [moves value middle first] at loop
      exact ⟨⟨value, middle, first⟩, values, last, loop⟩
    · rintro ⟨⟨value, middle, first⟩, values, last, loop⟩
      rw [← moves value middle first] at loop
      exact ⟨_, _, value, middle, first, values, last, loop, rfl, rfl⟩

end Loops

end Panicky
end Warpine.Lib
