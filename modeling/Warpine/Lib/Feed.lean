import Mathlib.Data.List.Basic

/-! A queue that several takers share, with what went through it: every item goes
to the taker that finds it at the front. A slot has place for one item only. -/
namespace Warpine.Lib

structure Feed (κ α : Type) where
  queue : List α
  arrived : List α
  /-- What was taken, in that order, and by whom. -/
  taken : List (κ × α)

namespace Feed

variable {κ α : Type}

def empty : Feed κ α := ⟨[], [], []⟩

def push (feed : Feed κ α) (items : List α) : Feed κ α :=
  { feed with queue := feed.queue ++ items, arrived := feed.arrived ++ items }

/-- The taker gets the front item; from an empty queue nothing. -/
def take (feed : Feed κ α) (taker : κ) : Feed κ α :=
  match feed.queue with
  | [] => feed
  | item :: rest => { feed with queue := rest, taken := feed.taken ++ [(taker, item)] }

def takenBy [DecidableEq κ] (feed : Feed κ α) (taker : κ) : List α :=
  (feed.taken.filter fun entry => entry.1 = taker).map Prod.snd

/-- What arrived was taken, by one taker each and in the order of arrival, or is
still in the queue. -/
def Conserved (feed : Feed κ α) : Prop :=
  feed.arrived = feed.taken.map Prod.snd ++ feed.queue

variable {feed : Feed κ α} {taker other : κ} {item : α} {rest : List α}

theorem take_cons (front : feed.queue = item :: rest) :
    feed.take taker = { feed with queue := rest, taken := feed.taken ++ [(taker, item)] } := by
  simp only [take, front]

theorem conserved_empty : (empty : Feed κ α).Conserved := rfl

theorem Conserved.push (h : feed.Conserved) (items : List α) : (feed.push items).Conserved := by
  have heq : feed.arrived = feed.taken.map Prod.snd ++ feed.queue := h
  simp only [Conserved, Feed.push, heq, List.append_assoc]

theorem Conserved.take (h : feed.Conserved) (taker : κ) : (feed.take taker).Conserved := by
  have heq : feed.arrived = feed.taken.map Prod.snd ++ feed.queue := h
  cases hqueue : feed.queue with
  | nil =>
    simp only [Feed.take, hqueue]
    exact h
  | cons item rest =>
    rw [take_cons hqueue]
    simp only [Conserved, heq, hqueue, List.map_append, List.map_cons, List.map_nil,
      List.append_assoc, List.singleton_append]

section TakenBy

variable [DecidableEq κ]

@[simp] theorem takenBy_push (items : List α) :
    (feed.push items).takenBy taker = feed.takenBy taker := rfl

theorem takenBy_take_self (front : feed.queue = item :: rest) :
    (feed.take taker).takenBy taker = feed.takenBy taker ++ [item] := by
  rw [take_cons front]
  simp [takenBy]

theorem takenBy_take_ne (h : other ≠ taker) :
    (feed.take taker).takenBy other = feed.takenBy other := by
  cases hqueue : feed.queue with
  | nil => simp only [take, hqueue]
  | cons item rest =>
    rw [take_cons hqueue]
    simp [takenBy, h.symm]

theorem takenBy_eq_nil (unused : ∀ entry ∈ feed.taken, entry.1 ≠ taker) :
    feed.takenBy taker = [] := by
  have none_left : (feed.taken.filter fun entry => entry.1 = taker) = [] := by
    apply List.filter_eq_nil_iff.mpr
    intro entry hentry same
    exact unused entry hentry (of_decide_eq_true same)
  rw [takenBy, none_left]
  rfl

end TakenBy

theorem mem_taken_take {entry : κ × α} (h : entry ∈ (feed.take taker).taken) :
    entry ∈ feed.taken ∨ entry.1 = taker := by
  cases hqueue : feed.queue with
  | nil =>
    simp only [take, hqueue] at h
    exact .inl h
  | cons item rest =>
    rw [take_cons hqueue] at h
    rcases List.mem_append.mp h with old | new
    · exact .inl old
    · exact .inr (congrArg Prod.fst (List.mem_singleton.mp new))

end Feed

/-- Who puts an item over another one loses that; how many were lost is history. -/
structure Slot (α : Type) where
  item : Option α
  lost : Nat
deriving DecidableEq, Repr

namespace Slot

variable {α : Type}

def empty : Slot α := ⟨none, 0⟩

def count (slot : Slot α) : Nat := slot.item.toList.length

def put (slot : Slot α) (item : α) : Slot α := ⟨some item, slot.lost + slot.count⟩

def drained (slot : Slot α) : Slot α := { slot with item := none }

variable {slot : Slot α} {item : α}

@[simp] theorem count_empty : (empty : Slot α).count = 0 := rfl
@[simp] theorem lost_empty : (empty : Slot α).lost = 0 := rfl
@[simp] theorem item_put : (slot.put item).item = some item := rfl
@[simp] theorem count_put : (slot.put item).count = 1 := rfl
@[simp] theorem lost_put : (slot.put item).lost = slot.lost + slot.count := rfl
@[simp] theorem item_drained : slot.drained.item = none := rfl
@[simp] theorem count_drained : slot.drained.count = 0 := rfl
@[simp] theorem lost_drained : slot.drained.lost = slot.lost := rfl

theorem count_of_item (h : slot.item = some item) : slot.count = 1 := by
  rw [count, h]
  rfl

theorem count_eq_zero : slot.count = 0 ↔ slot.item = none := by
  unfold count
  cases slot.item with
  | none => simp
  | some item => simp

end Slot
end Warpine.Lib
