import Mathlib.Data.Finset.Basic
import Warpine.Lib.Table

/-! Things that lie at one place at a time and are moved between places, and numbered ones that are
taken and given back. -/
namespace Warpine.Lib

variable {π τ κ : Type} [DecidableEq π] {name : τ → κ}

/-- No two places hold things of one name. -/
def Once (name : τ → κ) (held : Table π τ) : Prop :=
  ∀ first second one two, held first = some one → held second = some two →
    name one = name two → first = second

namespace Once

variable {held : Table π τ} {origin target place : π} {thing : τ}

theorem erase (h : Once name held) (place : π) : Once name (held.erase place) := by
  intro first second one two hone htwo same
  exact h first second one two (Table.erase_eq_some.mp hone).2 (Table.erase_eq_some.mp htwo).2 same

/-- A thing that is held nowhere else may be put at any place. -/
theorem insert (h : Once name held) (place : π)
    (fresh : ∀ other there, held other = some there → name there = name thing → other = place) :
    Once name (held.insert place thing) := by
  intro first second one two hone htwo same
  rcases Table.insert_eq_some.mp hone with ⟨hfirst, rfl⟩ | ⟨hfirst, oldOne⟩ <;>
    rcases Table.insert_eq_some.mp htwo with ⟨hsecond, rfl⟩ | ⟨hsecond, oldTwo⟩
  · rw [hfirst, hsecond]
  · exact absurd (fresh second two oldTwo same.symm) hsecond
  · exact absurd (fresh first one oldOne same) hfirst
  · exact h first second one two oldOne oldTwo same

theorem move (h : Once name held) (here : held origin = some thing) (target : π) :
    Once name ((held.erase origin).insert target thing) := by
  apply (h.erase origin).insert
  intro other there found same
  have kept := Table.erase_eq_some.mp found
  exact absurd (h other origin there thing kept.2 here same) kept.1

/-- Where the thing was taken from, nothing of its name is left anywhere. -/
theorem not_of_erase (h : Once name held) (here : held origin = some thing) {there : τ}
    (found : held.erase origin place = some there) : name there ≠ name thing := by
  intro same
  have kept := Table.erase_eq_some.mp found
  exact kept.1 (h place origin there thing kept.2 here same)

end Once

namespace Table

variable {κ α β : Type} [DecidableEq κ] {table : Table κ α} {view : α → Option β} {key : κ}
  {value : α} {seen : β}

omit [DecidableEq κ] in
/-- What is seen of the values. -/
def filterMap (table : Table κ α) (view : α → Option β) : Table κ β := fun key =>
  (table key).bind view

omit [DecidableEq κ] in
theorem filterMap_eq_some :
    table.filterMap view key = some seen ↔ ∃ value, table key = some value ∧ view value = some seen :=
  Option.bind_eq_some_iff

theorem filterMap_erase : (table.erase key).filterMap view = (table.filterMap view).erase key := by
  funext other
  by_cases h : other = key <;> simp [filterMap, erase, h]

theorem filterMap_insert_some (h : view value = some seen) :
    (table.insert key value).filterMap view = (table.filterMap view).insert key seen := by
  funext other
  by_cases same : other = key <;> simp [filterMap, insert, same, h]

theorem filterMap_insert_none (h : view value = none) :
    (table.insert key value).filterMap view = (table.filterMap view).erase key := by
  funext other
  by_cases same : other = key <;> simp [filterMap, insert, erase, same, h]

theorem filterMap_insert_same (h : view value = table.filterMap view key) :
    (table.insert key value).filterMap view = table.filterMap view := by
  funext other
  by_cases same : other = key
  · subst same
    rw [← h, filterMap, insert_self, Option.bind_some]
  · rw [filterMap, insert_ne _ _ same, filterMap]

theorem filterMap_erase_none (h : table.filterMap view key = none) :
    (table.erase key).filterMap view = table.filterMap view := by
  rw [filterMap_erase, erase_none h]

theorem erase_insert : (table.erase key).insert key value = table.insert key value := by
  funext other
  by_cases h : other = key <;> simp [insert, erase, h]

/-- What a key is bound to before an insertion there does not count. -/
theorem erase_erase_insert {other : κ} :
    ((table.erase key).erase other).insert key value = (table.erase other).insert key value := by
  funext found
  by_cases same : found = key
  · rw [same, insert_self, insert_self]
  · rw [insert_ne _ _ same, insert_ne _ _ same]
    by_cases hother : found = other
    · rw [hother, erase_self, erase_self]
    · rw [erase_ne _ hother, erase_ne _ hother, erase_ne _ same]

end Table

@[ext] structure Leases (π : Type) where
  held : Table π Nat
  opened : Finset Nat
  next : Nat

namespace Leases

variable {π : Type} [DecidableEq π] (leases : Leases π) (place origin target : π)

def acquire : Leases π :=
  ⟨leases.held.insert place leases.next, insert leases.next leases.opened, leases.next + 1⟩

/-- What the place holds is given back. -/
def release : Leases π where
  held := leases.held.erase place
  opened := (leases.held place).elim leases.opened leases.opened.erase
  next := leases.next

/-- What the target held is not given back. -/
def move : Leases π :=
  match leases.held origin with
  | some thing => { leases with held := (leases.held.erase origin).insert target thing }
  | none => leases

/-- The number is lost, and the thing stays open. -/
def forget : Leases π := { leases with held := leases.held.erase place }

/-- What is held is open and held at one place only. -/
structure Sound : Prop where
  once : Once id leases.held
  opened : ∀ place thing, leases.held place = some thing → thing ∈ leases.opened
  older : ∀ thing ∈ leases.opened, thing < leases.next
  nonzero : 0 ∉ leases.opened
  started : 0 < leases.next

/-- Nothing that is open has been lost. -/
def Tight : Prop := ∀ thing ∈ leases.opened, ∃ place, leases.held place = some thing

variable {leases} {place origin target}

theorem held_release : (leases.release place).held = leases.held.erase place := rfl

theorem release_of_none (h : leases.held place = none) : leases.release place = leases := by
  rw [release, Table.erase_none h, h]
  rfl

theorem move_of_some {thing : Nat} (h : leases.held origin = some thing) :
    leases.move origin target =
      { leases with held := (leases.held.erase origin).insert target thing } := by
  rw [move, h]

theorem mem_release {thing : Nat} :
    thing ∈ (leases.release place).opened ↔
      thing ∈ leases.opened ∧ leases.held place ≠ some thing := by
  cases h : leases.held place with
  | none => simp [release, h]
  | some other =>
    simp only [release, h, Option.elim_some, Finset.mem_erase, ne_eq, Option.some.injEq]
    rw [and_comm, eq_comm]

namespace Sound

variable (h : leases.Sound)
include h

theorem acquire (place : π) : (leases.acquire place).Sound where
  once := h.once.insert place fun other there found same => by
    have known := h.older _ (h.opened other there found)
    rw [show there = leases.next from same] at known
    exact absurd known (Nat.lt_irrefl _)
  opened := by
    intro other thing found
    rcases Table.insert_eq_some.mp found with ⟨-, rfl⟩ | ⟨-, old⟩
    · exact Finset.mem_insert_self _ _
    · exact Finset.mem_insert_of_mem (h.opened other thing old)
  older := by
    intro thing member
    rcases Finset.mem_insert.mp member with rfl | old
    · exact Nat.lt_succ_self _
    · exact Nat.lt_succ_of_lt (h.older thing old)
  nonzero := fun member => (Finset.mem_insert.mp member).elim (Nat.ne_of_lt h.started) h.nonzero
  started := Nat.succ_pos _

theorem release (place : π) : (leases.release place).Sound where
  once := h.once.erase place
  opened := by
    intro other thing found
    obtain ⟨differ, old⟩ := Table.erase_eq_some.mp found
    refine mem_release.mpr ⟨h.opened other thing old, fun here => differ ?_⟩
    exact h.once other place thing thing old here rfl
  older := fun thing member => h.older thing (mem_release.mp member).1
  nonzero := fun member => h.nonzero (mem_release.mp member).1
  started := h.started

theorem forget (place : π) : (leases.forget place).Sound where
  once := h.once.erase place
  opened := fun other thing found => h.opened other thing (Table.erase_eq_some.mp found).2
  older := h.older
  nonzero := h.nonzero
  started := h.started

theorem move (origin target : π) : (leases.move origin target).Sound := by
  cases here : leases.held origin with
  | none =>
    rw [Leases.move, here]
    exact h
  | some thing =>
    rw [move_of_some here]
    refine ⟨h.once.move here target, ?_, h.older, h.nonzero, h.started⟩
    intro other there found
    rcases Table.insert_eq_some.mp found with ⟨-, rfl⟩ | ⟨-, old⟩
    · exact h.opened origin _ here
    · exact h.opened other there (Table.erase_eq_some.mp old).2

end Sound

namespace Tight

variable (h : leases.Tight)
include h

theorem acquire (free : leases.held place = none) : (leases.acquire place).Tight := by
  intro thing member
  rcases Finset.mem_insert.mp member with rfl | old
  · exact ⟨place, Table.insert_self _ _ _⟩
  · obtain ⟨other, found⟩ := h thing old
    refine ⟨other, Table.insert_eq_some.mpr (.inr ⟨?_, found⟩)⟩
    rintro rfl
    rw [free] at found
    cases found

theorem release (place : π) : (leases.release place).Tight := by
  intro thing member
  obtain ⟨old, elsewhere⟩ := mem_release.mp member
  obtain ⟨other, found⟩ := h thing old
  refine ⟨other, Table.erase_eq_some.mpr ⟨?_, found⟩⟩
  rintro rfl
  exact elsewhere found

theorem move (origin : π) (free : leases.held target = none) :
    (leases.move origin target).Tight := by
  cases here : leases.held origin with
  | none =>
    rw [Leases.move, here]
    exact h
  | some moved =>
    rw [move_of_some here]
    intro thing member
    obtain ⟨other, found⟩ := h thing member
    by_cases same : other = origin
    · subst same
      rw [here] at found
      exact ⟨target, by rw [← Option.some.inj found]; exact Table.insert_self _ _ _⟩
    · refine ⟨other, Table.insert_eq_some.mpr (.inr ⟨?_, Table.erase_eq_some.mpr ⟨same, found⟩⟩)⟩
      rintro rfl
      rw [free] at found
      cases found

end Tight
end Leases
end Warpine.Lib
