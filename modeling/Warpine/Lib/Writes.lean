import Warpine.Lib.Lists
import Warpine.Lib.Painting

/-! Painters whose loops are lists of writes, on a grid kept as one list, row by row. A write
outside of the list, or of a value that could not be read, ends the program. -/
namespace Warpine.Lib

/-- A place, and the value for it. -/
abbrev Write (α : Type) := Nat × Option α

namespace Write

variable {α β : Type}

def Lands (write : Write α) (length : Nat) : Prop :=
  write.1 < length ∧ write.2.isSome = true

def map (f : α → β) (write : Write α) : Write β := (write.1, write.2.map f)

theorem lands_map {f : α → β} {write : Write α} {length : Nat} :
    (write.map f).Lands length ↔ write.Lands length := by
  unfold Lands map
  rw [Option.isSome_map]

end Write

section Runs

variable {α : Type}

def writeTo (buf : List α) (write : Write α) : Option (List α) := do
  let value ← write.2
  if write.1 < buf.length then some (buf.set write.1 value) else none

def writeAll (buf : List α) (writes : List (Write α)) : Option (List α) :=
  writes.foldlM writeTo buf

/-- Some write goes to the place. -/
def touches (writes : List (Write α)) (place : Nat) : Bool :=
  writes.any fun write => write.1 == place

theorem touches_iff {writes : List (Write α)} {place : Nat} :
    touches writes place = true ↔ ∃ write ∈ writes, write.1 = place := by
  simp [touches]

theorem touches_map {β : Type} (f : α → β) (writes : List (Write α)) (place : Nat) :
    touches (writes.map (Write.map f)) place = touches writes place := by
  unfold touches
  rw [List.any_map]
  rfl

variable {buf after : List α} {write : Write α} {writes : List (Write α)}

theorem writeTo_eq_some :
    writeTo buf write = some after ↔
      ∃ value, write.2 = some value ∧ write.1 < buf.length ∧ buf.set write.1 value = after := by
  unfold writeTo
  rw [Option.bind_eq_bind, Option.bind_eq_some_iff]
  simp only [Option.ite_none_right_eq_some, Option.some.injEq]

theorem writeTo_isSome : (writeTo buf write).isSome = true ↔ write.Lands buf.length := by
  unfold writeTo Write.Lands
  cases write.2 with
  | none => exact iff_of_false Bool.false_ne_true fun both => Bool.false_ne_true both.2
  | some value =>
    rw [Option.bind_eq_bind, Option.bind_some, Option.isSome_some, eq_self_iff_true, and_true]
    split
    · exact iff_of_true rfl ‹_›
    · exact iff_of_false Bool.false_ne_true ‹_›

theorem writeTo_length (h : writeTo buf write = some after) : after.length = buf.length := by
  obtain ⟨value, _, _, rfl⟩ := writeTo_eq_some.mp h
  exact List.length_set

theorem writeAll_length (h : writeAll buf writes = some after) : after.length = buf.length :=
  foldlM_length (fun _ _ _ written => writeTo_length written) h

theorem writeAll_isSome :
    (writeAll buf writes).isSome = true ↔ ∀ write ∈ writes, write.Lands buf.length :=
  @isSome_foldlM _ _ writeTo (fun now => now.length = buf.length) _ _ _
    (fun _ _ _ _ same written => (writeTo_length written).trans same)
    (fun _ _ _ same => same ▸ writeTo_isSome) rfl

/-- Values of one mark leave it where a write goes, and all other places as they are. -/
theorem writeAll_mark {κ : Type} {mark : α → κ} {key : κ}
    (same : ∀ write ∈ writes, ∀ value, write.2 = some value → mark value = key)
    (h : writeAll buf writes = some after) {place : Nat} (inside : place < buf.length) :
    after[place]?.map mark =
      if touches writes place then some key else buf[place]?.map mark := by
  induction writes generalizing buf with
  | nil =>
    rw [← Option.some.inj h]
    rfl
  | cons first rest ih =>
    obtain ⟨here, later⟩ := List.forall_mem_cons.mp same
    obtain ⟨next, written, h⟩ := Option.bind_eq_some_iff.mp h
    have length := writeTo_length written
    obtain ⟨value, read, _, rfl⟩ := writeTo_eq_some.mp written
    have touched : touches (first :: rest) place = (first.1 == place || touches rest place) := rfl
    rw [ih later h (by rw [length]; exact inside), touched]
    by_cases again : touches rest place = true
    · rw [if_pos again, if_pos (by rw [again, Bool.or_true])]
    · rw [if_neg again, Bool.eq_false_iff.mpr again, List.getElem?_set]
      simp only [Bool.or_false, beq_iff_eq]
      split
      · subst place
        rw [Option.map_some, here value read]
      · rfl

end Runs

section Turns

variable {α ι : Type} {turns : List ι} {writes : ι → List (Write α)} {buf after : List α}

/-- Turn after turn. -/
def writeTurns (turns : List ι) (writes : ι → List (Write α)) (buf : List α) :
    Option (List α) :=
  turns.foldlM (fun buf turn => writeAll buf (writes turn)) buf

theorem writeTurns_length (h : writeTurns turns writes buf = some after) :
    after.length = buf.length :=
  foldlM_length (fun _ _ _ written => writeAll_length written) h

theorem writeTurns_isSome :
    (writeTurns turns writes buf).isSome = true ↔
      ∀ turn ∈ turns, ∀ write ∈ writes turn, write.Lands buf.length :=
  @isSome_foldlM _ _ (fun buf turn => writeAll buf (writes turn))
    (fun now => now.length = buf.length) _ _ _
    (fun _ _ _ _ same written => (writeAll_length written).trans same)
    (fun _ _ _ same => same ▸ writeAll_isSome) rfl

/-- A place has the mark of the last turn that writes to it. -/
theorem writeTurns_mark {κ : Type} {mark : α → κ} {key : ι → κ}
    (same : ∀ turn ∈ turns, ∀ write ∈ writes turn, ∀ value, write.2 = some value →
      mark value = key turn)
    (h : writeTurns turns writes buf = some after) {place : Nat} (inside : place < buf.length) :
    after[place]?.map mark =
      (turns.reverse.find? fun turn => touches (writes turn) place).elim (buf[place]?.map mark)
        fun turn => some (key turn) := by
  induction turns generalizing buf with
  | nil =>
    rw [← Option.some.inj h]
    rfl
  | cons first rest ih =>
    obtain ⟨here, later⟩ := List.forall_mem_cons.mp same
    obtain ⟨next, written, h⟩ := Option.bind_eq_some_iff.mp h
    have length := writeAll_length written
    rw [ih later h (by rw [length]; exact inside), writeAll_mark here written inside,
      List.reverse_cons, List.find?_append]
    cases rest.reverse.find? fun turn => touches (writes turn) place with
    | some turn => rfl
    | none =>
      rw [Option.none_or, Option.elim_none, List.find?_singleton]
      split
      · rfl
      · rfl

end Turns

section Blocks

variable {α : Type}

/-- One value for the rows `top..bottom` of the columns `left..right`. -/
def block (cols top bottom left right : Nat) (value : α) : List (Write α) :=
  (List.range' top (bottom - top)).flatMap fun r =>
    (List.range' left (right - left)).map fun c => (r * cols + c, some value)

theorem mem_block {cols top bottom left right : Nat} {value : α} {write : Write α} :
    write ∈ block cols top bottom left right value ↔
      ∃ r c, (top ≤ r ∧ r < bottom) ∧ (left ≤ c ∧ c < right) ∧
        write = (r * cols + c, some value) := by
  have range (low high i : Nat) : i ∈ List.range' low (high - low) ↔ low ≤ i ∧ i < high := by
    rw [List.mem_range'_1]
    omega
  simp only [block, List.mem_flatMap, List.mem_map, range, @eq_comm _ _ write]
  constructor
  · rintro ⟨r, row, c, col, same⟩
    exact ⟨r, c, row, col, same⟩
  · rintro ⟨r, c, row, col, same⟩
    exact ⟨r, row, c, col, same⟩

end Blocks

/-- The writes go to the area's places of the grid, all of them. -/
structure Fills {α : Type} (rows cols : Nat) (area : Nat → Nat → Prop)
    (writes : List (Write α)) : Prop where
  on : ∀ write ∈ writes, write.2.isSome = true ∧
    ∃ r c, r < rows ∧ c < cols ∧ area r c ∧ write.1 = r * cols + c
  all : ∀ r c, r < rows → c < cols → area r c → ∃ write ∈ writes, write.1 = r * cols + c

namespace Fills

variable {α : Type} {rows cols : Nat} {area other : Nat → Nat → Prop}
  {writes more : List (Write α)}

theorem congr (h : Fills rows cols area writes)
    (same : ∀ r c, r < rows → c < cols → (area r c ↔ other r c)) :
    Fills rows cols other writes where
  on := by
    intro write member
    obtain ⟨read, r, c, hr, hc, here, place⟩ := h.on write member
    exact ⟨read, r, c, hr, hc, (same r c hr hc).mp here, place⟩
  all := fun r c hr hc here => h.all r c hr hc ((same r c hr hc).mpr here)

theorem nil : Fills rows cols (fun _ _ => False) ([] : List (Write α)) where
  on := fun _ member => absurd member List.not_mem_nil
  all := fun _ _ _ _ here => here.elim

theorem single {r c : Nat} (hr : r < rows) (hc : c < cols) {value : Option α}
    (read : value.isSome = true) :
    Fills rows cols (fun r' c' => r' = r ∧ c' = c) [(r * cols + c, value)] where
  on := by
    intro write member
    rw [List.mem_singleton] at member
    subst member
    exact ⟨read, r, c, hr, hc, ⟨rfl, rfl⟩, rfl⟩
  all := by
    rintro r' c' _ _ ⟨rfl, rfl⟩
    exact ⟨_, List.mem_singleton_self _, rfl⟩

theorem append (h : Fills rows cols area writes) (h' : Fills rows cols other more) :
    Fills rows cols (fun r c => area r c ∨ other r c) (writes ++ more) where
  on := by
    intro write member
    rcases List.mem_append.mp member with first | second
    · obtain ⟨read, r, c, hr, hc, here, place⟩ := h.on write first
      exact ⟨read, r, c, hr, hc, .inl here, place⟩
    · obtain ⟨read, r, c, hr, hc, here, place⟩ := h'.on write second
      exact ⟨read, r, c, hr, hc, .inr here, place⟩
  all := by
    intro r c hr hc here
    rcases here with first | second
    · obtain ⟨write, member, place⟩ := h.all r c hr hc first
      exact ⟨write, List.mem_append_left _ member, place⟩
    · obtain ⟨write, member, place⟩ := h'.all r c hr hc second
      exact ⟨write, List.mem_append_right _ member, place⟩

/-- A loop fills what its turns fill. -/
theorem flatMap {ι : Type} {items : List ι} {areas : ι → Nat → Nat → Prop}
    {body : ι → List (Write α)}
    (each : ∀ item ∈ items, Fills rows cols (areas item) (body item)) :
    Fills rows cols (fun r c => ∃ item ∈ items, areas item r c) (items.flatMap body) where
  on := by
    intro write member
    obtain ⟨item, turn, member⟩ := List.mem_flatMap.mp member
    obtain ⟨read, r, c, hr, hc, here, place⟩ := (each item turn).on write member
    exact ⟨read, r, c, hr, hc, ⟨item, turn, here⟩, place⟩
  all := by
    rintro r c hr hc ⟨item, turn, here⟩
    obtain ⟨write, member, place⟩ := (each item turn).all r c hr hc here
    exact ⟨write, List.mem_flatMap.mpr ⟨item, turn, member⟩, place⟩

/-- Writes that are made on a condition only. -/
theorem ite {test : Prop} [Decidable test] (h : test → Fills rows cols area writes) :
    Fills rows cols (fun r c => test ∧ area r c) (if test then writes else []) := by
  split
  · apply (h ‹_›).congr
    intro r c _ _
    exact (and_iff_right ‹_›).symm
  · apply nil.congr
    intro r c _ _
    exact iff_of_false id fun both => ‹¬ test› both.1

/-- Writes that are skipped on a condition. -/
theorem skip {test : Prop} [Decidable test] (h : ¬ test → Fills rows cols area writes) :
    Fills rows cols (fun r c => ¬ test ∧ area r c) (if test then [] else writes) := by
  rw [← ite_not]
  exact ite h

/-- A rectangle within the grid. -/
theorem block {top bottom left right : Nat} (below : bottom ≤ rows) (beside : right ≤ cols)
    (value : α) :
    Fills rows cols (fun r c => (top ≤ r ∧ r < bottom) ∧ left ≤ c ∧ c < right)
      (block cols top bottom left right value) where
  on := by
    intro write member
    obtain ⟨r, c, row, col, rfl⟩ := mem_block.mp member
    exact ⟨rfl, r, c, by omega, by omega, ⟨row, col⟩, rfl⟩
  all := by
    intro r c _ _ here
    exact ⟨_, mem_block.mpr ⟨r, c, here.1, here.2, rfl⟩, rfl⟩

theorem map {β : Type} (h : Fills rows cols area writes) (f : α → β) :
    Fills rows cols area (writes.map (Write.map f)) where
  on := by
    intro write member
    obtain ⟨source, first, rfl⟩ := List.mem_map.mp member
    obtain ⟨read, where_⟩ := h.on source first
    exact ⟨Option.isSome_map.trans read, where_⟩
  all := by
    intro r c hr hc here
    obtain ⟨write, member, place⟩ := h.all r c hr hc here
    exact ⟨write.map f, List.mem_map_of_mem member, place⟩

theorem lands (h : Fills rows cols area writes) :
    ∀ write ∈ writes, write.Lands (rows * cols) := by
  intro write member
  obtain ⟨read, r, c, hr, hc, _, place⟩ := h.on write member
  exact ⟨place ▸ place_lt hr hc, read⟩

theorem touches_iff (h : Fills rows cols area writes) {r c : Nat} (hr : r < rows)
    (hc : c < cols) : touches writes (r * cols + c) = true ↔ area r c := by
  rw [Lib.touches_iff]
  constructor
  · rintro ⟨write, member, place⟩
    obtain ⟨_, r', c', _, hc', here, place'⟩ := h.on write member
    obtain ⟨rfl, rfl⟩ := place_inj hc hc' (place.symm.trans place')
    exact here
  · exact h.all r c hr hc

end Fills
end Warpine.Lib
