import Mathlib.Algebra.Order.Group.Nat
import Mathlib.Data.List.Basic
import Mathlib.Data.List.DropRight

/-! Texts and their parts: the fields of a text between its separators, empty ones left out, its
lines, and decimal numbers in it. -/
namespace Warpine.Lib

variable {α : Type} {sep : α → Bool}

def fields (sep : α → Bool) (text : List α) : List (List α) :=
  (text.splitOnP sep).filter fun field => !field.isEmpty

@[simp] theorem fields_nil : fields sep [] = [] := by
  simp [fields]

/-- A separator parts the fields before it from those after it. -/
theorem fields_append {s : α} (h : sep s = true) (front back : List α) :
    fields sep (front ++ s :: back) = fields sep front ++ fields sep back := by
  rw [fields, List.splitOnP_append_cons front back h, List.filter_append]
  rfl

theorem fields_cons {s : α} (h : sep s = true) (text : List α) :
    fields sep (s :: text) = fields sep text := by
  have hparts := fields_append h [] text
  rwa [fields_nil, List.nil_append, List.nil_append] at hparts

theorem fields_snoc {s : α} (h : sep s = true) (text : List α) :
    fields sep (text ++ [s]) = fields sep text := by
  have hparts := fields_append h text []
  rwa [fields_nil, List.append_nil] at hparts

theorem fields_ne_nil {c : α} (h : sep c = false) (text : List α) :
    fields sep (c :: text) ≠ [] := by
  cases hsplit : text.splitOnP sep with
  | nil => exact absurd hsplit (List.splitOnP_ne_nil sep text)
  | cons first rest => simp [fields, List.splitOnP_cons_eq_if_modifyHead, h, hsplit]

theorem fields_dropWhile {test : α → Bool} (h : ∀ c, test c = true → sep c = true)
    (text : List α) : fields sep (text.dropWhile test) = fields sep text := by
  induction text with
  | nil => rfl
  | cons c text ih =>
    rw [List.dropWhile_cons]
    split
    · rename_i hc
      rw [ih, fields_cons (h c hc)]
    · rfl

/-- Exchanging separators changes no field. -/
theorem fields_map {f : α → α} (same : ∀ c, sep (f c) = sep c)
    (keeps : ∀ c, sep c = false → f c = c) (text : List α) :
    fields sep (text.map f) = fields sep text := by
  have hsplit : (text.map f).splitOnP sep = text.splitOnP sep := by
    induction text with
    | nil => rfl
    | cons c text ih =>
      rw [List.map_cons, List.splitOnP_cons_eq_if_modifyHead, List.splitOnP_cons_eq_if_modifyHead,
        same, ih]
      split
      · rfl
      · rename_i hc
        rw [keeps c (by simpa using hc)]
  rw [fields, hsplit]
  rfl

/-- Splitting brings in nothing new. -/
theorem mem_of_mem_splitOnP {text part : List α} {c : α} (member : part ∈ text.splitOnP sep)
    (inside : c ∈ part) : c ∈ text := by
  induction text generalizing part with
  | nil =>
    rw [List.splitOnP_nil, List.mem_singleton] at member
    exact member ▸ inside
  | cons first rest ih =>
    rw [List.splitOnP_cons_eq_if_modifyHead] at member
    split at member
    · rcases List.mem_cons.mp member with rfl | later
      · cases inside
      · exact List.mem_cons_of_mem _ (ih later inside)
    · cases split : rest.splitOnP sep with
      | nil => exact absurd split (List.splitOnP_ne_nil sep rest)
      | cons head tail =>
        rw [split, List.modifyHead_cons, List.mem_cons] at member
        rcases member with rfl | later
        · rcases List.mem_cons.mp inside with rfl | inside
          · exact List.mem_cons_self
          · exact List.mem_cons_of_mem _ (ih (split ▸ List.mem_cons_self) inside)
        · exact List.mem_cons_of_mem _ (ih (split ▸ List.mem_cons_of_mem _ later) inside)

/-- What is trimmed off the front stops at an element that stays. -/
theorem dropWhile_stop {test : α → Bool} {stop : α} (h : test stop = false) (front rest : List α) :
    (front ++ stop :: rest).dropWhile test = front.dropWhile test ++ stop :: rest := by
  rw [List.dropWhile_append]
  split
  · rename_i none_
    rw [List.isEmpty_iff.mp none_, List.dropWhile_cons_of_neg (by simp [h])]
    rfl
  · rfl

/-- What is trimmed off the end stops at an element that stays. -/
theorem rdropWhile_stop {test : α → Bool} {stop : α} (h : test stop = false) (front rest : List α) :
    (front ++ stop :: rest).rdropWhile test = front ++ stop :: rest.rdropWhile test := by
  induction rest using List.reverseRecOn with
  | nil => exact List.rdropWhile_concat_neg _ _ _ (by simp [h])
  | append_singleton rest last ih =>
    have assoc : front ++ stop :: (rest ++ [last]) = (front ++ stop :: rest) ++ [last] := by simp
    rw [assoc, List.rdropWhile_concat, List.rdropWhile_concat]
    split
    · exact ih
    · simp

theorem intercalate_append_head (sep front part : List α) (parts : List (List α)) :
    sep.intercalate ((front ++ part) :: parts) = front ++ sep.intercalate (part :: parts) := by
  induction front with
  | nil => rfl
  | cons c front ih =>
    rw [List.cons_append, List.intercalate_cons_cons_left, ih]
    rfl

/-- A joined text has what its parts have, and the separator where they are several. -/
theorem mem_intercalate {x : α} {parts : List (List α)} {c : α} (h : c ∈ [x].intercalate parts) :
    (c = x ∧ 1 < parts.length) ∨ ∃ part ∈ parts, c ∈ part := by
  induction parts with
  | nil => exact absurd h List.not_mem_nil
  | cons part parts ih =>
    cases parts with
    | nil =>
      rw [List.intercalate_singleton] at h
      exact Or.inr ⟨part, List.mem_cons_self, h⟩
    | cons next parts =>
      rw [List.intercalate_cons_cons, List.mem_append, List.mem_append, List.mem_singleton] at h
      rcases h with (inside | rfl) | later
      · exact Or.inr ⟨part, List.mem_cons_self, inside⟩
      · exact Or.inl ⟨rfl, Nat.succ_lt_succ (Nat.zero_lt_succ _)⟩
      · rcases ih later with ⟨rfl, several⟩ | ⟨found, member, inside⟩
        · exact Or.inl ⟨rfl, Nat.lt_succ_of_lt several⟩
        · exact Or.inr ⟨found, List.mem_cons_of_mem _ member, inside⟩

section SplitOn
variable [DecidableEq α] {x : α}

theorem splitOn_append_of_not_mem {front : List α} (h : x ∉ front) (back : List α) :
    (front ++ back).splitOn x = (back.splitOn x).modifyHead (front ++ ·) := by
  induction front with
  | nil =>
    rw [List.nil_append]
    cases back.splitOn x <;> rfl
  | cons c front ih =>
    rw [List.mem_cons, not_or] at h
    rw [List.cons_append, List.splitOn_cons_eq_if_modifyHead, beq_false_of_ne (Ne.symm h.1),
      ih h.2]
    cases back.splitOn x <;> rfl

/-- One separator less than there are parts. -/
theorem length_splitOn (text : List α) : (text.splitOn x).length = text.count x + 1 := by
  induction text with
  | nil => rfl
  | cons c text ih =>
    rw [List.splitOn_cons_eq_if_modifyHead, List.count_cons]
    split
    · rw [List.length_cons, ih]
    · rw [List.length_modifyHead, ih]

/-- No part has the separator. -/
theorem not_mem_of_mem_splitOn {text part : List α} (member : part ∈ text.splitOn x) :
    x ∉ part := by
  induction text generalizing part with
  | nil =>
    rw [List.splitOn_nil, List.mem_singleton] at member
    exact member ▸ List.not_mem_nil
  | cons c text ih =>
    rw [List.splitOn_cons_eq_if_modifyHead] at member
    split at member
    · rcases List.mem_cons.mp member with rfl | later
      · exact List.not_mem_nil
      · exact ih later
    · rename_i hc
      cases split : text.splitOn x with
      | nil => exact absurd split (List.splitOn_ne_nil x text)
      | cons first parts =>
        rw [split, List.modifyHead_cons] at member
        rcases List.mem_cons.mp member with rfl | later
        · have rest := ih (split ▸ List.mem_cons_self)
          rw [List.mem_cons, not_or]
          exact ⟨fun eq => hc (beq_iff_eq.mpr eq.symm), rest⟩
        · exact ih (split ▸ List.mem_cons_of_mem _ later)

theorem mem_of_mem_splitOn {text part : List α} {c : α} (member : part ∈ text.splitOn x)
    (inside : c ∈ part) : c ∈ text := by
  rw [List.splitOn_eq_splitOnP] at member
  exact mem_of_mem_splitOnP member inside

end SplitOn

section Lines

/-- A line that is ended may end in a carriage return, which is no part of it. -/
def stripReturn (line : List Char) : List Char :=
  if line.getLast? = some '\r' then line.dropLast else line

/-- `str::lines`. What stands behind the last line feed is a line only where it is something. -/
def lines (text : List Char) : List (List Char) :=
  let pieces := text.splitOn '\n'
  pieces.dropLast.map stripReturn ++ (pieces.getLast?.toList).filter fun last => !last.isEmpty

def unlines (all : List (List Char)) : List Char := all.flatMap fun line => line ++ ['\n']

/-- A text that is a line once it is ended. -/
def IsLine (line : List Char) : Prop := '\n' ∉ line ∧ line.getLast? ≠ some '\r'

theorem stripReturn_of_isLine {line : List Char} (h : IsLine line) : stripReturn line = line :=
  if_neg h.2

theorem lines_cons {line : List Char} (h : '\n' ∉ line) (rest : List Char) :
    lines (line ++ '\n' :: rest) = stripReturn line :: lines rest := by
  have pieces : (line ++ '\n' :: rest).splitOn '\n' = line :: rest.splitOn '\n' := by
    rw [splitOn_append_of_not_mem h, List.splitOn_cons_eq_if_modifyHead]
    simp
  have some_ := List.splitOn_ne_nil '\n' rest
  unfold lines
  rw [pieces]
  cases split : rest.splitOn '\n' with
  | nil => exact absurd split some_
  | cons first more => simp

theorem lines_unlines {all : List (List Char)} (h : ∀ line ∈ all, IsLine line) :
    lines (unlines all) = all := by
  induction all with
  | nil => rfl
  | cons line rest ih =>
    have first := h line List.mem_cons_self
    rw [unlines, List.flatMap_cons, List.append_assoc, List.singleton_append, ← unlines,
      lines_cons first.1, stripReturn_of_isLine first,
      ih fun other member => h other (List.mem_cons_of_mem _ member)]

end Lines

section Words

theorem fields_word {word : List α} (some_ : word ≠ []) (plain : ∀ c ∈ word, sep c = false) :
    fields sep word = [word] := by
  have split : word.splitOnP sep = [word] := by
    clear some_
    induction word with
    | nil => rfl
    | cons c word ih =>
      rw [List.splitOnP_cons_eq_if_modifyHead, plain c List.mem_cons_self,
        ih fun d member => plain d (List.mem_cons_of_mem _ member)]
      rfl
  rw [fields, split, List.filter_cons_of_pos (by simpa using some_), List.filter_nil]

theorem fields_space {gap : List α} (space : ∀ c ∈ gap, sep c = true) (text : List α) :
    fields sep (gap ++ text) = fields sep text := by
  induction gap with
  | nil => rfl
  | cons c gap ih =>
    rw [List.cons_append, fields_cons (space c List.mem_cons_self),
      ih fun d member => space d (List.mem_cons_of_mem _ member)]

/-- A word, a gap and the rest. -/
theorem fields_word_gap {word gap : List α} (some_ : word ≠ []) (plain : ∀ c ∈ word, sep c = false)
    (wide : gap ≠ []) (space : ∀ c ∈ gap, sep c = true) (text : List α) :
    fields sep (word ++ gap ++ text) = word :: fields sep text := by
  obtain ⟨s, more, rfl⟩ := List.exists_cons_of_ne_nil wide
  rw [List.append_assoc, List.cons_append, fields_append (space s List.mem_cons_self),
    fields_word some_ plain, fields_space fun d member => space d (List.mem_cons_of_mem _ member)]
  rfl

/-- A field has no separator. -/
theorem plain_of_mem_fields {text field : List α} (member : field ∈ fields sep text) :
    field ≠ [] ∧ ∀ c ∈ field, sep c = false := by
  rw [fields, List.mem_filter] at member
  obtain ⟨part, some_⟩ := member
  refine ⟨by simpa using some_, ?_⟩
  clear some_
  induction text generalizing field with
  | nil =>
    rw [List.splitOnP_nil, List.mem_singleton] at part
    rw [part]
    exact fun c inside => absurd inside List.not_mem_nil
  | cons first rest ih =>
    rw [List.splitOnP_cons_eq_if_modifyHead] at part
    split at part
    · rcases List.mem_cons.mp part with rfl | later
      · exact fun c inside => absurd inside List.not_mem_nil
      · exact ih later
    · rename_i plain
      cases split : rest.splitOnP sep with
      | nil => exact absurd split (List.splitOnP_ne_nil sep rest)
      | cons head tail =>
        rw [split, List.modifyHead_cons, List.mem_cons] at part
        rcases part with rfl | later
        · intro c inside
          rcases List.mem_cons.mp inside with rfl | inside
          · simpa using plain
          · exact ih (split ▸ List.mem_cons_self) c inside
        · exact ih (split ▸ List.mem_cons_of_mem _ later)

end Words

section Decimal

/-- `str::parse` of an unsigned number below the limit. -/
def parseUnsigned (limit : Nat) (text : List Char) : Option Nat :=
  let digits := if text.head? = some '+' then text.tail else text
  let value := Nat.ofDigitChars 10 digits 0
  if digits ≠ [] ∧ digits.all Char.isDigit ∧ value < limit then some value else none

theorem parseUnsigned_lt {limit value : Nat} {text : List Char}
    (h : parseUnsigned limit text = some value) : value < limit := by
  obtain ⟨read, same⟩ := Option.ite_none_right_eq_some.mp h
  exact Option.some.inj same ▸ read.2.2

theorem parseUnsigned_toDigits {limit value : Nat} (small : value < limit) :
    parseUnsigned limit (Nat.toDigits 10 value) = some value := by
  have digits : (Nat.toDigits 10 value).all Char.isDigit := by
    rw [List.all_eq_true]
    exact fun c member => Nat.isDigit_of_mem_toDigits (by decide) (by decide) member
  have unsigned : (Nat.toDigits 10 value).head? ≠ some '+' := by
    intro head
    have member := List.mem_of_head? head
    exact absurd (Nat.isDigit_of_mem_toDigits (by decide) (by decide) member) (by decide)
  have back : Nat.ofDigitChars 10 (Nat.toDigits 10 value) 0 = value :=
    Nat.ofDigitChars_toDigits (by decide) (by decide)
  unfold parseUnsigned
  simp only
  rw [if_neg unsigned, back, if_pos ⟨Nat.toDigits_ne_nil, digits, small⟩]

end Decimal

end Warpine.Lib
