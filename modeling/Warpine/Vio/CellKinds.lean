import Warpine.Lib.Units
import Warpine.Vio.Screen

/-! The cells of the screen as halves of double-byte characters: the scan of the whole screen
begins anew in each row, and cuts it into single cells and pairs. -/
namespace Warpine.Vio
open Warpine.Lib Warpine.Loader

/-- The entries of a row of a screen. -/
def rowOf {α : Type} (cols row : Nat) (entries : List α) : List α :=
  (entries.drop (row * cols)).take cols

/-- The kinds of the cells of one character. -/
def unitKinds : List UInt8 → List CellKind
  | [_, _] => [.dbcsLead, .dbcsTail]
  | unit => unit.map fun _ => .sbcs

/-- Single cells and whole pairs, one after the other. -/
def Tiled : List CellKind → Prop
  | [] => True
  | .sbcs :: rest => Tiled rest
  | .dbcsLead :: .dbcsTail :: rest => Tiled rest
  | _ => False

section Tiles

variable {kinds : List CellKind}

theorem tiled_units (isLead : UInt8 → Bool) (bytes : List UInt8) :
    Tiled ((units isLead bytes).flatMap unitKinds) := by
  induction bytes using units.induct isLead with
  | case1 => trivial
  | case2 item => trivial
  | case3 lead trail rest hlead ih =>
    rw [units_pair hlead]
    exact ih
  | case4 lead trail rest hlead ih =>
    rw [units_single (Bool.eq_false_iff.mpr hlead)]
    exact ih

/-- A lead half is followed by its tail half. -/
theorem Tiled.after_lead (tiled : Tiled kinds) {c : Nat} (lead : kinds[c]? = some .dbcsLead) :
    kinds[c + 1]? = some .dbcsTail := by
  induction kinds using Tiled.induct generalizing c with
  | case1 => cases lead
  | case2 rest ih =>
    cases c with
    | zero => cases lead
    | succ c => exact ih tiled lead
  | case3 rest ih =>
    match c with
    | 0 => rfl
    | 1 => cases lead
    | c + 2 => exact ih tiled lead
  | case4 kinds nonempty single pair =>
    rw [Tiled] at tiled
    · exact tiled.elim
    · exact nonempty
    · exact single
    · exact pair

/-- A tail half stands behind its lead half. -/
theorem Tiled.before_tail (tiled : Tiled kinds) {c : Nat} (tail : kinds[c]? = some .dbcsTail) :
    ∃ before, c = before + 1 ∧ kinds[before]? = some .dbcsLead := by
  induction kinds using Tiled.induct generalizing c with
  | case1 => cases tail
  | case2 rest ih =>
    cases c with
    | zero => cases tail
    | succ c =>
      obtain ⟨before, rfl, lead⟩ := ih tiled tail
      exact ⟨before + 1, rfl, lead⟩
  | case3 rest ih =>
    match c with
    | 0 => cases tail
    | 1 => exact ⟨0, rfl, rfl⟩
    | c + 2 =>
      obtain ⟨before, rfl, lead⟩ := ih tiled tail
      exact ⟨before + 2, rfl, lead⟩
  | case4 kinds nonempty single pair =>
    rw [Tiled] at tiled
    · exact tiled.elim
    · exact nonempty
    · exact single
    · exact pair

end Tiles

section Scan

variable {cp cols : Nat}

theorem annotateFrom_pair {i : Nat} {lead trail : UInt8} {rest : List UInt8}
    (paired : isDbcsLeadByte lead cp = true ∧ i % cols + 1 < cols) :
    annotateFrom cp cols i (lead :: trail :: rest) =
      .dbcsLead :: .dbcsTail :: annotateFrom cp cols (i + 2) rest :=
  if_pos paired

theorem annotateFrom_alone {i : Nat} {lead trail : UInt8} {rest : List UInt8}
    (alone : ¬ (isDbcsLeadByte lead cp = true ∧ i % cols + 1 < cols)) :
    annotateFrom cp cols i (lead :: trail :: rest) =
      .sbcs :: annotateFrom cp cols (i + 1) (trail :: rest) :=
  if_neg alone

theorem annotateFrom_length (i : Nat) (bytes : List UInt8) :
    (annotateFrom cp cols i bytes).length = bytes.length := by
  induction i, bytes using annotateFrom.induct cp cols with
  | case1 i => rfl
  | case2 i item => rfl
  | case3 i lead trail rest paired ih =>
    rw [annotateFrom_pair paired, List.length_cons, List.length_cons, ih]
    rfl
  | case4 i lead trail rest alone ih =>
    rw [annotateFrom_alone alone, List.length_cons, ih]
    rfl

theorem mod_add_congr {i j : Nat} (same : i % cols = j % cols) (k : Nat) :
    (i + k) % cols = (j + k) % cols := by
  rw [Nat.add_mod, same, ← Nat.add_mod]

theorem mod_add_le (i k : Nat) : (i + k) % cols ≤ i % cols + k := by
  rw [← Nat.mod_add_mod]
  exact Nat.mod_le _ _

/-- Only the column of the first cell matters. -/
theorem annotateFrom_congr {i j : Nat} (same : i % cols = j % cols) (bytes : List UInt8) :
    annotateFrom cp cols i bytes = annotateFrom cp cols j bytes := by
  induction i, bytes using annotateFrom.induct cp cols generalizing j with
  | case1 i => rfl
  | case2 i item => rfl
  | case3 i lead trail rest paired ih =>
    rw [annotateFrom_pair paired, annotateFrom_pair (same ▸ paired), ih (mod_add_congr same 2)]
  | case4 i lead trail rest alone ih =>
    rw [annotateFrom_alone alone, annotateFrom_alone (same ▸ alone), ih (mod_add_congr same 1)]

/-- At the start of a row the scan begins anew. -/
theorem annotateFrom_append {i : Nat} {front : List UInt8} (edge : (i + front.length) % cols = 0)
    (back : List UInt8) : annotateFrom cp cols i (front ++ back) =
      annotateFrom cp cols i front ++ annotateFrom cp cols (i + front.length) back := by
  induction i, front using annotateFrom.induct cp cols with
  | case1 i => rfl
  | case2 i item =>
    cases back with
    | nil => rfl
    | cons next rest =>
      have last : ¬ (isDbcsLeadByte item cp = true ∧ i % cols + 1 < cols) := by
        rintro ⟨_, inside⟩
        have column : (i + 1) % cols = i % cols + 1 := by
          rw [← Nat.mod_add_mod, Nat.mod_eq_of_lt inside]
        rw [List.length_singleton, column] at edge
        exact Nat.succ_ne_zero _ edge
      rw [List.singleton_append, annotateFrom_alone last]
      rfl
  | case3 i lead trail rest paired ih =>
    have shorter : i + (lead :: trail :: rest).length = i + 2 + rest.length := by
      rw [List.length_cons, List.length_cons]
      omega
    rw [shorter] at edge ⊢
    rw [List.cons_append, List.cons_append, annotateFrom_pair paired, annotateFrom_pair paired,
      ih edge]
    rfl
  | case4 i lead trail rest alone ih =>
    have shorter : i + (lead :: trail :: rest).length = i + 1 + (trail :: rest).length := by
      rw [List.length_cons, List.length_cons]
      omega
    rw [shorter] at edge ⊢
    rw [List.cons_append, List.cons_append, annotateFrom_alone alone, annotateFrom_alone alone,
      ← List.cons_append, ih edge]
    rfl

/-- Inside a row the scan goes from character to character. -/
theorem annotateFrom_units {i : Nat} {bytes : List UInt8} (inside : i % cols + bytes.length ≤ cols) :
    annotateFrom cp cols i bytes = (units (isDbcsLeadByte · cp) bytes).flatMap unitKinds := by
  induction i, bytes using annotateFrom.induct cp cols with
  | case1 i => rfl
  | case2 i item => rfl
  | case3 i lead trail rest paired ih =>
    have column := @mod_add_le cols i 2
    rw [List.length_cons, List.length_cons] at inside
    have pair : units (isDbcsLeadByte · cp) (lead :: trail :: rest) = _ := units_pair paired.1
    rw [annotateFrom_pair paired, pair, List.flatMap_cons, ih (by omega)]
    rfl
  | case4 i lead trail rest alone ih =>
    have column := @mod_add_le cols i 1
    rw [List.length_cons] at inside
    have single : isDbcsLeadByte lead cp = false := by
      rw [List.length_cons] at inside
      exact Bool.eq_false_iff.mpr fun isLead => alone ⟨isLead, by omega⟩
    have one : units (isDbcsLeadByte · cp) (lead :: trail :: rest) = _ := units_single single
    rw [annotateFrom_alone alone, one, List.flatMap_cons, ih (by omega)]
    rfl

end Scan

section Rows

variable {cp cols : Nat} {rawBytes : List UInt8}

theorem annotateDbcs_length : (annotateDbcs rawBytes cp cols).length = rawBytes.length := by
  unfold annotateDbcs
  split
  · exact List.length_replicate
  · exact annotateFrom_length 0 rawBytes

/-- The rows from one on. -/
theorem annotateFrom_drop (row : Nat) : (annotateFrom cp cols 0 rawBytes).drop (row * cols) =
    annotateFrom cp cols 0 (rawBytes.drop (row * cols)) := by
  by_cases inside : row * cols ≤ rawBytes.length
  · have front : (rawBytes.take (row * cols)).length = row * cols :=
      List.length_take_of_le inside
    have cut := @annotateFrom_append cp cols 0 (rawBytes.take (row * cols))
      (by rw [front, Nat.zero_add, Nat.mul_mod_left]) (rawBytes.drop (row * cols))
    rw [List.take_append_drop, front] at cut
    rw [cut, List.drop_left' ((annotateFrom_length _ _).trans front)]
    apply annotateFrom_congr
    rw [Nat.zero_add, Nat.mul_mod_left, Nat.zero_mod]
  · have past := Nat.le_of_not_le inside
    rw [List.drop_eq_nil_of_le past, List.drop_eq_nil_of_le (by rwa [annotateFrom_length])]
    rfl

theorem annotateFrom_take : (annotateFrom cp cols 0 rawBytes).take cols =
    annotateFrom cp cols 0 (rawBytes.take cols) := by
  by_cases inside : cols ≤ rawBytes.length
  · have front : (rawBytes.take cols).length = cols := List.length_take_of_le inside
    have cut := @annotateFrom_append cp cols 0 (rawBytes.take cols)
      (by rw [front, Nat.zero_add, Nat.mod_self]) (rawBytes.drop cols)
    rw [List.take_append_drop] at cut
    rw [cut, List.take_left' ((annotateFrom_length _ _).trans front)]
  · have short := Nat.le_of_not_le inside
    rw [List.take_of_length_le short, List.take_of_length_le (by rwa [annotateFrom_length])]

/-- A row of the whole screen is annotated as the row alone. -/
theorem rowOf_annotateDbcs (row : Nat) : rowOf cols row (annotateDbcs rawBytes cp cols) =
    annotateDbcs (rowOf cols row rawBytes) cp cols := by
  unfold rowOf annotateDbcs
  by_cases plain : (dbcsLeadRanges cp).isEmpty = true ∨ cols = 0
  · rw [if_pos plain, if_pos plain, List.drop_replicate, List.take_replicate, List.length_take,
      List.length_drop]
  · rw [if_neg plain, if_neg plain, annotateFrom_drop, annotateFrom_take]

/-- What is annotated alone is no longer than a row. -/
theorem annotateDbcs_tiled (short : rawBytes.length ≤ cols) :
    Tiled (annotateDbcs rawBytes cp cols) := by
  unfold annotateDbcs
  split
  · have single : List.replicate rawBytes.length CellKind.sbcs =
        (units (fun _ => false) rawBytes).flatMap unitKinds := by
      rw [units_no_lead fun _ => rfl, List.flatMap_map]
      exact (List.map_const' ..).symm.trans List.map_eq_flatMap
    rw [single]
    exact tiled_units _ rawBytes
  · rw [annotateFrom_units (by rw [Nat.zero_mod, Nat.zero_add]; exact short)]
    exact tiled_units _ rawBytes

theorem length_rowOf_le {α : Type} (entries : List α) (row : Nat) :
    (rowOf cols row entries).length ≤ cols := List.length_take_le ..

theorem getElem?_rowOf {α : Type} {entries : List α} {row col : Nat} (inside : col < cols) :
    (rowOf cols row entries)[col]? = entries[row * cols + col]? := by
  unfold rowOf
  rw [List.getElem?_take_of_lt inside, List.getElem?_drop]

end Rows

/-- A screen's annotation, row by row. -/
structure AnnotatedByRows (sys : System) (kinds : List CellKind) : Prop where
  length : kinds.length = sys.console.rawBytes.length
  tiled : ∀ row, Tiled (rowOf sys.console.cols row kinds)
  lead : ∀ row col, (rowOf sys.console.cols row kinds)[col]? = some .dbcsLead →
    (rowOf sys.console.cols row kinds)[col + 1]? = some .dbcsTail
  tail : ∀ row col, (rowOf sys.console.cols row kinds)[col]? = some .dbcsTail →
    ∃ before, col = before + 1 ∧ (rowOf sys.console.cols row kinds)[before]? = some .dbcsLead
  alone : ∀ row, rowOf sys.console.cols row kinds =
    annotateDbcs (rowOf sys.console.cols row sys.console.rawBytes) sys.annotationCp
      sys.console.cols
  queried : ∀ row col, row < sys.console.rows → col < sys.console.cols → ∃ kind,
    kinds[row * sys.console.cols + col]? = some kind ∧ sys.vioCheckCharType row col = .ok kind

/-- Every snapshot of a screen that has all its cells, in every codepage. -/
theorem snapshot_annotated (rs : EncodingRs) (sys : System)
    (whole : sys.console.rawBytes.length = sys.console.rows * sys.console.cols) :
    AnnotatedByRows sys (sys.snapshot rs).cellKind := by
  have tiled (row : Nat) : Tiled (rowOf sys.console.cols row (sys.snapshot rs).cellKind) := by
    change Tiled (rowOf _ row (annotateDbcs _ _ _))
    rw [rowOf_annotateDbcs]
    exact annotateDbcs_tiled (length_rowOf_le _ row)
  refine ⟨annotateDbcs_length, tiled, fun row col => (tiled row).after_lead,
    fun row col => (tiled row).before_tail, rowOf_annotateDbcs, ?_⟩
  intro row col hrow hcol
  have inside : row * sys.console.cols + col < (sys.snapshot rs).cellKind.length := by
    change _ < (annotateDbcs _ _ _).length
    have := Nat.mul_le_mul_right sys.console.cols (show row + 1 ≤ sys.console.rows from hrow)
    rw [Nat.succ_mul] at this
    rw [annotateDbcs_length, whole]
    omega
  have there := List.getElem?_eq_getElem inside
  refine ⟨_, there, ?_⟩
  have here := @getElem?_rowOf sys.console.cols _ (sys.snapshot rs).cellKind row col hcol
  rw [there] at here
  have same : rowOf sys.console.cols row (sys.snapshot rs).cellKind =
    annotateDbcs (rowOf sys.console.cols row sys.console.rawBytes) sys.annotationCp
      sys.console.cols := rowOf_annotateDbcs row
  rw [same] at here
  unfold System.vioCheckCharType
  rw [if_neg (Nat.not_le.mpr hrow), if_neg (Nat.not_le.mpr hcol)]
  change Except.ok (((annotateDbcs (rowOf _ _ _) _ _)[col]?).getD .sbcs) = _
  rw [here]
  rfl

/-- A lead byte in the last column of the first row stays alone. -/
theorem snapshot_annotated_edge :
    let vio := { VioManager.new (some (2, 3)) with
      rawBytes := [0x41, 0x42, 0x82, 0x82, 0xA0, 0x43], codepage := 932 }
    AnnotatedByRows ⟨932, vio⟩
      [.sbcs, .sbcs, .sbcs, .dbcsLead, .dbcsTail, .sbcs] :=
  snapshot_annotated ⟨fun _ _ => [], fun _ _ => []⟩
    ⟨932, { VioManager.new (some (2, 3)) with
      rawBytes := [0x41, 0x42, 0x82, 0x82, 0xA0, 0x43], codepage := 932 }⟩ rfl

end Warpine.Vio
