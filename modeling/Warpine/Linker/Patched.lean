import Mathlib.Data.List.Pairwise
import Warpine.Lib.Memory
import Warpine.Linker.Relocated

/-! The pages of the image: each absolute relocation has its word in them. -/
namespace Warpine.Linker
open Warpine.Lib ByteStore

/-- A buffer as bytes by address. -/
def asStore (buf : List UInt8) : ByteStore := fun i => (buf[i]?).getD 0

theorem asStore_load {buf : List UInt8} {off len : Nat} (h : off + len ≤ buf.length) :
    (asStore buf).load off len = (buf.drop off).take len := by
  apply List.ext_getElem
  · simp
    omega
  · intro i hi _
    rw [load_length] at hi
    simp [load, asStore, List.getElem?_eq_getElem (show off + i < buf.length by omega)]

theorem overwrite_length {buf bytes : List UInt8} {off : Nat}
    (h : off + bytes.length ≤ buf.length) : (overwrite buf off bytes).length = buf.length := by
  simp [overwrite]
  omega

theorem asStore_overwrite {buf bytes : List UInt8} {off : Nat}
    (h : off + bytes.length ≤ buf.length) :
    asStore (overwrite buf off bytes) = (asStore buf).store off bytes := by
  funext i
  have hfront : (buf.take off).length = off := by
    rw [List.length_take]
    omega
  unfold asStore overwrite store
  by_cases hlow : i < off
  · rw [if_neg (by omega), List.append_assoc, List.getElem?_append_left (by omega),
      List.getElem?_take_of_lt hlow]
  · rw [if_pos (by omega), List.append_assoc, List.getElem?_append_right (by omega), hfront]
    by_cases hhigh : i - off < bytes.length
    · rw [List.getElem?_append_left hhigh, List.getElem?_eq_getElem hhigh]
      rfl
    · rw [List.getElem?_append_right (by omega), List.getElem?_drop,
        List.getElem?_eq_none (l := bytes) (by omega),
        show off + bytes.length + (i - off - bytes.length) = i by omega]
      rfl

def patchWrites (patches : List (Nat × Nat)) : List (Nat × List UInt8) :=
  patches.map fun patch => (patch.1, leBytes 4 patch.2)

/-- Patches inside the buffer are all made. -/
theorem applyPatches_eq {buf : List UInt8} {patches : List (Nat × Nat)}
    (inside : ∀ patch ∈ patches, patch.1 + 4 ≤ buf.length) :
    (applyPatches buf patches).length = buf.length ∧
      asStore (applyPatches buf patches) = (asStore buf).storeAll (patchWrites patches) := by
  induction patches generalizing buf with
  | nil => exact ⟨rfl, rfl⟩
  | cons patch rest ih =>
    obtain ⟨hpatch, hrest⟩ := List.forall_mem_cons.mp inside
    have hroom : patch.1 + (leBytes 4 patch.2).length ≤ buf.length := by
      rw [leBytes_length]
      exact hpatch
    have hlength := overwrite_length hroom
    obtain ⟨hsame, hstore⟩ := @ih (overwrite buf patch.1 (leBytes 4 patch.2))
      (by rw [hlength]; exact hrest)
    unfold applyPatches at hsame hstore ⊢
    rw [List.foldl_cons, if_pos hpatch]
    refine ⟨hsame.trans hlength, ?_⟩
    rw [hstore, asStore_overwrite hroom]
    rfl

theorem padToPage_eq (data : List UInt8) : ∃ zeros, padToPage data = data ++ zeros := by
  unfold padToPage
  dsimp only
  split
  · unfold resize
    rw [List.take_of_length_le (by omega)]
    exact ⟨_, rfl⟩
  · exact ⟨[], (List.append_nil data).symm⟩

/-- The fields of two relocations in one merged section share no byte. -/
def FieldsApart (first second : PlacedReloc) : Prop :=
  first.isCode = second.isCode → Apart first.bufOff 4 second.bufOff 4

instance (first second : PlacedReloc) : Decidable (FieldsApart first second) := by
  unfold FieldsApart
  infer_instance

instance : Std.Symm FieldsApart where
  symm _ _ h same := (h same.symm).symm

def mergedData (state : LinkerState) (isCode : Bool) : List UInt8 :=
  if isCode then state.codeSection.data else state.dataSection.data

/-- Every relocation has its four bytes inside its section, and no two of them overlap. -/
structure RelocsFit (objects : List ElfObject) (state : LinkerState) : Prop where
  inside : ∀ placed ∈ placedRelocs objects state,
    placed.bufOff + 4 ≤ (mergedData state placed.isCode).length
  apart : (placedRelocs objects state).Pairwise FieldsApart

section Words

variable {objects : List ElfObject} {state : LinkerState} {defMap : DefMap}

/-- Relocations of the list are the same or apart. -/
theorem RelocsFit.same_or_apart (fit : RelocsFit objects state) {first second : PlacedReloc}
    (hfirst : first ∈ placedRelocs objects state) (hsecond : second ∈ placedRelocs objects state) :
    first = second ∨ FieldsApart first second := by
  by_cases hsame : first = second
  · exact Or.inl hsame
  · exact Or.inr (fit.apart.forall hfirst hsecond hsame)

/-- The value a relocation puts at its place. -/
def patchOf (objects : List ElfObject) (state : LinkerState) (defMap : DefMap)
    (placed : PlacedReloc) : Nat :=
  if placed.reloc.kind = .absolute then absoluteWord objects state defMap placed
  else relativeWord objects state defMap placed

theorem absolutePatch_eq_some {isCode : Bool} {placed : PlacedReloc} {patch : Nat × Nat} :
    absolutePatch objects state defMap isCode placed = some patch ↔
      (placed.isCode = isCode ∧ isLinked objects state defMap placed .absolute) ∧
        (placed.bufOff, absoluteWord objects state defMap placed) = patch := by
  rw [absolutePatch, Option.ite_none_right_eq_some, Bool.and_eq_true, beq_iff_eq,
    Option.some.injEq]

theorem relativePatch_eq_some {isCode : Bool} {placed : PlacedReloc} {patch : Nat × Nat} :
    relativePatch objects state defMap isCode placed = some patch ↔
      (placed.isCode = isCode ∧ isLinked objects state defMap placed .relative) ∧
        (placed.bufOff, relativeWord objects state defMap placed) = patch := by
  rw [relativePatch, Option.ite_none_right_eq_some, Bool.and_eq_true, beq_iff_eq,
    Option.some.injEq]

theorem isLinked_kind {placed : PlacedReloc} {kind : RelocationKind}
    (h : isLinked objects state defMap placed kind = true) : placed.reloc.kind = kind := by
  simp only [isLinked, Bool.and_eq_true, beq_iff_eq] at h
  exact h.1

/-- Each patch comes from a relocation, and puts its value at its place. -/
theorem patch_source {isCode : Bool} {placed : PlacedReloc} {patch : Nat × Nat}
    (h : absolutePatch objects state defMap isCode placed = some patch ∨
      relativePatch objects state defMap isCode placed = some patch) :
    placed.isCode = isCode ∧ patch = (placed.bufOff, patchOf objects state defMap placed) := by
  unfold patchOf
  rcases h with h | h
  · obtain ⟨⟨hcode, hlinked⟩, rfl⟩ := absolutePatch_eq_some.mp h
    rw [if_pos (isLinked_kind hlinked)]
    exact ⟨hcode, rfl⟩
  · obtain ⟨⟨hcode, hlinked⟩, rfl⟩ := relativePatch_eq_some.mp h
    rw [if_neg (by rw [isLinked_kind hlinked]; decide)]
    exact ⟨hcode, rfl⟩

/-- All patches of a section, in the order in which they are made. -/
def sectionPatches (objects : List ElfObject) (state : LinkerState) (defMap : DefMap) :
    Bool → List (Nat × Nat)
  | true => (placedRelocs objects state).filterMap (absolutePatch objects state defMap true) ++
      (placedRelocs objects state).filterMap (relativePatch objects state defMap true)
  | false => (placedRelocs objects state).filterMap fun placed =>
      (absolutePatch objects state defMap false placed).orElse fun _ =>
        relativePatch objects state defMap false placed

theorem mem_sectionPatches {isCode : Bool} {patch : Nat × Nat}
    (h : patch ∈ sectionPatches objects state defMap isCode) :
    ∃ placed ∈ placedRelocs objects state, placed.isCode = isCode ∧
      patch = (placed.bufOff, patchOf objects state defMap placed) := by
  cases isCode with
  | true =>
    rcases List.mem_append.mp h with h | h
    · obtain ⟨placed, hplaced, hpatch⟩ := List.mem_filterMap.mp h
      exact ⟨placed, hplaced, patch_source (Or.inl hpatch)⟩
    · obtain ⟨placed, hplaced, hpatch⟩ := List.mem_filterMap.mp h
      exact ⟨placed, hplaced, patch_source (Or.inr hpatch)⟩
  | false =>
    obtain ⟨placed, hplaced, hpatch⟩ := List.mem_filterMap.mp h
    refine ⟨placed, hplaced, patch_source ?_⟩
    cases habsolute : absolutePatch objects state defMap false placed with
    | some found =>
      rw [habsolute] at hpatch
      exact Or.inl hpatch
    | none =>
      rw [habsolute] at hpatch
      exact Or.inr hpatch

/-- The patched data of a section. -/
def patchedData (objects : List ElfObject) (state : LinkerState) (defMap : DefMap)
    (isCode : Bool) : List UInt8 :=
  if isCode then codeData objects state defMap else dataData objects state defMap

theorem patchedData_eq (isCode : Bool) :
    patchedData objects state defMap isCode =
      padToPage (applyPatches (mergedData state isCode)
        (sectionPatches objects state defMap isCode)) := by
  have htables := linkTables_spec objects state defMap
  cases isCode with
  | true =>
    simp only [patchedData, codeData, mergedData, sectionPatches, if_true, htables.codePatches,
      htables.codePatchesI32]
    unfold applyPatches
    rw [List.foldl_append]
  | false =>
    simp only [patchedData, dataData, mergedData, sectionPatches, Bool.false_eq_true, if_false,
      htables.dataPatches]

theorem applyPatches_length (buf : List UInt8) (patches : List (Nat × Nat)) :
    (applyPatches buf patches).length = buf.length := by
  induction patches generalizing buf with
  | nil => rfl
  | cons patch rest ih =>
    unfold applyPatches at ih ⊢
    rw [List.foldl_cons, ih]
    split
    · rename_i hroom
      exact overwrite_length (by rwa [leBytes_length])
    · rfl

/-- Patched data has the length of its section, up to the end of the last page. -/
theorem patchedData_bounds (isCode : Bool) :
    (mergedData state isCode).length ≤ (patchedData objects state defMap isCode).length ∧
      (patchedData objects state defMap isCode).length ≤
        (mergedData state isCode).length + pageSize := by
  have hlength := applyPatches_length (mergedData state isCode)
    (sectionPatches objects state defMap isCode)
  rw [patchedData_eq, padToPage]
  unfold pageSize at *
  split
  · rw [resize, List.length_append, List.length_take, List.length_replicate]
    omega
  · omega

/-- The patches of a section are inside it. -/
theorem RelocsFit.patches_inside (fit : RelocsFit objects state) {isCode : Bool} :
    ∀ patch ∈ sectionPatches objects state defMap isCode,
      patch.1 + 4 ≤ (mergedData state isCode).length := by
  intro patch hpatch
  obtain ⟨other, hother, hcode, rfl⟩ := mem_sectionPatches hpatch
  rw [← hcode]
  exact fit.inside other hother

/-- An absolute relocation with an address has its word in the section's data. -/
theorem patchedData_word (fit : RelocsFit objects state) {placed : PlacedReloc}
    (member : placed ∈ placedRelocs objects state)
    (linked : isLinked objects state defMap placed .absolute = true) :
    ((patchedData objects state defMap placed.isCode).drop placed.bufOff).take 4 =
      leBytes 4 (absoluteWord objects state defMap placed) := by
  have hinside := fit.inside placed member
  obtain ⟨hlength, hstore⟩ := applyPatches_eq
    (@RelocsFit.patches_inside _ _ defMap fit placed.isCode)
  obtain ⟨zeros, hpad⟩ := padToPage_eq (applyPatches (mergedData state placed.isCode)
    (sectionPatches objects state defMap placed.isCode))
  have hmade : (placed.bufOff, absoluteWord objects state defMap placed) ∈
      sectionPatches objects state defMap placed.isCode := by
    cases hcode : placed.isCode with
    | true =>
      exact List.mem_append_left _ (List.mem_filterMap.mpr
        ⟨placed, member, absolutePatch_eq_some.mpr ⟨⟨hcode, linked⟩, rfl⟩⟩)
    | false =>
      refine List.mem_filterMap.mpr ⟨placed, member, ?_⟩
      rw [absolutePatch_eq_some.mpr ⟨⟨hcode, linked⟩, rfl⟩]
      rfl
  have hapart : ∀ first ∈ patchWrites (sectionPatches objects state defMap placed.isCode),
      ∀ second ∈ patchWrites (sectionPatches objects state defMap placed.isCode),
        first = second ∨ WritesApart first second := by
    intro first hfirst second hsecond
    obtain ⟨patch, hpatch, rfl⟩ := List.mem_map.mp hfirst
    obtain ⟨other, hother, rfl⟩ := List.mem_map.mp hsecond
    obtain ⟨a, ha, hacode, rfl⟩ := mem_sectionPatches hpatch
    obtain ⟨b, hb, hbcode, rfl⟩ := mem_sectionPatches hother
    rcases fit.same_or_apart ha hb with rfl | hfields
    · exact Or.inl rfl
    · right
      unfold WritesApart
      rw [leBytes_length, leBytes_length]
      exact hfields (hacode.trans hbcode.symm)
  have hload := (asStore (mergedData state placed.isCode)).load_storeAll_of_same hapart
    (List.mem_map_of_mem hmade)
  rw [leBytes_length, ← hstore, asStore_load (by rw [hlength]; exact hinside)] at hload
  rw [patchedData_eq, hpad, List.drop_append_of_le_length (by omega),
    List.take_append_of_le_length (by rw [List.length_drop]; omega)]
  exact hload

end Words
end Warpine.Linker
