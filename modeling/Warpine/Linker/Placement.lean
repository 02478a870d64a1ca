import Warpine.Lib.Layout
import Warpine.Linker.ElfReader
import Warpine.Linker.Patched
import Warpine.Linker.RoundTrip

/-! Where the linker places the sections and the symbols of its objects. -/
namespace Warpine.Linker
open Warpine.Lib

/-- A section with the numbers of its object and of itself. -/
abbrev Entry := Nat × Nat × ElfSection

def Entry.key (entry : Entry) : Nat × Nat := (entry.1, entry.2.1)

def Entry.item (entry : Entry) : Item := ⟨entry.2.2.data.length, entry.2.2.align⟩

def isText (entry : Entry) : Bool := entry.2.2.kind == .text

def isInitialised (entry : Entry) : Bool :=
  entry.2.2.kind == .data || entry.2.2.kind == .readOnlyData || entry.2.2.kind == .readOnlyString

/-- The sections in the code, or in the data, each with its offset. -/
def offsets (isKept : Entry → Bool) (objects : List ElfObject) : List (Entry × Nat) :=
  let entries := (numbered objects).filter isKept
  entries.zip (layout 0 (entries.map Entry.item))

def mergedEnd (isKept : Entry → Bool) (objects : List ElfObject) : Nat :=
  layoutEnd 0 (((numbered objects).filter isKept).map Entry.item)

/-- Alignments are powers of two, and the sections fit the windows. -/
structure Layable (objects : List ElfObject) : Prop where
  aligns : ∀ entry ∈ numbered objects, entry.2.2.kind ≠ .other →
    ∃ k < 32, entry.2.2.align = 2 ^ k
  code : mergedEnd isText objects ≤ dataObjectBase - codeObjectBase
  data : mergedEnd isInitialised objects ≤ stackObjectBase - dataObjectBase

section Merge

theorem alignUp_eq {val k : Nat} (hk : k < 32) (small : roundUp (2 ^ k) val < u32Size) :
    alignUp val (2 ^ k % u32Size) = roundUp (2 ^ k) val := by
  have hpos : 0 < 2 ^ k := Nat.two_pow_pos k
  have hlt : 2 ^ k < u32Size := Nat.pow_lt_pow_right (by decide) hk
  rw [Nat.mod_eq_of_lt hlt]
  unfold alignUp
  split
  · have hone : 2 ^ k = 1 := by omega
    rw [hone]
    simp [roundUp]
  · have hsum : val + (2 ^ k - 1) < u32Size := by
      have hmultiple : roundUp (2 ^ k) val + 2 ^ k ≤ u32Size := by
        have hsplit : u32Size = 2 ^ (32 - k) * 2 ^ k := by
          rw [← Nat.pow_add, Nat.sub_add_cancel (Nat.le_of_lt hk)]
          rfl
        unfold roundUp at small ⊢
        rw [hsplit] at small ⊢
        have hquotient := Nat.lt_of_mul_lt_mul_right small
        rw [← Nat.succ_mul]
        exact Nat.mul_le_mul_right _ hquotient
      have hdiv := Nat.div_add_mod (val + (2 ^ k - 1)) (2 ^ k)
      have hmod := Nat.mod_lt (val + (2 ^ k - 1)) hpos
      unfold roundUp at hmultiple
      rw [Nat.mul_comm] at hdiv
      omega
    rw [wrapAdd_of_lt hsum]
    exact and_high_bits hsum (Nat.le_of_lt hk)

/-- The offsets of the sections of a list, where the merged data ends at `start`. -/
def inputEntries (start : Nat) (entries : List Entry) : List InputEntry :=
  (entries.zip (layout start (entries.map Entry.item))).map fun placed =>
    ⟨placed.1.1, placed.1.2.1, placed.2⟩

theorem appendSection_length {merged : MergedSection} {entry : Entry} {k : Nat} (hk : k < 32)
    (align : entry.2.2.align = 2 ^ k)
    (fits : roundUp entry.2.2.align merged.data.length + entry.2.2.data.length < u32Size) :
    let next := appendSection merged entry.1 entry.2.1 entry.2.2
    next.data.length = roundUp entry.2.2.align merged.data.length + entry.2.2.data.length ∧
      next.inputMap = merged.inputMap ++
        [⟨entry.1, entry.2.1, roundUp entry.2.2.align merged.data.length⟩] := by
  have hround := le_roundUp merged.data.length (Nat.two_pow_pos k)
  rw [align] at fits ⊢
  have hlength : merged.data.length % u32Size = merged.data.length := Nat.mod_eq_of_lt (by omega)
  have haligned := @alignUp_eq merged.data.length k hk (by omega)
  unfold appendSection
  dsimp only
  rw [align, hlength, haligned]
  refine ⟨?_, rfl⟩
  rw [List.length_append, resize, List.length_append, List.length_take, List.length_replicate]
  omega

/-- A step of the merge appends the sections it keeps, and for all others leaves
what is merged. -/
structure Merges (isKept : Entry → Bool) (step : MergedSection → Entry → MergedSection) : Prop where
  kept : ∀ merged entry, isKept entry = true →
    step merged entry = appendSection merged entry.1 entry.2.1 entry.2.2
  left : ∀ merged entry, isKept entry = false → (step merged entry).data = merged.data ∧
    (step merged entry).va = merged.va ∧ (step merged entry).inputMap = merged.inputMap

theorem items_positive {entries : List Entry}
    (aligns : ∀ entry ∈ entries, ∃ k < 32, entry.2.2.align = 2 ^ k) :
    ∀ item ∈ entries.map Entry.item, 0 < item.align := by
  intro item hitem
  obtain ⟨entry, hentry, rfl⟩ := List.mem_map.mp hitem
  obtain ⟨k, _, hk⟩ := aligns entry hentry
  rw [Entry.item, hk]
  exact Nat.two_pow_pos k

theorem foldl_merges {isKept : Entry → Bool} {step : MergedSection → Entry → MergedSection}
    (merges : Merges isKept step) {entries : List Entry} {merged : MergedSection}
    (aligns : ∀ entry ∈ entries.filter isKept, ∃ k < 32, entry.2.2.align = 2 ^ k)
    (fits : layoutEnd merged.data.length ((entries.filter isKept).map Entry.item) < u32Size) :
    let final := entries.foldl step merged
    final.va = merged.va ∧
      final.data.length =
        layoutEnd merged.data.length ((entries.filter isKept).map Entry.item) ∧
      final.inputMap = merged.inputMap ++
        inputEntries merged.data.length (entries.filter isKept) := by
  induction entries generalizing merged with
  | nil => exact ⟨rfl, rfl, (List.append_nil _).symm⟩
  | cons entry rest ih =>
    dsimp only
    rw [List.foldl_cons]
    cases hkept : isKept entry with
    | false =>
      rw [List.filter_cons_of_neg (by simp [hkept])] at aligns fits ⊢
      obtain ⟨hdata, hva, hmap⟩ := merges.left merged entry hkept
      rw [← hdata] at fits ⊢
      rw [← hva, ← hmap]
      exact ih aligns fits
    | true =>
      rw [List.filter_cons_of_pos hkept] at aligns fits ⊢
      obtain ⟨⟨k, hk, halign⟩, hrest⟩ := List.forall_mem_cons.mp aligns
      rw [List.map_cons, layoutEnd] at fits
      have hle := @le_layoutEnd (roundUp entry.item.align merged.data.length + entry.item.size)
        _ (items_positive hrest)
      obtain ⟨hlength, hmap⟩ := @appendSection_length merged entry k hk halign
        (Nat.lt_of_le_of_lt hle fits)
      rw [merges.kept merged entry hkept]
      have hnext := @ih (appendSection merged entry.1 entry.2.1 entry.2.2) hrest
        (by rw [hlength]; exact fits)
      obtain ⟨hva, hend, hinput⟩ := hnext
      rw [hlength] at hend hinput
      refine ⟨hva, hend, ?_⟩
      rw [hinput, hmap, List.append_assoc]
      rfl

theorem merges_code : Merges isText LinkerState.mergeCode where
  kept := by
    intro merged entry hkept
    have hkind : entry.2.2.kind = .text := by simpa [isText] using hkept
    simp [LinkerState.mergeCode, hkind]
  left := by
    intro merged entry hkept
    unfold LinkerState.mergeCode
    split
    · simp_all [isText]
    · exact ⟨rfl, rfl, rfl⟩

theorem merges_data : Merges isInitialised LinkerState.mergeData where
  kept := by
    intro merged entry hkept
    unfold LinkerState.mergeData
    split <;> simp_all [isInitialised]
  left := by
    intro merged entry hkept
    unfold LinkerState.mergeData
    split
    · simp_all [isInitialised]
    · simp_all [isInitialised]
    · simp_all [isInitialised]
    · exact ⟨rfl, rfl, rfl⟩
    · exact ⟨rfl, rfl, rfl⟩

end Merge

section Places

variable {objects : List ElfObject}

/-- An entry is the section at its numbers. -/
theorem mem_numbered {entry : Entry} :
    entry ∈ numbered objects ↔
      (objects[entry.1]?).bind (·.sections[entry.2.1]?) = some entry.2.2 := by
  obtain ⟨objIdx, secIdx, sec⟩ := entry
  unfold numbered
  rw [List.mem_flatMap]
  constructor
  · intro ⟨⟨obj, i⟩, hobj, hentry⟩
    obtain ⟨⟨found, j⟩, hsec, hsame⟩ := List.mem_map.mp hentry
    cases hsame
    rw [List.mem_zipIdx_iff_getElem?] at hobj hsec
    rw [hobj]
    exact hsec
  · intro h
    obtain ⟨obj, hobj, hsec⟩ := Option.bind_eq_some_iff.mp h
    exact ⟨(obj, objIdx), List.mem_zipIdx_iff_getElem?.mpr hobj,
      List.mem_map.mpr ⟨(sec, secIdx), List.mem_zipIdx_iff_getElem?.mpr hsec, rfl⟩⟩

theorem numbered_inj {first second : Entry} (hfirst : first ∈ numbered objects)
    (hsecond : second ∈ numbered objects) (same : first.key = second.key) : first = second := by
  obtain ⟨i, j, sec⟩ := first
  obtain ⟨i', j', sec'⟩ := second
  cases same
  rw [mem_numbered] at hfirst hsecond
  cases hfirst.symm.trans hsecond
  rfl

theorem numbered_keys (objects : List ElfObject) : ((numbered objects).map Entry.key).Nodup := by
  have hindices {α : Type} (list : List α) :
      list.zipIdx.Pairwise fun first second => first.2 ≠ second.2 := by
    rw [← List.pairwise_map (f := Prod.snd) (R := (· ≠ ·)), List.zipIdx_map_snd]
    exact List.nodup_range'
  unfold numbered
  rw [List.Nodup, List.pairwise_map, List.pairwise_flatMap]
  refine ⟨fun obj _ => ?_, ?_⟩
  · rw [List.pairwise_map]
    apply (hindices obj.1.sections).imp
    intro first second hne hsame
    exact hne (Prod.mk.inj hsame).2
  · apply (hindices objects).imp
    intro first second hne x hx y hy hsame
    obtain ⟨_, _, rfl⟩ := List.mem_map.mp hx
    obtain ⟨_, _, rfl⟩ := List.mem_map.mp hy
    exact hne (Prod.mk.inj hsame).1

theorem offsets_keys (isKept : Entry → Bool) (objects : List ElfObject) :
    ((offsets isKept objects).map fun placed => placed.1.key).Nodup := by
  have hfst : (offsets isKept objects).map Prod.fst = (numbered objects).filter isKept :=
    List.map_fst_zip (by rw [layout_length, List.length_map])
  rw [← Function.comp_def, ← List.map_map, hfst]
  exact (numbered_keys objects).sublist (List.filter_sublist.map _)

theorem isText_kind {entry : Entry} (h : isText entry = true) : entry.2.2.kind = .text := by
  simpa [isText] using h

theorem isInitialised_kind {entry : Entry} (h : isInitialised entry = true) :
    entry.2.2.kind ≠ .other ∧ entry.2.2.kind ≠ .text ∧
      entry.2.2.kind ≠ .uninitializedData := by
  simp only [isInitialised, Bool.or_eq_true, beq_iff_eq] at h
  rcases h with (h | h) | h <;> simp [h]

theorem Layable.aligns_of (layable : Layable objects) {isKept : Entry → Bool}
    (kinds : ∀ entry, isKept entry = true → entry.2.2.kind ≠ .other) :
    ∀ entry ∈ (numbered objects).filter isKept, ∃ k < 32, entry.2.2.align = 2 ^ k := by
  intro entry hentry
  obtain ⟨hmember, hkept⟩ := List.mem_filter.mp hentry
  exact layable.aligns entry hmember (kinds entry hkept)

theorem Layable.text_aligns (layable : Layable objects) :
    ∀ entry ∈ (numbered objects).filter isText, ∃ k < 32, entry.2.2.align = 2 ^ k := by
  apply layable.aligns_of
  intro entry h
  rw [isText_kind h]
  decide

theorem Layable.initialised_aligns (layable : Layable objects) :
    ∀ entry ∈ (numbered objects).filter isInitialised, ∃ k < 32, entry.2.2.align = 2 ^ k :=
  layable.aligns_of fun _ h => (isInitialised_kind h).1

/-- The code and the data as the merge leaves them. -/
theorem merged_sections (layable : Layable objects) {state : LinkerState}
    (built : LinkerState.build objects = some state) :
    (state.codeSection.va = codeObjectBase ∧
        state.codeSection.data.length = mergedEnd isText objects ∧
        state.codeSection.inputMap = inputEntries 0 ((numbered objects).filter isText)) ∧
      state.dataSection.va = dataObjectBase ∧
        state.dataSection.data.length = mergedEnd isInitialised objects ∧
        state.dataSection.inputMap = inputEntries 0 ((numbered objects).filter isInitialised) := by
  obtain ⟨hcode, hdata, _⟩ := LinkerState.build_eq_some built
  rw [hcode, hdata]
  constructor
  · exact foldl_merges merges_code layable.text_aligns
      (Nat.lt_of_le_of_lt layable.code (by decide))
  · exact foldl_merges merges_data layable.initialised_aligns
      (Nat.lt_of_le_of_lt layable.data (by decide))

/-- The sections of the image with their addresses. -/
def placements (objects : List ElfObject) : List (Entry × Nat) :=
  (offsets isText objects).map (fun placed => (placed.1, codeObjectBase + placed.2)) ++
    (offsets isInitialised objects).map fun placed => (placed.1, dataObjectBase + placed.2)

theorem offsets_kept {isKept : Entry → Bool} {placed : Entry × Nat}
    (h : placed ∈ offsets isKept objects) :
    placed.1 ∈ numbered objects ∧ isKept placed.1 = true :=
  List.mem_filter.mp (List.of_mem_zip h).1

/-- Each section has its alignment relative to the merged one, and lies inside it. -/
theorem mem_offsets {isKept : Entry → Bool}
    (aligns : ∀ entry ∈ (numbered objects).filter isKept, ∃ k < 32, entry.2.2.align = 2 ^ k)
    {placed : Entry × Nat} (h : placed ∈ offsets isKept objects) :
    placed.2 % placed.1.2.2.align = 0 ∧
      placed.2 + placed.1.2.2.data.length ≤ mergedEnd isKept objects := by
  have hitem : (placed.1.item, placed.2) ∈
      (((numbered objects).filter isKept).map Entry.item).zip
        (layout 0 (((numbered objects).filter isKept).map Entry.item)) := by
    rw [List.zip_map_left]
    exact List.mem_map.mpr ⟨placed, h, rfl⟩
  exact (mem_layout (items_positive aligns) hitem).2

/-- A section is found at its offset. -/
theorem findMergedVa_eq_some {isKept : Entry → Bool} {merged : MergedSection}
    (map : merged.inputMap = inputEntries 0 ((numbered objects).filter isKept))
    (aligns : ∀ entry ∈ (numbered objects).filter isKept, ∃ k < 32, entry.2.2.align = 2 ^ k)
    (fits : merged.va + mergedEnd isKept objects < u32Size) {objIdx secIdx va : Nat} :
    findMergedVa merged objIdx secIdx = some va ↔
      ∃ placed ∈ offsets isKept objects, placed.1.key = (objIdx, secIdx) ∧
        va = merged.va + placed.2 := by
  have hkey : ∀ placed : Entry × Nat,
      (placed.1.1 == objIdx && placed.1.2.1 == secIdx) = true ↔
      placed.1.key = (objIdx, secIdx) := by
    intro placed
    simp [Entry.key, Prod.ext_iff]
  have hsum : ∀ placed ∈ offsets isKept objects,
      wrapAdd merged.va placed.2 = merged.va + placed.2 := by
    intro placed hplaced
    have hend := (mem_offsets aligns hplaced).2
    exact wrapAdd_of_lt (by omega)
  unfold findMergedVa
  rw [map]
  change ((List.map _ (offsets isKept objects)).find? _).map _ = some va ↔ _
  rw [List.find?_map, Option.map_map, Option.map_eq_some_iff]
  constructor
  · intro ⟨placed, hfound, hva⟩
    obtain ⟨hmember, hsame⟩ := (find?_key_eq_some (offsets_keys isKept objects) hkey).mp hfound
    exact ⟨placed, hmember, hsame, hva.symm.trans (hsum placed hmember)⟩
  · intro ⟨placed, hplaced, hsame, hva⟩
    exact ⟨placed, (find?_key_eq_some (offsets_keys isKept objects) hkey).mpr ⟨hplaced, hsame⟩,
      (hsum placed hplaced).trans hva.symm⟩

theorem codeVaFor_eq_some (layable : Layable objects) {state : LinkerState}
    (built : LinkerState.build objects = some state) {objIdx secIdx va : Nat} :
    state.codeVaFor objIdx secIdx = some va ↔
      ∃ placed ∈ offsets isText objects, placed.1.key = (objIdx, secIdx) ∧
        va = codeObjectBase + placed.2 := by
  obtain ⟨⟨hva, _, hmap⟩, _⟩ := merged_sections layable built
  rw [← hva]
  apply findMergedVa_eq_some hmap layable.text_aligns
  rw [hva]
  exact Nat.lt_of_le_of_lt (Nat.add_le_add_left layable.code _) (by decide)

theorem dataVaFor_eq_some (layable : Layable objects) {state : LinkerState}
    (built : LinkerState.build objects = some state) {objIdx secIdx va : Nat} :
    state.dataVaFor objIdx secIdx = some va ↔
      ∃ placed ∈ offsets isInitialised objects, placed.1.key = (objIdx, secIdx) ∧
        va = dataObjectBase + placed.2 := by
  obtain ⟨_, hva, _, hmap⟩ := merged_sections layable built
  rw [← hva]
  apply findMergedVa_eq_some hmap layable.initialised_aligns
  rw [hva]
  exact Nat.lt_of_le_of_lt (Nat.add_le_add_left layable.data _) (by decide)

/-- A section is in the code or in the data, as its kind says. -/
theorem sectionVa_eq (layable : Layable objects) {state : LinkerState}
    (built : LinkerState.build objects = some state) {entry : Entry}
    (member : entry ∈ numbered objects) :
    state.sectionVa entry.1 entry.2.1 =
      if isText entry then state.codeVaFor entry.1 entry.2.1
      else state.dataVaFor entry.1 entry.2.1 := by
  unfold LinkerState.sectionVa
  split
  · rename_i htext
    cases hcode : state.codeVaFor entry.1 entry.2.1 with
    | some va => rfl
    | none =>
      cases hdata : state.dataVaFor entry.1 entry.2.1 with
      | none => rfl
      | some va =>
        obtain ⟨placed, hplaced, hkey, _⟩ := (dataVaFor_eq_some layable built).mp hdata
        obtain ⟨hmember, hinit⟩ := offsets_kept hplaced
        rw [numbered_inj hmember member hkey] at hinit
        exact absurd (isText_kind htext) (isInitialised_kind hinit).2.1
  · rename_i htext
    cases hcode : state.codeVaFor entry.1 entry.2.1 with
    | none => rfl
    | some va =>
      obtain ⟨placed, hplaced, hkey, _⟩ := (codeVaFor_eq_some layable built).mp hcode
      obtain ⟨hmember, hother⟩ := offsets_kept hplaced
      rw [numbered_inj hmember member hkey] at hother
      exact absurd hother htext

theorem sectionVa_eq_some (layable : Layable objects) {state : LinkerState}
    (built : LinkerState.build objects = some state) {entry : Entry}
    (member : entry ∈ numbered objects) {va : Nat} :
    state.sectionVa entry.1 entry.2.1 = some va ↔ (entry, va) ∈ placements objects := by
  have hsame {isKept : Entry → Bool} {base : Nat} :
      (∃ placed ∈ offsets isKept objects, placed.1.key = (entry.1, entry.2.1) ∧
        va = base + placed.2) ↔
      (entry, va) ∈ (offsets isKept objects).map fun placed => (placed.1, base + placed.2) := by
    rw [List.mem_map]
    constructor
    · intro ⟨placed, hplaced, hkey, hva⟩
      rw [← numbered_inj (offsets_kept hplaced).1 member hkey, hva]
      exact ⟨placed, hplaced, rfl⟩
    · intro ⟨placed, hplaced, hpair⟩
      cases hpair
      exact ⟨placed, hplaced, rfl, rfl⟩
  have hkind {isKept : Entry → Bool} {base : Nat}
      (h : (entry, va) ∈ (offsets isKept objects).map fun placed => (placed.1, base + placed.2)) :
      isKept entry = true := by
    obtain ⟨placed, hplaced, hpair⟩ := List.mem_map.mp h
    cases hpair
    exact (offsets_kept hplaced).2
  rw [sectionVa_eq layable built member, placements, List.mem_append]
  split
  · rename_i htext
    rw [codeVaFor_eq_some layable built, hsame]
    exact ⟨Or.inl, fun h => h.resolve_right fun hdata =>
      (isInitialised_kind (hkind hdata)).2.1 (isText_kind htext)⟩
  · rename_i htext
    rw [dataVaFor_eq_some layable built, hsame]
    exact ⟨Or.inr, fun h => h.resolve_left fun hcode => htext (hkind hcode)⟩

def objectBase (entry : Entry) : Nat := if isText entry then codeObjectBase else dataObjectBase

theorem placements_apart (layable : Layable objects) :
    (placements objects).Pairwise fun first second =>
      Apart first.2 first.1.2.2.data.length second.2 second.1.2.2.data.length := by
  have hpairwise {isKept : Entry → Bool}
      (aligns : ∀ entry ∈ (numbered objects).filter isKept, ∃ k < 32, entry.2.2.align = 2 ^ k) :
      (offsets isKept objects).Pairwise fun first second =>
        first.2 + first.1.2.2.data.length ≤ second.2 := by
    have hitems := @layout_pairwise 0 _ (items_positive aligns)
    rw [List.zip_map_left, List.pairwise_map] at hitems
    exact hitems
  unfold placements
  rw [List.pairwise_append, List.pairwise_map, List.pairwise_map]
  refine ⟨(hpairwise layable.text_aligns).imp ?_, (hpairwise layable.initialised_aligns).imp ?_, ?_⟩
  · intro first second h
    left
    dsimp only
    omega
  · intro first second h
    left
    dsimp only
    omega
  · intro first hfirst second hsecond
    obtain ⟨code, hcode, rfl⟩ := List.mem_map.mp hfirst
    obtain ⟨data, _, rfl⟩ := List.mem_map.mp hsecond
    have hend := (mem_offsets layable.text_aligns hcode).2
    have hwindow := layable.code
    left
    dsimp only
    unfold codeObjectBase dataObjectBase at *
    omega

/-- A section of the image: it has the alignment its object's base gives it, and lies
in the merged section. -/
theorem mem_placements (layable : Layable objects) {placed : Entry × Nat}
    (h : placed ∈ placements objects) :
    placed.1 ∈ numbered objects ∧
      (placed.1.2.2.kind ≠ .other ∧ placed.1.2.2.kind ≠ .uninitializedData) ∧
      (placed.2 % placed.1.2.2.align = 0 ↔ objectBase placed.1 % placed.1.2.2.align = 0) ∧
      objectBase placed.1 ≤ placed.2 ∧
      placed.2 + placed.1.2.2.data.length ≤ objectBase placed.1 +
        mergedEnd (if isText placed.1 then isText else isInitialised) objects := by
  have hmod {base off align : Nat} (zero : off % align = 0) :
      (base + off) % align = 0 ↔ base % align = 0 := by
    rw [Nat.add_mod, zero, Nat.add_zero, Nat.mod_mod]
  unfold placements at h
  rcases List.mem_append.mp h with h | h
  · obtain ⟨code, hcode, rfl⟩ := List.mem_map.mp h
    obtain ⟨hmember, htext⟩ := offsets_kept hcode
    obtain ⟨halign, hend⟩ := mem_offsets layable.text_aligns hcode
    have hkind := isText_kind htext
    unfold objectBase
    dsimp only
    rw [if_pos htext, if_pos htext]
    exact ⟨hmember, by simp [hkind], hmod halign, Nat.le_add_right _ _, by omega⟩
  · obtain ⟨data, hdata, rfl⟩ := List.mem_map.mp h
    obtain ⟨hmember, hinit⟩ := offsets_kept hdata
    obtain ⟨halign, hend⟩ := mem_offsets layable.initialised_aligns hdata
    obtain ⟨hother, htext, hbss⟩ := isInitialised_kind hinit
    have hnot : ¬ isText data.1 = true := fun h => htext (isText_kind h)
    unfold objectBase
    dsimp only
    rw [if_neg hnot, if_neg hnot]
    exact ⟨hmember, ⟨hother, hbss⟩, hmod halign, Nat.le_add_right _ _, by omega⟩

theorem exists_placement {entry : Entry} (h : entry ∈ numbered objects)
    (kept : entry.2.2.kind ≠ .other) (initialised : entry.2.2.kind ≠ .uninitializedData) :
    ∃ va, (entry, va) ∈ placements objects := by
  have hoffset {isKept : Entry → Bool} (hkept : isKept entry = true) :
      ∃ off, (entry, off) ∈ offsets isKept objects := by
    have hfst : (offsets isKept objects).map Prod.fst = (numbered objects).filter isKept :=
      List.map_fst_zip (by rw [layout_length, List.length_map])
    have hmember : entry ∈ (offsets isKept objects).map Prod.fst := by
      rw [hfst]
      exact List.mem_filter.mpr ⟨h, hkept⟩
    obtain ⟨⟨_, off⟩, hplaced, rfl⟩ := List.mem_map.mp hmember
    exact ⟨off, hplaced⟩
  unfold placements
  by_cases htext : isText entry = true
  · obtain ⟨off, hoff⟩ := hoffset htext
    exact ⟨_, List.mem_append_left _ (List.mem_map.mpr ⟨_, hoff, rfl⟩)⟩
  · have hinit : isInitialised entry = true := by
      unfold isText at htext
      unfold isInitialised
      cases hkind : entry.2.2.kind <;> simp_all
    obtain ⟨off, hoff⟩ := hoffset hinit
    exact ⟨_, List.mem_append_right _ (List.mem_map.mpr ⟨_, hoff, rfl⟩)⟩

end Places
/-- All symbols in order, each with its object and the object's number. -/
def allSymbols (objects : List ElfObject) : List (Nat × ElfObject × ElfSymbol) :=
  objects.zipIdx.flatMap fun obj => obj.1.symbols.map fun sym => (obj.2, obj.1, sym)

section Symbols

variable {objects : List ElfObject} {state : LinkerState}

/-- The address that `build` computes for a symbol. -/
def symbolVa (state : LinkerState) (entry : Nat × ElfObject × ElfSymbol) : Option Nat :=
  entry.2.2.sectionIdx.bind fun secIdx => (entry.2.1.sections[secIdx]?).bind fun sec =>
    (findMergedVa (if sec.kind = .text then state.codeSection else state.dataSection)
      entry.1 secIdx).map fun va => wrapAdd va (entry.2.2.offset % u32Size)

theorem insertSymbol_eq {entry : Nat × ElfObject × ElfSymbol} {table next : Table String Nat}
    (h : LinkerState.insertSymbol state.codeSection state.dataSection entry.1 entry.2.1 table
      entry.2.2 = some next) :
    next = match symbolVa state entry with
      | some va => table.insert entry.2.2.name va
      | none => table := by
  obtain ⟨objIdx, obj, sym⟩ := entry
  unfold LinkerState.insertSymbol at h
  unfold symbolVa
  dsimp only at h ⊢
  cases hidx : sym.sectionIdx with
  | none =>
    rw [hidx] at h
    cases h
    rfl
  | some secIdx =>
    rw [hidx] at h
    obtain ⟨sec, hsec, rfl⟩ := Option.map_eq_some_iff.mp h
    rw [Option.bind_some, hsec, Option.bind_some]
    cases findMergedVa (if sec.kind = .text then state.codeSection else state.dataSection)
      objIdx secIdx <;> rfl

theorem symbolTable_fold {list : List (Nat × ElfObject × ElfSymbol)} {table : Table String Nat}
    (h : list.foldlM (fun table entry =>
      LinkerState.insertSymbol state.codeSection state.dataSection entry.1 entry.2.1 table
        entry.2.2) .empty = some table) (name : String) :
    table name = (list.filterMap fun entry =>
      if entry.2.2.name = name then symbolVa state entry else none).getLast? := by
  induction list using List.reverseRecOn generalizing table with
  | nil =>
    cases h
    rfl
  | append_singleton list entry ih =>
    rw [List.foldlM_append] at h
    obtain ⟨middle, hmiddle, hlast⟩ := Option.bind_eq_some_iff.mp h
    rw [List.foldlM_cons] at hlast
    obtain ⟨next, hnext, hlast⟩ := Option.bind_eq_some_iff.mp hlast
    cases hlast
    rw [insertSymbol_eq hnext, List.filterMap_append, filterMap_singleton]
    have hbefore := ih hmiddle
    cases hva : symbolVa state entry with
    | none => simpa using hbefore
    | some va =>
      by_cases hname : entry.2.2.name = name
      · simp [hname, Table.insert_self]
      · simpa [hname, Table.insert_ne _ _ (Ne.symm hname)] using hbefore

/-- The last symbol of a name counts. -/
theorem symbolTable_eq (built : LinkerState.build objects = some state) (name : String) :
    state.symbolTable name = ((allSymbols objects).filterMap fun entry =>
      if entry.2.2.name = name then symbolVa state entry else none).getLast? := by
  apply symbolTable_fold
  rw [allSymbols, foldlM_flatMap, ← (LinkerState.build_eq_some built).2.2]
  congr 1
  funext table obj
  rw [List.foldlM_map]

/-- A symbol lies at its offset in its section. -/
theorem symbolVa_eq (layable : Layable objects) (built : LinkerState.build objects = some state)
    {entry : Nat × ElfObject × ElfSymbol} (member : entry ∈ allSymbols objects) {secIdx : Nat}
    {sec : ElfSection} (index : entry.2.2.sectionIdx = some secIdx)
    (found : entry.2.1.sections[secIdx]? = some sec) :
    (entry.1, secIdx, sec) ∈ numbered objects ∧
      symbolVa state entry = (state.sectionVa entry.1 secIdx).map fun va =>
        wrapAdd va (entry.2.2.offset % u32Size) := by
  obtain ⟨objIdx, obj, sym⟩ := entry
  dsimp only at index found
  have hobj : objects[objIdx]? = some obj := by
    obtain ⟨pair, hpair, hsym⟩ := List.mem_flatMap.mp member
    obtain ⟨_, _, hsame⟩ := List.mem_map.mp hsym
    cases hsame
    exact List.mem_zipIdx_iff_getElem?.mp hpair
  have hentry : (objIdx, secIdx, sec) ∈ numbered objects := by
    rw [mem_numbered, hobj]
    exact found
  refine ⟨hentry, ?_⟩
  have hva := sectionVa_eq layable built hentry
  unfold symbolVa
  dsimp only at hva ⊢
  rw [index, Option.bind_some, found, Option.bind_some, hva]
  unfold isText
  by_cases hkind : sec.kind = .text
  · simp only [hkind, if_true, beq_self_eq_true]
    rfl
  · simp only [hkind, if_false, beq_eq_false_iff_ne.mpr hkind, Bool.false_eq_true]
    rfl

end Symbols

/-- The placement as a linker has to make it: every section that has bytes has a
place, every place is aligned and in the memory of its object, no two share an
address, and every symbol of a section that is kept has its address there. -/
structure Placed (objects : List ElfObject) (state : LinkerState) (defMap : DefMap) : Prop where
  sections : ∀ entry ∈ numbered objects, entry.2.2.kind ≠ .other → entry.2.2.data ≠ [] →
    ∃ base, state.sectionVa entry.1 entry.2.1 = some base
  bases : ∀ entry ∈ numbered objects, ∀ base, state.sectionVa entry.1 entry.2.1 = some base →
    base % entry.2.2.align = 0 ∧ objectBase entry ≤ base ∧
      base + entry.2.2.data.length ≤ objectBase entry +
        if isText entry then (linkedImage objects state defMap).codeSize
        else (linkedImage objects state defMap).dataSize
  apart : ∀ first ∈ numbered objects, ∀ second ∈ numbered objects,
      (first.1, first.2.1) ≠ (second.1, second.2.1) → ∀ base other,
        state.sectionVa first.1 first.2.1 = some base →
          state.sectionVa second.1 second.2.1 = some other →
            Apart base first.2.2.data.length other second.2.2.data.length
  symbols : ∀ entry ∈ allSymbols objects, ∀ secIdx sec, entry.2.2.sectionIdx = some secIdx →
    entry.2.1.sections[secIdx]? = some sec → sec.kind ≠ .other →
      ∃ base, state.sectionVa entry.1 secIdx = some base ∧
        state.symbolTable entry.2.2.name = some (wrapAdd base (entry.2.2.offset % u32Size))

/-- Uninitialised data has no bytes and no symbols, alignments divide the bases of
the objects, and symbols of one name have one address. -/
structure Plain (objects : List ElfObject) (state : LinkerState) : Prop where
  noBss : ∀ entry ∈ numbered objects, entry.2.2.kind = .uninitializedData → entry.2.2.data = []
  noBssSymbols : ∀ entry ∈ allSymbols objects, ∀ secIdx sec,
    entry.2.2.sectionIdx = some secIdx → entry.2.1.sections[secIdx]? = some sec →
      sec.kind ≠ .uninitializedData
  aligned : ∀ entry ∈ numbered objects, entry.2.2.kind ≠ .other →
    entry.2.2.kind ≠ .uninitializedData → objectBase entry % entry.2.2.align = 0
  names : ∀ first ∈ allSymbols objects, ∀ second ∈ allSymbols objects,
    first.2.2.name = second.2.2.name → ∀ va other, symbolVa state first = some va →
      symbolVa state second = some other → va = other

section Main

variable {objects : List ElfObject} {state : LinkerState} {defMap : DefMap}

/-- The sizes in the object table have room for the merged sections. -/
theorem sizes_ge (layable : Layable objects) (fits : state.Fits)
    (built : LinkerState.build objects = some state) (entry : Entry) :
    mergedEnd (if isText entry then isText else isInitialised) objects ≤
      if isText entry then (linkedImage objects state defMap).codeSize
      else (linkedImage objects state defMap).dataSize := by
  obtain ⟨⟨_, hcode, _⟩, _, hdata, _⟩ := merged_sections layable built
  have hpatched := @patchedData_bounds objects state defMap
  have hbss := LinkerState.build_code_bss built
  have hcodeWindow := fits.code
  have hdataWindow := fits.data
  obtain ⟨hcodeLow, hcodeHigh⟩ := hpatched true
  obtain ⟨hdataLow, hdataHigh⟩ := hpatched false
  simp only [patchedData, mergedData, if_true] at hcodeLow hcodeHigh
  simp only [patchedData, mergedData, Bool.false_eq_true, if_false] at hdataLow hdataHigh
  unfold codeObjectBase dataObjectBase at hcodeWindow
  unfold stackObjectBase stackSize dataObjectBase at hdataWindow
  unfold pageSize at hcodeHigh hdataHigh
  unfold Image.codeSize Image.dataSize linkedImage
  dsimp only
  rw [hbss]
  unfold wrapAdd u32Size
  split <;> omega

/-- A symbol with an address is one of a section in the image. -/
theorem symbolVa_some (layable : Layable objects) (built : LinkerState.build objects = some state)
    {entry : Nat × ElfObject × ElfSymbol} (member : entry ∈ allSymbols objects) {va : Nat}
    (h : symbolVa state entry = some va) :
    ∃ secIdx sec base, entry.2.2.sectionIdx = some secIdx ∧
      entry.2.1.sections[secIdx]? = some sec ∧ ((entry.1, secIdx, sec), base) ∈ placements objects ∧
        va = wrapAdd base (entry.2.2.offset % u32Size) := by
  have hbind := h
  unfold symbolVa at hbind
  obtain ⟨secIdx, hidx, hbind⟩ := Option.bind_eq_some_iff.mp hbind
  obtain ⟨sec, hsec, _⟩ := Option.bind_eq_some_iff.mp hbind
  obtain ⟨hmember, hva⟩ := symbolVa_eq layable built member hidx hsec
  rw [hva] at h
  obtain ⟨base, hbase, rfl⟩ := Option.map_eq_some_iff.mp h
  exact ⟨secIdx, sec, base, hidx, hsec, (sectionVa_eq_some layable built hmember).mp hbase, rfl⟩

theorem Plain.placed (layable : Layable objects) (fits : state.Fits)
    (built : LinkerState.build objects = some state) (plain : Plain objects state) :
    Placed objects state defMap where
  sections := by
    intro entry hentry hkept hbytes
    obtain ⟨base, hbase⟩ := exists_placement hentry hkept
      fun hbss => hbytes (plain.noBss entry hentry hbss)
    exact ⟨base, (sectionVa_eq_some layable built hentry).mpr hbase⟩
  bases := by
    intro entry hentry base hbase
    obtain ⟨_, ⟨hother, hbss⟩, halign, hlow, hhigh⟩ :=
      mem_placements layable ((sectionVa_eq_some layable built hentry).mp hbase)
    refine ⟨halign.mpr (plain.aligned entry hentry hother hbss), hlow, ?_⟩
    exact hhigh.trans (Nat.add_le_add_left (sizes_ge layable fits built entry) _)
  apart := by
    intro first hfirst second hsecond hne base other hbase hother
    have hone := (sectionVa_eq_some layable built hfirst).mp hbase
    have htwo := (sectionVa_eq_some layable built hsecond).mp hother
    have hsymm : Std.Symm fun (first second : Entry × Nat) =>
        Apart first.2 first.1.2.2.data.length second.2 second.1.2.2.data.length :=
      ⟨fun _ _ h => h.symm⟩
    apply (placements_apart layable).forall hone htwo
    intro hsame
    cases hsame
    exact hne rfl
  symbols := by
    intro entry hentry secIdx sec hidx hsec hkept
    have hbss := plain.noBssSymbols entry hentry secIdx sec hidx hsec
    obtain ⟨hmember, hva⟩ := symbolVa_eq layable built hentry hidx hsec
    obtain ⟨base, hbase⟩ := exists_placement hmember hkept hbss
    have hsection := (sectionVa_eq_some layable built hmember).mpr hbase
    refine ⟨base, hsection, ?_⟩
    rw [hsection] at hva
    rw [symbolTable_eq built]
    have hlisted : wrapAdd base (entry.2.2.offset % u32Size) ∈
        (allSymbols objects).filterMap fun other =>
          if other.2.2.name = entry.2.2.name then symbolVa state other else none :=
      List.mem_filterMap.mpr ⟨entry, hentry, by rw [if_pos rfl]; exact hva⟩
    cases hlast : ((allSymbols objects).filterMap fun other =>
        if other.2.2.name = entry.2.2.name then symbolVa state other else none).getLast? with
    | none => simp [List.getLast?_eq_none_iff.mp hlast] at hlisted
    | some found =>
      obtain ⟨other, hother, hfound⟩ := List.mem_filterMap.mp (List.mem_of_getLast? hlast)
      split at hfound
      · rename_i hname
        rw [plain.names other hother entry hentry hname found _ hfound hva]
      · cases hfound

theorem Placed.plain (layable : Layable objects)
    (built : LinkerState.build objects = some state) (placed : Placed objects state defMap) :
    Plain objects state where
  noBss := by
    intro entry hentry hbss
    by_contra hbytes
    obtain ⟨base, hbase⟩ := placed.sections entry hentry (by rw [hbss]; decide) hbytes
    have hplace := (sectionVa_eq_some layable built hentry).mp hbase
    exact (mem_placements layable hplace).2.1.2 hbss
  noBssSymbols := by
    intro entry hentry secIdx sec hidx hsec hbss
    obtain ⟨hmember, _⟩ := symbolVa_eq layable built hentry hidx hsec
    obtain ⟨base, hbase, _⟩ :=
      placed.symbols entry hentry secIdx sec hidx hsec (by rw [hbss]; decide)
    have hplace := (sectionVa_eq_some layable built hmember).mp hbase
    exact (mem_placements layable hplace).2.1.2 hbss
  aligned := by
    intro entry hentry hkept hbss
    obtain ⟨base, hbase⟩ := exists_placement hentry hkept hbss
    have hsection := (sectionVa_eq_some layable built hentry).mpr hbase
    exact (mem_placements layable hbase).2.2.1.mp (placed.bases entry hentry base hsection).1
  names := by
    intro first hfirst second hsecond hname va other hva hother
    have haddress {entry : Nat × ElfObject × ElfSymbol} (member : entry ∈ allSymbols objects)
        {va : Nat} (h : symbolVa state entry = some va) :
        state.symbolTable entry.2.2.name = some va := by
      obtain ⟨secIdx, sec, base, hidx, hsec, hplace, rfl⟩ := symbolVa_some layable built member h
      obtain ⟨hmember, ⟨hkept, _⟩, _⟩ := mem_placements layable hplace
      obtain ⟨found, hfound, htable⟩ :=
        placed.symbols entry member secIdx sec hidx hsec hkept
      cases (((sectionVa_eq_some layable built hmember).mpr hplace).symm.trans hfound)
      exact htable
    have hsame := (haddress hfirst hva).symm.trans ((congrArg _ hname).trans
      (haddress hsecond hother))
    exact Option.some.inj hsame

end Main

theorem sample_layable : Layable [sampleObject 0] where
  aligns := by
    intro entry hentry _
    have haligns : ∀ entry ∈ numbered [sampleObject 0],
        entry.2.2.align = 2 ^ 0 ∨ entry.2.2.align = 2 ^ 2 := by decide
    rcases haligns entry hentry with h | h
    · exact ⟨0, by decide, h⟩
    · exact ⟨2, by decide, h⟩
  code := by decide
  data := by decide

/-- One variable in uninitialised data. -/
def bssObject : ElfObject where
  sections := [⟨".bss", .uninitializedData, List.replicate 4 0, 4, []⟩]
  symbols := [⟨"counter", some 0, 0⟩]

def bssState : LinkerState where
  codeSection := .new codeObjectBase
  dataSection := { MergedSection.new dataObjectBase with bssSize := 4 }
  symbolTable := .empty
  entryVa := codeObjectBase

end Warpine.Linker
