import Warpine.Ne.File
import Warpine.Ne.Tables

/-! Which byte strings the parser of NE executables panics on. -/
namespace Warpine.Ne
open Warpine.Lib Reader Panicky

section Fields

/-- Where the NE header stands. -/
def offsetOf (data : List UInt8) : Nat := field data 60 4

def headerOf (data : List UInt8) : NeHeader := .decode (bytesAt data (offsetOf data) 64)

def segmentsOf (data : List UInt8) : List NeSegmentEntry :=
  (List.range (headerOf data).segmentCount).map fun i => .decode
    (bytesAt data (offsetOf data + (headerOf data).segmentTableOffset + 8 * i) 8)

def entryTableOf (data : List UInt8) : List UInt8 :=
  bytesAt data (offsetOf data + (headerOf data).entryTableOffset) (headerOf data).entryTableSize

/-- The file is an NE executable, and has all that stands before the entries as well as the
entries themselves. -/
structure HasEntries (data : List UInt8) : Prop where
  mz : Within data 0 64 ∧ data.take 2 = NeFile.mzSignature
  offset : 64 ≤ offsetOf data
  header : Within data (offsetOf data) 64 ∧ (headerOf data).signature = neSignature
  segments : (headerOf data).segmentCount ≤ 255
  segmentTable : Within data (offsetOf data + (headerOf data).segmentTableOffset)
    (8 * (headerOf data).segmentCount)
  importedNames : Within data (offsetOf data + (headerOf data).importedNamesTableOffset)
    ((headerOf data).entryTableOffset - (headerOf data).importedNamesTableOffset)
  moduleRefs : Within data (offsetOf data + (headerOf data).moduleRefTableOffset)
    (2 * (headerOf data).moduleRefCount)
  entryTable : Within data (offsetOf data + (headerOf data).entryTableOffset)
    (headerOf data).entryTableSize

/-- It has both tables of names. -/
structure HasNames (data : List UInt8) : Prop where
  resident : Within data (offsetOf data + (headerOf data).residentNameTableOffset)
    ((headerOf data).moduleRefTableOffset - (headerOf data).residentNameTableOffset)
  nonResident : 0 < (headerOf data).nonResidentNameTableFileOffset →
    Within data (headerOf data).nonResidentNameTableFileOffset
      (headerOf data).nonResidentNameTableSize

end Fields

section Stages

variable {data : List UInt8} {pos next neOffset : Nat} {header : NeHeader}

theorem field_lt (buf : List UInt8) (pos width : Nat) : field buf pos width < 256 ^ width := by
  apply Nat.lt_of_lt_of_le (leValue_lt _)
  apply Nat.pow_le_pow_right (by decide)
  rw [List.length_take]
  exact Nat.min_le_left _ _

/-- The fields of a header that positions are computed from are words. -/
structure Words (neOffset : Nat) (header : NeHeader) : Prop where
  offset : neOffset < 2 ^ 32
  segmentTable : header.segmentTableOffset < 2 ^ 16
  importedNames : header.importedNamesTableOffset < 2 ^ 16
  entryTable : header.entryTableOffset < 2 ^ 16
  moduleRefs : header.moduleRefTableOffset < 2 ^ 16
  residentNames : header.residentNameTableOffset < 2 ^ 16

theorem words_decode (data : List UInt8) : Words (offsetOf data) (headerOf data) :=
  ⟨field_lt _ _ _, field_lt _ _ _, field_lt _ _ _, field_lt _ _ _, field_lt _ _ _,
    field_lt _ _ _⟩

theorem addWord_pos {offset : Nat} (left : neOffset < 2 ^ 32) (right : offset < 2 ^ 16) :
    addWord 64 neOffset offset = some (neOffset + offset) := by
  apply addWord_of_lt
  omega

theorem returns_seek {target : Nat} {result : Unit} :
    Returns (liftM (seek target)) data pos result next ↔ next = target := by
  rw [returns_lift, seek_apply]
  simp [eq_comm]

theorem segment_within (pos : Nat) (entry : NeSegmentEntry) (next : Nat) :
    NeSegmentEntry.read data pos = .ok (entry, next) ↔
      Within data pos 8 ∧ entry = .decode (bytesAt data pos 8) ∧ next = pos + 8 := by
  unfold NeSegmentEntry.read
  simp only [bind_eq_ok, readExact_within, pure_eq_ok]
  constructor
  · rintro ⟨_, _, ⟨inside, rfl, rfl⟩, rfl, rfl⟩
    exact ⟨inside, rfl, rfl⟩
  · rintro ⟨inside, rfl, rfl⟩
    exact ⟨_, _, ⟨inside, rfl, rfl⟩, rfl, rfl⟩

theorem returns_readSegments (words : Words neOffset header) {segments : List NeSegmentEntry} :
    Returns (NeFile.readSegments neOffset header) data pos segments next ↔
      Within data (neOffset + header.segmentTableOffset) (8 * header.segmentCount) ∧
        segments = (List.range header.segmentCount).map (fun i =>
          .decode (bytesAt data (neOffset + header.segmentTableOffset + 8 * i) 8)) ∧
          next = neOffset + header.segmentTableOffset + 8 * header.segmentCount := by
  unfold NeFile.readSegments
  simp only [returns_bind, returns_ofOption, returns_lift,
    times_within segment_within, addWord_pos words.offset words.segmentTable]
  simp

theorem not_panics_readSegments (words : Words neOffset header) :
    ¬ Panics (NeFile.readSegments neOffset header) data pos := by
  unfold NeFile.readSegments
  simp [panics_bind, panics_ofOption, not_panics_lift, addWord_pos words.offset words.segmentTable]

theorem returns_readBetween {first second : Nat} (offset : neOffset < 2 ^ 32)
    (hfirst : first < 2 ^ 16) (hsecond : second < 2 ^ 16) :
    (∃ bytes next, Returns (NeFile.readBetween neOffset first second) data pos bytes next) ↔
      Within data (neOffset + first) (second - first) := by
  unfold NeFile.readBetween
  simp only [returns_bind, returns_ofOption, addWord_pos offset hfirst, addWord_pos offset hsecond]
  by_cases later : first < second
  · have size : neOffset + second - (neOffset + first) = second - first := by omega
    simp [later, returns_bind, returns_lift, readExact_within, size]
  · have none : second - first = 0 := by omega
    simp [later, returns_pure, none, Within]

theorem not_panics_readBetween {first second : Nat} (offset : neOffset < 2 ^ 32)
    (hfirst : first < 2 ^ 16) (hsecond : second < 2 ^ 16) :
    ¬ Panics (NeFile.readBetween neOffset first second) data pos := by
  unfold NeFile.readBetween
  by_cases later : first < second
  · simp [panics_bind, panics_ofOption, returns_ofOption, not_panics_lift, later,
      addWord_pos offset hfirst, addWord_pos offset hsecond]
  · simp [panics_bind, panics_ofOption, returns_ofOption, not_panics_pure, later,
      addWord_pos offset hfirst, addWord_pos offset hsecond]

/-- The name of a module is looked up without a panic. -/
theorem exists_moduleName (names : List UInt8) (offset : Nat) :
    ∃ name, NeFile.moduleName names offset = some name := by
  unfold NeFile.moduleName
  split
  · rename_i inside
    obtain ⟨len, hlen⟩ := exists_index inside
    rw [hlen]
    simp only [Option.bind_eq_bind, Option.bind_some]
    split
    · rename_i room
      obtain ⟨name, hname⟩ := @exists_slice names (offset + 1) (offset + 1 + len.toNat)
        (by omega) room
      rw [hname]
      exact ⟨_, rfl⟩
    · exact ⟨_, rfl⟩
  · exact ⟨_, rfl⟩

theorem returns_readModuleRefs (words : Words neOffset header) {names : List UInt8} :
    (∃ modules next, Returns (NeFile.readModuleRefs neOffset header names) data pos modules next) ↔
      Within data (neOffset + header.moduleRefTableOffset) (2 * header.moduleRefCount) := by
  unfold NeFile.readModuleRefs
  simp only [returns_bind, returns_ofOption, returns_seek,
    addWord_pos words.offset words.moduleRefs, Option.some.injEq]
  have loop := @returns_forEach_within _ data (neOffset + header.moduleRefTableOffset) _
    (List.range header.moduleRefCount)
    (fun _ => do let offset ← readLe 2; ofOption (NeFile.moduleName names offset)) 2 (by
      intro _ _ pos
      simp only [returns_bind, returns_lift, readLe_within, returns_ofOption]
      constructor
      · rintro value next ⟨_, _, ⟨_, rfl, rfl⟩, _, rfl⟩
        rfl
      · constructor
        · rintro ⟨_, _, _, _, ⟨inside, _⟩, _⟩
          exact inside
        · intro inside
          obtain ⟨name, hname⟩ := exists_moduleName names (leValue (bytesAt data pos 2))
          exact ⟨name, _, _, _, ⟨inside, rfl, rfl⟩, hname, rfl⟩)
  rw [List.length_range] at loop
  rw [← loop]
  simp

theorem not_panics_readModuleRefs (words : Words neOffset header) {names : List UInt8} :
    ¬ Panics (NeFile.readModuleRefs neOffset header names) data pos := by
  unfold NeFile.readModuleRefs
  simp only [panics_bind, panics_ofOption, returns_ofOption, not_panics_lift,
    addWord_pos words.offset words.moduleRefs]
  have loop := fun pos => @not_panics_forEach _ data pos _ (List.range header.moduleRefCount)
    (fun _ => do let offset ← readLe 2; ofOption (NeFile.moduleName names offset)) (by
      intro _ _ pos
      simp only [panics_bind, panics_ofOption, not_panics_lift, false_or]
      rintro ⟨offset, _, _, none⟩
      obtain ⟨name, hname⟩ := exists_moduleName names offset
      rw [hname] at none
      cases none)
  simpa using fun _ _ _ => loop _

theorem returns_readEntryTable (words : Words neOffset header) {table : List UInt8} :
    (∃ next, Returns (NeFile.readEntryTable neOffset header) data pos table next) ↔
      Within data (neOffset + header.entryTableOffset) header.entryTableSize ∧
        table = bytesAt data (neOffset + header.entryTableOffset) header.entryTableSize := by
  unfold NeFile.readEntryTable
  simp [returns_bind, returns_ofOption, returns_lift, readExact_within,
    addWord_pos words.offset words.entryTable]

theorem not_panics_readEntryTable (words : Words neOffset header) :
    ¬ Panics (NeFile.readEntryTable neOffset header) data pos := by
  unfold NeFile.readEntryTable
  simp [panics_bind, panics_ofOption, not_panics_lift, addWord_pos words.offset words.entryTable]

theorem returns_readResidentNames (words : Words neOffset header) :
    (∃ names next, Returns (NeFile.readResidentNames neOffset header) data pos names next) ↔
      Within data (neOffset + header.residentNameTableOffset)
        (header.moduleRefTableOffset - header.residentNameTableOffset) := by
  rw [← @returns_readBetween data pos neOffset _ _ words.offset words.residentNames words.moduleRefs]
  unfold NeFile.readResidentNames
  simp only [returns_bind, returns_ofOption]
  constructor
  · rintro ⟨_, _, bytes, middle, read, _⟩
    exact ⟨bytes, middle, read⟩
  · rintro ⟨bytes, middle, read⟩
    obtain ⟨names, hnames⟩ := Option.isSome_iff_exists.mp (parseNameTable_isSome bytes)
    exact ⟨names, _, bytes, middle, read, hnames, rfl⟩

theorem not_panics_parseNames (bytes : List UInt8) :
    ¬ Panics (ofOption (parseNameTable bytes)) data pos := by
  rw [panics_ofOption]
  exact Option.isSome_iff_ne_none.mp (parseNameTable_isSome bytes)

theorem not_panics_readResidentNames (words : Words neOffset header) :
    ¬ Panics (NeFile.readResidentNames neOffset header) data pos := by
  unfold NeFile.readResidentNames
  rw [panics_bind]
  rintro (between | ⟨bytes, middle, _, names⟩)
  · exact not_panics_readBetween words.offset words.residentNames words.moduleRefs between
  · exact not_panics_parseNames bytes names

theorem returns_readNonResidentNames :
    (∃ names next, Returns (NeFile.readNonResidentNames header) data pos names next) ↔
      (0 < header.nonResidentNameTableFileOffset →
        Within data header.nonResidentNameTableFileOffset header.nonResidentNameTableSize) := by
  unfold NeFile.readNonResidentNames
  split
  · rename_i both
    simp only [returns_bind, returns_seek, returns_ofOption]
    simp only [returns_lift, readExact_within]
    constructor
    · rintro ⟨_, _, _, _, rfl, bytes, _, ⟨inside, _⟩, _⟩ _
      exact inside
    · intro inside
      obtain ⟨names, hnames⟩ := Option.isSome_iff_exists.mp (parseNameTable_isSome _)
      exact ⟨names, _, (), _, rfl, _, _, ⟨inside both.1, rfl, rfl⟩, hnames, rfl⟩
  · rename_i missing
    simp only [returns_pure]
    refine iff_of_true ⟨_, _, rfl, rfl⟩ ?_
    intro positive
    left
    omega

theorem not_panics_readNonResidentNames :
    ¬ Panics (NeFile.readNonResidentNames header) data pos := by
  unfold NeFile.readNonResidentNames
  split
  · simp [panics_bind, not_panics_lift, not_panics_parseNames]
  · exact not_panics_pure

end Stages

section Relocations

variable {data : List UInt8} {pos shift : Nat} {segments : List NeSegmentEntry}

/-- The segments that the parser looks for relocations of. -/
def Relocated (seg : NeSegmentEntry) : Prop := seg.hasRelocations ∧ 0 < seg.dataOffset

theorem segment_words (bytes : List UInt8) :
    (NeSegmentEntry.decode bytes).dataOffset < 2 ^ 16 ∧
      (NeSegmentEntry.decode bytes).actualDataLength ≤ 2 ^ 16 := by
  have length := field_lt bytes 2 2
  refine ⟨field_lt _ _ _, ?_⟩
  unfold NeSegmentEntry.actualDataLength
  split
  · decide
  · exact Nat.le_of_lt length

/-- The end of a segment's data is a word, since the offset is cut to one and still a
multiple of the sector size, or so small that it is not cut. -/
theorem exists_addWord {offset length : Nat} (small : offset < 2 ^ 16) (short : length ≤ 2 ^ 16)
    (bounded : shift < 64) :
    ∃ start stop, shlWord 64 offset shift = some start ∧ addWord 64 start length = some stop := by
  refine ⟨offset <<< shift % 2 ^ 64, offset <<< shift % 2 ^ 64 + length, if_pos bounded, ?_⟩
  apply addWord_of_lt
  rw [Nat.shiftLeft_eq]
  by_cases low : shift ≤ 48
  · have scale : offset * 2 ^ shift ≤ (2 ^ 16 - 1) * 2 ^ 48 :=
      Nat.mul_le_mul (by omega) (Nat.pow_le_pow_right (by decide) low)
    rw [Nat.mod_eq_of_lt (by omega)]
    omega
  · have scaled : offset * 2 ^ shift = 2 ^ 48 * (offset * 2 ^ (shift - 48)) := by
      rw [Nat.mul_left_comm, ← Nat.pow_add]
      congr 2
      omega
    have cut : offset * 2 ^ shift % 2 ^ 64 = 2 ^ 48 * (offset * 2 ^ (shift - 48) % 2 ^ 16) := by
      rw [scaled]
      exact Nat.mul_mod_mul_left (2 ^ 48) _ (2 ^ 16)
    have top := Nat.mod_lt (offset * 2 ^ (shift - 48)) (show 0 < 2 ^ 16 by decide)
    rw [cut]
    omega

theorem not_panics_readRelocations {seg : NeSegmentEntry} (bounded : shift < 64)
    (words : seg.dataOffset < 2 ^ 16 ∧ seg.actualDataLength ≤ 2 ^ 16) :
    ¬ Panics (NeFile.readRelocations shift seg) data pos := by
  obtain ⟨start, stop, hstart, hstop⟩ := @exists_addWord shift _ _ words.1 words.2 bounded
  unfold NeFile.readRelocations NeSegmentEntry.fileOffset
  split
  · simp [panics_bind, panics_ofOption, returns_ofOption, not_panics_lift, hstart, hstop]
  · exact not_panics_pure

/-- Beyond the width of a word, the first segment with relocations is one too many. -/
theorem panics_relocations (wide : 64 ≤ shift) :
    Panics (Panicky.forEach segments (NeFile.readRelocations shift)) data pos ↔
      ∃ seg ∈ segments, Relocated seg := by
  induction segments with
  | nil => simp [Panicky.forEach, not_panics_pure]
  | cons seg rest ih =>
    rw [Panicky.forEach, panics_bind]
    by_cases relocated : Relocated seg
    · refine iff_of_true (.inl ?_) ⟨seg, List.mem_cons_self, relocated⟩
      have lost : shlWord 64 seg.dataOffset shift = none := if_neg (by omega)
      unfold NeFile.readRelocations NeSegmentEntry.fileOffset
      rw [if_pos (show _ ∧ _ from relocated), panics_bind, lost, panics_ofOption]
      exact .inl rfl
    · have idle : NeFile.readRelocations shift seg = pure [] := if_neg relocated
      simp only [idle, not_panics_pure, returns_pure, panics_bind, false_or, List.exists_mem_cons_iff,
        relocated, ← ih]
      simp

theorem not_panics_relocations (bounded : shift < 64)
    (words : ∀ seg ∈ segments, seg.dataOffset < 2 ^ 16 ∧ seg.actualDataLength ≤ 2 ^ 16) :
    ¬ Panics (Panicky.forEach segments (NeFile.readRelocations shift)) data pos :=
  not_panics_forEach fun seg member _ => not_panics_readRelocations bounded (words seg member)

end Relocations

section Parse

variable {data : List UInt8} {pos next : Nat}

theorem readOffset_eq_ok {neOffset : Nat} :
    NeFile.readOffset data 0 = .ok (neOffset, next) ↔
      (Within data 0 64 ∧ data.take 2 = NeFile.mzSignature) ∧ 64 ≤ offsetOf data ∧
        neOffset = offsetOf data ∧ next = 64 := by
  have magic : (bytesAt data 0 64).take 2 = data.take 2 := by simp [bytesAt, List.take_take]
  have offset : field (bytesAt data 0 64) 60 4 = offsetOf data := by
    simp [field, offsetOf, bytesAt, List.drop_take, List.take_take]
  unfold NeFile.readOffset
  simp only [bind_eq_ok, readExact_within]
  constructor
  · rintro ⟨_, _, ⟨inside, rfl, rfl⟩, rest⟩
    rw [magic, offset] at rest
    split at rest
    · simp [bind_apply, invalidData] at rest
    · rename_i signature
      split at rest
      · simp [bind_apply, invalidData] at rest
      · rename_i large
        cases rest
        exact ⟨⟨inside, not_not.mp signature⟩, by omega, rfl, rfl⟩
  · rintro ⟨⟨inside, signature⟩, large, rfl, rfl⟩
    refine ⟨_, _, ⟨inside, rfl, rfl⟩, ?_⟩
    rw [magic, offset, if_neg (not_not.mpr signature), if_neg (by omega)]
    rfl

theorem readHeader_eq_ok {offset : Nat} {header : NeHeader} :
    NeHeader.read offset data pos = .ok (header, next) ↔
      (Within data offset 64 ∧ (NeHeader.decode (bytesAt data offset 64)).signature = neSignature) ∧
        header = .decode (bytesAt data offset 64) ∧ next = offset + 64 := by
  unfold NeHeader.read
  simp only [bind_eq_ok, seek_apply, readExact_within]
  constructor
  · rintro ⟨_, _, ⟨⟩, _, _, ⟨inside, rfl, rfl⟩, rest⟩
    split at rest
    · simp [bind_apply, invalidData] at rest
    · rename_i signature
      cases rest
      exact ⟨⟨inside, not_not.mp signature⟩, rfl, rfl⟩
  · rintro ⟨⟨inside, signature⟩, rfl, rfl⟩
    refine ⟨(), offset, rfl, _, _, ⟨inside, rfl, rfl⟩, ?_⟩
    exact if_neg (not_not.mpr signature) ▸ rfl

theorem checkHeader_eq_ok {header : NeHeader} {result : Unit} :
    NeFile.checkHeader header data pos = .ok (result, next) ↔
      header.segmentCount ≤ 255 ∧ next = pos := by
  unfold NeFile.checkHeader
  split
  · rename_i many
    refine iff_of_false nofun fun both => ?_
    omega
  · rename_i few
    rw [pure_eq_ok]
    simp only [true_and]
    omega

end Parse

/-- The entry table, if the parser gets to it, is made of bundles, and if it gets to the
relocations of a segment, the sectors are smaller than a word. -/
def Sound (data : List UInt8) : Prop :=
  HasEntries data → Bundles 1 (entryTableOf data) ∧
    (HasNames data → (∃ seg ∈ segmentsOf data, Relocated seg) →
      (headerOf data).alignmentShiftCount < 64)

theorem segments_words (data : List UInt8) :
    ∀ seg ∈ segmentsOf data, seg.dataOffset < 2 ^ 16 ∧ seg.actualDataLength ≤ 2 ^ 16 := by
  intro seg member
  obtain ⟨i, _, rfl⟩ := List.mem_map.mp member
  exact segment_words _

/-- Behind the header, the parser panics at the entries or at the relocations. -/
theorem panics_read (data : List UInt8) : Panics NeFile.read data 0 ↔ ¬ Sound data := by
  have words := words_decode data
  unfold NeFile.read Sound
  simp only [panics_bind, not_panics_lift, false_or, returns_lift, readOffset_eq_ok,
    readHeader_eq_ok, checkHeader_eq_ok, panics_ofOption, returns_ofOption, not_panics_pure,
    and_false, exists_false, or_false]
  constructor
  · rintro ⟨_, _, ⟨mz, offset, rfl, rfl⟩, _, _, ⟨header, rfl, rfl⟩, _, _, ⟨few, rfl⟩, rest⟩ sound
    rcases rest with never | ⟨segments, _, hsegments, rest⟩
    · exact not_panics_readSegments words never
    obtain ⟨segmentTable, rfl, rfl⟩ := (returns_readSegments words).mp hsegments
    rcases rest with never | ⟨names, _, hnames, rest⟩
    · exact not_panics_readBetween words.offset words.importedNames words.entryTable never
    have importedNames := (returns_readBetween words.offset words.importedNames
      words.entryTable).mp ⟨names, _, hnames⟩
    rcases rest with never | ⟨modules, _, hmodules, rest⟩
    · exact not_panics_readModuleRefs words never
    have moduleRefs := (returns_readModuleRefs words).mp ⟨modules, _, hmodules⟩
    rcases rest with never | ⟨table, _, htable, rest⟩
    · exact not_panics_readEntryTable words never
    obtain ⟨entryTable, rfl⟩ := (returns_readEntryTable words).mp ⟨_, htable⟩
    obtain ⟨bundles, relocations⟩ := sound
      ⟨mz, offset, header, few, segmentTable, importedNames, moduleRefs, entryTable⟩
    have parsed := Option.isSome_iff_ne_none.mp ((parseEntryTable_isSome _).mpr bundles)
    rcases rest with broken | ⟨entries, _, _, rest⟩
    · exact parsed broken
    rcases rest with never | ⟨resident, _, hresident, rest⟩
    · exact not_panics_readResidentNames words never
    rcases rest with never | ⟨nonResident, _, hnonResident, loop⟩
    · exact not_panics_readNonResidentNames never
    have named : HasNames data := ⟨(returns_readResidentNames words).mp ⟨_, _, hresident⟩,
      returns_readNonResidentNames.mp ⟨_, _, hnonResident⟩⟩
    by_cases bounded : (headerOf data).alignmentShiftCount < 64
    · exact not_panics_relocations bounded (segments_words data) loop
    · have relocated := (panics_relocations (Nat.le_of_not_lt bounded)).mp loop
      exact bounded (relocations named relocated)
  · intro unsound
    obtain ⟨has, broken⟩ := Classical.not_imp.mp unsound
    obtain ⟨names, _, hnames⟩ := (returns_readBetween words.offset words.importedNames
      words.entryTable).mpr has.importedNames
    obtain ⟨modules, _, hmodules⟩ := (@returns_readModuleRefs data _ _ _ words names).mpr
      has.moduleRefs
    obtain ⟨_, htable⟩ := (returns_readEntryTable words).mpr ⟨has.entryTable, rfl⟩
    refine ⟨_, _, ⟨has.mz, has.offset, rfl, rfl⟩, _, _, ⟨has.header, rfl, rfl⟩, (), _,
      ⟨has.segments, rfl⟩, .inr ⟨_, _, (returns_readSegments words).mpr
        ⟨has.segmentTable, rfl, rfl⟩, .inr ⟨names, _, hnames, .inr ⟨modules, _, hmodules,
          .inr ⟨_, _, htable, ?_⟩⟩⟩⟩⟩
    by_cases bundles : Bundles 1 (entryTableOf data)
    · obtain ⟨entries, hentries⟩ :=
        Option.isSome_iff_exists.mp ((parseEntryTable_isSome _).mpr bundles)
      obtain ⟨named, wide⟩ := Classical.not_imp.mp fun rest => broken ⟨bundles, rest⟩
      obtain ⟨relocated, unbounded⟩ := Classical.not_imp.mp wide
      obtain ⟨resident, _, hresident⟩ := (returns_readResidentNames words).mpr named.resident
      obtain ⟨nonResident, _, hnonResident⟩ := returns_readNonResidentNames.mpr named.nonResident
      exact .inr ⟨entries, _, ⟨hentries, rfl⟩, .inr ⟨resident, _, hresident,
        .inr ⟨nonResident, _, hnonResident,
          (panics_relocations (Nat.le_of_not_lt unbounded)).mpr relocated⟩⟩⟩
    · left
      by_contra parsed
      exact bundles ((parseEntryTable_isSome _).mp (Option.isSome_iff_ne_none.mpr parsed))

/-- The parser panics on a byte string just when it gets to an entry table that is not made of
bundles, or to relocations behind sectors of a size that no word holds. -/
theorem parse_returns_iff (data : List UInt8) : NeFile.parse data ≠ none ↔ Sound data := by
  have panics : NeFile.parse data = none ↔ Panics NeFile.read data 0 := by
    unfold NeFile.parse Panics
    cases NeFile.read.run data 0 with
    | error e => simp
    | ok found =>
      obtain ⟨file, next⟩ := found
      cases file <;> simp
  rw [Ne, panics, panics_read, not_not]

/-- An MZ stub and an NE header without any table but one of the given entries. -/
def bareFile (entries : List UInt8) : List UInt8 :=
  [0x4D, 0x5A] ++ List.replicate 58 0 ++ leBytes 4 64 ++
    ([0x4E, 0x45, 5, 1] ++ leBytes 2 64 ++ leBytes 2 entries.length ++ List.replicate 56 0) ++ entries

/-- The count of a bundle stands at the very end of the table. -/
theorem cut_bundle_panics : ¬ ∀ data, NeFile.parse data ≠ none := by
  intro h
  exact h (bareFile [1]) (by decide)

end Warpine.Ne
