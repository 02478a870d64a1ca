import Warpine.Lx.Sized

/-! The table of imported procedure names. The parser takes it to end with the loader
section, the format puts it behind that section. -/
namespace Warpine.Lx
open Warpine.Lib Reader

/-- The table lies in the fixup section, behind the module names. -/
structure LxHeader.NamesInFixupSection (header : LxHeader) : Prop where
  present : 0 < header.importProcedureNameTableOffset
  modules : header.fixupPageTableOffset ≤ header.importedModulesNameTableOffset
  behind : header.importedModulesNameTableOffset ≤ header.importProcedureNameTableOffset
  inside : header.importProcedureNameTableOffset ≤
    header.fixupPageTableOffset + header.fixupSectionSize

/-- A length byte and a name of that length. -/
def NameAt (data : List UInt8) (pos : Nat) (name : List UInt8) : Prop :=
  name.length < 256 ∧ Stored data pos (UInt8.ofNat name.length :: name)

/-- The length byte says how long a name is. -/
theorem NameAt.length_eq {data : List UInt8} {pos : Nat} {name other : List UInt8}
    (h : NameAt data pos name) (same : NameAt data pos other) : name.length = other.length := by
  obtain ⟨short, rest, split⟩ := h
  obtain ⟨otherShort, otherRest, otherSplit⟩ := same
  rw [← split, List.cons_append, List.cons_append, List.cons.injEq] at otherSplit
  have bytes := congrArg UInt8.toNat otherSplit.1
  rw [UInt8.toNat_ofNat', UInt8.toNat_ofNat', Nat.mod_eq_of_lt short,
    Nat.mod_eq_of_lt otherShort] at bytes
  exact bytes.symm

namespace LxFile

def lxOffset (data : List UInt8) : Nat := leValue ((data.drop 0x3C).take 4)

/-- Where the table starts in the file. -/
def nameTableStart (data : List UInt8) (file : LxFile) : Nat :=
  lxOffset data + file.header.importProcedureNameTableOffset

/-- The names that the fixups refer to, by their offsets in the table. -/
def nameOffsets (file : LxFile) : List Nat :=
  file.fixupRecordsByPage.flatten.filterMap fun record => match record.target with
    | .externalName _ procNameOffset => some procNameOffset
    | _ => none

/-- A fixup that imports by name gets the name that is stored for it. -/
def NamesCaptured (data : List UInt8) (file : LxFile) : Prop :=
  ∀ offset ∈ file.nameOffsets, ∀ name, NameAt data (nameTableStart data file + offset) name →
    file.getProcName offset = some (Utf8.fromUtf8Lossy name)

/-- The names that are stored end inside the loader section. -/
def NamesInLoaderSection (data : List UInt8) (file : LxFile) : Prop :=
  ∀ offset ∈ file.nameOffsets, ∀ name, NameAt data (nameTableStart data file + offset) name →
    file.header.importProcedureNameTableOffset + offset + 1 + name.length ≤
      file.header.loaderSectionSize

variable {data : List UInt8} {file : LxFile}

/-- The bytes from the table's start to the end of the loader section. -/
def CapturedNames (data : List UInt8) (lxOffset : Nat) (header : LxHeader) (names : List UInt8) :
    Prop :=
  let start := lxOffset + header.importProcedureNameTableOffset
  let count := header.loaderSectionSize - header.importProcedureNameTableOffset
  0 < header.importProcedureNameTableOffset → Within data start count ∧
    names = bytesAt data start count

theorem readProcedureNames_captures (lxOffset : Nat) (header : LxHeader) :
    Ensures data (readProcedureNames lxOffset header) (CapturedNames data lxOffset header) := by
  unfold readProcedureNames
  intro pos names next read present
  rw [if_pos present] at read
  obtain ⟨_, start, sought, read⟩ := bind_eq_ok.mp read
  cases sought
  obtain ⟨within, rfl, -⟩ := readExact_within.mp read
  rw [Nat.add_sub_add_left] at within ⊢
  exact ⟨within, rfl⟩

theorem parse_captures (parsed : parse data = .ok file) :
    CapturedNames data (lxOffset data) file.header file.importProcedureNames := by
  unfold parse at parsed
  cases found : LxFile.read data 0 with
  | error e => simp [found, Except.map] at parsed
  | ok result =>
    simp only [found, Except.map, Except.ok.injEq] at parsed
    subst parsed
    unfold LxFile.read at found
    obtain ⟨mzHeader, next, mz, rest⟩ := bind_eq_ok.mp found
    obtain ⟨-, rfl, rfl⟩ := readExact_within.mp mz
    have offset : leValue (((bytesAt data 0 64).drop 0x3C).take 4) = lxOffset data := by
      rw [bytesAt, List.drop_zero, List.drop_take, List.take_take, lxOffset]
      rfl
    rw [offset] at rest
    refine (?_ : Ensures data _ fun file => CapturedNames data (lxOffset data) file.header
      file.importProcedureNames) _ _ _ rest
    apply Ensures.check
    intro _
    refine Ensures.any.bind fun header _ => Ensures.any.bind fun _ _ => ?_
    iterate 4 refine Ensures.any.bind fun _ _ => ?_
    apply Ensures.check
    intro _
    -- resources, fixups and module names; the names come next
    iterate 6 refine Ensures.any.bind fun _ _ => ?_
    refine (readProcedureNames_captures _ header).bind fun names captured => ?_
    iterate 2 refine Ensures.any.bind fun _ _ => ?_
    exact Ensures.of_pure captured

/-- A name that stands in the file is found exactly where the part of the file that was
taken holds all of it. -/
theorem getProcName_eq_some {start count offset : Nat} {name : List UInt8}
    (names : file.importProcedureNames = bytesAt data start count)
    (within : Within data start count) (stored : NameAt data (start + offset) name) :
    file.getProcName offset = some (Utf8.fromUtf8Lossy name) ↔ offset + 1 + name.length ≤ count := by
  obtain ⟨short, rest, split⟩ := stored
  have length : file.importProcedureNames.length = count := by
    rw [names, bytesAt, List.length_take, List.length_drop]
    unfold Within at within
    omega
  have tail : file.importProcedureNames.drop offset =
      (UInt8.ofNat name.length :: (name ++ rest)).take (count - offset) := by
    rw [names, bytesAt, List.drop_take, List.drop_drop, ← split, List.cons_append]
  unfold getProcName
  by_cases inside : offset < count
  · obtain ⟨room, rooms⟩ : ∃ room, count - offset = room + 1 := ⟨count - offset - 1, by omega⟩
    rw [rooms, List.take_succ_cons] at tail
    have first : file.importProcedureNames[offset]? = some (UInt8.ofNat name.length) := by
      rw [← Nat.add_zero offset, ← List.getElem?_drop, tail, List.getElem?_cons_zero]
    have later : file.importProcedureNames.drop (offset + 1) = (name ++ rest).take room := by
      rw [← List.drop_drop, tail, List.drop_one, List.tail_cons]
    have size : (UInt8.ofNat name.length).toNat = name.length := by
      rw [UInt8.toNat_ofNat', Nat.mod_eq_of_lt short]
    simp only [first, size, length, later]
    by_cases fits : count < offset + 1 + name.length
    · rw [if_pos fits]
      exact iff_of_false (Option.some_ne_none _).symm (Nat.not_le_of_lt fits)
    · rw [if_neg fits, List.take_take, Nat.min_eq_left (by omega), List.take_left]
      exact iff_of_true rfl (Nat.not_lt.mp fits)
  · have none : file.importProcedureNames[offset]? = none :=
      List.getElem?_eq_none (by omega)
    rw [none]
    exact iff_of_false (Option.some_ne_none _).symm (by omega)

/-- The names that the fixups refer to are captured exactly where they end inside the
loader section. -/
theorem names_captured_iff (parsed : parse data = .ok file)
    (placed : file.header.NamesInFixupSection) :
    NamesCaptured data file ↔ NamesInLoaderSection data file := by
  obtain ⟨within, names⟩ := parse_captures parsed placed.present
  refine forall₂_congr fun offset _ => forall₂_congr fun name stored => ?_
  rw [getProcName_eq_some names within stored]
  omega

/-- An executable of one page with one import by name, and a loader section of the given
size. Its fixup section has its tables from 204 to 245. -/
def nameImportFile (loaderSectionSize : Nat) : LxFile where
  header := { (default : LxHeader) with
    signature := lxSignature
    moduleNumPages := 1
    fixupSectionSize := 41
    loaderSectionSize := loaderSectionSize
    objectTableOffset := 172
    objectCount := 1
    objectPageMapOffset := 196
    fixupPageTableOffset := 204
    fixupRecordTableOffset := 212
    importedModulesNameTableOffset := 219
    importedModulesCount := 1
    importProcedureNameTableOffset := 228 }
  objectTable := [⟨0x1000, 0x10000, 0, 1, 1, 0⟩]
  pageMap := [⟨0, 0, 0⟩]
  fixupPageTable := [0, 7]
  fixupRecordsByPage := [[⟨0x07, 0x02, [0x10], .externalName 1 0, none⟩]]
  resources := []
  importedModules := ["VIOCALLS"]
  importProcedureNames := (16 :: Utf8.toBytes "VioCheckCharType").take (loaderSectionSize - 228)
  exports := []
  nonresidentNames := []

def nameImportBytes (loaderSectionSize : Nat) : List UInt8 :=
  let file := nameImportFile loaderSectionSize
  mzSignature ++ List.replicate 58 0 ++ leBytes 4 64 ++ file.header.bytes ++
    file.objectTable.flatMap ObjectTableEntry.bytes ++
    file.pageMap.flatMap ObjectPageMapEntry.bytes ++ file.fixupPageTable.flatMap (leBytes 4) ++
    file.fixupRecordsByPage.flatten.flatMap LxFixupRecord.encode ++
    8 :: Utf8.toBytes "VIOCALLS" ++ 16 :: Utf8.toBytes "VioCheckCharType"

/-- A loader section that reaches to the end of the names. -/
theorem names_captured_long_section :
    NamesCaptured (nameImportBytes 245) (nameImportFile 245) := by
  apply (names_captured_iff (show parse (nameImportBytes 245) = .ok (nameImportFile 245) by
    decide) ⟨by decide, by decide, by decide, by decide⟩).mpr
  intro offset member name stored
  have offsets : nameOffsets (nameImportFile 245) = [0] := rfl
  rw [offsets, List.mem_singleton] at member
  subst member
  have length := stored.length_eq (show NameAt (nameImportBytes 245)
    (nameTableStart (nameImportBytes 245) (nameImportFile 245) + 0)
    (Utf8.toBytes "VioCheckCharType") from ⟨by decide, by decide⟩)
  rw [length]
  decide

/-- The layout of the format: the loader section ends where the fixup section starts. -/
theorem name_lost : ¬∀ (data : List UInt8) (file : LxFile), parse data = .ok file →
    file.header.NamesInFixupSection → NamesCaptured data file := by
  intro claim
  have captured := claim (nameImportBytes 204) (nameImportFile 204) (by decide)
    ⟨by decide, by decide, by decide, by decide⟩ 0 (by decide) (Utf8.toBytes "VioCheckCharType")
    ⟨by decide, by decide⟩
  cases captured

/-- In the layout of the format the fixup section starts where the loader section ends, and
no offset gives a name. -/
theorem getProcName_behind (parsed : parse data = .ok file)
    (placed : file.header.NamesInFixupSection)
    (layout : file.header.loaderSectionSize ≤ file.header.fixupPageTableOffset) (offset : Nat) :
    file.getProcName offset = none := by
  obtain ⟨-, names⟩ := parse_captures parsed placed.present
  have empty : file.header.loaderSectionSize - file.header.importProcedureNameTableOffset = 0 := by
    have := placed.modules
    have := placed.behind
    omega
  rw [empty, bytesAt, List.take_zero] at names
  simp [getProcName, names]

end LxFile
end Warpine.Lx
