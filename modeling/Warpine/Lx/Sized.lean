import Warpine.Lx.File

/-! What the parser promises of a file it accepts: every field fits its word, and the
object table is as long as the header says. -/
namespace Warpine.Lx
open Warpine.Lib Reader

variable {data : List UInt8}

/-- Each value fits its width in bytes. -/
def FieldsFit (fields : List (Nat × Nat)) : Prop := ∀ field ∈ fields, field.2 < 256 ^ field.1

theorem LxHeader.read_fits (offset : Nat) :
    Ensures data (LxHeader.read offset) fun header => FieldsFit header.fields := by
  unfold LxHeader.read
  refine Ensures.any.bind fun _ _ => Ensures.any.bind fun signature _ => ?_
  apply Ensures.check
  intro _
  iterate 45 refine (Ensures.readLe_fits _).bind fun _ _ => ?_
  apply Ensures.of_pure
  simp only [FieldsFit, LxHeader.fields, List.forall_mem_cons]
  simp_all

theorem ObjectTableEntry.read_fits :
    Ensures data ObjectTableEntry.read fun entry => FieldsFit entry.fields := by
  unfold ObjectTableEntry.read
  iterate 6 refine (Ensures.readLe_fits _).bind fun _ _ => ?_
  apply Ensures.of_pure
  simp only [FieldsFit, ObjectTableEntry.fields, List.forall_mem_cons]
  simp_all

theorem ObjectPageMapEntry.read_fits :
    Ensures data ObjectPageMapEntry.read fun entry => FieldsFit entry.fields := by
  unfold ObjectPageMapEntry.read
  iterate 3 refine (Ensures.readLe_fits _).bind fun _ _ => ?_
  apply Ensures.of_pure
  simp only [FieldsFit, ObjectPageMapEntry.fields, List.forall_mem_cons]
  simp_all

/-- What `checkHeader` lets through. -/
structure LxHeader.Checked (header : LxHeader) : Prop where
  shift : header.pageOffsetShift < 32
  eip : header.eipObject ≤ header.objectCount
  esp : header.espObject ≤ header.objectCount

theorem LxFile.checkHeader_ensures (header : LxHeader) :
    Ensures data (LxFile.checkHeader header) fun _ => header.Checked := by
  unfold LxFile.checkHeader
  iterate 4
    apply Ensures.check
    intro _
  split
  · exact Ensures.of_invalidData
  · apply Ensures.of_pure
    constructor <;> omega

namespace LxFile

/-- The fields the loader computes addresses with fit their words. -/
structure Sized (file : LxFile) : Prop where
  header : FieldsFit file.header.fields
  checked : file.header.Checked
  count : file.objectTable.length = file.header.objectCount
  objects : ∀ obj ∈ file.objectTable, FieldsFit obj.fields
  pages : ∀ page ∈ file.pageMap, FieldsFit page.fields

theorem read_sized : Ensures data LxFile.read Sized := by
  unfold LxFile.read
  refine Ensures.any.bind fun mzHeader _ => ?_
  apply Ensures.check
  intro _
  refine (LxHeader.read_fits _).bind fun header fits => ?_
  refine (checkHeader_ensures header).bind fun _ checked => ?_
  refine Ensures.any.bind fun _ _ => ?_
  refine (ObjectTableEntry.read_fits.of_times _).bind fun objects sized => ?_
  refine Ensures.any.bind fun _ _ => ?_
  refine (ObjectPageMapEntry.read_fits.of_times _).bind fun pages mapped => ?_
  apply Ensures.check
  intro _
  -- the tables behind the page map hold nothing that an address is computed from
  iterate 9 refine Ensures.any.bind fun _ _ => ?_
  exact Ensures.of_pure ⟨fits, checked, sized.1, sized.2, mapped.2⟩

theorem parse_sized {file : LxFile} (parsed : parse data = .ok file) :
    file.Sized := by
  unfold parse at parsed
  cases read_ : LxFile.read data 0 with
  | error e => simp [read_, Except.map] at parsed
  | ok found =>
    simp only [read_, Except.map, Except.ok.injEq] at parsed
    exact read_sized 0 file found.2 (by rw [read_, ← parsed])

end LxFile
end Warpine.Lx
