import Warpine.Lib.Lists
import Warpine.Lib.Table
import Warpine.Lib.Words

/-! What the linker takes from ELF objects, and how it merges their sections
into one code and one data section with fixed addresses. -/
namespace Warpine.Linker
open Warpine.Lib

def codeObjectBase : Nat := 0x10000
def dataObjectBase : Nat := 0x60000
def stackSize : Nat := 0x10000
def stackObjectBase : Nat := 0x80000 - stackSize
def pageSize : Nat := 4096

inductive SectionKind where
  | text
  | data
  | readOnlyData
  | readOnlyString
  | uninitializedData
  | other
deriving DecidableEq, Repr

inductive RelocationKind where
  | absolute
  | relative
  | other
deriving DecidableEq, Repr

inductive RelocTarget where
  | symbol (name : String)
  | ofSection (name : String)
deriving DecidableEq, Repr

structure Reloc where
  offset : Nat
  kind : RelocationKind
  addend : Int
  target : RelocTarget
deriving DecidableEq, Repr

structure ElfSection where
  name : String
  kind : SectionKind
  data : List UInt8
  align : Nat
  relocs : List Reloc
deriving DecidableEq, Repr

structure ElfSymbol where
  name : String
  sectionIdx : Option Nat
  offset : Nat
deriving DecidableEq, Repr

structure ElfObject where
  sections : List ElfSection
  symbols : List ElfSymbol
deriving DecidableEq, Repr

structure InputEntry where
  objIdx : Nat
  secIdx : Nat
  mergedOffset : Nat
deriving DecidableEq, Repr

structure MergedSection where
  data : List UInt8
  bssSize : Nat
  va : Nat
  inputMap : List InputEntry
deriving DecidableEq, Repr

structure LinkerState where
  codeSection : MergedSection
  dataSection : MergedSection
  symbolTable : Table String Nat
  entryVa : Nat

def alignUp (val align : Nat) : Nat :=
  if align ≤ 1 then val else wrapAdd val (align - 1) &&& (u32Size - align)

/-- `Vec::resize` with zeros. -/
def resize (data : List UInt8) (len : Nat) : List UInt8 :=
  data.take len ++ List.replicate (len - data.length) 0

def MergedSection.new (va : Nat) : MergedSection := ⟨[], 0, va, []⟩

def appendSection (merged : MergedSection) (objIdx secIdx : Nat) (sec : ElfSection) :
    MergedSection :=
  let aligned := alignUp (merged.data.length % u32Size) (sec.align % u32Size)
  { merged with
    data := resize merged.data aligned ++ sec.data
    inputMap := merged.inputMap ++ [⟨objIdx, secIdx, aligned⟩] }

def appendBss (merged : MergedSection) (sec : ElfSection) : MergedSection :=
  let cur := wrapAdd (merged.data.length % u32Size) merged.bssSize
  let padded := alignUp cur (sec.align % u32Size)
  { merged with
    bssSize := wrapAdd merged.bssSize
      (wrapAdd (wrapSub padded cur) (sec.data.length % u32Size)) }

def findMergedVa (merged : MergedSection) (objIdx secIdx : Nat) : Option Nat :=
  (merged.inputMap.find? fun entry => entry.objIdx == objIdx && entry.secIdx == secIdx).map
    fun entry => wrapAdd merged.va entry.mergedOffset

def pageCount (dataLen bssSize : Nat) : Nat := (wrapAdd dataLen bssSize + (pageSize - 1)) / pageSize

/-- All sections in order, each with the numbers of its object and of itself. -/
def numbered (objects : List ElfObject) : List (Nat × Nat × ElfSection) :=
  objects.zipIdx.flatMap fun obj => obj.1.sections.zipIdx.map fun sec => (obj.2, sec.2, sec.1)

namespace LinkerState

def mergeCode (merged : MergedSection) (entry : Nat × Nat × ElfSection) : MergedSection :=
  match entry.2.2.kind with
  | .text => appendSection merged entry.1 entry.2.1 entry.2.2
  | _ => merged

def mergeData (merged : MergedSection) (entry : Nat × Nat × ElfSection) : MergedSection :=
  match entry.2.2.kind with
  | .data | .readOnlyData | .readOnlyString => appendSection merged entry.1 entry.2.1 entry.2.2
  | .uninitializedData => appendBss merged entry.2.2
  | _ => merged

/-- A symbol of a section that is not in the image is left out. -/
def insertSymbol (code data : MergedSection) (objIdx : Nat) (obj : ElfObject)
    (table : Table String Nat) (sym : ElfSymbol) : Option (Table String Nat) :=
  match sym.sectionIdx with
  | none => some table
  | some secIdx => (obj.sections[secIdx]?).map fun sec =>
      match findMergedVa (if sec.kind = .text then code else data) objIdx secIdx with
      | some va => table.insert sym.name (wrapAdd va (sym.offset % u32Size))
      | none => table

/-- A section number out of range is a panic of the source. -/
def build (objects : List ElfObject) : Option LinkerState := do
  let code := (numbered objects).foldl mergeCode (.new codeObjectBase)
  let data := (numbered objects).foldl mergeData (.new dataObjectBase)
  let symbolTable ← objects.zipIdx.foldlM
    (fun table obj => obj.1.symbols.foldlM (insertSymbol code data obj.2 obj.1) table) .empty
  return {
    codeSection := code
    dataSection := data
    symbolTable
    entryVa := ((symbolTable "_start").orElse fun _ => symbolTable "main").getD codeObjectBase }

def codeVaFor (state : LinkerState) (objIdx secIdx : Nat) : Option Nat :=
  findMergedVa state.codeSection objIdx secIdx

def dataVaFor (state : LinkerState) (objIdx secIdx : Nat) : Option Nat :=
  findMergedVa state.dataSection objIdx secIdx

/-- The merged sections fit the windows between the bases of the objects. -/
structure Fits (state : LinkerState) : Prop where
  code : state.codeSection.data.length ≤ dataObjectBase - codeObjectBase
  data : state.dataSection.data.length + state.dataSection.bssSize ≤
    stackObjectBase - dataObjectBase

theorem findMergedVa_lt {merged : MergedSection} {objIdx secIdx va : Nat}
    (h : findMergedVa merged objIdx secIdx = some va) : va < u32Size := by
  obtain ⟨entry, _, rfl⟩ := Option.map_eq_some_iff.mp h
  exact Nat.mod_lt _ (by decide)

/-- Every address in the table is a word. -/
def Words (table : Table String Nat) : Prop := ∀ name va, table name = some va → va < u32Size

theorem insertSymbol_words {code data : MergedSection} {objIdx : Nat} {obj : ElfObject}
    {table next : Table String Nat} {sym : ElfSymbol} (words : Words table)
    (h : insertSymbol code data objIdx obj table sym = some next) : Words next := by
  unfold insertSymbol at h
  split at h
  · cases h
    exact words
  · rename_i secIdx _
    obtain ⟨sec, _, rfl⟩ := Option.map_eq_some_iff.mp h
    cases findMergedVa (if sec.kind = .text then code else data) objIdx secIdx with
    | none => exact words
    | some base =>
      intro name va hva
      rcases Table.insert_eq_some.mp hva with ⟨_, rfl⟩ | ⟨_, hva⟩
      · exact Nat.mod_lt _ (by decide)
      · exact words name va hva

variable {objects : List ElfObject} {state : LinkerState}

/-- What `build` returns, part by part. -/
theorem build_eq_some (h : build objects = some state) :
    state.codeSection = (numbered objects).foldl mergeCode (.new codeObjectBase) ∧
      state.dataSection = (numbered objects).foldl mergeData (.new dataObjectBase) ∧
      objects.zipIdx.foldlM (fun table obj => obj.1.symbols.foldlM
        (insertSymbol state.codeSection state.dataSection obj.2 obj.1) table) .empty =
          some state.symbolTable := by
  unfold build at h
  obtain ⟨table, htable, h⟩ := Option.bind_eq_some_iff.mp h
  cases h
  exact ⟨rfl, rfl, htable⟩

theorem build_code_bss (built : build objects = some state) :
    state.codeSection.bssSize = 0 := by
  rw [(build_eq_some built).1]
  have hfold : ∀ (entries : List (Nat × Nat × ElfSection)) (merged : MergedSection),
      (entries.foldl mergeCode merged).bssSize = merged.bssSize := by
    intro entries merged
    induction entries generalizing merged with
    | nil => rfl
    | cons entry rest ih =>
      rw [List.foldl_cons, ih]
      unfold mergeCode
      split <;> rfl
  rw [hfold]
  rfl

theorem symbolTable_words (h : build objects = some state) : Words state.symbolTable := by
  apply foldlM_preserves _ (build_eq_some h).2.2 (fun _ _ hva => nomatch hva)
  intro obj _ table next words hnext
  exact foldlM_preserves (fun sym _ table next words hsym => insertSymbol_words words hsym)
    hnext words

end LinkerState
end Warpine.Linker
