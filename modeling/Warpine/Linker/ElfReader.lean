import Warpine.Linker.Writer

/-! Reading an ELF object. Its sections and symbols are tables; the index of an
entry is its place. A relocation against a symbol of a section keeps only the name
of that section. -/
namespace Warpine.Linker
open Warpine.Lib

inductive RelocationTarget where
  | symbol (idx : Nat)
  | ofSection (idx : Nat)
  | other
deriving DecidableEq, Repr

structure RelocEntry where
  offset : Nat
  kind : RelocationKind
  size : Nat
  addend : Int
  target : RelocationTarget
deriving DecidableEq, Repr

inductive SymbolKind where
  | file
  | ofSection
  | unknown
  | other
deriving DecidableEq, Repr

inductive SymbolScope where
  | dynamic
  | linkage
  | other
deriving DecidableEq, Repr

structure SymbolEntry where
  name : Option String
  kind : SymbolKind
  scope : SymbolScope
  sectionIndex : Option Nat
  address : Nat
deriving DecidableEq, Repr

structure SectionEntry where
  name : Option String
  kind : SectionKind
  data : Option (List UInt8)
  size : Nat
  align : Nat
  relocations : List RelocEntry
deriving DecidableEq, Repr

structure ElfFile where
  sections : List SectionEntry
  symbols : List SymbolEntry
deriving DecidableEq, Repr

namespace ElfFile

/-- The sections that are kept, and where each of them is found. -/
def keepSection (kept : List ElfSection × Table Nat Nat) (entry : SectionEntry × Nat) :
    List ElfSection × Table Nat Nat :=
  match entry.1.kind with
  | .other => kept
  | kind =>
      let sec : ElfSection :=
        { name := entry.1.name.getD ""
          kind
          data := entry.1.data.getD (List.replicate entry.1.size 0)
          align := max entry.1.align 1
          relocs := [] }
      (kept.1 ++ [sec], kept.2.insert entry.2 kept.1.length)

variable (file : ElfFile)

def kept : List ElfSection × Table Nat Nat := file.sections.zipIdx.foldl keepSection ([], .empty)

def sectionIndexMap : Table Nat Nat := file.kept.2

/-- The name of a kept section. -/
def sectionName (secIdx : Nat) : String := ((file.kept.1[secIdx]?).map ElfSection.name).getD ""

def relocTarget (sectionIndex : Option Nat) (symName : String) : RelocTarget :=
  match sectionIndex.bind file.sectionIndexMap with
  | some secIdx => .ofSection (file.sectionName secIdx)
  | none => .symbol symName

/-- The relocation that is kept, if any; a symbol that is missing is an error. -/
def parseReloc (reloc : RelocEntry) : Option (Option Reloc) :=
  if reloc.size ≠ 32 then some none
  else match reloc.target with
    | .symbol symIdx => (file.symbols[symIdx]?).map fun sym =>
        some ⟨reloc.offset, reloc.kind, reloc.addend,
          file.relocTarget sym.sectionIndex (sym.name.getD "")⟩
    | .ofSection secIdx =>
        some (some ⟨reloc.offset, reloc.kind, reloc.addend, file.relocTarget (some secIdx) ""⟩)
    | .other => some none

def readRelocs (sections : List ElfSection) (entry : SectionEntry × Nat) :
    Option (List ElfSection) :=
  match file.sectionIndexMap entry.2 with
  | none => some sections
  | some secIdx => (entry.1.relocations.mapM file.parseReloc).map fun relocs =>
      sections.modify secIdx fun sec => { sec with relocs := sec.relocs ++ relocs.filterMap id }

/-- Symbols without a name, local ones, and those of files and sections are left out. -/
def parseSymbol (sym : SymbolEntry) : Option ElfSymbol :=
  match sym.name with
  | none => none
  | some name =>
      if name = "" then none
      else if sym.kind = .file ∨ sym.kind = .ofSection ∨ sym.kind = .unknown then none
      else if sym.scope = .dynamic ∨ sym.scope = .linkage then
        some ⟨name, sym.sectionIndex.bind file.sectionIndexMap, sym.address⟩
      else none

def parseElf : Option ElfObject :=
  (file.sections.zipIdx.foldlM file.readRelocs file.kept.1).map fun sections =>
    ⟨sections, file.symbols.filterMap file.parseSymbol⟩

end ElfFile

/-- The address of a section that is in the image. -/
def LinkerState.sectionVa (state : LinkerState) (objIdx secIdx : Nat) : Option Nat :=
  (state.codeVaFor objIdx secIdx).orElse fun _ => state.dataVaFor objIdx secIdx

theorem findSectionVa_eq (objects : List ElfObject) (state : LinkerState) (secName : String) :
    findSectionVa objects state secName =
      ((numbered objects).find? fun entry => entry.2.2.name == secName).bind fun entry =>
        state.sectionVa entry.1 entry.2.1 := rfl

/-- The relocation, read from its object, is resolved to the place `offset` bytes
into the section, whatever modules are imported before it. -/
def SymbolResolves (objects : List ElfObject) (state : LinkerState) (defMap : DefMap)
    (file : ElfFile) (reloc : RelocEntry) (objIdx secIdx offset : Nat) : Prop :=
  ∃ made va, file.parseReloc reloc = some (some made) ∧
    state.sectionVa objIdx secIdx = some va ∧ ∀ modules,
      (resolveReloc objects state defMap made modules).1 =
        (wrapAdd va (offset % u32Size), some (internalTarget (wrapAdd va (offset % u32Size))))

/-- Of all sections with the name of this one, the first is in the image, at the
address that lies `offset` bytes into this one. -/
def FirstOfName (objects : List ElfObject) (state : LinkerState) (objIdx secIdx offset : Nat) :
    Prop :=
  ∃ sec first va, (objects[objIdx]?).bind (·.sections[secIdx]?) = some sec ∧
    (numbered objects).find? (fun entry => entry.2.2.name == sec.name) = some first ∧
      state.sectionVa objIdx secIdx = some va ∧
        state.sectionVa first.1 first.2.1 = some (wrapAdd va (offset % u32Size))

namespace ElfFile

variable {file : ElfFile}

/-- Reading the relocations leaves the sections and their names. -/
theorem parseElf_names {object : ElfObject} (h : file.parseElf = some object) :
    object.sections.map ElfSection.name = file.kept.1.map ElfSection.name := by
  obtain ⟨sections, hsections, rfl⟩ := Option.map_eq_some_iff.mp h
  show sections.map ElfSection.name = file.kept.1.map ElfSection.name
  apply @foldlM_preserves _ _ _
    (fun sections => sections.map ElfSection.name = file.kept.1.map ElfSection.name) _ _ _ _
    hsections rfl
  intro entry _ sections next hnames hnext
  unfold readRelocs at hnext
  split at hnext
  · cases hnext
    exact hnames
  · rename_i secIdx _
    obtain ⟨relocs, _, rfl⟩ := Option.map_eq_some_iff.mp hnext
    rw [← hnames]
    apply List.ext_getElem?
    intro i
    rw [List.getElem?_map, List.getElem?_map, List.getElem?_modify]
    cases sections[i]? with
    | none => rfl
    | some sec => by_cases hi : secIdx = i <;> simp [hi]

theorem parseElf_sectionName {object : ElfObject} (h : file.parseElf = some object) (secIdx : Nat) :
    ((object.sections[secIdx]?).map ElfSection.name).getD "" = file.sectionName secIdx := by
  have hnames := congrArg (·[secIdx]?) (parseElf_names h)
  rw [List.getElem?_map, List.getElem?_map] at hnames
  rw [hnames, sectionName]

/-- The map leads to kept sections. -/
theorem sectionIndexMap_lt {secIdx localIdx : Nat}
    (h : file.sectionIndexMap secIdx = some localIdx) : localIdx < file.kept.1.length := by
  have hfold : ∀ (entries : List (SectionEntry × Nat)) (kept : List ElfSection × Table Nat Nat),
      (∀ i j, kept.2 i = some j → j < kept.1.length) →
        ∀ i j, (entries.foldl keepSection kept).2 i = some j →
          j < (entries.foldl keepSection kept).1.length := by
    intro entries
    induction entries with
    | nil => exact fun kept hkept => hkept
    | cons entry rest ih =>
      intro kept hkept
      apply ih
      unfold keepSection
      split
      · exact hkept
      · intro i j hj
        dsimp only at hj ⊢
        rw [List.length_append]
        rcases Table.insert_eq_some.mp hj with ⟨_, rfl⟩ | ⟨_, hj⟩
        · simp
        · exact Nat.lt_add_right _ (hkept i j hj)
  exact hfold _ ([], .empty) (fun _ _ hnone => absurd hnone (by simp)) secIdx localIdx h

end ElfFile

theorem resolveReloc_ofSection {objects : List ElfObject} {state : LinkerState} {defMap : DefMap}
    {offset : Nat} {kind : RelocationKind} {addend : Int} {secName : String} {modules : ModuleTable}
    {va : Nat} :
    (resolveReloc objects state defMap ⟨offset, kind, addend, .ofSection secName⟩ modules).1 =
        (va, some (internalTarget va)) ↔
      findSectionVa objects state secName = some va := by
  unfold resolveReloc
  dsimp only
  cases findSectionVa objects state secName with
  | none => simp
  | some base =>
    constructor
    · intro h
      cases h
      rfl
    · intro h
      cases h
      rfl

/-- A relocation against a symbol of a kept section resolves to its place exactly
when it has 32 bits and the first section of that name starts there. -/
theorem symbol_resolves_iff {files : List ElfFile} {objects : List ElfObject} {state : LinkerState}
    (defMap : DefMap) (parsed : files.mapM ElfFile.parseElf = some objects)
    {objIdx secIdx rawIdx symIdx : Nat} {file : ElfFile} {reloc : RelocEntry} {sym : SymbolEntry}
    (member : files[objIdx]? = some file) (target : reloc.target = .symbol symIdx)
    (symbol : file.symbols[symIdx]? = some sym) (place : sym.sectionIndex = some rawIdx)
    (kept : file.sectionIndexMap rawIdx = some secIdx) :
    SymbolResolves objects state defMap file reloc objIdx secIdx sym.address ↔
      reloc.size = 32 ∧ FirstOfName objects state objIdx secIdx sym.address := by
  obtain ⟨object, hobject, hmember⟩ := getElem?_of_mapM parsed member
  have hnames := ElfFile.parseElf_names hobject
  have hlt := ElfFile.sectionIndexMap_lt kept
  have hsection : ∃ sec, object.sections[secIdx]? = some sec ∧
      sec.name = file.sectionName secIdx := by
    have hsome : secIdx < object.sections.length := by
      rwa [← List.length_map, hnames, List.length_map]
    have hname := ElfFile.parseElf_sectionName hobject secIdx
    rw [List.getElem?_eq_getElem hsome] at hname
    exact ⟨_, List.getElem?_eq_getElem hsome, hname⟩
  obtain ⟨sec, hsec, hname⟩ := hsection
  have hparse (size : reloc.size = 32) : file.parseReloc reloc =
      some (some ⟨reloc.offset, reloc.kind, reloc.addend, .ofSection sec.name⟩) := by
    simp [ElfFile.parseReloc, ElfFile.relocTarget, size, target, symbol, place, kept, hname]
  constructor
  · intro ⟨made, va, hmade, hva, hresolved⟩
    have hsize : reloc.size = 32 := by
      by_contra hne
      simp [ElfFile.parseReloc, hne] at hmade
    rw [hparse hsize] at hmade
    cases hmade
    have hfound := resolveReloc_ofSection.mp (hresolved .empty)
    rw [findSectionVa_eq] at hfound
    obtain ⟨first, hfirst, hplace⟩ := Option.bind_eq_some_iff.mp hfound
    exact ⟨hsize, sec, first, va, by rw [hmember]; exact hsec, hfirst, hva, hplace⟩
  · intro ⟨hsize, other, first, va, hother, hfirst, hva, hplace⟩
    rw [hmember, Option.bind_some, hsec] at hother
    cases hother
    refine ⟨_, va, hparse hsize, hva, fun modules => ?_⟩
    rw [resolveReloc_ofSection, findSectionVa_eq, hfirst]
    exact hplace

def sampleReloc : RelocEntry := ⟨0, .absolute, 32, 0, .symbol 1⟩
def sampleSymbol : SymbolEntry := ⟨some "f", .other, .linkage, some 1, 0⟩

/-- Code that refers to a function of its own, which starts it. -/
def sampleFile : ElfFile where
  sections := [
    ⟨none, .other, some [], 0, 0, []⟩,
    ⟨some ".text", .text, some (List.replicate 8 0), 8, 1, [sampleReloc]⟩]
  symbols := [⟨none, .unknown, .other, none, 0⟩, sampleSymbol]

def objectsOf (files : List ElfFile) : List ElfObject := (files.mapM ElfFile.parseElf).getD []

def stateOf (files : List ElfFile) : LinkerState :=
  (LinkerState.build (objectsOf files)).getD
    ⟨.new codeObjectBase, .new dataObjectBase, .empty, codeObjectBase⟩

theorem stateOf_built {files : List ElfFile}
    (h : (LinkerState.build (objectsOf files)).isSome = true) :
    LinkerState.build (objectsOf files) = some (stateOf files) := by
  obtain ⟨state, hstate⟩ := Option.isSome_iff_exists.mp h
  rw [stateOf, hstate]
  rfl

theorem symbol_resolves_iff_sample :
    SymbolResolves (objectsOf [sampleFile]) (stateOf [sampleFile]) .empty sampleFile
      sampleReloc 0 0 0 := by
  apply (@symbol_resolves_iff [sampleFile] (objectsOf [sampleFile]) (stateOf [sampleFile]) .empty
    (by decide) 0 0 1 1 sampleFile sampleReloc sampleSymbol rfl rfl rfl rfl
    (by decide)).mpr
  refine ⟨rfl, ⟨".text", .text, List.replicate 8 0, 1, [⟨0, .absolute, 0, .ofSection ".text"⟩]⟩,
    (0, 0, ⟨".text", .text, List.replicate 8 0, 1, [⟨0, .absolute, 0, .ofSection ".text"⟩]⟩),
    0x10000, by decide, by decide, by decide, by decide⟩

/-- In a second file of the same kind the reference leads to the code of the first. -/
theorem second_text_mixed_up :
    ¬ ∀ (files : List ElfFile) (objects : List ElfObject) (state : LinkerState) (defMap : DefMap),
      files.mapM ElfFile.parseElf = some objects → LinkerState.build objects = some state →
        ∀ (objIdx secIdx rawIdx symIdx : Nat) (file : ElfFile) (reloc : RelocEntry)
          (sym : SymbolEntry), files[objIdx]? = some file → reloc.target = .symbol symIdx →
            file.symbols[symIdx]? = some sym → sym.sectionIndex = some rawIdx →
              file.sectionIndexMap rawIdx = some secIdx → reloc.size = 32 →
                SymbolResolves objects state defMap file reloc objIdx secIdx sym.address := by
  intro claim
  obtain ⟨made, va, hmade, hva, hresolved⟩ := claim [sampleFile, sampleFile]
    (objectsOf [sampleFile, sampleFile]) (stateOf [sampleFile, sampleFile]) .empty
    (by decide) (stateOf_built (by decide)) 1 0 1 1 sampleFile sampleReloc
    sampleSymbol rfl rfl rfl rfl (by decide) rfl
  have hparse : sampleFile.parseReloc sampleReloc =
      some (some ⟨0, .absolute, 0, .ofSection ".text"⟩) := by decide
  have hplace : (stateOf [sampleFile, sampleFile]).sectionVa 1 0 = some 0x10008 := by
    decide
  cases (hparse.symm.trans hmade)
  cases (hplace.symm.trans hva)
  have hcall := hresolved .empty
  exact absurd hcall (by decide)

end Warpine.Linker
