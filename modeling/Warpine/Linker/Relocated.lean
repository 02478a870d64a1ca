import Mathlib.Data.List.Induction
import Warpine.Linker.Writer

/-! What the loop over the relocations leaves: the modules in the order of their
first use, the fixups of every page and the patches, each in the order of the
relocations they come from. -/
namespace Warpine.Linker
open Warpine.Lib

/-- The number of a module, given all modules that are used, in order. -/
def moduleNumber (names : List String) (name : String) : Nat :=
  (names.eraseDups.idxOf name + 1) % 256

theorem moduleNumber_append {names : List String} {name : String} (more : List String)
    (h : name ∈ names) : moduleNumber (names ++ more) name = moduleNumber names name := by
  unfold moduleNumber
  rw [List.eraseDups_append, List.idxOf_append, if_pos (by simpa using h)]

theorem eraseDups_snoc (names : List String) (name : String) :
    (names ++ [name]).eraseDups =
      if name ∈ names then names.eraseDups else names.eraseDups ++ [name] := by
  rw [List.eraseDups_append]
  by_cases h : name ∈ names <;> simp [h, List.removeAll, List.eraseDups_cons]

/-- The table holds these modules. -/
structure ModuleTable.Lists (modules : ModuleTable) (names : List String) : Prop where
  imported : modules.importedModules = names.eraseDups
  numbers : ∀ name, modules.moduleMap name =
    if name ∈ names then some (moduleNumber names name) else none

theorem getOrInsertModule_spec {modules : ModuleTable} {names : List String} (name : String)
    (h : modules.Lists names) :
    (getOrInsertModule name modules).1 = moduleNumber (names ++ [name]) name ∧
      (getOrInsertModule name modules).2.Lists (names ++ [name]) := by
  unfold getOrInsertModule
  rw [h.numbers name]
  by_cases hmem : name ∈ names
  · rw [if_pos hmem]
    dsimp only
    refine ⟨(moduleNumber_append _ hmem).symm, ?_, fun other => ?_⟩
    · rw [h.imported, eraseDups_snoc, if_pos hmem]
    · rw [h.numbers other]
      by_cases hother : other ∈ names
      · rw [if_pos hother, if_pos (List.mem_append_left _ hother), moduleNumber_append _ hother]
      · have hne : other ≠ name := fun same => hother (same ▸ hmem)
        simp [hother, hne]
  · rw [if_neg hmem]
    dsimp only
    have hnumber : moduleNumber (names ++ [name]) name =
        (modules.importedModules ++ [name]).length % 256 := by
      have hfresh : name ∉ names.eraseDups := by simpa using hmem
      rw [moduleNumber, eraseDups_snoc, if_neg hmem, h.imported, List.idxOf_append,
        if_neg hfresh, List.length_append]
      simp
    refine ⟨hnumber.symm, ?_, fun other => ?_⟩
    · dsimp only
      rw [h.imported, eraseDups_snoc, if_neg hmem]
    · dsimp only
      by_cases hsame : other = name
      · rw [hsame, Table.insert_self, if_pos (by simp), hnumber]
      · rw [Table.insert_ne _ _ hsame, h.numbers other]
        by_cases hother : other ∈ names
        · rw [if_pos hother, if_pos (List.mem_append_left _ hother),
            moduleNumber_append _ hother]
        · simp [hother, hsame]

section Loop

variable (objects : List ElfObject) (state : LinkerState) (defMap : DefMap)

/-- The address of a target inside the program. -/
def internalVa (reloc : Reloc) : Option Nat :=
  match reloc.target with
  | .symbol name => state.symbolTable name
  | .ofSection secName => findSectionVa objects state secName

/-- The import that a target stands for. -/
def importOf (reloc : Reloc) : Option (String × UInt32) :=
  match reloc.target with
  | .symbol name => if (state.symbolTable name).isSome then none else defMap name
  | .ofSection _ => none

/-- The address the linker resolves a target to, or 0. -/
def targetVa (reloc : Reloc) : Nat :=
  match internalVa objects state reloc with
  | some va => va
  | none => match importOf state defMap reloc with
    | some (module, ordinal) => resolveImport module ordinal.toNat
    | none => 0

def fixupTarget (names : List String) (reloc : Reloc) : Option FixupTarget :=
  match internalVa objects state reloc with
  | some va => some (internalTarget va)
  | none => (importOf state defMap reloc).map fun entry =>
      .externalOrdinal (moduleNumber names entry.1) entry.2.toNat

/-- The modules that relocations refer to, in order. -/
def uses (list : List PlacedReloc) : List String :=
  list.filterMap fun placed => (importOf state defMap placed.reloc).map Prod.fst

def isLinked (placed : PlacedReloc) (kind : RelocationKind) : Bool :=
  placed.reloc.kind == kind && targetVa objects state defMap placed.reloc != 0

/-- The fixup made for a relocation. -/
def fixupOf (names : List String) (placed : PlacedReloc) : Option LxFixup :=
  if isLinked objects state defMap placed .absolute then
    (fixupTarget objects state defMap names placed.reloc).map fun target =>
      ⟨0x07, placed.pageOff, target⟩
  else none

/-- The fixups made for one page, in the order of the relocations. -/
def fixupsOn (list : List PlacedReloc) (isCode : Bool) (pageIdx : Nat) : List LxFixup :=
  (list.filter fun placed => placed.isCode == isCode && placed.pageIdx == pageIdx).filterMap
    (fixupOf objects state defMap (uses state defMap list))

def absoluteWord (placed : PlacedReloc) : Nat :=
  word (targetVa objects state defMap placed.reloc + placed.reloc.addend)

def relativeWord (placed : PlacedReloc) : Nat :=
  word (targetVa objects state defMap placed.reloc - (placed.sourceVa + 4) +
    placed.reloc.addend)

def absolutePatch (isCode : Bool) (placed : PlacedReloc) : Option (Nat × Nat) :=
  if placed.isCode == isCode && isLinked objects state defMap placed .absolute then
    some (placed.bufOff, absoluteWord objects state defMap placed)
  else none

def relativePatch (isCode : Bool) (placed : PlacedReloc) : Option (Nat × Nat) :=
  if placed.isCode == isCode && isLinked objects state defMap placed .relative then
    some (placed.bufOff, relativeWord objects state defMap placed)
  else none

theorem resolveReloc_spec {modules : ModuleTable} {names : List String} (reloc : Reloc)
    (h : modules.Lists names) :
    let used := names ++ ((importOf state defMap reloc).map Prod.fst).toList
    (resolveReloc objects state defMap reloc modules).1 =
        (targetVa objects state defMap reloc, fixupTarget objects state defMap used reloc) ∧
      (resolveReloc objects state defMap reloc modules).2.Lists used := by
  obtain ⟨offset, kind, addend, target⟩ := reloc
  cases target with
  | symbol name =>
    cases hsymbol : state.symbolTable name with
    | some va => simpa [resolveReloc, targetVa, fixupTarget, internalVa, importOf, hsymbol] using h
    | none =>
      cases himport : defMap name with
      | none =>
        simpa [resolveReloc, targetVa, fixupTarget, internalVa, importOf, hsymbol, himport] using h
      | some entry =>
        obtain ⟨module, ordinal⟩ := entry
        have hmodule := getOrInsertModule_spec module h
        simp only [resolveReloc, targetVa, fixupTarget, internalVa, importOf, hsymbol, himport,
          Option.isSome_none, Bool.false_eq_true, if_false, Option.map_some, Option.toList_some]
        exact ⟨by rw [hmodule.1], hmodule.2⟩
  | ofSection secName =>
    cases hsection : findSectionVa objects state secName with
    | some va =>
      simpa [resolveReloc, targetVa, fixupTarget, internalVa, importOf, hsection] using h
    | none =>
      simpa [resolveReloc, targetVa, fixupTarget, internalVa, importOf, hsection] using h

theorem uses_snoc (list : List PlacedReloc) (placed : PlacedReloc) :
    uses state defMap (list ++ [placed]) =
      uses state defMap list ++ ((importOf state defMap placed.reloc).map Prod.fst).toList := by
  unfold uses
  rw [List.filterMap_append]
  cases h : importOf state defMap placed.reloc <;> simp [h]

variable {objects state defMap}

/-- The module of a relocation in the list keeps its number. -/
theorem fixupOf_append {list : List PlacedReloc} {placed : PlacedReloc} (more : List String)
    (h : placed ∈ list) :
    fixupOf objects state defMap (uses state defMap list ++ more) placed =
      fixupOf objects state defMap (uses state defMap list) placed := by
  have htarget : fixupTarget objects state defMap (uses state defMap list ++ more) placed.reloc =
      fixupTarget objects state defMap (uses state defMap list) placed.reloc := by
    unfold fixupTarget
    cases internalVa objects state placed.reloc with
    | some va => rfl
    | none =>
      cases himport : importOf state defMap placed.reloc with
      | none => rfl
      | some entry =>
        have hmember : entry.1 ∈ uses state defMap list :=
          List.mem_filterMap.mpr ⟨placed, h, by rw [himport]; rfl⟩
        simp only [Option.map_some, moduleNumber_append more hmember]
  unfold fixupOf
  rw [htarget]

theorem fixupsOn_snoc (list : List PlacedReloc) (placed : PlacedReloc) (isCode : Bool)
    (pageIdx : Nat) :
    fixupsOn objects state defMap (list ++ [placed]) isCode pageIdx =
      fixupsOn objects state defMap list isCode pageIdx ++
        if placed.isCode = isCode ∧ placed.pageIdx = pageIdx then
          (fixupOf objects state defMap (uses state defMap (list ++ [placed])) placed).toList
        else [] := by
  unfold fixupsOn
  rw [List.filter_append, List.filterMap_append]
  congr 1
  · apply List.filterMap_congr
    intro other hother
    rw [uses_snoc, fixupOf_append _ (List.mem_of_mem_filter hother)]
  · by_cases hcode : placed.isCode = isCode <;> by_cases hpage : placed.pageIdx = pageIdx <;>
      simp [hcode, hpage, filterMap_singleton]

end Loop

/-- What has an address has a target for its fixup. -/
theorem fixupTarget_isSome {objects : List ElfObject} {state : LinkerState} {defMap : DefMap}
    {reloc : Reloc} (names : List String) (h : targetVa objects state defMap reloc ≠ 0) :
    ∃ target, fixupTarget objects state defMap names reloc = some target := by
  unfold targetVa at h
  unfold fixupTarget
  cases hva : internalVa objects state reloc with
  | some va => exact ⟨_, rfl⟩
  | none =>
    cases himport : importOf state defMap reloc with
    | some entry => exact ⟨_, rfl⟩
    | none => simp [hva, himport] at h

variable (objects : List ElfObject) (state : LinkerState) (defMap : DefMap)

/-- The tables after the relocations of a list. -/
structure TablesFor (list : List PlacedReloc) (tables : Tables) : Prop where
  modules : tables.modules.Lists (uses state defMap list)
  codeFixups : tables.codeFixups = (List.range (codePages state)).map
    (fixupsOn objects state defMap list true)
  dataFixups : tables.dataFixups = (List.range (dataPages state)).map
    (fixupsOn objects state defMap list false)
  codePatches : tables.codePatches = list.filterMap (absolutePatch objects state defMap true)
  codePatchesI32 : tables.codePatchesI32 = list.filterMap (relativePatch objects state defMap true)
  dataPatches : tables.dataPatches = list.filterMap fun placed =>
    (absolutePatch objects state defMap false placed).orElse fun _ =>
      relativePatch objects state defMap false placed

/-- One more fixup on one of the pages. -/
theorem pushFixup_range (count pageIdx : Nat) (pages : Nat → List LxFixup) (fixup : LxFixup) :
    pushFixup ((List.range count).map pages) pageIdx fixup =
      (List.range count).map fun other =>
        pages other ++ if pageIdx = other then [fixup] else [] := by
  apply List.ext_getElem?
  intro i
  unfold pushFixup
  rw [List.getElem?_modify, List.getElem?_map, List.getElem?_map]
  by_cases hi : i < count
  · by_cases hsame : pageIdx = i <;> simp [List.getElem?_range hi, hsame]
  · simp [List.getElem?_eq_none (show (List.range count).length ≤ i by simpa using hi)]

theorem relocate_spec {list : List PlacedReloc} {tables : Tables} (placed : PlacedReloc)
    (h : TablesFor objects state defMap list tables) :
    TablesFor objects state defMap (list ++ [placed])
      (relocate objects state defMap tables placed) := by
  have hresolve := resolveReloc_spec objects state defMap placed.reloc h.modules
  rw [← uses_snoc] at hresolve
  obtain ⟨hresult, hmodules⟩ := hresolve
  have hcodeFixups := h.codeFixups
  have hdataFixups := h.dataFixups
  have hcode := h.codePatches
  have hcodeI32 := h.codePatchesI32
  have hdata := h.dataPatches
  unfold relocate
  cases hresolved : resolveReloc objects state defMap placed.reloc tables.modules with
  | mk found modules =>
    rw [hresolved] at hresult hmodules
    dsimp only at hresult hmodules ⊢
    subst hresult
    dsimp only
    by_cases hzero : targetVa objects state defMap placed.reloc = 0
    · have hlinked (kind : RelocationKind) : isLinked objects state defMap placed kind = false := by
        simp [isLinked, hzero]
      rw [if_pos hzero]
      constructor <;>
        simp [hmodules, hcodeFixups, hdataFixups, hcode, hcodeI32, hdata, fixupsOn_snoc, fixupOf,
          absolutePatch, relativePatch, hlinked]
    · have hlinked (kind : RelocationKind) :
          isLinked objects state defMap placed kind = (placed.reloc.kind == kind) := by
        simp [isLinked, hzero]
      rw [if_neg hzero]
      cases hkind : placed.reloc.kind with
      | absolute =>
        obtain ⟨target, htarget⟩ := fixupTarget_isSome
          (uses state defMap (list ++ [placed])) hzero
        have hfixup : fixupOf objects state defMap (uses state defMap (list ++ [placed])) placed =
            some ⟨0x07, placed.pageOff, target⟩ := by
          simp [fixupOf, hlinked, hkind, htarget]
        cases hisCode : placed.isCode <;> constructor <;>
          simp [hmodules, hcodeFixups, hdataFixups, hcode, hcodeI32, hdata, fixupsOn_snoc,
            hfixup, htarget, absolutePatch, relativePatch, hlinked, hkind, hisCode, addFixup,
            addPatch, pushFixup_range, absoluteWord]
      | relative =>
        cases hisCode : placed.isCode <;> constructor <;>
          simp [hmodules, hcodeFixups, hdataFixups, hcode, hcodeI32, hdata, fixupsOn_snoc,
            fixupOf, absolutePatch, relativePatch, hlinked, hkind, hisCode, addRelativePatch,
            relativeWord]
      | other =>
        constructor <;>
          simp [hmodules, hcodeFixups, hdataFixups, hcode, hcodeI32, hdata, fixupsOn_snoc,
            fixupOf, absolutePatch, relativePatch, hlinked, hkind]

theorem linkTables_spec : TablesFor objects state defMap (placedRelocs objects state)
    (linkTables objects state defMap) := by
  unfold linkTables
  induction placedRelocs objects state using List.reverseRecOn with
  | nil =>
    constructor
    · exact ⟨rfl, fun _ => rfl⟩
    · change _ = (List.range (codePages state)).map fun _ => []
      simp
    · change _ = (List.range (dataPages state)).map fun _ => []
      simp
    · rfl
    · rfl
    · rfl
  | append_singleton list placed ih =>
    rw [List.foldl_append]
    exact relocate_spec objects state defMap placed ih

end Warpine.Linker
