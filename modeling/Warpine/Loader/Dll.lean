import Warpine.Loader.Fixups
import Warpine.Loader.MemoryManager
import Warpine.Lib.Run

/-! Loading and freeing user DLLs. The images beside the manager are a history
variable: which load made each registered DLL, and into which loads the fixups
of that load were resolved. -/
namespace Warpine.Loader
open Warpine.Lib Warpine.Guest Warpine.Lx Fixups

/-- The modules that are never looked for on the host. -/
def builtinModules : List String :=
  ["DOSCALLS", "QUECALLS", "PMWIN", "PMGPI", "KBDCALLS", "VIOCALLS", "SESMGR", "NLS", "MSG",
    "MDM", "UCONV"]

/-- What a load sees of the host: files, and the directories it searches. -/
structure Host where
  files : String → Option (List UInt8)
  pathExists : String → Bool
  exeDir : String
  driveC : Option String

namespace Host

def stripDll (name : String) : String :=
  let chars := name.toList
  if ".DLL".toList.isSuffixOf chars then String.ofList (chars.take (chars.length - 4)) else name

def findDllPath (host : Host) (dllName : String) : Option String :=
  let stem := stripDll (toAsciiUppercase dllName)
  let names := [stem.map Char.toLower ++ ".dll", stem ++ ".DLL"]
  let nearExe := if host.exeDir = "" then [] else names.map fun name => host.exeDir ++ "/" ++ name
  let system := match host.driveC with
    | some root => ["os2/dll", "OS2/DLL"].flatMap fun subdir =>
        names.map fun name => root ++ "/" ++ subdir ++ "/" ++ name
    | none => []
  (nearExe ++ system).find? host.pathExists

end Host

/-- A failed load, with the data of its message. -/
inductive LoadError where
  | openFile (path : String)
  | parse (path : String) (error : ReadError)
  | outOfMemory (name : String)
  | pageBounds (target : Nat)
  | pageRead
deriving DecidableEq, Repr

structure Image where
  instanceId : Nat
  resolvedInto : List Nat
deriving DecidableEq, Repr

/-- `loading` holds the names on the stack of the load in progress. The objects
of `unloading` wait for the unload routine of their DLL to return. -/
structure DllState where
  dllMgr : DllManager
  memMgr : MemoryManager
  mem : GuestMemory
  loading : List String
  unloading : List (List Nat)
  images : List Image
  nextInstance : Nat

namespace DllState

def new (base limit : UInt32) (mem : GuestMemory) : DllState where
  dllMgr := .new
  memMgr := .new base limit
  mem := mem
  loading := []
  unloading := []
  images := []
  nextInstance := 0

end DllState

/-- The bases so far, or `none` once the space ran out. The blocks before stay allocated. -/
abbrev Bases := Option (List Nat) × MemoryManager

/-- One more block, of at least one page. -/
def allocObject (placed : Bases) (obj : ObjectTableEntry) : Bases :=
  match placed with
  | (none, memMgr) => (none, memMgr)
  | (some bases, memMgr) => match memMgr.alloc (max obj.size 4096) with
    | none => (none, memMgr)
    | some (addr, memMgr) => (some (bases ++ [addr]), memMgr)

def allocObjects (memMgr : MemoryManager) (objects : List ObjectTableEntry) : Bases :=
  objects.foldl allocObject (some [], memMgr)

theorem allocObject_full {memMgr : MemoryManager} {obj : ObjectTableEntry}
    (h : memMgr.alloc (max obj.size 4096) = none) (known : List Nat) :
    allocObject (some known, memMgr) obj = (none, memMgr) := by
  unfold allocObject
  dsimp only
  rw [h]

theorem allocObject_placed {memMgr next : MemoryManager} {obj : ObjectTableEntry} {addr : Nat}
    (h : memMgr.alloc (max obj.size 4096) = some (addr, next)) (known : List Nat) :
    allocObject (some known, memMgr) obj = (some (known ++ [addr]), next) := by
  unfold allocObject
  dsimp only
  rw [h]

/-- After the first object that finds no space the others are not tried. -/
theorem foldl_allocObject_none (memMgr : MemoryManager) (objects : List ObjectTableEntry) :
    objects.foldl allocObject (none, memMgr) = (none, memMgr) := by
  induction objects with
  | nil => rfl
  | cons _ _ ih => exact ih

/-- The pages of an object that the file maps, with the address of each. -/
def mappedPages (file : LxFile) (base : Nat) (obj : ObjectTableEntry) :
    List (Nat × ObjectPageMapEntry) :=
  (List.range obj.pageCount).filterMap fun p =>
    (file.pageMap[obj.pageMapIndex - 1 + p]?).map (wrapAdd base (p * 4096), ·)

/-- A read that comes to the end of the file has filled the front of its page. -/
def loadPages (file : LxFile) (data : List UInt8) :
    List (Nat × ObjectPageMapEntry) → GuestMemory → Except LoadError Unit × GuestMemory
  | [], mem => (.ok (), mem)
  | (target, page) :: rest, mem =>
      let pageOff := file.header.dataPagesOffset + page.dataOffset <<< file.header.pageOffsetShift
      let bytes := (data.drop pageOff).take page.dataSize
      if page.dataSize = 0 then loadPages file data rest mem
      else if ¬ mem.inBounds target page.dataSize then (.error (.pageBounds target), mem)
      else if bytes.length < page.dataSize then (.error .pageRead, mem.putBytes target bytes)
      else loadPages file data rest (mem.putBytes target bytes)

def exportsByOrdinal (file : LxFile) (objectBases : List Nat) : Table Nat Nat :=
  file.exports.foldl (fun table entry =>
    match nth objectBases entry.objectNum with
    | some base => table.insert entry.ordinal (wrapAdd base entry.offset)
    | none => table) Table.empty

def exportsByName (file : LxFile) (byOrdinal : Table Nat Nat) : Table String Nat :=
  file.nonresidentNames.foldl (fun table entry =>
    match byOrdinal entry.1 with
    | some addr => table.insert (toAsciiUppercase entry.2) addr
    | none => table) Table.empty

def inittermAddr (file : LxFile) (objectBases : List Nat) : Option Nat :=
  (nth objectBases file.header.eipObject).map fun base => wrapAdd base file.header.eip

/-- Module and ordinal of an imported target, where its procedure has an ordinal. -/
def importOf (file : LxFile) : FixupTarget → Option (String × Nat)
  | .externalOrdinal moduleOrdinal procOrdinal =>
      some ((nth file.importedModules moduleOrdinal).getD "", procOrdinal)
  | .externalName moduleOrdinal procNameOffset =>
      let module := (nth file.importedModules moduleOrdinal).getD ""
      (ordinalOfName module ((file.getProcName procNameOffset).getD "")).map (module, ·)
  | _ => none

namespace DllState

def registered (s : DllState) : List (LoadedDll × Image) := s.dllMgr.dlls.zip s.images

/-- The image of the user DLL that an import is resolved in. -/
def importedImage (s : DllState) (module : String) (ordinal : Nat) : Option Image :=
  if (builtinBase module).isSome then none
  else (s.registered.find? fun entry => entry.1.name == toAsciiUppercase module).bind fun entry =>
    (entry.1.exportsByOrdinal ordinal).map fun _ => entry.2

/-- The instances that the applied fixups of a file are resolved into: every
record that writes something counts. -/
def resolvedInto (s : DllState) (file : LxFile) (objectBases : List Nat) : List Nat :=
  ((records file objectBases).filter fun entry =>
    !(recordWrites s.dllMgr file objectBases entry).isEmpty).filterMap fun entry =>
      ((importOf file entry.2.target).bind fun found => s.importedImage found.1 found.2).map
        Image.instanceId

/-- The last part of a load, after the fixups. -/
def registerDll (s : DllState) (name : String) (file : LxFile) (objectBases : List Nat)
    (mem : GuestMemory) : Nat × DllState :=
  let byOrdinal := exportsByOrdinal file objectBases
  let (handle, dllMgr) := s.dllMgr.allocHandle
  let dll : LoadedDll := {
    name, handle, objectBases
    exportsByOrdinal := byOrdinal
    exportsByName := exportsByName file byOrdinal
    refCount := 1
    inittermAddr := inittermAddr file objectBases
    isBuiltin := false }
  (handle, { s with
    dllMgr := dllMgr.register dll
    mem
    loading := s.loading.erase name
    images := s.images ++ [⟨s.nextInstance, s.resolvedInto file objectBases⟩]
    nextInstance := s.nextInstance + 1 })

end DllState

/-- A load that does not complete, by a panic or a recursion without end, is `none`. -/
abbrev LoadDll := String → String → DllState → Option (Except LoadError Nat × DllState)

/-- One round of the loop over the imported modules. A dependency that is there
already is left as it is; one that cannot be loaded only draws a warning. -/
def loadDependency (host : Host) (load : LoadDll) (s : DllState) (depName : String) :
    Option DllState :=
  let depUpper := toAsciiUppercase depName
  if depUpper ∈ builtinModules then some s
  else if (s.dllMgr.findByName depUpper).isSome then some s
  else if depUpper ∈ s.loading then some s
  else match host.findDllPath depUpper with
    | some depPath => (load depUpper depPath s).map Prod.snd
    | none => some s

/-- The rest of a load, once the file is parsed. -/
def loadFile (host : Host) (load : LoadDll) (name : String) (data : List UInt8) (file : LxFile)
    (s : DllState) : Option (Except LoadError Nat × DllState) :=
  match allocObjects s.memMgr file.objectTable with
  | (none, memMgr) => some (.error (.outOfMemory name), { s with memMgr })
  | (some objectBases, memMgr) =>
      let pages := (file.objectTable.zip objectBases).flatMap fun entry =>
        mappedPages file entry.2 entry.1
      match loadPages file data pages s.mem with
      | (.error e, mem) => some (.error e, { s with memMgr, mem })
      | (.ok (), mem) => do
          let s ← file.importedModules.foldlM (loadDependency host load)
            { s with memMgr, mem, loading := name :: s.loading }
          let mem ← applyFixups s.dllMgr file objectBases s.mem
          let (handle, s) := s.registerDll name file objectBases mem
          return (.ok handle, s)

/-- `load_dll_impl`, with its recursive calls as a parameter. -/
def loadDllStep (host : Host) (load : LoadDll) : LoadDll := fun dllName dllPath s =>
  let name := toAsciiUppercase dllName
  match s.dllMgr.findByName name with
  | some dll =>
      some (.ok dll.handle, { s with dllMgr := (s.dllMgr.incrementRefcount dll.handle).2 })
  | none => match host.files dllPath with
    | none => some (.error (.openFile dllPath), s)
    | some data => match LxFile.parse data with
      | .error e => some (.error (.parse dllPath e), s)
      | .ok file => loadFile host load name data file s

/-- Dependencies nest at most `depth` deep. -/
def loadDllImpl (host : Host) : Nat → LoadDll
  | 0 => fun _ _ _ => none
  | depth + 1 => loadDllStep host (loadDllImpl host depth)

/-- The library in a file of the host. -/
def imageAt (host : Host) (path : String) : Option LxFile :=
  (host.files path).bind fun data => (LxFile.parse data).toOption

theorem imageAt_eq_some_iff {host : Host} {path : String} {file : LxFile} :
    imageAt host path = some file ↔
      ∃ data, host.files path = some data ∧ LxFile.parse data = .ok file := by
  unfold imageAt
  rw [Option.bind_eq_some_iff]
  apply exists_congr
  intro data
  cases LxFile.parse data <;> simp [Except.toOption]

/-- The three ends of a load from a parsed file. -/
inductive FileLoad (host : Host) (load : LoadDll) (name : String) (data : List UInt8)
    (file : LxFile) (s : DllState) : Except LoadError Nat → DllState → Prop where
  | outOfMemory {memMgr : MemoryManager}
      (placed : allocObjects s.memMgr file.objectTable = (none, memMgr)) :
      FileLoad host load name data file s (.error (.outOfMemory name)) { s with memMgr }
  | badPage {objectBases : List Nat} {memMgr : MemoryManager} {error : LoadError}
      {mem : GuestMemory}
      (placed : allocObjects s.memMgr file.objectTable = (some objectBases, memMgr))
      (pages : loadPages file data ((file.objectTable.zip objectBases).flatMap fun entry =>
        mappedPages file entry.2 entry.1) s.mem = (.error error, mem)) :
      FileLoad host load name data file s (.error error) { s with memMgr, mem }
  | registered {objectBases : List Nat} {memMgr : MemoryManager} {mem fixed : GuestMemory}
      {linked : DllState}
      (placed : allocObjects s.memMgr file.objectTable = (some objectBases, memMgr))
      (pages : loadPages file data ((file.objectTable.zip objectBases).flatMap fun entry =>
        mappedPages file entry.2 entry.1) s.mem = (.ok (), mem))
      (dependencies : file.importedModules.foldlM (loadDependency host load)
        { s with memMgr, mem, loading := name :: s.loading } = some linked)
      (fixups : applyFixups linked.dllMgr file objectBases linked.mem = some fixed) :
      FileLoad host load name data file s (.ok (linked.registerDll name file objectBases fixed).1)
        (linked.registerDll name file objectBases fixed).2

/-- The three ends of a load by name. -/
inductive DllLoad (host : Host) (load : LoadDll) (dllName dllPath : String) (s : DllState) :
    Except LoadError Nat → DllState → Prop where
  | again {dll : LoadedDll} (found : s.dllMgr.findByName dllName = some dll) :
      DllLoad host load dllName dllPath s (.ok dll.handle)
        { s with dllMgr := (s.dllMgr.incrementRefcount dll.handle).2 }
  | unreadable (absent : s.dllMgr.findByName dllName = none) (image : imageAt host dllPath = none)
      (error : LoadError) : DllLoad host load dllName dllPath s (.error error) s
  | read {data : List UInt8} {file : LxFile} {result : Except LoadError Nat} {next : DllState}
      (absent : s.dllMgr.findByName dllName = none) (image : imageAt host dllPath = some file)
      (rest : FileLoad host load (toAsciiUppercase dllName) data file s result next) :
      DllLoad host load dllName dllPath s result next

section Ends

variable {host : Host} {load : LoadDll} {s next : DllState} {result : Except LoadError Nat}

theorem loadFile_ends {name : String} {data : List UInt8} {file : LxFile}
    (h : loadFile host load name data file s = some (result, next)) :
    FileLoad host load name data file s result next := by
  unfold loadFile at h
  split at h
  · rename_i memMgr placed
    cases h
    exact .outOfMemory placed
  · rename_i objectBases memMgr placed
    dsimp only at h
    split at h
    · rename_i error mem pages
      cases h
      exact .badPage placed pages
    · rename_i mem pages
      obtain ⟨linked, dependencies, h⟩ := Option.bind_eq_some_iff.mp h
      obtain ⟨fixed, fixups, h⟩ := Option.bind_eq_some_iff.mp h
      cases h
      exact .registered placed pages dependencies fixups

theorem loadDllStep_ends {dllName dllPath : String}
    (h : loadDllStep host load dllName dllPath s = some (result, next)) :
    DllLoad host load dllName dllPath s result next := by
  simp only [loadDllStep, DllManager.findByName_toAsciiUppercase] at h
  split at h
  · rename_i dll found
    cases h
    exact .again found
  · rename_i absent
    split at h
    · rename_i missing
      cases h
      exact .unreadable absent (by rw [imageAt, missing, Option.bind_none]) _
    · rename_i data hdata
      split at h
      · rename_i error malformed
        cases h
        refine .unreadable absent ?_ _
        rw [imageAt, hdata, Option.bind_some, malformed]
        rfl
      · rename_i file parsed
        exact .read absent (imageAt_eq_some_iff.mpr ⟨data, hdata, parsed⟩) (loadFile_ends h)

theorem loadDllImpl_ends {depth : Nat} {dllName dllPath : String}
    (h : loadDllImpl host depth dllName dllPath s = some (result, next)) :
    ∃ inner, DllLoad host (loadDllImpl host inner) dllName dllPath s result next := by
  cases depth with
  | zero => cases h
  | succ inner => exact ⟨inner, loadDllStep_ends h⟩

/-- A dependency is left out, or loaded, whatever becomes of that load. -/
theorem loadDependency_ends {depName : String}
    (h : loadDependency host load s depName = some next) :
    next = s ∨ toAsciiUppercase depName ∉ builtinModules ∧
      s.dllMgr.findByName depName = none ∧ toAsciiUppercase depName ∉ s.loading ∧
        ∃ depPath result, host.findDllPath (toAsciiUppercase depName) = some depPath ∧
          load (toAsciiUppercase depName) depPath s = some (result, next) := by
  simp only [loadDependency, DllManager.findByName_toAsciiUppercase] at h
  split at h
  · exact .inl (Option.some.inj h).symm
  rename_i user
  split at h
  · exact .inl (Option.some.inj h).symm
  rename_i unregistered
  split at h
  · exact .inl (Option.some.inj h).symm
  rename_i unloading
  split at h
  · rename_i depPath hpath
    obtain ⟨⟨result, after⟩, hload, rfl⟩ := Option.map_eq_some_iff.mp h
    exact .inr ⟨user, by simpa using unregistered, unloading, depPath, result, hpath, hload⟩
  · exact .inl (Option.some.inj h).symm

end Ends

/-- Whatever the one completes, the other completes with the same result. -/
def Extends (more load : LoadDll) : Prop :=
  ∀ name path s result, load name path s = some result → more name path s = some result

theorem loadDependency_mono {host : Host} {load more : LoadDll} (h : Extends more load)
    {s next : DllState} {depName : String} (hrun : loadDependency host load s depName = some next) :
    loadDependency host more s depName = some next := by
  unfold loadDependency at hrun ⊢
  dsimp only at hrun ⊢
  split at hrun
  · rwa [if_pos ‹_›]
  · rw [if_neg ‹_›]
    split at hrun
    · rwa [if_pos ‹_›]
    · rw [if_neg ‹_›]
      split at hrun
      · rwa [if_pos ‹_›]
      · rw [if_neg ‹_›]
        cases hpath : host.findDllPath (toAsciiUppercase depName) with
        | none => rwa [hpath] at hrun
        | some depPath =>
          rw [hpath] at hrun
          obtain ⟨result, hload, rfl⟩ := Option.map_eq_some_iff.mp hrun
          exact Option.map_eq_some_iff.mpr ⟨result, h _ _ _ _ hload, rfl⟩

theorem dependencies_mono {host : Host} {load more : LoadDll} (h : Extends more load)
    {names : List String} {s next : DllState}
    (hrun : names.foldlM (loadDependency host load) s = some next) :
    names.foldlM (loadDependency host more) s = some next := by
  induction names generalizing s with
  | nil => exact hrun
  | cons name rest ih =>
    rw [List.foldlM_cons] at hrun ⊢
    obtain ⟨middle, hfirst, hrest⟩ := Option.bind_eq_some_iff.mp hrun
    exact Option.bind_eq_some_iff.mpr ⟨middle, loadDependency_mono h hfirst, ih hrest⟩

theorem loadFile_mono {host : Host} {load more : LoadDll} (h : Extends more load) {name : String}
    {data : List UInt8} {file : LxFile} {s : DllState}
    {result : Except LoadError Nat × DllState}
    (hrun : loadFile host load name data file s = some result) :
    loadFile host more name data file s = some result := by
  unfold loadFile at hrun ⊢
  split at hrun
  · exact hrun
  · dsimp only at hrun ⊢
    split at hrun
    · exact hrun
    · obtain ⟨linked, hdeps, hrest⟩ := Option.bind_eq_some_iff.mp hrun
      exact Option.bind_eq_some_iff.mpr ⟨linked, dependencies_mono h hdeps, hrest⟩

theorem loadDllStep_mono {host : Host} {load more : LoadDll} (h : Extends more load) :
    Extends (loadDllStep host more) (loadDllStep host load) := by
  intro dllName dllPath s result hrun
  unfold loadDllStep at hrun ⊢
  dsimp only at hrun ⊢
  split at hrun
  · exact hrun
  · split at hrun
    · exact hrun
    · split at hrun
      · exact hrun
      · exact loadFile_mono h hrun

/-- More depth never changes the result of a load that completes. -/
theorem loadDllImpl_mono (host : Host) :
    ∀ depth, Extends (loadDllImpl host (depth + 1)) (loadDllImpl host depth)
  | 0 => fun _ _ _ _ hrun => nomatch hrun
  | depth + 1 => loadDllStep_mono (loadDllImpl_mono host depth)

def loadDll (host : Host) (depth : Nat) : LoadDll := fun dllName dllPath s =>
  loadDllImpl host depth dllName dllPath { s with loading := [] }

def freeBlocks (memMgr : MemoryManager) (bases : List Nat) : MemoryManager :=
  bases.foldl (fun memMgr base => (memMgr.free base).2) memMgr

/-- The objects go at once, or after the unload routine where the DLL has one. -/
def dosFreeModule (s : DllState) (hmod : Nat) : DllState :=
  match s.dllMgr.decrementRefcount hmod with
  | (none, dllMgr) => { s with dllMgr }
  | (some (bases, initterm), dllMgr) =>
      let s := { s with
        dllMgr
        images := match s.dllMgr.position hmod with
          | some (idx, _) => s.images.eraseIdx idx
          | none => s.images }
      match initterm with
      | some _ => { s with unloading := s.unloading ++ [bases] }
      | none => { s with memMgr := freeBlocks s.memMgr bases }

/-- The unload routine of a DLL returned. -/
def initTermUnload (s : DllState) (idx : Nat) : DllState :=
  { s with
    memMgr := freeBlocks s.memMgr ((s.unloading[idx]?).getD [])
    unloading := s.unloading.eraseIdx idx }

end Warpine.Loader
