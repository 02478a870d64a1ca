import Warpine.Vcpu.ModuleRefs

/-! The address of a procedure: as a running program asks for it by the handle of a module,
and as a fixup binds it by the module's name. -/
namespace Warpine.Vcpu
open Warpine.Lib Warpine.Guest Warpine.Loader Warpine.Lx

def errorProcNotFound : Nat := 127

/-- The `addr` of `dos_query_proc_addr`. A call without a name has the empty one. -/
def queryProcAddr (dllMgr : DllManager) (hmod ordinal : Nat) (name : String) : Option Nat :=
  (dllMgr.findByHandle hmod).bind fun dll =>
    if dll.isBuiltin then
      if ordinal ≠ 0 then some (resolveImport dllMgr dll.name ordinal % u32Size) else none
    else if name ≠ "" then dll.exportsByName (toAsciiUppercase name)
    else if ordinal ≠ 0 then dll.exportsByOrdinal ordinal
    else none

def dosQueryProcAddr (dllMgr : DllManager) (mem : GuestMemory) (hmod ordinal : Nat) (name : String)
    (pPfn : Nat) : Nat × GuestMemory :=
  match queryProcAddr dllMgr hmod ordinal name with
  | some guestAddr => (0, mem.putAt 4 pPfn guestAddr)
  | none => (errorProcNotFound, mem.putAt 4 pPfn 0)

/-- The two ways to name an export. -/
inductive ProcRequest where
  | ordinal (num : UInt32)
  | name (procName : String)

/-- What the last stub stands for: an import that nobody exports. -/
def unknownImport : Nat := magicApiBase + (stubAreaSize - 1)

def Usable (addr : Nat) : Prop := addr ≠ 0 ∧ addr ≠ unknownImport

instance (addr : Nat) : Decidable (Usable addr) := inferInstanceAs (Decidable (_ ∧ _))

/-- The two values of a failed import give no address. -/
def reported (addr : Nat) : Option Nat := if Usable addr then some addr else none

namespace ProcRequest

variable (dllMgr : DllManager) (hmod : Nat) (module : String)

def query : ProcRequest → Option Nat
  | ordinal num => queryProcAddr dllMgr hmod num.toNat ""
  | name procName => queryProcAddr dllMgr hmod 0 procName

/-- The word that a fixup of an import writes. -/
def bound : ProcRequest → Nat
  | ordinal num => resolveImport dllMgr module num.toNat % u32Size
  | name procName => resolveImportByName dllMgr module procName % u32Size

/-- The address of the query is the one of the import, or neither has one. -/
def SameBinding (request : ProcRequest) : Prop :=
  request.query dllMgr hmod = reported (request.bound dllMgr module)

end ProcRequest

/-- The stub that an emulated module has for an ordinal. -/
def stubFor (module : String) (ordinal : Nat) : Option Nat :=
  (builtinBase module).map fun base => (magicApiBase + base + ordinal) % u32Size

/-- The stub that an emulated module has for a name. -/
def stubNamed (module procName : String) : Option Nat :=
  (ordinalOfName module procName).bind (stubFor module)

/-- When a module's two resolvers agree. An emulated module has no names at run time, a
user DLL none at load time; a module that is spelt in another way than its stubs are listed
under is no emulated one at load time. -/
def Agrees (dll : LoadedDll) (module : String) : ProcRequest → Prop
  | .ordinal num => match dll.isBuiltin, stubFor module num.toNat with
      | true, some stub => num ≠ 0 ∧ Usable stub
      | true, none => num = 0
      | false, some stub =>
          if Usable stub then num ≠ 0 ∧ dll.exportsByOrdinal num.toNat = some stub
          else num = 0 ∨ dll.exportsByOrdinal num.toNat = none
      | false, none => ∀ addr ∈ dll.exportsByOrdinal num.toNat, Usable addr ↔ num ≠ 0
  | .name procName => match dll.isBuiltin, stubNamed module procName with
      | true, some _ => False
      | true, none => True
      | false, some stub => dll.exportsByName (toAsciiUppercase procName) = some stub
      | false, none =>
          procName = "" ∨ dll.exportsByName (toAsciiUppercase procName) = none

/-- What a registration gives of a module's exports. -/
structure Registered (dll : LoadedDll) : Prop where
  empty : dll.isBuiltin → dll.exportsByOrdinal = Table.empty
  words : ∀ ordinal, ∀ addr ∈ dll.exportsByOrdinal ordinal, addr < u32Size

theorem reported_eq_self {addr : Nat} : some addr = reported addr ↔ Usable addr := by
  unfold reported
  split <;> simp_all

theorem reported_eq_none {addr : Nat} : none = reported addr ↔ ¬Usable addr := by
  unfold reported
  split <;> simp_all

theorem reported_unknownImport : reported unknownImport = none := if_neg fun usable => usable.2 rfl

section Names

theorem moduleBases_upper : ∀ entry ∈ moduleBases, toAsciiUppercase entry.1 = entry.1 := by
  decide +kernel

/-- The emulated modules are listed by their names in upper case. -/
theorem builtinBase_upper {module : String} {base : Nat} (h : builtinBase module = some base) :
    toAsciiUppercase module = module := by
  obtain ⟨entry, hentry, -⟩ := Option.map_eq_some_iff.mp h
  have same : entry.1 = module := by simpa using List.find?_some hentry
  rw [← same]
  exact moduleBases_upper entry (List.mem_of_find?_eq_some hentry)

theorem moduleBases_usable : ∀ entry ∈ moduleBases,
    Usable ((magicApiBase + entry.2 + 0) % u32Size) := by
  decide

/-- The first stub of an emulated module is an address like the others. -/
theorem stubFor_zero {module : String} {stub : Nat} (h : stubFor module 0 = some stub) :
    Usable stub := by
  obtain ⟨base, hbase, rfl⟩ := Option.map_eq_some_iff.mp h
  obtain ⟨entry, hentry, rfl⟩ := Option.map_eq_some_iff.mp hbase
  exact moduleBases_usable entry (List.mem_of_find?_eq_some hentry)

/-- The name lists of the emulated modules as one table. -/
def builtinNames : List ApiEntry :=
  viocallsNames.map (fun entry => ⟨entry.2, "VIOCALLS", entry.1⟩) ++
    kbdcallsNames.map (fun entry => ⟨entry.2, "KBDCALLS", entry.1⟩) ++ registry

/-- Every name that is listed has one of the emulated modules' stubs. -/
theorem builtinNames_usable : ∀ entry ∈ builtinNames, entry.name ≠ "" ∧
    ∃ stub ∈ stubFor entry.module entry.ordinal, Usable stub := by
  decide +kernel

theorem findName_mem {names : List (String × Nat)} {procName : String} {ordinal : Nat}
    (h : findName names procName = some ordinal) : (procName, ordinal) ∈ names := by
  obtain ⟨entry, hentry, rfl⟩ := Option.map_eq_some_iff.mp h
  have same : entry.1 = procName := by simpa using List.find?_some hentry
  exact same ▸ List.mem_of_find?_eq_some hentry

theorem ordinalOfName_mem {module procName : String} {ordinal : Nat}
    (h : ordinalOfName module procName = some ordinal) :
    ⟨ordinal, module, procName⟩ ∈ builtinNames := by
  unfold ordinalOfName at h
  unfold builtinNames
  rw [List.mem_append, List.mem_append, List.mem_map, List.mem_map]
  split at h
  · rename_i vio
    exact .inl (.inl ⟨_, findName_mem h, vio ▸ rfl⟩)
  split at h
  · rename_i kbd
    exact .inl (.inr ⟨_, findName_mem h, kbd ▸ rfl⟩)
  · obtain ⟨entry, hentry, rfl⟩ := Option.map_eq_some_iff.mp h
    have same : entry.module = module ∧ entry.name = procName := by
      simpa using List.find?_some hentry
    obtain ⟨rfl, rfl⟩ := same
    exact .inr (List.mem_of_find?_eq_some hentry)

/-- A name is bound to a stub, or not at all. -/
theorem stubNamed_cases (module procName : String) :
    (ordinalOfName module procName = none ∧ stubNamed module procName = none) ∨
      procName ≠ "" ∧ ∃ ordinal stub, ordinalOfName module procName = some ordinal ∧
        stubFor module ordinal = some stub ∧ stubNamed module procName = some stub ∧
          Usable stub := by
  unfold stubNamed
  cases hordinal : ordinalOfName module procName with
  | none => exact .inl ⟨rfl, rfl⟩
  | some ordinal =>
    obtain ⟨named, stub, hstub, usable⟩ := builtinNames_usable _ (ordinalOfName_mem hordinal)
    exact .inr ⟨named, ordinal, stub, rfl, hstub, hstub, usable⟩

end Names

section Resolvers

variable {dllMgr : DllManager} {dll : LoadedDll} {hmod : Nat} {module : String}

/-- An import of an emulated module goes to its stub, any other one to the tables of the
DLL of that name. -/
theorem resolveImport_word (byName : dllMgr.findByName module = some dll)
    (registered : Registered dll) (ordinal : Nat) :
    resolveImport dllMgr module ordinal % u32Size =
      match stubFor module ordinal with
      | some stub => stub
      | none => (dll.exportsByOrdinal ordinal).getD unknownImport := by
  unfold resolveImport stubFor
  cases builtinBase module with
  | some base => rfl
  | none =>
    have hresolve : dllMgr.resolveOrdinal module ordinal = dll.exportsByOrdinal ordinal := by
      rw [DllManager.resolveOrdinal, byName, Option.bind_some]
    simp only [hresolve, Option.map_none]
    apply Nat.mod_eq_of_lt
    cases hexport : dll.exportsByOrdinal ordinal with
    | none => exact show unknownImport < u32Size by decide
    | some addr => exact registered.words ordinal addr hexport

/-- At run time an emulated module is known by its own name. -/
theorem query_builtin (byHandle : dllMgr.findByHandle hmod = some dll) (builtin : dll.isBuiltin)
    (ordinal : Nat) (name : String) : queryProcAddr dllMgr hmod ordinal name =
      if ordinal ≠ 0 then some (resolveImport dllMgr dll.name ordinal % u32Size) else none := by
  rw [queryProcAddr, byHandle, Option.bind_some, if_pos builtin]

theorem query_user (byHandle : dllMgr.findByHandle hmod = some dll) (user : dll.isBuiltin = false)
    (ordinal : Nat) (name : String) : queryProcAddr dllMgr hmod ordinal name =
      if name ≠ "" then dll.exportsByName (toAsciiUppercase name)
      else if ordinal ≠ 0 then dll.exportsByOrdinal ordinal else none := by
  rw [queryProcAddr, byHandle, Option.bind_some, if_neg (by simp [user])]

theorem findByName_name (byName : dllMgr.findByName module = some dll) :
    dll.name = toAsciiUppercase module := by
  simpa using List.find?_some byName

/-- An emulated module's own name leads to its stubs. -/
theorem stubFor_name (byName : dllMgr.findByName module = some dll) {ordinal stub : Nat}
    (h : stubFor module ordinal = some stub) :
    resolveImport dllMgr dll.name ordinal % u32Size = stub := by
  obtain ⟨base, hbase, rfl⟩ := Option.map_eq_some_iff.mp h
  have same : dll.name = module := (findByName_name byName).trans (builtinBase_upper hbase)
  rw [same, resolveImport, hbase]

theorem bound_name (procName : String) (byName : dllMgr.findByName module = some dll)
    (registered : Registered dll) :
    reported ((ProcRequest.name procName).bound dllMgr module) = stubNamed module procName := by
  change reported (resolveImportByName dllMgr module procName % u32Size) = _
  unfold resolveImportByName
  rcases stubNamed_cases module procName with
    ⟨unlisted, absent⟩ | ⟨_, ordinal, stub, listed, hstub, named, usable⟩
  · rw [unlisted, absent]
    rfl
  · rw [listed, named]
    dsimp only
    rw [resolveImport_word byName registered, hstub]
    exact if_pos usable

end Resolvers

section Agreement

variable {dllMgr : DllManager} {dll : LoadedDll} {hmod : Nat} {module : String}

/-- Ordinal 0 of an emulated module is its first stub at load time and nothing at run time. -/
theorem builtin_ordinal (byHandle : dllMgr.findByHandle hmod = some dll)
    (byName : dllMgr.findByName module = some dll) (registered : Registered dll)
    (builtin : dll.isBuiltin) (ordinal : Nat) :
    queryProcAddr dllMgr hmod ordinal "" =
      reported (resolveImport dllMgr module ordinal % u32Size) ↔
        match stubFor module ordinal with
        | some stub => ordinal ≠ 0 ∧ Usable stub
        | none => ordinal = 0 := by
  rw [resolveImport_word byName registered, query_builtin byHandle builtin]
  cases hstub : stubFor module ordinal with
  | some stub =>
    rw [stubFor_name byName hstub]
    dsimp only
    by_cases start : ordinal = 0
    · subst start
      have first : reported stub = some stub := if_pos (stubFor_zero hstub)
      simp [first]
    · rw [if_pos start, reported_eq_self]
      exact (and_iff_right start).symm
  | none => simp [registered.empty builtin, reported_unknownImport]

theorem user_ordinal (byHandle : dllMgr.findByHandle hmod = some dll)
    (byName : dllMgr.findByName module = some dll) (registered : Registered dll)
    (user : dll.isBuiltin = false) (ordinal : Nat) :
    queryProcAddr dllMgr hmod ordinal "" =
      reported (resolveImport dllMgr module ordinal % u32Size) ↔
        match stubFor module ordinal with
        | some stub =>
            if Usable stub then ordinal ≠ 0 ∧ dll.exportsByOrdinal ordinal = some stub
            else ordinal = 0 ∨ dll.exportsByOrdinal ordinal = none
        | none => ∀ addr ∈ dll.exportsByOrdinal ordinal, Usable addr ↔ ordinal ≠ 0 := by
  have unnamed : ¬("" : String) ≠ "" := by simp
  rw [resolveImport_word byName registered, query_user byHandle user, if_neg unnamed]
  cases hstub : stubFor module ordinal with
  | some stub =>
    dsimp only
    by_cases usable : Usable stub
    · have bound : reported stub = some stub := if_pos usable
      rw [bound, if_pos usable]
      by_cases start : ordinal = 0 <;> simp [start]
    · rw [← reported_eq_none.mpr usable, if_neg usable]
      by_cases start : ordinal = 0 <;> simp [start]
  | none =>
    cases hexport : dll.exportsByOrdinal ordinal with
    | none => simp [reported_unknownImport]
    | some addr =>
      by_cases start : ordinal = 0
      · simp [start, reported_eq_none]
      · simp [start, reported_eq_self]

theorem ordinal_agrees (byHandle : dllMgr.findByHandle hmod = some dll)
    (byName : dllMgr.findByName module = some dll) (registered : Registered dll) (num : UInt32) :
    (ProcRequest.ordinal num).SameBinding dllMgr hmod module ↔
      Agrees dll module (.ordinal num) := by
  have zero : num.toNat = 0 ↔ num = 0 := UInt32.toNat_inj (b := 0)
  change queryProcAddr dllMgr hmod num.toNat "" =
    reported (resolveImport dllMgr module num.toNat % u32Size) ↔ _
  simp only [Agrees]
  cases builtin : dll.isBuiltin with
  | true =>
    rw [builtin_ordinal byHandle byName registered builtin]
    cases stubFor module num.toNat <;> simp only [ne_eq, zero]
  | false =>
    rw [user_ordinal byHandle byName registered builtin]
    cases stubFor module num.toNat <;> simp only [ne_eq, zero]

theorem name_agrees (byHandle : dllMgr.findByHandle hmod = some dll)
    (byName : dllMgr.findByName module = some dll) (registered : Registered dll)
    (procName : String) :
    (ProcRequest.name procName).SameBinding dllMgr hmod module ↔
      Agrees dll module (.name procName) := by
  unfold ProcRequest.SameBinding
  rw [bound_name procName byName registered]
  change queryProcAddr dllMgr hmod 0 procName = _ ↔ _
  simp only [Agrees]
  cases builtin : dll.isBuiltin with
  | true =>
    rw [query_builtin byHandle builtin]
    cases stubNamed module procName <;> simp
  | false =>
    rw [query_user byHandle builtin]
    rcases stubNamed_cases module procName with
      ⟨_, absent⟩ | ⟨named, _, stub, _, _, present, _⟩
    · rw [absent]
      by_cases unnamed : procName = "" <;> simp [unnamed]
    · simp [present, named]

end Agreement

section Registrations

variable {s next : DllState} {host : Host} {load : LoadDll}

def AllRegistered (s : DllState) : Prop := ∀ dll ∈ s.dllMgr.dlls, Registered dll

theorem builtinDll_registered (stem : String) (handle : Nat) :
    Registered (builtinDll stem handle) where
  empty := fun _ => rfl
  words := fun _ _ h => nomatch h

/-- An exported address is a sum of two words, as a word. -/
theorem exportsByOrdinal_words (file : LxFile) (objectBases : List Nat) (ordinal : Nat) :
    ∀ addr ∈ exportsByOrdinal file objectBases ordinal, addr < u32Size := by
  suffices fold : ∀ (entries : List LxExport) (table : Table Nat Nat),
      (∀ addr ∈ table ordinal, addr < u32Size) →
        ∀ addr ∈ entries.foldl (fun table entry => match Fixups.nth objectBases entry.objectNum with
          | some base => table.insert entry.ordinal (wrapAdd base entry.offset)
          | none => table) table ordinal, addr < u32Size from
    fold file.exports Table.empty (by simp)
  intro entries
  induction entries with
  | nil => exact fun table words => words
  | cons entry rest ih =>
    intro table words
    apply ih
    dsimp only
    cases Fixups.nth objectBases entry.objectNum with
    | none => exact words
    | some base =>
      intro addr member
      rcases Table.insert_eq_some.mp member with ⟨_, same⟩ | ⟨_, old⟩
      · rw [same]
        exact Nat.mod_lt _ (by decide)
      · exact words addr old

theorem registerDll_registered (all : AllRegistered s) (name : String) (file : LxFile)
    (objectBases : List Nat) (mem : GuestMemory) :
    AllRegistered (s.registerDll name file objectBases mem).2 := by
  intro dll member
  rcases List.mem_append.mp member with old | new
  · exact all dll old
  · obtain rfl := List.mem_singleton.mp new
    exact ⟨nofun, fun ordinal => exportsByOrdinal_words file objectBases ordinal⟩

theorem setRefCount_registered {mgr : DllManager} (all : ∀ dll ∈ mgr.dlls, Registered dll)
    (idx count : Nat) : ∀ dll ∈ (mgr.setRefCount idx count).dlls, Registered dll := by
  intro dll member
  obtain ⟨i, hi⟩ := List.mem_iff_getElem?.mp member
  change (mgr.dlls.modify idx _)[i]? = some dll at hi
  rw [List.getElem?_modify] at hi
  obtain ⟨old, hold, rfl⟩ := Option.map_eq_some_iff.mp hi
  have registered := all old (List.mem_of_getElem? hold)
  split
  · exact ⟨registered.empty, registered.words⟩
  · exact registered

theorem incrementRefcount_registered {mgr : DllManager}
    (all : ∀ dll ∈ mgr.dlls, Registered dll) (handle : Nat) :
    ∀ dll ∈ (mgr.incrementRefcount handle).2.dlls, Registered dll := by
  unfold DllManager.incrementRefcount
  split
  · exact setRefCount_registered all _ _
  · exact all

theorem decrementRefcount_registered {mgr : DllManager}
    (all : ∀ dll ∈ mgr.dlls, Registered dll) (handle : Nat) :
    ∀ dll ∈ (mgr.decrementRefcount handle).2.dlls, Registered dll := by
  unfold DllManager.decrementRefcount
  split
  · split
    · exact fun dll member => all dll (List.mem_of_mem_eraseIdx member)
    · exact setRefCount_registered all _ _
  · exact all

def LoadsRegistered (load : LoadDll) : Prop :=
  ∀ ⦃name path s result next⦄, AllRegistered s → load name path s = some (result, next) →
    AllRegistered next

theorem loadDependency_registered (hload : LoadsRegistered load) {depName : String}
    (all : AllRegistered s) (h : loadDependency host load s depName = some next) :
    AllRegistered next := by
  rcases loadDependency_ends h with rfl | ⟨_, _, _, _, _, _, hrun⟩
  · exact all
  · exact hload all hrun

theorem fileLoad_registered (hload : LoadsRegistered load) {name : String} {data : List UInt8}
    {file : LxFile} {result : Except LoadError Nat} (all : AllRegistered s)
    (h : FileLoad host load name data file s result next) : AllRegistered next := by
  cases h with
  | outOfMemory | badPage => exact all
  | registered _ _ dependencies _ =>
    apply registerDll_registered
    exact foldlM_preserves
      (fun _ _ _ _ before turn => loadDependency_registered hload before turn) dependencies all

theorem loadDllImpl_registered (host : Host) : ∀ depth, LoadsRegistered (loadDllImpl host depth)
  | 0 => fun _ _ _ _ _ _ h => nomatch h
  | depth + 1 => by
      intro name path s result next all h
      cases loadDllStep_ends h with
      | again => exact incrementRefcount_registered all _
      | unreadable => exact all
      | read _ _ rest => exact fileLoad_registered (loadDllImpl_registered host depth) all rest

end Registrations

namespace Modules

variable {state next : Modules}

theorem loadBuiltin_registered {s : DllState} (all : AllRegistered s) (stem : String) :
    AllRegistered (loadBuiltin s stem).2 := by
  unfold loadBuiltin
  split
  · exact all
  · intro dll member
    rcases List.mem_append.mp member with old | new
    · exact all dll old
    · obtain rfl := List.mem_singleton.mp new
      exact builtinDll_registered stem _

theorem dosLoadModule_registered {s : DllState} {host : Host}
    {depth pszFailName cbFailName phmod : Nat} {name : String} {out}
    (all : AllRegistered s)
    (h : dosLoadModule host depth pszFailName cbFailName name phmod s = some out) :
    AllRegistered out.2.2 := by
  unfold dosLoadModule at h
  split at h
  · cases h
    exact loadBuiltin_registered all _
  · obtain ⟨⟨found, after⟩, hload, rfl⟩ := Option.map_eq_some_iff.mp h
    have loaded : AllRegistered after := by
      unfold loadUser at hload
      split at hload
      · obtain ⟨⟨result, last⟩, hrun, hpair⟩ := Option.map_eq_some_iff.mp hload
        obtain ⟨-, rfl⟩ := Prod.mk.inj hpair
        have start : AllRegistered { s with loading := [] } := all
        exact loadDllImpl_registered host depth start hrun
      · cases hload
        exact all
    dsimp only
    split
    · split <;> exact loaded
    · exact loaded

theorem exec_registered {call : ModuleCall} (all : AllRegistered state.toDllState)
    (h : state.exec call = some next) : AllRegistered next.toDllState := by
  cases call with
  | load =>
    obtain ⟨out, hload, rfl⟩ := Option.map_eq_some_iff.mp h
    have after := dosLoadModule_registered all hload
    unfold loaded
    split <;> exact after
  | free hmod =>
    cases h
    intro dll member
    dsimp only at member
    rw [dosFreeModule_dlls] at member
    exact decrementRefcount_registered all _ dll member
  | startReturned idx result =>
    obtain ⟨entry, _, rfl⟩ := Option.map_eq_some_iff.mp h
    exact all
  | unloadReturned =>
    cases h
    exact all

/-- Over every run, for every module that is there, the two resolvers agree on exactly
these requests. -/
theorem procAddr_agrees_iff (base limit : UInt32) (mem : GuestMemory) (calls : List ModuleCall)
    (state : Modules) (run : Run step (new base limit mem) calls state) (dll : LoadedDll)
    (hmod : UInt32) (module : String) (byHandle : state.dllMgr.findByHandle hmod.toNat = some dll)
    (byName : state.dllMgr.findByName module = some dll) (request : ProcRequest) :
    request.SameBinding state.dllMgr hmod.toNat module ↔ Agrees dll module request := by
  have all : AllRegistered state.toDllState :=
    run.invariant (fun state => AllRegistered state.toDllState)
      (fun _ _ _ all next => exec_registered all next) (fun _ member => nomatch member)
  have registered := all dll (List.mem_of_find?_eq_some byHandle)
  cases request with
  | ordinal num => exact ordinal_agrees byHandle byName registered num
  | name procName => exact name_agrees byHandle byName registered procName

def loadDoscalls : ModuleCall := .load DllState.sampleHost 0 0 0 "DOSCALLS" 0

/-- "DOSCALLS" is loaded, under the first handle. -/
theorem loadDoscalls_run : ∃ (state : Modules) (dll : LoadedDll),
    Run step (new 0x1000 0x4000 Fixups.sampleMemory) [loadDoscalls] state ∧
      dll.isBuiltin ∧ state.dllMgr.findByHandle (0x1000 : UInt32).toNat = some dll ∧
        state.dllMgr.findByName "DOSCALLS" = some dll := by
  have hrun : (([loadDoscalls].foldlM exec (new 0x1000 0x4000 Fixups.sampleMemory)).map
      fun state => state.dllMgr.dlls.map fun dll => (dll.name, dll.handle, dll.isBuiltin)) =
      some [("DOSCALLS", 0x1000, true)] := by decide +kernel
  obtain ⟨state, hstate, hdlls⟩ := Option.map_eq_some_iff.mp hrun
  obtain ⟨dll, hdlls, hdll⟩ := List.map_eq_singleton_iff.mp hdlls
  obtain ⟨name, handle, builtin⟩ : _ ∧ _ ∧ _ := by simpa using hdll
  have upper : toAsciiUppercase "DOSCALLS" = "DOSCALLS" := by decide +kernel
  refine ⟨state, dll, Run.of_foldlM (fun _ _ _ h => h) hstate, builtin, ?_, ?_⟩
  · simp [DllManager.findByHandle, hdlls, handle]
  · simp [DllManager.findByName, hdlls, name, upper]

/-- Ordinal 229 of "DOSCALLS". -/
theorem procAddr_agrees_iff_sleep : ∃ state : Modules,
    Run step (new 0x1000 0x4000 Fixups.sampleMemory) [loadDoscalls] state ∧
      (ProcRequest.ordinal 229).SameBinding state.dllMgr (0x1000 : UInt32).toNat "DOSCALLS" := by
  obtain ⟨state, dll, run, builtin, byHandle, byName⟩ := loadDoscalls_run
  refine ⟨state, run, (procAddr_agrees_iff 0x1000 0x4000 Fixups.sampleMemory _ state run dll 0x1000
    "DOSCALLS" byHandle byName (.ordinal 229)).mpr ?_⟩
  have stub : stubFor "DOSCALLS" (229 : UInt32).toNat = some 0x010000E5 := by decide
  simp only [Agrees]
  rw [builtin, stub]
  exact show (229 : UInt32) ≠ 0 ∧ Usable 0x010000E5 by decide

/-- "DosSleep" of "DOSCALLS" is bound at load time and not found at run time. -/
theorem builtin_name_not_found : ¬∀ (base limit : UInt32) (mem : GuestMemory)
    (calls : List ModuleCall) (state : Modules), Run step (new base limit mem) calls state →
      ∀ (dll : LoadedDll) (hmod : UInt32) (module : String),
        state.dllMgr.findByHandle hmod.toNat = some dll →
          state.dllMgr.findByName module = some dll → ∀ request : ProcRequest,
            request.SameBinding state.dllMgr hmod.toNat module := by
  intro all
  obtain ⟨state, dll, run, builtin, byHandle, byName⟩ := loadDoscalls_run
  have same := all _ _ _ _ state run dll 0x1000 "DOSCALLS" byHandle byName (.name "DosSleep")
  change queryProcAddr _ _ 0 "DosSleep" =
    reported (resolveImportByName _ "DOSCALLS" "DosSleep" % u32Size) at same
  have listed : ordinalOfName "DOSCALLS" "DosSleep" = some 229 := by decide
  have own : builtinBase "DOSCALLS" = some 0 := by decide
  rw [query_builtin byHandle builtin, resolveImportByName, listed] at same
  simp only [resolveImport, own] at same
  have found : reported ((magicApiBase + 0 + 229) % u32Size) = some 0x010000E5 := by decide
  rw [found] at same
  cases same

end Modules
end Warpine.Vcpu
