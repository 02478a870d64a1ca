import Warpine.Loader.Dll

/-! Which DLLs stay loaded while others are linked to them. -/
namespace Warpine.Loader
open Warpine.Lib Warpine.Guest Warpine.Lx Fixups

/-- What the guest reaches the DLL manager with. Files may change between loads. -/
inductive DllCall where
  | loadDll (host : Host) (depth : Nat) (dllName dllPath : String)
  | freeModule (hmod : UInt32)
  | initTermUnload (idx : Nat)

namespace DllState

def exec (s : DllState) : DllCall → Option DllState
  | .loadDll host depth dllName dllPath => (loadDll host depth dllName dllPath s).map Prod.snd
  | .freeModule hmod => some (dosFreeModule s hmod.toNat)
  | .initTermUnload idx => some (initTermUnload s idx)

def step : Step DllState DllCall := fun s call next => s.exec call = some next

/-- Every DLL that the fixups of a registered one were resolved into is itself
registered, and its objects are allocated. -/
def NoDanglingLink (s : DllState) : Prop :=
  ∀ entry ∈ s.registered, ∀ inst ∈ entry.2.resolvedInto, ∃ other ∈ s.registered,
    other.2.instanceId = inst ∧ ∀ addr ∈ other.1.objectBases, addr ∈ s.memMgr.addresses

instance (s : DllState) : Decidable s.NoDanglingLink := by
  unfold NoDanglingLink
  infer_instance

/-- The image of the DLL whose last reference a free takes. -/
def lastReference (s : DllState) (hmod : Nat) : Option Image :=
  (s.dllMgr.position hmod).bind fun found =>
    if found.2.refCount ≤ 1 then s.images[found.1]? else none

/-- No DLL is unloaded while the fixups of a registered one are resolved into it. -/
def Allowed (s : DllState) : DllCall → Prop
  | .freeModule hmod => ∀ freed ∈ s.lastReference hmod.toNat,
      ∀ image ∈ s.images, freed.instanceId ∉ image.resolvedInto
  | _ => True

instance (s : DllState) (call : DllCall) : Decidable (s.Allowed call) := by
  unfold Allowed
  cases call <;> infer_instance

/-- The objects of registered DLLs, and of those whose unload routine runs. -/
def owned (s : DllState) : List Nat := s.dllMgr.objects.flatten ++ s.unloading.flatten

def instances (s : DllState) : List Nat := s.images.map Image.instanceId

/-- `extra` are the objects of the loads in progress. -/
structure Inv (base : Nat) (extra : List Nat) (s : DllState) : Prop where
  layout : s.memMgr.Layout base
  parallel : s.images.length = s.dllMgr.dlls.length
  distinct : (s.owned ++ extra).Nodup
  live : ∀ addr ∈ s.owned ++ extra, addr ∈ s.memMgr.addresses
  single : s.instances.Nodup
  fresh : ∀ inst ∈ s.instances, inst < s.nextInstance
  linked : ∀ image ∈ s.images, ∀ inst ∈ image.resolvedInto,
    inst ∈ s.instances ∧ inst < image.instanceId

variable {base : Nat} {extra : List Nat} {s : DllState}

theorem inv_new (base limit : UInt32) (mem : GuestMemory) :
    (new base limit mem).Inv base.toNat [] where
  layout := MemoryManager.layout_new base limit
  parallel := rfl
  distinct := List.nodup_nil
  live := by simp [new, owned, DllManager.objects, DllManager.new]
  single := List.nodup_nil
  fresh := by simp [new, instances]
  linked := by simp [new]

theorem Inv.perm (inv : s.Inv base extra) {other : List Nat} (h : extra.Perm other) :
    s.Inv base other where
  layout := inv.layout
  parallel := inv.parallel
  distinct := (h.append_left _).nodup_iff.mp inv.distinct
  live := fun addr member => inv.live addr ((h.append_left _).mem_iff.mpr member)
  single := inv.single
  fresh := inv.fresh
  linked := inv.linked

/-- Objects nobody refers to any more are not tracked. -/
theorem Inv.drop (inv : s.Inv base extra) {other : List Nat} (h : other.Sublist extra) :
    s.Inv base other where
  layout := inv.layout
  parallel := inv.parallel
  distinct := inv.distinct.sublist (h.append_left _)
  live := fun addr member => inv.live addr ((h.append_left _).subset member)
  single := inv.single
  fresh := inv.fresh
  linked := inv.linked

theorem Inv.withMem (inv : s.Inv base extra) (mem : GuestMemory) (loading : List String) :
    Inv base extra { s with mem, loading } :=
  ⟨inv.layout, inv.parallel, inv.distinct, inv.live, inv.single, inv.fresh, inv.linked⟩

theorem inv_setRefCount (inv : s.Inv base extra) (idx count : Nat) :
    Inv base extra { s with dllMgr := s.dllMgr.setRefCount idx count } := by
  have howned : owned { s with dllMgr := s.dllMgr.setRefCount idx count } = s.owned := by
    simp [owned]
  exact ⟨inv.layout, by simpa using inv.parallel, by rw [howned]; exact inv.distinct,
    by rw [howned]; exact inv.live, inv.single, inv.fresh, inv.linked⟩

theorem inv_alloc (inv : s.Inv base extra) {size addr : Nat} {memMgr : MemoryManager}
    (nonzero : size ≠ 0) (h : s.memMgr.alloc size = some (addr, memMgr)) :
    Inv base (addr :: extra) { s with memMgr } := by
  have hfresh : addr ∉ s.owned ++ extra := by
    intro member
    obtain ⟨block, hblock, hsame⟩ := List.mem_map.mp (inv.live addr member)
    exact inv.layout.fresh h block hblock hsame
  refine ⟨(MemoryManager.layout_alloc inv.layout nonzero h).1, inv.parallel, ?_, ?_, inv.single,
    inv.fresh, inv.linked⟩
  · exact List.nodup_middle.mpr (List.nodup_cons.mpr ⟨hfresh, inv.distinct⟩)
  · intro other member
    rw [MemoryManager.alloc_addresses h, List.mem_append, List.mem_singleton]
    rcases List.mem_cons.mp (List.perm_middle.mem_iff.mp member) with hnew | hold
    · exact Or.inr hnew
    · exact Or.inl (inv.live other hold)

theorem inv_allocObject {placed : Bases}
    (inv : Inv base (placed.1.getD [] ++ extra) { s with memMgr := placed.2 })
    (obj : ObjectTableEntry) :
    Inv base ((allocObject placed obj).1.getD [] ++ extra)
      { s with memMgr := (allocObject placed obj).2 } := by
  obtain ⟨bases, memMgr⟩ := placed
  cases bases with
  | none => exact inv
  | some bases =>
    unfold allocObject
    dsimp only
    cases halloc : memMgr.alloc (max obj.size 4096) with
    | none => exact inv.drop (List.sublist_append_right bases extra)
    | some found =>
      have hmore := inv_alloc inv (by omega) halloc
      apply hmore.perm
      change (found.1 :: (bases ++ extra)).Perm (bases ++ [found.1] ++ extra)
      rw [List.append_assoc]
      exact List.perm_middle.symm

theorem inv_allocObjects (inv : s.Inv base extra) (objects : List ObjectTableEntry) :
    Inv base ((allocObjects s.memMgr objects).1.getD [] ++ extra)
      { s with memMgr := (allocObjects s.memMgr objects).2 } := by
  have hfold : ∀ (objects : List ObjectTableEntry) (placed : Bases),
      Inv base (placed.1.getD [] ++ extra) { s with memMgr := placed.2 } →
      Inv base ((objects.foldl allocObject placed).1.getD [] ++ extra)
        { s with memMgr := (objects.foldl allocObject placed).2 } := by
    intro objects
    induction objects with
    | nil => exact fun _ inv => inv
    | cons obj rest ih => exact fun placed inv => ih _ (inv_allocObject inv obj)
  exact hfold objects (some [], s.memMgr) inv

theorem inv_free {addr : Nat} (inv : s.Inv base (addr :: extra)) :
    Inv base extra { s with memMgr := (s.memMgr.free addr).2 } := by
  have hsub : (s.owned ++ extra).Sublist (s.owned ++ addr :: extra) :=
    (List.sublist_cons_self addr extra).append_left _
  have hnew := (List.nodup_cons.mp (List.nodup_middle.mp inv.distinct)).1
  refine ⟨(MemoryManager.layout_free addr inv.layout).1, inv.parallel,
    inv.distinct.sublist hsub, ?_, inv.single, inv.fresh, inv.linked⟩
  intro other member
  apply MemoryManager.mem_free_addresses
  · rintro rfl
    exact hnew member
  · exact inv.live other (hsub.subset member)

theorem inv_freeBlocks {bases : List Nat} (inv : s.Inv base (bases ++ extra)) :
    Inv base extra { s with memMgr := freeBlocks s.memMgr bases } := by
  induction bases generalizing s with
  | nil => exact inv
  | cons addr rest ih => exact ih (s := { s with memMgr := (s.memMgr.free addr).2 }) (inv_free inv)

theorem importedImage_mem {module : String} {ordinal : Nat} {image : Image}
    (h : s.importedImage module ordinal = some image) :
    ∃ dll addr, (dll, image) ∈ s.registered ∧
      dll.exportsByOrdinal ordinal = some addr := by
  unfold importedImage at h
  split at h
  · cases h
  · obtain ⟨entry, hentry, h⟩ := Option.bind_eq_some_iff.mp h
    obtain ⟨addr, haddr, rfl⟩ := Option.map_eq_some_iff.mp h
    exact ⟨entry.1, addr, List.mem_of_find?_eq_some hentry, haddr⟩

/-- The history variable agrees with the resolution of imports: where there is an
image, this DLL exports the address, and else the address is in the stub area. -/
theorem Inv.resolveImport_eq (inv : s.Inv base extra) (module : String) (ordinal : Nat) :
    match s.importedImage module ordinal with
    | some image => ∃ dll, (dll, image) ∈ s.registered ∧
        dll.exportsByOrdinal ordinal = some (resolveImport s.dllMgr module ordinal)
    | none => magicApiBase ≤ resolveImport s.dllMgr module ordinal := by
  have hdlls : s.registered.map Prod.fst = s.dllMgr.dlls :=
    List.map_fst_zip (Nat.le_of_eq inv.parallel.symm)
  have hfind : s.dllMgr.findByName module = (s.registered.find? fun entry =>
      entry.1.name == toAsciiUppercase module).map Prod.fst := by
    unfold DllManager.findByName
    rw [← hdlls, List.find?_map]
    rfl
  unfold importedImage resolveImport DllManager.resolveOrdinal
  rw [hfind]
  cases hbuiltin : builtinBase module with
  | some start =>
    simp only [Option.isSome_some, if_true]
    omega
  | none =>
    simp only [Option.isSome_none, Bool.false_eq_true, if_false]
    cases hentry : s.registered.find? fun entry => entry.1.name == toAsciiUppercase module with
    | none => simp
    | some entry =>
      cases haddr : entry.1.exportsByOrdinal ordinal with
      | none => simp [haddr]
      | some addr => simpa [haddr] using ⟨entry.1, List.mem_of_find?_eq_some hentry, haddr⟩

theorem resolvedInto_instances {file : LxFile} {objectBases : List Nat} {inst : Nat}
    (h : inst ∈ s.resolvedInto file objectBases) : inst ∈ s.instances := by
  obtain ⟨entry, _, hentry⟩ := List.mem_filterMap.mp h
  obtain ⟨image, himage, rfl⟩ := Option.map_eq_some_iff.mp hentry
  obtain ⟨found, _, himage⟩ := Option.bind_eq_some_iff.mp himage
  obtain ⟨dll, addr, hmember, _⟩ := importedImage_mem himage
  exact List.mem_map_of_mem (List.of_mem_zip hmember).2

theorem inv_registerDll {objectBases : List Nat} (inv : s.Inv base (objectBases ++ extra))
    (name : String) (file : LxFile) (mem : GuestMemory) :
    Inv base extra (s.registerDll name file objectBases mem).2 := by
  have howned : (s.owned ++ (objectBases ++ extra)).Perm
      ((s.registerDll name file objectBases mem).2.owned ++ extra) := by
    unfold owned registerDll DllManager.objects DllManager.register DllManager.allocHandle
    simp only [List.map_append, List.map_cons, List.map_nil, List.flatten_append,
      List.flatten_cons, List.flatten_nil, List.append_nil, List.append_assoc]
    apply List.Perm.append_left
    rw [← List.append_assoc, ← List.append_assoc]
    exact List.perm_append_comm.append_right _
  have hinstances : (s.registerDll name file objectBases mem).2.instances =
      s.instances ++ [s.nextInstance] := List.map_append
  refine ⟨inv.layout, ?_, howned.nodup_iff.mp inv.distinct,
    fun addr member => inv.live addr (howned.mem_iff.mpr member), ?_, ?_, ?_⟩
  · have hparallel := inv.parallel
    simp [registerDll, DllManager.register, DllManager.allocHandle, hparallel]
  · rw [hinstances]
    refine List.nodup_append.mpr ⟨inv.single, List.nodup_singleton _, ?_⟩
    intro inst hinst other hother hsame
    rw [List.mem_singleton.mp hother] at hsame
    exact absurd (inv.fresh inst hinst) (by omega)
  · intro inst hinst
    rw [hinstances] at hinst
    rcases List.mem_append.mp hinst with hold | hnew
    · exact Nat.lt_succ_of_lt (inv.fresh inst hold)
    · rw [List.mem_singleton.mp hnew]
      exact Nat.lt_succ_self s.nextInstance
  · intro image member inst hinst
    rw [hinstances]
    rcases List.mem_append.mp member with hold | hnew
    · have hlinked := inv.linked image hold inst hinst
      exact ⟨List.mem_append_left _ hlinked.1, hlinked.2⟩
    · cases List.mem_singleton.mp hnew
      have hinst := resolvedInto_instances hinst
      exact ⟨List.mem_append_left _ hinst, inv.fresh inst hinst⟩

/-- A load keeps the invariant, whatever loads are in progress around it. -/
def Preserves (base : Nat) (load : LoadDll) : Prop :=
  ∀ extra name path s result next, Inv base extra s →
    load name path s = some (result, next) → Inv base extra next

theorem inv_loadDependency {host : Host} {load : LoadDll} (hload : Preserves base load)
    {depName : String} {next : DllState} (inv : s.Inv base extra)
    (h : loadDependency host load s depName = some next) : Inv base extra next := by
  rcases loadDependency_ends h with rfl | ⟨_, _, _, depPath, result, _, hrun⟩
  · exact inv
  · exact hload _ _ _ _ _ _ inv hrun

theorem inv_dependencies {host : Host} {load : LoadDll} (hload : Preserves base load)
    {names : List String} {next : DllState} (inv : s.Inv base extra)
    (h : names.foldlM (loadDependency host load) s = some next) : Inv base extra next := by
  induction names generalizing s with
  | nil => exact Option.some.inj h ▸ inv
  | cons name rest ih =>
    rw [List.foldlM_cons] at h
    obtain ⟨middle, hfirst, hrest⟩ := Option.bind_eq_some_iff.mp h
    exact ih (inv_loadDependency hload inv hfirst) hrest

theorem inv_loadFile {host : Host} {load : LoadDll} (hload : Preserves base load) {name : String}
    {data : List UInt8} {file : LxFile} {result : Except LoadError Nat} {next : DllState}
    (inv : s.Inv base extra) (h : FileLoad host load name data file s result next) :
    Inv base extra next := by
  have hallocated := inv_allocObjects inv file.objectTable
  cases h with
  | outOfMemory placed =>
    rw [placed] at hallocated
    exact hallocated
  | @badPage _ _ _ mem placed pages =>
    rw [placed] at hallocated
    exact (hallocated.drop (List.sublist_append_right _ _)).withMem mem s.loading
  | @registered _ _ mem fixed _ placed pages dependencies fixups =>
    rw [placed] at hallocated
    have hlinked := inv_dependencies hload (hallocated.withMem mem (name :: s.loading)) dependencies
    exact inv_registerDll hlinked name file fixed

theorem preserves_loadDllStep {host : Host} {load : LoadDll} (hload : Preserves base load) :
    Preserves base (loadDllStep host load) := by
  intro extra dllName dllPath s result next inv h
  cases loadDllStep_ends h with
  | again found =>
    unfold DllManager.incrementRefcount
    split
    · exact inv_setRefCount inv _ _
    · exact inv
  | unreadable => exact inv
  | read _ _ rest => exact inv_loadFile hload inv rest

theorem preserves_loadDllImpl (host : Host) : ∀ depth, Preserves base (loadDllImpl host depth)
  | 0 => fun _ _ _ _ _ _ _ h => nomatch h
  | depth + 1 => preserves_loadDllStep (preserves_loadDllImpl host depth)

theorem inv_initTermUnload (inv : s.Inv base extra) (idx : Nat) :
    (initTermUnload s idx).Inv base extra := by
  unfold initTermUnload
  cases hidx : s.unloading[idx]? with
  | none =>
    rw [List.eraseIdx_of_length_le (List.getElem?_eq_none_iff.mp hidx)]
    exact inv
  | some bases =>
    have hperm : (s.owned ++ extra).Perm
        (s.dllMgr.objects.flatten ++ (s.unloading.eraseIdx idx).flatten ++ (bases ++ extra)) := by
      have htail := (perm_cons_eraseIdx hidx).flatten
      rw [List.flatten_cons] at htail
      rw [owned, List.append_assoc, List.append_assoc]
      apply List.Perm.append_left
      rw [← List.append_assoc]
      exact (htail.trans List.perm_append_comm).append_right extra
    apply inv_freeBlocks (s := { s with unloading := s.unloading.eraseIdx idx })
    exact ⟨inv.layout, inv.parallel, hperm.nodup_iff.mp inv.distinct,
      fun addr member => inv.live addr (hperm.mem_iff.mpr member),
      inv.single, inv.fresh, inv.linked⟩

/-- Taking a DLL that no image is linked to out of the manager. -/
theorem inv_unregister (inv : s.Inv base extra) {idx : Nat} {dll : LoadedDll} {freed : Image}
    (hdll : s.dllMgr.dlls[idx]? = some dll) (hfreed : s.images[idx]? = some freed)
    (unlinked : ∀ image ∈ s.images, freed.instanceId ∉ image.resolvedInto) :
    Inv base (dll.objectBases ++ extra) { s with
      dllMgr := { s.dllMgr with dlls := s.dllMgr.dlls.eraseIdx idx }
      images := s.images.eraseIdx idx } := by
  have hperm : (s.owned ++ extra).Perm ((((s.dllMgr.dlls.eraseIdx idx).map
      LoadedDll.objectBases).flatten ++ s.unloading.flatten) ++ (dll.objectBases ++ extra)) := by
    have hhead := ((perm_cons_eraseIdx hdll).map LoadedDll.objectBases).flatten
    rw [List.map_cons, List.flatten_cons] at hhead
    refine ((hhead.append_right _).append_right extra).trans ?_
    rw [List.append_assoc dll.objectBases, ← List.append_assoc _ dll.objectBases]
    exact List.perm_append_comm.append_right extra
  have hinstances := (perm_cons_eraseIdx hfreed).map Image.instanceId
  have hshorter := inv.parallel
  refine ⟨inv.layout, ?_, hperm.nodup_iff.mp inv.distinct,
    fun addr member => inv.live addr (hperm.mem_iff.mpr member), ?_, ?_, ?_⟩
  · simp only [List.length_eraseIdx, hshorter]
  · exact (List.nodup_cons.mp (hinstances.nodup_iff.mp inv.single)).2
  · exact fun inst hinst => inv.fresh inst (hinstances.mem_iff.mpr (List.mem_cons_of_mem _ hinst))
  · intro image member inst hinst
    have himage := (List.eraseIdx_sublist s.images idx).subset member
    obtain ⟨hlinked, holder⟩ := inv.linked image himage inst hinst
    rcases List.mem_cons.mp (hinstances.mem_iff.mp hlinked) with rfl | hrest
    · exact absurd hinst (unlinked image himage)
    · exact ⟨hrest, holder⟩

theorem inv_dosFreeModule (inv : s.Inv base extra) {hmod : UInt32}
    (allowed : s.Allowed (.freeModule hmod)) : (dosFreeModule s hmod.toNat).Inv base extra := by
  have hallowed : ∀ freed ∈ s.lastReference hmod.toNat, ∀ image ∈ s.images,
      freed.instanceId ∉ image.resolvedInto := allowed
  unfold dosFreeModule DllManager.decrementRefcount
  cases hpos : s.dllMgr.position hmod.toNat with
  | none => exact inv
  | some found =>
    obtain ⟨idx, dll⟩ := found
    dsimp only
    by_cases hlast : dll.refCount ≤ 1
    · have hdll := DllManager.position_eq_some hpos
      have hidx := (List.getElem?_eq_some_iff.mp hdll).1
      have hfreed := List.getElem?_eq_getElem (l := s.images) (by rw [inv.parallel]; exact hidx)
      have hinv := inv_unregister inv hdll hfreed
        (hallowed _ (by simp [lastReference, hpos, hlast, hfreed]))
      rw [if_pos hlast]
      cases dll.inittermAddr with
      | none => exact inv_freeBlocks hinv
      | some _ =>
        refine ⟨hinv.layout, hinv.parallel, ?_, ?_, hinv.single, hinv.fresh, hinv.linked⟩
        · simpa [owned] using hinv.distinct
        · simpa [owned] using hinv.live
    · rw [if_neg hlast]
      exact inv_setRefCount inv _ _

theorem inv_exec {call : DllCall} {next : DllState} (inv : s.Inv base []) (allowed : s.Allowed call)
    (h : s.exec call = some next) : next.Inv base [] := by
  cases call with
  | loadDll host depth dllName dllPath =>
    obtain ⟨⟨result, state⟩, hload, rfl⟩ := Option.map_eq_some_iff.mp h
    exact preserves_loadDllImpl host depth _ _ _ _ _ _ (inv.withMem s.mem []) hload
  | freeModule hmod => exact Option.some.inj h ▸ inv_dosFreeModule inv allowed
  | initTermUnload idx => exact Option.some.inj h ▸ inv_initTermUnload inv idx

theorem Inv.noDanglingLink (inv : s.Inv base []) : s.NoDanglingLink := by
  intro entry member inst hinst
  have himage := (List.of_mem_zip member).2
  obtain ⟨image, hfound, rfl⟩ := List.mem_map.mp (inv.linked entry.2 himage inst hinst).1
  obtain ⟨dll, hpair⟩ := exists_mem_zip inv.parallel hfound
  refine ⟨(dll, image), hpair, rfl, ?_⟩
  intro addr haddr
  apply inv.live
  rw [List.append_nil, owned]
  apply List.mem_append_left
  exact List.mem_flatten.mpr ⟨_, List.mem_map_of_mem (List.of_mem_zip hpair).1, haddr⟩

/-- Over runs that never unload a DLL while a registered one is linked to it, no
registered DLL keeps the address of an unloaded one. -/
theorem allowed_run_noDanglingLink (base limit : UInt32) (mem : GuestMemory)
    (calls : List DllCall) (s : DllState)
    (run : Run (step.guarded Allowed) (new base limit mem) calls s) : s.NoDanglingLink := by
  have hinv : s.Inv base.toNat [] := by
    refine run.invariant (Inv base.toNat []) ?_ (inv_new base limit mem)
    intro start call finish inv hstep
    exact inv_exec inv hstep.1 hstep.2
  exact hinv.noDanglingLink

/-- A library of one object of one page without data, that exports the object's
start as ordinal 1. -/
def sampleHeader (moduleNames : List UInt8) (moduleCount : Nat) : LxHeader :=
  { (default : LxHeader) with
    signature := lxSignature
    moduleFlags := 0x8000
    moduleNumPages := 1
    pageSize := 4096
    objectTableOffset := 172
    objectCount := 1
    objectPageMapOffset := 196
    fixupPageTableOffset := 204
    entryTableOffset := 212
    importedModulesNameTableOffset := 222
    importedModulesCount := moduleCount
    fixupRecordTableOffset := 222 + moduleNames.length }

def sampleDll (moduleNames : List UInt8) (moduleCount : Nat) (records : List UInt8) :
    List UInt8 :=
  LxFile.mzSignature ++ List.replicate 58 0 ++ leBytes 4 64 ++
    (sampleHeader moduleNames moduleCount).bytes ++
    (ObjectTableEntry.mk 0x1000 0x10000 0 1 1 0).bytes ++ (ObjectPageMapEntry.mk 0 0 0).bytes ++
    leBytes 4 0 ++ leBytes 4 records.length ++ [1, 3, 1, 0, 3, 0, 0, 0, 0, 0] ++
    moduleNames ++ records

/-- A DLL "A" with a 32-bit fixup at its offset 0x20 to ordinal 1 of a DLL "B". -/
def sampleHost : Host where
  files := fun path =>
    if path = "dlls/a.dll" then some (sampleDll [1, 0x42] 1 [0x07, 0x81, 0x20, 0, 1, 1])
    else if path = "dlls/b.dll" then some (sampleDll [] 0 [])
    else none
  pathExists := fun path => path == "dlls/a.dll" || path == "dlls/b.dll"
  exeDir := "dlls"
  driveC := none

def loadA : DllCall := .loadDll sampleHost 2 "A" "dlls/a.dll"
def loadB : DllCall := .loadDll sampleHost 2 "B" "dlls/b.dll"

def allowedExec (s : DllState) (call : DllCall) : Option DllState :=
  if s.Allowed call then s.exec call else none

theorem allowedExec_step (start : DllState) (call : DllCall) (finish : DllState)
    (h : start.allowedExec call = some finish) : step.guarded Allowed start call finish := by
  unfold allowedExec at h
  split at h
  · rename_i hallowed
    exact ⟨hallowed, h⟩
  · cases h

/-- "B" is freed after "A", which brought it in. -/
theorem allowed_run_noDanglingLink_order :
    ∃ s, [loadA, .freeModule 0x1001, .freeModule 0x1000].foldlM allowedExec
      (new 0x1000 0x4000 sampleMemory) = some s ∧ s.NoDanglingLink := by
  have hrun : ([loadA, .freeModule 0x1001, .freeModule 0x1000].foldlM allowedExec
      (new 0x1000 0x4000 sampleMemory)).isSome := by decide +kernel
  obtain ⟨s, hs⟩ := Option.isSome_iff_exists.mp hrun
  exact ⟨s, hs, allowed_run_noDanglingLink 0x1000 0x4000 sampleMemory _ s
    (Run.of_foldlM allowedExec_step hs)⟩

/-- "B" is loaded by itself first and freed after "A" was linked to it. -/
theorem shared_dll_unloaded :
    ¬ ∀ (base limit : UInt32) (mem : GuestMemory) (calls : List DllCall) (s : DllState),
      Run step (new base limit mem) calls s → s.NoDanglingLink := by
  intro claim
  have hrun : (([loadB, loadA, .freeModule 0x1000].foldlM exec
      (new 0x1000 0x4000 sampleMemory)).any fun s => !decide s.NoDanglingLink) = true := by
    decide +kernel
  obtain ⟨s, hs, hdangling⟩ := (Option.any_eq_true _ _).mp hrun
  rw [Bool.not_eq_true', decide_eq_false_iff_not] at hdangling
  exact hdangling (claim 0x1000 0x4000 sampleMemory _ s (Run.of_foldlM (fun _ _ _ h => h) hs))

end DllState
end Warpine.Loader
