import Mathlib.Logic.Relation
import Warpine.Loader.DllLinks

/-! The order in which the loads of DLLs register them, and what one load brings in. -/
namespace Warpine.Loader
open Warpine.Lib Warpine.Guest Warpine.Lx Fixups

/-- A library without a routine to start it. -/
def NoInit (file : LxFile) : Prop :=
  file.header.eipObject = 0 ∨ file.objectTable.length < file.header.eipObject

instance (file : LxFile) : Decidable (NoInit file) := inferInstanceAs (Decidable (_ ∨ _))

def DirectImport (host : Host) (name dep : String) : Prop :=
  ∃ path ∈ host.findDllPath name, ∃ file ∈ imageAt host path, ∃ depName ∈ file.importedModules,
    toAsciiUppercase depName = dep ∧ dep ∉ builtinModules

/-- An imported module that is there or on its way, or that has nothing to start it. -/
def Harmless (host : Host) (s : DllState) (dep : String) : Prop :=
  dep ∈ s.loading ∨ (s.dllMgr.findByName dep).isSome ∨
    ∀ path ∈ host.findDllPath dep, ∀ file ∈ imageAt host path, NoInit file

/-- Registrations are numbered in turn, and each is linked to earlier ones. -/
structure Numbered (s : DllState) : Prop where
  parallel : s.images.length = s.dllMgr.dlls.length
  nextHandle : s.dllMgr.nextHandle = (0x1000 + s.nextInstance) % u32Size
  handles : ∀ entry ∈ s.registered, entry.1.handle = (0x1000 + entry.2.instanceId) % u32Size
  sorted : s.instances.Pairwise (· < ·)
  fresh : ∀ inst ∈ s.instances, inst < s.nextInstance
  linked : ∀ image ∈ s.images, ∀ inst ∈ image.resolvedInto, inst < image.instanceId

/-- What a load adds to the registered DLLs. -/
structure Adds (s next : DllState) (added : List (LoadedDll × Image)) : Prop where
  registered : next.registered = s.registered ++ added
  later : ∀ entry ∈ added, s.nextInstance ≤ entry.2.instanceId
  instances : s.nextInstance ≤ next.nextInstance
  loading : next.loading = s.loading

variable {host : Host} {s middle next : DllState} {name path : String}
  {first second added : List (LoadedDll × Image)}

theorem Adds.nil (registered : next.registered = s.registered)
    (instances : next.nextInstance = s.nextInstance) (loading : next.loading = s.loading) :
    Adds s next [] where
  registered := registered.trans (List.append_nil _).symm
  later := by simp
  instances := instances.ge
  loading := loading

theorem Adds.trans (left : Adds s middle first) (right : Adds middle next second) :
    Adds s next (first ++ second) where
  registered := by rw [right.registered, left.registered, List.append_assoc]
  later := by
    intro entry member
    rcases List.mem_append.mp member with early | late
    · exact left.later entry early
    · exact left.instances.trans (right.later entry late)
  instances := left.instances.trans right.instances
  loading := right.loading.trans left.loading

theorem Numbered.dlls (numbered : Numbered s) : s.registered.map Prod.fst = s.dllMgr.dlls :=
  List.map_fst_zip (Nat.le_of_eq numbered.parallel.symm)

/-- A registered module stays so while others are added. -/
theorem Adds.findByName (adds : Adds s next added) (before : Numbered s) (after : Numbered next)
    (h : (s.dllMgr.findByName name).isSome) : (next.dllMgr.findByName name).isSome := by
  have hdlls : next.dllMgr.dlls = s.dllMgr.dlls ++ added.map Prod.fst := by
    rw [← after.dlls, adds.registered, List.map_append, before.dlls]
  unfold DllManager.findByName at h ⊢
  rw [hdlls, List.find?_append]
  exact Option.isSome_or.trans (by rw [h, Bool.true_or])

/-- What taking references away leaves: nothing is registered that was not before. -/
structure Keeps (s next : DllState) : Prop where
  parallel : next.images.length = next.dllMgr.dlls.length
  images : next.images.Sublist s.images
  nextHandle : next.dllMgr.nextHandle = s.dllMgr.nextHandle
  nextInstance : next.nextInstance = s.nextInstance
  old : ∀ entry ∈ next.registered, ∃ before ∈ s.registered, entry.1.handle = before.1.handle ∧
    entry.1.inittermAddr = before.1.inittermAddr ∧ entry.2 = before.2

theorem Numbered.keeps_same (numbered : Numbered s) (dllMgr : next.dllMgr = s.dllMgr)
    (images : next.images = s.images) (count : next.nextInstance = s.nextInstance) :
    Keeps s next where
  parallel := by rw [images, dllMgr, numbered.parallel]
  images := images ▸ .refl _
  nextHandle := by rw [dllMgr]
  nextInstance := count
  old := by
    intro entry member
    rw [DllState.registered, dllMgr, images] at member
    exact ⟨entry, member, rfl, rfl, rfl⟩

theorem Numbered.keeps (numbered : Numbered s) (keeps : Keeps s next) : Numbered next where
  parallel := keeps.parallel
  nextHandle := by rw [keeps.nextHandle, keeps.nextInstance, numbered.nextHandle]
  handles := by
    intro entry member
    obtain ⟨before, hbefore, handle, _, image⟩ := keeps.old entry member
    rw [handle, image]
    exact numbered.handles before hbefore
  sorted := numbered.sorted.sublist (keeps.images.map _)
  fresh := by
    intro inst member
    rw [keeps.nextInstance]
    exact numbered.fresh inst ((keeps.images.map _).subset member)
  linked := fun image member => numbered.linked image (keeps.images.subset member)

theorem Numbered.same (numbered : Numbered s) (dllMgr : next.dllMgr = s.dllMgr)
    (images : next.images = s.images) (count : next.nextInstance = s.nextInstance) :
    Numbered next :=
  numbered.keeps (numbered.keeps_same dllMgr images count)

theorem numbered_register (numbered : Numbered s) {dll : LoadedDll} {image : Image}
    (dllMgr : next.dllMgr = s.dllMgr.allocHandle.2.register dll)
    (images : next.images = s.images ++ [image]) (handle : dll.handle = s.dllMgr.nextHandle)
    (number : image.instanceId = s.nextInstance) (count : next.nextInstance = s.nextInstance + 1)
    (linked : ∀ inst ∈ image.resolvedInto, inst < s.nextInstance) :
    Numbered next ∧ next.registered = s.registered ++ [(dll, image)] := by
  have registered : next.registered = s.registered ++ [(dll, image)] := by
    unfold DllState.registered
    rw [dllMgr, images]
    exact List.zip_append numbered.parallel.symm
  have instances : next.instances = s.instances ++ [image.instanceId] := by
    unfold DllState.instances
    rw [images, List.map_append]
    rfl
  refine ⟨⟨?_, ?_, ?_, ?_, ?_, ?_⟩, registered⟩
  · rw [images, dllMgr]
    simp [DllManager.register, DllManager.allocHandle, numbered.parallel]
  · rw [dllMgr, count]
    simp only [DllManager.register, DllManager.allocHandle, wrapAdd, numbered.nextHandle]
    rw [Nat.mod_add_mod, Nat.add_assoc]
  · rw [registered]
    intro entry member
    rcases List.mem_append.mp member with old | new
    · exact numbered.handles entry old
    · rw [List.mem_singleton.mp new, handle, number, numbered.nextHandle]
  · rw [instances]
    refine List.pairwise_append.mpr ⟨numbered.sorted, List.pairwise_singleton _ _, ?_⟩
    intro inst member other hother
    rw [List.mem_singleton.mp hother, number]
    exact numbered.fresh inst member
  · rw [instances, count]
    intro inst member
    rcases List.mem_append.mp member with old | new
    · exact Nat.lt_succ_of_lt (numbered.fresh inst old)
    · rw [List.mem_singleton.mp new, number]
      exact Nat.lt_succ_self _
  · rw [images]
    intro other member inst hinst
    rcases List.mem_append.mp member with old | new
    · exact numbered.linked other old inst hinst
    · rw [List.mem_singleton.mp new] at hinst ⊢
      rw [number]
      exact linked inst hinst

theorem allocObjects_count {objects : List ObjectTableEntry} {memMgr after : MemoryManager}
    {known bases : List Nat}
    (h : objects.foldl allocObject (some known, memMgr) = (some bases, after)) :
    bases.length = known.length + objects.length := by
  induction objects generalizing memMgr known with
  | nil =>
    cases h
    rfl
  | cons obj rest ih =>
    rw [List.foldl_cons] at h
    cases halloc : memMgr.alloc (max obj.size 4096) with
    | none =>
      rw [allocObject_full halloc, foldl_allocObject_none] at h
      cases h
    | some found =>
      rw [allocObject_placed halloc] at h
      rw [ih h, List.length_append, List.length_cons]
      simp only [List.length_cons, List.length_nil]
      omega

theorem inittermAddr_noInit {file : LxFile} {bases : List Nat} (quiet : NoInit file)
    (count : bases.length = file.objectTable.length) : inittermAddr file bases = none := by
  unfold inittermAddr nth
  rcases quiet with zero | beyond
  · rw [if_pos zero]
    rfl
  · rw [if_neg (by omega), List.getElem?_eq_none (by omega)]
    rfl

/-- All that a load may bring in besides its own module is harmless. -/
def Ready (host : Host) (s : DllState) (name : String) : Prop :=
  ∀ dep, Relation.TransGen (DirectImport host) name dep →
    dep = toAsciiUppercase name ∨ Harmless host s dep

/-- After a load: DLLs that need no start, and at last the one that the load is for,
where it succeeds. -/
structure LoadAdded (host : Host) (s next : DllState) (name : String)
    (result : Except LoadError Nat) (deps : List (LoadedDll × Image))
    (top : Option (LoadedDll × Image)) : Prop where
  numbered : Numbered next
  adds : Adds s next (deps ++ top.toList)
  quiet : ∀ entry ∈ deps, entry.1.inittermAddr = none
  handle : result.toOption = top.map fun entry => entry.1.handle
  own : (∀ path ∈ host.findDllPath name, ∀ file ∈ imageAt host path, NoInit file) →
    ∀ entry ∈ top, entry.1.inittermAddr = none

def LoadAdds (host : Host) (load : LoadDll) : Prop :=
  ∀ name path s result next, Numbered s → host.findDllPath name = some path →
    s.dllMgr.findByName name = none → Ready host s name → load name path s = some (result, next) →
      ∃ deps top, LoadAdded host s next name result deps top

theorem LoadAdded.failed {error : LoadError} (numbered : Numbered s)
    (dllMgr : next.dllMgr = s.dllMgr) (images : next.images = s.images) (count : next.nextInstance = s.nextInstance)
    (loading : next.loading = s.loading) : LoadAdded host s next name (.error error) [] none where
  numbered := numbered.same dllMgr images count
  adds := .nil (by rw [DllState.registered, dllMgr, images, DllState.registered]) count loading
  quiet := by simp
  handle := rfl
  own := by simp

/-- What is on its way or registered stays so while modules are added. -/
theorem Harmless.later (harmless : Harmless host s name) (before : Numbered s)
    (after : Numbered next) (adds : Adds s next added) : Harmless host next name := by
  rcases harmless with loading | registered | quiet
  · exact .inl (adds.loading ▸ loading)
  · exact .inr (.inl (adds.findByName before after registered))
  · exact .inr (.inr quiet)

/-- What the loop over the imported modules adds needs no start. -/
def AddsQuiet (start s : DllState) : Prop :=
  Numbered s ∧ ∃ added, Adds start s added ∧ ∀ entry ∈ added, entry.1.inittermAddr = none

variable {load : LoadDll}

/-- One imported module of a load: `start` is where the loop over them begins. -/
theorem loadDependency_adds (hload : LoadAdds host load) {start : DllState} {depName : String}
    (ready : Ready host s name) (direct : toAsciiUppercase depName ∉ builtinModules →
      DirectImport host name (toAsciiUppercase depName))
    (before : Numbered start) (sameModules : start.dllMgr = s.dllMgr)
    (loading : start.loading = toAsciiUppercase name :: s.loading)
    (inv : AddsQuiet start middle) (h : loadDependency host load middle depName = some next) :
    AddsQuiet start next := by
  obtain ⟨numbered, added, adds, quiet⟩ := inv
  have carry : ∀ dep, Relation.TransGen (DirectImport host) name dep →
      Harmless host middle dep := by
    intro dep path
    have harmless : Harmless host start dep := by
      rcases ready dep path with rfl | old | registered | still
      · exact .inl (loading ▸ List.mem_cons_self)
      · exact .inl (loading ▸ List.mem_cons_of_mem _ old)
      · exact .inr (.inl (sameModules ▸ registered))
      · exact .inr (.inr still)
    exact harmless.later before numbered adds
  rcases loadDependency_ends h with
    rfl | ⟨user, unregistered, unloading, depPath, result, hpath, hrun⟩
  · exact ⟨numbered, added, adds, quiet⟩
  · have step := Relation.TransGen.single (direct user)
    have absent : middle.dllMgr.findByName (toAsciiUppercase depName) = none :=
      (DllManager.findByName_toAsciiUppercase _ _).trans unregistered
    have further : Ready host middle (toAsciiUppercase depName) :=
      fun dep path => .inr (carry dep (step.trans path))
    obtain ⟨deps, top, loaded⟩ := hload _ _ _ _ _ numbered hpath absent further hrun
    have still : ∀ path ∈ host.findDllPath (toAsciiUppercase depName),
        ∀ file ∈ imageAt host path, NoInit file :=
      ((carry _ step).resolve_left unloading).resolve_left (by simp [unregistered])
    refine ⟨loaded.numbered, _, adds.trans loaded.adds, ?_⟩
    intro entry member
    rcases List.mem_append.mp member with old | new
    · exact quiet entry old
    · rcases List.mem_append.mp new with dep | own
      · exact loaded.quiet entry dep
      · exact loaded.own still entry (Option.mem_toList.mp own)

theorem registerDll_added (numbered : Numbered s) (name : String) (file : LxFile)
    (objectBases : List Nat) (mem : GuestMemory) :
    ∃ top : LoadedDll × Image, Numbered (s.registerDll name file objectBases mem).2 ∧
      (s.registerDll name file objectBases mem).2.registered = s.registered ++ [top] ∧
      top.1.handle = (s.registerDll name file objectBases mem).1 ∧
      top.2.instanceId = s.nextInstance ∧ top.1.inittermAddr = inittermAddr file objectBases := by
  have added := @numbered_register s (s.registerDll name file objectBases mem).2 numbered _ _ rfl
    rfl rfl rfl rfl fun inst member =>
      numbered.fresh inst (DllState.resolvedInto_instances member)
  exact ⟨_, added.1, added.2, rfl, rfl, rfl⟩

theorem loadFile_adds (hload : LoadAdds host load) {data : List UInt8} {file : LxFile}
    {result : Except LoadError Nat} (numbered : Numbered s) (ready : Ready host s name)
    (hpath : host.findDllPath name = some path) (hfile : imageAt host path = some file)
    (h : FileLoad host load (toAsciiUppercase name) data file s result next) :
    ∃ deps top, LoadAdded host s next name result deps top := by
  cases h with
  | outOfMemory | badPage => exact ⟨[], none, .failed numbered rfl rfl rfl rfl⟩
  | @registered objectBases memMgr mem fixed linked placed _ dependencies _ =>
    generalize hstart : ({ s with memMgr, mem, loading := toAsciiUppercase name :: s.loading } :
      DllState) = start at dependencies
    have first : Numbered start := by
      subst hstart
      exact numbered.same rfl rfl rfl
    have turn : ∀ depName ∈ file.importedModules, ∀ state after, AddsQuiet start state →
        loadDependency host load state depName = some after → AddsQuiet start after := by
      intro depName hdep state after inv hrun
      refine loadDependency_adds hload ready ?_ first (by rw [← hstart]) (by rw [← hstart]) inv hrun
      exact fun user => ⟨path, hpath, file, hfile, depName, hdep, rfl, user⟩
    obtain ⟨numberedLinked, deps, adds, quiet⟩ :=
      @foldlM_preserves _ _ _ (AddsQuiet start) _ _ _ turn dependencies
        ⟨first, [], .nil rfl rfl rfl, by simp⟩
    obtain ⟨top, last, registered, handle, number, initterm⟩ :=
      registerDll_added numberedLinked (toAsciiUppercase name) file objectBases fixed
    refine ⟨deps, some top, last, ?_, quiet, congrArg some handle.symm, ?_⟩
    · subst hstart
      refine ⟨?_, ?_, adds.instances.trans (Nat.le_succ _), ?_⟩
      · rw [registered, adds.registered, List.append_assoc]
        rfl
      · intro entry member
        rcases List.mem_append.mp member with dep | own
        · exact adds.later entry dep
        · cases Option.mem_toList.mp own
          exact number ▸ adds.instances
      · change linked.loading.erase _ = _
        rw [adds.loading]
        exact List.erase_cons_head ..
    · rintro still entry ⟨⟩
      rw [initterm]
      apply inittermAddr_noInit (still path hpath file hfile)
      simpa using allocObjects_count placed

theorem loadDllImpl_adds (host : Host) : ∀ depth, LoadAdds host (loadDllImpl host depth)
  | 0 => fun _ _ _ _ _ _ _ _ _ h => nomatch h
  | depth + 1 => by
      intro name path s result next numbered hpath absent ready h
      cases loadDllStep_ends h with
      | again found => cases absent.symm.trans found
      | unreadable => exact ⟨[], none, .failed numbered rfl rfl rfl rfl⟩
      | read _ image rest =>
        exact loadFile_adds (loadDllImpl_adds host depth) numbered ready hpath image rest

/-- As long as no number comes twice, a handle leads to the one module it was made for. -/
theorem Numbered.position (numbered : Numbered s) (small : s.nextInstance + 0x1000 ≤ u32Size)
    {entry : LoadedDll × Image} (member : entry ∈ s.registered) :
    ∃ idx, s.dllMgr.position entry.1.handle = some (idx, entry.1) ∧
      s.images[idx]? = some entry.2 := by
  have handle : ∀ other ∈ s.registered, other.1.handle = 0x1000 + other.2.instanceId := by
    intro other hother
    have bound := numbered.fresh _ (List.mem_map_of_mem (List.of_mem_zip hother).2)
    rw [numbered.handles other hother]
    exact Nat.mod_eq_of_lt (by omega)
  obtain ⟨idx, hidx, hat⟩ := List.getElem_of_mem member
  have hlength := List.length_zip ▸ hidx
  have himage : idx < s.images.length := by omega
  have hdll : idx < s.dllMgr.dlls.length := by omega
  obtain rfl : (s.dllMgr.dlls[idx], s.images[idx]) = entry := List.getElem_zip.symm.trans hat
  have hfound : s.dllMgr.dlls.findIdx? (fun dll => dll.handle == s.dllMgr.dlls[idx].handle) =
      some idx := by
    refine List.findIdx?_eq_some_iff_getElem.mpr ⟨hdll, by simp, ?_⟩
    intro j before
    have hlt : j < s.registered.length := before.trans hidx
    have hother : (s.dllMgr.dlls[j], s.images[j]) ∈ s.registered :=
      List.mem_of_getElem (List.getElem_zip (h := hlt))
    have less := List.pairwise_iff_getElem.mp (List.pairwise_map.mp numbered.sorted) j idx
      (by omega) himage before
    simp only [beq_iff_eq]
    rw [handle _ hother, handle _ member]
    dsimp only
    omega
  refine ⟨idx, ?_, List.getElem?_eq_getElem himage⟩
  unfold DllManager.position
  dsimp only
  rw [hfound]
  simp [List.getElem?_eq_getElem hdll]

theorem Numbered.same_handle (numbered : Numbered s) (small : s.nextInstance + 0x1000 ≤ u32Size)
    {left right : LoadedDll × Image} (hleft : left ∈ s.registered) (hright : right ∈ s.registered)
    (same : left.1.handle = right.1.handle) : left.1 = right.1 := by
  obtain ⟨i, hi, _⟩ := numbered.position small hleft
  obtain ⟨j, hj, _⟩ := numbered.position small hright
  rw [same, hj] at hi
  exact (Prod.mk.inj (Option.some.inj hi)).2.symm

theorem Numbered.mem_registered (numbered : Numbered s) {dll : LoadedDll}
    (member : dll ∈ s.dllMgr.dlls) : ∃ image, (dll, image) ∈ s.registered := by
  rw [← numbered.dlls] at member
  obtain ⟨⟨other, image⟩, hother, rfl⟩ := List.mem_map.mp member
  exact ⟨image, hother⟩

theorem keeps_setRefCount (numbered : Numbered s) (idx count : Nat) :
    Keeps s { s with dllMgr := s.dllMgr.setRefCount idx count } where
  parallel := by simpa using numbered.parallel
  images := List.Sublist.refl _
  nextHandle := rfl
  nextInstance := rfl
  old := by
    intro entry member
    obtain ⟨first, hfirst, same⟩ := mem_zip_modify member
    refine ⟨(first, entry.2), hfirst, ?_⟩
    rcases same with same | same <;> exact ⟨by rw [same], by rw [same], rfl⟩

theorem keeps_dosFreeModule (numbered : Numbered s) (hmod : Nat) :
    Keeps s (dosFreeModule s hmod) := by
  unfold dosFreeModule DllManager.decrementRefcount
  cases hpos : s.dllMgr.position hmod with
  | none => exact numbered.keeps_same rfl rfl rfl
  | some found =>
    obtain ⟨idx, dll⟩ := found
    dsimp only
    by_cases last : dll.refCount ≤ 1
    · rw [if_pos last]
      have old : ∀ entry ∈ (s.dllMgr.dlls.eraseIdx idx).zip (s.images.eraseIdx idx),
          ∃ before ∈ s.registered, entry.1.handle = before.1.handle ∧
            entry.1.inittermAddr = before.1.inittermAddr ∧ entry.2 = before.2 := by
        rw [zip_eraseIdx]
        exact fun entry member => ⟨entry, (List.eraseIdx_sublist _ _).subset member, rfl, rfl, rfl⟩
      have parallel : (s.images.eraseIdx idx).length = (s.dllMgr.dlls.eraseIdx idx).length := by
        simp only [List.length_eraseIdx, numbered.parallel]
      cases dll.inittermAddr with
      | none => exact ⟨parallel, List.eraseIdx_sublist _ _, rfl, rfl, old⟩
      | some _ => exact ⟨parallel, List.eraseIdx_sublist _ _, rfl, rfl, old⟩
    · rw [if_neg last]
      exact keeps_setRefCount numbered _ _

end Warpine.Loader
