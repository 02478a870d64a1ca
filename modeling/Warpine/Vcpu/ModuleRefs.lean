import Warpine.Vcpu.ModuleCalls

/-! How long the handles of modules stay valid, over any loads and frees. -/
namespace Warpine.Vcpu
open Warpine.Lib Warpine.Guest Warpine.Loader Warpine.Lx

/-- A name in any case, with its suffix or without. -/
def SameModule (a b : String) : Prop :=
  toAsciiUppercase a = toAsciiUppercase b ∨ toAsciiUppercase a = toAsciiUppercase b ++ ".DLL" ∨
    toAsciiUppercase b = toAsciiUppercase a ++ ".DLL"

instance (a b : String) : Decidable (SameModule a b) := inferInstanceAs (Decidable (_ ∨ _))

/-- An imported module that the load of `name` does not register. -/
def Skipped (host : Host) (s : DllState) (name depName : String) : Prop :=
  toAsciiUppercase depName ∈ builtinModules ∨ (s.dllMgr.findByName depName).isSome ∨
    toAsciiUppercase depName = toAsciiUppercase name ∨
    ∀ path ∈ host.findDllPath (toAsciiUppercase depName), imageAt host path = none

instance (host : Host) (s : DllState) (name depName : String) :
    Decidable (Skipped host s name depName) := by
  unfold Skipped
  infer_instance

/-- No registered module has the name, and the next handle is not in use. -/
def Unshared (s : DllState) (name : String) : Prop :=
  (∀ dll ∈ s.dllMgr.dlls, ¬SameModule dll.name name) ∧
    ∀ dll ∈ s.dllMgr.dlls, dll.handle ≠ s.dllMgr.nextHandle

instance (s : DllState) (name : String) : Decidable (Unshared s name) := by
  unfold Unshared
  infer_instance

/-- A load from a file adds one reference to one module. -/
def LoadsOne (host : Host) (s : DllState) (name path : String) : Prop :=
  match s.dllMgr.findByName name with
  | some dll => dll.refCount + 1 < u32Size
  | none => ∀ file ∈ imageAt host path, Unshared s name ∧
      ∀ depName ∈ file.importedModules, Skipped host s name depName

instance (host : Host) (s : DllState) (name path : String) :
    Decidable (LoadsOne host s name path) := by
  unfold LoadsOne
  split <;> infer_instance

namespace Modules

variable (state : Modules)

/-- A handle is valid while a load that returned it is not freed, and each module is
registered once. -/
def HandlesHeld : Prop :=
  (∀ hmod, (state.dllMgr.findByHandle hmod).isSome ↔ 0 < state.held hmod) ∧
    state.dllMgr.dlls.Pairwise fun a b => ¬SameModule a.name b.name

/-- A module is loaded by one name, a builtin module once at a time, and no load brings
in another module or fails in the start routine of its own. -/
def Counts : ModuleCall → Prop
  | .load host _ _ _ name _ =>
      if moduleStem name ∈ runtimeBuiltins then
        state.dllMgr.findByName (moduleStem name) = none ∧
          Unshared state.toDllState (moduleStem name)
      else ∀ path ∈ host.findDllPath name, LoadsOne host state.toDllState name path
  | .startReturned idx result => result ≠ 0 ∨
      ∀ entry ∈ state.starting[idx]?, state.dllMgr.findByHandle entry.1 = none
  | _ => True

instance (call : ModuleCall) : Decidable (state.Counts call) := by
  unfold Counts
  split <;> infer_instance

end Modules

/-- The counts of the registered modules are what the guest holds. -/
structure Counted (dlls : List LoadedDll) (held : Nat → Nat) : Prop where
  handles : dlls.Pairwise fun a b => a.handle ≠ b.handle
  counts : ∀ dll ∈ dlls, held dll.handle = dll.refCount
  positive : ∀ dll ∈ dlls, 0 < dll.refCount
  others : ∀ hmod, (∀ dll ∈ dlls, dll.handle ≠ hmod) → held hmod = 0
  names : dlls.Pairwise fun a b => ¬SameModule a.name b.name

namespace Counted

variable {pre post dlls : List LoadedDll} {dll : LoadedDll} {held : Nat → Nat}

theorem ne_of_split (counted : Counted (pre ++ dll :: post) held) :
    ∀ other ∈ pre ++ post, other.handle ≠ dll.handle := by
  obtain ⟨_, hpost, hpre⟩ := List.pairwise_append.mp counted.handles
  intro other member
  rcases List.mem_append.mp member with before | behind
  · exact hpre other before dll List.mem_cons_self
  · exact ((List.pairwise_cons.mp hpost).1 other behind).symm

theorem remove (counted : Counted (pre ++ dll :: post) held) :
    Counted (pre ++ post) (Function.update held dll.handle 0) := by
  have sub : (pre ++ post).Sublist (pre ++ dll :: post) :=
    (List.sublist_cons_self dll post).append_left pre
  have apart := counted.ne_of_split
  refine ⟨counted.handles.sublist sub, ?_, ?_, ?_, counted.names.sublist sub⟩
  · intro other member
    rw [Function.update_of_ne (apart other member)]
    exact counted.counts other (sub.subset member)
  · exact fun other member => counted.positive other (sub.subset member)
  · intro hmod absent
    by_cases here : hmod = dll.handle
    · rw [here, Function.update_self]
    · rw [Function.update_of_ne here]
      apply counted.others
      intro other member
      rcases List.mem_append.mp member with before | behind
      · exact absent other (List.mem_append_left _ before)
      · rcases List.mem_cons.mp behind with rfl | behind
        · exact Ne.symm here
        · exact absent other (List.mem_append_right _ behind)

theorem recount (counted : Counted (pre ++ dll :: post) held) {count : Nat} (positive : 0 < count) :
    Counted (pre ++ { dll with refCount := count } :: post)
      (Function.update held dll.handle count) := by
  have apart := counted.ne_of_split
  have split {motive : LoadedDll → Prop} (here : motive { dll with refCount := count })
      (others : ∀ other ∈ pre ++ post, motive other) :
      ∀ other ∈ pre ++ { dll with refCount := count } :: post, motive other := by
    intro other member
    rcases List.mem_append.mp member with before | behind
    · exact others other (List.mem_append_left _ before)
    · rcases List.mem_cons.mp behind with rfl | behind
      · exact here
      · exact others other (List.mem_append_right _ behind)
  have old : ∀ other ∈ pre ++ post, other ∈ pre ++ dll :: post :=
    fun _ member => ((List.sublist_cons_self dll post).append_left pre).subset member
  have same {motive : LoadedDll → LoadedDll → Prop}
      (alike : ∀ other, (motive dll other ↔ motive { dll with refCount := count } other) ∧
        (motive other dll ↔ motive other { dll with refCount := count }))
      (h : (pre ++ dll :: post).Pairwise motive) :
      (pre ++ { dll with refCount := count } :: post).Pairwise motive := by
    obtain ⟨hpre, hpost, hacross⟩ := List.pairwise_append.mp h
    obtain ⟨hfirst, hrest⟩ := List.pairwise_cons.mp hpost
    refine List.pairwise_append.mpr ⟨hpre, List.pairwise_cons.mpr ⟨?_, hrest⟩, ?_⟩
    · exact fun other member => (alike other).1.mp (hfirst other member)
    · intro other member next hnext
      rcases List.mem_cons.mp hnext with rfl | behind
      · exact (alike other).2.mp (hacross other member dll List.mem_cons_self)
      · exact hacross other member next (List.mem_cons_of_mem _ behind)
  refine ⟨same (fun _ => ⟨Iff.rfl, Iff.rfl⟩) counted.handles, split ?_ ?_, split positive ?_, ?_,
    same (fun _ => ⟨Iff.rfl, Iff.rfl⟩) counted.names⟩
  · exact Function.update_self ..
  · intro other member
    rw [Function.update_of_ne (apart other member)]
    exact counted.counts other (old other member)
  · exact fun other member => counted.positive other (old other member)
  · intro hmod absent
    have here : hmod ≠ dll.handle :=
      (absent { dll with refCount := count } (by simp)).symm
    rw [Function.update_of_ne here]
    apply counted.others
    intro other member
    rcases List.mem_append.mp member with before | behind
    · exact absent other (List.mem_append_left _ before)
    · rcases List.mem_cons.mp behind with rfl | behind
      · exact here.symm
      · exact absent other (List.mem_append_right _ (List.mem_cons_of_mem _ behind))

theorem register (counted : Counted dlls held) (first : dll.refCount = 1)
    (handle : ∀ other ∈ dlls, other.handle ≠ dll.handle)
    (name : ∀ other ∈ dlls, ¬SameModule other.name dll.name) :
    Counted (dlls ++ [dll]) (Function.update held dll.handle (held dll.handle + 1)) := by
  have zero : held dll.handle = 0 := counted.others dll.handle handle
  have one : Function.update held dll.handle (held dll.handle + 1) dll.handle = dll.refCount := by
    rw [Function.update_self, zero, first]
  refine ⟨?_, ?_, ?_, ?_, ?_⟩
  · refine List.pairwise_append.mpr ⟨counted.handles, List.pairwise_singleton _ _, ?_⟩
    exact fun other member next hnext => List.mem_singleton.mp hnext ▸ handle other member
  · intro other member
    rcases List.mem_append.mp member with old | new
    · rw [Function.update_of_ne (handle other old)]
      exact counted.counts other old
    · exact List.mem_singleton.mp new ▸ one
  · intro other member
    rcases List.mem_append.mp member with old | new
    · exact counted.positive other old
    · rw [List.mem_singleton.mp new, first]
      exact Nat.one_pos
  · intro hmod absent
    have here : hmod ≠ dll.handle := (absent dll (by simp)).symm
    rw [Function.update_of_ne here]
    exact counted.others hmod fun other member => absent other (List.mem_append_left _ member)
  · refine List.pairwise_append.mpr ⟨counted.names, List.pairwise_singleton _ _, ?_⟩
    exact fun other member next hnext => List.mem_singleton.mp hnext ▸ name other member

/-- The handle of a registered module finds this module. -/
theorem position (counted : Counted dlls held) {mgr : DllManager} (same : mgr.dlls = dlls)
    (member : dll ∈ dlls) : ∃ idx, mgr.position dll.handle = some (idx, dll) := by
  cases hposition : mgr.position dll.handle with
  | none =>
    have absent := List.find?_eq_none.mp (DllManager.position_eq_none hposition)
    exact absurd (beq_self_eq_true dll.handle) (absent dll (same ▸ member))
  | some found =>
    obtain ⟨idx, other⟩ := found
    obtain ⟨handle, pre, post, hdlls, _, _⟩ := DllManager.position_split hposition
    rw [same] at hdlls
    subst hdlls
    rcases List.mem_append.mp member with before | behind
    · exact absurd handle.symm (counted.ne_of_split dll (List.mem_append_left _ before))
    · rcases List.mem_cons.mp behind with rfl | behind
      · exact ⟨idx, rfl⟩
      · exact absurd handle.symm (counted.ne_of_split dll (List.mem_append_right _ behind))

/-- One more reference to a registered module. -/
theorem increment (counted : Counted dlls held) {mgr : DllManager} (same : mgr.dlls = dlls)
    (member : dll ∈ dlls) (small : dll.refCount + 1 < u32Size) :
    Counted (mgr.incrementRefcount dll.handle).2.dlls
      (Function.update held dll.handle (held dll.handle + 1)) := by
  obtain ⟨idx, hposition⟩ := counted.position same member
  obtain ⟨_, pre, post, hdlls, rfl, _⟩ := DllManager.position_split hposition
  have count := counted.counts dll member
  have hnext : (mgr.incrementRefcount dll.handle).2.dlls =
      pre ++ { dll with refCount := dll.refCount + 1 } :: post := by
    rw [← DllManager.setRefCount_split hdlls]
    simp [DllManager.incrementRefcount, hposition, wrapAdd_of_lt small]
  rw [hnext, count]
  rw [same] at hdlls
  exact (hdlls ▸ counted).recount (Nat.succ_pos _)

/-- A free takes one reference, and with the last one the module. -/
theorem decrement (counted : Counted dlls held) {mgr : DllManager} (same : mgr.dlls = dlls)
    (hmod : Nat) : Counted (mgr.decrementRefcount hmod).2.dlls
      (Function.update held hmod (held hmod - 1)) := by
  cases hposition : mgr.position hmod with
  | none =>
    have absent := List.find?_eq_none.mp (DllManager.position_eq_none hposition)
    have zero : held hmod = 0 := counted.others hmod fun dll member => by
      simpa using absent dll (same ▸ member)
    have hnext : (mgr.decrementRefcount hmod).2.dlls = dlls := by
      simp [DllManager.decrementRefcount, hposition, same]
    have unchanged : held hmod - 1 = held hmod := by omega
    rwa [hnext, unchanged, Function.update_eq_self]
  | some found =>
    obtain ⟨idx, dll⟩ := found
    obtain ⟨rfl, pre, post, hdlls, rfl, _⟩ := DllManager.position_split hposition
    have member : dll ∈ dlls := same ▸ hdlls ▸ List.mem_append_right _ List.mem_cons_self
    have count := counted.counts dll member
    have positive := counted.positive dll member
    have parts : Counted (pre ++ dll :: post) held := hdlls ▸ same ▸ counted
    rw [count]
    by_cases last : dll.refCount ≤ 1
    · have hnext : (mgr.decrementRefcount dll.handle).2.dlls = pre ++ post := by
        simp [DllManager.decrementRefcount, hposition, last, hdlls, List.eraseIdx_append]
      have gone : dll.refCount - 1 = 0 := by omega
      rw [hnext, gone]
      exact parts.remove
    · have hnext : (mgr.decrementRefcount dll.handle).2.dlls =
          pre ++ { dll with refCount := dll.refCount - 1 } :: post := by
        rw [← DllManager.setRefCount_split hdlls]
        simp [DllManager.decrementRefcount, hposition, last]
      rw [hnext]
      exact parts.recount (by omega)

theorem handlesHeld {state : Modules} (counted : Counted state.dllMgr.dlls state.held) :
    state.HandlesHeld := by
  refine ⟨fun hmod => ?_, counted.names⟩
  constructor
  · intro valid
    obtain ⟨dll, hfind⟩ := Option.isSome_iff_exists.mp valid
    have member := List.mem_of_find?_eq_some hfind
    have handle : dll.handle = hmod := by simpa using List.find?_some hfind
    rw [← handle, counted.counts dll member]
    exact counted.positive dll member
  · intro positive
    cases hfind : state.dllMgr.findByHandle hmod with
    | some dll => rfl
    | none =>
      have absent := List.find?_eq_none.mp hfind
      have zero := counted.others hmod fun dll member => by simpa using absent dll member
      omega

end Counted

section Loading

variable {host : Host} {depth : Nat} {name path : String} {s next : DllState}
  {result : Except LoadError Nat}

theorem load_unreadable (unreadable : imageAt host path = none)
    (absent : s.dllMgr.findByName name = none)
    (h : loadDllImpl host depth name path s = some (result, next)) :
    (∃ e, result = .error e) ∧ next = s := by
  obtain ⟨inner, ends⟩ := loadDllImpl_ends h
  cases ends with
  | again found => cases absent.symm.trans found
  | unreadable => exact ⟨⟨_, rfl⟩, rfl⟩
  | read _ image => cases unreadable.symm.trans image

theorem loadDependency_skipped {depName : String} (skipped : Skipped host s name depName)
    (loading : toAsciiUppercase name ∈ s.loading)
    (h : loadDependency host (loadDllImpl host depth) s depName = some next) : next = s := by
  rcases loadDependency_ends h with rfl | ⟨user, unregistered, unloading, depPath, _, hpath, hload⟩
  · rfl
  · have unreadable : imageAt host depPath = none := by
      rcases skipped with builtin | registered | itself | unreadable
      · exact absurd builtin user
      · rw [unregistered] at registered
        contradiction
      · exact absurd (itself ▸ loading) unloading
      · exact unreadable depPath hpath
    have absent : s.dllMgr.findByName (toAsciiUppercase depName) = none :=
      (DllManager.findByName_toAsciiUppercase _ _).trans unregistered
    exact (load_unreadable unreadable absent hload).2

/-- What a load does to the registered modules where it brings in no other one. -/
theorem loadFile_registers {data : List UInt8} {file : LxFile}
    (skipped : ∀ depName ∈ file.importedModules, Skipped host s name depName)
    (h : FileLoad host (loadDllImpl host depth) (toAsciiUppercase name) data file s result next) :
    ((∃ e, result = .error e) ∧ next.dllMgr = s.dllMgr) ∨
      ∃ dll : LoadedDll, dll.name = toAsciiUppercase name ∧ dll.refCount = 1 ∧
        dll.handle = s.dllMgr.nextHandle ∧ result = .ok dll.handle ∧
        next.dllMgr.dlls = s.dllMgr.dlls ++ [dll] := by
  cases h with
  | outOfMemory | badPage => exact .inl ⟨⟨_, rfl⟩, rfl⟩
  | @registered _ memMgr mem _ linked _ _ dependencies _ =>
    generalize hstart : ({ s with memMgr, mem, loading := toAsciiUppercase name :: s.loading } :
      DllState) = start at dependencies
    have turn : ∀ depName ∈ file.importedModules, ∀ state after, state = start →
        loadDependency host (loadDllImpl host depth) state depName = some after →
          after = start := by
      rintro depName hdep state after rfl hload
      subst hstart
      exact loadDependency_skipped (skipped depName hdep) List.mem_cons_self hload
    obtain rfl : linked = start :=
      @foldlM_preserves _ _ _ (fun state => state = start) _ _ _ turn dependencies rfl
    subst hstart
    exact .inr ⟨_, rfl, rfl, rfl, rfl, rfl⟩

/-- A load leaves the modules, or counts one more reference, or registers its module. -/
theorem load_counted {held : Nat → Nat} (counted : Counted s.dllMgr.dlls held)
    (allowed : LoadsOne host s name path)
    (h : loadDllImpl host depth name path s = some (result, next)) :
    (∀ e, result = .error e → Counted next.dllMgr.dlls held) ∧
      ∀ hmod, result = .ok hmod →
        Counted next.dllMgr.dlls (Function.update held hmod (held hmod + 1)) := by
  unfold LoadsOne at allowed
  obtain ⟨inner, ends⟩ := loadDllImpl_ends h
  cases ends with
  | again found =>
    rw [found] at allowed
    refine ⟨by simp, ?_⟩
    rintro hmod ⟨⟩
    exact counted.increment rfl (List.mem_of_find?_eq_some found) allowed
  | unreadable => exact ⟨fun _ _ => counted, by simp⟩
  | read absent image rest =>
    rw [absent] at allowed
    obtain ⟨⟨unnamed, unhandled⟩, skipped⟩ := allowed _ image
    rcases loadFile_registers skipped rest with ⟨⟨e, rfl⟩, same⟩ |
      ⟨dll, hname, hfirst, hhandle, rfl, hdlls⟩
    · exact ⟨fun _ _ => same ▸ counted, by simp⟩
    · refine ⟨by simp, ?_⟩
      rintro hmod ⟨⟩
      rw [hdlls]
      refine counted.register hfirst (fun other member => hhandle ▸ unhandled other member) ?_
      intro other member shared
      apply unnamed other member
      unfold SameModule at shared ⊢
      rwa [hname, toAsciiUppercase_idem] at shared

end Loading

theorem dosFreeModule_dlls (s : DllState) (hmod : Nat) :
    (dosFreeModule s hmod).dllMgr.dlls = (s.dllMgr.decrementRefcount hmod).2.dlls := by
  unfold dosFreeModule
  split
  · rename_i hfreed
    rw [hfreed]
  · rename_i hfreed
    rw [hfreed]
    dsimp only
    split <;> rfl

namespace Modules

variable {state next : Modules}

theorem loaded_counted {result : ApiResult} {found : Option Nat} {s : DllState}
    (matching : ∀ addr hmod phmod bases, result = .callGuest addr hmod phmod bases →
      found = some hmod)
    (failed : found = none → Counted s.dllMgr.dlls state.held)
    (taken : ∀ hmod, found = some hmod → Counted s.dllMgr.dlls (state.take hmod)) :
    Counted (state.loaded (result, found, s)).dllMgr.dlls
      (state.loaded (result, found, s)).held := by
  cases result with
  | callGuest addr hmod phmod bases => exact taken hmod (matching addr hmod phmod bases rfl)
  | _ =>
    cases found with
    | some hmod => exact taken hmod rfl
    | none => exact failed rfl

theorem loadBuiltin_counted (counted : Counted state.dllMgr.dlls state.held) {stem : String}
    (absent : state.dllMgr.findByName stem = none) (unshared : Unshared state.toDllState stem) :
    Counted (loadBuiltin state.toDllState stem).2.dllMgr.dlls
      (state.take (loadBuiltin state.toDllState stem).1) := by
  have fresh : loadBuiltin state.toDllState stem = registerBuiltin state.toDllState stem := by
    simp only [loadBuiltin, absent]
  rw [fresh]
  exact counted.register rfl unshared.2 unshared.1

theorem load_step {host : Host} {depth : Nat} {pszFailName cbFailName phmod : UInt32}
    {name : String} {out : ApiResult × Option Nat × DllState}
    (counted : Counted state.dllMgr.dlls state.held)
    (allowed : state.Counts (.load host depth pszFailName cbFailName name phmod))
    (h : dosLoadModule host depth pszFailName.toNat cbFailName.toNat name phmod.toNat
      state.toDllState = some out) :
    Counted (state.loaded out).dllMgr.dlls (state.loaded out).held := by
  unfold dosLoadModule at h
  simp only [Counts] at allowed
  split at h
  · rename_i builtin
    rw [if_pos builtin] at allowed
    cases h
    refine loaded_counted (by simp) (by simp) ?_
    rintro hmod ⟨⟩
    exact loadBuiltin_counted counted allowed.1 allowed.2
  · rename_i user
    rw [if_neg user] at allowed
    obtain ⟨⟨found, s⟩, hload, rfl⟩ := Option.map_eq_some_iff.mp h
    have counts : (found = none → Counted s.dllMgr.dlls state.held) ∧
        ∀ hmod, found = some hmod → Counted s.dllMgr.dlls (state.take hmod) := by
      unfold loadUser at hload
      split at hload
      · rename_i path hpath
        obtain ⟨⟨result, after⟩, hresult, hpair⟩ := Option.map_eq_some_iff.mp hload
        cases hpair
        have both := load_counted (s := { state.toDllState with loading := [] }) counted
          (allowed path hpath) hresult
        cases result with
        | error e => exact ⟨fun _ => both.1 e rfl, by simp [Except.toOption]⟩
        | ok handle => exact ⟨by simp [Except.toOption], fun hmod same => by
            cases same
            exact both.2 _ rfl⟩
      · cases hload
        exact ⟨fun _ => counted, by simp⟩
    cases found with
    | none => exact loaded_counted (by simp) counts.1 counts.2
    | some handle =>
      dsimp only
      split
      · refine loaded_counted ?_ counts.1 counts.2
        rintro _ _ _ _ ⟨⟩
        rfl
      · exact loaded_counted (by simp) counts.1 counts.2

theorem exec_counted {call : ModuleCall} (counted : Counted state.dllMgr.dlls state.held)
    (allowed : state.Counts call) (h : state.exec call = some next) :
    Counted next.dllMgr.dlls next.held := by
  cases call with
  | load =>
    obtain ⟨out, hload, rfl⟩ := Option.map_eq_some_iff.mp h
    exact load_step counted allowed hload
  | free hmod =>
    cases h
    dsimp only
    rw [dosFreeModule_dlls]
    exact counted.decrement rfl hmod.toNat
  | startReturned idx result =>
    obtain ⟨⟨hmod, phmod⟩, hentry, rfl⟩ := Option.map_eq_some_iff.mp h
    dsimp only
    split
    · exact counted
    · rename_i failed
      have gone := List.find?_eq_none.mp (allowed.resolve_left failed (hmod, phmod) hentry)
      have zero : state.held hmod = 0 := counted.others hmod fun dll member => by
        simpa using gone dll member
      have unchanged : state.drop hmod = state.held := by
        unfold drop
        rw [zero, Nat.zero_sub, ← zero, Function.update_eq_self]
      rw [unchanged]
      exact counted
  | unloadReturned =>
    cases h
    exact counted

theorem new_counted (base limit : UInt32) (mem : GuestMemory) :
    Counted (new base limit mem).dllMgr.dlls (new base limit mem).held :=
  ⟨.nil, by simp [new, DllState.new, DllManager.new], by simp [new, DllState.new, DllManager.new],
    fun _ _ => rfl, .nil⟩

/-- Over every run whose steps count, a handle is valid exactly while it is held. -/
theorem counting_run_handlesHeld (base limit : UInt32) (mem : GuestMemory)
    (calls : List ModuleCall) (state : Modules)
    (run : Run (step.guarded Counts) (new base limit mem) calls state) : state.HandlesHeld := by
  have counted : Counted state.dllMgr.dlls state.held :=
    run.invariant (fun state => Counted state.dllMgr.dlls state.held)
      (fun _ _ _ counted next => exec_counted counted next.1 next.2) (new_counted base limit mem)
  exact counted.handlesHeld

def countingExec (state : Modules) (call : ModuleCall) : Option Modules :=
  if state.Counts call then state.exec call else none

theorem countingExec_step (start : Modules) (call : ModuleCall) (finish : Modules)
    (h : start.countingExec call = some finish) : step.guarded Counts start call finish := by
  unfold countingExec at h
  split at h
  · rename_i allowed
    exact ⟨allowed, h⟩
  · cases h

def loadB : ModuleCall := .load DllState.sampleHost 2 0 0 "b.dll" 0

def loadPmwin : ModuleCall := .load DllState.sampleHost 0 0 0 "PMWIN" 0

/-- A builtin module and a user DLL are loaded, and the first one is freed. -/
theorem counting_run_handlesHeld_both : ∃ state : Modules,
    [loadPmwin, loadB, .free 0x1000].foldlM countingExec
      (new 0x1000 0x4000 Fixups.sampleMemory) = some state ∧ state.HandlesHeld := by
  have hrun : ([loadPmwin, loadB, .free 0x1000].foldlM countingExec
      (new 0x1000 0x4000 Fixups.sampleMemory)).isSome := by decide +kernel
  obtain ⟨state, hstate⟩ := Option.isSome_iff_exists.mp hrun
  have run : Run (step.guarded Counts) (new 0x1000 0x4000 Fixups.sampleMemory)
      [loadPmwin, loadB, .free 0x1000] state := Run.of_foldlM countingExec_step hstate
  exact ⟨state, hstate, counting_run_handlesHeld 0x1000 0x4000 Fixups.sampleMemory _ state run⟩

/-- A builtin module that is loaded twice is gone after one free. -/
theorem builtin_handle_lost : ¬∀ (base limit : UInt32) (mem : GuestMemory)
    (calls : List ModuleCall) (state : Modules),
    Run step (new base limit mem) calls state → state.HandlesHeld := by
  intro all
  have hrun : ([loadPmwin, loadPmwin, .free 0x1000].foldlM exec
      (new 0x1000 0x4000 Fixups.sampleMemory)).map (fun state =>
        ((state.dllMgr.findByHandle 0x1000).isSome, state.held 0x1000)) = some (false, 1) := by
    decide +kernel
  obtain ⟨state, hstate, hresult⟩ := Option.map_eq_some_iff.mp hrun
  obtain ⟨invalid, held⟩ := Prod.mk.inj hresult
  have run : Run step (new 0x1000 0x4000 Fixups.sampleMemory) _ state :=
    Run.of_foldlM (fun _ _ _ h => h) hstate
  have valid := ((all _ _ _ _ _ run).1 0x1000).mpr (held ▸ Nat.one_pos)
  rw [invalid] at valid
  contradiction

end Modules
end Warpine.Vcpu
