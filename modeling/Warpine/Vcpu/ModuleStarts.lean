import Warpine.Vcpu.ModuleCalls

/-! When the start routines of DLLs are called, over any loads and frees. -/
namespace Warpine.Vcpu
open Warpine.Lib Warpine.Guest Warpine.Loader Warpine.Lx

/-- A load from a file starts the one DLL that it registers, if any. -/
def StartsOne (host : Host) (s : DllState) (name : String) : Prop :=
  match s.dllMgr.findByName name with
  | some dll => dll.inittermAddr = none
  | none => Ready host s name

namespace Modules

variable (state : Modules)

/-- Each registered DLL that has a start routine was started once, and after those that
it is linked to. -/
structure StartedOnce : Prop where
  once : ∀ entry ∈ state.registered, entry.1.inittermAddr.isSome →
    state.started.count entry.2.instanceId = 1
  after : ∀ entry ∈ state.registered, entry.1.inittermAddr.isSome →
    ∀ other ∈ state.registered, other.1.inittermAddr.isSome →
      other.2.instanceId ∈ entry.2.resolvedInto →
        state.started.idxOf other.2.instanceId < state.started.idxOf entry.2.instanceId

/-- A start routine that reports failure takes its module away, with its memory. -/
def FailureReleased (next : Modules) : ModuleCall → Prop
  | .startReturned idx result => result = 0 → ∀ entry ∈ state.starting[idx]?,
      ∀ dll ∈ state.dllMgr.findByHandle entry.1, next.dllMgr.findByHandle entry.1 = none ∧
        ∀ addr ∈ dll.objectBases, addr ∉ next.memMgr.addresses
  | _ => True

/-- No DLL with a start routine is loaded again or brought in by another one, and no
start routine of a valid module fails. -/
def Starts : ModuleCall → Prop
  | .load host _ _ _ name _ => moduleStem name ∈ runtimeBuiltins ∨
      ∀ path ∈ host.findDllPath name, StartsOne host { state.toDllState with loading := [] } name
  | .startReturned idx result => result ≠ 0 ∨
      ∀ entry ∈ state.starting[idx]?, state.dllMgr.findByHandle entry.1 = none
  | _ => True

end Modules

/-- Starts go by the numbers of the instances, and every DLL that is to be started was. -/
structure Ordered (s : DllState) (started : List Nat) : Prop where
  sorted : started.Pairwise (· < ·)
  past : ∀ inst ∈ started, inst < s.nextInstance
  all : ∀ entry ∈ s.registered, entry.1.inittermAddr.isSome → entry.2.instanceId ∈ started

namespace Ordered

variable {s next : DllState} {started more : List Nat} {added : List (LoadedDll × Image)}

theorem adds (ordered : Ordered s started) (adds : Adds s next added)
    (sorted : more.Pairwise (· < ·))
    (new : ∀ inst ∈ more, s.nextInstance ≤ inst ∧ inst < next.nextInstance)
    (all : ∀ entry ∈ added, entry.1.inittermAddr.isSome → entry.2.instanceId ∈ more) :
    Ordered next (started ++ more) where
  sorted := by
    refine List.pairwise_append.mpr ⟨ordered.sorted, sorted, ?_⟩
    exact fun inst member other hother => (ordered.past inst member).trans_le (new other hother).1
  past := by
    intro inst member
    rcases List.mem_append.mp member with old | later
    · exact (ordered.past inst old).trans_le adds.instances
    · exact (new inst later).2
  all := by
    intro entry member initterm
    rw [adds.registered] at member
    rcases List.mem_append.mp member with old | later
    · exact List.mem_append_left _ (ordered.all entry old initterm)
    · exact List.mem_append_right _ (all entry later initterm)

theorem addsQuiet (ordered : Ordered s started) (adds : Adds s next added)
    (quiet : ∀ entry ∈ added, entry.1.inittermAddr = none) : Ordered next started := by
  have none : ∀ entry ∈ added, entry.1.inittermAddr.isSome →
      entry.2.instanceId ∈ ([] : List Nat) := by
    intro entry member initterm
    rw [quiet entry member] at initterm
    cases initterm
  have h := ordered.adds adds .nil (by simp) none
  rwa [List.append_nil] at h

theorem keeps (ordered : Ordered s started) (keeps : Keeps s next) : Ordered next started where
  sorted := ordered.sorted
  past := by
    rw [keeps.nextInstance]
    exact ordered.past
  all := by
    intro entry member initterm
    obtain ⟨before, hbefore, _, same, image⟩ := keeps.old entry member
    rw [image]
    exact ordered.all before hbefore (same ▸ initterm)

theorem startedOnce {state : Modules} (ordered : Ordered state.toDllState state.started)
    (numbered : Numbered state.toDllState) : state.StartedOnce where
  once := fun entry member initterm =>
    List.count_eq_one_of_mem (ordered.sorted.imp fun less => less.ne)
      (ordered.all entry member initterm)
  after := by
    intro entry member initterm other hother hinit linked
    exact idxOf_lt_of_sorted ordered.sorted (ordered.all other hother hinit)
      (ordered.all entry member initterm)
      (numbered.linked entry.2 (List.of_mem_zip member).2 _ linked)

end Ordered

namespace Modules

variable {state next : Modules}

/-- The instance that a successful load starts. -/
def startedBy (s : DllState) (found : Option Nat) : Option Nat :=
  found.bind fun handle => ((s.dllMgr.findByHandle handle).bind LoadedDll.inittermAddr).bind
    fun _ => instanceOf s handle

theorem startedBy_of_position {s : DllState} {handle idx : Nat} {dll : LoadedDll} {image : Image}
    (position : s.dllMgr.position handle = some (idx, dll)) (himage : s.images[idx]? = some image) :
    startedBy s (some handle) = dll.inittermAddr.map fun _ => image.instanceId := by
  have hfind := DllManager.findByHandle_of_position position
  simp only [startedBy, Option.bind_some, hfind, instanceOf, position, himage, Option.map_some]
  cases dll.inittermAddr <;> rfl

/-- A load of a user DLL starts what it has found a start routine of. -/
theorem loaded_user {host : Host} {depth pszFailName cbFailName phmod : Nat} {name : String}
    {out : ApiResult × Option Nat × DllState} (user : moduleStem name ∉ runtimeBuiltins)
    (h : dosLoadModule host depth pszFailName cbFailName name phmod state.toDllState = some out) :
    ∃ found s, loadUser host depth name state.toDllState = some (found, s) ∧
      (state.loaded out).dllMgr = s.dllMgr ∧ (state.loaded out).images = s.images ∧
      (state.loaded out).nextInstance = s.nextInstance ∧
      (state.loaded out).started = state.started ++ (startedBy s found).toList := by
  unfold dosLoadModule at h
  rw [if_neg user] at h
  obtain ⟨⟨found, s⟩, hload, rfl⟩ := Option.map_eq_some_iff.mp h
  refine ⟨found, s, hload, ?_⟩
  cases found with
  | none => exact ⟨rfl, rfl, rfl, (List.append_nil _).symm⟩
  | some handle =>
    dsimp only [startedBy, Option.bind_some]
    cases (s.dllMgr.findByHandle handle).bind LoadedDll.inittermAddr with
    | none => exact ⟨rfl, rfl, rfl, (List.append_nil _).symm⟩
    | some addr => exact ⟨rfl, rfl, rfl, rfl⟩

/-- The starts are in order as long as no handle was given twice. -/
structure InOrder (s : DllState) (started : List Nat) : Prop where
  numbered : Numbered s
  ordered : s.nextInstance + 0x1000 ≤ u32Size → Ordered s started

theorem InOrder.keeps {s after : DllState} {started : List Nat} (inOrder : InOrder s started)
    (keeps : Keeps s after) : InOrder after started where
  numbered := inOrder.numbered.keeps keeps
  ordered := fun small => (inOrder.ordered (keeps.nextInstance ▸ small)).keeps keeps

theorem loadBuiltin_inOrder {s : DllState} {started : List Nat} (inOrder : InOrder s started)
    (stem : String) : InOrder (loadBuiltin s stem).2 started := by
  unfold loadBuiltin
  split
  · exact inOrder
  · obtain ⟨numbered, registered⟩ := @numbered_register s (registerBuiltin s stem).2
      inOrder.numbered _ _ rfl rfl rfl rfl rfl (by simp)
    have adds : Adds s (registerBuiltin s stem).2 _ :=
      ⟨registered, by simp, Nat.le_succ _, rfl⟩
    refine ⟨numbered, fun small => ?_⟩
    have before : s.nextInstance + 1 + 0x1000 ≤ u32Size := small
    exact (inOrder.ordered (by omega)).addsQuiet adds (by simp [builtinDll])

/-- A load of a module that is registered takes a reference to it only. -/
theorem loadDll_registered {host : Host} {depth : Nat} {name path : String} {s after : DllState}
    {dll : LoadedDll} {result : Except LoadError Nat} (hfind : s.dllMgr.findByName name = some dll)
    (h : loadDllImpl host depth name path s = some (result, after)) :
    result = .ok dll.handle ∧
      after = { s with dllMgr := (s.dllMgr.incrementRefcount dll.handle).2 } := by
  obtain ⟨inner, ends⟩ := loadDllImpl_ends h
  cases ends with
  | again found =>
    cases hfind.symm.trans found
    exact ⟨rfl, rfl⟩
  | unreadable absent | read absent => cases hfind.symm.trans absent

theorem keeps_incrementRefcount {s : DllState} (numbered : Numbered s) (handle : Nat) :
    Keeps s { s with dllMgr := (s.dllMgr.incrementRefcount handle).2 } := by
  unfold DllManager.incrementRefcount
  split
  · exact keeps_setRefCount numbered _ _
  · exact numbered.keeps_same rfl rfl rfl

theorem again_inOrder {host : Host} {depth : Nat} {name path : String} {s after : DllState}
    {started : List Nat} {dll : LoadedDll} {result : Except LoadError Nat}
    (inOrder : InOrder s started) (hfind : s.dllMgr.findByName name = some dll)
    (quiet : dll.inittermAddr = none)
    (h : loadDllImpl host depth name path s = some (result, after)) :
    InOrder after (started ++ (startedBy after result.toOption).toList) := by
  obtain ⟨rfl, hafter⟩ := loadDll_registered hfind h
  have keeps : Keeps s after := hafter ▸ keeps_incrementRefcount inOrder.numbered dll.handle
  have numbered := inOrder.numbered.keeps keeps
  refine ⟨numbered, fun small => ?_⟩
  have unstarted : startedBy after (Except.ok (ε := LoadError) dll.handle).toOption = none := by
    cases hfound : after.dllMgr.findByHandle dll.handle with
    | none => simp [startedBy, Except.toOption, hfound]
    | some other =>
      obtain ⟨image, member⟩ := numbered.mem_registered (List.mem_of_find?_eq_some hfound)
      obtain ⟨before, hbefore, handle, initterm, _⟩ := keeps.old _ member
      obtain ⟨own, hown⟩ := inOrder.numbered.mem_registered (List.mem_of_find?_eq_some hfind)
      have handled : other.handle = dll.handle := by simpa using List.find?_some hfound
      have same := inOrder.numbered.same_handle (keeps.nextInstance ▸ small) hbefore hown
        (handle.symm.trans handled)
      have none : other.inittermAddr = none := by
        rw [← quiet]
        exact initterm.trans (congrArg LoadedDll.inittermAddr same)
      simp [startedBy, Except.toOption, hfound, none]
  rw [unstarted, Option.toList_none, List.append_nil]
  exact (inOrder.ordered (keeps.nextInstance ▸ small)).keeps keeps

/-- A load of a module that is not registered starts it after all others. -/
theorem fresh_inOrder {host : Host} {name : String} {s after : DllState} {started : List Nat}
    {result : Except LoadError Nat} {deps : List (LoadedDll × Image)}
    {top : Option (LoadedDll × Image)} (inOrder : InOrder s started)
    (loaded : LoadAdded host s after name result deps top) :
    InOrder after (started ++ (startedBy after result.toOption).toList) := by
  have adds := loaded.adds
  have counted := adds.instances
  refine ⟨loaded.numbered, fun small => ?_⟩
  have ordered := inOrder.ordered (by omega)
  rw [loaded.handle]
  cases top with
  | none =>
    rw [Option.map_none, startedBy, Option.bind_none, Option.toList_none, List.append_nil]
    apply ordered.addsQuiet adds
    simpa using loaded.quiet
  | some entry =>
    have member : entry ∈ after.registered := by
      rw [adds.registered]
      simp
    obtain ⟨idx, position, himage⟩ := loaded.numbered.position small member
    have fresh := loaded.numbered.fresh _ (List.mem_map_of_mem (List.of_mem_zip member).2)
    have later := adds.later entry (by simp)
    rw [Option.map_some, startedBy_of_position position himage]
    apply ordered.adds adds
    · cases entry.1.inittermAddr <;> simp
    · intro inst hinst
      obtain ⟨_, _, rfl⟩ := Option.map_eq_some_iff.mp (Option.mem_toList.mp hinst)
      exact ⟨later, fresh⟩
    · intro other hother initterm
      rcases List.mem_append.mp hother with dep | own
      · rw [loaded.quiet other dep] at initterm
        cases initterm
      · obtain rfl : other = entry := by simpa using own
        obtain ⟨addr, haddr⟩ := Option.isSome_iff_exists.mp initterm
        simp [haddr]

theorem loadUser_inOrder {host : Host} {depth : Nat} {name : String} {s after : DllState}
    {started : List Nat} {found : Option Nat} (inOrder : InOrder s started)
    (allowed : ∀ path ∈ host.findDllPath name, StartsOne host { s with loading := [] } name)
    (h : loadUser host depth name s = some (found, after)) :
    InOrder after (started ++ (startedBy after found).toList) := by
  unfold loadUser at h
  split at h
  · rename_i path hpath
    obtain ⟨⟨result, _⟩, hresult, hpair⟩ := Option.map_eq_some_iff.mp h
    cases hpair
    have allowed := allowed path hpath
    have start : InOrder { s with loading := [] } started :=
      inOrder.keeps (inOrder.numbered.keeps_same rfl rfl rfl)
    unfold StartsOne at allowed
    split at allowed
    · rename_i dll hfind
      exact again_inOrder start hfind allowed hresult
    · rename_i absent
      obtain ⟨deps, top, loaded⟩ := loadDllImpl_adds host depth name path _ result after
        start.numbered hpath absent allowed hresult
      exact fresh_inOrder start loaded
  · cases h
    rw [startedBy, Option.bind_none, Option.toList_none, List.append_nil]
    exact inOrder

theorem load_inOrder {host : Host} {depth pszFailName cbFailName phmod : Nat} {name : String}
    {out : ApiResult × Option Nat × DllState} (inOrder : InOrder state.toDllState state.started)
    (allowed : moduleStem name ∈ runtimeBuiltins ∨
      ∀ path ∈ host.findDllPath name, StartsOne host { state.toDllState with loading := [] } name)
    (h : dosLoadModule host depth pszFailName cbFailName name phmod state.toDllState = some out) :
    InOrder (state.loaded out).toDllState (state.loaded out).started := by
  by_cases builtin : moduleStem name ∈ runtimeBuiltins
  · have first := loadBuiltin_inOrder inOrder (moduleStem name)
    unfold dosLoadModule at h
    rw [if_pos builtin] at h
    cases h
    exact first.keeps (first.numbered.keeps_same rfl rfl rfl)
  · obtain ⟨found, s, hload, dllMgr, images, count, started⟩ := loaded_user builtin h
    have loaded := loadUser_inOrder inOrder (allowed.resolve_left builtin) hload
    rw [started]
    exact loaded.keeps (loaded.numbered.keeps_same dllMgr images count)

theorem exec_inOrder {call : ModuleCall} (inOrder : InOrder state.toDllState state.started)
    (allowed : state.Starts call) (h : state.exec call = some next) :
    InOrder next.toDllState next.started := by
  cases call with
  | load =>
    obtain ⟨out, hload, rfl⟩ := Option.map_eq_some_iff.mp h
    exact load_inOrder inOrder allowed hload
  | free hmod =>
    cases h
    exact inOrder.keeps (keeps_dosFreeModule inOrder.numbered hmod.toNat)
  | startReturned idx result =>
    obtain ⟨entry, _, rfl⟩ := Option.map_eq_some_iff.mp h
    exact inOrder.keeps (inOrder.numbered.keeps_same rfl rfl rfl)
  | unloadReturned =>
    cases h
    exact inOrder.keeps (inOrder.numbered.keeps_same rfl rfl rfl)

theorem new_inOrder (base limit : UInt32) (mem : GuestMemory) :
    InOrder (new base limit mem).toDllState (new base limit mem).started where
  numbered := ⟨rfl, rfl, by simp [new, DllState.new, DllState.registered, DllManager.new],
    List.Pairwise.nil, by simp [new, DllState.new, DllState.instances],
    by simp [new, DllState.new]⟩
  ordered := fun _ => ⟨List.Pairwise.nil, by simp [new],
    by simp [new, DllState.new, DllState.registered, DllManager.new]⟩

theorem starts_failureReleased {call : ModuleCall} (allowed : state.Starts call) :
    state.FailureReleased next call := by
  cases call with
  | startReturned idx result =>
    intro failed entry hentry dll hdll
    have gone := allowed.resolve_left (not_not.mpr failed) entry hentry
    rw [gone] at hdll
    cases hdll
  | _ => trivial

/-- Over every run whose steps start what they load, each start routine is called once
and in the order of the links, and none of a module that stays fails. -/
theorem starting_run_startedOnce (base limit : UInt32) (mem : GuestMemory)
    (calls : List ModuleCall) (state : Modules)
    (run : Run (step.guarded Starts) (new base limit mem) calls state)
    (small : state.nextInstance + 0x1000 ≤ u32Size) :
    state.StartedOnce ∧ ∀ call next, step.guarded Starts state call next →
      state.FailureReleased next call := by
  have inOrder : InOrder state.toDllState state.started :=
    run.invariant (fun state => InOrder state.toDllState state.started)
      (fun _ _ _ inOrder next => exec_inOrder inOrder next.1 next.2)
      (new_inOrder base limit mem)
  refine ⟨(inOrder.ordered small).startedOnce inOrder.numbered, ?_⟩
  exact fun _ _ h => starts_failureReleased h.1

/-- The library "B", with its first byte as the routine to start it. -/
def startDll : List UInt8 := (DllState.sampleDll [] 0 []).set 88 1

def startHost : Host where
  __ := DllState.sampleHost
  files := fun path => if path = "dlls/b.dll" then some startDll else DllState.sampleHost.files path

def startB : ModuleCall := .load startHost 2 0 0 "b.dll" 0

theorem startB_ready (s : DllState) : Ready startHost s "b.dll" := by
  intro dep path
  obtain ⟨_, ⟨path, hpath, file, hfile, depName, hdep, _⟩, _⟩ := Relation.TransGen.head'_iff.mp path
  have alone : ((startHost.findDllPath "b.dll").bind (imageAt startHost)).map
      LxFile.importedModules = some [] := by decide +kernel
  rw [hpath, Option.bind_some, hfile] at alone
  cases Option.some.inj alone ▸ hdep

/-- A DLL is loaded and its start routine reports success. -/
theorem starting_run_startedOnce_alone : ∃ state : Modules,
    [startB, .startReturned 0 1].foldlM exec
      (new 0x1000 0x4000 Fixups.sampleMemory) = some state ∧ state.started = [0] ∧
        state.StartedOnce := by
  have hrun : (([startB, .startReturned 0 1].foldlM exec
      (new 0x1000 0x4000 Fixups.sampleMemory)).map fun state =>
        (state.started, state.nextInstance)) = some ([0], 1) := by decide +kernel
  obtain ⟨state, hstate, hresult⟩ := Option.map_eq_some_iff.mp hrun
  obtain ⟨started, count⟩ := Prod.mk.inj hresult
  refine ⟨state, hstate, started, ?_⟩
  simp only [List.foldlM_cons] at hstate
  obtain ⟨first, hload, hstate⟩ := Option.bind_eq_some_iff.mp hstate
  obtain ⟨second, hreturn, hstate⟩ := Option.bind_eq_some_iff.mp hstate
  cases hstate
  have allowed : (new 0x1000 0x4000 Fixups.sampleMemory).Starts startB :=
    .inr fun _ _ => startB_ready _
  have run : Run (step.guarded Starts) (new 0x1000 0x4000 Fixups.sampleMemory)
      [startB, .startReturned 0 1] state :=
    .cons ⟨allowed, hload⟩ (.cons ⟨.inl (by decide), hreturn⟩ (.nil _))
  exact (starting_run_startedOnce 0x1000 0x4000 Fixups.sampleMemory _ state run
    (by rw [count]; decide)).1

/-- The dependency "B" of "A" is not started. -/
theorem dependency_unstarted : ¬∀ (base limit : UInt32) (mem : GuestMemory)
    (calls : List ModuleCall) (state : Modules),
    Run step (new base limit mem) calls state → state.StartedOnce := by
  intro all
  have hrun : (([.load startHost 2 0 0 "a.dll" 0].foldlM exec
      (new 0x1000 0x4000 Fixups.sampleMemory)).map fun state =>
        state.registered.map fun entry =>
          (entry.1.inittermAddr.isSome, state.started.count entry.2.instanceId)) =
      some [(true, 0), (false, 0)] := by decide +kernel
  obtain ⟨state, hstate, hresult⟩ := Option.map_eq_some_iff.mp hrun
  have run : Run step (new 0x1000 0x4000 Fixups.sampleMemory) _ state :=
    Run.of_foldlM (fun _ _ _ h => h) hstate
  obtain ⟨entry, _, hregistered, hentry, _⟩ := List.map_eq_cons_iff.mp hresult
  obtain ⟨initterm, unstarted⟩ := Prod.mk.inj hentry
  have once := (all _ _ _ _ _ run).once entry (hregistered ▸ List.mem_cons_self) initterm
  rw [unstarted] at once
  cases once

end Modules
end Warpine.Vcpu
