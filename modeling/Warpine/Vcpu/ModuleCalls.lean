import Mathlib.Logic.Function.Basic
import Warpine.Loader.DllOrder
import Warpine.Vcpu.Callbacks

/-! Loading and freeing modules at run time. A load that finds a routine to start the DLL
has the thread call it, and ends when that call returns. -/
namespace Warpine.Vcpu
open Warpine.Lib Warpine.Guest Warpine.Loader Warpine.Lx

/-- A run-time load of these makes up a module without a file. -/
def runtimeBuiltins : List String := builtinModules ++ ["SO32DLL", "TCP32DLL"]

def errorModNotFound : Nat := 126

/-- The name that a module is found by, but for its case. -/
def moduleStem (name : String) : String := Host.stripDll (toAsciiUppercase name)

def builtinDll (stem : String) (handle : Nat) : LoadedDll where
  name := stem
  handle
  objectBases := []
  exportsByOrdinal := Table.empty
  exportsByName := Table.empty
  refCount := 1
  inittermAddr := none
  isBuiltin := true

def registerBuiltin (s : DllState) (stem : String) : Nat × DllState :=
  let (handle, dllMgr) := s.dllMgr.allocHandle
  (handle, { s with
    dllMgr := dllMgr.register (builtinDll stem handle)
    images := s.images ++ [⟨s.nextInstance, []⟩]
    nextInstance := s.nextInstance + 1 })

/-- A registration from an earlier load is used again. -/
def loadBuiltin (s : DllState) (stem : String) : Nat × DllState :=
  match s.dllMgr.findByName stem with
  | some existing => (existing.handle, s)
  | none => registerBuiltin s stem

/-- No handle where the module is not on the host or cannot be loaded. -/
def loadUser (host : Host) (depth : Nat) (name : String) (s : DllState) :
    Option (Option Nat × DllState) :=
  match host.findDllPath name with
  | some path => (loadDll host depth name path s).map fun (result, s) => (result.toOption, s)
  | none => some (none, s)

/-- The name of a module that failed, as far as the guest has room for it. -/
def putFailName (mem : GuestMemory) (pszFailName cbFailName : Nat) (name : String) : GuestMemory :=
  if pszFailName ≠ 0 ∧ 0 < cbFailName then
    let bytes := name.toUTF8.toList
    let copyLen := min bytes.length (cbFailName - 1)
    (mem.putBytes pszFailName (bytes.take copyLen)).put 1 (wrapAdd pszFailName copyLen) 0
  else mem

/-- The result of the call, with the handle that the load is for. -/
def dosLoadModule (host : Host) (depth pszFailName cbFailName : Nat) (name : String) (phmod : Nat)
    (s : DllState) : Option (ApiResult × Option Nat × DllState) :=
  if moduleStem name ∈ runtimeBuiltins then
    let (handle, s) := loadBuiltin s (moduleStem name)
    some (.normal 0, some handle, { s with mem := s.mem.putAt 4 phmod handle })
  else (loadUser host depth name s).map fun (found, s) => match found with
    | some handle => match (s.dllMgr.findByHandle handle).bind LoadedDll.inittermAddr with
      | some addr => (.callGuest addr handle phmod [], some handle, s)
      | none => (.normal 0, some handle, { s with mem := s.mem.putAt 4 phmod handle })
    | none =>
        let mem := (putFailName s.mem pszFailName cbFailName name).putAt 4 phmod 0
        (.normal errorModNotFound, none, { s with mem })

/-- The return of a start routine: the handle goes to the guest where it reports success. -/
def initTermStarted (s : DllState) (hmod phmod result : Nat) : DllState :=
  { s with mem := s.mem.putAt 4 phmod (if result ≠ 0 then hmod else 0) }

/-- The memory is as the thread leaves it that returns from the routine. -/
theorem initTermStarted_mem (s : DllState) (state : VcpuState) (hmod phmod result : Nat)
    (same : state.mem = s.mem) :
    (initTermStarted s hmod phmod result).mem = (state.initTermReturn hmod phmod result).mem := by
  unfold initTermStarted VcpuState.initTermReturn
  rw [← same]
  split <;> rfl

/-- The modules of a guest: the start routines that have not returned, how many loads of
each handle were successful and are not freed, and the instances whose start routine has
been called, in turn. -/
structure Modules extends DllState where
  starting : List (Nat × Nat)
  held : Nat → Nat
  started : List Nat

inductive ModuleCall where
  | load (host : Host) (depth : Nat) (pszFailName cbFailName : UInt32) (name : String)
      (phmod : UInt32)
  | free (hmod : UInt32)
  | startReturned (idx : Nat) (result : UInt32)
  | unloadReturned (idx : Nat)

namespace Modules

variable (state : Modules)

def new (base limit : UInt32) (mem : GuestMemory) : Modules where
  toDllState := .new base limit mem
  starting := []
  held := fun _ => 0
  started := []

def take (hmod : Nat) : Nat → Nat := Function.update state.held hmod (state.held hmod + 1)
def drop (hmod : Nat) : Nat → Nat := Function.update state.held hmod (state.held hmod - 1)

/-- The instance that a handle stands for. -/
def instanceOf (s : DllState) (hmod : Nat) : Option Nat :=
  (s.dllMgr.position hmod).bind fun found => (s.images[found.1]?).map Image.instanceId

def loaded : ApiResult × Option Nat × DllState → Modules
  | (.callGuest _ hmod phmod _, _, s) => { state with
      toDllState := s
      held := state.take hmod
      starting := state.starting ++ [(hmod, phmod)]
      started := state.started ++ (instanceOf s hmod).toList }
  | (_, some hmod, s) => { state with toDllState := s, held := state.take hmod }
  | (_, none, s) => { state with toDllState := s }

def exec : ModuleCall → Option Modules
  | .load host depth pszFailName cbFailName name phmod =>
      (dosLoadModule host depth pszFailName.toNat cbFailName.toNat name phmod.toNat
        state.toDllState).map state.loaded
  | .free hmod => some { state with
      toDllState := dosFreeModule state.toDllState hmod.toNat, held := state.drop hmod.toNat }
  | .startReturned idx result => (state.starting[idx]?).map fun (hmod, phmod) => { state with
      toDllState := initTermStarted state.toDllState hmod phmod result.toNat
      starting := state.starting.eraseIdx idx
      held := if result ≠ 0 then state.held else state.drop hmod }
  | .unloadReturned idx => some { state with toDllState := initTermUnload state.toDllState idx }

def step : Step Modules ModuleCall := fun state call next => state.exec call = some next

end Modules
end Warpine.Vcpu
