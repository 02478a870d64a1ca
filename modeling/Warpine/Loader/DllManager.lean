import Warpine.Lib.Table
import Warpine.Lib.Words

/-! User DLLs loaded into guest memory, with their exports and reference counts. -/
namespace Warpine.Loader
open Warpine.Lib

def toAsciiUppercase (name : String) : String := name.map Char.toUpper

theorem toUpper_toUpper (c : Char) : c.toUpper.toUpper = c.toUpper := by
  by_cases lower : 'a'.val ≤ c.val ∧ c.val ≤ 'z'.val
  · have hval : c.toUpper.val = c.val + ('A'.val - 'a'.val) := by
      delta Char.toUpper
      rw [dif_pos lower]
    have upper : ¬('a'.val ≤ c.toUpper.val ∧ c.toUpper.val ≤ 'z'.val) := by
      have low := UInt32.le_iff_toNat_le.mp lower.1
      have high := UInt32.le_iff_toNat_le.mp lower.2
      have ha : 'a'.val.toNat = 97 := rfl
      have hz : 'z'.val.toNat = 122 := rfl
      have distance : ('A'.val - 'a'.val).toNat = u32Size - 32 := rfl
      rw [hval, UInt32.le_iff_toNat_le, UInt32.toNat_add, ha, distance]
      rw [ha] at low
      rw [hz] at high
      unfold u32Size
      omega
    exact dif_neg upper
  · have same : c.toUpper = c := dif_neg lower
    rw [same, same]

@[simp] theorem toAsciiUppercase_idem (name : String) :
    toAsciiUppercase (toAsciiUppercase name) = toAsciiUppercase name := by
  unfold toAsciiUppercase
  rw [String.map_map]
  congr 1
  funext c
  exact toUpper_toUpper c

structure LoadedDll where
  name : String
  handle : Nat
  objectBases : List Nat
  exportsByOrdinal : Table Nat Nat
  exportsByName : Table String Nat
  refCount : Nat
  inittermAddr : Option Nat
  isBuiltin : Bool

structure DllManager where
  dlls : List LoadedDll
  nextHandle : Nat

namespace DllManager

def new : DllManager where
  dlls := []
  nextHandle := 0x1000

def allocHandle (mgr : DllManager) : Nat × DllManager :=
  (mgr.nextHandle, { mgr with nextHandle := wrapAdd mgr.nextHandle 1 })

def register (mgr : DllManager) (dll : LoadedDll) : DllManager :=
  { mgr with dlls := mgr.dlls ++ [dll] }

def findByName (mgr : DllManager) (name : String) : Option LoadedDll :=
  mgr.dlls.find? fun dll => dll.name == toAsciiUppercase name

def findByHandle (mgr : DllManager) (handle : Nat) : Option LoadedDll :=
  mgr.dlls.find? fun dll => dll.handle == handle

/-- The DLL with a handle, and where it stands. -/
def position (mgr : DllManager) (handle : Nat) : Option (Nat × LoadedDll) :=
  (mgr.dlls.findIdx? fun dll => dll.handle == handle).bind fun idx =>
    (mgr.dlls[idx]?).map (idx, ·)

def setRefCount (mgr : DllManager) (idx count : Nat) : DllManager :=
  { mgr with dlls := mgr.dlls.modify idx fun dll => { dll with refCount := count } }

def incrementRefcount (mgr : DllManager) (handle : Nat) : Bool × DllManager :=
  match mgr.position handle with
  | some (idx, dll) => (true, mgr.setRefCount idx (wrapAdd dll.refCount 1))
  | none => (false, mgr)

/-- The bases and the unload routine of a DLL that lost its last reference. -/
def decrementRefcount (mgr : DllManager) (handle : Nat) :
    Option (List Nat × Option Nat) × DllManager :=
  match mgr.position handle with
  | some (idx, dll) =>
      if dll.refCount ≤ 1 then
        (some (dll.objectBases, dll.inittermAddr), { mgr with dlls := mgr.dlls.eraseIdx idx })
      else (none, mgr.setRefCount idx (dll.refCount - 1))
  | none => (none, mgr)

def resolveOrdinal (mgr : DllManager) (module : String) (ordinal : Nat) : Option Nat :=
  (mgr.findByName module).bind fun dll => dll.exportsByOrdinal ordinal

/-- The objects of every registered DLL. -/
def objects (mgr : DllManager) : List (List Nat) := mgr.dlls.map LoadedDll.objectBases

theorem position_eq_some {mgr : DllManager} {handle idx : Nat} {dll : LoadedDll}
    (h : mgr.position handle = some (idx, dll)) : mgr.dlls[idx]? = some dll := by
  obtain ⟨found, _, h⟩ := Option.bind_eq_some_iff.mp h
  obtain ⟨other, hother, hpair⟩ := Option.map_eq_some_iff.mp h
  obtain ⟨rfl, rfl⟩ := Prod.mk.inj hpair
  exact hother

@[simp] theorem findByName_toAsciiUppercase (mgr : DllManager) (name : String) :
    mgr.findByName (toAsciiUppercase name) = mgr.findByName name := by
  simp [findByName]

/-- Where a DLL stands among the others: it is the first with its handle. -/
theorem position_split {mgr : DllManager} {handle idx : Nat} {dll : LoadedDll}
    (h : mgr.position handle = some (idx, dll)) :
    dll.handle = handle ∧ ∃ pre post, mgr.dlls = pre ++ dll :: post ∧ pre.length = idx ∧
      ∀ other ∈ pre, other.handle ≠ handle := by
  have hget := position_eq_some h
  obtain ⟨found, hfound, h⟩ := Option.bind_eq_some_iff.mp h
  obtain ⟨other, hother, hpair⟩ := Option.map_eq_some_iff.mp h
  obtain ⟨rfl, rfl⟩ := Prod.mk.inj hpair
  obtain ⟨hlt, htest, hbefore⟩ := List.findIdx?_eq_some_iff_getElem.mp hfound
  obtain ⟨_, hat⟩ := List.getElem?_eq_some_iff.mp hget
  refine ⟨by simpa [hat] using htest, mgr.dlls.take found, mgr.dlls.drop (found + 1), ?_, ?_, ?_⟩
  · rw [← hat, ← List.drop_eq_getElem_cons hlt, List.take_append_drop]
  · rw [List.length_take]
    omega
  · intro earlier member
    obtain ⟨i, hi, rfl⟩ := List.mem_take_iff_getElem.mp member
    simpa using hbefore i (by omega)

theorem setRefCount_split {mgr : DllManager} {pre post : List LoadedDll} {dll : LoadedDll}
    (h : mgr.dlls = pre ++ dll :: post) (count : Nat) :
    (mgr.setRefCount pre.length count).dlls = pre ++ { dll with refCount := count } :: post := by
  unfold setRefCount
  dsimp only
  rw [h]
  clear h
  induction pre with
  | nil => rfl
  | cons first rest ih => simpa using ih

theorem position_eq_none {mgr : DllManager} {handle : Nat} (h : mgr.position handle = none) :
    mgr.findByHandle handle = none := by
  unfold position at h
  cases hfound : mgr.dlls.findIdx? fun dll => dll.handle == handle with
  | none =>
    have absent := List.findIdx?_eq_none_iff.mp hfound
    exact List.find?_eq_none.mpr fun dll member => by simpa using absent dll member
  | some idx =>
    rw [hfound, Option.bind_some, Option.map_eq_none_iff] at h
    have hlt := (List.findIdx?_eq_some_iff_getElem.mp hfound).1
    exact absurd hlt (Nat.not_lt.mpr (List.getElem?_eq_none_iff.mp h))

theorem findByHandle_of_position {mgr : DllManager} {handle idx : Nat} {dll : LoadedDll}
    (h : mgr.position handle = some (idx, dll)) : mgr.findByHandle handle = some dll := by
  obtain ⟨same, pre, post, hdlls, _, before⟩ := position_split h
  have absent : pre.find? (fun dll => dll.handle == handle) = none :=
    List.find?_eq_none.mpr fun other member => by simpa using before other member
  unfold findByHandle
  rw [hdlls, List.find?_append, absent, Option.none_or]
  exact List.find?_cons_of_pos (by simpa using same)

@[simp] theorem setRefCount_objects (mgr : DllManager) (idx count : Nat) :
    (mgr.setRefCount idx count).objects = mgr.objects := by
  unfold setRefCount objects
  apply List.ext_getElem?
  intro i
  rw [List.getElem?_map, List.getElem?_map, List.getElem?_modify]
  cases mgr.dlls[i]? with
  | none => rfl
  | some dll => by_cases hidx : idx = i <;> simp [hidx]

@[simp] theorem setRefCount_length (mgr : DllManager) (idx count : Nat) :
    (mgr.setRefCount idx count).dlls.length = mgr.dlls.length :=
  List.length_modify _ _ _

end DllManager
end Warpine.Loader
