import Warpine.Loader.Imports
import Warpine.Vcpu.NeExec

/-! Calls of 16-bit programs. An import becomes an offset in the thunk tile, and the
trap there finds the module and the ordinal again, by two tests of the range. -/
namespace Warpine.Vcpu
open Warpine.Lib Warpine.Loader

/-- The offset that a trap at a flat address stands for. -/
def thunkOrdinal (flatRip : Nat) : Option Nat :=
  if neThunkBase ≤ flatRip ∧ flatRip < neThunkBase + tileSize then
    some ((flatRip - neThunkBase) % u16Size)
  else none

/-- What a 16-bit call is taken for. Calls without a handler are only reported. -/
inductive NeCall where
  | doscalls (ordinal : Nat)
  | viocalls (ordinal : Nat)
  | unimplemented (module : String) (ordinal : Nat)
  deriving DecidableEq

def handleNeApiCall (ordinal : Nat) : NeCall :=
  if ordinal < kbdcallsBase then .doscalls ordinal
  else if viocallsBase ≤ ordinal ∧ ordinal < viocallsBase + 1024 then
    .viocalls (ordinal - viocallsBase)
  else .unimplemented (if kbdcallsBase ≤ ordinal then "KBDCALLS" else "?") ordinal

def doscallsArgs16 (ordinal : Nat) : Nat :=
  match ordinal with
  | 5 => 4
  | 8 => 8
  | 41 => 10
  | 49 => 8
  | 92 => 4
  | 94 => 8
  | 138 => 12
  | _ => 0

def viocallsArgs16 (ordinal : Nat) : Nat :=
  match ordinal with
  | 19 => 8
  | _ => 0

/-- What the callee takes off the stack. The second test has no lower bound. -/
def neApiArgBytes (ordinal : Nat) : Option Nat :=
  if ordinal < kbdcallsBase then some (doscallsArgs16 ordinal)
  else if ordinal < viocallsBase + 1024 then do
    let vioOrd ← subWord ordinal viocallsBase
    return viocallsArgs16 vioOrd
  else some 0

namespace NeCall

/-- The call that a module's ordinal names. -/
def of (module : String) (ordinal : Nat) : NeCall :=
  if module = "DOSCALLS" then .doscalls ordinal
  else if module = "VIOCALLS" then .viocalls ordinal
  else .unimplemented module ordinal

def argBytes : NeCall → Nat
  | .doscalls ordinal => doscallsArgs16 ordinal
  | .viocalls ordinal => viocallsArgs16 ordinal
  | .unimplemented _ _ => 0

/-- The import that a call is. -/
def name : NeCall → String × Nat
  | .doscalls ordinal => ("DOSCALLS", ordinal)
  | .viocalls ordinal => ("VIOCALLS", ordinal)
  | .unimplemented module ordinal => (module, ordinal)

theorem name_of (module : String) (ordinal : Nat) :
    (of module ordinal).name = (module, ordinal) := by
  unfold of
  split
  · rename_i doscalls
    rw [name, doscalls]
  · split
    · rename_i viocalls
      rw [name, viocalls]
    · rfl

end NeCall

/-- The modules that a 16-bit import may name. -/
def neModules : List String := ["DOSCALLS", "VIOCALLS", "KBDCALLS", "SESMGR", "NLS", "MSG"]

/-- An import of a relocation. -/
structure NeImport where
  module : String
  ordinal : UInt16
  deriving DecidableEq

namespace NeImport

def thunk (p : NeImport) : Option Nat := resolveImport16 p.module p.ordinal.toNat

def Known (p : NeImport) : Prop := p.module ∈ neModules

/-- The place of the import is the 32-bit one, and a trap there is the call itself. -/
def Resolved (dllMgr : DllManager) (p : NeImport) : Prop :=
  ∃ offset, p.thunk = some offset ∧
    (p.Known → resolveImport dllMgr p.module p.ordinal.toNat = magicApiBase + offset) ∧
    thunkOrdinal (neThunkBase + offset) = some offset ∧
    handleNeApiCall offset = .of p.module p.ordinal.toNat ∧
    neApiArgBytes offset = some (NeCall.of p.module p.ordinal.toNat).argBytes

def KeptApart (dllMgr : DllManager) (p q : NeImport) : Prop :=
  p.Resolved dllMgr ∧ q.Resolved dllMgr ∧ (p.Known → q.Known → p ≠ q → p.thunk ≠ q.thunk)

/-- The ordinals of the two modules whose calls are handled, inside their ranges. -/
def Handled (p : NeImport) : Prop :=
  p.module = "DOSCALLS" ∧ p.ordinal.toNat < kbdcallsBase ∨
    p.module = "VIOCALLS" ∧ p.ordinal.toNat < 1024

instance (p : NeImport) : Decidable p.Handled :=
  inferInstanceAs (Decidable (_ ∧ _ ∨ _ ∧ _))

variable {dllMgr : DllManager} {p q : NeImport}

/-- Both loaders start a module's stubs at one place. -/
theorem builtinBase_known (known : p.Known) : builtinBase p.module = some (thunkBase p.module) := by
  have same : ∀ module ∈ neModules, builtinBase module = some (thunkBase module) := by decide
  exact same p.module known

theorem thunk_eq_some {offset : Nat} (h : p.thunk = some offset) :
    offset = thunkBase p.module + p.ordinal.toNat ∧ offset < u16Size := by
  unfold thunk resolveImport16 addWord at h
  split at h
  · rename_i small
    cases h
    exact ⟨rfl, small⟩
  · contradiction

theorem thunkOrdinal_offset {offset : Nat} (small : offset < u16Size) :
    thunkOrdinal (neThunkBase + offset) = some offset := by
  unfold u16Size at small
  unfold thunkOrdinal
  rw [if_pos ⟨Nat.le_add_right _ _, by unfold tileSize; omega⟩, Nat.add_sub_cancel_left,
    Nat.mod_eq_of_lt (by unfold u16Size; omega)]

/-- Every other module lies behind the calls of the first one. -/
theorem kbdcallsBase_le (away : p.module ≠ "DOSCALLS") : kbdcallsBase ≤ thunkBase p.module := by
  unfold thunkBase
  rw [if_neg away]
  repeat' split
  all_goals decide

/-- No reported call has its own module and ordinal. -/
theorem not_reported {offset : Nat} (place : offset = thunkBase p.module + p.ordinal.toNat)
    (call : handleNeApiCall offset = .unimplemented p.module p.ordinal.toNat) : False := by
  unfold handleNeApiCall at call
  split at call
  · cases call
  · rename_i past
    split at call
    · cases call
    · injection call with _ same
      rw [← same] at place
      have start : thunkBase p.module = 0 := by omega
      have label : p.module ≠ "DOSCALLS" := by
        intro doscalls
        have := ‹(if kbdcallsBase ≤ offset then "KBDCALLS" else "?") = p.module›
        rw [if_pos (Nat.le_of_not_lt past), doscalls] at this
        exact absurd this (by decide)
      have behind := kbdcallsBase_le label
      unfold kbdcallsBase at behind
      omega

theorem handled_of_call {offset : Nat} (place : offset = thunkBase p.module + p.ordinal.toNat)
    (call : handleNeApiCall offset = .of p.module p.ordinal.toNat) : p.Handled := by
  unfold NeCall.of at call
  by_cases doscalls : p.module = "DOSCALLS"
  · rw [if_pos doscalls] at call
    unfold handleNeApiCall at call
    split at call
    · rename_i low
      injection call with same
      exact .inl ⟨doscalls, same ▸ low⟩
    · split at call <;> cases call
  · rw [if_neg doscalls] at call
    by_cases viocalls : p.module = "VIOCALLS"
    · rw [if_pos viocalls] at call
      unfold handleNeApiCall at call
      split at call
      · cases call
      · split at call
        · rename_i window
          injection call with same
          exact .inr ⟨viocalls, by omega⟩
        · cases call
    · rw [if_neg viocalls] at call
      exact (not_reported place call).elim

theorem resolved_of_handled (handled : p.Handled) : p.Resolved dllMgr := by
  have known : p.Known := by
    rcases handled with h | h
    · exact Eq.mpr (congrArg (· ∈ neModules) h.1) (by decide)
    · exact Eq.mpr (congrArg (· ∈ neModules) h.1) (by decide)
  have resolve : resolveImport dllMgr p.module p.ordinal.toNat =
      magicApiBase + (thunkBase p.module + p.ordinal.toNat) := by
    unfold resolveImport
    rw [builtinBase_known known]
    exact Nat.add_assoc _ _ _
  have small : thunkBase p.module + p.ordinal.toNat < u16Size := by
    rcases handled with ⟨module, low⟩ | ⟨module, low⟩
    · rw [module]
      exact Nat.lt_of_lt_of_le (Nat.add_lt_add_left low _) (by decide)
    · rw [module]
      exact Nat.lt_of_lt_of_le (Nat.add_lt_add_left low _) (by decide)
  refine ⟨_, if_pos small, fun _ => resolve, thunkOrdinal_offset small, ?_, ?_⟩
  · rcases handled with ⟨module, low⟩ | ⟨module, low⟩
    · rw [module]
      simp only [thunkBase, NeCall.of, if_true, Nat.zero_add, handleNeApiCall, if_pos low]
    · rw [module]
      have window : viocallsBase ≤ viocallsBase + p.ordinal.toNat ∧
          viocallsBase + p.ordinal.toNat < viocallsBase + 1024 := by omega
      have past : ¬ viocallsBase + p.ordinal.toNat < kbdcallsBase := by
        unfold viocallsBase kbdcallsBase
        omega
      have start : thunkBase "VIOCALLS" = viocallsBase := by decide
      have name : NeCall.of "VIOCALLS" p.ordinal.toNat = .viocalls p.ordinal.toNat := rfl
      unfold handleNeApiCall
      rw [start, if_neg past, if_pos window, Nat.add_sub_cancel_left, name]
  · rcases handled with ⟨module, low⟩ | ⟨module, low⟩
    · rw [module]
      simp only [thunkBase, NeCall.of, if_true, Nat.zero_add, neApiArgBytes, if_pos low,
        NeCall.argBytes]
    · rw [module]
      have window : viocallsBase + p.ordinal.toNat < viocallsBase + 1024 := by omega
      have past : ¬ viocallsBase + p.ordinal.toNat < kbdcallsBase := by
        unfold viocallsBase kbdcallsBase
        omega
      have start : thunkBase "VIOCALLS" = viocallsBase := by decide
      unfold neApiArgBytes subWord
      rw [start, if_neg past, if_pos window, if_pos (Nat.le_add_right _ _),
        Nat.add_sub_cancel_left]
      rfl

theorem resolved_iff : p.Resolved dllMgr ↔ p.Handled := by
  constructor
  · intro ⟨offset, here, _, _, call, _⟩
    exact handled_of_call (thunk_eq_some here).1 call
  · exact resolved_of_handled

/-- The calls of the two modules share no place. -/
theorem thunk_inj (hp : p.Handled) (hq : q.Handled) (same : p.thunk = q.thunk) : p = q := by
  have first : p.Resolved .new := resolved_of_handled hp
  have second : q.Resolved .new := resolved_of_handled hq
  obtain ⟨offset, here, _, _, call, _⟩ := first
  obtain ⟨other, there, _, _, name, _⟩ := second
  rw [here, there] at same
  cases same
  have parts := congrArg NeCall.name (call.symm.trans name)
  rw [NeCall.name_of, NeCall.name_of] at parts
  cases p
  cases q
  cases Prod.ext_iff.mp parts with
  | intro module ordinal =>
    congr 1
    exact UInt16.toNat_inj.mp ordinal

end NeImport

/-- Two imports are told apart and called as themselves exactly where each is an ordinal of
the first module below 4096 or of the second below 1024. -/
theorem ne_imports_keptApart (dllMgr : DllManager) (p q : NeImport) :
    p.KeptApart dllMgr q ↔ p.Handled ∧ q.Handled := by
  unfold NeImport.KeptApart
  rw [NeImport.resolved_iff, NeImport.resolved_iff]
  constructor
  · intro ⟨hp, hq, _⟩
    exact ⟨hp, hq⟩
  · intro ⟨hp, hq⟩
    exact ⟨hp, hq, fun _ _ apart same => apart (NeImport.thunk_inj hp hq same)⟩

/-- A keyboard call goes below zero where its argument bytes are counted. -/
theorem keyboard_call_underflows :
    NeImport.thunk ⟨"KBDCALLS", 4⟩ = some 4100 ∧ neApiArgBytes 4100 = none ∧
      ¬ NeImport.KeptApart .new ⟨"KBDCALLS", 4⟩ ⟨"KBDCALLS", 4⟩ := by
  refine ⟨by decide, by decide, ?_⟩
  intro ⟨⟨offset, here, _, _, _, bytes⟩, _⟩
  have place : offset = 4100 := (NeImport.thunk_eq_some here).1
  rw [place] at bytes
  exact absurd bytes (by decide)

end Warpine.Vcpu
