import Warpine.Loader.Imports

/-! The stub area: one window for each emulated module, two traps, and the way
back from an offset to the module that owns it. -/
namespace Warpine.Loader

/-- The module that owns a flat ordinal. -/
def moduleForOrdinal (ordinal : Nat) : String :=
  if ordinal < 1024 then "DOSCALLS"
  else if ordinal < pmwinBase then "QUECALLS"
  else if ordinal < pmgpiBase then "PMWIN"
  else if ordinal < kbdcallsBase then "PMGPI"
  else if ordinal < viocallsBase then "KBDCALLS"
  else if ordinal < sesmgrBase then "VIOCALLS"
  else if ordinal < nlsBase then "SESMGR"
  else if ordinal < msgBase then "NLS"
  else if ordinal < mdmBase then "MSG"
  else if ordinal < uconvBase then "MDM"
  else if ordinal < so32dllBase then "UCONV"
  else if ordinal < tcp32dllBase then "SO32DLL"
  else if ordinal < stubAreaSize then "TCP32DLL"
  else "?"

/-- The offsets that one module's stubs may take. -/
structure Window where
  module : String
  start : Nat
  stop : Nat
deriving DecidableEq

/-- Every window ends where the next one starts. -/
def windows : List Window := [
  ⟨"DOSCALLS", 0, 1024⟩, ⟨"QUECALLS", 1024, pmwinBase⟩, ⟨"PMWIN", pmwinBase, pmgpiBase⟩,
  ⟨"PMGPI", pmgpiBase, kbdcallsBase⟩, ⟨"KBDCALLS", kbdcallsBase, viocallsBase⟩,
  ⟨"VIOCALLS", viocallsBase, sesmgrBase⟩, ⟨"SESMGR", sesmgrBase, nlsBase⟩,
  ⟨"NLS", nlsBase, msgBase⟩, ⟨"MSG", msgBase, mdmBase⟩, ⟨"MDM", mdmBase, uconvBase⟩,
  ⟨"UCONV", uconvBase, so32dllBase⟩, ⟨"SO32DLL", so32dllBase, tcp32dllBase⟩,
  ⟨"TCP32DLL", tcp32dllBase, stubAreaSize⟩]

theorem windows_bases : windows.map (fun w => (w.module, w.start)) = moduleBases := rfl

theorem builtinBase_window {w : Window} (hw : w ∈ windows) :
    builtinBase w.module = some w.start := by
  revert w
  decide

theorem window_inside {w : Window} (hw : w ∈ windows) : w.stop ≤ stubAreaSize := by
  revert w
  decide

/-- A module has one window. -/
theorem window_unique {v w : Window} (hv : v ∈ windows) (hw : w ∈ windows)
    (same : v.module = w.module) : v = w := by
  have distinct : ∀ v ∈ windows, ∀ w ∈ windows, v.module = w.module → v = w := by decide
  exact distinct v hv w hw same

theorem windows_ascending : windows.Pairwise fun v w => v.stop ≤ w.start := by decide

/-- The first window that an ordinal lies below the end of. -/
def ownerOf (ordinal : Nat) : List Window → String
  | [] => "?"
  | w :: rest => if ordinal < w.stop then w.module else ownerOf ordinal rest

theorem moduleForOrdinal_eq (ordinal : Nat) :
    moduleForOrdinal ordinal = ownerOf ordinal windows := rfl

theorem ownerOf_window {ordinal : Nat} {w : Window} (low : w.start ≤ ordinal)
    (high : ordinal < w.stop) {list : List Window} (hw : w ∈ list)
    (ascending : list.Pairwise fun v w => v.stop ≤ w.start) :
    ownerOf ordinal list = w.module := by
  induction list with
  | nil => cases hw
  | cons first rest ih =>
    obtain ⟨before, ascending⟩ := List.pairwise_cons.mp ascending
    cases hw with
    | head => exact if_pos high
    | tail _ hw =>
      have past : ¬ordinal < first.stop := Nat.not_lt.mpr ((before w hw).trans low)
      exact (if_neg past).trans (ih hw ascending)

theorem moduleForOrdinal_window {w : Window} (hw : w ∈ windows) {ordinal : Nat}
    (low : w.start ≤ ordinal) (high : ordinal < w.stop) :
    moduleForOrdinal ordinal = w.module :=
  (moduleForOrdinal_eq ordinal).trans (ownerOf_window low high hw windows_ascending)

/-- The windows leave no gap. -/
theorem exists_window {ordinal : Nat} (inside : ordinal < stubAreaSize) :
    ∃ w ∈ windows, w.start ≤ ordinal ∧ ordinal < w.stop := by
  simp only [windows, List.exists_mem_cons_iff, List.not_mem_nil, false_and, exists_false,
    or_false, stubAreaSize] at inside ⊢
  omega

/-- An offset leads back to a module only from inside the module's window. -/
theorem window_of_moduleForOrdinal {w : Window} (hw : w ∈ windows) {ordinal : Nat}
    (inside : ordinal < stubAreaSize) (back : moduleForOrdinal ordinal = w.module) :
    w.start ≤ ordinal ∧ ordinal < w.stop := by
  obtain ⟨v, hv, low, high⟩ := exists_window inside
  have same : v = w := window_unique hv hw ((moduleForOrdinal_window hv low high).symm.trans back)
  exact same ▸ ⟨low, high⟩

/-- An import of an emulated module by ordinal, as a fixup record or a query for a
procedure address names it. -/
structure BuiltinImport where
  window : Window
  ordinal : UInt32
  known : window ∈ windows

namespace BuiltinImport

def module (p : BuiltinImport) : String := p.window.module

def address (dllMgr : DllManager) (p : BuiltinImport) : Nat :=
  resolveImport dllMgr p.module p.ordinal.toNat

def InSlot (p : BuiltinImport) : Prop := p.window.start + p.ordinal.toNat < p.window.stop

instance (p : BuiltinImport) : Decidable p.InSlot := inferInstanceAs (Decidable (_ < _))

/-- The two places of the first window that the traps take. -/
def OnTrap (p : BuiltinImport) : Prop :=
  p.module = "DOSCALLS" ∧ (p.ordinal = 1022 ∨ p.ordinal = 1023)

/-- A stub of the module itself, and no trap. -/
def Placed (dllMgr : DllManager) (p : BuiltinImport) : Prop :=
  magicApiBase ≤ p.address dllMgr ∧ p.address dllMgr < magicApiBase + stubAreaSize ∧
    moduleForOrdinal (p.address dllMgr - magicApiBase) = p.module ∧
    p.address dllMgr ≠ exitTrapAddr ∧ p.address dllMgr ≠ callbackRetTrap

/-- An ordinal that its module has no stub for is refused with 0, as a name is that
nobody exports. -/
def Resolved (dllMgr : DllManager) (p : BuiltinImport) : Prop :=
  (p.InSlot → p.Placed dllMgr) ∧ (¬p.InSlot → p.address dllMgr = 0)

/-- Both are resolved, to two places where they are two imports. -/
def KeptApart (dllMgr : DllManager) (p q : BuiltinImport) : Prop :=
  p.Resolved dllMgr ∧ q.Resolved dllMgr ∧ (p ≠ q → p.address dllMgr ≠ q.address dllMgr)

variable {dllMgr : DllManager} {p q : BuiltinImport}

theorem address_eq : p.address dllMgr = magicApiBase + p.window.start + p.ordinal.toNat := by
  unfold address resolveImport module
  rw [builtinBase_window p.known]

theorem module_inj (same : p.module = q.module) : p.window = q.window :=
  window_unique p.known q.known same

theorem start_doscalls (doscalls : p.module = "DOSCALLS") : p.window.start = 0 := by
  have first : (⟨"DOSCALLS", 0, 1024⟩ : Window) ∈ windows := List.mem_cons_self
  rw [window_unique p.known first doscalls]

theorem module_place (inSlot : p.InSlot) :
    moduleForOrdinal (p.window.start + p.ordinal.toNat) = p.module :=
  moduleForOrdinal_window p.known (Nat.le_add_right ..) inSlot

/-- The traps lie at 1023 and 1022 of the first window. -/
theorem onTrap_iff (inSlot : p.InSlot) :
    p.OnTrap ↔ p.address dllMgr = exitTrapAddr ∨ p.address dllMgr = callbackRetTrap := by
  simp only [address_eq, exitTrapAddr, callbackRetTrap, magicApiBase]
  constructor
  · rintro ⟨doscalls, hordinal⟩
    rw [start_doscalls doscalls]
    rcases hordinal with h | h <;> simp [h]
  · intro place
    have low : p.window.start + p.ordinal.toNat = 1022 ∨
        p.window.start + p.ordinal.toNat = 1023 := by omega
    have doscalls : p.module = "DOSCALLS" := by
      rw [← module_place inSlot]
      rcases low with h | h <;> rw [h] <;> rfl
    rw [start_doscalls doscalls, Nat.zero_add] at low
    exact ⟨doscalls, low.imp UInt32.toNat_inj.mp UInt32.toNat_inj.mp⟩

/-- Inside the window only the two traps are in the way. -/
theorem placed_iff_free (inSlot : p.InSlot) : p.Placed dllMgr ↔ ¬p.OnTrap := by
  have inside : p.window.start + p.ordinal.toNat < stubAreaSize :=
    inSlot.trans_le (window_inside p.known)
  have back : moduleForOrdinal (p.address dllMgr - magicApiBase) = p.module := by
    rw [address_eq, Nat.add_assoc, Nat.add_sub_cancel_left]
    exact module_place inSlot
  have low : magicApiBase ≤ p.address dllMgr := by rw [address_eq]; omega
  have high : p.address dllMgr < magicApiBase + stubAreaSize := by rw [address_eq]; omega
  rw [@onTrap_iff dllMgr p inSlot, not_or]
  exact ⟨fun placed => placed.2.2.2, fun apart => ⟨low, high, back, apart⟩⟩

/-- Two imports of one window have their ordinals apart, and two windows share no place. -/
theorem address_inj (hp : p.InSlot) (hq : q.InSlot)
    (same : p.address dllMgr = q.address dllMgr) : p = q := by
  rw [address_eq, address_eq, Nat.add_assoc, Nat.add_assoc] at same
  have place := Nat.add_left_cancel same
  have window : p.window = q.window := by
    apply module_inj
    rw [← module_place hp, place, module_place hq]
  have ordinal : p.ordinal = q.ordinal :=
    UInt32.toNat_inj.mp (Nat.add_left_cancel (window ▸ place))
  cases p
  cases q
  simp_all

/-- No ordinal is ever refused. -/
theorem address_ne_zero : p.address dllMgr ≠ 0 := by
  rw [address_eq]
  simp only [magicApiBase]
  omega

theorem resolved_iff : p.Resolved dllMgr ↔ p.InSlot ∧ ¬p.OnTrap := by
  constructor
  · rintro ⟨placed, refused⟩
    have inSlot : p.InSlot := Decidable.not_not.mp fun out => address_ne_zero (refused out)
    exact ⟨inSlot, (placed_iff_free inSlot).mp (placed inSlot)⟩
  · rintro ⟨inSlot, free⟩
    exact ⟨fun _ => (placed_iff_free inSlot).mpr free, fun out => (out inSlot).elim⟩

end BuiltinImport

/-- Two imports are kept apart, from each other and from the traps, exactly where each
stays inside its module's window and is neither of the two ordinals of the traps. -/
theorem imports_keptApart (dllMgr : DllManager) (p q : BuiltinImport) :
    p.KeptApart dllMgr q ↔ (p.InSlot ∧ ¬p.OnTrap) ∧ (q.InSlot ∧ ¬q.OnTrap) := by
  unfold BuiltinImport.KeptApart
  rw [BuiltinImport.resolved_iff, BuiltinImport.resolved_iff]
  constructor
  · rintro ⟨hp, hq, -⟩
    exact ⟨hp, hq⟩
  · rintro ⟨hp, hq⟩
    exact ⟨hp, hq, fun apart same => apart (BuiltinImport.address_inj hp.1 hq.1 same)⟩

/-- The first ordinal past a window is the next module's ordinal 0. -/
theorem imports_aliased : ¬∀ (dllMgr : DllManager) (p q : BuiltinImport),
    p.KeptApart dllMgr q := by
  intro all
  have same := all .new ⟨⟨"DOSCALLS", 0, 1024⟩, 1024, by decide⟩
    ⟨⟨"QUECALLS", 1024, pmwinBase⟩, 0, by decide⟩
  exact same.2.2 (by simp) rfl

end Warpine.Loader
