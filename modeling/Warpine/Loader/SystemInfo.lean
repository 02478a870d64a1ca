import Warpine.Loader.Constants
import Warpine.Loader.FindFiles

/-! The query of system values: a range of indices, whose values go to the guest's buffer. -/
namespace Warpine.Loader
open Warpine.Lib Warpine.Guest

/-- The value of an index; one that is not known has none. -/
def sysInfo : Nat → Nat
  | 1 => 260 -- QSV_MAX_PATH_LENGTH
  | 2 => 16 -- QSV_MAX_TEXT_SESSIONS
  | 3 => 16 -- QSV_MAX_PM_SESSIONS
  | 4 => 0 -- QSV_MAX_VDM_SESSIONS
  | 5 => 3 -- QSV_BOOT_DRIVE
  | 6 => 1 -- QSV_DYN_PRI_VARIATION
  | 7 => 5 -- QSV_MAX_WAIT
  | 8 => 32 -- QSV_MIN_SLICE
  | 9 => 248 -- QSV_MAX_SLICE
  | 10 => 4096 -- QSV_PAGE_SIZE
  | 11 => 20 -- QSV_VERSION_MAJOR
  | 12 => 45 -- QSV_VERSION_MINOR
  | 13 => 0 -- QSV_VERSION_REVISION
  | 17 => 128 * 1024 * 1024 -- QSV_TOTPHYSMEM
  | 18 => 16 * 1024 * 1024 -- QSV_TOTRESMEM
  | 19 => 96 * 1024 * 1024 -- QSV_TOTAVAILMEM
  | 20 => 512 * 1024 * 1024 -- QSV_MAXPRMEM
  | 21 => 256 * 1024 * 1024 -- QSV_MAXSHMEM
  | 22 => 32 -- QSV_TIMER_INTERVAL
  | 23 => 255 -- QSV_MAX_COMP_LENGTH
  | _ => 0

theorem sysInfo_lt (idx : Nat) : sysInfo idx < 256 ^ 4 := by
  unfold sysInfo
  split <;> decide

/-- The size check narrows the byte count to 32 bits. -/
def dosQuerySysInfo (iStart iLast pBuf cbBuf : UInt32) (mem : GuestMemory) : Nat × GuestMemory :=
  if iStart = 0 ∨ iLast < iStart then (errorInvalidLevel, mem)
  else
    let count := (iLast - iStart + 1).toNat
    if cbBuf.toNat < count * 4 % u32Size then (errorBufferOverflow, mem)
    else
      let writes := (List.range count).map fun k =>
        (wrapAdd pBuf.toNat (k * 4 % u32Size), leBytes 4 (sysInfo (iStart.toNat + k)))
      (0, mem.putAll writes)

variable {iStart iLast pBuf cbBuf : UInt32} {mem : GuestMemory}

/-- How many indices are asked for. -/
def asked (iStart iLast : UInt32) : Nat := iLast.toNat - iStart.toNat + 1

theorem asked_eq (start : iStart ≠ 0) (order : iStart ≤ iLast) :
    (iLast - iStart + 1).toNat = asked iStart iLast := by
  have hstart : iStart.toNat ≠ 0 := fun zero => start (UInt32.toNat_inj.mp zero)
  have hlast := iLast.toNat_lt
  have horder : iStart.toNat ≤ iLast.toNat := UInt32.le_iff_toNat_le.mp order
  rw [UInt32.toNat_add, UInt32.toNat_sub_of_le _ _ order, asked]
  exact Nat.mod_eq_of_lt (by simp only [UInt32.toNat_one]; omega)

/-- What the call promises: it changes the buffer only, refuses a range that is not one or
does not fit, and otherwise stores the values of the range in order. -/
structure SysInfoServed (iStart iLast pBuf cbBuf : UInt32) (mem : GuestMemory)
    (outcome : Nat × GuestMemory) : Prop where
  inside : ∀ addr, addr < pBuf.toNat ∨ pBuf.toNat + cbBuf.toNat ≤ addr →
    outcome.2.bytes addr = mem.bytes addr
  refused : iStart = 0 ∨ iLast < iStart ∨ cbBuf.toNat < asked iStart iLast * 4 →
    outcome.1 ≠ 0 ∧ outcome.2 = mem
  stored : iStart ≠ 0 → iStart ≤ iLast → asked iStart iLast * 4 ≤ cbBuf.toNat →
    outcome.1 = 0 ∧ ∀ k < asked iStart iLast,
      outcome.2.read 4 (pBuf.toNat + k * 4) = some (sysInfo (iStart.toNat + k))

theorem dosQuerySysInfo_refuses (range : iStart = 0 ∨ iLast < iStart) :
    dosQuerySysInfo iStart iLast pBuf cbBuf mem = (errorInvalidLevel, mem) :=
  if_pos range

theorem dosQuerySysInfo_overflows (start : iStart ≠ 0) (order : iStart ≤ iLast)
    (short : cbBuf.toNat < asked iStart iLast * 4 % u32Size) :
    dosQuerySysInfo iStart iLast pBuf cbBuf mem = (errorBufferOverflow, mem) := by
  have range : ¬(iStart = 0 ∨ iLast < iStart) := by simp [start, UInt32.not_lt.mpr order]
  rw [dosQuerySysInfo, if_neg range, asked_eq start order, if_pos short]

theorem dosQuerySysInfo_writes (start : iStart ≠ 0) (order : iStart ≤ iLast)
    (enough : asked iStart iLast * 4 % u32Size ≤ cbBuf.toNat) :
    dosQuerySysInfo iStart iLast pBuf cbBuf mem =
      (0, mem.putAll ((List.range (asked iStart iLast)).map fun k =>
        (wrapAdd pBuf.toNat (k * 4 % u32Size), leBytes 4 (sysInfo (iStart.toNat + k))))) := by
  have range : ¬(iStart = 0 ∨ iLast < iStart) := by simp [start, UInt32.not_lt.mpr order]
  rw [dosQuerySysInfo, if_neg range, asked_eq start order, if_neg (Nat.not_lt.mpr enough)]

/-- The places of the values, in a buffer that does not leave 32 bits. -/
theorem places_eq {ptr count : Nat} {value : Nat → Nat} (low : ptr + count * 4 ≤ u32Size) :
    ((List.range count).map fun k => (wrapAdd ptr (k * 4 % u32Size), leBytes 4 (value k))) =
      ByteStore.sideBySide ptr ((List.range count).map fun k => leBytes 4 (value k)) := by
  have hsides := ByteStore.sideBySide_range' (fun k => leBytes_length 4 (value k)) ptr 0 count
  rw [Nat.zero_mul, Nat.add_zero, ← List.range_eq_range'] at hsides
  rw [hsides]
  apply List.map_congr_left
  intro k member
  have hk := List.mem_range.mp member
  rw [Nat.mod_eq_of_lt (by omega), wrapAdd_of_lt (by omega)]

/-- A buffer in the memory takes the values as one string of words. -/
theorem putAll_words {ptr count : Nat} {value : Nat → Nat} (small : mem.size ≤ guestMemSize)
    (room : ptr + count * 4 ≤ mem.size) :
    mem.putAll ((List.range count).map fun k =>
        (wrapAdd ptr (k * 4 % u32Size), leBytes 4 (value k))) =
      mem.putBytes ptr ((List.range count).map fun k => leBytes 4 (value k)).flatten ∧
    mem.inBounds ptr ((List.range count).map fun k => leBytes 4 (value k)).flatten.length ∧
    ((List.range count).map fun k => leBytes 4 (value k)).flatten.length = count * 4 := by
  have hlength : ((List.range count).map fun k => leBytes 4 (value k)).flatten.length =
      count * 4 := by
    rw [← List.flatMap_def, List.length_flatMap]
    simp
  have hbounds : mem.inBounds ptr
      ((List.range count).map fun k => leBytes 4 (value k)).flatten.length :=
    decide_eq_true (by rw [hlength]; exact room)
  have low : ptr + count * 4 ≤ u32Size := by
    simp only [guestMemSize, u32Size] at *
    omega
  rw [places_eq low]
  exact ⟨GuestMemory.putAll_sideBySide mem hbounds, hbounds, hlength⟩

theorem putAll_words_read {ptr count : Nat} {value : Nat → Nat} (small : mem.size ≤ guestMemSize)
    (room : ptr + count * 4 ≤ mem.size) (word : ∀ k, value k < 256 ^ 4) :
    ∀ k < count, (mem.putAll ((List.range count).map fun k =>
        (wrapAdd ptr (k * 4 % u32Size), leBytes 4 (value k)))).read 4 (ptr + k * 4) =
      some (value k) := by
  intro k hk
  obtain ⟨hput, hbounds, -⟩ := @putAll_words mem ptr count value small room
  have hwhole := mem.slice_putBytes hbounds
  have hparts := GuestMemory.slice_sideBySide _ hwhole
  rw [← places_eq (by simp only [guestMemSize, u32Size] at *; omega), ← hput] at hparts
  have hword := hparts _ (List.mem_map.mpr ⟨k, List.mem_range.mpr hk, rfl⟩)
  have low : ptr + k * 4 < u32Size := by
    simp only [guestMemSize, u32Size] at *
    omega
  rw [Nat.mod_eq_of_lt (by omega), wrapAdd_of_lt low, leBytes_length] at hword
  exact (GuestMemory.read_eq_some _).mpr ⟨word k, hword⟩

theorem dosQuerySysInfo_stores (small : mem.size ≤ guestMemSize) (start : iStart ≠ 0)
    (order : iStart ≤ iLast) (fits : asked iStart iLast * 4 ≤ cbBuf.toNat)
    (room : pBuf.toNat + asked iStart iLast * 4 ≤ mem.size) :
    SysInfoServed iStart iLast pBuf cbBuf mem (dosQuerySysInfo iStart iLast pBuf cbBuf mem) := by
  rw [dosQuerySysInfo_writes start order ((Nat.mod_le _ _).trans fits)]
  refine ⟨?_, ?_, ?_⟩
  · intro addr outside
    obtain ⟨hput, hbounds, hlength⟩ := putAll_words small room
    rw [hput, GuestMemory.putBytes_of_inBounds mem hbounds]
    exact mem.bytes.store_outside (by omega)
  · intro bad
    rcases bad with zero | less | short
    · exact absurd zero start
    · exact absurd order (UInt32.not_le.mpr less)
    · omega
  · exact fun _ _ _ => ⟨rfl, putAll_words_read small room fun k => sysInfo_lt _⟩

/-- The call keeps its promise exactly when a byte count that does not fit does not come out
small enough in 32 bits, and a buffer large enough lies in the memory. -/
theorem dosQuerySysInfo_served_iff (small : mem.size ≤ guestMemSize) :
    SysInfoServed iStart iLast pBuf cbBuf mem (dosQuerySysInfo iStart iLast pBuf cbBuf mem) ↔
      (iStart ≠ 0 → iStart ≤ iLast →
        (cbBuf.toNat < asked iStart iLast * 4 →
          cbBuf.toNat < asked iStart iLast * 4 % u32Size) ∧
        (asked iStart iLast * 4 ≤ cbBuf.toNat →
          pBuf.toNat + asked iStart iLast * 4 ≤ mem.size)) := by
  constructor
  · intro served start order
    refine ⟨?_, ?_⟩
    · intro short
      by_contra enough
      rw [dosQuerySysInfo_writes start order (Nat.not_lt.mp enough)] at served
      exact (served.refused (.inr (.inr short))).1 rfl
    · intro fits
      have hlast := (served.stored start order fits).2 (asked iStart iLast - 1)
        (by unfold asked; omega)
      rw [dosQuerySysInfo_writes start order ((Nat.mod_le _ _).trans fits)] at hlast
      have hbound := of_decide_eq_true (GuestMemory.inBounds_of_read hlast)
      rw [GuestMemory.putAll_size] at hbound
      unfold asked at *
      omega
  · intro holds
    by_cases range : iStart = 0 ∨ iLast < iStart
    · rw [dosQuerySysInfo_refuses range]
      refine ⟨fun _ _ => rfl, fun _ => ⟨by simp [errorInvalidLevel], rfl⟩, fun start order => ?_⟩
      rcases range with zero | less
      · exact absurd zero start
      · exact absurd order (UInt32.not_le.mpr less)
    · obtain ⟨start, order⟩ := not_or.mp range
      obtain ⟨hshort, hroom⟩ := holds start (UInt32.not_lt.mp order)
      by_cases fits : asked iStart iLast * 4 ≤ cbBuf.toNat
      · exact dosQuerySysInfo_stores small start (UInt32.not_lt.mp order) fits (hroom fits)
      · rw [dosQuerySysInfo_overflows start (UInt32.not_lt.mp order) (hshort (by omega))]
        exact ⟨fun _ _ => rfl, fun _ => ⟨by simp [errorBufferOverflow], rfl⟩, fun _ _ enough => absurd enough fits⟩

def freshMemory : GuestMemory := { size := 4096, bytes := fun _ => 0 }

/-- The two version numbers. -/
theorem dosQuerySysInfo_version :
    SysInfoServed 11 12 256 8 freshMemory (dosQuerySysInfo 11 12 256 8 freshMemory) :=
  (dosQuerySysInfo_served_iff (by decide)).mpr (by decide)

/-- A range of 2 ^ 30 indices seems to need no byte at all. -/
theorem wide_range_accepted :
    ¬∀ (iStart iLast pBuf cbBuf : UInt32) (mem : GuestMemory), mem.size ≤ guestMemSize →
      SysInfoServed iStart iLast pBuf cbBuf mem (dosQuerySysInfo iStart iLast pBuf cbBuf mem) := by
  intro claim
  have refused := (claim 1 0x40000000 256 0 freshMemory (by decide)).refused
    (.inr (.inr (by decide)))
  exact refused.1 rfl

end Warpine.Loader
