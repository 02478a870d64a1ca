import Warpine.Guest.Memory
import Warpine.Lib.Dict
import Warpine.Lib.Panics

/-! Seeking in a wave file and asking for the position. Requests are in milliseconds and
the device keeps bytes. Arithmetic is that of words with overflow checks. -/
namespace Warpine.Loader
open Warpine.Lib Warpine.Guest

def mcierrSuccess : Nat := 0
def mcierrInvalidDeviceId : Nat := 263

/-- The format of a loaded file. Sample rates are nonnegative `i32` numbers. -/
structure WavFormat where
  freq : Nat
  freq_lt : freq < 2 ^ 31
  format : UInt16
  channels : UInt8

inductive MciMode where
  | notReady
  | stopped
  | playing
  deriving DecidableEq

structure MciDevice where
  mode : MciMode
  wav : WavFormat
  wavLen : UInt32
  currentPosition : UInt32

structure MmpmManager where
  devices : Dict UInt16 MciDevice

/-- `SDL_AUDIO_MASK_BITSIZE`. -/
def audioMaskBitsize : Nat := 255

def WavFormat.bytesPerFrame (wav : WavFormat) : Nat :=
  max ((wav.format.toNat &&& audioMaskBitsize) / 8) 1 * wav.channels.toNat

def msToByteOffset (ms : UInt32) (wav : WavFormat) : Option Nat := do
  let product ← mulWord 64 wav.freq ms.toNat
  let offset ← mulWord 64 (product / 1000) wav.bytesPerFrame
  return offset % u32Size

def mciSeekTo (mgr : MmpmManager) (deviceId posMs : UInt32) :
    Option (Nat × MmpmManager) :=
  match mgr.devices.get deviceId.toUInt16 with
  | none => some (mcierrInvalidDeviceId, mgr)
  | some dev => do
      let byteOffset ← msToByteOffset posMs dev.wav
      let position := UInt32.ofNat (min byteOffset dev.wavLen.toNat)
      return (mcierrSuccess, { mgr with
        devices := mgr.devices.insert deviceId.toUInt16 { dev with currentPosition := position } })

def mciStatusPosition : Nat := 1
def mciStatusLength : Nat := 2
def mciStatusMode : Nat := 4

def MciMode.code : MciMode → Nat
  | .notReady => 0x0524
  | .stopped => 0x0529
  | .playing => 0x0526

/-- Both byte counts are told in whole seconds. -/
def MciDevice.bytesToMs (dev : MciDevice) (bytes : Nat) : Option Nat := do
  let bytesPerSec ← mulWord 32 dev.wav.freq dev.wav.bytesPerFrame
  if bytesPerSec > 0 then mulWord 32 (bytes / bytesPerSec) 1000 else pure 0

def MciDevice.status (dev : MciDevice) (item : Nat) : Option Nat :=
  if item = mciStatusMode then some dev.mode.code
  else if item = mciStatusLength then dev.bytesToMs dev.wavLen.toNat
  else if item = mciStatusPosition then dev.bytesToMs dev.currentPosition.toNat
  else some 0

def mciStatus (mgr : MmpmManager) (mem : GuestMemory) (deviceId param2 : UInt32) :
    Option (Nat × GuestMemory) :=
  match mgr.devices.get deviceId.toUInt16 with
  | none => some (mcierrInvalidDeviceId, mem)
  | some dev =>
    if param2 = 0 then some (mcierrSuccess, mem)
    else do
      let itemField ← addWord 32 param2.toNat 8
      let value ← dev.status ((mem.read 4 itemField).getD 0)
      let returnField ← addWord 32 param2.toNat 4
      return (mcierrSuccess, mem.put 4 returnField value)

/-- A parameter block that asks for the position. -/
structure PositionBlock (mem : GuestMemory) (param2 : UInt32) : Prop where
  nonzero : param2 ≠ 0
  inside : param2.toNat + 12 ≤ mem.size
  addressable : mem.size ≤ u32Size
  item : mem.read 4 (param2.toNat + 8) = some mciStatusPosition

/-- Wherever the block lies, a position query returns this time. -/
def PositionIs (mgr : MmpmManager) (deviceId : UInt32) (ms : Nat) : Prop :=
  ∀ mem param2, PositionBlock mem param2 → ∃ after,
    mciStatus mgr mem deviceId param2 = some (mcierrSuccess, after) ∧
      after.read 4 (param2.toNat + 4) = some ms

namespace MciDevice

variable (dev : MciDevice)

/-- The byte a time stands for, and the last frame up to it that the data has. -/
def offset (ms : UInt32) : Nat := dev.wav.freq * ms.toNat / 1000 * dev.wav.bytesPerFrame

def wantedFrame (ms : UInt32) : Nat :=
  min (dev.wav.freq * ms.toNat / 1000) (dev.wavLen.toNat / dev.wav.bytesPerFrame)

end MciDevice

/-- A seek that goes to the frame its time is in, from where a query returns the time of
that frame. -/
structure SeeksTo (mgr : MmpmManager) (deviceId : UInt32) (dev : MciDevice) (ms : UInt32)
    (position : Nat) (after : MmpmManager) : Prop where
  returns : mciSeekTo mgr deviceId ms = some (mcierrSuccess, after)
  device : ∃ sought, after.devices.get deviceId.toUInt16 = some sought ∧
    sought.currentPosition.toNat = position
  frame : position = dev.wantedFrame ms * dev.wav.bytesPerFrame
  aligned : dev.wav.bytesPerFrame ∣ position
  inData : position ≤ dev.wavLen.toNat
  query : PositionIs after deviceId (dev.wantedFrame ms * 1000 / dev.wav.freq)

/-- Two seeks from one state, of which the one for the later time does not go to an
earlier place. -/
def SeekLaw (mgr : MmpmManager) (deviceId : UInt32) (dev : MciDevice) (early late : UInt32) :
    Prop :=
  ∃ first firstMgr last lastMgr, SeeksTo mgr deviceId dev early first firstMgr ∧
    SeeksTo mgr deviceId dev late last lastMgr ∧ first ≤ last

namespace MciDevice

variable (dev : MciDevice)

/-- The low 32 bits of the offset, capped at the length, are where the frame begins. -/
def OffsetKept (ms : UInt32) : Prop :=
  dev.offset ms < 2 ^ 64 ∧ (dev.offset ms ≤ dev.wavLen.toNat ∨
    dev.wav.bytesPerFrame ∣ dev.wavLen.toNat ∧ dev.wavLen.toNat ≤ dev.offset ms % u32Size ∨
    dev.offset ms % u32Size = dev.wavLen.toNat / dev.wav.bytesPerFrame * dev.wav.bytesPerFrame)

/-- A second has fewer than `2 ^ 32` bytes, and the frame lies in the first millisecond of
its second. -/
def SecondsExact (ms : UInt32) : Prop :=
  dev.wav.freq * dev.wav.bytesPerFrame < u32Size ∧
    (dev.wav.freq = 0 ∨ dev.wantedFrame ms % dev.wav.freq * 1000 < dev.wav.freq)

instance (ms : UInt32) : Decidable (dev.OffsetKept ms) :=
  inferInstanceAs (Decidable (_ ∧ (_ ∨ _ ∧ _ ∨ _)))

instance (ms : UInt32) : Decidable (dev.SecondsExact ms) :=
  inferInstanceAs (Decidable (_ ∧ (_ ∨ _)))

theorem offset_eq (ms : UInt32) :
    msToByteOffset ms dev.wav =
      if dev.offset ms < 2 ^ 64 then some (dev.offset ms % u32Size) else none := by
  have time : ms.toNat < 2 ^ 32 := ms.toNat_lt
  have product : dev.wav.freq * ms.toNat < 2 ^ 64 := by
    have := Nat.mul_le_mul (Nat.le_of_lt dev.wav.freq_lt) (Nat.le_of_lt time)
    omega
  unfold msToByteOffset mulWord offset
  rw [if_pos product, Option.bind_eq_bind, Option.bind_some]
  split
  · rfl
  · rfl

theorem wanted_offset (ms : UInt32) : dev.wantedFrame ms * dev.wav.bytesPerFrame =
    min (dev.offset ms) (dev.wavLen.toNat / dev.wav.bytesPerFrame * dev.wav.bytesPerFrame) := by
  unfold wantedFrame offset
  rcases Nat.le_total (dev.wav.freq * ms.toNat / 1000)
      (dev.wavLen.toNat / dev.wav.bytesPerFrame) with h | h
  · rw [Nat.min_eq_left h, Nat.min_eq_left (Nat.mul_le_mul_right _ h)]
  · rw [Nat.min_eq_right h, Nat.min_eq_right (Nat.mul_le_mul_right _ h)]

theorem wanted_inData (ms : UInt32) :
    dev.wantedFrame ms * dev.wav.bytesPerFrame ≤ dev.wavLen.toNat := by
  have whole := Nat.div_mul_le_self dev.wavLen.toNat dev.wav.bytesPerFrame
  rw [wanted_offset]
  omega

theorem wantedFrame_mono {early late : UInt32} (ordered : early ≤ late) :
    dev.wantedFrame early ≤ dev.wantedFrame late := by
  have times : early.toNat ≤ late.toNat := UInt32.le_iff_toNat_le.mp ordered
  have frames := Nat.div_le_div_right (Nat.mul_le_mul_left dev.wav.freq times)
    (c := 1000)
  unfold wantedFrame
  omega

/-- The position after a seek. -/
def soughtPosition (ms : UInt32) : Nat := min (dev.offset ms % u32Size) dev.wavLen.toNat

theorem offsetKept_iff (ms : UInt32) : dev.OffsetKept ms ↔ dev.offset ms < 2 ^ 64 ∧
    dev.soughtPosition ms = dev.wantedFrame ms * dev.wav.bytesPerFrame := by
  have len : dev.wavLen.toNat < 2 ^ 32 := dev.wavLen.toNat_lt
  have whole := Nat.div_mul_le_self dev.wavLen.toNat dev.wav.bytesPerFrame
  have aligned : dev.wav.bytesPerFrame ∣ dev.wavLen.toNat ↔
      dev.wavLen.toNat / dev.wav.bytesPerFrame * dev.wav.bytesPerFrame = dev.wavLen.toNat :=
    ⟨Nat.div_mul_cancel, fun same => ⟨_, (Nat.mul_comm _ _ ▸ same).symm⟩⟩
  have room : dev.offset ms ≤ dev.wavLen.toNat →
      dev.offset ms ≤ dev.wavLen.toNat / dev.wav.bytesPerFrame * dev.wav.bytesPerFrame :=
    fun h => by
      unfold offset at h ⊢
      rcases Nat.eq_zero_or_pos dev.wav.bytesPerFrame with none | some
      · rw [none, Nat.mul_zero]
        exact Nat.zero_le _
      · exact Nat.mul_le_mul_right _ ((Nat.le_div_iff_mul_le some).mpr h)
  unfold OffsetKept soughtPosition u32Size
  rw [wanted_offset, aligned]
  apply and_congr_right
  intro _
  omega

/-- The first millisecond of a second is where whole seconds are exact. -/
theorem seconds_exact_iff {rate frame : Nat} (pos : 0 < rate) :
    frame / rate * 1000 = frame * 1000 / rate ↔ frame % rate * 1000 < rate := by
  have parts : frame * 1000 = frame % rate * 1000 + rate * (frame / rate * 1000) := by
    rw [← Nat.mul_assoc, ← Nat.add_mul, Nat.mod_add_div]
  rw [parts, Nat.add_mul_div_left _ _ pos]
  have small : frame % rate * 1000 / rate = 0 ↔ frame % rate * 1000 < rate :=
    Nat.div_eq_zero_iff.trans (or_iff_right (by omega))
  omega

theorem bytesToMs_wanted (ms : UInt32) :
    dev.bytesToMs (dev.wantedFrame ms * dev.wav.bytesPerFrame) =
      some (dev.wantedFrame ms * 1000 / dev.wav.freq) ↔ dev.SecondsExact ms := by
  have len : dev.wavLen.toNat < 2 ^ 32 := dev.wavLen.toNat_lt
  have time : ms.toNat < 2 ^ 32 := ms.toNat_lt
  unfold bytesToMs mulWord SecondsExact u32Size
  by_cases small : dev.wav.freq * dev.wav.bytesPerFrame < 2 ^ 32
  · rw [if_pos small, Option.bind_eq_bind, Option.bind_some]
    simp only [small, true_and]
    by_cases some_ : dev.wav.freq * dev.wav.bytesPerFrame > 0
    · have rate := Nat.pos_of_mul_pos_right some_
      have bytes := Nat.pos_of_mul_pos_left some_
      have frames : dev.wantedFrame ms ≤ dev.wav.freq * ms.toNat / 1000 := Nat.min_le_left _ _
      have seconds : dev.wantedFrame ms / dev.wav.freq * 1000 < 2 ^ 32 := by
        have := Nat.div_le_div_right (c := dev.wav.freq) frames
        rw [Nat.div_div_eq_div_mul, Nat.mul_comm 1000, ← Nat.div_div_eq_div_mul,
          Nat.mul_div_cancel_left _ rate] at this
        omega
      rw [if_pos some_, Nat.mul_div_mul_right _ _ bytes, if_pos seconds, Option.some.injEq,
        seconds_exact_iff rate]
      omega
    · have none : dev.wav.freq = 0 ∨ dev.wav.bytesPerFrame = 0 :=
        Nat.mul_eq_zero.mp (Nat.eq_zero_of_not_pos some_)
      have frame : dev.wantedFrame ms = 0 := by
        unfold wantedFrame
        rcases none with still | empty
        · rw [still, Nat.zero_mul]
          exact Nat.zero_min _
        · rw [empty, Nat.div_zero]
          exact Nat.min_zero _
      rw [if_neg some_, frame]
      simp only [Nat.zero_mul, Nat.zero_div, Nat.zero_mod, Option.pure_def, true_iff]
      omega
  · rw [if_neg small]
    simp only [small, false_and, iff_false]
    exact nofun

end MciDevice

/-- The device with its place after a seek. -/
def MmpmManager.sought (mgr : MmpmManager) (deviceId : UInt32) (dev : MciDevice) (ms : UInt32) :
    MmpmManager :=
  { mgr with
    devices := mgr.devices.insert deviceId.toUInt16
      { dev with currentPosition := UInt32.ofNat (dev.soughtPosition ms) } }

theorem MmpmManager.get_sought (mgr : MmpmManager) (deviceId : UInt32) (dev : MciDevice)
    (ms : UInt32) : (mgr.sought deviceId dev ms).devices.get deviceId.toUInt16 =
      some { dev with currentPosition := UInt32.ofNat (dev.soughtPosition ms) } :=
  Dict.get_insert _ _ _

section Seek

variable {mgr : MmpmManager} {deviceId : UInt32} {dev : MciDevice}
  (found : mgr.devices.get deviceId.toUInt16 = some dev)

include found

theorem mciSeekTo_eq (ms : UInt32) : mciSeekTo mgr deviceId ms =
    if dev.offset ms < 2 ^ 64 then some (mcierrSuccess, mgr.sought deviceId dev ms)
    else none := by
  unfold mciSeekTo
  rw [found]
  dsimp only
  rw [dev.offset_eq]
  split
  · rfl
  · rfl

/-- A query tells what the device's bytes are in milliseconds. -/
theorem positionIs_iff {ms : Nat} (small : ms < u32Size) : PositionIs mgr deviceId ms ↔
    dev.bytesToMs dev.currentPosition.toNat = some ms := by
  have query : ∀ mem param2, PositionBlock mem param2 → mciStatus mgr mem deviceId param2 =
      (dev.bytesToMs dev.currentPosition.toNat).map fun value =>
        (mcierrSuccess, mem.put 4 (param2.toNat + 4) value) := by
    intro mem param2 block
    obtain ⟨nonzero, inside, addressable, item⟩ := block
    have status : dev.status mciStatusPosition = dev.bytesToMs dev.currentPosition.toNat := rfl
    unfold u32Size at addressable
    unfold mciStatus addWord
    rw [found]
    dsimp only
    rw [if_neg nonzero, if_pos (by omega), if_pos (by omega), Option.bind_eq_bind,
      Option.bind_some, item, Option.getD_some, status]
    cases dev.bytesToMs dev.currentPosition.toNat <;> rfl
  have bounds : ∀ mem param2, PositionBlock mem param2 →
      mem.inBounds (param2.toNat + 4) 4 := fun mem param2 block =>
    decide_eq_true (by have := block.inside; omega)
  constructor
  · intro returns
    have block : PositionBlock ((GuestMemory.mk 16 fun _ => 0).put 4 12 mciStatusPosition) 4 :=
      { nonzero := by decide
        inside := by rw [GuestMemory.put, GuestMemory.putBytes_size]; decide
        addressable := by rw [GuestMemory.put, GuestMemory.putBytes_size]; decide
        item := GuestMemory.read_put _ (by decide) rfl }
    obtain ⟨after, done, here⟩ := returns _ _ block
    rw [query _ _ block] at done
    cases told : dev.bytesToMs dev.currentPosition.toNat with
    | none =>
      rw [told] at done
      contradiction
    | some value =>
      rw [told] at done
      cases done
      have range : value < 256 ^ 4 := by
        unfold MciDevice.bytesToMs mulWord at told
        obtain ⟨_, _, told⟩ := Option.bind_eq_some_iff.mp told
        split at told
        · split at told
          · cases told
            omega
          · contradiction
        · cases told
          decide
      rw [GuestMemory.read_put _ range (bounds _ _ block)] at here
      exact here
  · intro told mem param2 block
    rw [query mem param2 block, told]
    exact ⟨_, rfl, mem.read_put small (bounds mem param2 block)⟩

end Seek

section Law

variable {mgr : MmpmManager} {deviceId : UInt32} {dev : MciDevice}

theorem seeksTo_iff (found : mgr.devices.get deviceId.toUInt16 = some dev) (ms : UInt32) :
    (∃ position after, SeeksTo mgr deviceId dev ms position after) ↔
      dev.OffsetKept ms ∧ dev.SecondsExact ms := by
  have len : dev.wavLen.toNat < 2 ^ 32 := dev.wavLen.toNat_lt
  have time : ms.toNat < 2 ^ 32 := ms.toNat_lt
  have word : (UInt32.ofNat (dev.soughtPosition ms)).toNat = dev.soughtPosition ms := by
    apply UInt32.toNat_ofNat_of_lt'
    unfold MciDevice.soughtPosition UInt32.size
    omega
  have told : dev.wantedFrame ms * 1000 / dev.wav.freq < u32Size := by
    have frames : dev.wantedFrame ms ≤ dev.wav.freq * ms.toNat / 1000 := Nat.min_le_left _ _
    have wanted : dev.wantedFrame ms * 1000 ≤ dev.wav.freq * ms.toNat := by omega
    exact Nat.lt_of_le_of_lt (Nat.div_le_of_le_mul wanted) time
  constructor
  · intro ⟨position, after, returns, device, frame, _, _, query⟩
    rw [mciSeekTo_eq found] at returns
    split at returns
    · rename_i small
      cases returns
      obtain ⟨sought, here, place⟩ := device
      have same := here
      rw [MmpmManager.get_sought] at same
      cases same
      dsimp only at place
      rw [word] at place
      rw [positionIs_iff here told] at query
      dsimp only at query
      rw [word, place, frame] at query
      exact ⟨(dev.offsetKept_iff ms).mpr ⟨small, place.trans frame⟩,
        (dev.bytesToMs_wanted ms).mp query⟩
    · contradiction
  · intro ⟨kept, exact_⟩
    obtain ⟨small, place⟩ := (dev.offsetKept_iff ms).mp kept
    have returns := mciSeekTo_eq found ms
    rw [if_pos small] at returns
    have here := mgr.get_sought deviceId dev ms
    refine ⟨dev.soughtPosition ms, _, returns, ⟨_, here, word⟩, place, ?_, ?_, ?_⟩
    · rw [place]
      exact Nat.dvd_mul_left _ _
    · rw [place]
      exact dev.wanted_inData ms
    · rw [positionIs_iff here told]
      dsimp only
      rw [word, place]
      exact (dev.bytesToMs_wanted ms).mpr exact_

/-- Exactly these seeks go to the frame of their time, and the time of the query is exact. -/
theorem seek_law_iff (found : mgr.devices.get deviceId.toUInt16 = some dev)
    {early late : UInt32} (ordered : early ≤ late) :
    SeekLaw mgr deviceId dev early late ↔
      (dev.OffsetKept early ∧ dev.SecondsExact early) ∧
        dev.OffsetKept late ∧ dev.SecondsExact late := by
  rw [← seeksTo_iff found, ← seeksTo_iff found]
  constructor
  · intro ⟨first, firstMgr, last, lastMgr, earlier, later, _⟩
    exact ⟨⟨first, firstMgr, earlier⟩, last, lastMgr, later⟩
  · intro ⟨⟨first, firstMgr, earlier⟩, last, lastMgr, later⟩
    apply Exists.intro first
    refine ⟨firstMgr, last, lastMgr, earlier, later, ?_⟩
    rw [earlier.frame, later.frame]
    exact Nat.mul_le_mul_right _ (dev.wantedFrame_mono ordered)

/-- Ten seconds of 16-bit stereo at CD rate, just loaded. -/
def tenSeconds : MciDevice where
  mode := .stopped
  wav := { freq := 44100, freq_lt := by decide, format := 0x8010, channels := 2 }
  wavLen := 1764000
  currentPosition := 0

/-- One second and three seconds into the file. -/
theorem whole_seconds_sought : SeekLaw ⟨[(1, tenSeconds)]⟩ 1 tenSeconds 1000 3000 :=
  (seek_law_iff rfl (by decide)).mpr (by decide)

/-- Half a second into the file, where the query says 0. -/
theorem half_second_lost : ¬ SeekLaw ⟨[(1, tenSeconds)]⟩ 1 tenSeconds 500 500 := by
  intro ⟨first, firstMgr, _, _, seeks, _⟩
  have kept := (seeksTo_iff (show Dict.get [(1, tenSeconds)] (1 : UInt32).toUInt16 =
    some tenSeconds from rfl) 500).mp ⟨first, firstMgr, seeks⟩
  exact absurd kept.2 (by decide)

end Law

end Warpine.Loader
