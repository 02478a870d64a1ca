import Warpine.Lib.Custody
import Warpine.Mci.Playback

/-! Who owns the audio devices and the buffers: the wave devices that hold them, and the calls in
which they are on their way. -/
namespace Warpine.Mci
open Warpine.Lib Warpine.Loader

inductive Place where
  | device (id : UInt16)
  | call (thread : Nat)
deriving DecidableEq

/-- The number 0 stands for none. -/
def handle (number : Nat) : Option Nat := if number = 0 then none else some number

theorem handle_of_ne {number : Nat} (h : number ≠ 0) : handle number = some number := if_neg h

theorem handle_eq_some {number found : Nat} :
    handle number = some found ↔ number ≠ 0 ∧ number = found := by
  unfold handle
  split <;> simp [*]

section Joined

/-- What devices and calls hold, as one table. -/
def joined (devices : Table UInt16 Nat) (calls : Table Nat Nat) : Table Place Nat
  | .device id => devices id
  | .call thread => calls thread

variable {devices : Table UInt16 Nat} {calls : Table Nat Nat} {id : UInt16} {thread thing : Nat}

theorem joined_erase_device :
    joined (devices.erase id) calls = (joined devices calls).erase (.device id) := by
  funext place
  cases place <;> simp [joined, Table.erase]

theorem joined_insert_device :
    joined (devices.insert id thing) calls = (joined devices calls).insert (.device id) thing := by
  funext place
  cases place <;> simp [joined, Table.insert]

theorem joined_erase_call :
    joined devices (calls.erase thread) = (joined devices calls).erase (.call thread) := by
  funext place
  cases place <;> simp [joined, Table.erase]

theorem joined_insert_call :
    joined devices (calls.insert thread thing) =
      (joined devices calls).insert (.call thread) thing := by
  funext place
  cases place <;> simp [joined, Table.insert]

end Joined

def WaveDevice.heldAudio (dev : WaveDevice) : Option Nat := handle dev.audioDev

def WaveDevice.heldWav (dev : WaveDevice) : Option Nat := handle dev.wavBuf

def Call.audioDev : Call → Option Nat
  | .queueAudio _ _ audioDev | .update _ audioDev => some audioDev
  | _ => none

/-- The samples that a call goes on to read. -/
def Call.clip : Call → Option Clip
  | .supersede _ clip | .applyVolume _ clip | .openAudio _ clip | .queueAudio _ clip _ => some clip
  | _ => none

namespace MciState

section Views

variable (s : MciState)

def deviceAudio : Table UInt16 Nat := s.devices.filterMap WaveDevice.heldAudio

def deviceWav : Table UInt16 Nat := s.devices.filterMap WaveDevice.heldWav

def callAudio : Table Nat Nat := s.calls.filterMap Call.audioDev

def audio : Leases Place := ⟨joined s.deviceAudio s.callAudio, s.opened, s.nextAudio⟩

def wavs : Leases UInt16 := ⟨s.deviceWav, s.buffers, s.nextBuffer⟩

end Views

variable {s t : MciState} {id : UInt16} {dev : WaveDevice} {thread : Nat} {call : Call}

theorem audio_same (devices : t.deviceAudio = s.deviceAudio) (calls : t.callAudio = s.callAudio)
    (opened : t.opened = s.opened) (older : t.nextAudio = s.nextAudio) : t.audio = s.audio := by
  rw [audio, devices, calls, opened, older, audio]

theorem deviceAudio_of_device (here : s.devices id = some dev) :
    s.deviceAudio id = handle dev.audioDev := by
  rw [deviceAudio, Table.filterMap, here, Option.bind_some, WaveDevice.heldAudio]

theorem opened_release (here : s.devices id = some dev) :
    (s.closeAudio dev.audioDev).opened = (s.audio.release (.device id)).opened := by
  have held : s.audio.held (.device id) = handle dev.audioDev := deviceAudio_of_device here
  rw [Leases.release, held]
  simp only [closeAudio, handle]
  split <;> rfl

theorem audio_release (here : s.devices id = some dev)
    (devices : t.deviceAudio = s.deviceAudio.erase id) (calls : t.callAudio = s.callAudio)
    (opened : t.opened = (s.closeAudio dev.audioDev).opened)
    (older : t.nextAudio = s.nextAudio) : t.audio = s.audio.release (.device id) := by
  apply Leases.ext
  · change joined t.deviceAudio t.callAudio = _
    rw [devices, calls, joined_erase_device]
    rfl
  · exact opened.trans (opened_release here)
  · exact older

theorem audio_put (same : handle dev.audioDev = s.deviceAudio id) :
    (s.put id dev).audio = s.audio :=
  audio_same (Table.filterMap_insert_same same) rfl rfl rfl

theorem audio_goes (same : call.audioDev = s.callAudio thread) :
    (s.goes thread call).audio = s.audio :=
  audio_same rfl (Table.filterMap_insert_same same) rfl rfl

theorem audio_returns {code : Nat} (idle : s.callAudio thread = none) :
    (s.returns thread code).audio = s.audio :=
  audio_same rfl (Table.filterMap_erase_none idle) rfl rfl

theorem audio_silence (here : s.devices id = some dev) :
    (s.silence id dev).audio = s.audio.release (.device id) :=
  audio_release here (Table.filterMap_insert_none rfl) rfl rfl rfl

theorem audio_drop (here : s.devices id = some dev) (gone : t.deviceAudio = s.deviceAudio.erase id)
    (calls : t.callAudio = s.callAudio) (opened : t.opened = s.opened)
    (older : t.nextAudio = s.nextAudio) : (t.drop dev).audio = s.audio.release (.device id) := by
  refine audio_release here gone calls ?_ older
  change (t.closeAudio dev.audioDev).opened = _
  simp only [closeAudio, opened]

/-- The audio device that a call has opened becomes that of the wave device. -/
theorem audio_update {play : Play} {audioDev : Nat} (here : s.devices play.key = some dev)
    (going : s.callAudio thread = some audioDev) (nonzero : audioDev ≠ 0)
    (devices : t.deviceAudio = (s.update play audioDev).deviceAudio)
    (calls : t.callAudio = s.callAudio.erase thread)
    (opened : t.opened = (s.update play audioDev).opened) (older : t.nextAudio = s.nextAudio) :
    t.audio = (s.audio.release (.device play.key)).move (.call thread) (.device play.key) := by
  have updated : (s.update play audioDev).deviceAudio =
      s.deviceAudio.insert play.key audioDev := by
    rw [update, here]
    exact Table.filterMap_insert_some (handle_of_ne nonzero)
  have released : (s.update play audioDev).opened = (s.closeAudio dev.audioDev).opened := by
    rw [update, here]
    rfl
  have held : (s.audio.release (.device play.key)).held (.call thread) = some audioDev := by
    rw [Leases.held_release, Table.erase_ne _ (by simp)]
    exact going
  rw [Leases.move_of_some held]
  apply Leases.ext
  · change joined t.deviceAudio t.callAudio = _
    rw [devices, calls, updated, joined_insert_device, joined_erase_call]
    exact Table.erase_erase_insert.symm
  · exact opened.trans (released.trans (opened_release here))
  · exact older

/-- What an event does to the audio devices that are held. -/
inductive AudioEffect (s next : MciState) : Prop where
  | keeps (same : next.audio = s.audio)
  | closes (id : UInt16) (closed : next.audio = s.audio.release (.device id))
  | opens (thread : Nat) (free : s.audio.held (.call thread) = none)
      (opened : next.audio = s.audio.acquire (.call thread))
  | plays (thread : Nat) (id : UInt16)
      (played : next.audio = (s.audio.release (.device id)).move (.call thread) (.device id))
  | loses (thread : Nat) (play : Play) (audioDev : Nat)
      (call : s.calls thread = some (.update play audioDev)) (gone : s.devices play.key = none)
      (lost : next.audio = s.audio.forget (.call thread))

theorem callAudio_of_isNone (idle : (s.calls thread).isNone) : s.callAudio thread = none := by
  rw [callAudio, Table.filterMap, Option.isNone_iff_eq_none.mp idle, Option.bind_none]

theorem callAudio_of_call (here : s.calls thread = some call) :
    s.callAudio thread = call.audioDev := by
  rw [callAudio, Table.filterMap, here, Option.bind_some]

section Calls

theorem AudioEffect.of_eq {next : MciState} (same : next.audio = t.audio) (h : AudioEffect s t) :
    AudioEffect s next := by
  cases h with
  | keeps h => exact .keeps (same.trans h)
  | closes id h => exact .closes id (same.trans h)
  | opens thread free h => exact .opens thread free (same.trans h)
  | plays thread id h => exact .plays thread id (same.trans h)
  | loses thread play audioDev call gone h =>
    exact .loses thread play audioDev call gone (same.trans h)

theorem audio_mciOpenInternal (loaded : Option (UInt32 × WavFormat)) :
    AudioEffect s (s.mciOpenInternal loaded) := by
  unfold mciOpenInternal
  simp only
  split
  · rename_i old here
    exact .closes s.nextDeviceId (audio_drop here (Table.filterMap_insert_none rfl) rfl rfl rfl)
  · rename_i gone
    have same : handle (s.newDevice loaded).audioDev = s.deviceAudio s.nextDeviceId := by
      rw [deviceAudio, Table.filterMap, gone]
      rfl
    exact .keeps (audio_same (Table.filterMap_insert_same same) rfl rfl rfl)

theorem audio_mciClose (deviceId : UInt32) : AudioEffect s (s.mciClose deviceId).2 := by
  unfold mciClose
  split
  · rename_i dev here
    exact .closes deviceId.toUInt16 (audio_drop here Table.filterMap_erase rfl rfl rfl)
  · exact .keeps rfl

theorem audio_mciStop (deviceId : UInt32) : AudioEffect s (s.mciStop deviceId).2 := by
  unfold mciStop
  split
  · rename_i dev here
    exact .closes deviceId.toUInt16
      ((audio_silence (s := s.cancel dev.notifyCancel) here).trans rfl)
  · exact .keeps rfl

theorem audio_mciSet (deviceId level : UInt32) : AudioEffect s (s.mciSet deviceId level).2 := by
  unfold mciSet
  split
  · rename_i dev here
    exact .keeps (audio_put (deviceAudio_of_device here).symm)
  · exact .keeps rfl

theorem audio_mciSeekTo {deviceId posMs : UInt32} {reply : Nat × MciState}
    (h : s.mciSeekTo deviceId posMs = some reply) : AudioEffect s reply.2 := by
  unfold mciSeekTo at h
  split at h
  · rename_i dev here
    obtain ⟨byteOffset, -, rfl⟩ := Option.map_eq_some_iff.mp h
    exact .keeps (audio_put (deviceAudio_of_device here).symm)
  · cases h
    exact .keeps rfl

theorem audio_startPlay (deviceId param1 hwndCallback : UInt32) (idle : s.callAudio thread = none) :
    AudioEffect s (s.startPlay thread deviceId param1 hwndCallback) := by
  unfold startPlay
  simp only
  refine .keeps ?_
  split
  · exact audio_returns (s := { s with nextPlay := s.nextPlay + 1 }) idle
  · split
    · exact audio_returns (s := { s with nextPlay := s.nextPlay + 1 }) idle
    · exact audio_goes (s := { s with nextPlay := s.nextPlay + 1 }) idle.symm

theorem audio_supersede (id : UInt16) : (s.supersede id).audio = s.audio := by
  unfold supersede
  split
  · rename_i dev here
    exact audio_put (s := s.cancel dev.notifyCancel) (deviceAudio_of_device here).symm
  · rfl

theorem audio_arm (play : Play) (audioDev : Nat) : (s.arm play audioDev).audio = s.audio := by
  unfold arm
  split
  · rename_i dev here
    exact audio_put (s := s.spawn play audioDev) (deviceAudio_of_device here).symm
  · rfl

theorem subset_cancel (flag : Option Nat) : s.cancelled ⊆ (s.cancel flag).cancelled := by
  cases flag with
  | none => exact Finset.Subset.refl _
  | some number => exact Finset.subset_insert number _

/-- The calls, the watchers and the notices stay, and a flag that is raised. -/
structure Frame (s t : MciState) : Prop where
  calls : t.calls = s.calls
  watchers : t.watchers = s.watchers
  posted : t.posted = s.posted
  nextPlay : t.nextPlay = s.nextPlay
  cancelled : s.cancelled ⊆ t.cancelled

theorem Frame.refl (s : MciState) : Frame s s := ⟨rfl, rfl, rfl, rfl, Finset.Subset.refl _⟩

theorem frame_mciOpenInternal (loaded : Option (UInt32 × WavFormat)) :
    Frame s (s.mciOpenInternal loaded) := by
  unfold mciOpenInternal
  simp only
  split
  · exact ⟨rfl, rfl, rfl, rfl, subset_cancel (s := s) _⟩
  · exact ⟨rfl, rfl, rfl, rfl, Finset.Subset.refl _⟩

theorem frame_mciClose (deviceId : UInt32) : Frame s (s.mciClose deviceId).2 := by
  unfold mciClose
  split
  · exact ⟨rfl, rfl, rfl, rfl, subset_cancel (s := s) _⟩
  · exact .refl s

theorem frame_mciStop (deviceId : UInt32) : Frame s (s.mciStop deviceId).2 := by
  unfold mciStop
  split
  · exact ⟨rfl, rfl, rfl, rfl, subset_cancel (s := s) _⟩
  · exact .refl s

theorem frame_mciSet (deviceId level : UInt32) : Frame s (s.mciSet deviceId level).2 := by
  unfold mciSet
  split
  · exact ⟨rfl, rfl, rfl, rfl, Finset.Subset.refl _⟩
  · exact .refl s

theorem frame_mciSeekTo {deviceId posMs : UInt32} {reply : Nat × MciState}
    (h : s.mciSeekTo deviceId posMs = some reply) : Frame s reply.2 := by
  unfold mciSeekTo at h
  split at h
  · obtain ⟨byteOffset, -, rfl⟩ := Option.map_eq_some_iff.mp h
    exact ⟨rfl, rfl, rfl, rfl, Finset.Subset.refl _⟩
  · cases h
    exact .refl s

theorem frame_supersede (id : UInt16) : Frame s (s.supersede id) := by
  unfold supersede
  split
  · exact ⟨rfl, rfl, rfl, rfl, subset_cancel (s := s) _⟩
  · exact .refl s

theorem frame_update (play : Play) (audioDev : Nat) : Frame s (s.update play audioDev) := by
  unfold update
  split
  · exact ⟨rfl, rfl, rfl, rfl, Finset.Subset.refl _⟩
  · exact .refl s

theorem frame_cleanUp (id : UInt16) : Frame s (s.cleanUp id) := by
  unfold cleanUp
  split
  · exact ⟨rfl, rfl, rfl, rfl, Finset.Subset.refl _⟩
  · exact .refl s

theorem calls_arm (play : Play) (audioDev : Nat) : (s.arm play audioDev).calls = s.calls := by
  unfold arm
  split <;> rfl

/-- A call that is over at once has no audio device on its way. -/
theorem AudioEffect.reply {code : Nat} (effect : AudioEffect s t) (idle : (s.calls thread).isNone)
    (calls : t.calls = s.calls) : AudioEffect s (t.returns thread code) := by
  refine effect.of_eq (audio_returns ?_)
  rw [callAudio, calls]
  exact callAudio_of_isNone idle

end Calls

section Advance

variable {answer : Bool} {play : Play} {clip : Clip} {audioDev : Nat}

/-- A new audio device goes to the call. -/
theorem audio_openAudio (call : s.calls thread = some (.openAudio play clip)) :
    AudioEffect s (s.advance thread answer (.openAudio play clip)) := by
  have free := callAudio_of_call call
  cases answer with
  | false => exact .keeps (audio_returns free)
  | true =>
    refine .opens thread free ?_
    apply Leases.ext
    · change joined s.deviceAudio
        ((s.calls.insert thread (.queueAudio play clip s.nextAudio)).filterMap _) = _
      have view : Call.audioDev (.queueAudio play clip s.nextAudio) = some s.nextAudio := rfl
      rw [Table.filterMap_insert_some view, joined_insert_call]
      rfl
    · rfl
    · rfl

theorem audio_updateCall (sound : s.audio.Sound)
    (call : s.calls thread = some (.update play audioDev)) :
    AudioEffect s (s.advance thread answer (.update play audioDev)) := by
  have going : s.callAudio thread = some audioDev := callAudio_of_call call
  have nonzero : audioDev ≠ 0 := fun zero =>
    sound.nonzero (zero ▸ sound.opened (.call thread) audioDev going)
  have calls : (s.update play audioDev).callAudio = s.callAudio := by
    rw [callAudio, (frame_update play audioDev).calls, callAudio]
  have older : (s.update play audioDev).nextAudio = s.nextAudio := by
    unfold update
    split <;> rfl
  have left : ∀ next : MciState, next.deviceAudio = (s.update play audioDev).deviceAudio →
      next.callAudio = s.callAudio.erase thread →
      next.opened = (s.update play audioDev).opened →
        next.nextAudio = (s.update play audioDev).nextAudio → AudioEffect s next := by
    intro next devices erased opened later
    cases here : s.devices play.key with
    | some dev =>
      exact .plays thread play.key
        (audio_update here going nonzero devices erased opened (later.trans older))
    | none =>
      refine .loses thread play audioDev call here ?_
      rw [update, here] at devices opened
      rw [audio, devices, erased, opened, later.trans older, joined_erase_call]
      rfl
  unfold advance
  simp only
  split
  · exact left _ rfl (by rw [← calls]; exact Table.filterMap_insert_none rfl) rfl rfl
  · split
    · exact left _ rfl (by rw [← calls]; exact Table.filterMap_insert_none rfl) rfl rfl
    · exact left _ rfl (by rw [← calls]; exact Table.filterMap_erase) rfl rfl

theorem audio_advance (sound : s.audio.Sound) (here : s.calls thread = some call) :
    AudioEffect s (s.advance thread answer call) := by
  have going := callAudio_of_call here
  cases call with
  | supersede play clip =>
    refine .keeps ((audio_goes ?_).trans (audio_supersede play.key))
    rw [callAudio, (frame_supersede play.key).calls]
    exact going.symm
  | applyVolume play clip =>
    refine .keeps ?_
    unfold advance
    simp only
    split <;> split
    · exact audio_returns (s := s.readWav clip.wavBuf) going
    · exact audio_returns going
    · exact audio_goes (s := s.readWav clip.wavBuf) going.symm
    · exact audio_goes going.symm
  | openAudio play clip => exact audio_openAudio here
  | queueAudio play clip audioDev =>
    refine .keeps ?_
    unfold advance
    simp only
    split
    · exact audio_goes going.symm
    · exact audio_goes (s := s.readWav clip.wavBuf) going.symm
  | update play audioDev => exact audio_updateCall sound here
  | wait play =>
    have idle : (s.mciStop play.deviceId).2.callAudio thread = none := by
      rw [callAudio, (frame_mciStop play.deviceId).calls]
      exact going
    unfold advance
    simp only
    split
    · split
      · exact (audio_mciStop play.deviceId).of_eq (audio_goes idle.symm)
      · exact (audio_mciStop play.deviceId).of_eq (audio_returns idle)
    · exact .keeps rfl
  | notify play => exact .keeps (audio_returns (s := s.post play mciNotifySuccessful) going)
  | arm play audioDev =>
    refine .keeps ((audio_returns ?_).trans (audio_arm play audioDev))
    rw [callAudio, calls_arm]
    exact going

theorem audio_watch (watcher : Watcher) : AudioEffect s (s.watch watcher answer) := by
  unfold watch
  split
  · split
    · exact .keeps rfl
    · split <;> exact .keeps rfl
  · exact .keeps rfl
  · split <;> exact .keeps rfl
  · refine AudioEffect.of_eq (t := s.cleanUp watcher.play.key) rfl ?_
    unfold cleanUp
    split
    · rename_i dev here
      exact .closes watcher.play.key (audio_silence here)
    · exact .keeps rfl
  · exact .keeps rfl
  · exact .keeps rfl

theorem audio_exec {event : Event} {next : MciState} (sound : s.audio.Sound)
    (h : s.exec event = some next) : AudioEffect s next := by
  cases event with
  | mciOpen thread loaded =>
    obtain ⟨idle, h⟩ := Option.ite_none_right_eq_some.mp h
    cases h
    exact (audio_mciOpenInternal loaded).reply idle (frame_mciOpenInternal loaded).calls
  | mciClose thread deviceId =>
    obtain ⟨idle, h⟩ := Option.ite_none_right_eq_some.mp h
    cases h
    exact (audio_mciClose deviceId).reply idle (frame_mciClose deviceId).calls
  | mciStop thread deviceId =>
    obtain ⟨idle, h⟩ := Option.ite_none_right_eq_some.mp h
    cases h
    exact (audio_mciStop deviceId).reply idle (frame_mciStop deviceId).calls
  | mciSeekTo thread deviceId posMs =>
    obtain ⟨idle, h⟩ := Option.ite_none_right_eq_some.mp h
    obtain ⟨reply, sought, rfl⟩ := Option.map_eq_some_iff.mp h
    exact (audio_mciSeekTo sought).reply idle (frame_mciSeekTo sought).calls
  | mciSet thread deviceId level =>
    obtain ⟨idle, h⟩ := Option.ite_none_right_eq_some.mp h
    cases h
    exact (audio_mciSet deviceId level).reply idle (frame_mciSet deviceId level).calls
  | mciPlay thread deviceId param1 hwndCallback =>
    obtain ⟨idle, h⟩ := Option.ite_none_right_eq_some.mp h
    cases h
    exact audio_startPlay deviceId param1 hwndCallback (callAudio_of_isNone idle)
  | advance thread answer =>
    obtain ⟨call, here, rfl⟩ := Option.map_eq_some_iff.mp h
    exact audio_advance sound here
  | watch number answer =>
    obtain ⟨watcher, here, rfl⟩ := Option.map_eq_some_iff.mp h
    exact audio_watch watcher

end Advance


section Owners

/-- What an event does beside the calls and their return codes. -/
inductive Core (s : MciState) (event : Event) : MciState → Prop where
  | mciOpenInternal (thread : Nat) (loaded : Option (UInt32 × WavFormat))
      (asked : event = .mciOpen thread loaded) : Core s event (s.mciOpenInternal loaded)
  | mciClose (thread : Nat) (deviceId : UInt32) (asked : event = .mciClose thread deviceId) :
      Core s event (s.mciClose deviceId).2
  | mciStop (deviceId : UInt32) : Core s event (s.mciStop deviceId).2
  | mciSeekTo {deviceId posMs : UInt32} {reply : Nat × MciState}
      (sought : s.mciSeekTo deviceId posMs = some reply) : Core s event reply.2
  | mciSet (deviceId level : UInt32) : Core s event (s.mciSet deviceId level).2
  | numbers (thread : Nat) (deviceId param1 hwndCallback : UInt32)
      (asked : event = .mciPlay thread deviceId param1 hwndCallback) :
      Core s event { s with nextPlay := s.nextPlay + 1 }
  | supersede (thread : Nat) (play : Play) (clip : Clip)
      (here : s.calls thread = some (.supersede play clip)) : Core s event (s.supersede play.key)
  | readWav (thread : Nat) (call : Call) (clip : Clip) (here : s.calls thread = some call)
      (part : call.clip = some clip) : Core s event (s.readWav clip.wavBuf)
  | openAudio : Core s event { s with
      opened := insert s.nextAudio s.opened, nextAudio := s.nextAudio + 1 }
  | update (thread : Nat) (play : Play) (audioDev : Nat)
      (here : s.calls thread = some (.update play audioDev)) : Core s event (s.update play audioDev)
  | notify (thread : Nat) (answer : Bool) (play : Play) (asked : event = .advance thread answer)
      (here : s.calls thread = some (.notify play)) : Core s event (s.post play mciNotifySuccessful)
  | arm (thread : Nat) (answer : Bool) (play : Play) (audioDev : Nat)
      (asked : event = .advance thread answer)
      (here : s.calls thread = some (.arm play audioDev)) : Core s event (s.arm play audioDev)
  | watch (number : Nat) (watcher : Watcher) (answer : Bool) (asked : event = .watch number answer)
      (here : s.watchers number = some watcher) : Core s event (s.watch watcher answer)
  | idles : Core s event s

variable {next : MciState} {event : Event}

theorem advance_core {answer : Bool} (here : s.calls thread = some call)
    (h : s.advance thread answer call = next) :
    ∃ core, Core s (.advance thread answer) core ∧
      next = { core with calls := next.calls, replies := next.replies } := by
  subst h
  cases call with
  | supersede play clip => exact ⟨_, .supersede thread play clip here, rfl⟩
  | applyVolume play clip =>
    unfold advance
    simp only
    split <;> split
    · exact ⟨_, .readWav thread _ clip here rfl, rfl⟩
    · exact ⟨_, .idles, rfl⟩
    · exact ⟨_, .readWav thread _ clip here rfl, rfl⟩
    · exact ⟨_, .idles, rfl⟩
  | openAudio play clip =>
    cases answer
    · exact ⟨_, .idles, rfl⟩
    · exact ⟨_, .openAudio, rfl⟩
  | queueAudio play clip audioDev =>
    unfold advance
    simp only
    split
    · exact ⟨_, .idles, rfl⟩
    · exact ⟨_, .readWav thread _ clip here rfl, rfl⟩
  | update play audioDev =>
    refine ⟨_, .update thread play audioDev here, ?_⟩
    unfold advance
    simp only
    split
    · rfl
    · split <;> rfl
  | wait play =>
    unfold advance
    simp only
    split
    · refine ⟨_, .mciStop play.deviceId, ?_⟩
      split <;> rfl
    · exact ⟨_, .idles, rfl⟩
  | notify play => exact ⟨_, .notify thread answer play rfl here, rfl⟩
  | arm play audioDev => exact ⟨_, .arm thread answer play audioDev rfl here, rfl⟩

theorem exec_core (h : s.exec event = some next) :
    ∃ core, Core s event core ∧
      next = { core with calls := next.calls, replies := next.replies } := by
  cases event with
  | mciOpen thread loaded =>
    obtain ⟨-, h⟩ := Option.ite_none_right_eq_some.mp h
    cases h
    exact ⟨_, .mciOpenInternal thread loaded rfl, rfl⟩
  | mciClose thread deviceId =>
    obtain ⟨-, h⟩ := Option.ite_none_right_eq_some.mp h
    cases h
    exact ⟨_, .mciClose thread deviceId rfl, rfl⟩
  | mciStop thread deviceId =>
    obtain ⟨-, h⟩ := Option.ite_none_right_eq_some.mp h
    cases h
    exact ⟨_, .mciStop deviceId, rfl⟩
  | mciSeekTo thread deviceId posMs =>
    obtain ⟨-, h⟩ := Option.ite_none_right_eq_some.mp h
    obtain ⟨reply, sought, rfl⟩ := Option.map_eq_some_iff.mp h
    exact ⟨_, .mciSeekTo sought, rfl⟩
  | mciSet thread deviceId level =>
    obtain ⟨-, h⟩ := Option.ite_none_right_eq_some.mp h
    cases h
    exact ⟨_, .mciSet deviceId level, rfl⟩
  | mciPlay thread deviceId param1 hwndCallback =>
    obtain ⟨-, h⟩ := Option.ite_none_right_eq_some.mp h
    cases h
    refine ⟨_, .numbers thread deviceId param1 hwndCallback rfl, ?_⟩
    unfold startPlay
    simp only
    split
    · rfl
    · split <;> rfl
  | advance thread answer =>
    obtain ⟨call, here, h⟩ := Option.map_eq_some_iff.mp h
    exact advance_core here h
  | watch number answer =>
    obtain ⟨watcher, here, h⟩ := Option.map_eq_some_iff.mp h
    refine ⟨_, .watch number watcher answer rfl here, ?_⟩
    rw [h]

/-- The device goes on as before, falls silent, or plays what a call has opened. -/
inductive Turn (s : MciState) (dev edited : WaveDevice) : Prop where
  | same (mode : edited.mode = dev.mode) (audioDev : edited.audioDev = dev.audioDev)
  | silent (mode : edited.mode = .stopped) (audioDev : edited.audioDev = 0)
  | playing (mode : edited.mode = .playing) (thread : Nat) (play : Play)
      (call : s.calls thread = some (.update play edited.audioDev))

/-- What an event does to the table of devices and to the buffers. -/
inductive DeviceChange (s : MciState) (event : Event) (next : MciState) : Prop where
  | keeps (devices : next.devices = s.devices) (buffers : next.buffers = s.buffers)
      (nextBuffer : next.nextBuffer = s.nextBuffer)
  | adds (thread : Nat) (loaded : Option (UInt32 × WavFormat))
      (asked : event = .mciOpen thread loaded)
      (devices : next.devices = s.devices.insert s.nextDeviceId (s.newDevice loaded))
      (buffers : next.buffers = (s.mciOpenInternal loaded).buffers)
      (nextBuffer : next.nextBuffer = (s.loadWav loaded).nextBuffer)
  | removes (thread : Nat) (deviceId : UInt32) (asked : event = .mciClose thread deviceId)
      (dev : WaveDevice) (here : s.devices deviceId.toUInt16 = some dev)
      (devices : next.devices = s.devices.erase deviceId.toUInt16)
      (buffers : next.buffers = (s.freeWav dev.wavBuf).buffers)
      (nextBuffer : next.nextBuffer = s.nextBuffer)
  | edits (id : UInt16) (dev edited : WaveDevice) (here : s.devices id = some dev)
      (devices : next.devices = s.devices.insert id edited) (wavBuf : edited.wavBuf = dev.wavBuf)
      (turn : Turn s dev edited) (buffers : next.buffers = s.buffers)
      (nextBuffer : next.nextBuffer = s.nextBuffer)

theorem DeviceChange.of_eq (h : DeviceChange s event t) (devices : next.devices = t.devices)
    (buffers : next.buffers = t.buffers) (nextBuffer : next.nextBuffer = t.nextBuffer) :
    DeviceChange s event next := by
  cases h with
  | keeps hdevices hbuffers hnext =>
    exact .keeps (devices.trans hdevices) (buffers.trans hbuffers) (nextBuffer.trans hnext)
  | adds thread loaded asked hdevices hbuffers hnext =>
    exact .adds thread loaded asked (devices.trans hdevices) (buffers.trans hbuffers)
      (nextBuffer.trans hnext)
  | removes thread deviceId asked dev here hdevices hbuffers hnext =>
    exact .removes thread deviceId asked dev here (devices.trans hdevices) (buffers.trans hbuffers)
      (nextBuffer.trans hnext)
  | edits id dev edited here hdevices wavBuf turn hbuffers hnext =>
    exact .edits id dev edited here (devices.trans hdevices) wavBuf turn
      (buffers.trans hbuffers) (nextBuffer.trans hnext)

theorem change_mciOpenInternal (loaded : Option (UInt32 × WavFormat)) :
    DeviceChange s (.mciOpen thread loaded) (s.mciOpenInternal loaded) := by
  refine .adds thread loaded rfl ?_ rfl ?_ <;>
  · unfold mciOpenInternal
    simp only
    split <;> rfl

theorem change_mciClose (deviceId : UInt32) :
    DeviceChange s (.mciClose thread deviceId) (s.mciClose deviceId).2 := by
  unfold mciClose
  split
  · rename_i dev here
    exact .removes thread deviceId rfl dev here rfl rfl rfl
  · exact .keeps rfl rfl rfl

theorem change_mciStop (deviceId : UInt32) : DeviceChange s event (s.mciStop deviceId).2 := by
  unfold mciStop
  split
  · rename_i dev here
    exact .edits _ dev _ here rfl rfl (.silent rfl rfl) rfl rfl
  · exact .keeps rfl rfl rfl

theorem change_mciSet (deviceId level : UInt32) :
    DeviceChange s event (s.mciSet deviceId level).2 := by
  unfold mciSet
  split
  · rename_i dev here
    exact .edits _ dev _ here rfl rfl (.same rfl rfl) rfl rfl
  · exact .keeps rfl rfl rfl

theorem change_mciSeekTo {deviceId posMs : UInt32} {reply : Nat × MciState}
    (h : s.mciSeekTo deviceId posMs = some reply) : DeviceChange s event reply.2 := by
  unfold mciSeekTo at h
  split at h
  · rename_i dev here
    obtain ⟨byteOffset, -, rfl⟩ := Option.map_eq_some_iff.mp h
    exact .edits _ dev _ here rfl rfl (.same rfl rfl) rfl rfl
  · cases h
    exact .keeps rfl rfl rfl

theorem change_supersede (id : UInt16) : DeviceChange s event (s.supersede id) := by
  unfold supersede
  split
  · rename_i dev here
    exact .edits _ dev _ here rfl rfl (.same rfl rfl) rfl rfl
  · exact .keeps rfl rfl rfl

theorem change_update {play : Play} {audioDev : Nat}
    (here : s.calls thread = some (.update play audioDev)) :
    DeviceChange s event (s.update play audioDev) := by
  unfold update
  split
  · rename_i dev known
    exact .edits _ dev _ known rfl rfl (.playing rfl thread play here) rfl rfl
  · exact .keeps rfl rfl rfl

theorem change_arm (play : Play) (audioDev : Nat) : DeviceChange s event (s.arm play audioDev) := by
  unfold arm
  split
  · rename_i dev here
    exact .edits _ dev _ here rfl rfl (.same rfl rfl) rfl rfl
  · exact .keeps rfl rfl rfl

theorem change_cleanUp (id : UInt16) : DeviceChange s event (s.cleanUp id) := by
  unfold cleanUp
  split
  · rename_i dev here
    exact .edits _ dev _ here rfl rfl (.silent rfl rfl) rfl rfl
  · exact .keeps rfl rfl rfl

theorem change_watch {answer : Bool} (watcher : Watcher) :
    DeviceChange s event (s.watch watcher answer) := by
  unfold watch
  split
  · split
    · exact .keeps rfl rfl rfl
    · split <;> exact .keeps rfl rfl rfl
  · exact .keeps rfl rfl rfl
  · split <;> exact .keeps rfl rfl rfl
  · exact (change_cleanUp watcher.play.key).of_eq rfl rfl rfl
  · exact .keeps rfl rfl rfl
  · exact .keeps rfl rfl rfl

theorem change_exec (h : s.exec event = some next) : DeviceChange s event next := by
  obtain ⟨core, made, same⟩ := exec_core h
  rw [same]
  have change : DeviceChange s event core := by
    cases made with
    | mciOpenInternal thread loaded asked => exact asked ▸ change_mciOpenInternal loaded
    | mciClose thread deviceId asked => exact asked ▸ change_mciClose deviceId
    | mciStop deviceId => exact change_mciStop deviceId
    | mciSeekTo sought => exact change_mciSeekTo sought
    | mciSet deviceId level => exact change_mciSet deviceId level
    | supersede thread play clip here => exact change_supersede play.key
    | update thread play audioDev here => exact change_update here
    | arm thread answer play audioDev asked here => exact change_arm play audioDev
    | watch number watcher answer asked here => exact change_watch watcher
    | _ => exact .keeps rfl rfl rfl
  exact change.of_eq rfl rfl rfl

section Wavs

theorem wavs_same (wavs : t.deviceWav = s.deviceWav) (buffers : t.buffers = s.buffers)
    (nextBuffer : t.nextBuffer = s.nextBuffer) : t.wavs = s.wavs := by
  rw [MciState.wavs, wavs, buffers, nextBuffer, MciState.wavs]

theorem deviceWav_of_device (here : s.devices id = some dev) :
    s.deviceWav id = handle dev.wavBuf := by
  rw [deviceWav, Table.filterMap, here, Option.bind_some, WaveDevice.heldWav]

theorem buffers_release (here : s.devices id = some dev) :
    (s.freeWav dev.wavBuf).buffers = (s.wavs.release id).opened := by
  have held : s.wavs.held id = handle dev.wavBuf := deviceWav_of_device here
  rw [Leases.release, held]
  simp only [freeWav, handle]
  split <;> rfl

theorem wavs_release (here : s.devices id = some dev)
    (devices : t.deviceWav = s.deviceWav.erase id)
    (buffers : t.buffers = (s.freeWav dev.wavBuf).buffers)
    (nextBuffer : t.nextBuffer = s.nextBuffer) :
    t.wavs = s.wavs.release id :=
  Leases.ext devices (buffers.trans (buffers_release here)) nextBuffer

/-- A file that is loaded lies in a buffer of its own, and the buffer that the device's number
stood for is freed. -/
theorem wavs_mciOpenInternal (sound : s.wavs.Sound) (loaded : Option (UInt32 × WavFormat))
    (devices : next.devices = s.devices.insert s.nextDeviceId (s.newDevice loaded))
    (buffers : next.buffers = (s.mciOpenInternal loaded).buffers)
    (nextBuffer : next.nextBuffer = (s.loadWav loaded).nextBuffer) :
    next.wavs = if loaded.isSome then (s.wavs.release s.nextDeviceId).acquire s.nextDeviceId
      else s.wavs.release s.nextDeviceId := by
  have freed : next.buffers =
      if loaded.isSome then insert s.nextBuffer (s.wavs.release s.nextDeviceId).opened
      else (s.wavs.release s.nextDeviceId).opened := by
    rw [buffers, mciOpenInternal]
    cases here : s.devices s.nextDeviceId with
    | none =>
      have empty : s.wavs.held s.nextDeviceId = none := by
        change (s.devices _).bind _ = none
        rw [here, Option.bind_none]
      rw [Leases.release_of_none empty]
      rfl
    | some old =>
      have known := buffers_release here
      rw [← known]
      simp only [drop, freeWav, closeAudio, cancel, put, loadWav]
      split
      · rfl
      · rename_i nonzero
        split
        · refine Finset.erase_insert_of_ne fun same => ?_
          have old := sound.opened s.nextDeviceId old.wavBuf
            ((deviceWav_of_device here).trans (handle_of_ne nonzero))
          exact absurd (sound.older _ old) (same ▸ Nat.lt_irrefl _)
        · rfl
  cases loaded with
  | none =>
    refine Leases.ext ?_ freed nextBuffer
    change next.devices.filterMap _ = _
    rw [devices, Table.filterMap_insert_none rfl]
    rfl
  | some file =>
    refine Leases.ext ?_ freed nextBuffer
    have view : (s.newDevice (some file)).heldWav = some s.nextBuffer :=
      handle_of_ne (Nat.ne_of_gt sound.started)
    change next.devices.filterMap _ = _
    rw [devices, Table.filterMap_insert_some view]
    change _ = (s.deviceWav.erase s.nextDeviceId).insert s.nextDeviceId s.nextBuffer
    rw [Table.erase_insert]
    rfl

/-- No buffer is lost. -/
theorem wavs_exec (sound : s.wavs.Sound) (tight : s.wavs.Tight)
    (change : DeviceChange s event next) :
    next.wavs.Sound ∧ next.wavs.Tight := by
  cases change with
  | keeps devices buffers nextBuffer =>
    rw [wavs_same (by rw [deviceWav, devices, deviceWav]) buffers nextBuffer]
    exact ⟨sound, tight⟩
  | adds thread loaded asked devices buffers nextBuffer =>
    rw [wavs_mciOpenInternal sound loaded devices buffers nextBuffer]
    split
    · exact ⟨(sound.release _).acquire _, (tight.release _).acquire (Table.erase_self _ _)⟩
    · exact ⟨sound.release _, tight.release _⟩
  | removes thread deviceId asked dev here devices buffers nextBuffer =>
    have erased : next.deviceWav = s.deviceWav.erase deviceId.toUInt16 := by
      rw [deviceWav, devices, Table.filterMap_erase, deviceWav]
    rw [wavs_release here erased buffers nextBuffer]
    exact ⟨sound.release _, tight.release _⟩
  | edits id dev edited here devices wavBuf turn buffers nextBuffer =>
    have same : edited.heldWav = s.deviceWav id := by
      rw [WaveDevice.heldWav, wavBuf, deviceWav_of_device here]
    have kept : next.deviceWav = s.deviceWav := by
      rw [deviceWav, devices, Table.filterMap_insert_same same, deviceWav]
    rw [wavs_same kept buffers nextBuffer]
    exact ⟨sound, tight⟩

end Wavs

end Owners

end MciState
end Warpine.Mci
