import Warpine.Mci.Ownership

/-! The wave devices over any run of calls and watchers: what is opened is owned, what is closed
was open, and when a play has its samples taken away. -/
namespace Warpine.Mci
open Warpine.Lib Warpine.Loader

/-- What is left of the play is to tell a window of its end. -/
def Call.announces : Call → Prop
  | .notify _ | .arm _ _ => True
  | _ => False

namespace MciState

variable {s t next : MciState} {id : UInt16} {dev : WaveDevice} {thread : Nat} {call : Call}
  {event : Event} {events : List Event}

section Faults

/-- Samples that a call goes on to read are no longer there. -/
def Stray (s : MciState) (fault : Fault) : Prop :=
  ∃ thread call clip, s.calls thread = some call ∧ call.clip = some clip ∧
    clip.wavBuf ∉ s.buffers ∧ fault = .readFreed clip.wavBuf

theorem audioDev_known (sound : s.audio.Sound) (here : s.devices id = some dev) :
    dev.audioDev = 0 ∨ dev.audioDev ∈ s.opened := by
  by_cases zero : dev.audioDev = 0
  · exact .inl zero
  · exact .inr (sound.opened (.device id) _
      ((deviceAudio_of_device here).trans (handle_of_ne zero)))

theorem wavBuf_known (sound : s.wavs.Sound) (here : s.devices id = some dev) :
    dev.wavBuf = 0 ∨ dev.wavBuf ∈ s.buffers := by
  by_cases zero : dev.wavBuf = 0
  · exact .inl zero
  · exact .inr (sound.opened id _ ((deviceWav_of_device here).trans (handle_of_ne zero)))

theorem faults_closeAudio {audioDev : Nat} (known : audioDev = 0 ∨ audioDev ∈ s.opened) :
    (s.closeAudio audioDev).faults = s.faults :=
  if_pos known

theorem faults_drop (audio : dev.audioDev = 0 ∨ dev.audioDev ∈ s.opened)
    (wav : dev.wavBuf = 0 ∨ dev.wavBuf ∈ s.buffers) : (s.drop dev).faults = s.faults :=
  (if_pos wav).trans (faults_closeAudio (s := s.cancel dev.notifyCancel) audio)

theorem faults_silence (id : UInt16) (known : dev.audioDev = 0 ∨ dev.audioDev ∈ s.opened) :
    (s.silence id dev).faults = s.faults :=
  faults_closeAudio known

theorem faults_mciOpenInternal (audio : s.audio.Sound) (wavs : s.wavs.Sound)
    (loaded : Option (UInt32 × WavFormat)) : (s.mciOpenInternal loaded).faults = s.faults := by
  unfold mciOpenInternal
  simp only
  split
  · rename_i old here
    have audioKnown := audioDev_known audio here
    refine faults_drop ?_ ?_
    · exact audioKnown
    · refine (wavBuf_known wavs here).imp_right fun known => ?_
      change _ ∈ (s.loadWav loaded).buffers
      unfold loadWav
      simp only
      split
      · exact Finset.mem_insert_of_mem known
      · exact known
  · rfl

theorem faults_mciStop (audio : s.audio.Sound) (deviceId : UInt32) :
    (s.mciStop deviceId).2.faults = s.faults := by
  unfold mciStop
  split
  · rename_i dev here
    exact faults_silence (s := s.cancel dev.notifyCancel) _ (audioDev_known audio here)
  · rfl

theorem faults_watch {answer : Bool} (audio : s.audio.Sound) (watcher : Watcher) :
    (s.watch watcher answer).faults = s.faults := by
  unfold watch
  split
  · split
    · rfl
    · split <;> rfl
  · rfl
  · split <;> rfl
  · unfold cleanUp
    split
    · rename_i dev here
      exact faults_silence watcher.play.key (audioDev_known audio here)
    · rfl
  · rfl
  · rfl

theorem faults_core {core : MciState} (audio : s.audio.Sound) (wavs : s.wavs.Sound)
    (made : Core s event core) : core.faults = s.faults ∨
      ∃ fault, s.Stray fault ∧ core.faults = fault :: s.faults := by
  cases made with
  | mciOpenInternal thread loaded => exact .inl (faults_mciOpenInternal audio wavs loaded)
  | mciClose thread deviceId =>
    unfold mciClose
    split
    · rename_i dev here
      have audioKnown := audioDev_known audio here
      have wavKnown := wavBuf_known wavs here
      exact .inl (faults_drop audioKnown wavKnown)
    · exact .inl rfl
  | mciStop deviceId => exact .inl (faults_mciStop audio deviceId)
  | mciSeekTo sought =>
    unfold mciSeekTo at sought
    split at sought
    · obtain ⟨byteOffset, -, rfl⟩ := Option.map_eq_some_iff.mp sought
      exact .inl rfl
    · cases sought
      exact .inl rfl
  | mciSet deviceId level =>
    unfold mciSet
    split <;> exact .inl rfl
  | supersede thread play clip here =>
    unfold supersede
    split <;> exact .inl rfl
  | readWav thread call clip here part =>
    by_cases live : clip.wavBuf ∈ s.buffers
    · exact .inl (if_pos live)
    · exact .inr ⟨_, ⟨thread, call, clip, here, part, live, rfl⟩, if_neg live⟩
  | update thread play audioDev here =>
    unfold update
    split
    · rename_i dev known
      exact .inl (faults_closeAudio (audioDev_known audio known))
    · exact .inl rfl
  | arm thread answer play audioDev asked here =>
    unfold arm
    split <;> exact .inl rfl
  | watch number watcher answer asked here => exact .inl (faults_watch audio watcher)
  | _ => exact .inl rfl

end Faults

/-- What every event keeps. -/
structure Intact (s : MciState) : Prop where
  audio : s.audio.Sound
  wavs : s.wavs.Sound
  tight : s.wavs.Tight
  modes : ∀ id dev, s.devices id = some dev → (dev.mode = .playing ↔ dev.audioDev ≠ 0)
  faults : ∀ fault ∈ s.faults, ∃ wavBuf, fault = .readFreed wavBuf

theorem intact_initial : initial.Intact where
  audio := by
    refine ⟨?_, ?_, by simp [audio, initial], by simp [audio, initial], Nat.one_pos⟩
    · intro first second one two hone
      cases first <;> cases hone
    · intro place thing h
      cases place <;> cases h
  wavs := by
    refine ⟨?_, ?_, by simp [wavs, initial], by simp [wavs, initial], Nat.one_pos⟩
    · intro first second one two hone
      cases hone
    · intro place thing h
      cases h
  tight := by
    intro thing member
    simp [wavs, initial] at member
  modes := by
    intro id dev h
    cases h
  faults := by simp [initial]

theorem audio_sound (sound : s.audio.Sound) (h : AudioEffect s next) : next.audio.Sound := by
  cases h with
  | keeps same => exact same ▸ sound
  | closes id closed => exact closed ▸ sound.release _
  | opens thread free opened => exact opened ▸ sound.acquire _
  | plays thread id played => exact played ▸ (sound.release _).move _ _
  | loses thread play audioDev call gone lost => exact lost ▸ sound.forget _

theorem modes_change (audio : s.audio.Sound)
    (modes : ∀ id dev, s.devices id = some dev → (dev.mode = .playing ↔ dev.audioDev ≠ 0))
    (change : DeviceChange s event next) (here : next.devices id = some dev) :
    dev.mode = .playing ↔ dev.audioDev ≠ 0 := by
  cases change with
  | keeps devices => exact modes id dev (devices ▸ here)
  | adds thread loaded asked devices =>
    rw [devices] at here
    rcases Table.insert_eq_some.mp here with ⟨-, rfl⟩ | ⟨-, old⟩
    · simp [newDevice]
    · exact modes id dev old
  | removes thread deviceId asked gone known devices =>
    rw [devices] at here
    exact modes id dev (Table.erase_eq_some.mp here).2
  | edits edit old edited known devices wavBuf turn =>
    rw [devices] at here
    rcases Table.insert_eq_some.mp here with ⟨rfl, rfl⟩ | ⟨-, kept⟩
    · cases turn with
      | same mode audioDev =>
        rw [mode, audioDev]
        exact modes id old known
      | silent mode audioDev => simp [mode, audioDev]
      | playing mode thread play call =>
        have nonzero : dev.audioDev ≠ 0 := fun zero =>
          audio.nonzero (zero ▸ audio.opened (.call thread) _ (callAudio_of_call call))
        simp [mode, nonzero]
    · exact modes id dev kept

theorem Intact.exec (intact : s.Intact) (h : s.exec event = some next) : next.Intact where
  audio := audio_sound intact.audio (audio_exec intact.audio h)
  wavs := (wavs_exec intact.wavs intact.tight (change_exec h)).1
  tight := (wavs_exec intact.wavs intact.tight (change_exec h)).2
  modes _ _ := modes_change intact.audio intact.modes (change_exec h)
  faults := by
    obtain ⟨core, made, same⟩ := exec_core h
    rw [same]
    intro fault member
    rcases faults_core intact.audio intact.wavs made with
      kept | ⟨stray, ⟨_, _, _, _, _, _, rfl⟩, more⟩
    · exact intact.faults fault (kept ▸ member)
    · rcases List.mem_cons.mp (more ▸ member) with rfl | old
      · exact ⟨_, rfl⟩
      · exact intact.faults fault old

theorem intact_of_run (run : Run step initial events s) : s.Intact :=
  run.invariant Intact (fun _ _ _ intact h => intact.exec h) intact_initial

/-- A device plays exactly while it has an audio device, which is open and its own, as its buffer
is. No buffer is lost, and nothing is closed or freed that is not there. -/
structure WellKept (s : MciState) : Prop where
  playing : ∀ id dev, s.devices id = some dev → (dev.mode = .playing ↔ dev.audioDev ≠ 0)
  open_audio : ∀ id dev, s.devices id = some dev → dev.audioDev ≠ 0 →
    dev.audioDev ∈ s.opened
  live_wav : ∀ id dev, s.devices id = some dev → dev.wavBuf ≠ 0 → dev.wavBuf ∈ s.buffers
  kept_wav : ∀ wavBuf ∈ s.buffers, ∃ id dev, s.devices id = some dev ∧ dev.wavBuf = wavBuf
  own : ∀ id other dev another, s.devices id = some dev → s.devices other = some another →
    id ≠ other → (dev.audioDev ≠ 0 → dev.audioDev ≠ another.audioDev) ∧
      (dev.wavBuf ≠ 0 → dev.wavBuf ≠ another.wavBuf)
  closed : ∀ audioDev, .closed audioDev ∉ s.faults
  freed : ∀ wavBuf, .freed wavBuf ∉ s.faults

theorem Intact.wellKept (intact : s.Intact) : s.WellKept where
  playing := intact.modes
  open_audio id dev here nonzero := (audioDev_known intact.audio here).resolve_left nonzero
  live_wav id dev here nonzero := (wavBuf_known intact.wavs here).resolve_left nonzero
  kept_wav wavBuf member := by
    obtain ⟨id, held⟩ := intact.tight wavBuf member
    obtain ⟨dev, here, view⟩ := Table.filterMap_eq_some.mp held
    exact ⟨id, dev, here, (handle_eq_some.mp view).2⟩
  own := by
    intro id other dev another here there differ
    refine ⟨fun nonzero same => ?_, fun nonzero same => differ ?_⟩
    · have left := (deviceAudio_of_device here).trans (handle_of_ne nonzero)
      have right := (deviceAudio_of_device there).trans (handle_of_ne (same ▸ nonzero))
      exact differ (Place.device.inj (intact.audio.once (.device id) (.device other) _ _ left right
        same))
    · have left := (deviceWav_of_device here).trans (handle_of_ne nonzero)
      have right := (deviceWav_of_device there).trans (handle_of_ne (same ▸ nonzero))
      exact intact.wavs.once id other _ _ left right same
  closed := by
    intro audioDev member
    obtain ⟨wavBuf, same⟩ := intact.faults _ member
    cases same
  freed := by
    intro wavBuf member
    obtain ⟨other, same⟩ := intact.faults _ member
    cases same

/-- Over any interleaving. -/
theorem wellKept_of_run (run : Run step initial events s) : s.WellKept :=
  (intact_of_run run).wellKept

/-- A device is closed under a play, which goes on to read its samples. -/
theorem wellKept_of_run_closed :
    let events : List Event := [.mciOpen 1 (some (8, ⟨8000, by decide, 8, 1⟩)), .mciPlay 1 1 1 9,
      .advance 1 true, .advance 1 true, .mciClose 2 1, .advance 1 true, .advance 1 true]
    (events.foldlM exec initial).map (fun s => s.faults) = some [.readFreed 1] ∧
      ∀ s, events.foldlM exec initial = some s → s.WellKept :=
  ⟨by decide, fun _ h => wellKept_of_run (Run.of_foldlM (fun _ _ _ h => h) h)⟩

section Undisturbed

/-- No device is closed, nor its number given to another one, while a call for it goes on. -/
def Undisturbed (s : MciState) : Event → Prop
  | .mciClose _ deviceId =>
      ∀ thread call, s.calls thread = some call → call.play.key ≠ deviceId.toUInt16
  | .mciOpen _ _ => ∀ thread call, s.calls thread = some call → call.play.key ≠ s.nextDeviceId
  | _ => True

/-- One part of a call comes after the other, for the same play and with no other samples. -/
structure Follows (call later : Call) : Prop where
  play : later.play = call.play
  clip : ∀ clip, later.clip = some clip → call.clip = some clip
  announces : later.announces → call.announces ∨ later.play.notifies

theorem Follows.refl (call : Call) : Follows call call := ⟨rfl, fun _ part => part, .inl⟩

theorem Follows.silent {later : Call} (play : later.play = call.play)
    (clip : ∀ clip, later.clip = some clip → call.clip = some clip)
    (silent : ¬later.announces) : Follows call later :=
  ⟨play, clip, fun announces => absurd announces silent⟩

theorem Follows.announcing {later : Call} (play : later.play = call.play)
    (clip : later.clip = none) (notifies : later.play.notifies) : Follows call later where
  play := play
  clip _ part := by
    rw [clip] at part
    cases part
  announces _ := .inr notifies

theorem calls_advance {answer : Bool} {later : Call} (here : s.calls thread = some call)
    {other : Nat} (found : (s.advance thread answer call).calls other = some later) :
    ∃ earlier, s.calls other = some earlier ∧ Follows earlier later := by
  have erased : (s.calls.erase thread) other = some later →
      ∃ earlier, s.calls other = some earlier ∧ Follows earlier later := fun kept =>
    ⟨later, (Table.erase_eq_some.mp kept).2, .refl later⟩
  have follows : ∀ successor, Follows call successor →
      (s.calls.insert thread successor) other = some later →
        ∃ earlier, s.calls other = some earlier ∧ Follows earlier later := by
    intro successor after kept
    rcases Table.insert_eq_some.mp kept with ⟨rfl, rfl⟩ | ⟨-, old⟩
    · exact ⟨call, here, after⟩
    · exact ⟨later, old, .refl later⟩
  cases call with
  | supersede play clip =>
    refine follows (.applyVolume play clip) (.silent rfl (fun _ part => part) id) ?_
    rw [← (frame_supersede (s := s) play.key).calls]
    exact found
  | applyVolume play clip =>
    have reads : ∀ t : MciState, t.calls = s.calls →
        (if clip.playLen = 0 then t.returns thread mcierrSuccess
          else t.goes thread (.openAudio play clip)).calls other = some later →
          ∃ earlier, s.calls other = some earlier ∧ Follows earlier later := by
      intro t same found
      split at found
      · exact erased (same ▸ found)
      · exact follows (.openAudio play clip) (.silent rfl (fun _ part => part) id) (same ▸ found)
    unfold advance at found
    simp only at found
    refine reads _ ?_ found
    split <;> rfl
  | openAudio play clip =>
    cases answer with
    | false => exact erased found
    | true =>
      exact follows (.queueAudio play clip s.nextAudio) (.silent rfl (fun _ part => part) id) found
  | queueAudio play clip audioDev =>
    unfold advance at found
    simp only at found
    refine follows (.update play audioDev) (.silent rfl (fun _ part => by cases part) id) ?_
    split at found <;> exact found
  | update play audioDev =>
    have same : (s.update play audioDev).calls = s.calls := by
      unfold update
      split <;> rfl
    unfold advance at found
    simp only at found
    split at found
    · exact follows (.wait play) (.silent rfl (fun _ part => by cases part) id) (same ▸ found)
    · split at found
      · exact follows (.arm play audioDev) (.announcing rfl rfl ‹_›)
          (same ▸ found)
      · exact erased (same ▸ found)
  | wait play =>
    unfold advance at found
    simp only at found
    split at found
    · split at found
      · refine follows (.notify play) (.announcing rfl rfl ‹_›) ?_
        rw [← (frame_mciStop (s := s) play.deviceId).calls]
        exact found
      · refine erased ?_
        rw [← (frame_mciStop (s := s) play.deviceId).calls]
        exact found
    · exact ⟨later, found, .refl later⟩
  | notify play => exact erased found
  | arm play audioDev =>
    refine erased ?_
    rw [← calls_arm (s := s) play audioDev]
    exact found

theorem calls_watch {answer : Bool} (watcher : Watcher) :
    (s.watch watcher answer).calls = s.calls := by
  unfold watch
  split
  · split
    · rfl
    · split <;> rfl
  · rfl
  · split <;> rfl
  · exact (frame_cleanUp watcher.play.key).calls
  · rfl
  · rfl

/-- A call is new, and has just read what its device holds, or it goes on. -/
theorem calls_exec {later : Call} (h : s.exec event = some next)
    (found : next.calls thread = some later) :
    (∃ earlier, s.calls thread = some earlier ∧ Follows earlier later) ∨
      (∃ deviceId param1 hwndCallback, event = .mciPlay thread deviceId param1 hwndCallback) ∧
        ∃ dev, s.devices later.play.key = some dev ∧ dev.wavBuf ≠ 0 ∧
          later = .supersede later.play dev.clip ∧ later.play.number = s.nextPlay := by
  have returned : ∀ (t : MciState) (other code : Nat), t.calls = s.calls →
      (t.returns other code).calls thread = some later →
        ∃ earlier, s.calls thread = some earlier ∧ Follows earlier later := by
    intro t other code same found
    have kept : (t.calls.erase other) thread = some later := found
    rw [same] at kept
    exact ⟨later, (Table.erase_eq_some.mp kept).2, .refl later⟩
  cases event with
  | mciOpen other loaded =>
    obtain ⟨-, h⟩ := Option.ite_none_right_eq_some.mp h
    cases h
    exact .inl (returned _ _ _ (frame_mciOpenInternal loaded).calls found)
  | mciClose other deviceId =>
    obtain ⟨-, h⟩ := Option.ite_none_right_eq_some.mp h
    cases h
    exact .inl (returned _ _ _ (frame_mciClose deviceId).calls found)
  | mciStop other deviceId =>
    obtain ⟨-, h⟩ := Option.ite_none_right_eq_some.mp h
    cases h
    exact .inl (returned _ _ _ (frame_mciStop deviceId).calls found)
  | mciSeekTo other deviceId posMs =>
    obtain ⟨-, h⟩ := Option.ite_none_right_eq_some.mp h
    obtain ⟨reply, sought, rfl⟩ := Option.map_eq_some_iff.mp h
    exact .inl (returned _ _ _ (frame_mciSeekTo sought).calls found)
  | mciSet other deviceId level =>
    obtain ⟨-, h⟩ := Option.ite_none_right_eq_some.mp h
    cases h
    exact .inl (returned _ _ _ (frame_mciSet deviceId level).calls found)
  | mciPlay other deviceId param1 hwndCallback =>
    obtain ⟨-, h⟩ := Option.ite_none_right_eq_some.mp h
    cases h
    unfold startPlay at found
    simp only at found
    split at found
    · exact .inl (returned { s with nextPlay := s.nextPlay + 1 } _ _ rfl found)
    · rename_i dev here
      split at found
      · exact .inl (returned { s with nextPlay := s.nextPlay + 1 } _ _ rfl found)
      · rename_i nonzero
        rcases Table.insert_eq_some.mp found with ⟨rfl, rfl⟩ | ⟨-, old⟩
        · exact .inr ⟨⟨deviceId, param1, hwndCallback, rfl⟩, dev, here, nonzero, rfl, rfl⟩
        · exact .inl ⟨later, old, .refl later⟩
  | advance other answer =>
    obtain ⟨call, here, rfl⟩ := Option.map_eq_some_iff.mp h
    exact .inl (calls_advance here found)
  | watch number answer =>
    obtain ⟨watcher, -, rfl⟩ := Option.map_eq_some_iff.mp h
    rw [calls_watch] at found
    exact .inl ⟨later, found, .refl later⟩

/-- A device that is neither closed nor replaced keeps its samples. -/
theorem wavBuf_kept (change : DeviceChange s event next) (here : s.devices id = some dev)
    (opens : ∀ thread loaded, event = .mciOpen thread loaded → id ≠ s.nextDeviceId)
    (close : ∀ thread deviceId, event = .mciClose thread deviceId → id ≠ deviceId.toUInt16) :
    ∃ kept, next.devices id = some kept ∧ kept.wavBuf = dev.wavBuf := by
  cases change with
  | keeps devices => exact ⟨dev, devices ▸ here, rfl⟩
  | adds thread loaded asked devices =>
    refine ⟨dev, ?_, rfl⟩
    rw [devices, Table.insert_ne _ _ (opens thread loaded asked), here]
  | removes thread deviceId asked gone known devices =>
    refine ⟨dev, ?_, rfl⟩
    rw [devices, Table.erase_ne _ (close thread deviceId asked), here]
  | edits edit old edited known devices wavBuf =>
    by_cases same : id = edit
    · subst same
      rw [here] at known
      cases known
      exact ⟨edited, by rw [devices, Table.insert_self], wavBuf⟩
    · refine ⟨dev, ?_, rfl⟩
      rw [devices, Table.insert_ne _ _ same, here]

/-- Every call has its device, with the samples that it goes on to read. -/
def Attached (s : MciState) : Prop :=
  ∀ thread call, s.calls thread = some call → ∃ dev, s.devices call.play.key = some dev ∧
    ∀ clip, call.clip = some clip → dev.wavBuf = clip.wavBuf ∧ dev.wavBuf ≠ 0

theorem Attached.exec (attached : s.Attached) (calm : s.Undisturbed event)
    (h : s.exec event = some next) : next.Attached := by
  intro thread later found
  rcases calls_exec h found with
    ⟨earlier, here, follows⟩ | ⟨⟨_, _, _, asked⟩, dev, known, nonzero, fresh, -⟩
  · obtain ⟨dev, known, reads⟩ := attached thread earlier here
    obtain ⟨kept, there, same⟩ := wavBuf_kept (change_exec h) known
      (fun other loaded asked => by subst asked; exact calm thread earlier here)
      (fun other deviceId asked => by subst asked; exact calm thread earlier here)
    refine ⟨kept, follows.play ▸ there, fun clip part => ?_⟩
    rw [same]
    exact reads clip (follows.clip clip part)
  · obtain ⟨kept, there, same⟩ := wavBuf_kept (change_exec h) known
      (fun other loaded opened => by rw [asked] at opened; cases opened)
      (fun other deviceId closed => by rw [asked] at closed; cases closed)
    refine ⟨kept, there, fun clip again => ?_⟩
    rw [fresh] at again
    cases again
    exact ⟨same, same ▸ nonzero⟩

theorem audio_tight (attached : s.Attached) (tight : s.audio.Tight) (h : AudioEffect s next) :
    next.audio.Tight := by
  cases h with
  | keeps same => exact same ▸ tight
  | closes id closed => exact closed ▸ tight.release _
  | opens thread free opened => exact opened ▸ tight.acquire free
  | plays thread id played => exact played ▸ (tight.release _).move _ (Table.erase_self _ _)
  | loses thread play audioDev call gone lost =>
    obtain ⟨dev, known, -⟩ := attached thread _ call
    change s.devices play.key = some dev at known
    rw [gone] at known
    cases known

/-- What every event keeps, where no call is disturbed. -/
structure Calm (s : MciState) : Prop where
  intact : s.Intact
  attached : s.Attached
  tight : s.audio.Tight
  faults : s.faults = []

theorem Calm.exec (calm : s.Calm) (undisturbed : s.Undisturbed event)
    (h : s.exec event = some next) : next.Calm where
  intact := calm.intact.exec h
  attached := calm.attached.exec undisturbed h
  tight := audio_tight calm.attached calm.tight (audio_exec calm.intact.audio h)
  faults := by
    obtain ⟨core, made, same⟩ := exec_core h
    rw [same]
    rcases faults_core calm.intact.audio calm.intact.wavs made with kept | ⟨fault, stray, -⟩
    · exact kept.trans calm.faults
    · obtain ⟨thread, call, clip, here, part, dead, -⟩ := stray
      obtain ⟨dev, known, reads⟩ := calm.attached thread call here
      obtain ⟨wavBuf, nonzero⟩ := reads clip part
      exact absurd (wavBuf ▸ (wavBuf_known calm.intact.wavs known).resolve_left nonzero) dead

theorem calm_initial : initial.Calm where
  intact := intact_initial
  attached := fun thread call h => by cases h
  tight := fun thing member => by simp [audio, initial] at member
  faults := rfl

/-- Where no device is closed under a call that goes on, no samples are read that are gone, and
every audio device that is open belongs to a wave device or is on its way to one. -/
theorem owned_of_undisturbed_run (run : Run (step.guarded Undisturbed) initial events s) :
    s.faults = [] ∧ ∀ audioDev ∈ s.opened,
      (∃ id dev, s.devices id = some dev ∧ dev.audioDev = audioDev) ∨
        ∃ thread call, s.calls thread = some call ∧ call.audioDev = some audioDev := by
  have calm : s.Calm := run.invariant Calm
    (fun _ _ _ calm h => calm.exec h.1 h.2) calm_initial
  refine ⟨calm.faults, fun audioDev member => ?_⟩
  obtain ⟨place, held⟩ := calm.tight audioDev member
  cases place with
  | device id =>
    obtain ⟨dev, here, view⟩ := Table.filterMap_eq_some.mp held
    exact .inl ⟨id, dev, here, (handle_eq_some.mp view).2⟩
  | call thread =>
    obtain ⟨call, here, view⟩ := Table.filterMap_eq_some.mp held
    exact .inr ⟨thread, call, here, view⟩

/-- A clip is played, and the audio device is with the wave device by then. -/
theorem owned_of_undisturbed_run_played :
    ∃ s, Run (step.guarded Undisturbed) initial
        [.mciOpen 1 (some (8, ⟨8000, by decide, 8, 1⟩)), .mciPlay 1 1 0 0, .advance 1 true,
          .advance 1 true, .advance 1 true, .advance 1 true, .advance 1 true] s ∧
      s.opened = {1} ∧ s.faults = [] := by
  have run : ∃ s, Run (step.guarded Undisturbed) initial
      [.mciOpen 1 (some (8, ⟨8000, by decide, 8, 1⟩)), .mciPlay 1 1 0 0, .advance 1 true,
        .advance 1 true, .advance 1 true, .advance 1 true, .advance 1 true] s ∧ s.opened = {1} := by
    refine ⟨_, .cons ⟨?_, rfl⟩ (.cons ⟨trivial, rfl⟩ (.cons ⟨trivial, rfl⟩ (.cons ⟨trivial, rfl⟩
      (.cons ⟨trivial, rfl⟩ (.cons ⟨trivial, rfl⟩ (.cons ⟨trivial, rfl⟩ (.nil _))))))), ?_⟩
    · intro thread call h
      cases h
    · decide
  obtain ⟨s, run, opened⟩ := run
  exact ⟨s, run, opened, (owned_of_undisturbed_run run).1⟩

end Undisturbed

end MciState
end Warpine.Mci
