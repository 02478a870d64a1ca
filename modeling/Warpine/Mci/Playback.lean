import Mathlib.Data.Finset.Basic
import Warpine.Lib.Custody
import Warpine.Lib.Run
import Warpine.Loader.MciSeek

/-! Wave devices under any interleaving of guest threads and watchers. A call locks the table of
devices anew for each of its parts, and a watcher is the thread that waits for the end of a clip
that is played in the background. Audio devices and buffers of the host are numbered in the order
in which they come. -/
namespace Warpine.Mci
open Warpine.Lib Warpine.Loader

def mciNotify : UInt32 := 0x0001
def mciWait : UInt32 := 0x0002
def mciNotifySuccessful : UInt32 := 0x0001
def mciNotifySuperseded : UInt32 := 0x0002
def mcierrCannotLoadDriver : Nat := 262

/-- An audio device 0 is none, and a buffer 0 is the null pointer. -/
structure WaveDevice where
  mode : MciMode
  audioDev : Nat
  wavBuf : Nat
  wavLen : UInt32
  wav : WavFormat
  currentPosition : UInt32
  volume : Nat
  notifyHwnd : UInt32
  /-- The flag of the watcher, which is named after the play that made it. -/
  notifyCancel : Option Nat

structure Play where
  number : Nat
  deviceId : UInt32
  param1 : UInt32
  hwndCallback : UInt32
deriving DecidableEq

namespace Play

/-- `device_id as u16`. -/
def key (play : Play) : UInt16 := play.deviceId.toUInt16

def waits (play : Play) : Bool := play.param1 &&& mciWait != 0

def notifies (play : Play) : Bool := play.param1 &&& mciNotify != 0 && play.hwndCallback != 0

end Play

/-- What a play has read of its device. -/
structure Clip where
  wavBuf : Nat
  playLen : Nat
  volume : Nat
deriving DecidableEq

def WaveDevice.clip (dev : WaveDevice) : Clip where
  wavBuf := dev.wavBuf
  playLen := dev.wavLen.toNat - min dev.currentPosition.toNat dev.wavLen.toNat
  volume := dev.volume

/-- The part of a play that comes next. -/
inductive Call where
  | supersede (play : Play) (clip : Clip)
  | applyVolume (play : Play) (clip : Clip)
  | openAudio (play : Play) (clip : Clip)
  | queueAudio (play : Play) (clip : Clip) (audioDev : Nat)
  | update (play : Play) (audioDev : Nat)
  | wait (play : Play)
  | notify (play : Play)
  | arm (play : Play) (audioDev : Nat)
deriving DecidableEq

def Call.play : Call → Play
  | .supersede play _ | .applyVolume play _ | .openAudio play _ | .queueAudio play _ _
  | .update play _ | .wait play | .notify play | .arm play _ => play

inductive WatchPhase where
  | polling
  | superseded
  | drained
  | cleaning
  | successful
  | ended
deriving DecidableEq

structure Watcher where
  play : Play
  audioDev : Nat
  phase : WatchPhase
deriving DecidableEq

structure Notice where
  play : Nat
  hwnd : UInt32
  code : UInt32
  deviceId : UInt32
deriving DecidableEq

/-- What must not be asked of the host. -/
inductive Fault where
  | closed (audioDev : Nat)
  | freed (wavBuf : Nat)
  | readFreed (wavBuf : Nat)
deriving DecidableEq

structure MciState where
  devices : Table UInt16 WaveDevice
  nextDeviceId : UInt16
  /-- The audio devices that the host has open. -/
  opened : Finset Nat
  nextAudio : Nat
  buffers : Finset Nat
  nextBuffer : Nat
  faults : List Fault
  calls : Table Nat Call
  /-- The last return code of each thread. -/
  replies : Table Nat Nat
  watchers : Table Nat Watcher
  cancelled : Finset Nat
  nextPlay : Nat
  posted : List Notice

inductive Event where
  /-- What was loaded, if the guest named a file. -/
  | mciOpen (thread : Nat) (loaded : Option (UInt32 × WavFormat))
  | mciClose (thread : Nat) (deviceId : UInt32)
  | mciStop (thread : Nat) (deviceId : UInt32)
  | mciSeekTo (thread : Nat) (deviceId posMs : UInt32)
  | mciSet (thread : Nat) (deviceId level : UInt32)
  | mciPlay (thread : Nat) (deviceId param1 hwndCallback : UInt32)
  /-- The answer is that of the host, where the part asks it: that the audio device could be
  opened, or that its queue is empty or the time is over. -/
  | advance (thread : Nat) (answer : Bool)
  | watch (number : Nat) (answer : Bool)

namespace MciState

def initial : MciState where
  devices := .empty
  nextDeviceId := 1
  opened := ∅
  nextAudio := 1
  buffers := ∅
  nextBuffer := 1
  faults := []
  calls := .empty
  replies := .empty
  watchers := .empty
  cancelled := ∅
  nextPlay := 0
  posted := []

variable (s : MciState)

/-- `SDL_CloseAudioDevice`, for a device that is one. -/
def closeAudio (audioDev : Nat) : MciState :=
  { s with
    opened := if audioDev = 0 then s.opened else s.opened.erase audioDev
    faults :=
      if audioDev = 0 ∨ audioDev ∈ s.opened then s.faults else .closed audioDev :: s.faults }

/-- `SDL_FreeWAV`, for a buffer that is one. -/
def freeWav (wavBuf : Nat) : MciState :=
  { s with
    buffers := if wavBuf = 0 then s.buffers else s.buffers.erase wavBuf
    faults := if wavBuf = 0 ∨ wavBuf ∈ s.buffers then s.faults else .freed wavBuf :: s.faults }

def readWav (wavBuf : Nat) : MciState :=
  { s with faults := if wavBuf ∈ s.buffers then s.faults else .readFreed wavBuf :: s.faults }

def cancel (flag : Option Nat) : MciState :=
  { s with cancelled := flag.elim s.cancelled fun number => insert number s.cancelled }

def put (id : UInt16) (dev : WaveDevice) : MciState := { s with devices := s.devices.insert id dev }

def goes (thread : Nat) (call : Call) : MciState := { s with calls := s.calls.insert thread call }

def returns (thread code : Nat) : MciState :=
  { s with calls := s.calls.erase thread, replies := s.replies.insert thread code }

def post (play : Play) (code : UInt32) : MciState :=
  { s with posted := s.posted ++ [⟨play.number, play.hwndCallback, code, play.deviceId⟩] }

def drop (dev : WaveDevice) : MciState :=
  ((s.cancel dev.notifyCancel).closeAudio dev.audioDev).freeWav dev.wavBuf

/-- `load_wav_via_vfs` leaves the samples in a buffer of their own. -/
def loadWav (loaded : Option (UInt32 × WavFormat)) : MciState :=
  { s with
    buffers := if loaded.isSome then insert s.nextBuffer s.buffers else s.buffers
    nextBuffer := if loaded.isSome then s.nextBuffer + 1 else s.nextBuffer }

theorem noWav_freq : 44100 < 2 ^ 31 := by decide

/-- Without a file, the format is that of a device without samples. -/
def newDevice (loaded : Option (UInt32 × WavFormat)) : WaveDevice where
  mode := .stopped
  audioDev := 0
  wavBuf := if loaded.isSome then s.nextBuffer else 0
  wavLen := loaded.elim 0 Prod.fst
  wav := loaded.elim ⟨44100, noWav_freq, 0x8010, 2⟩ Prod.snd
  currentPosition := 0
  volume := 100
  notifyHwnd := 0
  notifyCancel := none

/-- A device that had the number is dropped. -/
def mciOpenInternal (loaded : Option (UInt32 × WavFormat)) : MciState :=
  let id := s.nextDeviceId
  let after := { (s.loadWav loaded).put id (s.newDevice loaded) with
    nextDeviceId := max (id + 1) 1 }
  match s.devices id with
  | some old => after.drop old
  | none => after

def mciClose (deviceId : UInt32) : Nat × MciState :=
  match s.devices deviceId.toUInt16 with
  | some dev => (mcierrSuccess, { s with devices := s.devices.erase deviceId.toUInt16 }.drop dev)
  | none => (mcierrInvalidDeviceId, s)

/-- The audio device is closed, and no watcher is known any more. -/
def silence (id : UInt16) (dev : WaveDevice) : MciState :=
  (s.closeAudio dev.audioDev).put id
    { dev with audioDev := 0, mode := .stopped, notifyCancel := none }

def mciStop (deviceId : UInt32) : Nat × MciState :=
  match s.devices deviceId.toUInt16 with
  | some dev => (mcierrSuccess, (s.cancel dev.notifyCancel).silence deviceId.toUInt16 dev)
  | none => (mcierrInvalidDeviceId, s)

/-- A time whose byte offset does not fit its words is a panic. -/
def mciSeekTo (deviceId posMs : UInt32) : Option (Nat × MciState) :=
  match s.devices deviceId.toUInt16 with
  | some dev => (msToByteOffset posMs dev.wav).map fun byteOffset =>
      (mcierrSuccess, s.put deviceId.toUInt16
        { dev with currentPosition := UInt32.ofNat (min byteOffset dev.wavLen.toNat) })
  | none => some (mcierrInvalidDeviceId, s)

def clampVolume (level : UInt32) : Nat := min level.toNat 100

/-- The volume, which is all that can be set. -/
def mciSet (deviceId level : UInt32) : Nat × MciState :=
  match s.devices deviceId.toUInt16 with
  | some dev => (mcierrSuccess, s.put deviceId.toUInt16 { dev with volume := clampVolume level })
  | none => (mcierrInvalidDeviceId, s)

def startPlay (thread : Nat) (deviceId param1 hwndCallback : UInt32) : MciState :=
  let play : Play := ⟨s.nextPlay, deviceId, param1, hwndCallback⟩
  let s := { s with nextPlay := s.nextPlay + 1 }
  match s.devices play.key with
  | none => s.returns thread mcierrInvalidDeviceId
  | some dev =>
      if dev.wavBuf = 0 then s.returns thread mcierrCannotLoadDriver
      else s.goes thread (.supersede play dev.clip)

/-- The watcher of an earlier play is told to give up. -/
def supersede (id : UInt16) : MciState :=
  match s.devices id with
  | some dev => (s.cancel dev.notifyCancel).put id { dev with notifyCancel := none }
  | none => s

/-- With the device gone, nothing keeps the audio device. -/
def update (play : Play) (audioDev : Nat) : MciState :=
  match s.devices play.key with
  | some dev => (s.closeAudio dev.audioDev).put play.key
      { dev with audioDev, mode := .playing, notifyHwnd := play.hwndCallback }
  | none => s

def spawn (play : Play) (audioDev : Nat) : MciState :=
  { s with watchers := s.watchers.insert play.number ⟨play, audioDev, .polling⟩ }

def arm (play : Play) (audioDev : Nat) : MciState :=
  match s.devices play.key with
  | some dev => (s.spawn play audioDev).put play.key { dev with notifyCancel := some play.number }
  | none => s.spawn play audioDev

def advance (thread : Nat) (answer : Bool) : Call → MciState
  | .supersede play clip => (s.supersede play.key).goes thread (.applyVolume play clip)
  | .applyVolume play clip =>
      let s := if clip.volume < 100 ∧ clip.playLen ≠ 0 then s.readWav clip.wavBuf else s
      if clip.playLen = 0 then s.returns thread mcierrSuccess
      else s.goes thread (.openAudio play clip)
  | .openAudio play clip =>
      if answer then
        { s with opened := insert s.nextAudio s.opened, nextAudio := s.nextAudio + 1 }.goes thread
          (.queueAudio play clip s.nextAudio)
      else s.returns thread mcierrCannotLoadDriver
  | .queueAudio play clip audioDev =>
      (if clip.volume < 100 then s else s.readWav clip.wavBuf).goes thread (.update play audioDev)
  | .update play audioDev =>
      let s := s.update play audioDev
      if play.waits then s.goes thread (.wait play)
      else if play.notifies then s.goes thread (.arm play audioDev)
      else s.returns thread mcierrSuccess
  | .wait play =>
      if answer then
        let s := (s.mciStop play.deviceId).2
        if play.notifies then s.goes thread (.notify play) else s.returns thread mcierrSuccess
      else s
  | .notify play => (s.post play mciNotifySuccessful).returns thread mcierrSuccess
  | .arm play audioDev => (s.arm play audioDev).returns thread mcierrSuccess

def enters (watcher : Watcher) (phase : WatchPhase) : MciState :=
  { s with watchers := s.watchers.insert watcher.play.number { watcher with phase } }

/-- Whatever the device plays by now is closed. -/
def cleanUp (id : UInt16) : MciState :=
  match s.devices id with
  | some dev => s.silence id dev
  | none => s

def watch (watcher : Watcher) (answer : Bool) : MciState :=
  match watcher.phase with
  | .polling =>
      if watcher.play.number ∈ s.cancelled then s.enters watcher .superseded
      else if answer then s.enters watcher .drained else s
  | .superseded => (s.post watcher.play mciNotifySuperseded).enters watcher .ended
  | .drained =>
      if watcher.play.number ∈ s.cancelled then s.enters watcher .ended
      else s.enters watcher .cleaning
  | .cleaning => (s.cleanUp watcher.play.key).enters watcher .successful
  | .successful => (s.post watcher.play mciNotifySuccessful).enters watcher .ended
  | .ended => s

/-- A thread starts a call only when it has none in progress. -/
def exec : Event → Option MciState
  | .mciOpen thread loaded =>
      if (s.calls thread).isNone then
        some ((s.mciOpenInternal loaded).returns thread mcierrSuccess)
      else none
  | .mciClose thread deviceId =>
      if (s.calls thread).isNone then
        some ((s.mciClose deviceId).2.returns thread (s.mciClose deviceId).1)
      else none
  | .mciStop thread deviceId =>
      if (s.calls thread).isNone then
        some ((s.mciStop deviceId).2.returns thread (s.mciStop deviceId).1)
      else none
  | .mciSeekTo thread deviceId posMs =>
      if (s.calls thread).isNone then
        (s.mciSeekTo deviceId posMs).map fun reply => reply.2.returns thread reply.1
      else none
  | .mciSet thread deviceId level =>
      if (s.calls thread).isNone then
        some ((s.mciSet deviceId level).2.returns thread (s.mciSet deviceId level).1)
      else none
  | .mciPlay thread deviceId param1 hwndCallback =>
      if (s.calls thread).isNone then some (s.startPlay thread deviceId param1 hwndCallback)
      else none
  | .advance thread answer => (s.calls thread).map (s.advance thread answer)
  | .watch number answer => (s.watchers number).map (s.watch · answer)

def step : Step MciState Event := fun s event next => s.exec event = some next

end MciState
end Warpine.Mci
