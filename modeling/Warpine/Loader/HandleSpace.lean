import Warpine.Lib.Run
import Warpine.Loader.HandleManager
import Warpine.Vfs.DriveManager

/-! The one number space of guest handles: 0, 1 and 2 are the console, the drive
manager numbers files from 3, and the handle manager numbers pipes and their
duplicates from its base. A ledger beside the two tables records which object
each handle was given out for. -/
namespace Warpine.Loader
open Warpine.Lib Warpine.Vfs

/-- What a handle stands for. -/
inductive OpenObject (File : Type) where
  | vfs (entry : FileEntry)
  | file (file : File)
deriving DecidableEq

/-- Where an I/O call goes. -/
inductive Route (File : Type) where
  | console
  | object (object : OpenObject File)
  | invalid
deriving DecidableEq

structure HandleSpace (β File : Type) where
  driveMgr : DriveManager β
  handleMgr : HandleManager File
  issued : List (Nat × OpenObject File)

namespace HandleSpace

variable {β File : Type}

/-- Before any handle is given out. -/
def initial (drives : Nat → Option β) (currentDisk : Nat) (currentDirs : Nat → Path) :
    HandleSpace β File where
  driveMgr := { (DriveManager.new : DriveManager β) with drives, currentDisk, currentDirs }
  handleMgr := .new
  issued := []

def routeVfs (space : HandleSpace β File) (hf : Nat) : Route File :=
  match space.driveMgr.fileHandles hf with
  | some entry => .object (.vfs entry)
  | none => .invalid

def routePipe (space : HandleSpace β File) (hf : Nat) : Route File :=
  match space.handleMgr.get hf with
  | some file => .object (.file file)
  | none => .invalid

def dosReadRoute (space : HandleSpace β File) (hf : Nat) : Route File :=
  if hf = 0 then .console
  else if pipeHandleBase ≤ hf then space.routePipe hf
  else space.routeVfs hf

def dosWriteRoute (space : HandleSpace β File) (fd : Nat) : Route File :=
  if fd = 1 ∨ fd = 2 then .console
  else if pipeHandleBase ≤ fd then space.routePipe fd
  else space.routeVfs fd

def dosCloseRoute (space : HandleSpace β File) (hf : Nat) : Route File :=
  if pipeHandleBase ≤ hf then space.routePipe hf
  else space.routeVfs hf

/-- The calls that change the space. What the host answers to a pipe or a
clone request comes with the call. -/
inductive Call (File : Type) where
  | openFile (os2Path : Path) (mode : OpenMode) (sharing : SharingMode) (flags : OpenFlags)
      (attributes : FileAttribute)
  | closeFile (handle : UInt32)
  | add (file : File)
  | replace (h : UInt32) (file : File)
  | close (h : UInt32)
  | dosClose (hf : UInt32)
  | dosCreatePipe (fds : Option (File × File))
  | dosDupHandle (oldHf newHf : UInt32) (clone : Option File)

/-- A duplicate asked for without a target. -/
def anyHandle : UInt32 := 0xFFFFFFFF

def add (space : HandleSpace β File) (file : File) : Nat × HandleSpace β File :=
  let (h, handleMgr) := space.handleMgr.add file
  (h, { space with handleMgr, issued := (h, .file file) :: space.issued })

/-- The guest takes a chosen handle for an object of its own, so that whatever
the handle stood for is given up. -/
def replace (space : HandleSpace β File) (h : Nat) (file : File) : HandleSpace β File :=
  { space with
    handleMgr := space.handleMgr.replace h file
    issued := (h, .file file) :: space.issued.filter fun entry => entry.1 != h }

def close (space : HandleSpace β File) (handle : Nat) : HandleSpace β File :=
  { space with
    handleMgr := (space.handleMgr.close handle).2
    issued := space.issued.filter fun
      | (h, .file _) => h != handle
      | _ => true }

/-- The object is open under the handle. -/
def Holds (space : HandleSpace β File) (h : Nat) : OpenObject File → Prop
  | .vfs entry => space.driveMgr.fileHandles h = some entry
  | .file file => space.handleMgr.handles h = some file

/-- What the guest relies on: the two ranges stay apart, and I/O on a handle
reaches the object it was given out for. -/
structure Sound (space : HandleSpace β File) : Prop where
  vfsBelow : ∀ h entry, space.Holds h (.vfs entry) → h < pipeHandleBase
  pipeAbove : ∀ h file, space.Holds h (.file file) → pipeHandleBase ≤ h
  oneObject : ∀ h object other, space.Holds h object → space.Holds h other → object = other
  readRouted : ∀ h object, (h, object) ∈ space.issued → space.dosReadRoute h = .object object
  writeRouted : ∀ h object, (h, object) ∈ space.issued → space.dosWriteRoute h = .object object
  closeRouted : ∀ h object, (h, object) ∈ space.issued → space.dosCloseRoute h = .object object

/-- The next number of the handle manager lies in its range and is free. -/
def pipeNumberFree (space : HandleSpace β File) (h : Nat) : Prop :=
  pipeHandleBase ≤ h ∧ space.handleMgr.handles h = none

/-- What every allowed call keeps. The ledger and the tables agree. -/
structure Layout (space : HandleSpace β File) : Prop where
  filesLow : ∀ h entry, space.driveMgr.fileHandles h = some entry →
    3 ≤ h ∧ h < space.driveMgr.nextFileHandle
  counterLow : 3 ≤ space.driveMgr.nextFileHandle
  counterHigh : space.driveMgr.nextFileHandle ≤ pipeHandleBase
  pipesHigh : ∀ h file, space.handleMgr.handles h = some file → pipeHandleBase ≤ h
  ledger : ∀ h object, (h, object) ∈ space.issued ↔ space.Holds h object

theorem layout_initial (drives : Nat → Option β) (currentDisk : Nat) (currentDirs : Nat → Path) :
    (initial drives currentDisk currentDirs : HandleSpace β File).Layout where
  filesLow := by simp [initial, DriveManager.new]
  counterLow := by simp [initial, DriveManager.new]
  counterHigh := by simp [initial, DriveManager.new, pipeHandleBase]
  pipesHigh := by simp [initial, HandleManager.new]
  ledger := by
    intro h object
    cases object <;> simp [initial, DriveManager.new, HandleManager.new, Holds]

theorem layout_close {space : HandleSpace β File} (layout : space.Layout) (handle : Nat) :
    (space.close handle).Layout := by
  unfold close
  refine ⟨layout.filesLow, layout.counterLow, layout.counterHigh, ?_, ?_⟩
  · intro h file hfile
    simp only [HandleManager.close, Table.erase_eq_some] at hfile
    exact layout.pipesHigh h file hfile.2
  · intro h object
    have hledger := layout.ledger h object
    cases object with
    | vfs entry => simpa [Holds] using hledger
    | file file =>
      simp only [Holds] at hledger
      simp [Holds, HandleManager.close, Table.erase_eq_some, hledger, and_comm]

theorem layout_add {space : HandleSpace β File} (layout : space.Layout) (file : File)
    (free : space.pipeNumberFree space.handleMgr.nextHandle) : (space.add file).2.Layout := by
  obtain ⟨hhigh, hunused⟩ := free
  unfold add HandleManager.add
  refine ⟨layout.filesLow, layout.counterLow, layout.counterHigh, ?_, ?_⟩
  · intro h other hother
    rcases Table.insert_eq_some.mp hother with ⟨rfl, _⟩ | ⟨_, hold⟩
    · exact hhigh
    · exact layout.pipesHigh h other hold
  · intro h object
    have hledger := layout.ledger h object
    cases object with
    | vfs entry => simpa [Holds] using hledger
    | file other =>
      simp only [Holds] at hledger
      simp only [List.mem_cons, Prod.mk.injEq, OpenObject.file.injEq, hledger, Holds,
        Table.insert_eq_some]
      by_cases hsame : h = space.handleMgr.nextHandle
      · simp [hsame, hunused]
      · simp [hsame]

/-- A file handle is never in the range of the handle manager. -/
theorem Layout.no_file {space : HandleSpace β File} (layout : space.Layout) {h : Nat}
    (high : pipeHandleBase ≤ h) : space.driveMgr.fileHandles h = none := by
  cases hentry : space.driveMgr.fileHandles h with
  | none => rfl
  | some entry =>
    have hbound := (layout.filesLow h entry hentry).2
    have hcounter := layout.counterHigh
    omega

theorem layout_replace {space : HandleSpace β File} (layout : space.Layout) {target : Nat}
    (file : File) (high : pipeHandleBase ≤ target) : (space.replace target file).Layout := by
  unfold replace HandleManager.replace
  refine ⟨layout.filesLow, layout.counterLow, layout.counterHigh, ?_, ?_⟩
  · intro h other hother
    rcases Table.insert_eq_some.mp hother with ⟨rfl, _⟩ | ⟨_, hold⟩
    · exact high
    · exact layout.pipesHigh h other hold
  · intro h object
    have hledger := layout.ledger h object
    cases object with
    | vfs entry =>
      simp only [Holds] at hledger
      by_cases hsame : h = target
      · simp [Holds, hsame, layout.no_file high]
      · simp [Holds, hsame, hledger]
    | file other =>
      simp only [Holds] at hledger
      simp [Holds, Table.insert_eq_some, hledger, and_comm]

/-- An open object is found on the side of the base it belongs to. -/
theorem Layout.route {space : HandleSpace β File} (layout : space.Layout) {h : Nat}
    {object : OpenObject File} (holds : space.Holds h object) :
    3 ≤ h ∧ (if pipeHandleBase ≤ h then space.routePipe h else space.routeVfs h) =
      .object object := by
  cases object with
  | vfs entry =>
    have hbound := layout.filesLow h entry holds
    have hcounter := layout.counterHigh
    simp only [Holds] at holds
    simp [show ¬ pipeHandleBase ≤ h by omega, routeVfs, holds, hbound.1]
  | file file =>
    have hhigh := layout.pipesHigh h file holds
    have hthree : 3 ≤ h := by
      unfold pipeHandleBase at hhigh
      omega
    simp only [Holds] at holds
    simp [hhigh, routePipe, HandleManager.get, holds, hthree]

theorem Layout.sound {space : HandleSpace β File} (layout : space.Layout) : space.Sound where
  vfsBelow := by
    intro h entry holds
    have hbound := (layout.filesLow h entry holds).2
    have hcounter := layout.counterHigh
    omega
  pipeAbove := layout.pipesHigh
  oneObject := by
    intro h object other holds hother
    have hfirst := (layout.route holds).2
    have hsecond := (layout.route hother).2
    rw [hfirst] at hsecond
    simpa using hsecond
  readRouted := by
    intro h object member
    obtain ⟨hlow, hroute⟩ := layout.route ((layout.ledger h object).mp member)
    simp only [dosReadRoute, show h ≠ 0 by omega, if_false, hroute]
  writeRouted := by
    intro h object member
    obtain ⟨hlow, hroute⟩ := layout.route ((layout.ledger h object).mp member)
    simp only [dosWriteRoute, show ¬ (h = 1 ∨ h = 2) by omega, if_false, hroute]
  closeRouted := by
    intro h object member
    exact (layout.route ((layout.ledger h object).mp member)).2

theorem Layout.file_unused {space : HandleSpace β File} (layout : space.Layout)
    (small : space.driveMgr.nextFileHandle < pipeHandleBase) (object : OpenObject File) :
    ¬ space.Holds space.driveMgr.nextFileHandle object := by
  intro holds
  cases object with
  | vfs entry =>
    have hbound := (layout.filesLow _ entry holds).2
    omega
  | file file =>
    have hhigh := layout.pipesHigh _ file holds
    omega

theorem Layout.pipe_unused {space : HandleSpace β File} (layout : space.Layout) {h : Nat}
    (free : space.pipeNumberFree h) (object : OpenObject File) : ¬ space.Holds h object := by
  intro holds
  cases object with
  | vfs entry => simp [Holds, layout.no_file free.1] at holds
  | file file => simp [Holds, free.2] at holds

variable [VfsBackend β]

def openFile (space : HandleSpace β File) (os2Path : Path) (mode : OpenMode)
    (sharing : SharingMode) (flags : OpenFlags) (attributes : FileAttribute) :
    HandleSpace β File :=
  match space.driveMgr.openFile os2Path mode sharing flags attributes with
  | (.error _, driveMgr) => { space with driveMgr }
  | (.ok (h, _), driveMgr) =>
      let issued := match driveMgr.fileHandles h with
        | some entry => (h, .vfs entry) :: space.issued
        | none => space.issued
      { space with driveMgr, issued }

def closeFile (space : HandleSpace β File) (handle : Nat) : HandleSpace β File :=
  { space with
    driveMgr := (space.driveMgr.closeFile handle).2
    issued := space.issued.filter fun
      | (h, .vfs _) => h != handle
      | _ => true }

def dosClose (space : HandleSpace β File) (hf : Nat) : HandleSpace β File :=
  if pipeHandleBase ≤ hf then space.close hf else space.closeFile hf

def dosCreatePipe (space : HandleSpace β File) : Option (File × File) → HandleSpace β File
  | some (read, write) => ((space.add read).2.add write).2
  | none => space

def dosDupHandle (space : HandleSpace β File) (oldHf newHf : UInt32) (clone : Option File) :
    HandleSpace β File :=
  match space.handleMgr.get oldHf.toNat, clone with
  | some _, some dup =>
      if newHf = anyHandle then (space.add dup).2 else space.replace newHf.toNat dup
  | _, _ => space

def exec (space : HandleSpace β File) : Call File → HandleSpace β File
  | .openFile os2Path mode sharing flags attributes =>
      space.openFile os2Path mode sharing flags attributes
  | .closeFile handle => space.closeFile handle.toNat
  | .add file => (space.add file).2
  | .replace h file => space.replace h.toNat file
  | .close h => space.close h.toNat
  | .dosClose hf => space.dosClose hf.toNat
  | .dosCreatePipe fds => space.dosCreatePipe fds
  | .dosDupHandle oldHf newHf clone => space.dosDupHandle oldHf newHf clone

def step : Step (HandleSpace β File) (Call File) := fun space call next => space.exec call = next

/-- The numbers a call takes from the two counters. -/
def newHandles (space : HandleSpace β File) : Call File → List Nat
  | .openFile os2Path mode sharing flags attributes =>
      match (space.driveMgr.openVfs os2Path mode sharing flags attributes).1 with
      | .ok _ => [space.driveMgr.nextFileHandle]
      | .error _ => []
  | .add _ => [space.handleMgr.nextHandle]
  | .dosCreatePipe (some _) =>
      [space.handleMgr.nextHandle, wrapAdd space.handleMgr.nextHandle 1]
  | .dosDupHandle oldHf newHf (some _) =>
      if (space.handleMgr.get oldHf.toNat).isSome ∧ newHf = anyHandle then
        [space.handleMgr.nextHandle]
      else []
  | _ => []

/-- No number the call takes is still in use. -/
def Fresh (space : HandleSpace β File) (call : Call File) : Prop :=
  ∀ h ∈ space.newHandles call, ∀ object, ¬ space.Holds h object

/-- The number a call takes is in the range it belongs to, and not in use there. -/
def Allowed (space : HandleSpace β File) : Call File → Prop
  | .openFile os2Path mode sharing flags attributes =>
      (space.driveMgr.openVfs os2Path mode sharing flags attributes).1.isOk →
        space.driveMgr.nextFileHandle < pipeHandleBase
  | .add _ => space.pipeNumberFree space.handleMgr.nextHandle
  | .replace h _ => pipeHandleBase ≤ h.toNat
  | .dosCreatePipe (some _) =>
      space.pipeNumberFree space.handleMgr.nextHandle ∧
        space.pipeNumberFree (wrapAdd space.handleMgr.nextHandle 1)
  | .dosDupHandle oldHf newHf (some _) =>
      (space.handleMgr.get oldHf.toNat).isSome →
        if newHf = anyHandle then space.pipeNumberFree space.handleMgr.nextHandle
        else pipeHandleBase ≤ newHf.toNat
  | _ => True

theorem layout_openFile {space : HandleSpace β File} (layout : space.Layout) (os2Path : Path)
    (mode : OpenMode) (sharing : SharingMode) (flags : OpenFlags) (attributes : FileAttribute)
    (allowed : space.Allowed (.openFile os2Path mode sharing flags attributes)) :
    (space.openFile os2Path mode sharing flags attributes).Layout := by
  have htables := space.driveMgr.openVfs_tables os2Path mode sharing flags attributes
  obtain ⟨hhandles, hnext⟩ := htables
  unfold openFile DriveManager.openFile
  simp only [Allowed] at allowed
  cases hopen : space.driveMgr.openVfs os2Path mode sharing flags attributes with
  | mk result dm =>
    rw [hopen] at hhandles hnext allowed
    dsimp only at hhandles hnext
    cases result with
    | error e =>
      dsimp only
      refine ⟨?_, ?_, ?_, layout.pipesHigh, ?_⟩
      · simpa [hhandles, hnext] using layout.filesLow
      · simpa [hnext] using layout.counterLow
      · simpa [hnext] using layout.counterHigh
      · intro h object
        have hledger := layout.ledger h object
        cases object <;> simpa [Holds, hhandles] using hledger
    | ok opened =>
      have hsmall : space.driveMgr.nextFileHandle < pipeHandleBase := allowed rfl
      have hlow := layout.counterLow
      have hwrap : wrapAdd dm.nextFileHandle 1 = space.driveMgr.nextFileHandle + 1 := by
        rw [hnext]
        exact wrapAdd_of_lt (by unfold pipeHandleBase at hsmall; unfold u32Size; omega)
      dsimp only
      rw [hwrap, hhandles, hnext]
      simp only [Table.insert_self]
      refine ⟨?_, by dsimp only; omega, by dsimp only; omega, layout.pipesHigh, ?_⟩
      · intro h entry hentry
        dsimp only at hentry ⊢
        rcases Table.insert_eq_some.mp hentry with ⟨rfl, _⟩ | ⟨_, hold⟩
        · omega
        · have := layout.filesLow h entry hold
          omega
      · intro h object
        have hledger := layout.ledger h object
        have hunused : space.driveMgr.fileHandles space.driveMgr.nextFileHandle = none := by
          cases hused : space.driveMgr.fileHandles space.driveMgr.nextFileHandle with
          | none => rfl
          | some entry =>
            have := (layout.filesLow _ entry hused).2
            omega
        cases object with
        | vfs entry =>
          simp only [List.mem_cons, Prod.mk.injEq, OpenObject.vfs.injEq, hledger, Holds,
            Table.insert_eq_some]
          by_cases hsame : h = space.driveMgr.nextFileHandle
          · simp [hsame, hunused]
          · simp [hsame]
        | file file => simpa [Holds] using hledger

theorem layout_closeFile {space : HandleSpace β File} (layout : space.Layout) (handle : Nat) :
    (space.closeFile handle).Layout := by
  unfold closeFile
  refine ⟨?_, ?_, ?_, layout.pipesHigh, ?_⟩
  · intro h entry hentry
    simp only [DriveManager.closeFile_fileHandles, Table.erase_eq_some,
      DriveManager.closeFile_nextFileHandle] at hentry ⊢
    exact layout.filesLow h entry hentry.2
  · simpa using layout.counterLow
  · simpa using layout.counterHigh
  · intro h object
    have hledger := layout.ledger h object
    cases object with
    | vfs entry =>
      simp only [Holds] at hledger
      simp [Holds, Table.erase_eq_some, hledger, and_comm]
    | file file => simpa [Holds] using hledger

theorem layout_exec {space : HandleSpace β File} (layout : space.Layout) (call : Call File)
    (allowed : space.Allowed call) : (space.exec call).Layout := by
  cases call with
  | openFile os2Path mode sharing flags attributes =>
    exact layout_openFile layout os2Path mode sharing flags attributes allowed
  | closeFile handle => exact layout_closeFile layout handle.toNat
  | add file => exact layout_add layout file allowed
  | replace h file => exact layout_replace layout file allowed
  | close h => exact layout_close layout h.toNat
  | dosClose hf =>
    simp only [exec, dosClose]
    split
    · exact layout_close layout hf.toNat
    · exact layout_closeFile layout hf.toNat
  | dosCreatePipe fds =>
    cases fds with
    | none => exact layout
    | some ends =>
      obtain ⟨hread, hhigh, hunused⟩ := allowed
      apply layout_add (layout_add layout ends.1 hread)
      refine ⟨hhigh, ?_⟩
      have hnext : wrapAdd space.handleMgr.nextHandle 1 ≠ space.handleMgr.nextHandle := by
        unfold wrapAdd u32Size pipeHandleBase at *
        omega
      simpa [add, HandleManager.add, hnext] using hunused
  | dosDupHandle oldHf newHf clone =>
    simp only [exec, dosDupHandle]
    split
    · rename_i old dup hold
      have hallowed := allowed (by simp [hold])
      split
      · rename_i hany
        rw [if_pos hany] at hallowed
        exact layout_add layout dup hallowed
      · rename_i htarget
        rw [if_neg htarget] at hallowed
        exact layout_replace layout dup hallowed
    · exact layout

theorem Layout.fresh {space : HandleSpace β File} (layout : space.Layout) (call : Call File)
    (allowed : space.Allowed call) : space.Fresh call := by
  intro h member
  cases call with
  | openFile os2Path mode sharing flags attributes =>
    simp only [newHandles] at member
    simp only [Allowed] at allowed
    split at member
    · rename_i opened hopen
      rw [hopen] at allowed
      cases List.mem_singleton.mp member
      exact layout.file_unused (allowed rfl)
    · simp at member
  | add file =>
    cases List.mem_singleton.mp member
    exact layout.pipe_unused allowed
  | dosCreatePipe fds =>
    cases fds with
    | none => simp [newHandles] at member
    | some ends =>
      simp only [newHandles, List.mem_cons, List.not_mem_nil, or_false] at member
      rcases member with rfl | rfl
      · exact layout.pipe_unused allowed.1
      · exact layout.pipe_unused allowed.2
  | dosDupHandle oldHf newHf clone =>
    cases clone with
    | none => simp [newHandles] at member
    | some dup =>
      simp only [newHandles] at member
      split at member
      · rename_i hcall
        have hallowed := allowed hcall.1
        rw [if_pos hcall.2] at hallowed
        cases List.mem_singleton.mp member
        exact layout.pipe_unused hallowed
      · simp at member
  | closeFile handle => simp [newHandles] at member
  | replace target file => simp [newHandles] at member
  | close target => simp [newHandles] at member
  | dosClose hf => simp [newHandles] at member

/-- Over runs that keep each range to its own manager, handles are sound and
every number taken is free. -/
theorem allowed_run_sound (drives : Nat → Option β) (currentDisk : Nat)
    (currentDirs : Nat → Path) (calls : List (Call File)) (space : HandleSpace β File)
    (run : Run (step.guarded Allowed) (initial drives currentDisk currentDirs) calls space) :
    space.Sound ∧ ∀ call, space.Allowed call → space.Fresh call := by
  have hlayout : space.Layout := by
    refine run.invariant Layout ?_ (layout_initial drives currentDisk currentDirs)
    rintro start call finish layout ⟨hallowed, rfl⟩
    exact layout_exec layout call hallowed
  exact ⟨hlayout.sound, hlayout.fresh⟩

/-- The calls of a run that duplicates a pipe handle onto a handle of its own
range, next to an open file. -/
def dupCalls (target : UInt32) : List (Call Nat) :=
  [.openFile "a".toList .readWrite .denyNone ⟨.open, .create⟩ .normal,
    .dosCreatePipe (some (0, 1)), .dosDupHandle 0x1000 target (some 2), .dosClose 3]

theorem allowed_run_sound_dup :
    ((dupCalls 0x2000).foldl exec
      (initial (fun _ => some MockBackend.mk) 2 fun _ => [])).Sound :=
  (allowed_run_sound (fun _ => some MockBackend.mk) 2 (fun _ => []) (dupCalls 0x2000) _
    (.cons ⟨fun _ => by decide, rfl⟩ (.cons ⟨⟨⟨by decide, rfl⟩, ⟨by decide, rfl⟩⟩, rfl⟩
      (.cons ⟨fun _ => by rw [if_neg (by decide)]; decide, rfl⟩
        (.cons ⟨trivial, rfl⟩ (.nil _)))))).1

/-- A duplicate onto handle 3 makes that handle stand for two objects. -/
theorem dup_onto_file_confuses :
    ¬ ∀ (drives : Nat → Option MockBackend) (currentDisk : Nat) (currentDirs : Nat → Path)
      (calls : List (Call Nat)) (space : HandleSpace MockBackend Nat),
      Run step (initial drives currentDisk currentDirs) calls space →
        space.Sound ∧ ∀ call, space.Fresh call := by
  intro claim
  have hsound := (claim (fun _ => some MockBackend.mk) 2 (fun _ => [])
    ((dupCalls 3).take 3) _ (.cons rfl (.cons rfl (.cons rfl (.nil _))))).1
  exact absurd (hsound.pipeAbove 3 2 rfl) (by decide)

end HandleSpace
end Warpine.Loader
