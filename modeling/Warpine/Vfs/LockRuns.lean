import Warpine.Vfs.FileLocks

/-! Runs of locks on the files of all drives. The handles of the guest are kept apart by
the drive manager, but the host does not tell them apart. -/
namespace Warpine.Vfs
open Warpine.Lib Posix

inductive LockCall where
  | openFile (path : Path) (mode : OpenMode) (sharing : SharingMode) (flags : OpenFlags)
      (attributes : FileAttribute)
  | closeFile (handle : Nat)
  | setFileLocks (handle : Nat) (unlock lock : List LockRequest)
  | op (drive : Nat) (op : HostOp)
  /-- Other processes lock these ranges of a file, and no more. -/
  | others (drive : Nat) (file : FileId) (ranges : List FileLockRange)

namespace DriveManager

variable (dm : DriveManager Locking)

def setFileLocks (handle : Nat) (unlock lock : List LockRequest) :
    VfsResult Unit × DriveManager Locking :=
  match dm.fileHandles handle with
  | none => (.error .invalidHandle, dm)
  | some entry => match dm.drives entry.drive with
    | none => (.error .invalidHandle, dm)
    | some backend =>
        let (result, backend) := backend.setFileLocks entry.vfsHandle unlock lock
        (result, dm.mount entry.drive backend)

def lockExec : LockCall → DriveManager Locking
  | .openFile path mode sharing flags attributes =>
      (dm.openFile path mode sharing flags attributes).2
  | .closeFile handle => (dm.closeFile handle).2
  | .setFileLocks handle unlock lock => (dm.setFileLocks handle unlock lock).2
  | .op drive op => match dm.drives drive with
      | none => dm
      | some backend => dm.mount drive (backend.exec op)
  | .others drive file ranges => match dm.drives drive with
      | none => dm
      | some backend =>
          dm.mount drive { backend with others := Function.update backend.others file ranges }

def lockStep : Step (DriveManager Locking) LockCall := fun dm call next => dm.lockExec call = next

/-- The file that a handle stands for, with its drive, and what the handle holds of it. -/
def locks (handle : Nat) : Option (Nat × FileId × (Nat → Bool)) :=
  (dm.fileHandles handle).bind fun entry => (dm.drives entry.drive).bind fun backend =>
    (backend.file entry.vfsHandle.id).map fun file =>
      (entry.drive, file, backend.held entry.vfsHandle.id)

/-- No two handles hold the same byte of one file. -/
def Exclusive : Prop :=
  ∀ first second, first ≠ second → ∀ drive file left right,
    dm.locks first = some (drive, file, left) → dm.locks second = some (drive, file, right) →
      ∀ byte, ¬ (left byte ∧ right byte)

/-- If the call fails, its handle holds what it held before. -/
def FailsClean (handle : Nat) (unlock lock : List LockRequest) : Prop :=
  ∀ e next, dm.setFileLocks handle unlock lock = (.error e, next) →
    next.locks handle = dm.locks handle

/-- What is locked is free of the other handles, and a refusal comes before any effect. -/
def AllowedLocks : LockCall → Prop
  | .setFileLocks handle unlock lock => ∀ entry backend file,
      dm.fileHandles handle = some entry → dm.drives entry.drive = some backend →
        backend.file entry.vfsHandle.id = some file →
          backend.Lockable entry.vfsHandle.id file unlock lock
  | _ => True

/-- No file has been opened on any drive. -/
structure Unopened : Prop where
  handles : ∀ handle, dm.fileHandles handle = none
  drives : ∀ drive backend, dm.drives drive = some backend →
    ∃ root kernelCasefold tree attrs others, FileTree.Plain root ∧ tree.WellFormed ∧
      backend = .new (HostDir.new root kernelCasefold tree attrs) others

/-- Every handle of the guest has a handle of its own with the backend. -/
structure LocksInv : Prop where
  backends : ∀ drive backend, dm.drives drive = some backend → backend.Inv
  numbers : ∀ handle entry backend, dm.fileHandles handle = some entry →
    dm.drives entry.drive = some backend →
      entry.vfsHandle.id < backend.tracked.host.nextId
  distinct : ∀ first second entry, dm.fileHandles first = some entry →
    dm.fileHandles second = some entry → first = second

variable {dm} {drive : Nat} {backend next : Locking}

theorem LocksInv.exclusive (inv : dm.LocksInv) : dm.Exclusive := by
  intro first second differ drive file left right hleft hright byte both
  simp only [locks, Option.bind_eq_some_iff, Option.map_eq_some_iff, Prod.mk.injEq] at hleft hright
  obtain ⟨one, hone, backend, hbackend, _, hfile, rfl, rfl, rfl⟩ := hleft
  obtain ⟨two, htwo, other, hother, _, hfile', same, rfl, rfl⟩ := hright
  rw [same, hbackend] at hother
  cases hother
  apply (inv.backends _ backend hbackend).apart one.vfsHandle.id two.vfsHandle.id _ _ hfile hfile'
    byte both
  intro ids
  apply differ
  apply inv.distinct first second one hone
  obtain ⟨_, ⟨_⟩⟩ := one
  obtain ⟨_, ⟨_⟩⟩ := two
  cases same
  cases ids
  exact htwo

theorem AllowedLocks.failsClean {handle : Nat} {unlock lock : List LockRequest}
    (allowed : dm.AllowedLocks (.setFileLocks handle unlock lock)) :
    dm.FailsClean handle unlock lock := by
  intro e after failed
  unfold setFileLocks at failed
  split at failed
  · cases failed
    rfl
  · rename_i entry found
    split at failed
    · cases failed
      rfl
    · rename_i backend there
      cases result : backend.setFileLocks entry.vfsHandle unlock lock with
      | mk answer next =>
        rw [result] at failed
        cases failed
        have kept := Locking.setFileLocks_error (fun one => allowed entry backend one found there)
          result
        have files : next.file entry.vfsHandle.id = backend.file entry.vfsHandle.id := by
          have same := @Locking.setFileLocks_tracked backend entry.vfsHandle unlock lock
          rw [result] at same
          rw [Locking.file, same]
          rfl
        simp only [locks, mount, found, there, Option.bind_some, if_true, files, kept]

/-- A backend takes the place of the one before it. -/
theorem LocksInv.mount (inv : dm.LocksInv) (there : dm.drives drive = some backend)
    (good : next.Inv) (grows : backend.tracked.host.nextId ≤ next.tracked.host.nextId) :
    (dm.mount drive next).LocksInv where
  backends := by
    intro other found hfound
    simp only [DriveManager.mount] at hfound
    split at hfound
    · cases hfound
      exact good
    · exact inv.backends other found hfound
  numbers := by
    intro handle entry found hentry hfound
    simp only [DriveManager.mount] at hfound
    split at hfound
    · rename_i same
      cases hfound
      exact Nat.lt_of_lt_of_le (inv.numbers handle entry backend hentry (same ▸ there)) grows
    · exact inv.numbers handle entry found hentry hfound
  distinct := inv.distinct

theorem LocksInv.closeFile (inv : dm.LocksInv) (handle : Nat) :
    (dm.closeFile handle).2.LocksInv := by
  have erased : ({ dm with fileHandles := dm.fileHandles.erase handle } :
      DriveManager Locking).LocksInv := by
    refine ⟨inv.backends, ?_, ?_⟩
    · intro other entry found hentry
      exact inv.numbers other entry found (Table.erase_eq_some.mp hentry).2
    · intro first second entry hfirst hsecond
      exact inv.distinct first second entry (Table.erase_eq_some.mp hfirst).2
        (Table.erase_eq_some.mp hsecond).2
  unfold DriveManager.closeFile
  split
  · exact inv
  · dsimp only
    split
    · exact erased
    · rename_i backend there
      have good := inv.backends _ backend there
      exact erased.mount there (good.exec _) (Locking.exec_nextId good.regular _)

theorem LocksInv.openFile (inv : dm.LocksInv) (path : Path) (mode : OpenMode)
    (sharing : SharingMode) (flags : OpenFlags) (attributes : FileAttribute) :
    (dm.openFile path mode sharing flags attributes).2.LocksInv := by
  unfold DriveManager.openFile openVfs
  by_cases device : (checkDeviceName path).isSome
  · rw [if_pos device]
    exact inv
  · rw [if_neg device]
    cases resolved : dm.resolvePath path with
    | error e => exact inv
    | ok found =>
      obtain ⟨drive, relPath⟩ := found
      cases there : dm.drives drive with
      | none => simpa only [there] using inv
      | some backend =>
        have good := inv.backends drive backend there
        have host : (backend.exec (.openFile relPath mode sharing flags attributes)).tracked.host =
            (backend.tracked.host.openFile relPath mode sharing flags attributes).2 :=
          Locking.tracked_host
        have mounted := inv.mount there (good.exec (.openFile relPath mode sharing flags attributes))
          (Locking.exec_nextId good.regular _)
        simp only [there, VfsBackend.openFile]
        cases result : backend.tracked.host.openFile relPath mode sharing flags attributes with
        | mk answer next =>
          cases answer with
          | error e => exact mounted
          | ok opened =>
            obtain ⟨handle, action⟩ := opened
            obtain ⟨number, _, _, _, _, _, opens⟩ := HostDir.openFile_ok good.regular result
            rw [result] at host
            have counted := opens.nextId
            rw [← show _ = next from host] at counted
            refine ⟨mounted.backends, ?_, ?_⟩
            · intro other entry found hentry hfound
              rcases Table.insert_eq_some.mp hentry with ⟨_, rfl⟩ | ⟨_, before⟩
              · change (if drive = drive then some _ else _) = some found at hfound
                rw [if_pos rfl] at hfound
                cases hfound
                dsimp only
                omega
              · exact mounted.numbers other entry found before hfound
            · have new : ∀ other, dm.fileHandles other ≠ some ⟨drive, handle⟩ := by
                intro other before
                have old := inv.numbers other _ backend before there
                dsimp only at old
                omega
              intro first second entry hfirst hsecond
              rcases Table.insert_eq_some.mp hfirst with ⟨rfl, rfl⟩ | ⟨_, left⟩
              · rcases Table.insert_eq_some.mp hsecond with ⟨rfl, _⟩ | ⟨_, right⟩
                · rfl
                · exact absurd right (new second)
              · rcases Table.insert_eq_some.mp hsecond with ⟨rfl, rfl⟩ | ⟨_, right⟩
                · exact absurd left (new first)
                · exact inv.distinct first second entry left right

theorem LocksInv.exec (inv : dm.LocksInv) {call : LockCall} (allowed : dm.AllowedLocks call) :
    (dm.lockExec call).LocksInv := by
  cases call with
  | openFile path mode sharing flags attributes =>
    exact inv.openFile path mode sharing flags attributes
  | closeFile handle => exact inv.closeFile handle
  | setFileLocks handle unlock lock =>
    simp only [lockExec, DriveManager.setFileLocks]
    split
    · exact inv
    · rename_i entry found
      split
      · exact inv
      · rename_i backend there
        have good := inv.backends _ backend there
        have same := @Locking.setFileLocks_tracked backend entry.vfsHandle unlock lock
        exact inv.mount there (good.setFileLocks fun one => allowed entry backend one found there)
          (by rw [same])
  | op drive op =>
    simp only [lockExec]
    cases there : dm.drives drive with
    | none => exact inv
    | some backend =>
      have good := inv.backends _ backend there
      exact inv.mount there (good.exec op) (Locking.exec_nextId good.regular op)
  | others drive file ranges =>
    simp only [lockExec]
    cases there : dm.drives drive with
    | none => exact inv
    | some backend =>
      have good := inv.backends _ backend there
      exact inv.mount there ⟨good.regular, good.fresh, good.openOnly, good.apart⟩ (Nat.le_refl _)

theorem Unopened.inv (unopened : dm.Unopened) : dm.LocksInv where
  backends := by
    intro drive backend there
    obtain ⟨root, kernelCasefold, tree, attrs, others, plain, wf, rfl⟩ :=
      unopened.drives drive backend there
    exact ⟨HostDir.new_regular kernelCasefold attrs plain wf, nofun, nofun,
      fun _ _ _ _ there => by cases there⟩
  numbers := by
    intro handle entry _ there
    rw [unopened.handles] at there
    cases there
  distinct := by
    intro handle _ entry there
    rw [unopened.handles] at there
    cases there

/-- Where nobody locks what another handle holds, and nothing takes effect before a refusal,
no two handles hold the same, and a call that fails changes nothing. -/
theorem allowed_run_exclusive {last : DriveManager Locking} {calls : List LockCall}
    (unopened : dm.Unopened) (run : Run (lockStep.guarded AllowedLocks) dm calls last) :
    last.Exclusive ∧ ∀ handle unlock lock, last.AllowedLocks (.setFileLocks handle unlock lock) →
      last.FailsClean handle unlock lock := by
  have inv : last.LocksInv := by
    refine run.invariant LocksInv ?_ unopened.inv
    rintro dm call _ inv ⟨allowed, rfl⟩
    exact inv.exec allowed
  exact ⟨inv.exclusive, fun _ _ _ => AllowedLocks.failsClean⟩

/-- Drive C, with nothing on it. -/
def oneDrive : DriveManager Locking := (new.mount 2 (.new HostDir.emptyVolume fun _ => []))

def openA : LockCall :=
  .openFile "A".toList .readWrite .denyNone ⟨.open, .create⟩ ⟨0⟩

def lockTen (handle : Nat) : LockCall := .setFileLocks handle [] [⟨⟨0, 10⟩, none⟩]

theorem oneDrive_unopened : oneDrive.Unopened where
  handles := fun _ => rfl
  drives := by
    intro drive backend there
    simp only [oneDrive, mount] at there
    split at there
    · cases there
      exact ⟨_, _, _, _, _, HostDir.emptyVolume_root, HostDir.emptyHost_wellFormed, rfl⟩
    · cases there

theorem run_lockExec (dm : DriveManager Locking) (calls : List LockCall) :
    Run lockStep dm calls (calls.foldl lockExec dm) := by
  induction calls generalizing dm with
  | nil => exact .nil dm
  | cons call rest ih => exact .cons rfl (ih (dm.lockExec call))

/-- One handle locks a range. -/
theorem allowed_run_exclusive_lock :
    ((oneDrive.lockExec openA).lockExec (lockTen 3)).Exclusive := by
  have run : Run (lockStep.guarded AllowedLocks) oneDrive [openA, lockTen 3]
      ((oneDrive.lockExec openA).lockExec (lockTen 3)) := by
    refine .cons ⟨trivial, rfl⟩ (.cons ⟨?_, rfl⟩ (.nil _))
    intro entry backend file hentry hbackend _
    have opened : (oneDrive.lockExec openA).fileHandles 3 = some ⟨2, ⟨1⟩⟩ := by decide
    cases opened.symm.trans hentry
    have drive : (oneDrive.lockExec openA).drives 2 =
        some ((Locking.new HostDir.emptyVolume fun _ => []).exec
          (.openFile "A".toList .readWrite .denyNone ⟨.open, .create⟩ ⟨0⟩)) := rfl
    cases drive.symm.trans hbackend
    refine ⟨?_, by simp, ?_⟩
    · intro _ _ _ _ other _ _ holds
      exact absurd (Locking.exec_held holds) (by simp [Locking.new])
    · intro _ done failed rest same _ refused
      have only : failed ∈ [⟨⟨0, 10⟩, none⟩] := same ▸ (by simp)
      rw [List.mem_singleton.mp only] at refused
      exact absurd rfl refused
  exact (allowed_run_exclusive oneDrive_unopened run).1

/-- Two handles on one file lock the same range. -/
theorem both_handles_lock :
    ¬ ∀ (dm last : DriveManager Locking) (calls : List LockCall), dm.Unopened →
      Run lockStep dm calls last →
        last.Exclusive ∧ ∀ handle unlock lock, last.FailsClean handle unlock lock := by
  intro h
  let last := [openA, openA, lockTen 3, lockTen 4].foldl lockExec oneDrive
  have exclusive := (h oneDrive last _ oneDrive_unopened (run_lockExec _ _)).1
  have first : (last.locks 3).map (fun lock => (lock.1, lock.2.1, lock.2.2 0)) =
      some (2, .made 0, true) := by decide
  have second : (last.locks 4).map (fun lock => (lock.1, lock.2.1, lock.2.2 0)) =
      some (2, .made 0, true) := by decide
  obtain ⟨⟨_, _, left⟩, hleft, sameLeft⟩ := Option.map_eq_some_iff.mp first
  obtain ⟨⟨_, _, right⟩, hright, sameRight⟩ := Option.map_eq_some_iff.mp second
  simp only [Prod.mk.injEq] at sameLeft sameRight
  obtain ⟨rfl, rfl, holdsLeft⟩ := sameLeft
  obtain ⟨rfl, rfl, holdsRight⟩ := sameRight
  exact exclusive 3 4 (by decide) 2 (.made 0) left right hleft hright 0 ⟨holdsLeft, holdsRight⟩

end DriveManager
end Warpine.Vfs
