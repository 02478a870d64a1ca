import Warpine.Lib.Table
import Warpine.Vfs.Types

/-! The drive manager: OS/2 paths are resolved to a drive and a path within its
volume, and the handles a backend gives out are numbered for the guest. -/
namespace Warpine.Vfs
open Warpine.Lib

structure FileEntry where
  drive : Nat
  vfsHandle : VfsFileHandle
deriving DecidableEq, Repr

structure FindEntry where
  drive : Nat
  vfsHandle : VfsFindHandle
  level : Nat
deriving DecidableEq, Repr

structure DriveManager (β : Type) where
  drives : Nat → Option β
  fileHandles : Table Nat FileEntry
  findHandles : Table Nat FindEntry
  nextFileHandle : Nat
  nextFindHandle : Nat
  currentDisk : Nat
  currentDirs : Nat → Path

namespace DriveManager

def new {β : Type} : DriveManager β where
  drives := fun _ => none
  fileHandles := .empty
  findHandles := .empty
  nextFileHandle := 3
  nextFindHandle := 10
  currentDisk := 2
  currentDirs := fun _ => []

def isSeparator (c : Char) : Bool := c == '\\' || c == '/'

/-- The last component of a path, and of that the part before its first dot. -/
def deviceBase (path : Path) : Path :=
  ((path.reverse.takeWhile fun c => !isSeparator c).reverse).takeWhile (· != '.')

def deviceNames : List Path :=
  ["NUL".toList, "CON".toList, "CLOCK$".toList, "KBD$".toList, "SCREEN$".toList]

def checkDeviceName (path : Path) : Option Path :=
  deviceNames.find? (· == (deviceBase path).map Char.toUpper)

/-- A path that starts with one ASCII character and a colon; the source looks
at the second byte, which no longer character leaves equal to a colon. -/
def drivePrefix : Path → Option (Char × Path)
  | letter :: ':' :: rest => if letter.toNat < 128 then some (letter, rest) else none
  | _ => none

def joinDir (dir rest : Path) : Path :=
  if dir.isEmpty then rest else dir ++ '/' :: rest

variable {β : Type}

def mount (dm : DriveManager β) (drive : Nat) (backend : β) : DriveManager β :=
  { dm with drives := fun other => if other = drive then some backend else dm.drives other }

def resolvePath (dm : DriveManager β) (os2Path : Path) : VfsResult (Nat × Path) :=
  if (['\\', '\\'].isPrefixOf os2Path || ['/', '/'].isPrefixOf os2Path) then
    .error .pathNotFound
  else do
    let path := os2Path.map fun c => if c = '\\' then '/' else c
    let (drive, rest) ← match drivePrefix path with
      | some (letter, rest) =>
          if letter.toUpper.isUpper then .ok (letter.toUpper.toNat - 'A'.toNat, rest)
          else .error Os2Error.invalidDrive
      | none => .ok (dm.currentDisk, path)
    if (dm.drives drive).isNone then throw .invalidDrive
    -- without a separator in the path this is false, and the path is relative
    let absolute := rest.head? == some '/'
    let rest := rest.dropWhile (· == '/')
    if rest.isEmpty then .ok (drive, dm.currentDirs drive)
    else if absolute then .ok (drive, rest)
    else .ok (drive, joinDir (dm.currentDirs drive) rest)

variable [VfsBackend β]

/-- The part of `open_file` before a handle number is taken: the drive the path
names and what its backend answers. -/
def openVfs (dm : DriveManager β) (os2Path : Path) (mode : OpenMode) (sharing : SharingMode)
    (flags : OpenFlags) (attributes : FileAttribute) :
    VfsResult (Nat × VfsFileHandle × OpenAction) × DriveManager β :=
  -- NUL and the other devices are refused alike
  if (checkDeviceName os2Path).isSome then (.error .invalidParameter, dm)
  else match dm.resolvePath os2Path with
    | .error e => (.error e, dm)
    | .ok (drive, relPath) => match dm.drives drive with
      | none => (.error .invalidDrive, dm)
      | some backend =>
          let (result, backend) :=
            VfsBackend.openFile backend relPath mode sharing flags attributes
          (result.map fun opened => (drive, opened.1, opened.2), dm.mount drive backend)

def openFile (dm : DriveManager β) (os2Path : Path) (mode : OpenMode) (sharing : SharingMode)
    (flags : OpenFlags) (attributes : FileAttribute) :
    VfsResult (Nat × OpenAction) × DriveManager β :=
  match dm.openVfs os2Path mode sharing flags attributes with
  | (.error e, dm) => (.error e, dm)
  | (.ok (drive, vfsHandle, action), dm) =>
      let os2Handle := dm.nextFileHandle
      (.ok (os2Handle, action),
        { dm with
          nextFileHandle := wrapAdd os2Handle 1
          fileHandles := dm.fileHandles.insert os2Handle ⟨drive, vfsHandle⟩ })

def closeFile (dm : DriveManager β) (handle : Nat) : VfsResult Unit × DriveManager β :=
  match dm.fileHandles handle with
  | none => (.error .invalidHandle, dm)
  | some entry =>
      let dm := { dm with fileHandles := dm.fileHandles.erase handle }
      match dm.drives entry.drive with
      | none => (.error .invalidHandle, dm)
      | some backend =>
          let (result, backend) := VfsBackend.close backend entry.vfsHandle
          (result, dm.mount entry.drive backend)

def findFirst (dm : DriveManager β) (os2Path : Path) (attributes : FileAttribute) (level : Nat) :
    VfsResult (Nat × DirEntry) × DriveManager β :=
  match dm.resolvePath os2Path with
  | .error e => (.error e, dm)
  | .ok (drive, relPath) => match dm.drives drive with
    | none => (.error .invalidDrive, dm)
    | some backend => match VfsBackend.findFirst backend relPath attributes with
      | (.error e, backend) => (.error e, dm.mount drive backend)
      | (.ok (vfsHandle, entry), backend) =>
          let os2Handle := dm.nextFindHandle
          (.ok (os2Handle, entry),
            { dm.mount drive backend with
              nextFindHandle := wrapAdd os2Handle 1
              findHandles := dm.findHandles.insert os2Handle ⟨drive, vfsHandle, level⟩ })

def findLevel (dm : DriveManager β) (handle : Nat) : Nat :=
  ((dm.findHandles handle).map FindEntry.level).getD 1

def findNext (dm : DriveManager β) (handle : Nat) : VfsResult DirEntry × DriveManager β :=
  match dm.findHandles handle with
  | none => (.error .invalidHandle, dm)
  | some entry => match dm.drives entry.drive with
    | none => (.error .invalidHandle, dm)
    | some backend =>
        let (result, backend) := VfsBackend.findNext backend entry.vfsHandle
        (result, dm.mount entry.drive backend)

def findClose (dm : DriveManager β) (handle : Nat) : VfsResult Unit × DriveManager β :=
  match dm.findHandles handle with
  | none => (.error .invalidHandle, dm)
  | some entry =>
      let dm := { dm with findHandles := dm.findHandles.erase handle }
      match dm.drives entry.drive with
      | none => (.error .invalidHandle, dm)
      | some backend =>
          let (result, backend) := VfsBackend.findClose backend entry.vfsHandle
          (result, dm.mount entry.drive backend)

/-- Whatever the backend answers, the tables of handles are as before. -/
theorem openVfs_tables (dm : DriveManager β) (os2Path : Path) (mode : OpenMode)
    (sharing : SharingMode) (flags : OpenFlags) (attributes : FileAttribute) :
    (dm.openVfs os2Path mode sharing flags attributes).2.fileHandles = dm.fileHandles ∧
      (dm.openVfs os2Path mode sharing flags attributes).2.nextFileHandle = dm.nextFileHandle := by
  unfold openVfs
  split
  · simp
  · split
    · simp
    · split
      · simp
      · simp [mount]

/-- Closing forgets the handle, whether or not it was open. -/
@[simp] theorem closeFile_fileHandles (dm : DriveManager β) (handle : Nat) :
    (dm.closeFile handle).2.fileHandles = dm.fileHandles.erase handle := by
  unfold closeFile
  split
  · rename_i absent
    funext other
    by_cases h : other = handle
    · simp [h, absent]
    · simp [h]
  · dsimp only
    split <;> simp [mount]

@[simp] theorem closeFile_nextFileHandle (dm : DriveManager β) (handle : Nat) :
    (dm.closeFile handle).2.nextFileHandle = dm.nextFileHandle := by
  unfold closeFile
  split
  · rfl
  · dsimp only
    split <;> simp [mount]

end DriveManager

/-- A backend without state that grants every open and lists no entry. -/
inductive MockBackend where
  | mk
deriving DecidableEq

instance : VfsBackend MockBackend where
  openFile backend _ _ _ _ _ := (.ok (⟨42⟩, .created), backend)
  close backend _ := (.ok (), backend)
  findFirst backend _ _ := (.error .noMoreFiles, backend)
  findNext backend _ := (.error .noMoreFiles, backend)
  findClose backend _ := (.ok (), backend)

end Warpine.Vfs
