import Warpine.Lib.Words

/-! The data types of the virtual filesystem, and the operations a drive's
backend offers. Paths are character lists. -/
namespace Warpine.Vfs
open Warpine.Lib

structure Os2Error where
  code : Nat
deriving DecidableEq, Repr

namespace Os2Error

def noError : Os2Error := ⟨0⟩
def invalidFunction : Os2Error := ⟨1⟩
def fileNotFound : Os2Error := ⟨2⟩
def pathNotFound : Os2Error := ⟨3⟩
def tooManyOpenFiles : Os2Error := ⟨4⟩
def accessDenied : Os2Error := ⟨5⟩
def invalidHandle : Os2Error := ⟨6⟩
def notEnoughMemory : Os2Error := ⟨8⟩
def invalidDrive : Os2Error := ⟨15⟩
def notSameDevice : Os2Error := ⟨17⟩
def noMoreFiles : Os2Error := ⟨18⟩
def sharingViolation : Os2Error := ⟨32⟩
def lockViolation : Os2Error := ⟨33⟩
def fileExists : Os2Error := ⟨80⟩
def invalidParameter : Os2Error := ⟨87⟩
def openFailed : Os2Error := ⟨110⟩
def bufferOverflow : Os2Error := ⟨111⟩
def diskFull : Os2Error := ⟨112⟩
def directoryNotEmpty : Os2Error := ⟨145⟩
def filenameExcedRange : Os2Error := ⟨206⟩
def eaNotFound : Os2Error := ⟨254⟩

end Os2Error

abbrev VfsResult (α : Type) := Except Os2Error α

abbrev Path := List Char

inductive OpenMode where
  | readOnly
  | writeOnly
  | readWrite
deriving DecidableEq, Repr

inductive SharingMode where
  | denyReadWrite
  | denyWrite
  | denyRead
  | denyNone
deriving DecidableEq, Repr

inductive ExistAction where
  | fail
  | open
  | replace
deriving DecidableEq, Repr

inductive NewAction where
  | fail
  | create
deriving DecidableEq, Repr

structure OpenFlags where
  existAction : ExistAction
  newAction : NewAction
deriving DecidableEq, Repr

inductive OpenAction where
  | existed
  | created
  | replaced
deriving DecidableEq, Repr

structure FileAttribute where
  bits : UInt32
deriving DecidableEq, Repr

namespace FileAttribute

def normal : FileAttribute := ⟨0x00⟩
def readonly : FileAttribute := ⟨0x01⟩
def hidden : FileAttribute := ⟨0x02⟩
def system : FileAttribute := ⟨0x04⟩
def directory : FileAttribute := ⟨0x10⟩
def archive : FileAttribute := ⟨0x20⟩

def contains (attributes other : FileAttribute) : Bool :=
  attributes.bits &&& other.bits == other.bits

end FileAttribute

/-- Dates and times are in DOS packing. -/
structure FileStatus where
  creationDate : UInt16
  creationTime : UInt16
  lastAccessDate : UInt16
  lastAccessTime : UInt16
  lastWriteDate : UInt16
  lastWriteTime : UInt16
  fileSize : UInt32
  fileAlloc : UInt32
  attributes : FileAttribute
deriving DecidableEq, Repr

structure DirEntry where
  name : Path
  status : FileStatus
deriving DecidableEq, Repr

structure VfsFileHandle where
  id : Nat
deriving DecidableEq, Repr

structure VfsFindHandle where
  id : Nat
deriving DecidableEq, Repr

/-- The operations of a backend with state `β`. The state is threaded through
failing calls too, as a backend may change it before it fails. -/
class VfsBackend (β : Type) where
  openFile : β → Path → OpenMode → SharingMode → OpenFlags → FileAttribute →
    VfsResult (VfsFileHandle × OpenAction) × β
  close : β → VfsFileHandle → VfsResult Unit × β
  findFirst : β → Path → FileAttribute → VfsResult (VfsFindHandle × DirEntry) × β
  findNext : β → VfsFindHandle → VfsResult DirEntry × β
  findClose : β → VfsFindHandle → VfsResult Unit × β

end Warpine.Vfs
