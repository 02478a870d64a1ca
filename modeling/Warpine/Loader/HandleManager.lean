import Warpine.Lib.Table
import Warpine.Lib.Words

/-! Handles of pipes and other host files, numbered from a base of their own. -/
namespace Warpine.Loader
open Warpine.Lib

/-- VFS handles occupy 3..PIPE_HANDLE_BASE-1, pipe handles PIPE_HANDLE_BASE and up. -/
def pipeHandleBase : Nat := 0x1000

structure HandleManager (File : Type) where
  handles : Table Nat File
  nextHandle : Nat

namespace HandleManager

variable {File : Type}

def new : HandleManager File where
  handles := .empty
  nextHandle := pipeHandleBase

def add (mgr : HandleManager File) (file : File) : Nat × HandleManager File :=
  (mgr.nextHandle,
    { handles := mgr.handles.insert mgr.nextHandle file
      nextHandle := wrapAdd mgr.nextHandle 1 })

def get (mgr : HandleManager File) (h : Nat) : Option File := mgr.handles h

def insert (mgr : HandleManager File) (file : File) : Nat × HandleManager File := mgr.add file

def replace (mgr : HandleManager File) (h : Nat) (file : File) : HandleManager File :=
  { mgr with handles := mgr.handles.insert h file }

def close (mgr : HandleManager File) (h : Nat) : Bool × HandleManager File :=
  ((mgr.handles h).isSome, { mgr with handles := mgr.handles.erase h })

end HandleManager
end Warpine.Loader
