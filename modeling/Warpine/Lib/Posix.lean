import Mathlib.Data.List.Basic

/-! A file tree with symbolic links, and how the kernel resolves a path in it.
Nodes stand at physical paths, which hold no link and no dot name. -/
namespace Warpine.Lib.Posix

abbrev Name := List Char

/-- An absolute path. Dot names are names like others until it is resolved. -/
abbrev HostPath := List Name

def dot : Name := ['.']
def dotDot : Name := ['.', '.']

/-- A text as names. A separator at the end asks for a directory, as a dot does. -/
def components (text : List Char) : List Name :=
  let names := (text.splitOn '/').filter (· ≠ [])
  if text.getLast? = some '/' ∧ names ≠ [] then names ++ [dot] else names

/-- An absolute text takes the place of the path it is joined to. -/
def join (path : HostPath) (text : List Char) : HostPath :=
  if text.head? = some '/' then components text else path ++ components text

def normal (path : HostPath) : HostPath := path.filter (· ≠ dot)

def parent (path : HostPath) : Option HostPath :=
  if normal path = [] then none else some (normal path).dropLast

def fileName (path : HostPath) : Option Name :=
  (normal path).getLast?.filter (· ≠ dotDot)

inductive Kind where
  | dir (entries : List Name)
  | file (data : List UInt8)
  | link (target : List Char)
deriving DecidableEq, Repr

structure Node (α : Type) where
  kind : Kind
  attrs : α
deriving DecidableEq, Repr

def Node.isDir {α : Type} (node : Node α) : Bool :=
  match node.kind with
  | .dir _ => true
  | _ => false

/-- Why the kernel refuses a path or an operation on it. -/
inductive IoError where
  | notFound
  | notADirectory
  | isADirectory
  | tooManyLinks
  | alreadyExists
  | directoryNotEmpty
  | busy
  | invalidInput
deriving DecidableEq, Repr

/-- The node at each physical path. The empty path is the root directory. -/
abbrev FileTree (α : Type) := HostPath → Option (Node α)

namespace FileTree

variable {α : Type} (tree : FileTree α)

/-- One level of the walk: `onLink` goes on where a link is met. With `create`
the last name may be missing. -/
def walkWith (create : Bool) (onLink : HostPath → List Name → Except IoError HostPath) :
    HostPath → List Name → Except IoError HostPath
  | current, [] => .ok current
  | current, name :: rest =>
      if name = dot then walkWith create onLink current rest
      else if name = dotDot then walkWith create onLink current.dropLast rest
      else match tree (current ++ [name]) with
        | none => if create ∧ rest = [] then .ok (current ++ [name]) else .error .notFound
        | some node => match node.kind with
          | .dir _ => walkWith create onLink (current ++ [name]) rest
          | .file _ => if rest = [] then .ok (current ++ [name]) else .error .notADirectory
          | .link target =>
              onLink (if target.head? = some '/' then [] else current) (components target ++ rest)

/-- At most `links` links are followed. -/
def walk (create : Bool) : Nat → HostPath → List Name → Except IoError HostPath
  | 0 => tree.walkWith create fun _ _ => .error .tooManyLinks
  | links + 1 => tree.walkWith create (walk create links)

def maxLinks : Nat := 40

def resolve (path : HostPath) : Except IoError HostPath := tree.walk false maxLinks [] path

/-- The physical path of what a path names. -/
def canonicalize (path : HostPath) : Option HostPath := (tree.resolve path).toOption

def lookup (path : HostPath) : Option (Node α) := (tree.canonicalize path).bind tree

def present (path : HostPath) : Bool := (tree.lookup path).isSome

def isDir (path : HostPath) : Bool := (tree.lookup path).any Node.isDir

def readDir (path : HostPath) : Option (List Name) :=
  (tree.lookup path).bind fun node => match node.kind with
    | .dir entries => some entries
    | _ => none

/-- The node of a directory's entry itself, where the entry is a link too. -/
def entry (dir : HostPath) (name : Name) : Option (Node α) :=
  (tree.canonicalize dir).bind fun current => tree (current ++ [name])

/-- A new node, listed last in its directory. -/
def insertNode (path : HostPath) (node : Node α) : FileTree α := fun other =>
  if other = path then some node
  else if other = path.dropLast then (tree other).map fun parent => match parent.kind with
    | .dir entries =>
        { parent with
          kind := .dir ((entries.filter (some · ≠ path.getLast?)) ++ path.getLast?.toList) }
    | _ => parent
  else tree other

/-- `open`: the physical path of the file, and the tree after it. -/
def openFile (path : HostPath) (write create truncate : Bool) (attrs : α) :
    Except IoError (HostPath × FileTree α) := do
  let file ← tree.walk create maxLinks [] path
  match tree file with
  | none => return (file, tree.insertNode file ⟨.file [], attrs⟩)
  | some node => match node.kind with
    | .file _ =>
        if truncate then
          return (file, fun other =>
            if other = file then some { node with kind := .file [] } else tree other)
        else return (file, tree)
    | _ => if write ∨ create ∨ truncate then throw .isADirectory else return (file, tree)

/-- The names in the directory at a physical path. -/
def names (path : HostPath) : Option (List Name) :=
  (tree path).bind fun node => match node.kind with
    | .dir entries => some entries
    | _ => none

/-- Where a name stands: its directory is followed, the name itself is not. -/
def locate (path : HostPath) : Except IoError HostPath :=
  match path.getLast? with
  | none => .error .busy
  | some name =>
      if name = dot ∨ name = dotDot then .error .busy
      else do
        let dir ← tree.resolve path.dropLast
        if (tree.names dir).isSome then .ok (dir ++ [name]) else .error .notADirectory

/-- Without a node, all below it, and its name in its directory. -/
def prune (path : HostPath) : FileTree α := fun other =>
  if path <+: other then none
  else if other = path.dropLast then (tree other).map fun parent => match parent.kind with
    | .dir entries => { parent with kind := .dir (entries.filter (some · ≠ path.getLast?)) }
    | _ => parent
  else tree other

/-- With another tree put at a path. -/
def graft (path : HostPath) (branch : FileTree α) : FileTree α := fun other =>
  if path <+: other then branch (other.drop path.length)
  else if other = path.dropLast then (tree other).map fun parent => match parent.kind with
    | .dir entries =>
        { parent with
          kind := .dir ((entries.filter (some · ≠ path.getLast?)) ++ path.getLast?.toList) }
    | _ => parent
  else tree other

def mkdir (path : HostPath) (attrs : α) : Except IoError (FileTree α) :=
  match tree.locate path with
  | .error .busy => .error .alreadyExists
  | .error e => .error e
  | .ok place =>
      if (tree place).isSome then .error .alreadyExists
      else .ok (tree.insertNode place ⟨.dir [], attrs⟩)

def rmdir (path : HostPath) : Except IoError (FileTree α) := do
  let place ← tree.locate path
  match tree place with
  | none => .error .notFound
  | some node => match node.kind with
    | .dir [] => .ok (tree.prune place)
    | .dir _ => .error .directoryNotEmpty
    | _ => .error .notADirectory

def unlink (path : HostPath) : Except IoError (FileTree α) := do
  let place ← tree.locate path
  match tree place with
  | none => .error .notFound
  | some node => if node.isDir then .error .isADirectory else .ok (tree.prune place)

/-- Whether a node can take the place of another. -/
def replaces (node : Node α) : Option (Node α) → Except IoError Unit
  | none => .ok ()
  | some target => match target.kind with
    | .dir [] => if node.isDir then .ok () else .error .isADirectory
    | .dir _ => if node.isDir then .error .directoryNotEmpty else .error .isADirectory
    | _ => if node.isDir then .error .notADirectory else .ok ()

def rename (old new : HostPath) : Except IoError (FileTree α) := do
  let source ← tree.locate old
  let target ← tree.locate new
  match tree source with
  | none => .error .notFound
  | some node =>
      if target = source then .ok tree
      else if source <+: target then .error .invalidInput
      else if target <+: source then .error .directoryNotEmpty
      else do
        replaces node (tree target)
        .ok ((tree.prune source).graft target fun below => tree (source ++ below))

/-- The copy of a file's data. Where both paths are one file, opening it for
writing leaves nothing to copy. -/
def copyFile (source target : HostPath) (attrs : α) : Except IoError (FileTree α) := do
  let from_ ← tree.resolve source
  match tree from_ with
  | none => .error .notFound
  | some node => match node.kind with
    | .file _ =>
        let (file, opened) ← tree.openFile target true true true attrs
        let data := match opened from_ with
          | some { kind := .file data, .. } => data
          | _ => []
        .ok fun other =>
          if other = file then (opened other).map fun node => { node with kind := .file data }
          else opened other
    | _ => .error .invalidInput

end FileTree
end Warpine.Lib.Posix
