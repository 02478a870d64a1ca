import Warpine.Lib.Posix
import Warpine.Lib.Table
import Warpine.Vfs.Types

/-! The backend that shows a host directory as a volume: names are looked up
without regard to case, and paths are kept under the volume's root. -/
namespace Warpine.Vfs
open Warpine.Lib Posix

/-- What the host tells of a file besides its kind. Times are seconds since 1970. -/
structure Attrs where
  len : Nat
  readonly : Bool
  created : Option Nat
  accessed : Option Nat
  modified : Option Nat
deriving DecidableEq, Repr

/-- Year, month and day of a day since 1970. -/
def daysToYmd (daysSinceEpoch : Nat) : Nat × Nat × Nat :=
  let z := daysSinceEpoch + 719468
  let era := z / 146097
  let doe := z - era * 146097
  let yoe := (doe - doe / 1460 + doe / 36524 - doe / 146096) / 365
  let y := yoe + era * 400
  let doy := doe - (365 * yoe + yoe / 4 - yoe / 100)
  let mp := (5 * doy + 2) / 153
  let d := doy - (153 * mp + 2) / 5 + 1
  let m := if mp < 10 then mp + 3 else mp - 9
  (if m ≤ 2 then y + 1 else y, m, d)

def systemtimeToDos (secs : Nat) : UInt16 × UInt16 :=
  let timeOfDay := secs % 86400
  let (year, month, day) := daysToYmd (secs / 86400)
  let dosDate := UInt16.ofNat (year - 1980) <<< 9 ||| UInt16.ofNat month <<< 5 ||| UInt16.ofNat day
  let dosTime := UInt16.ofNat (timeOfDay / 3600) <<< 11 |||
    UInt16.ofNat (timeOfDay % 3600 / 60) <<< 5 ||| UInt16.ofNat (timeOfDay % 60) / 2
  (dosDate, dosTime)

def metadataToFileStatus (node : Node Attrs) : FileStatus :=
  let dosTime (time : Option Nat) : UInt16 × UInt16 := (time.map systemtimeToDos).getD (0, 0)
  let size := match node.kind with
    | .file data => UInt32.ofNat data.length
    | _ => UInt32.ofNat node.attrs.len
  let kindBits := match node.kind with
    | .dir _ => FileAttribute.directory.bits
    | .file _ => FileAttribute.archive.bits
    | .link _ => 0
  { creationDate := (dosTime node.attrs.created).1
    creationTime := (dosTime node.attrs.created).2
    lastAccessDate := (dosTime node.attrs.accessed).1
    lastAccessTime := (dosTime node.attrs.accessed).2
    lastWriteDate := (dosTime node.attrs.modified).1
    lastWriteTime := (dosTime node.attrs.modified).2
    fileSize := size
    fileAlloc := (size + 511) &&& ~~~511
    attributes :=
      ⟨kindBits ||| if node.attrs.readonly then FileAttribute.readonly.bits else 0⟩ }

/-- The original names of a directory under their lower-case forms. -/
structure DirCacheEntry where
  names : Table Name Name
  created : Nat

def dirCacheTtlMs : Nat := 2000

structure FindState where
  entries : List DirEntry
  position : Nat
deriving DecidableEq, Repr

/-- An open file: its descriptor stands for a physical file. -/
structure OpenFileState where
  file : HostPath
  hostPath : HostPath
deriving DecidableEq, Repr

structure SharingEntry where
  handleId : Nat
  mode : OpenMode
  sharing : SharingMode
deriving DecidableEq, Repr

/-- The backend and the host it runs on: the file tree, what a new file looks
like, and the clock in milliseconds. -/
structure HostDir where
  root : HostPath
  files : Table Nat OpenFileState
  finds : Table Nat FindState
  sharing : Table HostPath (List SharingEntry)
  dirCache : Table HostPath DirCacheEntry
  kernelCasefold : Bool
  nextId : Nat
  tree : FileTree Attrs
  newAttrs : Attrs
  now : Nat

def isSharingCompatible (existingMode : OpenMode) (existingSharing : SharingMode)
    (newMode : OpenMode) (newSharing : SharingMode) : Bool :=
  let allows (sharing : SharingMode) (mode : OpenMode) : Bool := match sharing with
    | .denyReadWrite => false
    | .denyWrite => mode == .readOnly
    | .denyRead => mode == .writeOnly
    | .denyNone => true
  allows existingSharing newMode && allows newSharing existingMode

def mapIoError : IoError → Os2Error
  | .notFound => .fileNotFound
  | .alreadyExists => .fileExists
  | .directoryNotEmpty => .directoryNotEmpty
  | _ => .accessDenied

namespace HostDir

/-- A backend on a directory, given by its physical path. -/
def new (root : HostPath) (kernelCasefold : Bool) (tree : FileTree Attrs) (newAttrs : Attrs) :
    HostDir where
  root := root
  files := .empty
  finds := .empty
  sharing := .empty
  dirCache := .empty
  kernelCasefold := kernelCasefold
  nextId := 1
  tree := tree
  newAttrs := newAttrs
  now := 0

def allocId (s : HostDir) : Nat × HostDir := (s.nextId, { s with nextId := s.nextId + 1 })

def lowerName (name : Name) : Name := name.map Char.toLower

/-- Names that differ only in case share one entry, and the last of them has it. -/
def listedNames (entries : List Name) : Table Name Name :=
  entries.foldl (fun table name => table.insert (lowerName name) name) .empty

def cacheLookup (s : HostDir) (dir : HostPath) (componentLower : Name) : Option Name × HostDir :=
  match (s.dirCache dir).filter fun entry => s.now - entry.created < dirCacheTtlMs with
  | some entry => (entry.names componentLower, s)
  | none => match s.tree.readDir dir with
    | none => (none, s)
    | some entries =>
        let names := listedNames entries
        (names componentLower, { s with dirCache := s.dirCache.insert dir ⟨names, s.now⟩ })

def resolveComponent (s : HostDir) (dir : HostPath) (component : Name) : Option Name × HostDir :=
  if s.tree.present (dir ++ [component]) then (some component, s)
  else s.cacheLookup dir (lowerName component)

/-- The walk of a relative path from the root. Going up stops at the root. -/
def resolveComponents (s : HostDir) : HostPath → List Name → Option HostPath × HostDir
  | current, [] => (some current, s)
  | current, component :: rest =>
      if component = [] ∨ component = dot then resolveComponents s current rest
      else if component = dotDot then
        if current = s.root then resolveComponents s current rest
        else match parent current with
          | none => (none, s)
          | some up => resolveComponents s up rest
      else match s.resolveComponent current component with
        | (none, s) => (none, s)
        | (some resolved, s) => resolveComponents s (current ++ [resolved]) rest

def resolveCi (s : HostDir) (relPath : Path) : Option HostPath × HostDir :=
  if s.kernelCasefold then
    let candidate := join s.root relPath
    (if s.tree.present candidate then some candidate else none, s)
  else s.resolveComponents s.root (relPath.splitOn '/')

def enforceSandbox (s : HostDir) (path : HostPath) : VfsResult Unit :=
  let under (path : HostPath) : VfsResult Unit :=
    if s.root.isPrefixOf path then .ok () else .error .accessDenied
  if s.tree.present path then
    match s.tree.canonicalize path with
    | none => .error .pathNotFound
    | some checkPath => under checkPath
  else match (parent path).bind s.tree.canonicalize with
    | none => .error .pathNotFound
    | some canonParent => do
        under canonParent
        match fileName path with
        | none => .error .pathNotFound
        | some filename => under (canonParent ++ [filename])

def resolveExisting (s : HostDir) (relPath : Path) : VfsResult HostPath × HostDir :=
  match s.resolveCi relPath with
  | (none, s) => (.error .fileNotFound, s)
  | (some resolved, s) => ((s.enforceSandbox resolved).map fun _ => resolved, s)

/-- Everything before and after the last separator. -/
def splitLast (path : Path) : Path × Path :=
  let last := (path.reverse.takeWhile (· ≠ '/')).reverse
  (path.take (path.length - last.length - 1), last)

def utf8Len (name : Path) : Nat := (name.map fun c => c.utf8Size).sum

def resolveForCreate (s : HostDir) (relPath : Path) : VfsResult HostPath × HostDir :=
  let (parentRel, filename) := splitLast relPath
  if relPath = [] then (.error .pathNotFound, s)
  else if 254 < utf8Len filename then (.error .filenameExcedRange, s)
  else
    let (resolved, s) := if parentRel = [] then (some s.root, s) else s.resolveCi parentRel
    match resolved with
    | none => (.error .pathNotFound, s)
    | some parentDir =>
        if ¬ s.tree.isDir parentDir then (.error .pathNotFound, s)
        else
          let full := join parentDir filename
          ((s.enforceSandbox full).map fun _ => full, s)

def invalidate (s : HostDir) (dir : Option HostPath) : HostDir :=
  match dir with
  | some dir => { s with dirCache := s.dirCache.erase dir }
  | none => s

/-- The path an open works on, and what it does there. -/
def openPath (s : HostDir) (path : Path) (flags : OpenFlags) :
    VfsResult (HostPath × OpenAction) × HostDir :=
  match s.resolveCi path with
  | (some existing, s) => match flags.existAction with
    | .open => ((s.enforceSandbox existing).map fun _ => (existing, .existed), s)
    | .replace => ((s.enforceSandbox existing).map fun _ => (existing, .replaced), s)
    | .fail => (.error .fileExists, s)
  | (none, s) => match flags.newAction with
    | .create =>
        let (created, s) := s.resolveForCreate path
        (created.map fun created => (created, .created), s)
    | .fail => (.error .fileNotFound, s)

def openFile (s : HostDir) (path : Path) (mode : OpenMode) (sharing : SharingMode)
    (flags : OpenFlags) (_attributes : FileAttribute) :
    VfsResult (VfsFileHandle × OpenAction) × HostDir :=
  match s.openPath path flags with
  | (.error e, s) => (.error e, s)
  | (.ok (hostPath, action), s) =>
      let (handleId, s) := s.allocId
      let existing := (s.sharing hostPath).getD []
      if existing.all fun entry => isSharingCompatible entry.mode entry.sharing mode sharing then
        let create := action == .created || action == .replaced
        match s.tree.openFile hostPath (mode != .readOnly || create) create (action == .replaced)
            s.newAttrs with
        | .error e => (.error (mapIoError e), s)
        | .ok (file, tree) =>
            let s := { s with
              tree
              sharing :=
                s.sharing.insert hostPath (existing ++ [SharingEntry.mk handleId mode sharing]) }
            let s := if create then s.invalidate (parent hostPath) else s
            (.ok (⟨handleId⟩, action),
              { s with files := s.files.insert handleId ⟨file, hostPath⟩ })
      else (.error .sharingViolation, s)

def close (s : HostDir) (handle : VfsFileHandle) : VfsResult Unit × HostDir :=
  match s.files handle.id with
  | none => (.error .invalidHandle, s)
  | some entry =>
      let kept := ((s.sharing entry.hostPath).getD []).filter fun e => e.handleId != handle.id
      (.ok (), { s with
        files := s.files.erase handle.id
        sharing := if kept = [] then s.sharing.erase entry.hostPath
          else s.sharing.insert entry.hostPath kept })

end HostDir

/-- `rest` matches some end of the name. -/
def starMatch (rest : Name → Bool) : Name → Bool
  | [] => rest []
  | c :: name => rest (c :: name) || starMatch rest name

def wildcardMatchRecursive : Path → Name → Bool
  | [], name => name.isEmpty
  | '*' :: pattern, name => starMatch (wildcardMatchRecursive pattern) name
  | '?' :: pattern, name => match name with
    | [] => false
    | _ :: name => wildcardMatchRecursive pattern name
  | pc :: pattern, name => match name with
    | [] => false
    | nc :: name => pc == nc && wildcardMatchRecursive pattern name

def wildcardMatch (pattern : Path) (name : Name) : Bool :=
  let p := pattern.map Char.toLower
  if p = "*.*".toList then true else wildcardMatchRecursive p (name.map Char.toLower)

/-- Hidden, system and directory entries need their bit in the filter. -/
def attributesMatch (entryAttrs filter : FileAttribute) : Bool :=
  let gated :=
    FileAttribute.hidden.bits ||| FileAttribute.system.bits ||| FileAttribute.directory.bits
  let entryGated := entryAttrs.bits &&& gated
  ! (entryGated != 0 && entryGated &&& filter.bits != entryGated)

namespace HostDir

/-- The directory's own entries, as the search lists them. -/
def listedEntries (s : HostDir) (dirPath : HostPath) (names : List Name) (filePattern : Path)
    (attrFilter : FileAttribute) : List DirEntry :=
  (names.filter (wildcardMatch filePattern)).filterMap fun name =>
    ((s.tree.entry dirPath name).map metadataToFileStatus).bind fun status =>
      if attributesMatch status.attributes attrFilter then some ⟨name, status⟩ else none

/-- An entry for the directory itself or its parent, where pattern and filter ask for it. -/
def dotEntry (s : HostDir) (name : Name) (path : HostPath) (filePattern : Path)
    (attrFilter : FileAttribute) : List DirEntry :=
  if wildcardMatch filePattern name && attrFilter.contains .directory then
    ((s.tree.lookup path).map fun node => DirEntry.mk name (metadataToFileStatus node)).toList
  else []

/-- The dot entries come first. -/
def capture (s : HostDir) (dirPath : HostPath) (names : List Name) (filePattern : Path)
    (attrFilter : FileAttribute) : List DirEntry :=
  s.dotEntry dot dirPath filePattern attrFilter ++
    s.dotEntry dotDot ((parent dirPath).getD dirPath) filePattern attrFilter ++
      s.listedEntries dirPath names filePattern attrFilter

def findFirst (s : HostDir) (pattern : Path) (attrFilter : FileAttribute) :
    VfsResult (VfsFindHandle × DirEntry) × HostDir :=
  let (dirPart, filePattern) := splitLast pattern
  let (resolved, s) := if dirPart = [] then (some s.root, s) else s.resolveCi dirPart
  match resolved with
  | none => (.error .pathNotFound, s)
  | some dirPath => match s.enforceSandbox dirPath with
    | .error e => (.error e, s)
    | .ok () => match s.tree.readDir dirPath with
      | none => (.error .pathNotFound, s)
      | some names => match s.capture dirPath names filePattern attrFilter with
        | [] => (.error .noMoreFiles, s)
        | first :: rest =>
            let (handleId, s) := s.allocId
            (.ok (⟨handleId⟩, first),
              { s with finds := s.finds.insert handleId ⟨first :: rest, 1⟩ })

def findNext (s : HostDir) (handle : VfsFindHandle) : VfsResult DirEntry × HostDir :=
  match s.finds handle.id with
  | none => (.error .invalidHandle, s)
  | some state => match state.entries[state.position]? with
    | none => (.error .noMoreFiles, s)
    | some entry =>
        (.ok entry,
          { s with
            finds := s.finds.insert handle.id { state with position := state.position + 1 } })

def findClose (s : HostDir) (handle : VfsFindHandle) : VfsResult Unit × HostDir :=
  match s.finds handle.id with
  | none => (.error .invalidHandle, s)
  | some _ => (.ok (), { s with finds := s.finds.erase handle.id })

def createDir (s : HostDir) (path : Path) : VfsResult Unit × HostDir :=
  match s.resolveForCreate path with
  | (.error e, s) => (.error e, s)
  | (.ok hostPath, s) => match s.tree.mkdir hostPath s.newAttrs with
    | .error e => (.error (mapIoError e), s)
    | .ok tree => (.ok (), { s with tree }.invalidate (parent hostPath))

def deleteDir (s : HostDir) (path : Path) : VfsResult Unit × HostDir :=
  match s.resolveExisting path with
  | (.error e, s) => (.error e, s)
  | (.ok hostPath, s) => match s.tree.rmdir hostPath with
    | .error e => (.error (mapIoError e), s)
    | .ok tree => (.ok (), { s with tree }.invalidate (parent hostPath))

def delete (s : HostDir) (path : Path) : VfsResult Unit × HostDir :=
  match s.resolveExisting path with
  | (.error e, s) => (.error e, s)
  | (.ok hostPath, s) => match s.tree.unlink hostPath with
    | .error e => (.error (mapIoError e), s)
    | .ok tree => (.ok (), { s with tree }.invalidate (parent hostPath))

def rename (s : HostDir) (oldPath newPath : Path) : VfsResult Unit × HostDir :=
  match s.resolveExisting oldPath with
  | (.error e, s) => (.error e, s)
  | (.ok oldHost, s) => match s.resolveForCreate newPath with
    | (.error e, s) => (.error e, s)
    | (.ok newHost, s) => match s.tree.rename oldHost newHost with
      | .error e => (.error (mapIoError e), s)
      | .ok tree =>
          (.ok (), ({ s with tree }.invalidate (parent oldHost)).invalidate (parent newHost))

def copy (s : HostDir) (srcPath dstPath : Path) : VfsResult Unit × HostDir :=
  match s.resolveExisting srcPath with
  | (.error e, s) => (.error e, s)
  | (.ok srcHost, s) => match s.resolveForCreate dstPath with
    | (.error e, s) => (.error e, s)
    | (.ok dstHost, s) => match s.tree.copyFile srcHost dstHost s.newAttrs with
      | .error e => (.error (mapIoError e), s)
      | .ok tree => (.ok (), { s with tree }.invalidate (parent dstHost))

def queryPathInfo (s : HostDir) (path : Path) : VfsResult FileStatus × HostDir :=
  match s.resolveExisting path with
  | (.error e, s) => (.error e, s)
  | (.ok hostPath, s) => match s.tree.resolve hostPath with
    | .error e => (.error (mapIoError e), s)
    | .ok place => match s.tree place with
      | none => (.error .fileNotFound, s)
      | some node => (.ok (metadataToFileStatus node), s)

def toHostPath (s : HostDir) (relPath : Path) : Option HostPath × HostDir := s.resolveCi relPath

/-- A search that was opened stands behind its first entry. -/
theorem findFirst_finds {s next : HostDir} {pattern : Path} {filter : FileAttribute}
    {handle : VfsFindHandle} {first : DirEntry}
    (h : s.findFirst pattern filter = (.ok (handle, first), next)) :
    ∃ rest, next.finds handle.id = some ⟨first :: rest, 1⟩ := by
  unfold findFirst at h
  dsimp only at h
  split at h
  · cases h
  · split at h
    · cases h
    · split at h
      · cases h
      · split at h
        · cases h
        · rename_i first rest _
          cases h
          exact ⟨rest, Table.insert_self ..⟩

instance : VfsBackend HostDir where
  openFile := HostDir.openFile
  close := HostDir.close
  findFirst := HostDir.findFirst
  findNext := HostDir.findNext
  findClose := HostDir.findClose

end HostDir
end Warpine.Vfs
