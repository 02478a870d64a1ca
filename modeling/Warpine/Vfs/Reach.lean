import Warpine.Lib.Utf8
import Warpine.Vfs.HostRun

/-! The places on the host that a call reaches: what it reads, writes, stats, lists
or hands out. The host tree changes nowhere else. -/
namespace Warpine.Vfs
open Warpine.Lib Posix

structure EaEntry where
  name : String
  value : List UInt8
  flags : UInt8
deriving DecidableEq, Repr

/-- The calls of a backend that go to the host by a path. -/
inductive HostCall where
  | op (op : HostOp)
  | getEa (path : Path) (name : String)
  | setEa (path : Path) (ea : EaEntry)
  | enumEa (path : Path)
  | queryFsInfoAlloc
  | queryFsInfoVolume
  | setFsInfoVolume (label : String)

/-- The file that holds another file's attributes where the host keeps none. -/
def sidecarEaPath (hostPath : HostPath) : Option HostPath :=
  (parent hostPath).bind fun dir => (fileName hostPath).map fun name =>
    dir ++ [".os2ea".toList, name ++ ".ea".toList]

/-- At most `fuel` entries; as many as there are bytes is enough. -/
def sidecarEntries : Nat → List UInt8 → List EaEntry
  | fuel + 1, flags :: nameLen :: low :: high :: rest =>
      let valueLen := low.toNat + 256 * high.toNat
      if rest.length < nameLen.toNat + valueLen then []
      else
        ⟨Utf8.fromUtf8Lossy (rest.take nameLen.toNat), (rest.drop nameLen.toNat).take valueLen,
          flags⟩ :: sidecarEntries fuel (rest.drop (nameLen.toNat + valueLen))
  | _, _ => []

def sidecarReadEas (tree : FileTree Attrs) (hostPath : HostPath) : List EaEntry :=
  match sidecarEaPath hostPath with
  | none => []
  | some eaPath => match (tree.lookup eaPath).map Node.kind with
    | some (.file data) => sidecarEntries data.length data
    | _ => []

/-- An attribute without value and flags is taken out. -/
def setEntry (eas : List EaEntry) (ea : EaEntry) : List EaEntry :=
  eas.filter (·.name ≠ ea.name) ++ if ea.value ≠ [] ∨ ea.flags ≠ 0 then [ea] else []

namespace HostDir

def placed (found : Except IoError HostPath) : List HostPath := found.toOption.toList

/-- Where the sidecar file of a path is read. -/
def sidecarRead (tree : FileTree Attrs) (hostPath : HostPath) : List HostPath :=
  (sidecarEaPath hostPath).toList.flatMap fun eaPath => placed (tree.resolve eaPath)

/-- Where it is removed, or written in a directory that is made first. What stands above
that directory is there, since the check has resolved it. -/
def sidecarWritten (s : HostDir) (hostPath : HostPath) (eas : List EaEntry) : List HostPath :=
  match sidecarEaPath hostPath with
  | none => []
  | some eaPath =>
      if eas = [] then match s.tree.unlink eaPath with
        | .error _ => []
        | .ok _ => placed (s.tree.locate eaPath)
      else
        let (made, tree) := match s.tree.mkdir eaPath.dropLast s.newAttrs with
          | .error _ => ([], s.tree)
          | .ok tree => (placed (s.tree.locate eaPath.dropLast), tree)
        made ++ match tree.openFile eaPath true true true s.newAttrs with
          | .error _ => []
          | .ok (file, _) => [file]

/-- The places that an operation reads, writes, stats or lists, or hands out, by
their physical paths. Looking a path up and checking it do not count. -/
def touched (s : HostDir) : HostOp → List HostPath
  | .openFile path mode sharing flags _ => match s.openPath path flags with
      | (.error _, _) => []
      | (.ok (hostPath, action), s) =>
          let existing := (s.sharing hostPath).getD []
          if existing.all fun entry =>
              isSharingCompatible entry.mode entry.sharing mode sharing then
            let create := action == .created || action == .replaced
            match s.tree.openFile hostPath (mode != .readOnly || create) create
                (action == .replaced) s.newAttrs with
            | .error _ => []
            | .ok (file, _) => [file]
          else []
  | .findFirst pattern attrFilter => match s.parentOf pattern with
      | (none, _) => []
      | (some dirPath, s) => match s.enforceSandbox dirPath with
        | .error _ => []
        | .ok () => placed (s.tree.resolve dirPath) ++ match s.tree.readDir dirPath with
          | none => []
          | some names =>
              (names.filter (wildcardMatch (splitLast pattern).2)).flatMap (fun name =>
                (placed (s.tree.resolve dirPath)).map (· ++ [name])) ++
              if wildcardMatch (splitLast pattern).2 dotDot && attrFilter.contains .directory then
                placed (s.tree.resolve ((parent dirPath).getD dirPath))
              else []
  | .createDir path => match s.resolveForCreate path with
      | (.error _, _) => []
      | (.ok hostPath, s) => match s.tree.mkdir hostPath s.newAttrs with
        | .error _ => []
        | .ok _ => placed (s.tree.locate hostPath)
  | .deleteDir path => match s.resolveExisting path with
      | (.error _, _) => []
      | (.ok hostPath, s) => match s.tree.rmdir hostPath with
        | .error _ => []
        | .ok _ => placed (s.tree.locate hostPath)
  | .delete path => match s.resolveExisting path with
      | (.error _, _) => []
      | (.ok hostPath, s) => match s.tree.unlink hostPath with
        | .error _ => []
        | .ok _ => placed (s.tree.locate hostPath)
  | .rename oldPath newPath => match s.resolveExisting oldPath with
      | (.error _, _) => []
      | (.ok oldHost, s) => match s.resolveForCreate newPath with
        | (.error _, _) => []
        | (.ok newHost, s) => match s.tree.rename oldHost newHost with
          | .error _ => []
          | .ok _ => placed (s.tree.locate oldHost) ++ placed (s.tree.locate newHost)
  | .copy srcPath dstPath => match s.resolveExisting srcPath with
      | (.error _, _) => []
      | (.ok srcHost, s) => match s.resolveForCreate dstPath with
        | (.error _, _) => []
        | (.ok dstHost, s) => placed (s.tree.resolve srcHost) ++
            match s.tree.copyFile srcHost dstHost s.newAttrs with
            | .error _ => []
            | .ok _ => placed (s.tree.walk true FileTree.maxLinks [] dstHost)
  | .queryPathInfo path => match s.resolveExisting path with
      | (.error _, _) => []
      | (.ok hostPath, s) => placed (s.tree.resolve hostPath)
  | .toHostPath path => match s.toHostPath path with
      | (none, _) => []
      | (some hostPath, s) => placed (s.tree.resolve hostPath)
  | .close _ | .findNext _ | .findClose _ | .wait _ => []

def labelPath (s : HostDir) : HostPath := join s.root ".vol_label".toList

/-- With attributes kept by the host, a call on them stays at the path itself. -/
def reached (s : HostDir) (xattrSupported : Bool) : HostCall → List HostPath
  | .op op => s.touched op
  | .getEa path _ | .enumEa path => match s.resolveExisting path with
      | (.error _, _) => []
      | (.ok hostPath, s) =>
          if xattrSupported then placed (s.tree.resolve hostPath) else sidecarRead s.tree hostPath
  | .setEa path ea => match s.resolveExisting path with
      | (.error _, _) => []
      | (.ok hostPath, s) =>
          if xattrSupported then placed (s.tree.resolve hostPath)
          else sidecarRead s.tree hostPath ++
            s.sidecarWritten hostPath (setEntry (sidecarReadEas s.tree hostPath) ea)
  | .queryFsInfoAlloc => placed (s.tree.resolve s.root)
  | .queryFsInfoVolume => placed (s.tree.resolve s.labelPath)
  | .setFsInfoVolume _ => match s.tree.openFile s.labelPath true true true s.newAttrs with
      | .error _ => []
      | .ok (file, _) => [file]

variable {s mid next : HostDir} {path : HostPath}

theorem mem_placed {found : Except IoError HostPath} {place : HostPath} :
    place ∈ placed found ↔ found = .ok place := by
  cases found with
  | error e => simp [placed, Except.toOption]
  | ok other => simp [placed, Except.toOption, eq_comm]

/-- A file that is opened is the one place that the call touches. -/
theorem openFile_touched {mode : OpenMode} {sharing : SharingMode} {flags : OpenFlags}
    {attributes : FileAttribute} {relPath : Path} {handle : VfsFileHandle} {action : OpenAction}
    (h : s.openFile relPath mode sharing flags attributes = (.ok (handle, action), next)) :
    ∃ host file, s.touched (.openFile relPath mode sharing flags attributes) = [file] ∧
      next.files handle.id = some ⟨file, host⟩ ∧
        ∃ mid, s.openPath relPath flags = (.ok (host, action), mid) ∧
          FileTree.ChangesAt mid.tree next.tree [file] := by
  unfold openFile at h
  split at h
  · cases h
  · rename_i host _ mid hfound
    dsimp only [allocId] at h
    split at h
    · rename_i hall
      split at h
      · cases h
      · rename_i file tree hopened
        have htouched : s.touched (.openFile relPath mode sharing flags attributes) = [file] := by
          simp only [touched, hfound, hall, if_true, hopened]
        have hchanges := FileTree.changesAt_openFile hopened
        cases h
        refine ⟨host, file, htouched, Table.insert_self .., mid, hfound, ?_⟩
        split
        · cases hparent : parent host <;> exact hchanges
        · exact hchanges
    · cases h

theorem openFile_changesAt (reg : s.Regular) (relPath : Path) (mode : OpenMode)
    (sharing : SharingMode) (flags : OpenFlags) (attributes : FileAttribute) :
    FileTree.ChangesAt s.tree (s.openFile relPath mode sharing flags attributes).2.tree
      (s.touched (.openFile relPath mode sharing flags attributes)) := by
  cases hresult : s.openFile relPath mode sharing flags attributes with
  | mk result next =>
    cases result with
    | error e =>
      obtain ⟨mid, hresolves, hbecomes, _⟩ := openFile_error reg hresult
      rw [hbecomes.tree, hresolves.tree]
      exact FileTree.ChangesAt.refl s.tree _
    | ok opened =>
      obtain ⟨host, file, htouched, _, mid, hfound, hchanges⟩ := openFile_touched hresult
      rw [htouched, ← (openPath_spec reg hfound).1.tree]
      exact hchanges

/-- An operation changes the tree only at the places it touches. -/
theorem exec_changesAt (reg : s.Regular) (op : HostOp) :
    FileTree.ChangesAt s.tree (s.exec op).tree (s.touched op) := by
  have effect := exec_effect reg op
  generalize hnext : s.exec op = next at effect ⊢
  cases effect with
  | quiet resolved becomes keeps =>
    rw [becomes.tree, resolved.tree]
    exact FileTree.ChangesAt.refl s.tree _
  | openFile opens =>
    rw [← hnext]
    exact openFile_changesAt reg _ _ _ _ _
  | createDir resolved made becomes keeps =>
    have hsame := (resolveForCreate_spec reg resolved).1.tree
    obtain ⟨dir, name, hlocate, _, _, rfl⟩ := FileTree.mkdir_ok made
    simp only [touched, resolved, made, hlocate, becomes.tree, ← hsame]
    exact FileTree.changesAt_insertNode (dir ++ [name]) _
  | deleteDir resolved removed becomes keeps =>
    have hsame := (resolveExisting_spec reg resolved).1.tree
    obtain ⟨dir, name, node, hlocate, _, _, _, rfl⟩ := FileTree.rmdir_ok removed
    simp only [touched, resolved, removed, hlocate, becomes.tree, ← hsame]
    exact FileTree.changesAt_prune (dir ++ [name])
  | delete resolved removed becomes keeps =>
    have hsame := (resolveExisting_spec reg resolved).1.tree
    obtain ⟨dir, name, node, hlocate, _, _, _, rfl⟩ := FileTree.unlink_ok removed
    simp only [touched, resolved, removed, hlocate, becomes.tree, ← hsame]
    exact FileTree.changesAt_prune (dir ++ [name])
  | rename source target moved becomes keeps =>
    have hfirst := (resolveExisting_spec reg source).1
    have hsame := (hfirst.trans (resolveForCreate_spec (hfirst.regular reg) target).1).tree
    obtain ⟨fromDir, fromName, toDir, toName, hold, hnew, _, _, hcase⟩ := FileTree.rename_ok moved
    simp only [touched, source, target, moved, hold, hnew, becomes.tree, ← hsame]
    rcases hcase with ⟨_, rfl⟩ | ⟨node, hmoved⟩
    · exact FileTree.ChangesAt.refl _ _
    · exact hmoved.changesAt
  | copy source target copied becomes keeps =>
    have hfirst := (resolveExisting_spec reg source).1
    have hresolves := hfirst.trans (resolveForCreate_spec (hfirst.regular reg) target).1
    obtain ⟨file, opened, hopen, _, hrest⟩ := FileTree.copyFile_ok copied
    have hwalk := (FileTree.openFile_ok (hresolves.regular reg).wellFormed hopen).1
    simp only [touched, source, target, copied, hwalk, becomes.tree, ← hresolves.tree]
    intro other hchanged
    obtain ⟨place, hplace, hcase⟩ := FileTree.changesAt_copyFile hopen hrest other hchanged
    exact ⟨place, List.mem_append_right _ hplace, hcase⟩
  | close found becomes =>
    rw [becomes.tree]
    exact FileTree.ChangesAt.refl s.tree _
  | wait ms => exact FileTree.ChangesAt.refl s.tree _

theorem openFile_files (reg : s.Regular) {relPath : Path} {mode : OpenMode}
    {sharing : SharingMode} {flags : OpenFlags} {attributes : FileAttribute} {id : Nat}
    {entry : OpenFileState}
    (h : (s.openFile relPath mode sharing flags attributes).2.files id = some entry) :
    s.files id = some entry ∨
      entry.file ∈ s.touched (.openFile relPath mode sharing flags attributes) := by
  cases hresult : s.openFile relPath mode sharing flags attributes with
  | mk result next =>
    rw [hresult] at h
    cases result with
    | error e =>
      obtain ⟨_, _, _, hkeeps⟩ := openFile_error reg hresult
      exact Or.inl (hkeeps.files ▸ h)
    | ok opened =>
      obtain ⟨hid, _, _, _, _, _, opens⟩ := openFile_ok reg hresult
      obtain ⟨host, file, htouched, hfile, _⟩ := openFile_touched hresult
      by_cases hnew : id = s.nextId
      · rw [hnew, ← hid, hfile] at h
        cases h
        exact Or.inr (htouched ▸ List.mem_singleton_self file)
      · rw [opens.files] at h
        exact Or.inl ((Table.insert_ne _ _ hnew).symm.trans h)

/-- A file that is open after an operation was open before, or was touched by it. -/
theorem exec_files (reg : s.Regular) (op : HostOp) {id : Nat} {entry : OpenFileState}
    (h : (s.exec op).files id = some entry) :
    s.files id = some entry ∨ entry.file ∈ s.touched op := by
  have effect := exec_effect reg op
  generalize hnext : s.exec op = next at effect h
  cases effect with
  | quiet resolved becomes keeps => exact Or.inl (keeps.files ▸ h)
  | openFile opens =>
    rw [← hnext] at h
    exact openFile_files reg h
  | createDir resolved made becomes keeps => exact Or.inl (keeps.files ▸ h)
  | deleteDir resolved removed becomes keeps => exact Or.inl (keeps.files ▸ h)
  | delete resolved removed becomes keeps => exact Or.inl (keeps.files ▸ h)
  | rename source target moved becomes keeps => exact Or.inl (keeps.files ▸ h)
  | copy source target copied becomes keeps => exact Or.inl (keeps.files ▸ h)
  | close found becomes files sharing nextId =>
    rw [files] at h
    exact Or.inl (Table.erase_eq_some.mp h).2
  | wait ms => exact Or.inl h

end HostDir
end Warpine.Vfs
