import Warpine.Lib.Run
import Warpine.Vfs.HostPaths

/-! Runs of operations on a host directory, and what each operation can do. -/
namespace Warpine.Vfs
open Warpine.Lib Posix

inductive HostOp where
  | openFile (path : Path) (mode : OpenMode) (sharing : SharingMode) (flags : OpenFlags)
      (attributes : FileAttribute)
  | close (handle : VfsFileHandle)
  | findFirst (pattern : Path) (attrFilter : FileAttribute)
  | findNext (handle : VfsFindHandle)
  | findClose (handle : VfsFindHandle)
  | createDir (path : Path)
  | deleteDir (path : Path)
  | delete (path : Path)
  | rename (oldPath newPath : Path)
  | copy (srcPath dstPath : Path)
  | queryPathInfo (path : Path)
  | toHostPath (path : Path)
  | wait (ms : Nat)

namespace HostDir

def exec (s : HostDir) : HostOp → HostDir
  | .openFile path mode sharing flags attributes =>
      (s.openFile path mode sharing flags attributes).2
  | .close handle => (s.close handle).2
  | .findFirst pattern attrFilter => (s.findFirst pattern attrFilter).2
  | .findNext handle => (s.findNext handle).2
  | .findClose handle => (s.findClose handle).2
  | .createDir path => (s.createDir path).2
  | .deleteDir path => (s.deleteDir path).2
  | .delete path => (s.delete path).2
  | .rename oldPath newPath => (s.rename oldPath newPath).2
  | .copy srcPath dstPath => (s.copy srcPath dstPath).2
  | .queryPathInfo path => (s.queryPathInfo path).2
  | .toHostPath path => (s.toHostPath path).2
  | .wait ms => { s with now := s.now + ms }

def step : Step HostDir HostOp := fun s op next => s.exec op = next

variable {s mid next : HostDir}

/-- A state with another tree, from whose cache some listings are dropped. -/
structure Becomes (mid next : HostDir) (tree : FileTree Attrs) (dropped : List (Option HostPath)) :
    Prop where
  tree : next.tree = tree
  cache : next.dirCache = (dropped.foldl invalidate mid).dirCache
  root : next.root = mid.root
  casefold : next.kernelCasefold = mid.kernelCasefold
  now : next.now = mid.now

/-- The tables of open files are left alone. -/
structure Keeps (s next : HostDir) : Prop where
  files : next.files = s.files
  sharing : next.sharing = s.sharing
  nextId : s.nextId ≤ next.nextId

/-- A file is opened: no handle on its path stands against it, and it is entered
in both tables under the next number. -/
structure Opens (s : HostDir) (path : Path) (mode : OpenMode) (sharing : SharingMode)
    (flags : OpenFlags) (mid next : HostDir) (host file : HostPath) (action : OpenAction)
    (tree : FileTree Attrs) (write : Bool) : Prop where
  resolved : s.openPath path flags = (.ok (host, action), mid)
  compatible : ∀ entry ∈ (s.sharing host).getD [],
    isSharingCompatible entry.mode entry.sharing mode sharing = true
  opened : mid.tree.openFile host write (action == .created || action == .replaced)
    (action == .replaced) mid.newAttrs = .ok (file, tree)
  becomes : Becomes mid next tree
    (if action == .created || action == .replaced then [parent host] else [])
  files : next.files = s.files.insert s.nextId ⟨file, host⟩
  sharing : next.sharing = s.sharing.insert host
    ((s.sharing host).getD [] ++ [SharingEntry.mk s.nextId mode sharing])
  nextId : next.nextId = s.nextId + 1

/-- What an operation can do. All but the last two resolve their paths first. -/
inductive Effect (s : HostDir) : HostOp → HostDir → Prop where
  | quiet {op : HostOp} {mid next : HostDir} (resolved : Resolves s mid)
      (becomes : Becomes mid next mid.tree []) (keeps : Keeps s next) : Effect s op next
  | openFile {path : Path} {mode : OpenMode} {sharing : SharingMode} {flags : OpenFlags}
      {attributes : FileAttribute} {host file : HostPath} {action : OpenAction}
      {mid next : HostDir} {tree : FileTree Attrs} {write : Bool}
      (opens : Opens s path mode sharing flags mid next host file action tree write) :
      Effect s (.openFile path mode sharing flags attributes) next
  | createDir {path : Path} {host : HostPath} {mid next : HostDir} {tree : FileTree Attrs}
      (resolved : s.resolveForCreate path = (.ok host, mid))
      (made : mid.tree.mkdir host mid.newAttrs = .ok tree)
      (becomes : Becomes mid next tree [parent host]) (keeps : Keeps s next) :
      Effect s (.createDir path) next
  | deleteDir {path : Path} {host : HostPath} {mid next : HostDir} {tree : FileTree Attrs}
      (resolved : s.resolveExisting path = (.ok host, mid))
      (removed : mid.tree.rmdir host = .ok tree)
      (becomes : Becomes mid next tree [parent host]) (keeps : Keeps s next) :
      Effect s (.deleteDir path) next
  | delete {path : Path} {host : HostPath} {mid next : HostDir} {tree : FileTree Attrs}
      (resolved : s.resolveExisting path = (.ok host, mid))
      (removed : mid.tree.unlink host = .ok tree)
      (becomes : Becomes mid next tree [parent host]) (keeps : Keeps s next) :
      Effect s (.delete path) next
  | rename {oldPath newPath : Path} {oldHost newHost : HostPath} {first mid next : HostDir}
      {tree : FileTree Attrs} (source : s.resolveExisting oldPath = (.ok oldHost, first))
      (target : first.resolveForCreate newPath = (.ok newHost, mid))
      (moved : mid.tree.rename oldHost newHost = .ok tree)
      (becomes : Becomes mid next tree [parent oldHost, parent newHost]) (keeps : Keeps s next) :
      Effect s (.rename oldPath newPath) next
  | copy {srcPath dstPath : Path} {srcHost dstHost : HostPath} {first mid next : HostDir}
      {tree : FileTree Attrs} (source : s.resolveExisting srcPath = (.ok srcHost, first))
      (target : first.resolveForCreate dstPath = (.ok dstHost, mid))
      (copied : mid.tree.copyFile srcHost dstHost mid.newAttrs = .ok tree)
      (becomes : Becomes mid next tree [parent dstHost]) (keeps : Keeps s next) :
      Effect s (.copy srcPath dstPath) next
  | close {handle : VfsFileHandle} {entry : OpenFileState} {next : HostDir}
      (found : s.files handle.id = some entry) (becomes : Becomes s next s.tree [])
      (files : next.files = s.files.erase handle.id)
      (sharing : ∀ path, (next.sharing path).getD [] =
        if path = entry.hostPath then
          ((s.sharing path).getD []).filter fun other => other.handleId != handle.id
        else (s.sharing path).getD [])
      (nextId : next.nextId = s.nextId) : Effect s (.close handle) next
  | wait (ms : Nat) : Effect s (.wait ms) { s with now := s.now + ms }

theorem Becomes.refl (s : HostDir) : Becomes s s s.tree [] := ⟨rfl, rfl, rfl, rfl, rfl⟩

theorem Keeps.trans {last : HostDir} (first : Keeps s next) (second : Keeps next last) :
    Keeps s last :=
  ⟨second.files.trans first.files, second.sharing.trans first.sharing,
    first.nextId.trans second.nextId⟩

theorem Resolves.keeps (h : Resolves s next) : Keeps s next := by
  rw [h.same]
  exact ⟨rfl, rfl, le_refl _⟩

theorem openFile_error (reg : s.Regular) {path : Path} {mode : OpenMode} {sharing : SharingMode}
    {flags : OpenFlags} {attributes : FileAttribute} {e : Os2Error}
    (h : s.openFile path mode sharing flags attributes = (.error e, next)) :
    ∃ mid, Resolves s mid ∧ Becomes mid next mid.tree [] ∧ Keeps s next := by
  unfold openFile at h
  split at h
  · rename_i mid hfound
    cases h
    have hresolves := (openPath_spec reg hfound).1
    exact ⟨next, hresolves, .refl next, hresolves.keeps⟩
  · rename_i hostPath action mid hfound
    have hresolves := (openPath_spec reg hfound).1
    dsimp only [allocId] at h
    split at h
    · split at h
      · cases h
        exact ⟨mid, hresolves, ⟨rfl, rfl, rfl, rfl, rfl⟩,
          hresolves.keeps.trans ⟨rfl, rfl, Nat.le_succ _⟩⟩
      · cases h
    · cases h
      exact ⟨mid, hresolves, ⟨rfl, rfl, rfl, rfl, rfl⟩,
        hresolves.keeps.trans ⟨rfl, rfl, Nat.le_succ _⟩⟩

theorem openFile_ok (reg : s.Regular) {path : Path} {mode : OpenMode} {sharing : SharingMode}
    {flags : OpenFlags} {attributes : FileAttribute} {handle : VfsFileHandle}
    {action : OpenAction}
    (h : s.openFile path mode sharing flags attributes = (.ok (handle, action), next)) :
    handle.id = s.nextId ∧ ∃ mid host file tree write,
      Opens s path mode sharing flags mid next host file action tree write := by
  unfold openFile at h
  split at h
  · cases h
  · rename_i hostPath _ mid hfound
    have hresolves := (openPath_spec reg hfound).1
    have hkeeps := hresolves.keeps
    have hids : mid.nextId = s.nextId := by rw [hresolves.same]
    dsimp only [allocId] at h
    split at h
    · rename_i hall
      rw [hkeeps.sharing] at hall
      split at h
      · cases h
      · rename_i file tree hopened
        cases h
        refine ⟨hids, mid, hostPath, file, tree, _, hfound, List.all_eq_true.mp hall, hopened,
          ?_, ?_, ?_, ?_⟩
        · split
          · cases hparent : parent hostPath <;> exact ⟨rfl, rfl, rfl, rfl, rfl⟩
          · exact ⟨rfl, rfl, rfl, rfl, rfl⟩
        · rw [← hkeeps.files, ← hids]
          split
          · cases hparent : parent hostPath <;> rfl
          · rfl
        · rw [← hkeeps.sharing, ← hids]
          split
          · cases hparent : parent hostPath <;> rfl
          · rfl
        · rw [← hids]
          split
          · cases hparent : parent hostPath <;> rfl
          · rfl
    · cases h

theorem effect_openFile (reg : s.Regular) (path : Path) (mode : OpenMode) (sharing : SharingMode)
    (flags : OpenFlags) (attributes : FileAttribute) :
    Effect s (.openFile path mode sharing flags attributes)
      (s.openFile path mode sharing flags attributes).2 := by
  cases hresult : s.openFile path mode sharing flags attributes with
  | mk result next =>
    cases result with
    | error e =>
      obtain ⟨mid, hresolves, hbecomes, hkeeps⟩ := openFile_error reg hresult
      exact .quiet hresolves hbecomes hkeeps
    | ok opened =>
      obtain ⟨_, mid, host, file, tree, write, hopens⟩ := openFile_ok reg hresult
      exact .openFile hopens

/-- A handle that is open is taken out of both tables. -/
theorem close_found {handle : VfsFileHandle} {entry : OpenFileState}
    (found : s.files handle.id = some entry) :
    Becomes s (s.close handle).2 s.tree [] ∧
      (s.close handle).2.files = s.files.erase handle.id ∧
      (∀ path, ((s.close handle).2.sharing path).getD [] =
        if path = entry.hostPath then
          ((s.sharing path).getD []).filter fun other => other.handleId != handle.id
        else (s.sharing path).getD []) ∧
      (s.close handle).2.nextId = s.nextId := by
  unfold close
  rw [found]
  refine ⟨⟨rfl, rfl, rfl, rfl, rfl⟩, rfl, ?_, rfl⟩
  intro path
  dsimp only
  by_cases hpath : path = entry.hostPath
  · subst hpath
    rw [if_pos rfl]
    split
    · rename_i hkept
      rw [Table.erase_self, hkept]
      rfl
    · rw [Table.insert_self]
      rfl
  · rw [if_neg hpath]
    split
    · rw [Table.erase_ne _ hpath]
    · rw [Table.insert_ne _ _ hpath]

theorem close_missing {handle : VfsFileHandle} (missing : s.files handle.id = none) :
    (s.close handle).2 = s := by
  unfold close
  rw [missing]

theorem effect_close (handle : VfsFileHandle) : Effect s (.close handle) (s.close handle).2 := by
  cases hfound : s.files handle.id with
  | none =>
    rw [close_missing hfound]
    exact .quiet (Resolves.refl s) (.refl s) ⟨rfl, rfl, le_refl _⟩
  | some entry =>
    obtain ⟨becomes, files, sharing, nextId⟩ := close_found hfound
    exact .close hfound becomes files sharing nextId

theorem becomes_one (mid : HostDir) (tree : FileTree Attrs) (dir : Option HostPath) :
    Becomes mid ({ mid with tree }.invalidate dir) tree [dir] ∧
      Keeps mid ({ mid with tree }.invalidate dir) := by
  cases dir <;> exact ⟨⟨rfl, rfl, rfl, rfl, rfl⟩, rfl, rfl, le_refl _⟩

theorem becomes_two (mid : HostDir) (tree : FileTree Attrs) (first second : Option HostPath) :
    Becomes mid (({ mid with tree }.invalidate first).invalidate second) tree [first, second] ∧
      Keeps mid (({ mid with tree }.invalidate first).invalidate second) := by
  cases first <;> cases second <;> exact ⟨⟨rfl, rfl, rfl, rfl, rfl⟩, rfl, rfl, le_refl _⟩

theorem effect_resolved {op : HostOp} (h : Resolves s mid) : Effect s op mid :=
  .quiet h (.refl mid) h.keeps

theorem effect_findFirst (reg : s.Regular) (pattern : Path) (attrFilter : FileAttribute) :
    Effect s (.findFirst pattern attrFilter) (s.findFirst pattern attrFilter).2 := by
  unfold findFirst
  dsimp only
  cases hfound : (if (splitLast pattern).1 = [] then (some s.root, s)
    else s.resolveCi (splitLast pattern).1) with
  | mk resolved mid =>
    have hparent : s.parentOf pattern = (resolved, mid) := hfound
    have hdir := (parentOf_spec reg hparent).1
    cases resolved with
    | none => exact effect_resolved hdir
    | some dirPath =>
      dsimp only
      split
      · exact effect_resolved hdir
      · split
        · exact effect_resolved hdir
        · split
          · exact effect_resolved hdir
          · exact .quiet hdir ⟨rfl, rfl, rfl, rfl, rfl⟩
              (hdir.keeps.trans ⟨rfl, rfl, Nat.le_succ _⟩)

/-- Every operation has one of the effects. -/
theorem exec_effect (reg : s.Regular) (op : HostOp) : Effect s op (s.exec op) := by
  cases op with
  | openFile path mode sharing flags attributes =>
    exact effect_openFile reg path mode sharing flags attributes
  | close handle => exact effect_close handle
  | findFirst pattern attrFilter => exact effect_findFirst reg pattern attrFilter
  | findNext handle =>
    change Effect s _ (s.findNext handle).2
    unfold findNext
    split
    · exact effect_resolved (Resolves.refl s)
    · split <;> exact .quiet (Resolves.refl s) ⟨rfl, rfl, rfl, rfl, rfl⟩ ⟨rfl, rfl, le_refl _⟩
  | findClose handle =>
    change Effect s _ (s.findClose handle).2
    unfold findClose
    split <;> exact .quiet (Resolves.refl s) ⟨rfl, rfl, rfl, rfl, rfl⟩ ⟨rfl, rfl, le_refl _⟩
  | createDir path =>
    change Effect s _ (s.createDir path).2
    unfold createDir
    split
    · rename_i e mid hfound
      exact effect_resolved (resolveForCreate_spec reg hfound).1
    · rename_i host mid hfound
      have hresolves := (resolveForCreate_spec reg hfound).1
      split
      · exact effect_resolved hresolves
      · rename_i tree hmade
        obtain ⟨hbecomes, hkeeps⟩ := becomes_one mid tree (parent host)
        exact .createDir hfound hmade hbecomes (hresolves.keeps.trans hkeeps)
  | deleteDir path =>
    change Effect s _ (s.deleteDir path).2
    unfold deleteDir
    split
    · rename_i e mid hfound
      exact effect_resolved (resolveExisting_spec reg hfound).1
    · rename_i host mid hfound
      have hresolves := (resolveExisting_spec reg hfound).1
      split
      · exact effect_resolved hresolves
      · rename_i tree hremoved
        obtain ⟨hbecomes, hkeeps⟩ := becomes_one mid tree (parent host)
        exact .deleteDir hfound hremoved hbecomes (hresolves.keeps.trans hkeeps)
  | delete path =>
    change Effect s _ (s.delete path).2
    unfold delete
    split
    · rename_i e mid hfound
      exact effect_resolved (resolveExisting_spec reg hfound).1
    · rename_i host mid hfound
      have hresolves := (resolveExisting_spec reg hfound).1
      split
      · exact effect_resolved hresolves
      · rename_i tree hremoved
        obtain ⟨hbecomes, hkeeps⟩ := becomes_one mid tree (parent host)
        exact .delete hfound hremoved hbecomes (hresolves.keeps.trans hkeeps)
  | rename oldPath newPath =>
    change Effect s _ (s.rename oldPath newPath).2
    unfold rename
    split
    · rename_i e mid hfound
      exact effect_resolved (resolveExisting_spec reg hfound).1
    · rename_i oldHost first hfound
      have hfirst := (resolveExisting_spec reg hfound).1
      split
      · rename_i e mid htarget
        exact effect_resolved (hfirst.trans (resolveForCreate_spec (hfirst.regular reg) htarget).1)
      · rename_i newHost mid htarget
        have hresolves := hfirst.trans (resolveForCreate_spec (hfirst.regular reg) htarget).1
        split
        · exact effect_resolved hresolves
        · rename_i tree hmoved
          obtain ⟨hbecomes, hkeeps⟩ := becomes_two mid tree (parent oldHost) (parent newHost)
          exact .rename hfound htarget hmoved hbecomes (hresolves.keeps.trans hkeeps)
  | copy srcPath dstPath =>
    change Effect s _ (s.copy srcPath dstPath).2
    unfold copy
    split
    · rename_i e mid hfound
      exact effect_resolved (resolveExisting_spec reg hfound).1
    · rename_i srcHost first hfound
      have hfirst := (resolveExisting_spec reg hfound).1
      split
      · rename_i e mid htarget
        exact effect_resolved (hfirst.trans (resolveForCreate_spec (hfirst.regular reg) htarget).1)
      · rename_i dstHost mid htarget
        have hresolves := hfirst.trans (resolveForCreate_spec (hfirst.regular reg) htarget).1
        split
        · exact effect_resolved hresolves
        · rename_i tree hcopied
          obtain ⟨hbecomes, hkeeps⟩ := becomes_one mid tree (parent dstHost)
          exact .copy hfound htarget hcopied hbecomes (hresolves.keeps.trans hkeeps)
  | queryPathInfo path =>
    change Effect s _ (s.queryPathInfo path).2
    unfold queryPathInfo
    split
    · rename_i e mid hfound
      exact effect_resolved (resolveExisting_spec reg hfound).1
    · rename_i host mid hfound
      have hresolves := (resolveExisting_spec reg hfound).1
      split
      · exact effect_resolved hresolves
      · split <;> exact effect_resolved hresolves
  | toHostPath path => exact effect_resolved (resolveCi_spec reg rfl).1
  | wait ms => exact .wait ms

theorem mkdir_wellFormed {tree next : FileTree Attrs} {path : HostPath} {attrs : Attrs}
    (wf : tree.WellFormed) (h : tree.mkdir path attrs = .ok next) : next.WellFormed := by
  obtain ⟨dir, name, _, spot, free, rfl⟩ := FileTree.mkdir_ok h
  exact spot.insertNode wf free (Or.inr rfl)

theorem rename_wellFormed {tree next : FileTree Attrs} {old new : HostPath} (wf : tree.WellFormed)
    (h : tree.rename old new = .ok next) : next.WellFormed := by
  obtain ⟨_, _, _, _, _, _, _, spot, ⟨_, rfl⟩ | ⟨node, moved⟩⟩ := FileTree.rename_ok h
  · exact wf
  · exact moved.wellFormed wf spot

theorem openFile_wellFormed {tree next : FileTree Attrs} {path file : HostPath}
    {write create truncate : Bool} {attrs : Attrs} (wf : tree.WellFormed)
    (h : tree.openFile path write create truncate attrs = .ok (file, next)) : next.WellFormed := by
  obtain ⟨_, ⟨_, free, dir, name, rfl, spot, rfl⟩ | ⟨_, hrewrites⟩⟩ := FileTree.openFile_ok wf h
  · exact spot.insertNode wf free (Or.inl rfl)
  · exact hrewrites.wellFormed wf

/-- What is kept in the cache was there before. -/
theorem dirCache_dropped {mid : HostDir} {dropped : List (Option HostPath)} {dir : HostPath}
    {entry : DirCacheEntry} (h : (dropped.foldl invalidate mid).dirCache dir = some entry) :
    mid.dirCache dir = some entry ∧ some dir ∉ dropped := by
  induction dropped generalizing mid with
  | nil => exact ⟨h, by simp⟩
  | cons first rest ih =>
    obtain ⟨hentry, hrest⟩ := ih h
    cases first with
    | none => exact ⟨hentry, by simpa using hrest⟩
    | some other =>
      obtain ⟨hne, hold⟩ := Table.erase_eq_some.mp hentry
      refine ⟨hold, ?_⟩
      simp [hne, hrest]

theorem Becomes.regular {mid next : HostDir} {tree : FileTree Attrs}
    {dropped : List (Option HostPath)}
    (becomes : Becomes mid next tree dropped) (reg : mid.Regular) (wf : tree.WellFormed) :
    next.Regular where
  wellFormed := becomes.tree ▸ wf
  clean := by
    intro dir entry hentry
    rw [becomes.cache] at hentry
    exact reg.clean dir entry (dirCache_dropped hentry).1
  rootPlain := becomes.root ▸ reg.rootPlain

/-- Every effect keeps what resolving relies on. -/
theorem Effect.regular {op : HostOp} (effect : Effect s op next) (reg : s.Regular) :
    next.Regular ∧ next.kernelCasefold = s.kernelCasefold := by
  cases effect with
  | quiet resolved becomes keeps =>
    have mid := resolved.regular reg
    exact ⟨becomes.regular mid mid.wellFormed, becomes.casefold.trans resolved.casefold⟩
  | openFile opens =>
    have hresolves := (openPath_spec reg opens.resolved).1
    have mid := hresolves.regular reg
    exact ⟨opens.becomes.regular mid (openFile_wellFormed mid.wellFormed opens.opened),
      opens.becomes.casefold.trans hresolves.casefold⟩
  | createDir resolved made becomes keeps =>
    have hresolves := (resolveForCreate_spec reg resolved).1
    have mid := hresolves.regular reg
    exact ⟨becomes.regular mid (mkdir_wellFormed mid.wellFormed made),
      becomes.casefold.trans hresolves.casefold⟩
  | deleteDir resolved removed becomes keeps =>
    have hresolves := (resolveExisting_spec reg resolved).1
    have mid := hresolves.regular reg
    obtain ⟨dir, name, node, _, _, _, _, rfl⟩ := FileTree.rmdir_ok removed
    exact ⟨becomes.regular mid mid.wellFormed.prune, becomes.casefold.trans hresolves.casefold⟩
  | delete resolved removed becomes keeps =>
    have hresolves := (resolveExisting_spec reg resolved).1
    have mid := hresolves.regular reg
    obtain ⟨dir, name, node, _, _, _, _, rfl⟩ := FileTree.unlink_ok removed
    exact ⟨becomes.regular mid mid.wellFormed.prune, becomes.casefold.trans hresolves.casefold⟩
  | rename source target moved becomes keeps =>
    have hfirst := (resolveExisting_spec reg source).1
    have hresolves := hfirst.trans (resolveForCreate_spec (hfirst.regular reg) target).1
    have mid := hresolves.regular reg
    exact ⟨becomes.regular mid (rename_wellFormed mid.wellFormed moved),
      becomes.casefold.trans hresolves.casefold⟩
  | copy source target copied becomes keeps =>
    have hfirst := (resolveExisting_spec reg source).1
    have hresolves := hfirst.trans (resolveForCreate_spec (hfirst.regular reg) target).1
    have mid := hresolves.regular reg
    obtain ⟨file, opened, hopen, hrewrites, _⟩ := FileTree.copyFile_ok copied
    exact ⟨becomes.regular mid (hrewrites.wellFormed (openFile_wellFormed mid.wellFormed hopen)),
      becomes.casefold.trans hresolves.casefold⟩
  | close found becomes => exact ⟨becomes.regular reg reg.wellFormed, becomes.casefold⟩
  | wait ms => exact ⟨⟨reg.wellFormed, reg.clean, reg.rootPlain⟩, rfl⟩

/-- An operation other than a wait resolves paths, and drops listings when it has changed
the tree. -/
theorem Effect.becomes {op : HostOp} (effect : Effect s op next) (reg : s.Regular) :
    (∃ mid tree dropped, Resolves s mid ∧ Becomes mid next tree dropped) ∨
      ∃ ms, next = { s with now := s.now + ms } := by
  cases effect with
  | quiet resolved becomes keeps => exact Or.inl ⟨_, _, _, resolved, becomes⟩
  | openFile opens =>
    exact Or.inl ⟨_, _, _, (openPath_spec reg opens.resolved).1, opens.becomes⟩
  | createDir resolved made becomes keeps =>
    exact Or.inl ⟨_, _, _, (resolveForCreate_spec reg resolved).1, becomes⟩
  | deleteDir resolved removed becomes keeps =>
    exact Or.inl ⟨_, _, _, (resolveExisting_spec reg resolved).1, becomes⟩
  | delete resolved removed becomes keeps =>
    exact Or.inl ⟨_, _, _, (resolveExisting_spec reg resolved).1, becomes⟩
  | rename source target moved becomes keeps =>
    have hfirst := (resolveExisting_spec reg source).1
    have hresolves := hfirst.trans (resolveForCreate_spec (hfirst.regular reg) target).1
    exact Or.inl ⟨_, _, _, hresolves, becomes⟩
  | copy source target copied becomes keeps =>
    have hfirst := (resolveExisting_spec reg source).1
    have hresolves := hfirst.trans (resolveForCreate_spec (hfirst.regular reg) target).1
    exact Or.inl ⟨_, _, _, hresolves, becomes⟩
  | close found becomes => exact Or.inl ⟨_, _, _, Resolves.refl s, becomes⟩
  | wait ms => exact Or.inr ⟨ms, rfl⟩

theorem Effect.root {op : HostOp} (effect : Effect s op next) (reg : s.Regular) :
    next.root = s.root := by
  rcases effect.becomes reg with ⟨mid, tree, dropped, resolved, becomes⟩ | ⟨ms, rfl⟩
  · exact becomes.root.trans resolved.root
  · rfl

theorem openFile_noLinks {tree next : FileTree Attrs} {path file : HostPath}
    {write create truncate : Bool} {attrs : Attrs} (wf : tree.WellFormed) (nolinks : tree.NoLinks)
    (h : tree.openFile path write create truncate attrs = .ok (file, next)) : next.NoLinks := by
  obtain ⟨_, ⟨_, _, dir, name, _, _, rfl⟩ | ⟨_, hrewrites⟩⟩ := FileTree.openFile_ok wf h
  · exact nolinks.insertNode dir name (by simp)
  · exact hrewrites.links nolinks

/-- No operation makes a link. -/
theorem Effect.noLinks {op : HostOp} (effect : Effect s op next) (reg : s.Regular)
    (nolinks : s.tree.NoLinks) : next.tree.NoLinks := by
  cases effect with
  | quiet resolved becomes keeps => rwa [becomes.tree, resolved.tree]
  | openFile opens =>
    have hresolves := (openPath_spec reg opens.resolved).1
    rw [opens.becomes.tree]
    rw [← hresolves.tree] at nolinks
    exact openFile_noLinks (hresolves.regular reg).wellFormed nolinks opens.opened
  | createDir resolved made becomes keeps =>
    obtain ⟨dir, name, _, _, _, rfl⟩ := FileTree.mkdir_ok made
    rw [becomes.tree]
    rw [← (resolveForCreate_spec reg resolved).1.tree] at nolinks
    exact nolinks.insertNode dir name (by simp)
  | deleteDir resolved removed becomes keeps =>
    obtain ⟨dir, name, _, _, _, _, _, rfl⟩ := FileTree.rmdir_ok removed
    rw [becomes.tree]
    rw [← (resolveExisting_spec reg resolved).1.tree] at nolinks
    exact nolinks.prune dir name
  | delete resolved removed becomes keeps =>
    obtain ⟨dir, name, _, _, _, _, _, rfl⟩ := FileTree.unlink_ok removed
    rw [becomes.tree]
    rw [← (resolveExisting_spec reg resolved).1.tree] at nolinks
    exact nolinks.prune dir name
  | rename source target moved becomes keeps =>
    have hfirst := (resolveExisting_spec reg source).1
    have hresolves := hfirst.trans (resolveForCreate_spec (hfirst.regular reg) target).1
    rw [becomes.tree]
    rw [← hresolves.tree] at nolinks
    obtain ⟨_, _, _, _, _, _, _, _, ⟨_, rfl⟩ | ⟨_, hmoved⟩⟩ := FileTree.rename_ok moved
    · exact nolinks
    · exact hmoved.noLinks nolinks
  | copy source target copied becomes keeps =>
    have hfirst := (resolveExisting_spec reg source).1
    have hresolves := hfirst.trans (resolveForCreate_spec (hfirst.regular reg) target).1
    obtain ⟨file, opened, hopen, hrewrites, _⟩ := FileTree.copyFile_ok copied
    rw [becomes.tree]
    rw [← hresolves.tree] at nolinks
    exact hrewrites.links (openFile_noLinks (hresolves.regular reg).wellFormed nolinks hopen)
  | close found becomes => rwa [becomes.tree]
  | wait ms => exact nolinks

theorem run_exec (s : HostDir) (ops : List HostOp) : Run step s ops (ops.foldl exec s) := by
  induction ops generalizing s with
  | nil => exact .nil s
  | cons op rest ih => exact .cons rfl (ih (s.exec op))

/-- A backend that has just been made. -/
theorem new_regular {root : HostPath} {tree : FileTree Attrs} (kernelCasefold : Bool)
    (attrs : Attrs)
    (plain : FileTree.Plain root) (wf : tree.WellFormed) :
    (HostDir.new root kernelCasefold tree attrs).Regular :=
  ⟨wf, fun dir entry hentry => (by cases hentry), plain⟩

def plainAttrs : Attrs := ⟨0, false, none, none, none⟩

/-- A host whose only directory is an empty one. -/
def emptyHost : FileTree Attrs :=
  (FileTree.leaf ⟨.dir [], plainAttrs⟩).insertNode ["c".toList] ⟨.dir [], plainAttrs⟩

theorem emptyHost_wellFormed : emptyHost.WellFormed := by
  apply @FileTree.Spot.insertNode _ (FileTree.leaf ⟨.dir [], plainAttrs⟩) [] "c".toList
  · exact ⟨rfl, by decide⟩
  · exact ⟨FileTree.formed_leaf (Or.inr rfl), rfl⟩
  · rfl
  · exact Or.inr rfl

theorem emptyHost_noLinks : emptyHost.NoLinks := by
  apply FileTree.NoLinks.insertNode _ [] "c".toList (by simp)
  intro path node hnode target hkind
  unfold FileTree.leaf at hnode
  split at hnode
  · cases hnode
    cases hkind
  · cases hnode

/-- The volume on that directory. -/
def emptyVolume : HostDir := .new ["c".toList] false emptyHost plainAttrs

theorem emptyVolume_root : FileTree.Plain emptyVolume.root := ⟨by decide, by decide⟩

end HostDir
end Warpine.Vfs
