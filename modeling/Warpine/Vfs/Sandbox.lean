import Warpine.Vfs.Reach

/-! What keeps the calls of a backend under the volume's root. The sandbox check is
made on the path that was resolved, and a call may use another, or use it in
another way. -/
namespace Warpine.Vfs
open Warpine.Lib Posix

namespace HostDir

/-- A call reaches nothing outside the volume. -/
def Confined (s : HostDir) (xattrSupported : Bool) (call : HostCall) : Prop :=
  ∀ place ∈ s.reached xattrSupported call, s.root <+: place

/-- What a path leads to lies under the root. -/
def LeadsInside (s : HostDir) (path : HostPath) : Prop :=
  ∀ place, s.tree.resolve path = .ok place → s.root <+: place

/-- Where a path leads to nothing, the file that opening it adds lies under the root. -/
def AddsInside (s : HostDir) (path : HostPath) : Prop :=
  s.tree.present path = false →
    ∀ place, s.tree.walk true FileTree.maxLinks [] path = .ok place → s.root <+: place

/-- The entry that a path names lies under the root. -/
def NamesInside (s : HostDir) (path : HostPath) : Prop :=
  ∀ place, s.tree.locate path = .ok place → s.root <+: place

/-- Where a path leads to something, the entry it names lies under the root too. -/
def EntryInside (s : HostDir) (path : HostPath) : Prop :=
  s.tree.present path = true → s.NamesInside path

/-- The sandbox check would let a path pass that leads to something. -/
def Checked (s : HostDir) (path : HostPath) : Prop :=
  s.tree.present path = true → s.enforceSandbox path = .ok ()

/-- What the sandbox check leaves open for each operation. -/
def Guarded (s : HostDir) : HostOp → Prop
  | .openFile path mode sharing flags _ => ∀ hostPath action mid,
      s.openPath path flags = (.ok (hostPath, action), mid) → action ≠ .existed →
      (((mid.sharing hostPath).getD []).all fun entry =>
        isSharingCompatible entry.mode entry.sharing mode sharing) = true →
      mid.AddsInside hostPath
  | .findFirst pattern attrFilter => ∀ dirPath mid names,
      s.parentOf pattern = (some dirPath, mid) → mid.enforceSandbox dirPath = .ok () →
      mid.tree.readDir dirPath = some names →
      (wildcardMatch (splitLast pattern).2 dotDot && attrFilter.contains .directory) = true →
      mid.Checked ((parent dirPath).getD dirPath)
  | .deleteDir path => ∀ hostPath mid tree, s.resolveExisting path = (.ok hostPath, mid) →
      mid.tree.rmdir hostPath = .ok tree → mid.EntryInside hostPath
  | .delete path => ∀ hostPath mid tree, s.resolveExisting path = (.ok hostPath, mid) →
      mid.tree.unlink hostPath = .ok tree → mid.EntryInside hostPath
  | .rename oldPath newPath => ∀ oldHost first newHost mid tree,
      s.resolveExisting oldPath = (.ok oldHost, first) →
      first.resolveForCreate newPath = (.ok newHost, mid) →
      mid.tree.rename oldHost newHost = .ok tree →
      mid.EntryInside oldHost ∧ mid.EntryInside newHost
  | .copy srcPath dstPath => ∀ srcHost first dstHost mid tree,
      s.resolveExisting srcPath = (.ok srcHost, first) →
      first.resolveForCreate dstPath = (.ok dstHost, mid) →
      mid.tree.copyFile srcHost dstHost mid.newAttrs = .ok tree → mid.AddsInside dstHost
  | .toHostPath path => ∀ hostPath mid, s.resolveCi path = (some hostPath, mid) →
      mid.Checked hostPath
  | _ => True

/-- What is left open of a sidecar file that is removed, written or added with its
directory. -/
structure SidecarGuarded (s : HostDir) (eaPath : HostPath) (eas : List EaEntry) : Prop where
  removed : eas = [] → ∀ tree, s.tree.unlink eaPath = .ok tree → s.NamesInside eaPath
  made : eas ≠ [] → ∀ tree, s.tree.mkdir eaPath.dropLast s.newAttrs = .ok tree →
    s.NamesInside eaPath.dropLast
  added : eas ≠ [] → ∀ e, s.tree.mkdir eaPath.dropLast s.newAttrs = .error e →
    s.AddsInside eaPath

/-- Neither the sidecar files nor the label are checked at all. -/
def GuardedCall (s : HostDir) (xattrSupported : Bool) : HostCall → Prop
  | .op op => s.Guarded op
  | .getEa path _ | .enumEa path => xattrSupported = false → ∀ hostPath mid,
      s.resolveExisting path = (.ok hostPath, mid) →
      ∀ eaPath, sidecarEaPath hostPath = some eaPath → mid.Checked eaPath
  | .setEa path ea => xattrSupported = false → ∀ hostPath mid,
      s.resolveExisting path = (.ok hostPath, mid) →
      ∀ eaPath, sidecarEaPath hostPath = some eaPath → mid.Checked eaPath ∧
        mid.SidecarGuarded eaPath (setEntry (sidecarReadEas mid.tree hostPath) ea)
  | .queryFsInfoAlloc => s.Checked s.root
  | .queryFsInfoVolume => s.Checked s.labelPath
  | .setFsInfoVolume _ => ∀ file tree,
      s.tree.openFile s.labelPath true true true s.newAttrs = .ok (file, tree) →
        s.Checked s.labelPath ∧ s.AddsInside s.labelPath

section Sandbox

variable {s mid : HostDir} {path : HostPath}

/-- Looking up changes neither the tree nor the root. -/
structure SameHost (s mid : HostDir) : Prop where
  tree : mid.tree = s.tree
  root : mid.root = s.root

theorem SameHost.trans {last : HostDir} (first : SameHost s mid) (second : SameHost mid last) :
    SameHost s last := ⟨second.tree.trans first.tree, second.root.trans first.root⟩

theorem resolveComponents_same (components : List Name) (s : HostDir) (current : HostPath) :
    SameHost s (s.resolveComponents current components).2 := by
  induction components generalizing s current with
  | nil => exact ⟨rfl, rfl⟩
  | cons component rest ih =>
    unfold resolveComponents
    split
    · exact ih s current
    · split
      · split
        · exact ih s current
        · split
          · exact ⟨rfl, rfl⟩
          · exact ih s _
      · have hstep : SameHost s (s.resolveComponent current component).2 := by
          unfold resolveComponent cacheLookup
          split
          · exact ⟨rfl, rfl⟩
          · split
            · exact ⟨rfl, rfl⟩
            · split <;> exact ⟨rfl, rfl⟩
        split
        · rename_i after hfound
          rwa [hfound] at hstep
        · rename_i resolved after hfound
          rw [hfound] at hstep
          exact hstep.trans (ih after _)

theorem resolveCi_same {relPath : Path} {result : Option HostPath}
    (h : s.resolveCi relPath = (result, mid)) : SameHost s mid := by
  unfold resolveCi at h
  split at h
  · cases h
    exact ⟨rfl, rfl⟩
  · have hsame := resolveComponents_same (relPath.splitOn '/') s s.root
    rwa [h] at hsame

theorem parentOf_same {relPath : Path} {result : Option HostPath}
    (h : s.parentOf relPath = (result, mid)) : SameHost s mid := by
  unfold parentOf at h
  split at h
  · cases h
    exact ⟨rfl, rfl⟩
  · exact resolveCi_same h

theorem resolveExisting_ok {relPath : Path} {hostPath : HostPath}
    (h : s.resolveExisting relPath = (.ok hostPath, mid)) :
    SameHost s mid ∧ mid.enforceSandbox hostPath = .ok () := by
  unfold resolveExisting at h
  split at h
  · cases h
  · rename_i resolved next hfound
    obtain ⟨hresult, rfl⟩ := Prod.mk.inj h
    obtain ⟨_, hsandbox, rfl⟩ := map_eq_ok hresult
    exact ⟨resolveCi_same hfound, hsandbox⟩

theorem resolveForCreate_same {relPath : Path} {hostPath : HostPath}
    (h : s.resolveForCreate relPath = (.ok hostPath, mid)) :
    SameHost s mid ∧ mid.enforceSandbox hostPath = .ok () := by
  obtain ⟨dir, hparent, _, hsandbox, _⟩ := resolveForCreate_ok h
  exact ⟨parentOf_same hparent, hsandbox⟩

theorem openPath_same {relPath : Path} {flags : OpenFlags} {hostPath : HostPath}
    {action : OpenAction} (h : s.openPath relPath flags = (.ok (hostPath, action), mid)) :
    SameHost s mid ∧ mid.enforceSandbox hostPath = .ok () := by
  unfold openPath at h
  split at h
  · rename_i existing next hfound
    split at h
    · obtain ⟨hresult, rfl⟩ := Prod.mk.inj h
      obtain ⟨_, hsandbox, hpair⟩ := map_eq_ok hresult
      cases hpair
      exact ⟨resolveCi_same hfound, hsandbox⟩
    · obtain ⟨hresult, rfl⟩ := Prod.mk.inj h
      obtain ⟨_, hsandbox, hpair⟩ := map_eq_ok hresult
      cases hpair
      exact ⟨resolveCi_same hfound, hsandbox⟩
    · cases h
  · rename_i next hfound
    split at h
    · cases hcreated : next.resolveForCreate relPath with
      | mk created after =>
        rw [hcreated] at h
        obtain ⟨hresult, rfl⟩ := Prod.mk.inj h
        obtain ⟨place, hplace, hpair⟩ := map_eq_ok hresult
        cases hpair
        rw [hplace] at hcreated
        obtain ⟨hsame, hsandbox⟩ := resolveForCreate_same hcreated
        exact ⟨(resolveCi_same hfound).trans hsame, hsandbox⟩
    · cases h

theorem present_of_resolve (wf : s.tree.WellFormed) {place : HostPath}
    (h : s.tree.resolve path = .ok place) : s.tree.present path = true := by
  rw [FileTree.present, FileTree.lookup, FileTree.canonicalize, h]
  exact FileTree.resolve_present wf h

theorem resolve_of_present (h : s.tree.present path = true) :
    ∃ place, s.tree.resolve path = .ok place ∧ (s.tree place).isSome := by
  rw [FileTree.present, FileTree.lookup, FileTree.canonicalize] at h
  cases hresolve : s.tree.resolve path with
  | error e => simp [hresolve, Except.toOption] at h
  | ok place =>
    rw [hresolve] at h
    exact ⟨place, rfl, h⟩

/-- The check covers what a path leads to. -/
theorem enforced_leads (wf : s.tree.WellFormed) (h : s.enforceSandbox path = .ok ()) :
    s.LeadsInside path := by
  intro place hresolve
  unfold enforceSandbox at h
  rw [if_pos (present_of_resolve wf hresolve)] at h
  rw [FileTree.canonicalize, hresolve] at h
  change (if s.root.isPrefixOf place = true then _ else _) = _ at h
  split at h
  · exact List.isPrefixOf_iff_prefix.mp (by assumption)
  · cases h

/-- It covers the entry of a path that leads to nothing. -/
theorem enforced_entry (h : s.enforceSandbox path = .ok ()) (absent : s.tree.present path = false)
    {place : HostPath} (hlocate : s.tree.locate path = .ok place) : s.root <+: place := by
  obtain ⟨dir, name, rfl, hlast, hdir, spot⟩ := FileTree.locate_ok hlocate
  have hnormal : normal path = normal path.dropLast ++ [name] := by
    rw [hlast]
    simp [normal, spot.plain.1]
  have hparent : parent path = some (normal path.dropLast) := by
    rw [parent, hnormal, if_neg (by simp), List.dropLast_concat]
  have hcanon : s.tree.canonicalize (normal path.dropLast) = some dir := by
    have hwalk := FileTree.walk_undotted (FileTree.undotted_normal path.dropLast) hdir
    rw [FileTree.canonicalize, FileTree.resolve, hwalk]
    rfl
  unfold enforceSandbox at h
  rw [if_neg (by simp [absent]), hparent, Option.bind_some, hcanon] at h
  dsimp only at h
  by_cases hunder : s.root.isPrefixOf dir = true
  · exact (List.isPrefixOf_iff_prefix.mp hunder).trans (List.prefix_append ..)
  · rw [if_neg hunder] at h
    cases h

/-- A file that is opened, and made where nothing is, is the one that the walk ends at. -/
theorem opened_inside (wf : s.tree.WellFormed) (leads : s.LeadsInside path)
    {file : HostPath} {tree : FileTree Attrs} {write create truncate : Bool}
    (adds : create = true → s.AddsInside path)
    (hopen : s.tree.openFile path write create truncate s.newAttrs = .ok (file, tree)) :
    s.root <+: file := by
  obtain ⟨hwalk, hcase⟩ := FileTree.openFile_ok wf hopen
  cases hpresent : s.tree.present path with
  | true =>
    obtain ⟨place, hresolve, _⟩ := resolve_of_present hpresent
    have hsame := @FileTree.walk_create _ s.tree create _ _ _ _ hresolve
    rw [hwalk] at hsame
    cases hsame
    exact leads file hresolve
  | false =>
    cases hcreate : create with
    | true =>
      rw [hcreate] at hwalk
      exact adds hcreate hpresent file hwalk
    | false =>
      rw [hcreate] at hwalk
      have hfound := present_of_resolve wf hwalk
      rw [hpresent] at hfound
      cases hfound

/-- Where a path leads to nothing, opening it with leave to create does create. -/
theorem opened_adds (wf : s.tree.WellFormed) (absent : s.tree.present path = false)
    {place : HostPath} (hwalk : s.tree.walk true FileTree.maxLinks [] path = .ok place)
    (write truncate : Bool) :
    ∃ tree, s.tree.openFile path write true truncate s.newAttrs = .ok (place, tree) := by
  have hnone : s.tree place = none := by
    by_contra hsome
    have hfound := FileTree.walk_found (Option.isSome_iff_ne_none.mpr hsome) hwalk
    rw [present_of_resolve wf hfound] at absent
    cases absent
  refine ⟨s.tree.insertNode place ⟨.file [], s.newAttrs⟩, ?_⟩
  unfold FileTree.openFile
  rw [hwalk]
  simp only [bind, Except.bind, hnone]
  rfl

/-- The entry that an operation takes away or puts in. -/
theorem entry_inside (h : s.enforceSandbox path = .ok ()) (inside : s.EntryInside path)
    {place : HostPath} (hlocate : s.tree.locate path = .ok place) : s.root <+: place := by
  cases hpresent : s.tree.present path with
  | true => exact inside hpresent place hlocate
  | false => exact enforced_entry h hpresent hlocate

theorem leads_iff_checked (wf : s.tree.WellFormed) : s.LeadsInside path ↔ s.Checked path := by
  constructor
  · intro leads hpresent
    obtain ⟨place, hresolve, _⟩ := resolve_of_present hpresent
    unfold enforceSandbox
    rw [if_pos hpresent, FileTree.canonicalize, hresolve]
    exact if_pos (List.isPrefixOf_iff_prefix.mpr (leads place hresolve))
  · intro checked place hresolve
    exact enforced_leads wf (checked (present_of_resolve wf hresolve)) place hresolve

theorem SameHost.enforceSandbox (same : SameHost s mid) (path : HostPath) :
    mid.enforceSandbox path = s.enforceSandbox path := by
  unfold HostDir.enforceSandbox
  rw [same.tree, same.root]

theorem confined_openFile (wf : s.tree.WellFormed) (relPath : Path) (mode : OpenMode)
    (sharing : SharingMode) (flags : OpenFlags) (attributes : FileAttribute) :
    (∀ place ∈ s.touched (.openFile relPath mode sharing flags attributes), s.root <+: place) ↔
      s.Guarded (.openFile relPath mode sharing flags attributes) := by
  constructor
  · intro confined hostPath action mid hopen haction hcompat habsent place hwalk
    have hsame := (openPath_same hopen).1
    have hcreate : (action == .created || action == .replaced) = true := by
      cases action with
      | existed => exact absurd rfl haction
      | created => rfl
      | replaced => rfl
    obtain ⟨tree, hopened⟩ := opened_adds (hsame.tree ▸ wf) habsent hwalk
      (mode != .readOnly || (action == .created || action == .replaced)) (action == .replaced)
    rw [hsame.root]
    apply confined place
    simp only [touched, hopen, hcompat, if_true]
    rw [hcreate] at hopened ⊢
    rw [hopened]
    exact List.mem_singleton_self place
  · intro guarded place hplace
    rw [touched] at hplace
    split at hplace
    · cases hplace
    · rename_i hostPath action mid hopen
      obtain ⟨hsame, hsandbox⟩ := openPath_same hopen
      have hwf : mid.tree.WellFormed := hsame.tree ▸ wf
      dsimp only at hplace
      split at hplace
      · rename_i hcompat
        split at hplace
        · cases hplace
        · rename_i file tree hopened
          cases List.mem_singleton.mp hplace
          rw [← hsame.root]
          apply opened_inside hwf (enforced_leads hwf hsandbox) _ hopened
          intro hcreate
          apply guarded hostPath action mid hopen _ hcompat
          rintro rfl
          cases hcreate
      · cases hplace

theorem confined_findFirst (wf : s.tree.WellFormed) (pattern : Path) (attrFilter : FileAttribute) :
    (∀ place ∈ s.touched (.findFirst pattern attrFilter), s.root <+: place) ↔
      s.Guarded (.findFirst pattern attrFilter) := by
  constructor
  · intro confined dirPath mid names hparent hsandbox hnames hdotDot
    have hsame := parentOf_same hparent
    apply (leads_iff_checked (hsame.tree ▸ wf)).mp
    intro place hresolve
    rw [hsame.root]
    apply confined place
    simp only [touched, hparent, hsandbox, hnames, hdotDot, if_true]
    simp [mem_placed, hresolve]
  · intro guarded place hplace
    rw [touched] at hplace
    split at hplace
    · cases hplace
    · rename_i dirPath mid hparent
      have hsame := parentOf_same hparent
      have hwf : mid.tree.WellFormed := hsame.tree ▸ wf
      rw [← hsame.root]
      split at hplace
      · cases hplace
      · rename_i hsandbox
        rcases List.mem_append.mp hplace with hdir | hrest
        · exact enforced_leads hwf hsandbox place (mem_placed.mp hdir)
        · split at hrest
          · cases hrest
          · rename_i names hnames
            rcases List.mem_append.mp hrest with hentry | hup
            · obtain ⟨name, _, hname⟩ := List.mem_flatMap.mp hentry
              obtain ⟨dir, hdir, rfl⟩ := List.mem_map.mp hname
              have hunder := enforced_leads hwf hsandbox dir (mem_placed.mp hdir)
              exact hunder.trans (List.prefix_append ..)
            · split at hup
              · rename_i hdotDot
                have hchecked := guarded dirPath mid names hparent hsandbox hnames hdotDot
                exact (leads_iff_checked hwf).mpr hchecked place (mem_placed.mp hup)
              · cases hup

/-- A directory is made only where nothing is. -/
theorem confined_createDir (relPath : Path) :
    ∀ place ∈ s.touched (.createDir relPath), s.root <+: place := by
  intro place hplace
  rw [touched] at hplace
  split at hplace
  · cases hplace
  · rename_i hostPath mid hfound
    obtain ⟨hsame, hsandbox⟩ := resolveForCreate_same hfound
    split at hplace
    · cases hplace
    · rename_i tree hmade
      rw [mem_placed] at hplace
      rw [← hsame.root]
      apply enforced_entry hsandbox _ hplace
      by_contra hpresent
      obtain ⟨dir, name, hlocate, _, hfree, _⟩ := FileTree.mkdir_ok hmade
      obtain ⟨target, hresolve, _⟩ := resolve_of_present (by simpa using hpresent)
      have hthere := FileTree.locate_present hlocate hresolve
      simp [hfree] at hthere

theorem confined_removal (remove : FileTree Attrs → HostPath → Except IoError (FileTree Attrs))
    (relPath : Path) :
    (∀ place ∈ (match s.resolveExisting relPath with
        | (.error _, _) => []
        | (.ok hostPath, s) => match remove s.tree hostPath with
          | .error _ => []
          | .ok _ => placed (s.tree.locate hostPath)), s.root <+: place) ↔
      ∀ hostPath mid tree, s.resolveExisting relPath = (.ok hostPath, mid) →
        remove mid.tree hostPath = .ok tree → mid.EntryInside hostPath := by
  constructor
  · intro confined hostPath mid tree hfound hremoved _ place hlocate
    rw [(resolveExisting_ok hfound).1.root]
    apply confined place
    simp only [hfound, hremoved]
    exact mem_placed.mpr hlocate
  · intro guarded place hplace
    split at hplace
    · cases hplace
    · rename_i hostPath mid hfound
      obtain ⟨hsame, hsandbox⟩ := resolveExisting_ok hfound
      split at hplace
      · cases hplace
      · rename_i tree hremoved
        rw [← hsame.root]
        exact entry_inside hsandbox (guarded hostPath mid tree hfound hremoved)
          (mem_placed.mp hplace)

theorem confined_rename (oldPath newPath : Path) :
    (∀ place ∈ s.touched (.rename oldPath newPath), s.root <+: place) ↔
      s.Guarded (.rename oldPath newPath) := by
  constructor
  · intro confined oldHost first newHost mid tree hold hnew hmoved
    have hsame := (resolveExisting_ok hold).1.trans (resolveForCreate_same hnew).1
    simp only [touched, hold, hnew, hmoved, List.mem_append, mem_placed, ← hsame.root] at confined
    exact ⟨fun _ place hlocate => confined place (Or.inl hlocate),
      fun _ place hlocate => confined place (Or.inr hlocate)⟩
  · intro guarded place hplace
    rw [touched] at hplace
    split at hplace
    · cases hplace
    · rename_i oldHost first hold
      obtain ⟨hfirst, holdSandbox⟩ := resolveExisting_ok hold
      split at hplace
      · cases hplace
      · rename_i newHost mid hnew
        obtain ⟨hsame, hsandbox⟩ := resolveForCreate_same hnew
        split at hplace
        · cases hplace
        · rename_i tree hmoved
          obtain ⟨hsource, htarget⟩ := guarded oldHost first newHost mid tree hold hnew hmoved
          rw [← (hfirst.trans hsame).root]
          rw [← hsame.enforceSandbox] at holdSandbox
          rcases List.mem_append.mp hplace with hleft | hright
          · exact entry_inside holdSandbox hsource (mem_placed.mp hleft)
          · exact entry_inside hsandbox htarget (mem_placed.mp hright)

theorem confined_copy (wf : s.tree.WellFormed) (srcPath dstPath : Path) :
    (∀ place ∈ s.touched (.copy srcPath dstPath), s.root <+: place) ↔
      s.Guarded (.copy srcPath dstPath) := by
  constructor
  · intro confined srcHost first dstHost mid tree hsrc hdst hcopied _ place hwalk
    have hsame := (resolveExisting_ok hsrc).1.trans (resolveForCreate_same hdst).1
    simp only [touched, hsrc, hdst, hcopied, List.mem_append, mem_placed, ← hsame.root] at confined
    exact confined place (Or.inr hwalk)
  · intro guarded place hplace
    rw [touched] at hplace
    split at hplace
    · cases hplace
    · rename_i srcHost first hsrc
      obtain ⟨hfirst, hsrcSandbox⟩ := resolveExisting_ok hsrc
      split at hplace
      · cases hplace
      · rename_i dstHost mid hdst
        obtain ⟨hsame, hsandbox⟩ := resolveForCreate_same hdst
        have hwf : mid.tree.WellFormed := (hfirst.trans hsame).tree ▸ wf
        rw [← (hfirst.trans hsame).root]
        rw [← hsame.enforceSandbox] at hsrcSandbox
        rcases List.mem_append.mp hplace with hleft | hright
        · exact enforced_leads hwf hsrcSandbox place (mem_placed.mp hleft)
        · split at hright
          · cases hright
          · rename_i tree hcopied
            obtain ⟨file, opened, hopen, _, _⟩ := FileTree.copyFile_ok hcopied
            have hwalk := (FileTree.openFile_ok hwf hopen).1
            rw [mem_placed.mp hright] at hwalk
            cases hwalk
            exact opened_inside hwf (enforced_leads hwf hsandbox)
              (fun _ => guarded srcHost first dstHost mid tree hsrc hdst hcopied) hopen

/-- A path that passes the check is read where it leads. -/
theorem confined_existing (wf : s.tree.WellFormed) {relPath : Path} {hostPath : HostPath}
    (h : s.resolveExisting relPath = (.ok hostPath, mid)) :
    ∀ place ∈ placed (mid.tree.resolve hostPath), s.root <+: place := by
  intro place hplace
  obtain ⟨hsame, hsandbox⟩ := resolveExisting_ok h
  rw [← hsame.root]
  exact enforced_leads (hsame.tree ▸ wf) hsandbox place (mem_placed.mp hplace)

theorem confined_toHostPath (wf : s.tree.WellFormed) (relPath : Path) :
    (∀ place ∈ s.touched (.toHostPath relPath), s.root <+: place) ↔
      s.Guarded (.toHostPath relPath) := by
  constructor
  · intro confined hostPath mid hfound
    have hsame := resolveCi_same hfound
    apply (leads_iff_checked (hsame.tree ▸ wf)).mp
    intro place hresolve
    rw [hsame.root]
    apply confined place
    simp only [touched, toHostPath, hfound]
    exact mem_placed.mpr hresolve
  · intro guarded place hplace
    rw [touched] at hplace
    split at hplace
    · cases hplace
    · rename_i hostPath mid hfound
      have hsame := resolveCi_same hfound
      rw [← hsame.root]
      exact (leads_iff_checked (hsame.tree ▸ wf)).mpr (guarded hostPath mid hfound) place
        (mem_placed.mp hplace)

/-- Each operation reaches nothing outside the volume exactly where it is guarded. -/
theorem touched_inside_iff (wf : s.tree.WellFormed) (op : HostOp) :
    (∀ place ∈ s.touched op, s.root <+: place) ↔ s.Guarded op := by
  cases op with
  | openFile path mode sharing flags attributes =>
      exact confined_openFile wf path mode sharing flags attributes
  | findFirst pattern attrFilter => exact confined_findFirst wf pattern attrFilter
  | createDir path => exact iff_of_true (confined_createDir path) trivial
  | deleteDir path => exact confined_removal FileTree.rmdir path
  | delete path => exact confined_removal FileTree.unlink path
  | rename oldPath newPath => exact confined_rename oldPath newPath
  | copy srcPath dstPath => exact confined_copy wf srcPath dstPath
  | queryPathInfo path =>
      apply iff_of_true _ trivial
      intro place hplace
      rw [touched] at hplace
      split at hplace
      · cases hplace
      · rename_i hostPath mid hfound
        exact confined_existing wf hfound place hplace
  | toHostPath path => exact confined_toHostPath wf path
  | close handle => exact iff_of_true (by simp [touched]) trivial
  | findNext handle => exact iff_of_true (by simp [touched]) trivial
  | findClose handle => exact iff_of_true (by simp [touched]) trivial
  | wait ms => exact iff_of_true (by simp [touched]) trivial

theorem sidecarEaPath_ok {hostPath eaPath : HostPath} (h : sidecarEaPath hostPath = some eaPath) :
    ∃ name, eaPath = eaPath.dropLast ++ [name] ∧ name ≠ dot ∧ name ≠ dotDot := by
  obtain ⟨dir, _, hname⟩ := Option.bind_eq_some_iff.mp h
  obtain ⟨name, _, rfl⟩ := Option.map_eq_some_iff.mp hname
  have hlong : dotDot.length < (name ++ ".ea".toList).length := by
    simp [dotDot]
  refine ⟨name ++ ".ea".toList, by simp, ?_, ?_⟩
  · intro hdot
    rw [hdot] at hlong
    simp [dot, dotDot] at hlong
  · intro hdotDot
    rw [hdotDot] at hlong
    exact lt_irrefl _ hlong

theorem confined_sidecarRead (wf : s.tree.WellFormed) (hostPath : HostPath) :
    (∀ place ∈ sidecarRead s.tree hostPath, s.root <+: place) ↔
      ∀ eaPath, sidecarEaPath hostPath = some eaPath → s.Checked eaPath := by
  simp only [sidecarRead, List.mem_flatMap, Option.mem_toList, mem_placed, ← leads_iff_checked wf]
  constructor
  · intro confined eaPath hea place hresolve
    exact confined place ⟨eaPath, hea, hresolve⟩
  · rintro leads place ⟨eaPath, hea, hresolve⟩
    exact leads eaPath hea place hresolve

/-- A sidecar file in a directory made for it lies where the directory does. -/
theorem made_inside (wf : s.tree.WellFormed) {dir : HostPath} {name : Name}
    (plain : name ≠ dot ∧ name ≠ dotDot) {made opened : FileTree Attrs} {file : HostPath}
    (hmade : s.tree.mkdir dir s.newAttrs = .ok made) (inside : s.NamesInside dir)
    (hopen : made.openFile (dir ++ [name]) true true true s.newAttrs = .ok (file, opened)) :
    s.root <+: file := by
  obtain ⟨up, last, hlocate, spot, hfree, rfl⟩ := FileTree.mkdir_ok hmade
  have hwalk := (FileTree.openFile_ok (spot.insertNode wf hfree (Or.inr rfl)) hopen).1
  rw [FileTree.mkdir_walk wf hmade hlocate plain] at hwalk
  cases hwalk
  exact (inside _ hlocate).trans (List.prefix_append ..)

theorem confined_sidecarWritten (wf : s.tree.WellFormed) {hostPath eaPath : HostPath}
    (hea : sidecarEaPath hostPath = some eaPath) (checked : s.Checked eaPath)
    (eas : List EaEntry) :
    (∀ place ∈ s.sidecarWritten hostPath eas, s.root <+: place) ↔
      s.SidecarGuarded eaPath eas := by
  constructor
  · intro confined
    refine ⟨?_, ?_, ?_⟩
    · rintro rfl tree hremoved place hlocate
      apply confined place
      simp only [sidecarWritten, hea, if_true, hremoved]
      exact mem_placed.mpr hlocate
    · intro hsome tree hmade place hlocate
      apply confined place
      simp only [sidecarWritten, hea, if_neg hsome, hmade]
      exact List.mem_append_left _ (mem_placed.mpr hlocate)
    · intro hsome e hmade habsent place hwalk
      obtain ⟨tree, hopened⟩ := opened_adds wf habsent hwalk true true
      apply confined place
      simp only [sidecarWritten, hea, if_neg hsome, hmade, hopened]
      exact List.mem_singleton_self place
  · intro guarded place hplace
    simp only [sidecarWritten, hea] at hplace
    split at hplace
    · rename_i hnil
      split at hplace
      · cases hplace
      · rename_i tree hremoved
        exact guarded.removed hnil tree hremoved place (mem_placed.mp hplace)
    · rename_i hsome
      cases hmade : s.tree.mkdir eaPath.dropLast s.newAttrs with
      | error e =>
        simp only [hmade, List.nil_append] at hplace
        split at hplace
        · cases hplace
        · rename_i file opened hopen
          cases List.mem_singleton.mp hplace
          exact opened_inside wf ((leads_iff_checked wf).mpr checked)
            (fun _ => guarded.added hsome e hmade) hopen
      | ok made =>
        simp only [hmade] at hplace
        have hinside := guarded.made hsome made hmade
        rcases List.mem_append.mp hplace with hdir | hfile
        · exact hinside place (mem_placed.mp hdir)
        · split at hfile
          · cases hfile
          · rename_i file opened hopen
            cases List.mem_singleton.mp hfile
            obtain ⟨name, hlast, plain⟩ := sidecarEaPath_ok hea
            rw [hlast] at hopen
            exact made_inside wf plain hmade hinside hopen

theorem confined_readEas (wf : s.tree.WellFormed) (xattrSupported : Bool) (relPath : Path) :
    (∀ place ∈ (match s.resolveExisting relPath with
        | (.error _, _) => []
        | (.ok hostPath, s) =>
            if xattrSupported then placed (s.tree.resolve hostPath)
            else sidecarRead s.tree hostPath), s.root <+: place) ↔
      (xattrSupported = false → ∀ hostPath mid, s.resolveExisting relPath = (.ok hostPath, mid) →
        ∀ eaPath, sidecarEaPath hostPath = some eaPath → mid.Checked eaPath) := by
  cases hfound : s.resolveExisting relPath with
  | mk result mid =>
    cases result with
    | error e => simp
    | ok hostPath =>
      have hsame := (resolveExisting_ok hfound).1
      cases xattrSupported with
      | true => exact iff_of_true (confined_existing wf hfound) (by simp)
      | false =>
        rw [← hsame.root]
        refine (confined_sidecarRead (hsame.tree ▸ wf) hostPath).trans ⟨?_, ?_⟩
        · intro checked _ _ _ hpair
          cases hpair
          exact checked
        · intro guarded
          exact guarded rfl hostPath mid rfl

theorem confined_setEa (wf : s.tree.WellFormed) (xattrSupported : Bool) (relPath : Path)
    (ea : EaEntry) :
    s.Confined xattrSupported (.setEa relPath ea) ↔
      s.GuardedCall xattrSupported (.setEa relPath ea) := by
  simp only [Confined, reached, GuardedCall]
  cases hfound : s.resolveExisting relPath with
  | mk result mid =>
    cases result with
    | error e => simp
    | ok hostPath =>
      have hsame := (resolveExisting_ok hfound).1
      have hwf : mid.tree.WellFormed := hsame.tree ▸ wf
      cases xattrSupported with
      | true => exact iff_of_true (confined_existing wf hfound) (by simp)
      | false =>
        rw [← hsame.root]
        constructor
        · intro confined _ _ _ hpair eaPath hea
          cases hpair
          have hchecked := (confined_sidecarRead hwf hostPath).mp
            (fun place hplace => confined place (List.mem_append_left _ hplace)) eaPath hea
          refine ⟨hchecked, (confined_sidecarWritten hwf hea hchecked _).mp ?_⟩
          exact fun place hplace => confined place (List.mem_append_right _ hplace)
        · intro guarded place hplace
          have hguarded := guarded rfl hostPath mid rfl
          rcases List.mem_append.mp hplace with hread | hwritten
          · exact (confined_sidecarRead hwf hostPath).mpr
              (fun eaPath hea => (hguarded eaPath hea).1) place hread
          · cases hea : sidecarEaPath hostPath with
            | none => simp [sidecarWritten, hea] at hwritten
            | some eaPath =>
              obtain ⟨hchecked, hsidecar⟩ := hguarded eaPath hea
              exact (confined_sidecarWritten hwf hea hchecked _).mpr hsidecar place hwritten

theorem confined_resolve (wf : s.tree.WellFormed) (path : HostPath) :
    (∀ place ∈ placed (s.tree.resolve path), s.root <+: place) ↔ s.Checked path := by
  simp only [mem_placed, ← leads_iff_checked wf]
  rfl

theorem confined_setLabel (wf : s.tree.WellFormed) (xattrSupported : Bool) (label : String) :
    s.Confined xattrSupported (.setFsInfoVolume label) ↔
      s.GuardedCall xattrSupported (.setFsInfoVolume label) := by
  simp only [Confined, reached, GuardedCall]
  cases hopen : s.tree.openFile s.labelPath true true true s.newAttrs with
  | error e => simp
  | ok found =>
    obtain ⟨file, tree⟩ := found
    have hwalk := (FileTree.openFile_ok wf hopen).1
    simp only [List.mem_singleton, forall_eq]
    constructor
    · intro confined _ _ hpair
      cases hpair
      refine ⟨(leads_iff_checked wf).mp ?_, ?_⟩
      · intro place hresolve
        rw [FileTree.walk_create hresolve] at hwalk
        cases hwalk
        exact confined
      · intro _ place hplace
        rw [hplace] at hwalk
        cases hwalk
        exact confined
    · intro guarded
      obtain ⟨hchecked, hadds⟩ := guarded file tree rfl
      exact opened_inside wf ((leads_iff_checked wf).mpr hchecked) (fun _ => hadds) hopen

end Sandbox

/-- What lies outside the volume stays as it is, but for the directory that lists the
volume's root. -/
theorem exec_outside {s : HostDir} {op : HostOp} (reg : s.Regular) (guarded : s.Guarded op)
    {other : HostPath} (outside : ¬ s.root <+: other) (apart : other ≠ s.root.dropLast) :
    (s.exec op).tree other = s.tree other := by
  by_contra hchanged
  obtain ⟨place, hplace, hcase⟩ := exec_changesAt reg op other hchanged
  have hinside := (touched_inside_iff reg.wellFormed op).mpr guarded place hplace
  rcases hcase with hbelow | rfl
  · exact outside (hinside.trans hbelow)
  · cases place using List.reverseRecOn with
    | nil =>
      rw [List.prefix_nil.mp hinside] at apart
      exact apart rfl
    | append_singleton dir name =>
      rw [List.dropLast_concat] at outside apart
      rcases FileTree.isPrefix_snoc.mp hinside with hroot | hdir
      · rw [hroot, List.dropLast_concat] at apart
        exact apart rfl
      · exact outside hdir

/-- What holds of the states that guarded operations lead to. -/
structure Sealed (root : HostPath) (tree : FileTree Attrs) (s : HostDir) : Prop where
  regular : s.Regular
  sameRoot : s.root = root
  outside : ∀ other, ¬ root <+: other → other ≠ root.dropLast → s.tree other = tree other
  opened : ∀ id entry, s.files id = some entry → root <+: entry.file

theorem Sealed.exec {root : HostPath} {tree : FileTree Attrs} {s : HostDir} {op : HostOp}
    (inv : s.Sealed root tree) (guarded : s.Guarded op) : (s.exec op).Sealed root tree where
  regular := ((exec_effect inv.regular op).regular inv.regular).1
  sameRoot := ((exec_effect inv.regular op).root inv.regular).trans inv.sameRoot
  outside := by
    intro other outside apart
    rw [exec_outside inv.regular guarded (inv.sameRoot ▸ outside) (inv.sameRoot ▸ apart)]
    exact inv.outside other outside apart
  opened := by
    intro id entry hentry
    rcases exec_files inv.regular op hentry with hold | hnew
    · exact inv.opened id entry hold
    · exact inv.sameRoot ▸ (touched_inside_iff inv.regular.wellFormed op).mpr guarded _ hnew

/-- Over a whole run of guarded operations the host outside the volume stays as it
is, and every open file lies under the root. -/
theorem run_sealed {root : HostPath} {kernelCasefold : Bool} {tree : FileTree Attrs}
    {attrs : Attrs} {ops : List HostOp} {last : HostDir} (plain : FileTree.Plain root)
    (wf : tree.WellFormed)
    (run : Run (step.guarded Guarded) (HostDir.new root kernelCasefold tree attrs) ops last) :
    last.Sealed root tree := by
  apply run.invariant (fun s => s.Sealed root tree)
  · rintro start op finish inv ⟨guarded, rfl⟩
    exact inv.exec guarded
  · exact ⟨new_regular kernelCasefold attrs plain wf, rfl, fun _ _ _ => rfl,
      fun id entry hentry => (by cases hentry)⟩

/-- A listing of the volume's root has an entry made from what lies above it. -/
theorem root_parent_stated :
    ¬ emptyVolume.Confined true (.op (.findFirst "*".toList .directory)) := by
  intro confined
  exact absurd (confined [] (by decide)) (by decide)

end HostDir
end Warpine.Vfs
