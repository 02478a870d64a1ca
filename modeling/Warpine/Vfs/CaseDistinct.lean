import Warpine.Vfs.HostRun

/-! Names that differ only in case. A lookup takes them for one, so a directory
must not hold two of them; not every operation looks before it adds a name. -/
namespace Warpine.Vfs
open Warpine.Lib Posix

namespace HostDir

/-- No directory holds two names that are equal up to case. -/
def CaseDistinct (tree : FileTree Attrs) : Prop :=
  ∀ dir entries, tree.names dir = some entries → (entries.map lowerName).Nodup

/-- Beside a place, its directory holds no name equal to its own up to case, but
for the place `leaving`. -/
def NoVariant (tree : FileTree Attrs) (place : HostPath) (leaving : Option HostPath) : Prop :=
  ∀ dir name entries, place = dir ++ [name] → tree.names dir = some entries →
    ∀ other ∈ entries, lowerName other = lowerName name →
      other = name ∨ leaving = some (dir ++ [other])

/-- The file that opening a path would add, if any, has no variant. -/
def AddsNoVariant (tree : FileTree Attrs) (host : HostPath) : Prop :=
  ∀ file, tree.walk true FileTree.maxLinks [] host = .ok file → tree file = none →
    NoVariant tree file none

/-- A name is added only where no other name is equal to it up to case. An open
looks that up itself, if its listing of the directory is up to date. -/
def AllowedByCase (s : HostDir) : HostOp → Prop
  | .openFile path _ _ flags _ => ∀ host action mid,
      s.openPath path flags = (.ok (host, action), mid) → match action with
        | .existed => True
        | .replaced => AddsNoVariant mid.tree host
        | .created => ∀ dir entry, parent host = some dir → mid.dirCache dir = some entry →
            mid.Live entry → entry.names = listing mid.tree dir
  | .createDir path => ∀ host mid place, s.resolveForCreate path = (.ok host, mid) →
      mid.tree.locate host = .ok place → NoVariant mid.tree place none
  | .rename oldPath newPath => ∀ oldHost newHost first mid source target,
      s.resolveExisting oldPath = (.ok oldHost, first) →
      first.resolveForCreate newPath = (.ok newHost, mid) →
      mid.tree.locate oldHost = .ok source → mid.tree.locate newHost = .ok target →
      NoVariant mid.tree target (some source)
  | .copy srcPath dstPath => ∀ srcHost dstHost first mid,
      s.resolveExisting srcPath = (.ok srcHost, first) →
      first.resolveForCreate dstPath = (.ok dstHost, mid) → AddsNoVariant mid.tree dstHost
  | _ => True

section Edits

variable {tree next : FileTree Attrs} {dir : HostPath} {name : Name} {node : Node Attrs}

theorem distinct_filter {entries : List Name} (h : (entries.map lowerName).Nodup)
    (keep : Name → Bool) : ((entries.filter keep).map lowerName).Nodup :=
  h.sublist ((List.filter_sublist).map lowerName)

/-- A name is added at the end in place of itself. -/
theorem distinct_relist {entries : List Name} (h : (entries.map lowerName).Nodup)
    (free : ∀ other ∈ entries, lowerName other = lowerName name → other = name) :
    ((entries.filter (· ≠ name) ++ [name]).map lowerName).Nodup := by
  rw [List.map_append, List.nodup_append]
  refine ⟨distinct_filter h _, by simp, ?_⟩
  intro key hkey last hlast
  obtain ⟨other, hother, rfl⟩ := List.mem_map.mp hkey
  obtain rfl : last = lowerName name := by simpa using hlast
  intro hsame
  obtain ⟨hmember, hne⟩ := List.mem_filter.mp hother
  exact absurd (free other hmember hsame) (by simpa using hne)

theorem distinct_prune (distinct : CaseDistinct tree) :
    CaseDistinct (tree.prune (dir ++ [name])) := by
  intro other entries hentries
  rw [FileTree.names_prune] at hentries
  split at hentries
  · cases hentries
  · split at hentries
    · obtain ⟨old, hold, rfl⟩ := Option.map_eq_some_iff.mp hentries
      exact distinct_filter (distinct other old hold) _
    · exact distinct other entries hentries

theorem distinct_graft {branch : FileTree Attrs} (distinct : CaseDistinct tree)
    (hbranch : CaseDistinct branch)
    (free : ∀ entries, tree.names dir = some entries →
      ∀ other ∈ entries, lowerName other = lowerName name → other = name) :
    CaseDistinct (tree.graft (dir ++ [name]) branch) := by
  intro other entries hentries
  rw [FileTree.names_graft] at hentries
  split at hentries
  · exact hbranch _ entries hentries
  · split at hentries
    · rename_i hdir
      subst hdir
      obtain ⟨old, hold, rfl⟩ := Option.map_eq_some_iff.mp hentries
      exact distinct_relist (distinct other old hold) (free old hold)
    · exact distinct other entries hentries

theorem distinct_leaf (bare : node.entries = none ∨ node.entries = some []) :
    CaseDistinct (FileTree.leaf node) := by
  intro other entries hentries
  rw [FileTree.names_leaf] at hentries
  split at hentries
  · rcases bare with hnone | hempty
    · rw [hnone] at hentries
      cases hentries
    · rw [hempty] at hentries
      cases hentries
      exact List.nodup_nil
  · cases hentries

theorem distinct_insert (wf : tree.WellFormed) (distinct : CaseDistinct tree)
    (absent : tree (dir ++ [name]) = none)
    (bare : node.entries = none ∨ node.entries = some [])
    (free : NoVariant tree (dir ++ [name]) none) :
    CaseDistinct (tree.insertNode (dir ++ [name]) node) := by
  rw [FileTree.insertNode_eq_graft wf.toFormed absent]
  apply distinct_graft distinct (distinct_leaf bare)
  intro entries hentries other hother hsame
  exact (free dir name entries rfl hentries other hother hsame).resolve_right (by simp)

theorem distinct_moved {fromDir toDir : HostPath} {fromName toName : Name}
    (distinct : CaseDistinct tree)
    (moved : FileTree.Moved tree next (fromDir ++ [fromName]) (toDir ++ [toName]) node)
    (free : NoVariant tree (toDir ++ [toName]) (some (fromDir ++ [fromName]))) :
    CaseDistinct next := by
  rw [moved.result]
  apply distinct_graft (distinct_prune distinct)
  · intro below entries hentries
    exact distinct (fromDir ++ [fromName] ++ below) entries hentries
  · intro entries hentries other hother hsame
    rw [FileTree.names_prune] at hentries
    split at hentries
    · cases hentries
    · split at hentries
      · rename_i hdir
        obtain ⟨old, hold, rfl⟩ := Option.map_eq_some_iff.mp hentries
        obtain ⟨hmember, hne⟩ := List.mem_filter.mp hother
        apply (free toDir toName old rfl hold other hmember hsame).resolve_right
        intro hleaving
        obtain ⟨_, hname⟩ := FileTree.snoc_inj.mp (Option.some.inj hleaving)
        simp [hname] at hne
      · rename_i hdir
        apply (free toDir toName entries rfl hentries other hother hsame).resolve_right
        intro hleaving
        exact hdir (FileTree.snoc_inj.mp (Option.some.inj hleaving)).1.symm

theorem distinct_rewrites (h : FileTree.Rewrites tree next) (distinct : CaseDistinct tree) :
    CaseDistinct next := by
  intro dir entries hentries
  rw [h.names] at hentries
  exact distinct dir entries hentries

theorem distinct_openFile {path file : HostPath} {write create truncate : Bool} {attrs : Attrs}
    (wf : tree.WellFormed) (distinct : CaseDistinct tree)
    (free : create = true → AddsNoVariant tree path)
    (h : tree.openFile path write create truncate attrs = .ok (file, next)) :
    CaseDistinct next := by
  obtain ⟨hwalk, ⟨hcreate, absent, dir, name, rfl, _, rfl⟩ | ⟨_, hrewrites⟩⟩ :=
    FileTree.openFile_ok wf h
  · rw [hcreate] at hwalk
    exact distinct_insert wf distinct absent (Or.inl rfl) (free hcreate _ hwalk absent)
  · exact distinct_rewrites hrewrites distinct

end Edits

section Created

variable {mid : HostDir}

theorem isDir_ok {tree : FileTree Attrs} {dir : HostPath} (h : tree.isDir dir = true) :
    ∃ place entries, tree.resolve dir = .ok place ∧ tree.names place = some entries ∧
      tree.readDir dir = some entries := by
  unfold FileTree.isDir FileTree.lookup FileTree.canonicalize at h
  unfold FileTree.readDir FileTree.lookup FileTree.canonicalize
  cases hresolve : tree.resolve dir with
  | error e => simp [hresolve, Except.toOption] at h
  | ok place =>
    simp only [hresolve, Except.toOption, Option.bind_some] at h ⊢
    cases hnode : tree place with
    | none => simp [hnode] at h
    | some node =>
      rw [hnode, Option.any_some] at h
      obtain ⟨entries, hentries⟩ := Option.isSome_iff_exists.mp (Node.isDir_iff.mp h)
      refine ⟨place, entries, rfl, ?_, hentries⟩
      rw [FileTree.names_eq, hnode]
      exact hentries

/-- An open adds no variant where its listing of the directory is up to date. -/
theorem created_addsNoVariant (wf : mid.tree.WellFormed) {dir : HostPath} {name : Name}
    (hplain : name ≠ dot ∧ name ≠ dotDot) (hdir : mid.tree.isDir dir = true)
    (hlook : mid.view dir (lowerName name) = none)
    (current : ∀ entry, mid.dirCache dir = some entry → mid.Live entry →
      entry.names = listing mid.tree dir) : AddsNoVariant mid.tree (dir ++ [name]) := by
  obtain ⟨place, entries, hresolve, hnames, hread⟩ := isDir_ok hdir
  have hview := view_current current
  have hfresh : ∀ other ∈ entries, lowerName other ≠ lowerName name := by
    apply listedNames_eq_none
    rwa [hview, listing, hread] at hlook
  have habsent : mid.tree (place ++ [name]) = none := by
    by_contra hsome
    have hmember := (wf.listed place entries hnames name).mpr (Option.isSome_iff_ne_none.mpr hsome)
    exact hfresh name hmember rfl
  intro file hwalk _
  obtain ⟨left, hend⟩ := @FileTree.walk_append _ mid.tree true FileTree.maxLinks [] place dir [name]
    hresolve (by simp [hnames])
  have hcreated : mid.tree.walk true left place [name] = .ok (place ++ [name]) := by
    cases left <;> simp [FileTree.walk, FileTree.walkWith, hplain.1, hplain.2, habsent]
  rw [hend, hcreated] at hwalk
  cases hwalk
  intro other last found hsame hfound sibling hmember hcase
  obtain ⟨rfl, rfl⟩ := FileTree.snoc_inj.mp hsame
  rw [hnames] at hfound
  cases hfound
  exact absurd hcase (hfresh sibling hmember)

end Created

section Runs

variable {s mid : HostDir}

theorem case_openFile (reg : s.Regular) (ci : s.kernelCasefold = false) {path : Path}
    {mode : OpenMode} {sharing : SharingMode} {flags : OpenFlags} {attributes : FileAttribute}
    {host : HostPath} {action : OpenAction}
    (allowed : s.AllowedByCase (.openFile path mode sharing flags attributes))
    (resolved : s.openPath path flags = (.ok (host, action), mid))
    (create : (action == .created || action == .replaced) = true) :
    AddsNoVariant mid.tree host := by
  have hallowed := allowed host action mid resolved
  cases action with
  | existed => cases create
  | replaced => exact hallowed
  | created =>
    obtain ⟨dir, name, rfl, inside, hdir, hlook⟩ := created_unlisted reg ci resolved
    have plain := inside.plain
    have hparent : parent (dir ++ [name]) = some dir := by simp [parent, normal_plain plain]
    exact created_addsNoVariant ((openPath_spec reg resolved).1.regular reg).wellFormed
      (plain_snoc.mp plain).2 hdir hlook fun entry => hallowed dir entry hparent

theorem CaseDistinct.exec (reg : s.Regular) (ci : s.kernelCasefold = false)
    (distinct : CaseDistinct s.tree) {op : HostOp} (allowed : s.AllowedByCase op) :
    CaseDistinct (s.exec op).tree := by
  have effect := exec_effect reg op
  generalize s.exec op = next at effect
  cases effect with
  | quiet resolved becomes keeps => rwa [becomes.tree, resolved.tree]
  | openFile opens =>
    have hresolves := (openPath_spec reg opens.resolved).1
    rw [opens.becomes.tree]
    rw [← hresolves.tree] at distinct
    exact distinct_openFile (hresolves.regular reg).wellFormed distinct
      (case_openFile reg ci allowed opens.resolved) opens.opened
  | createDir resolved made becomes keeps =>
    have hresolves := (resolveForCreate_spec reg resolved).1
    obtain ⟨dir, name, hlocate, _, absent, rfl⟩ := FileTree.mkdir_ok made
    rw [becomes.tree]
    rw [← hresolves.tree] at distinct
    exact distinct_insert (hresolves.regular reg).wellFormed distinct absent (Or.inr rfl)
      (allowed _ _ _ resolved hlocate)
  | deleteDir resolved removed becomes keeps =>
    obtain ⟨dir, name, node, _, _, _, _, rfl⟩ := FileTree.rmdir_ok removed
    rw [becomes.tree]
    rw [← (resolveExisting_spec reg resolved).1.tree] at distinct
    exact distinct_prune distinct
  | delete resolved removed becomes keeps =>
    obtain ⟨dir, name, node, _, _, _, _, rfl⟩ := FileTree.unlink_ok removed
    rw [becomes.tree]
    rw [← (resolveExisting_spec reg resolved).1.tree] at distinct
    exact distinct_prune distinct
  | rename source target moved becomes keeps =>
    have hfirst := (resolveExisting_spec reg source).1
    have hresolves := hfirst.trans (resolveForCreate_spec (hfirst.regular reg) target).1
    rw [becomes.tree]
    rw [← hresolves.tree] at distinct
    obtain ⟨fromDir, fromName, toDir, toName, hfrom, hto, _, _, ⟨_, rfl⟩ | ⟨node, hmoved⟩⟩ :=
      FileTree.rename_ok moved
    · exact distinct
    · exact distinct_moved distinct hmoved (allowed _ _ _ _ _ _ source target hfrom hto)
  | copy source target copied becomes keeps =>
    have hfirst := (resolveExisting_spec reg source).1
    have hresolves := hfirst.trans (resolveForCreate_spec (hfirst.regular reg) target).1
    obtain ⟨file, opened, hopen, hrewrites, _⟩ := FileTree.copyFile_ok copied
    rw [becomes.tree]
    rw [← hresolves.tree] at distinct
    exact distinct_rewrites hrewrites (distinct_openFile (hresolves.regular reg).wellFormed distinct
      (fun _ => allowed _ _ _ _ source target) hopen)
  | close found becomes => rwa [becomes.tree]
  | wait ms => exact distinct

/-- A run that adds names only where they have no variant keeps all names distinct. -/
theorem allowed_names_distinct {root : HostPath} {tree : FileTree Attrs} {attrs : Attrs}
    {ops : List HostOp} {last : HostDir} (plain : FileTree.Plain root) (wf : tree.WellFormed)
    (distinct : CaseDistinct tree)
    (run : Run (step.guarded AllowedByCase) (HostDir.new root false tree attrs) ops last) :
    CaseDistinct last.tree := by
  refine (run.invariant (fun s => s.Regular ∧ s.kernelCasefold = false ∧ CaseDistinct s.tree)
    ?_ ⟨new_regular false attrs plain wf, rfl, distinct⟩).2.2
  rintro s op _ ⟨reg, ci, hdistinct⟩ ⟨allowed, rfl⟩
  obtain ⟨hreg, hci⟩ := (exec_effect reg op).regular reg
  exact ⟨hreg, hci.trans ci, hdistinct.exec reg ci allowed⟩

theorem emptyHost_distinct : CaseDistinct emptyHost := by
  have wf : (FileTree.leaf (⟨.dir [], plainAttrs⟩ : Node Attrs)).WellFormed :=
    ⟨FileTree.formed_leaf (Or.inr rfl), rfl⟩
  apply @distinct_insert _ [] "c".toList _ wf (distinct_leaf (Or.inr rfl)) rfl (Or.inr rfl)
  intro dir name entries hplace hentries other hother
  obtain ⟨rfl, _⟩ := FileTree.snoc_inj.mp (hplace : [] ++ ["c".toList] = dir ++ [name])
  cases hentries
  cases hother

/-- A second directory beside the first. -/
theorem allowed_names_distinct_two :
    CaseDistinct
      (([.createDir "D".toList, .createDir "E".toList].foldl exec emptyVolume).tree) := by
  have run : Run (step.guarded AllowedByCase) emptyVolume
      [.createDir "D".toList, .createDir "E".toList]
      ([.createDir "D".toList, .createDir "E".toList].foldl exec emptyVolume) := by
    refine .cons ⟨?_, rfl⟩ (.cons ⟨?_, rfl⟩ (.nil _))
    · intro host mid place h hlocate dir name entries hplace hentries other hother hcase
      cases congrArg Prod.snd h
      have hhost : Except.ok host = (Except.ok ["c".toList, "D".toList] : VfsResult HostPath) :=
        (congrArg Prod.fst h).symm
      cases hhost
      have hsame : Except.ok place = (Except.ok ["c".toList, "D".toList] : Except IoError _) :=
        hlocate.symm
      cases hsame
      have hparts : ["c".toList] ++ ["D".toList] = dir ++ [name] := hplace
      obtain ⟨rfl, rfl⟩ := FileTree.snoc_inj.mp hparts
      cases hentries
      cases hother
    · intro host mid place h hlocate dir name entries hplace hentries other hother hcase
      cases congrArg Prod.snd h
      have hhost : Except.ok host = (Except.ok ["c".toList, "E".toList] : VfsResult HostPath) :=
        (congrArg Prod.fst h).symm
      cases hhost
      have hsame : Except.ok place = (Except.ok ["c".toList, "E".toList] : Except IoError _) :=
        hlocate.symm
      cases hsame
      have hparts : ["c".toList] ++ ["E".toList] = dir ++ [name] := hplace
      obtain ⟨rfl, rfl⟩ := FileTree.snoc_inj.mp hparts
      have hnames : some entries = some ["D".toList] := hentries.symm
      cases hnames
      obtain rfl := List.mem_singleton.mp hother
      exact absurd hcase (by decide)
  exact allowed_names_distinct emptyVolume_root emptyHost_wellFormed emptyHost_distinct run

/-- A directory is made under a name that differs only in case from another. -/
theorem directories_differ_in_case :
    ¬ ∀ (root : HostPath) (tree : FileTree Attrs) (attrs : Attrs) (ops : List HostOp)
      (last : HostDir), FileTree.Plain root → tree.WellFormed → CaseDistinct tree →
        Run step (HostDir.new root false tree attrs) ops last → CaseDistinct last.tree := by
  intro h
  have hdistinct := h _ _ _ _ _ emptyVolume_root emptyHost_wellFormed emptyHost_distinct
    (run_exec emptyVolume [.createDir "FOO".toList, .createDir "foo".toList])
  have hnames : ([HostOp.createDir "FOO".toList, .createDir "foo".toList].foldl exec
      emptyVolume).tree.names ["c".toList] = some ["FOO".toList, "foo".toList] := by
    decide
  exact absurd (hdistinct _ _ hnames) (by decide)

end Runs

end HostDir
end Warpine.Vfs
