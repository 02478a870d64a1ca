import Warpine.Vfs.HostRun

/-! The directory cache against fresh listings. An operation drops the listings
of the directories its paths stand in, so those further down must not change. -/
namespace Warpine.Vfs
open Warpine.Lib Posix

namespace HostDir

/-- What a path resolves to with a fresh listing at every step. -/
def resolveFresh (s : HostDir) (relPath : Path) : Option HostPath :=
  if s.kernelCasefold then
    let candidate := join s.root relPath
    if s.tree.present candidate then some candidate else none
  else componentsBy s.tree s.root (listing s.tree) s.root (relPath.splitOn '/')

/-- The cache changes no resolution. -/
def Coherent (s : HostDir) : Prop :=
  ∀ relPath : Path, (s.resolveCi relPath).1 = s.resolveFresh relPath

/-- Where a walk can pass. -/
def Reached (s : HostDir) (dir : HostPath) : Prop := dir = s.root ∨ (s.tree dir).isSome

/-- No live listing of a place that a walk can pass is out of date. -/
def Current (s : HostDir) : Prop :=
  ∀ dir entry, s.dirCache dir = some entry → s.Live entry → s.Reached dir →
    entry.names = listing s.tree dir

/-- If the path is free, no live listing with names in it is cached for it. -/
def Unlisted (s : HostDir) (host : HostPath) : Prop :=
  s.tree host = none → ∀ entry, s.dirCache host = some entry → s.Live entry →
    entry.names = .empty

/-- The live listings cached at the target and below are those of the source. -/
def ListedAlike (s : HostDir) (source target : HostPath) : Prop :=
  ∀ below entry, s.dirCache (target ++ below) = some entry → s.Live entry →
    (s.tree (source ++ below)).isSome → entry.names = listing s.tree (source ++ below)

/-- Where an operation puts something, no live listing of something else is cached. -/
def AllowedByCache (s : HostDir) : HostOp → Prop
  | .openFile path _ _ flags _ => ∀ host action mid,
      s.openPath path flags = (.ok (host, action), mid) → mid.Unlisted host
  | .createDir path => ∀ host mid, s.resolveForCreate path = (.ok host, mid) → mid.Unlisted host
  | .rename oldPath newPath => ∀ oldHost newHost first mid,
      s.resolveExisting oldPath = (.ok oldHost, first) →
      first.resolveForCreate newPath = (.ok newHost, mid) → mid.ListedAlike oldHost newHost
  | .copy srcPath dstPath => ∀ srcHost dstHost first mid,
      s.resolveExisting srcPath = (.ok srcHost, first) →
      first.resolveForCreate dstPath = (.ok dstHost, mid) → mid.Unlisted dstHost
  | _ => True

structure CacheInv (s : HostDir) : Prop where
  regular : s.Regular
  ci : s.kernelCasefold = false
  noLinks : s.tree.NoLinks
  current : s.Current

variable {s mid next : HostDir}

theorem Resolves.current (h : Resolves s next) (cur : s.Current) : next.Current := by
  intro dir entry hentry hlive hreached
  rw [h.tree]
  rw [Live, h.now] at hlive
  rw [Reached, h.tree, h.root] at hreached
  rcases h.fresh dir entry hentry with hold | ⟨_, names, hnames, rfl⟩
  · exact cur dir entry hold hlive hreached
  · simp [listing, hnames]

theorem Resolves.cacheInv (h : Resolves s next) (inv : s.CacheInv) : next.CacheInv where
  regular := h.regular inv.regular
  ci := h.casefold.trans inv.ci
  noLinks := h.tree ▸ inv.noLinks
  current := h.current inv.current

theorem reached_up (wf : s.tree.WellFormed) {dir up : HostPath} (plain : FileTree.Plain dir)
    (hreached : s.Reached dir) (hne : dir ≠ s.root) (hup : parent dir = some up) :
    s.Reached up := by
  obtain ⟨rfl, hnil, _⟩ := parent_plain plain hup
  have hsome := hreached.resolve_left hne
  rw [← List.dropLast_append_getLast hnil] at hsome
  exact Or.inr (FileTree.isSome_of_names (wf.inside _ _ hsome))

/-- A name that is there, or listed, leads to where a walk can pass. -/
theorem reached_down (wf : s.tree.WellFormed) (nolinks : s.tree.NoLinks) {dir : HostPath}
    {component resolved : Name} (plain : FileTree.Plain dir)
    (hname : component ≠ dot ∧ component ≠ dotDot)
    (hfound : (if s.tree.present (dir ++ [component]) then some component
      else listing s.tree dir (lowerName component)) = some resolved) :
    (s.tree (dir ++ [resolved])).isSome := by
  split at hfound
  · rename_i hpresent
    cases hfound
    rwa [FileTree.present_plain wf nolinks (plain_snoc.mpr ⟨plain, hname⟩)] at hpresent
  · rw [listing, FileTree.readDir_plain wf nolinks plain] at hfound
    cases hnames : s.tree.names dir with
    | none => simp [hnames] at hfound
    | some names =>
      rw [hnames] at hfound
      exact (wf.listed dir names hnames resolved).mp (listedNames_eq_some hfound).1

/-- With a current cache the walk is the fresh one. -/
theorem componentsBy_current (components : List Name) {current : HostPath} (inv : s.CacheInv)
    (inside : Inside s.root current) (hreached : s.Reached current) :
    componentsBy s.tree s.root s.view current components =
      componentsBy s.tree s.root (listing s.tree) current components := by
  have wf := inv.regular.wellFormed
  induction components generalizing current with
  | nil => rfl
  | cons component rest ih =>
    unfold componentsBy
    split
    · exact ih inside hreached
    · rename_i hskip
      split
      · split
        · exact ih inside hreached
        · rename_i hroot
          cases hup : parent current with
          | none => rfl
          | some up =>
            exact ih (inside.up hroot hup) (reached_up wf inside.plain hreached hroot hup)
      · rename_i hdotDot
        have hname : component ≠ dot ∧ component ≠ dotDot :=
          ⟨fun hdot => hskip (Or.inr hdot), hdotDot⟩
        dsimp only
        rw [view_current fun entry hentry hlive => inv.current _ entry hentry hlive hreached]
        cases hfound : (if s.tree.present (current ++ [component]) then some component
          else listing s.tree current (lowerName component)) with
        | none => rfl
        | some resolved =>
          have hsome := reached_down wf inv.noLinks inside.plain hname hfound
          exact ih (inside.snoc (wf.plain current resolved hsome)) (Or.inr hsome)

theorem CacheInv.coherent (inv : s.CacheInv) : s.Coherent := by
  intro relPath
  have inside : Inside s.root s.root := ⟨inv.regular.rootPlain, List.prefix_refl _⟩
  rw [resolveCi_view inv.regular inv.ci, resolveFresh, if_neg (by simp [inv.ci])]
  exact componentsBy_current _ inv inside (Or.inl rfl)

/-- A path that an operation puts a name at, or takes one from, has no dot names. -/
theorem Target.inside {host place : HostPath} (target : Target mid host)
    (hlocate : mid.tree.locate host = .ok place) : Inside mid.root host := by
  obtain ⟨dir, hdir, _, rfl | ⟨name, rfl⟩⟩ := target
  · exact hdir
  · obtain ⟨_, other, _, hlast, _, spot⟩ := FileTree.locate_ok hlocate
    rw [List.dropLast_concat] at hlast
    obtain rfl : name = other := by simpa using hlast
    exact hdir.snoc spot.plain

theorem parent_snoc {dir : HostPath} {name : Name} (plain : FileTree.Plain (dir ++ [name])) :
    parent (dir ++ [name]) = some dir := by
  simp [parent, normal_plain plain]

theorem walk_dots {tree : FileTree Attrs} {create : Bool} (left : Nat) (dir : HostPath)
    {name : Name} (h : name = dot ∨ name = dotDot) :
    tree.walk create left dir [name] = .ok (if name = dot then dir else dir.dropLast) := by
  rcases h with rfl | rfl
  · cases left <;> simp [FileTree.walk, FileTree.walkWith]
  · cases left <;> simp [FileTree.walk, FileTree.walkWith, dot, dotDot]

/-- A file that an operation adds stands at the path itself. -/
theorem created_plain (wf : mid.tree.WellFormed) (nolinks : mid.tree.NoLinks) {create : Bool}
    {host file : HostPath} (hhost : Inside mid.root host ∨ Target mid host)
    (hwalk : mid.tree.walk create FileTree.maxLinks [] host = .ok file)
    (free : mid.tree file = none) :
    file = host ∧ FileTree.Plain host := by
  have onPlain : FileTree.Plain host → file = host ∧ FileTree.Plain host :=
    fun plain => ⟨FileTree.walk_plain nolinks plain hwalk, plain⟩
  rcases hhost with inside | ⟨dir, hinside, hdir, rfl | ⟨name, rfl⟩⟩
  · exact onPlain inside.plain
  · exact onPlain hinside.plain
  · by_cases hname : name = dot ∨ name = dotDot
    · rw [FileTree.isDir_plain wf nolinks hinside.plain] at hdir
      have hresolve := (FileTree.resolve_plain wf nolinks hinside.plain).mpr
        ⟨rfl, FileTree.isSome_of_names hdir⟩
      obtain ⟨left, hend⟩ :=
        @FileTree.walk_append _ mid.tree create FileTree.maxLinks [] dir dir [name] hresolve hdir
      rw [hend, walk_dots left dir hname] at hwalk
      have hfile := Except.ok.inj hwalk
      have hsome : (mid.tree file).isSome := by
        rw [← hfile]
        split
        · exact FileTree.isSome_of_names hdir
        · exact FileTree.isSome_of_names (wf.dropLast_dir hdir)
      simp [free] at hsome
    · exact onPlain (hinside.snoc (not_or.mp hname)).plain

theorem CacheInv.becomes (inv : mid.CacheInv) {tree : FileTree Attrs}
    {dropped : List (Option HostPath)} (becomes : Becomes mid next tree dropped)
    (wf : tree.WellFormed) (nolinks : tree.NoLinks)
    (fits : ∀ dir entry, mid.dirCache dir = some entry → mid.Live entry → some dir ∉ dropped →
      dir = mid.root ∨ (tree dir).isSome → entry.names = listing tree dir) : next.CacheInv where
  regular := becomes.regular inv.regular wf
  ci := becomes.casefold.trans inv.ci
  noLinks := becomes.tree ▸ nolinks
  current := by
    intro dir entry hentry hlive hreached
    rw [becomes.cache] at hentry
    rw [Live, becomes.now] at hlive
    rw [Reached, becomes.tree, becomes.root] at hreached
    obtain ⟨hold, hkept⟩ := dirCache_dropped hentry
    rw [becomes.tree]
    exact fits dir entry hold hlive hkept hreached

theorem listing_plain {tree : FileTree Attrs} (wf : tree.WellFormed) (nolinks : tree.NoLinks)
    {dir : HostPath} (plain : FileTree.Plain dir) :
    listing tree dir = ((tree.names dir).map listedNames).getD .empty := by
  rw [listing, FileTree.readDir_plain wf nolinks plain]

/-- A listing without names, whether or not there is a directory. -/
theorem listing_of_bare {names : Option (List Name)} (h : names = none ∨ names = some []) :
    (names.map listedNames).getD .empty = .empty := by
  rcases h with rfl | rfl <;> rfl

section Listings

variable {tree : FileTree Attrs} {dir other : HostPath} {name : Name} {node : Node Attrs}

theorem listing_insert (wf : tree.WellFormed) (nolinks : tree.NoLinks)
    (spot : FileTree.Spot tree dir name) (free : tree (dir ++ [name]) = none)
    (bare : node.entries = none ∨ node.entries = some [])
    (hnode : ∀ target, node.kind ≠ .link target) (plain : FileTree.Plain other)
    (hother : other ≠ dir) :
    listing (tree.insertNode (dir ++ [name]) node) other = listing tree other := by
  rw [listing_plain (spot.insertNode wf free bare) (nolinks.insertNode dir name hnode) plain,
    listing_plain wf nolinks plain, FileTree.insertNode_eq_graft wf.toFormed free,
    FileTree.names_graft]
  split
  · rename_i hin
    obtain ⟨below, rfl⟩ := hin
    have hbefore : tree.names (dir ++ [name] ++ below) = none := by
      rw [FileTree.names_eq, wf.none_below free]
      rfl
    have hafter : (FileTree.leaf node).names below = none ∨
        (FileTree.leaf node).names below = some [] := by
      rw [FileTree.names_leaf]
      split
      · exact bare
      · exact Or.inl rfl
    rw [List.drop_left, listing_of_bare hafter, hbefore]
    rfl
  · rfl

theorem listing_prune (wf : tree.WellFormed) (nolinks : tree.NoLinks)
    (hnode : tree (dir ++ [name]) = some node)
    (bare : node.entries = none ∨ node.entries = some []) (plain : FileTree.Plain other)
    (hother : other ≠ dir) : listing (tree.prune (dir ++ [name])) other = listing tree other := by
  rw [listing_plain wf.prune (nolinks.prune dir name) plain, listing_plain wf nolinks plain,
    FileTree.names_prune]
  split
  · rename_i hin
    obtain ⟨below, rfl⟩ := hin
    rw [listing_of_bare (FileTree.names_below wf.toFormed hnode bare below)]
    rfl
  · rfl

variable {after : FileTree Attrs}

theorem listing_rewrites (h : FileTree.Rewrites tree after) (wf : tree.WellFormed)
    (nolinks : tree.NoLinks) (plain : FileTree.Plain other) :
    listing after other = listing tree other := by
  rw [listing_plain (h.wellFormed wf) (h.links nolinks) plain, listing_plain wf nolinks plain,
    h.names]

end Listings

/-- A node at a free path changes no listing but that of its directory. -/
theorem CacheInv.inserted (inv : mid.CacheInv) {dir other : HostPath} {name : Name}
    {node : Node Attrs} {entry : DirCacheEntry} (spot : FileTree.Spot mid.tree dir name)
    (free : mid.tree (dir ++ [name]) = none) (unlisted : mid.Unlisted (dir ++ [name]))
    (bare : node.entries = none ∨ node.entries = some [])
    (hnode : ∀ target, node.kind ≠ .link target) (hother : other ≠ dir)
    (hentry : mid.dirCache other = some entry) (hlive : mid.Live entry)
    (hreached : other = mid.root ∨ (mid.tree.insertNode (dir ++ [name]) node other).isSome) :
    entry.names = listing (mid.tree.insertNode (dir ++ [name]) node) other := by
  have wf := inv.regular.wellFormed
  have plain := (inv.regular.clean other entry hentry).1
  rw [listing_insert wf inv.noLinks spot free bare hnode plain hother]
  by_cases hplace : other = dir ++ [name]
  · subst hplace
    rw [unlisted free entry hentry hlive, listing_plain wf inv.noLinks plain, FileTree.names_eq,
      free]
    rfl
  · apply inv.current other entry hentry hlive
    rw [FileTree.insertNode_apply, if_neg hplace, if_neg hother] at hreached
    exact hreached

theorem inv_createDir (inv : mid.CacheInv) {host : HostPath} {tree : FileTree Attrs}
    (target : Target mid host) (unlisted : mid.Unlisted host)
    (made : mid.tree.mkdir host mid.newAttrs = .ok tree)
    (becomes : Becomes mid next tree [parent host]) : next.CacheInv := by
  have wf := inv.regular.wellFormed
  obtain ⟨dir, name, hlocate, spot, free, rfl⟩ := FileTree.mkdir_ok made
  have inside := target.inside hlocate
  obtain rfl := FileTree.locate_plain wf inv.noLinks inside.plain hlocate
  apply inv.becomes becomes (spot.insertNode wf free (Or.inr rfl))
    (inv.noLinks.insertNode dir name (by simp))
  intro other entry hentry hlive hkept hreached
  rw [parent_snoc inside.plain] at hkept
  exact inv.inserted spot free unlisted (Or.inr rfl) (by simp) (by simpa using hkept) hentry hlive
    hreached

theorem inv_prune (inv : mid.CacheInv) {host : HostPath} {dir : HostPath} {name : Name}
    {node : Node Attrs} (plain : FileTree.Plain host)
    (hlocate : mid.tree.locate host = .ok (dir ++ [name]))
    (hnode : mid.tree (dir ++ [name]) = some node)
    (bare : node.entries = none ∨ node.entries = some [])
    (becomes : Becomes mid next (mid.tree.prune (dir ++ [name])) [parent host]) :
    next.CacheInv := by
  have wf := inv.regular.wellFormed
  obtain rfl := FileTree.locate_plain wf inv.noLinks plain hlocate
  apply inv.becomes becomes wf.prune (inv.noLinks.prune dir name)
  intro other entry hentry hlive hkept hreached
  rw [parent_snoc plain] at hkept
  rw [listing_prune wf inv.noLinks hnode bare (inv.regular.clean other entry hentry).1
    (by simpa using hkept)]
  exact inv.current other entry hentry hlive
    (hreached.imp_right fun hsome => ((FileTree.isSome_prune other).mp hsome).2)

/-- A file that is opened, and may be written to afterwards. -/
theorem inv_openFile (inv : mid.CacheInv) {host file : HostPath} {opened tree : FileTree Attrs}
    {write create truncate : Bool} (hhost : Inside mid.root host ∨ Target mid host)
    (unlisted : mid.Unlisted host)
    (hopen : mid.tree.openFile host write create truncate mid.newAttrs = .ok (file, opened))
    (written : FileTree.Rewrites opened tree)
    (becomes : Becomes mid next tree (if create then [parent host] else [])) :
    next.CacheInv := by
  have wf := inv.regular.wellFormed
  obtain ⟨hwalk, ⟨hcreate, free, dir, name, rfl, spot, rfl⟩ | ⟨_, hrewrites⟩⟩ :=
    FileTree.openFile_ok wf hopen
  · obtain ⟨rfl, plain⟩ := created_plain wf inv.noLinks hhost hwalk free
    have hwf : (mid.tree.insertNode (dir ++ [name]) ⟨.file [], mid.newAttrs⟩).WellFormed :=
      spot.insertNode wf free (Or.inl rfl)
    have hnolinks : (mid.tree.insertNode (dir ++ [name]) ⟨.file [], mid.newAttrs⟩).NoLinks :=
      inv.noLinks.insertNode dir name (by simp)
    apply inv.becomes becomes (written.wellFormed hwf) (written.links hnolinks)
    intro other entry hentry hlive hkept hreached
    rw [if_pos hcreate, parent_snoc plain] at hkept
    rw [listing_rewrites written hwf hnolinks (inv.regular.clean other entry hentry).1]
    rw [written.isSome] at hreached
    exact inv.inserted spot free unlisted (Or.inl rfl) (by simp) (by simpa using hkept) hentry hlive
      hreached
  · have hall := hrewrites.trans written
    apply inv.becomes becomes (hall.wellFormed wf) (hall.links inv.noLinks)
    intro other entry hentry hlive _ hreached
    rw [listing_rewrites hall wf inv.noLinks (inv.regular.clean other entry hentry).1]
    rw [hall.isSome] at hreached
    exact inv.current other entry hentry hlive hreached

/-- Below the target there is the source's branch; below the source nothing is left. -/
theorem listing_moved {tree after : FileTree Attrs} {fromDir toDir other : HostPath}
    {fromName toName : Name} {node : Node Attrs} (wf : tree.WellFormed) (nolinks : tree.NoLinks)
    (moved : FileTree.Moved tree after (fromDir ++ [fromName]) (toDir ++ [toName]) node)
    (spot : FileTree.Spot tree toDir toName) (plain : FileTree.Plain other)
    (hsource : FileTree.Plain (fromDir ++ [fromName])) (hfrom : other ≠ fromDir)
    (hto : other ≠ toDir) :
    (∃ below, other = toDir ++ [toName] ++ below ∧
        after other = tree (fromDir ++ [fromName] ++ below) ∧
        listing after other = listing tree (fromDir ++ [fromName] ++ below)) ∨
      fromDir ++ [fromName] <+: other ∧ after other = none ∨
      after other = tree other ∧ listing after other = listing tree other := by
  rw [listing_plain (moved.wellFormed wf spot) (moved.noLinks nolinks) plain,
    listing_plain wf nolinks plain, moved.result]
  by_cases hin : toDir ++ [toName] <+: other
  · left
    obtain ⟨below, rfl⟩ := hin
    have hbelow : FileTree.Plain (fromDir ++ [fromName] ++ below) := by
      constructor
      · exact fun h => (List.mem_append.mp h).elim hsource.1 fun hb =>
          plain.1 (List.mem_append_right _ hb)
      · exact fun h => (List.mem_append.mp h).elim hsource.2 fun hb =>
          plain.2 (List.mem_append_right _ hb)
    refine ⟨below, rfl, ?_, ?_⟩
    · rw [FileTree.graft_apply, if_pos (List.prefix_append ..), List.drop_left]
    · rw [FileTree.names_graft, if_pos (List.prefix_append ..), List.drop_left,
        listing_plain wf nolinks hbelow]
      rfl
  · right
    rw [FileTree.graft_apply, if_neg hin, if_neg hto, FileTree.names_graft, if_neg hin, if_neg hto,
      FileTree.prune_apply, FileTree.names_prune]
    by_cases hout : fromDir ++ [fromName] <+: other
    · left
      rw [if_pos hout]
      exact ⟨hout, rfl⟩
    · right
      rw [if_neg hout, if_neg hfrom, if_neg hout, if_neg hfrom]
      exact ⟨rfl, rfl⟩

theorem inv_rename (inv : mid.CacheInv) {oldHost newHost : HostPath} {tree : FileTree Attrs}
    (source : Inside mid.root oldHost) (target : Target mid newHost)
    (alike : mid.ListedAlike oldHost newHost) (renamed : mid.tree.rename oldHost newHost = .ok tree)
    (becomes : Becomes mid next tree [parent oldHost, parent newHost]) : next.CacheInv := by
  have wf := inv.regular.wellFormed
  obtain ⟨fromDir, fromName, toDir, toName, hfrom, hto, _, spot, ⟨_, rfl⟩ | ⟨node, moved⟩⟩ :=
    FileTree.rename_ok renamed
  · apply inv.becomes becomes wf inv.noLinks
    exact fun other entry hentry hlive _ hreached => inv.current other entry hentry hlive hreached
  · have inside := target.inside hto
    obtain rfl := FileTree.locate_plain wf inv.noLinks source.plain hfrom
    obtain rfl := FileTree.locate_plain wf inv.noLinks inside.plain hto
    apply inv.becomes becomes (moved.wellFormed wf spot) (moved.noLinks inv.noLinks)
    intro other entry hentry hlive hkept hreached
    rw [parent_snoc source.plain, parent_snoc inside.plain] at hkept
    have plain := (inv.regular.clean other entry hentry).1
    have hother : other ≠ fromDir ∧ other ≠ toDir := by simpa using hkept
    rcases listing_moved wf inv.noLinks moved spot plain source.plain hother.1 hother.2 with
      ⟨below, rfl, hnode, hlisting⟩ | ⟨hunder, hnone⟩ | ⟨hnode, hlisting⟩
    · rcases hreached with hroot | hsome
      · have habove : toDir ++ [toName] <+: mid.root := hroot ▸ List.prefix_append ..
        exact absurd (habove.trans source.under) moved.above
      · rw [hnode] at hsome
        rw [hlisting]
        exact alike below entry hentry hlive hsome
    · rcases hreached with hroot | hsome
      · rw [hroot] at hunder
        exact absurd (hunder.trans inside.under) moved.outside
      · simp [hnone] at hsome
    · rw [hnode] at hreached
      rw [hlisting]
      exact inv.current other entry hentry hlive hreached

theorem CacheInv.exec (inv : s.CacheInv) {op : HostOp} (allowed : s.AllowedByCache op) :
    (s.exec op).CacheInv := by
  have effect := exec_effect inv.regular op
  generalize s.exec op = next at effect
  cases effect with
  | @quiet _ mid _ resolved becomes keeps =>
    have hmid := resolved.cacheInv inv
    apply hmid.becomes becomes hmid.regular.wellFormed hmid.noLinks
    exact fun other entry hentry hlive _ hreached => hmid.current other entry hentry hlive hreached
  | openFile opens =>
    obtain ⟨hresolves, hhost⟩ := openPath_spec inv.regular opens.resolved
    have hinside := hhost inv.ci _ _ rfl
    rw [← hresolves.root] at hinside
    exact inv_openFile (hresolves.cacheInv inv) (Or.inl hinside) (allowed _ _ _ opens.resolved)
      opens.opened (FileTree.Rewrites.refl _) opens.becomes
  | createDir resolved made becomes keeps =>
    obtain ⟨hresolves, htarget⟩ := resolveForCreate_spec inv.regular resolved
    exact inv_createDir (hresolves.cacheInv inv) (htarget inv.ci _ rfl) (allowed _ _ resolved) made
      becomes
  | deleteDir resolved removed becomes keeps =>
    obtain ⟨hresolves, hinside⟩ := resolveExisting_spec inv.regular resolved
    obtain ⟨dir, name, node, hlocate, _, hnode, hkind, rfl⟩ := FileTree.rmdir_ok removed
    exact inv_prune (hresolves.cacheInv inv) (hinside inv.ci _ rfl).plain hlocate hnode
      (Or.inr (by simp [Node.entries, hkind])) becomes
  | delete resolved removed becomes keeps =>
    obtain ⟨hresolves, hinside⟩ := resolveExisting_spec inv.regular resolved
    obtain ⟨dir, name, node, hlocate, _, hnode, hdir, rfl⟩ := FileTree.unlink_ok removed
    have hbare : node.entries = none := by
      cases hentries : node.entries with
      | none => rfl
      | some entries =>
        have hyes : node.isDir = true := Node.isDir_iff.mpr (by rw [hentries]; rfl)
        rw [hdir] at hyes
        cases hyes
    exact inv_prune (hresolves.cacheInv inv) (hinside inv.ci _ rfl).plain hlocate hnode
      (Or.inl hbare) becomes
  | rename source target moved becomes keeps =>
    obtain ⟨hfirst, hsource⟩ := resolveExisting_spec inv.regular source
    have first := hfirst.cacheInv inv
    obtain ⟨hsecond, htarget⟩ := resolveForCreate_spec first.regular target
    have hinside := hsource inv.ci _ rfl
    rw [← hfirst.root, ← hsecond.root] at hinside
    exact inv_rename (hsecond.cacheInv first) hinside (htarget first.ci _ rfl)
      (allowed _ _ _ _ source target) moved becomes
  | copy source target copied becomes keeps =>
    have first := (resolveExisting_spec inv.regular source).1.cacheInv inv
    obtain ⟨hsecond, htarget⟩ := resolveForCreate_spec first.regular target
    obtain ⟨file, opened, hopen, hrewrites, _⟩ := FileTree.copyFile_ok copied
    exact inv_openFile (hsecond.cacheInv first) (Or.inr (htarget first.ci _ rfl))
      (allowed _ _ _ _ source target) hopen hrewrites becomes
  | close found becomes =>
    apply inv.becomes becomes inv.regular.wellFormed inv.noLinks
    exact fun other entry hentry hlive _ hreached => inv.current other entry hentry hlive hreached
  | wait ms =>
    refine ⟨⟨inv.regular.wellFormed, inv.regular.clean, inv.regular.rootPlain⟩, inv.ci,
      inv.noLinks, ?_⟩
    intro dir entry hentry hlive hreached
    apply inv.current dir entry hentry _ hreached
    unfold Live at hlive ⊢
    dsimp only at hlive
    omega

theorem new_cacheInv {root : HostPath} {tree : FileTree Attrs} (attrs : Attrs)
    (plain : FileTree.Plain root) (wf : tree.WellFormed) (nolinks : tree.NoLinks) :
    (HostDir.new root false tree attrs).CacheInv where
  regular := new_regular false attrs plain wf
  ci := rfl
  noLinks := nolinks
  current := fun dir entry hentry => by cases hentry

/-- In a tree without links, a run that puts nothing where a listing of something
else is still alive resolves every path as if there were no cache. -/
theorem allowed_run_coherent {root : HostPath} {kernelCasefold : Bool} {tree : FileTree Attrs}
    {attrs : Attrs} {ops : List HostOp} {last : HostDir} (plain : FileTree.Plain root)
    (wf : tree.WellFormed) (nolinks : tree.NoLinks)
    (run : Run (step.guarded AllowedByCache) (HostDir.new root kernelCasefold tree attrs)
      ops last) :
    last.Coherent := by
  cases kernelCasefold with
  | true =>
    have hlast : last.Regular ∧ last.kernelCasefold = true := by
      refine run.invariant (fun s => s.Regular ∧ s.kernelCasefold = true) ?_ ?_
      · rintro s op _ ⟨reg, hfold⟩ ⟨_, rfl⟩
        obtain ⟨hreg, hsame⟩ := (exec_effect reg op).regular reg
        exact ⟨hreg, hsame.trans hfold⟩
      · exact ⟨new_regular true attrs plain wf, rfl⟩
    intro relPath
    rw [resolveCi, resolveFresh, if_pos hlast.2, if_pos hlast.2]
  | false =>
    apply CacheInv.coherent
    refine run.invariant CacheInv ?_ (new_cacheInv attrs plain wf nolinks)
    rintro s op _ inv ⟨allowed, rfl⟩
    exact inv.exec allowed

/-- A directory is made after its directory was listed. -/
theorem allowed_run_coherent_createDir :
    ((emptyVolume.exec (.toHostPath "d".toList)).exec (.createDir "D".toList)).Coherent := by
  have run : Run (step.guarded AllowedByCache) emptyVolume
      [.toHostPath "d".toList, .createDir "D".toList]
      ((emptyVolume.exec (.toHostPath "d".toList)).exec (.createDir "D".toList)) := by
    refine .cons ⟨trivial, rfl⟩ (.cons ⟨?_, rfl⟩ (.nil _))
    intro host mid h _ entry hentry
    have hhost : Except.ok host = (Except.ok ["c".toList, "D".toList] : VfsResult HostPath) :=
      (congrArg Prod.fst h).symm
    cases hhost
    have hmid := congrArg Prod.snd h
    cases hmid
    exact absurd hentry nofun
  exact allowed_run_coherent emptyVolume_root emptyHost_wellFormed emptyHost_noLinks run

/-- A directory that is moved away leaves its listing to the next one at its path. -/
theorem moved_directory_still_listed :
    ¬ ∀ (root : HostPath) (kernelCasefold : Bool) (tree : FileTree Attrs) (attrs : Attrs)
      (ops : List HostOp) (last : HostDir), FileTree.Plain root → tree.WellFormed → tree.NoLinks →
        Run step (HostDir.new root kernelCasefold tree attrs) ops last → last.Coherent := by
  intro h
  have hcoherent := h _ _ _ _ _ _ emptyVolume_root emptyHost_wellFormed emptyHost_noLinks
    (run_exec emptyVolume [.createDir "D".toList, .createDir "D/FOO".toList,
      .toHostPath "D/foo".toList, .rename "D".toList "E".toList, .createDir "D".toList])
  exact absurd (hcoherent "D/foo".toList) (by decide)

end HostDir
end Warpine.Vfs
