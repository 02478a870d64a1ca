import Warpine.Lib.Attempts
import Warpine.Lib.FileTree

/-! What each operation can do to a well-formed tree: it adds a node at a free
name, takes a branch away, moves one, or rewrites a file. -/
namespace Warpine.Lib.Posix.FileTree

variable {α : Type} {tree next : FileTree α} {path : HostPath} {attrs : α}

/-- A name that can stand in a directory. -/
structure Spot (tree : FileTree α) (dir : HostPath) (name : Name) : Prop where
  dir : (tree.names dir).isSome
  plain : name ≠ dot ∧ name ≠ dotDot

/-- The same names with other files' data behind them. -/
structure Rewrites (tree next : FileTree α) : Prop where
  names : ∀ path, next.names path = tree.names path
  isSome : ∀ path, (next path).isSome = (tree path).isSome
  links : tree.NoLinks → next.NoLinks

theorem Rewrites.refl (tree : FileTree α) : Rewrites tree tree :=
  ⟨fun _ => rfl, fun _ => rfl, fun h => h⟩

theorem Rewrites.trans {last : FileTree α} (first : Rewrites tree next)
    (second : Rewrites next last) : Rewrites tree last where
  names := fun path => (second.names path).trans (first.names path)
  isSome := fun path => (second.isSome path).trans (first.isSome path)
  links := fun h => second.links (first.links h)

theorem Rewrites.wellFormed (h : Rewrites tree next) (formed : tree.WellFormed) :
    next.WellFormed := formed.of_shape h.names h.isSome

theorem rewrites_file {file : HostPath} {node : Node α} {old data : List UInt8}
    (hnode : tree file = some node) (hkind : node.kind = .file old) :
    Rewrites tree fun other =>
      if other = file then some { node with kind := .file data } else tree other where
  names := by
    intro path
    rw [names_eq, names_eq]
    split
    · rename_i hsame
      subst hsame
      simp [hnode, Node.entries, hkind]
    · rfl
  isSome := by
    intro path
    split
    · rename_i hsame
      subst hsame
      simp [hnode]
    · rfl
  links := by
    intro nolinks path found hfound target
    dsimp only at hfound
    split at hfound
    · cases hfound
      simp
    · exact nolinks path found hfound target

theorem Spot.insertNode {dir : HostPath} {name : Name} {node : Node α} (spot : Spot tree dir name)
    (h : tree.WellFormed) (free : tree (dir ++ [name]) = none)
    (hnode : node.entries = none ∨ node.entries = some []) :
    (tree.insertNode (dir ++ [name]) node).WellFormed := by
  rw [insertNode_eq_graft h.toFormed free]
  exact h.graft (formed_leaf hnode) rfl spot.dir spot.plain

/-- Below a node that holds nothing there are no names. -/
theorem names_below (h : tree.Formed) {node : Node α} (hnode : tree path = some node)
    (bare : node.entries = none ∨ node.entries = some []) (below : HostPath) :
    tree.names (path ++ below) = none ∨ tree.names (path ++ below) = some [] := by
  cases below with
  | nil =>
    rw [List.append_nil, names_eq, hnode, Option.bind_some]
    exact bare
  | cons name rest =>
    left
    have habsent : tree (path ++ [name]) = none := by
      by_contra hsome
      have hpresent := Option.isSome_iff_ne_none.mpr hsome
      obtain ⟨entries, hentries⟩ := Option.isSome_iff_exists.mp (h.inside path name hpresent)
      have hlisted := (h.listed path entries hentries name).mpr hpresent
      rw [names_eq, hnode, Option.bind_some] at hentries
      rcases bare with hfile | hempty
      · rw [hfile] at hentries
        cases hentries
      · rw [hempty] at hentries
        cases hentries
        cases hlisted
    rw [← List.singleton_append, ← List.append_assoc, names_eq, h.none_below habsent]
    rfl

theorem names_leaf (node : Node α) (below : HostPath) :
    (leaf node).names below = if below = [] then node.entries else none := by
  rw [names_eq, leaf]
  split <;> rfl

theorem relist_kind {edit : List Name → List Name} {node : Node α} {target : List Char}
    (h : (node.relist edit).kind = .link target) : node.kind = .link target := by
  obtain ⟨kind, attrs⟩ := node
  cases kind with
  | dir entries => cases h
  | file data => cases h
  | link other => exact h

theorem NoLinks.prune (nolinks : tree.NoLinks) (dir : HostPath) (name : Name) :
    (tree.prune (dir ++ [name])).NoLinks := by
  intro path node hnode target hkind
  rw [prune_apply] at hnode
  split at hnode
  · cases hnode
  · split at hnode
    · obtain ⟨old, hold, rfl⟩ := Option.map_eq_some_iff.mp hnode
      exact nolinks path old hold target (relist_kind hkind)
    · exact nolinks path node hnode target hkind

theorem NoLinks.graft {branch : FileTree α} (nolinks : tree.NoLinks) (hbranch : branch.NoLinks)
    (dir : HostPath) (name : Name) : (tree.graft (dir ++ [name]) branch).NoLinks := by
  intro path node hnode target hkind
  rw [graft_apply] at hnode
  split at hnode
  · exact hbranch _ node hnode target hkind
  · split at hnode
    · obtain ⟨old, hold, rfl⟩ := Option.map_eq_some_iff.mp hnode
      exact nolinks path old hold target (relist_kind hkind)
    · exact nolinks path node hnode target hkind

theorem NoLinks.insertNode {node : Node α} (nolinks : tree.NoLinks) (dir : HostPath) (name : Name)
    (hnode : ∀ target, node.kind ≠ .link target) :
    (tree.insertNode (dir ++ [name]) node).NoLinks := by
  intro path found hfound target hkind
  rw [insertNode_apply] at hfound
  split at hfound
  · cases hfound
    exact hnode target hkind
  · split at hfound
    · obtain ⟨old, hold, rfl⟩ := Option.map_eq_some_iff.mp hfound
      exact nolinks path old hold target (relist_kind hkind)
    · exact nolinks path found hfound target hkind

theorem locate_ok {place : HostPath} (h : tree.locate path = .ok place) :
    ∃ dir name, place = dir ++ [name] ∧ path = path.dropLast ++ [name] ∧
      tree.resolve path.dropLast = .ok dir ∧ Spot tree dir name := by
  unfold locate at h
  split at h
  · cases h
  · rename_i name hlast
    split at h
    · cases h
    · rename_i hplain
      obtain ⟨dir, hresolve, h⟩ := except_bind_eq_ok.mp h
      change (if (tree.names dir).isSome = true then _ else _) = _ at h
      split at h
      · rename_i hdir
        cases h
        refine ⟨dir, name, rfl, ?_, hresolve, hdir, by simpa using hplain⟩
        exact (List.dropLast_append_getLast? name hlast).symm
      · cases h

/-- A path that leads to something names an entry that is there. -/
theorem locate_present {place target : HostPath} (h : tree.locate path = .ok place)
    (hresolve : tree.resolve path = .ok target) : (tree place).isSome := by
  obtain ⟨dir, name, rfl, hlast, hdir, spot⟩ := locate_ok h
  by_contra habsent
  have hnone : tree (dir ++ [name]) = none := by simpa using habsent
  obtain ⟨left, hend⟩ :=
    @walk_append _ tree false maxLinks [] dir path.dropLast [name] hdir spot.dir
  have hwalk : tree.walk false maxLinks [] (path.dropLast ++ [name]) = .ok target := by
    rw [← hlast]
    exact hresolve
  have hmissing : tree.walk false left dir [name] = .error .notFound := by
    cases left <;> simp [walk, walkWith, spot.plain.1, spot.plain.2, hnone]
  rw [hend, hmissing] at hwalk
  cases hwalk

theorem mkdir_ok (h : tree.mkdir path attrs = .ok next) :
    ∃ dir name, tree.locate path = .ok (dir ++ [name]) ∧ Spot tree dir name ∧
      tree (dir ++ [name]) = none ∧ next = tree.insertNode (dir ++ [name]) ⟨.dir [], attrs⟩ := by
  unfold mkdir at h
  split at h
  · cases h
  · cases h
  · rename_i place hplace
    split at h
    · cases h
    · rename_i hfree
      cases h
      obtain ⟨dir, name, rfl, _, _, spot⟩ := locate_ok hplace
      exact ⟨dir, name, hplace, spot, by simpa using hfree, rfl⟩

/-- A file that is opened in a directory just made is made there. -/
theorem mkdir_walk (wf : tree.WellFormed) (h : tree.mkdir path attrs = .ok next)
    {place : HostPath} (hlocate : tree.locate path = .ok place) {name : Name}
    (plain : name ≠ dot ∧ name ≠ dotDot) :
    next.walk true maxLinks [] (path ++ [name]) = .ok (place ++ [name]) := by
  obtain ⟨dir, last, hplace, spot, hfree, rfl⟩ := mkdir_ok h
  rw [hplace] at hlocate
  cases hlocate
  obtain ⟨parentDir, lastName, hsame, hlast, hdir, _⟩ := locate_ok hplace
  obtain ⟨rfl, rfl⟩ := snoc_inj.mp hsame
  have hmade : tree.insertNode (dir ++ [last]) ⟨.dir [], attrs⟩ (dir ++ [last]) =
      some ⟨.dir [], attrs⟩ := by
    rw [insertNode_apply, if_pos rfl]
  have hempty : tree.insertNode (dir ++ [last]) ⟨.dir [], attrs⟩ (dir ++ [last, name]) = none := by
    rw [insertNode_apply, if_neg (by simp), if_neg (by simp)]
    have hbelow := wf.none_below hfree [name]
    rwa [List.append_assoc] at hbelow
  have hthere : ((tree.insertNode (dir ++ [last]) ⟨.dir [], attrs⟩).names dir).isSome :=
    (spot.insertNode wf hfree (Or.inr rfl)).inside dir last (by rw [hmade]; rfl)
  have hextends : Extends tree (tree.insertNode (dir ++ [last]) ⟨.dir [], attrs⟩) :=
    Extends.insertNode hfree
  have hfront := walk_extends hextends hdir
  obtain ⟨left, hend⟩ :=
    @walk_append _ _ true maxLinks [] dir path.dropLast [last, name] hfront hthere
  have hpath : path ++ [name] = path.dropLast ++ [last, name] := by
    rw [hlast]
    simp
  rw [hpath, hend]
  cases left with
  | zero => simp [walk, walkWith, spot.plain, plain, hmade, hempty]
  | succ left => simp [walk, walkWith, spot.plain, plain, hmade, hempty]

theorem rmdir_ok (h : tree.rmdir path = .ok next) :
    ∃ dir name node, tree.locate path = .ok (dir ++ [name]) ∧ Spot tree dir name ∧
      tree (dir ++ [name]) = some node ∧ node.kind = .dir [] ∧
        next = tree.prune (dir ++ [name]) := by
  unfold rmdir at h
  obtain ⟨place, hplace, h⟩ := except_bind_eq_ok.mp h
  obtain ⟨dir, name, rfl, _, _, spot⟩ := locate_ok hplace
  split at h
  · cases h
  · rename_i node hnode
    split at h
    · rename_i hkind
      cases h
      exact ⟨dir, name, node, hplace, spot, hnode, hkind, rfl⟩
    · cases h
    · cases h

theorem unlink_ok (h : tree.unlink path = .ok next) :
    ∃ dir name node, tree.locate path = .ok (dir ++ [name]) ∧ Spot tree dir name ∧
      tree (dir ++ [name]) = some node ∧ node.isDir = false ∧
        next = tree.prune (dir ++ [name]) := by
  unfold unlink at h
  obtain ⟨place, hplace, h⟩ := except_bind_eq_ok.mp h
  obtain ⟨dir, name, rfl, _, _, spot⟩ := locate_ok hplace
  split at h
  · cases h
  · rename_i node hnode
    split at h
    · cases h
    · rename_i hdir
      cases h
      exact ⟨dir, name, node, hplace, spot, hnode, by simpa using hdir, rfl⟩

/-- A branch moves to a target that lies neither above nor below it. -/
structure Moved (tree next : FileTree α) (source target : HostPath) (node : Node α) : Prop where
  found : tree source = some node
  outside : ¬ source <+: target
  above : ¬ target <+: source
  room : replaces node (tree target) = .ok ()
  result : next = (tree.prune source).graft target fun below => tree (source ++ below)

theorem rename_ok {old new : HostPath} (h : tree.rename old new = .ok next) :
    ∃ fromDir fromName toDir toName, tree.locate old = .ok (fromDir ++ [fromName]) ∧
      tree.locate new = .ok (toDir ++ [toName]) ∧ Spot tree fromDir fromName ∧
        Spot tree toDir toName ∧
          (toDir ++ [toName] = fromDir ++ [fromName] ∧ next = tree ∨
            ∃ node, Moved tree next (fromDir ++ [fromName]) (toDir ++ [toName]) node) := by
  unfold rename at h
  obtain ⟨source, hold, h⟩ := except_bind_eq_ok.mp h
  obtain ⟨target, hnew, h⟩ := except_bind_eq_ok.mp h
  obtain ⟨fromDir, fromName, rfl, _, _, hfrom⟩ := locate_ok hold
  obtain ⟨toDir, toName, rfl, _, _, hto⟩ := locate_ok hnew
  refine ⟨fromDir, fromName, toDir, toName, hold, hnew, hfrom, hto, ?_⟩
  split at h
  · cases h
  · rename_i node hnode
    split at h
    · rename_i hsame
      cases h
      exact Or.inl ⟨hsame, rfl⟩
    · split at h
      · cases h
      · rename_i houtside
        split at h
        · cases h
        · rename_i habove
          obtain ⟨done, hroom, h⟩ := except_bind_eq_ok.mp h
          cases h
          exact Or.inr ⟨node, hnode, houtside, habove, hroom, rfl⟩

theorem Moved.wellFormed {fromDir toDir : HostPath} {fromName toName : Name} {node : Node α}
    (moved : Moved tree next (fromDir ++ [fromName]) (toDir ++ [toName]) node)
    (h : tree.WellFormed) (spot : Spot tree toDir toName) : next.WellFormed := by
  rw [moved.result]
  apply h.prune.graft (h.toFormed.branch _)
  · simp [moved.found]
  · rw [names_prune, if_neg (fun hin => moved.outside (isPrefix_snoc.mpr (Or.inr hin)))]
    split
    · simpa using spot.dir
    · exact spot.dir
  · exact spot.plain

theorem Moved.noLinks {fromDir toDir : HostPath} {fromName toName : Name} {node : Node α}
    (moved : Moved tree next (fromDir ++ [fromName]) (toDir ++ [toName]) node)
    (nolinks : tree.NoLinks) : next.NoLinks := by
  rw [moved.result]
  exact (nolinks.prune _ _).graft (fun path => nolinks _) _ _

/-- All that opening a file does: it makes the file, it empties it, or it changes nothing. What
is opened for writing is a file. -/
theorem openFile_cases {file : HostPath} {write create truncate : Bool}
    (h : tree.openFile path write create truncate attrs = .ok (file, next)) :
    tree.walk create maxLinks [] path = .ok file ∧
      ((tree file = none ∧ next = tree.insertNode file ⟨.file [], attrs⟩) ∨
        ∃ node, tree file = some node ∧
          ((∃ data, node.kind = .file data ∧ next = fun other =>
              if other = file then some { node with kind := .file [] } else tree other) ∨
            next = tree ∧ (write = true → ∃ data, node.kind = .file data))) := by
  unfold openFile at h
  obtain ⟨place, hwalk, h⟩ := except_bind_eq_ok.mp h
  split at h
  · rename_i hnone
    cases h
    exact ⟨hwalk, Or.inl ⟨hnone, rfl⟩⟩
  · rename_i node hnode
    split at h
    · rename_i data hkind
      split at h
      · cases h
        exact ⟨hwalk, Or.inr ⟨node, hnode, Or.inl ⟨data, hkind, rfl⟩⟩⟩
      · cases h
        exact ⟨hwalk, Or.inr ⟨node, hnode, Or.inr ⟨rfl, fun _ => ⟨data, hkind⟩⟩⟩⟩
    · split at h
      · cases h
      · rename_i reading
        cases h
        exact ⟨hwalk, Or.inr ⟨node, hnode, Or.inr ⟨rfl, fun writing =>
          absurd (Or.inl writing) reading⟩⟩⟩

/-- Opening a file adds it at a free name, or rewrites it at most. -/
theorem openFile_ok {file : HostPath} {write create truncate : Bool} (wf : tree.WellFormed)
    (h : tree.openFile path write create truncate attrs = .ok (file, next)) :
    tree.walk create maxLinks [] path = .ok file ∧
      ((create = true ∧ tree file = none ∧ ∃ dir name, file = dir ++ [name] ∧ Spot tree dir name ∧
          next = tree.insertNode (dir ++ [name]) ⟨.file [], attrs⟩) ∨
        ((tree file).isSome ∧ Rewrites tree next)) := by
  obtain ⟨hwalk, hmade | ⟨node, hnode, hrest⟩⟩ := openFile_cases h
  · obtain ⟨hnone, rfl⟩ := hmade
    rcases walk_lands wf wf.root hwalk with hsome | ⟨hcreate, _, dir, name, rfl, hdir, hplain⟩
    · simp [hnone] at hsome
    · exact ⟨hwalk, Or.inl ⟨hcreate, hnone, dir, name, rfl, ⟨hdir, hplain⟩, rfl⟩⟩
  · refine ⟨hwalk, Or.inr ⟨by simp [hnode], ?_⟩⟩
    obtain ⟨data, hkind, rfl⟩ | ⟨rfl, _⟩ := hrest
    · exact rewrites_file hnode hkind
    · exact Rewrites.refl _

section Spots

variable {dir : HostPath} {name : Name}

theorem locate_spot (wf : tree.WellFormed) (nolinks : tree.NoLinks) (plain : Plain dir)
    (spot : Spot tree dir name) : tree.locate (dir ++ [name]) = .ok (dir ++ [name]) := by
  have hresolve := (resolve_plain wf nolinks plain).mpr ⟨rfl, isSome_of_names spot.dir⟩
  unfold locate
  rw [List.getLast?_concat]
  dsimp only
  rw [if_neg (not_or.mpr spot.plain), List.dropLast_concat, hresolve]
  exact if_pos spot.dir

theorem locate_plain (wf : tree.WellFormed) (nolinks : tree.NoLinks) (plain : Plain path)
    (hlocate : tree.locate path = .ok (dir ++ [name])) : path = dir ++ [name] := by
  obtain ⟨found, other, hplace, hlast, hresolve, _⟩ := locate_ok hlocate
  obtain ⟨rfl, rfl⟩ := snoc_inj.mp hplace
  have hfront : Plain path.dropLast :=
    ⟨fun hdot => plain.1 (List.mem_of_mem_dropLast hdot),
      fun hdot => plain.2 (List.mem_of_mem_dropLast hdot)⟩
  have hsame := (resolve_plain wf nolinks hfront).mp hresolve
  rw [hlast, hsame.1]

/-- A path in a directory can be walked to its last name, which may be free. -/
theorem walk_spot (wf : tree.WellFormed) (nolinks : tree.NoLinks) (plain : Plain dir)
    (spot : Spot tree dir name) :
    tree.walk true maxLinks [] (dir ++ [name]) = .ok (dir ++ [name]) := by
  have hresolve := (resolve_plain wf nolinks plain).mpr ⟨rfl, isSome_of_names spot.dir⟩
  obtain ⟨left, hend⟩ :=
    @walk_append _ tree true maxLinks [] dir dir [name] hresolve spot.dir
  rw [hend]
  cases hnode : tree (dir ++ [name]) with
  | none => cases left <;> simp [walk, walkWith, spot.plain, hnode]
  | some node =>
    cases hkind : node.kind with
    | dir entries => cases left <;> simp [walk, walkWith, spot.plain, hnode, hkind]
    | file data => cases left <;> simp [walk, walkWith, spot.plain, hnode, hkind]
    | link target => exact absurd hkind (nolinks _ node hnode target)

theorem mkdir_spot (wf : tree.WellFormed) (nolinks : tree.NoLinks) (plain : Plain dir)
    (spot : Spot tree dir name) :
    tree.mkdir (dir ++ [name]) attrs =
      if (tree (dir ++ [name])).isSome then .error .alreadyExists
      else .ok (tree.insertNode (dir ++ [name]) ⟨.dir [], attrs⟩) := by
  unfold mkdir
  rw [locate_spot wf nolinks plain spot]

theorem openFile_spot (wf : tree.WellFormed) (nolinks : tree.NoLinks) (plain : Plain dir)
    (spot : Spot tree dir name)
    (leaf : ∀ node, tree (dir ++ [name]) = some node → ∃ data, node.kind = .file data) :
    ∃ opened, tree.openFile (dir ++ [name]) true true true attrs = .ok (dir ++ [name], opened) := by
  unfold openFile
  rw [walk_spot wf nolinks plain spot]
  cases hnode : tree (dir ++ [name]) with
  | none => exact ⟨_, by simp only [Bind.bind, Except.bind, hnode]; rfl⟩
  | some node =>
    obtain ⟨data, hkind⟩ := leaf node hnode
    exact ⟨_, by simp only [Bind.bind, Except.bind, hnode, hkind, if_true]; rfl⟩

theorem unlink_spot (wf : tree.WellFormed) (nolinks : tree.NoLinks) (plain : Plain dir)
    (spot : Spot tree dir name) {node : Node α} (found : tree (dir ++ [name]) = some node)
    (file : node.isDir = false) :
    tree.unlink (dir ++ [name]) = .ok (tree.prune (dir ++ [name])) := by
  unfold unlink
  rw [locate_spot wf nolinks plain spot]
  simp [Bind.bind, Except.bind, found, file]

theorem unlink_absent (wf : tree.WellFormed) (nolinks : tree.NoLinks) (plain : Plain path)
    (absent : tree path = none) : (tree.unlink path).toOption.getD tree = tree := by
  cases removed : tree.unlink path with
  | error e => rfl
  | ok pruned =>
    obtain ⟨_, _, node, located, _, there, _⟩ := unlink_ok removed
    rw [← locate_plain wf nolinks plain located, absent] at there
    cases there

end Spots

/-- Where the file is there, no other node changes. -/
theorem openFile_same {file : HostPath} {write create truncate : Bool}
    (h : tree.openFile path write create truncate attrs = .ok (file, next))
    (there : (tree file).isSome) : ∀ other, other ≠ file → next other = tree other := by
  intro other apart
  obtain ⟨_, ⟨absent, _⟩ | ⟨node, hnode, ⟨data, hkind, rfl⟩ | ⟨rfl, _⟩⟩⟩ := openFile_cases h
  · simp [absent] at there
  · exact if_neg apart
  · rfl

/-- Opening for writing finds or makes a file, nothing else. -/
theorem openFile_write {file : HostPath} {create truncate : Bool}
    (h : tree.openFile path true create truncate attrs = .ok (file, next)) :
    ∃ node data, next file = some node ∧ node.kind = .file data := by
  obtain ⟨_, ⟨absent, rfl⟩ | ⟨node, hnode, ⟨data, hkind, rfl⟩ | ⟨rfl, file_⟩⟩⟩ := openFile_cases h
  · exact ⟨⟨.file [], attrs⟩, [], by simp [insertNode], rfl⟩
  · exact ⟨{ node with kind := .file [] }, [], by simp, rfl⟩
  · obtain ⟨data, hkind⟩ := file_ rfl
    exact ⟨node, data, hnode, hkind⟩

theorem written_eq {file : HostPath} {node : Node α} (hnode : tree file = some node)
    (data : List UInt8) :
    (fun other => if other = file then some { node with kind := .file data } else tree other) =
      fun other =>
        if other = file then (tree other).map fun node => { node with kind := .file data }
        else tree other := by
  funext other
  split
  · rename_i hsame
    simp [hsame, hnode]
  · rfl

theorem keeps_insertNode {place : HostPath} (free : tree place = none) (node : Node α) :
    Keeps tree (tree.insertNode place node) := by
  intro other old hold
  unfold insertNode
  by_cases here : other = place
  · rw [here, free] at hold
    cases hold
  · rw [if_neg here]
    by_cases above : other = place.dropLast
    · rw [if_pos above, hold]
      obtain ⟨kind, attrs⟩ := old
      cases kind <;> exact ⟨_, rfl, rfl⟩
    · rw [if_neg above]
      exact ⟨old, hold, rfl⟩

theorem keeps_rewrite {file : HostPath} {node : Node α} {old : List UInt8}
    (hnode : tree file = some node) (hkind : node.kind = .file old) (data : List UInt8) :
    Keeps tree fun other =>
      if other = file then some { node with kind := .file data } else tree other := by
  intro other found hfound
  dsimp only
  by_cases same : other = file
  · rw [same, hnode] at hfound
    cases hfound
    exact ⟨_, if_pos same, by rw [hkind]; rfl⟩
  · exact ⟨found, (if_neg same).trans hfound, rfl⟩

theorem keeps_prune (tree : FileTree α) (place : HostPath) : Keeps (tree.prune place) tree := by
  intro other left hleft
  unfold prune at hleft
  split at hleft
  · cases hleft
  · split at hleft
    · obtain ⟨node, hnode, rfl⟩ := Option.map_eq_some_iff.mp hleft
      refine ⟨node, hnode, ?_⟩
      obtain ⟨kind, attrs⟩ := node
      cases kind <;> rfl
    · exact ⟨left, hleft, rfl⟩

theorem openFile_keeps {file : HostPath} {write create truncate : Bool}
    (h : tree.openFile path write create truncate attrs = .ok (file, next)) :
    tree.walk create maxLinks [] path = .ok file ∧ Keeps tree next := by
  obtain ⟨hwalk, ⟨absent, rfl⟩ | ⟨node, hnode, ⟨data, hkind, rfl⟩ | ⟨rfl, _⟩⟩⟩ := openFile_cases h
  · exact ⟨hwalk, keeps_insertNode absent _⟩
  · exact ⟨hwalk, keeps_rewrite hnode hkind []⟩
  · exact ⟨hwalk, Keeps.refl _⟩

/-- What is written to a file is found under the path that it was opened by. -/
theorem lookup_written {file : HostPath} {create truncate : Bool}
    (h : tree.openFile path true create truncate attrs = .ok (file, next)) (data : List UInt8) :
    (lookup (fun other =>
        if other = file then (next other).map fun node => { node with kind := .file data }
        else next other) path).map Node.kind = some (.file data) := by
  obtain ⟨hwalk, kept⟩ := openFile_keeps h
  obtain ⟨node, old, hnode, hkind⟩ := openFile_write h
  have rewritten := keeps_rewrite hnode hkind data
  rw [written_eq hnode] at rewritten
  have resolved := walk_made (kept.trans rewritten) (by rw [if_pos rfl, hnode]; rfl)
    rfl hwalk
  rw [lookup, canonicalize, resolve, resolved]
  simp [Except.toOption, hnode]

/-- A file cannot be looked up by the path that it was removed by. -/
theorem lookup_unlink (h : tree.unlink path = .ok next) : next.lookup path = none := by
  obtain ⟨dir, name, _, hplace, spot, _, _, rfl⟩ := unlink_ok h
  obtain ⟨dir', name', hsame, hlast, hdir, _⟩ := locate_ok hplace
  obtain ⟨rfl, rfl⟩ := snoc_inj.mp hsame
  cases resolved : (tree.prune (dir ++ [name])).resolve path with
  | error e =>
    rw [lookup, canonicalize, resolved]
    rfl
  | ok target =>
    rw [resolve, hlast] at resolved
    obtain ⟨mid, left, hfront, hend⟩ := walk_front resolved
    have same : mid = dir := by
      have found := walk_keeps (keeps_prune tree _) hfront
      rw [resolve, found] at hdir
      exact Except.ok.inj hdir
    have gone : tree.prune (dir ++ [name]) (dir ++ [name]) = none := by simp [prune]
    have missing : (tree.prune (dir ++ [name])).walk false left dir [name] = .error .notFound := by
      cases left <;> simp [walk, walkWith, spot.plain.1, spot.plain.2, gone]
    rw [same, missing] at hend
    cases hend

/-- What is not removed is no file. -/
theorem lookup_not_unlinked {e : IoError} {name : Name} (wf : tree.WellFormed)
    (plain : name ≠ dot ∧ name ≠ dotDot) (h : tree.unlink (path ++ [name]) = .error e)
    (data : List UInt8) : (tree.lookup (path ++ [name])).map Node.kind ≠ some (.file data) := by
  intro found
  obtain ⟨node, hlookup, hkind⟩ := Option.map_eq_some_iff.mp found
  obtain ⟨target, hcanonical, hnode⟩ := Option.bind_eq_some_iff.mp hlookup
  obtain ⟨mid, left, hfront, hend⟩ := walk_front (canonicalize_eq_some.mp hcanonical)
  cases hentry : tree (mid ++ [name]) with
  | none =>
    have missing : tree.walk false left mid [name] = .error .notFound := by
      cases left <;> simp [walk, walkWith, plain.1, plain.2, hentry]
    rw [missing] at hend
    cases hend
  | some entry =>
    have holds := wf.inside mid name (by rw [hentry]; rfl)
    have located : tree.locate (path ++ [name]) = .ok (mid ++ [name]) := by
      unfold locate
      rw [List.getLast?_concat]
      dsimp only
      rw [if_neg (not_or.mpr plain), List.dropLast_concat, resolve, hfront]
      exact if_pos holds
    have dir : entry.isDir := by
      rw [unlink, located] at h
      by_contra file
      simp [Bind.bind, Except.bind, hentry, file] at h
    obtain ⟨kind, attrs⟩ := entry
    cases kind with
    | dir entries =>
      have stays : tree.walk false left mid [name] = .ok (mid ++ [name]) := by
        cases left <;> simp [walk, walkWith, plain.1, plain.2, hentry]
      rw [stays] at hend
      cases hend
      rw [hentry] at hnode
      cases hnode
      cases hkind
    | file data | link target => cases dir

/-- A copy is made by opening its target and writing to it. -/
theorem copyFile_ok {source target : HostPath} (h : tree.copyFile source target attrs = .ok next) :
    ∃ file opened, tree.openFile target true true true attrs = .ok (file, opened) ∧
      Rewrites opened next ∧ ∀ other, other ≠ file → next other = opened other := by
  unfold copyFile at h
  obtain ⟨from_, hfrom, h⟩ := except_bind_eq_ok.mp h
  dsimp only at h
  split at h
  · cases h
  · split at h
    · cases hopen : tree.openFile target true true true attrs with
      | error e =>
        rw [hopen] at h
        cases h
      | ok found =>
        obtain ⟨file, opened⟩ := found
        rw [hopen] at h
        cases h
        obtain ⟨node, data, hnode, hkind⟩ := openFile_write hopen
        refine ⟨file, opened, rfl, ?_, fun other hother => if_neg hother⟩
        rw [← written_eq hnode]
        exact rewrites_file hnode hkind
    · cases h

/-- Nodes change only at some places and below them, and in the directories that
hold them. -/
def ChangesAt (tree next : FileTree α) (places : List HostPath) : Prop :=
  ∀ other, next other ≠ tree other → ∃ place ∈ places, place <+: other ∨ other = place.dropLast

theorem ChangesAt.refl (tree : FileTree α) (places : List HostPath) : ChangesAt tree tree places :=
  fun _ hchanged => absurd rfl hchanged

theorem changesAt_insertNode (place : HostPath) (node : Node α) :
    ChangesAt tree (tree.insertNode place node) [place] := by
  intro other hchanged
  refine ⟨place, List.mem_singleton_self place, ?_⟩
  unfold insertNode at hchanged
  split at hchanged
  · rename_i hsame
    exact Or.inl (hsame ▸ List.prefix_refl _)
  · split at hchanged
    · exact Or.inr (by assumption)
    · exact absurd rfl hchanged

theorem changesAt_prune (place : HostPath) : ChangesAt tree (tree.prune place) [place] := by
  intro other hchanged
  refine ⟨place, List.mem_singleton_self place, ?_⟩
  unfold prune at hchanged
  split at hchanged
  · exact Or.inl (by assumption)
  · split at hchanged
    · exact Or.inr (by assumption)
    · exact absurd rfl hchanged

theorem changesAt_openFile {file : HostPath} {write create truncate : Bool}
    (h : tree.openFile path write create truncate attrs = .ok (file, next)) :
    ChangesAt tree next [file] := by
  obtain ⟨_, ⟨absent, rfl⟩ | ⟨node, hnode, ⟨data, hkind, rfl⟩ | ⟨rfl, _⟩⟩⟩ := openFile_cases h
  · exact changesAt_insertNode file _
  · intro other hchanged
    refine ⟨file, List.mem_singleton_self file, Or.inl ?_⟩
    by_cases hother : other = file
    · exact hother ▸ List.prefix_refl _
    · exact absurd (if_neg hother) hchanged
  · exact ChangesAt.refl _ _

theorem changesAt_copyFile {file target : HostPath} {opened : FileTree α}
    (hopen : tree.openFile target true true true attrs = .ok (file, opened))
    (hrest : ∀ other, other ≠ file → next other = opened other) : ChangesAt tree next [file] := by
  intro other hchanged
  by_cases hother : other = file
  · exact ⟨file, List.mem_singleton_self file, Or.inl (hother ▸ List.prefix_refl _)⟩
  · rw [hrest other hother] at hchanged
    exact changesAt_openFile hopen other hchanged

theorem Moved.changesAt {source target : HostPath} {node : Node α}
    (moved : Moved tree next source target node) : ChangesAt tree next [source, target] := by
  intro other hchanged
  rw [moved.result] at hchanged
  unfold graft at hchanged
  by_cases hbelow : target <+: other
  · exact ⟨target, by simp, Or.inl hbelow⟩
  · rw [if_neg hbelow] at hchanged
    by_cases hholds : other = target.dropLast
    · exact ⟨target, by simp, Or.inr hholds⟩
    · rw [if_neg hholds] at hchanged
      obtain ⟨place, hplace, hcase⟩ := changesAt_prune source other hchanged
      exact ⟨place, by simp [List.mem_singleton.mp hplace], hcase⟩

end Warpine.Lib.Posix.FileTree
