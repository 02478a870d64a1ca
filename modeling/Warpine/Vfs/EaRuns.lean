import Warpine.Vfs.EaOutcomes

/-! Runs on a volume whose attributes are kept in both stores. -/
namespace Warpine.Vfs
open Warpine.Lib Posix

theorem Edited.storage {tree next : FileTree Attrs} {place other : HostPath}
    (edited : Edited tree next place) (clear : eaDir ∉ place) (inside : eaDir ∈ other) :
    next other = tree other := by
  apply edited.same
  · rintro rfl
    exact clear inside
  · rintro rfl
    exact clear (List.mem_of_mem_dropLast inside)

namespace EaWorld

open HostDir

/-- Both stores hold the same for every file, and the sidecars are files in directories
of their own. -/
structure Inv (w : EaWorld) : Prop where
  regular : w.host.Regular
  noLinks : w.host.tree.NoLinks
  agree : ∀ dir name, eaDir ∉ dir ++ [name] → (w.host.tree (dir ++ [name])).isSome →
    stored w.host.tree dir name = xattrListEas (w.xattrs (dir ++ [name]))
  absent : ∀ path, w.host.tree path = none → w.xattrs path = []
  bare : ∀ path, eaDir ∈ path → w.xattrs path = []
  kept : ∀ path, Kept (w.xattrs path)
  shelves : ∀ dir node, eaDir ∉ dir → w.host.tree (dir ++ [eaDir]) = some node → node.isDir
  sidecars : ∀ dir name node, eaDir ∉ dir → w.host.tree (dir ++ [eaDir, name]) = some node →
    ∃ data, node.kind = .file data

theorem plain_of_present {tree : FileTree Attrs} (wf : tree.WellFormed) {path : HostPath}
    (there : (tree path).isSome) : FileTree.Plain path := by
  induction path using List.reverseRecOn with
  | nil => exact ⟨by simp, by simp⟩
  | append_singleton dir name ih =>
    have above := ih (FileTree.isSome_of_names (wf.inside dir name there))
    exact plain_snoc.mpr ⟨above, wf.plain dir name there⟩

theorem stored_congr {tree next : FileTree Attrs} {dir dir' : HostPath} {name : Name}
    (same : next (shelf dir name) = tree (shelf dir' name)) :
    stored next dir name = stored tree dir' name := by
  unfold stored fileData
  rw [same]

section Steps

variable {w : EaWorld} {next : HostDir} {xattrs : Xattrs}

/-- A step that leaves the storage alone and changes one place. -/
theorem Inv.edited (inv : w.Inv) {place : HostPath} (regular : next.Regular)
    (noLinks : next.tree.NoLinks) (clear : eaDir ∉ place)
    (edited : Edited w.host.tree next.tree place)
    (others : ∀ path, path ≠ place → xattrs path = w.xattrs path)
    (here : ∀ dir name, place = dir ++ [name] → (next.tree place).isSome →
      stored w.host.tree dir name = xattrListEas (xattrs place))
    (gone : next.tree place = none → xattrs place = []) (kept : Kept (xattrs place)) :
    Inv ⟨next, xattrs⟩ where
  regular := regular
  noLinks := noLinks
  agree := by
    intro dir name outside there
    have unmoved : stored next.tree dir name = stored w.host.tree dir name :=
      stored_congr (edited.storage clear eaDir_mem_shelf)
    dsimp only
    rw [unmoved]
    by_cases same : dir ++ [name] = place
    · rw [same]
      exact here dir name same.symm (same ▸ there)
    · rw [others _ same]
      apply inv.agree dir name outside
      rwa [← edited.isSome _ same]
  absent := by
    intro path none
    by_cases same : path = place
    · subst same
      exact gone none
    · dsimp only
      rw [others path same]
      apply inv.absent
      have isSome := edited.isSome path same
      rw [none] at isSome
      simpa using isSome.symm
  bare := by
    intro path inside
    dsimp only
    rw [others path]
    · exact inv.bare path inside
    · rintro rfl
      exact clear inside
  kept := by
    intro path
    by_cases same : path = place
    · exact same ▸ kept
    · dsimp only
      rw [others path same]
      exact inv.kept path
  shelves := by
    intro dir node outside found
    dsimp only at found
    rw [edited.storage clear (by simp)] at found
    exact inv.shelves dir node outside found
  sidecars := by
    intro dir name node outside found
    dsimp only at found
    rw [edited.storage clear (by simp)] at found
    exact inv.sidecars dir name node outside found

end Steps

/-- A sidecar is written or removed; its directory may be made first. -/
structure Shelved (tree next : FileTree Attrs) (dir : HostPath) (name : Name) : Prop where
  wellFormed : next.WellFormed
  noLinks : next.NoLinks
  isSome : ∀ other, eaDir ∉ other → (next other).isSome = (tree other).isSome
  same : ∀ other, eaDir ∈ other → other ≠ dir ++ [eaDir] → other ≠ shelf dir name →
    next other = tree other
  shelves : ∀ node, next (dir ++ [eaDir]) = some node → node.isDir
  sidecar : ∀ node, next (shelf dir name) = some node → ∃ data, node.kind = .file data

section Writes

variable {tree : FileTree Attrs} {dir : HostPath} {name : Name}

/-- The directory of the sidecars is there after it is asked for. -/
theorem shelves_made (wf : tree.WellFormed) (nolinks : tree.NoLinks) (plain : FileTree.Plain dir)
    (above : (tree.names dir).isSome) (attrs : Attrs)
    (shelves : ∀ node, tree (dir ++ [eaDir]) = some node → node.isDir) :
    let made := (tree.mkdir (dir ++ [eaDir]) attrs).toOption.getD tree
    made.WellFormed ∧ made.NoLinks ∧ Edited tree made (dir ++ [eaDir]) ∧
      (made.names (dir ++ [eaDir])).isSome ∧
        ∀ below, below ≠ [] → made (dir ++ [eaDir] ++ below) = tree (dir ++ [eaDir] ++ below) := by
  intro made
  have spot : FileTree.Spot tree dir eaDir := ⟨above, eaDir_plain⟩
  have asked := @FileTree.mkdir_spot _ _ attrs _ _ wf nolinks plain spot
  by_cases there : (tree (dir ++ [eaDir])).isSome
  · rw [if_pos there] at asked
    have same : made = tree := by simp only [made, asked]; rfl
    rw [same]
    obtain ⟨node, found⟩ := Option.isSome_iff_exists.mp there
    refine ⟨wf, nolinks, .refl tree _, ?_, fun _ _ => rfl⟩
    rw [FileTree.names_eq, found]
    exact Node.isDir_iff.mp (shelves node found)
  · rw [if_neg there] at asked
    have inserted : made = tree.insertNode (dir ++ [eaDir]) ⟨.dir [], attrs⟩ := by
      simp only [made, asked]
      rfl
    rw [inserted]
    have free : tree (dir ++ [eaDir]) = none := by simpa using there
    refine ⟨spot.insertNode wf free (.inr rfl), nolinks.insertNode dir eaDir (by simp),
      edited_insertNode, ?_, ?_⟩
    · rw [FileTree.names_eq, FileTree.insertNode_apply, if_pos rfl]
      rfl
    · intro below some_
      rw [FileTree.insertNode_apply, if_neg (by simpa using some_), if_neg]
      intro same
      have lengths := congrArg List.length same
      simp at lengths

/-- A sidecar that is there is removed. -/
theorem shelved_removed (wf : tree.WellFormed) (nolinks : tree.NoLinks)
    (plain : FileTree.Plain (dir ++ [name]))
    (shelves : ∀ node, tree (dir ++ [eaDir]) = some node → node.isDir)
    (sidecar : ∀ node, tree (shelf dir name) = some node → ∃ data, node.kind = .file data) :
    let next := (tree.unlink (shelf dir name)).toOption.getD tree
    Shelved tree next dir name ∧ stored next dir name = [] := by
  intro next
  have place : shelf dir name = dir ++ [eaDir] ++ [name ++ eaSuffix] := by simp [shelf]
  cases found : tree (shelf dir name) with
  | none =>
    have same : next = tree := FileTree.unlink_absent wf nolinks (shelf_plain plain) found
    rw [same]
    refine ⟨⟨wf, nolinks, fun _ _ => rfl, fun _ _ _ _ => rfl, shelves, sidecar⟩, ?_⟩
    rw [stored, fileData, found]
    rfl
  | some node =>
    obtain ⟨data, kind⟩ := sidecar node found
    have file : node.isDir = false := by simp [Node.isDir, kind]
    rw [place] at found
    have spot : FileTree.Spot tree (dir ++ [eaDir]) (name ++ eaSuffix) :=
      ⟨wf.inside _ _ (by rw [found]; rfl), suffixed_plain name⟩
    have inner := plain_snoc.mpr ⟨(plain_snoc.mp plain).1, eaDir_plain⟩
    have removed := FileTree.unlink_spot wf nolinks inner spot found file
    rw [← place] at removed
    have pruned : next = tree.prune (shelf dir name) := by
      simp only [next, removed]
      rfl
    have gone : tree.prune (shelf dir name) (shelf dir name) = none := by
      rw [place, FileTree.prune_apply, if_pos (List.prefix_refl _)]
    have edited : Edited tree (tree.prune (shelf dir name)) (shelf dir name) := by
      rw [place]
      exact edited_prune fun below some_ => bare_below wf found (.inl file) some_
    rw [pruned]
    refine ⟨⟨?_, ?_, ?_, ?_, ?_, ?_⟩, ?_⟩
    · rw [place]
      exact wf.prune
    · rw [place]
      exact nolinks.prune _ _
    · intro other clear
      apply edited.isSome
      rintro rfl
      exact clear eaDir_mem_shelf
    · intro other _ apart other_
      apply edited.same other other_
      rwa [place, List.dropLast_concat]
    · intro after listed
      rw [place, FileTree.prune_apply, if_neg FileTree.not_prefix_self, if_pos rfl] at listed
      obtain ⟨before, hbefore, rfl⟩ := Option.map_eq_some_iff.mp listed
      have isDir := shelves before hbefore
      rw [Node.isDir_iff] at isDir ⊢
      simpa using isDir
    · intro after there
      rw [gone] at there
      cases there
    · rw [stored, fileData, gone]
      rfl

/-- A sidecar is written, in a directory made for it if there is none. -/
theorem shelved_written (wf : tree.WellFormed) (nolinks : tree.NoLinks)
    (plain : FileTree.Plain (dir ++ [name])) (outside : eaDir ∉ dir)
    (above : (tree.names dir).isSome) (attrs : Attrs)
    (shelves : ∀ node, tree (dir ++ [eaDir]) = some node → node.isDir)
    (sidecar : ∀ node, tree (shelf dir name) = some node → ∃ data, node.kind = .file data) :
    ∃ opened, ((tree.mkdir (dir ++ [eaDir]) attrs).toOption.getD tree).openFile (shelf dir name)
        true true true attrs = .ok (shelf dir name, opened) ∧
      ∀ data, let next := fun other =>
          if other = shelf dir name then
            (opened other).map fun node => { node with kind := .file data }
          else opened other
        Shelved tree next dir name ∧ fileData next (shelf dir name) = some data := by
  have place : shelf dir name = dir ++ [eaDir] ++ [name ++ eaSuffix] := by simp [shelf]
  have inner := plain_snoc.mpr ⟨(plain_snoc.mp plain).1, eaDir_plain⟩
  obtain ⟨wf', nolinks', editedDir, there, below⟩ :=
    shelves_made wf nolinks (plain_snoc.mp plain).1 above attrs shelves
  generalize (tree.mkdir (dir ++ [eaDir]) attrs).toOption.getD tree = made at *
  have leaf : ∀ node, made (dir ++ [eaDir] ++ [name ++ eaSuffix]) = some node →
      ∃ data, node.kind = .file data := by
    intro node found
    rw [below _ (by simp), ← place] at found
    exact sidecar node found
  obtain ⟨opened, hopen⟩ := @FileTree.openFile_spot _ _ attrs _ _ wf' nolinks' inner
    ⟨there, suffixed_plain name⟩ leaf
  rw [← place] at hopen
  refine ⟨opened, hopen, ?_⟩
  intro data next
  obtain ⟨node, old, found, kind⟩ := FileTree.openFile_write hopen
  have rewrites : FileTree.Rewrites opened next := by
    have rewritten := @FileTree.rewrites_file _ _ _ _ _ data found kind
    rwa [FileTree.written_eq found] at rewritten
  have edited : Edited made next (shelf dir name) :=
    (edited_openFile wf' hopen).1.trans (.one fun other apart => if_neg apart)
  have wfNext := rewrites.wellFormed (openFile_wellFormed wf' hopen)
  have written : next (shelf dir name) = some { node with kind := .file data } := by
    simp only [next, if_true, found]
    rfl
  refine ⟨⟨wfNext, rewrites.links (openFile_noLinks wf' nolinks' hopen), ?_, ?_, ?_, ?_⟩, ?_⟩
  · intro other clear
    rw [edited.isSome other, editedDir.isSome other]
    · rintro rfl
      exact clear (by simp)
    · rintro rfl
      exact clear eaDir_mem_shelf
  · intro other inside notDir notFile
    rw [edited.same other notFile, editedDir.same other notDir]
    · rw [List.dropLast_concat]
      rintro rfl
      exact outside inside
    · rwa [place, List.dropLast_concat]
  · intro after listed
    rw [Node.isDir_iff]
    have holds := wfNext.inside (dir ++ [eaDir]) (name ++ eaSuffix) (by rw [← place, written]; rfl)
    rwa [FileTree.names_eq, listed] at holds
  · intro after same
    rw [written] at same
    cases same
    exact ⟨data, rfl⟩
  · rw [fileData, written]
    rfl

/-- All attributes of a file are put into its sidecar. -/
theorem shelved_writeEas {s : HostDir} (reg : s.Regular) (nolinks : s.tree.NoLinks)
    (outside : eaDir ∉ dir) (there : (s.tree (dir ++ [name])).isSome)
    (shelves : ∀ node, s.tree (dir ++ [eaDir]) = some node → node.isDir)
    (sidecar : ∀ node, s.tree (shelf dir name) = some node → ∃ data, node.kind = .file data)
    {eas : List EaEntry} (keepable : ∀ ea ∈ eas, Keepable ea) :
    let next := (s.sidecarWriteEas (dir ++ [name]) eas).2
    Shelved s.tree next.tree dir name ∧ stored next.tree dir name = eas ∧ next.Regular := by
  intro next
  have wf := reg.wellFormed
  have plain := plain_of_present wf there
  have above := wf.inside dir name there
  suffices h : Shelved s.tree next.tree dir name ∧ stored next.tree dir name = eas ∧
      next = { s with tree := next.tree } by
    refine ⟨h.1, h.2.1, ?_⟩
    rw [h.2.2]
    exact ⟨h.1.wellFormed, reg.clean, reg.rootPlain⟩
  simp only [next, HostDir.sidecarWriteEas, sidecarEaPath_plain plain]
  by_cases empty : eas = []
  · rw [if_pos empty]
    obtain ⟨shelved, none⟩ := shelved_removed wf nolinks plain shelves sidecar
    exact ⟨shelved, empty ▸ none, rfl⟩
  · rw [if_neg empty]
    obtain ⟨opened, hopen, written⟩ :=
      shelved_written wf nolinks plain outside above s.newAttrs shelves sidecar
    have folder : (shelf dir name).dropLast = dir ++ [eaDir] := by simp [shelf]
    rw [folder, hopen]
    obtain ⟨shelved, data⟩ := written (encodeEntries eas)
    refine ⟨shelved, ?_, rfl⟩
    unfold stored
    rw [data]
    exact sidecarEntries_encode (fun ea member => (keepable ea member).fits) (Nat.le_refl _)

end Writes

section Sets

variable {w : EaWorld} {next : HostDir} {dir : HostPath} {name : Name}
  {attrs : List (String × List UInt8)}

/-- The sidecar and the host's attributes of one file change alike. -/
theorem Inv.shelved (inv : w.Inv) (outside : eaDir ∉ dir ++ [name]) (regular : next.Regular)
    (shelved : Shelved w.host.tree next.tree dir name)
    (there : (w.host.tree (dir ++ [name])).isSome)
    (agree : stored next.tree dir name = xattrListEas attrs) (kept : Kept attrs) :
    Inv ⟨next, Function.update w.xattrs (dir ++ [name]) attrs⟩ where
  regular := regular
  noLinks := shelved.noLinks
  agree := by
    intro dir' name' outside' there'
    dsimp only at there' ⊢
    by_cases same : dir' ++ [name'] = dir ++ [name]
    · obtain ⟨rfl, rfl⟩ := FileTree.snoc_inj.mp same
      rwa [Function.update_self]
    · rw [Function.update_of_ne same, ← inv.agree dir' name' outside']
      · apply stored_congr
        apply shelved.same _ eaDir_mem_shelf
        · intro last
          have names := congrArg List.getLast? last
          simp [shelf, suffixed_ne] at names
        · intro shelves
          obtain ⟨rfl, rfl⟩ := shelf_inj shelves
          exact same rfl
      · rwa [← shelved.isSome _ outside']
  absent := by
    intro path none
    dsimp only at none ⊢
    by_cases same : path = dir ++ [name]
    · have still := shelved.isSome _ outside
      rw [there, ← same, none] at still
      cases still
    · rw [Function.update_of_ne same]
      by_cases inside : eaDir ∈ path
      · exact inv.bare path inside
      · apply inv.absent
        have still := shelved.isSome path inside
        rw [none] at still
        simpa using still.symm
  bare := by
    intro path inside
    dsimp only
    rw [Function.update_of_ne]
    · exact inv.bare path inside
    · rintro rfl
      exact outside inside
  kept := by
    intro path
    dsimp only
    by_cases same : path = dir ++ [name]
    · rw [same, Function.update_self]
      exact kept
    · rw [Function.update_of_ne same]
      exact inv.kept path
  shelves := by
    intro dir' node outside' found
    dsimp only at found
    by_cases same : dir' = dir
    · exact shelved.shelves node (same ▸ found)
    · rw [shelved.same _ (by simp)] at found
      · exact inv.shelves dir' node outside' found
      · exact fun paths => same (FileTree.snoc_inj.mp paths).1
      · intro paths
        have names := congrArg List.getLast? paths
        simp [shelf] at names
        exact suffixed_ne name names.symm
  sidecars := by
    intro dir' name' node outside' found
    dsimp only at found
    by_cases same : dir' ++ [eaDir, name'] = shelf dir name
    · exact shelved.sidecar node (same ▸ found)
    · rw [shelved.same _ (by simp) _ same] at found
      · exact inv.sidecars dir' name' node outside' found
      · intro paths
        have dirs := congrArg List.dropLast paths
        simp at dirs
        apply outside
        rw [← dirs]
        simp

end Sets

section Moves

variable {tree after : FileTree Attrs} {source target : HostPath} {node : Node Attrs}

/-- A place outside the storage lies above a sidecar when it lies above the file. -/
theorem under_storage {place dir rest : HostPath} (clear : eaDir ∉ place) :
    place <+: dir ++ eaDir :: rest ↔ place <+: dir := by
  constructor
  · intro inside
    rcases List.prefix_or_prefix_of_prefix inside (List.prefix_append dir _) with above | below
    · exact above
    · obtain ⟨last, rfl⟩ := below
      rw [List.prefix_append_right_inj] at inside
      cases last with
      | nil => rw [List.append_nil]
      | cons first last =>
        obtain ⟨rfl, _⟩ := List.cons_prefix_cons.mp inside
        exact absurd (by simp) clear
  · exact fun above => above.trans (List.prefix_append dir _)

/-- The sidecars go along with the directory that they stand in. -/
theorem moved_storage {fromDir toDir : HostPath} {fromName toName : Name}
    (moved : FileTree.Moved tree after (fromDir ++ [fromName]) (toDir ++ [toName]) node)
    (fromClear : eaDir ∉ fromDir ++ [fromName]) (toClear : eaDir ∉ toDir ++ [toName])
    (dir rest : HostPath) :
    after (dir ++ eaDir :: rest) =
      if toDir ++ [toName] <+: dir then
        tree (fromDir ++ [fromName] ++ dir.drop (toDir ++ [toName]).length ++ eaDir :: rest)
      else if fromDir ++ [fromName] <+: dir then none
      else tree (dir ++ eaDir :: rest) := by
  have notDir : ∀ {place : HostPath} {last : Name}, eaDir ∉ place ++ [last] →
      dir ++ eaDir :: rest ≠ place := by
    rintro place last clear rfl
    exact clear (by simp)
  rw [moved.result, FileTree.graft_apply, FileTree.prune_apply, if_neg (notDir toClear),
    if_neg (notDir fromClear)]
  simp only [under_storage toClear, under_storage fromClear]
  split
  · rename_i inside
    obtain ⟨below, rfl⟩ := inside
    simp only [List.append_assoc, List.drop_append, List.length_append]
    simp
  · rfl

theorem moved_isSome {fromDir toDir : HostPath} {fromName toName : Name}
    (moved : FileTree.Moved tree after (fromDir ++ [fromName]) (toDir ++ [toName]) node)
    (other : HostPath) :
    (after other).isSome =
      if toDir ++ [toName] <+: other then
        (tree (fromDir ++ [fromName] ++ other.drop (toDir ++ [toName]).length)).isSome
      else if fromDir ++ [fromName] <+: other then false
      else (tree other).isSome := by
  rw [moved.result, Bool.eq_iff_iff, FileTree.isSome_graft]
  split
  · rfl
  · rw [FileTree.isSome_prune]
    split <;> simp_all

variable {w : EaWorld} {next : HostDir}

/-- A node moves with its attributes, and its sidecar stays: the same must stand in the
sidecar where it goes. -/
theorem Inv.moved (inv : w.Inv) (old new : Path) {fromDir toDir : HostPath}
    {fromName toName : Name} (regular : next.Regular) (noLinks : next.tree.NoLinks)
    (moved : FileTree.Moved w.host.tree next.tree (fromDir ++ [fromName]) (toDir ++ [toName]) node)
    (fromClear : eaDir ∉ fromDir ++ [fromName]) (toClear : eaDir ∉ toDir ++ [toName])
    (alike : stored w.host.tree toDir toName = stored w.host.tree fromDir fromName) :
    Inv ⟨next,
      carried w.xattrs (.rename old new) [fromDir ++ [fromName], toDir ++ [toName]]⟩ where
  regular := regular
  noLinks := noLinks
  agree := by
    intro dir name outside there
    dsimp only at there ⊢
    have storage := moved_storage moved fromClear toClear dir [name ++ eaSuffix]
    rw [moved_isSome moved] at there
    simp only [carried]
    by_cases inTarget : toDir ++ [toName] <+: dir ++ [name]
    · rw [if_pos inTarget] at there ⊢
      rcases FileTree.isPrefix_snoc.mp inTarget with same | inside
      · obtain ⟨rfl, rfl⟩ := FileTree.snoc_inj.mp same
        have notAbove : ¬ fromDir ++ [fromName] <+: toDir := fun above =>
          moved.outside (above.trans (List.prefix_append ..))
        rw [if_neg FileTree.not_prefix_self, if_neg notAbove] at storage
        rw [List.drop_length, List.append_nil] at there ⊢
        rw [stored_congr storage, alike]
        exact inv.agree fromDir fromName fromClear there
      · rw [if_pos inside] at storage
        obtain ⟨below, rfl⟩ := inside
        rw [List.drop_left] at storage
        rw [List.append_assoc _ below, List.drop_left, ← List.append_assoc] at there ⊢
        rw [stored_congr storage]
        apply inv.agree _ name _ there
        simp only [List.mem_append, not_or] at fromClear outside ⊢
        exact ⟨⟨fromClear, outside.1.2⟩, outside.2⟩
    · rw [if_neg inTarget] at there ⊢
      have notTarget : ¬ toDir ++ [toName] <+: dir := fun above =>
        inTarget (above.trans (List.prefix_append ..))
      by_cases inSource : fromDir ++ [fromName] <+: dir ++ [name]
      · rw [if_pos inSource] at there
        cases there
      · have notSource : ¬ fromDir ++ [fromName] <+: dir := fun above =>
          inSource (above.trans (List.prefix_append ..))
        rw [if_neg notTarget, if_neg notSource] at storage
        rw [if_neg inSource] at there ⊢
        rw [stored_congr storage]
        exact inv.agree dir name outside there
  absent := by
    intro path none
    have isSome := moved_isSome moved path
    dsimp only at none
    rw [none] at isSome
    simp only [carried]
    split
    · rename_i inside
      rw [if_pos inside] at isSome
      exact inv.absent _ (by simpa using isSome.symm)
    · rename_i apart
      rw [if_neg apart] at isSome
      split
      · rfl
      · rename_i elsewhere
        rw [if_neg elsewhere] at isSome
        exact inv.absent _ (by simpa using isSome.symm)
  bare := by
    intro path inside
    simp only [carried]
    split
    · rename_i under
      obtain ⟨below, rfl⟩ := under
      rw [List.drop_left]
      apply inv.bare
      rw [List.mem_append] at inside ⊢
      exact .inr (inside.resolve_left toClear)
    · split
      · rfl
      · exact inv.bare path inside
  kept := by
    intro path
    simp only [carried]
    split
    · exact inv.kept _
    · split
      · exact fun entry member => by cases member
      · exact inv.kept path
  shelves := by
    intro dir node outside found
    dsimp only at found
    rw [moved_storage moved fromClear toClear dir []] at found
    split at found
    · rename_i inside
      obtain ⟨below, rfl⟩ := inside
      rw [List.drop_left] at found
      apply inv.shelves _ node _ found
      rw [List.mem_append, not_or] at outside ⊢
      exact ⟨fromClear, outside.2⟩
    · split at found
      · cases found
      · exact inv.shelves dir node outside found
  sidecars := by
    intro dir name node outside found
    dsimp only at found
    rw [moved_storage moved fromClear toClear dir [name]] at found
    split at found
    · rename_i inside
      obtain ⟨below, rfl⟩ := inside
      rw [List.drop_left] at found
      apply inv.sidecars _ name node _ found
      rw [List.mem_append, not_or] at outside ⊢
      exact ⟨fromClear, outside.2⟩
    · split at found
      · cases found
      · exact inv.sidecars dir name node outside found

end Moves

/-- What an operation touches is not the storage, and no sidecar is left over for what it
makes or moves. What is set is such that both stores keep it. -/
def Faithful (refuse : HostPath → String → List UInt8 → Option Os2Error) (w : EaWorld) :
    EaCall → Prop
  | .op (.rename old new) => ∀ source target,
      w.host.touched (.rename old new) = [source, target] → eaDir ∉ source ∧ eaDir ∉ target ∧
        sidecarReadEas w.host.tree target = sidecarReadEas w.host.tree source
  | .op op => op.edits = true → ∀ place ∈ w.host.touched op, eaDir ∉ place ∧
      (w.host.tree place = none → sidecarReadEas w.host.tree place = [])
  | .setEa path ea => ∀ place s, w.host.resolveExisting path = (.ok place, s) →
      w.FileAt place ∧ ((EaCall.setEa path ea).stores →
        Keepable ea ∧ refuse place ea.name (ea.flags :: ea.value) = none)
  | _ => True

section Runs

variable {w : EaWorld} {refuse : HostPath → String → List UInt8 → Option Os2Error}

theorem Inv.stored_eq (inv : w.Inv) {dir : HostPath} {name : Name}
    (plain : FileTree.Plain (dir ++ [name])) :
    sidecarReadEas w.host.tree (dir ++ [name]) = stored w.host.tree dir name :=
  sidecarReadEas_plain inv.regular.wellFormed inv.noLinks plain

/-- A place that is made has no attributes, and one that is there keeps its own. -/
theorem Inv.made_agree (inv : w.Inv) {tree : FileTree Attrs} (wf : tree.WellFormed)
    {dir : HostPath} {name : Name} (outside : eaDir ∉ dir ++ [name])
    (there : (tree (dir ++ [name])).isSome)
    (left : w.host.tree (dir ++ [name]) = none →
      sidecarReadEas w.host.tree (dir ++ [name]) = []) :
    stored w.host.tree dir name = xattrListEas (w.xattrs (dir ++ [name])) := by
  cases before : w.host.tree (dir ++ [name]) with
  | some node => exact inv.agree dir name outside (by rw [before]; rfl)
  | none =>
    rw [← inv.stored_eq (plain_of_present wf there), left before, inv.absent _ before]
    rfl

theorem Inv.host (inv : w.Inv) {next : HostDir} (regular : next.Regular)
    (same : next.tree = w.host.tree) : Inv ⟨next, w.xattrs⟩ where
  regular := regular
  noLinks := by rw [same]; exact inv.noLinks
  agree := by rw [same]; exact inv.agree
  absent := by rw [same]; exact inv.absent
  bare := inv.bare
  kept := inv.kept
  shelves := by rw [same]; exact inv.shelves
  sidecars := by rw [same]; exact inv.sidecars

theorem Faithful.edits {op : HostOp} (faithful : w.Faithful refuse (.op op))
    (edits : op.edits = true) : ∀ place ∈ w.host.touched op, eaDir ∉ place ∧
      (w.host.tree place = none → sidecarReadEas w.host.tree place = []) := by
  cases op with
  | rename => cases edits
  | _ => exact faithful edits

theorem Inv.op (inv : w.Inv) {op : HostOp} (faithful : w.Faithful refuse (.op op)) :
    (w.exec refuse (.op op)).Inv := by
  have effect := exec_effect inv.regular op
  have regular := (effect.regular inv.regular).1
  have noLinks := effect.noLinks inv.regular inv.noLinks
  have outcome := exec_outcome inv.regular op
  change Inv ⟨w.host.exec op, carried w.xattrs op (w.host.touched op)⟩
  generalize w.host.exec op = next at *
  generalize htree : next.tree = tree at *
  cases outcome with
  | same kept =>
    rw [kept]
    exact inv.host regular htree
  | @made _ _ place edits kept member edited there =>
    obtain ⟨clear, left⟩ := faithful.edits edits place member
    rw [kept]
    subst htree
    apply inv.edited regular noLinks clear edited (fun _ _ => rfl) _ _ (inv.kept place)
    · rintro dir name rfl there
      exact inv.made_agree regular.wellFormed clear there left
    · intro none
      rw [none] at there
      cases there
  | @gone _ _ place edits dropped member edited absent =>
    obtain ⟨clear, _⟩ := faithful.edits edits place member
    rw [dropped]
    subst htree
    apply inv.edited regular noLinks clear edited
    · intro path apart
      split
      · rename_i inside
        obtain ⟨below, rfl⟩ := inside
        have isSome := edited.isSome _ apart
        rw [regular.wellFormed.none_below absent] at isSome
        exact (inv.absent _ (by simpa using isSome.symm)).symm
      · rfl
    · intro dir name _ there
      rw [absent] at there
      cases there
    · exact fun _ => if_pos (List.prefix_refl _)
    · rw [if_pos (List.prefix_refl _)]
      exact fun entry member => by cases member
  | @moved old new _ fromDir toDir fromName toName node touched moved spot =>
    obtain ⟨fromClear, toClear, alike⟩ := faithful _ _ touched
    subst htree
    have wf := inv.regular.wellFormed
    have source : FileTree.Plain (fromDir ++ [fromName]) :=
      plain_of_present wf (by rw [moved.found]; rfl)
    have target : FileTree.Plain (toDir ++ [toName]) := by
      apply plain_of_present regular.wellFormed
      rw [moved_isSome moved, if_pos (List.prefix_refl _), List.drop_length, List.append_nil,
        moved.found]
      rfl
    rw [inv.stored_eq source, inv.stored_eq target] at alike
    rw [touched]
    exact inv.moved old new regular noLinks moved fromClear toClear alike

theorem FileAt.snoc {place : HostPath} (file : w.FileAt place) :
    ∃ dir name, place = dir ++ [name] := by
  apply (List.eq_nil_or_concat' place).resolve_left
  rintro rfl
  exact file.below (List.prefix_nil.mp file.under).symm

theorem Inv.set (inv : w.Inv) {path : Path} {ea : EaEntry}
    (faithful : w.Faithful refuse (.setEa path ea)) : (w.exec refuse (.setEa path ea)).Inv := by
  simp only [EaWorld.exec]
  split
  · rename_i e s resolved
    have resolves := (resolveExisting_spec inv.regular resolved).1
    exact inv.host (resolves.regular inv.regular) resolves.tree
  · rename_i place s resolved
    have resolves := (resolveExisting_spec inv.regular resolved).1
    have regular := resolves.regular inv.regular
    obtain ⟨file, storable⟩ := faithful place s resolved
    obtain ⟨dir, name, rfl⟩ := file.snoc
    have outside := file.outside
    have there := file.there
    have plain := plain_of_present inv.regular.wellFormed there
    have clear : eaDir ∉ dir := fun inside => outside (List.mem_append_left _ inside)
    have found : w.host.tree.resolve (dir ++ [name]) = .ok (dir ++ [name]) :=
      (FileTree.resolve_plain inv.regular.wellFormed inv.noLinks plain).mpr ⟨rfl, there⟩
    obtain ⟨listed, kept⟩ := xattrSetEa_list (inv.kept (dir ++ [name])) storable
    have read : sidecarReadEas s.tree (dir ++ [name]) =
        xattrListEas (w.xattrs (dir ++ [name])) := by
      rw [resolves.tree, inv.stored_eq plain]
      exact inv.agree dir name outside there
    have nolinks : s.tree.NoLinks := resolves.tree ▸ inv.noLinks
    obtain ⟨shelved, stored, regular⟩ := shelved_writeEas regular nolinks clear
      (resolves.tree ▸ there) (fun node found => inv.shelves dir node clear (resolves.tree ▸ found))
      (fun node found => inv.sidecars dir _ node clear (resolves.tree ▸ found))
      (fun ea member => keepable_list kept ea (listed ▸ member))
    rw [resolves.tree] at shelved ⊢
    rw [found]
    dsimp only
    rw [sidecarSetEa, read]
    exact inv.shelved outside regular shelved there (stored.trans listed.symm) kept

/-- A call that meets the condition leaves both stores with the same attributes. -/
theorem Inv.exec (inv : w.Inv) {call : EaCall} (faithful : w.Faithful refuse call) :
    (w.exec refuse call).Inv := by
  cases call with
  | op op => exact inv.op faithful
  | setEa path ea => exact inv.set faithful
  | getEa path name =>
    have resolves := (resolveExisting_spec inv.regular (Prod.eta (w.host.resolveExisting path)).symm).1
    exact inv.host (resolves.regular inv.regular) resolves.tree
  | enumEa path =>
    have resolves := (resolveExisting_spec inv.regular (Prod.eta (w.host.resolveExisting path)).symm).1
    exact inv.host (resolves.regular inv.regular) resolves.tree

theorem Inv.sameEas (inv : w.Inv) : w.SameEas := by
  intro path place s resolved file
  have resolves := (resolveExisting_spec inv.regular resolved).1
  obtain ⟨dir, name, rfl⟩ := file.snoc
  have plain := plain_of_present inv.regular.wellFormed file.there
  have found : w.host.tree.resolve (dir ++ [name]) = .ok (dir ++ [name]) :=
    (FileTree.resolve_plain inv.regular.wellFormed inv.noLinks plain).mpr ⟨rfl, file.there⟩
  have read : sidecarReadEas w.host.tree (dir ++ [name]) =
      xattrListEas (w.xattrs (dir ++ [name])) := by
    rw [inv.stored_eq plain]
    exact inv.agree dir name file.outside file.there
  simp only [enumEa, getEa, resolved, resolves.tree, found, read, if_true, Bool.false_eq_true,
    if_false]
  exact ⟨⟨_, _, rfl, rfl, fun _ => Iff.rfl⟩, sidecarGetEa_list (inv.kept _)⟩

/-- There is no storage of attributes anywhere. -/
def Bare (w : EaWorld) : Prop := ∀ path, eaDir ∈ path → w.host.tree path = none

theorem Bare.not_shows (bare : w.Bare) : ¬ w.Shows := by
  rintro ⟨dir, names, pattern, attrFilter, _, entry, member, same⟩
  have notDot : ∀ {name place}, entry ∈ w.host.dotEntry name place pattern attrFilter →
      entry.name = name := by
    intro name place inside
    unfold dotEntry at inside
    split at inside
    · obtain ⟨_, _, rfl⟩ := Option.map_eq_some_iff.mp (Option.mem_toList.mp inside)
      rfl
    · cases inside
  simp only [capture, List.mem_append] at member
  rcases member with (first | second) | listed
  · exact eaDir_plain.1 (same.symm.trans (notDot first))
  · exact eaDir_plain.2 (same.symm.trans (notDot second))
  · rw [listedEntries, List.mem_filterMap] at listed
    obtain ⟨name, _, found⟩ := listed
    obtain ⟨status, hstatus, shown⟩ := Option.bind_eq_some_iff.mp found
    obtain ⟨node, hnode, _⟩ := Option.map_eq_some_iff.mp hstatus
    split at shown
    · cases shown
      obtain ⟨place, _, there⟩ := Option.bind_eq_some_iff.mp hnode
      rw [bare (place ++ [name]) (by simp [← same])] at there
      cases there
    · cases shown

/-- Where nothing is stored, no storage comes to be. -/
theorem Bare.exec (bare : w.Bare) (inv : w.Inv) {call : EaCall}
    (faithful : w.Faithful refuse call) (idle : ¬ call.stores) : (w.exec refuse call).Bare := by
  intro path inside
  cases call with
  | op op =>
    have outcome := exec_outcome inv.regular op
    change (w.host.exec op).tree path = none
    generalize (w.host.exec op).tree = tree at *
    cases outcome with
    | same kept => exact bare path inside
    | @made _ _ place edits kept member edited there =>
      rw [edited.storage (faithful.edits edits place member).1 inside]
      exact bare path inside
    | @gone _ _ place edits dropped member edited absent =>
      rw [edited.storage (faithful.edits edits place member).1 inside]
      exact bare path inside
    | moved touched moved spot =>
      obtain ⟨fromClear, toClear, _⟩ := faithful _ _ touched
      obtain ⟨dir, rest, rfl⟩ := List.append_of_mem inside
      rw [moved_storage moved fromClear toClear]
      split
      · exact bare _ (by simp)
      · split
        · rfl
        · exact bare _ (by simp)
  | setEa other ea =>
    simp only [EaWorld.exec]
    split
    · rename_i e s resolved
      exact (resolveExisting_spec inv.regular resolved).1.tree ▸ bare path inside
    · rename_i place s resolved
      have same := (resolveExisting_spec inv.regular resolved).1.tree
      obtain ⟨file, _⟩ := faithful place s resolved
      obtain ⟨dir, name, rfl⟩ := file.snoc
      have wf := inv.regular.wellFormed
      have plain := plain_of_present wf file.there
      have absent := bare (shelf dir name) eaDir_mem_shelf
      have removes : ¬ (ea.value ≠ [] ∨ ea.flags ≠ 0) := idle
      have read : setEntry (sidecarReadEas s.tree (dir ++ [name])) ea = [] := by
        rw [same, inv.stored_eq plain, stored, fileData, absent, setEntry, if_neg removes]
        rfl
      dsimp only
      rw [sidecarSetEa, read, sidecarWriteEas, sidecarEaPath_plain plain]
      dsimp only
      rw [if_pos rfl, same, FileTree.unlink_absent wf inv.noLinks (shelf_plain plain) absent]
      exact bare path inside
  | getEa other name =>
    have resolves := (resolveExisting_spec inv.regular
      (Prod.eta (w.host.resolveExisting other)).symm).1
    exact resolves.tree ▸ bare path inside
  | enumEa other =>
    have resolves := (resolveExisting_spec inv.regular
      (Prod.eta (w.host.resolveExisting other)).symm).1
    exact resolves.tree ▸ bare path inside

def step (refuse : HostPath → String → List UInt8 → Option Os2Error) : Step EaWorld EaCall :=
  fun w call next => w.exec refuse call = next

theorem run_exec (refuse : HostPath → String → List UInt8 → Option Os2Error) (w : EaWorld)
    (calls : List EaCall) : Run (step refuse) w calls (calls.foldl (exec refuse) w) := by
  induction calls generalizing w with
  | nil => exact .nil w
  | cons call rest ih => exact .cons rfl (ih (w.exec refuse call))

/-- A volume on a host where no attribute has been kept yet. -/
def new (root : HostPath) (kernelCasefold : Bool) (tree : FileTree Attrs) (attrs : Attrs) :
    EaWorld :=
  ⟨HostDir.new root kernelCasefold tree attrs, fun _ => []⟩

theorem new_inv {root : HostPath} {tree : FileTree Attrs} (kernelCasefold : Bool) (attrs : Attrs)
    (plain : FileTree.Plain root) (wf : tree.WellFormed) (nolinks : tree.NoLinks)
    (bare : (new root kernelCasefold tree attrs).Bare) :
    (new root kernelCasefold tree attrs).Inv where
  regular := new_regular kernelCasefold attrs plain wf
  noLinks := nolinks
  agree := by
    intro dir name _ _
    rw [stored, fileData, bare _ eaDir_mem_shelf]
    rfl
  absent := fun _ _ => rfl
  bare := fun _ _ => rfl
  kept := fun _ _ member => by cases member
  shelves := by
    intro dir node _ found
    rw [bare _ (by simp)] at found
    cases found
  sidecars := by
    intro dir name node _ found
    rw [bare _ (by simp)] at found
    cases found

end Runs

theorem emptyHost_bare (path : HostPath) (inside : eaDir ∈ path) : emptyHost path = none := by
  have apart : path ≠ ["c".toList] := by
    rintro rfl
    exact absurd inside (by decide)
  have below : path ≠ [] := List.ne_nil_of_mem inside
  have top := @FileTree.insertNode_apply _ (FileTree.leaf ⟨.dir [], plainAttrs⟩) []
    "c".toList ⟨.dir [], plainAttrs⟩ path
  rw [List.nil_append, if_neg apart, if_neg below, FileTree.leaf, if_neg below] at top
  exact top

/-- A file is made, given an attribute and renamed. -/
def renameCalls : List EaCall :=
  [.op (.openFile "A".toList .readWrite .denyNone ⟨.open, .create⟩ ⟨0⟩),
    .setEa "A".toList ⟨"X", [1], 0⟩, .op (.rename "A".toList "B".toList)]

def renamed : EaWorld :=
  renameCalls.foldl (exec fun _ _ _ => none) (new ["c".toList] false emptyHost plainAttrs)

end EaWorld
end Warpine.Vfs
