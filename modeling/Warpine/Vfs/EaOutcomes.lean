import Warpine.Vfs.EaStores

/-! What an operation on files does to the tree and to the attributes that the host keeps:
one place changes, or a branch moves. -/
namespace Warpine.Vfs
open Warpine.Lib Posix

/-- One node is added, taken away or given other contents; the directory that holds it
is listed anew. -/
structure Edited (tree next : FileTree Attrs) (place : HostPath) : Prop where
  same : ∀ other, other ≠ place → other ≠ place.dropLast → next other = tree other
  isSome : ∀ other, other ≠ place → (next other).isSome = (tree other).isSome

section Edits

variable {tree next : FileTree Attrs} {dir : HostPath} {name : Name} {node : Node Attrs}

theorem edited_insertNode : Edited tree (tree.insertNode (dir ++ [name]) node) (dir ++ [name]) where
  same := by
    intro other apart outside
    rw [List.dropLast_concat] at outside
    rw [FileTree.insertNode_apply, if_neg apart, if_neg outside]
  isSome := by
    intro other apart
    rw [FileTree.insertNode_apply, if_neg apart]
    split <;> simp

theorem Edited.refl (tree : FileTree Attrs) (place : HostPath) : Edited tree tree place :=
  ⟨fun _ _ _ => rfl, fun _ _ => rfl⟩

theorem Edited.trans {last : FileTree Attrs} {place : HostPath} (first : Edited tree next place)
    (second : Edited next last place) : Edited tree last place where
  same := fun other apart outside =>
    (second.same other apart outside).trans (first.same other apart outside)
  isSome := fun other apart => (second.isSome other apart).trans (first.isSome other apart)

/-- Only one node changes. -/
theorem Edited.one {place : HostPath} (h : ∀ other, other ≠ place → next other = tree other) :
    Edited tree next place :=
  ⟨fun other apart _ => h other apart, fun other apart => by rw [h other apart]⟩

theorem edited_openFile {path file : HostPath} {write create truncate : Bool} {attrs : Attrs}
    (wf : tree.WellFormed)
    (h : tree.openFile path write create truncate attrs = .ok (file, next)) :
    Edited tree next file ∧ (next file).isSome := by
  obtain ⟨_, ⟨_, _, dir, name, rfl, _, rfl⟩ | ⟨there, rewrites⟩⟩ := FileTree.openFile_ok wf h
  · exact ⟨edited_insertNode, by rw [FileTree.insertNode_apply, if_pos rfl]; rfl⟩
  · exact ⟨.one (FileTree.openFile_same h there), by rwa [rewrites.isSome]⟩

theorem edited_copyFile {source target : HostPath} {attrs : Attrs} (wf : tree.WellFormed)
    (h : tree.copyFile source target attrs = .ok next) :
    ∃ file, tree.walk true FileTree.maxLinks [] target = .ok file ∧ Edited tree next file ∧
      (next file).isSome := by
  obtain ⟨file, opened, hopen, rewrites, rest⟩ := FileTree.copyFile_ok h
  obtain ⟨edited, there⟩ := edited_openFile wf hopen
  exact ⟨file, (FileTree.openFile_ok wf hopen).1, edited.trans (.one rest),
    by rwa [rewrites.isSome]⟩

/-- A node without anything below it is taken away alone. -/
theorem edited_prune
    (bare : ∀ below, below ≠ [] → tree (dir ++ [name] ++ below) = none) :
    Edited tree (tree.prune (dir ++ [name])) (dir ++ [name]) where
  same := by
    intro other apart outside
    rw [List.dropLast_concat] at outside
    rw [FileTree.prune_apply, if_neg outside]
    split
    · rename_i inside
      obtain ⟨below, rfl⟩ := inside
      exact (bare below fun none => apart (by simp [none])).symm
    · rfl
  isSome := by
    intro other apart
    rw [FileTree.prune_apply]
    split
    · rename_i inside
      obtain ⟨below, rfl⟩ := inside
      rw [bare below fun none => apart (by simp [none])]
    · split <;> simp

/-- Files and empty directories have nothing below them. -/
theorem bare_below (wf : tree.WellFormed) {path : HostPath} (found : tree path = some node)
    (leaf : node.isDir = false ∨ node.kind = .dir []) {below : HostPath} (some_ : below ≠ []) :
    tree (path ++ below) = none := by
  cases below with
  | nil => exact absurd rfl some_
  | cons first rest =>
    have absent : tree (path ++ [first]) = none := by
      by_contra there
      have present := Option.isSome_iff_ne_none.mpr there
      have dir := wf.inside path first present
      rw [FileTree.names_eq, found, Option.bind_some, ← Node.isDir_iff] at dir
      rcases leaf with file | empty
      · rw [file] at dir
        contradiction
      · have listed := (wf.listed path [] (by
          rw [FileTree.names_eq, found, Option.bind_some, Node.entries, empty]) first).mpr present
        cases listed
    rw [← List.singleton_append, ← List.append_assoc]
    exact wf.none_below absent rest

end Edits

/-- The operations that may add, remove or rewrite one node. -/
def HostOp.edits : HostOp → Bool
  | .openFile _ _ _ _ _ | .createDir _ | .deleteDir _ | .delete _ | .copy _ _ => true
  | _ => false

namespace EaWorld

/-- What an operation does to the tree, and what goes along with it. -/
inductive Outcome (s : HostDir) : HostOp → FileTree Attrs → Prop where
  | same {op : HostOp} (kept : ∀ xattrs, carried xattrs op (s.touched op) = xattrs) :
      Outcome s op s.tree
  /-- A file is there, new or not. -/
  | made {op : HostOp} {tree : FileTree Attrs} {place : HostPath} (edits : op.edits = true)
      (kept : ∀ xattrs, carried xattrs op (s.touched op) = xattrs)
      (member : place ∈ s.touched op) (edited : Edited s.tree tree place)
      (there : (tree place).isSome) : Outcome s op tree
  | gone {op : HostOp} {tree : FileTree Attrs} {place : HostPath} (edits : op.edits = true)
      (dropped : ∀ xattrs, carried xattrs op (s.touched op) =
        fun path => if place <+: path then [] else xattrs path)
      (member : place ∈ s.touched op) (edited : Edited s.tree tree place)
      (absent : tree place = none) : Outcome s op tree
  | moved {old new : Path} {tree : FileTree Attrs} {fromDir toDir : HostPath}
      {fromName toName : Name} {node : Node Attrs}
      (touched : s.touched (.rename old new) = [fromDir ++ [fromName], toDir ++ [toName]])
      (moved : FileTree.Moved s.tree tree (fromDir ++ [fromName]) (toDir ++ [toName]) node)
      (spot : FileTree.Spot s.tree toDir toName) : Outcome s (.rename old new) tree

open HostDir

variable {s : HostDir}

theorem outcome_openFile (reg : s.Regular) (path : Path) (mode : OpenMode) (sharing : SharingMode)
    (flags : OpenFlags) (attributes : FileAttribute) :
    Outcome s (.openFile path mode sharing flags attributes)
      (s.openFile path mode sharing flags attributes).2.tree := by
  cases hresult : s.openFile path mode sharing flags attributes with
  | mk result next =>
    cases result with
    | error e =>
      obtain ⟨mid, hresolves, hbecomes, _⟩ := openFile_error reg hresult
      dsimp only
      rw [hbecomes.tree, hresolves.tree]
      exact .same fun _ => rfl
    | ok opened =>
      obtain ⟨hid, mid, host, file, tree, write, opens⟩ := openFile_ok reg hresult
      obtain ⟨host', file', touched, found, _⟩ := openFile_touched hresult
      rw [opens.files, hid, Table.insert_self] at found
      cases found
      have resolves := (openPath_spec reg opens.resolved).1
      obtain ⟨edited, there⟩ := edited_openFile (resolves.regular reg).wellFormed opens.opened
      rw [resolves.tree] at edited
      dsimp only
      rw [opens.becomes.tree]
      exact .made rfl (fun _ => rfl) (touched ▸ List.mem_singleton_self file) edited there

theorem outcome_createDir (reg : s.Regular) (path : Path) :
    Outcome s (.createDir path) (s.createDir path).2.tree := by
  unfold createDir
  split
  · rename_i e mid resolved
    rw [(resolveForCreate_spec reg resolved).1.tree]
    exact .same fun _ => rfl
  · rename_i host mid resolved
    have same := (resolveForCreate_spec reg resolved).1.tree
    split
    · rw [same]
      exact .same fun _ => rfl
    · rename_i tree made
      obtain ⟨dir, name, located, _, _, rfl⟩ := FileTree.mkdir_ok made
      have touched : s.touched (.createDir path) = [dir ++ [name]] := by
        simp [touched, resolved, made, located, placed, Except.toOption]
      rw [(becomes_one mid _ (parent host)).1.tree, same]
      refine .made rfl (fun _ => rfl) (touched ▸ List.mem_singleton_self _) edited_insertNode ?_
      rw [FileTree.insertNode_apply, if_pos rfl]
      rfl

/-- Both removals go by one scheme. -/
theorem outcome_removal (reg : s.Regular) {op : HostOp} {path : Path} (edits : op.edits = true)
    (remove : FileTree Attrs → HostPath → Except IoError (FileTree Attrs)) {next : FileTree Attrs}
    (touched : s.touched op = match s.resolveExisting path with
      | (.error _, _) => []
      | (.ok hostPath, s) => match remove s.tree hostPath with
        | .error _ => []
        | .ok _ => placed (s.tree.locate hostPath))
    (idle : ∀ xattrs, carried xattrs op [] = xattrs)
    (dropped : ∀ xattrs place, carried xattrs op [place] =
      fun path => if place <+: path then [] else xattrs path)
    (removed : ∀ tree host next, remove tree host = .ok next → ∃ dir name node,
      tree.locate host = .ok (dir ++ [name]) ∧ tree (dir ++ [name]) = some node ∧
        (node.isDir = false ∨ node.kind = .dir []) ∧ next = tree.prune (dir ++ [name]))
    (result : next = match s.resolveExisting path with
      | (.error _, _) => s.tree
      | (.ok hostPath, s) => (remove s.tree hostPath).toOption.getD s.tree) :
    Outcome s op next := by
  rw [result]
  split
  · rename_i e mid resolved
    rw [resolved] at touched
    exact .same fun xattrs => touched ▸ idle xattrs
  · rename_i host mid resolved
    have same := (resolveExisting_spec reg resolved).1
    cases outcome : remove mid.tree host with
    | error e =>
      rw [resolved] at touched
      simp only [outcome] at touched
      rw [Except.toOption, Option.getD_none, same.tree]
      exact .same fun xattrs => touched ▸ idle xattrs
    | ok tree =>
      obtain ⟨dir, name, node, located, found, leaf, rfl⟩ := removed _ _ _ outcome
      rw [resolved] at touched
      simp only [outcome, located, placed, Except.toOption, Option.toList_some] at touched
      rw [Except.toOption, Option.getD_some, same.tree]
      rw [same.tree] at found
      refine .gone edits (fun xattrs => ?_) (touched ▸ List.mem_singleton_self _)
        (edited_prune fun below some_ => bare_below reg.wellFormed found leaf some_) ?_
      · rw [touched, dropped]
      · rw [FileTree.prune_apply, if_pos (List.prefix_refl _)]

/-- What the calls that remove a node leave of the host, whichever of them it is. -/
theorem removal_tree (reg : s.Regular)
    (remove : FileTree Attrs → HostPath → Except IoError (FileTree Attrs)) (path : Path) :
    (match s.resolveExisting path with
      | (.error e, s) => ((.error e : VfsResult Unit), s)
      | (.ok hostPath, s) => match remove s.tree hostPath with
        | .error e => (.error (mapIoError e), s)
        | .ok tree => (.ok (), { s with tree }.invalidate (parent hostPath))).2.tree =
      match s.resolveExisting path with
      | (.error _, _) => s.tree
      | (.ok hostPath, s) => (remove s.tree hostPath).toOption.getD s.tree := by
  cases resolved : s.resolveExisting path with
  | mk result mid =>
    cases result with
    | error e => exact (resolveExisting_spec reg resolved).1.tree
    | ok host =>
      dsimp only
      cases remove mid.tree host with
      | error e => rfl
      | ok tree => exact (becomes_one mid tree (parent host)).1.tree

theorem outcome_delete (reg : s.Regular) (path : Path) :
    Outcome s (.delete path) (s.delete path).2.tree := by
  refine outcome_removal reg rfl FileTree.unlink rfl (fun _ => rfl) (fun _ _ => rfl) ?_ ?_
  · intro tree host next removed
    obtain ⟨dir, name, node, located, _, found, file, rfl⟩ := FileTree.unlink_ok removed
    exact ⟨dir, name, node, located, found, .inl file, rfl⟩
  · exact removal_tree reg FileTree.unlink path

theorem outcome_deleteDir (reg : s.Regular) (path : Path) :
    Outcome s (.deleteDir path) (s.deleteDir path).2.tree := by
  refine outcome_removal reg rfl FileTree.rmdir rfl (fun _ => rfl) (fun _ _ => rfl) ?_ ?_
  · intro tree host next removed
    obtain ⟨dir, name, node, located, _, found, empty, rfl⟩ := FileTree.rmdir_ok removed
    exact ⟨dir, name, node, located, found, .inr empty, rfl⟩
  · exact removal_tree reg FileTree.rmdir path

/-- Renaming a node to itself takes its attributes to where they are. -/
theorem carried_self (xattrs : Xattrs) (old new : Path) (place : HostPath) :
    carried xattrs (.rename old new) [place, place] = xattrs := by
  ext1 path
  simp only [carried]
  split
  · rename_i inside
    obtain ⟨below, rfl⟩ := inside
    rw [List.drop_left]
  · rfl

theorem outcome_rename (reg : s.Regular) (old new : Path) :
    Outcome s (.rename old new) (s.rename old new).2.tree := by
  unfold rename
  split
  · rename_i e mid source
    rw [(resolveExisting_spec reg source).1.tree]
    exact .same fun xattrs => by simp [touched, source, carried]
  · rename_i oldHost first source
    have begun := (resolveExisting_spec reg source).1
    split
    · rename_i e mid target
      rw [(begun.trans (resolveForCreate_spec (begun.regular reg) target).1).tree]
      exact .same fun xattrs => by simp [touched, source, target, carried]
    · rename_i newHost mid target
      have same := (begun.trans (resolveForCreate_spec (begun.regular reg) target).1).tree
      split
      · rename_i e refused
        rw [same]
        exact .same fun xattrs => by simp [touched, source, target, refused, carried]
      · rename_i tree renamed
        obtain ⟨fromDir, fromName, toDir, toName, hold, hnew, _, spot, outcome⟩ :=
          FileTree.rename_ok renamed
        have touched : s.touched (.rename old new) = [fromDir ++ [fromName], toDir ++ [toName]] := by
          simp [touched, source, target, renamed, hold, hnew, placed, Except.toOption]
        rw [(becomes_two mid tree (parent oldHost) (parent newHost)).1.tree]
        rcases outcome with ⟨here, rfl⟩ | ⟨node, moved⟩
        · rw [same]
          exact .same fun xattrs => by rw [touched, here, carried_self]
        · rw [same] at moved spot
          exact .moved touched moved spot

theorem outcome_copy (reg : s.Regular) (srcPath dstPath : Path) :
    Outcome s (.copy srcPath dstPath) (s.copy srcPath dstPath).2.tree := by
  unfold copy
  split
  · rename_i e mid source
    rw [(resolveExisting_spec reg source).1.tree]
    exact .same fun _ => rfl
  · rename_i srcHost first source
    have begun := (resolveExisting_spec reg source).1
    split
    · rename_i e mid target
      rw [(begun.trans (resolveForCreate_spec (begun.regular reg) target).1).tree]
      exact .same fun _ => rfl
    · rename_i dstHost mid target
      have resolves := begun.trans (resolveForCreate_spec (begun.regular reg) target).1
      split
      · rw [resolves.tree]
        exact .same fun _ => rfl
      · rename_i tree copied
        obtain ⟨file, walked, edited, there⟩ :=
          edited_copyFile (resolves.regular reg).wellFormed copied
        rw [(becomes_one mid tree (parent dstHost)).1.tree]
        rw [resolves.tree] at edited
        refine .made rfl (fun _ => rfl) ?_ edited there
        simp [touched, source, target, copied, walked, placed, Except.toOption]

/-- An operation that has only a quiet effect. -/
theorem outcome_quiet {op : HostOp} {next : HostDir} (effect : Effect s op next)
    (kept : ∀ xattrs touched, carried xattrs op touched = xattrs)
    (idle : op.edits = false) (still : ∀ old new, op ≠ .rename old new) :
    Outcome s op next.tree := by
  have same : next.tree = s.tree := by
    cases effect with
    | quiet resolved becomes _ => exact becomes.tree.trans resolved.tree
    | close _ becomes => exact becomes.tree
    | wait => rfl
    | rename => exact absurd rfl (still _ _)
    | _ => cases idle
  rw [same]
  exact .same fun xattrs => kept xattrs _

theorem exec_outcome (reg : s.Regular) (op : HostOp) : Outcome s op (s.exec op).tree := by
  cases op with
  | openFile path mode sharing flags attributes =>
    exact outcome_openFile reg path mode sharing flags attributes
  | createDir path => exact outcome_createDir reg path
  | deleteDir path => exact outcome_deleteDir reg path
  | delete path => exact outcome_delete reg path
  | rename old new => exact outcome_rename reg old new
  | copy srcPath dstPath => exact outcome_copy reg srcPath dstPath
  | _ => exact outcome_quiet (exec_effect reg _) (fun _ _ => rfl) rfl nofun

end EaWorld
end Warpine.Vfs
