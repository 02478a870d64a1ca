import Mathlib.Data.List.Pairwise
import Warpine.Vfs.HostRun

/-! Open files and the sharing table. The table goes by paths, and a path stands
for the file that was opened only as long as the file is not renamed. -/
namespace Warpine.Vfs
open Warpine.Lib Posix

/-- What tells a file from all others, whatever it is renamed to. -/
inductive FileId where
  | initial (path : HostPath)
  | made (number : Nat)
deriving DecidableEq, Repr

/-- The file an open found or made, and what it asked for. -/
structure OpenRecord where
  file : FileId
  mode : OpenMode
  sharing : SharingMode
deriving DecidableEq, Repr

/-- A backend together with the identity of each node and of each open file. -/
structure Tracked where
  host : HostDir
  fileAt : HostPath → FileId
  fresh : Nat
  opened : Table Nat OpenRecord

namespace Tracked

def new (host : HostDir) : Tracked := ⟨host, .initial, 0, .empty⟩

/-- A node that an operation has added is a new file. -/
def added (t : Tracked) (tree : FileTree Attrs) : HostPath → FileId := fun path =>
  if t.host.tree path = none ∧ (tree path).isSome then .made t.fresh else t.fileAt path

/-- The places that a rename takes a node from and to, if it succeeds. -/
def renamed (s : HostDir) (oldPath newPath : Path) : Option (HostPath × HostPath) :=
  match s.resolveExisting oldPath with
  | (.error _, _) => none
  | (.ok oldHost, s) => match s.resolveForCreate newPath with
    | (.error _, _) => none
    | (.ok newHost, s) =>
        match s.tree.locate oldHost, s.tree.locate newHost, s.tree.rename oldHost newHost with
        | .ok source, .ok target, .ok _ => some (source, target)
        | _, _, _ => none

/-- Where the node at a path stood before a rename. -/
def origin (source target path : HostPath) : HostPath :=
  if target <+: path then source ++ path.drop target.length else path

def exec (t : Tracked) (op : HostOp) : Tracked :=
  let next := t.host.exec op
  match op with
  | .openFile path mode sharing flags attributes =>
      match t.host.openFile path mode sharing flags attributes with
      | (.error _, _) => { t with host := next }
      | (.ok (handle, _), _) =>
          let fileAt := t.added next.tree
          let opened := match next.files handle.id with
            | some state => t.opened.insert handle.id ⟨fileAt state.file, mode, sharing⟩
            | none => t.opened
          { host := next, fileAt, fresh := t.fresh + 1, opened }
  | .close handle => { t with host := next, opened := t.opened.erase handle.id }
  | .rename oldPath newPath => match renamed t.host oldPath newPath with
      | some (source, target) =>
          { t with host := next, fileAt := fun path => t.fileAt (origin source target path) }
      | none => { t with host := next }
  | _ => { t with host := next, fileAt := t.added next.tree, fresh := t.fresh + 1 }

def step : Step Tracked HostOp := fun t op next => t.exec op = next

/-- The entries that a handle should have under a path. -/
def entries (files : Table Nat OpenFileState) (opened : Table Nat OpenRecord) (id : Nat)
    (path : HostPath) : List SharingEntry :=
  match files id, opened id with
  | some state, some record =>
      if path = state.hostPath then [⟨id, record.mode, record.sharing⟩] else []
  | _, _ => []

/-- What the sharing table promises. -/
structure Sound (t : Tracked) : Prop where
  /-- Two handles on one file are compatible. -/
  compatible : ∀ first second one two, first ≠ second → t.opened first = some one →
    t.opened second = some two → one.file = two.file →
      isSharingCompatible one.mode one.sharing two.mode two.sharing = true
  /-- An open handle has one entry, under its path; no other number has any. -/
  registered : ∀ id path, ((t.host.sharing path).getD []).filter (·.handleId == id) =
    entries t.host.files t.opened id path
  /-- An open that is refused changes neither a table nor a file. -/
  refused : ∀ path mode sharing flags attributes next,
    t.host.openFile path mode sharing flags attributes = (.error .sharingViolation, next) →
      next.files = t.host.files ∧ next.sharing = t.host.sharing ∧ next.tree = t.host.tree

/-- No file at or below a path is open. -/
def Idle (t : Tracked) (source : HostPath) : Prop :=
  ∀ id record below, t.opened id = some record → (t.host.tree (source ++ below)).isSome →
    t.fileAt (source ++ below) ≠ record.file

/-- Only what is not open is renamed. -/
def AllowedRename (t : Tracked) : HostOp → Prop
  | .rename oldPath newPath => ∀ source target,
      renamed t.host oldPath newPath = some (source, target) → t.Idle source
  | _ => True

section Tables

variable {host mid next : HostDir} {opened : Table Nat OpenRecord}

/-- The two tables and the records of the open handles belong together. -/
structure TableInv (host : HostDir) (opened : Table Nat OpenRecord) : Prop where
  ids : ∀ id, (host.files id).isSome → id < host.nextId
  domain : ∀ id, (opened id).isSome = (host.files id).isSome
  registered : ∀ id path, ((host.sharing path).getD []).filter (·.handleId == id) =
    entries host.files opened id path
  pairwise : ∀ path, ((host.sharing path).getD []).Pairwise fun one two =>
    isSharingCompatible one.mode one.sharing two.mode two.sharing = true

theorem entries_none {files : Table Nat OpenFileState} {id : Nat} (h : files id = none)
    (path : HostPath) : entries files opened id path = [] := by
  simp [entries, h]

theorem TableInv.keeps (inv : TableInv host opened) (keeps : HostDir.Keeps host next) :
    TableInv next opened where
  ids := by
    intro id hid
    rw [keeps.files] at hid
    exact Nat.lt_of_lt_of_le (inv.ids id hid) keeps.nextId
  domain := by
    rw [keeps.files]
    exact inv.domain
  registered := by
    rw [keeps.files, keeps.sharing]
    exact inv.registered
  pairwise := by
    rw [keeps.sharing]
    exact inv.pairwise

theorem TableInv.free (inv : TableInv host opened) : host.files host.nextId = none := by
  by_contra hsome
  exact absurd (inv.ids _ (Option.isSome_iff_ne_none.mpr hsome)) (lt_irrefl _)

theorem TableInv.opens (inv : TableInv host opened) {path : Path} {mode : OpenMode}
    {sharing : SharingMode} {flags : OpenFlags} {place file : HostPath} {action : OpenAction}
    {tree : FileTree Attrs} {write : Bool}
    (opens : HostDir.Opens host path mode sharing flags mid next place file action tree write)
    (id : FileId) : TableInv next (opened.insert host.nextId ⟨id, mode, sharing⟩) where
  ids := by
    intro other hother
    rw [opens.files] at hother
    rw [opens.nextId]
    by_cases hsame : other = host.nextId
    · omega
    · rw [Table.insert_ne _ _ hsame] at hother
      exact Nat.lt_succ_of_lt (inv.ids other hother)
  domain := by
    intro other
    rw [opens.files]
    by_cases hsame : other = host.nextId
    · simp [hsame]
    · rw [Table.insert_ne _ _ hsame, Table.insert_ne _ _ hsame]
      exact inv.domain other
  registered := by
    intro other where_
    rw [opens.files, opens.sharing]
    by_cases hsame : other = host.nextId
    · subst hsame
      have hold := (inv.registered host.nextId where_).trans (entries_none inv.free where_)
      unfold entries
      rw [Table.insert_self, Table.insert_self]
      dsimp only
      by_cases hplace : where_ = place
      · subst hplace
        rw [Table.insert_self, Option.getD_some, List.filter_append, hold, if_pos rfl]
        simp
      · rw [Table.insert_ne _ _ hplace, hold, if_neg hplace]
    · have hentries : entries (host.files.insert host.nextId ⟨file, place⟩)
          (opened.insert host.nextId ⟨id, mode, sharing⟩) other where_ =
            entries host.files opened other where_ := by
        unfold entries
        rw [Table.insert_ne _ _ hsame, Table.insert_ne _ _ hsame]
      rw [hentries, ← inv.registered]
      by_cases hplace : where_ = place
      · subst hplace
        rw [Table.insert_self, Option.getD_some, List.filter_append]
        simp [Ne.symm hsame]
      · rw [Table.insert_ne _ _ hplace]
  pairwise := by
    intro where_
    rw [opens.sharing]
    by_cases hplace : where_ = place
    · subst hplace
      rw [Table.insert_self, Option.getD_some, List.pairwise_append]
      refine ⟨inv.pairwise where_, List.pairwise_singleton _ _, ?_⟩
      intro entry hentry last hlast
      rw [List.mem_singleton.mp hlast]
      exact opens.compatible entry hentry
    · rw [Table.insert_ne _ _ hplace]
      exact inv.pairwise where_

theorem TableInv.close (inv : TableInv host opened) {id : Nat} {state : OpenFileState}
    (found : host.files id = some state) (files : next.files = host.files.erase id)
    (sharing : ∀ path, (next.sharing path).getD [] =
      if path = state.hostPath then ((host.sharing path).getD []).filter (·.handleId != id)
      else (host.sharing path).getD [])
    (nextId : next.nextId = host.nextId) : TableInv next (opened.erase id) where
  ids := by
    intro other hother
    rw [files] at hother
    rw [nextId]
    by_cases hsame : other = id
    · simp [hsame] at hother
    · rw [Table.erase_ne _ hsame] at hother
      exact inv.ids other hother
  domain := by
    intro other
    rw [files]
    by_cases hsame : other = id
    · simp [hsame]
    · rw [Table.erase_ne _ hsame, Table.erase_ne _ hsame]
      exact inv.domain other
  registered := by
    intro other path
    rw [sharing, files]
    by_cases hsame : other = id
    · subst hsame
      rw [entries_none (Table.erase_self ..)]
      split
      · simp
      · rename_i hpath
        rw [inv.registered]
        unfold entries
        rw [found]
        cases opened other with
        | none => rfl
        | some record => exact if_neg hpath
    · have hentries : entries (host.files.erase id) (opened.erase id) other path =
          entries host.files opened other path := by
        unfold entries
        rw [Table.erase_ne _ hsame, Table.erase_ne _ hsame]
      rw [hentries, ← inv.registered]
      split
      · rw [List.filter_filter]
        congr 1
        funext entry
        by_cases hid : entry.handleId = other
        · simp [hid, hsame]
        · simp [hid]
      · rfl
  pairwise := by
    intro path
    rw [sharing]
    split
    · exact (inv.pairwise path).sublist List.filter_sublist
    · exact inv.pairwise path

end Tables

section Places

variable {t : Tracked} {tree : FileTree Attrs} {files : Table Nat OpenFileState}
  {opened : Table Nat OpenRecord} {fileAt : HostPath → FileId} {fresh : Nat}

/-- Files are told apart, and an open file that is still there is at the path it
was opened by. -/
structure PlaceInv (tree : FileTree Attrs) (fileAt : HostPath → FileId) (fresh : Nat)
    (files : Table Nat OpenFileState) (opened : Table Nat OpenRecord) : Prop where
  numbered : ∀ path number, (tree path).isSome → fileAt path = .made number → number < fresh
  openedNumbered : ∀ id record number, opened id = some record →
    record.file = .made number → number < fresh
  injective : ∀ one two, (tree one).isSome → (tree two).isSome → fileAt one = fileAt two → one = two
  keyed : ∀ id state record path, files id = some state → opened id = some record →
    (tree path).isSome → fileAt path = record.file → path = state.hostPath
  same : ∀ first second one two state other, opened first = some one → opened second = some two →
    files first = some state → files second = some other → one.file = two.file →
      state.hostPath = other.hostPath

/-- At most one node is new. -/
def AddsOne (tree next : FileTree Attrs) : Prop :=
  ∃ place, ∀ path, (next path).isSome → (tree path).isSome ∨ path = place

theorem added_old {path : HostPath} (h : (t.host.tree path).isSome) :
    t.added tree path = t.fileAt path := by
  rw [added, if_neg]
  rintro ⟨hnone, _⟩
  simp [hnone] at h

theorem added_new {path : HostPath} (h : t.host.tree path = none) (hsome : (tree path).isSome) :
    t.added tree path = .made t.fresh := if_pos ⟨h, hsome⟩

theorem PlaceInv.added (inv : PlaceInv t.host.tree t.fileAt t.fresh files opened)
    (adds : AddsOne t.host.tree tree) :
    PlaceInv tree (t.added tree) (t.fresh + 1) files opened where
  numbered := by
    intro path number hsome hfile
    cases hold : t.host.tree path with
    | none =>
      rw [added_new hold hsome] at hfile
      cases hfile
      exact Nat.lt_succ_self _
    | some node =>
      have hthere : (t.host.tree path).isSome := by simp [hold]
      rw [added_old hthere] at hfile
      exact Nat.lt_succ_of_lt (inv.numbered path number hthere hfile)
  openedNumbered := fun id record number hrecord hfile =>
    Nat.lt_succ_of_lt (inv.openedNumbered id record number hrecord hfile)
  injective := by
    obtain ⟨place, hplace⟩ := adds
    have fresh_apart : ∀ one two, (t.host.tree one).isSome → t.host.tree two = none →
        (tree two).isSome → t.added tree one ≠ t.added tree two := by
      intro one two hone htwo hsome hfile
      rw [added_old hone, added_new htwo hsome] at hfile
      exact absurd (inv.numbered one _ hone hfile) (lt_irrefl _)
    intro one two hone htwo hfile
    cases hoone : t.host.tree one with
    | none =>
      cases hotwo : t.host.tree two with
      | none =>
        have hfirst := (hplace one hone).resolve_left (by simp [hoone])
        have hsecond := (hplace two htwo).resolve_left (by simp [hotwo])
        rw [hfirst, hsecond]
      | some node => exact absurd hfile.symm (fresh_apart two one (by simp [hotwo]) hoone hone)
    | some node =>
      have honethere : (t.host.tree one).isSome := by simp [hoone]
      cases hotwo : t.host.tree two with
      | none => exact absurd hfile (fresh_apart one two honethere hotwo htwo)
      | some other =>
        have htwothere : (t.host.tree two).isSome := by simp [hotwo]
        rw [added_old honethere, added_old htwothere] at hfile
        exact inv.injective one two honethere htwothere hfile
  keyed := by
    intro id state record path hstate hrecord hsome hfile
    cases hold : t.host.tree path with
    | none =>
      rw [added_new hold hsome] at hfile
      exact absurd (inv.openedNumbered id record _ hrecord hfile.symm) (lt_irrefl _)
    | some node =>
      have hthere : (t.host.tree path).isSome := by simp [hold]
      rw [added_old hthere] at hfile
      exact inv.keyed id state record path hstate hrecord hthere hfile
  same := inv.same

theorem PlaceInv.insert (inv : PlaceInv tree fileAt fresh files opened) {id : Nat} {host : HostPath}
    (hsome : (tree host).isSome) (mode : OpenMode) (sharing : SharingMode) :
    PlaceInv tree fileAt fresh (files.insert id ⟨host, host⟩)
      (opened.insert id ⟨fileAt host, mode, sharing⟩) where
  numbered := inv.numbered
  openedNumbered := by
    intro other record number hrecord hfile
    rcases Table.insert_eq_some.mp hrecord with ⟨_, rfl⟩ | ⟨_, hold⟩
    · exact inv.numbered host number hsome hfile
    · exact inv.openedNumbered other record number hold hfile
  injective := inv.injective
  keyed := by
    intro other state record path hstate hrecord hpath hfile
    rcases Table.insert_eq_some.mp hstate with ⟨rfl, rfl⟩ | ⟨hne, hold⟩
    · rw [Table.insert_self] at hrecord
      cases hrecord
      exact inv.injective path host hpath hsome hfile
    · rw [Table.insert_ne _ _ hne] at hrecord
      exact inv.keyed other state record path hold hrecord hpath hfile
  same := by
    intro first second one two state other hone htwo hstate hother hfile
    rcases Table.insert_eq_some.mp hstate with ⟨rfl, rfl⟩ | ⟨hfirst, hold⟩
    · rw [Table.insert_self] at hone
      cases hone
      rcases Table.insert_eq_some.mp hother with ⟨rfl, rfl⟩ | ⟨hsecond, hold⟩
      · rfl
      · rw [Table.insert_ne _ _ hsecond] at htwo
        exact inv.keyed second other two host hold htwo hsome hfile
    · rw [Table.insert_ne _ _ hfirst] at hone
      rcases Table.insert_eq_some.mp hother with ⟨rfl, rfl⟩ | ⟨hsecond, hsecondold⟩
      · rw [Table.insert_self] at htwo
        cases htwo
        exact (inv.keyed first state one host hold hone hsome hfile.symm).symm
      · rw [Table.insert_ne _ _ hsecond] at htwo
        exact inv.same first second one two state other hone htwo hold hsecondold hfile

theorem PlaceInv.erase (inv : PlaceInv tree fileAt fresh files opened) (id : Nat) :
    PlaceInv tree fileAt fresh (files.erase id) (opened.erase id) where
  numbered := inv.numbered
  openedNumbered := fun other record number hrecord =>
    inv.openedNumbered other record number (Table.erase_eq_some.mp hrecord).2
  injective := inv.injective
  keyed := fun other state record path hstate hrecord =>
    inv.keyed other state record path (Table.erase_eq_some.mp hstate).2
      (Table.erase_eq_some.mp hrecord).2
  same := fun first second one two state other hone htwo hstate hother =>
    inv.same first second one two state other (Table.erase_eq_some.mp hone).2
      (Table.erase_eq_some.mp htwo).2 (Table.erase_eq_some.mp hstate).2
      (Table.erase_eq_some.mp hother).2

/-- What is there after a move was there before it, once. -/
theorem origin_moved {next : FileTree Attrs} {fromDir toDir : HostPath} {fromName toName : Name}
    {node : Node Attrs}
    (moved : FileTree.Moved tree next (fromDir ++ [fromName]) (toDir ++ [toName]) node)
    {path : HostPath}
    (hsome : (next path).isSome) :
    (tree (origin (fromDir ++ [fromName]) (toDir ++ [toName]) path)).isSome ∧
      (origin (fromDir ++ [fromName]) (toDir ++ [toName]) path = path ∧
          ¬ toDir ++ [toName] <+: path ∧ ¬ fromDir ++ [fromName] <+: path ∨
        ∃ below, path = toDir ++ [toName] ++ below ∧
          origin (fromDir ++ [fromName]) (toDir ++ [toName]) path =
            fromDir ++ [fromName] ++ below) := by
  rw [moved.result, FileTree.isSome_graft] at hsome
  unfold origin
  split at hsome
  · rename_i hin
    obtain ⟨below, rfl⟩ := hin
    rw [if_pos (List.prefix_append ..)]
    exact ⟨hsome, Or.inr ⟨below, rfl, by rw [List.drop_left]⟩⟩
  · rename_i hout
    obtain ⟨hfree, hold⟩ := (FileTree.isSome_prune path).mp hsome
    rw [if_neg hout]
    exact ⟨hold, Or.inl ⟨rfl, hout, hfree⟩⟩

theorem PlaceInv.moved (inv : PlaceInv t.host.tree t.fileAt t.fresh files t.opened)
    {next : FileTree Attrs} {fromDir toDir : HostPath} {fromName toName : Name} {node : Node Attrs}
    (moved : FileTree.Moved t.host.tree next (fromDir ++ [fromName]) (toDir ++ [toName]) node)
    (idle : t.Idle (fromDir ++ [fromName])) :
    PlaceInv next
      (fun path => t.fileAt (origin (fromDir ++ [fromName]) (toDir ++ [toName]) path)) t.fresh
      files t.opened where
  numbered := fun path number hsome hfile =>
    inv.numbered _ number (origin_moved moved hsome).1 hfile
  openedNumbered := inv.openedNumbered
  injective := by
    intro one two hone htwo hfile
    obtain ⟨hsone, hcone⟩ := origin_moved moved hone
    obtain ⟨hstwo, hctwo⟩ := origin_moved moved htwo
    have hsame := inv.injective _ _ hsone hstwo hfile
    rcases hcone with ⟨heq, _, houtside⟩ | ⟨below, rfl, heq⟩
    · rcases hctwo with ⟨heqtwo, _, _⟩ | ⟨belowtwo, rfl, heqtwo⟩
      · rwa [heq, heqtwo] at hsame
      · rw [heq, heqtwo] at hsame
        exact absurd (hsame ▸ List.prefix_append ..) houtside
    · rcases hctwo with ⟨heqtwo, _, houtside⟩ | ⟨belowtwo, rfl, heqtwo⟩
      · rw [heq, heqtwo] at hsame
        exact absurd (hsame ▸ List.prefix_append ..) houtside
      · rw [heq, heqtwo] at hsame
        rw [List.append_cancel_left hsame]
  keyed := by
    intro id state record path hstate hrecord hsome hfile
    obtain ⟨hsold, hcase⟩ := origin_moved moved hsome
    rcases hcase with ⟨heq, _, _⟩ | ⟨below, _, heq⟩
    · rw [heq] at hfile hsold
      exact inv.keyed id state record path hstate hrecord hsold hfile
    · rw [heq] at hfile hsold
      exact absurd hfile (idle id record below hrecord hsold)
  same := inv.same

end Places

section Steps

variable {s next : HostDir} {t : Tracked} {op : HostOp}

theorem addsOne_insert (tree : FileTree Attrs) (dir : HostPath) (name : Name) (node : Node Attrs) :
    AddsOne tree (tree.insertNode (dir ++ [name]) node) := by
  refine ⟨dir ++ [name], ?_⟩
  intro path hsome
  rw [FileTree.insertNode_apply] at hsome
  split at hsome
  · exact Or.inr (by assumption)
  · split at hsome
    · exact Or.inl (by simpa using hsome)
    · exact Or.inl hsome

theorem addsOne_prune (tree : FileTree Attrs) (dir : HostPath) (name : Name) :
    AddsOne tree (tree.prune (dir ++ [name])) :=
  ⟨[], fun path hsome => Or.inl ((FileTree.isSome_prune path).mp hsome).2⟩

theorem addsOne_refl (tree : FileTree Attrs) : AddsOne tree tree :=
  ⟨[], fun _ hsome => Or.inl hsome⟩

theorem addsOne_openFile {tree after : FileTree Attrs} {path file : HostPath}
    {write create truncate : Bool} {attrs : Attrs} (wf : tree.WellFormed)
    (h : tree.openFile path write create truncate attrs = .ok (file, after)) :
    AddsOne tree after := by
  obtain ⟨_, ⟨_, _, dir, name, _, _, rfl⟩ | ⟨_, hrewrites⟩⟩ := FileTree.openFile_ok wf h
  · exact addsOne_insert tree dir name _
  · exact ⟨[], fun path hsome => Or.inl (by rwa [hrewrites.isSome] at hsome)⟩

/-- All operations but a rename add one node at most. -/
theorem effect_addsOne (effect : HostDir.Effect s op next) (reg : s.Regular)
    (hop : ∀ oldPath newPath, op ≠ .rename oldPath newPath) : AddsOne s.tree next.tree := by
  cases effect with
  | quiet resolved becomes keeps =>
    rw [becomes.tree, resolved.tree]
    exact addsOne_refl s.tree
  | openFile opens =>
    have hresolves := (HostDir.openPath_spec reg opens.resolved).1
    rw [opens.becomes.tree, ← hresolves.tree]
    exact addsOne_openFile (hresolves.regular reg).wellFormed opens.opened
  | createDir resolved made becomes keeps =>
    obtain ⟨dir, name, _, _, _, rfl⟩ := FileTree.mkdir_ok made
    rw [becomes.tree, ← (HostDir.resolveForCreate_spec reg resolved).1.tree]
    exact addsOne_insert _ dir name _
  | deleteDir resolved removed becomes keeps =>
    obtain ⟨dir, name, _, _, _, _, _, rfl⟩ := FileTree.rmdir_ok removed
    rw [becomes.tree, ← (HostDir.resolveExisting_spec reg resolved).1.tree]
    exact addsOne_prune _ dir name
  | delete resolved removed becomes keeps =>
    obtain ⟨dir, name, _, _, _, _, _, rfl⟩ := FileTree.unlink_ok removed
    rw [becomes.tree, ← (HostDir.resolveExisting_spec reg resolved).1.tree]
    exact addsOne_prune _ dir name
  | rename => exact absurd rfl (hop _ _)
  | copy source target copied becomes keeps =>
    have hfirst := (HostDir.resolveExisting_spec reg source).1
    have hresolves := hfirst.trans (HostDir.resolveForCreate_spec (hfirst.regular reg) target).1
    obtain ⟨file, opened, hopen, hrewrites, _⟩ := FileTree.copyFile_ok copied
    obtain ⟨place, hplace⟩ := addsOne_openFile (hresolves.regular reg).wellFormed hopen
    rw [becomes.tree, ← hresolves.tree]
    exact ⟨place, fun path hsome => hplace path (by rwa [hrewrites.isSome] at hsome)⟩
  | close found becomes =>
    rw [becomes.tree]
    exact addsOne_refl s.tree
  | wait ms => exact addsOne_refl s.tree

/-- All operations but an open and a close leave the tables alone. -/
theorem effect_keeps (effect : HostDir.Effect s op next)
    (hopen : ∀ path mode sharing flags attributes,
      op ≠ .openFile path mode sharing flags attributes)
    (hclose : ∀ handle, op ≠ .close handle) : HostDir.Keeps s next := by
  cases effect with
  | quiet resolved becomes keeps => exact keeps
  | openFile => exact absurd rfl (hopen _ _ _ _ _)
  | createDir resolved made becomes keeps => exact keeps
  | deleteDir resolved removed becomes keeps => exact keeps
  | delete resolved removed becomes keeps => exact keeps
  | rename source target moved becomes keeps => exact keeps
  | copy source target copied becomes keeps => exact keeps
  | close => exact absurd rfl (hclose _)
  | wait ms => exact ⟨rfl, rfl, le_refl _⟩

structure Inv (t : Tracked) : Prop where
  regular : t.host.Regular
  ci : t.host.kernelCasefold = false
  noLinks : t.host.tree.NoLinks
  tables : TableInv t.host t.opened
  places : PlaceInv t.host.tree t.fileAt t.fresh t.host.files t.opened

/-- The rest of the invariant for a state that an operation leads to. -/
theorem Inv.of_tables (inv : t.Inv) (op : HostOp) {fileAt : HostPath → FileId} {fresh : Nat}
    {opened : Table Nat OpenRecord} (tables : TableInv (t.host.exec op) opened)
    (places : PlaceInv (t.host.exec op).tree fileAt fresh (t.host.exec op).files opened) :
    Inv ⟨t.host.exec op, fileAt, fresh, opened⟩ := by
  have effect := HostDir.exec_effect inv.regular op
  obtain ⟨hregular, hci⟩ := effect.regular inv.regular
  exact ⟨hregular, hci.trans inv.ci, effect.noLinks inv.regular inv.noLinks, tables, places⟩

theorem Inv.other (inv : t.Inv)
    (hopen : ∀ path mode sharing flags attributes,
      op ≠ .openFile path mode sharing flags attributes)
    (hclose : ∀ handle, op ≠ .close handle)
    (hrename : ∀ oldPath newPath, op ≠ .rename oldPath newPath) :
    Inv ⟨t.host.exec op, t.added (t.host.exec op).tree, t.fresh + 1, t.opened⟩ := by
  have effect := HostDir.exec_effect inv.regular op
  have keeps := effect_keeps effect hopen hclose
  apply inv.of_tables op (inv.tables.keeps keeps)
  rw [keeps.files]
  exact inv.places.added (effect_addsOne effect inv.regular hrename)

/-- Where there are no links, the file an open finds is at the path itself. -/
theorem opens_file (inv : t.Inv) {path : Path} {mode : OpenMode} {sharing : SharingMode}
    {flags : OpenFlags} {mid : HostDir} {place file : HostPath} {action : OpenAction}
    {tree : FileTree Attrs} {write : Bool}
    (opens : HostDir.Opens t.host path mode sharing flags mid next place file action tree write) :
    file = place ∧ (next.tree place).isSome := by
  obtain ⟨hresolves, hinside⟩ := HostDir.openPath_spec inv.regular opens.resolved
  have wf := (hresolves.regular inv.regular).wellFormed
  have nolinks : mid.tree.NoLinks := hresolves.tree ▸ inv.noLinks
  rw [opens.becomes.tree]
  obtain ⟨hwalk, hcase⟩ := FileTree.openFile_ok wf opens.opened
  have hfile := FileTree.walk_plain nolinks (hinside inv.ci _ _ rfl).plain hwalk
  subst hfile
  refine ⟨rfl, ?_⟩
  rcases hcase with ⟨_, _, dir, name, rfl, _, rfl⟩ | ⟨hsome, hrewrites⟩
  · rw [FileTree.insertNode_apply, if_pos rfl]
    rfl
  · rwa [hrewrites.isSome]

theorem Inv.openFile (inv : t.Inv) (path : Path) (mode : OpenMode) (sharing : SharingMode)
    (flags : OpenFlags) (attributes : FileAttribute) :
    (t.exec (.openFile path mode sharing flags attributes)).Inv := by
  have effect := HostDir.exec_effect inv.regular (.openFile path mode sharing flags attributes)
  have hexec : t.host.exec (.openFile path mode sharing flags attributes) =
      (t.host.openFile path mode sharing flags attributes).2 := rfl
  unfold exec
  dsimp only
  cases hresult : t.host.openFile path mode sharing flags attributes with
  | mk result next =>
    rw [hresult] at hexec
    cases result with
    | error e =>
      obtain ⟨mid, hresolves, hbecomes, hkeeps⟩ := HostDir.openFile_error inv.regular hresult
      apply inv.of_tables
      · rw [hexec]
        exact inv.tables.keeps hkeeps
      · rw [hexec, hbecomes.tree, hresolves.tree, hkeeps.files]
        exact inv.places
    | ok found =>
      obtain ⟨handle, action⟩ := found
      obtain ⟨hid, mid, place, file, tree, write, opens⟩ := HostDir.openFile_ok inv.regular hresult
      obtain ⟨rfl, hsome⟩ := opens_file inv opens
      have hadds := effect_addsOne effect inv.regular (by simp)
      rw [hexec] at hadds
      have hstate : next.files handle.id = some ⟨file, file⟩ := by
        rw [opens.files, hid, Table.insert_self]
      apply inv.of_tables
      · rw [hexec, hstate, hid]
        exact inv.tables.opens opens _
      · rw [hexec, hstate, hid, opens.files]
        exact (inv.places.added hadds).insert hsome mode sharing

theorem Inv.close (inv : t.Inv) (handle : VfsFileHandle) : (t.exec (.close handle)).Inv := by
  have hexec : t.host.exec (.close handle) = (t.host.close handle).2 := rfl
  apply inv.of_tables (.close handle)
  · rw [hexec]
    cases hfound : t.host.files handle.id with
    | none =>
      have hclosed : t.opened handle.id = none := by
        have hdomain := inv.tables.domain handle.id
        simpa [hfound] using hdomain
      rw [HostDir.close_missing hfound, Table.erase_none hclosed]
      exact inv.tables
    | some state =>
      obtain ⟨_, files, sharing, nextId⟩ := HostDir.close_found hfound
      exact inv.tables.close hfound files sharing nextId
  · rw [hexec]
    cases hfound : t.host.files handle.id with
    | none =>
      have herased := inv.places.erase handle.id
      rwa [HostDir.close_missing hfound, ← Table.erase_none hfound]
    | some state =>
      obtain ⟨becomes, files, _, _⟩ := HostDir.close_found hfound
      rw [becomes.tree, files]
      exact inv.places.erase handle.id

/-- A rename moves what it is said to move, or nothing. -/
theorem renamed_cases (reg : s.Regular) (oldPath newPath : Path) :
    renamed s oldPath newPath = none ∧ (s.exec (.rename oldPath newPath)).tree = s.tree ∨
      ∃ fromDir fromName toDir toName,
        renamed s oldPath newPath = some (fromDir ++ [fromName], toDir ++ [toName]) ∧
          (toDir ++ [toName] = fromDir ++ [fromName] ∧
              (s.exec (.rename oldPath newPath)).tree = s.tree ∨
            ∃ node, FileTree.Moved s.tree (s.exec (.rename oldPath newPath)).tree
              (fromDir ++ [fromName]) (toDir ++ [toName]) node) := by
  have hexec : s.exec (.rename oldPath newPath) = (s.rename oldPath newPath).2 := rfl
  rw [hexec]
  unfold renamed HostDir.rename
  cases hexisting : s.resolveExisting oldPath with
  | mk found first =>
    have hfirst := (HostDir.resolveExisting_spec reg hexisting).1
    cases found with
    | error e => exact Or.inl ⟨rfl, hfirst.tree⟩
    | ok oldHost =>
      dsimp only
      cases hcreate : first.resolveForCreate newPath with
      | mk target mid =>
        have hsecond := (HostDir.resolveForCreate_spec (hfirst.regular reg) hcreate).1
        have hresolves := hfirst.trans hsecond
        cases target with
        | error e => exact Or.inl ⟨rfl, hresolves.tree⟩
        | ok newHost =>
          dsimp only
          cases hmoved : mid.tree.rename oldHost newHost with
          | error e =>
            refine Or.inl ⟨?_, hresolves.tree⟩
            cases mid.tree.locate oldHost <;> cases mid.tree.locate newHost <;> rfl
          | ok tree =>
            right
            obtain ⟨fromDir, fromName, toDir, toName, hfrom, hto, _, _, hcase⟩ :=
              FileTree.rename_ok hmoved
            have htree := (HostDir.becomes_two mid tree (parent oldHost) (parent newHost)).1.tree
            refine ⟨fromDir, fromName, toDir, toName, by rw [hfrom, hto], ?_⟩
            rw [htree, ← hresolves.tree]
            exact hcase

theorem origin_self (path other : HostPath) : origin path path other = other := by
  unfold origin
  split
  · rename_i hin
    obtain ⟨below, rfl⟩ := hin
    rw [List.drop_left]
  · rfl

theorem Inv.rename (inv : t.Inv) (oldPath newPath : Path)
    (allowed : t.AllowedRename (.rename oldPath newPath)) :
    (t.exec (.rename oldPath newPath)).Inv := by
  have keeps := effect_keeps (HostDir.exec_effect inv.regular (.rename oldPath newPath)) (by simp)
    (by simp)
  have tables := inv.tables.keeps keeps
  unfold exec
  dsimp only
  rcases renamed_cases inv.regular oldPath newPath with
    ⟨hnone, htree⟩ | ⟨fromDir, fromName, toDir, toName, hsome, hcase⟩
  · rw [hnone]
    apply inv.of_tables _ tables
    rw [htree, keeps.files]
    exact inv.places
  · rw [hsome]
    apply inv.of_tables _ tables
    rw [keeps.files]
    rcases hcase with ⟨hsame, htree⟩ | ⟨node, moved⟩
    · rw [hsame, htree]
      simp only [origin_self]
      exact inv.places
    · exact inv.places.moved moved (allowed _ _ hsome)

theorem Inv.exec (inv : t.Inv) (allowed : t.AllowedRename op) : (t.exec op).Inv := by
  cases op with
  | openFile path mode sharing flags attributes =>
      exact inv.openFile path mode sharing flags attributes
  | close handle => exact inv.close handle
  | rename oldPath newPath => exact inv.rename oldPath newPath allowed
  | findFirst => exact inv.other (by simp) (by simp) (by simp)
  | findNext => exact inv.other (by simp) (by simp) (by simp)
  | findClose => exact inv.other (by simp) (by simp) (by simp)
  | createDir => exact inv.other (by simp) (by simp) (by simp)
  | deleteDir => exact inv.other (by simp) (by simp) (by simp)
  | delete => exact inv.other (by simp) (by simp) (by simp)
  | copy => exact inv.other (by simp) (by simp) (by simp)
  | queryPathInfo => exact inv.other (by simp) (by simp) (by simp)
  | toHostPath => exact inv.other (by simp) (by simp) (by simp)
  | wait => exact inv.other (by simp) (by simp) (by simp)

theorem isSharingCompatible_comm (mode other : OpenMode) (sharing more : SharingMode) :
    isSharingCompatible mode sharing other more = isSharingCompatible other more mode sharing := by
  unfold isSharingCompatible
  exact Bool.and_comm _ _

/-- The entry of an open handle is in the list of its path. -/
theorem TableInv.mem {host : HostDir} {opened : Table Nat OpenRecord} (inv : TableInv host opened)
    {id : Nat} {state : OpenFileState} {record : OpenRecord} (hstate : host.files id = some state)
    (hrecord : opened id = some record) :
    SharingEntry.mk id record.mode record.sharing ∈ (host.sharing state.hostPath).getD [] := by
  have hfilter := inv.registered id state.hostPath
  unfold entries at hfilter
  rw [hstate, hrecord] at hfilter
  dsimp only at hfilter
  rw [if_pos rfl] at hfilter
  have hmember : SharingEntry.mk id record.mode record.sharing ∈
      ((host.sharing state.hostPath).getD []).filter (·.handleId == id) := by
    rw [hfilter]
    exact List.mem_singleton_self _
  exact (List.mem_filter.mp hmember).1

theorem Inv.sound (inv : t.Inv) : t.Sound where
  compatible := by
    intro first second one two hne hone htwo hfile
    obtain ⟨state, hstate⟩ := Option.isSome_iff_exists.mp
      ((inv.tables.domain first).symm.trans (by rw [hone]; rfl))
    obtain ⟨other, hother⟩ := Option.isSome_iff_exists.mp
      ((inv.tables.domain second).symm.trans (by rw [htwo]; rfl))
    have hpath := inv.places.same first second one two state other hone htwo hstate hother hfile
    have hfirst := inv.tables.mem hstate hone
    have hsecond := inv.tables.mem hother htwo
    rw [← hpath] at hsecond
    have symmetric : Std.Symm fun left right : SharingEntry =>
        isSharingCompatible left.mode left.sharing right.mode right.sharing = true :=
      ⟨fun left right h => (isSharingCompatible_comm ..).trans h⟩
    exact (inv.tables.pairwise state.hostPath).forall hfirst hsecond (by simp [hne])
  registered := inv.tables.registered
  refused := by
    intro path mode sharing flags attributes next h
    obtain ⟨mid, hresolves, hbecomes, hkeeps⟩ := HostDir.openFile_error inv.regular h
    exact ⟨hkeeps.files, hkeeps.sharing, hbecomes.tree.trans hresolves.tree⟩

theorem new_inv {root : HostPath} {tree : FileTree Attrs} (attrs : Attrs)
    (plain : FileTree.Plain root)
    (wf : tree.WellFormed) (nolinks : tree.NoLinks) :
    (new (HostDir.new root false tree attrs)).Inv where
  regular := HostDir.new_regular false attrs plain wf
  ci := rfl
  noLinks := nolinks
  tables := by
    refine ⟨?_, fun id => rfl, fun id path => rfl, fun path => List.Pairwise.nil⟩
    intro id hid
    cases hid
  places := by
    refine ⟨?_, ?_, ?_, ?_, ?_⟩
    · intro path number _ hfile
      cases hfile
    · intro id record number hrecord
      cases hrecord
    · intro one two _ _ hfile
      exact FileId.initial.inj hfile
    · intro id state record path hstate
      cases hstate
    · intro first second one two state other hone
      cases hone

/-- A run that renames only what is not open keeps the sharing table's promise. -/
theorem allowed_sharing_sound {root : HostPath} {tree : FileTree Attrs} {attrs : Attrs}
    {ops : List HostOp} {last : Tracked} (plain : FileTree.Plain root) (wf : tree.WellFormed)
    (nolinks : tree.NoLinks)
    (run : Run (step.guarded AllowedRename) (new (HostDir.new root false tree attrs)) ops last) :
    last.Sound := by
  apply Inv.sound
  refine run.invariant Inv ?_ (new_inv attrs plain wf nolinks)
  rintro t op _ inv ⟨allowed, rfl⟩
  exact inv.exec allowed

theorem run_exec (t : Tracked) (ops : List HostOp) : Run step t ops (ops.foldl exec t) := by
  induction ops generalizing t with
  | nil => exact .nil t
  | cons op rest ih => exact .cons rfl (ih (t.exec op))

/-- An open for reading and writing that denies what `sharing` says. -/
def openShared (path : String) (sharing : SharingMode) : HostOp :=
  .openFile path.toList .readWrite sharing ⟨.open, .create⟩ ⟨0⟩

/-- A directory is renamed while nothing is open, and a file opened in it. -/
theorem allowed_sharing_sound_renamed :
    ([.createDir "D".toList, .rename "D".toList "E".toList,
      openShared "E/A" .denyReadWrite].foldl exec (new HostDir.emptyVolume)).Sound := by
  have run : Run (step.guarded AllowedRename) (new HostDir.emptyVolume)
      [.createDir "D".toList, .rename "D".toList "E".toList, openShared "E/A" .denyReadWrite]
      ([.createDir "D".toList, .rename "D".toList "E".toList,
        openShared "E/A" .denyReadWrite].foldl exec (new HostDir.emptyVolume)) := by
    refine .cons ⟨trivial, rfl⟩ (.cons ⟨?_, rfl⟩ (.cons ⟨trivial, rfl⟩ (.nil _)))
    intro source target _ id record below hrecord
    cases hrecord
  exact allowed_sharing_sound HostDir.emptyVolume_root HostDir.emptyHost_wellFormed
    HostDir.emptyHost_noLinks run

/-- A file that is renamed while it is open can be opened again against its sharing mode. -/
theorem renamed_file_shared :
    ¬ ∀ (root : HostPath) (tree : FileTree Attrs) (attrs : Attrs) (ops : List HostOp)
      (last : Tracked), FileTree.Plain root → tree.WellFormed → tree.NoLinks →
        Run step (new (HostDir.new root false tree attrs)) ops last → last.Sound := by
  intro h
  have hsound := h _ _ _ _ _ HostDir.emptyVolume_root HostDir.emptyHost_wellFormed
    HostDir.emptyHost_noLinks (run_exec (new HostDir.emptyVolume)
      [openShared "A" .denyReadWrite, .rename "A".toList "B".toList, openShared "B" .denyNone])
  have hcompatible := hsound.compatible 1 2 ⟨.made 0, .readWrite, .denyReadWrite⟩
    ⟨.made 0, .readWrite, .denyNone⟩ (by decide) (by decide) (by decide) rfl
  exact absurd hcompatible (by decide)

end Steps

end Tracked
end Warpine.Vfs
