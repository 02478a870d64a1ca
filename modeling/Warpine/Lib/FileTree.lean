import Mathlib.Data.List.Infix
import Warpine.Lib.Posix

/-! Well-formed file trees: every node stands in a directory that lists it. All
operations keep them so, and where there is no link a path without dot names
leads nowhere but to itself. -/
namespace Warpine.Lib.Posix

variable {α : Type}

/-- A directory's entries edited; other nodes stay. -/
def Node.relist (edit : List Name → List Name) (node : Node α) : Node α :=
  match node.kind with
  | .dir entries => { node with kind := .dir (edit entries) }
  | _ => node

def Node.entries (node : Node α) : Option (List Name) :=
  match node.kind with
  | .dir entries => some entries
  | _ => none

@[simp] theorem Node.entries_relist (edit : List Name → List Name) (node : Node α) :
    (node.relist edit).entries = node.entries.map edit := by
  obtain ⟨kind, attrs⟩ := node
  cases kind <;> rfl

/-- What of a node a walk looks at. -/
def Kind.shape : Kind → Kind
  | .dir _ => .dir []
  | .file _ => .file []
  | .link target => .link target

theorem Node.shape_relist (edit : List Name → List Name) (node : Node α) :
    (node.relist edit).kind.shape = node.kind.shape := by
  obtain ⟨kind, attrs⟩ := node
  cases kind <;> rfl

theorem Node.isDir_iff {node : Node α} : node.isDir = true ↔ node.entries.isSome := by
  obtain ⟨kind, attrs⟩ := node
  cases kind <;> simp [isDir, entries]

namespace FileTree

variable {tree : FileTree α}

theorem names_eq (path : HostPath) : tree.names path = (tree path).bind Node.entries := rfl

/-- Every node but the top one stands in a directory that lists it, under a
name that is no dot name. -/
structure Formed (tree : FileTree α) : Prop where
  inside : ∀ dir name, (tree (dir ++ [name])).isSome → (tree.names dir).isSome
  listed : ∀ dir entries, tree.names dir = some entries →
    ∀ name, name ∈ entries ↔ (tree (dir ++ [name])).isSome
  plain : ∀ dir name, (tree (dir ++ [name])).isSome → name ≠ dot ∧ name ≠ dotDot

structure WellFormed (tree : FileTree α) : Prop extends Formed tree where
  root : (tree.names []).isSome

def NoLinks (tree : FileTree α) : Prop :=
  ∀ path node, tree path = some node → ∀ target, node.kind ≠ .link target

def Plain (path : HostPath) : Prop := dot ∉ path ∧ dotDot ∉ path

section Edits

variable {dir : HostPath} {name : Name}

theorem insertNode_apply (node : Node α) (other : HostPath) :
    tree.insertNode (dir ++ [name]) node other =
      if other = dir ++ [name] then some node
      else if other = dir then
        (tree other).map (Node.relist fun entries => entries.filter (· ≠ name) ++ [name])
      else tree other := by
  simp [insertNode]
  rfl

theorem prune_apply (other : HostPath) :
    tree.prune (dir ++ [name]) other =
      if dir ++ [name] <+: other then none
      else if other = dir then
        (tree other).map (Node.relist fun entries => entries.filter (· ≠ name))
      else tree other := by
  simp [prune]
  rfl

theorem graft_apply (branch : FileTree α) (other : HostPath) :
    tree.graft (dir ++ [name]) branch other =
      if dir ++ [name] <+: other then branch (other.drop (dir ++ [name]).length)
      else if other = dir then
        (tree other).map (Node.relist fun entries => entries.filter (· ≠ name) ++ [name])
      else tree other := by
  simp [graft]
  rfl

theorem isSome_of_names {path : HostPath} (h : (tree.names path).isSome) : (tree path).isSome := by
  rw [names_eq] at h
  cases hnode : tree path with
  | none => simp [hnode] at h
  | some node => rfl

theorem names_prune (other : HostPath) :
    (tree.prune (dir ++ [name])).names other =
      if dir ++ [name] <+: other then none
      else if other = dir then
        (tree.names other).map fun entries => entries.filter (· ≠ name)
      else tree.names other := by
  rw [names_eq, prune_apply, names_eq]
  split
  · rfl
  · split
    · cases tree other <;> simp
    · rfl

theorem names_graft (branch : FileTree α) (other : HostPath) :
    (tree.graft (dir ++ [name]) branch).names other =
      if dir ++ [name] <+: other then branch.names (other.drop (dir ++ [name]).length)
      else if other = dir then
        (tree.names other).map fun entries => entries.filter (· ≠ name) ++ [name]
      else tree.names other := by
  rw [names_eq, graft_apply, names_eq, names_eq]
  split
  · rfl
  · split
    · cases tree other <;> simp
    · rfl

theorem isSome_prune (other : HostPath) :
    (tree.prune (dir ++ [name]) other).isSome ↔
      ¬ dir ++ [name] <+: other ∧ (tree other).isSome := by
  rw [prune_apply]
  split
  · rename_i hin
    simp [hin]
  · rename_i hout
    simp only [hout, not_false_eq_true, true_and]
    split <;> simp

theorem isSome_graft (branch : FileTree α) (other : HostPath) :
    (tree.graft (dir ++ [name]) branch other).isSome ↔
      if dir ++ [name] <+: other then (branch (other.drop (dir ++ [name]).length)).isSome
      else (tree other).isSome := by
  rw [graft_apply]
  split
  · rfl
  · split <;> simp

/-- A path one name longer lies under another one when it is that or its directory does. -/
theorem isPrefix_snoc {path other : HostPath} {last : Name} :
    path <+: other ++ [last] ↔ path = other ++ [last] ∨ path <+: other := by
  rw [List.prefix_concat_iff]

theorem not_prefix_self : ¬ dir ++ [name] <+: dir := by
  intro h
  have hlength := h.length_le
  rw [List.length_append, List.length_singleton] at hlength
  omega

theorem snoc_inj {first second : HostPath} {left right : Name} :
    first ++ [left] = second ++ [right] ↔ first = second ∧ left = right := by
  simp

theorem Formed.prune (h : tree.Formed) : (tree.prune (dir ++ [name])).Formed where
  inside := by
    intro other last hsome
    obtain ⟨hout, hold⟩ := (isSome_prune _).mp hsome
    have hparent := h.inside other last hold
    have hfree : ¬ dir ++ [name] <+: other := fun hin => hout (isPrefix_snoc.mpr (Or.inr hin))
    rw [names_prune, if_neg hfree]
    split
    · simpa using hparent
    · exact hparent
  listed := by
    intro other entries hentries last
    rw [names_prune] at hentries
    split at hentries
    · cases hentries
    · rename_i hfree
      rw [isSome_prune, isPrefix_snoc, snoc_inj]
      split at hentries
      · rename_i hdir
        subst hdir
        obtain ⟨old, hold, rfl⟩ := Option.map_eq_some_iff.mp hentries
        have hlisted := h.listed other old hold last
        rw [List.mem_filter, hlisted]
        simp only [hfree, or_false, true_and, ne_eq, decide_not, Bool.not_eq_true',
          decide_eq_false_iff_not]
        rw [and_comm, eq_comm]
      · rename_i hdir
        have hlisted := h.listed other entries hentries last
        rw [hlisted]
        simp [hfree, Ne.symm hdir]
  plain := fun other last hsome => h.plain other last ((isSome_prune _).mp hsome).2

theorem WellFormed.prune (h : tree.WellFormed) : (tree.prune (dir ++ [name])).WellFormed where
  toFormed := h.toFormed.prune
  root := by
    have hroot := h.root
    rw [names_prune, if_neg (by simp)]
    split
    · simpa using hroot
    · exact hroot

/-- Grafting a formed tree with a top node into a directory. -/
theorem Formed.graft {branch : FileTree α} (h : tree.Formed) (hbranch : branch.Formed)
    (htop : (branch []).isSome) (hdir : (tree.names dir).isSome)
    (hname : name ≠ dot ∧ name ≠ dotDot) : (tree.graft (dir ++ [name]) branch).Formed where
  inside := by
    intro other last hsome
    rw [isSome_graft] at hsome
    split at hsome
    · rename_i hin
      rcases isPrefix_snoc.mp hin with hsame | hunder
      · obtain ⟨rfl, rfl⟩ := snoc_inj.mp hsame
        rw [names_graft, if_neg not_prefix_self, if_pos rfl]
        simpa using hdir
      · obtain ⟨below, rfl⟩ := hunder
        rw [List.append_assoc, List.drop_left] at hsome
        rw [names_graft, if_pos (List.prefix_append ..), List.drop_left]
        exact hbranch.inside below last hsome
    · rename_i hout
      have hfree : ¬ dir ++ [name] <+: other := fun hin => hout (isPrefix_snoc.mpr (Or.inr hin))
      have hparent := h.inside other last hsome
      rw [names_graft, if_neg hfree]
      split
      · simpa using hparent
      · exact hparent
  listed := by
    intro other entries hentries last
    rw [names_graft] at hentries
    rw [isSome_graft]
    split at hentries
    · rename_i hunder
      obtain ⟨below, rfl⟩ := hunder
      rw [List.drop_left] at hentries
      rw [if_pos (isPrefix_snoc.mpr (Or.inr (List.prefix_append ..))), List.append_assoc,
        List.drop_left]
      exact hbranch.listed below entries hentries last
    · rename_i hfree
      simp only [isPrefix_snoc, snoc_inj, hfree, or_false]
      split at hentries
      · rename_i hsame
        subst hsame
        obtain ⟨old, hold, rfl⟩ := Option.map_eq_some_iff.mp hentries
        have hlisted := h.listed other old hold last
        by_cases hlast : name = last
        · subst hlast
          simp [htop]
        · simp [hlisted, hlast, Ne.symm hlast]
      · rename_i hother
        rw [h.listed other entries hentries last, if_neg (fun hboth => hother hboth.1.symm)]
  plain := by
    intro other last hsome
    rw [isSome_graft] at hsome
    split at hsome
    · rename_i hin
      rcases isPrefix_snoc.mp hin with hsame | hunder
      · obtain ⟨rfl, rfl⟩ := snoc_inj.mp hsame
        exact hname
      · obtain ⟨below, rfl⟩ := hunder
        rw [List.append_assoc, List.drop_left] at hsome
        exact hbranch.plain below last hsome
    · exact h.plain other last hsome

theorem WellFormed.graft {branch : FileTree α} (h : tree.WellFormed) (hbranch : branch.Formed)
    (htop : (branch []).isSome) (hdir : (tree.names dir).isSome)
    (hname : name ≠ dot ∧ name ≠ dotDot) : (tree.graft (dir ++ [name]) branch).WellFormed where
  toFormed := h.toFormed.graft hbranch htop hdir hname
  root := by
    have hroot := h.root
    rw [names_graft, if_neg (by simp)]
    split
    · simpa using hroot
    · exact hroot

end Edits

/-- Above a node there are directories. -/
theorem Formed.above (h : tree.Formed) {path below : HostPath} (hne : below ≠ [])
    (hsome : (tree (path ++ below)).isSome) : (tree.names path).isSome := by
  induction below using List.reverseRecOn with
  | nil => exact absurd rfl hne
  | append_singleton below name ih =>
    rw [← List.append_assoc] at hsome
    have hparent := h.inside _ _ hsome
    by_cases hnil : below = []
    · simpa [hnil] using hparent
    · exact ih hnil (isSome_of_names hparent)

theorem Formed.none_below (h : tree.Formed) {path : HostPath} (hnone : tree path = none)
    (below : HostPath) : tree (path ++ below) = none := by
  by_cases hnil : below = []
  · simpa [hnil] using hnone
  · by_contra hsome
    have hdir := isSome_of_names (h.above hnil (Option.isSome_iff_ne_none.mpr hsome))
    simp [hnone] at hdir

theorem Formed.branch (h : tree.Formed) (path : HostPath) :
    Formed fun below => tree (path ++ below) where
  inside := by
    intro dir name hsome
    rw [← List.append_assoc] at hsome
    exact h.inside _ name hsome
  listed := by
    intro dir entries hentries name
    rw [← List.append_assoc]
    exact h.listed (path ++ dir) entries hentries name
  plain := by
    intro dir name hsome
    rw [← List.append_assoc] at hsome
    exact h.plain _ name hsome

/-- A tree of one node. -/
def leaf (node : Node α) : FileTree α := fun below => if below = [] then some node else none

theorem formed_leaf {node : Node α} (h : node.entries = none ∨ node.entries = some []) :
    (leaf node).Formed where
  inside := by simp [leaf]
  listed := by
    intro dir entries hentries name
    rw [names_eq] at hentries
    by_cases hdir : dir = []
    · subst hdir
      rcases h with hfile | hempty
      · simp [leaf, hfile] at hentries
      · simp only [leaf, if_true, Option.bind_some, hempty, Option.some.injEq] at hentries
        simp [leaf, ← hentries]
    · simp [leaf, hdir] at hentries
  plain := by simp [leaf]

theorem insertNode_eq_graft (h : tree.Formed) {dir : HostPath} {name : Name}
    (absent : tree (dir ++ [name]) = none) (node : Node α) :
    tree.insertNode (dir ++ [name]) node = tree.graft (dir ++ [name]) (leaf node) := by
  funext other
  rw [insertNode_apply, graft_apply]
  by_cases hin : dir ++ [name] <+: other
  · obtain ⟨below, rfl⟩ := hin
    rw [if_pos (List.prefix_append ..), List.drop_left]
    by_cases hnil : below = []
    · simp [hnil, leaf]
    · have hne : dir ++ [name] ++ below ≠ dir := by
        intro hsame
        have hlength := congrArg List.length hsame
        rw [List.length_append, List.length_append, List.length_singleton] at hlength
        omega
      rw [if_neg (by simpa using hnil), if_neg hne, h.none_below absent]
      simp [leaf, hnil]
  · have hne : other ≠ dir ++ [name] := by
      rintro rfl
      exact hin (List.prefix_refl _)
    rw [if_neg hne, if_neg hin]

/-- Trees with the same names everywhere are formed alike. -/
theorem WellFormed.of_shape {next : FileTree α} (h : tree.WellFormed)
    (names : ∀ path, next.names path = tree.names path)
    (isSome : ∀ path, (next path).isSome = (tree path).isSome) : next.WellFormed where
  inside := by
    intro dir name
    rw [isSome, names]
    exact h.inside dir name
  listed := by
    intro dir entries
    rw [names]
    intro hentries name
    rw [isSome]
    exact h.listed dir entries hentries name
  plain := by
    intro dir name
    rw [isSome]
    exact h.plain dir name
  root := by
    rw [names]
    exact h.root

section Walks

variable {create : Bool} {onLink : HostPath → List Name → Except IoError HostPath}

/-- Where a walk can end: at a node, or, if it may create one, at a free name. -/
def Landing (tree : FileTree α) (create : Bool) (path : HostPath) : Prop :=
  (tree path).isSome ∨ create = true ∧ tree path = none ∧
    ∃ dir name, path = dir ++ [name] ∧ (tree.names dir).isSome ∧ name ≠ dot ∧ name ≠ dotDot

theorem WellFormed.dropLast_dir (h : tree.WellFormed) {path : HostPath}
    (hdir : (tree.names path).isSome) : (tree.names path.dropLast).isSome := by
  cases path using List.reverseRecOn with
  | nil => exact hdir
  | append_singleton dir name =>
    rw [List.dropLast_concat]
    exact h.inside dir name (isSome_of_names hdir)

theorem walkWith_lands (h : tree.WellFormed)
    (links : ∀ current names path, (tree.names current).isSome →
      onLink current names = .ok path → tree.Landing create path) {current path : HostPath}
    {names : List Name} (hdir : (tree.names current).isSome)
    (hwalk : tree.walkWith create onLink current names = .ok path) : tree.Landing create path := by
  induction names generalizing current with
  | nil =>
    cases hwalk
    exact Or.inl (isSome_of_names hdir)
  | cons name rest ih =>
    unfold walkWith at hwalk
    split at hwalk
    · exact ih hdir hwalk
    · rename_i hdot
      split at hwalk
      · exact ih (h.dropLast_dir hdir) hwalk
      · rename_i hdotDot
        split at hwalk
        · rename_i hnone
          split at hwalk
          · rename_i hcreate
            cases hwalk
            exact Or.inr ⟨hcreate.1, hnone, current, name, rfl, hdir, hdot, hdotDot⟩
          · cases hwalk
        · rename_i node hnode
          split at hwalk
          · rename_i entries hkind
            apply ih _ hwalk
            rw [names_eq, hnode]
            simp [Node.entries, hkind]
          · split at hwalk
            · cases hwalk
              exact Or.inl (by simp [hnode])
            · cases hwalk
          · apply links _ _ _ _ hwalk
            split
            · exact h.root
            · exact hdir

theorem walk_lands (h : tree.WellFormed) {links : Nat} {current path : HostPath}
    {names : List Name} (hdir : (tree.names current).isSome)
    (hwalk : tree.walk create links current names = .ok path) : tree.Landing create path := by
  induction links generalizing current names path with
  | zero => exact walkWith_lands h (by simp) hdir hwalk
  | succ links ih => exact walkWith_lands h (fun _ _ _ hdir hlink => ih hdir hlink) hdir hwalk

theorem resolve_present (h : tree.WellFormed) {path place : HostPath}
    (hresolve : tree.resolve path = .ok place) : (tree place).isSome := by
  rcases walk_lands h h.root hresolve with hsome | ⟨hcreate, _⟩
  · exact hsome
  · cases hcreate

theorem canonicalize_eq_some {path place : HostPath} :
    tree.canonicalize path = some place ↔ tree.resolve path = .ok place := by
  unfold canonicalize
  cases tree.resolve path <;> simp [Except.toOption]

theorem Plain.cons {name : Name} {rest : HostPath} (h : Plain (name :: rest)) :
    name ≠ dot ∧ name ≠ dotDot ∧ Plain rest := by
  simp only [Plain, List.mem_cons, not_or] at h ⊢
  exact ⟨Ne.symm h.1.1, Ne.symm h.2.1, h.1.2, h.2.2⟩

/-- Without links a path without dot names leads nowhere else. -/
theorem walkWith_plain (nolinks : tree.NoLinks) {current path : HostPath} {names : List Name}
    (plain : Plain names) (hwalk : tree.walkWith create onLink current names = .ok path) :
    path = current ++ names := by
  induction names generalizing current with
  | nil =>
    cases hwalk
    simp
  | cons name rest ih =>
    obtain ⟨hdot, hdotDot, hrest⟩ := plain.cons
    unfold walkWith at hwalk
    rw [if_neg hdot, if_neg hdotDot] at hwalk
    split at hwalk
    · split at hwalk
      · rename_i hcreate
        cases hwalk
        rw [hcreate.2]
      · cases hwalk
    · rename_i node hnode
      split at hwalk
      · rw [ih hrest hwalk, List.append_assoc, List.singleton_append]
      · split at hwalk
        · rename_i hlast
          cases hwalk
          rw [hlast]
        · cases hwalk
      · rename_i target hkind
        exact absurd hkind (nolinks _ node hnode target)

theorem walkWith_present (h : tree.Formed) (nolinks : tree.NoLinks) {current : HostPath}
    {names : List Name} (plain : Plain names) (hsome : (tree (current ++ names)).isSome) :
    tree.walkWith create onLink current names = .ok (current ++ names) := by
  induction names generalizing current with
  | nil => simp [walkWith]
  | cons name rest ih =>
    obtain ⟨hdot, hdotDot, hrest⟩ := plain.cons
    rw [← List.singleton_append, ← List.append_assoc] at hsome ⊢
    rw [List.singleton_append]
    unfold walkWith
    rw [if_neg hdot, if_neg hdotDot]
    by_cases hlast : rest = []
    · subst hlast
      rw [List.append_nil] at hsome ⊢
      obtain ⟨node, hnode⟩ := Option.isSome_iff_exists.mp hsome
      simp only [hnode, walkWith, if_true]
      split
      · rfl
      · rfl
      · rename_i target hkind
        exact absurd hkind (nolinks _ node hnode target)
    · have hdir := h.above hlast hsome
      obtain ⟨node, hnode⟩ := Option.isSome_iff_exists.mp (isSome_of_names hdir)
      rw [names_eq, hnode, Option.bind_some] at hdir
      simp only [hnode]
      split
      · exact ih hrest hsome
      · rename_i data hkind
        simp [Node.entries, hkind] at hdir
      · rename_i target hkind
        exact absurd hkind (nolinks _ node hnode target)

theorem walkWith_append {onLink' : HostPath → List Name → Except IoError HostPath}
    {current place : HostPath} {front rest : List Name}
    (stay : ∃ left, tree.walkWith create onLink' place rest = tree.walk create left place rest)
    (follow : ∀ start names, onLink start names = .ok place →
      ∃ left, onLink' start (names ++ rest) = tree.walk create left place rest)
    (hwalk : tree.walkWith false onLink current front = .ok place)
    (hdir : (tree.names place).isSome) :
    ∃ left, tree.walkWith create onLink' current (front ++ rest) =
      tree.walk create left place rest := by
  induction front generalizing current with
  | nil =>
    cases hwalk
    exact stay
  | cons name front ih =>
    rw [List.cons_append]
    unfold walkWith at hwalk ⊢
    by_cases hdot : name = dot
    · rw [if_pos hdot] at hwalk ⊢
      exact ih hwalk
    · rw [if_neg hdot] at hwalk ⊢
      by_cases hdotDot : name = dotDot
      · rw [if_pos hdotDot] at hwalk ⊢
        exact ih hwalk
      · rw [if_neg hdotDot] at hwalk ⊢
        cases hnode : tree (current ++ [name]) with
        | none => simp [hnode] at hwalk
        | some node =>
          simp only [hnode] at hwalk ⊢
          cases hkind : node.kind with
          | dir entries =>
            simp only [hkind] at hwalk ⊢
            exact ih hwalk
          | file data =>
            simp only [hkind] at hwalk
            split at hwalk
            · cases hwalk
              rw [names_eq, hnode] at hdir
              simp [Node.entries, hkind] at hdir
            · cases hwalk
          | link target =>
            simp only [hkind] at hwalk ⊢
            rw [← List.append_assoc]
            exact follow _ _ hwalk

/-- The walk of a path is that of its front and, from there, of the rest. -/
theorem walk_append {links : Nat} {current place : HostPath} {front rest : List Name}
    (hwalk : tree.walk false links current front = .ok place)
    (hdir : (tree.names place).isSome) :
    ∃ left, tree.walk create links current (front ++ rest) = tree.walk create left place rest := by
  induction links generalizing current front with
  | zero => exact walkWith_append ⟨0, rfl⟩ (by simp) hwalk hdir
  | succ links ih =>
    exact walkWith_append ⟨links + 1, rfl⟩ (fun _ _ hlink => ih hlink) hwalk hdir

theorem walkWith_front {current place : HostPath} {front rest : List Name}
    (stay : ∀ start, tree.walkWith false onLink start rest = .ok place →
      ∃ left, tree.walk false left start rest = .ok place)
    (follow : ∀ start names, onLink start (names ++ rest) = .ok place →
      ∃ mid left, onLink start names = .ok mid ∧ tree.walk false left mid rest = .ok place)
    (hwalk : tree.walkWith false onLink current (front ++ rest) = .ok place) :
    ∃ mid left, tree.walkWith false onLink current front = .ok mid ∧
      tree.walk false left mid rest = .ok place := by
  induction front generalizing current with
  | nil =>
    obtain ⟨left, hrest⟩ := stay current hwalk
    exact ⟨current, left, rfl, hrest⟩
  | cons name front ih =>
    rw [List.cons_append] at hwalk
    unfold walkWith at hwalk ⊢
    by_cases hdot : name = dot
    · rw [if_pos hdot] at hwalk ⊢
      exact ih hwalk
    · rw [if_neg hdot] at hwalk ⊢
      by_cases hdotDot : name = dotDot
      · rw [if_pos hdotDot] at hwalk ⊢
        exact ih hwalk
      · rw [if_neg hdotDot] at hwalk ⊢
        cases hnode : tree (current ++ [name]) with
        | none => simp [hnode] at hwalk
        | some node =>
          simp only [hnode] at hwalk ⊢
          cases hkind : node.kind with
          | dir entries =>
            simp only [hkind] at hwalk ⊢
            exact ih hwalk
          | file data =>
            simp only [hkind] at hwalk ⊢
            split at hwalk
            · rename_i hnil
              obtain ⟨rfl, rfl⟩ := List.append_eq_nil_iff.mp hnil
              cases hwalk
              exact ⟨current ++ [name], 0, if_pos rfl, rfl⟩
            · cases hwalk
          | link target =>
            simp only [hkind] at hwalk ⊢
            rw [← List.append_assoc] at hwalk
            exact follow _ _ hwalk

/-- A path that leads somewhere leads there through its front. -/
theorem walk_front {links : Nat} {current place : HostPath} {front rest : List Name}
    (hwalk : tree.walk false links current (front ++ rest) = .ok place) :
    ∃ mid left, tree.walk false links current front = .ok mid ∧
      tree.walk false left mid rest = .ok place := by
  induction links generalizing current front with
  | zero => exact walkWith_front (fun _ hrest => ⟨0, hrest⟩) (by simp) hwalk
  | succ links ih =>
    exact walkWith_front (fun _ hrest => ⟨links + 1, hrest⟩) (fun _ _ hlink => ih hlink) hwalk

/-- What a path leads to is an entry of the directory that its front leads to. -/
theorem present_snoc (h : tree.WellFormed) {dir : HostPath} {name : Name}
    (plain : name ≠ dot ∧ name ≠ dotDot) (hpresent : tree.present (dir ++ [name])) :
    ∃ names, tree.readDir dir = some names ∧ name ∈ names := by
  obtain ⟨node, hlookup⟩ := Option.isSome_iff_exists.mp hpresent
  obtain ⟨place, hplace, _⟩ := Option.bind_eq_some_iff.mp hlookup
  obtain ⟨mid, left, hdir, hlast⟩ := walk_front (canonicalize_eq_some.mp hplace)
  have hsome : (tree (mid ++ [name])).isSome := by
    have htried : tree (mid ++ [name]) = none →
        tree.walk false left mid [name] = .error .notFound := by
      intro hnone
      cases left <;> simp [walk, walkWith, plain, hnone]
    cases hnode : tree (mid ++ [name]) with
    | none => simp [htried hnode] at hlast
    | some node => rfl
  obtain ⟨names, hnames⟩ := Option.isSome_iff_exists.mp (h.inside mid name hsome)
  refine ⟨names, ?_, (h.listed mid names hnames name).mpr hsome⟩
  rw [readDir, lookup, canonicalize, resolve, hdir]
  exact hnames

/-- The second path is the first without some of its dots. -/
inductive Undotted : List Name → List Name → Prop where
  | nil : Undotted [] []
  | dot {names short : List Name} : Undotted names short → Undotted (dot :: names) short
  | cons (name : Name) {names short : List Name} :
      Undotted names short → Undotted (name :: names) (name :: short)

theorem Undotted.refl (names : List Name) : Undotted names names := by
  induction names with
  | nil => exact .nil
  | cons name names ih => exact .cons name ih

theorem undotted_normal (names : List Name) : Undotted names (normal names) := by
  induction names with
  | nil => exact .nil
  | cons name names ih =>
    by_cases hdot : name = Posix.dot
    · subst hdot
      exact .dot ih
    · have hkeep : normal (name :: names) = name :: normal names := by simp [normal, hdot]
      rw [hkeep]
      exact .cons name ih

theorem Undotted.append (front : List Name) {names short : List Name} (h : Undotted names short) :
    Undotted (front ++ names) (front ++ short) := by
  induction front with
  | nil => exact h
  | cons name front ih => exact .cons name ih

/-- Nodes stay, up to what directories list. -/
def Extends (tree next : FileTree α) : Prop :=
  ∀ path node, tree path = some node → ∃ edit, next path = some (node.relist edit)

theorem Extends.refl (tree : FileTree α) : Extends tree tree := by
  intro path node hnode
  refine ⟨id, ?_⟩
  rw [hnode]
  obtain ⟨kind, attrs⟩ := node
  cases kind <;> rfl

theorem Extends.insertNode {dir : HostPath} {name : Name} {node : Node α}
    (free : tree (dir ++ [name]) = none) :
    Extends tree (tree.insertNode (dir ++ [name]) node) := by
  intro path old hold
  rw [insertNode_apply]
  split
  · rename_i hsame
    rw [hsame, free] at hold
    cases hold
  · split
    · exact ⟨_, by rw [hold, Option.map_some]⟩
    · exact Extends.refl tree path old hold

/-- Nodes stay, up to what directories list and files hold. -/
def Keeps (tree next : FileTree α) : Prop :=
  ∀ path node, tree path = some node →
    ∃ node', next path = some node' ∧ node'.kind.shape = node.kind.shape

theorem Extends.keeps {next : FileTree α} (extended : Extends tree next) : Keeps tree next := by
  intro path node hnode
  obtain ⟨edit, hnext⟩ := extended path node hnode
  exact ⟨_, hnext, node.shape_relist edit⟩

theorem Keeps.refl (tree : FileTree α) : Keeps tree tree := (Extends.refl tree).keeps

theorem Keeps.trans {middle next : FileTree α} (first : Keeps tree middle)
    (second : Keeps middle next) : Keeps tree next := by
  intro path node hnode
  obtain ⟨node', hmiddle, hsame⟩ := first path node hnode
  obtain ⟨node'', hnext, hsame'⟩ := second path node' hmiddle
  exact ⟨node'', hnext, hsame'.trans hsame⟩

section Transfer

variable {next : FileTree α} {create' : Bool} {place : HostPath}

/-- A walk goes the same way where nodes are added, where dots are left out, and
where it may or may not create its last name, if it need not or still can. -/
theorem walkWith_transfer {onLink' : HostPath → List Name → Except IoError HostPath}
    {current : HostPath} {names short : List Name} (kept : Keeps tree next)
    (added : create = true → tree place = none → create' = true ∧ next place = none ∨
      ∃ node data, next place = some node ∧ node.kind = .file data)
    (follow : ∀ start names short, Undotted names short → onLink start names = .ok place →
      onLink' start short = .ok place)
    (h : Undotted names short) (hwalk : tree.walkWith create onLink current names = .ok place) :
    next.walkWith create' onLink' current short = .ok place := by
  induction h generalizing current with
  | nil => exact hwalk
  | dot _ ih =>
    unfold walkWith at hwalk
    rw [if_pos rfl] at hwalk
    exact ih hwalk
  | @cons name names short hrest ih =>
    unfold walkWith at hwalk ⊢
    by_cases hdot : name = Posix.dot
    · rw [if_pos hdot] at hwalk ⊢
      exact ih hwalk
    · rw [if_neg hdot] at hwalk ⊢
      by_cases hdotDot : name = dotDot
      · rw [if_pos hdotDot] at hwalk ⊢
        exact ih hwalk
      · rw [if_neg hdotDot] at hwalk ⊢
        have hlast : names = [] → short = [] := by
          rintro rfl
          cases hrest
          rfl
        cases hnode : tree (current ++ [name]) with
        | none =>
          simp only [hnode] at hwalk
          split at hwalk
          · rename_i hcreate
            cases hwalk
            rcases added hcreate.1 hnode with ⟨hcreate', hnone⟩ | ⟨node, data, hnext, hkind⟩
            · simp [hnone, hcreate', hlast hcreate.2]
            · simp [hnext, hkind, hlast hcreate.2]
          · cases hwalk
        | some node =>
          obtain ⟨node', hnext, hsame⟩ := kept _ node hnode
          simp only [hnode] at hwalk
          simp only [hnext]
          cases hkind : node.kind with
          | dir entries =>
            cases hkind' : node'.kind with
            | dir entries' =>
              simp only [hkind] at hwalk ⊢
              exact ih hwalk
            | file data | link target => simp [hkind, hkind', Kind.shape] at hsame
          | file data =>
            cases hkind' : node'.kind with
            | file data' =>
              simp only [hkind] at hwalk ⊢
              split at hwalk
              · rename_i hnil
                rw [if_pos (hlast hnil)]
                exact hwalk
              · cases hwalk
            | dir entries | link target => simp [hkind, hkind', Kind.shape] at hsame
          | link target =>
            cases hkind' : node'.kind with
            | link target' =>
              simp only [hkind, hkind', Kind.shape, Kind.link.injEq] at hsame
              simp only [hkind, hsame] at hwalk ⊢
              exact follow _ _ _ (hrest.append _) hwalk
            | dir entries | file data => simp [hkind, hkind', Kind.shape] at hsame

variable {links : Nat} {current : HostPath} {names short : List Name}

theorem walk_transfer (kept : Keeps tree next)
    (added : create = true → tree place = none → create' = true ∧ next place = none ∨
      ∃ node data, next place = some node ∧ node.kind = .file data)
    (h : Undotted names short) (hwalk : tree.walk create links current names = .ok place) :
    next.walk create' links current short = .ok place := by
  induction links generalizing current names short with
  | zero => exact walkWith_transfer kept added (by simp) h hwalk
  | succ links ih =>
    exact walkWith_transfer kept added (fun _ _ _ hsub hlink => ih hsub hlink) h hwalk

/-- A walk that finds its path finds it as well where it may create it. -/
theorem walk_create (hwalk : tree.walk false links current names = .ok place) :
    tree.walk create links current names = .ok place :=
  walk_transfer (Keeps.refl tree) (by simp) (Undotted.refl names) hwalk

/-- A walk that may create its path but finds a node there is one that may not. -/
theorem walk_found (hsome : (tree place).isSome)
    (hwalk : tree.walk create links current names = .ok place) :
    tree.walk false links current names = .ok place :=
  walk_transfer (Keeps.refl tree) (fun _ hnone => by simp [hnone] at hsome)
    (Undotted.refl names) hwalk

/-- What a walk finds is still found where nodes are added. -/
theorem walk_keeps (kept : Keeps tree next)
    (hwalk : tree.walk false links current names = .ok place) :
    next.walk false links current names = .ok place :=
  walk_transfer kept (by simp) (Undotted.refl names) hwalk

theorem walk_extends (extended : Extends tree next)
    (hwalk : tree.walk false links current names = .ok place) :
    next.walk false links current names = .ok place :=
  walk_keeps extended.keeps hwalk

/-- What a walk may create is found where it has been created as a file. -/
theorem walk_made (kept : Keeps tree next) {node : Node α} {data : List UInt8}
    (made : next place = some node) (file : node.kind = .file data)
    (hwalk : tree.walk create links current names = .ok place) :
    next.walk false links current names = .ok place :=
  walk_transfer kept (fun _ _ => Or.inr ⟨node, data, made, file⟩) (Undotted.refl names) hwalk

/-- Dots in a path that resolves can be left out. -/
theorem walk_undotted (h : Undotted names short)
    (hwalk : tree.walk false links current names = .ok place) :
    tree.walk false links current short = .ok place :=
  walk_transfer (Keeps.refl tree) (by simp) h hwalk

end Transfer

end Walks

section Plain

variable {path place : HostPath}

theorem walk_plain {create : Bool} (nolinks : tree.NoLinks) (plain : Plain path)
    (hwalk : tree.walk create maxLinks [] path = .ok place) : place = path := by
  simpa using walkWith_plain nolinks plain hwalk

theorem resolve_plain (h : tree.WellFormed) (nolinks : tree.NoLinks) (plain : Plain path) :
    tree.resolve path = .ok place ↔ place = path ∧ (tree path).isSome := by
  constructor
  · intro hresolve
    have hplace := walk_plain nolinks plain hresolve
    subst hplace
    exact ⟨rfl, resolve_present h hresolve⟩
  · rintro ⟨rfl, hsome⟩
    have hwalk := @walkWith_present _ _ false (tree.walk false 39) h.toFormed nolinks [] place plain
      (by simpa using hsome)
    exact hwalk

theorem lookup_plain (h : tree.WellFormed) (nolinks : tree.NoLinks) (plain : Plain path) :
    tree.lookup path = tree path := by
  unfold lookup canonicalize
  cases hresolve : tree.resolve path with
  | ok place =>
    obtain ⟨rfl, _⟩ := (resolve_plain h nolinks plain).mp hresolve
    rfl
  | error e =>
    cases hnode : tree path with
    | none => rfl
    | some node =>
      have hok := (resolve_plain h nolinks plain).mpr ⟨rfl, by simp [hnode]⟩
      rw [hresolve] at hok
      cases hok

theorem present_plain (h : tree.WellFormed) (nolinks : tree.NoLinks) (plain : Plain path) :
    tree.present path = (tree path).isSome := by
  rw [present, lookup_plain h nolinks plain]

theorem readDir_plain (h : tree.WellFormed) (nolinks : tree.NoLinks) (plain : Plain path) :
    tree.readDir path = tree.names path := by
  rw [readDir, lookup_plain h nolinks plain]
  rfl

theorem isDir_plain (h : tree.WellFormed) (nolinks : tree.NoLinks) (plain : Plain path) :
    tree.isDir path = (tree.names path).isSome := by
  rw [isDir, lookup_plain h nolinks plain, names_eq]
  cases tree path with
  | none => rfl
  | some node =>
    rw [Option.any_some, Option.bind_some, Bool.eq_iff_iff]
    exact Node.isDir_iff

end Plain

end FileTree
end Warpine.Lib.Posix
