import Warpine.Lib.FileOps
import Warpine.Vfs.HostDir

/-! Resolving paths on a host directory. It leaves nothing behind but listings in
the cache, each read where the walk passed, and it stays under the root. -/
namespace Warpine.Vfs
open Warpine.Lib Posix

namespace HostDir

/-- Names that a listing holds, and none that it does not. -/
theorem listedNames_eq_some {entries : List Name} {key name : Name}
    (h : listedNames entries key = some name) : name ∈ entries ∧ lowerName name = key := by
  induction entries using List.reverseRecOn with
  | nil => cases h
  | append_singleton entries last ih =>
    unfold listedNames at h ih
    rw [List.foldl_concat] at h
    rcases Table.insert_eq_some.mp h with ⟨rfl, rfl⟩ | ⟨_, hold⟩
    · simp
    · obtain ⟨hmember, hkey⟩ := ih hold
      exact ⟨List.mem_append_left _ hmember, hkey⟩

theorem listedNames_eq_none {entries : List Name} {key : Name}
    (h : listedNames entries key = none) : ∀ name ∈ entries, lowerName name ≠ key := by
  induction entries using List.reverseRecOn with
  | nil => simp
  | append_singleton entries last ih =>
    unfold listedNames at h ih
    rw [List.foldl_concat] at h
    by_cases hkey : key = lowerName last
    · rw [hkey, Table.insert_self] at h
      cases h
    · rw [Table.insert_ne _ _ hkey] at h
      intro name hmember
      rcases List.mem_append.mp hmember with hold | hlast
      · exact ih h name hold
      · rw [List.mem_singleton.mp hlast]
        exact Ne.symm hkey

theorem readDir_eq_some {tree : FileTree Attrs} {dir : HostPath} {names : List Name}
    (h : tree.readDir dir = some names) :
    ∃ place, tree.resolve dir = .ok place ∧ tree.names place = some names := by
  unfold FileTree.readDir FileTree.lookup FileTree.canonicalize at h
  cases hresolve : tree.resolve dir with
  | error e =>
    rw [hresolve] at h
    cases h
  | ok place =>
    rw [hresolve] at h
    exact ⟨place, rfl, h⟩

/-- The cache is keyed by paths without dot names, and lists no dot names. -/
def Clean (s : HostDir) : Prop :=
  ∀ dir entry, s.dirCache dir = some entry →
    FileTree.Plain dir ∧ ∀ key name, entry.names key = some name → name ≠ dot ∧ name ≠ dotDot

def Live (s : HostDir) (entry : DirCacheEntry) : Prop := s.now - entry.created < dirCacheTtlMs

/-- What a fresh listing of a directory would put into the cache. -/
def listing (tree : FileTree Attrs) (dir : HostPath) : Table Name Name :=
  ((tree.readDir dir).map listedNames).getD .empty

/-- The names that a lookup in a directory goes by. -/
def view (s : HostDir) (dir : HostPath) : Table Name Name :=
  match (s.dirCache dir).filter fun entry => s.now - entry.created < dirCacheTtlMs with
  | some entry => entry.names
  | none => listing s.tree dir

/-- What resolving a path may change. -/
structure Resolves (s next : HostDir) : Prop where
  same : next = { s with dirCache := next.dirCache }
  fresh : ∀ dir entry, next.dirCache dir = some entry → s.dirCache dir = some entry ∨
    FileTree.Plain dir ∧ ∃ names, s.tree.readDir dir = some names ∧
      entry = ⟨listedNames names, s.now⟩
  kept : ∀ dir entry, s.dirCache dir = some entry → s.Live entry → next.dirCache dir = some entry

variable {s mid next : HostDir}

theorem Resolves.refl (s : HostDir) : Resolves s s :=
  ⟨rfl, fun _ _ h => Or.inl h, fun _ _ h _ => h⟩

theorem Resolves.tree (h : Resolves s next) : next.tree = s.tree := by rw [h.same]
theorem Resolves.root (h : Resolves s next) : next.root = s.root := by rw [h.same]
theorem Resolves.now (h : Resolves s next) : next.now = s.now := by rw [h.same]
theorem Resolves.casefold (h : Resolves s next) : next.kernelCasefold = s.kernelCasefold := by
  rw [h.same]

theorem Resolves.trans {last : HostDir} (first : Resolves s next) (second : Resolves next last) :
    Resolves s last where
  same := by
    rw [second.same, first.same]
  fresh := by
    intro dir entry hentry
    rcases second.fresh dir entry hentry with hold | hnew
    · exact first.fresh dir entry hold
    · rw [first.tree, first.now] at hnew
      exact Or.inr hnew
  kept := by
    intro dir entry hentry hlive
    apply second.kept dir entry (first.kept dir entry hentry hlive)
    rwa [Live, first.now]

theorem view_live {dir : HostPath} {entry : DirCacheEntry} (hentry : s.dirCache dir = some entry)
    (hlive : s.Live entry) : s.view dir = entry.names := by
  have hfilter : (s.dirCache dir).filter
      (fun entry => s.now - entry.created < dirCacheTtlMs) = some entry := by
    rw [hentry, Option.filter_some, if_pos (by simpa [Live] using hlive)]
  rw [view, hfilter]

theorem view_stale {dir : HostPath} (h : ∀ entry, s.dirCache dir = some entry → ¬ s.Live entry) :
    s.view dir = listing s.tree dir := by
  unfold view
  split
  · rename_i entry hentry
    obtain ⟨hentry, hlive⟩ := Option.filter_eq_some_iff.mp hentry
    exact absurd (by simpa [Live] using hlive) (h entry hentry)
  · rfl

theorem view_current {dir : HostPath} (current : ∀ entry, s.dirCache dir = some entry →
    s.Live entry → entry.names = listing s.tree dir) : s.view dir = listing s.tree dir := by
  by_cases hlisted : ∃ entry, s.dirCache dir = some entry ∧ s.Live entry
  · obtain ⟨entry, hentry, hlive⟩ := hlisted
    rw [view_live hentry hlive, current entry hentry hlive]
  · exact view_stale fun entry hentry hlive => hlisted ⟨entry, hentry, hlive⟩

/-- Resolving a path changes no later lookup. -/
theorem Resolves.view (h : Resolves s next) (dir : HostPath) : next.view dir = s.view dir := by
  by_cases hold : ∃ entry, s.dirCache dir = some entry ∧ s.Live entry
  · obtain ⟨entry, hentry, hlive⟩ := hold
    have hkept := h.kept dir entry hentry hlive
    rw [view_live hentry hlive, view_live hkept (by rwa [Live, h.now])]
  · have hnone : ∀ entry, s.dirCache dir = some entry → ¬ s.Live entry :=
      fun entry hentry hlive => hold ⟨entry, hentry, hlive⟩
    rw [view_stale hnone]
    by_cases hnew : ∃ entry, next.dirCache dir = some entry ∧ next.Live entry
    · obtain ⟨entry, hentry, hlive⟩ := hnew
      rw [view_live hentry hlive]
      rcases h.fresh dir entry hentry with hsame | ⟨_, names, hnames, rfl⟩
      · exact absurd (by rwa [Live, h.now] at hlive) (hnone entry hsame)
      · simp [listing, hnames]
    · rw [view_stale fun entry hentry hlive => hnew ⟨entry, hentry, hlive⟩, h.tree]

theorem Resolves.clean (h : Resolves s next) (wf : s.tree.WellFormed) (clean : s.Clean) :
    next.Clean := by
  intro dir entry hentry
  rcases h.fresh dir entry hentry with hold | ⟨hplain, names, hnames, rfl⟩
  · exact clean dir entry hold
  · refine ⟨hplain, ?_⟩
    intro key name hname
    obtain ⟨place, _, hplace⟩ := readDir_eq_some hnames
    have hmember := (listedNames_eq_some hname).1
    exact wf.plain place name ((wf.listed place names hplace name).mp hmember)

theorem plain_snoc {dir : HostPath} {name : Name} :
    FileTree.Plain (dir ++ [name]) ↔ FileTree.Plain dir ∧ name ≠ dot ∧ name ≠ dotDot := by
  simp only [FileTree.Plain, List.mem_append, List.mem_singleton, not_or]
  constructor
  · rintro ⟨⟨hdir, hdot⟩, hdir', hdotDot⟩
    exact ⟨⟨hdir, hdir'⟩, Ne.symm hdot, Ne.symm hdotDot⟩
  · rintro ⟨⟨hdir, hdir'⟩, hdot, hdotDot⟩
    exact ⟨⟨hdir, Ne.symm hdot⟩, hdir', Ne.symm hdotDot⟩

theorem normal_plain {path : HostPath} (h : FileTree.Plain path) : normal path = path := by
  apply List.filter_eq_self.mpr
  intro name hname
  have hne : name ≠ dot := by
    rintro rfl
    exact h.1 hname
  simpa using hne

/-- The directory above a path without dot names. -/
theorem parent_plain {path up : HostPath} (h : FileTree.Plain path)
    (hparent : parent path = some up) :
    up = path.dropLast ∧ path ≠ [] ∧ FileTree.Plain up := by
  unfold parent at hparent
  rw [normal_plain h] at hparent
  split at hparent
  · cases hparent
  · rename_i hne
    cases hparent
    refine ⟨rfl, hne, ?_⟩
    exact ⟨fun hmem => h.1 (List.mem_of_mem_dropLast hmem),
      fun hmem => h.2 (List.mem_of_mem_dropLast hmem)⟩

/-- A path under the volume's root, without dot names. -/
structure Inside (root place : HostPath) : Prop where
  plain : FileTree.Plain place
  under : root <+: place

theorem Inside.up {root place up : HostPath} (inside : Inside root place) (hne : place ≠ root)
    (hup : parent place = some up) : Inside root up := by
  obtain ⟨rfl, hnil, hplain⟩ := parent_plain inside.plain hup
  refine ⟨hplain, ?_⟩
  have hunder := inside.under
  rw [← List.dropLast_append_getLast hnil, List.prefix_concat_iff,
    List.dropLast_append_getLast hnil] at hunder
  exact hunder.resolve_left (Ne.symm hne)

theorem Inside.snoc {root dir : HostPath} {name : Name} (inside : Inside root dir)
    (hname : name ≠ dot ∧ name ≠ dotDot) : Inside root (dir ++ [name]) where
  plain := plain_snoc.mpr ⟨inside.plain, hname⟩
  under := inside.under.trans (List.prefix_append ..)

theorem cacheLookup_spec (s : HostDir) {dir : HostPath} (component : Name)
    (wf : s.tree.WellFormed) (clean : s.Clean) (plain : FileTree.Plain dir) :
    Resolves s (s.cacheLookup dir component).2 ∧ ∀ name,
      (s.cacheLookup dir component).1 = some name → name ≠ dot ∧ name ≠ dotDot := by
  unfold cacheLookup
  split
  · rename_i entry hentry
    obtain ⟨hentry, _⟩ := Option.filter_eq_some_iff.mp hentry
    exact ⟨Resolves.refl s, fun name hname => (clean dir entry hentry).2 component name hname⟩
  · rename_i hexpired
    rw [Option.filter_eq_none_iff] at hexpired
    split
    · exact ⟨Resolves.refl s, by simp⟩
    · rename_i names hnames
      have hresolves : Resolves s
          { s with dirCache := s.dirCache.insert dir ⟨listedNames names, s.now⟩ } := by
        refine ⟨rfl, ?_, ?_⟩
        · intro other entry hentry
          rcases Table.insert_eq_some.mp hentry with ⟨rfl, rfl⟩ | ⟨_, hold⟩
          · exact Or.inr ⟨plain, names, hnames, rfl⟩
          · exact Or.inl hold
        · intro other entry hentry hlive
          by_cases hother : other = dir
          · subst hother
            exact absurd hlive (by simpa [Live] using hexpired entry hentry)
          · exact Table.insert_eq_some.mpr (Or.inr ⟨hother, hentry⟩)
      refine ⟨hresolves, ?_⟩
      intro name hname
      have hclean := hresolves.clean wf clean
      exact (hclean dir _ (Table.insert_self ..)).2 component name hname

theorem resolveComponent_spec (s : HostDir) {dir : HostPath} {component : Name}
    (wf : s.tree.WellFormed) (clean : s.Clean) (inside : Inside s.root dir)
    (hname : component ≠ dot ∧ component ≠ dotDot) :
    Resolves s (s.resolveComponent dir component).2 ∧ ∀ name,
      (s.resolveComponent dir component).1 = some name → Inside s.root (dir ++ [name]) := by
  unfold resolveComponent
  split
  · refine ⟨Resolves.refl s, ?_⟩
    intro name hsome
    cases hsome
    exact inside.snoc hname
  · obtain ⟨hresolves, hplain⟩ := cacheLookup_spec s (lowerName component) wf clean inside.plain
    exact ⟨hresolves, fun name hsome => inside.snoc (hplain name hsome)⟩

/-- A walk that starts under the root ends there. -/
theorem resolveComponents_spec (components : List Name) (s : HostDir) {current : HostPath}
    (wf : s.tree.WellFormed) (clean : s.Clean) (inside : Inside s.root current) :
    Resolves s (s.resolveComponents current components).2 ∧ ∀ place,
      (s.resolveComponents current components).1 = some place → Inside s.root place := by
  induction components generalizing s current with
  | nil =>
    refine ⟨Resolves.refl s, ?_⟩
    intro place hplace
    cases hplace
    exact inside
  | cons component rest ih =>
    unfold resolveComponents
    split
    · exact ih s wf clean inside
    · rename_i hskip
      split
      · split
        · exact ih s wf clean inside
        · rename_i hroot
          split
          · exact ⟨Resolves.refl s, by simp⟩
          · rename_i up hup
            exact ih s wf clean (inside.up hroot hup)
      · rename_i hdotDot
        obtain ⟨hresolves, hinside⟩ := resolveComponent_spec s wf clean inside
          ⟨fun hdot => hskip (Or.inr hdot), hdotDot⟩
        split
        · rename_i next hfound
          rw [hfound] at hresolves
          exact ⟨hresolves, by simp⟩
        · rename_i resolved next hfound
          rw [hfound] at hresolves hinside
          obtain ⟨hrest, hend⟩ := ih next (hresolves.tree ▸ wf) (hresolves.clean wf clean)
            (hresolves.root ▸ hinside resolved rfl)
          exact ⟨hresolves.trans hrest, hresolves.root ▸ hend⟩

/-- The walk of a path, where names that are not there are looked up in `look`. -/
def componentsBy (tree : FileTree Attrs) (root : HostPath) (look : HostPath → Table Name Name) :
    HostPath → List Name → Option HostPath
  | current, [] => some current
  | current, component :: rest =>
      if component = [] ∨ component = dot then componentsBy tree root look current rest
      else if component = dotDot then
        if current = root then componentsBy tree root look current rest
        else (parent current).bind fun up => componentsBy tree root look up rest
      else
        let found := if tree.present (current ++ [component]) then some component
          else look current (lowerName component)
        found.bind fun resolved => componentsBy tree root look (current ++ [resolved]) rest

theorem cacheLookup_view (s : HostDir) (dir : HostPath) (component : Name) :
    (s.cacheLookup dir component).1 = s.view dir component := by
  unfold cacheLookup
  split
  · rename_i entry hentry
    simp only [view, hentry]
  · rename_i hnone
    simp only [view, hnone, listing]
    cases s.tree.readDir dir <;> rfl

theorem resolveComponent_view (s : HostDir) (dir : HostPath) (component : Name) :
    (s.resolveComponent dir component).1 =
      if s.tree.present (dir ++ [component]) then some component
      else s.view dir (lowerName component) := by
  unfold resolveComponent
  split
  · rfl
  · exact cacheLookup_view s dir _

/-- All lookups of a walk go by what the cache and the tree are before it. -/
theorem resolveComponents_view (components : List Name) (s : HostDir) {current : HostPath}
    (wf : s.tree.WellFormed) (clean : s.Clean) (inside : Inside s.root current) :
    (s.resolveComponents current components).1 =
      componentsBy s.tree s.root s.view current components := by
  induction components generalizing s current with
  | nil => rfl
  | cons component rest ih =>
    unfold resolveComponents componentsBy
    split
    · exact ih s wf clean inside
    · rename_i hskip
      split
      · split
        · exact ih s wf clean inside
        · rename_i hroot
          cases hup : parent current with
          | none => rfl
          | some up => exact ih s wf clean (inside.up hroot hup)
      · rename_i hdotDot
        obtain ⟨hresolves, hinside⟩ := resolveComponent_spec s wf clean inside
          ⟨fun hdot => hskip (Or.inr hdot), hdotDot⟩
        dsimp only
        rw [← resolveComponent_view]
        split
        · rename_i after hfound
          rw [hfound]
          rfl
        · rename_i resolved after hfound
          rw [hfound] at hresolves hinside ⊢
          have hrest := ih after (hresolves.tree ▸ wf) (hresolves.clean wf clean)
            (hresolves.root ▸ hinside resolved rfl)
          rw [hresolves.tree, hresolves.root, funext hresolves.view] at hrest
          exact hrest

/-- What resolving relies on. -/
structure Regular (s : HostDir) : Prop where
  wellFormed : s.tree.WellFormed
  clean : s.Clean
  rootPlain : FileTree.Plain s.root

theorem Resolves.regular (h : Resolves s next) (reg : s.Regular) : next.Regular where
  wellFormed := h.tree ▸ reg.wellFormed
  clean := h.clean reg.wellFormed reg.clean
  rootPlain := h.root ▸ reg.rootPlain

theorem map_eq_ok {α β : Type} {result : VfsResult α} {f : α → β} {b : β}
    (h : result.map f = .ok b) : ∃ a, result = .ok a ∧ f a = b := by
  cases result with
  | error e => cases h
  | ok a =>
    cases h
    exact ⟨a, rfl, rfl⟩

theorem resolveCi_spec (reg : s.Regular) {relPath : Path} {result : Option HostPath}
    (h : s.resolveCi relPath = (result, mid)) :
    Resolves s mid ∧ (s.kernelCasefold = false → ∀ place, result = some place →
      Inside s.root place) := by
  obtain rfl : (s.resolveCi relPath).1 = result := by rw [h]
  obtain rfl : (s.resolveCi relPath).2 = mid := by rw [h]
  unfold resolveCi
  split
  · rename_i hfold
    exact ⟨Resolves.refl s, by simp [hfold]⟩
  · obtain ⟨hresolves, hinside⟩ := resolveComponents_spec (relPath.splitOn '/') s reg.wellFormed
      reg.clean ⟨reg.rootPlain, List.prefix_refl _⟩
    exact ⟨hresolves, fun _ => hinside⟩

theorem resolveCi_view (reg : s.Regular) (ci : s.kernelCasefold = false) (relPath : Path) :
    (s.resolveCi relPath).1 =
      componentsBy s.tree s.root s.view s.root (relPath.splitOn '/') := by
  rw [resolveCi, if_neg (by simp [ci])]
  exact resolveComponents_view _ s reg.wellFormed reg.clean ⟨reg.rootPlain, List.prefix_refl _⟩

theorem resolveExisting_spec (reg : s.Regular) {relPath : Path} {result : VfsResult HostPath}
    (h : s.resolveExisting relPath = (result, mid)) :
    Resolves s mid ∧ (s.kernelCasefold = false → ∀ place, result = .ok place →
      Inside s.root place) := by
  unfold resolveExisting at h
  split at h
  · rename_i next hfound
    cases h
    exact ⟨(resolveCi_spec reg hfound).1, by simp⟩
  · rename_i resolved next hfound
    cases h
    obtain ⟨hresolves, hinside⟩ := resolveCi_spec reg hfound
    refine ⟨hresolves, ?_⟩
    intro ci place hplace
    obtain ⟨_, _, hsame⟩ := map_eq_ok hplace
    exact hsame ▸ hinside ci resolved rfl

theorem splitLast_last (path : Path) : '/' ∉ (splitLast path).2 := by
  unfold splitLast
  intro hmember
  have hall := List.all_eq_true.mp (@List.all_takeWhile _ (· ≠ '/') path.reverse) '/'
    (List.mem_reverse.mp hmember)
  simp at hall

/-- A name joined to a path stands at its end, unless it is empty. -/
theorem join_name {dir : HostPath} {name : Path} (h : '/' ∉ name) :
    join dir name = if name = [] then dir else dir ++ [name] := by
  have hhead : name.head? ≠ some '/' := fun hhead => h (List.mem_of_mem_head? hhead)
  have hlast : name.getLast? ≠ some '/' := fun hlast => h (List.mem_of_mem_getLast? hlast)
  unfold join components
  rw [if_neg hhead, List.splitOn_eq_singleton h]
  by_cases hnil : name = []
  · simp [hnil]
  · simp [hnil, hlast]

/-- The last name of a path is the last of its components. -/
theorem splitOn_splitLast (path : Path) :
    path.splitOn '/' =
      (if (splitLast path).1 = [] ∧ '/' ∉ path then [] else (splitLast path).1.splitOn '/') ++
        [(splitLast path).2] := by
  have hparts : path = (path.reverse.dropWhile (· ≠ '/')).reverse ++ (splitLast path).2 := by
    have hreverse := congrArg List.reverse
      (@List.takeWhile_append_dropWhile _ (fun c : Char => decide (c ≠ '/')) path.reverse)
    rw [List.reverse_append, List.reverse_reverse] at hreverse
    exact hreverse.symm
  have hfirst : (splitLast path).1 =
      path.take (path.length - (splitLast path).2.length - 1) := rfl
  cases hfront : path.reverse.dropWhile (· ≠ '/') with
  | nil =>
    rw [hfront, List.reverse_nil, List.nil_append] at hparts
    have hnone : '/' ∉ path := fun h => splitLast_last path (hparts ▸ h)
    rw [← hparts] at hfirst ⊢
    rw [if_pos ⟨by simp [hfirst], hnone⟩, List.nil_append]
    exact List.splitOn_eq_singleton hnone
  | cons sep front =>
    have hsep : sep = '/' := by
      have hhead := @List.head?_dropWhile_not _ (fun c : Char => decide (c ≠ '/')) path.reverse
      rw [hfront] at hhead
      simpa using hhead
    subst hsep
    rw [hfront, List.reverse_cons, List.append_assoc, List.singleton_append] at hparts
    have hdir : (splitLast path).1 = front.reverse := by
      have hlength := congrArg List.length hparts
      rw [List.length_append, List.length_cons] at hlength
      rw [hfirst, show path.length - (splitLast path).2.length - 1 = front.reverse.length by omega]
      nth_rewrite 1 [hparts]
      exact List.take_left
    rw [hdir, if_neg (fun h => h.2 (by rw [hparts]; simp))]
    nth_rewrite 1 [hparts]
    rw [List.splitOn, List.splitOnP_append_cons _ _ (by simp), ← List.splitOn, ← List.splitOn,
      List.splitOn_eq_singleton (splitLast_last path)]

theorem componentsBy_append {tree : FileTree Attrs} {root : HostPath}
    {look : HostPath → Table Name Name} (front rest : List Name) (current : HostPath) :
    componentsBy tree root look current (front ++ rest) =
      (componentsBy tree root look current front).bind fun place =>
        componentsBy tree root look place rest := by
  induction front generalizing current with
  | nil => rfl
  | cons component front ih =>
    rw [List.cons_append, componentsBy, componentsBy]
    split
    · exact ih current
    · split
      · split
        · exact ih current
        · cases hup : parent current with
          | none => rfl
          | some up => exact ih up
      · dsimp only
        split
        · exact ih _
        · cases hlook : look current (lowerName component) with
          | none => rfl
          | some resolved => exact ih _

/-- Where the last name of a path is not found, it is not there and not looked up. -/
theorem componentsBy_last {tree : FileTree Attrs} {root dir : HostPath}
    {look : HostPath → Table Name Name} {name : Name} (inside : Inside root dir)
    (h : componentsBy tree root look dir [name] = none) :
    name ≠ [] ∧ (name ≠ dot ∧ name ≠ dotDot) ∧ look dir (lowerName name) = none := by
  rw [componentsBy] at h
  split at h
  · cases h
  · rename_i hskip
    obtain ⟨hnil, hdot⟩ := not_or.mp hskip
    split at h
    · split at h
      · cases h
      · rename_i hroot
        cases hup : parent dir with
        | some up => simp [hup, componentsBy] at h
        | none =>
          have hempty : dir = [] := by
            unfold parent at hup
            rw [normal_plain inside.plain] at hup
            split at hup
            · assumption
            · cases hup
          rw [hempty] at hroot inside
          exact absurd (List.prefix_nil.mp inside.under).symm hroot
    · rename_i hdotDot
      refine ⟨hnil, ⟨hdot, hdotDot⟩, ?_⟩
      dsimp only at h
      split at h
      · simp [componentsBy] at h
      · cases hlook : look dir (lowerName name) with
        | none => rfl
        | some resolved => simp [hlook, componentsBy] at h

/-- The directory of a path and where the walk to it ends. -/
def parentOf (s : HostDir) (relPath : Path) : Option HostPath × HostDir :=
  if (splitLast relPath).1 = [] then (some s.root, s) else s.resolveCi (splitLast relPath).1

theorem parentOf_spec (reg : s.Regular) {relPath : Path} {resolved : Option HostPath}
    (h : s.parentOf relPath = (resolved, mid)) :
    Resolves s mid ∧ (s.kernelCasefold = false → ∀ dir, resolved = some dir →
      Inside s.root dir) := by
  unfold parentOf at h
  split at h
  · cases h
    refine ⟨Resolves.refl s, ?_⟩
    intro _ dir hdir
    cases hdir
    exact ⟨reg.rootPlain, List.prefix_refl _⟩
  · exact resolveCi_spec reg h

theorem resolveForCreate_eq (relPath : Path) :
    s.resolveForCreate relPath =
      if relPath = [] then (.error .pathNotFound, s)
      else if 254 < utf8Len (splitLast relPath).2 then (.error .filenameExcedRange, s)
      else match s.parentOf relPath with
        | (none, next) => (.error .pathNotFound, next)
        | (some dir, next) =>
            if ¬ next.tree.isDir dir then (.error .pathNotFound, next)
            else
              let full := join dir (splitLast relPath).2
              ((next.enforceSandbox full).map fun _ => full, next) := by
  unfold resolveForCreate parentOf
  dsimp only
  split
  · rfl
  · split
    · rfl
    · cases hfound : (if (splitLast relPath).1 = [] then (some s.root, s)
        else s.resolveCi (splitLast relPath).1) with
      | mk resolved next => cases resolved <;> rfl

/-- What a successful resolution for a new name has found. -/
theorem resolveForCreate_ok {relPath : Path} {host : HostPath}
    (h : s.resolveForCreate relPath = (.ok host, mid)) :
    ∃ dir, s.parentOf relPath = (some dir, mid) ∧ mid.tree.isDir dir = true ∧
      mid.enforceSandbox host = .ok () ∧
        host = if (splitLast relPath).2 = [] then dir else dir ++ [(splitLast relPath).2] := by
  rw [resolveForCreate_eq] at h
  split at h
  · cases h
  · split at h
    · cases h
    · split at h
      · cases h
      · rename_i dir next hparent
        split at h
        · cases h
        · rename_i hdir
          obtain ⟨hresult, rfl⟩ := Prod.mk.inj h
          obtain ⟨_, hsandbox, rfl⟩ := map_eq_ok hresult
          refine ⟨dir, hparent, by simpa using hdir, hsandbox, ?_⟩
          exact join_name (splitLast_last relPath)

theorem resolveForCreate_resolves (reg : s.Regular) {relPath : Path} {result : VfsResult HostPath}
    (h : s.resolveForCreate relPath = (result, mid)) : Resolves s mid := by
  rw [resolveForCreate_eq] at h
  split at h
  · cases h
    exact Resolves.refl s
  · split at h
    · cases h
      exact Resolves.refl s
    · split at h
      · rename_i next hparent
        cases h
        exact (parentOf_spec reg hparent).1
      · rename_i dir next hparent
        split at h
        · cases h
          exact (parentOf_spec reg hparent).1
        · cases h
          exact (parentOf_spec reg hparent).1

/-- A path that a new name can be put at, in a directory that is there. -/
def Target (s : HostDir) (host : HostPath) : Prop :=
  ∃ dir, Inside s.root dir ∧ s.tree.isDir dir = true ∧ (host = dir ∨ ∃ name, host = dir ++ [name])

theorem resolveForCreate_spec (reg : s.Regular) {relPath : Path} {result : VfsResult HostPath}
    (h : s.resolveForCreate relPath = (result, mid)) :
    Resolves s mid ∧ (s.kernelCasefold = false → ∀ host, result = .ok host →
      Target mid host) := by
  refine ⟨resolveForCreate_resolves reg h, ?_⟩
  intro ci host hhost
  rw [hhost] at h
  obtain ⟨dir, hparent, hdir, _, hplace⟩ := resolveForCreate_ok h
  obtain ⟨hresolves, hinside⟩ := parentOf_spec reg hparent
  refine ⟨dir, hresolves.root ▸ hinside ci dir rfl, hdir, ?_⟩
  split at hplace
  · exact Or.inl hplace
  · exact Or.inr ⟨_, hplace⟩

/-- A path that an open will create a file at: no name in its directory, as the
cache has it, is equal to the file's up to case. -/
theorem created_unlisted (reg : s.Regular) (ci : s.kernelCasefold = false) {path : Path}
    {flags : OpenFlags} {host : HostPath}
    (h : s.openPath path flags = (.ok (host, .created), mid)) :
    ∃ dir name, host = dir ++ [name] ∧ Inside s.root host ∧ mid.tree.isDir dir = true ∧
      mid.view dir (lowerName name) = none := by
  unfold openPath at h
  split at h
  · split at h
    · obtain ⟨hresult, _⟩ := Prod.mk.inj h
      obtain ⟨_, _, hpair⟩ := map_eq_ok hresult
      cases hpair
    · obtain ⟨hresult, _⟩ := Prod.mk.inj h
      obtain ⟨_, _, hpair⟩ := map_eq_ok hresult
      cases hpair
    · cases h
  · rename_i next hnone
    split at h
    · cases hcreated : next.resolveForCreate path with
      | mk created after =>
        rw [hcreated] at h
        obtain ⟨hresult, rfl⟩ := Prod.mk.inj h
        obtain ⟨host, hhost, hpair⟩ := map_eq_ok hresult
        cases hpair
        rw [hhost] at hcreated
        obtain ⟨dir, hparent, hdir, _, hplace⟩ := resolveForCreate_ok hcreated
        have hfirst := (resolveCi_spec reg hnone).1
        have hci := hfirst.casefold.trans ci
        obtain ⟨hsecond, hinside⟩ := parentOf_spec (hfirst.regular reg) hparent
        have inside : Inside s.root dir := hfirst.root ▸ hinside hci dir rfl
        have hfront : componentsBy s.tree s.root s.view s.root
            (if (splitLast path).1 = [] ∧ '/' ∉ path then [] else (splitLast path).1.splitOn '/') =
              some dir := by
          unfold parentOf at hparent
          split at hparent
          · rename_i hnil
            obtain ⟨hroot, _⟩ := Prod.mk.inj hparent
            rw [hnil, ← hroot, hfirst.root]
            split <;> simp [componentsBy]
          · rename_i hnil
            rw [if_neg (fun h => hnil h.1)]
            have hwalk := resolveCi_view (hfirst.regular reg) hci (splitLast path).1
            rw [hparent, hfirst.tree, hfirst.root, funext hfirst.view] at hwalk
            exact hwalk.symm
        have hlast : componentsBy s.tree s.root s.view dir [(splitLast path).2] = none := by
          have hwalk := resolveCi_view reg ci path
          rw [hnone, splitOn_splitLast, componentsBy_append, hfront] at hwalk
          exact hwalk.symm
        obtain ⟨hnil, hplain, hlook⟩ := componentsBy_last inside hlast
        rw [if_neg hnil] at hplace
        refine ⟨dir, (splitLast path).2, hplace, hplace ▸ inside.snoc hplain, hdir, ?_⟩
        rw [hsecond.view, hfirst.view]
        exact hlook
    · cases h

theorem openPath_spec (reg : s.Regular) {path : Path} {flags : OpenFlags}
    {result : VfsResult (HostPath × OpenAction)} (h : s.openPath path flags = (result, mid)) :
    Resolves s mid ∧ (s.kernelCasefold = false → ∀ host action, result = .ok (host, action) →
      Inside s.root host) := by
  have hopen := h
  unfold openPath at h
  split at h
  · rename_i existing next hfound
    obtain ⟨hresolves, hinside⟩ := resolveCi_spec reg hfound
    obtain ⟨rfl, hsame⟩ : next = mid ∧ ∀ host action, result = .ok (host, action) →
        existing = host := by
      split at h
      all_goals cases h
      · refine ⟨rfl, fun host action hok => ?_⟩
        obtain ⟨_, _, hpair⟩ := map_eq_ok hok
        exact congrArg Prod.fst hpair
      · refine ⟨rfl, fun host action hok => ?_⟩
        obtain ⟨_, _, hpair⟩ := map_eq_ok hok
        exact congrArg Prod.fst hpair
      · exact ⟨rfl, by simp⟩
    exact ⟨hresolves, fun ci host action hok => hsame host action hok ▸ hinside ci existing rfl⟩
  · rename_i next hfound
    have hresolves := (resolveCi_spec reg hfound).1
    split at h
    · cases hcreated : next.resolveForCreate path with
      | mk created after =>
        rw [hcreated] at h
        cases h
        have hcreate := (resolveForCreate_spec (hresolves.regular reg) hcreated).1
        refine ⟨hresolves.trans hcreate, ?_⟩
        intro ci host action hok
        obtain ⟨place, hplace, hpair⟩ := map_eq_ok hok
        cases hpair
        rw [hplace] at hopen
        obtain ⟨_, _, _, hinside, _⟩ := created_unlisted reg ci hopen
        exact hinside
    · cases h
      exact ⟨hresolves, by simp⟩

end HostDir
end Warpine.Vfs
