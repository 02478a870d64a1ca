import Warpine.Vfs.HostRun

/-! The walk of a relative path. It is a stack of listed names over the root: `..` takes
the last one away and finds the floor there. -/
namespace Warpine.Vfs
open Warpine.Lib Posix

namespace HostDir

def resolvePathCaseInsensitiveCached (s : HostDir) (relPath : Path) :
    Option HostPath × HostDir :=
  if relPath = [] then (some s.root, s)
  else s.resolveComponents s.root (relPath.splitOn '/')

/-- A name in the listing of a directory, the one on the host or the one that a lookup
goes by. -/
def Listed (s : HostDir) (dir : HostPath) (name : Name) : Prop :=
  (∃ names, s.tree.readDir dir = some names ∧ name ∈ names) ∨
    s.view dir (lowerName name) = some name

/-- Names that lead down from the root, each listed where it stands. -/
inductive Below (s : HostDir) : List Name → Prop where
  | root : Below s []
  | name {names : List Name} {last : Name} (above : Below s names)
      (listed : s.Listed (s.root ++ names) last) : Below s (names ++ [last])

/-- One name for each component that is not empty, equal to it up to case. -/
def Spelled (components names : List Name) : Prop :=
  List.Forall₂ (fun component name => lowerName name = lowerName component)
    (components.filter (· ≠ [])) names

/-- What the walk makes of a path. -/
structure Walked (s : HostDir) (relPath : Path) (place : HostPath) (names : List Name) :
    Prop where
  place : place = s.root ++ names
  below : s.Below names
  spelled : (∀ component ∈ relPath.splitOn '/', component ≠ dot ∧ component ≠ dotDot) →
    Spelled (relPath.splitOn '/') names

/-- Every listing in the cache was read from some directory. -/
def Filed (s : HostDir) : Prop :=
  ∀ dir entry, s.dirCache dir = some entry → ∃ names, entry.names = listedNames names

variable {s mid next : HostDir}

section Listings

theorem Resolves.filed (h : Resolves s next) (filed : s.Filed) : next.Filed := by
  intro dir entry hentry
  rcases h.fresh dir entry hentry with hold | ⟨_, names, _, rfl⟩
  · exact filed dir entry hold
  · exact ⟨names, rfl⟩

theorem Effect.filed {op : HostOp} (effect : Effect s op next) (reg : s.Regular)
    (filed : s.Filed) : next.Filed := by
  rcases effect.becomes reg with ⟨mid, tree, dropped, resolved, becomes⟩ | ⟨ms, rfl⟩
  · intro dir entry hentry
    rw [becomes.cache] at hentry
    exact resolved.filed filed dir entry (dirCache_dropped hentry).1
  · exact filed

/-- A lookup finds a name under its lower-case form, and never a dot name. -/
theorem view_name (reg : s.Regular) (filed : s.Filed) {dir : HostPath} {key name : Name}
    (h : s.view dir key = some name) : lowerName name = key ∧ name ≠ dot ∧ name ≠ dotDot := by
  cases hkept : (s.dirCache dir).filter fun entry => s.now - entry.created < dirCacheTtlMs with
  | some entry =>
    simp only [view, hkept] at h
    obtain ⟨hentry, _⟩ := Option.filter_eq_some_iff.mp hkept
    obtain ⟨names, hnames⟩ := filed dir entry hentry
    refine ⟨?_, (reg.clean dir entry hentry).2 key name h⟩
    rw [hnames] at h
    exact (listedNames_eq_some h).2
  | none =>
    simp only [view, hkept, listing] at h
    cases hread : s.tree.readDir dir with
    | none => simp [hread, Table.empty] at h
    | some names =>
      rw [hread] at h
      obtain ⟨hmember, hkey⟩ := listedNames_eq_some h
      obtain ⟨place, _, hplace⟩ := readDir_eq_some hread
      have wf := reg.wellFormed
      exact ⟨hkey, wf.plain place name ((wf.listed place names hplace name).mp hmember)⟩

theorem Listed.plain (reg : s.Regular) (filed : s.Filed) {dir : HostPath} {name : Name}
    (listed : s.Listed dir name) : name ≠ dot ∧ name ≠ dotDot := by
  rcases listed with ⟨names, hread, hmember⟩ | hview
  · obtain ⟨place, _, hplace⟩ := readDir_eq_some hread
    have wf := reg.wellFormed
    exact wf.plain place name ((wf.listed place names hplace name).mp hmember)
  · exact (view_name reg filed hview).2

theorem Below.plain (reg : s.Regular) (filed : s.Filed) {names : List Name}
    (below : s.Below names) : FileTree.Plain (s.root ++ names) := by
  induction below with
  | root => simpa using reg.rootPlain
  | name above listed ih =>
    rw [← List.append_assoc]
    exact plain_snoc.mpr ⟨ih, listed.plain reg filed⟩

/-- Where a component is found, its name is listed and spelled as the component is. -/
theorem found_listed (reg : s.Regular) (filed : s.Filed) {dir : HostPath}
    {component resolved : Name} (plain : component ≠ dot ∧ component ≠ dotDot)
    (h : (if s.tree.present (dir ++ [component]) then some component
      else s.view dir (lowerName component)) = some resolved) :
    s.Listed dir resolved ∧ lowerName resolved = lowerName component := by
  split at h
  · rename_i hpresent
    cases h
    exact ⟨Or.inl (FileTree.present_snoc reg.wellFormed plain hpresent), rfl⟩
  · have hkey := (view_name reg filed h).1
    rw [← hkey] at h
    exact ⟨Or.inr h, hkey⟩

end Listings

section Walk

/-- The walk stays below the root, whatever the components are. -/
theorem componentsBy_below (reg : s.Regular) (filed : s.Filed) {components names : List Name}
    (below : s.Below names) {place : HostPath}
    (h : componentsBy s.tree s.root s.view (s.root ++ names) components = some place) :
    ∃ last, place = s.root ++ last ∧ s.Below last := by
  induction components generalizing names with
  | nil =>
    cases h
    exact ⟨names, rfl, below⟩
  | cons component rest ih =>
    unfold componentsBy at h
    split at h
    · exact ih below h
    · rename_i hskip
      split at h
      · split at h
        · exact ih below h
        · rename_i hroot
          cases below with
          | root => simp at hroot
          | @name names last above listed =>
            have plain := (above.name listed).plain reg filed
            rw [← List.append_assoc] at h plain
            rw [parent, normal_plain plain, if_neg (by simp), List.dropLast_concat] at h
            exact ih above h
      · rename_i hdotDot
        obtain ⟨resolved, hfound, hrest⟩ := Option.bind_eq_some_iff.mp h
        have listed := (found_listed reg filed ⟨fun hdot => hskip (Or.inr hdot), hdotDot⟩ hfound).1
        rw [List.append_assoc] at hrest
        exact ih (below.name listed) hrest

/-- Without dot names every component goes one name down. -/
theorem componentsBy_spelled (reg : s.Regular) (filed : s.Filed) {components : List Name}
    {dir place : HostPath} (undotted : ∀ component ∈ components,
      component ≠ dot ∧ component ≠ dotDot)
    (h : componentsBy s.tree s.root s.view dir components = some place) :
    ∃ names, place = dir ++ names ∧ Spelled components names := by
  induction components generalizing dir with
  | nil =>
    cases h
    exact ⟨[], by simp, .nil⟩
  | cons component rest ih =>
    have plain := undotted component List.mem_cons_self
    have others : ∀ component ∈ rest, component ≠ dot ∧ component ≠ dotDot :=
      fun other hmember => undotted other (List.mem_cons_of_mem _ hmember)
    unfold componentsBy at h
    by_cases hempty : component = []
    · rw [if_pos (Or.inl hempty)] at h
      obtain ⟨names, hplace, spelled⟩ := ih others h
      refine ⟨names, hplace, ?_⟩
      rw [Spelled, List.filter_cons_of_neg (by simp [hempty])]
      exact spelled
    · rw [if_neg (by simp [hempty, plain.1]), if_neg plain.2] at h
      obtain ⟨resolved, hfound, hrest⟩ := Option.bind_eq_some_iff.mp h
      obtain ⟨names, hplace, spelled⟩ := ih others hrest
      refine ⟨resolved :: names, by rw [hplace, List.append_assoc, List.singleton_append], ?_⟩
      rw [Spelled, List.filter_cons_of_pos (by simpa using hempty)]
      exact .cons (found_listed reg filed plain hfound).2 spelled

/-- A walk goes on from where its front has led, with the cache that this has left. -/
theorem resolveComponents_append (front rest : List Name) (s : HostDir) (current : HostPath) :
    s.resolveComponents current (front ++ rest) =
      match s.resolveComponents current front with
      | (none, after) => (none, after)
      | (some place, after) => after.resolveComponents place rest := by
  induction front generalizing s current with
  | nil => rfl
  | cons component front ih =>
    rw [List.cons_append, resolveComponents, resolveComponents]
    split
    · exact ih s current
    · split
      · split
        · exact ih s current
        · cases parent current with
          | none => rfl
          | some up => exact ih s up
      · split
        · rfl
        · exact ih _ _

/-- At the root `..` is as good as nothing. -/
theorem resolveComponents_floor (s : HostDir) (rest : List Name) :
    s.resolveComponents s.root (dotDot :: rest) = s.resolveComponents s.root ([] :: rest) := by
  rw [resolveComponents, resolveComponents]
  simp [dot, dotDot]

theorem resolvePath_components (s : HostDir) (relPath : Path) :
    s.resolvePathCaseInsensitiveCached relPath =
      s.resolveComponents s.root (relPath.splitOn '/') := by
  unfold resolvePathCaseInsensitiveCached
  split
  · rename_i hempty
    rw [hempty]
    simp [resolveComponents]
  · rfl

theorem walked (reg : s.Regular) (filed : s.Filed) {relPath : Path} {place : HostPath}
    (h : (s.resolvePathCaseInsensitiveCached relPath).1 = some place) :
    ∃ names, s.Walked relPath place names := by
  have inside : Inside s.root s.root := ⟨reg.rootPlain, List.prefix_refl _⟩
  rw [resolvePath_components, resolveComponents_view _ s reg.wellFormed reg.clean inside] at h
  have below := componentsBy_below reg filed .root (by rwa [List.append_nil])
  obtain ⟨names, hplace, hbelow⟩ := below
  refine ⟨names, hplace, hbelow, ?_⟩
  intro undotted
  obtain ⟨others, hothers, spelled⟩ := componentsBy_spelled reg filed undotted h
  rw [hplace] at hothers
  rwa [List.append_cancel_left hothers]

/-- Whatever was done before, a walk ends at or below the root with names of the listings,
and a `..` that finds the root may as well be left out. -/
theorem run_walked {root : HostPath} {kernelCasefold : Bool} {tree : FileTree Attrs}
    {attrs : Attrs} {ops : List HostOp} (plain : FileTree.Plain root) (wf : tree.WellFormed)
    (run : Run step (HostDir.new root kernelCasefold tree attrs) ops s) (relPath : Path) :
    s.root = root ∧
      (∀ place, (s.resolvePathCaseInsensitiveCached relPath).1 = some place →
        ∃ names, s.Walked relPath place names) ∧
      ∀ front rest shorter, relPath.splitOn '/' = front ++ dotDot :: rest →
        shorter.splitOn '/' = front ++ [] :: rest →
        (s.resolveComponents s.root front).1 = some s.root →
        s.resolvePathCaseInsensitiveCached relPath =
          s.resolvePathCaseInsensitiveCached shorter := by
  have ready : s.Regular ∧ s.Filed ∧ s.root = root := by
    have filed : (HostDir.new root kernelCasefold tree attrs).Filed := by
      intro dir entry hentry
      cases hentry
    refine run.invariant (fun s => s.Regular ∧ s.Filed ∧ s.root = root) ?_
      ⟨new_regular kernelCasefold attrs plain wf, filed, rfl⟩
    rintro start op finish ⟨reg, filed, hroot⟩ rfl
    have effect := exec_effect reg op
    exact ⟨(effect.regular reg).1, effect.filed reg filed, (effect.root reg).trans hroot⟩
  obtain ⟨reg, filed, hroot⟩ := ready
  refine ⟨hroot, fun place => walked reg filed, ?_⟩
  intro front rest shorter hlong hshort hfront
  rw [resolvePath_components, resolvePath_components, hlong, hshort, resolveComponents_append,
    resolveComponents_append]
  have inside : Inside s.root s.root := ⟨reg.rootPlain, List.prefix_refl _⟩
  have same := (resolveComponents_spec front s reg.wellFormed reg.clean inside).1.root
  cases hwalk : s.resolveComponents s.root front with
  | mk found after =>
    rw [hwalk] at hfront same
    cases hfront
    dsimp only at same ⊢
    rw [← same]
    exact resolveComponents_floor after rest

/-- On the empty volume a directory is made, and then named in lower case past the root. -/
theorem run_walked_made :
    let s := [HostOp.createDir "Foo".toList].foldl exec emptyVolume
    (s.resolvePathCaseInsensitiveCached "../foo".toList).1 = some ["c".toList, "Foo".toList] ∧
      ∃ names, s.Walked "../foo".toList ["c".toList, "Foo".toList] names := by
  intro s
  have found : (s.resolvePathCaseInsensitiveCached "../foo".toList).1 =
      some ["c".toList, "Foo".toList] := by decide +kernel
  refine ⟨found, ?_⟩
  exact (run_walked emptyVolume_root emptyHost_wellFormed (run_exec emptyVolume _)
    "../foo".toList).2.1 _ found

end Walk

end HostDir
end Warpine.Vfs
