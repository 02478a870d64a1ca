import Warpine.Vfs.ExtendedAttrs

/-! Where the two stores of extended attributes agree: which operations leave the
sidecar of a file behind, and which runs never meet them. -/
namespace Warpine.Vfs
open Warpine.Lib Posix

/-- An attribute that both stores can keep. -/
structure Keepable (ea : EaEntry) : Prop where
  named : ea.name ≠ ""
  plain : hasNul ea.name = false
  name : (Utf8.toBytes ea.name).length < 2 ^ 8
  value : ea.value.length < 2 ^ 16

/-- An attribute whose lengths the fields of a sidecar's entry can hold. -/
structure Fits (ea : EaEntry) : Prop where
  name : (Utf8.toBytes ea.name).length < 2 ^ 8
  value : ea.value.length < 2 ^ 16

theorem Keepable.fits {ea : EaEntry} (keepable : Keepable ea) : Fits ea :=
  ⟨keepable.name, keepable.value⟩

section Codec

theorem sidecarEntries_cons {ea : EaEntry} (fits : Fits ea) (fuel : Nat)
    (rest : List UInt8) :
    sidecarEntries (fuel + 1) (encodeEntry ea ++ rest) = ea :: sidecarEntries fuel rest := by
  have hname : (UInt8.ofNat (Utf8.toBytes ea.name).length).toNat =
      (Utf8.toBytes ea.name).length := Utf8.byte_toNat fits.name
  have hvalue : (UInt8.ofNat ea.value.length).toNat +
      256 * (UInt8.ofNat (ea.value.length / 256)).toNat = ea.value.length := by
    have small := fits.value
    rw [UInt8.toNat_ofNat', UInt8.toNat_ofNat']
    omega
  have htail : (Utf8.toBytes ea.name ++ (ea.value ++ rest)).drop
      ((Utf8.toBytes ea.name).length + ea.value.length) = rest := by
    rw [← List.drop_drop, List.drop_left, List.drop_left]
  simp only [encodeEntry, List.cons_append, List.nil_append, List.append_assoc, sidecarEntries,
    hname, hvalue]
  rw [if_neg (by simp), List.take_left, List.drop_left, List.take_left, htail,
    Utf8.fromUtf8Lossy_toBytes]

theorem sidecarEntries_encode {eas : List EaEntry} (fits : ∀ ea ∈ eas, Fits ea)
    {fuel : Nat} (enough : (encodeEntries eas).length ≤ fuel) :
    sidecarEntries fuel (encodeEntries eas) = eas := by
  induction eas generalizing fuel with
  | nil => cases fuel <;> rfl
  | cons ea rest ih =>
    have bytes : 0 < (encodeEntry ea).length := by simp [encodeEntry]
    rw [encodeEntries, List.flatMap_cons, List.length_append] at enough
    obtain ⟨more, rfl⟩ : ∃ more, fuel = more + 1 := ⟨fuel - 1, by omega⟩
    rw [encodeEntries, List.flatMap_cons, sidecarEntries_cons (fits ea List.mem_cons_self)]
    congr 1
    apply ih (fun ea member => fits ea (List.mem_cons_of_mem _ member))
    rw [encodeEntries]
    omega

end Codec

/-- The sidecar of a file. -/
def shelf (dir : HostPath) (name : Name) : HostPath := dir ++ [eaDir, name ++ eaSuffix]

def fileData (tree : FileTree Attrs) (path : HostPath) : Option (List UInt8) :=
  (tree path).bind fun node => match node.kind with
    | .file data => some data
    | _ => none

/-- What the sidecar of a file holds. -/
def stored (tree : FileTree Attrs) (dir : HostPath) (name : Name) : List EaEntry :=
  match fileData tree (shelf dir name) with
  | some data => sidecarEntries data.length data
  | none => []

section Shelves

variable {tree : FileTree Attrs} {dir : HostPath} {name : Name}

theorem eaDir_plain : eaDir ≠ dot ∧ eaDir ≠ dotDot := by decide

theorem suffixed_plain (name : Name) : name ++ eaSuffix ≠ dot ∧ name ++ eaSuffix ≠ dotDot := by
  have long : 2 < (name ++ eaSuffix).length := by simp [eaSuffix]
  constructor <;> intro same <;> rw [same] at long <;> simp [dot, dotDot] at long

theorem suffixed_ne (name : Name) : name ++ eaSuffix ≠ eaDir := by
  intro same
  have third := congrArg (fun text : Name => text.reverse.take 3) same
  have dir : eaDir.reverse.take 3 = ['a', 'e', '2'] := by decide
  have suffix : eaSuffix.reverse = ['a', 'e', '.'] := by decide
  rw [dir, List.reverse_append, suffix] at third
  exact absurd third (by simp)

theorem shelf_plain (plain : FileTree.Plain (dir ++ [name])) : FileTree.Plain (shelf dir name) := by
  have inner := HostDir.plain_snoc.mpr ⟨(HostDir.plain_snoc.mp plain).1, eaDir_plain⟩
  have outer := HostDir.plain_snoc.mpr ⟨inner, suffixed_plain name⟩
  rwa [List.append_assoc] at outer

theorem sidecarEaPath_plain (plain : FileTree.Plain (dir ++ [name])) :
    sidecarEaPath (dir ++ [name]) = some (shelf dir name) := by
  have last : fileName (dir ++ [name]) = some name := by
    rw [fileName, HostDir.normal_plain plain, List.getLast?_concat]
    simp [(HostDir.plain_snoc.mp plain).2.2]
  rw [sidecarEaPath, HostDir.parent_snoc plain, last]
  rfl

theorem sidecarReadEas_plain (wf : tree.WellFormed) (nolinks : tree.NoLinks)
    (plain : FileTree.Plain (dir ++ [name])) :
    sidecarReadEas tree (dir ++ [name]) = stored tree dir name := by
  rw [sidecarReadEas, sidecarEaPath_plain plain, stored, fileData]
  dsimp only
  rw [FileTree.lookup_plain wf nolinks (shelf_plain plain)]
  cases tree (shelf dir name) with
  | none => rfl
  | some node =>
    obtain ⟨kind, attrs⟩ := node
    cases kind <;> rfl

theorem shelf_inj {dir' : HostPath} {name' : Name} (same : shelf dir name = shelf dir' name') :
    dir = dir' ∧ name = name' := by
  have dirs := congrArg (fun path => path.dropLast.dropLast) same
  have names := congrArg List.getLast? same
  simp [shelf] at dirs names
  exact ⟨dirs, names⟩

theorem eaDir_mem_shelf : eaDir ∈ shelf dir name := by simp [shelf]

end Shelves

section Lists

variable {attrs : List (String × List UInt8)} {name other : String} {bytes : List UInt8}

/-- The attributes that the host keeps are such that a sidecar can keep them. -/
def Kept (attrs : List (String × List UInt8)) : Prop :=
  ∀ entry ∈ attrs, ∃ ea, Keepable ea ∧ entry = (ea.name, ea.flags :: ea.value)

theorem xattrGetEa_name {ea : EaEntry} (h : xattrGetEa attrs name = .ok ea) : ea.name = name := by
  unfold xattrGetEa at h
  split at h
  · cases h
  · split at h <;> cases h <;> rfl

theorem xattrGetEa_without (apart : other ≠ name) (last : List (String × List UInt8))
    (ends : ∀ entry ∈ last, entry.1 = name) :
    xattrGetEa (attrs.filter (·.1 ≠ name) ++ last) other = xattrGetEa attrs other := by
  have found : (attrs.filter (·.1 ≠ name) ++ last).find? (·.1 = other) =
      attrs.find? (·.1 = other) := by
    have none : last.find? (·.1 = other) = none := by
      apply List.find?_eq_none.mpr
      intro entry member same
      exact apart ((of_decide_eq_true same).symm.trans (ends entry member))
    rw [List.find?_append, none, Option.or_none, List.find?_filter]
    congr 1
    ext entry
    by_cases same : entry.1 = other
    · simp [same, apart]
    · simp [same]
  unfold xattrGetEa
  rw [found]

theorem xattrListEas_filter (name : String) (last : List (String × List UInt8))
    (ends : ∀ entry ∈ last, entry.1 = name) :
    (attrs.filter (·.1 ≠ name)).filterMap (fun entry =>
        if entry.1 = "" then none
        else (xattrGetEa (attrs.filter (·.1 ≠ name) ++ last) entry.1).toOption) =
      (xattrListEas attrs).filter (·.name ≠ name) := by
  unfold xattrListEas
  rw [List.filterMap_filter, List.filter_filterMap]
  apply List.filterMap_congr
  intro entry _
  have named : ∀ ea, (if entry.1 = "" then none else (xattrGetEa attrs entry.1).toOption) =
      some ea → ea.name = entry.1 := by
    intro ea found
    split at found
    · cases found
    · cases got : xattrGetEa attrs entry.1 with
      | error e => simp [got, Except.toOption] at found
      | ok other =>
        rw [got] at found
        cases found
        exact xattrGetEa_name got
  by_cases same : entry.1 = name
  · rw [if_neg (by simp [same])]
    cases found : (if entry.1 = "" then none else (xattrGetEa attrs entry.1).toOption) with
    | none => rfl
    | some ea => simp [Option.filter, (named ea found).trans same]
  · rw [if_pos (by simp [same]), xattrGetEa_without same last ends]
    cases found : (if entry.1 = "" then none else (xattrGetEa attrs entry.1).toOption) with
    | none => rfl
    | some ea => simp [Option.filter, named ea found, same]

/-- A stored attribute takes the place of any other of its name. -/
theorem xattrListEas_set {ea : EaEntry} (keepable : Keepable ea) :
    xattrListEas (attrs.filter (·.1 ≠ ea.name) ++ [(ea.name, ea.flags :: ea.value)]) =
      (xattrListEas attrs).filter (·.name ≠ ea.name) ++ [ea] := by
  have ends : ∀ entry ∈ [(ea.name, ea.flags :: ea.value)], entry.1 = ea.name := by simp
  have got : xattrGetEa (attrs.filter (·.1 ≠ ea.name) ++ [(ea.name, ea.flags :: ea.value)])
      ea.name = .ok ea := by
    have none : (attrs.filter (·.1 ≠ ea.name)).find? (·.1 = ea.name) = none := by simp
    rw [xattrGetEa, if_neg (by simp [keepable.plain]), List.find?_append, none]
    simp
  rw [← xattrListEas_filter ea.name _ ends, xattrListEas, List.filterMap_append]
  congr 1
  rw [List.filterMap_cons, if_neg keepable.named, got]
  rfl

theorem xattrListEas_remove (name : String) :
    xattrListEas (attrs.filter (·.1 ≠ name)) = (xattrListEas attrs).filter (·.name ≠ name) := by
  have removed := @xattrListEas_filter attrs name [] (by simp)
  rw [List.append_nil] at removed
  exact removed

theorem xattrGetEa_found {ea : EaEntry} (h : xattrGetEa attrs name = .ok ea) :
    ∃ entry ∈ attrs, entry.1 = name := by
  unfold xattrGetEa at h
  split at h
  · cases h
  · split at h
    · cases h
    · rename_i found
      exact ⟨_, List.mem_of_find?_eq_some found, by simpa using List.find?_some found⟩
    · rename_i found
      exact ⟨_, List.mem_of_find?_eq_some found, by simpa using List.find?_some found⟩

theorem mem_xattrListEas {ea : EaEntry} :
    ea ∈ xattrListEas attrs ↔ ea.name ≠ "" ∧ xattrGetEa attrs ea.name = .ok ea := by
  rw [xattrListEas, List.mem_filterMap]
  constructor
  · rintro ⟨entry, _, found⟩
    split at found
    · cases found
    · rename_i named
      cases got : xattrGetEa attrs entry.1 with
      | error e => simp [got, Except.toOption] at found
      | ok other =>
        rw [got] at found
        cases found
        have same := xattrGetEa_name got
        exact ⟨same ▸ named, same ▸ got⟩
  · rintro ⟨named, got⟩
    obtain ⟨entry, member, same⟩ := xattrGetEa_found got
    refine ⟨entry, member, ?_⟩
    rw [same, if_neg named, got]
    rfl

theorem xattrGetEa_kept (kept : Kept attrs) {ea : EaEntry} (h : xattrGetEa attrs name = .ok ea) :
    Keepable ea := by
  have same := xattrGetEa_name h
  unfold xattrGetEa at h
  split at h
  · cases h
  · split at h
    · cases h
    · rename_i found
      obtain ⟨other, _, bytes⟩ := kept _ (List.mem_of_find?_eq_some found)
      cases bytes
    · rename_i found
      obtain ⟨other, keepable, bytes⟩ := kept _ (List.mem_of_find?_eq_some found)
      have there : other.name = name := by
        rw [bytes] at found
        simpa using List.find?_some found
      cases h
      cases bytes
      cases there
      exact keepable

theorem keepable_list (kept : Kept attrs) : ∀ ea ∈ xattrListEas attrs, Keepable ea :=
  fun _ member => xattrGetEa_kept kept (mem_xattrListEas.mp member).2

/-- Looking up one attribute agrees with listing them all. -/
theorem sidecarGetEa_list (kept : Kept attrs) (name : String) :
    (sidecarGetEa (xattrListEas attrs) name).toOption = (xattrGetEa attrs name).toOption := by
  unfold sidecarGetEa
  cases found : (xattrListEas attrs).find? (·.name = name) with
  | some ea =>
    have same : ea.name = name := by simpa using List.find?_some found
    have got := (mem_xattrListEas.mp (List.mem_of_find?_eq_some found)).2
    rw [← same, got]
  | none =>
    cases got : xattrGetEa attrs name with
    | error e => rfl
    | ok ea =>
      have same := xattrGetEa_name got
      have listed : ea ∈ xattrListEas attrs :=
        mem_xattrListEas.mpr ⟨(xattrGetEa_kept kept got).named, same ▸ got⟩
      exact absurd same (by simpa using List.find?_eq_none.mp found ea listed)

theorem Kept.set (kept : Kept attrs) {ea : EaEntry} (keepable : Keepable ea) :
    Kept (attrs.filter (·.1 ≠ ea.name) ++ [(ea.name, ea.flags :: ea.value)]) := by
  intro entry member
  rcases List.mem_append.mp member with old | new
  · exact kept entry (List.mem_of_mem_filter old)
  · exact ⟨ea, keepable, List.mem_singleton.mp new⟩

/-- Setting an attribute does the same to both stores. -/
theorem xattrSetEa_list {refuse : String → List UInt8 → Option Os2Error} (kept : Kept attrs)
    {ea : EaEntry} (storable : ea.value ≠ [] ∨ ea.flags ≠ 0 →
      Keepable ea ∧ refuse ea.name (ea.flags :: ea.value) = none) :
    xattrListEas (xattrSetEa refuse attrs ea).2 = setEntry (xattrListEas attrs) ea ∧
      Kept (xattrSetEa refuse attrs ea).2 := by
  unfold xattrSetEa setEntry
  by_cases stores : ea.value ≠ [] ∨ ea.flags ≠ 0
  · obtain ⟨keepable, taken⟩ := storable stores
    have holds : ¬ (ea.value = [] ∧ ea.flags = 0) := by
      rw [Classical.not_and_iff_not_or_not]
      exact stores
    rw [if_neg (by simp [keepable.plain]), if_neg holds, taken, if_pos stores]
    exact ⟨xattrListEas_set keepable, kept.set keepable⟩
  · have removes : ea.value = [] ∧ ea.flags = 0 := by simpa using stores
    rw [if_neg stores, if_pos removes, List.append_nil]
    split
    · rename_i nul
      refine ⟨(List.filter_eq_self.mpr ?_).symm, kept⟩
      intro other member
      have plain := (keepable_list kept other member).plain
      rw [decide_eq_true_iff]
      rintro same
      rw [same, nul] at plain
      cases plain
    · exact ⟨xattrListEas_remove ea.name,
        fun entry member => kept entry (List.mem_of_mem_filter member)⟩

end Lists
end Warpine.Vfs
