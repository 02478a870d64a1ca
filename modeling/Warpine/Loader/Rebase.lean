import Mathlib.Data.Int.ModEq
import Warpine.Loader.Fixups

/-! Loading at another base. Two runs of the fixup pass over the same file differ at its
sites by what the bases differ, and nowhere else. -/
namespace Warpine.Loader
open Warpine.Lib Warpine.Guest Warpine.Lx

namespace Fixups

/-- A place of the file that a fixup patches, from the start of its object. -/
structure Site where
  object : Nat
  place : Nat
  record : LxFixupRecord

def sites (file : LxFile) : List Site :=
  file.objectTable.zipIdx.flatMap fun entry => (objectPages file 0 entry.1).flatMap fun page =>
    page.2.flatMap fun record => record.sourceOffsets.map fun off =>
      ⟨entry.2, page.1 + off, record⟩

namespace Site

variable (objectBases : List Nat) (site : Site)

def source : Nat := (objectBases[site.object]?).getD 0

def address : Nat := (site.source objectBases + site.place) % u32Size

def Holds (addr : Nat) : Prop :=
  site.address objectBases ≤ addr ∧ addr < site.address objectBases + 4

/-- The base of the object that the target is in. -/
def targetBase : Option Nat :=
  match site.record.target with
  | .internal objectNum _ => nth objectBases objectNum
  | _ => none

def target : Nat :=
  match site.record.target with
  | .internal objectNum targetOffset => match nth objectBases objectNum with
      | some base => base + targetOffset
      | none => 0
  | _ => 0

def word : Nat :=
  if site.record.sourceType &&& 0x0F = 0x08 then
    relativeWord (site.target objectBases) (site.source objectBases + site.place)
  else site.target objectBases % u32Size

/-- An internal target, and a source type with the address or the distance of it. -/
def IsInternal : Prop :=
  (∃ objectNum targetOffset, site.record.target = .internal objectNum targetOffset) ∧
    (site.record.sourceType &&& 0x0F = 0x07 ∨ site.record.sourceType &&& 0x0F = 0x08)

/-- How far a new load moves what stands at the site. -/
def shift (objectBases objectBases' : List Nat) : Int :=
  let target : Int := (site.targetBase objectBases).getD 0
  let target' : Int := (site.targetBase objectBases').getD 0
  if site.record.sourceType &&& 0x0F = 0x08 then
    (target' - site.source objectBases') - (target - site.source objectBases)
  else target' - target

/-- The words of two loads differ by the shift. -/
def Shifted (objectBases objectBases' : List Nat) (next next' : GuestMemory) : Prop :=
  ∃ word word', next.read 4 (site.address objectBases) = some word ∧
    next'.read 4 (site.address objectBases') = some word' ∧
      (word' : Int) - word ≡ site.shift objectBases objectBases' [ZMOD 2 ^ 32]

end Site

/-- The sites of a load share no byte. -/
def SitesApart (file : LxFile) (objectBases : List Nat) : Prop :=
  (sites file).Pairwise fun first second =>
    Apart (first.address objectBases) 4 (second.address objectBases) 4

/-- A fixup pass over a file, at given bases. -/
structure Pass (dllMgr : DllManager) (file : LxFile) (objectBases : List Nat)
    (mem next : GuestMemory) : Prop where
  bases : objectBases.length = file.objectTable.length
  apart : SitesApart file objectBases
  run : applyFixups dllMgr file objectBases mem = some next

section Sites

variable {dllMgr : DllManager} {file : LxFile} {objectBases : List Nat} {site : Site}

theorem objectPages_shift (file : LxFile) (base : Nat) (obj : ObjectTableEntry) :
    objectPages file base obj =
      (objectPages file 0 obj).map fun page => (base + page.1, page.2) := by
  unfold objectPages
  dsimp only
  rw [List.map_map, List.takeWhile_map, List.takeWhile_map, List.map_map, List.map_map]
  apply List.map_congr_left
  intro p _
  simp

theorem zip_bases (bases : objectBases.length = file.objectTable.length) :
    file.objectTable.zip objectBases =
      file.objectTable.zipIdx.map fun entry => (entry.1, (objectBases[entry.2]?).getD 0) := by
  apply List.ext_getElem
  · simp [bases]
  · intro i left right
    have inside : i < objectBases.length := by
      rw [List.length_zip] at left
      omega
    simp [inside]

/-- The records with their pages, site by site. -/
theorem fixupWrites_sites (bases : objectBases.length = file.objectTable.length) :
    fixupWrites dllMgr file objectBases = (sites file).flatMap fun site =>
      if targetAddr dllMgr file objectBases site.record.target = 0 then []
      else siteWrites site.record.sourceType
        (targetAddr dllMgr file objectBases site.record.target)
        (site.source objectBases + site.place) := by
  unfold fixupWrites records sites
  rw [zip_bases bases, List.flatMap_map, List.flatMap_assoc, List.flatMap_assoc]
  congr 1
  funext entry
  rw [objectPages_shift, List.flatMap_map, List.flatMap_assoc, List.flatMap_assoc]
  congr 1
  funext page
  rw [List.flatMap_map, List.flatMap_assoc]
  congr 1
  funext record
  rw [List.flatMap_map]
  unfold recordWrites
  dsimp only
  split
  · simp
  · simp only [Site.source, Nat.add_assoc]

theorem Site.targetAddr_eq (internal : site.IsInternal) :
    targetAddr dllMgr file objectBases site.record.target = site.target objectBases := by
  obtain ⟨⟨objectNum, targetOffset, same⟩, _⟩ := internal
  rw [Site.target, same]
  rfl

theorem Site.word_lt (objectBases : List Nat) (site : Site) :
    site.word objectBases < 256 ^ 4 := by
  unfold Site.word relativeWord u32Size
  split <;> omega

/-- What a pass writes at a site. -/
def Site.write (objectBases : List Nat) (site : Site) : Option (Nat × List UInt8) :=
  if site.target objectBases = 0 then none
  else some (site.address objectBases, leBytes 4 (site.word objectBases))

theorem Site.write_some {write : Nat × List UInt8} (h : site.write objectBases = some write) :
    write.1 = site.address objectBases ∧ write.2.length = 4 := by
  unfold Site.write at h
  split at h
  · cases h
  · cases h
    exact ⟨rfl, leBytes_length 4 _⟩

theorem siteWrites_internal (internal : site.IsInternal) :
    siteWrites site.record.sourceType (site.target objectBases)
        (site.source objectBases + site.place) =
      [(site.address objectBases, leBytes 4 (site.word objectBases))] := by
  have whole : leBytes 4 (site.target objectBases % u32Size) =
      leBytes 4 (site.target objectBases) := leBytes_mod 4 _
  rcases internal.2 with direct | relative
  · simp [siteWrites, direct, Site.word, Site.address, whole]
  · simp [siteWrites, relative, Site.word, Site.address]

/-- With internal targets only, the pass is one word for each site with a target. -/
theorem fixupWrites_internal (bases : objectBases.length = file.objectTable.length)
    (internal : ∀ site ∈ sites file, site.IsInternal) :
    fixupWrites dllMgr file objectBases =
      (sites file).filterMap (Site.write objectBases) := by
  rw [fixupWrites_sites bases, List.filterMap_eq_flatMap_toList]
  apply List.flatMap_congr
  intro site member
  rw [Site.targetAddr_eq (internal site member), Site.write]
  split
  · rfl
  · exact siteWrites_internal (internal site member)

end Sites

section Passes

variable {dllMgr : DllManager} {file : LxFile} {objectBases objectBases' : List Nat} {site : Site}
  {mem mem' next next' : GuestMemory}

theorem Pass.writes (pass : Pass dllMgr file objectBases mem next)
    (internal : ∀ site ∈ sites file, site.IsInternal) :
    mem.writeAll ((sites file).filterMap (Site.write objectBases)) = some next := by
  rw [← @fixupWrites_internal dllMgr _ _ pass.bases internal, ← applyFixups_eq mem pass.bases]
  exact pass.run

/-- Outside the sites the image stays. -/
theorem Pass.outside (pass : Pass dllMgr file objectBases mem next)
    (internal : ∀ site ∈ sites file, site.IsInternal) {addr : Nat}
    (free : ∀ site ∈ sites file, ¬site.Holds objectBases addr) :
    next.bytes addr = mem.bytes addr := by
  obtain ⟨_, rfl⟩ := mem.writeAll_eq_some.mp (pass.writes internal)
  apply ByteStore.storeAll_outside
  rintro write member ⟨low, high⟩
  obtain ⟨site, hsite, written⟩ := List.mem_filterMap.mp member
  obtain ⟨start, length⟩ := Site.write_some written
  apply free site hsite
  unfold Site.Holds
  omega

/-- A site with a target holds its word. -/
theorem Pass.read (pass : Pass dllMgr file objectBases mem next)
    (internal : ∀ site ∈ sites file, site.IsInternal) (member : site ∈ sites file)
    (there : site.target objectBases ≠ 0) :
    next.read 4 (site.address objectBases) = some (site.word objectBases) := by
  have apart : ((sites file).filterMap (Site.write objectBases)).Pairwise
      ByteStore.WritesApart := by
    rw [List.pairwise_filterMap]
    refine pass.apart.imp ?_
    intro first second apart one hone two htwo
    obtain ⟨start, length⟩ := Site.write_some hone
    obtain ⟨start', length'⟩ := Site.write_some htwo
    rw [ByteStore.WritesApart, start, length, start', length']
    exact apart
  have written : (site.address objectBases, leBytes 4 (site.word objectBases)) ∈
      (sites file).filterMap (Site.write objectBases) :=
    List.mem_filterMap.mpr ⟨site, member, if_neg there⟩
  have stored := mem.slice_writeAll (pass.writes internal) apart written
  rw [leBytes_length] at stored
  rw [GuestMemory.read, stored, Option.map_some, leValue_leBytes (site.word_lt objectBases)]

/-- The words that two bases give for a site differ by its shift. -/
theorem Site.word_shift (internal : site.IsInternal)
    (there : site.target objectBases ≠ 0) (there' : site.target objectBases' ≠ 0) :
    (site.word objectBases' : Int) - site.word objectBases ≡
      site.shift objectBases objectBases' [ZMOD 2 ^ 32] := by
  obtain ⟨⟨objectNum, targetOffset, same⟩, kind⟩ := internal
  unfold Site.target at there there'
  simp only [same] at there there'
  cases base : nth objectBases objectNum with
  | none => simp [base] at there
  | some found =>
    cases base' : nth objectBases' objectNum with
    | none => simp [base'] at there'
    | some found' =>
      unfold Site.word Site.shift Site.target Site.targetBase
      simp only [same, base, base', Option.getD_some]
      rcases kind with direct | relative
      · rw [direct]
        simp only [Nat.reduceEqDiff, if_false]
        unfold u32Size Int.ModEq
        omega
      · rw [relative]
        simp only [if_true]
        unfold relativeWord u32Size Int.ModEq
        omega

/-- What two loads of one file have in common. -/
structure Rebased (file : LxFile) (objectBases objectBases' : List Nat)
    (mem mem' next next' : GuestMemory) : Prop where
  outside : ∀ (object base base' k : Nat), objectBases[object]? = some base →
    objectBases'[object]? = some base' →
    (∀ site ∈ sites file, ¬site.Holds objectBases (base + k) ∧
      ¬site.Holds objectBases' (base' + k)) →
    mem.bytes (base + k) = mem'.bytes (base' + k) →
      next.bytes (base + k) = next'.bytes (base' + k)
  inside : ∀ site ∈ sites file, site.target objectBases ≠ 0 → site.target objectBases' ≠ 0 →
    site.Shifted objectBases objectBases' next next'

/-- A file with internal targets comes out the same at any bases, but for its sites, and
these are shifted. -/
theorem rebased (internal : ∀ site ∈ sites file, site.IsInternal)
    (pass : Pass dllMgr file objectBases mem next)
    (pass' : Pass dllMgr file objectBases' mem' next') :
    Rebased file objectBases objectBases' mem mem' next next' where
  outside := by
    intro object base base' k _ _ free same
    rw [pass.outside internal fun site member => (free site member).1,
      pass'.outside internal fun site member => (free site member).2, same]
  inside := by
    intro site member there there'
    exact ⟨_, _, pass.read internal member there, pass'.read internal member there',
      Site.word_shift (internal site member) there there'⟩

theorem rebased_sample : ∃ next next',
    Rebased (sampleFile none) [0x1000] [0x2000] sampleMemory sampleMemory next next' := by
  have internal : ∀ site ∈ sites (sampleFile none), site.IsInternal := by
    have one : sites (sampleFile none) = [⟨0, 0x40, ⟨0x07, 0x10, [0x40], .internal 1 0x20, none⟩⟩] :=
      rfl
    rw [one, List.forall_mem_singleton]
    exact ⟨⟨1, 0x20, rfl⟩, .inl rfl⟩
  have pass : ∃ next, Pass .new (sampleFile none) [0x1000] sampleMemory next :=
    ⟨_, rfl, List.pairwise_singleton .., rfl⟩
  have pass' : ∃ next, Pass .new (sampleFile none) [0x2000] sampleMemory next :=
    ⟨_, rfl, List.pairwise_singleton .., rfl⟩
  obtain ⟨next, run⟩ := pass
  obtain ⟨next', run'⟩ := pass'
  exact ⟨next, next', rebased internal run run'⟩

/-- The same file with a fixup to the start of its object. -/
def startFile : LxFile :=
  { sampleFile none with
    fixupRecordsByPage := [[⟨0x07, 0x10, [0x40], .internal 1 0, none⟩]] }

/-- At base 0 the target has address 0, and the site keeps what the file has there. -/
theorem start_not_shifted : ¬ ∀ (dllMgr : DllManager) (file : LxFile)
    (objectBases objectBases' : List Nat) (mem mem' next next' : GuestMemory),
    (∀ site ∈ sites file, site.IsInternal) → Pass dllMgr file objectBases mem next →
      Pass dllMgr file objectBases' mem' next' → ∀ site ∈ sites file,
        (site.targetBase objectBases).isSome → (site.targetBase objectBases').isSome →
          site.Shifted objectBases objectBases' next next' := by
  intro claim
  let ones : GuestMemory := ⟨0x4000, fun _ => 1⟩
  have one : sites startFile = [⟨0, 0x40, ⟨0x07, 0x10, [0x40], .internal 1 0, none⟩⟩] := rfl
  have internal : ∀ site ∈ sites startFile, site.IsInternal := by
    rw [one, List.forall_mem_singleton]
    exact ⟨⟨1, 0, rfl⟩, .inl rfl⟩
  obtain ⟨word, word', read, read', shifted⟩ := claim .new startFile [0] [0x1000] ones ones _ _
    internal ⟨rfl, List.pairwise_singleton .., rfl⟩ ⟨rfl, List.pairwise_singleton .., rfl⟩
    ⟨0, 0x40, ⟨0x07, 0x10, [0x40], .internal 1 0, none⟩⟩ (by rw [one]; exact List.mem_singleton_self _)
    rfl rfl
  have same : word = 0x01010101 := Option.some.inj (read.symm.trans (by decide))
  have same' : word' = 0x1000 := Option.some.inj (read'.symm.trans (by decide))
  rw [same, same'] at shifted
  exact absurd shifted (by decide)

end Passes

end Fixups
end Warpine.Loader
