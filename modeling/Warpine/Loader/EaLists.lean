import Mathlib.Algebra.BigOperators.Group.List.Basic
import Mathlib.Data.Nat.ModEq
import Warpine.Lib.Orbit
import Warpine.Loader.FindFiles
import Warpine.Vfs.EaStores

/-! Extended attributes for the guest: the size that their list is said to have, and the
list itself, which is written for the names that the guest asks for. -/
namespace Warpine.Loader
open Warpine.Lib Warpine.Guest Warpine.Vfs

/-- The part of a backend that is asked for attributes. -/
class EaBackend (β : Type) where
  getEa : β → Path → String → VfsResult EaEntry
  enumEa : β → Path → VfsResult (List EaEntry)

/-- A host directory with one of its two stores. -/
structure EaVolume where
  world : EaWorld
  xattrSupported : Bool

instance : EaBackend EaVolume where
  getEa volume := volume.world.getEa volume.xattrSupported
  enumEa volume := volume.world.enumEa volume.xattrSupported

/-- The attributes of a file, each of which is also found by its name. -/
structure HasEas {β : Type} [EaBackend β] (backend : β) (path : Path) (eas : List EaEntry) :
    Prop where
  listed : EaBackend.enumEa backend path = .ok eas
  named : ∀ ea ∈ eas, EaBackend.getEa backend path ea.name = .ok ea

def invalidParameter : Nat := 87

/-- An attribute as it goes into the list, its name in the guest's codepage. -/
structure FeaRecord where
  flags : UInt8
  name : List UInt8
  value : List UInt8

namespace FeaRecord

variable (record : FeaRecord)

def size : Nat := 4 + 1 + 1 + 2 + record.name.length + 1 + record.value.length

/-- The bytes up to the next record. -/
def padding : Nat := alignedSize record.size - record.size

def writes (ptr : Nat) : List (Nat × List UInt8) :=
  [(ptr, leBytes 4 0), (wrapAdd ptr 4, [record.flags]),
    (wrapAdd ptr 5, leBytes 1 record.name.length), (wrapAdd ptr 6, leBytes 2 record.value.length),
    (wrapAdd ptr 8, record.name), (wrapAdd (wrapAdd ptr 8) record.name.length, [0])] ++
    if record.value = [] then []
    else [(wrapAdd (wrapAdd ptr 9) record.name.length, record.value)]

end FeaRecord

def feaRecord (rs : EncodingRs) (cp : Nat) (ea : EaEntry) : FeaRecord :=
  ⟨ea.flags, cpEncode rs ea.name.toList cp, ea.value⟩

/-- The link of the record before. -/
def linkWrites (prevFea2Ptr : Option Nat) (fea2Ptr : Nat) : List (Nat × List UInt8) :=
  match prevFea2Ptr with
  | some prev => [(prev, leBytes 4 (wrapSub fea2Ptr prev))]
  | none => []

/-- The records one after the other: their writes, and the position behind the last. -/
def feaWrites (pFea2List : Nat) :
    Nat → Option Nat → List FeaRecord → List (Nat × List UInt8) × Nat
  | outPos, _, [] => ([], outPos)
  | outPos, prev, record :: rest =>
      let fea2Size := record.size % u32Size
      let aligned := wrapAdd fea2Size 3 / 4 * 4
      let fea2Ptr := wrapAdd pFea2List outPos
      let (later, stop) := feaWrites pFea2List (wrapAdd outPos aligned) (some fea2Ptr) rest
      (record.writes fea2Ptr ++ linkWrites prev fea2Ptr ++ later, stop)

section Request

variable (mem : GuestMemory) (pGea2List : Nat)

def geaNext (pos : Nat) : Nat := (mem.read 4 (wrapAdd pGea2List pos)).getD 0

def geaNameLen (pos : Nat) : Nat :=
  min ((mem.read 1 (wrapAdd (wrapAdd pGea2List pos) 4)).getD 0) 260

def geaName (pos : Nat) : String :=
  Utf8.fromUtf8Lossy ((List.range (geaNameLen mem pGea2List pos)).map fun i =>
    UInt8.ofNat ((mem.read 1 (wrapAdd (wrapAdd (wrapAdd pGea2List pos) 5) i)).getD 0))

/-- The names that are asked for, from a position on. Without an end in sight the loop goes
on, here until the fuel is spent. -/
def geaNames (cbList : Nat) : Nat → Nat → Option (List String)
  | 0, _ => none
  | fuel + 1, pos =>
      if pos < cbList then
        if geaNameLen mem pGea2List pos = 0 then some []
        else if geaNext mem pGea2List pos = 0 then some [geaName mem pGea2List pos]
        else (geaNames cbList fuel (wrapAdd pos (geaNext mem pGea2List pos))).map
          (geaName mem pGea2List pos :: ·)
      else some []

end Request

section Calls

variable {β : Type} [EaBackend β] (rs : EncodingRs) (cp : Nat) (dm : DriveManager β)

/-- What an attribute is answered with. One that is not there has an empty value. -/
def eaAnswer (backend : β) (path : Path) (name : String) : EaEntry :=
  match EaBackend.getEa backend path name with
  | .ok ea => ea
  | .error _ => ⟨name, [], 0⟩

def computeEaSize (os2Path : Path) : Nat :=
  match dm.resolvePath os2Path with
  | .error _ => 4
  | .ok (drive, relPath) => match dm.drives drive with
    | none => 4
    | some backend => match EaBackend.enumEa backend relPath with
      | .error _ => 4
      | .ok eas =>
          if eas.isEmpty then 4
          else wrapAdd ((eas.map fun ea =>
            (9 + (Utf8.toBytes ea.name).length + ea.value.length) % u32Size).foldl wrapAdd 0) 4

/-- The code that the call returns, and its writes; `none` while it is still reading names. -/
def dosQueryEasFromList (fuel : Nat) (mem : GuestMemory) (os2Path : Path) (bufPtr bufLen : Nat) :
    Option (Nat × List (Nat × List UInt8)) :=
  let pGea2List := (mem.read 4 bufPtr).getD 0
  let pFea2List := (mem.read 4 (wrapAdd bufPtr 4)).getD 0
  let geaCbList := (mem.read 4 pGea2List).getD 0
  if bufLen < 12 then some (errorBufferOverflow, [])
  else if pGea2List = 0 ∨ pFea2List = 0 then some (invalidParameter, [])
  else if geaCbList < 4 then some (invalidParameter, [])
  else (geaNames mem pGea2List geaCbList fuel 4).map fun names =>
    match dm.resolvePath os2Path with
    | .error e => (e.code, [])
    | .ok (drive, relPath) => match dm.drives drive with
      | none => (Os2Error.invalidDrive.code, [])
      | some backend =>
          let records := names.map fun name => feaRecord rs cp (eaAnswer backend relPath name)
          let (writes, outPos) := feaWrites pFea2List 4 none records
          (0, writes ++ [(pFea2List, leBytes 4 outPos), (wrapAdd bufPtr 8, leBytes 4 0)])

end Calls

section Sizes

theorem alignedSize_eq (size : Nat) : alignedSize size = size + (alignedSize size - size) := by
  unfold alignedSize
  omega

theorem aligned_mod (size : Nat) :
    wrapAdd (size % u32Size) 3 / 4 * 4 % u32Size = alignedSize size % u32Size := by
  unfold wrapAdd alignedSize u32Size
  omega

theorem wrapAdd_lt (a b : Nat) : wrapAdd a b < u32Size := Nat.mod_lt _ (by decide)

theorem foldl_wrapAdd {start : Nat} (small : start < u32Size) (values : List Nat) :
    (values.map (· % u32Size)).foldl wrapAdd start = (start + values.sum) % u32Size := by
  induction values generalizing start with
  | nil => rw [List.map_nil, List.foldl_nil, List.sum_nil, Nat.add_zero, Nat.mod_eq_of_lt small]
  | cons value rest ih =>
    rw [List.map_cons, List.foldl_cons, ih (wrapAdd_lt ..), List.sum_cons, wrapAdd]
    unfold u32Size
    omega

/-- Where the list ends: each record takes its size rounded up. -/
theorem feaWrites_outPos (pFea2List : Nat) (records : List FeaRecord) {outPos : Nat}
    (small : outPos < u32Size) (prev : Option Nat) :
    (feaWrites pFea2List outPos prev records).2 =
      (outPos + (records.map fun record => alignedSize record.size).sum) % u32Size := by
  induction records generalizing outPos prev with
  | nil => rw [feaWrites, List.map_nil, List.sum_nil, Nat.add_zero, Nat.mod_eq_of_lt small]
  | cons record rest ih =>
    rw [feaWrites]
    dsimp only
    rw [ih (wrapAdd_lt ..), List.map_cons, List.sum_cons, wrapAdd]
    have same := aligned_mod record.size
    generalize wrapAdd (record.size % u32Size) 3 / 4 * 4 = aligned at same ⊢
    unfold u32Size at same ⊢
    omega

variable {β : Type} [EaBackend β] {dm : DriveManager β} {os2Path relPath : Path} {drive : Nat}
  {backend : β} {eas : List EaEntry} {names : List String} {rs : EncodingRs} {cp : Nat}

theorem computeEaSize_eq (resolved : dm.resolvePath os2Path = .ok (drive, relPath))
    (mounted : dm.drives drive = some backend)
    (listed : EaBackend.enumEa backend relPath = .ok eas) :
    computeEaSize dm os2Path =
      (4 + (eas.map fun ea => 9 + (Utf8.toBytes ea.name).length + ea.value.length).sum) %
        u32Size := by
  unfold computeEaSize
  simp only [resolved, mounted, listed]
  cases eas with
  | nil => rfl
  | cons ea rest =>
    have sum := @foldl_wrapAdd 0 (by decide)
      ((ea :: rest).map fun ea => 9 + (Utf8.toBytes ea.name).length + ea.value.length)
    rw [List.map_map] at sum
    rw [List.isEmpty_cons, if_neg (by decide)]
    refine (congrArg (wrapAdd · 4) sum).trans ?_
    unfold wrapAdd u32Size
    omega

/-- The answers to the names of a file's attributes are the attributes. -/
theorem answers_perm (has : HasEas backend relPath eas) (asked : names.Perm (eas.map (·.name))) :
    (names.map (eaAnswer backend relPath)).Perm eas := by
  have same : (eas.map (·.name)).map (eaAnswer backend relPath) = eas := by
    rw [List.map_map]
    apply (List.map_congr_left _).trans (List.map_id eas)
    intro ea member
    rw [Function.comp_apply, eaAnswer, has.named ea member]
    rfl
  rw [← same]
  exact asked.map _

/-- What the padding and the names in the codepage add to a list of attributes, and what
the names in UTF-8 add to its reported size. -/
def paddedNames (rs : EncodingRs) (cp : Nat) (eas : List EaEntry) : Nat :=
  (eas.map fun ea => (feaRecord rs cp ea).name.length + (feaRecord rs cp ea).padding).sum

def utf8Names (eas : List EaEntry) : Nat :=
  (eas.map fun ea => (Utf8.toBytes ea.name).length).sum

theorem alignedSizes_sum (rs : EncodingRs) (cp : Nat) (eas : List EaEntry) :
    (eas.map fun ea => alignedSize (feaRecord rs cp ea).size).sum =
      (eas.map fun ea => 9 + ea.value.length).sum + paddedNames rs cp eas := by
  rw [paddedNames, ← List.sum_map_add]
  congr 1
  apply List.map_congr_left
  intro ea _
  rw [alignedSize_eq, FeaRecord.padding, FeaRecord.size, feaRecord]
  dsimp only
  omega

theorem reportedSizes_sum (eas : List EaEntry) :
    (eas.map fun ea => 9 + (Utf8.toBytes ea.name).length + ea.value.length).sum =
      (eas.map fun ea => 9 + ea.value.length).sum + utf8Names eas := by
  rw [utf8Names, ← List.sum_map_add]
  congr 1
  apply List.map_congr_left
  intro ea _
  omega

/-- All attributes of a file are asked for. The length that is written for the list is the
size reported for it exactly when the padding and the names in the codepage take as many
bytes as the names in UTF-8. -/
theorem ea_size_agrees_iff {fuel bufPtr bufLen : Nat} {mem : GuestMemory}
    {writes : List (Nat × List UInt8)}
    (resolved : dm.resolvePath os2Path = .ok (drive, relPath))
    (mounted : dm.drives drive = some backend) (has : HasEas backend relPath eas)
    (request : geaNames mem ((mem.read 4 bufPtr).getD 0)
      ((mem.read 4 ((mem.read 4 bufPtr).getD 0)).getD 0) fuel 4 = some names)
    (asked : names.Perm (eas.map (·.name)))
    (call : dosQueryEasFromList rs cp dm fuel mem os2Path bufPtr bufLen = some (0, writes)) :
    ∃ front cbList, cbList < u32Size ∧
      writes = front ++ [((mem.read 4 (wrapAdd bufPtr 4)).getD 0, leBytes 4 cbList),
        (wrapAdd bufPtr 8, leBytes 4 0)] ∧
      (computeEaSize dm os2Path = cbList ↔
        utf8Names eas ≡ paddedNames rs cp eas [MOD u32Size]) := by
  unfold dosQueryEasFromList at call
  dsimp only at call
  split at call
  · cases call
  · split at call
    · cases call
    · split at call
      · cases call
      · simp only [request, resolved, mounted, Option.map_some, Option.some.injEq,
          Prod.mk.injEq, true_and] at call
        refine ⟨_, _, ?_, call.symm, ?_⟩
        · rw [feaWrites_outPos _ _ (by decide)]
          exact Nat.mod_lt _ (by decide)
        · have sum : ((names.map fun name => feaRecord rs cp (eaAnswer backend relPath name)).map
              fun record => alignedSize record.size).sum =
                (eas.map fun ea => alignedSize (feaRecord rs cp ea).size).sum := by
            have answers := ((answers_perm has asked).map
              fun ea => alignedSize (feaRecord rs cp ea).size).sum_nat
            rw [List.map_map] at answers ⊢
            exact answers
          rw [computeEaSize_eq resolved mounted has.listed, feaWrites_outPos _ _ (by decide), sum,
            alignedSizes_sum, reportedSizes_sum, ← Nat.add_assoc, ← Nat.add_assoc]
          exact ⟨Nat.ModEq.add_left_cancel' _, Nat.ModEq.add_left _⟩

end Sizes

theorem find_named {eas : List EaEntry} (distinct : (eas.map (·.name)).Nodup) {ea : EaEntry}
    (member : ea ∈ eas) : eas.find? (·.name = ea.name) = some ea := by
  obtain ⟨front, rest, rfl⟩ := List.append_of_mem member
  rw [List.map_append, List.map_cons, List.nodup_append] at distinct
  rw [List.find?_append, List.find?_eq_none.mpr, Option.none_or]
  · exact List.find?_cons_of_pos (by simp)
  · intro other before same
    exact distinct.2.2 _ (List.mem_map_of_mem before) _ List.mem_cons_self
      (of_decide_eq_true same)

/-- A host directory whose attributes have different names has them by name too. -/
theorem EaVolume.hasEas {volume : EaVolume} {path : Path} {eas : List EaEntry}
    (listed : volume.world.enumEa volume.xattrSupported path = .ok eas)
    (distinct : (eas.map (·.name)).Nodup) : HasEas volume path eas where
  listed := listed
  named := by
    intro ea member
    change volume.world.getEa volume.xattrSupported path ea.name = .ok ea
    unfold EaWorld.enumEa at listed
    unfold EaWorld.getEa
    cases resolved : volume.world.host.resolveExisting path with
    | mk found s =>
      rw [resolved] at listed
      cases found with
      | error e => cases listed
      | ok hostPath =>
        dsimp only at listed ⊢
        split at listed
        · rename_i supported
          rw [if_pos supported]
          cases place : s.tree.resolve hostPath with
          | error e => simp [place] at listed
          | ok place' =>
            rw [place] at listed
            cases listed
            exact (mem_xattrListEas.mp member).2
        · rename_i unsupported
          rw [if_neg unsupported]
          cases listed
          unfold sidecarGetEa
          rw [find_named distinct member]

section Samples

/-- A directory that is given one attribute. -/
def oneEaVolume (value : List UInt8) : EaVolume where
  world := [.op (.createDir "A".toList), .setEa "A".toList ⟨"X", value, 0⟩].foldl
    (EaWorld.exec fun _ _ _ => none)
    ⟨HostDir.new ["c".toList] false HostDir.emptyHost HostDir.plainAttrs, fun _ => []⟩
  xattrSupported := false

def oneEaDrives (value : List UInt8) : DriveManager EaVolume :=
  DriveManager.new.mount 2 (oneEaVolume value)

/-- Both lists, of which the first asks for the attribute. -/
def oneEaMemory : GuestMemory :=
  GuestMemory.putAll ⟨4096, fun _ => 0⟩
    [(16, leBytes 4 64), (20, leBytes 4 128), (64, leBytes 4 11), (68, leBytes 4 0),
      (72, [1, 0x58, 0]), (128, leBytes 4 64)]

theorem oneEa_names : geaNames oneEaMemory 64 11 1 4 = some ["X"] := by decide

end Samples

/-- Twelve bytes take no padding. -/
theorem ea_size_agrees_iff_twelve : ∃ front cbList, cbList < u32Size ∧
    dosQueryEasFromList noConversions 437 (oneEaDrives [1, 2]) 1 oneEaMemory "A".toList 16 12 =
      some (0, front ++ [(128, leBytes 4 cbList), (24, leBytes 4 0)]) ∧
    computeEaSize (oneEaDrives [1, 2]) "A".toList = cbList := by
  have has : HasEas (oneEaVolume [1, 2]) "A".toList [⟨"X", [1, 2], 0⟩] :=
    EaVolume.hasEas (by decide) (by decide)
  have call : (dosQueryEasFromList noConversions 437 (oneEaDrives [1, 2]) 1 oneEaMemory
      "A".toList 16 12).map Prod.fst = some 0 := by decide
  obtain ⟨⟨code, writes⟩, result, rfl⟩ := Option.map_eq_some_iff.mp call
  obtain ⟨front, cbList, small, rfl, agrees⟩ := ea_size_agrees_iff
    (show (oneEaDrives [1, 2]).resolvePath "A".toList = .ok (2, "A".toList) by decide)
    rfl has oneEa_names (List.Perm.refl _) result
  exact ⟨front, cbList, small, result, agrees.mpr (Nat.ModEq.refl 1)⟩

/-- A record of eleven bytes is padded in the list, but not in the size that is reported. -/
theorem ea_size_misses_padding :
    ¬ ∀ (rs : EncodingRs) (cp : Nat) (dm : DriveManager EaVolume) (os2Path relPath : Path)
      (drive : Nat) (backend : EaVolume) (eas : List EaEntry) (names : List String)
      (fuel bufPtr bufLen : Nat) (mem : GuestMemory) (writes : List (Nat × List UInt8)),
      dm.resolvePath os2Path = .ok (drive, relPath) → dm.drives drive = some backend →
      HasEas backend relPath eas →
      geaNames mem ((mem.read 4 bufPtr).getD 0)
        ((mem.read 4 ((mem.read 4 bufPtr).getD 0)).getD 0) fuel 4 = some names →
      names.Perm (eas.map (·.name)) →
      dosQueryEasFromList rs cp dm fuel mem os2Path bufPtr bufLen = some (0, writes) →
        ∃ front cbList, cbList < u32Size ∧
          writes = front ++ [((mem.read 4 (wrapAdd bufPtr 4)).getD 0, leBytes 4 cbList),
            (wrapAdd bufPtr 8, leBytes 4 0)] ∧ computeEaSize dm os2Path = cbList := by
  intro claim
  have has : HasEas (oneEaVolume [1]) "A".toList [⟨"X", [1], 0⟩] :=
    EaVolume.hasEas (by decide) (by decide)
  have call : (dosQueryEasFromList noConversions 437 (oneEaDrives [1]) 1 oneEaMemory
      "A".toList 16 12).map Prod.fst = some 0 := by decide
  obtain ⟨⟨code, writes⟩, result, rfl⟩ := Option.map_eq_some_iff.mp call
  obtain ⟨front, cbList, small, rfl, agrees⟩ := claim _ _ _ _ _ 2 _ _ _ _ _ _ _ _
    (show (oneEaDrives [1]).resolvePath "A".toList = .ok (2, "A".toList) by decide)
    rfl has oneEa_names (List.Perm.refl _) result
  have reported : computeEaSize (oneEaDrives [1]) "A".toList = 15 := by decide
  rw [reported] at agrees
  subst agrees
  have written : (dosQueryEasFromList noConversions 437 (oneEaDrives [1]) 1 oneEaMemory
      "A".toList 16 12).bind (fun result => result.2.reverse[1]?) =
        some (128, leBytes 4 16) := by decide
  rw [result, Option.bind_some, List.reverse_append] at written
  have cells := congrArg (Option.map Prod.snd) written
  exact absurd (Option.some.inj cells) (by decide)

end Warpine.Loader
