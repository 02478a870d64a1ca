import Warpine.Vfs.EaStores
import Warpine.Vfs.HostRun

/-! The sidecar of a file as it is written and read back. A length that does not fit its
field is cut, and then something else is read. -/
namespace Warpine.Vfs
open Warpine.Lib Posix HostDir

section Codec

/-- What an entry is read as has a name and a value no longer than their lengths say. -/
theorem sidecarEntries_head {fuel : Nat} {ea : EaEntry} {rest : List UInt8}
    {eas : List EaEntry} (read : sidecarEntries fuel (encodeEntry ea ++ rest) = ea :: eas) :
    Fits ea := by
  obtain ⟨more, rfl⟩ : ∃ more, fuel = more + 1 := by
    cases fuel with
    | zero => cases read
    | succ more => exact ⟨more, rfl⟩
  have nameLen : (UInt8.ofNat (Utf8.toBytes ea.name).length).toNat =
      (Utf8.toBytes ea.name).length % 256 := UInt8.toNat_ofNat'
  simp only [encodeEntry, List.cons_append, List.nil_append, List.append_assoc, sidecarEntries,
    nameLen] at read
  split at read
  · cases read
  · rw [List.cons_eq_cons] at read
    have name := congrArg EaEntry.name read.1
    have value := congrArg EaEntry.value read.1
    dsimp only at name value
    constructor
    · by_contra long
      -- the part of the name that is read is shorter than the name
      have cut := Utf8.toBytes_take_length ea.name ((Utf8.toBytes ea.name).length % 256)
      rw [List.take_append_of_le_length (Nat.mod_le _ _)] at name
      rw [name] at cut
      omega
    · have length := congrArg List.length value
      have low := (UInt8.ofNat ea.value.length).toNat_lt
      have high := (UInt8.ofNat (ea.value.length / 256)).toNat_lt
      rw [List.length_take] at length
      omega

/-- The entries are read as they were exactly when all their lengths fit. -/
theorem sidecarEntries_encode_iff {eas : List EaEntry} {fuel : Nat}
    (enough : (encodeEntries eas).length ≤ fuel) :
    sidecarEntries fuel (encodeEntries eas) = eas ↔ ∀ ea ∈ eas, Fits ea := by
  refine ⟨fun read => ?_, fun fits => sidecarEntries_encode fits enough⟩
  induction eas generalizing fuel with
  | nil => simp
  | cons ea rest ih =>
    have bytes : 0 < (encodeEntry ea).length := by simp [encodeEntry]
    rw [encodeEntries, List.flatMap_cons] at read enough
    rw [List.length_append] at enough
    obtain ⟨more, rfl⟩ : ∃ more, fuel = more + 1 := ⟨fuel - 1, by omega⟩
    have fits := sidecarEntries_head read
    rw [sidecarEntries_cons fits, List.cons_eq_cons] at read
    apply List.forall_mem_cons.mpr ⟨fits, ih _ read.2⟩
    rw [encodeEntries]
    omega

end Codec

section Files

variable {s next : HostDir} {hostPath : HostPath} {eas : List EaEntry}

/-- What is read from a sidecar after it has been written. -/
theorem sidecarReadEas_written (some_ : eas ≠ [])
    (written : s.sidecarWriteEas hostPath eas = (.ok (), next)) :
    sidecarReadEas next.tree hostPath =
      sidecarEntries (encodeEntries eas).length (encodeEntries eas) := by
  unfold HostDir.sidecarWriteEas at written
  cases path : sidecarEaPath hostPath with
  | none => simp [path] at written
  | some eaPath =>
    simp only [path, if_neg some_] at written
    split at written
    · cases written
    · rename_i file opened hopen
      cases written
      rw [sidecarReadEas, path]
      dsimp only
      rw [FileTree.lookup_written hopen]

/-- After all attributes of a file have been taken away nothing is read. -/
theorem sidecarReadEas_removed (wf : s.tree.WellFormed)
    (written : s.sidecarWriteEas hostPath [] = (.ok (), next)) :
    sidecarReadEas next.tree hostPath = [] := by
  unfold HostDir.sidecarWriteEas at written
  cases path : sidecarEaPath hostPath with
  | none => simp [path] at written
  | some eaPath =>
    simp only [path, if_true] at written
    cases written
    rw [sidecarReadEas, path]
    dsimp only
    cases removed : s.tree.unlink eaPath with
    | ok tree =>
      simp only [Except.toOption, Option.getD_some, FileTree.lookup_unlink removed]
      rfl
    | error e =>
      obtain ⟨dir, _, rest⟩ := Option.bind_eq_some_iff.mp path
      obtain ⟨name, _, rfl⟩ := Option.map_eq_some_iff.mp rest
      have last : dir ++ [".os2ea".toList, name ++ ".ea".toList] =
        dir ++ [eaDir] ++ [name ++ eaSuffix] := (List.append_assoc dir [eaDir] _).symm
      simp only [last] at removed ⊢
      have none := FileTree.lookup_not_unlinked wf (suffixed_plain name) removed
      -- no file is found there, which leaves the last branch
      simp only [Except.toOption, Option.getD_none]

/-- The attributes written to a sidecar are those read from it exactly when every name has
fewer than 256 bytes and every value fewer than 65536. -/
theorem sidecar_roundtrip_iff (wf : s.tree.WellFormed)
    (written : s.sidecarWriteEas hostPath eas = (.ok (), next)) :
    sidecarReadEas next.tree hostPath = eas ↔ ∀ ea ∈ eas, Fits ea := by
  by_cases empty : eas = []
  · subst empty
    simp [sidecarReadEas_removed wf written]
  · rw [sidecarReadEas_written empty written]
    exact sidecarEntries_encode_iff (Nat.le_refl _)

/-- A volume with one directory, and the sidecar of a file in it. -/
def sidecarVolume : HostDir := HostDir.new ["c".toList] false emptyHost plainAttrs

theorem sidecar_roundtrip_iff_one :
    sidecarReadEas (sidecarVolume.sidecarWriteEas ["c".toList, "A".toList]
      [⟨"X", [1, 2], 0⟩]).2.tree ["c".toList, "A".toList] = [⟨"X", [1, 2], 0⟩] := by
  have written : (sidecarVolume.sidecarWriteEas ["c".toList, "A".toList] [⟨"X", [1, 2], 0⟩]).1 =
      .ok () := by decide
  apply (sidecar_roundtrip_iff emptyHost_wellFormed (Prod.ext written rfl)).mpr
  rintro ea member
  cases List.mem_singleton.mp member
  exact ⟨by decide, by decide⟩

/-- A value of 65536 bytes is written with the length zero. -/
theorem long_value_lost :
    ¬ ∀ (s next : HostDir) (hostPath : HostPath) (eas : List EaEntry), s.tree.WellFormed →
      s.sidecarWriteEas hostPath eas = (.ok (), next) →
        sidecarReadEas next.tree hostPath = eas := by
  intro claim
  have written : (sidecarVolume.sidecarWriteEas ["c".toList, "A".toList]
      [⟨"X", List.replicate 65536 1, 0⟩]).1 = .ok () := by decide
  have read := claim _ _ _ _ emptyHost_wellFormed (Prod.ext written rfl)
  rw [sidecarReadEas_written (List.cons_ne_nil _ _) (Prod.ext written rfl),
    sidecarEntries_encode_iff (Nat.le_refl _)] at read
  have long := (read _ (List.mem_singleton_self _)).value
  rw [List.length_replicate] at long
  exact absurd long (by decide)

end Files
end Warpine.Vfs
