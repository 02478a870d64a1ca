import Warpine.Vfs.CurrentDir

/-! Absolute and relative paths. Whether a path is absolute should decide alone whether
the current directory has a part in it. -/
namespace Warpine.Vfs
open Warpine.Lib DriveManager

variable {β : Type}

/-- The drive that a path designates, where it is mounted. -/
def designated (dm : DriveManager β) (path : Path) : VfsResult Nat :=
  if ['\\', '\\'].isPrefixOf path || ['/', '/'].isPrefixOf path then .error .pathNotFound
  else if (drivePrefix path).any fun found => !found.1.toUpper.isUpper then .error .invalidDrive
  else if (dm.drives (DirState.namedDrive dm path)).isNone then .error .invalidDrive
  else .ok (DirState.namedDrive dm path)

/-- What the part of a path behind the drive letter stands for, seen from a directory. -/
def resolvedIn (dir part : Path) : Path :=
  let rest := (part.map toSlash).dropWhile (· == '/')
  if rest.isEmpty then dir
  else if DirState.isRooted part then rest
  else joinDir dir rest

/-- A directory joined with a relative path; no path at all is the directory. -/
def joined (dir part : Path) : Path :=
  if part = [] then dir else joinDir dir (part.map toSlash)

/-- An absolute path means one thing from every directory, and a relative one is taken
from the current directory of its drive. -/
structure Resolves (dm : DriveManager β) (path : Path) : Prop where
  absolute : DirState.isRooted (DirState.pathPart path) → ∀ dirs,
    { dm with currentDirs := dirs }.resolvePath path = dm.resolvePath path
  relative : ¬DirState.isRooted (DirState.pathPart path) →
    dm.resolvePath path = (designated dm path).map fun drive =>
      (drive, joined (dm.currentDirs drive) (DirState.pathPart path))

section Resolution

variable {dm : DriveManager β} {path : Path}

theorem toSlash_isUpper (letter : Char) :
    (toSlash letter).toUpper.isUpper = letter.toUpper.isUpper := by
  unfold toSlash
  split
  · rename_i h
    rw [h]
    rfl
  · rfl

/-- Only the last part of the resolution looks at the current directory. -/
theorem resolvePath_eq (dm : DriveManager β) (path : Path) :
    dm.resolvePath path = (designated dm path).map fun drive =>
      (drive, resolvedIn (dm.currentDirs drive) (DirState.pathPart path)) := by
  have mapped : (path.map fun c => if c = '\\' then '/' else c) = path.map toSlash := rfl
  have tail (drive : Nat) (part : Path) :
      (if (dm.drives drive).isNone then (.error .invalidDrive : VfsResult (Nat × Path))
        else if ((part.map toSlash).dropWhile (· == '/')).isEmpty then
          .ok (drive, dm.currentDirs drive)
        else if (part.map toSlash).head? == some '/' then
          .ok (drive, (part.map toSlash).dropWhile (· == '/'))
        else .ok (drive, joinDir (dm.currentDirs drive)
          ((part.map toSlash).dropWhile (· == '/')))) =
      (if (dm.drives drive).isNone then (.error .invalidDrive : VfsResult Nat)
        else .ok drive).map fun drive => (drive, resolvedIn (dm.currentDirs drive) part) := by
    rw [head_toSlash]
    unfold resolvedIn
    split
    · rfl
    · dsimp only [Except.map]
      split
      · rfl
      · split <;> rfl
  unfold resolvePath designated
  rw [mapped]
  dsimp only
  rw [drivePrefix_toSlash]
  split
  · rfl
  · cases hnamed : drivePrefix path with
    | none =>
      have named : DirState.namedDrive dm path = dm.currentDisk := by
        rw [DirState.namedDrive, hnamed]
      have part : DirState.pathPart path = path := by
        rw [DirState.pathPart, hnamed]
        rfl
      rw [named, part]
      exact tail dm.currentDisk path
    | some found =>
      have named : DirState.namedDrive dm path = found.1.toUpper.toNat - 'A'.toNat := by
        rw [DirState.namedDrive, hnamed]
      have part : DirState.pathPart path = found.2 := by
        rw [DirState.pathPart, hnamed]
        rfl
      simp only [Option.map_some, Option.any_some, toSlash_isUpper]
      by_cases upper : found.1.toUpper.isUpper
      · have letter : toSlash found.1 = found.1 := by
          apply if_neg
          intro back
          rw [back] at upper
          exact absurd upper (by decide)
        simp only [upper, letter, if_true, Bool.not_true, Bool.false_eq_true, if_false]
        rw [named, part]
        exact tail (found.1.toUpper.toNat - 'A'.toNat) found.2
      · simp only [upper, Bool.false_eq_true, if_false, Bool.not_false, if_true]
        rfl

/-- Where a path designates a drive does not depend on the current directories. -/
theorem designated_dirs (dm : DriveManager β) (dirs : Nat → Path) (path : Path) :
    designated { dm with currentDirs := dirs } path = designated dm path := rfl

theorem resolvedIn_rooted {dir part : Path} (rooted : DirState.isRooted part)
    (names : dirComponents part ≠ []) :
    resolvedIn dir part = (part.map toSlash).dropWhile (· == '/') := by
  have some : ¬((part.map toSlash).dropWhile (· == '/')).isEmpty = true :=
    fun none => names ((dropWhile_isEmpty part).mp none)
  unfold resolvedIn
  dsimp only
  rw [if_neg some, if_pos rooted]

/-- Without a component there is nothing but the directory, from the root as well. -/
theorem resolvedIn_bare {dir part : Path} (bare : dirComponents part = []) :
    resolvedIn dir part = dir := by
  unfold resolvedIn
  exact if_pos ((dropWhile_isEmpty part).mpr bare)

theorem resolvedIn_relative {dir part : Path} (relative : ¬DirState.isRooted part) :
    resolvedIn dir part = joined dir part := by
  have whole : (part.map toSlash).dropWhile (· == '/') = part.map toSlash := by
    cases part with
    | nil => rfl
    | cons c part =>
      have head := head_toSlash (c :: part)
      rw [Bool.eq_false_iff.mpr relative] at head
      exact List.dropWhile_cons_of_neg (by simpa using head)
  unfold resolvedIn joined
  dsimp only
  rw [whole, if_neg relative]
  cases part <;> rfl

/-- A path resolves as it should exactly when it is not a bare root of a drive. -/
theorem resolves_iff (dm : DriveManager β) (path : Path) :
    Resolves dm path ↔ (DirState.isRooted (DirState.pathPart path) → ∀ drive,
      designated dm path = .ok drive → dirComponents (DirState.pathPart path) ≠ []) := by
  constructor
  · intro resolves rooted drive found bare
    have same := resolves.absolute rooted
    have told (dirs : Nat → Path) : dirs drive = dm.currentDirs drive := by
      have answer := same dirs
      rw [resolvePath_eq, resolvePath_eq, designated_dirs, found] at answer
      simpa [Except.map, resolvedIn_bare bare] using answer
    have apart : ([] : Path) = ['x'] := (told fun _ => []).trans (told fun _ => ['x']).symm
    exact absurd apart (by decide)
  · intro names
    refine ⟨?_, ?_⟩
    · intro rooted dirs
      rw [resolvePath_eq, resolvePath_eq, designated_dirs]
      cases found : designated dm path with
      | error => rfl
      | ok drive =>
        have some := names rooted drive found
        simp only [Except.map, resolvedIn_rooted rooted some]
    · intro relative
      simp only [resolvePath_eq, resolvedIn_relative relative]

end Resolution

/-- The root of drive C is named from the directory `TOOLS`. -/
theorem bare_root_resolved : ¬ ∀ (dm : DriveManager MockBackend) (path : Path),
    Resolves dm path := by
  intro claim
  have same := (claim (DriveManager.new.mount 2 .mk) ['\\']).absolute
    (by decide) fun _ => "TOOLS".toList
  exact absurd same (by decide)

end Warpine.Vfs
