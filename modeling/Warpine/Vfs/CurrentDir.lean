import Warpine.Lib.Attempts
import Warpine.Lib.Fields
import Warpine.Lib.Run
import Warpine.Vfs.DriveManager

/-! The two records of the working directory: the drive manager's, one for each
drive, and the process manager's, which `DosExecPgm` hands to a child. -/
namespace Warpine.Vfs
open Warpine.Lib

structure ProcessManager where
  currentDisk : Nat
  currentDir : Path
deriving DecidableEq, Repr

def ProcessManager.new : ProcessManager := ⟨3, ['\\']⟩

namespace DriveManager

variable {β : Type}

def setCurrentDisk (dm : DriveManager β) (diskOs2 : Nat) : VfsResult (DriveManager β) :=
  if diskOs2 = 0 ∨ 26 < diskOs2 then .error .invalidDrive
  else if (dm.drives (diskOs2 - 1)).isNone then .error .invalidDrive
  else .ok { dm with currentDisk := diskOs2 - 1 }

def setCurrentDir (dm : DriveManager β) (os2Path : Path) : VfsResult (DriveManager β) := do
  let (drive, relPath) ← dm.resolvePath os2Path
  .ok { dm with
    currentDirs := fun other => if other = drive then relPath else dm.currentDirs other }

end DriveManager

structure DirState (β : Type) where
  driveMgr : DriveManager β
  processMgr : ProcessManager

inductive DirCall where
  | dosSetCurrentDir (name : Path)
  | dosSetDefaultDisk (diskNum : UInt32)
  | cmdCd (path : Path)
  | cmdChangeDrive (diskOs2 : UInt8)

/-- The process manager's directory after `DosSetCurrentDir` of a name. -/
def processDir (currentDir name : Path) : Path :=
  let os2Path := name.map fun c => if c = '/' then '\\' else c
  let newDir := match DriveManager.drivePrefix os2Path with
    | some (_, rest) => rest
    | none =>
        if os2Path.head? = some '\\' then os2Path
        else
          (if currentDir.getLast? = some '\\' then currentDir else currentDir ++ ['\\']) ++ os2Path
  let newDir := if newDir.head? = some '\\' then newDir else '\\' :: newDir
  if 1 < newDir.length ∧ newDir.getLast? = some '\\' then newDir.dropLast else newDir

/-- The process manager's directory after `CD` of the command interpreter. -/
def shellDir (newDir : Path) : Path :=
  if newDir = [] then ['\\'] else if newDir.head? = some '\\' then newDir else '\\' :: newDir

namespace DirState

variable {β : Type}

def initial (drives : Nat → Option β) : DirState β :=
  ⟨{ (DriveManager.new : DriveManager β) with drives }, .new⟩

def dosSetCurrentDir (state : DirState β) (name : Path) : VfsResult (DirState β) := do
  let driveMgr ← state.driveMgr.setCurrentDir name
  .ok ⟨driveMgr, { state.processMgr with
    currentDir := processDir state.processMgr.currentDir name }⟩

def dosSetDefaultDisk (state : DirState β) (diskNum : UInt32) : VfsResult (DirState β) := do
  let driveMgr ← state.driveMgr.setCurrentDisk diskNum.toUInt8.toNat
  .ok ⟨driveMgr, { state.processMgr with currentDisk := diskNum.toUInt8.toNat }⟩

def cmdCd (state : DirState β) (path : Path) : VfsResult (DirState β) := do
  let driveMgr ← state.driveMgr.setCurrentDir path
  .ok ⟨driveMgr, { state.processMgr with
    currentDir := shellDir (driveMgr.currentDirs driveMgr.currentDisk) }⟩

def cmdChangeDrive (state : DirState β) (diskOs2 : UInt8) : VfsResult (DirState β) := do
  let driveMgr ← state.driveMgr.setCurrentDisk diskOs2.toNat
  .ok { state with driveMgr }

def exec (state : DirState β) : DirCall → VfsResult (DirState β)
  | .dosSetCurrentDir name => state.dosSetCurrentDir name
  | .dosSetDefaultDisk diskNum => state.dosSetDefaultDisk diskNum
  | .cmdCd path => state.cmdCd path
  | .cmdChangeDrive diskOs2 => state.cmdChangeDrive diskOs2

/-- A call that succeeds. -/
def step : Step (DirState β) DirCall := fun state call next => state.exec call = .ok next

end DirState

/-- The names in a path, whichever separators stand between them. -/
def dirComponents (path : Path) : List Path := fields DriveManager.isSeparator path

def dotName : Path := ['.']
def dotDotName : Path := ['.', '.']

/-- The directory below the root that a path denotes. -/
def denotes (path : Path) : List Path :=
  (dirComponents path).foldl (fun dir component =>
    if component = dotName then dir
    else if component = dotDotName then dir.dropLast
    else dir ++ [component]) []

def NoDots (path : Path) : Prop :=
  ∀ component ∈ dirComponents path, component ≠ dotName ∧ component ≠ dotDotName

namespace DirState

variable {β : Type}

/-- The two records name one directory, and no drive's has a dot name. -/
structure Sound (state : DirState β) : Prop where
  agree : denotes state.processMgr.currentDir =
    denotes (state.driveMgr.currentDirs state.driveMgr.currentDisk)
  plain : ∀ drive, NoDots (state.driveMgr.currentDirs drive)

/-- A path behind its drive letter. -/
def pathPart (name : Path) : Path :=
  ((DriveManager.drivePrefix name).map Prod.snd).getD name

def isRooted (path : Path) : Bool := path.head?.any DriveManager.isSeparator

/-- The drive that a path names, or else the current one. -/
def namedDrive (dm : DriveManager β) (name : Path) : Nat :=
  match DriveManager.drivePrefix name with
  | some (letter, _) => letter.toUpper.toNat - 'A'.toNat
  | none => dm.currentDisk

def here (state : DirState β) : List Path :=
  dirComponents (state.driveMgr.currentDirs state.driveMgr.currentDisk)

/-- No call names a dot or moves to a drive whose directory is another than the
current one. A bare root is named only at the root. A path with a letter is
rooted if the letter is the current drive's (or the drive is at its root), and
for another drive it names the directory that is current already. -/
def Allowed (state : DirState β) : DirCall → Prop
  | .dosSetCurrentDir name =>
      NoDots (pathPart name) ∧
        if (DriveManager.drivePrefix name).isNone then
          isRooted name → dirComponents name = [] → state.here = []
        else if namedDrive state.driveMgr name = state.driveMgr.currentDisk then
          isRooted (pathPart name) ∧ dirComponents (pathPart name) ≠ [] ∨ state.here = []
        else dirComponents (pathPart name) = state.here
  | .dosSetDefaultDisk diskNum =>
      dirComponents (state.driveMgr.currentDirs (diskNum.toUInt8.toNat - 1)) = state.here
  | .cmdCd path => NoDots (pathPart path)
  | .cmdChangeDrive diskOs2 =>
      dirComponents (state.driveMgr.currentDirs (diskOs2.toNat - 1)) = state.here

/-- The invariant: the two records have the same names, none of them a dot. -/
structure Inv (state : DirState β) : Prop where
  same : dirComponents state.processMgr.currentDir = state.here
  plain : ∀ drive, NoDots (state.driveMgr.currentDirs drive)

theorem sound_of_inv {state : DirState β} (inv : state.Inv) : state.Sound where
  agree := by
    have hsame : dirComponents state.processMgr.currentDir =
      dirComponents (state.driveMgr.currentDirs state.driveMgr.currentDisk) := inv.same
    rw [denotes, hsame]
    rfl
  plain := inv.plain

end DirState

section Paths

open DriveManager

/-- The exchanges of separators that the two records make. -/
def toSlash (c : Char) : Char := if c = '\\' then '/' else c
def toBackslash (c : Char) : Char := if c = '/' then '\\' else c

theorem components_map {f : Char → Char} (same : ∀ c, isSeparator (f c) = isSeparator c)
    (keeps : ∀ c, isSeparator c = false → f c = c) (path : Path) :
    dirComponents (path.map f) = dirComponents path := fields_map same keeps path

theorem components_toSlash (path : Path) :
    dirComponents (path.map toSlash) = dirComponents path := by
  apply components_map
  · intro c
    unfold toSlash
    split
    · rename_i hc
      subst hc
      rfl
    · rfl
  · intro c hc
    apply if_neg
    rintro rfl
    cases hc

theorem components_toBackslash (path : Path) :
    dirComponents (path.map toBackslash) = dirComponents path := by
  apply components_map
  · intro c
    unfold toBackslash
    split
    · rename_i hc
      subst hc
      rfl
    · rfl
  · intro c hc
    apply if_neg
    rintro rfl
    cases hc

/-- An exchange of separators does not move a drive letter. -/
theorem drivePrefix_map {f : Char → Char} (colon : ∀ c, f c = ':' ↔ c = ':')
    (ascii : ∀ c, (f c).toNat < 128 ↔ c.toNat < 128) (path : Path) :
    drivePrefix (path.map f) =
      (drivePrefix path).map fun found => (f found.1, found.2.map f) := by
  cases path with
  | nil => rfl
  | cons letter rest =>
    cases rest with
    | nil => rfl
    | cons second rest =>
      by_cases hsecond : second = ':'
      · subst hsecond
        rw [List.map_cons, List.map_cons, (colon ':').mpr rfl]
        simp only [drivePrefix, ascii]
        split <;> rfl
      · have hmapped : f second ≠ ':' := fun h => hsecond ((colon second).mp h)
        simp [drivePrefix, hsecond, hmapped]

theorem components_rooted (dir : Path) :
    dirComponents (if dir.head? = some '\\' then dir else '\\' :: dir) = dirComponents dir := by
  split
  · rfl
  · exact fields_cons rfl dir

theorem components_trimmed (dir : Path) :
    dirComponents (if 1 < dir.length ∧ dir.getLast? = some '\\' then dir.dropLast else dir) =
      dirComponents dir := by
  split
  · rename_i h
    obtain ⟨front, rfl⟩ := List.getLast?_eq_some_iff.mp h.2
    rw [List.dropLast_concat]
    exact (fields_snoc rfl front).symm
  · rfl

theorem components_extended (dir rest : Path) :
    dirComponents ((if dir.getLast? = some '\\' then dir else dir ++ ['\\']) ++ rest) =
      dirComponents dir ++ dirComponents rest := by
  split
  · rename_i h
    obtain ⟨front, rfl⟩ := List.getLast?_eq_some_iff.mp h
    rw [List.append_assoc, List.singleton_append]
    have hfront : dirComponents (front ++ ['\\']) = dirComponents front := fields_snoc rfl front
    rw [hfront]
    exact fields_append rfl front rest
  · rw [List.append_assoc, List.singleton_append]
    exact fields_append rfl dir rest

theorem drivePrefix_toSlash (path : Path) :
    drivePrefix (path.map toSlash) =
      (drivePrefix path).map fun found => (toSlash found.1, found.2.map toSlash) := by
  apply drivePrefix_map
  · intro c
    unfold toSlash
    split
    · rename_i hc
      simp [hc]
    · rfl
  · intro c
    unfold toSlash
    split
    · rename_i hc
      simp [hc]
    · rfl

theorem drivePrefix_toBackslash (path : Path) :
    drivePrefix (path.map toBackslash) =
      (drivePrefix path).map fun found => (toBackslash found.1, found.2.map toBackslash) := by
  apply drivePrefix_map
  · intro c
    unfold toBackslash
    split
    · rename_i hc
      simp [hc]
    · rfl
  · intro c
    unfold toBackslash
    split
    · rename_i hc
      simp [hc]
    · rfl

theorem head_toBackslash (path : Path) :
    (path.map toBackslash).head? = some '\\' ↔ DirState.isRooted path = true := by
  cases path with
  | nil => simp [DirState.isRooted]
  | cons c path =>
    by_cases hc : c = '/'
    · simp [DirState.isRooted, isSeparator, toBackslash, hc]
    · simp [DirState.isRooted, isSeparator, toBackslash, hc]

theorem head_toSlash (path : Path) :
    ((path.map toSlash).head? == some '/') = DirState.isRooted path := by
  cases path with
  | nil => rfl
  | cons c path =>
    by_cases hc : c = '\\'
    · simp [DirState.isRooted, isSeparator, toSlash, hc]
    · simp [DirState.isRooted, isSeparator, toSlash, hc]

/-- What `DosSetCurrentDir` makes of the process manager's record. -/
theorem components_processDir (currentDir name : Path) :
    dirComponents (processDir currentDir name) =
      if (drivePrefix name).isSome ∨ DirState.isRooted name then
        dirComponents (DirState.pathPart name)
      else dirComponents currentDir ++ dirComponents name := by
  have hmap : (name.map fun c => if c = '/' then '\\' else c) = name.map toBackslash := rfl
  unfold processDir
  rw [hmap]
  simp only [components_trimmed, components_rooted, drivePrefix_toBackslash]
  cases hnamed : drivePrefix name with
  | some found => simp [DirState.pathPart, hnamed, components_toBackslash]
  | none =>
    simp only [Option.map_none, head_toBackslash, Option.isSome_none, Bool.false_eq_true, false_or]
    split
    · simp [DirState.pathPart, hnamed, components_toBackslash]
    · rw [components_extended, components_toBackslash]

theorem components_joinDir (dir rest : Path) :
    dirComponents (joinDir dir rest) = dirComponents dir ++ dirComponents rest := by
  unfold joinDir
  split
  · rename_i h
    rw [List.isEmpty_iff.mp h]
    rfl
  · exact fields_append rfl dir rest

theorem components_dropWhile (path : Path) :
    dirComponents ((path.map toSlash).dropWhile (· == '/')) = dirComponents path := by
  rw [← components_toSlash path]
  apply fields_dropWhile
  intro c hc
  rw [beq_iff_eq.mp hc]
  rfl

theorem dropWhile_isEmpty (path : Path) :
    ((path.map toSlash).dropWhile (· == '/')).isEmpty = true ↔ dirComponents path = [] := by
  rw [← components_dropWhile]
  cases hrest : (path.map toSlash).dropWhile (· == '/') with
  | nil => simp [dirComponents]
  | cons c rest =>
    have hmember : c ∈ path.map toSlash := by
      apply List.dropWhile_subset (· == '/')
      rw [hrest]
      exact List.mem_cons_self
    obtain ⟨old, _, hold⟩ := List.mem_map.mp hmember
    have hslash : (c == '/') = false := by
      have hhead := List.head?_dropWhile_not (· == '/') (path.map toSlash)
      rw [hrest] at hhead
      simpa using hhead
    have hsep : isSeparator c = false := by
      have hback : c ≠ '\\' := by
        rw [← hold]
        unfold toSlash
        split
        · decide
        · assumption
      simp [isSeparator, hback, hslash]
    simp [dirComponents, fields_ne_nil hsep]

variable {β : Type} {dm : DriveManager β}

/-- The last part of `resolve_path`, on what stands behind the drive letter. -/
theorem components_resolved {drive found : Nat} {rel : Path} (rest : Path)
    (h : (if (dm.drives drive).isNone then (.error .invalidDrive : VfsResult (Nat × Path))
      else if ((rest.map toSlash).dropWhile (· == '/')).isEmpty then
        .ok (drive, dm.currentDirs drive)
      else if (rest.map toSlash).head? == some '/' then
        .ok (drive, (rest.map toSlash).dropWhile (· == '/'))
      else .ok (drive, joinDir (dm.currentDirs drive) ((rest.map toSlash).dropWhile (· == '/')))) =
        .ok (found, rel)) :
    found = drive ∧ dirComponents rel =
      if DirState.isRooted rest ∧ dirComponents rest ≠ [] then dirComponents rest
      else dirComponents (dm.currentDirs drive) ++ dirComponents rest := by
  split at h
  · cases h
  split at h
  · rename_i hempty
    cases h
    have hnil := (dropWhile_isEmpty rest).mp hempty
    simp [hnil]
  · rename_i hempty
    have hne : dirComponents rest ≠ [] := fun hnil => hempty ((dropWhile_isEmpty rest).mpr hnil)
    rw [head_toSlash] at h
    split at h
    · rename_i hrooted
      cases h
      rw [if_pos ⟨hrooted, hne⟩]
      exact ⟨rfl, components_dropWhile rest⟩
    · rename_i hrooted
      cases h
      rw [if_neg (fun hboth => hrooted hboth.1), components_joinDir, components_dropWhile]
      exact ⟨rfl, rfl⟩

/-- What the drive manager makes of a path. -/
theorem resolvePath_ok {name rel : Path} {drive : Nat}
    (h : dm.resolvePath name = .ok (drive, rel)) :
    drive = DirState.namedDrive dm name ∧ dirComponents rel =
      if DirState.isRooted (DirState.pathPart name) ∧
          dirComponents (DirState.pathPart name) ≠ [] then
        dirComponents (DirState.pathPart name)
      else dirComponents (dm.currentDirs drive) ++ dirComponents (DirState.pathPart name) := by
  have hmap : (name.map fun c => if c = '\\' then '/' else c) = name.map toSlash := rfl
  unfold resolvePath at h
  rw [hmap] at h
  dsimp only at h
  rw [drivePrefix_toSlash] at h
  split at h
  · cases h
  · cases hnamed : drivePrefix name with
    | none =>
      simp only [hnamed, Option.map_none] at h
      obtain ⟨hdrive, hrel⟩ := components_resolved name h
      subst hdrive
      simpa [DirState.namedDrive, DirState.pathPart, hnamed] using hrel
    | some found =>
      simp only [hnamed, Option.map_some] at h
      split at h
      · rename_i hupper
        have hletter : toSlash found.1 = found.1 := by
          unfold toSlash
          split
          · rename_i hback
            rw [toSlash, if_pos hback] at hupper
            exact absurd hupper (by decide)
          · rfl
        rw [hletter] at h
        obtain ⟨hdrive, hrel⟩ := components_resolved found.2 h
        subst hdrive
        simpa [DirState.namedDrive, DirState.pathPart, hnamed] using hrel
      · cases h

theorem setCurrentDir_ok {next : DriveManager β} {name : Path}
    (h : dm.setCurrentDir name = .ok next) :
    next.currentDisk = dm.currentDisk ∧
      (∀ drive, drive ≠ DirState.namedDrive dm name →
        next.currentDirs drive = dm.currentDirs drive) ∧
      dirComponents (next.currentDirs (DirState.namedDrive dm name)) =
        if DirState.isRooted (DirState.pathPart name) ∧
            dirComponents (DirState.pathPart name) ≠ [] then
          dirComponents (DirState.pathPart name)
        else dirComponents (dm.currentDirs (DirState.namedDrive dm name)) ++
          dirComponents (DirState.pathPart name) := by
  unfold setCurrentDir at h
  obtain ⟨⟨drive, rel⟩, hresolved, h⟩ := except_bind_eq_ok.mp h
  cases h
  obtain ⟨rfl, hrel⟩ := resolvePath_ok hresolved
  refine ⟨rfl, fun drive hne => if_neg hne, ?_⟩
  rw [← hrel]
  simp

theorem setCurrentDisk_ok {next : DriveManager β} {diskOs2 : Nat}
    (h : dm.setCurrentDisk diskOs2 = .ok next) :
    next = { dm with currentDisk := diskOs2 - 1 } := by
  unfold setCurrentDisk at h
  split at h
  · cases h
  · split at h
    · cases h
    · cases h
      rfl

end Paths

namespace DirState

variable {β : Type} {state next : DirState β}

theorem plain_setCurrentDir {dm next : DriveManager β} {name : Path}
    (plain : ∀ drive, NoDots (dm.currentDirs drive)) (named : NoDots (pathPart name))
    (h : dm.setCurrentDir name = .ok next) (drive : Nat) : NoDots (next.currentDirs drive) := by
  obtain ⟨_, hothers, hnew⟩ := setCurrentDir_ok h
  by_cases hdrive : drive = namedDrive dm name
  · subst hdrive
    intro component hmember
    rw [hnew] at hmember
    split at hmember
    · exact named component hmember
    · rcases List.mem_append.mp hmember with hold | hlast
      · exact plain _ component hold
      · exact named component hlast
  · rw [hothers drive hdrive]
    exact plain drive

theorem inv_dosSetCurrentDir (inv : state.Inv) {name : Path}
    (allowed : state.Allowed (.dosSetCurrentDir name))
    (h : state.dosSetCurrentDir name = .ok next) : next.Inv := by
  obtain ⟨hplain, hallowed⟩ := allowed
  unfold dosSetCurrentDir at h
  obtain ⟨dm, hset, h⟩ := except_bind_eq_ok.mp h
  cases h
  refine ⟨?_, plain_setCurrentDir inv.plain hplain hset⟩
  obtain ⟨hdisk, hothers, hnew⟩ := setCurrentDir_ok hset
  unfold here
  dsimp only
  rw [hdisk, components_processDir]
  cases hnamed : DriveManager.drivePrefix name with
  | none =>
    have hpart : pathPart name = name := by simp [pathPart, hnamed]
    have hdrive : namedDrive state.driveMgr name = state.driveMgr.currentDisk := by
      simp [namedDrive, hnamed]
    rw [hpart, hdrive] at hnew
    simp only [hnamed, Option.isNone_none, if_true] at hallowed
    simp only [Option.isSome_none, Bool.false_eq_true, false_or, hpart]
    rw [hnew]
    split
    · rename_i hrooted
      by_cases hnil : dirComponents name = []
      · have hroot : dirComponents (state.driveMgr.currentDirs
            state.driveMgr.currentDisk) = [] := hallowed hrooted hnil
        simp [hnil, hroot]
      · rw [if_pos ⟨hrooted, hnil⟩]
    · rename_i hrooted
      rw [if_neg (fun hboth => hrooted hboth.1), inv.same]
      rfl
  | some found =>
    simp only [hnamed, Option.isNone_some, Bool.false_eq_true, if_false] at hallowed
    simp only [Option.isSome_some, true_or, if_true]
    split at hallowed
    · rename_i hdrive
      rw [← hdrive, hnew]
      rcases hallowed with hrooted | hroot
      · rw [if_pos hrooted]
      · have hcur : dirComponents (state.driveMgr.currentDirs
            (namedDrive state.driveMgr name)) = [] := by
          rw [hdrive]
          exact hroot
        rw [hcur, List.nil_append]
        split <;> rfl
    · rename_i hdrive
      rw [hothers _ (Ne.symm hdrive), hallowed]
      rfl

theorem components_shellDir (dir : Path) : dirComponents (shellDir dir) = dirComponents dir := by
  unfold shellDir
  split
  · rename_i hnil
    subst hnil
    exact fields_cons rfl []
  · exact components_rooted dir

theorem inv_setDisk (inv : state.Inv) {diskOs2 : Nat} {dm : DriveManager β} {disk : Nat}
    (same : dirComponents (state.driveMgr.currentDirs (diskOs2 - 1)) = state.here)
    (h : state.driveMgr.setCurrentDisk diskOs2 = .ok dm) :
    Inv ⟨dm, { state.processMgr with currentDisk := disk }⟩ := by
  have hdm := setCurrentDisk_ok h
  subst hdm
  exact ⟨inv.same.trans same.symm, inv.plain⟩

theorem inv_exec (inv : state.Inv) (call : DirCall) (allowed : state.Allowed call)
    (h : state.exec call = .ok next) : next.Inv := by
  cases call with
  | dosSetCurrentDir name => exact inv_dosSetCurrentDir inv allowed h
  | dosSetDefaultDisk diskNum =>
    simp only [exec, dosSetDefaultDisk] at h
    obtain ⟨dm, hset, h⟩ := except_bind_eq_ok.mp h
    cases h
    exact inv_setDisk inv allowed hset
  | cmdCd path =>
    simp only [exec, cmdCd] at h
    obtain ⟨dm, hset, h⟩ := except_bind_eq_ok.mp h
    cases h
    exact ⟨components_shellDir _, plain_setCurrentDir inv.plain allowed hset⟩
  | cmdChangeDrive diskOs2 =>
    simp only [exec, cmdChangeDrive] at h
    obtain ⟨dm, hset, h⟩ := except_bind_eq_ok.mp h
    cases h
    exact inv_setDisk inv allowed hset

theorem inv_initial (drives : Nat → Option β) : (initial drives).Inv where
  same := fields_cons rfl []
  plain := by
    intro drive component hmember
    simp [initial, DriveManager.new, dirComponents] at hmember

/-- After any allowed calls the two records of the working directory agree. -/
theorem allowed_dirs_agree (drives : Nat → Option β) (calls : List DirCall)
    (state : DirState β) (run : Run (step.guarded Allowed) (initial drives) calls state) :
    state.Sound := by
  have hinv : state.Inv := by
    refine run.invariant Inv ?_ (inv_initial drives)
    rintro start call finish inv ⟨hallowed, hstep⟩
    exact inv_exec inv call hallowed hstep
  exact sound_of_inv hinv

/-- Only drives C and D are there. -/
def twoDrives (drive : Nat) : Option MockBackend :=
  if drive = 2 ∨ drive = 3 then some .mk else none

/-- Down two levels of drive C, once with its letter. -/
theorem allowed_dirs_agree_descent :
    ∃ state, Run (step.guarded Allowed) (initial twoDrives)
      [.dosSetCurrentDir "C:\\TOOLS".toList, .dosSetCurrentDir "bin/".toList] state ∧
        state.Sound := by
  have hrun : ∃ state, Run (step.guarded Allowed) (initial twoDrives)
      [.dosSetCurrentDir "C:\\TOOLS".toList, .dosSetCurrentDir "bin/".toList] state := by
    refine ⟨_, .cons ⟨⟨?_, ?_⟩, rfl⟩ (.cons ⟨⟨?_, ?_⟩, rfl⟩ (.nil _))⟩
    · unfold NoDots
      decide
    · exact Or.inl (by decide)
    · unfold NoDots
      decide
    · intro hrooted
      exact absurd hrooted (by decide)
  obtain ⟨state, run⟩ := hrun
  exact ⟨state, run, allowed_dirs_agree twoDrives _ state run⟩

/-- In `TOOLS` of drive C the guest moves to drive D, which is at its root. -/
theorem default_disk_leaves_dir :
    ¬ ∀ (drives : Nat → Option MockBackend) (calls : List DirCall)
        (state : DirState MockBackend),
      Run step (initial drives) calls state → state.Sound := by
  intro claim
  have hsound := claim twoDrives [.dosSetCurrentDir "TOOLS".toList, .dosSetDefaultDisk 4] _
    (.cons rfl (.cons rfl (.nil _)))
  exact absurd hsound.agree (by decide)

end DirState
end Warpine.Vfs
