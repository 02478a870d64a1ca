import Mathlib.Algebra.Order.BigOperators.Group.List
import Mathlib.Algebra.Ring.Nat
import Mathlib.Data.List.DropRight
import Mathlib.Data.Nat.Cast.Basic
import Mathlib.Data.Char
import Mathlib.Data.List.Lex
import Mathlib.Data.List.Sort
import Warpine.Loader.FindSearch
import Warpine.Vfs.AbsolutePaths
import Warpine.Vfs.CaseDistinct
import Warpine.Vfs.Wildcards

/-! `DIR` of the command interpreter. It joins a search pattern from the drive, its current
directory and the argument, and lists what the search finds. -/
namespace Warpine.Cmd
open Warpine.Lib Posix Warpine.Vfs DriveManager Warpine.Loader

section Text

def padded (width : Nat) (fill : Char) (n : Nat) : Path := (Nat.toDigits 10 n).leftpad width fill

def formatDosDate (date : UInt16) : Path :=
  let day := (date &&& 0x1F).toNat
  let month := (date >>> 5 &&& 0x0F).toNat
  let year := (date >>> 9 &&& 0x7F).toNat + 1980
  padded 2 '0' month ++ '-' :: padded 2 '0' day ++ '-' :: padded 2 '0' (year % 100)

def formatDosTime (time : UInt16) : Path :=
  let hour := (time >>> 11 &&& 0x1F).toNat
  let minute := (time >>> 5 &&& 0x3F).toNat
  let (h12, ampm) :=
    if hour = 0 then (12, 'a')
    else if hour < 12 then (hour, 'a')
    else if hour = 12 then (12, 'p')
    else (hour - 12, 'p')
  padded 2 ' ' h12 ++ ':' :: padded 2 '0' minute ++ [ampm]

example : formatDosTime 0x6BC0 = " 1:30p".toList := by decide

end Text

def isDir (entry : DirEntry) : Bool := entry.status.attributes.contains .directory

structure DirListing where
  entries : List DirEntry
  fileCount : UInt32
  dirCount : UInt32
  totalBytes : UInt64
deriving DecidableEq

/-- The search pattern, which is also shown in the header without its star. -/
structure DirOutput where
  pattern : Path
  listing : Option DirListing

def trimEnd (path : Path) : Path := path.rdropWhile isSeparator

/-- The pattern is the trimmed argument with a star behind a separator, or the current
directory with a star. An argument with wildcards and no separator at its end is the pattern. -/
def dirPattern {β : Type} (dm : DriveManager β) (args : List Path) : Path :=
  match args with
  | pathArg :: _ =>
    let p := trimEnd pathArg
    if pathArg.getLast?.any isSeparator then p ++ ['\\', '*']
    else if '*' ∈ pathArg ∨ '?' ∈ pathArg then pathArg
    else p ++ ['\\', '*']
  | [] =>
    let driveLetter := Char.ofNat ('A'.toNat + dm.currentDisk)
    let cur := dm.currentDirs dm.currentDisk
    let base := if cur = [] then [driveLetter, ':', '\\'] else driveLetter :: ':' :: '\\' :: cur
    base ++ ['*']

/-- All further entries of a search, until it fails. -/
def collect (handle : Nat) : Nat → DriveManager HostDir → List DirEntry × DriveManager HostDir
  | 0, dm => ([], dm)
  | turns + 1, dm => match dm.findNext handle with
    | (.error _, dm) => ([], dm)
    | (.ok entry, dm) =>
      let (entries, dm) := collect handle turns dm
      (entry :: entries, dm)

def tallyEntry (listing : DirListing) (entry : DirEntry) : DirListing :=
  if isDir entry then { listing with dirCount := listing.dirCount + 1 }
  else { listing with
    fileCount := listing.fileCount + 1
    totalBytes := listing.totalBytes + entry.status.fileSize.toUInt64 }

def tally (entries : List DirEntry) : DirListing := entries.foldl tallyEntry ⟨entries, 0, 0, 0⟩

section Command
variable (toUppercase : Path → Path)

/-- Directories first, then by name. -/
def entryLe (a b : DirEntry) : Bool :=
  match isDir a, isDir b with
  | true, false => true
  | false, true => false
  | _, _ => toUppercase a.name ≤ toUppercase b.name

def cmdDir (dm : DriveManager HostDir) (args : List Path) : DirOutput × DriveManager HostDir :=
  let pattern := dirPattern dm args
  match dm.findFirst pattern ⟨0x37⟩ 1 with
  | (.error _, dm) => (⟨pattern, none⟩, dm)
  | (.ok (handle, first), dm) =>
    -- every turn pulls an entry, and the last one finds the end
    let turns := ((remaining dm handle).getD []).length + 1
    let (rest, dm) := collect handle turns dm
    let entries := (first :: rest).mergeSort (entryLe toUppercase)
    (⟨pattern, some (tally entries)⟩, (dm.findClose handle).2)

end Command

def entryLine (entry : DirEntry) : Path :=
  let stamp := formatDosDate entry.status.lastWriteDate ++ "  ".toList ++
    formatDosTime entry.status.lastWriteTime
  if isDir entry then stamp ++ "    <DIR>          ".toList ++ entry.name
  else stamp ++ "   ".toList ++ padded 12 ' ' entry.status.fileSize.toNat ++ "  ".toList ++ entry.name

def DirListing.lines (listing : DirListing) : List Path :=
  listing.entries.map entryLine ++ [[],
    "       ".toList ++ padded 3 ' ' listing.fileCount.toNat ++ " file(s)  ".toList ++
      padded 12 ' ' listing.totalBytes.toNat ++ " bytes".toList,
    "       ".toList ++ padded 3 ' ' listing.dirCount.toNat ++ " dir(s)".toList]

/-- What is written to the screen. -/
def DirOutput.lines (output : DirOutput) : List Path :=
  (" Directory of ".toList ++ (output.pattern.rdropWhile (· = '*')).rdropWhile (· = '\\')) ::
    [] :: match output.listing with
      | none => ["File not found.".toList]
      | some listing => listing.lines

section Directory

/-- The directory that a volume finds under a path: in the sandbox, and readable. -/
def searchDir (volume : HostDir) (rel : Path) : Option HostPath :=
  (if rel = [] then some volume.root else (volume.resolveCi rel).1).filter fun dir =>
    (volume.enforceSandbox dir).isOk && (volume.tree.readDir dir).isSome

def shown (name : Name) (node : Option (Node Attrs)) : Option DirEntry :=
  node.map fun node => ⟨name, metadataToFileStatus node⟩

/-- The entries of a directory: itself, the one above, and the names in it. -/
def entriesIn (volume : HostDir) (dir : HostPath) : List DirEntry :=
  (shown dot (volume.tree.lookup dir)).toList ++
    (shown dotDot (volume.tree.lookup ((parent dir).getD dir))).toList ++
      ((volume.tree.readDir dir).getD []).filterMap fun name =>
        shown name (volume.tree.entry dir name)

/-- A path behind its drive letter, from the root or from a directory. -/
def pathFrom (dir part : Path) : Path :=
  if DirState.isRooted part then ((trimEnd part).map toSlash).dropWhile (· == '/')
  else joined dir (trimEnd part)

/-- A separator at the end adds nothing to a directory's path. -/
def withoutSlash (dir : Path) : Path :=
  if dir.getLast? = some '/' then dir.dropLast else dir

/-- The directory that the command is asked for: its drive and its path on it. -/
def directoryOf {β : Type} (dm : DriveManager β) (args : List Path) : VfsResult (Nat × Path) :=
  match args with
  | [] => .ok (dm.currentDisk, withoutSlash (dm.currentDirs dm.currentDisk))
  | arg :: _ => (designated dm arg).map fun drive =>
    (drive, pathFrom (dm.currentDirs drive) (DirState.pathPart arg))

/-- It is there, on a volume. -/
structure Named (dm : DriveManager HostDir) (args : List Path) (volume : HostDir)
    (place : HostPath) : Prop where
  directory : ∃ drive rel, directoryOf dm args = .ok (drive, rel) ∧
    dm.drives drive = some volume ∧ searchDir volume rel = some place
  noWildcards : ∀ arg ∈ args.head?, '*' ∉ arg ∧ '?' ∉ arg

/-- The listing is that of the directory, and counts it. -/
structure Lists (volume : HostDir) (place : HostPath) (listing : DirListing) : Prop where
  exact : listing.entries.Perm (entriesIn volume place)
  once : (listing.entries.map DirEntry.name).Nodup
  files : listing.fileCount.toNat = listing.entries.countP fun entry => ! isDir entry
  dirs : listing.dirCount.toNat = listing.entries.countP isDir
  bytes : listing.totalBytes.toNat =
    ((listing.entries.filter fun entry => ! isDir entry).map fun entry =>
      entry.status.fileSize.toNat).sum

/-- What a search finds in one directory is all that is in another. -/
def SameEntries (volume : HostDir) (above pattern : Path) (place : HostPath) : Prop :=
  ∃ dir, searchDir volume above = some dir ∧
    ((entriesIn volume dir).filter fun entry => wildcardMatch pattern entry.name).Perm
      (entriesIn volume place)

/-- The pattern says where to search. Without an argument it does at the root and where the
current directory ends in a separator; otherwise the star makes the directory's name a prefix
of names in the directory above. A bare drive letter says the root of that drive. -/
def SaysWhere (dm : DriveManager HostDir) (args : List Path) (volume : HostDir)
    (place : HostPath) : Prop :=
  match args with
  | [] =>
    let cur := dm.currentDirs dm.currentDisk
    cur = [] ∨ cur.getLast? = some '/' ∨
      SameEntries volume (HostDir.splitLast cur).1 ((HostDir.splitLast cur).2 ++ ['*']) place
  | arg :: _ =>
    DirState.pathPart arg ≠ [] ∨ dm.currentDirs (DirState.namedDrive dm arg) = [] ∨
      SameEntries volume [] ['*'] place

/-- The counters have room. -/
def Countable (volume : HostDir) (place : HostPath) : Prop :=
  (entriesIn volume place).countP isDir < 2 ^ 32 ∧
    (entriesIn volume place).countP (fun entry => ! isDir entry) < 2 ^ 32

end Directory

/-- The current directories are as `resolve_path` leaves them. -/
structure Settled {β : Type} (dm : DriveManager β) : Prop where
  disk : dm.currentDisk < 26
  slashes : ∀ drive, '\\' ∉ dm.currentDirs drive
  relative : ∀ drive, (dm.currentDirs drive).head? ≠ some '/'

/-- A volume as the host gives it, where no name is listed twice. -/
structure Hosted (volume : HostDir) : Prop where
  regular : volume.Regular
  once : ∀ dir names, volume.tree.names dir = some names → names.Nodup

section Search

theorem starMatch_isEmpty (name : Name) : starMatch (fun rest => rest.isEmpty) name = true := by
  induction name with
  | nil => rfl
  | cons c name ih => simp [starMatch, ih]

theorem wildcardMatch_star (name : Name) : wildcardMatch ['*'] name = true :=
  starMatch_isEmpty _

/-- The filter of the command lets every entry through. -/
theorem attributesMatch_all (attributes : FileAttribute) :
    attributesMatch attributes ⟨0x37⟩ = true := by
  have narrow : ∀ bits : UInt32, bits &&& 0x16 &&& 0x37 = bits &&& 0x16 := by
    intro bits
    rw [UInt32.and_assoc]
    rfl
  have gated : FileAttribute.hidden.bits ||| FileAttribute.system.bits |||
    FileAttribute.directory.bits = 0x16 := by decide
  simp only [attributesMatch, gated, narrow]
  simp

variable {volume : HostDir} {dir : HostPath} {names : List Name}

/-- What a search captures is what of the directory's entries its pattern matches. -/
theorem capture_eq (listed : volume.tree.readDir dir = some names) (pattern : Path) :
    volume.capture dir names pattern ⟨0x37⟩ =
      (entriesIn volume dir).filter fun entry => wildcardMatch pattern entry.name := by
  have dots : ∀ name path, volume.dotEntry name path pattern ⟨0x37⟩ =
      (shown name (volume.tree.lookup path)).toList.filter fun entry =>
        wildcardMatch pattern entry.name := by
    intro name path
    have directory : FileAttribute.contains ⟨0x37⟩ .directory = true := by decide
    rw [HostDir.dotEntry, directory, Bool.and_true, shown]
    cases volume.tree.lookup path with
    | none => simp
    | some node =>
      by_cases found : wildcardMatch pattern name = true <;> simp [found]
  have rest : volume.listedEntries dir names pattern ⟨0x37⟩ =
      (names.filterMap fun name => shown name (volume.tree.entry dir name)).filter fun entry =>
        wildcardMatch pattern entry.name := by
    rw [HostDir.listedEntries, List.filterMap_filter, List.filter_filterMap]
    congr 1
    funext name
    rw [shown]
    cases volume.tree.entry dir name with
    | none => simp
    | some node =>
      by_cases found : wildcardMatch pattern name = true <;>
        simp [Option.filter, found, attributesMatch_all]
  rw [HostDir.capture, dots, dots, rest, entriesIn, listed, Option.getD_some, List.filter_append,
    List.filter_append]

theorem resolveCi_keeps (regular : volume.Regular) (rel : Path) :
    HostDir.Resolves volume (volume.resolveCi rel).2 := (HostDir.resolveCi_spec regular rfl).1

/-- What a search finds, in terms of the directory that it is in. -/
def searchEntries (volume : HostDir) (pattern : Path) : List DirEntry :=
  match searchDir volume (HostDir.splitLast pattern).1 with
  | none => []
  | some dir => (entriesIn volume dir).filter fun entry =>
      wildcardMatch (HostDir.splitLast pattern).2 entry.name

/-- A search holds what it finds, its first entry pulled. -/
theorem findFirst_eq (regular : volume.Regular) (pattern : Path) :
    match searchEntries volume pattern with
    | [] => ∃ error next, volume.findFirst pattern ⟨0x37⟩ = (.error error, next)
    | first :: rest => ∃ handle next, volume.findFirst pattern ⟨0x37⟩ = (.ok (handle, first), next) ∧
        next.finds handle.id = some ⟨first :: rest, 1⟩ := by
  unfold searchEntries searchDir HostDir.findFirst
  generalize HostDir.splitLast pattern = parts
  obtain ⟨dirPart, filePattern⟩ := parts
  dsimp only
  have resolved : ∃ cache, (if dirPart = [] then (some volume.root, volume)
        else volume.resolveCi dirPart) =
      (if dirPart = [] then some volume.root else (volume.resolveCi dirPart).1,
        { volume with dirCache := cache }) := by
    split
    · exact ⟨volume.dirCache, rfl⟩
    · exact ⟨_, Prod.ext rfl (resolveCi_keeps regular dirPart).same⟩
  obtain ⟨cache, resolved⟩ := resolved
  rw [resolved]
  generalize (if dirPart = [] then some volume.root else (volume.resolveCi dirPart).1) = found
  cases found with
  | none => exact ⟨_, _, rfl⟩
  | some dir =>
    have sandbox : HostDir.enforceSandbox { volume with dirCache := cache } dir =
      volume.enforceSandbox dir := rfl
    dsimp only
    rw [sandbox, Option.filter_some]
    cases volume.enforceSandbox dir with
    | error e => exact ⟨_, _, rfl⟩
    | ok _ =>
      cases listed : volume.tree.readDir dir with
      | none => exact ⟨_, _, rfl⟩
      | some names =>
        have captured : HostDir.capture { volume with dirCache := cache } dir names filePattern
          ⟨0x37⟩ = _ := capture_eq listed filePattern
        simp only [Except.isOk, Except.toBool, Option.isSome_some, Bool.and_self, if_true, captured]
        cases (entriesIn volume dir).filter fun entry => wildcardMatch filePattern entry.name with
        | nil => exact ⟨_, _, rfl⟩
        | cons first rest => exact ⟨_, _, rfl, Table.insert_self ..⟩

end Search

section Listing
variable {dm : DriveManager HostDir} {volume : HostDir} {place : HostPath}

theorem collect_eq {handle : Nat} {entries : List DirEntry}
    (h : remaining dm handle = some entries) :
    (collect handle (entries.length + 1) dm).1 = entries := by
  induction entries generalizing dm with
  | nil =>
    obtain ⟨error, next, ended, _⟩ := findNext_nil h
    rw [collect, ended]
  | cons entry entries ih =>
    obtain ⟨next, pulled, rest, _⟩ := findNext_cons h
    rw [List.length_cons, collect, pulled]
    exact congrArg _ (ih rest)

theorem foldl_tallyEntry (entries : List DirEntry) (start : DirListing) :
    (entries.foldl tallyEntry start).entries = start.entries ∧
    (entries.foldl tallyEntry start).fileCount.toNat =
      (start.fileCount.toNat + entries.countP fun entry => ! isDir entry) % 2 ^ 32 ∧
    (entries.foldl tallyEntry start).dirCount.toNat =
      (start.dirCount.toNat + entries.countP isDir) % 2 ^ 32 ∧
    (entries.foldl tallyEntry start).totalBytes.toNat = (start.totalBytes.toNat +
      ((entries.filter fun entry => ! isDir entry).map fun entry =>
        entry.status.fileSize.toNat).sum) % 2 ^ 64 := by
  induction entries generalizing start with
  | nil =>
    have files := start.fileCount.toNat_lt
    have dirs := start.dirCount.toNat_lt
    have bytes := start.totalBytes.toNat_lt
    simp only [List.foldl_nil, List.countP_nil, List.filter_nil, List.map_nil, List.sum_nil,
      Nat.add_zero]
    exact ⟨trivial, (Nat.mod_eq_of_lt files).symm, (Nat.mod_eq_of_lt dirs).symm,
      (Nat.mod_eq_of_lt bytes).symm⟩
  | cons entry entries ih =>
    obtain ⟨same, files, dirs, bytes⟩ := ih (tallyEntry start entry)
    rw [List.foldl_cons, same, files, dirs, bytes]
    cases directory : isDir entry with
    | true =>
      simp only [tallyEntry, directory, if_true, List.countP_cons, Bool.not_true, Bool.false_eq_true,
        if_false, List.filter_cons, UInt32.toNat_add, UInt32.toNat_one]
      refine ⟨trivial, rfl, ?_, trivial⟩
      omega
    | false =>
      simp only [tallyEntry, directory, if_true, List.countP_cons, Bool.not_false,
        Bool.false_eq_true, if_false, List.filter_cons, List.map_cons, List.sum_cons,
        UInt32.toNat_add, UInt32.toNat_one, UInt64.toNat_add, UInt32.toNat_toUInt64]
      refine ⟨trivial, ?_, rfl, ?_⟩
      · omega
      · omega

theorem cmdDir_listing (toUppercase : Path → Path) {args : List Path} {drive : Nat} {rel : Path}
    (resolved : dm.resolvePath (dirPattern dm args) = .ok (drive, rel))
    (mounted : dm.drives drive = some volume) (regular : volume.Regular) :
    (cmdDir toUppercase dm args).1.listing =
      if searchEntries volume rel = [] then none
      else some (tally ((searchEntries volume rel).mergeSort (entryLe toUppercase))) := by
  have search := findFirst_eq regular rel
  unfold cmdDir DriveManager.findFirst
  dsimp only
  rw [resolved]
  dsimp only
  rw [mounted]
  dsimp only [VfsBackend.findFirst]
  cases found : searchEntries volume rel with
  | nil =>
    rw [found] at search
    obtain ⟨error, next, failed⟩ := search
    rw [failed]
    rfl
  | cons first rest =>
    rw [found] at search
    obtain ⟨handle, next, opened, finds⟩ := search
    rw [opened, if_neg (List.cons_ne_nil _ _)]
    dsimp only
    have left : remaining { dm.mount drive next with
        nextFindHandle := wrapAdd dm.nextFindHandle 1
        findHandles := dm.findHandles.insert dm.nextFindHandle ⟨drive, handle, 1⟩ }
      dm.nextFindHandle = some rest := by
      simp [remaining, searchState, DriveManager.mount, finds]
    rw [left, Option.getD_some, collect_eq left]

theorem searchDir_listed {rel : Path} (found : searchDir volume rel = some place) :
    ∃ names, volume.tree.readDir place = some names := by
  obtain ⟨_, holds⟩ := Option.filter_eq_some_iff.mp found
  rw [Bool.and_eq_true] at holds
  exact Option.isSome_iff_exists.mp holds.2

/-- Every directory has an entry for itself. -/
theorem entriesIn_ne_nil {names : List Name} (listed : volume.tree.readDir place = some names) :
    entriesIn volume place ≠ [] := by
  intro none_
  obtain ⟨node, here, _⟩ := Option.bind_eq_some_iff.mp listed
  rw [entriesIn, here] at none_
  exact absurd none_ (List.cons_ne_nil _ _)

theorem shown_name {name : Name} {node : Option (Node Attrs)} {entry : DirEntry}
    (h : shown name node = some entry) : entry.name = name := by
  obtain ⟨_, _, rfl⟩ := Option.map_eq_some_iff.mp h
  rfl

/-- No two entries of a directory have one name. -/
theorem entriesIn_once (host : Hosted volume) (dir : HostPath) :
    ((entriesIn volume dir).map DirEntry.name).Nodup := by
  have dots : ∀ (name : Name) node, ((shown name node).toList.map DirEntry.name).Sublist [name] := by
    intro name node
    cases node with
    | none => exact List.nil_sublist _
    | some node => exact List.Sublist.refl _
  have listed : ∀ names : List Name, ((names.filterMap fun name =>
      shown name (volume.tree.entry dir name)).map DirEntry.name).Sublist names := by
    intro names
    induction names with
    | nil => exact List.Sublist.refl _
    | cons name names ih =>
      rw [List.filterMap_cons]
      cases here : shown name (volume.tree.entry dir name) with
      | none => exact ih.cons name
      | some entry =>
        rw [List.map_cons, shown_name here]
        exact ih.cons_cons name
  have names : (dot :: dotDot :: (volume.tree.readDir dir).getD []).Nodup := by
    have differ : dot ≠ dotDot := by decide
    cases found : volume.tree.readDir dir with
    | none => simp [differ]
    | some names =>
      obtain ⟨place, _, at_place⟩ := HostDir.readDir_eq_some found
      have formed := host.regular.wellFormed.toFormed
      have noDot : ∀ name ∈ names, name ≠ dot ∧ name ≠ dotDot := fun name member =>
        formed.plain place name ((formed.listed place names at_place name).mp member)
      rw [Option.getD_some, List.nodup_cons, List.nodup_cons, List.mem_cons, not_or]
      exact ⟨⟨differ, fun member => (noDot dot member).1 rfl⟩,
        fun member => (noDot dotDot member).2 rfl, host.once place names at_place⟩
  rw [entriesIn, List.map_append, List.map_append]
  exact names.sublist (((dots _ _).append (dots _ _)).append (listed _))

theorem countP_perm_iff {entries other : List DirEntry} (same : entries.Perm other)
    (test : DirEntry → Bool) : entries.countP test % 2 ^ 32 = entries.countP test ↔
      other.countP test < 2 ^ 32 := by
  rw [same.countP_eq, Nat.mod_eq_iff_lt (by decide)]

/-- The sizes of fewer than 2 ^ 32 files have room in 64 bits. -/
theorem bytes_lt (entries : List DirEntry) (few : entries.length < 2 ^ 32) :
    (entries.map fun entry => entry.status.fileSize.toNat).sum < 2 ^ 64 := by
  have each : ∀ size ∈ entries.map fun entry => entry.status.fileSize.toNat, size ≤ 2 ^ 32 - 1 := by
    intro size member
    obtain ⟨entry, _, rfl⟩ := List.mem_map.mp member
    have := entry.status.fileSize.toNat_lt
    omega
  have total := List.sum_le_card_nsmul _ _ each
  rw [List.length_map, nsmul_eq_mul, Nat.cast_id] at total
  omega

theorem tally_lists (host : Hosted volume) {entries : List DirEntry} :
    Lists volume place (tally entries) ↔
      entries.Perm (entriesIn volume place) ∧ Countable volume place := by
  obtain ⟨same, files, dirs, bytes⟩ := foldl_tallyEntry entries ⟨entries, 0, 0, 0⟩
  simp only [UInt32.toNat_zero, UInt64.toNat_zero, Nat.zero_add] at files dirs bytes
  constructor
  · intro lists
    have perm := lists.exact
    have files_ := lists.files
    have dirs_ := lists.dirs
    unfold tally at perm files_ dirs_
    rw [same] at perm files_ dirs_
    rw [files, countP_perm_iff perm] at files_
    rw [dirs, countP_perm_iff perm] at dirs_
    exact ⟨perm, dirs_, files_⟩
  · intro ⟨perm, dirCount, fileCount⟩
    have few : (entries.filter fun entry => ! isDir entry).length < 2 ^ 32 := by
      rw [← List.countP_eq_length_filter, perm.countP_eq]
      exact fileCount
    unfold tally
    refine ⟨?_, ?_, ?_, ?_, ?_⟩
    · rw [same]
      exact perm
    · rw [same]
      exact (perm.map _).nodup_iff.mpr (entriesIn_once host place)
    · rw [files, same, countP_perm_iff perm]
      exact fileCount
    · rw [dirs, same, countP_perm_iff perm]
      exact dirCount
    · rw [bytes, same]
      exact Nat.mod_eq_of_lt (bytes_lt _ few)

/-- The command does right just where its search finds all of the directory and no more. -/
theorem cmdDir_lists_iff (toUppercase : Path → Path) {args : List Path} {drive : Nat}
    {rel here : Path} (resolved : dm.resolvePath (dirPattern dm args) = .ok (drive, rel))
    (mounted : dm.drives drive = some volume) (host : Hosted volume)
    (found : searchDir volume here = some place) :
    (∃ listing, (cmdDir toUppercase dm args).1.listing = some listing ∧
        Lists volume place listing) ↔
      SameEntries volume (HostDir.splitLast rel).1 (HostDir.splitLast rel).2 place ∧
        Countable volume place := by
  obtain ⟨names, listed⟩ := searchDir_listed found
  have some_ := entriesIn_ne_nil listed
  have same : SameEntries volume (HostDir.splitLast rel).1 (HostDir.splitLast rel).2 place ↔
      (searchEntries volume rel).Perm (entriesIn volume place) := by
    unfold SameEntries searchEntries
    cases searchDir volume (HostDir.splitLast rel).1 with
    | none => simp [List.nil_perm, some_]
    | some dir => simp
  rw [cmdDir_listing toUppercase resolved mounted host.regular, same]
  by_cases none_ : searchEntries volume rel = []
  · rw [none_, if_pos rfl, List.nil_perm]
    simp [some_]
  · rw [if_neg none_]
    simp only [Option.some_inj, exists_eq_left']
    rw [tally_lists host]
    have sorted := List.mergeSort_perm (searchEntries volume rel) (entryLe toUppercase)
    rw [sorted.congr_left]

end Listing

section Pattern

theorem splitLast_slash (front last : Path) (plain : '/' ∉ last) :
    HostDir.splitLast (front ++ '/' :: last) = (front, last) := by
  have reversed : (front ++ '/' :: last).reverse = last.reverse ++ '/' :: front.reverse := by simp
  have all : ∀ c ∈ last.reverse, decide (c ≠ '/') = true := by
    intro c member
    exact decide_eq_true fun eq => plain (eq ▸ List.mem_reverse.mp member)
  have taken : ((front ++ '/' :: last).reverse.takeWhile (· ≠ '/')).reverse = last := by
    rw [reversed, List.takeWhile_append_of_pos all]
    simp
  have short : (front ++ '/' :: last).length - last.length - 1 = front.length := by
    simp only [List.length_append, List.length_cons]
    omega
  rw [HostDir.splitLast, taken, short, List.take_left]

theorem splitLast_star (path : Path) : HostDir.splitLast (path ++ ['*']) =
    ((HostDir.splitLast path).1, (HostDir.splitLast path).2 ++ ['*']) := by
  have short := (List.takeWhile_sublist (p := fun c : Char => decide (c ≠ '/'))
    (l := path.reverse)).length_le
  rw [List.length_reverse] at short
  simp only [HostDir.splitLast, List.reverse_append, List.reverse_singleton, List.singleton_append]
  rw [List.takeWhile_cons_of_pos (by decide), List.reverse_cons, List.length_append,
    List.length_append, List.take_append_of_le_length (by simp; omega)]
  simp

variable {c : Char}

theorem trimEnd_last {path front : Path} (h : trimEnd path = front ++ [c]) :
    isSeparator c = false := by
  have some_ : path.rdropWhile isSeparator ≠ [] := by
    rw [show path.rdropWhile isSeparator = _ from h]
    simp
  have last := List.rdropWhile_last_not isSeparator path some_
  simp only [show path.rdropWhile isSeparator = _ from h, List.getLast_append_singleton] at last
  simpa using last

theorem trimEnd_cases (path : Path) : trimEnd path = [] ∨
    (∃ c, trimEnd path = [c] ∧ isSeparator c = false ∧ path.head? = some c) ∨
    ∃ c d rest back, trimEnd path = c :: d :: rest ∧ path = c :: d :: back := by
  obtain ⟨back, whole⟩ := List.rdropWhile_prefix isSeparator (l := path)
  change trimEnd path ++ back = path at whole
  match h : trimEnd path with
  | [] => exact Or.inl rfl
  | [c] => exact Or.inr (Or.inl ⟨c, rfl, @trimEnd_last _ path [] h, by rw [← whole, h]; rfl⟩)
  | c :: d :: rest =>
    exact Or.inr (Or.inr ⟨c, d, rest, rest ++ back, rfl, by rw [← whole, h]; rfl⟩)

theorem drivePrefix_other {d : Char} (rest : Path) (h : d ≠ ':') :
    drivePrefix (c :: d :: rest) = none := by
  unfold drivePrefix
  split
  · simp_all
  · rfl

/-- What stands behind the drive letter is trimmed and searched like a path without one. -/
theorem drivePrefix_pattern (arg : Path) : drivePrefix (trimEnd arg ++ ['\\', '*']) =
    (drivePrefix arg).map fun found => (found.1, trimEnd found.2 ++ ['\\', '*']) := by
  match arg with
  | [] => rfl
  | [c] =>
    rw [show drivePrefix [c] = none from rfl]
    rcases trimEnd_cases [c] with none_ | ⟨d, one, _, _⟩ | ⟨_, _, _, _, _, two⟩
    · rw [none_]
      rfl
    · rw [one]
      exact drivePrefix_other _ (by decide)
    · cases two
  | c :: d :: rest =>
    by_cases colon : d = ':'
    · subst colon
      have kept : trimEnd (c :: ':' :: rest) = c :: ':' :: trimEnd rest :=
        rdropWhile_stop (by decide) [c] rest
      rw [kept]
      simp only [List.cons_append, drivePrefix]
      split <;> rfl
    · rw [drivePrefix_other rest colon]
      rcases trimEnd_cases (c :: d :: rest) with none_ | ⟨e, one, _, _⟩ | ⟨_, _, _, _, two, same⟩
      · rw [none_]
        rfl
      · rw [one]
        exact drivePrefix_other _ (by decide)
      · cases same
        rw [two]
        exact drivePrefix_other _ colon

theorem pathPart_pattern (arg : Path) : DirState.pathPart (trimEnd arg ++ ['\\', '*']) =
    trimEnd (DirState.pathPart arg) ++ ['\\', '*'] := by
  unfold DirState.pathPart
  rw [drivePrefix_pattern]
  cases drivePrefix arg <;> rfl

theorem doubled_pattern {x : Char} (hx : isSeparator x = true) {arg : Path}
    (h : [x, x].isPrefixOf arg = false) : [x, x].isPrefixOf (trimEnd arg ++ ['\\', '*']) = false := by
  rcases trimEnd_cases arg with none_ | ⟨d, one, plain, _⟩ | ⟨d, e, rest, back, two, same⟩
  · rw [none_]
    by_cases star : x = '*'
    · rw [star] at hx
      exact absurd hx (by decide)
    · simp [List.isPrefixOf, star]
  · rw [one]
    have differ : x ≠ d := fun eq => by rw [eq, plain] at hx; cases hx
    simp [List.isPrefixOf, differ]
  · rw [two]
    rw [same] at h
    simpa [List.isPrefixOf] using h

theorem designated_pattern {β : Type} {dm : DriveManager β} {arg : Path} {drive : Nat}
    (h : designated dm arg = .ok drive) :
    designated dm (trimEnd arg ++ ['\\', '*']) = .ok drive := by
  have named : DirState.namedDrive dm (trimEnd arg ++ ['\\', '*']) = DirState.namedDrive dm arg := by
    unfold DirState.namedDrive
    rw [drivePrefix_pattern]
    cases drivePrefix arg <;> rfl
  have letter : ((drivePrefix (trimEnd arg ++ ['\\', '*'])).any fun found =>
      !found.1.toUpper.isUpper) = (drivePrefix arg).any fun found => !found.1.toUpper.isUpper := by
    rw [drivePrefix_pattern]
    cases drivePrefix arg <;> rfl
  unfold designated at h ⊢
  rw [named, letter]
  split at h
  · cases h
  · rename_i unc
    rw [Bool.or_eq_true, not_or, Bool.not_eq_true, Bool.not_eq_true] at unc
    rw [doubled_pattern (by decide) unc.1, doubled_pattern (by decide) unc.2]
    exact h

theorem head_trimEnd {part : Path} (some_ : trimEnd part ≠ []) :
    part.head? = (trimEnd part).head? := by
  rcases trimEnd_cases part with none_ | ⟨c, one, _, first⟩ | ⟨c, d, rest, back, two, same⟩
  · exact absurd none_ some_
  · rw [one, first]
    rfl
  · rw [two, same]
    rfl

/-- A trimmed path does not end in a separator. -/
theorem dropWhile_trimEnd {part : Path} (some_ : trimEnd part ≠ []) :
    (((trimEnd part).map toSlash).dropWhile (· == '/')).isEmpty = false := by
  obtain ⟨front, c, last⟩ := (List.eq_nil_or_concat (trimEnd part)).resolve_left some_
  rw [List.concat_eq_append] at last
  have other := trimEnd_last last
  have plain : toSlash c ≠ '/' := by
    intro slash
    unfold toSlash at slash
    split at slash
    · rename_i back
      rw [back] at other
      exact absurd other (by decide)
    · rw [slash] at other
      exact absurd other (by decide)
  rw [last, List.isEmpty_eq_false_iff, Ne, List.dropWhile_eq_nil_iff]
  intro all
  have slash := all (toSlash c) (by simp)
  exact plain (by simpa using slash)

/-- The search of a trimmed path is in the directory that the path says, unless the path says
nothing: then it is in the root. -/
theorem splitLast_pattern (cur part : Path) :
    HostDir.splitLast (resolvedIn cur (trimEnd part ++ ['\\', '*'])) =
      (if part = [] then [] else pathFrom cur part, ['*']) := by
  have star : '/' ∉ ['*'] := by decide
  by_cases none_ : trimEnd part = []
  · have root : (if part = [] then [] else pathFrom cur part) = [] := by
      split
      · rfl
      · rename_i some_
        have seps := List.rdropWhile_eq_nil_iff.mp none_
        have rooted : DirState.isRooted part = true := by
          cases part with
          | nil => exact absurd rfl some_
          | cons c part => exact seps c List.mem_cons_self
        rw [pathFrom, if_pos rooted, none_]
        rfl
    rw [none_, root]
    rfl
  · have kept := dropWhile_trimEnd none_
    have some_ : part ≠ [] := fun eq => none_ (by rw [eq]; rfl)
    have mapped : ((trimEnd part ++ ['\\', '*']).map toSlash) =
        (trimEnd part).map toSlash ++ ['/', '*'] := by
      rw [List.map_append]
      rfl
    have rooted : DirState.isRooted (trimEnd part ++ ['\\', '*']) = DirState.isRooted part := by
      rw [DirState.isRooted, DirState.isRooted, head_trimEnd none_, List.head?_append_of_ne_nil _ none_]
    have rest : ((trimEnd part).map toSlash ++ ['/', '*']).dropWhile (· == '/') =
        ((trimEnd part).map toSlash).dropWhile (· == '/') ++ ['/', '*'] := by
      rw [List.dropWhile_append, kept]
      rfl
    unfold resolvedIn
    dsimp only
    rw [mapped, rest, rooted, if_neg some_, if_neg (by simp)]
    unfold pathFrom
    split
    · exact splitLast_slash _ _ star
    · rename_i relative
      have whole : ((trimEnd part).map toSlash).dropWhile (· == '/') = (trimEnd part).map toSlash := by
        have first : (((trimEnd part).map toSlash).head? == some '/') = false := by
          rw [head_toSlash, DirState.isRooted, ← head_trimEnd none_]
          exact Bool.not_eq_true _ ▸ relative
        cases split : (trimEnd part).map toSlash with
        | nil => rfl
        | cons c rest =>
          rw [split] at first
          exact List.dropWhile_cons_of_neg (by simpa using first)
      rw [whole, joined, if_neg none_, joinDir, joinDir]
      split
      · exact splitLast_slash _ _ star
      · rw [← List.cons_append, ← List.append_assoc]
        exact splitLast_slash _ _ star

variable {dm : DriveManager HostDir} {volume : HostDir} {place : HostPath}

/-- The pattern of an argument is on the drive that the argument says. -/
theorem resolvePath_argument {arg : Path} {drive : Nat} (rest : List Path)
    (designated_ : designated dm arg = .ok drive) (plain : '*' ∉ arg ∧ '?' ∉ arg) :
    dm.resolvePath (dirPattern dm (arg :: rest)) = .ok (drive,
      resolvedIn (dm.currentDirs drive) (trimEnd (DirState.pathPart arg) ++ ['\\', '*'])) := by
  have pattern : dirPattern dm (arg :: rest) = trimEnd arg ++ ['\\', '*'] := by
    unfold dirPattern
    dsimp only
    rw [if_neg (not_or.mpr plain), ite_self]
  rw [pattern, resolvePath_eq, designated_pattern designated_, pathPart_pattern]
  rfl

theorem map_toSlash {path : Path} (h : '\\' ∉ path) : path.map toSlash = path := by
  have same : ∀ c ∈ path, toSlash c = id c := by
    intro c member
    have other : c ≠ '\\' := fun back => h (back ▸ member)
    simp [toSlash, other]
  rw [List.map_congr_left same, List.map_id]

theorem letter_upper : ∀ disk < 26, (Char.ofNat ('A'.toNat + disk)).toNat = 65 + disk ∧
    (Char.ofNat ('A'.toNat + disk)).toUpper.isUpper = true ∧
    (Char.ofNat ('A'.toNat + disk)).toUpper.toNat - 'A'.toNat = disk := by decide

/-- Without an argument it is the current directory with a star. -/
theorem resolvePath_current (settled : Settled dm)
    (mounted : dm.drives dm.currentDisk = some volume) :
    dm.resolvePath (dirPattern dm []) =
      .ok (dm.currentDisk, dm.currentDirs dm.currentDisk ++ ['*']) := by
  obtain ⟨code, upper, drive⟩ := letter_upper dm.currentDisk settled.disk
  have pattern : dirPattern dm [] = Char.ofNat ('A'.toNat + dm.currentDisk) :: ':' :: '\\' ::
      (dm.currentDirs dm.currentDisk ++ ['*']) := by
    unfold dirPattern
    dsimp only
    split
    · rename_i root
      rw [root]
      rfl
    · rfl
  have disk := settled.disk
  have named : drivePrefix (dirPattern dm []) = some (Char.ofNat ('A'.toNat + dm.currentDisk),
      '\\' :: (dm.currentDirs dm.currentDisk ++ ['*'])) := by
    rw [pattern, drivePrefix, if_pos (by omega)]
  have unc : ∀ x : Char, [x, x].isPrefixOf (dirPattern dm []) = true → x = ':' := by
    intro x both
    rw [pattern] at both
    simp only [List.isPrefixOf, Bool.and_eq_true, beq_iff_eq] at both
    exact both.2.1
  have single : designated dm (dirPattern dm []) = .ok dm.currentDisk := by
    have back : ['\\', '\\'].isPrefixOf (dirPattern dm []) = false :=
      Bool.eq_false_iff.mpr fun both => absurd (unc '\\' both) (by decide)
    have slash : ['/', '/'].isPrefixOf (dirPattern dm []) = false :=
      Bool.eq_false_iff.mpr fun both => absurd (unc '/' both) (by decide)
    have same : DirState.namedDrive dm (dirPattern dm []) = dm.currentDisk := by
      rw [DirState.namedDrive, named]
      exact drive
    rw [designated, back, slash, same, named, mounted, Option.any_some, upper]
    rfl
  have part : DirState.pathPart (dirPattern dm []) =
      '\\' :: (dm.currentDirs dm.currentDisk ++ ['*']) := by
    rw [DirState.pathPart, named]
    rfl
  have whole : resolvedIn (dm.currentDirs dm.currentDisk)
      ('\\' :: (dm.currentDirs dm.currentDisk ++ ['*'])) =
      dm.currentDirs dm.currentDisk ++ ['*'] := by
    have plain := map_toSlash (settled.slashes dm.currentDisk)
    have first := settled.relative dm.currentDisk
    cases split : dm.currentDirs dm.currentDisk with
    | nil => rfl
    | cons c rest =>
      rw [split] at plain first
      have other : c ≠ '/' := fun eq => first (by rw [eq]; rfl)
      unfold resolvedIn
      rw [List.map_cons, List.map_append, plain]
      simp [toSlash, DirState.isRooted, isSeparator, other]
  rw [resolvePath_eq, single, part]
  exact congrArg _ (congrArg _ whole)

end Pattern

section Settled
variable {β : Type} {dm next : DriveManager β}

theorem Settled.setCurrentDisk (settled : Settled dm) {diskOs2 : Nat}
    (h : dm.setCurrentDisk diskOs2 = .ok next) : Settled next := by
  unfold DriveManager.setCurrentDisk at h
  split at h
  · cases h
  · split at h
    · cases h
    · cases h
      exact ⟨by dsimp only; omega, settled.slashes, settled.relative⟩

/-- What a path resolves to is written with slashes, and does not start with one. -/
theorem resolvedIn_settled {dir part : Path} (slashes : '\\' ∉ dir)
    (relative : dir.head? ≠ some '/') :
    '\\' ∉ resolvedIn dir part ∧ (resolvedIn dir part).head? ≠ some '/' := by
  have plain : '\\' ∉ part.map toSlash := by
    intro member
    obtain ⟨c, _, same⟩ := List.mem_map.mp member
    unfold toSlash at same
    split at same
    · exact absurd same (by decide)
    · contradiction
  have rest : '\\' ∉ (part.map toSlash).dropWhile (· == '/') := fun member =>
    plain ((List.dropWhile_sublist _).subset member)
  have first : ((part.map toSlash).dropWhile (· == '/')).head? ≠ some '/' := by
    intro slash
    have := List.head?_dropWhile_not (· == '/') (part.map toSlash)
    rw [slash] at this
    simp at this
  unfold resolvedIn
  dsimp only
  split
  · exact ⟨slashes, relative⟩
  · split
    · exact ⟨rest, first⟩
    · unfold joinDir
      split
      · exact ⟨rest, first⟩
      · rename_i some_
        refine ⟨?_, ?_⟩
        · rw [List.mem_append, List.mem_cons, not_or, not_or]
          exact ⟨slashes, by decide, rest⟩
        · rwa [List.head?_append_of_ne_nil _ (by simpa using some_)]

theorem Settled.setCurrentDir (settled : Settled dm) {os2Path : Path}
    (h : dm.setCurrentDir os2Path = .ok next) : Settled next := by
  unfold DriveManager.setCurrentDir at h
  rw [resolvePath_eq] at h
  cases found : designated dm os2Path with
  | error e =>
    rw [found] at h
    cases h
  | ok drive =>
    rw [found] at h
    cases h
    have rel := @resolvedIn_settled (dm.currentDirs drive) (DirState.pathPart os2Path)
      (settled.slashes drive) (settled.relative drive)
    refine ⟨settled.disk, fun other => ?_, fun other => ?_⟩
    · dsimp only
      split
      · exact rel.1
      · exact settled.slashes other
    · dsimp only
      split
      · exact rel.2
      · exact settled.relative other

end Settled

section Right
variable {dm : DriveManager HostDir} {volume : HostDir} {place : HostPath}

/-- A search for everything in the directory itself finds its entries. -/
theorem sameEntries_star {rel : Path} (found : searchDir volume rel = some place) :
    SameEntries volume rel ['*'] place := by
  refine ⟨place, found, ?_⟩
  rw [List.filter_eq_self.mpr fun entry _ => wildcardMatch_star entry.name]

/-- The command lists the directory and counts its entries just where its pattern says where. -/
theorem cmdDir_right_iff (toUppercase : Path → Path) {args : List Path} (settled : Settled dm)
    (host : Hosted volume) (named : Named dm args volume place) :
    (∃ listing, (cmdDir toUppercase dm args).1.listing = some listing ∧
        Lists volume place listing) ↔
      SaysWhere dm args volume place ∧ Countable volume place := by
  obtain ⟨drive, rel, directory, mounted, found⟩ := named.directory
  match args with
  | [] =>
    cases directory
    rw [cmdDir_lists_iff toUppercase (resolvePath_current settled mounted) mounted host found,
      splitLast_star]
    refine and_congr_left' ⟨fun same => Or.inr (Or.inr same), ?_⟩
    rintro (root | slash | same)
    · rw [root] at found ⊢
      exact sameEntries_star found
    · obtain ⟨front, whole⟩ := List.getLast?_eq_some_iff.mp slash
      rw [withoutSlash, if_pos slash, whole, List.dropLast_concat] at found
      rw [whole, splitLast_slash front [] List.not_mem_nil]
      exact sameEntries_star found
    · exact same
  | arg :: rest =>
    obtain ⟨_, single, same⟩ := HostDir.map_eq_ok directory
    cases same
    have plain := named.noWildcards arg rfl
    have at_drive : drive = DirState.namedDrive dm arg := by
      unfold designated at single
      split_ifs at single
      exact (Except.ok.inj single).symm
    rw [cmdDir_lists_iff toUppercase (resolvePath_argument rest single plain) mounted host found,
      splitLast_pattern]
    dsimp only
    apply and_congr_left'
    by_cases bare : DirState.pathPart arg = []
    · rw [if_pos bare]
      refine ⟨fun same => Or.inr (Or.inr same), ?_⟩
      rintro (path | root | same)
      · exact absurd bare path
      · rw [bare, at_drive, root] at found
        exact sameEntries_star found
      · exact same
    · rw [if_neg bare]
      exact ⟨fun _ => Or.inl bare, fun _ => sameEntries_star found⟩

/-- A name that is neither a dot nor has wildcards is no prefix of the entry for a directory
itself, so that the search for it never finds all of a directory. -/
theorem not_sameEntries {above pattern here : Path} (found : searchDir volume here = some place)
    (noDot : wildcardMatch pattern dot = false) : ¬ SameEntries volume above pattern place := by
  intro ⟨dir, _, same⟩
  obtain ⟨names, listed⟩ := searchDir_listed found
  obtain ⟨node, itself, _⟩ := Option.bind_eq_some_iff.mp listed
  have member : DirEntry.mk dot (metadataToFileStatus node) ∈ entriesIn volume place := by
    rw [entriesIn, itself]
    exact List.mem_cons_self
  have matched := (List.mem_filter.mp (same.mem_iff.mpr member)).2
  rw [noDot] at matched
  cases matched

section Sample
open HostDir

def sampleHost : FileTree Attrs :=
  (emptyHost.insertNode ["c".toList, "SUB".toList] ⟨.dir [], plainAttrs⟩).insertNode
    ["c".toList, "SUB".toList, "B".toList] ⟨.file [1, 2, 3], plainAttrs⟩

/-- A volume with a directory that has one file. -/
def dirVolume : HostDir := .new ["c".toList] false sampleHost plainAttrs

def dirDrives (currentDir : Path) : DriveManager HostDir :=
  { (DriveManager.new : DriveManager HostDir).mount 2 dirVolume with
    currentDirs := fun drive => if drive = 2 then currentDir else [] }

/-- The first name in a directory. -/
theorem insert_first {tree : FileTree Attrs} {dir : HostPath} {name : Name} {node : Node Attrs}
    (formed : tree.WellFormed ∧ CaseDistinct tree) (empty : tree.names dir = some [])
    (plain : name ≠ dot ∧ name ≠ dotDot) (absent : tree (dir ++ [name]) = none)
    (bare : node.entries = none ∨ node.entries = some []) :
    (tree.insertNode (dir ++ [name]) node).WellFormed ∧
      CaseDistinct (tree.insertNode (dir ++ [name]) node) := by
  have spot : FileTree.Spot tree dir name := ⟨by rw [empty]; rfl, plain⟩
  refine ⟨spot.insertNode formed.1 absent bare,
    distinct_insert formed.1 formed.2 absent bare ?_⟩
  intro other last entries place listed
  obtain ⟨rfl, _⟩ := FileTree.snoc_inj.mp place
  rw [empty] at listed
  cases listed
  exact fun _ member => absurd member List.not_mem_nil

theorem sampleHost_formed : sampleHost.WellFormed ∧ CaseDistinct sampleHost := by
  have above := @insert_first emptyHost ["c".toList] "SUB".toList ⟨.dir [], plainAttrs⟩
    ⟨emptyHost_wellFormed, emptyHost_distinct⟩ rfl (by decide) rfl (Or.inr rfl)
  exact @insert_first _ ["c".toList, "SUB".toList] "B".toList ⟨.file [1, 2, 3], plainAttrs⟩
    above rfl (by decide) rfl (Or.inl rfl)

theorem dirVolume_hosted : Hosted dirVolume where
  regular := new_regular false plainAttrs ⟨by decide, by decide⟩ sampleHost_formed.1
  once := fun dir names listed => (sampleHost_formed.2 dir names listed).of_map

theorem dirDrives_settled : Settled (dirDrives "SUB".toList) where
  disk := show 2 < 26 by decide
  slashes drive := by
    dsimp only [dirDrives]
    split <;> decide
  relative drive := by
    dsimp only [dirDrives]
    split <;> decide

/-- The current directory named from itself, through the root. -/
theorem cmdDir_right_sub : ∃ listing, (cmdDir id (dirDrives "SUB".toList) ["\\SUB".toList]).1.listing =
    some listing ∧ Lists dirVolume ["c".toList, "SUB".toList] listing :=
  (cmdDir_right_iff id dirDrives_settled dirVolume_hosted
    ⟨⟨2, "SUB".toList, by decide, rfl, by decide⟩, by decide⟩).mpr
    ⟨Or.inl (by decide), by decide, by decide⟩

/-- Without an argument the directory above is searched for names that start with `SUB`. -/
theorem current_dir_not_listed :
    Named (dirDrives "SUB".toList) [] dirVolume ["c".toList, "SUB".toList] ∧
    dirPattern (dirDrives "SUB".toList) [] = "C:\\SUB*".toList ∧
    ¬ ∃ listing, (cmdDir id (dirDrives "SUB".toList) []).1.listing = some listing ∧
      Lists dirVolume ["c".toList, "SUB".toList] listing := by
  have named : Named (dirDrives "SUB".toList) [] dirVolume ["c".toList, "SUB".toList] :=
    ⟨⟨2, "SUB".toList, by decide, rfl, by decide⟩, by decide⟩
  have found : searchDir dirVolume "SUB".toList = some ["c".toList, "SUB".toList] := by decide
  refine ⟨named, by decide, ?_⟩
  rw [cmdDir_lists_iff id (resolvePath_current dirDrives_settled rfl) rfl dirVolume_hosted found]
  exact fun right => not_sameEntries found (by decide) right.1

end Sample

end Right

end Warpine.Cmd
