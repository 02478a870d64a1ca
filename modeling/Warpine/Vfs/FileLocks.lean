import Warpine.Lib.Holdings
import Warpine.Vfs.DriveManager
import Warpine.Vfs.Reach
import Warpine.Vfs.SharingTable

/-! Byte range locks. The host keeps them for the process, so all handles of the guest
get them together, and give them up together. -/
namespace Warpine.Vfs
open Warpine.Lib Posix

structure FileLockRange where
  offset : UInt32
  length : UInt32
deriving DecidableEq, Repr

namespace FileLockRange

/-- To the host, a range of no length reaches to the end of the file, wherever that is. -/
def covers (range : FileLockRange) (byte : Nat) : Bool :=
  range.offset.toNat ≤ byte &&
    (range.length = 0 || byte < range.offset.toNat + range.length.toNat)

def overlaps (range other : FileLockRange) : Bool :=
  (range.length = 0 || other.offset.toNat < range.offset.toNat + range.length.toNat) &&
    (other.length = 0 || range.offset.toNat < other.offset.toNat + other.length.toNat)

end FileLockRange

inductive Errno where
  | acces
  | again
  | other
deriving DecidableEq, Repr

/-- `l_type` of a lock. -/
inductive LockType where
  | unlck
  | wrlck
deriving DecidableEq, Repr

/-- One range of a call, and what may keep the host from it beside the locks of other
processes: a handle not open for writing, or no room for another lock. -/
structure LockRequest where
  range : FileLockRange
  refusal : Option Errno
deriving DecidableEq, Repr

/-- A backend, the ranges that other processes have locked, and the bytes that this one
has, each with the handles it was locked through. -/
structure Locking where
  tracked : Tracked
  others : FileId → List FileLockRange
  held : Holdings Nat Nat

namespace Locking

def new (host : HostDir) (others : FileId → List FileLockRange) : Locking :=
  ⟨.new host, others, fun _ _ => false⟩

/-- The file that a handle is open on. -/
def file (s : Locking) (id : Nat) : Option FileId := (s.tracked.opened id).map OpenRecord.file

/-- `fcntl`, as far as it can fail. The locks of the process itself never stand in the way. -/
def answer (s : Locking) (file : FileId) (type : LockType) (request : LockRequest) :
    Option Errno :=
  match type with
  | .unlck => request.refusal
  | .wrlck =>
      if (s.others file).any request.range.overlaps then some .again else request.refusal

/-- `fcntl` where it succeeds. An unlock takes the range from every handle on the file. -/
def apply (s : Locking) (id : Nat) (file : FileId) (type : LockType) (request : LockRequest) :
    Locking :=
  match type with
  | .unlck =>
      { s with held := s.held.release (fun other => s.file other = some file) request.range.covers }
  | .wrlck => { s with held := s.held.take (· = id) request.range.covers }

def lockError : LockType → Errno → Os2Error
  | .unlck, _ => .lockViolation
  | .wrlck, .acces | .wrlck, .again => .lockViolation
  | .wrlck, .other => .accessDenied

/-- The ranges go to the host one by one, up to the first that is refused. -/
def applyAll (s : Locking) (id : Nat) (file : FileId) (type : LockType) :
    List LockRequest → VfsResult Unit × Locking
  | [] => (.ok (), s)
  | request :: rest => match s.answer file type request with
    | some errno => (.error (lockError type errno), s)
    | none => (s.apply id file type request).applyAll id file type rest

def setFileLocks (s : Locking) (handle : VfsFileHandle) (unlock lock : List LockRequest) :
    VfsResult Unit × Locking :=
  match s.file handle.id with
  | none => (.error .invalidHandle, s)
  | some file => match s.applyAll handle.id file .unlck unlock with
    | (.error e, s) => (.error e, s)
    | (.ok (), s) => s.applyAll handle.id file .wrlck lock

/-- The files that an operation closes. Closing any handle on a file drops the locks that
the process has on it. -/
def closes (s : Locking) (op : HostOp) : List FileId :=
  match op with
  | .close handle => (s.file handle.id).toList
  | .copy _ _ => (s.tracked.host.touched op).map (s.tracked.exec op).fileAt
  | _ => []

def exec (s : Locking) (op : HostOp) : Locking :=
  { s with
    tracked := s.tracked.exec op
    held := s.held.release (fun id => ∃ file ∈ s.closes op, s.file id = some file)
      fun _ => true }

end Locking

instance : VfsBackend Locking where
  openFile s path mode sharing flags attributes :=
    ((s.tracked.host.openFile path mode sharing flags attributes).1,
      s.exec (.openFile path mode sharing flags attributes))
  close s handle := ((s.tracked.host.close handle).1, s.exec (.close handle))
  findFirst s pattern attrFilter :=
    ((s.tracked.host.findFirst pattern attrFilter).1, s.exec (.findFirst pattern attrFilter))
  findNext s handle := ((s.tracked.host.findNext handle).1, s.exec (.findNext handle))
  findClose s handle := ((s.tracked.host.findClose handle).1, s.exec (.findClose handle))

namespace Locking

variable {s next : Locking} {id : Nat} {one : FileId} {type : LockType}

@[simp] theorem apply_tracked (request : LockRequest) :
    (s.apply id one type request).tracked = s.tracked := by
  cases type <;> rfl

@[simp] theorem apply_others (request : LockRequest) :
    (s.apply id one type request).others = s.others := by
  cases type <;> rfl

@[simp] theorem apply_file (request : LockRequest) (other : Nat) :
    (s.apply id one type request).file other = s.file other := by
  rw [file, apply_tracked]
  rfl

@[simp] theorem apply_answer (first : LockRequest) (file : FileId) (kind : LockType)
    (request : LockRequest) :
    (s.apply id one type first).answer file kind request = s.answer file kind request := by
  cases kind <;> simp [answer]

/-- The ranges before the first refused one take effect. -/
theorem applyAll_ends (requests : List LockRequest) {result : VfsResult Unit}
    (h : s.applyAll id one type requests = (result, next)) :
    ∃ done rest, requests = done ++ rest ∧
      (∀ request ∈ done, s.answer one type request = none) ∧
      next = done.foldl (fun s request => s.apply id one type request) s ∧
      ((rest = [] ∧ result = .ok ()) ∨
        ∃ failed after, rest = failed :: after ∧ s.answer one type failed ≠ none ∧
          ∃ e, result = .error e) := by
  induction requests generalizing s with
  | nil =>
    cases h
    exact ⟨[], [], rfl, by simp, rfl, .inl ⟨rfl, rfl⟩⟩
  | cons request more ih =>
    unfold applyAll at h
    split at h
    · rename_i errno refused
      cases h
      exact ⟨[], request :: more, rfl, by simp, rfl,
        .inr ⟨request, more, rfl, by simp [refused], _, rfl⟩⟩
    · rename_i accepted
      obtain ⟨done, rest, rfl, all, hnext, ends⟩ := ih h
      simp only [apply_answer] at all ends
      exact ⟨request :: done, rest, rfl, List.forall_mem_cons.mpr ⟨accepted, all⟩, hnext, ends⟩

section Folds

/-- What a list of ranges leaves alone. -/
theorem foldl_frame (requests : List LockRequest) :
    let last := requests.foldl (fun s request => s.apply id one type request) s
    last.tracked = s.tracked ∧ last.others = s.others := by
  induction requests generalizing s with
  | nil => exact ⟨rfl, rfl⟩
  | cons request rest ih =>
    obtain ⟨tracked, others⟩ := @ih (s.apply id one type request)
    exact ⟨tracked.trans (apply_tracked request), others.trans (apply_others request)⟩

theorem applyAll_tracked (requests : List LockRequest) :
    (s.applyAll id one type requests).2.tracked = s.tracked := by
  obtain ⟨done, _, _, _, hnext, _⟩ := applyAll_ends requests (Prod.eta _).symm
  rw [hnext]
  exact (foldl_frame done).1

theorem setFileLocks_tracked (handle : VfsFileHandle) (unlock lock : List LockRequest) :
    (s.setFileLocks handle unlock lock).2.tracked = s.tracked := by
  unfold setFileLocks
  split
  · rfl
  · rename_i one found
    have first := @applyAll_tracked s handle.id one .unlck unlock
    split
    · rename_i e mid unlocked
      rwa [unlocked] at first
    · rename_i mid unlocked
      rw [unlocked] at first
      exact (applyAll_tracked lock).trans first

/-- A range that the handle does not hold is unlocked, or one that it holds is locked. -/
def Idle (s : Locking) (id : Nat) (type : LockType) (request : LockRequest) : Prop :=
  ∀ byte, request.range.covers byte → s.held id byte = decide (type = .wrlck)

theorem apply_idle {request : LockRequest} (idle : s.Idle id type request) :
    (s.apply id one type request).held id = s.held id := by
  ext1 byte
  cases type with
  | unlck =>
    exact Holdings.release_same (fun other => s.file other = some one) request.range.covers
      fun inside => idle byte inside
  | wrlck =>
    exact Holdings.take_same (· = id) request.range.covers fun inside => idle byte inside

theorem foldl_idle {requests : List LockRequest}
    (idle : ∀ request ∈ requests, s.Idle id type request) :
    (requests.foldl (fun s request => s.apply id one type request) s).held id = s.held id := by
  induction requests generalizing s with
  | nil => rfl
  | cons request rest ih =>
    have same := @apply_idle s id one type request (idle request List.mem_cons_self)
    rw [List.foldl_cons, ih, same]
    intro other member byte inside
    rw [same]
    exact idle other (List.mem_cons_of_mem _ member) byte inside

end Folds

/-- No handle has what is locked, unless it is unlocked first, and what comes before a range
that the host refuses changes nothing. -/
structure Lockable (s : Locking) (id : Nat) (one : FileId) (unlock lock : List LockRequest) :
    Prop where
  free : ∀ request ∈ lock, ∀ byte, request.range.covers byte →
    ∀ other, other ≠ id → s.file other = some one → s.held other byte →
      ∃ first ∈ unlock, first.range.covers byte
  unlocks : ∀ done failed rest, unlock = done ++ failed :: rest →
    (∀ request ∈ done, s.answer one .unlck request = none) → s.answer one .unlck failed ≠ none →
      ∀ request ∈ done, s.Idle id .unlck request
  locks : (∀ request ∈ unlock, s.answer one .unlck request = none) →
    ∀ done failed rest, lock = done ++ failed :: rest →
      (∀ request ∈ done, s.answer one .wrlck request = none) → s.answer one .wrlck failed ≠ none →
        (∀ request ∈ unlock, s.Idle id .unlck request) ∧
          ∀ request ∈ done, s.Idle id .wrlck request

/-- No two handles hold the same byte of a file, and what is held is held by open handles. -/
structure Inv (s : Locking) : Prop where
  regular : s.tracked.host.Regular
  fresh : ∀ id record, s.tracked.opened id = some record → id < s.tracked.host.nextId
  openOnly : ∀ id byte, s.held id byte → (s.file id).isSome
  apart : Holdings.Apart s.file s.held

section Calls

variable {unlock lock : List LockRequest} {handle : VfsFileHandle}

/-- A call that fails leaves what its handle holds. -/
theorem setFileLocks_error {e : Os2Error}
    (lockable : ∀ one, s.file handle.id = some one → s.Lockable handle.id one unlock lock)
    (h : s.setFileLocks handle unlock lock = (.error e, next)) :
    next.held handle.id = s.held handle.id := by
  unfold setFileLocks at h
  split at h
  · cases h
    rfl
  · rename_i one found
    have fits := lockable one found
    split at h
    · rename_i failed mid unlocked
      cases h
      obtain ⟨done, rest, hlist, all, rfl, ⟨_, ended⟩ | ⟨failed, after, rfl, refused, _⟩⟩ :=
        applyAll_ends unlock unlocked
      · cases ended
      · exact foldl_idle (fits.unlocks done failed after hlist all refused)
    · rename_i mid unlocked
      obtain ⟨taken, rest, hunlock, accepted, rfl, ⟨rfl, _⟩ | ⟨_, _, _, _, _, ended⟩⟩ :=
        applyAll_ends unlock unlocked
      · rw [List.append_nil] at hunlock
        subst hunlock
        obtain ⟨tracked, others⟩ := @foldl_frame s handle.id one .unlck unlock
        obtain ⟨done, rest, hlock, all, rfl, ⟨_, ended⟩ | ⟨failed, after, rfl, refused, _⟩⟩ :=
          applyAll_ends lock h
        · cases ended
        · simp only [answer, others] at all refused
          obtain ⟨idleUnlocks, idleLocks⟩ :=
            fits.locks accepted done failed after hlock all refused
          have same := @foldl_idle s handle.id one .unlck unlock idleUnlocks
          rw [foldl_idle, same]
          intro request member byte inside
          rw [same]
          exact idleLocks request member byte inside
      · cases ended

theorem unlocked_held {request : LockRequest} {other byte : Nat}
    (holds : (s.apply id one .unlck request).held other byte) : s.held other byte :=
  Holdings.of_release (fun other => s.file other = some one) request.range.covers holds

theorem Inv.apply (inv : s.Inv) (there : s.file id = some one) (request : LockRequest)
    (free : type = .wrlck → ∀ other, other ≠ id → s.file other = some one → ∀ byte,
      request.range.covers byte → s.held other byte = false) :
    (s.apply id one type request).Inv := by
  cases type with
  | unlck =>
    refine ⟨inv.regular, inv.fresh, ?_, inv.apart.release _ _⟩
    intro other byte holds
    exact inv.openOnly other byte (unlocked_held holds)
  | wrlck =>
    refine ⟨inv.regular, inv.fresh, ?_, inv.apart.take _ there (free rfl)⟩
    intro other byte holds
    change (s.file other).isSome
    by_cases same : other = id
    · rw [same, there]
      rfl
    · simp only [Locking.apply, Holdings.take, same, false_and, if_false] at holds
      exact inv.openOnly other byte holds

/-- What is still held after some ranges are unlocked was held and lies outside of them. -/
theorem foldl_unlocked {requests : List LockRequest} {other byte : Nat}
    (holds : (requests.foldl (fun s request => s.apply id one .unlck request) s).held other byte) :
    s.held other byte ∧ (s.file other = some one → ∀ request ∈ requests,
      ¬ request.range.covers byte) := by
  induction requests generalizing s with
  | nil => exact ⟨holds, fun _ _ member => by cases member⟩
  | cons request rest ih =>
    obtain ⟨later, outside⟩ := ih holds
    have before := unlocked_held later
    refine ⟨before, ?_⟩
    intro there first member inside
    rcases List.mem_cons.mp member with rfl | rest_
    · have gone := @Holdings.not_release _ _ (fun other => s.file other = some one)
        _ first.range.covers s.held other byte there inside
      exact absurd later (by rw [Bool.not_eq_true]; exact gone)
    · exact outside there first rest_ inside

theorem Inv.unlocked (inv : s.Inv) (there : s.file id = some one) (requests : List LockRequest) :
    (requests.foldl (fun s request => s.apply id one .unlck request) s).Inv := by
  induction requests generalizing s with
  | nil => exact inv
  | cons request rest ih => exact ih (inv.apply there request nofun) there

theorem Inv.locked (inv : s.Inv) (there : s.file id = some one) (requests : List LockRequest)
    (free : ∀ request ∈ requests, ∀ other, other ≠ id → s.file other = some one → ∀ byte,
      request.range.covers byte → s.held other byte = false) :
    (requests.foldl (fun s request => s.apply id one .wrlck request) s).Inv := by
  induction requests generalizing s with
  | nil => exact inv
  | cons request rest ih =>
    refine ih (inv.apply there request fun _ => free request List.mem_cons_self) there ?_
    intro more member other differ same byte inside
    simp only [Locking.apply, Holdings.take, differ, false_and, if_false]
    exact free more (List.mem_cons_of_mem _ member) other differ same byte inside

theorem Inv.setFileLocks (inv : s.Inv)
    (lockable : ∀ one, s.file handle.id = some one → s.Lockable handle.id one unlock lock) :
    (s.setFileLocks handle unlock lock).2.Inv := by
  unfold Locking.setFileLocks
  split
  · exact inv
  · rename_i one there
    have fits := lockable one there
    split
    · rename_i e mid unlocked
      obtain ⟨done, _, _, _, rfl, _⟩ := applyAll_ends unlock unlocked
      exact inv.unlocked there done
    · rename_i mid unlocked
      obtain ⟨taken, rest, hunlock, _, rfl, ⟨rfl, _⟩ | ⟨_, _, _, _, _, ended⟩⟩ :=
        applyAll_ends unlock unlocked
      · rw [List.append_nil] at hunlock
        subst hunlock
        have mid := inv.unlocked there unlock
        have frame := (@foldl_frame s handle.id one .unlck unlock).1
        generalize result : Locking.applyAll _ _ _ _ lock = last
        obtain ⟨done, rest, hlock, _, hlast, _⟩ := applyAll_ends lock (Prod.eta last ▸ result)
        rw [hlast]
        have files : ∀ other, Locking.file (unlock.foldl
            (fun s request => s.apply handle.id one .unlck request) s) other = s.file other := by
          intro other
          rw [Locking.file, frame]
          rfl
        apply mid.locked ((files _).trans there)
        intro request member other differ same byte inside
        rw [files] at same
        rw [Bool.eq_false_iff]
        intro holds
        obtain ⟨before, outside⟩ := foldl_unlocked holds
        have listed : request ∈ lock := hlock ▸ List.mem_append_left _ member
        obtain ⟨first, among, covered⟩ :=
          fits.free request listed byte inside other differ same before
        exact outside same first among covered
      · cases ended

end Calls

section Ops

variable {t : Tracked} {op : HostOp}

/-- Numbers of handles are never given again. -/
theorem nextId_exec (reg : t.host.Regular) : t.host.nextId ≤ (t.host.exec op).nextId := by
  have effect := HostDir.exec_effect reg op
  generalize t.host.exec op = next at effect
  cases effect with
  | openFile opens => exact opens.nextId ▸ Nat.le_succ _
  | close found becomes files sharing nextId => exact nextId.ge
  | wait => exact Nat.le_refl _
  | quiet _ _ keeps | createDir _ _ _ keeps | deleteDir _ _ _ keeps | delete _ _ _ keeps
  | rename _ _ _ _ keeps | copy _ _ _ _ keeps => exact keeps.nextId

theorem tracked_host : (t.exec op).host = t.host.exec op := by
  cases op with
  | openFile => unfold Tracked.exec; dsimp only; split <;> rfl
  | rename => unfold Tracked.exec; dsimp only; split <;> rfl
  | _ => rfl

/-- The table of open files grows by a new handle, shrinks by a closed one, or stays. -/
theorem opened_exec (reg : t.host.Regular) :
    (∃ record, (t.exec op).opened = t.opened.insert t.host.nextId record ∧
        t.host.nextId < (t.exec op).host.nextId) ∨
      (∃ handle, op = .close handle ∧ (t.exec op).opened = t.opened.erase handle.id) ∨
        (t.exec op).opened = t.opened := by
  cases op with
  | openFile path mode sharing flags attributes =>
    rw [tracked_host]
    have after : t.host.exec (.openFile path mode sharing flags attributes) =
        (t.host.openFile path mode sharing flags attributes).2 := rfl
    unfold Tracked.exec
    dsimp only
    cases result : t.host.openFile path mode sharing flags attributes with
    | mk answer next =>
      rw [result] at after
      cases answer with
      | error e => exact .inr (.inr rfl)
      | ok found =>
        obtain ⟨handle, action⟩ := found
        obtain ⟨number, mid, host, file, tree, write, opens⟩ := HostDir.openFile_ok reg result
        have state : next.files handle.id = some ⟨file, host⟩ := by
          rw [opens.files, number, Table.insert_self]
        dsimp only
        rw [after, state, number, opens.nextId]
        exact .inl ⟨_, rfl, Nat.lt_succ_self _⟩
  | close handle => exact .inr (.inl ⟨handle, rfl, rfl⟩)
  | rename =>
    unfold Tracked.exec
    dsimp only
    split <;> exact .inr (.inr rfl)
  | _ => exact .inr (.inr rfl)

theorem exec_nextId (reg : s.tracked.host.Regular) (op : HostOp) :
    s.tracked.host.nextId ≤ (s.exec op).tracked.host.nextId := by
  have host : (s.exec op).tracked.host = s.tracked.host.exec op := tracked_host
  exact host ▸ nextId_exec reg

theorem exec_held {byte : Nat} (holds : (s.exec op).held id byte) : s.held id byte :=
  Holdings.of_release (fun id => ∃ file ∈ s.closes op, s.file id = some file) (fun _ => true) holds

theorem Inv.exec (inv : s.Inv) (op : HostOp) : (s.exec op).Inv := by
  have host : (s.exec op).tracked.host = s.tracked.host.exec op := tracked_host
  have older := exec_nextId inv.regular op
  have regular : (s.exec op).tracked.host.Regular :=
    host ▸ ((HostDir.exec_effect inv.regular op).regular inv.regular).1
  rcases @opened_exec s.tracked op inv.regular with
    ⟨record, opened, newer⟩ | ⟨handle, rfl, opened⟩ | opened
  · have free : s.tracked.opened s.tracked.host.nextId = none := by
      cases there : s.tracked.opened s.tracked.host.nextId with
      | none => rfl
      | some old => exact absurd (inv.fresh _ old there) (Nat.lt_irrefl _)
    have unheld : ∀ byte, ¬ (s.exec op).held s.tracked.host.nextId byte := by
      intro byte holds
      have held := inv.openOnly _ byte (exec_held holds)
      rw [file, free] at held
      cases held
    have others : ∀ other, other ≠ s.tracked.host.nextId → (s.exec op).file other = s.file other := by
      intro other differ
      change ((s.tracked.exec op).opened other).map _ = _
      rw [opened, Table.insert_ne _ _ differ]
      rfl
    refine ⟨regular, ?_, ?_, ?_⟩
    · intro other old there
      change (s.tracked.exec op).opened other = some old at there
      rw [opened] at there
      rcases Table.insert_eq_some.mp there with ⟨rfl, _⟩ | ⟨_, before⟩
      · exact newer
      · exact Nat.lt_of_lt_of_le (inv.fresh other old before) older
    · intro other byte holds
      by_cases same : other = s.tracked.host.nextId
      · exact absurd (same ▸ holds) (unheld byte)
      · rw [others other same]
        exact inv.openOnly other byte (exec_held holds)
    · intro first second differ one left right byte both
      have notLeft : first ≠ s.tracked.host.nextId := fun same => unheld byte (same ▸ both.1)
      have notRight : second ≠ s.tracked.host.nextId := fun same => unheld byte (same ▸ both.2)
      rw [others _ notLeft] at left
      rw [others _ notRight] at right
      exact inv.apart first second differ one left right byte ⟨exec_held both.1, exec_held both.2⟩
  · have before : ∀ other record, (s.exec (.close handle)).tracked.opened other = some record →
        s.tracked.opened other = some record := by
      intro other record there
      change (s.tracked.exec (.close handle)).opened other = some record at there
      rw [opened] at there
      exact (Table.erase_eq_some.mp there).2
    have fileBefore : ∀ other one, (s.exec (.close handle)).file other = some one →
        s.file other = some one := by
      intro other one there
      obtain ⟨record, found, same⟩ := Option.map_eq_some_iff.mp there
      exact Option.map_eq_some_iff.mpr ⟨record, before other record found, same⟩
    refine ⟨regular, ?_, ?_, ?_⟩
    · intro other record there
      exact Nat.lt_of_lt_of_le (inv.fresh other record (before other record there)) older
    · intro other byte holds
      obtain ⟨one, there⟩ := Option.isSome_iff_exists.mp (inv.openOnly other byte (exec_held holds))
      have differ : other ≠ handle.id := by
        rintro rfl
        have gone := @Holdings.not_release _ _
          (fun id => ∃ file ∈ s.closes (.close handle), s.file id = some file) _ (fun _ => true)
          s.held handle.id byte ⟨one, by simp [closes, there], there⟩ rfl
        exact absurd holds (by rw [Bool.not_eq_true]; exact gone)
      change (((s.tracked.exec (.close handle)).opened other).map _).isSome
      rw [opened, Table.erase_ne _ differ]
      exact Option.isSome_iff_exists.mpr ⟨one, there⟩
    · intro first second differ one left right byte both
      exact inv.apart first second differ one (fileBefore first one left)
        (fileBefore second one right) byte ⟨exec_held both.1, exec_held both.2⟩
  · have files : (s.exec op).file = s.file := by
      ext1 other
      change ((s.tracked.exec op).opened other).map _ = _
      rw [opened]
      rfl
    refine ⟨regular, ?_, ?_, ?_⟩
    · intro other record there
      change (s.tracked.exec op).opened other = some record at there
      rw [opened] at there
      exact Nat.lt_of_lt_of_le (inv.fresh other record there) older
    · intro other byte holds
      rw [files]
      exact inv.openOnly other byte (exec_held holds)
    · intro first second differ one left right byte both
      rw [files] at left right
      exact inv.apart first second differ one left right byte ⟨exec_held both.1, exec_held both.2⟩

end Ops

end Locking
end Warpine.Vfs
