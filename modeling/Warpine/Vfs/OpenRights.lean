import Warpine.Lib.Descriptors
import Warpine.Vfs.FileLocks

/-! What a handle may do to its file. The backend checks nothing itself; the rights are
those of the host descriptor, and these are put together when the file is opened. -/
namespace Warpine.Vfs
open Warpine.Lib Posix

/-- The options that a file is opened with on the host. To create or to truncate it takes
the right to write. -/
def openOptions (mode : OpenMode) (action : OpenAction) : OpenOptions :=
  let opts : OpenOptions := match mode with
    | .readOnly => ⟨true, false, false, false⟩
    | .writeOnly => ⟨false, true, false, false⟩
    | .readWrite => ⟨true, true, false, false⟩
  let opts := if action = .created then { opts with create := true, write := true } else opts
  if action = .replaced then { opts with truncate := true, create := true, write := true }
  else opts

/-- A backend with the host's descriptors, and what each file holds. -/
structure OpenFiles where
  tracked : Tracked
  table : FileTable FileId

def mapFdError : FdError → Os2Error
  | .unknown => .invalidHandle
  | _ => .accessDenied

namespace OpenFiles

def fileData : Option (Node Attrs) → Option (List UInt8)
  | some ⟨.file data, _⟩ => some data
  | _ => none

def new (host : HostDir) : OpenFiles where
  tracked := .new host
  table :=
    { descriptors := .empty
      contents := fun file => match file with
        | .initial path => (fileData (host.tree path)).getD []
        | .made _ => [] }

variable (v : OpenFiles)

/-- Every node of a file holds what the file holds. -/
def stored (table : FileTable FileId) : OpenFiles where
  table := table
  tracked :=
    { v.tracked with
      host := { v.tracked.host with
        tree := fun path => (v.tracked.host.tree path).map fun node => match node.kind with
          | .file _ => { node with kind := .file (table.contents (v.tracked.fileAt path)) }
          | _ => node } }

def read (handle : VfsFileHandle) (len given : Nat) : VfsResult (List UInt8) × OpenFiles :=
  let (result, table) := v.table.read handle.id len given
  (result.mapError mapFdError, { v with table })

def write (handle : VfsFileHandle) (buf : List UInt8) (taken : Nat) :
    VfsResult Nat × OpenFiles :=
  let (result, table) := v.table.write handle.id buf taken
  (result.mapError mapFdError, v.stored table)

def seek (handle : VfsFileHandle) (from_ : SeekFrom) : VfsResult Nat × OpenFiles :=
  let (result, table) := v.table.seek handle.id from_
  (result.mapError mapFdError, { v with table })

def setFileSize (handle : VfsFileHandle) (size : Nat) : VfsResult Unit × OpenFiles :=
  let (result, table) := v.table.setLen handle.id size
  (result.mapError mapFdError, v.stored table)

/-- What the files hold once an operation has changed the nodes at some places. -/
def settled (contents : FileId → List UInt8) (next : Tracked) (places : List HostPath) :
    FileId → List UInt8 := fun file =>
  ((places.filter (next.fileAt · = file)).findSome? fun place =>
    fileData (next.host.tree place)).getD (contents file)

/-- The descriptors after an operation: an open adds one, a close takes one away. -/
def descriptorsAfter (next : Tracked) : HostOp → Table Nat (Descriptor FileId)
  | .openFile path mode sharing flags attributes =>
      match v.tracked.host.openFile path mode sharing flags attributes with
      | (.error _, _) => v.table.descriptors
      | (.ok (handle, action), host) => match host.files handle.id with
        | none => v.table.descriptors
        | some state =>
            let opts := openOptions mode action
            v.table.descriptors.insert handle.id
              ⟨next.fileAt state.file, host.tree.isDir state.file, opts.read, opts.write, 0⟩
  | .close handle => v.table.descriptors.erase handle.id
  | _ => v.table.descriptors

def execHost (op : HostOp) : OpenFiles :=
  let next := v.tracked.exec op
  { tracked := next
    table :=
      { descriptors := v.descriptorsAfter next op
        contents := settled v.table.contents next (v.tracked.host.touched op) } }

end OpenFiles

inductive FileCall where
  | host (op : HostOp)
  | read (handle : VfsFileHandle) (len given : Nat)
  | write (handle : VfsFileHandle) (buf : List UInt8) (taken : Nat)
  | seek (handle : VfsFileHandle) (from_ : SeekFrom)
  | setFileSize (handle : VfsFileHandle) (size : Nat)

namespace OpenFiles

def exec (v : OpenFiles) : FileCall → OpenFiles
  | .host op => v.execHost op
  | .read handle len given => (v.read handle len given).2
  | .write handle buf taken => (v.write handle buf taken).2
  | .seek handle from_ => (v.seek handle from_).2
  | .setFileSize handle size => (v.setFileSize handle size).2

def step : Step OpenFiles FileCall := fun v call next => v.exec call = next

/-- A handle does no more than the mode it was opened with allows. -/
def Honours (v : OpenFiles) (handle : VfsFileHandle) : OpenMode → Prop
  | .readOnly =>
      (∀ buf taken, (v.write handle buf taken).2.table.contents = v.table.contents) ∧
        ∀ size, (v.setFileSize handle size).2.table.contents = v.table.contents
  | .writeOnly => ∀ len given data, (v.read handle len given).1 ≠ .ok data
  | .readWrite => True

section Options

/-- The options are the ones that the backend opens its files with. -/
theorem openOptions_eq (mode : OpenMode) (action : OpenAction) :
    (openOptions mode action).write =
        (mode != .readOnly || (action == .created || action == .replaced)) ∧
      (openOptions mode action).create = (action == .created || action == .replaced) ∧
      (openOptions mode action).truncate = (action == .replaced) := by
  cases mode <;> cases action <;> decide

/-- Only a file that is there and is to be opened as it is, is. -/
theorem existed_iff {s mid : HostDir} {path : Path} {flags : OpenFlags} {host : HostPath}
    {action : OpenAction} (h : s.openPath path flags = (.ok (host, action), mid)) :
    action = .existed ↔ (s.resolveCi path).1.isSome ∧ flags.existAction = .open := by
  unfold HostDir.openPath at h
  cases found : s.resolveCi path with
  | mk resolved after =>
    rw [found] at h
    cases resolved with
    | some existing =>
      cases exist : flags.existAction with
      | «open» =>
        simp only [exist, Prod.mk.injEq] at h
        obtain ⟨_, _, same⟩ := HostDir.map_eq_ok h.1
        simp [(Prod.mk.inj same).2]
      | replace =>
        simp only [exist, Prod.mk.injEq] at h
        obtain ⟨_, _, same⟩ := HostDir.map_eq_ok h.1
        simp [← (Prod.mk.inj same).2]
      | fail => simp [exist] at h
    | none =>
      cases new : flags.newAction with
      | create =>
        simp only [new, Prod.mk.injEq] at h
        obtain ⟨_, _, same⟩ := HostDir.map_eq_ok h.1
        simp [← (Prod.mk.inj same).2]
      | fail => simp [new] at h

end Options

variable {v next : OpenFiles}

section Runs

/-- A handle was given out, and where it is still open it has these rights. -/
structure Given (id : Nat) (read write : Bool) (v : OpenFiles) : Prop where
  regular : v.tracked.host.Regular
  older : id < v.tracked.host.nextId
  rights : v.table.Rights id read write

theorem stored_regular (reg : v.tracked.host.Regular) (table : FileTable FileId) :
    (v.stored table).tracked.host.Regular where
  wellFormed := by
    apply reg.wellFormed.of_shape
    · intro path
      simp only [stored, FileTree.names, Option.bind_map]
      congr 1
      funext node
      cases hkind : node.kind <;> simp [hkind]
    · intro path
      simp [stored]
  clean := reg.clean
  rootPlain := reg.rootPlain

/-- Between two host states that differ in nothing else, only the rights matter. -/
theorem Given.stored {id : Nat} {read write : Bool} (given : Given id read write v)
    {table : FileTable FileId} (rights : table.Rights id read write) :
    Given id read write (v.stored table) where
  regular := stored_regular given.regular table
  older := given.older
  rights := rights

theorem Given.execHost {id : Nat} {read write : Bool} (given : Given id read write v)
    (op : HostOp) : Given id read write (v.execHost op) where
  regular := by
    have host : (v.execHost op).tracked.host = v.tracked.host.exec op := Locking.tracked_host
    rw [host]
    exact ((HostDir.exec_effect given.regular op).regular given.regular).1
  older := by
    have host : (v.execHost op).tracked.host = v.tracked.host.exec op := Locking.tracked_host
    rw [host]
    exact Nat.lt_of_lt_of_le given.older (Locking.nextId_exec given.regular)
  rights := by
    intro d found
    cases op with
    | openFile path mode sharing flags attributes =>
      simp only [OpenFiles.execHost, descriptorsAfter] at found
      cases result : v.tracked.host.openFile path mode sharing flags attributes with
      | mk answer host =>
        cases answer with
        | error e =>
          rw [result] at found
          exact given.rights d found
        | ok opened =>
          obtain ⟨handle, action⟩ := opened
          -- the new handle has a number that no handle has had before
          have number := (HostDir.openFile_ok given.regular result).1
          have differ : id ≠ handle.id := by
            have older := given.older
            omega
          simp only [result] at found
          cases file : host.files handle.id with
          | none =>
            rw [file] at found
            exact given.rights d found
          | some state =>
            simp only [file, Table.insert_ne _ _ differ] at found
            exact given.rights d found
    | close handle =>
      exact given.rights d (Table.erase_eq_some.mp found).2
    | _ => exact given.rights d found

theorem Given.exec {id : Nat} {read write : Bool} (given : Given id read write v)
    (call : FileCall) : Given id read write (v.exec call) := by
  cases call with
  | host op => exact given.execHost op
  | read handle len count =>
    exact ⟨given.regular, given.older, FileTable.rights_read given.rights handle.id len count⟩
  | write handle buf taken =>
    exact given.stored (FileTable.rights_write given.rights handle.id buf taken)
  | seek handle from_ =>
    exact ⟨given.regular, given.older, FileTable.rights_seek given.rights handle.id from_⟩
  | setFileSize handle size =>
    exact given.stored (FileTable.rights_setLen given.rights handle.id size)

/-- After an open that succeeds the handle has the rights of its options. -/
theorem opened_given (reg : v.tracked.host.Regular) {path : Path} {mode : OpenMode}
    {sharing : SharingMode} {flags : OpenFlags} {attributes : FileAttribute}
    {handle : VfsFileHandle} {action : OpenAction} {host : HostDir}
    (h : v.tracked.host.openFile path mode sharing flags attributes = (.ok (handle, action), host)) :
    let opened := v.execHost (.openFile path mode sharing flags attributes)
    let opts := openOptions mode action
    Given handle.id opts.read opts.write opened ∧
      ∃ d, opened.table.descriptors handle.id = some d := by
  intro opened opts
  obtain ⟨number, mid, place, file, tree, write, opens⟩ := HostDir.openFile_ok reg h
  have after : opened.tracked.host = host := by
    have same : opened.tracked.host =
        v.tracked.host.exec (.openFile path mode sharing flags attributes) := Locking.tracked_host
    rw [same, HostDir.exec, h]
  have state : host.files handle.id = some ⟨file, place⟩ := by
    rw [opens.files, number, Table.insert_self]
  have found : opened.table.descriptors handle.id =
      some ⟨opened.tracked.fileAt file, host.tree.isDir file, opts.read, opts.write, 0⟩ := by
    simp only [opened, opts, OpenFiles.execHost, descriptorsAfter, h, state, Table.insert_self]
  refine ⟨⟨?_, ?_, ?_⟩, _, found⟩
  · rw [after]
    have effect := HostDir.exec_effect reg (.openFile path mode sharing flags attributes)
    rw [HostDir.exec, h] at effect
    exact (effect.regular reg).1
  · rw [after, opens.nextId, number]
    exact Nat.lt_succ_self _
  · intro d same
    rw [found] at same
    cases same
    exact ⟨rfl, rfl⟩

/-- A handle without a right can never use it. -/
theorem Given.honours {handle : VfsFileHandle} {read write : Bool}
    (given : Given handle.id read write v) {mode : OpenMode}
    (readOnly : mode = .readOnly → write = false) (writeOnly : mode = .writeOnly → read = false) :
    v.Honours handle mode := by
  cases mode with
  | readOnly =>
    cases readOnly rfl
    constructor
    · intro buf taken
      exact congrArg FileTable.contents (FileTable.write_denied given.rights buf taken)
    · intro size
      exact congrArg FileTable.contents (FileTable.setLen_denied given.rights size)
  | writeOnly =>
    cases writeOnly rfl
    intro len count data reads
    cases answer : (v.table.read handle.id len count).1 with
    | error e => simp [OpenFiles.read, answer, Except.mapError] at reads
    | ok bytes => exact FileTable.read_denied given.rights len count bytes answer
  | readWrite => trivial

/-- With the right to write, a handle does change its file. -/
theorem not_honours {handle : VfsFileHandle} {d : Descriptor FileId}
    (found : v.table.descriptors handle.id = some d) (granted : d.write = true) :
    ¬ v.Honours handle .readOnly := by
  intro honours
  obtain ⟨size, changed⟩ := FileTable.setLen_granted found granted
  exact changed (congrFun (honours.2 size) d.file)

theorem run_regular {host : HostDir} {calls : List FileCall} (reg : host.Regular)
    (run : Run step (.new host) calls v) : v.tracked.host.Regular := by
  refine run.invariant (fun v => v.tracked.host.Regular) ?_ reg
  rintro start call finish reg rfl
  cases call with
  | host op =>
    have same : (start.execHost op).tracked.host = start.tracked.host.exec op :=
      Locking.tracked_host
    rw [exec, same]
    exact ((HostDir.exec_effect reg op).regular reg).1
  | read => exact reg
  | write => exact stored_regular reg _
  | seek => exact reg
  | setFileSize => exact stored_regular reg _

/-- A handle honours its mode, from the open on and whatever is done next, exactly when it
is not read-only or its file was there and was opened as it was. -/
theorem honours_iff {root : HostPath} {kernelCasefold : Bool} {tree : FileTree Attrs}
    {attrs : Attrs} {calls : List FileCall} (plain : FileTree.Plain root) (wf : tree.WellFormed)
    (run : Run step (.new (.new root kernelCasefold tree attrs)) calls v)
    {path : Path} {mode : OpenMode} {sharing : SharingMode} {flags : OpenFlags}
    {attributes : FileAttribute} {handle : VfsFileHandle} {action : OpenAction} {host : HostDir}
    (h : v.tracked.host.openFile path mode sharing flags attributes =
      (.ok (handle, action), host)) :
    (∀ later calls, Run step (v.exec (.host (.openFile path mode sharing flags attributes)))
        calls later → later.Honours handle mode) ↔
      (mode = .readOnly →
        (v.tracked.host.resolveCi path).1.isSome ∧ flags.existAction = .open) := by
  have reg := run_regular (HostDir.new_regular kernelCasefold attrs plain wf) run
  obtain ⟨_, _, _, _, _, _, opens⟩ := HostDir.openFile_ok reg h
  rw [← existed_iff opens.resolved]
  obtain ⟨given, d, found⟩ := opened_given reg h
  constructor
  · intro honours readOnly
    by_contra differs
    subst readOnly
    have granted : (openOptions .readOnly action).write = true := by
      cases action <;> first | exact absurd rfl differs | rfl
    exact not_honours found ((given.rights d found).2.trans granted) (honours _ [] (.nil _))
  · intro existed later calls after
    have kept : Given handle.id (openOptions mode action).read (openOptions mode action).write
        later := by
      refine after.invariant (Given handle.id _ _) ?_ given
      rintro start call finish given rfl
      exact given.exec call
    apply kept.honours
    · intro readOnly
      rw [readOnly, existed readOnly]
      rfl
    · intro writeOnly
      rw [writeOnly]
      cases action <;> rfl

/-- A file is made, and then opened again to be read. -/
theorem honours_iff_read : ∃ (v : OpenFiles) (handle : VfsFileHandle),
    (∀ later calls, Run step (v.exec (.host (.openFile ['a'] .readOnly .denyNone
      ⟨.open, .fail⟩ .normal))) calls later → later.Honours handle .readOnly) := by
  have made := HostDir.emptyVolume_root
  let first := (OpenFiles.new HostDir.emptyVolume).exec
    (.host (.openFile ['a'] .readWrite .denyNone ⟨.fail, .create⟩ .normal))
  have run : Run step (.new HostDir.emptyVolume) [.host (.openFile ['a'] .readWrite .denyNone
      ⟨.fail, .create⟩ .normal)] first := .cons rfl (.nil _)
  have second : (first.tracked.host.openFile ['a'] .readOnly .denyNone ⟨.open, .fail⟩ .normal).1 =
      .ok (⟨2⟩, .existed) := by decide
  refine ⟨first, ⟨2⟩, (honours_iff made HostDir.emptyHost_wellFormed run
    (Prod.ext second rfl)).mpr ?_⟩
  intro _
  decide

/-- A file that an open for reading makes can be written through the handle. -/
theorem created_written : ¬ ∀ (v : OpenFiles) (path : Path) (mode : OpenMode)
    (sharing : SharingMode) (flags : OpenFlags) (attributes : FileAttribute)
    (handle : VfsFileHandle) (action : OpenAction) (host : HostDir),
    v.tracked.host.openFile path mode sharing flags attributes = (.ok (handle, action), host) →
      (v.exec (.host (.openFile path mode sharing flags attributes))).Honours handle mode := by
  intro claim
  have opened : ((OpenFiles.new HostDir.emptyVolume).tracked.host.openFile ['a'] .readOnly
      .denyNone ⟨.fail, .create⟩ .normal).1 = .ok (⟨1⟩, .created) := by decide
  have honours := claim (.new HostDir.emptyVolume) ['a'] .readOnly .denyNone ⟨.fail, .create⟩
    .normal ⟨1⟩ .created _ (Prod.ext opened rfl)
  have kept := congrFun (honours.1 [0x41] 1) (.made 0)
  exact absurd kept (by decide)

end Runs

end OpenFiles
end Warpine.Vfs
