import Warpine.Lib.Custody
import Warpine.Lib.Run
import Warpine.Lib.Words

/-! Child processes that guest threads start, wait for and kill. The calls take
a child out of the shared table and work on it without the lock. -/
namespace Warpine.Loader
open Warpine.Lib

def errorFileNotFound : Nat := 2
def errorInvalidHandle : Nat := 6
def errorInvalidFunction : Nat := 87
def errorChildNotComplete : Nat := 128

/-- The children of the guest, under the numbers it knows them by. A child stands
for the host's process. -/
structure ProcessManager where
  children : Table Nat Nat
  nextPid : Nat

namespace ProcessManager

def new : ProcessManager := ⟨.empty, 100⟩

def addChild (mgr : ProcessManager) (child : Nat) : Nat × ProcessManager :=
  (mgr.nextPid, ⟨mgr.children.insert mgr.nextPid child, wrapAdd mgr.nextPid 1⟩)

def takeChild (mgr : ProcessManager) (pid : Nat) : Option Nat × ProcessManager :=
  (mgr.children pid, { mgr with children := mgr.children.erase pid })

end ProcessManager

inductive ChildCall where
  | dosWaitChild (action option pid : Nat)
  | dosKillProcess (action pid : Nat)

inductive ChildReply where
  | failed (rc : Nat)
  | started (pid : Nat)
  | waited (pid code : Nat)
  | killed
deriving DecidableEq

/-- What a thread takes a child out of the table for. -/
inductive Purpose where
  | poll
  | wait
  | kill

inductive ChildPhase where
  | running (last : Option ChildReply)
  | taking (purpose : Purpose) (pid : Nat)
  | holding (purpose : Purpose) (pid child : Nat)
  | putting (pid child : Nat)
  | reaping (child : Nat)
  | scanning (block : Bool)
  | checking
  /-- Wants the lock that it holds. -/
  | stuck

def ChildCall.start : ChildCall → ChildPhase
  | .dosWaitChild action option pid =>
      if action = 0 ∧ pid ≠ 0 then .taking (if option = 1 then .poll else .wait) pid
      else .scanning (option ≠ 1)
  | .dosKillProcess _ pid => .taking .kill pid

/-- The child a thread works on, with its number. -/
def ChildPhase.hand : ChildPhase → Option (Nat × Nat)
  | .holding _ pid child | .putting pid child => some (pid, child)
  | _ => none

/-- What has happened to the children so far. -/
structure ChildHistory where
  spawned : Nat
  pidOf : Nat → Nat
  /-- The children whose status a call returned, with the status. -/
  returned : List (Nat × Nat)
  killed : List Nat

/-- Started, its status not yet returned, and not killed. -/
structure ChildHistory.Live (history : ChildHistory) (child : Nat) : Prop where
  spawned : child < history.spawned
  unreturned : child ∉ history.returned.map Prod.fst
  unkilled : child ∉ history.killed

structure ProcessState where
  mgr : ProcessManager
  lock : Option Nat
  threads : Nat → ChildPhase
  shuttingDown : Bool
  /-- How each host process ended, without a code when a signal ended it. -/
  exits : Nat → Option (Option Nat)
  history : ChildHistory

/-- `status.code().unwrap_or(1)`. -/
def exitCode (status : Option Nat) : Nat := status.getD 1

namespace ProcessState

def initial : ProcessState where
  mgr := .new
  lock := none
  threads := fun _ => .running none
  shuttingDown := false
  exits := fun _ => none
  history := ⟨0, fun _ => 0, [], []⟩

def goes (s : ProcessState) (thread : Nat) (phase : ChildPhase) : ProcessState :=
  { s with threads := Function.update s.threads thread phase }

def fails (s : ProcessState) (thread rc : Nat) : ProcessState :=
  s.goes thread (.running (some (.failed rc)))

/-- The host started a process; the table gets it. -/
def exec (s : ProcessState) (thread : Nat) : ProcessState :=
  let child := s.history.spawned
  let (pid, mgr) := s.mgr.addChild child
  { s with
    mgr := mgr
    history := { s.history with
      spawned := child + 1
      pidOf := Function.update s.history.pidOf child pid } }.goes thread
    (.running (some (.started pid)))

def take (s : ProcessState) (thread : Nat) (purpose : Purpose) (pid : Nat) : ProcessState :=
  match s.mgr.takeChild pid with
  | (none, _) => s.fails thread errorInvalidHandle
  | (some child, mgr) => { s with mgr := mgr }.goes thread (.holding purpose pid child)

def returns (s : ProcessState) (thread pid child : Nat) (status : Option Nat) : ProcessState :=
  { s with history := { s.history with
      returned := (child, exitCode status) :: s.history.returned } }.goes thread
    (.running (some (.waited pid (exitCode status))))

def poll (s : ProcessState) (thread pid child : Nat) : ProcessState :=
  match s.exits child with
  | some status => s.returns thread pid child status
  | none => s.goes thread (.putting pid child)

def putBack (s : ProcessState) (thread pid child : Nat) : ProcessState :=
  { s with mgr := { s.mgr with children := s.mgr.children.insert pid child } }.fails thread
    errorChildNotComplete

def kill (s : ProcessState) (thread child : Nat) : ProcessState :=
  { s with history := { s.history with killed := child :: s.history.killed } }.goes thread
    (.reaping child)

/-- `wait_any` found a child that has ended and took it out of the table. The call
asks for the lock again while the guard of the first is alive. -/
def scanFinds (s : ProcessState) (thread pid : Nat) : ProcessState :=
  { s with mgr := (s.mgr.takeChild pid).2, lock := some thread }.goes thread .stuck

def scanMisses (s : ProcessState) (thread : Nat) (block : Bool) : ProcessState :=
  if block then s.goes thread .checking else s.fails thread errorChildNotComplete

end ProcessState

inductive ChildEvent where
  | exec (thread execFlag : Nat)
  | execFails (thread execFlag : Nat)
  | call (thread : Nat) (call : ChildCall)
  | take (thread : Nat)
  | work (thread : Nat)
  /-- The host refuses to poll, wait for or kill the child. -/
  | hostFails (thread : Nat)
  /-- A look at all children, some of which the host fails to poll. -/
  | scan (thread : Nat) (unpolled : Nat → Bool)
  | check (thread : Nat)
  | leave (thread : Nat)
  | exits (child : Nat) (status : Option Nat)
  | quit

/-- The steps of the threads and of the host, in any order. Between two steps only a
stuck thread holds the lock; every step that uses the table needs it free. -/
inductive ChildStep : ProcessState → ChildEvent → ProcessState → Prop where
  | exec {s : ProcessState} {thread execFlag : Nat} {last : Option ChildReply}
      (running : s.threads thread = .running last) (async : execFlag ∈ [1, 2, 4])
      (free : s.lock = none) : ChildStep s (.exec thread execFlag) (s.exec thread)
  | execFails {s : ProcessState} {thread execFlag : Nat} {last : Option ChildReply}
      (running : s.threads thread = .running last) (async : execFlag ∈ [1, 2, 4]) :
      ChildStep s (.execFails thread execFlag) (s.fails thread errorFileNotFound)
  | call {s : ProcessState} {thread : Nat} {last : Option ChildReply} (call : ChildCall)
      (running : s.threads thread = .running last) :
      ChildStep s (.call thread call) (s.goes thread call.start)
  | take {s : ProcessState} {thread pid : Nat} {purpose : Purpose}
      (takes : s.threads thread = .taking purpose pid) (free : s.lock = none) :
      ChildStep s (.take thread) (s.take thread purpose pid)
  | poll {s : ProcessState} {thread pid child : Nat}
      (holds : s.threads thread = .holding .poll pid child) :
      ChildStep s (.work thread) (s.poll thread pid child)
  | putBack {s : ProcessState} {thread pid child : Nat}
      (puts : s.threads thread = .putting pid child) (free : s.lock = none) :
      ChildStep s (.work thread) (s.putBack thread pid child)
  -- the wait is over and the relay thread let go, for which the call takes the lock
  | wait {s : ProcessState} {thread pid child : Nat} {status : Option Nat}
      (holds : s.threads thread = .holding .wait pid child) (ended : s.exits child = some status)
      (free : s.lock = none) : ChildStep s (.work thread) (s.returns thread pid child status)
  | kill {s : ProcessState} {thread pid child : Nat}
      (holds : s.threads thread = .holding .kill pid child) :
      ChildStep s (.work thread) (s.kill thread child)
  | reap {s : ProcessState} {thread child : Nat} {status : Option Nat}
      (reaps : s.threads thread = .reaping child) (ended : s.exits child = some status) :
      ChildStep s (.work thread) (s.goes thread (.running (some .killed)))
  | hostFails {s : ProcessState} {thread pid child : Nat} {purpose : Purpose}
      (holds : s.threads thread = .holding purpose pid child) :
      ChildStep s (.hostFails thread) (s.fails thread errorInvalidHandle)
  | scanFinds {s : ProcessState} {thread pid child : Nat} {block : Bool} {status : Option Nat}
      {unpolled : Nat → Bool} (scans : s.threads thread = .scanning block) (free : s.lock = none)
      (found : s.mgr.children pid = some child) (ended : s.exits child = some status)
      (polled : unpolled child = false) :
      ChildStep s (.scan thread unpolled) (s.scanFinds thread pid)
  | scanMisses {s : ProcessState} {thread : Nat} {block : Bool} {unpolled : Nat → Bool}
      (scans : s.threads thread = .scanning block) (free : s.lock = none)
      (none_ended : ∀ pid child, s.mgr.children pid = some child →
        s.exits child = none ∨ unpolled child = true) :
      ChildStep s (.scan thread unpolled) (s.scanMisses thread block)
  | checkEmpty {s : ProcessState} {thread : Nat} (checks : s.threads thread = .checking)
      (free : s.lock = none) (empty : ∀ pid, s.mgr.children pid = none) :
      ChildStep s (.check thread) (s.fails thread errorInvalidHandle)
  | checkAgain {s : ProcessState} {thread pid child : Nat} (checks : s.threads thread = .checking)
      (free : s.lock = none) (found : s.mgr.children pid = some child) :
      ChildStep s (.check thread) (s.goes thread (.scanning true))
  | leave {s : ProcessState} {thread : Nat} (scans : s.threads thread = .scanning true)
      (quits : s.shuttingDown = true) :
      ChildStep s (.leave thread) (s.fails thread errorInvalidFunction)
  | exits {s : ProcessState} {child : Nat} (status : Option Nat)
      (started : child < s.history.spawned) (runs : s.exits child = none) :
      ChildStep s (.exits child status)
        { s with exits := Function.update s.exits child (some status) }
  | quit {s : ProcessState} : ChildStep s .quit { s with shuttingDown := true }

/-- Where a child can be: in the table, or with a thread that works on it. -/
inductive ChildPlace where
  | table (pid : Nat)
  | thread (thread : Nat)
deriving DecidableEq

namespace ProcessState

def held (s : ProcessState) : Table ChildPlace (Nat × Nat)
  | .table pid => (s.mgr.children pid).map fun child => (pid, child)
  | .thread thread => (s.threads thread).hand

/-- Some thread works on the child. -/
def Out (s : ProcessState) (child : Nat) : Prop :=
  ∃ thread pid, (s.threads thread).hand = some (pid, child)

/-- A call for a live child, or for any child while there are live ones, is refused. -/
def Refuses (s : ProcessState) : ChildEvent → Prop
  | .take thread => ∃ purpose pid child, s.threads thread = .taking purpose pid ∧
      s.history.Live child ∧ s.history.pidOf child = pid ∧ s.mgr.children pid = none
  | .check thread => s.threads thread = .checking ∧ (∃ child, s.history.Live child) ∧
      ∀ pid, s.mgr.children pid = none
  | _ => False

/-- A thread waits for the lock that it holds itself. -/
def Hung (s : ProcessState) : Prop := ∃ thread, s.lock = some thread ∧ s.threads thread = .stuck

/-- No call is made for a child that a thread works on, nor for any child while threads work on
all of them; the host serves every call; a look at all children finds none that has ended;
and a new child does not get the number of a live one. -/
def Undisturbed (s : ProcessState) : ChildEvent → Prop
  | .exec _ _ => ∀ child, s.history.Live child → s.history.pidOf child ≠ s.mgr.nextPid
  | .take thread => ∀ purpose pid child, s.threads thread = .taking purpose pid →
      s.history.Live child → s.history.pidOf child = pid → ¬ s.Out child
  | .hostFails _ => False
  | .scan _ unpolled => ∀ pid child, s.mgr.children pid = some child →
      s.exits child = none ∨ unpolled child = true
  | .check _ => (∃ child, s.history.Live child) → ∃ child, s.history.Live child ∧ ¬ s.Out child
  | _ => True

end ProcessState

namespace ChildHistory

variable {history : ChildHistory} {child other code : Nat}

theorem live_returned :
    Live { history with returned := (other, code) :: history.returned } child ↔
      history.Live child ∧ child ≠ other := by
  constructor
  · intro h
    exact ⟨⟨h.spawned, List.not_mem_of_not_mem_cons h.unreturned, h.unkilled⟩,
      List.ne_of_not_mem_cons h.unreturned⟩
  · intro h
    exact ⟨h.1.spawned, List.not_mem_cons_of_ne_of_not_mem h.2 h.1.unreturned, h.1.unkilled⟩

theorem live_killed :
    Live { history with killed := other :: history.killed } child ↔
      history.Live child ∧ child ≠ other := by
  constructor
  · intro h
    exact ⟨⟨h.spawned, h.unreturned, List.not_mem_of_not_mem_cons h.unkilled⟩,
      List.ne_of_not_mem_cons h.unkilled⟩
  · intro h
    exact ⟨h.1.spawned, h.1.unreturned, List.not_mem_cons_of_ne_of_not_mem h.2 h.1.unkilled⟩

/-- Only children that were started are in the other lists. -/
def Past (history : ChildHistory) : Prop :=
  ∀ child, child ∈ history.returned.map Prod.fst ∨ child ∈ history.killed →
    child < history.spawned

theorem live_started (past : history.Past) {pidOf : Nat → Nat} :
    Live { history with spawned := history.spawned + 1, pidOf := pidOf } child ↔
      child = history.spawned ∨ history.Live child := by
  constructor
  · intro h
    by_cases new : child = history.spawned
    · exact .inl new
    · have old : child < history.spawned + 1 := h.spawned
      exact .inr ⟨by omega, h.unreturned, h.unkilled⟩
  · rintro (rfl | h)
    · exact ⟨Nat.lt_succ_self _, fun member => absurd (past _ (.inl member)) (Nat.lt_irrefl _),
        fun member => absurd (past _ (.inr member)) (Nat.lt_irrefl _)⟩
    · exact ⟨Nat.lt_succ_of_lt h.spawned, h.unreturned, h.unkilled⟩

end ChildHistory

/-- What a step does to the places of the children and to the history. -/
inductive ChildEffect (s : ProcessState) (event : ChildEvent) (next : ProcessState) : Prop where
  | keeps (held : next.held = s.held) (history : next.history = s.history)
      (lock : next.lock = s.lock)
  | drops (place : ChildPlace) (held : next.held = s.held.erase place)
      (history : next.history = s.history) (disturbed : ¬ s.Undisturbed event)
  | moves (target : ChildPlace) {origin : ChildPlace} {pid child : Nat}
      (here : s.held origin = some (pid, child))
      (room : ∀ there, s.held target = some there → there.1 = pid)
      (held : next.held = (s.held.erase origin).insert target (pid, child))
      (history : next.history = s.history) (lock : next.lock = s.lock)
  | returns {place : ChildPlace} {pid child code : Nat} (here : s.held place = some (pid, child))
      (held : next.held = s.held.erase place)
      (history : next.history = { s.history with
        returned := (child, code) :: s.history.returned })
      (lock : next.lock = s.lock)
  | kills {place : ChildPlace} {pid child : Nat} (here : s.held place = some (pid, child))
      (held : next.held = s.held.erase place)
      (history : next.history = { s.history with killed := child :: s.history.killed })
      (lock : next.lock = s.lock)
  | starts (pid : Nat) (room : ∀ there, s.held (.table pid) = some there → there.1 = pid)
      (held : next.held = s.held.insert (.table pid) (pid, s.history.spawned))
      (history : next.history = { s.history with
        spawned := s.history.spawned + 1
        pidOf := Function.update s.history.pidOf s.history.spawned pid })
      (lock : next.lock = s.lock)
      (unused : s.Undisturbed event → ∀ child, s.history.Live child →
        s.history.pidOf child ≠ pid)

namespace ProcessState

variable {s next : ProcessState} {event : ChildEvent} {thread pid child : Nat}

theorem held_table {there : Nat × Nat} (h : s.held (.table pid) = some there) : there.1 = pid := by
  obtain ⟨other, _, heq⟩ := Option.map_eq_some_iff.mp h
  rw [← heq]

theorem held_goes_none {phase : ChildPhase} (h : phase.hand = none) :
    (s.goes thread phase).held = s.held.erase (.thread thread) := by
  funext place
  cases place with
  | table pid => rfl
  | thread other =>
    by_cases same : other = thread
    · rw [same, Table.erase_self]
      simp only [held, goes, Function.update_self, h]
    · rw [Table.erase_ne _ (by simp [same])]
      simp only [held, goes, Function.update_of_ne same]

theorem held_goes_some {phase : ChildPhase} {thing : Nat × Nat} (h : phase.hand = some thing) :
    (s.goes thread phase).held = s.held.insert (.thread thread) thing := by
  funext place
  cases place with
  | table pid => rfl
  | thread other =>
    by_cases same : other = thread
    · rw [same, Table.insert_self]
      simp only [held, goes, Function.update_self, h]
    · rw [Table.insert_ne _ _ (by simp [same])]
      simp only [held, goes, Function.update_of_ne same]

theorem held_goes_idle {phase : ChildPhase} (before : (s.threads thread).hand = none)
    (after : phase.hand = none) : (s.goes thread phase).held = s.held := by
  rw [held_goes_none after]
  exact Table.erase_none before

theorem held_erase_child {mid : ProcessState}
    (children : mid.mgr.children = s.mgr.children.erase pid) (threads : mid.threads = s.threads) :
    mid.held = s.held.erase (.table pid) := by
  funext place
  cases place with
  | thread other =>
    rw [Table.erase_ne _ (by simp)]
    simp only [held, threads]
  | table other =>
    by_cases same : other = pid
    · rw [same, Table.erase_self]
      simp only [held, children, Table.erase_self, Option.map_none]
    · rw [Table.erase_ne _ (by simp [same])]
      simp only [held, children, Table.erase_ne _ same]

theorem held_insert_child {mid : ProcessState}
    (children : mid.mgr.children = s.mgr.children.insert pid child)
    (threads : mid.threads = s.threads) :
    mid.held = s.held.insert (.table pid) (pid, child) := by
  funext place
  cases place with
  | thread other =>
    rw [Table.insert_ne _ _ (by simp)]
    simp only [held, threads]
  | table other =>
    by_cases same : other = pid
    · rw [same, Table.insert_self]
      simp only [held, children, Table.insert_self, Option.map_some]
    · rw [Table.insert_ne _ _ (by simp [same])]
      simp only [held, children, Table.insert_ne _ _ same]

theorem start_hand (call : ChildCall) : call.start.hand = none := by
  cases call with
  | dosWaitChild action option pid =>
    simp only [ChildCall.start]
    split_ifs <;> rfl
  | dosKillProcess action pid => rfl

theorem effect_take {purpose : Purpose} (takes : s.threads thread = .taking purpose pid) :
    ChildEffect s event (s.take thread purpose pid) := by
  have idle : (s.threads thread).hand = none := by rw [takes]; rfl
  unfold take ProcessManager.takeChild
  cases found : s.mgr.children pid with
  | none => exact .keeps (held_goes_idle idle rfl) rfl rfl
  | some child =>
    have here : s.held (.table pid) = some (pid, child) := by
      simp only [held, found, Option.map_some]
    refine .moves (.thread thread) here ?_ ?_ rfl rfl
    · intro there impossible
      have none : s.held (.thread thread) = none := idle
      rw [none] at impossible
      contradiction
    · rw [held_goes_some rfl]
      exact congrArg (fun h => Table.insert h _ _) (held_erase_child rfl rfl)

theorem effect_putBack (puts : s.threads thread = .putting pid child) :
    ChildEffect s event (s.putBack thread pid child) := by
  have here : s.held (.thread thread) = some (pid, child) := by simp only [held, puts]; rfl
  have apart : ChildPlace.thread thread ≠ .table pid := by simp
  refine .moves (.table pid) here (fun _ => held_table) ?_ rfl rfl
  · unfold putBack fails
    rw [held_goes_none rfl]
    have put : held { s with mgr := { s.mgr with children := s.mgr.children.insert pid child } } =
        s.held.insert (.table pid) (pid, child) := held_insert_child rfl rfl
    rw [put]
    funext place
    by_cases at_thread : place = .thread thread
    · rw [at_thread, Table.erase_self, Table.insert_ne _ _ apart, Table.erase_self]
    · rw [Table.erase_ne _ at_thread]
      by_cases at_table : place = .table pid
      · rw [at_table, Table.insert_self, Table.insert_self]
      · rw [Table.insert_ne _ _ at_table, Table.insert_ne _ _ at_table,
          Table.erase_ne _ at_thread]

theorem effect_returns {status : Option Nat}
    (here : s.held (.thread thread) = some (pid, child)) :
    ChildEffect s event (s.returns thread pid child status) :=
  .returns here (held_goes_none rfl) rfl rfl

theorem effect_poll (holds : s.threads thread = .holding .poll pid child) :
    ChildEffect s event (s.poll thread pid child) := by
  have here : s.held (.thread thread) = some (pid, child) := by simp only [held, holds]; rfl
  unfold poll
  split
  · exact effect_returns here
  · apply ChildEffect.keeps
    case held =>
      rw [held_goes_some rfl]
      funext place
      by_cases same : place = .thread thread
      · rw [same, Table.insert_self, here]
      · exact Table.insert_ne _ _ same
    case history => rfl
    case lock => rfl

theorem effect_of_step (step : ChildStep s event next) : ChildEffect s event next := by
  cases step with
  | @exec thread execFlag last running async free =>
    have idle : ∀ mid : ProcessState, mid.threads = s.threads →
        (mid.threads thread).hand = none := by
      intro mid threads
      rw [threads, running]
      rfl
    apply ChildEffect.starts s.mgr.nextPid
    case room => exact fun _ => held_table
    case held =>
      refine (held_goes_idle (idle _ ?_) rfl).trans
        (@held_insert_child s s.mgr.nextPid s.history.spawned _ ?_ ?_) <;> rfl
    case history => rfl
    case lock => rfl
    case unused => exact fun undisturbed => undisturbed
  | @execFails thread execFlag last running async =>
    have idle : (s.threads thread).hand = none := by rw [running]; rfl
    exact .keeps (held_goes_idle idle rfl) rfl rfl
  | @call thread last call running =>
    have idle : (s.threads thread).hand = none := by rw [running]; rfl
    exact .keeps (held_goes_idle idle (start_hand call)) rfl rfl
  | take takes free => exact effect_take takes
  | poll holds => exact effect_poll holds
  | putBack puts free => exact effect_putBack puts
  | wait holds ended free => exact effect_returns (by simp only [held, holds]; rfl)
  | kill holds => exact .kills (by simp only [held, holds]; rfl) (held_goes_none rfl) rfl rfl
  | @reap thread child status reaps ended =>
    have idle : (s.threads thread).hand = none := by rw [reaps]; rfl
    exact .keeps (held_goes_idle idle rfl) rfl rfl
  | hostFails holds => exact .drops _ (held_goes_none rfl) rfl not_false
  | @scanFinds thread pid child block status unpolled scans free found ended polled =>
    have idle : ∀ mid : ProcessState, mid.threads = s.threads →
        (mid.threads thread).hand = none := by
      intro mid threads
      rw [threads, scans]
      rfl
    apply ChildEffect.drops (.table pid)
    case held =>
      refine (held_goes_idle (idle _ ?_) rfl).trans (held_erase_child ?_ ?_) <;> rfl
    case history => rfl
    case disturbed =>
      intro undisturbed
      rcases undisturbed pid child found with runs | skipped
      · rw [ended] at runs
        contradiction
      · rw [polled] at skipped
        contradiction
  | @scanMisses thread block unpolled scans free none_ended =>
    have idle : (s.threads thread).hand = none := by rw [scans]; rfl
    unfold scanMisses
    split
    · exact .keeps (held_goes_idle idle rfl) rfl rfl
    · exact .keeps (held_goes_idle idle rfl) rfl rfl
  | @checkEmpty thread checks free empty =>
    have idle : (s.threads thread).hand = none := by rw [checks]; rfl
    exact .keeps (held_goes_idle idle rfl) rfl rfl
  | @checkAgain thread pid child checks free found =>
    have idle : (s.threads thread).hand = none := by rw [checks]; rfl
    exact .keeps (held_goes_idle idle rfl) rfl rfl
  | @leave thread scans quits =>
    have idle : (s.threads thread).hand = none := by rw [scans]; rfl
    exact .keeps (held_goes_idle idle rfl) rfl rfl
  | exits status started runs => exact .keeps rfl rfl rfl
  | quit => exact .keeps rfl rfl rfl

end ProcessState
/-- Every child that is held anywhere is live and held once, and no status was
returned twice. -/
structure Owned (held : Table ChildPlace (Nat × Nat)) (history : ChildHistory) : Prop where
  once : Once Prod.snd held
  live : ∀ place pid child, held place = some (pid, child) → history.Live child
  past : history.Past
  nodup : (history.returned.map Prod.fst).Nodup

namespace Owned

variable {held : Table ChildPlace (Nat × Nat)} {history : ChildHistory} {place : ChildPlace}
  {pid child : Nat}

theorem erase (h : Owned held history) (place : ChildPlace) : Owned (held.erase place) history where
  once := h.once.erase place
  live := fun other pid child found => h.live other pid child (Table.erase_eq_some.mp found).2
  past := h.past
  nodup := h.nodup

theorem move (h : Owned held history) {origin : ChildPlace}
    (here : held origin = some (pid, child)) (target : ChildPlace) :
    Owned ((held.erase origin).insert target (pid, child)) history where
  once := h.once.move here target
  live := by
    intro other otherPid otherChild found
    rcases Table.insert_eq_some.mp found with ⟨_, heq⟩ | ⟨_, found⟩
    · cases heq
      exact h.live origin pid child here
    · exact h.live other otherPid otherChild (Table.erase_eq_some.mp found).2
  past := h.past
  nodup := h.nodup

theorem returns (h : Owned held history) (here : held place = some (pid, child)) (code : Nat) :
    Owned (held.erase place) { history with returned := (child, code) :: history.returned } where
  once := h.once.erase place
  live := by
    intro other otherPid otherChild found
    exact ChildHistory.live_returned.mpr
      ⟨h.live other otherPid otherChild (Table.erase_eq_some.mp found).2,
        h.once.not_of_erase here found⟩
  past := by
    rintro other (member | member)
    · rcases List.mem_cons.mp member with rfl | member
      · exact (h.live place pid _ here).spawned
      · exact h.past other (.inl member)
    · exact h.past other (.inr member)
  nodup := List.nodup_cons.mpr ⟨(h.live place pid child here).unreturned, h.nodup⟩

theorem kills (h : Owned held history) (here : held place = some (pid, child)) :
    Owned (held.erase place) { history with killed := child :: history.killed } where
  once := h.once.erase place
  live := by
    intro other otherPid otherChild found
    exact ChildHistory.live_killed.mpr
      ⟨h.live other otherPid otherChild (Table.erase_eq_some.mp found).2,
        h.once.not_of_erase here found⟩
  past := by
    rintro other (member | member)
    · exact h.past other (.inl member)
    · rcases List.mem_cons.mp member with rfl | member
      · exact (h.live place pid _ here).spawned
      · exact h.past other (.inr member)
  nodup := h.nodup

theorem starts (h : Owned held history) (place : ChildPlace) (pid : Nat) (pidOf : Nat → Nat) :
    Owned (held.insert place (pid, history.spawned))
      { history with spawned := history.spawned + 1, pidOf := pidOf } where
  once := by
    apply h.once.insert
    intro other there found same
    have old : there.2 < history.spawned := (h.live other there.1 there.2 found).spawned
    exact absurd same (Nat.ne_of_lt old)
  live := by
    intro other otherPid otherChild found
    apply (ChildHistory.live_started h.past).mpr
    rcases Table.insert_eq_some.mp found with ⟨_, heq⟩ | ⟨_, found⟩
    · cases heq
      exact .inl rfl
    · exact .inr (h.live other otherPid otherChild found)
  past := fun other member => Nat.lt_succ_of_lt (h.past other member)
  nodup := h.nodup

end Owned

theorem Owned.step {s next : ProcessState} {event : ChildEvent} (h : Owned s.held s.history)
    (effect : ChildEffect s event next) : Owned next.held next.history := by
  cases effect with
  | keeps held history lock => rw [held, history]; exact h
  | drops place held history disturbed => rw [held, history]; exact h.erase place
  | moves target here room held history lock => rw [held, history]; exact h.move here _
  | returns here held history lock => rw [held, history]; exact h.returns here _
  | kills here held history lock => rw [held, history]; exact h.kills here
  | starts pid room held history lock unused => rw [held, history]; exact h.starts _ _ _

/-- Every live child can be found under the number the guest knows, in the table or with
a thread. -/
structure Kept (held : Table ChildPlace (Nat × Nat)) (history : ChildHistory) : Prop
    extends Owned held history where
  found : ∀ child, history.Live child → ∃ place, held place = some (history.pidOf child, child)
  numbered : ∀ place pid child, held place = some (pid, child) → history.pidOf child = pid
  apart : ∀ one two, history.Live one → history.Live two →
    history.pidOf one = history.pidOf two → one = two

namespace Kept

variable {held : Table ChildPlace (Nat × Nat)} {history : ChildHistory} {place : ChildPlace}
  {pid child : Nat}

theorem move (h : Kept held history) {origin target : ChildPlace}
    (here : held origin = some (pid, child))
    (room : ∀ there, held target = some there → there.1 = pid) :
    Kept ((held.erase origin).insert target (pid, child)) history where
  toOwned := h.toOwned.move here target
  found := by
    intro other live
    cases h.found other live with
    | intro there hthere =>
      by_cases same : other = child
      · have hpid := h.numbered origin pid child here
        exact ⟨target, by rw [same, hpid, Table.insert_self]⟩
      · -- what the target holds has the number of the child that comes there
        have free : there ≠ target := by
          intro heq
          rw [heq] at hthere
          have number : history.pidOf other = pid := room _ hthere
          exact same (h.apart other child live (h.live origin pid child here)
            (number.trans (h.numbered origin pid child here).symm))
        have elsewhere : there ≠ origin := by
          intro heq
          rw [heq, here] at hthere
          exact same (congrArg Prod.snd (Option.some.inj hthere)).symm
        exact ⟨there, by rw [Table.insert_ne _ _ free, Table.erase_ne _ elsewhere, hthere]⟩
  numbered := by
    intro other otherPid otherChild found
    rcases Table.insert_eq_some.mp found with ⟨_, heq⟩ | ⟨_, found⟩
    · cases heq
      exact h.numbered origin pid child here
    · exact h.numbered other otherPid otherChild (Table.erase_eq_some.mp found).2
  apart := h.apart

/-- A live child other than the one at the place stays where it is. -/
theorem found_erase (h : Kept held history) (here : held place = some (pid, child)) {other : Nat}
    (live : history.Live other) (differs : other ≠ child) :
    ∃ there, held.erase place there = some (history.pidOf other, other) := by
  cases h.found other live with
  | intro there hthere =>
    have elsewhere : there ≠ place := by
      intro heq
      rw [heq, here] at hthere
      exact differs (congrArg Prod.snd (Option.some.inj hthere)).symm
    exact ⟨there, by rw [Table.erase_ne _ elsewhere, hthere]⟩

theorem returns (h : Kept held history) (here : held place = some (pid, child)) (code : Nat) :
    Kept (held.erase place) { history with returned := (child, code) :: history.returned } where
  toOwned := h.toOwned.returns here code
  found := fun _ live =>
    have both := ChildHistory.live_returned.mp live
    h.found_erase here both.1 both.2
  numbered := fun other otherPid otherChild found =>
    h.numbered other otherPid otherChild (Table.erase_eq_some.mp found).2
  apart := fun one two hone htwo =>
    h.apart one two (ChildHistory.live_returned.mp hone).1 (ChildHistory.live_returned.mp htwo).1

theorem kills (h : Kept held history) (here : held place = some (pid, child)) :
    Kept (held.erase place) { history with killed := child :: history.killed } where
  toOwned := h.toOwned.kills here
  found := fun _ live =>
    have both := ChildHistory.live_killed.mp live
    h.found_erase here both.1 both.2
  numbered := fun other otherPid otherChild found =>
    h.numbered other otherPid otherChild (Table.erase_eq_some.mp found).2
  apart := fun one two hone htwo =>
    h.apart one two (ChildHistory.live_killed.mp hone).1 (ChildHistory.live_killed.mp htwo).1

theorem starts (h : Kept held history)
    (room : ∀ there, held (.table pid) = some there → there.1 = pid)
    (unused : ∀ child, history.Live child → history.pidOf child ≠ pid) :
    Kept (held.insert (.table pid) (pid, history.spawned)) { history with
      spawned := history.spawned + 1
      pidOf := Function.update history.pidOf history.spawned pid } where
  toOwned := h.toOwned.starts _ _ _
  found := by
    intro other live
    rcases (ChildHistory.live_started h.past).mp live with rfl | old
    · exact ⟨.table pid, by simp only [Table.insert_self, Function.update_self]⟩
    · cases h.found other old with
      | intro there hthere =>
        have free : there ≠ .table pid := by
          intro heq
          rw [heq] at hthere
          exact unused other old (room _ hthere)
        exact ⟨there, by
          simp only [Table.insert_ne _ _ free, Function.update_of_ne (Nat.ne_of_lt old.spawned),
            hthere]⟩
  numbered := by
    intro other otherPid otherChild found
    rcases Table.insert_eq_some.mp found with ⟨_, heq⟩ | ⟨_, found⟩
    · cases heq
      exact Function.update_self _ _ _
    · have old := h.live other otherPid otherChild found
      simp only [Function.update_of_ne (Nat.ne_of_lt old.spawned)]
      exact h.numbered other otherPid otherChild found
  apart := by
    intro one two hone htwo same
    simp only at same
    rcases (ChildHistory.live_started h.past).mp hone with rfl | oldOne <;>
      rcases (ChildHistory.live_started h.past).mp htwo with rfl | oldTwo
    · rfl
    · rw [Function.update_self, Function.update_of_ne (Nat.ne_of_lt oldTwo.spawned)] at same
      exact absurd same.symm (unused two oldTwo)
    · rw [Function.update_self, Function.update_of_ne (Nat.ne_of_lt oldOne.spawned)] at same
      exact absurd same (unused one oldOne)
    · rw [Function.update_of_ne (Nat.ne_of_lt oldOne.spawned),
        Function.update_of_ne (Nat.ne_of_lt oldTwo.spawned)] at same
      exact h.apart one two oldOne oldTwo same

end Kept

theorem Kept.step {s next : ProcessState} {event : ChildEvent} (h : Kept s.held s.history)
    (effect : ChildEffect s event next) (undisturbed : s.Undisturbed event) :
    Kept next.held next.history := by
  cases effect with
  | keeps held history lock => rw [held, history]; exact h
  | drops place held history disturbed => exact absurd undisturbed disturbed
  | moves target here room held history lock => rw [held, history]; exact h.move here room
  | returns here held history lock => rw [held, history]; exact h.returns here _
  | kills here held history lock => rw [held, history]; exact h.kills here
  | starts pid room held history lock unused =>
    rw [held, history]
    exact h.starts room (unused undisturbed)

theorem lock_of_effect {s next : ProcessState} {event : ChildEvent}
    (effect : ChildEffect s event next) (undisturbed : s.Undisturbed event) :
    next.lock = s.lock := by
  cases effect with
  | drops place held history disturbed => exact absurd undisturbed disturbed
  | _ => assumption

namespace ProcessState

variable {s next : ProcessState} {event : ChildEvent} {events : List ChildEvent}

theorem held_initial (place : ChildPlace) : initial.held place = none := by
  cases place <;> rfl

theorem kept_initial : Kept initial.held initial.history where
  once := fun first _ one _ found => by rw [held_initial] at found; contradiction
  live := fun place pid child found => by rw [held_initial] at found; contradiction
  past := fun child member => by cases member <;> contradiction
  nodup := List.nodup_nil
  found := fun child live => absurd live.spawned (Nat.not_lt_zero child)
  numbered := fun place pid child found => by rw [held_initial] at found; contradiction
  apart := fun one two hone => absurd hone.spawned (Nat.not_lt_zero one)

/-- No status is returned twice, whatever the threads and the host do. -/
theorem owned_of_run (run : Run ChildStep initial events s) : Owned s.held s.history := by
  apply run.invariant fun s => Owned s.held s.history
  · exact fun _ _ _ h step => h.step (effect_of_step step)
  · exact kept_initial.toOwned

theorem not_refuses (h : Kept s.held s.history) (undisturbed : s.Undisturbed event) :
    ¬ s.Refuses event := by
  have out_of_missing : ∀ child, s.history.Live child →
      s.mgr.children (s.history.pidOf child) = none → s.Out child := by
    intro child live missing
    cases h.found child live with
    | intro place hplace =>
      cases place with
      | thread thread => exact ⟨thread, _, hplace⟩
      | table pid =>
        have number : s.history.pidOf child = pid := held_table hplace
        simp only [held, ← number, missing] at hplace
        contradiction
  cases event with
  | take thread =>
    rintro ⟨purpose, pid, child, takes, live, rfl, missing⟩
    exact undisturbed purpose _ child takes live rfl (out_of_missing child live missing)
  | check thread =>
    rintro ⟨_, some, empty⟩
    obtain ⟨child, live, inside⟩ := undisturbed some
    exact inside (out_of_missing child live (empty _))
  | _ => exact not_false

/-- Some thread has not made a call yet. -/
def Unused (s : ProcessState) : Prop :=
  ∃ bound, ∀ thread, bound ≤ thread → s.threads thread = .running none

theorem threads_of_step (step : ChildStep s event next) :
    next.threads = s.threads ∨
      ∃ thread phase, next.threads = Function.update s.threads thread phase := by
  cases step with
  | exits status started runs => exact .inl rfl
  | quit => exact .inl rfl
  | take takes free =>
    unfold take
    split <;> exact .inr ⟨_, _, rfl⟩
  | poll holds =>
    unfold poll
    split <;> exact .inr ⟨_, _, rfl⟩
  | scanMisses scans free none_ended =>
    unfold scanMisses
    split <;> exact .inr ⟨_, _, rfl⟩
  | _ => exact .inr ⟨_, _, rfl⟩

theorem Unused.step (h : s.Unused) (step : ChildStep s event next) : next.Unused := by
  cases h with
  | intro bound h =>
    rcases threads_of_step step with same | ⟨thread, phase, updated⟩
    · exact ⟨bound, fun other hother => by rw [same]; exact h other hother⟩
    · refine ⟨max bound (thread + 1), fun other hother => ?_⟩
      rw [updated, Function.update_of_ne (by omega)]
      exact h other (by omega)

/-- What runs of undisturbed steps keep. -/
structure Consistent (s : ProcessState) : Prop where
  kept : Kept s.held s.history
  free : s.lock = none
  unused : s.Unused

theorem Consistent.initial : Consistent initial := ⟨kept_initial, rfl, 0, fun _ _ => rfl⟩

theorem Consistent.step (h : s.Consistent) (undisturbed : s.Undisturbed event)
    (step : ChildStep s event next) : next.Consistent where
  kept := h.kept.step (effect_of_step step) undisturbed
  free := (lock_of_effect (effect_of_step step) undisturbed).trans h.free
  unused := h.unused.step step

/-- A call is refused here, or a thread will never get the lock. -/
def Breaks (s : ProcessState) : Prop :=
  s.Hung ∨ ∃ event next, ChildStep s event next ∧ s.Refuses event

/-- A live child that is not in the table can be refused to the next caller. -/
theorem breaks_of_missing (free : s.lock = none) (unused : s.Unused) {child : Nat}
    (live : s.history.Live child) (missing : s.mgr.children (s.history.pidOf child) = none) :
    ∃ later last, Run ChildStep s later last ∧ last.Breaks := by
  cases unused with
  | intro bound unused =>
    have call : ChildStep s (.call bound (.dosKillProcess 0 (s.history.pidOf child)))
        (s.goes bound (.taking .kill (s.history.pidOf child))) :=
      .call _ (unused bound le_rfl)
    have takes : (s.goes bound (.taking .kill (s.history.pidOf child))).threads bound =
        .taking .kill (s.history.pidOf child) := Function.update_self _ _ _
    exact ⟨_, _, .cons call (.nil _), .inr ⟨_, _, .take takes free, _, _, child, takes, live, rfl,
      missing⟩⟩

/-- A live child that a thread holds is not in the table. -/
theorem missing_of_hand (h : Kept s.held s.history) {thread pid child : Nat}
    (here : (s.threads thread).hand = some (pid, child)) : s.mgr.children pid = none := by
  have held_here : s.held (.thread thread) = some (pid, child) := here
  cases found : s.mgr.children pid with
  | none => rfl
  | some other =>
    have there : s.held (.table pid) = some (pid, other) := by
      simp only [held, found, Option.map_some]
    have same : other = child := h.apart other child (h.live _ _ _ there) (h.live _ _ _ held_here)
      ((h.numbered _ _ _ there).trans (h.numbered _ _ _ held_here).symm)
    have place := h.once _ _ _ _ there held_here same
    contradiction

/-- A thread kills the child that has a number, which frees the number. -/
theorem kill_run (free : s.lock = none) {thread pid child : Nat}
    (running : s.threads thread = .running none) (found : s.mgr.children pid = some child) :
    ∃ later last, Run ChildStep s later last ∧ last.lock = none ∧ last.mgr.children pid = none ∧
      last.history = { s.history with killed := child :: s.history.killed } := by
  have call : ChildStep s (.call thread (.dosKillProcess 0 pid))
      (s.goes thread (.taking .kill pid)) := .call _ running
  have takes : (s.goes thread (.taking .kill pid)).threads thread = .taking .kill pid :=
    Function.update_self _ _ _
  have taken : (s.goes thread (.taking .kill pid)).take thread .kill pid =
      { s.goes thread (.taking .kill pid) with mgr := (s.mgr.takeChild pid).2 }.goes thread
        (.holding .kill pid child) := by
    simp only [take, ProcessManager.takeChild, goes, found]
  have take := ChildStep.take takes free
  rw [taken] at take
  exact ⟨_, _, .cons call (.cons take (.cons (.kill (Function.update_self _ _ _)) (.nil _))), free,
    Table.erase_self _ _, rfl⟩

/-- The guest kills the new child, after which the old one with its number is refused. -/
theorem breaks_of_exec (h : s.Consistent) {thread execFlag : Nat}
    (step : ChildStep s (.exec thread execFlag) (s.exec thread)) {child : Nat}
    (live : s.history.Live child) (number : s.history.pidOf child = s.mgr.nextPid) :
    ∃ later last, Run ChildStep (s.exec thread) later last ∧ last.Breaks := by
  have unused := h.unused.step step
  cases unused with
  | intro bound idle =>
    obtain ⟨kills, killed, run, free, missing, history⟩ :=
      kill_run (s := s.exec thread) h.free (idle bound le_rfl) (Table.insert_self _ _ _)
    have old : child ≠ s.history.spawned := Nat.ne_of_lt live.spawned
    have still : killed.history.Live child := by
      rw [history]
      exact ChildHistory.live_killed.mpr
        ⟨(ChildHistory.live_started h.kept.past).mpr (.inr live), old⟩
    have same : killed.history.pidOf child = s.mgr.nextPid := by
      rw [history]
      exact (Function.update_of_ne old _ _).trans number
    have unused : killed.Unused := run.invariant Unused (fun _ _ _ h step => h.step step)
      ⟨bound, idle⟩
    obtain ⟨later, last, more, breaks⟩ :=
      breaks_of_missing free unused still (same ▸ missing)
    exact ⟨kills ++ later, last, run.append more, breaks⟩

/-- A disturbed step refuses a live child, or a later one can. -/
theorem Consistent.breaks (h : s.Consistent) (step : ChildStep s event next)
    (disturbed : ¬ s.Undisturbed event) :
    s.Refuses event ∨ ∃ later last, Run ChildStep next later last ∧ last.Breaks := by
  cases step with
  | @exec thread execFlag last running async free =>
    simp only [Undisturbed] at disturbed
    push Not at disturbed
    obtain ⟨child, live, number⟩ := disturbed
    exact .inr (breaks_of_exec h (.exec running async free) live number)
  | take takes free =>
    simp only [Undisturbed] at disturbed
    push Not at disturbed
    obtain ⟨purpose, pid, child, wants, live, number, thread, handPid, here⟩ := disturbed
    have same := h.kept.numbered (.thread thread) _ _ here
    exact .inl ⟨purpose, pid, child, wants, live, number,
      missing_of_hand h.kept (number ▸ same ▸ here)⟩
  | @hostFails thread pid child purpose holds =>
    have here : (s.threads thread).hand = some (pid, child) := by rw [holds]; rfl
    have number := h.kept.numbered (.thread thread) _ _ here
    exact .inr (breaks_of_missing h.free (h.unused.step (.hostFails holds))
      (h.kept.live (.thread thread) _ _ here) (number ▸ missing_of_hand h.kept here))
  | @scanFinds thread pid child block status unpolled scans free found ended polled =>
    exact .inr ⟨[], _, .nil _, .inl ⟨thread, rfl, Function.update_self _ _ _⟩⟩
  | scanMisses scans free none_ended => exact absurd none_ended disturbed
  | @checkEmpty thread checks free empty =>
    simp only [Undisturbed] at disturbed
    push Not at disturbed
    exact .inl ⟨checks, disturbed.1, empty⟩
  | @checkAgain thread pid child checks free found =>
    simp only [Undisturbed] at disturbed
    push Not at disturbed
    have there : s.held (.table pid) = some (pid, child) := by
      simp only [held, found, Option.map_some]
    obtain ⟨holder, handPid, here⟩ := disturbed.2 child (h.kept.live _ _ _ there)
    have held_here : s.held (.thread holder) = some (handPid, child) := here
    have place := h.kept.once _ _ _ _ there held_here rfl
    contradiction
  | execFails running async => exact absurd trivial disturbed
  | call call running => exact absurd trivial disturbed
  | poll holds => exact absurd trivial disturbed
  | putBack puts free => exact absurd trivial disturbed
  | wait holds ended free => exact absurd trivial disturbed
  | kill holds => exact absurd trivial disturbed
  | reap reaps ended => exact absurd trivial disturbed
  | leave scans quits => exact absurd trivial disturbed
  | exits status started runs => exact absurd trivial disturbed
  | quit => exact absurd trivial disturbed

theorem Hung.goes (h : s.Hung) {thread : Nat} {before phase : ChildPhase}
    (was : s.threads thread = before) (moving : before ≠ .stuck)
    (other : ∀ purpose pid, before ≠ .taking purpose pid) (lock : next.lock = s.lock)
    (threads : next.threads = Function.update s.threads thread phase) :
    next.Hung ∧ ∀ waiting purpose pid, s.threads waiting = .taking purpose pid →
      next.threads waiting = .taking purpose pid := by
  constructor
  · cases h with
    | intro holder h =>
      have apart : holder ≠ thread := by
        intro heq
        rw [heq, was] at h
        exact moving h.2
      exact ⟨holder, lock.trans h.1, by rw [threads, Function.update_of_ne apart, h.2]⟩
  · intro waiting purpose pid waits
    have apart : waiting ≠ thread := by
      intro heq
      rw [heq, was] at waits
      exact other purpose pid waits
    rw [threads, Function.update_of_ne apart, waits]

/-- Where a thread waits for its own lock, no thread ever gets the lock again: a call that
wants to take a child waits for good. -/
theorem Hung.step (h : s.Hung) (step : ChildStep s event next) :
    next.Hung ∧ ∀ thread purpose pid, s.threads thread = .taking purpose pid →
      next.threads thread = .taking purpose pid := by
  have not_free : s.lock ≠ none := by
    cases h with
    | intro holder h => rw [h.1]; exact Option.some_ne_none _
  cases step with
  | execFails running async => exact h.goes running nofun nofun rfl rfl
  | call call running => exact h.goes running nofun nofun rfl rfl
  | poll holds =>
    unfold poll
    split <;> exact h.goes holds nofun nofun rfl rfl
  | kill holds => exact h.goes holds nofun nofun rfl rfl
  | reap reaps ended => exact h.goes reaps nofun nofun rfl rfl
  | hostFails holds => exact h.goes holds nofun nofun rfl rfl
  | leave scans quits => exact h.goes scans nofun nofun rfl rfl
  | exits status started runs => exact ⟨h, fun _ _ _ waits => waits⟩
  | quit => exact ⟨h, fun _ _ _ waits => waits⟩
  | _ => contradiction

/-- No status is returned twice. In runs of undisturbed steps no call for a live child is
refused and no thread is left waiting for the lock; from a disturbed step on, one can be. -/
theorem status_once_and_accepted (run : Run ChildStep initial events s) :
    (s.history.returned.map Prod.fst).Nodup ∧
    (Run (Step.guarded ChildStep Undisturbed) initial events s →
      Run (Step.guarded ChildStep fun state event => ¬ state.Refuses event) initial events s ∧
      ¬ s.Hung ∧
      ∀ event next, ChildStep s event next → ¬ s.Undisturbed event →
        s.Refuses event ∨ ∃ later last, Run ChildStep next later last ∧ last.Breaks) := by
  refine ⟨(owned_of_run run).nodup, fun guarded => ?_⟩
  have consistent : s.Consistent := guarded.invariant Consistent
    (fun _ _ _ h step => h.step step.1 step.2) .initial
  refine ⟨?_, ?_, fun event next step disturbed => consistent.breaks step disturbed⟩
  · exact guarded.reguard Consistent (fun _ _ _ h undisturbed step => h.step undisturbed step)
      (fun _ _ h undisturbed => not_refuses h.kept undisturbed) .initial
  · intro ⟨thread, held, _⟩
    rw [consistent.free] at held
    contradiction

theorem undisturbed_take (idle : ∀ other, (s.threads other).hand = none) (thread : Nat) :
    s.Undisturbed (.take thread) := by
  rintro purpose pid child _ _ _ ⟨other, handPid, hand⟩
  rw [idle other] at hand
  contradiction

theorem status_once_and_accepted_poll_wait :
    ∃ s : ProcessState, s.history.returned = [(0, 7)] ∧ (s.history.returned.map Prod.fst).Nodup ∧
      ¬ s.Hung := by
  have guarded : Run (Step.guarded ChildStep Undisturbed) initial
      [.exec 1 1, .call 2 (.dosWaitChild 0 1 100), .take 2, .work 2, .work 2, .exits 0 (some 7),
        .call 1 (.dosWaitChild 0 0 100), .take 1, .work 1] _ :=
    .cons ⟨fun _ live => absurd live.spawned (Nat.not_lt_zero _),
      .exec rfl List.mem_cons_self rfl⟩ <|
    .cons ⟨trivial, .call _ rfl⟩ <|
    .cons ⟨undisturbed_take (fun
      | 0 | 1 | 2 => rfl
      | _ + 3 => rfl) 2, .take rfl rfl⟩ <|
    .cons ⟨trivial, .poll rfl⟩ <|
    .cons ⟨trivial, .putBack rfl rfl⟩ <|
    .cons ⟨trivial, .exits _ (Nat.lt_succ_self 0) rfl⟩ <|
    .cons ⟨trivial, .call _ rfl⟩ <|
    .cons ⟨undisturbed_take (fun
      | 0 | 1 | 2 => rfl
      | _ + 3 => rfl) 1, .take rfl rfl⟩ <|
    .cons ⟨trivial, .wait rfl rfl rfl⟩ <| .nil _
  have law := status_once_and_accepted guarded.unguarded
  exact ⟨_, rfl, law.1, (law.2 guarded).2.1⟩

/-- One thread waits for a child; another one cannot kill it. -/
theorem waited_child_not_killable :
    ∃ events s, Run ChildStep initial events s ∧
      ∃ event next, ChildStep s event next ∧ s.Refuses event :=
  ⟨[.exec 1 1, .call 2 (.dosWaitChild 0 0 100), .take 2, .call 1 (.dosKillProcess 1 100)], _,
    .cons (.exec rfl List.mem_cons_self rfl) <| .cons (.call _ rfl) <| .cons (.take rfl rfl) <|
      .cons (.call _ rfl) <| .nil _,
    .take 1, _, .take rfl rfl, .kill, 100, 0, rfl,
    ⟨Nat.lt_succ_self 0, List.not_mem_nil, List.not_mem_nil⟩, rfl, rfl⟩

end ProcessState
end Warpine.Loader
