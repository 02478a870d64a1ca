import Mathlib.Data.List.Basic
import Warpine.Lib.Run
import Warpine.Loader.HandleManager

/-! Pipe calls by any number of guest threads. A pipe is read and written inside
the lock of the handle table, where the host may hold the thread back. -/
namespace Warpine.Loader
open Warpine.Lib

inductive PipeSide where
  | read
  | write
deriving DecidableEq

def PipeSide.other : PipeSide → PipeSide
  | .read => .write
  | .write => .read

/-- A descriptor of a host pipe. -/
structure PipeEnd where
  pipe : Nat
  side : PipeSide

/-- The calls of the guest. The data of a write are absent when the buffer is
not in the guest's memory. -/
inductive PipeCall where
  | dosCreatePipe (size : Nat)
  | dosRead (hf len : Nat)
  | dosWrite (fd : Nat) (data : Option (List UInt8))

inductive PipeReply where
  | failed (rc : Nat)
  | created (hRead hWrite : Nat)
  | moved (bytes : List UInt8)
  /-- The drives or the console served the call. -/
  | elsewhere
deriving DecidableEq

/-- What a thread does once it has the lock of the handle table. -/
inductive Locked where
  | createPipe
  | read (hf len : Nat)
  | write (fd : Nat) (data : List UInt8)

inductive PipePhase where
  | running (last : Option PipeReply)
  | waiting (locked : Locked)
  | reading (pipe len : Nat)
  | writing (pipe : Nat) (sent rest : List UInt8)

/-- 64 MB, the most that one call reads. -/
def readCap : Nat := 64 * 1024 * 1024

/-- A call up to the point where it wants the lock. -/
def PipeCall.start : PipeCall → PipePhase
  | .dosCreatePipe _ => .waiting .createPipe
  | .dosRead hf len =>
      if hf = 0 then .running (some .elsewhere)
      else if pipeHandleBase ≤ hf then .waiting (.read hf (min len readCap))
      else .running (some .elsewhere)
  | .dosWrite _ none => .running (some (.failed 87))
  | .dosWrite fd (some data) =>
      if fd = 1 ∨ fd = 2 then .running (some .elsewhere)
      else if pipeHandleBase ≤ fd then .waiting (.write fd data)
      else .running (some .elsewhere)

structure PipeState where
  handles : HandleManager PipeEnd
  lock : Option Nat
  threads : Nat → PipePhase
  /-- The bytes in each of the host's pipes, and how many pipes it made. -/
  contents : Nat → List UInt8
  made : Nat

/-- A pipe's two ends go into the table, the read end first. -/
def HandleManager.addEnds (mgr : HandleManager PipeEnd) (pipe : Nat) :
    (Nat × Nat) × HandleManager PipeEnd :=
  let (hRead, mgr) := mgr.add ⟨pipe, .read⟩
  let (hWrite, mgr) := mgr.add ⟨pipe, .write⟩
  ((hRead, hWrite), mgr)

namespace PipeState

def initial : PipeState where
  handles := .new
  lock := none
  threads := fun _ => .running none
  contents := fun _ => []
  made := 0

def goes (s : PipeState) (thread : Nat) (phase : PipePhase) : PipeState :=
  { s with threads := fun other => if other = thread then phase else s.threads other }

def fill (s : PipeState) (pipe : Nat) (bytes : List UInt8) : PipeState :=
  { s with contents := fun other => if other = pipe then bytes else s.contents other }

/-- The lock is taken and given back. No other thread knows the pipe before,
so that the host makes it here. -/
def createPipe (s : PipeState) (thread : Nat) : PipeState :=
  let ((hRead, hWrite), mgr) := s.handles.addEnds s.made
  { s with handles := mgr, made := s.made + 1 }.goes thread
    (.running (some (.created hRead hWrite)))

/-- The host call starts under the lock, unless there is no such handle or its
descriptor is the other end of the pipe. -/
def transfer (s : PipeState) (thread : Nat) : Locked → PipeState
  | .createPipe => s.createPipe thread
  | .read hf len =>
      match s.handles.get hf with
      | none => s.goes thread (.running (some (.failed 6)))
      | some ⟨_, .write⟩ => s.goes thread (.running (some (.failed 5)))
      | some ⟨pipe, .read⟩ => { s with lock := some thread }.goes thread (.reading pipe len)
  | .write fd data =>
      match s.handles.get fd with
      | none => s.goes thread (.running (some (.failed 6)))
      | some ⟨_, .read⟩ => s.goes thread (.running (some (.failed 5)))
      | some ⟨pipe, .write⟩ => { s with lock := some thread }.goes thread (.writing pipe [] data)

/-- The host's `read` returns what there is, up to the length asked for. -/
def readReturns (s : PipeState) (thread pipe len : Nat) : PipeState :=
  ({ s with lock := none }.fill pipe ((s.contents pipe).drop len)).goes thread
    (.running (some (.moved ((s.contents pipe).take len))))

/-- The host's `write` puts in what there is room for, and returns when all is in. -/
def writeMoves (s : PipeState) (capacity thread pipe : Nat) (sent rest : List UInt8) :
    PipeState :=
  let room := capacity - (s.contents pipe).length
  let filled := s.fill pipe (s.contents pipe ++ rest.take room)
  if rest.length ≤ room then
    { filled with lock := none }.goes thread (.running (some (.moved (sent ++ rest))))
  else filled.goes thread (.writing pipe (sent ++ rest.take room) (rest.drop room))

end PipeState

/-- Descriptors are nonnegative `i32` numbers and a pipe takes two. -/
def maxPipes : Nat := 2 ^ 30

inductive PipeEvent where
  | call (thread : Nat) (call : PipeCall)
  | refuse (thread : Nat)
  | enter (thread : Nat)
  | move (thread : Nat)

/-- The steps of the threads, in any order. The host's pipes hold `capacity`
bytes, block a read while empty and a write while full. -/
inductive PipeStep (capacity : Nat) : PipeState → PipeEvent → PipeState → Prop where
  | call {s : PipeState} {thread : Nat} {last : Option PipeReply} (call : PipeCall)
      (running : s.threads thread = .running last) :
      PipeStep capacity s (.call thread call) (s.goes thread call.start)
  | refuse {s : PipeState} {thread : Nat} (waits : s.threads thread = .waiting .createPipe) :
      PipeStep capacity s (.refuse thread) (s.goes thread (.running (some (.failed 8))))
  | enter {s : PipeState} {thread : Nat} {locked : Locked}
      (waits : s.threads thread = .waiting locked) (free : s.lock = none)
      (descriptors : locked = .createPipe → s.made < maxPipes) :
      PipeStep capacity s (.enter thread) (s.transfer thread locked)
  | read {s : PipeState} {thread pipe len : Nat} (reads : s.threads thread = .reading pipe len)
      (ready : len = 0 ∨ s.contents pipe ≠ []) :
      PipeStep capacity s (.move thread) (s.readReturns thread pipe len)
  | write {s : PipeState} {thread pipe : Nat} {sent rest : List UInt8}
      (writes : s.threads thread = .writing pipe sent rest)
      (ready : rest = [] ∨ (s.contents pipe).length < capacity) :
      PipeStep capacity s (.move thread) (s.writeMoves capacity thread pipe sent rest)

namespace PipeState

/-- The host holds the thread back at this end of the pipe. -/
def Blocked (capacity : Nat) (s : PipeState) (thread pipe : Nat) : PipeSide → Prop
  | .read => ∃ len, s.threads thread = .reading pipe len ∧ len ≠ 0 ∧ s.contents pipe = []
  | .write => ∃ sent rest, s.threads thread = .writing pipe sent rest ∧ rest ≠ [] ∧
      capacity ≤ (s.contents pipe).length

/-- What a thread wants the lock for moves bytes at the other end of the pipe. -/
def Relieves (s : PipeState) (pipe : Nat) : PipeSide → Locked → Prop
  | .read, .write fd data => s.handles.get fd = some ⟨pipe, .write⟩ ∧ data ≠ []
  | .write, .read hf len => s.handles.get hf = some ⟨pipe, .read⟩ ∧ len ≠ 0
  | _, _ => False

/-- A thread held back in the host holds the lock for which the thread that
would let it go on is waiting. -/
structure Deadlock (capacity : Nat) (s : PipeState) (holder other pipe : Nat) (side : PipeSide)
    (locked : Locked) : Prop where
  holds : s.lock = some holder
  blocked : s.Blocked capacity holder pipe side
  waits : s.threads other = .waiting locked
  relieves : s.Relieves pipe side locked

def Deadlocked (capacity : Nat) (s : PipeState) : Prop :=
  ∃ holder other pipe side locked, Deadlock capacity s holder other pipe side locked

/-- A host call that starts now will return without another thread's help. -/
def Ready (capacity : Nat) (s : PipeState) : PipeEvent → Prop
  | .enter thread =>
      match s.threads thread with
      | .waiting (.read hf len) => ∀ pipe, s.handles.get hf = some ⟨pipe, .read⟩ →
          len = 0 ∨ s.contents pipe ≠ []
      | .waiting (.write fd data) => ∀ pipe, s.handles.get fd = some ⟨pipe, .write⟩ →
          data.length ≤ capacity - (s.contents pipe).length
      | _ => True
  | _ => True

end PipeState

def PipePhase.Inside : PipePhase → Prop
  | .reading _ _ | .writing _ _ _ => True
  | _ => False

namespace PipeState

variable {s next : PipeState} {capacity : Nat} {event : PipeEvent}

@[simp] theorem goes_self (thread : Nat) (phase : PipePhase) :
    (s.goes thread phase).threads thread = phase := by
  simp [goes]

@[simp] theorem goes_ne {thread other : Nat} (phase : PipePhase) (h : other ≠ thread) :
    (s.goes thread phase).threads other = s.threads other := by
  simp [goes, h]

/-- Only the holder of the lock is in a host call. -/
def Exclusive (s : PipeState) : Prop :=
  ∀ thread, (s.threads thread).Inside → s.lock = some thread

theorem start_outside (call : PipeCall) : ¬ call.start.Inside := by
  cases call with
  | dosCreatePipe size => exact not_false
  | dosRead hf len =>
    simp only [PipeCall.start]
    split_ifs <;> exact not_false
  | dosWrite fd data =>
    cases data with
    | none => exact not_false
    | some data =>
      simp only [PipeCall.start]
      split_ifs <;> exact not_false

/-- A thread changes its phase while no other is in a host call. -/
theorem exclusive_goes {thread : Nat} {phase : PipePhase}
    (alone : ∀ other, other ≠ thread → ¬ (s.threads other).Inside)
    (holds : phase.Inside → s.lock = some thread) : (s.goes thread phase).Exclusive := by
  intro other inside
  by_cases hother : other = thread
  · rw [hother, goes_self] at inside
    rw [hother]
    exact holds inside
  · rw [goes_ne phase hother] at inside
    exact absurd inside (alone other hother)

theorem Exclusive.goes {thread : Nat} {phase : PipePhase} (h : s.Exclusive)
    (outside : ¬ phase.Inside) : (s.goes thread phase).Exclusive := by
  intro other inside
  by_cases hother : other = thread
  · rw [hother, goes_self] at inside
    exact absurd inside outside
  · rw [goes_ne phase hother] at inside
    exact h other inside

theorem Exclusive.alone_of_free (h : s.Exclusive) (free : s.lock = none) (other : Nat) :
    ¬ (s.threads other).Inside := by
  intro inside
  have held := h other inside
  rw [free] at held
  contradiction

theorem Exclusive.alone {thread other : Nat} (h : s.Exclusive) (inside : (s.threads thread).Inside)
    (hother : other ≠ thread) : ¬ (s.threads other).Inside := by
  intro both
  have held := h thread inside
  rw [h other both] at held
  exact hother (Option.some.inj held)

/-- What a thread does with the lock: make a pipe, answer with an error, or start
a host call, for which it keeps the lock. -/
theorem transfer_cases (s : PipeState) (thread : Nat) (locked : Locked) :
    (locked = .createPipe ∧ s.transfer thread locked = s.createPipe thread) ∨
    (∃ rc, s.transfer thread locked = s.goes thread (.running (some (.failed rc)))) ∨
    (∃ hf len pipe, locked = .read hf len ∧ s.handles.get hf = some ⟨pipe, .read⟩ ∧
      s.transfer thread locked = { s with lock := some thread }.goes thread (.reading pipe len)) ∨
    (∃ fd data pipe, locked = .write fd data ∧ s.handles.get fd = some ⟨pipe, .write⟩ ∧
      s.transfer thread locked =
        { s with lock := some thread }.goes thread (.writing pipe [] data)) := by
  cases locked with
  | createPipe => exact .inl ⟨rfl, rfl⟩
  | read hf len =>
    simp only [transfer]
    split
    · exact .inr (.inl ⟨6, rfl⟩)
    · exact .inr (.inl ⟨5, rfl⟩)
    · rename_i pipe found
      exact .inr (.inr (.inl ⟨hf, len, pipe, rfl, found, rfl⟩))
  | write fd data =>
    simp only [transfer]
    split
    · exact .inr (.inl ⟨6, rfl⟩)
    · exact .inr (.inl ⟨5, rfl⟩)
    · rename_i pipe found
      exact .inr (.inr (.inr ⟨fd, data, pipe, rfl, found, rfl⟩))

theorem Exclusive.step (h : s.Exclusive) (step : PipeStep capacity s event next) :
    next.Exclusive := by
  cases step with
  | call call running => exact h.goes (start_outside call)
  | refuse waits => exact h.goes not_false
  | @enter thread locked waits free descriptors =>
    have alone := h.alone_of_free free
    rcases s.transfer_cases thread locked with
      ⟨_, heq⟩ | ⟨rc, heq⟩ | ⟨hf, len, pipe, _, _, heq⟩ | ⟨fd, data, pipe, _, _, heq⟩ <;> rw [heq]
    · exact exclusive_goes (fun other _ => alone other) fun inside => inside.elim
    · exact h.goes not_false
    · exact exclusive_goes (fun other _ => alone other) fun _ => rfl
    · exact exclusive_goes (fun other _ => alone other) fun _ => rfl
  | @read thread pipe len reads ready =>
    have inside : (s.threads thread).Inside := by rw [reads]; trivial
    exact exclusive_goes (fun other hother => h.alone inside hother) fun impossible =>
      impossible.elim
  | @write thread pipe sent rest writes ready =>
    have inside : (s.threads thread).Inside := by rw [writes]; trivial
    simp only [writeMoves]
    split_ifs
    · exact exclusive_goes (fun other hother => h.alone inside hother) fun impossible =>
        impossible.elim
    · exact exclusive_goes (fun other hother => h.alone inside hother) fun _ => h _ inside

/-- A host call that returns by itself. -/
def Flows (capacity : Nat) (contents : Nat → List UInt8) : PipePhase → Prop
  | .reading pipe len => len = 0 ∨ contents pipe ≠ []
  | .writing pipe _ rest => rest.length ≤ capacity - (contents pipe).length
  | _ => True

theorem flows_of_outside {contents : Nat → List UInt8} {phase : PipePhase}
    (outside : ¬ phase.Inside) : Flows capacity contents phase := by
  cases phase with
  | reading pipe len => exact absurd trivial outside
  | writing pipe sent rest => exact absurd trivial outside
  | _ => trivial

structure Flowing (capacity : Nat) (s : PipeState) : Prop where
  exclusive : s.Exclusive
  flows : ∀ thread, Flows capacity s.contents (s.threads thread)

theorem flows_goes {thread : Nat} {phase : PipePhase}
    (others : ∀ other, other ≠ thread → Flows capacity s.contents (s.threads other))
    (flows : Flows capacity s.contents phase) (other : Nat) :
    Flows capacity (s.goes thread phase).contents ((s.goes thread phase).threads other) := by
  by_cases hother : other = thread
  · rw [hother, goes_self]
    exact flows
  · rw [goes_ne phase hother]
    exact others other hother

/-- Guarded steps start only host calls that return by themselves, and no other
thread reaches a pipe before they have. -/
theorem Flowing.step (h : Flowing capacity s) (step : PipeStep capacity s event next)
    (ready : s.Ready capacity event) : Flowing capacity next := by
  refine ⟨h.exclusive.step step, ?_⟩
  cases step with
  | call call running =>
    exact flows_goes (fun other _ => h.flows other) (flows_of_outside (start_outside call))
  | refuse waits => exact flows_goes (fun other _ => h.flows other) trivial
  | @enter thread locked waits free descriptors =>
    have others : ∀ other, other ≠ thread → Flows capacity s.contents (s.threads other) :=
      fun other _ => h.flows other
    simp only [Ready, waits] at ready
    rcases s.transfer_cases thread locked with
      ⟨_, heq⟩ | ⟨rc, heq⟩ | ⟨hf, len, pipe, rfl, found, heq⟩ | ⟨fd, data, pipe, rfl, found, heq⟩ <;>
      rw [heq]
    · exact flows_goes others trivial
    · exact flows_goes others trivial
    · exact flows_goes others (ready pipe found)
    · exact flows_goes others (ready pipe found)
  | @read thread pipe len reads _ =>
    have inside : (s.threads thread).Inside := by rw [reads]; trivial
    exact flows_goes
      (fun other hother => flows_of_outside (h.exclusive.alone inside hother)) trivial
  | @write thread pipe sent rest writes _ =>
    have inside : (s.threads thread).Inside := by rw [writes]; trivial
    have fits : rest.length ≤ capacity - (s.contents pipe).length := by
      have flows := h.flows thread
      rw [writes] at flows
      exact flows
    unfold writeMoves
    rw [if_pos fits]
    exact flows_goes
      (fun other hother => flows_of_outside (h.exclusive.alone inside hother)) trivial

theorem Flowing.initial : Flowing capacity initial where
  exclusive := fun _ inside => inside.elim
  flows := fun _ => trivial

theorem Flowing.not_blocked (h : Flowing capacity s) (thread pipe : Nat) (side : PipeSide) :
    ¬ s.Blocked capacity thread pipe side := by
  have flows := h.flows thread
  cases side with
  | read =>
    rintro ⟨len, reads, nonzero, empty⟩
    rw [reads] at flows
    exact flows.elim nonzero fun some => some empty
  | write =>
    rintro ⟨sent, rest, writes, some, full⟩
    rw [writes] at flows
    have fits : rest.length ≤ capacity - (s.contents pipe).length := flows
    have := List.length_pos_iff.mpr some
    omega

/-- The handles follow the pipes made, and no end is in the table without its
partner. -/
structure Paired (handles : HandleManager PipeEnd) (made : Nat) : Prop where
  next : handles.nextHandle = pipeHandleBase + 2 * made
  few : made ≤ maxPipes
  below : ∀ h found, handles.get h = some found → pipeHandleBase ≤ h ∧ h < handles.nextHandle
  partner : ∀ h pipe side, handles.get h = some ⟨pipe, side⟩ →
    ∃ across, handles.get across = some ⟨pipe, side.other⟩

theorem Paired.addEnds_eq {handles : HandleManager PipeEnd} {made : Nat}
    (h : Paired handles made) (descriptors : made < maxPipes) (pipe : Nat) :
    handles.addEnds pipe = ((handles.nextHandle, handles.nextHandle + 1),
      { handles := (handles.handles.insert handles.nextHandle ⟨pipe, .read⟩).insert
          (handles.nextHandle + 1) ⟨pipe, .write⟩
        nextHandle := handles.nextHandle + 2 }) := by
  have hnext := h.next
  simp only [maxPipes, pipeHandleBase] at descriptors hnext
  have first : wrapAdd handles.nextHandle 1 = handles.nextHandle + 1 :=
    wrapAdd_of_lt (by simp only [u32Size]; omega)
  have second : wrapAdd (handles.nextHandle + 1) 1 = handles.nextHandle + 2 :=
    wrapAdd_of_lt (by simp only [u32Size]; omega)
  simp only [HandleManager.addEnds, HandleManager.add, first, second]

theorem Paired.addEnds {handles : HandleManager PipeEnd} {made : Nat} (h : Paired handles made)
    (descriptors : made < maxPipes) (pipe : Nat) :
    Paired (handles.addEnds pipe).2 (made + 1) := by
  rw [h.addEnds_eq descriptors]
  have hnext := h.next
  have lookup : ∀ handle found,
      ((handles.handles.insert handles.nextHandle ⟨pipe, .read⟩).insert (handles.nextHandle + 1)
        ⟨pipe, .write⟩) handle = some found →
      handle = handles.nextHandle + 1 ∧ found = ⟨pipe, .write⟩ ∨
      handle = handles.nextHandle ∧ found = ⟨pipe, .read⟩ ∨ handles.get handle = some found := by
    intro handle found hfound
    rcases Table.insert_eq_some.mp hfound with last | ⟨_, hfound⟩
    · exact .inl last
    · rcases Table.insert_eq_some.mp hfound with first | ⟨_, old⟩
      · exact .inr (.inl first)
      · exact .inr (.inr old)
  constructor
  case next => simp only [hnext]; omega
  case few => omega
  case below =>
    intro handle found hfound
    have hbase : pipeHandleBase ≤ handles.nextHandle := by omega
    rcases lookup handle found hfound with ⟨rfl, _⟩ | ⟨rfl, _⟩ | old
    · exact ⟨by omega, by simp only []; omega⟩
    · exact ⟨hbase, by simp only []; omega⟩
    · have := h.below handle found old
      exact ⟨this.1, by simp only []; omega⟩
  case partner =>
    intro handle at_pipe side hfound
    rcases lookup handle _ hfound with ⟨_, heq⟩ | ⟨_, heq⟩ | old
    · cases heq
      exact ⟨handles.nextHandle, by simp [HandleManager.get, PipeSide.other]⟩
    · cases heq
      exact ⟨handles.nextHandle + 1, by simp [HandleManager.get, PipeSide.other]⟩
    · obtain ⟨across, hacross⟩ := h.partner handle at_pipe side old
      have hlt := (h.below across _ hacross).2
      exact ⟨across, by
        simp only [HandleManager.get]
        rw [Table.insert_ne _ _ (by omega), Table.insert_ne _ _ (by omega)]
        exact hacross⟩

structure Consistent (s : PipeState) : Prop where
  exclusive : s.Exclusive
  paired : Paired s.handles s.made
  /-- Some thread has not made a call yet, whatever threads are left out. -/
  unused : ∃ bound, ∀ thread, bound ≤ thread → s.threads thread = .running none

theorem Consistent.initial : Consistent initial where
  exclusive := fun _ inside => inside.elim
  paired := {
    next := rfl
    few := Nat.zero_le _
    below := fun _ _ impossible => absurd impossible (Option.some_ne_none _).symm
    partner := fun _ _ _ impossible => absurd impossible (Option.some_ne_none _).symm }
  unused := ⟨0, fun _ _ => rfl⟩

theorem unused_goes {thread : Nat} {phase : PipePhase}
    (h : ∃ bound, ∀ other, bound ≤ other → s.threads other = .running none) :
    ∃ bound, ∀ other, bound ≤ other → (s.goes thread phase).threads other = .running none := by
  cases h with
  | intro bound h =>
    exact ⟨max bound (thread + 1), fun other hother => by
      rw [goes_ne phase (by omega)]
      exact h other (by omega)⟩

/-- Every step lets one thread go on, and only the making of a pipe touches the table. -/
theorem step_goes (step : PipeStep capacity s event next) :
    (∃ (mid : PipeState) (thread : Nat) (phase : PipePhase), next = mid.goes thread phase ∧
      mid.threads = s.threads) ∧
    (next.handles = s.handles ∧ next.made = s.made ∨
      s.made < maxPipes ∧ next.handles = (s.handles.addEnds s.made).2 ∧ next.made = s.made + 1) := by
  cases step with
  | call call running => exact ⟨⟨s, _, _, rfl, rfl⟩, .inl ⟨rfl, rfl⟩⟩
  | refuse waits => exact ⟨⟨s, _, _, rfl, rfl⟩, .inl ⟨rfl, rfl⟩⟩
  | @enter thread locked waits free descriptors =>
    rcases s.transfer_cases thread locked with
      ⟨rfl, heq⟩ | ⟨rc, heq⟩ | ⟨hf, len, pipe, _, _, heq⟩ | ⟨fd, data, pipe, _, _, heq⟩ <;> rw [heq]
    · exact ⟨⟨_, _, _, rfl, rfl⟩, .inr ⟨descriptors rfl, rfl, rfl⟩⟩
    · exact ⟨⟨_, _, _, rfl, rfl⟩, .inl ⟨rfl, rfl⟩⟩
    · exact ⟨⟨_, _, _, rfl, rfl⟩, .inl ⟨rfl, rfl⟩⟩
    · exact ⟨⟨_, _, _, rfl, rfl⟩, .inl ⟨rfl, rfl⟩⟩
  | read reads ready => exact ⟨⟨_, _, _, rfl, rfl⟩, .inl ⟨rfl, rfl⟩⟩
  | write writes ready =>
    simp only [writeMoves]
    split_ifs
    · exact ⟨⟨_, _, _, rfl, rfl⟩, .inl ⟨rfl, rfl⟩⟩
    · exact ⟨⟨_, _, _, rfl, rfl⟩, .inl ⟨rfl, rfl⟩⟩

theorem Consistent.step (h : s.Consistent) (step : PipeStep capacity s event next) :
    next.Consistent := by
  obtain ⟨⟨mid, thread, phase, hnext, hthreads⟩, table⟩ := step_goes step
  constructor
  case exclusive => exact h.exclusive.step step
  case paired =>
    rcases table with ⟨hhandles, hmade⟩ | ⟨descriptors, hhandles, hmade⟩ <;> rw [hhandles, hmade]
    · exact h.paired
    · exact h.paired.addEnds descriptors s.made
  case unused =>
    rw [hnext]
    exact unused_goes (hthreads ▸ h.unused)

theorem Blocked.inside {thread pipe : Nat} {side : PipeSide}
    (h : s.Blocked capacity thread pipe side) : (s.threads thread).Inside := by
  cases side with
  | read =>
    cases h with
    | intro len h => rw [h.1]; trivial
  | write =>
    obtain ⟨sent, rest, writes, _⟩ := h
    rw [writes]
    trivial

theorem Blocked.goes {thread pipe other : Nat} {side : PipeSide} {phase : PipePhase}
    (h : s.Blocked capacity thread pipe side) (hother : thread ≠ other) :
    (s.goes other phase).Blocked capacity thread pipe side := by
  cases side with
  | read =>
    cases h with
    | intro len h => exact ⟨len, by rw [goes_ne phase hother]; exact h⟩
  | write =>
    obtain ⟨sent, rest, h⟩ := h
    exact ⟨sent, rest, by rw [goes_ne phase hother]; exact h⟩

/-- A step of a third thread touches neither the lock nor the pipe. -/
theorem Deadlock.goes {holder other pipe thread : Nat} {side : PipeSide} {locked : Locked}
    {phase : PipePhase} (h : Deadlock capacity s holder other pipe side locked)
    (hholder : holder ≠ thread) (hother : other ≠ thread) :
    Deadlock capacity (s.goes thread phase) holder other pipe side locked where
  holds := h.holds
  blocked := h.blocked.goes hholder
  waits := by rw [goes_ne phase hother]; exact h.waits
  relieves := h.relieves

theorem Deadlock.step {holder other pipe : Nat} {side : PipeSide} {locked : Locked}
    (h : Deadlock capacity s holder other pipe side locked) (exclusive : s.Exclusive)
    (step : PipeStep capacity s event next) :
    Deadlock capacity next holder other pipe side locked := by
  have inside := h.blocked.inside
  have apart : ∀ thread phase, s.threads thread = phase → ¬ phase.Inside → holder ≠ thread := by
    intro thread phase hphase outside heq
    rw [heq, hphase] at inside
    exact outside inside
  cases step with
  | @call thread last call running =>
    apply h.goes (apart thread _ running not_false)
    intro heq
    have waits := h.waits
    rw [heq, running] at waits
    contradiction
  | @refuse thread waits =>
    apply h.goes (apart thread _ waits not_false)
    intro heq
    have wants := h.waits
    rw [heq, waits] at wants
    cases wants
    have relieves := h.relieves
    cases side <;> exact relieves
  | enter waits free descriptors =>
    have holds := h.holds
    rw [free] at holds
    contradiction
  | @read thread at_pipe len reads ready =>
    have holds := exclusive thread (by rw [reads]; trivial)
    rw [h.holds] at holds
    cases holds
    have blocked := h.blocked
    cases side with
    | read =>
      obtain ⟨wanted, same, nonzero, empty⟩ := blocked
      rw [reads] at same
      cases same
      exact absurd empty (ready.resolve_left nonzero)
    | write =>
      obtain ⟨sent, rest, same, _⟩ := blocked
      rw [reads] at same
      contradiction
  | @write thread at_pipe sent rest writes ready =>
    have holds := exclusive thread (by rw [writes]; trivial)
    rw [h.holds] at holds
    cases holds
    have blocked := h.blocked
    cases side with
    | read =>
      obtain ⟨wanted, same, _⟩ := blocked
      rw [writes] at same
      contradiction
    | write =>
      obtain ⟨_, _, same, some, full⟩ := blocked
      rw [writes] at same
      cases same
      have := ready.resolve_left some
      omega

/-- Once closed, the circle stays closed: neither thread ever gets any further. -/
theorem Deadlock.run {holder other pipe : Nat} {side : PipeSide} {locked : Locked}
    (h : Deadlock capacity s holder other pipe side locked) (exclusive : s.Exclusive)
    {events : List PipeEvent} {finish : PipeState}
    (run : Run (PipeStep capacity) s events finish) :
    Deadlock capacity finish holder other pipe side locked := by
  have both := run.invariant
    (fun s => s.Exclusive ∧ Deadlock capacity s holder other pipe side locked)
    (fun _ _ _ h step => ⟨h.1.step step, h.2.step h.1 step⟩) ⟨exclusive, h⟩
  exact both.2

/-- The call at the other end that would let a thread at this one go on. -/
def helpingCall (across : Nat) : PipeSide → PipeCall
  | .read => .dosWrite across (some [0])
  | .write => .dosRead across 1

theorem helpingCall_relieves {across pipe : Nat} {side : PipeSide} (base : pipeHandleBase ≤ across)
    (found : s.handles.get across = some ⟨pipe, side.other⟩) :
    ∃ locked, (helpingCall across side).start = .waiting locked ∧ s.Relieves pipe side locked := by
  have hbase := base
  unfold pipeHandleBase at hbase
  cases side with
  | read =>
    have named : ¬ (across = 1 ∨ across = 2) := by omega
    exact ⟨.write across [0], by simp only [helpingCall, PipeCall.start, if_neg named, if_pos base],
      found, by decide⟩
  | write =>
    have named : across ≠ 0 := by omega
    exact ⟨.read across 1,
      by simp only [helpingCall, PipeCall.start, if_neg named, if_pos base, readCap]; rfl,
      found, by decide⟩

/-- As soon as a thread is held back, another one that calls for the other end
closes the circle. -/
theorem Consistent.deadlock_of_blocked (h : s.Consistent) {holder pipe handle : Nat}
    {side : PipeSide} (blocked : s.Blocked capacity holder pipe side)
    (found : s.handles.get handle = some ⟨pipe, side⟩) :
    ∃ event next, PipeStep capacity s event next ∧ next.Deadlocked capacity := by
  obtain ⟨across, hacross⟩ := h.paired.partner handle pipe side found
  obtain ⟨bound, hbound⟩ := h.unused
  have running := hbound bound le_rfl
  have hother : holder ≠ bound := by
    intro heq
    have inside := blocked.inside
    rw [heq, running] at inside
    exact inside
  obtain ⟨locked, hstart, hrelieves⟩ :=
    helpingCall_relieves (h.paired.below across _ hacross).1 hacross
  refine ⟨.call bound (helpingCall across side), _, .call _ running, holder, bound, pipe, side,
    locked, ?_⟩
  constructor
  case holds => exact h.exclusive holder blocked.inside
  case blocked => exact blocked.goes hother
  case waits => rw [goes_self]; exact hstart
  case relieves => cases side <;> cases locked <;> exact hrelieves

/-- A write that does not fit fills the pipe and is held back there. -/
theorem Consistent.full_of_unfit (h : s.Consistent) {thread pipe : Nat} {sent rest : List UInt8}
    (writes : s.threads thread = .writing pipe sent rest)
    (unfit : capacity - (s.contents pipe).length < rest.length) :
    ∃ events last, Run (PipeStep capacity) s events last ∧ last.Consistent ∧
      last.handles = s.handles ∧ last.Blocked capacity thread pipe .write := by
  by_cases full : capacity ≤ (s.contents pipe).length
  · have some : rest ≠ [] := List.length_pos_iff.mp (by omega)
    exact ⟨[], s, .nil s, h, rfl, sent, rest, writes, some, full⟩
  · have step : PipeStep capacity s (.move thread) (s.writeMoves capacity thread pipe sent rest) :=
      .write writes (.inr (by omega))
    refine ⟨[.move thread], _, .cons step (.nil _), h.step step, ?_, ?_⟩
    · simp only [writeMoves]
      split_ifs <;> rfl
    · simp only [writeMoves]
      rw [if_neg (by omega)]
      refine ⟨_, _, goes_self _ _, List.length_pos_iff.mp ?_, ?_⟩
      · rw [List.length_drop]
        omega
      · simp only [goes, fill, if_true, List.length_append, List.length_take]
        omega

/-- A host call that starts unready can end in a deadlock. -/
theorem Consistent.deadlock_of_unready (h : s.Consistent) (step : PipeStep capacity s event next)
    (unready : ¬ s.Ready capacity event) :
    ∃ events last, Run (PipeStep capacity) next events last ∧ last.Deadlocked capacity := by
  have after := h.step step
  cases step with
  | call call running => exact absurd trivial unready
  | refuse waits => exact absurd trivial unready
  | @enter thread locked waits free descriptors =>
    simp only [Ready, waits] at unready
    cases locked with
    | createPipe => exact absurd trivial unready
    | read hf len =>
      push Not at unready
      obtain ⟨pipe, found, nonzero, empty⟩ := unready
      have heq : s.transfer thread (.read hf len) =
          { s with lock := some thread }.goes thread (.reading pipe len) := by
        simp only [transfer, found]
      rw [heq] at after ⊢
      have blocked : PipeState.Blocked capacity ({ s with lock := some thread }.goes thread
          (.reading pipe len)) thread pipe .read := ⟨len, goes_self _ _, nonzero, empty⟩
      obtain ⟨event, last, helps, deadlocked⟩ := after.deadlock_of_blocked blocked found
      exact ⟨[event], last, .cons helps (.nil last), deadlocked⟩
    | write fd data =>
      push Not at unready
      obtain ⟨pipe, found, unfit⟩ := unready
      have heq : s.transfer thread (.write fd data) =
          { s with lock := some thread }.goes thread (.writing pipe [] data) := by
        simp only [transfer, found]
      rw [heq] at after ⊢
      obtain ⟨events, full, moves, consistent, hhandles, blocked⟩ :=
        after.full_of_unfit (goes_self _ _) unfit
      obtain ⟨event, last, helps, deadlocked⟩ := consistent.deadlock_of_blocked blocked
        (hhandles ▸ found)
      exact ⟨events ++ [event], last, moves.append (.cons helps (.nil last)), deadlocked⟩
  | read reads _ => exact absurd trivial unready
  | write writes _ => exact absurd trivial unready

/-- Runs in which no host call starts that another thread must let go on. -/
theorem flowing_of_run {events : List PipeEvent} {finish : PipeState}
    (run : Run (Step.guarded (PipeStep capacity) (Ready capacity)) initial events finish) : Flowing capacity finish ∧ finish.Consistent := by
  apply run.invariant fun s => Flowing capacity s ∧ s.Consistent
  · intro s event next h step
    exact ⟨h.1.step step.2 step.1, h.2.step step.2⟩
  · exact ⟨.initial, .initial⟩

/-- No deadlock is reached while every host call starts ready; the first one
that does not can end in a deadlock. -/
theorem deadlock_needs_unready {events : List PipeEvent} {finish : PipeState}
    (run : Run (Step.guarded (PipeStep capacity) (Ready capacity)) initial events finish) :
    ¬ finish.Deadlocked capacity ∧
    ∀ event next, PipeStep capacity finish event next → ¬ finish.Ready capacity event →
      ∃ later last, Run (PipeStep capacity) next later last ∧ last.Deadlocked capacity := by
  have ⟨flowing, consistent⟩ := flowing_of_run run
  constructor
  · intro ⟨holder, other, pipe, side, locked, deadlock⟩
    exact flowing.not_blocked holder pipe side deadlock.blocked
  · intro event next step unready
    exact consistent.deadlock_of_unready step unready

theorem deadlock_needs_unready_write_read :
    ∃ finish : PipeState, finish.threads 2 = .running (some (.moved [7, 8])) ∧ ¬ finish.Deadlocked 4 ∧
      ∀ event next, PipeStep 4 finish event next → ¬ finish.Ready 4 event →
        ∃ later last, Run (PipeStep 4) next later last ∧ last.Deadlocked 4 := by
  refine ⟨_, ?_, @deadlock_needs_unready 4 [.call 1 (.dosCreatePipe 0), .enter 1,
    .call 1 (.dosWrite 0x1001 (some [7, 8])), .enter 1, .move 1, .call 2 (.dosRead 0x1000 10),
    .enter 2, .move 2] _
      (.cons ⟨by trivial, .call _ rfl⟩ <|
        .cons ⟨by trivial, .enter rfl rfl fun _ => by decide⟩ <|
        .cons ⟨by trivial, .call _ rfl⟩ <|
        .cons ⟨by intro pipe found; cases found; decide, .enter rfl rfl nofun⟩ <|
        .cons ⟨by trivial, .write rfl (.inr (by decide))⟩ <|
        .cons ⟨by trivial, .call _ rfl⟩ <|
        .cons ⟨by intro pipe found; cases found; right; decide, .enter rfl rfl nofun⟩ <|
        .cons ⟨by trivial, .read rfl (.inr (by decide))⟩ <| .nil _)⟩
  rfl

/-- A thread reads the empty pipe before the other one has written. -/
theorem read_before_write_deadlocks :
    ∃ events finish, Run (PipeStep 65536) initial events finish ∧ finish.Deadlocked 65536 := by
  refine ⟨[.call 1 (.dosCreatePipe 0), .enter 1, .call 1 (.dosRead 0x1000 1), .enter 1,
    .call 2 (.dosWrite 0x1001 (some [7]))], _,
    .cons (.call _ rfl) <| .cons (.enter rfl rfl fun _ => by decide) <| .cons (.call _ rfl) <|
      .cons (.enter rfl rfl fun _ => by decide) <| .cons (.call _ rfl) <| .nil _,
    1, 2, 0, .read, .write 0x1001 [7], ?_⟩
  exact ⟨rfl, ⟨1, rfl, by decide, rfl⟩, rfl, rfl, by decide⟩

end PipeState
end Warpine.Loader
