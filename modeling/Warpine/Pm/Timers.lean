import Warpine.Lib.Run
import Warpine.Pm.WindowCalls

/-! The window timers and their threads: who holds the lock of the window manager,
who waits for it, and who waits for the end of a thread. -/
namespace Warpine.Pm
open Warpine.Lib

def wmTimer : UInt32 := 0x0024

/-- The window and the id of a timer. -/
abbrev TimerKey := Hwnd × UInt32

/-- Where a timer thread is in its loop. -/
inductive TimerPc where
  | checkRunning
  | checkExit
  | sleeping
  /-- Back from the sleep, before the second look at its flag. -/
  | recheck
  | wantLock
  | posting
  | done
deriving DecidableEq

structure TimerThread where
  key : TimerKey
  running : Bool
  pc : TimerPc

/-- Where a thread that uses timers is in a call. -/
inductive CallerPc where
  | idle
  | startEnter (key : TimerKey)
  | startLocked (key : TimerKey)
  /-- The old timer of a restart; the lock is still held. -/
  | startJoin (key : TimerKey) (thread : Nat)
  | startSpawn (key : TimerKey)
  | startInsert (key : TimerKey) (thread : Nat)
  | stopEnter (key : TimerKey)
  | stopLocked (key : TimerKey)
  | stopJoin (thread : Nat)
  | allEnter
  | allLocked
  | draining (rest : List Nat)
  | allJoin (thread : Nat) (rest : List Nat)
deriving DecidableEq

inductive TimerCall where
  | start (key : TimerKey)
  | stop (key : TimerKey)
  | stopAll

inductive LockHolder where
  | caller (v : Nat)
  | timer (t : Nat)
deriving DecidableEq

structure TimerSystem where
  wm : WindowManager
  lock : Option LockHolder
  timers : Dict TimerKey Nat
  threads : List TimerThread
  callers : Nat → CallerPc
  exitRequested : Bool

/-- One step of one thread; the order of a drain is that of the hash map. -/
inductive TimerEvent where
  | request (v : Nat) (call : TimerCall)
  | caller (v : Nat)
  | drain (v : Nat) (order : List Nat)
  | timer (t : Nat)
  | requestExit

def TimerCall.enter : TimerCall → CallerPc
  | .start key => .startEnter key
  | .stop key => .stopEnter key
  | .stopAll => .allEnter

namespace CallerPc

/-- The thread whose end the caller waits for. -/
def joining : CallerPc → Option Nat
  | .startJoin _ thread | .stopJoin thread | .allJoin thread _ => some thread
  | _ => none

def locked : CallerPc → Bool
  | .startLocked _ | .startJoin _ _ | .stopLocked _ | .allLocked | .draining _ | .allJoin _ _ => true
  | _ => false

/-- The threads whose handles the caller has. -/
def handles : CallerPc → List Nat
  | .startJoin _ thread | .startInsert _ thread | .stopJoin thread => [thread]
  | .draining rest => rest
  | .allJoin thread rest => thread :: rest
  | _ => []

end CallerPc

namespace TimerSystem

variable (s : TimerSystem)

def initial (wm : WindowManager) : TimerSystem where
  wm := wm
  lock := none
  timers := []
  threads := []
  callers := fun _ => .idle
  exitRequested := false

def goto (v : Nat) (pc : CallerPc) : TimerSystem :=
  { s with callers := Function.update s.callers v pc }

def acquire (v : Nat) (pc : CallerPc) : Option TimerSystem :=
  if s.lock = none then some { s.goto v pc with lock := some (.caller v) } else none

def release (v : Nat) (pc : CallerPc) : TimerSystem := { s.goto v pc with lock := none }

/-- Clears the flag that a timer thread looks at. -/
def stopFlag (t : Nat) : TimerSystem :=
  { s with threads := s.threads.modify t fun th => { th with running := false } }

def forget (key : TimerKey) : TimerSystem := { s with timers := s.timers.erase key }

def atPc (t : Nat) (pc : TimerPc) : TimerSystem :=
  { s with threads := s.threads.modify t fun th => { th with pc } }

/-- A join returns once the thread is at its end. -/
def ended (t : Nat) : Bool := (s.threads[t]?).any fun th => th.pc = .done

def spawn (v : Nat) (key : TimerKey) : TimerSystem :=
  goto { s with threads := s.threads ++ [⟨key, true, .checkRunning⟩] } v
    (.startInsert key s.threads.length)

/-- The next step of a call. -/
def callerStep (v : Nat) : Option TimerSystem :=
  match s.callers v with
  | .idle | .allLocked => none
  -- a start looks for an old timer and waits for its end with the lock in hand
  | .startEnter key => s.acquire v (.startLocked key)
  | .startLocked key =>
      match s.timers.get key with
      | some old => some (((s.forget key).stopFlag old).goto v (.startJoin key old))
      | none => some (s.release v (.startSpawn key))
  | .startJoin key old => if s.ended old then some (s.release v (.startSpawn key)) else none
  | .startSpawn key => some (s.spawn v key)
  | .startInsert key thread =>
      if s.lock = none then
        some ({ s with timers := s.timers.insert key thread }.goto v .idle)
      else none
  -- a stop lets go of the lock first
  | .stopEnter key => s.acquire v (.stopLocked key)
  | .stopLocked key =>
      match s.timers.get key with
      | some old => some (((s.forget key).stopFlag old).release v (.stopJoin old))
      | none => some (s.release v .idle)
  | .stopJoin old => if s.ended old then some (s.goto v .idle) else none
  | .allEnter => s.acquire v .allLocked
  | .draining [] => some (s.release v .idle)
  | .draining (old :: rest) => some ((s.stopFlag old).goto v (.allJoin old rest))
  | .allJoin old rest => if s.ended old then some (s.goto v (.draining rest)) else none

/-- The next step of a timer thread. -/
def timerStep (t : Nat) : Option TimerSystem :=
  (s.threads[t]?).bind fun th =>
    match th.pc with
    | .checkRunning => some (s.atPc t (if th.running then .checkExit else .done))
    | .checkExit => some (s.atPc t (if s.exitRequested then .done else .sleeping))
    | .sleeping => some (s.atPc t .recheck)
    | .recheck => some (s.atPc t (if th.running then .wantLock else .done))
    | .wantLock =>
        if s.lock = none then some { s.atPc t .posting with lock := some (.timer t) } else none
    | .posting =>
        some { s.atPc t .checkRunning with
          lock := none
          wm := s.wm.postTo th.key.1 (.plain th.key.1 wmTimer th.key.2 0) }
    | .done => none

def exec : TimerEvent → Option TimerSystem
  | .request v call =>
      if s.callers v = .idle then some (s.goto v call.enter) else none
  | .caller v => s.callerStep v
  | .drain v order =>
      if s.callers v = .allLocked ∧ order.Perm (s.timers.map Prod.snd) then
        some ({ s with timers := [] }.goto v (.draining order))
      else none
  | .timer t => s.timerStep t
  | .requestExit => some { s with exitRequested := true }

def step : Step TimerSystem TimerEvent := fun s event next => s.exec event = some next

/-- A caller holds the lock and waits for the end of a thread that waits for the lock. -/
def Deadlock : Prop :=
  ∃ v t, s.lock = some (.caller v) ∧ (s.callers v).joining = some t ∧
    ∃ th, s.threads[t]? = some th ∧ th.pc = .wantLock

/-- The thread that the next step of a caller stops while the lock stays in its hand. -/
def stopsLocked (v : Nat) : Option Nat :=
  match s.callers v with
  | .startLocked key => s.timers.get key
  | .draining (old :: _) => some old
  | _ => none

/-- No thread is stopped under the lock between its second look at the flag and the
lock. -/
def Apart : TimerEvent → Prop
  | .caller v => ∀ t ∈ s.stopsLocked v, ∀ th ∈ s.threads[t]?, th.pc ≠ .wantLock
  | _ => True

instance : DecidablePred s.Apart
  | .caller v =>
      inferInstanceAs (Decidable (∀ t ∈ s.stopsLocked v, ∀ th ∈ s.threads[t]?, th.pc ≠ .wantLock))
  | .request _ _ | .drain _ _ | .timer _ | .requestExit => .isTrue trivial

/-- The holder of the lock is where its program counter says. -/
structure LockOk : Prop where
  callers : ∀ v, s.lock = some (.caller v) ↔ (s.callers v).locked
  posting : ∀ (t : Nat) th, s.threads[t]? = some th → th.pc = .posting → s.lock = some (.timer t)

/-- A thread that can come to no more than the end of its loop. -/
def Stopped (t : Nat) : Prop :=
  ∃ th, s.threads[t]? = some th ∧ th.running = false ∧ th.pc ≠ .wantLock

/-- Whoever waits for a thread with the lock in hand waits for a stopped one. -/
structure Inv : Prop where
  lock : s.LockOk
  mapped : ∀ entry ∈ s.timers, entry.2 < s.threads.length
  handles : ∀ v, ∀ t ∈ (s.callers v).handles, t < s.threads.length
  quiet : ∀ v t, (s.callers v).locked → (s.callers v).joining = some t → s.Stopped t

/-- What a step of one caller does: to its place, to the lock, and to the threads. -/
structure Moved (v : Nat) (pc : CallerPc) (next : TimerSystem) : Prop where
  callers : next.callers = Function.update s.callers v pc
  lock : next.lock =
    if pc.locked then some (.caller v) else if (s.callers v).locked then none else s.lock
  free : pc.locked → (s.callers v).locked = false → s.lock = none
  kept : ∀ (t : Nat) th, s.threads[t]? = some th → ∃ th', next.threads[t]? = some th' ∧
    th'.pc = th.pc ∧ (th.running = false → th'.running = false)
  posting : ∀ (t : Nat) th', next.threads[t]? = some th' → th'.pc = .posting →
    ∃ th, s.threads[t]? = some th ∧ th.pc = .posting
  mapped : ∀ entry ∈ next.timers, entry ∈ s.timers ∨ entry.2 ∈ (s.callers v).handles
  handles : ∀ t ∈ pc.handles, t ∈ (s.callers v).handles ∨ (∃ key, (key, t) ∈ s.timers) ∨
    t < next.threads.length
  stopped : ∀ t, pc.locked → pc.joining = some t → s.stopsLocked v = some t ∧
    ∀ th, next.threads[t]? = some th → th.running = false

section Steps

variable {s} {v : Nat} {pc : CallerPc} {next : TimerSystem}

/-- Steps that leave the threads alone. -/
theorem Moved.aside (callers : next.callers = Function.update s.callers v pc)
    (lock : next.lock =
      if pc.locked then some (.caller v) else if (s.callers v).locked then none else s.lock)
    (free : pc.locked → (s.callers v).locked = false → s.lock = none)
    (threads : next.threads = s.threads)
    (mapped : ∀ entry ∈ next.timers, entry ∈ s.timers ∨ entry.2 ∈ (s.callers v).handles)
    (handles : ∀ t ∈ pc.handles, t ∈ (s.callers v).handles ∨ ∃ key, (key, t) ∈ s.timers)
    (alone : pc.locked → pc.joining = none) : s.Moved v pc next where
  callers := callers
  lock := lock
  free := free
  kept := fun t th there => ⟨th, threads ▸ there, rfl, id⟩
  posting := fun t th' there post => ⟨th', threads ▸ there, post⟩
  mapped := mapped
  handles := fun t member => (handles t member).imp_right .inl
  stopped := fun t held joins => by
    rw [alone held] at joins
    contradiction

theorem stopFlag_get (old t : Nat) :
    (s.stopFlag old).threads[t]? =
      (s.threads[t]?).map fun th => if old = t then { th with running := false } else th := by
  rw [stopFlag, List.getElem?_modify]
  rfl

/-- Steps that stop one thread. -/
theorem Moved.stop {old : Nat} (callers : next.callers = Function.update s.callers v pc)
    (lock : next.lock = if pc.locked then some (.caller v) else none)
    (held : (s.callers v).locked)
    (threads : next.threads = (s.stopFlag old).threads)
    (mapped : ∀ entry ∈ next.timers, entry ∈ s.timers)
    (handles : ∀ t ∈ pc.handles, t ∈ (s.callers v).handles ∨ ∃ key, (key, t) ∈ s.timers)
    (joins : ∀ t, pc.locked → pc.joining = some t → t = old ∧ s.stopsLocked v = some old) :
    s.Moved v pc next where
  callers := callers
  lock := by rw [lock, if_pos held]
  free := fun _ open_ => by
    rw [held] at open_
    contradiction
  kept := by
    intro t th there
    refine ⟨_, by rw [threads, stopFlag_get, there]; rfl, ?_, ?_⟩ <;> dsimp only <;> split <;> simp
  posting := by
    intro t th' there post
    rw [threads, stopFlag_get] at there
    obtain ⟨th, found, rfl⟩ := Option.map_eq_some_iff.mp there
    refine ⟨th, found, ?_⟩
    split at post <;> exact post
  mapped := fun entry member => .inl (mapped entry member)
  handles := fun t member => (handles t member).imp_right .inl
  stopped := by
    intro t held joining
    obtain ⟨rfl, stops⟩ := joins t held joining
    refine ⟨stops, fun th there => ?_⟩
    rw [threads, stopFlag_get] at there
    obtain ⟨th, _, rfl⟩ := Option.map_eq_some_iff.mp there
    simp

theorem acquire_moved (h : s.acquire v pc = some next) (held : pc.locked) (alone : pc.joining = none) (noHandles : pc.handles = []) :
    s.Moved v pc next := by
  unfold acquire at h
  split at h
  · rename_i free
    cases h
    refine Moved.aside rfl ?_ (fun _ _ => free) rfl (fun _ => .inl) ?_ (fun _ => alone)
    · rw [if_pos held]
    · simp [noHandles]
  · contradiction

theorem release_moved (held : (s.callers v).locked) (unlocked : pc.locked = false)
    (noHandles : pc.handles = []) : s.Moved v pc (s.release v pc) := by
  refine Moved.aside rfl ?_ ?_ rfl (fun _ => .inl) ?_ ?_
  · simp [release, held, unlocked]
  · simp [unlocked]
  · simp [noHandles]
  · simp [unlocked]

theorem spawn_moved (key : TimerKey) (unlocked : (s.callers v).locked = false) :
    s.Moved v (.startInsert key s.threads.length) (s.spawn v key) where
  callers := rfl
  lock := by
    rw [unlocked]
    rfl
  free := by
    rintro ⟨⟩
  kept := fun t th there => ⟨th, by
    rw [spawn, goto, List.getElem?_append_left (List.getElem?_eq_some_iff.mp there).1, there],
    rfl, id⟩
  posting := by
    intro t th' there post
    rw [spawn, goto, List.getElem?_append] at there
    split at there
    · exact ⟨th', there, post⟩
    · obtain ⟨_, rfl⟩ := List.getElem?_eq_some_iff.mp there
      simp at post
  mapped := fun _ => .inl
  handles := fun t member => by
    obtain rfl : t = s.threads.length := by simpa [CallerPc.handles] using member
    exact .inr (.inr (by simp [spawn, goto]))
  stopped := by
    rintro t ⟨⟩

/-- A caller that goes on without the lock. -/
theorem goto_moved (ok : s.LockOk) (same : pc.locked = (s.callers v).locked)
    (handles : ∀ t ∈ pc.handles, t ∈ (s.callers v).handles) (alone : pc.joining = none) :
    s.Moved v pc (s.goto v pc) := by
  refine Moved.aside rfl ?_ ?_ rfl (fun _ => .inl) (fun t member => .inl (handles t member))
    (fun _ => alone)
  · by_cases held : (s.callers v).locked
    · rw [same, if_pos held]
      exact (ok.callers v).mpr held
    · rw [same, if_neg held, if_neg held]
      rfl
  · intro held unlocked
    rw [same, unlocked] at held
    contradiction

/-- A caller that stops a thread and waits for its end with the lock in hand. -/
theorem hold_moved (ok : s.LockOk) {old : Nat} {timers : Dict TimerKey Nat}
    (held : (s.callers v).locked) (locked : pc.locked) (joins : pc.joining = some old)
    (stops : s.stopsLocked v = some old) (fewer : ∀ entry ∈ timers, entry ∈ s.timers)
    (handles : ∀ t ∈ pc.handles, t ∈ (s.callers v).handles ∨ ∃ key, (key, t) ∈ s.timers) :
    s.Moved v pc (({ s with timers }.stopFlag old).goto v pc) := by
  refine Moved.stop rfl ?_ held rfl fewer handles ?_
  · rw [if_pos locked]
    exact (ok.callers v).mpr held
  · intro t _ joining
    rw [joins] at joining
    exact ⟨(Option.some.inj joining).symm, stops⟩

/-- The next step of a call, whichever it is. -/
theorem callerStep_moved (ok : s.LockOk) (h : s.callerStep v = some next) :
    ∃ pc, s.Moved v pc next := by
  unfold callerStep at h
  split at h
  next => contradiction
  next => contradiction
  next key here => exact ⟨_, acquire_moved h rfl rfl rfl⟩
  next key here =>
    have held : (s.callers v).locked := by rw [here]; rfl
    split at h
    next old found =>
      cases h
      have stops : s.stopsLocked v = some old := by simp [stopsLocked, here, found]
      refine ⟨.startJoin key old, hold_moved ok held rfl rfl stops (fun _ => Dict.mem_erase) ?_⟩
      intro t member
      rw [List.mem_singleton.mp member]
      exact .inr ⟨key, Dict.mem_of_get found⟩
    next =>
      cases h
      exact ⟨_, release_moved held rfl rfl⟩
  next key old here =>
    split at h
    · cases h
      exact ⟨_, release_moved (by rw [here]; rfl) rfl rfl⟩
    · contradiction
  next key here =>
    cases h
    exact ⟨_, spawn_moved key (by rw [here]; rfl)⟩
  next key thread here =>
    split at h
    · rename_i free
      cases h
      refine ⟨.idle, Moved.aside rfl ?_ (by rintro ⟨⟩) rfl ?_ (fun _ member => nomatch member)
        (by rintro ⟨⟩)⟩
      · rw [here]
        rfl
      · intro entry member
        rcases List.mem_append.mp member with old | new
        · exact .inl (Dict.mem_erase old)
        · rw [here, List.mem_singleton.mp new]
          exact .inr (List.mem_singleton.mpr rfl)
    · contradiction
  next key here => exact ⟨_, acquire_moved h rfl rfl rfl⟩
  next key here =>
    have held : (s.callers v).locked := by rw [here]; rfl
    split at h
    next old found =>
      cases h
      refine ⟨.stopJoin old, Moved.stop rfl rfl held rfl (fun _ => Dict.mem_erase) ?_
        (by rintro t ⟨⟩)⟩
      intro t member
      rw [List.mem_singleton.mp member]
      exact .inr ⟨key, Dict.mem_of_get found⟩
    next =>
      cases h
      exact ⟨_, release_moved held rfl rfl⟩
  next old here =>
    split at h
    · cases h
      exact ⟨_, goto_moved ok (by rw [here]; rfl) (fun _ member => nomatch member) rfl⟩
    · contradiction
  next here => exact ⟨_, acquire_moved h rfl rfl rfl⟩
  next here =>
    cases h
    exact ⟨_, release_moved (by rw [here]; rfl) rfl rfl⟩
  next old rest here =>
    cases h
    have stops : s.stopsLocked v = some old := by simp [stopsLocked, here]
    refine ⟨.allJoin old rest, hold_moved ok (by rw [here]; rfl) rfl rfl stops (fun _ => id) ?_⟩
    intro t member
    rw [here]
    exact .inl member
  next old rest here =>
    split at h
    · cases h
      refine ⟨.draining rest, goto_moved ok (by rw [here]; rfl) ?_ rfl⟩
      intro t member
      rw [here]
      exact List.mem_cons_of_mem old member
    · contradiction

theorem Moved.lockOk (ok : s.LockOk) (moved : s.Moved v pc next) : next.LockOk where
  callers := by
    intro u
    rw [moved.lock, moved.callers]
    have mine := ok.callers v
    have theirs := ok.callers u
    have free := moved.free
    by_cases same : u = v
    · subst same
      rw [Function.update_self]
      grind
    · rw [Function.update_of_ne same]
      grind
  posting := by
    intro t th' there post
    obtain ⟨th, before, posting⟩ := moved.posting t th' there post
    have held := ok.posting t th before posting
    have mine := ok.callers v
    have free := moved.free
    rw [moved.lock]
    grind

theorem Moved.grows (moved : s.Moved v pc next) : s.threads.length ≤ next.threads.length := by
  by_contra shorter
  have there : s.threads[next.threads.length]? = some _ :=
    List.getElem?_eq_getElem (Nat.lt_of_not_le shorter)
  obtain ⟨th, found, _⟩ := moved.kept _ _ there
  rw [List.getElem?_eq_none (Nat.le_refl _)] at found
  contradiction

theorem Moved.stopped_kept (moved : s.Moved v pc next) {t : Nat} (stopped : s.Stopped t) :
    next.Stopped t := by
  obtain ⟨th, there, flag, away⟩ := stopped
  obtain ⟨th', found, same, keeps⟩ := moved.kept t th there
  exact ⟨th', found, keeps flag, same ▸ away⟩

theorem Moved.inv (inv : s.Inv) (moved : s.Moved v pc next)
    (apart : ∀ t ∈ s.stopsLocked v, ∀ th ∈ s.threads[t]?, th.pc ≠ .wantLock)
    (known : ∀ t, s.stopsLocked v = some t → t < s.threads.length) : next.Inv where
  lock := moved.lockOk inv.lock
  mapped := by
    intro entry member
    refine Nat.lt_of_lt_of_le ?_ moved.grows
    rcases moved.mapped entry member with old | named
    · exact inv.mapped entry old
    · exact inv.handles v _ named
  handles := by
    intro u t member
    rw [moved.callers] at member
    by_cases same : u = v
    · subst same
      rw [Function.update_self] at member
      rcases moved.handles t member with old | ⟨key, mapped⟩ | new
      · exact Nat.lt_of_lt_of_le (inv.handles u t old) moved.grows
      · exact Nat.lt_of_lt_of_le (inv.mapped (key, t) mapped) moved.grows
      · exact new
    · rw [Function.update_of_ne same] at member
      exact Nat.lt_of_lt_of_le (inv.handles u t member) moved.grows
  quiet := by
    intro u t held joining
    rw [moved.callers] at held joining
    by_cases same : u = v
    · subst same
      rw [Function.update_self] at held joining
      obtain ⟨stops, flag⟩ := moved.stopped t held joining
      have there := List.getElem?_eq_getElem (known t stops)
      obtain ⟨th', found, samePc, _⟩ := moved.kept t _ there
      exact ⟨th', found, flag th' found, samePc ▸ apart t stops _ there⟩
    · rw [Function.update_of_ne same] at held joining
      exact moved.stopped_kept (inv.quiet u t held joining)

/-- What a step of one timer thread does to the lock. -/
inductive LockMove (t : Nat) (pc pc' : TimerPc) : Option LockHolder → Option LockHolder → Prop where
  | same (lock : Option LockHolder) : pc ≠ .posting → pc' ≠ .posting → LockMove t pc pc' lock lock
  | take : LockMove t pc pc' none (some (.timer t))
  | give (lock : Option LockHolder) : pc = .posting → pc' ≠ .posting → LockMove t pc pc' lock none

theorem atPc_get (t u : Nat) (pc' : TimerPc) :
    (s.atPc t pc').threads[u]? =
      (s.threads[u]?).map fun th => if t = u then { th with pc := pc' } else th := by
  rw [atPc, List.getElem?_modify]
  rfl

theorem timer_inv (inv : s.Inv) {t : Nat} {th : TimerThread} {pc' : TimerPc}
    (there : s.threads[t]? = some th)
    (quiet : th.running = false → th.pc ≠ .wantLock → pc' ≠ .wantLock)
    (callers : next.callers = s.callers) (timers : next.timers = s.timers)
    (threads : next.threads = (s.atPc t pc').threads)
    (move : LockMove t th.pc pc' s.lock next.lock) : next.Inv := by
  have length : next.threads.length = s.threads.length := by simp [threads, atPc]
  have held := inv.lock.callers
  have posts := inv.lock.posting t th there
  refine ⟨⟨fun v => ?_, fun u th' found post => ?_⟩, ?_, ?_, fun v u locked joining => ?_⟩
  · rw [callers, ← held v]
    generalize s.lock = before at *
    generalize next.lock = after at *
    cases move with
    | same => rfl
    | take => simp
    | give _ posting _ => simp [posts posting]
  · rw [threads, atPc_get] at found
    obtain ⟨before, old, rfl⟩ := Option.map_eq_some_iff.mp found
    have post' := inv.lock.posting u before old
    generalize s.lock = lock at *
    generalize next.lock = after at *
    cases move with
    | same _ away away' =>
      split at post
      · exact absurd post away'
      · exact post' post
    | take =>
      split at post
      · rename_i same
        rw [same]
      · exact absurd (post' post) (by simp)
    | give _ posting away' =>
      split at post
      · exact absurd post away'
      · rename_i other
        have same := (posts posting).symm.trans (post' post)
        simp [other] at same
  · rw [timers, length]
    exact inv.mapped
  · rw [callers, length]
    exact inv.handles
  · rw [callers] at locked joining
    obtain ⟨before, old, flag, away⟩ := inv.quiet v u locked joining
    refine ⟨_, by rw [threads, atPc_get, old]; rfl, ?_, ?_⟩
    · split <;> exact flag
    · split
      · rename_i same
        subst same
        cases Option.some.inj (there.symm.trans old)
        exact quiet flag away
      · exact away

theorem timerStep_inv (inv : s.Inv) {t : Nat} (h : s.timerStep t = some next) : next.Inv := by
  obtain ⟨th, there, h⟩ := Option.bind_eq_some_iff.mp h
  split at h
  next here =>
    cases h
    refine timer_inv inv there (fun flag _ => ?_) rfl rfl rfl (.same _ ?_ ?_)
    · simp [flag]
    · simp [here]
    · split <;> decide
  next here =>
    cases h
    refine timer_inv inv there (fun _ _ => ?_) rfl rfl rfl (.same _ ?_ ?_)
    · split <;> decide
    · simp [here]
    · split <;> decide
  next here =>
    cases h
    exact timer_inv inv there (fun _ _ => by decide) rfl rfl rfl (.same _ (by simp [here]) (by decide))
  next here =>
    cases h
    -- a cleared flag ends the thread before it asks for the lock
    refine timer_inv inv there (fun flag _ => ?_) rfl rfl rfl (.same _ ?_ ?_)
    · simp [flag]
    · simp [here]
    · split <;> decide
  next here =>
    split at h
    · rename_i free
      cases h
      refine timer_inv inv there (fun _ _ => by decide) rfl rfl rfl ?_
      rw [free]
      exact .take
    · contradiction
  next here =>
    cases h
    exact timer_inv inv there (fun _ _ => by decide) rfl rfl rfl (.give _ here (by decide))
  next => contradiction

theorem stopsLocked_known (inv : s.Inv) {t : Nat} (stops : s.stopsLocked v = some t) :
    t < s.threads.length := by
  unfold stopsLocked at stops
  split at stops
  next key here => exact inv.mapped (key, t) (Dict.mem_of_get stops)
  next old rest here =>
    cases stops
    exact inv.handles v _ (by rw [here]; exact List.mem_cons_self)
  next => contradiction

theorem exec_inv (inv : s.Inv) {event : TimerEvent} (apart : s.Apart event)
    (h : s.exec event = some next) : next.Inv := by
  cases event with
  | request v call =>
    obtain ⟨here, h⟩ := Option.ite_none_right_eq_some.mp h
    cases h
    have moved : s.Moved v call.enter (s.goto v call.enter) := by
      refine goto_moved inv.lock ?_ (fun t member => ?_) ?_
      · rw [here]
        cases call <;> rfl
      · cases call <;> cases member
      · cases call <;> rfl
    refine moved.inv inv ?_ ?_ <;> simp [stopsLocked, here]
  | caller v =>
    obtain ⟨pc, moved⟩ := callerStep_moved inv.lock h
    exact moved.inv inv apart fun t stops => stopsLocked_known inv stops
  | drain v order =>
    obtain ⟨⟨here, perm⟩, h⟩ := Option.ite_none_right_eq_some.mp h
    cases h
    have held : (s.callers v).locked := by rw [here]; rfl
    have moved : s.Moved v (.draining order) (goto { s with timers := [] } v (.draining order)) := by
      refine Moved.aside rfl ?_ ?_ rfl (fun _ member => nomatch member) ?_ (fun _ => rfl)
      · exact (inv.lock.callers v).mpr held
      · rw [held]
        rintro _ ⟨⟩
      · intro t member
        obtain ⟨⟨key, same⟩, there, rfl⟩ := List.mem_map.mp (perm.mem_iff.mp member)
        exact .inr ⟨key, there⟩
    refine moved.inv inv ?_ ?_ <;> simp [stopsLocked, here]
  | timer t => exact timerStep_inv inv h
  | requestExit =>
    cases h
    exact ⟨⟨inv.lock.callers, inv.lock.posting⟩, inv.mapped, inv.handles, inv.quiet⟩

theorem Inv.no_deadlock (inv : s.Inv) : ¬s.Deadlock := by
  rintro ⟨v, t, held, joining, th, there, waits⟩
  obtain ⟨th', found, _, away⟩ := inv.quiet v t ((inv.lock.callers v).mp held) joining
  cases Option.some.inj (there.symm.trans found)
  exact away waits

end Steps

theorem initial_inv (wm : WindowManager) : (initial wm).Inv where
  lock := by
    refine ⟨fun v => ?_, fun t th there => ?_⟩
    · exact iff_of_false nofun Bool.false_ne_true
    · simp [initial] at there
  mapped := by simp [initial]
  handles := by simp [initial, CallerPc.handles]
  quiet := fun v t held => absurd held Bool.false_ne_true

/-- No run deadlocks in which the threads that are stopped under the lock do not wait
for it at that moment. -/
theorem apart_run_no_deadlock {wm : WindowManager} {events : List TimerEvent}
    {finish : TimerSystem} (run : Run (Step.guarded step Apart) (initial wm) events finish) :
    ¬finish.Deadlock := by
  refine Inv.no_deadlock (run.invariant Inv ?_ (initial_inv wm))
  rintro start event finish inv ⟨apart, h⟩
  exact exec_inv inv apart h

/-- Neither side of a deadlock can take a step. -/
theorem deadlock_stuck {s : TimerSystem} {v t : Nat} {th : TimerThread}
    (held : s.lock = some (.caller v)) (joining : (s.callers v).joining = some t)
    (there : s.threads[t]? = some th) (waits : th.pc = .wantLock) :
    s.callerStep v = none ∧ s.timerStep t = none := by
  have running : s.ended t = false := by simp [ended, there, waits]
  constructor
  · unfold callerStep
    split <;> rename_i here <;> rw [here] at joining <;> cases joining <;> simp [running]
  · simp [timerStep, there, waits, held]

/-- A timer that is started, goes through its loop up to its second look at the flag, or
up to the lock, and is then restarted. -/
def restart (wait : Bool) : List TimerEvent :=
  let key : TimerKey := (0x1001, 7)
  [.request 0 (.start key), .caller 0, .caller 0, .caller 0, .caller 0,
    .timer 0, .timer 0, .timer 0] ++ (if wait then [.timer 0] else []) ++
    [.request 0 (.start key), .caller 0, .caller 0]

def execApart (s : TimerSystem) (event : TimerEvent) : Option TimerSystem :=
  if s.Apart event then s.exec event else none

theorem execApart_step (s : TimerSystem) (event : TimerEvent) (next : TimerSystem)
    (h : s.execApart event = some next) : Step.guarded step Apart s event next :=
  Option.ite_none_right_eq_some.mp h

theorem apart_run_no_deadlock_restart :
    ((restart false).foldlM execApart (initial .new)).isSome ∧
      ∀ finish ∈ (restart false).foldlM execApart (initial .new), ¬finish.Deadlock :=
  ⟨by decide, fun _ h => apart_run_no_deadlock (Run.of_foldlM execApart_step h)⟩

/-- A restart that finds the old thread on its way from its flag to the lock. -/
theorem restart_deadlocks : ¬∀ (wm : WindowManager) (events : List TimerEvent)
    (finish : TimerSystem), Run step (initial wm) events finish → ¬finish.Deadlock := by
  intro none
  have caught : ((restart true).foldlM exec (initial .new)).any (fun s =>
      s.lock = some (.caller 0) ∧ (s.callers 0).joining = some 0 ∧
        (s.threads[0]?).any fun th => th.pc = .wantLock) := by decide
  obtain ⟨finish, h, bad⟩ := Option.any_eq_true _ _ |>.mp caught
  obtain ⟨held, joining, waits⟩ := of_decide_eq_true bad
  obtain ⟨th, there, pc⟩ := Option.any_eq_true _ _ |>.mp waits
  exact none .new _ finish (Run.of_foldlM (fun _ _ _ h => h) h)
    ⟨0, 0, held, joining, th, there, of_decide_eq_true pc⟩

end TimerSystem
end Warpine.Pm
