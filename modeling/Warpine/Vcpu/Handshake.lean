import Warpine.Lib.Feed
import Warpine.Lib.Run

/-! The debugger's thread and the threads of the guest, which share two slots: for the
report of a stop, and for the command to go on. -/
namespace Warpine.Vcpu.Handshake
open Warpine.Lib

inductive GdbVcpuStopReason where
  | initial
  | swBreakpoint
  | hwBreakpoint
  | singleStep
  | interrupt
  | exception (vector : UInt8)
deriving DecidableEq, Repr

inductive Signal where
  | sigint
  | sigill
  | sigtrap
  | sigbus
  | sigfpe
  | sigsegv
deriving DecidableEq, Repr

/-- What the client is told. -/
inductive SingleThreadStopReason where
  | signal (signal : Signal)
  | swBreak
  | hwBreak
  | doneStep
deriving DecidableEq, Repr

def exceptionSignal (vector : UInt8) : Signal :=
  if vector = 0 ∨ vector = 4 then .sigfpe
  else if vector = 5 then .sigsegv
  else if vector = 6 then .sigill
  else if vector = 11 ∨ vector = 12 then .sigbus
  else if vector = 13 ∨ vector = 14 then .sigsegv
  else .sigtrap

def GdbVcpuStopReason.toStopReason : GdbVcpuStopReason → SingleThreadStopReason
  | .initial => .signal .sigtrap
  | .swBreakpoint => .swBreak
  | .hwBreakpoint => .hwBreak
  | .singleStep => .doneStep
  | .interrupt => .signal .sigint
  | .exception vector => .signal (exceptionSignal vector)

/-- The registers are all that the snapshot has; which thread stopped is history. -/
structure GdbStopInfo (ρ : Type) where
  vcpu : Nat
  reason : GdbVcpuStopReason
  regs : ρ

inductive GdbResumeCmd where
  | cont
  | step
  | kill
deriving DecidableEq, Repr

/-- Where `run_vcpu` is: at the head of its loop, in the guest or in what the guest has
asked for, about to report a stop, or waiting for the command that follows it. -/
inductive Place where
  | head
  | guest
  | stopping (reason : GdbVcpuStopReason)
  | paused (reason : GdbVcpuStopReason)
  | ended
deriving DecidableEq, Repr

structure VcpuThread (ρ : Type) where
  place : Place
  singleStep : Bool
  regs : ρ

namespace VcpuThread

variable {ρ : Type}

/-- A thread stops before the guest's first instruction. -/
def new (regs : ρ) : VcpuThread ρ := ⟨.stopping .initial, false, regs⟩

/-- How the thread goes on, by what it has stopped for. -/
def resumed (vcpu : VcpuThread ρ) (reason : GdbVcpuStopReason) : GdbResumeCmd → VcpuThread ρ
  | .kill => { vcpu with place := .ended }
  | .step => { vcpu with place := .head, singleStep := true }
  | .cont => match reason with
    | .swBreakpoint => { vcpu with place := .head, singleStep := true }
    | .interrupt => { vcpu with place := .head, singleStep := false }
    | _ => { vcpu with place := .head }

def isLive (vcpu : VcpuThread ρ) : Bool :=
  match vcpu.place with
  | .ended => false
  | _ => true

/-- The thread goes its own way. -/
def isBusy (vcpu : VcpuThread ρ) : Bool :=
  match vcpu.place with
  | .paused _ | .ended => false
  | _ => true

end VcpuThread

/-- Where the debugger's thread is: it serves the commands of a stopped target, waits for
the next stop, waits for the one that it has asked for, or has ended its session. -/
inductive GdbAt where
  | idle
  | running
  | interrupted
  | gone
deriving DecidableEq, Repr

/-- The slots, the threads, and the debugger's target. Whose registers are cached is
history; none are any more once the client has written them. -/
structure Debug (ρ : Type) where
  stopRequested : Bool
  stopped : Slot (GdbStopInfo ρ)
  resumeCmd : Slot GdbResumeCmd
  vcpus : List (VcpuThread ρ)
  gdb : GdbAt
  cachedRegs : ρ
  told : Option SingleThreadStopReason
  reporter : Option Nat

inductive VcpuEvent (ρ : Type) where
  | turn
  | exit (regs : ρ)
  | debug (breakpoint : Bool) (regs : ρ)
  | notify
  | takeResume
  | spawn (regs : ρ)
  | leave
deriving DecidableEq

/-- A command is one that reads registers, or reads or writes memory. -/
inductive GdbEvent (ρ : Type) where
  | command
  | writeRegisters (regs : ρ)
  | resume
  | step
  | kill
  | disconnect
  | takeStop
  | interrupt
  | timeout
deriving DecidableEq

inductive Event (ρ : Type) where
  | vcpu (i : Nat) (event : VcpuEvent ρ)
  | gdb (event : GdbEvent ρ)
deriving DecidableEq

namespace Debug

variable {ρ : Type}

/-- The debugger waits for its client before the program is loaded. -/
def initial (defaultRegs regs : ρ) : Debug ρ where
  stopRequested := false
  stopped := .empty
  resumeCmd := .empty
  vcpus := [.new regs]
  gdb := .idle
  cachedRegs := defaultRegs
  told := none
  reporter := none

variable (s : Debug ρ)

def setVcpu (i : Nat) (vcpu : VcpuThread ρ) : Debug ρ := { s with vcpus := s.vcpus.set i vcpu }

def notifyStopped (i : Nat) (vcpu : VcpuThread ρ) (reason : GdbVcpuStopReason) : Debug ρ :=
  { s.setVcpu i { vcpu with place := .paused reason } with
    stopped := s.stopped.put ⟨i, reason, vcpu.regs⟩ }

def sendResume (cmd : GdbResumeCmd) : Debug ρ := { s with resumeCmd := s.resumeCmd.put cmd }

def takeStop (info : GdbStopInfo ρ) (told : SingleThreadStopReason) : Debug ρ :=
  { s with
    stopped := s.stopped.drained
    gdb := .idle
    cachedRegs := info.regs
    told := some told
    reporter := some info.vcpu }

/-- At the head of its loop a thread takes the request for an interrupt back. -/
def execVcpu (i : Nat) (vcpu : VcpuThread ρ) : VcpuEvent ρ → Option (Debug ρ)
  | .turn => match vcpu.place with
    | .head => some (if s.stopRequested then
        { s with stopRequested := false }.setVcpu i { vcpu with place := .stopping .interrupt }
      else s.setVcpu i { vcpu with place := .guest })
    | _ => none
  | .exit regs => match vcpu.place with
    | .guest => some (s.setVcpu i { vcpu with place := .head, regs })
    | _ => none
  | .debug breakpoint regs => match vcpu.place with
    | .guest => some (s.setVcpu i { vcpu with
        place := .stopping (if breakpoint then .swBreakpoint else .singleStep)
        singleStep := false
        regs })
    | _ => none
  | .notify => match vcpu.place with
    | .stopping reason => some (s.notifyStopped i vcpu reason)
    | _ => none
  | .takeResume => match vcpu.place, s.resumeCmd.item with
    | .paused reason, some cmd => some ({ s with resumeCmd := s.resumeCmd.drained }.setVcpu i
        (vcpu.resumed reason cmd))
    | _, _ => none
  | .spawn regs => match vcpu.place with
    | .guest => some { s with vcpus := s.vcpus ++ [.new regs] }
    | _ => none
  | .leave => match vcpu.place with
    | .head | .guest => some (s.setVcpu i { vcpu with place := .ended })
    | _ => none

def execGdb : GdbEvent ρ → Option (Debug ρ)
  | .command => match s.gdb with
    | .idle => some s
    | _ => none
  | .writeRegisters regs => match s.gdb with
    | .idle => some { s with cachedRegs := regs, reporter := none }
    | _ => none
  | .resume => match s.gdb with
    | .idle => some { s.sendResume .cont with gdb := .running }
    | _ => none
  | .step => match s.gdb with
    | .idle => some { s.sendResume .step with gdb := .running }
    | _ => none
  | .kill => match s.gdb with
    | .idle | .running => some { s.sendResume .kill with gdb := .gone }
    | _ => none
  | .disconnect => match s.gdb with
    | .gone => none
    | _ => some { s with gdb := .gone }
  | .takeStop => match s.gdb, s.stopped.item with
    | .running, some info => some (s.takeStop info info.reason.toStopReason)
    | .interrupted, some info => some (s.takeStop info (.signal .sigint))
    | _, _ => none
  | .interrupt => match s.gdb with
    | .running => some { s with stopRequested := true, gdb := .interrupted }
    | _ => none
  | .timeout => match s.gdb with
    | .interrupted => some { s with gdb := .running }
    | _ => none

def exec : Event ρ → Option (Debug ρ)
  | .vcpu i event => match s.vcpus[i]? with
    | some vcpu => s.execVcpu i vcpu event
    | none => none
  | .gdb event => s.execGdb event

def step : Step (Debug ρ) (Event ρ) := fun s event next => s.exec event = some next

section Accounts

def busy : Nat := s.vcpus.countP VcpuThread.isBusy
def live : Nat := s.vcpus.countP VcpuThread.isLive

/-- What is under way: a command, a thread that will stop, or a report. -/
def pending : Nat := s.resumeCmd.count + s.busy + s.stopped.count

def lost : Nat := s.resumeCmd.lost + s.stopped.lost

def awaiting : Nat :=
  match s.gdb with
  | .running | .interrupted => 1
  | .idle | .gone => 0

/-- No thread of the guest goes on, nor will one without another command. -/
structure Quiescent : Prop where
  paused : ∀ vcpu ∈ s.vcpus, vcpu.isBusy = false
  noCommand : s.resumeCmd.item = none

/-- Besides, the debugger has seen the last stop. -/
structure InStep : Prop extends s.Quiescent where
  seen : s.stopped.item = none

/-- Commands and reports that were not lost are as many as were given. -/
def Balanced (t : Debug ρ) : Prop :=
  t.pending + t.lost + (s.awaiting + s.live) = s.pending + s.lost + (t.awaiting + t.live)

variable {s} {i : Nat} {vcpu : VcpuThread ρ}

theorem busy_eq_zero : s.busy = 0 ↔ ∀ vcpu ∈ s.vcpus, vcpu.isBusy = false := by
  rw [busy, List.countP_eq_zero]
  simp only [Bool.not_eq_true]

theorem quiescent_iff : s.Quiescent ↔ s.resumeCmd.count + s.busy = 0 := by
  rw [Nat.add_eq_zero_iff, Slot.count_eq_zero, busy_eq_zero]
  exact ⟨fun still => ⟨still.noCommand, still.paused⟩, fun both => ⟨both.2, both.1⟩⟩

theorem inStep_iff : s.InStep ↔ s.pending = 0 := by
  rw [pending, Nat.add_eq_zero_iff, ← quiescent_iff, Slot.count_eq_zero]
  exact ⟨fun step => ⟨step.toQuiescent, step.seen⟩, fun both => ⟨both.1, both.2⟩⟩

theorem count_set (counts : VcpuThread ρ → Bool) (new : VcpuThread ρ) {vcpus : List (VcpuThread ρ)}
    (here : vcpus[i]? = some vcpu) : (vcpus.set i new).countP counts + (counts vcpu).toNat =
      vcpus.countP counts + (counts new).toNat := by
  induction vcpus generalizing i with
  | nil => simp at here
  | cons first rest ih =>
    cases i with
    | zero =>
      obtain rfl : first = vcpu := by simpa using here
      rw [List.set_cons_zero, List.countP_cons, List.countP_cons]
      cases counts first <;> cases counts new <;> simp
    | succ i =>
      have further := ih (i := i) (by simpa using here)
      rw [List.set_cons_succ, List.countP_cons, List.countP_cons]
      omega

theorem isLive_of_isBusy (busy : vcpu.isBusy = true) : vcpu.isLive = true := by
  unfold VcpuThread.isBusy at busy
  unfold VcpuThread.isLive
  split at busy
  · cases busy
  · cases busy
  · rename_i place
    split
    · contradiction
    · rfl

theorem isBusy_resumed (reason : GdbVcpuStopReason) (cmd : GdbResumeCmd) :
    (vcpu.resumed reason cmd).isBusy = (vcpu.resumed reason cmd).isLive ∧
      ((vcpu.resumed reason cmd).isBusy ∨ (vcpu.resumed reason cmd).place = .ended) := by
  cases cmd with
  | kill => exact ⟨rfl, .inr rfl⟩
  | step => exact ⟨rfl, .inl rfl⟩
  | cont => cases reason <;> exact ⟨rfl, .inl rfl⟩

end Accounts

/-- What the threads do to the slots and to each other. -/
inductive Effect (s : Debug ρ) : Event ρ → Debug ρ → Prop where
  | moves {i : Nat} {event : VcpuEvent ρ} {vcpu : VcpuThread ρ} (new : VcpuThread ρ)
      (stopRequested : Bool) (here : s.vcpus[i]? = some vcpu) (busy : vcpu.isBusy)
      (still : new.isBusy) : Effect s (.vcpu i event) { s.setVcpu i new with stopRequested }
  | notifies {i : Nat} {vcpu : VcpuThread ρ} {reason : GdbVcpuStopReason}
      (here : s.vcpus[i]? = some vcpu) (place : vcpu.place = .stopping reason) :
      Effect s (.vcpu i .notify) (s.notifyStopped i vcpu reason)
  | resumes {i : Nat} {vcpu : VcpuThread ρ} {reason : GdbVcpuStopReason} {cmd : GdbResumeCmd}
      (here : s.vcpus[i]? = some vcpu) (place : vcpu.place = .paused reason)
      (given : s.resumeCmd.item = some cmd) : Effect s (.vcpu i .takeResume)
        ({ s with resumeCmd := s.resumeCmd.drained }.setVcpu i (vcpu.resumed reason cmd))
  | spawns {i : Nat} {vcpu : VcpuThread ρ} (regs : ρ) (here : s.vcpus[i]? = some vcpu)
      (place : vcpu.place = .guest) :
      Effect s (.vcpu i (.spawn regs)) { s with vcpus := s.vcpus ++ [.new regs] }
  | leaves {i : Nat} {vcpu : VcpuThread ρ} (here : s.vcpus[i]? = some vcpu) (busy : vcpu.isBusy) :
      Effect s (.vcpu i .leave) (s.setVcpu i { vcpu with place := .ended })
  | commands (idle : s.gdb = .idle) : Effect s (.gdb .command) s
  | writes (regs : ρ) (idle : s.gdb = .idle) :
      Effect s (.gdb (.writeRegisters regs)) { s with cachedRegs := regs, reporter := none }
  | sends {event : GdbEvent ρ} (cmd : GdbResumeCmd) (idle : s.gdb = .idle) :
      Effect s (.gdb event) { s.sendResume cmd with gdb := .running }
  | takes {info : GdbStopInfo ρ} (told : SingleThreadStopReason) (awaiting : s.awaiting = 1)
      (report : s.stopped.item = some info)
      (named : told = info.reason.toStopReason ∨ told = .signal .sigint) :
      Effect s (.gdb .takeStop) (s.takeStop info told)
  | waits {event : GdbEvent ρ} {t : Debug ρ} (stopRequested : Bool) (gdb : GdbAt)
      (same : t = { s with stopRequested, gdb }) (before : s.awaiting = 1) (after : t.awaiting = 1) :
      Effect s (.gdb event) t
  | goes {event : GdbEvent ρ} {t : Debug ρ} (gone : t.gdb = .gone) : Effect s (.gdb event) t

section Effects

variable {s} {t u : Debug ρ} {i : Nat} {vcpu : VcpuThread ρ} {event : Event ρ}

theorem effect_execVcpu {event : VcpuEvent ρ} (here : s.vcpus[i]? = some vcpu)
    (h : s.execVcpu i vcpu event = some t) : s.Effect (.vcpu i event) t := by
  have busy_of {place : Place} (at_ : vcpu.place = place) (same : place = .head ∨ place = .guest) :
      vcpu.isBusy = true := by
    unfold VcpuThread.isBusy
    rw [at_]
    rcases same with rfl | rfl <;> rfl
  unfold execVcpu at h
  split at h
  · split at h
    · rename_i place
      cases h
      split
      · exact .moves _ false here (busy_of place (.inl rfl)) rfl
      · exact .moves _ s.stopRequested here (busy_of place (.inl rfl)) rfl
    · cases h
  · split at h
    · rename_i place
      cases h
      exact .moves _ s.stopRequested here (busy_of place (.inr rfl)) rfl
    · cases h
  · split at h
    · rename_i place
      cases h
      exact .moves _ s.stopRequested here (busy_of place (.inr rfl)) rfl
    · cases h
  · split at h
    · rename_i reason place
      cases h
      exact .notifies here place
    · cases h
  · split at h
    · rename_i reason cmd place given
      cases h
      exact .resumes here place given
    · cases h
  · split at h
    · rename_i place
      cases h
      exact .spawns _ here place
    · cases h
  · split at h
    · rename_i place
      cases h
      exact .leaves here (busy_of place (.inl rfl))
    · rename_i place
      cases h
      exact .leaves here (busy_of place (.inr rfl))
    · cases h

theorem effect_execGdb {event : GdbEvent ρ} (h : s.execGdb event = some t) :
    s.Effect (.gdb event) t := by
  have waiting {place : GdbAt} (at_ : s.gdb = place)
      (same : place = .running ∨ place = .interrupted) :
      s.awaiting = 1 := by
    unfold awaiting
    rw [at_]
    rcases same with rfl | rfl <;> rfl
  unfold execGdb at h
  split at h
  · split at h
    · rename_i idle
      cases h
      exact .commands idle
    · cases h
  · split at h
    · rename_i idle
      cases h
      exact .writes _ idle
    · cases h
  · split at h
    · rename_i idle
      cases h
      exact .sends .cont idle
    · cases h
  · split at h
    · rename_i idle
      cases h
      exact .sends .step idle
    · cases h
  · split at h
    · cases h
      exact .goes rfl
    · cases h
      exact .goes rfl
    · cases h
  · split at h
    · cases h
    · cases h
      exact .goes rfl
  · split at h
    · rename_i info place report
      cases h
      exact .takes _ (waiting place (.inl rfl)) report (.inl rfl)
    · rename_i info place report
      cases h
      exact .takes _ (waiting place (.inr rfl)) report (.inr rfl)
    · cases h
  · split at h
    · rename_i place
      cases h
      exact .waits true .interrupted rfl (waiting place (.inl rfl)) rfl
    · cases h
  · split at h
    · rename_i place
      cases h
      exact .waits s.stopRequested .running rfl (waiting place (.inr rfl)) rfl
    · cases h

theorem effect_exec (h : s.exec event = some t) : s.Effect event t := by
  unfold exec at h
  split at h
  · split at h
    · rename_i vcpu here
      exact effect_execVcpu here h
    · cases h
  · exact effect_execGdb h

theorem balanced_setVcpu {new : VcpuThread ρ} (here : s.vcpus[i]? = some vcpu)
    (vcpus : t.vcpus = s.vcpus.set i new) (gdb : t.gdb = s.gdb)
    (slots : t.resumeCmd.count + t.stopped.count + t.lost + (new.isBusy.toNat + vcpu.isLive.toNat) =
      s.resumeCmd.count + s.stopped.count + s.lost + (vcpu.isBusy.toNat + new.isLive.toNat)) :
    s.Balanced t := by
  have busy := count_set VcpuThread.isBusy new here
  have live := count_set VcpuThread.isLive new here
  have same : t.awaiting = s.awaiting := by
    unfold awaiting
    rw [gdb]
  unfold Balanced pending Debug.busy Debug.live
  rw [vcpus, same]
  omega

theorem awaiting_idle (idle : s.gdb = .idle) : s.awaiting = 0 := by
  unfold awaiting
  rw [idle]

theorem effect_balanced (effect : s.Effect event t) (session : t.gdb ≠ .gone) : s.Balanced t := by
  cases effect with
  | moves new stopRequested here busy still =>
    refine balanced_setVcpu here rfl rfl ?_
    rw [busy, still, isLive_of_isBusy busy, isLive_of_isBusy still]
    rfl
  | @notifies i vcpu reason here place =>
    refine balanced_setVcpu here rfl rfl ?_
    have busy : vcpu.isBusy = true := by simp [VcpuThread.isBusy, place]
    rw [busy, isLive_of_isBusy busy]
    simp [lost, notifyStopped, setVcpu, VcpuThread.isBusy, VcpuThread.isLive]
    omega
  | @resumes i vcpu reason cmd here place given =>
    refine balanced_setVcpu here rfl rfl ?_
    rw [(isBusy_resumed reason cmd).1]
    have one := Slot.count_of_item given
    simp [lost, setVcpu, VcpuThread.isBusy, VcpuThread.isLive, place, one]
    omega
  | spawns regs here place =>
    unfold Balanced pending busy live lost awaiting
    simp [VcpuThread.new, VcpuThread.isBusy, VcpuThread.isLive]
    omega
  | leaves here busy =>
    refine balanced_setVcpu here rfl rfl ?_
    rw [busy, isLive_of_isBusy busy]
    simp [lost, setVcpu, VcpuThread.isBusy, VcpuThread.isLive]
  | commands idle => exact rfl
  | writes regs idle => exact rfl
  | sends cmd idle =>
    unfold Balanced
    rw [awaiting_idle idle]
    simp [pending, busy, live, lost, awaiting, sendResume]
    omega
  | takes told before report named =>
    have one := Slot.count_of_item report
    unfold Balanced
    rw [before]
    simp [pending, busy, live, lost, awaiting, takeStop, one]
    omega
  | waits stopRequested gdb same before after =>
    unfold Balanced
    rw [before, after, same]
    rfl
  | goes gone => exact absurd gone session

/-- Something is lost only where more is under way than the debugger waits for. -/
theorem effect_lost (effect : s.Effect event t) (session : t.gdb ≠ .gone)
    (none_over : s.pending ≤ s.awaiting) : t.lost = s.lost := by
  cases effect with
  | @notifies i vcpu reason here place =>
    have busy : vcpu.isBusy = true := by simp [VcpuThread.isBusy, place]
    have some_ : 0 < s.busy := List.countP_pos_iff.mpr ⟨vcpu, List.mem_of_getElem? here, busy⟩
    have one : s.awaiting ≤ 1 := by
      unfold awaiting
      split <;> decide
    have none_seen : s.stopped.count = 0 := by
      unfold pending at none_over
      omega
    simp [lost, notifyStopped, setVcpu, none_seen]
  | sends cmd idle =>
    rw [awaiting_idle idle] at none_over
    have none_given : s.resumeCmd.count = 0 := by
      unfold pending at none_over
      omega
    simp [lost, sendResume, none_given]
  | waits stopRequested gdb same before after =>
    rw [same]
    rfl
  | goes gone => exact absurd gone session
  | _ => rfl

theorem effect_live (effect : s.Effect event t) (session : t.gdb ≠ .gone)
    (none_new : ∀ i regs, event ≠ .vcpu i (.spawn regs)) : t.live ≤ s.live := by
  have set_le {i : Nat} {vcpu new : VcpuThread ρ} (here : s.vcpus[i]? = some vcpu)
      (before : vcpu.isLive) : (s.vcpus.set i new).countP VcpuThread.isLive ≤ s.live := by
    have both := count_set VcpuThread.isLive new here
    rw [before] at both
    have := Bool.toNat_le new.isLive
    simp only [Bool.toNat_true] at both
    unfold live
    omega
  cases effect with
  | moves new stopRequested here busy still => exact set_le here (isLive_of_isBusy busy)
  | notifies here place => exact set_le here (by simp [VcpuThread.isLive, place])
  | resumes here place given => exact set_le here (by simp [VcpuThread.isLive, place])
  | @spawns i vcpu regs here place => exact absurd rfl (none_new i regs)
  | leaves here busy => exact set_le here (isLive_of_isBusy busy)
  | waits stopRequested gdb same before after =>
    rw [same]
    exact Nat.le_refl _
  | goes gone => exact absurd gone session
  | _ => exact Nat.le_refl _

theorem effect_gone (effect : s.Effect event t) (gone : s.gdb = .gone) : t.gdb = .gone := by
  have none_awaited : s.awaiting ≠ 1 := by
    unfold awaiting
    rw [gone]
    decide
  cases effect with
  | sends cmd idle => cases gone.symm.trans idle
  | takes told before report named => exact absurd before none_awaited
  | waits stopRequested gdb same before after => exact absurd before none_awaited
  | goes gone => exact gone
  | _ => exact gone

end Effects

section Runs

variable {s} {t u : Debug ρ} {events : List (Event ρ)}

/-- Where the debugger can be at the end, it was at the start. -/
theorem session_of_run (run : Run step s events t) (session : t.gdb ≠ .gone) : s.gdb ≠ .gone := by
  induction run with
  | nil state => exact session
  | cons first rest ih => exact fun gone => ih session (effect_gone (effect_exec first) gone)

theorem balanced_of_run (run : Run step s events t) (session : t.gdb ≠ .gone) : s.Balanced t := by
  induction run with
  | nil state => exact rfl
  | cons first rest ih =>
    have one := effect_balanced (effect_exec first) (session_of_run rest session)
    have more := ih session
    unfold Balanced at one more ⊢
    omega

end Runs

section Reports

variable {s} {t u : Debug ρ} {i : Nat} {vcpu : VcpuThread ρ} {event : Event ρ}

/-- The thread that has reported this waits with these registers, goes on, or has ended. -/
def Reported (s : Debug ρ) (info : GdbStopInfo ρ) : Prop :=
  ∃ vcpu, s.vcpus[info.vcpu]? = some vcpu ∧ (vcpu.isBusy ∨ vcpu.place = .ended ∨
    vcpu.place = .paused info.reason ∧ vcpu.regs = info.regs)

/-- What the client was told of the last stop, as long as no other was reported. -/
structure Cached (s : Debug ρ) (i : Nat) (reason : GdbVcpuStopReason) : Prop where
  reported : s.Reported ⟨i, reason, s.cachedRegs⟩
  named : s.told = some reason.toStopReason ∨ s.told = some (.signal .sigint)

structure Inv (s : Debug ρ) : Prop where
  unseen : ∀ info ∈ s.stopped.item, s.Reported info
  cached : ∀ i ∈ s.reporter, s.stopped.item.isSome ∨ ∃ reason, s.Cached i reason

theorem inv_initial (defaultRegs regs : ρ) : (initial defaultRegs regs).Inv where
  unseen := by simp [initial, Slot.empty]
  cached := by simp [initial]

theorem Reported.set {info : GdbStopInfo ρ} {new : VcpuThread ρ} (h : s.Reported info)
    (vcpus : t.vcpus = s.vcpus.set i new) (goes : new.isBusy ∨ new.place = .ended) :
    t.Reported info := by
  obtain ⟨vcpu, here, state⟩ := h
  unfold Reported
  rw [vcpus, List.getElem?_set]
  split
  · rename_i same
    have inside : i < s.vcpus.length := by
      rw [same]
      exact (List.getElem?_eq_some_iff.mp here).1
    rw [if_pos inside]
    exact ⟨new, rfl, goes.imp_right .inl⟩
  · exact ⟨vcpu, here, state⟩

theorem Reported.append {info : GdbStopInfo ρ} {more : List (VcpuThread ρ)} (h : s.Reported info)
    (vcpus : t.vcpus = s.vcpus ++ more) : t.Reported info := by
  obtain ⟨vcpu, here, state⟩ := h
  refine ⟨vcpu, ?_, state⟩
  rw [vcpus, List.getElem?_append_left (List.getElem?_eq_some_iff.mp here).1]
  exact here

theorem Reported.of_eq {info : GdbStopInfo ρ} (h : s.Reported info) (vcpus : t.vcpus = s.vcpus) :
    t.Reported info := by
  unfold Reported
  rw [vcpus]
  exact h

theorem Inv.keep (inv : s.Inv) (keeps : ∀ info, s.Reported info → t.Reported info)
    (stopped : t.stopped.item = s.stopped.item) (reporter : t.reporter = s.reporter)
    (cachedRegs : t.cachedRegs = s.cachedRegs) (told : t.told = s.told) : t.Inv where
  unseen := by
    rw [stopped]
    exact fun info member => keeps info (inv.unseen info member)
  cached := by
    rw [stopped, reporter]
    refine fun i member => (inv.cached i member).imp_right ?_
    rintro ⟨reason, cached⟩
    refine ⟨reason, ?_, ?_⟩
    · rw [cachedRegs]
      exact keeps _ cached.reported
    · rw [told]
      exact cached.named

theorem effect_inv (effect : s.Effect event t) (session : t.gdb ≠ .gone) (inv : s.Inv) : t.Inv := by
  cases effect with
  | moves new stopRequested here busy still =>
    exact inv.keep (fun info h => h.set rfl (.inl still)) rfl rfl rfl rfl
  | @notifies i vcpu reason here place =>
    refine ⟨?_, fun _ _ => .inl rfl⟩
    rintro info ⟨⟩
    have inside := (List.getElem?_eq_some_iff.mp here).1
    refine ⟨{ vcpu with place := .paused reason }, ?_, .inr (.inr ⟨rfl, rfl⟩)⟩
    exact (List.getElem?_set_self inside)
  | resumes here place given =>
    exact inv.keep (fun info h => h.set rfl (isBusy_resumed _ _).2) rfl rfl rfl rfl
  | spawns regs here place => exact inv.keep (fun info h => h.append rfl) rfl rfl rfl rfl
  | leaves here busy => exact inv.keep (fun info h => h.set rfl (.inr rfl)) rfl rfl rfl rfl
  | commands idle => exact inv
  | writes regs idle =>
    refine ⟨fun info member => (inv.unseen info member).of_eq rfl, ?_⟩
    rintro i ⟨⟩
  | sends cmd idle => exact inv.keep (fun info h => h.of_eq rfl) rfl rfl rfl rfl
  | @takes info told before report named =>
    refine ⟨?_, ?_⟩
    · rintro other ⟨⟩
    · rintro i ⟨⟩
      refine .inr ⟨info.reason, (inv.unseen info report).of_eq rfl, ?_⟩
      exact named.imp (congrArg some) (congrArg some)
  | waits stopRequested gdb same before after =>
    rw [same]
    exact inv.keep (fun info h => h.of_eq rfl) rfl rfl rfl rfl
  | goes gone => exact absurd gone session

theorem inv_of_run {events : List (Event ρ)} (run : Run step s events t) (session : t.gdb ≠ .gone)
    (inv : s.Inv) : t.Inv := by
  induction run with
  | nil state => exact inv
  | cons first rest ih =>
    exact ih session (effect_inv (effect_exec first) (session_of_run rest session) inv)

/-- What the debugger shows of the last stop holds of a thread that waits, or that has ended. -/
def Fresh (s : Debug ρ) : Prop :=
  ∀ i ∈ s.reporter, ∃ vcpu, s.vcpus[i]? = some vcpu ∧ (vcpu.place = .ended ∨
    ∃ reason, vcpu.place = .paused reason ∧ vcpu.regs = s.cachedRegs ∧
      (s.told = some reason.toStopReason ∨ s.told = some (.signal .sigint)))

theorem Inv.fresh (inv : s.Inv) (inStep : s.InStep) : s.Fresh := by
  intro i member
  rcases inv.cached i member with unseen | ⟨reason, ⟨vcpu, here, state⟩, named⟩
  · rw [inStep.seen] at unseen
    cases unseen
  · refine ⟨vcpu, here, ?_⟩
    rcases state with busy | ended | ⟨place, regs⟩
    · have still := inStep.paused vcpu (List.mem_of_getElem? here)
      rw [still] at busy
      cases busy
    · exact .inl ended
    · exact .inr ⟨reason, place, regs, named⟩

end Reports

section Sessions

variable {t : Debug ρ} {events : List (Event ρ)}

def firstEvents : List (Event Nat) :=
  [.vcpu 0 .notify, .gdb .resume, .vcpu 0 .takeResume, .vcpu 0 .turn, .gdb .takeStop]

/-- Nothing but the debugger's own turns is left, and it does not come back to its client. -/
theorem effect_hung {s : Debug ρ} {event : Event ρ} (effect : s.Effect event t)
    (session : t.gdb ≠ .gone) (awaiting : s.awaiting = 1) (hung : s.pending = 0) :
    t.awaiting = 1 ∧ t.pending = 0 := by
  have still := inStep_iff.mpr hung
  have none_busy {i : Nat} {vcpu : VcpuThread ρ} (here : s.vcpus[i]? = some vcpu) :
      ¬ vcpu.isBusy = true := by
    rw [still.paused vcpu (List.mem_of_getElem? here)]
    decide
  have none_idle (idle : s.gdb = .idle) : False := by
    rw [awaiting_idle idle] at awaiting
    cases awaiting
  cases effect with
  | moves new stopRequested here busy goes_on => exact absurd busy (none_busy here)
  | notifies here place => exact absurd (by simp [VcpuThread.isBusy, place]) (none_busy here)
  | resumes here place given => cases given.symm.trans still.noCommand
  | spawns regs here place => exact absurd (by simp [VcpuThread.isBusy, place]) (none_busy here)
  | leaves here busy => exact absurd busy (none_busy here)
  | commands idle => exact (none_idle idle).elim
  | writes regs idle => exact (none_idle idle).elim
  | sends cmd idle => exact (none_idle idle).elim
  | takes told before report named => cases report.symm.trans still.seen
  | waits stopRequested gdb same before after =>
    refine ⟨after, ?_⟩
    rw [same]
    exact hung
  | goes gone => exact absurd gone session

theorem hung_of_run {s : Debug ρ} (run : Run step s events t) (session : t.gdb ≠ .gone)
    (awaiting : s.awaiting = 1) (hung : s.pending = 0) : t.awaiting = 1 ∧ t.pending = 0 := by
  induction run with
  | nil state => exact ⟨awaiting, hung⟩
  | cons first rest ih =>
    obtain ⟨still, none_⟩ :=
      effect_hung (effect_exec first) (session_of_run rest session) awaiting hung
    exact ih session still none_

/-- As much is lost as before, and under way is what the debugger waits for. -/
theorem exact_of_run {s : Debug ρ} (lost threads : Nat) (run : Run step s events t)
    (none_new : ∀ i regs, Event.vcpu i (.spawn regs) ∉ events) (session : t.gdb ≠ .gone)
    (start : s.lost = lost ∧ s.pending + threads = s.awaiting + s.live ∧ s.live ≤ threads) :
    t.lost = lost ∧ t.pending + threads = t.awaiting + t.live ∧ t.live ≤ threads := by
  induction run with
  | nil state => exact start
  | @cons s u t event events first rest ih =>
    obtain ⟨same, exact_, le⟩ := start
    have here := session_of_run rest session
    have effect := effect_exec first
    have balanced := effect_balanced effect here
    have kept := effect_lost effect here (by omega)
    have fewer := effect_live effect here (fun i regs eq =>
      none_new i regs (eq ▸ List.mem_cons_self))
    refine ih (fun i regs member => none_new i regs (List.mem_cons_of_mem _ member)) session
      ⟨kept.trans same, ?_, Nat.le_trans fewer le⟩
    unfold Balanced at balanced
    omega

/-- A breakpoint's stop was reported over the one at the entry point. -/
def breakpointSeen (regs : Nat) : Debug Nat where
  stopRequested := false
  stopped := ⟨none, 1⟩
  resumeCmd := ⟨none, 0⟩
  vcpus := [⟨.paused .swBreakpoint, false, regs⟩]
  gdb := .idle
  cachedRegs := regs
  told := some .swBreak
  reporter := some 0

def breakpointEvents (regs : Nat) : List (Event Nat) :=
  [.gdb .resume, .vcpu 0 .takeResume, .vcpu 0 .turn, .vcpu 0 (.debug true regs), .vcpu 0 .notify,
    .gdb .takeStop]

example : (.vcpu 0 .notify :: breakpointEvents 5).foldlM exec (initial 0 1) =
    some (breakpointSeen 5) := rfl

end Sessions

end Debug
end Warpine.Vcpu.Handshake
