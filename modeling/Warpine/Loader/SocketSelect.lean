import Warpine.Lib.Bits
import Warpine.Lib.Lists
import Warpine.Lib.Panics
import Warpine.Loader.Sockets

/-! `select` on sockets. A set has 64 bits, one for each handle from 0 on, and the handles
are numbered from `0xA000` on. -/
namespace Warpine.Loader
open Warpine.Lib Warpine.Guest

def sockError : Nat := u32Size - 1

namespace SocketManager

def setErrno (mgr : SocketManager) (code : Nat) : SocketManager :=
  { mgr with lastSockErrno := code }

def clearErrno (mgr : SocketManager) : SocketManager := mgr.setErrno 0

def alloc (mgr : SocketManager) (fd : Nat) : Option (Nat × SocketManager) := do
  let next ← addWord 32 mgr.nextHandle 1
  return (mgr.nextHandle, { mgr with
    nextHandle := next
    sockets := mgr.sockets.insert mgr.nextHandle fd })

def remove (mgr : SocketManager) (h : Nat) : Option Nat × SocketManager :=
  (mgr.lookup h, { mgr with sockets := mgr.sockets.erase h })

end SocketManager

/-- What the host answers: a value, or the error code for the guest. -/
abbrev HostResult := Except Nat Nat

def soSocket (mgr : SocketManager) (host : HostResult) : Option (Nat × SocketManager) :=
  match host with
  | .error e => some (sockError, mgr.setErrno e)
  | .ok fd => mgr.clearErrno.alloc fd

def soAccept (mgr : SocketManager) (s : Nat) (host : HostResult) :
    Option (Nat × SocketManager) :=
  match mgr.lookup s with
  | none => some (sockError, mgr.setErrno soceBadf)
  | some _ => soSocket mgr host

def soClose (mgr : SocketManager) (s : Nat) (host : HostResult) : Nat × SocketManager :=
  match mgr.remove s with
  | (none, mgr) => (sockError, mgr.setErrno soceBadf)
  | (some _, mgr) =>
    match host with
    | .error e => (sockError, mgr.setErrno e)
    | .ok _ => (0, mgr.clearErrno)

inductive SocketEvent where
  | socket (host : HostResult)
  | accept (s : Nat) (host : HostResult)
  | soclose (s : Nat) (host : HostResult)

/-- A history ends where the counter overflows. -/
def socketStep (mgr : SocketManager) : SocketEvent → Option SocketManager
  | .socket host => (soSocket mgr host).map Prod.snd
  | .accept s host => (soAccept mgr s host).map Prod.snd
  | .soclose s host => some (soClose mgr s host).2

/-- The managers that a history of calls leads to. -/
def SocketHistory (events : List SocketEvent) (mgr : SocketManager) : Prop :=
  events.foldlM socketStep .new = some mgr

inductive FdKind where
  | read
  | write
  | except
  deriving DecidableEq

structure SelectArgs where
  ptr : FdKind → UInt32
  timeoutPtr : UInt32

/-- A host that answers by POSIX: of the descriptors below the bound that are asked for, it
tells the ready ones. -/
structure SelectHost where
  result : HostResult
  ready : FdKind → Nat → Bool

/-- `FD_SETSIZE`. -/
def fdSetSize : Nat := 1024

/-- `FD_SET` panics beyond the array. -/
def fdSet (fds : List Nat) (fd : Nat) : Option (List Nat) :=
  if fd < fdSetSize then some (fd :: fds) else none

def fdIsset (fds : List Nat) (fd : Nat) : Option Bool :=
  if fd < fdSetSize then some (decide (fd ∈ fds)) else none

/-- The two words of a set. -/
abbrev Os2FdSet := Nat × Nat

def readOs2Fdset (mem : GuestMemory) (ptr : UInt32) : Option Os2FdSet :=
  if ptr = 0 then some (0, 0)
  else do
    let second ← addWord 32 ptr.toNat 4
    return ((mem.read 4 ptr.toNat).getD 0, (mem.read 4 second).getD 0)

def wordOf (set : Os2FdSet) (h : Nat) : Nat := if h / 32 = 0 then set.1 else set.2

/-- The descriptors of a set, and the largest one so far. -/
def translate (os2Fds : Os2FdSet) (map : Dict Nat Nat) (max_ : Int) :
    Option (List Nat × Int) :=
  map.foldlM (fun (fds, max_) (handle, fd) =>
    if handle < 64 ∧ (wordOf os2Fds handle).testBit (handle % 32) then do
      let fds ← fdSet fds fd
      return (fds, if (fd : Int) > max_ then (fd : Int) else max_)
    else some (fds, max_)) ([], max_)

def translateGiven (mem : GuestMemory) (ptr : UInt32) (map : Dict Nat Nat) (max_ : Int) :
    Option (List Nat × Int) := do
  let set ← readOs2Fdset mem ptr
  if ptr = 0 then return ([], max_) else translate set map max_

/-- The bits of the descriptors that the host left in a set. -/
def translateBack (fds : List Nat) (map : Dict Nat Nat) : Option Os2FdSet :=
  map.foldlM (fun (bits : Os2FdSet) (handle, fd) =>
    if handle < 64 then do
      let isset ← fdIsset fds fd
      return if isset then
          if handle / 32 = 0 then (bits.1 ||| 2 ^ (handle % 32), bits.2)
          else (bits.1, bits.2 ||| 2 ^ (handle % 32))
        else bits
    else some bits) (0, 0)

def writeBack (mem : GuestMemory) (ptr : UInt32) (fds : List Nat) (map : Dict Nat Nat) :
    Option GuestMemory :=
  if ptr = 0 then some mem
  else do
    let bits ← translateBack fds map
    let second ← addWord 32 ptr.toNat 4
    return (mem.put 4 ptr.toNat bits.1).put 4 second bits.2

/-- What was asked of the host, and how the call ended. -/
structure SelectOutcome where
  asked : FdKind → List Nat
  nfds : Int
  result : Nat
  mem : GuestMemory
  mgr : SocketManager

def SelectHost.answer (host : SelectHost) (kind : FdKind) (nfds : Int) (fds : List Nat) :
    List Nat :=
  fds.filter fun fd => decide ((fd : Int) < nfds) && host.ready kind fd

/-- The second word of the timeout needs an address. -/
def timeoutWord (ptr : UInt32) : Option Nat :=
  if ptr = 0 then some 0 else addWord 32 ptr.toNat 4

def soSelect (mgr : SocketManager) (mem : GuestMemory) (args : SelectArgs) (host : SelectHost) :
    Option SelectOutcome := do
  let (rfds, max_) ← translateGiven mem (args.ptr .read) mgr.sockets (-1)
  let (wfds, max_) ← translateGiven mem (args.ptr .write) mgr.sockets max_
  let (efds, max_) ← translateGiven mem (args.ptr .except) mgr.sockets max_
  let _ ← timeoutWord args.timeoutPtr
  let asked : FdKind → List Nat := fun
    | .read => rfds
    | .write => wfds
    | .except => efds
  match host.result with
  | .error e => return ⟨asked, max_ + 1, sockError, mem, mgr.setErrno e⟩
  | .ok rc =>
    let mem ← writeBack mem (args.ptr .read) (host.answer .read (max_ + 1) rfds) mgr.sockets
    let mem ← writeBack mem (args.ptr .write) (host.answer .write (max_ + 1) wfds) mgr.sockets
    let mem ← writeBack mem (args.ptr .except) (host.answer .except (max_ + 1) efds) mgr.sockets
    return ⟨asked, max_ + 1, rc, mem, mgr.clearErrno⟩

/-- The bit of a handle in the set at a pointer. -/
def fdBit (mem : GuestMemory) (ptr : UInt32) (h : Nat) : Bool :=
  ((mem.read 4 (ptr.toNat + 4 * (h / 32))).getD 0).testBit (h % 32)

/-- The host is asked about the live handles whose bits are set, and a bit is set on return
where it was before and the host reports the descriptor. -/
def SelectLaw (mgr : SocketManager) (mem : GuestMemory) (args : SelectArgs)
    (host : SelectHost) : Prop :=
  ∃ outcome, soSelect mgr mem args host = some outcome ∧
    (∀ kind, args.ptr kind ≠ 0 → ∀ fd, fd ∈ outcome.asked kind ↔
      ∃ h, mgr.lookup h = some fd ∧ fdBit mem (args.ptr kind) h = true) ∧
    ((∃ rc, host.result = .ok rc) → ∀ kind, args.ptr kind ≠ 0 → ∀ h fd, mgr.lookup h = some fd →
      (fdBit outcome.mem (args.ptr kind) h = true ↔
        fdBit mem (args.ptr kind) h = true ∧ host.ready kind fd = true))

/-- Both words of a structure have addresses. -/
def PtrFits (ptr : UInt32) : Prop := ptr = 0 ∨ ptr.toNat + 4 < 2 ^ 32

instance (ptr : UInt32) : Decidable (PtrFits ptr) := inferInstanceAs (Decidable (_ ∨ _))

namespace SelectArgs

def Addressable (args : SelectArgs) : Prop :=
  (∀ kind, PtrFits (args.ptr kind)) ∧ PtrFits args.timeoutPtr

/-- No live handle has its bit set. -/
def NoneSet (args : SelectArgs) (mgr : SocketManager) (mem : GuestMemory) : Prop :=
  ∀ kind, args.ptr kind ≠ 0 → ∀ h fd, mgr.lookup h = some fd →
    fdBit mem (args.ptr kind) h = false

end SelectArgs

/-- The invariant of the counter: no live handle has a bit in a set. -/
structure Issued (mgr : SocketManager) : Prop where
  counter : 64 ≤ mgr.nextHandle
  handles : ∀ entry ∈ mgr.sockets, 64 ≤ entry.1

theorem issued_alloc {mgr next : SocketManager} {fd h : Nat} (issued : Issued mgr)
    (done : mgr.alloc fd = some (h, next)) : Issued next := by
  unfold SocketManager.alloc addWord at done
  split at done
  · cases done
    refine ⟨Nat.le_succ_of_le issued.counter, ?_⟩
    intro entry member
    rcases List.mem_append.mp member with old | new
    · exact issued.handles entry (Dict.mem_erase old)
    · rw [List.mem_singleton.mp new]
      exact issued.counter
  · contradiction

theorem issued_soSocket {mgr next : SocketManager} {host : HostResult} (issued : Issued mgr)
    (done : (soSocket mgr host).map Prod.snd = some next) : Issued next := by
  unfold soSocket at done
  split at done
  · cases done
    exact ⟨issued.counter, issued.handles⟩
  · obtain ⟨⟨h, after⟩, allocated, rfl⟩ := Option.map_eq_some_iff.mp done
    have cleared : Issued mgr.clearErrno := ⟨issued.counter, issued.handles⟩
    exact issued_alloc cleared allocated

theorem issued_step {mgr next : SocketManager} {event : SocketEvent} (issued : Issued mgr)
    (step : socketStep mgr event = some next) : Issued next := by
  cases event with
  | socket host => exact issued_soSocket issued step
  | accept s host =>
    simp only [socketStep, soAccept] at step
    split at step
    · cases step
      exact ⟨issued.counter, issued.handles⟩
    · exact issued_soSocket issued step
  | soclose s host =>
    cases step
    have gone : ∀ entry ∈ mgr.sockets.erase s, 64 ≤ entry.1 :=
      fun entry member => issued.handles entry (Dict.mem_erase member)
    unfold soClose SocketManager.remove
    cases mgr.lookup s with
    | none => exact ⟨issued.counter, gone⟩
    | some fd => cases host <;> exact ⟨issued.counter, gone⟩

theorem issued_history {events : List SocketEvent} {mgr : SocketManager}
    (history : SocketHistory events mgr) : Issued mgr := by
  apply foldlM_preserves _ history
  · exact ⟨by decide, by simp [SocketManager.new]⟩
  · exact fun event _ mgr next issued step => issued_step issued step

section Select

variable {mgr : SocketManager} {mem : GuestMemory} {args : SelectArgs} {host : SelectHost}

theorem translate_none (issued : Issued mgr) (set : Os2FdSet) (max_ : Int) :
    translate set mgr.sockets max_ = some ([], max_) := by
  apply foldlM_idle
  intro entry member state
  have high := issued.handles entry member
  exact if_neg fun low => absurd low.1 (by omega)

theorem translateBack_none (issued : Issued mgr) (fds : List Nat) :
    translateBack fds mgr.sockets = some (0, 0) := by
  apply foldlM_idle
  intro entry member state
  have high := issued.handles entry member
  exact if_neg (by omega)

theorem translateGiven_fits (issued : Issued mgr) {ptr : UInt32} (fits : PtrFits ptr)
    (max_ : Int) : translateGiven mem ptr mgr.sockets max_ = some ([], max_) := by
  unfold translateGiven readOs2Fdset
  by_cases null : ptr = 0
  · simp only [null, if_true, Option.bind_eq_bind, Option.bind_some, Option.pure_def]
  · simp only [null, if_false, addWord, if_pos (fits.resolve_left null), Option.bind_eq_bind,
      Option.bind_some, Option.pure_def]
    exact translate_none issued _ max_

theorem fits_of_translateGiven {ptr : UInt32} {max_ : Int} {found : List Nat × Int}
    (h : translateGiven mem ptr mgr.sockets max_ = some found) : PtrFits ptr := by
  by_contra wraps
  unfold PtrFits at wraps
  rw [not_or] at wraps
  simp only [translateGiven, readOs2Fdset, addWord, if_neg wraps.1, if_neg wraps.2] at h
  cases h

/-- A set that is written back is all zeros. -/
def cleared (mem : GuestMemory) (ptr : UInt32) : GuestMemory :=
  if ptr = 0 then mem else (mem.put 4 ptr.toNat 0).put 4 (ptr.toNat + 4) 0

theorem writeBack_eq (issued : Issued mgr) {ptr : UInt32} (fits : PtrFits ptr)
    (fds : List Nat) : writeBack mem ptr fds mgr.sockets = some (cleared mem ptr) := by
  unfold writeBack cleared
  split
  · rfl
  · rename_i some_
    have word : addWord 32 ptr.toNat 4 = some (ptr.toNat + 4) :=
      if_pos (fits.resolve_left some_)
    rw [translateBack_none issued, word]
    rfl

theorem fdBit_put_zero {addr : Nat} {ptr : UInt32} {h : Nat}
    (set : fdBit (mem.put 4 addr 0) ptr h = true) : fdBit mem ptr h = true := by
  have zeros : leBytes 4 0 = List.replicate 4 0 := rfl
  unfold GuestMemory.put at set
  rw [zeros] at set
  cases bounds : mem.inBounds addr (List.replicate 4 (0 : UInt8)).length with
  | false => rwa [mem.putBytes_of_not_inBounds bounds] at set
  | true =>
    rw [mem.putBytes_of_inBounds bounds] at set
    unfold fdBit GuestMemory.read GuestMemory.slice GuestMemory.inBounds at set ⊢
    dsimp only at set
    split at set
    · rename_i inside
      rw [if_pos inside]
      exact leValue_testBit_mono (mem.bytes.load_store_zeros addr 4 _ 4) _ set
    · rename_i outside
      rwa [if_neg outside]

theorem fdBit_cleared {at_ ptr : UInt32} {h : Nat} (set : fdBit (cleared mem at_) ptr h = true) :
    fdBit mem ptr h = true := by
  unfold cleared at set
  split at set
  · exact set
  · exact fdBit_put_zero (fdBit_put_zero set)

/-- The outcome of every call that returns. -/
def emptyOutcome (mgr : SocketManager) (mem : GuestMemory) (args : SelectArgs)
    (host : SelectHost) : SelectOutcome :=
  match host.result with
  | .error e => ⟨fun _ => [], 0, sockError, mem, mgr.setErrno e⟩
  | .ok rc => ⟨fun _ => [], 0, rc,
      cleared (cleared (cleared mem (args.ptr .read)) (args.ptr .write)) (args.ptr .except),
      mgr.clearErrno⟩

/-- Nothing is asked, and every set given is cleared. -/
theorem soSelect_addressable (issued : Issued mgr) (fits : args.Addressable) :
    soSelect mgr mem args host = some (emptyOutcome mgr mem args host) := by
  obtain ⟨sets, timeout⟩ := fits
  have waits : ∃ word, timeoutWord args.timeoutPtr = some word := by
    unfold timeoutWord
    split
    · exact ⟨0, rfl⟩
    · exact ⟨_, if_pos (timeout.resolve_left ‹_›)⟩
  obtain ⟨word, waits⟩ := waits
  have asked : (fun (kind : FdKind) => match kind with
      | .read => ([] : List Nat)
      | .write => []
      | .except => []) = fun _ => [] := by
    funext kind
    cases kind <;> rfl
  unfold soSelect emptyOutcome
  simp only [translateGiven_fits issued (sets _), waits, Option.bind_eq_bind, Option.bind_some]
  cases host.result with
  | error e =>
    dsimp only
    rw [asked]
    rfl
  | ok rc =>
    simp only [writeBack_eq issued (sets _), Option.bind_some]
    rw [asked]
    rfl

theorem addressable_of_soSelect {outcome : SelectOutcome}
    (h : soSelect mgr mem args host = some outcome) : args.Addressable := by
  unfold soSelect at h
  simp only [Option.bind_eq_bind] at h
  obtain ⟨_, read, h⟩ := Option.bind_eq_some_iff.mp h
  obtain ⟨_, write, h⟩ := Option.bind_eq_some_iff.mp h
  obtain ⟨_, except, h⟩ := Option.bind_eq_some_iff.mp h
  obtain ⟨_, timeout, _⟩ := Option.bind_eq_some_iff.mp h
  constructor
  · intro kind
    cases kind with
    | read => exact fits_of_translateGiven read
    | write => exact fits_of_translateGiven write
    | except => exact fits_of_translateGiven except
  · unfold PtrFits
    unfold timeoutWord at timeout
    split at timeout
    · exact .inl ‹_›
    · unfold addWord at timeout
      split at timeout
      · exact .inr ‹_›
      · cases timeout

theorem emptyOutcome_asked (kind : FdKind) :
    (emptyOutcome mgr mem args host).asked kind = [] := by
  unfold emptyOutcome
  split <;> rfl

theorem emptyOutcome_bit {ptr : UInt32} {h : Nat}
    (set : fdBit (emptyOutcome mgr mem args host).mem ptr h = true) : fdBit mem ptr h = true := by
  unfold emptyOutcome at set
  split at set
  · exact set
  · exact fdBit_cleared (fdBit_cleared (fdBit_cleared set))

end Select

/-- After any history, a call asks the host the right question exactly when there is none. -/
theorem select_law_iff {events : List SocketEvent} {mgr : SocketManager}
    (history : SocketHistory events mgr) (mem : GuestMemory) (args : SelectArgs)
    (host : SelectHost) :
    SelectLaw mgr mem args host ↔ args.Addressable ∧ args.NoneSet mgr mem := by
  have issued := issued_history history
  constructor
  · intro ⟨outcome, done, asked, _⟩
    have fits := addressable_of_soSelect done
    apply And.intro fits
    intro kind given h fd live
    rw [soSelect_addressable issued fits] at done
    cases done
    have question := asked kind given fd
    rw [emptyOutcome_asked] at question
    by_contra set
    exact absurd (question.mpr ⟨h, live, by simpa using set⟩) List.not_mem_nil
  · intro ⟨fits, noneSet⟩
    refine ⟨_, soSelect_addressable issued fits, ?_, ?_⟩
    · intro kind given fd
      rw [emptyOutcome_asked]
      constructor
      · exact fun absent => absurd absent List.not_mem_nil
      · intro ⟨h, live, set⟩
        exact absurd ((noneSet kind given h fd live).symm.trans set) Bool.false_ne_true
    · intro _ kind given h fd live
      have unset := noneSet kind given h fd live
      constructor
      · intro set
        exact absurd (unset.symm.trans (emptyOutcome_bit set)) Bool.false_ne_true
      · intro ⟨set, _⟩
        exact absurd (unset.symm.trans set) Bool.false_ne_true

/-- The set of a read call at the start of guest memory. -/
def readSet (ptr : UInt32) : SelectArgs where
  ptr := fun
    | .read => ptr
    | .write => 0
    | .except => 0
  timeoutPtr := 0

/-- The first socket, in no set. -/
theorem first_socket_not_set : ∃ mgr, SocketHistory [.socket (.ok 3)] mgr ∧
    SelectLaw mgr ⟨8192, fun _ => 0⟩ (readSet 16) ⟨.ok 0, fun _ _ => true⟩ := by
  refine ⟨_, rfl, (select_law_iff (show SocketHistory [.socket (.ok 3)] _ from rfl) _ _ _).mpr
    ⟨⟨fun kind => by cases kind <;> decide, .inl rfl⟩, ?_⟩⟩
  intro kind given h fd live
  have here := Dict.mem_of_get live
  have first : h = 0xA000 := congrArg Prod.fst (List.mem_singleton.mp here)
  cases kind with
  | read =>
    rw [first]
    decide
  | write => exact absurd rfl given
  | except => exact absurd rfl given

/-- The first socket, whose bit the guest sets and whose descriptor is ready. -/
theorem first_socket_not_asked : ∃ mgr, SocketHistory [.socket (.ok 3)] mgr ∧
    ¬ SelectLaw mgr ⟨8192, fun _ => 255⟩ (readSet 16) ⟨.ok 1, fun _ _ => true⟩ := by
  refine ⟨_, rfl, ?_⟩
  intro ⟨outcome, done, asked, _⟩
  have issued := issued_history (show SocketHistory [.socket (.ok 3)] _ from rfl)
  rw [soSelect_addressable issued ⟨fun kind => by cases kind <;> decide, .inl rfl⟩] at done
  cases done
  have question := asked .read (by decide) 3
  rw [emptyOutcome_asked] at question
  exact absurd (question.mpr ⟨0xA000, rfl, by decide⟩) List.not_mem_nil

end Warpine.Loader
