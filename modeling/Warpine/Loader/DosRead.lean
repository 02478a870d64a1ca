import Warpine.Guest.Memory
import Warpine.Loader.Constants
import Warpine.Loader.Pipes
import Warpine.Vfs.DriveManager
import Warpine.Vfs.OpenRights
import Warpine.Vio.StdinModes

/-! `DosRead` from the console, from pipes and from files. What comes from the source is
stored in the guest's memory afterwards, and nobody looks at whether it was. -/
namespace Warpine.Loader
open Warpine.Lib Warpine.Guest Warpine.Vfs Warpine.Vio

inductive StdinSource (σ : Type) where
  | text (s : SdlStdin)
  | terminal (s : TermStdin σ)

/-- What a read can take bytes from. -/
structure Devices (σ : Type) where
  stdin : StdinSource σ
  handleMgr : HandleManager PipeEnd
  pipes : Nat → List UInt8
  driveMgr : DriveManager OpenFiles

/-- What happens while a call waits and reads: the exit is asked for after so many turns of
the loop that take a key, a read of the host fails, no writer of the pipe is left, and at most
so many bytes of a file come at once. -/
structure HostTurn where
  exitAfter : Option Nat
  fails : Bool
  closed : Bool
  given : Nat

/-- An error, or the bytes, and what is left. -/
abbrev Fetched (α : Type) := Except Nat (List UInt8) × α

section Fetch

/-- The loop over the key queue, up to a key that is delivered or to the exit. -/
def fetchKeys (rs : EncodingRs) (s : SdlStdin) :
    List KbdKeyInfo → Option Nat → Option (Fetched SdlStdin)
  | [], exitAfter => exitAfter.map fun _ => (.error invalidFunction, { s with kbdQueue := [] })
  | ki :: rest, exitAfter =>
      if exitAfter = some 0 then some (.error invalidFunction, { s with kbdQueue := ki :: rest })
      else match { s with kbdQueue := rest }.typeKey rs ki with
        | (some byte, next) => some (.ok [byte], next)
        | (none, _) => fetchKeys rs s rest (exitAfter.map (· - 1))

variable {σ κ : Type} (rs : EncodingRs) (tty : Tty σ κ) (host : HostTurn)

def fetchText (s : SdlStdin) : Option (Fetched SdlStdin) :=
  if s.sys.console.stdinPendingLf then
    some (.ok [lineFeed], s.withConsole { s.sys.console with stdinPendingLf := false })
  else fetchKeys rs s s.kbdQueue host.exitAfter

def fetchTerminal (s : TermStdin σ) : Option (Fetched (TermStdin σ)) :=
  if s.console.stdinPendingLf then
    some (.ok [lineFeed], { s with console := { s.console with stdinPendingLf := false } })
  else if host.exitAfter = some 0 then some (.error invalidFunction, s)
  else if host.fails then some (.error Os2Error.accessDenied.code, s)
  else match s.input with
    | [] => host.exitAfter.map fun _ => (.error invalidFunction, s)
    | byte :: rest => some (.ok [byte], { s with input := rest }.typeByte tty byte)

def fetchStdin : StdinSource σ → Option (Fetched (StdinSource σ))
  | .text s => (fetchText rs host s).map fun fetched => (fetched.1, .text fetched.2)
  | .terminal s => (fetchTerminal tty host s).map fun fetched => (fetched.1, .terminal fetched.2)

namespace Devices

variable (devices : Devices σ)

/-- The host holds back a read of an empty pipe that still has a writer. -/
def fetchPipe (hf len : Nat) : Option (Fetched (Devices σ)) :=
  match devices.handleMgr.get hf with
  | none => some (.error 6, devices)
  | some ⟨_, .write⟩ => some (.error 5, devices)
  | some ⟨pipe, .read⟩ =>
      if host.fails then some (.error 5, devices)
      else if devices.pipes pipe = [] ∧ len ≠ 0 ∧ host.closed = false then none
      else
        let data := (devices.pipes pipe).take len
        some (.ok data, { devices with
          pipes := Function.update devices.pipes pipe ((devices.pipes pipe).drop len) })

/-- `read_file` of the drive manager. -/
def fetchFile (hf len : Nat) : Fetched (Devices σ) :=
  match devices.driveMgr.fileHandles hf with
  | none => (.error Os2Error.invalidHandle.code, devices)
  | some entry => match devices.driveMgr.drives entry.drive with
    | none => (.error Os2Error.invalidHandle.code, devices)
    | some backend =>
        let (result, backend) := backend.read entry.vfsHandle len host.given
        (result.mapError Os2Error.code,
          { devices with driveMgr := devices.driveMgr.mount entry.drive backend })

end Devices

end Fetch

/-- What a call leaves behind. -/
structure ReadReply (σ : Type) where
  rc : Nat
  count : Nat
  mem : GuestMemory
  devices : Devices σ

section Calls

variable {σ κ : Type} (rs : EncodingRs) (tty : Tty σ κ) (host : HostTurn)

/-- The bytes go to the buffer and then their number to its address. Neither write is looked
at, and after an error there is the memory that comes with it. -/
def storeFetched (mem failed : GuestMemory) (buf actual : Nat) : Fetched (Devices σ) → ReadReply σ
  | (.ok data, devices) =>
      ⟨0, data.length, (mem.putBytes buf data).putAt 4 actual data.length, devices⟩
  | (.error rc, devices) => ⟨rc, 0, failed, devices⟩

/-- A terminal that fails has a count of zero. -/
def stdinFailed (mem : GuestMemory) (actual : Nat) (stdin : StdinSource σ) : GuestMemory :=
  match stdin with
  | .text _ => mem
  | .terminal s =>
      if s.console.stdinPendingLf = false ∧ host.exitAfter ≠ some 0 ∧ host.fails = true then
        mem.putAt 4 actual 0
      else mem

def dosReadStdin (mem : GuestMemory) (devices : Devices σ) (buf len actual : Nat) :
    Option (ReadReply σ) :=
  if len = 0 then some ⟨0, 0, mem.putAt 4 actual 0, devices⟩
  else (fetchStdin rs tty host devices.stdin).map fun fetched =>
    storeFetched mem (stdinFailed host mem actual devices.stdin) buf actual
      (fetched.1, { devices with stdin := fetched.2 })

/-- A call that waits for ever has no reply. -/
def dosRead (mem : GuestMemory) (devices : Devices σ) (hf buf len actual : Nat) :
    Option (ReadReply σ) :=
  if hf = 0 then dosReadStdin rs tty host mem devices buf len actual
  else if pipeHandleBase ≤ hf then
    (devices.fetchPipe host hf (min len readCap)).map (storeFetched mem mem buf actual)
  else some (storeFetched mem mem buf actual (devices.fetchFile host hf (min len readCap)))

end Calls

section Spec

variable {σ : Type} (host : HostTurn)

/-- The keys that come before the exit. -/
def keysBefore : Option Nat → List KbdKeyInfo → List KbdKeyInfo
  | some n, keys => keys.take n
  | none, keys => keys

/-- The byte of the first key that counts. A backspace in an empty line does not. -/
def firstKey (cooked : Int) (keys : List KbdKeyInfo) : List UInt8 :=
  ((if 0 < cooked then keys else keys.dropWhile (·.ch = backspace)).take 1).map KbdKeyInfo.ch

/-- The next byte that the console has. -/
def StdinSource.offered : StdinSource σ → List UInt8
  | .text s =>
      if s.sys.console.stdinPendingLf then [lineFeed]
      else firstKey s.sys.console.stdinCookedChars (keysBefore host.exitAfter s.kbdQueue)
  | .terminal s =>
      if s.console.stdinPendingLf then [lineFeed]
      else if host.exitAfter = some 0 ∨ host.fails then []
      else s.input.take 1

/-- The console has an error and keeps what it has. -/
def StdinSource.Refuses : StdinSource σ → Prop
  | .text s => s.sys.console.stdinPendingLf = false ∧ (host.exitAfter = some 0 ∨ s.kbdQueue = [])
  | .terminal s => s.console.stdinPendingLf = false ∧
      (host.exitAfter = some 0 ∨ host.fails ∨ s.input = [])

/-- What is in front of a descriptor that can be read. -/
def bytesAt (backend : OpenFiles) (handle : VfsFileHandle) : Option (List UInt8) :=
  (backend.table.descriptors handle.id).bind fun d =>
    if d.read && !d.isDir then some ((backend.table.contents d.file).drop d.offset) else none

namespace Devices

variable (devices : Devices σ)

/-- What is in front of a file handle that can be read. -/
def readable (hf : Nat) : Option (List UInt8) :=
  (devices.driveMgr.fileHandles hf).bind fun entry =>
    (devices.driveMgr.drives entry.drive).bind fun backend => bytesAt backend entry.vfsHandle

/-- The next bytes of the source that come for a call. -/
def offered (hf len : Nat) : List UInt8 :=
  if hf = 0 then if len = 0 then [] else devices.stdin.offered host
  else if pipeHandleBase ≤ hf then
    match devices.handleMgr.get hf with
    | some ⟨pipe, .read⟩ => if host.fails then [] else (devices.pipes pipe).take (min len readCap)
    | _ => []
  else (((devices.readable hf).getD []).take (min len readCap)).take host.given

/-- The source has an error for the call and keeps what it has. -/
def Refuses (hf : Nat) : Prop :=
  if hf = 0 then devices.stdin.Refuses host
  else if pipeHandleBase ≤ hf then
    match devices.handleMgr.get hf with
    | some ⟨_, .read⟩ => host.fails
    | _ => True
  else devices.readable hf = none

end Devices

/-- Every byte of the buffer is in the guest's memory. -/
def BufferInside (mem : GuestMemory) (buf len : Nat) : Prop := ∀ i < len, buf + i < mem.size

def Holds (mem : GuestMemory) (buf : Nat) (data : List UInt8) : Prop :=
  ∀ i byte, data[i]? = some byte → buf + i < mem.size ∧ mem.bytes (buf + i) = byte

/-- The count, where it is stored, has the same bytes as the data that it is stored over. -/
def CountKeeps (mem : GuestMemory) (buf actual : Nat) (data : List UInt8) : Prop :=
  actual ≠ 0 → actual + 4 ≤ mem.size → ∀ i byte, data[i]? = some byte → actual ≤ buf + i →
    buf + i < actual + 4 → (leBytes 4 data.length)[buf + i - actual]? = some byte

/-- A call that succeeds has stored the next bytes of the source, and one whose buffer is not
wholly in memory has failed and left the source alone. -/
structure ReadsRight (mem : GuestMemory) (devices : Devices σ) (hf buf len : Nat)
    (reply : ReadReply σ) : Prop where
  stored : reply.rc = 0 → reply.count = (devices.offered host hf len).length ∧
    Holds reply.mem buf (devices.offered host hf len)
  refused : ¬ BufferInside mem buf len → reply.rc ≠ 0 ∧ reply.devices = devices

end Spec

section Stdin

variable {σ κ : Type} {rs : EncodingRs} {tty : Tty σ κ} {host : HostTurn} {s : SdlStdin}
  {exitAfter : Option Nat} {ki : KbdKeyInfo} {keys rest : List KbdKeyInfo}

theorem typeKey_delivers (rs : EncodingRs) (s : SdlStdin) (ki : KbdKeyInfo) :
    (s.typeKey rs ki).1 =
      if ki.ch = backspace ∧ ¬ 0 < s.sys.console.stdinCookedChars then none else some ki.ch := by
  unfold SdlStdin.typeKey
  by_cases enter : ki.ch = carriageReturn
  · have other : ¬ (ki.ch = backspace ∧ ¬ 0 < s.sys.console.stdinCookedChars) := by
      rw [enter]
      exact fun idle => absurd idle.1 (by decide)
    rw [if_pos enter, if_neg other, enter]
  · rw [if_neg enter]
    by_cases back : ki.ch = backspace
    · by_cases typed : 0 < s.sys.console.stdinCookedChars
      · rw [if_pos back, if_pos typed, if_neg fun idle => idle.2 typed]
      · rw [if_pos back, if_neg typed, if_pos ⟨back, typed⟩]
    · have other : ¬ (ki.ch = backspace ∧ ¬ 0 < s.sys.console.stdinCookedChars) :=
        fun idle => back idle.1
      rw [if_neg back, if_neg other]
      split <;> rfl

theorem keysBefore_cons (more : exitAfter ≠ some 0) :
    keysBefore exitAfter (ki :: rest) = ki :: keysBefore (exitAfter.map (· - 1)) rest := by
  cases exitAfter with
  | none => rfl
  | some n =>
    cases n with
    | zero => contradiction
    | succ n => rfl

/-- The bytes that the source offers come, or it has an error, and then it keeps all exactly
where it refuses the call. -/
structure Serves {α : Type} (before : α) (offered : List UInt8) (refuses : Prop)
    (fetched : Fetched α) : Prop where
  ok : ∀ data, fetched.1 = .ok data → data = offered ∧ ¬ refuses
  error : ∀ rc, fetched.1 = .error rc → rc ≠ 0 ∧ offered = [] ∧ (fetched.2 = before ↔ refuses)

variable {α : Type} {before : α} {offered : List UInt8} {refuses : Prop}

theorem Serves.of_ok {after : α} (gives : ¬ refuses) :
    Serves before offered refuses (.ok offered, after) where
  ok := by
    intro data same
    cases same
    exact ⟨rfl, gives⟩
  error := by
    intro rc same
    contradiction

theorem Serves.of_error {rc : Nat} {after : α} (failed : rc ≠ 0)
    (kept : after = before ↔ refuses) : Serves before [] refuses (.error rc, after) where
  ok := by
    intro data same
    contradiction
  error := by
    intro code same
    cases same
    exact ⟨failed, rfl, kept⟩

/-- The source as a part of what keeps it. -/
theorem Serves.lift {β : Type} (part : α → β) (inj : Function.Injective part)
    {fetched : Fetched α} (serves : Serves before offered refuses fetched) :
    Serves (part before) offered refuses (fetched.1, part fetched.2) := by
  refine ⟨serves.ok, ?_⟩
  intro rc failed
  obtain ⟨nonzero, nothing, kept⟩ := serves.error rc failed
  exact ⟨nonzero, nothing, inj.eq_iff.trans kept⟩

theorem fetchKeys_serves {fetched : Fetched SdlStdin}
    (returned : fetchKeys rs s keys exitAfter = some fetched) :
    Serves { s with kbdQueue := keys }
      (firstKey s.sys.console.stdinCookedChars (keysBefore exitAfter keys))
      (exitAfter = some 0 ∨ keys = []) fetched ∧
        ∀ rc, fetched.1 = .error rc → fetched.2.kbdQueue.length ≤ keys.length := by
  induction keys generalizing exitAfter with
  | nil =>
    obtain ⟨n, rfl, rfl⟩ := Option.map_eq_some_iff.mp returned
    have none_ : firstKey s.sys.console.stdinCookedChars (keysBefore (some n) []) = [] := by
      rw [keysBefore, List.take_nil, firstKey]
      split <;> rfl
    rw [none_]
    exact ⟨.of_error (by decide) (iff_of_true rfl (.inr rfl)), fun _ _ => Nat.le_refl _⟩
  | cons ki rest ih =>
    rw [fetchKeys] at returned
    by_cases exit : exitAfter = some 0
    · rw [if_pos exit] at returned
      cases returned
      have none_ : firstKey s.sys.console.stdinCookedChars (keysBefore exitAfter (ki :: rest)) =
          [] := by
        rw [exit, keysBefore, List.take_zero, firstKey]
        split <;> rfl
      rw [none_]
      exact ⟨.of_error (by decide) (iff_of_true rfl (.inl exit)), fun _ _ => Nat.le_refl _⟩
    · rw [if_neg exit] at returned
      rw [keysBefore_cons exit]
      have more : ¬ (exitAfter = some 0 ∨ ki :: rest = []) := by
        rintro (now | empty)
        · exact exit now
        · contradiction
      have byte := typeKey_delivers rs { s with kbdQueue := rest } ki
      by_cases idle : ki.ch = backspace ∧ ¬ 0 < s.sys.console.stdinCookedChars
      · rw [if_pos idle] at byte
        have skipped : firstKey s.sys.console.stdinCookedChars
            (ki :: keysBefore (exitAfter.map (· - 1)) rest) =
              firstKey s.sys.console.stdinCookedChars
                (keysBefore (exitAfter.map (· - 1)) rest) := by
          rw [firstKey, if_neg idle.2, firstKey, if_neg idle.2, List.dropWhile_cons,
            if_pos (decide_eq_true idle.1)]
        rw [skipped]
        split at returned
        · rename_i same
          rw [same] at byte
          contradiction
        · obtain ⟨serves, shorter⟩ := ih returned
          refine ⟨⟨?_, ?_⟩, ?_⟩
          · intro data same
            exact ⟨(serves.ok data same).1, more⟩
          · intro rc same
            refine ⟨(serves.error rc same).1, (serves.error rc same).2.1, iff_of_false ?_ more⟩
            intro whole
            have short := shorter rc same
            rw [whole, List.length_cons] at short
            omega
          · intro rc same
            exact Nat.le_succ_of_le (shorter rc same)
      · rw [if_neg idle] at byte
        have first : firstKey s.sys.console.stdinCookedChars
            (ki :: keysBefore (exitAfter.map (· - 1)) rest) = [ki.ch] := by
          unfold firstKey
          split
          · rfl
          · rename_i empty
            have other : ¬ ki.ch = backspace := fun back => idle ⟨back, empty⟩
            rw [List.dropWhile_cons_of_neg (by simpa using other)]
            rfl
        rw [first]
        split at returned
        · rename_i same
          rw [same] at byte
          cases byte
          cases returned
          refine ⟨.of_ok more, ?_⟩
          intro rc same
          contradiction
        · rename_i same
          rw [same] at byte
          contradiction

/-- Without an exit the loop is that of the text window alone. -/
theorem fetchKeys_none : fetchKeys rs s keys none =
    (s.takeKeys rs keys).map fun taken => (.ok [taken.1], taken.2) := by
  induction keys with
  | nil => rfl
  | cons ki rest ih =>
    rw [fetchKeys, if_neg (by simp), SdlStdin.takeKeys]
    generalize SdlStdin.typeKey rs { s with kbdQueue := rest } ki = result
    obtain ⟨byte, next⟩ := result
    cases byte with
    | none => exact ih
    | some byte => rfl

theorem fetchText_serves (σ : Type) {fetched : Fetched SdlStdin}
    (returned : fetchText rs host s = some fetched) :
    Serves s ((StdinSource.text s : StdinSource σ).offered host)
      ((StdinSource.text s : StdinSource σ).Refuses host) fetched := by
  rw [fetchText] at returned
  rw [StdinSource.offered, StdinSource.Refuses]
  by_cases flag : s.sys.console.stdinPendingLf = true
  · rw [if_pos flag] at returned
    rw [if_pos flag, flag]
    cases returned
    exact .of_ok fun refused => Bool.noConfusion refused.1
  · rw [if_neg flag] at returned
    have serves := (fetchKeys_serves returned).1
    have free : s.sys.console.stdinPendingLf = false := Bool.eq_false_iff.mpr flag
    rw [if_neg flag, eq_true free, true_and]
    exact serves

theorem fetchTerminal_serves {t : TermStdin σ} {fetched : Fetched (TermStdin σ)}
    (returned : fetchTerminal tty host t = some fetched) :
    Serves t ((StdinSource.terminal t).offered host) ((StdinSource.terminal t).Refuses host)
      fetched := by
  rw [fetchTerminal] at returned
  rw [StdinSource.offered, StdinSource.Refuses]
  by_cases flag : t.console.stdinPendingLf = true
  · rw [if_pos flag] at returned
    rw [if_pos flag, flag]
    cases returned
    exact .of_ok fun refused => Bool.noConfusion refused.1
  · rw [if_neg flag] at returned
    have free : t.console.stdinPendingLf = false := Bool.eq_false_iff.mpr flag
    rw [if_neg flag, eq_true free, true_and]
    by_cases exit : host.exitAfter = some 0
    · rw [if_pos exit] at returned
      rw [if_pos (.inl exit)]
      cases returned
      exact .of_error (by decide) (iff_of_true rfl (.inl exit))
    rw [if_neg exit] at returned
    by_cases fails : host.fails = true
    · rw [if_pos fails] at returned
      rw [if_pos (.inr fails)]
      cases returned
      exact .of_error (by decide) (iff_of_true rfl (.inr (.inl fails)))
    rw [if_neg fails] at returned
    rw [if_neg (not_or.mpr ⟨exit, fails⟩)]
    cases input : t.input with
    | nil =>
      rw [input] at returned
      obtain ⟨n, _, rfl⟩ := Option.map_eq_some_iff.mp returned
      exact .of_error (by decide) (iff_of_true rfl (.inr (.inr rfl)))
    | cons byte rest =>
      rw [input] at returned
      cases returned
      apply Serves.of_ok
      rintro (now | failed | empty)
      · exact exit now
      · exact fails failed
      · contradiction

end Stdin

section Sources

variable {σ κ : Type} {rs : EncodingRs} {tty : Tty σ κ} {host : HostTurn} {devices : Devices σ}
  {hf len : Nat}

theorem fetchStdin_serves {fetched : Fetched (StdinSource σ)}
    (returned : fetchStdin rs tty host devices.stdin = some fetched) (some_ : len ≠ 0) :
    Serves devices (devices.offered host 0 len) (devices.Refuses host 0)
      (fetched.1, { devices with stdin := fetched.2 }) := by
  have offered : devices.offered host 0 len = devices.stdin.offered host := by
    rw [Devices.offered, if_pos rfl, if_neg some_]
  have refuses : devices.Refuses host 0 = devices.stdin.Refuses host := if_pos rfl
  have whole {stdin : StdinSource σ} {result : Fetched (StdinSource σ)}
      (same : devices.stdin = stdin)
      (serves : Serves stdin (stdin.offered host) (stdin.Refuses host) result) :
      Serves devices (stdin.offered host) (stdin.Refuses host)
        (result.1, { devices with stdin := result.2 }) := by
    subst same
    exact serves.lift (fun stdin => { devices with stdin })
      fun _ _ equal => congrArg Devices.stdin equal
  rw [offered, refuses]
  cases source : devices.stdin with
  | text s =>
    rw [source] at returned
    obtain ⟨result, call, rfl⟩ := Option.map_eq_some_iff.mp returned
    exact whole source
      ((fetchText_serves σ call).lift StdinSource.text fun _ _ equal => StdinSource.text.inj equal)
  | terminal t =>
    rw [source] at returned
    obtain ⟨result, call, rfl⟩ := Option.map_eq_some_iff.mp returned
    exact whole source
      ((fetchTerminal_serves call).lift StdinSource.terminal
        fun _ _ equal => StdinSource.terminal.inj equal)

theorem fetchPipe_serves {fetched : Fetched (Devices σ)} (pipe : pipeHandleBase ≤ hf)
    (returned : devices.fetchPipe host hf (min len readCap) = some fetched) :
    Serves devices (devices.offered host hf len) (devices.Refuses host hf) fetched := by
  have other : hf ≠ 0 := by
    unfold pipeHandleBase at pipe
    omega
  rw [Devices.fetchPipe] at returned
  rw [Devices.offered, Devices.Refuses, if_neg other, if_pos pipe, if_neg other, if_pos pipe]
  cases handle : devices.handleMgr.get hf with
  | none =>
    rw [handle] at returned
    cases returned
    exact .of_error (by decide) (iff_of_true rfl trivial)
  | some entry =>
    rw [handle] at returned
    obtain ⟨number, side⟩ := entry
    cases side with
    | write =>
      cases returned
      exact .of_error (by decide) (iff_of_true rfl trivial)
    | read =>
      dsimp only at returned ⊢
      by_cases fails : host.fails = true
      · rw [if_pos fails] at returned
        rw [if_pos fails]
        cases returned
        exact .of_error (by decide) (iff_of_true rfl fails)
      · rw [if_neg fails] at returned
        rw [if_neg fails]
        split at returned
        · contradiction
        · cases returned
          exact .of_ok fails

/-- A backend reads from a descriptor that is there and can be read. -/
theorem read_cases (backend : OpenFiles) (handle : VfsFileHandle) (len given : Nat) :
    (∃ rest, bytesAt backend handle = some rest ∧
      (backend.read handle len given).1 = .ok ((rest.take len).take given)) ∨
    (bytesAt backend handle = none ∧
      ∃ e : Os2Error, e.code ≠ 0 ∧ backend.read handle len given = (.error e, backend)) := by
  unfold bytesAt OpenFiles.read FileTable.read
  cases backend.table.descriptors handle.id with
  | none => exact .inr ⟨rfl, .invalidHandle, by decide, rfl⟩
  | some d =>
    obtain ⟨file, isDir, read, write, offset⟩ := d
    cases read with
    | false => exact .inr ⟨rfl, .accessDenied, by decide, rfl⟩
    | true =>
      cases isDir with
      | true => exact .inr ⟨rfl, .accessDenied, by decide, rfl⟩
      | false => exact .inl ⟨_, rfl, rfl⟩

theorem mount_self {β : Type} {dm : DriveManager β} {drive : Nat} {backend : β}
    (h : dm.drives drive = some backend) : dm.mount drive backend = dm := by
  have same : (fun other => if other = drive then some backend else dm.drives other) =
      dm.drives := by
    funext other
    split
    · rename_i here
      rw [here, h]
    · rfl
  rw [DriveManager.mount, same]

theorem fetchFile_serves (other : hf ≠ 0) (file : ¬ pipeHandleBase ≤ hf) :
    Serves devices (devices.offered host hf len) (devices.Refuses host hf)
      (devices.fetchFile host hf (min len readCap)) := by
  rw [Devices.offered, Devices.Refuses, if_neg other, if_neg file, if_neg other, if_neg file]
  have closed (nothing : devices.readable hf = none) {rc : Nat} (failed : rc ≠ 0) :
      Serves devices ((((devices.readable hf).getD []).take (min len readCap)).take host.given)
        (devices.readable hf = none) (.error rc, devices) := by
    rw [nothing, Option.getD_none, List.take_nil, List.take_nil]
    exact .of_error failed (iff_of_true rfl rfl)
  unfold Devices.fetchFile
  cases handle : devices.driveMgr.fileHandles hf with
  | none => exact closed (by rw [Devices.readable, handle]; rfl) (by decide)
  | some entry =>
    dsimp only
    cases drive : devices.driveMgr.drives entry.drive with
    | none =>
      exact closed (by rw [Devices.readable, handle, Option.bind_some, drive]; rfl) (by decide)
    | some backend =>
      have readable : devices.readable hf = bytesAt backend entry.vfsHandle := by
        rw [Devices.readable, handle, Option.bind_some, drive, Option.bind_some]
      rcases read_cases backend entry.vfsHandle (min len readCap) host.given with
        ⟨rest, found, read⟩ | ⟨missing, e, failed, read⟩
      · dsimp only
        rw [read, readable, found]
        exact .of_ok (Option.some_ne_none rest)
      · dsimp only
        rw [read, mount_self drive]
        exact closed (readable.trans missing) failed

end Sources

section Stores

variable {mem : GuestMemory} {buf actual : Nat} {data : List UInt8}

/-- Data that fit are there once they are stored. -/
theorem putBytes_holds (inside : BufferInside mem buf data.length) :
    Holds (mem.putBytes buf data) buf data := by
  intro i byte at_
  have short : i < data.length := (List.getElem?_eq_some_iff.mp at_).1
  have last := inside (data.length - 1) (by omega)
  have fits : mem.inBounds buf data.length = true := decide_eq_true (by omega)
  rw [GuestMemory.putBytes_of_inBounds mem fits]
  refine ⟨inside i short, ?_⟩
  dsimp only
  rw [ByteStore.store, if_pos (Nat.le_add_right _ _), Nat.add_sub_cancel_left, at_]
  rfl

/-- The count is stored over the data, or elsewhere, or nowhere. -/
theorem putAt_holds (holds : Holds mem buf data) :
    Holds (mem.putAt 4 actual data.length) buf data ↔ CountKeeps mem buf actual data := by
  by_cases null : actual = 0
  · rw [GuestMemory.putAt, if_neg (not_not.mpr null)]
    exact iff_of_true holds fun other => absurd null other
  rw [GuestMemory.putAt, if_pos null, GuestMemory.put]
  by_cases fits : actual + 4 ≤ mem.size
  · have bounds : mem.inBounds actual (leBytes 4 data.length).length = true := by
      rw [leBytes_length]
      exact decide_eq_true fits
    rw [GuestMemory.putBytes_of_inBounds mem bounds]
    have length := leBytes_length 4 data.length
    constructor
    · intro after _ _ i byte at_ low high
      have value := (after i byte at_).2
      have inside : buf + i - actual < (leBytes 4 data.length).length := by omega
      dsimp only at value
      rw [ByteStore.store, if_pos low, List.getElem?_eq_getElem inside] at value
      rw [List.getElem?_eq_getElem inside]
      exact congrArg some value
    · intro keeps i byte at_
      obtain ⟨shown, value⟩ := holds i byte at_
      refine ⟨shown, ?_⟩
      dsimp only
      unfold ByteStore.store
      split
      · rename_i low
        by_cases high : buf + i < actual + 4
        · rw [keeps null fits i byte at_ low high]
          rfl
        · rw [List.getElem?_eq_none (by omega)]
          exact value
      · exact value
  · have bounds : mem.inBounds actual (leBytes 4 data.length).length = false := by
      rw [leBytes_length]
      exact decide_eq_false fits
    rw [GuestMemory.putBytes_of_not_inBounds mem bounds]
    exact iff_of_true holds fun _ inside => absurd inside fits

variable {σ : Type} {host : HostTurn} {devices : Devices σ} {hf len : Nat} {failed : GuestMemory}
  {fetched : Fetched (Devices σ)}

/-- A call that has its answer from the source. -/
theorem storeFetched_right
    (serves : Serves devices (devices.offered host hf len) (devices.Refuses host hf) fetched)
    (short : (devices.offered host hf len).length ≤ len) :
    ReadsRight host mem devices hf buf len (storeFetched mem failed buf actual fetched) ↔
      (BufferInside mem buf len → CountKeeps mem buf actual (devices.offered host hf len)) ∧
        (¬ BufferInside mem buf len → devices.Refuses host hf) := by
  obtain ⟨result, after⟩ := fetched
  cases result with
  | ok data =>
    obtain ⟨rfl, gives⟩ := serves.ok data rfl
    have sizes : CountKeeps (mem.putBytes buf (devices.offered host hf len)) buf actual
        (devices.offered host hf len) = CountKeeps mem buf actual (devices.offered host hf len) := by
      rw [CountKeeps, CountKeeps, GuestMemory.putBytes_size]
    by_cases inside : BufferInside mem buf len
    · have part : BufferInside mem buf (devices.offered host hf len).length :=
        fun i small => inside i (Nat.lt_of_lt_of_le small short)
      have holds := putBytes_holds part
      constructor
      · intro right
        refine ⟨fun _ => ?_, fun outside => absurd inside outside⟩
        rw [← sizes]
        exact (putAt_holds holds).mp (right.stored rfl).2
      · intro condition
        refine ⟨fun _ => ⟨rfl, ?_⟩, fun outside => absurd inside outside⟩
        apply (putAt_holds holds).mpr
        rw [sizes]
        exact condition.1 inside
    · apply iff_of_false
      · intro right
        exact (right.refused inside).1 rfl
      · intro condition
        exact gives (condition.2 inside)
  | error rc =>
    obtain ⟨nonzero, nothing, kept⟩ := serves.error rc rfl
    constructor
    · intro right
      refine ⟨fun _ => ?_, fun outside => kept.mp (right.refused outside).2⟩
      rw [nothing]
      intro _ _ i byte at_
      contradiction
    · intro condition
      exact ⟨fun zero => absurd zero nonzero,
        fun outside => ⟨nonzero, kept.mpr (condition.2 outside)⟩⟩

end Stores

section Calls

variable {σ κ : Type} {host : HostTurn} {devices : Devices σ} {hf len : Nat}

theorem StdinSource.offered_short (stdin : StdinSource σ) : (stdin.offered host).length ≤ 1 := by
  cases stdin with
  | text s =>
    rw [StdinSource.offered]
    split
    · exact Nat.le_refl 1
    · rw [firstKey, List.length_map, List.length_take]
      exact Nat.min_le_left _ _
  | terminal s =>
    rw [StdinSource.offered]
    split
    · exact Nat.le_refl 1
    · split
      · exact Nat.zero_le _
      · rw [List.length_take]
        exact Nat.min_le_left _ _

theorem offered_short : (devices.offered host hf len).length ≤ len := by
  unfold Devices.offered
  split
  · split
    · exact Nat.zero_le _
    · rename_i some_
      exact Nat.le_trans devices.stdin.offered_short (Nat.pos_of_ne_zero some_)
  · split
    · split
      · split
        · exact Nat.zero_le _
        · rw [List.length_take]
          omega
      · exact Nat.zero_le _
    · rw [List.length_take, List.length_take]
      omega

/-- A call does what it is to do exactly where its buffer is in memory and the count is not
stored over the data with other bytes, or where the source itself refuses the call. -/
theorem dos_read_right_iff (rs : EncodingRs) (tty : Tty σ κ) (host : HostTurn) (mem : GuestMemory)
    (devices : Devices σ) (hf buf len actual : Nat) (reply : ReadReply σ)
    (returned : dosRead rs tty host mem devices hf buf len actual = some reply) :
    ReadsRight host mem devices hf buf len reply ↔
      (BufferInside mem buf len → CountKeeps mem buf actual (devices.offered host hf len)) ∧
        (¬ BufferInside mem buf len → devices.Refuses host hf) := by
  unfold dosRead at returned
  split at returned
  · rename_i console
    subst console
    unfold dosReadStdin at returned
    split at returned
    · rename_i empty
      subst empty
      cases returned
      have nothing : devices.offered host 0 0 = [] := by rw [Devices.offered, if_pos rfl, if_pos rfl]
      have inside : BufferInside mem buf 0 := fun i small => absurd small (Nat.not_lt_zero i)
      rw [nothing]
      constructor
      · intro _
        refine ⟨fun _ _ _ i byte at_ => ?_, fun outside => absurd inside outside⟩
        contradiction
      · intro _
        refine ⟨fun _ => ?_, fun outside => absurd inside outside⟩
        rw [nothing]
        refine ⟨rfl, fun i byte at_ => ?_⟩
        contradiction
    · rename_i some_
      obtain ⟨fetched, call, rfl⟩ := Option.map_eq_some_iff.mp returned
      exact storeFetched_right (fetchStdin_serves call some_) offered_short
  · rename_i other
    split at returned
    · rename_i pipe
      obtain ⟨fetched, call, rfl⟩ := Option.map_eq_some_iff.mp returned
      exact storeFetched_right (fetchPipe_serves pipe call) offered_short
    · rename_i file
      cases returned
      exact storeFetched_right (fetchFile_serves other file) offered_short

/-- A pipe with a byte in it, and nothing typed. -/
def pipeDevices : Devices ((Int → UInt8) × Int) where
  stdin := .text ⟨⟨437, .new none⟩, [], 0⟩
  handleMgr := (HandleManager.new.addEnds 0).2
  pipes := fun _ => [0x41]
  driveMgr := .new

def quietHost : HostTurn := ⟨none, false, false, 0x1000⟩

def zeroMemory : GuestMemory := ⟨guestMemSize, fun _ => 0⟩

theorem pipe_read_right :
    ∃ reply, dosRead noConversions rowTty quietHost zeroMemory pipeDevices 0x1000 0x20000 16
        0x30000 = some reply ∧
      (ReadsRight quietHost zeroMemory pipeDevices 0x1000 0x20000 16 reply ↔
        (BufferInside zeroMemory 0x20000 16 → CountKeeps zeroMemory 0x20000 0x30000
          (pipeDevices.offered quietHost 0x1000 16)) ∧
        (¬ BufferInside zeroMemory 0x20000 16 → pipeDevices.Refuses quietHost 0x1000)) :=
  ⟨_, rfl, dos_read_right_iff noConversions rowTty quietHost zeroMemory pipeDevices 0x1000 0x20000
    16 0x30000 _ rfl⟩

/-- Behind the end of the memory the byte of the pipe is lost, and the call succeeds. -/
theorem read_outside_loses :
    ¬ ∀ (rs : EncodingRs) (tty : Tty ((Int → UInt8) × Int) UInt8) (host : HostTurn)
      (mem : GuestMemory) (devices : Devices ((Int → UInt8) × Int)) (hf buf len actual : Nat)
      (reply : ReadReply ((Int → UInt8) × Int)),
        dosRead rs tty host mem devices hf buf len actual = some reply →
          ReadsRight host mem devices hf buf len reply := by
  intro all
  have right := all noConversions rowTty quietHost zeroMemory pipeDevices 0x1000 guestMemSize 1 0
    _ rfl
  have outside : ¬ BufferInside zeroMemory guestMemSize 1 :=
    fun inside => Nat.lt_irrefl _ (inside 0 (Nat.zero_lt_one))
  exact (right.refused outside).1 rfl

end Calls

end Warpine.Loader
