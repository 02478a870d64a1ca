import Warpine.Guest.Memory
import Warpine.Lib.Attempts
import Warpine.Lib.Dict

/-! Socket calls that hand the host a buffer of the guest's. The length goes to the host
apart from the buffer, so each call has to see that the two agree. -/
namespace Warpine.Loader
open Warpine.Lib Warpine.Guest

/-- Live handles and their descriptors on the host. -/
structure SocketManager where
  sockets : Dict Nat Nat
  nextHandle : Nat
  lastSockErrno : Nat
  scratchAddr : Option Nat

namespace SocketManager

def new : SocketManager := ⟨[], 0xA000, 0, none⟩

def lookup (mgr : SocketManager) (h : Nat) : Option Nat := mgr.sockets.get h

end SocketManager

def maxSocketBuf : Nat := 64 * 1024
def soceBadf : Nat := 9
def soceFault : Nat := 14

/-- What a pointer and a length stand for in a call of the host. -/
structure HostBuffer where
  data : List UInt8
  given : Nat

def HostBuffer.Fits (buffer : HostBuffer) : Prop := buffer.given ≤ buffer.data.length

section Calls

variable (mgr : SocketManager) (mem : GuestMemory)

/-- An unknown handle is an error of its own. -/
def soFd (s : UInt32) : Except Nat Nat :=
  match mgr.lookup s.toNat with
  | some fd => .ok fd
  | none => .error soceBadf

/-- At most 64 KiB, and of these only the bytes that are in guest memory. -/
def readGuestBytes (addr len : Nat) : List UInt8 :=
  let capped := min len maxSocketBuf
  match mem.slice addr capped with
  | some bytes => bytes
  | none => (List.range capped).filterMap fun i =>
      (mem.read 1 (wrapAdd addr i)).map UInt8.ofNat

/-- Memory that the host writes to. -/
def guestSliceMut (addr len : Nat) : Except Nat HostBuffer :=
  match mem.slice addr len with
  | some bytes => .ok ⟨bytes, len⟩
  | none => .error soceFault

/-- `bind` and `connect` compare the lengths. -/
def soNamed (s namePtr namelen : UInt32) : Except Nat (List HostBuffer) := do
  let _ ← soFd mgr s
  let addrBytes := readGuestBytes mem namePtr.toNat namelen.toNat
  if addrBytes.length < namelen.toNat then throw soceFault
  else return [⟨addrBytes, namelen.toNat⟩]

def soBind (s namePtr namelen : UInt32) : Except Nat (List HostBuffer) :=
  soNamed mgr mem s namePtr namelen

def soConnect (s namePtr namelen : UInt32) : Except Nat (List HostBuffer) :=
  soNamed mgr mem s namePtr namelen

def soSend (s bufPtr len : UInt32) : Except Nat (List HostBuffer) := do
  let _ ← soFd mgr s
  let data := readGuestBytes mem bufPtr.toNat len.toNat
  return [⟨data, data.length⟩]

/-- The address goes to the host with the guest's own length. -/
def soSendto (s bufPtr len toPtr tolen : UInt32) : Except Nat (List HostBuffer) := do
  let _ ← soFd mgr s
  let data := readGuestBytes mem bufPtr.toNat len.toNat
  if toPtr ≠ 0 ∧ tolen > 0 then
    let addr := readGuestBytes mem toPtr.toNat tolen.toNat
    return [⟨data, data.length⟩, ⟨addr, tolen.toNat⟩]
  else return [⟨data, data.length⟩]

def soRecv (s bufPtr len : UInt32) : Except Nat (List HostBuffer) := do
  let _ ← soFd mgr s
  let buf ← guestSliceMut mem bufPtr.toNat len.toNat
  return [buf]

/-- `sockaddr_storage`, zeroed. -/
def sockaddrStorage : List UInt8 := List.replicate 128 0

def soRecvfrom (s bufPtr len : UInt32) : Except Nat (List HostBuffer) := do
  let _ ← soFd mgr s
  let buf ← guestSliceMut mem bufPtr.toNat len.toNat
  return [buf, ⟨sockaddrStorage, sockaddrStorage.length⟩]

/-- The value goes to the host with the guest's own length. -/
def soSetsockopt (s optvalPtr optlen : UInt32) : Except Nat (List HostBuffer) := do
  let _ ← soFd mgr s
  return [⟨readGuestBytes mem optvalPtr.toNat optlen.toNat, optlen.toNat⟩]

def soGetsockopt (s optvalPtr optlenPtr : UInt32) : Except Nat (List HostBuffer) := do
  let _ ← soFd mgr s
  let buf ← guestSliceMut mem optvalPtr.toNat ((mem.read 4 optlenPtr.toNat).getD 0)
  return [buf]

def soGethostname (namePtr namelen : UInt32) : Except Nat (List HostBuffer) := do
  let buf ← guestSliceMut mem namePtr.toNat namelen.toNat
  return [buf]

end Calls

/-- The nine calls, with the arguments that decide about their buffers. -/
inductive SocketCall where
  | bind (s namePtr namelen : UInt32)
  | connect (s namePtr namelen : UInt32)
  | send (s bufPtr len : UInt32)
  | sendto (s bufPtr len toPtr tolen : UInt32)
  | recv (s bufPtr len : UInt32)
  | recvfrom (s bufPtr len : UInt32)
  | setsockopt (s optvalPtr optlen : UInt32)
  | getsockopt (s optvalPtr optlenPtr : UInt32)
  | gethostname (namePtr namelen : UInt32)

namespace SocketCall

/-- The buffers that the host gets, or the error that the call ends with before. -/
def buffers (mgr : SocketManager) (mem : GuestMemory) :
    SocketCall → Except Nat (List HostBuffer)
  | .bind s namePtr namelen => soBind mgr mem s namePtr namelen
  | .connect s namePtr namelen => soConnect mgr mem s namePtr namelen
  | .send s bufPtr len => soSend mgr mem s bufPtr len
  | .sendto s bufPtr len toPtr tolen => soSendto mgr mem s bufPtr len toPtr tolen
  | .recv s bufPtr len => soRecv mgr mem s bufPtr len
  | .recvfrom s bufPtr len => soRecvfrom mgr mem s bufPtr len
  | .setsockopt s optvalPtr optlen => soSetsockopt mgr mem s optvalPtr optlen
  | .getsockopt s optvalPtr optlenPtr => soGetsockopt mgr mem s optvalPtr optlenPtr
  | .gethostname namePtr namelen => soGethostname mem namePtr namelen

/-- The host stays inside every buffer it gets. -/
def Safe (mgr : SocketManager) (mem : GuestMemory) (call : SocketCall) : Prop :=
  ∀ buffers, call.buffers mgr mem = .ok buffers → ∀ buffer ∈ buffers, buffer.Fits

/-- So many bytes are read, and all of them are in guest memory. -/
def Whole (mem : GuestMemory) (ptr len : UInt32) : Prop :=
  len.toNat ≤ maxSocketBuf ∧ (len = 0 ∨ ptr.toNat + len.toNat ≤ mem.size)

/-- The two calls that do not compare the lengths get an address or a value that is whole. -/
def Covered (mgr : SocketManager) (mem : GuestMemory) : SocketCall → Prop
  | .sendto s _ _ toPtr tolen =>
      (mgr.lookup s.toNat).isSome → toPtr ≠ 0 → Whole mem toPtr tolen
  | .setsockopt s optvalPtr optlen => (mgr.lookup s.toNat).isSome → Whole mem optvalPtr optlen
  | _ => True

end SocketCall

theorem guestSliceMut_fits {mem : GuestMemory} {addr len : Nat} {buffer : HostBuffer}
    (h : guestSliceMut mem addr len = .ok buffer) : buffer.Fits := by
  unfold guestSliceMut GuestMemory.slice at h
  split at h
  · rename_i bytes here
    split at here
    · cases here
      cases h
      unfold HostBuffer.Fits
      rw [ByteStore.load_length]
    · contradiction
  · contradiction

section Read

variable {mem : GuestMemory}

theorem readGuestBytes_length_le (addr len : Nat) :
    (readGuestBytes mem addr len).length ≤ min len maxSocketBuf := by
  unfold readGuestBytes
  dsimp only
  split
  · rename_i bytes here
    unfold GuestMemory.slice at here
    split at here
    · cases here
      rw [ByteStore.load_length]
    · contradiction
  · exact (List.length_filterMap_le _ _).trans (Nat.le_of_eq List.length_range)

/-- A range that is not in guest memory has a byte that is not. -/
theorem readGuestBytes_length_lt (small : mem.size < u32Size) {addr len : Nat}
    (outside : mem.size < addr + min len maxSocketBuf) (some_ : 0 < len) (word : addr < u32Size) :
    (readGuestBytes mem addr len).length < len := by
  have capped : 0 < min len maxSocketBuf ∧ min len maxSocketBuf ≤ len := by
    unfold maxSocketBuf
    omega
  have missing : mem.slice addr (min len maxSocketBuf) = none := by
    unfold GuestMemory.slice GuestMemory.inBounds
    rw [if_neg (by simpa using outside)]
  have lost : ((List.range (min len maxSocketBuf)).filterMap fun i =>
      (mem.read 1 (wrapAdd addr i)).map UInt8.ofNat).length <
        (List.range (min len maxSocketBuf)).length := by
    rw [List.length_filterMap_lt_length_iff_exists]
    refine ⟨mem.size - addr, List.mem_range.mpr (by omega), ?_⟩
    rw [wrapAdd_of_lt (by omega), GuestMemory.read_byte, if_neg (by omega)]
    rfl
  unfold readGuestBytes
  dsimp only
  rw [missing]
  rw [List.length_range] at lost
  exact Nat.lt_of_lt_of_le lost capped.2

/-- The bytes asked for come back exactly where the range is whole. -/
theorem readGuestBytes_whole (small : mem.size < u32Size) (ptr len : UInt32) :
    len.toNat ≤ (readGuestBytes mem ptr.toNat len.toNat).length ↔ SocketCall.Whole mem ptr len := by
  unfold SocketCall.Whole
  constructor
  · intro enough
    have capped := enough.trans (readGuestBytes_length_le ptr.toNat len.toNat)
    have low : len.toNat ≤ maxSocketBuf := by omega
    apply And.intro low
    by_contra neither
    rw [not_or] at neither
    have pos : 0 < len.toNat :=
      Nat.pos_of_ne_zero fun zero => neither.1 (UInt32.toNat_inj.mp zero)
    have outside : mem.size < ptr.toNat + min len.toNat maxSocketBuf := by omega
    have lost := readGuestBytes_length_lt small outside pos ptr.toNat_lt
    omega
  · intro ⟨low, inside⟩
    rcases inside with rfl | inside
    · exact Nat.zero_le _
    · have here : mem.slice ptr.toNat (min len.toNat maxSocketBuf) =
          some (mem.bytes.load ptr.toNat (min len.toNat maxSocketBuf)) := by
        unfold GuestMemory.slice GuestMemory.inBounds
        rw [if_pos (decide_eq_true (by omega))]
      unfold readGuestBytes
      dsimp only
      rw [here]
      dsimp only
      rw [ByteStore.load_length]
      omega

end Read

section Safe

variable {mgr : SocketManager} {mem : GuestMemory} {buffers : List HostBuffer}

/-- Nothing reaches the host for a handle that is not known. -/
theorem soFd_bind_ok {s : UInt32} {rest : Except Nat (List HostBuffer)} :
    (soFd mgr s >>= fun _ => rest) = .ok buffers ↔
      (mgr.lookup s.toNat).isSome ∧ rest = .ok buffers := by
  unfold soFd
  cases mgr.lookup s.toNat with
  | none =>
    simp only [Option.isSome_none, Bool.false_eq_true, false_and, iff_false]
    exact nofun
  | some fd =>
    simp only [Option.isSome_some, true_and]
    exact Iff.rfl

theorem own_length_fits (bytes : List UInt8) : HostBuffer.Fits ⟨bytes, bytes.length⟩ :=
  Nat.le_refl _

theorem guestSliceMut_ok {addr len : Nat} {f : HostBuffer → List HostBuffer}
    (h : (guestSliceMut mem addr len >>= fun buf => .ok (f buf)) = .ok buffers) :
    ∃ buf, buf.Fits ∧ buffers = f buf := by
  obtain ⟨buf, here, h⟩ := except_bind_eq_ok.mp h
  cases h
  exact ⟨buf, guestSliceMut_fits here, rfl⟩

theorem soNamed_fits {s namePtr namelen : UInt32}
    (h : soNamed mgr mem s namePtr namelen = .ok buffers) : ∀ buffer ∈ buffers, buffer.Fits := by
  obtain ⟨_, h⟩ := soFd_bind_ok.mp h
  dsimp only at h
  split at h
  · cases h
  · rename_i enough
    cases h
    exact List.forall_mem_singleton.mpr (Nat.le_of_not_lt enough)

theorem sendto_safe_iff (small : mem.size < u32Size) (s bufPtr len toPtr tolen : UInt32) :
    (SocketCall.sendto s bufPtr len toPtr tolen).Safe mgr mem ↔
      (SocketCall.sendto s bufPtr len toPtr tolen).Covered mgr mem := by
  have whole := readGuestBytes_whole small toPtr tolen
  unfold SocketCall.Safe SocketCall.Covered SocketCall.buffers soSendto
  simp only [soFd_bind_ok]
  constructor
  · intro safe known addressed
    by_cases some_ : tolen > 0
    · rw [if_pos ⟨addressed, some_⟩] at safe
      exact whole.mp (safe _ ⟨known, rfl⟩ _ (List.mem_cons_of_mem _ List.mem_cons_self))
    · have zero : tolen = 0 := by
        apply UInt32.toNat_inj.mp
        exact Nat.eq_zero_of_not_pos fun pos => some_ (UInt32.lt_iff_toNat_lt.mpr pos)
      exact ⟨zero ▸ Nat.zero_le _, .inl zero⟩
  · intro covered buffers ⟨known, here⟩
    split at here
    · rename_i addressed
      cases here
      exact List.forall_mem_cons.mpr ⟨own_length_fits _,
        List.forall_mem_singleton.mpr (whole.mpr (covered known addressed.1))⟩
    · cases here
      exact List.forall_mem_singleton.mpr (own_length_fits _)

theorem setsockopt_safe_iff (small : mem.size < u32Size) (s optvalPtr optlen : UInt32) :
    (SocketCall.setsockopt s optvalPtr optlen).Safe mgr mem ↔
      (SocketCall.setsockopt s optvalPtr optlen).Covered mgr mem := by
  have whole := readGuestBytes_whole small optvalPtr optlen
  unfold SocketCall.Safe SocketCall.Covered SocketCall.buffers soSetsockopt
  simp only [soFd_bind_ok]
  constructor
  · intro safe known
    exact whole.mp (safe _ ⟨known, rfl⟩ _ List.mem_cons_self)
  · intro covered buffers ⟨known, here⟩
    cases here
    exact List.forall_mem_singleton.mpr (whole.mpr (covered known))

/-- Exactly the addresses and option values that are not whole take the host past a buffer. -/
theorem socket_buffers_safe_iff (mgr : SocketManager) (mem : GuestMemory)
    (small : mem.size < u32Size) (call : SocketCall) :
    call.Safe mgr mem ↔ call.Covered mgr mem := by
  cases call with
  | sendto s bufPtr len toPtr tolen => exact sendto_safe_iff small s bufPtr len toPtr tolen
  | setsockopt s optvalPtr optlen => exact setsockopt_safe_iff small s optvalPtr optlen
  | bind s namePtr namelen => exact iff_of_true (fun _ => soNamed_fits) trivial
  | connect s namePtr namelen => exact iff_of_true (fun _ => soNamed_fits) trivial
  | send s bufPtr len =>
    apply iff_of_true _ trivial
    intro buffers h
    obtain ⟨_, h⟩ := soFd_bind_ok.mp h
    cases h
    exact List.forall_mem_singleton.mpr (own_length_fits _)
  | recv s bufPtr len =>
    apply iff_of_true _ trivial
    intro buffers h
    obtain ⟨buf, fits, rfl⟩ := guestSliceMut_ok (soFd_bind_ok.mp h).2
    exact List.forall_mem_singleton.mpr fits
  | recvfrom s bufPtr len =>
    apply iff_of_true _ trivial
    intro buffers h
    obtain ⟨buf, fits, rfl⟩ := guestSliceMut_ok (soFd_bind_ok.mp h).2
    exact List.forall_mem_cons.mpr ⟨fits, List.forall_mem_singleton.mpr (own_length_fits _)⟩
  | getsockopt s optvalPtr optlenPtr =>
    apply iff_of_true _ trivial
    intro buffers h
    obtain ⟨buf, fits, rfl⟩ := guestSliceMut_ok (soFd_bind_ok.mp h).2
    exact List.forall_mem_singleton.mpr fits
  | gethostname namePtr namelen =>
    apply iff_of_true _ trivial
    intro buffers h
    obtain ⟨buf, fits, rfl⟩ := guestSliceMut_ok h
    exact List.forall_mem_singleton.mpr fits

/-- One socket, with descriptor 3. -/
def oneSocket : SocketManager := { SocketManager.new with sockets := [(0xA000, 3)] }

/-- An option value of four bytes. -/
theorem four_byte_option_safe :
    (SocketCall.setsockopt 0xA000 16 4).Safe oneSocket ⟨64, fun _ => 0⟩ :=
  (socket_buffers_safe_iff oneSocket ⟨64, fun _ => 0⟩ (by decide) _).mpr
    fun _ => ⟨by decide, .inr (by decide)⟩

/-- An option value of 128 KiB, of which 64 KiB are copied. -/
theorem long_option_overruns :
    ¬ (SocketCall.setsockopt 0xA000 0 131072).Safe oneSocket ⟨262144, fun _ => 0⟩ := by
  rw [setsockopt_safe_iff (by decide)]
  intro covered
  exact absurd (covered rfl).1 (by decide)

end Safe

end Warpine.Loader
