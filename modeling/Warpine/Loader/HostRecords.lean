import Warpine.Guest.Footprint
import Warpine.Lib.Panics
import Warpine.Lib.Run
import Warpine.Loader.MemoryManager
import Warpine.Loader.SocketSelect

/-! The records that lookups of hosts and services return. Both kinds share one block of
256 bytes, which is allocated at the first lookup. -/
namespace Warpine.Loader
open Warpine.Lib Warpine.Guest

def soceInval : Nat := 22
def soceAfnosupport : Nat := 47
def soceNobufs : Nat := 55
def soceHostunreach : Nat := 65

/-- The bytes of a string, without the NUL behind it. -/
structure CName where
  bytes : List UInt8
  noNul : 0 ∉ bytes

structure HostEntry where
  name : CName
  ip : Vector UInt8 4

structure ServEntry where
  name : CName
  port : UInt32
  proto : CName

structure Resolver where
  mem : GuestMemory
  memMgr : MemoryManager
  sockets : SocketManager

/-- A returned pointer, the writes that were made, and the state after them. -/
structure LookupOutcome where
  result : Nat
  writes : List (Nat × List UInt8)
  after : Resolver

namespace Resolver

/-- A lookup that fails leaves an error code and no record. -/
def fails (r : Resolver) (code : Nat) : LookupOutcome :=
  ⟨0, [], { r with sockets := r.sockets.setErrno code }⟩

def writes (r : Resolver) (result : Nat) (list : List (Nat × List UInt8)) : LookupOutcome :=
  ⟨result, list, { r with mem := r.mem.putAll list, sockets := r.sockets.clearErrno }⟩

theorem writes_mem (r : Resolver) (result : Nat) (list : List (Nat × List UInt8)) :
    (r.writes result list).after.mem = r.mem.putAll list :=
  rfl

def ensureHostentScratch (r : Resolver) : Nat × Resolver :=
  match r.sockets.scratchAddr with
  | some addr => (addr, r)
  | none =>
    match r.memMgr.alloc 256 with
    | some (addr, memMgr) =>
        (addr, { r with memMgr := memMgr, sockets := { r.sockets with scratchAddr := some addr } })
    | none => (0, r)

end Resolver

def hostentWrites (scratch : Nat) (name ip : List UInt8) : Option (List (Nat × List UInt8)) := do
  let aliasBase ← addWord 32 scratch 0x18
  let addrlistBase ← addWord 32 scratch 0x1C
  let ipBase ← addWord 32 scratch 0x24
  let nameBase ← addWord 32 scratch 0x28
  let addrlistEnd ← addWord 32 addrlistBase 4
  let aliases ← addWord 32 scratch 0x04
  let addrtype ← addWord 32 scratch 0x08
  let length ← addWord 32 scratch 0x0C
  let addrList ← addWord 32 scratch 0x10
  return [(nameBase, name ++ [0]), (ipBase, ip), (aliasBase, leBytes 4 0),
    (addrlistBase, leBytes 4 ipBase), (addrlistEnd, leBytes 4 0), (scratch, leBytes 4 nameBase),
    (aliases, leBytes 4 aliasBase), (addrtype, leBytes 4 2), (length, leBytes 4 4),
    (addrList, leBytes 4 addrlistBase)]

def writeHostentToScratch (r : Resolver) (entry : HostEntry) : Option LookupOutcome :=
  match r.ensureHostentScratch with
  | (scratch, r) =>
    if scratch = 0 then some (r.fails soceNobufs)
    else do
      let writes ← hostentWrites scratch entry.name.bytes entry.ip.toList
      return r.writes scratch writes

/-- `&text[..len]`, which panics inside a character. -/
def strPrefix (text : List UInt8) (len : Nat) : Option (List UInt8) :=
  match text[len]? with
  | some byte => if byte &&& 0xC0 = 0x80 then none else some (text.take len)
  | none => if text.length = len then some text else none

/-- A name that is too long is cut. -/
def cutName (text : List UInt8) (max_ : Nat) : Option (List UInt8) :=
  if text.length > max_ then strPrefix text max_ else some text

def serventWords (scratch sname sproto port : Nat) : Option (List (Nat × List UInt8)) := do
  let serventBase ← addWord 32 scratch 0x40
  let aliasBase ← addWord 32 scratch 0x54
  let aliases ← addWord 32 serventBase 0x04
  let portField ← addWord 32 serventBase 0x08
  let proto ← addWord 32 serventBase 0x0C
  return [(aliasBase, leBytes 4 0), (serventBase, leBytes 4 sname), (aliases, leBytes 4 aliasBase),
    (portField, leBytes 4 port), (proto, leBytes 4 sproto)]

def serventWrites (scratch : Nat) (svcName : List UInt8) (port : Nat) (protoName : List UInt8) :
    Option (List (Nat × List UInt8)) := do
  let hostName ← cutName svcName (256 - (0x58 + 2))
  let snameBase ← addWord 32 scratch 0x58
  let snameEnd ← addWord 32 snameBase (hostName.length % u32Size)
  let sprotoBase ← addWord 32 snameEnd 1
  let scratchEnd ← addWord 32 scratch 256
  let protoStart ← addWord 32 sprotoBase 1
  let hostProto ← cutName protoName (scratchEnd - protoStart)
  let words ← serventWords scratch snameBase sprotoBase port
  return (snameBase, hostName ++ [0]) :: (sprotoBase, hostProto ++ [0]) :: words

def writeServentToScratch (r : Resolver) (entry : ServEntry) : Option LookupOutcome :=
  match r.ensureHostentScratch with
  | (scratch, r) =>
    if scratch = 0 then some (r.fails soceNobufs)
    else do
      let writes ← serventWrites scratch entry.name.bytes entry.port.toNat entry.proto.bytes
      let serventBase ← addWord 32 scratch 0x40
      return r.writes serventBase writes

/-- `a.b.c.d`. -/
def decimal (byte : UInt8) : List UInt8 :=
  (Nat.toDigits 10 byte.toNat).map fun digit => UInt8.ofNat digit.toNat

def dottedQuad (a b c d : UInt8) : List UInt8 :=
  decimal a ++ [46] ++ decimal b ++ [46] ++ decimal c ++ [46] ++ decimal d

theorem decimal_spec (byte : UInt8) : (decimal byte).length ≤ 3 ∧ 0 ∉ decimal byte := by
  have all : ∀ n < 256, ((Nat.toDigits 10 n).map fun digit => UInt8.ofNat digit.toNat).length ≤ 3 ∧
      0 ∉ (Nat.toDigits 10 n).map fun digit => UInt8.ofNat digit.toNat := by decide +kernel
  exact all byte.toNat byte.toNat_lt

def dottedName (a b c d : UInt8) : CName where
  bytes := dottedQuad a b c d
  noNul := by
    simp only [dottedQuad, List.mem_append, List.mem_singleton, not_or]
    exact ⟨⟨⟨⟨⟨⟨(decimal_spec a).2, by decide⟩, (decimal_spec b).2⟩, by decide⟩,
      (decimal_spec c).2⟩, by decide⟩, (decimal_spec d).2⟩

/-- The four calls. A host's name is what the guest's string decodes to, and the service
calls have what the host's database finds. -/
inductive LookupCall where
  | gethostbyname (hostname : CName) (ip : Option (Vector UInt8 4))
  | gethostbyaddr (addrPtr len addrType : UInt32)
  | getservbyname (found : Option ServEntry)
  | getservbyport (found : Option ServEntry)

inductive Entry where
  | host (entry : HostEntry)
  | serv (entry : ServEntry)

def servEntry : Option ServEntry → Except Nat Entry
  | some entry => .ok (.serv entry)
  | none => .error soceInval

namespace LookupCall

/-- What a call resolves to. -/
def resolved (mem : GuestMemory) : LookupCall → Except Nat Entry
  | .gethostbyname hostname (some ip) => .ok (.host ⟨hostname, ip⟩)
  | .gethostbyname _ none => .error soceHostunreach
  | .gethostbyaddr addrPtr len addrType =>
      if addrType ≠ 2 ∨ len < 4 then .error soceAfnosupport
      else
        match readGuestBytes mem addrPtr.toNat 4 with
        | a :: b :: c :: d :: _ => .ok (.host ⟨dottedName a b c d, #v[a, b, c, d]⟩)
        | _ => .error soceFault
  | .getservbyname found => servEntry found
  | .getservbyport found => servEntry found

def run (call : LookupCall) (r : Resolver) : Option LookupOutcome :=
  match call.resolved r.mem with
  | .error code => some (r.fails code)
  | .ok (.host entry) => writeHostentToScratch r entry
  | .ok (.serv entry) => writeServentToScratch r entry

end LookupCall

/-- The state with the records that were last returned, each with its address. -/
structure Lookups where
  resolver : Resolver
  host : Option (Nat × HostEntry)
  serv : Option (Nat × ServEntry)

def Lookups.record (s : Lookups) (entry : Entry) (outcome : LookupOutcome) : Lookups :=
  if outcome.result = 0 then { s with resolver := outcome.after }
  else
    match entry with
    | .host entry => { s with resolver := outcome.after, host := some (outcome.result, entry) }
    | .serv entry => { s with resolver := outcome.after, serv := some (outcome.result, entry) }

def Lookups.next (s : Lookups) (call : LookupCall) (outcome : LookupOutcome) : Lookups :=
  match call.resolved s.resolver.mem with
  | .error _ => { s with resolver := outcome.after }
  | .ok entry => s.record entry outcome

/-- A call that panics has no next state. -/
def lookupStep : Step Lookups LookupCall := fun s call next =>
  ∃ outcome, call.run s.resolver = some outcome ∧ next = s.next call outcome

/-- A string with its NUL. -/
def CStringAt (mem : GuestMemory) (ptr : Nat) (name : CName) : Prop :=
  mem.slice ptr (name.bytes.length + 1) = some (name.bytes ++ [0])

/-- A host record as a program reads it. -/
def HostentAt (mem : GuestMemory) (base : Nat) (entry : HostEntry) : Prop :=
  ∃ name aliases addrs addr, mem.read 4 base = some name ∧ mem.read 4 (base + 4) = some aliases ∧
    mem.read 4 (base + 8) = some 2 ∧ mem.read 4 (base + 12) = some 4 ∧
    mem.read 4 (base + 16) = some addrs ∧ CStringAt mem name entry.name ∧
    mem.read 4 aliases = some 0 ∧ mem.read 4 addrs = some addr ∧
    mem.read 4 (addrs + 4) = some 0 ∧ mem.slice addr 4 = some entry.ip.toList

def ServentAt (mem : GuestMemory) (base : Nat) (entry : ServEntry) : Prop :=
  ∃ name aliases proto, mem.read 4 base = some name ∧ mem.read 4 (base + 4) = some aliases ∧
    mem.read 4 (base + 8) = some entry.port.toNat ∧ mem.read 4 (base + 12) = some proto ∧
    CStringAt mem name entry.name ∧ mem.read 4 aliases = some 0 ∧ CStringAt mem proto entry.proto

namespace Lookups

/-- Both records can be read back in full. -/
structure Intact (s : Lookups) : Prop where
  host : ∀ base entry, s.host = some (base, entry) → HostentAt s.resolver.mem base entry
  serv : ∀ base entry, s.serv = some (base, entry) → ServentAt s.resolver.mem base entry

/-- The next call does not panic, and writes inside the block only. -/
def Safe (s : Lookups) (call : LookupCall) : Prop :=
  ∃ outcome, call.run s.resolver = some outcome ∧ ∀ write ∈ outcome.writes,
    ∃ scratch, outcome.after.sockets.scratchAddr = some scratch ∧ scratch ≤ write.1 ∧
      write.1 + write.2.length ≤ scratch + 256

/-- The names fit: a host's name before the service record, or in the block as long as there
is none; and those of a service in the block, behind a host's name that does. -/
def Fits (s : Lookups) (call : LookupCall) : Prop :=
  match call.resolved s.resolver.mem with
  | .error _ => True
  | .ok (.host entry) => entry.name.bytes.length < 24 ∨
      s.serv = none ∧ entry.name.bytes.length < 216
  | .ok (.serv entry) => entry.name.bytes.length + entry.proto.bytes.length ≤ 166 ∧
      ∀ base host, s.host = some (base, host) → host.name.bytes.length < 24

/-- Nothing was looked up yet, and the allocator's space is guest memory. -/
structure Fresh (s : Lookups) : Prop where
  noScratch : s.resolver.sockets.scratchAddr = none
  noHost : s.host = none
  noServ : s.serv = none
  layout : ∃ base, s.resolver.memMgr.Layout base
  limit : s.resolver.memMgr.limit ≤ s.resolver.mem.size
  small : s.resolver.mem.size < u32Size

end Lookups

/-- Strings of bytes that lie in memory as they were written. -/
def Stored (mem : GuestMemory) (writes : List (Nat × List UInt8)) : Prop :=
  ∀ write ∈ writes, mem.slice write.1 write.2.length = some write.2

def InRange (low high : Nat) (writes : List (Nat × List UInt8)) : Prop :=
  ∀ write ∈ writes, low ≤ write.1 ∧ write.1 + write.2.length ≤ high

section Stored

variable {mem : GuestMemory} {writes other : List (Nat × List UInt8)} {low high first last : Nat}

theorem stored_putAll (inside : InRange low high writes) (room : high ≤ mem.size)
    (apart : writes.Pairwise ByteStore.WritesApart) : Stored (mem.putAll writes) writes := by
  have fit : ∀ write ∈ writes, mem.inBounds write.1 write.2.length := fun write member =>
    decide_eq_true ((inside write member).2.trans room)
  exact fun write member => mem.slice_writeAll (writeAll_putAll fit) apart member

/-- What lies in another range stays as it is. -/
theorem Stored.putAll (stored : Stored mem other) (inside : InRange low high writes)
    (room : high ≤ mem.size) (there : InRange first last other)
    (apart : high ≤ first ∨ last ≤ low) : Stored (mem.putAll writes) other := by
  have fit : ∀ write ∈ writes, mem.inBounds write.1 write.2.length := fun write member =>
    decide_eq_true ((inside write member).2.trans room)
  intro write member
  have place := there write member
  rw [mem.slice_writeAll_apart (writeAll_putAll fit), stored write member]
  intro next hnext
  have range := inside next hnext
  unfold Apart
  omega

theorem read_stored {addr value : Nat} (small : value < u32Size)
    (h : mem.slice addr (leBytes 4 value).length = some (leBytes 4 value)) :
    mem.read 4 addr = some value := by
  rw [leBytes_length] at h
  exact mem.read_eq_some.mpr ⟨small, h⟩

end Stored

section Host

variable {mem : GuestMemory} {scratch : Nat} {entry : HostEntry}

def hostWrites (scratch : Nat) (entry : HostEntry) : List (Nat × List UInt8) :=
  [(scratch + 0x28, entry.name.bytes ++ [0]), (scratch + 0x24, entry.ip.toList),
    (scratch + 0x18, leBytes 4 0), (scratch + 0x1C, leBytes 4 (scratch + 0x24)),
    (scratch + 0x1C + 4, leBytes 4 0), (scratch, leBytes 4 (scratch + 0x28)),
    (scratch + 0x04, leBytes 4 (scratch + 0x18)), (scratch + 0x08, leBytes 4 2),
    (scratch + 0x0C, leBytes 4 4), (scratch + 0x10, leBytes 4 (scratch + 0x1C))]

theorem hostentWrites_eq (small : scratch + 256 < 2 ^ 32) (entry : HostEntry) :
    hostentWrites scratch entry.name.bytes entry.ip.toList = some (hostWrites scratch entry) := by
  have word : ∀ k, k ≤ 256 → addWord 32 scratch k = some (scratch + k) :=
    fun k low => addWord_of_lt (by omega)
  have addrsEnd : addWord 32 (scratch + 0x1C) 4 = some (scratch + 0x1C + 4) :=
    addWord_of_lt (by omega)
  simp only [hostentWrites, word, addrsEnd, Nat.reduceLeDiff, Option.bind_eq_bind,
    Option.bind_some]
  rfl

theorem hostWrites_inRange (scratch : Nat) (entry : HostEntry) :
    InRange scratch (scratch + 0x29 + entry.name.bytes.length) (hostWrites scratch entry) := by
  unfold InRange hostWrites
  simp only [List.forall_mem_cons, List.length_append, List.length_singleton, leBytes_length,
    Vector.length_toList]
  refine ⟨?_, ?_, ?_, ?_, ?_, ?_, ?_, ?_, ?_, ?_, by simp⟩ <;> omega

theorem hostWrites_apart (scratch : Nat) (entry : HostEntry) :
    (hostWrites scratch entry).Pairwise ByteStore.WritesApart := by
  unfold hostWrites
  simp only [List.pairwise_cons, List.forall_mem_cons, ByteStore.WritesApart, Apart,
    leBytes_length, Vector.length_toList]
  simp

theorem hostentAt_of_stored (small : scratch + 256 < 2 ^ 32)
    (stored : Stored mem (hostWrites scratch entry)) : HostentAt mem scratch entry := by
  unfold Stored hostWrites at stored
  simp only [List.forall_mem_cons] at stored
  obtain ⟨name, ip, aliasNull, addrs, addrsEnd, hname, haliases, htype, hlength, haddrs, _⟩ := stored
  have word : ∀ k, k ≤ 256 → scratch + k < u32Size := fun k low => by
    unfold u32Size
    omega
  rw [List.length_append, List.length_singleton] at name
  rw [Vector.length_toList] at ip
  exact ⟨_, _, _, _, read_stored (word _ (by decide)) hname,
    read_stored (word _ (by decide)) haliases, read_stored (by decide) htype,
    read_stored (by decide) hlength, read_stored (word _ (by decide)) haddrs, name,
    read_stored (by decide) aliasNull, read_stored (word _ (by decide)) addrs,
    read_stored (by decide) addrsEnd, ip⟩

end Host

section Serv

variable {mem : GuestMemory} {scratch : Nat} {entry : ServEntry}

def ServEntry.Fits (entry : ServEntry) : Prop :=
  entry.name.bytes.length + entry.proto.bytes.length ≤ 166

def ServEntry.protoBase (entry : ServEntry) (scratch : Nat) : Nat :=
  scratch + 0x58 + entry.name.bytes.length + 1

def servWrites (scratch : Nat) (entry : ServEntry) : List (Nat × List UInt8) :=
  [(scratch + 0x58, entry.name.bytes ++ [0]),
    (entry.protoBase scratch, entry.proto.bytes ++ [0]), (scratch + 0x54, leBytes 4 0),
    (scratch + 0x40, leBytes 4 (scratch + 0x58)),
    (scratch + 0x40 + 0x04, leBytes 4 (scratch + 0x54)),
    (scratch + 0x40 + 0x08, leBytes 4 entry.port.toNat),
    (scratch + 0x40 + 0x0C, leBytes 4 (entry.protoBase scratch))]

/-- Names that fit are not cut. -/
theorem serventWrites_eq (small : scratch + 256 < 2 ^ 32) (fits : entry.Fits) :
    serventWrites scratch entry.name.bytes entry.port.toNat entry.proto.bytes =
      some (servWrites scratch entry) := by
  unfold ServEntry.Fits at fits
  have word : ∀ k, k ≤ 256 → addWord 32 scratch k = some (scratch + k) :=
    fun k low => addWord_of_lt (by omega)
  have name : cutName entry.name.bytes (256 - (0x58 + 2)) = some entry.name.bytes :=
    if_neg (by omega)
  have length : entry.name.bytes.length % u32Size = entry.name.bytes.length :=
    Nat.mod_eq_of_lt (by unfold u32Size; omega)
  have nameEnd : addWord 32 (scratch + 0x58) entry.name.bytes.length =
      some (scratch + 0x58 + entry.name.bytes.length) := addWord_of_lt (by omega)
  have protoBase : addWord 32 (scratch + 0x58 + entry.name.bytes.length) 1 =
      some (entry.protoBase scratch) := addWord_of_lt (by omega)
  have protoStart : addWord 32 (entry.protoBase scratch) 1 =
      some (entry.protoBase scratch + 1) :=
    addWord_of_lt (by unfold ServEntry.protoBase; omega)
  have proto : cutName entry.proto.bytes (scratch + 256 - (entry.protoBase scratch + 1)) =
      some entry.proto.bytes := if_neg (by unfold ServEntry.protoBase; omega)
  have words : serventWords scratch (scratch + 0x58) (entry.protoBase scratch)
      entry.port.toNat = some ((servWrites scratch entry).drop 2) := by
    have field : ∀ k, k ≤ 0x0C → addWord 32 (scratch + 0x40) k = some (scratch + 0x40 + k) :=
      fun k low => addWord_of_lt (by omega)
    simp only [serventWords, word, field, Nat.reduceLeDiff, Option.bind_eq_bind,
      Option.bind_some]
    rfl
  simp only [serventWrites, name, word, length, nameEnd, protoBase, protoStart, proto, words,
    Nat.reduceLeDiff, Option.bind_eq_bind, Option.bind_some]
  rfl

theorem servWrites_inRange (scratch : Nat) (fits : entry.Fits) :
    InRange (scratch + 0x40) (scratch + 256) (servWrites scratch entry) := by
  unfold ServEntry.Fits at fits
  unfold InRange servWrites ServEntry.protoBase
  simp only [List.forall_mem_cons, List.length_append, List.length_singleton, leBytes_length]
  refine ⟨?_, ?_, ?_, ?_, ?_, ?_, ?_, by simp⟩ <;> omega

theorem servWrites_apart (scratch : Nat) (entry : ServEntry) :
    (servWrites scratch entry).Pairwise ByteStore.WritesApart := by
  unfold servWrites ServEntry.protoBase
  simp only [List.pairwise_cons, List.forall_mem_cons, ByteStore.WritesApart, Apart,
    leBytes_length, List.length_append, List.length_singleton]
  refine ⟨⟨?_, ?_, ?_, ?_, ?_, ?_, by simp⟩, ⟨?_, ?_, ?_, ?_, ?_, by simp⟩, by simp⟩ <;> omega

theorem serventAt_of_stored (small : scratch + 256 < 2 ^ 32) (fits : entry.Fits)
    (stored : Stored mem (servWrites scratch entry)) :
    ServentAt mem (scratch + 0x40) entry := by
  unfold Stored servWrites at stored
  simp only [List.forall_mem_cons] at stored
  obtain ⟨name, proto, aliasNull, hname, haliases, hport, hproto, _⟩ := stored
  have word : ∀ k, k ≤ 256 → scratch + k < u32Size := fun k low => by
    unfold u32Size
    omega
  have protoBase : entry.protoBase scratch < u32Size := by
    unfold ServEntry.Fits at fits
    unfold ServEntry.protoBase u32Size
    omega
  rw [List.length_append, List.length_singleton] at name proto
  exact ⟨_, _, _, read_stored (word _ (by decide)) hname,
    read_stored (word _ (by decide)) haliases, read_stored entry.port.toNat_lt hport,
    read_stored protoBase hproto, name, read_stored (by decide) aliasNull, proto⟩

end Serv

namespace Resolver

/-- The block is in guest memory, or the allocator's space is. -/
structure Roomy (r : Resolver) : Prop where
  small : r.mem.size < u32Size
  unset : r.sockets.scratchAddr = none →
    (∃ base, r.memMgr.Layout base) ∧ r.memMgr.limit ≤ r.mem.size
  block : ∀ addr, r.sockets.scratchAddr = some addr → addr + 256 ≤ r.mem.size

variable {r after : Resolver} {scratch : Nat}

theorem alloc_inside {mgr next : MemoryManager} {base size addr : Nat}
    (layout : mgr.Layout base) (nonzero : size ≠ 0) (h : mgr.alloc size = some (addr, next)) :
    addr + size ≤ mgr.limit := by
  obtain ⟨grown, limit⟩ := MemoryManager.layout_alloc layout nonzero h
  obtain ⟨rounded, enough, allocated⟩ := MemoryManager.alloc_allocated h
  have member : (⟨addr, rounded⟩ : AllocBlock) ∈ next.allocated := by simp [allocated]
  have inside := (grown.sound.inside _ member).2.2
  rw [limit] at inside
  exact (Nat.add_le_add_left enough addr).trans inside

/-- The block of a lookup: the one there is, a new one, or none. -/
theorem ensure_roomy (roomy : r.Roomy) (h : r.ensureHostentScratch = (scratch, after)) :
    after.Roomy ∧ after.mem = r.mem ∧
      (scratch ≠ 0 → after.sockets.scratchAddr = some scratch) ∧
      (∀ addr, r.sockets.scratchAddr = some addr → after.sockets.scratchAddr = some addr) := by
  unfold ensureHostentScratch at h
  split at h
  · rename_i addr there
    cases h
    exact ⟨roomy, rfl, fun _ => there, fun _ same => same⟩
  · rename_i unset
    split at h
    · rename_i addr memMgr fresh
      cases h
      obtain ⟨⟨base, layout⟩, limit⟩ := roomy.unset unset
      have inside := (alloc_inside layout (by decide) fresh).trans limit
      refine ⟨⟨roomy.small, nofun, ?_⟩, rfl, fun _ => rfl, ?_⟩
      · intro other same
        cases same
        exact inside
      · intro other same
        rw [unset] at same
        cases same
    · cases h
      exact ⟨roomy, rfl, fun some_ => absurd rfl some_, fun _ same => same⟩

theorem roomy_writes (roomy : r.Roomy) (result : Nat) (list : List (Nat × List UInt8)) :
    (r.writes result list).after.Roomy where
  small := by
    rw [writes, GuestMemory.putAll_size]
    exact roomy.small
  unset := by
    rw [writes, GuestMemory.putAll_size]
    exact roomy.unset
  block := by
    rw [writes, GuestMemory.putAll_size]
    exact roomy.block

theorem roomy_fails (roomy : r.Roomy) (code : Nat) : (r.fails code).after.Roomy :=
  ⟨roomy.small, roomy.unset, roomy.block⟩

end Resolver

namespace Lookups

/-- The invariant: both records lie in their parts of the block as they were written. -/
structure Kept (s : Lookups) : Prop where
  roomy : s.resolver.Roomy
  host : ∀ base entry, s.host = some (base, entry) →
    s.resolver.sockets.scratchAddr = some base ∧ entry.name.bytes.length < 216 ∧
      (s.serv = none ∨ entry.name.bytes.length < 24) ∧
      Stored s.resolver.mem (hostWrites base entry)
  serv : ∀ base entry, s.serv = some (base, entry) → ∃ scratch, base = scratch + 0x40 ∧
    s.resolver.sockets.scratchAddr = some scratch ∧ entry.Fits ∧
      Stored s.resolver.mem (servWrites scratch entry)

variable {s next : Lookups} {call : LookupCall}

theorem Fresh.kept (fresh : s.Fresh) : s.Kept where
  roomy := ⟨fresh.small, fun _ => ⟨fresh.layout, fresh.limit⟩, fun addr same => by
    rw [fresh.noScratch] at same
    cases same⟩
  host := fun base entry same => by
    rw [fresh.noHost] at same
    cases same
  serv := fun base entry same => by
    rw [fresh.noServ] at same
    cases same

theorem Kept.intact (kept : s.Kept) : s.Intact := by
  have below : ∀ addr, s.resolver.sockets.scratchAddr = some addr → addr + 256 < 2 ^ 32 := by
    intro addr here
    exact Nat.lt_of_le_of_lt (kept.roomy.block addr here) kept.roomy.small
  constructor
  · intro base entry same
    obtain ⟨here, _, _, stored⟩ := kept.host base entry same
    exact hostentAt_of_stored (below base here) stored
  · intro base entry same
    obtain ⟨scratch, rfl, here, fits, stored⟩ := kept.serv base entry same
    exact serventAt_of_stored (below scratch here) fits stored

/-- A lookup that makes no record leaves both where they are. -/
theorem Kept.move (kept : s.Kept) {after : Resolver} (roomy : after.Roomy)
    (mem : after.mem = s.resolver.mem)
    (block : ∀ addr, s.resolver.sockets.scratchAddr = some addr →
      after.sockets.scratchAddr = some addr) : Kept { s with resolver := after } where
  roomy := roomy
  host := by
    intro base entry same
    obtain ⟨here, room, apart, stored⟩ := kept.host base entry same
    exact ⟨block base here, room, apart, mem ▸ stored⟩
  serv := by
    intro base entry same
    obtain ⟨scratch, rfl, here, fits, stored⟩ := kept.serv base entry same
    exact ⟨scratch, rfl, block scratch here, fits, mem ▸ stored⟩

theorem Kept.writeHost (kept : s.Kept) {scratch : Nat} {entry : HostEntry}
    (here : s.resolver.sockets.scratchAddr = some scratch)
    (fits : entry.name.bytes.length < 24 ∨ s.serv = none ∧ entry.name.bytes.length < 216) :
    Kept { s with
      resolver := (s.resolver.writes scratch (hostWrites scratch entry)).after
      host := some (scratch, entry) } := by
  have room := kept.roomy.block scratch here
  have inside := hostWrites_inRange scratch entry
  refine ⟨Resolver.roomy_writes kept.roomy scratch _, ?_, ?_⟩
  · intro base other same
    cases same
    refine ⟨here, by omega, ?_, ?_⟩
    · rcases fits with short | ⟨none, _⟩
      · exact Or.inr short
      · exact Or.inl none
    · dsimp only
      rw [Resolver.writes_mem]
      exact stored_putAll inside (by omega) (hostWrites_apart scratch entry)
  · intro base other same
    obtain ⟨there, rfl, there_, otherFits, stored⟩ := kept.serv base other same
    rw [here] at there_
    cases there_
    have short : entry.name.bytes.length < 24 := by
      apply fits.resolve_right
      intro ⟨unset, _⟩
      rw [unset] at same
      cases same
    refine ⟨scratch, rfl, here, otherFits, ?_⟩
    dsimp only
    rw [Resolver.writes_mem]
    exact stored.putAll inside (by omega) (servWrites_inRange scratch otherFits) (.inl (by omega))

theorem Kept.writeServ (kept : s.Kept) {scratch : Nat} {entry : ServEntry}
    (here : s.resolver.sockets.scratchAddr = some scratch) (fits : entry.Fits)
    (short : ∀ base host, s.host = some (base, host) → host.name.bytes.length < 24) :
    Kept { s with
      resolver := (s.resolver.writes (scratch + 0x40) (servWrites scratch entry)).after
      serv := some (scratch + 0x40, entry) } := by
  have room := kept.roomy.block scratch here
  have inside := servWrites_inRange scratch fits
  refine ⟨Resolver.roomy_writes kept.roomy (scratch + 0x40) _, ?_, ?_⟩
  · intro base other same
    obtain ⟨there, low, _, stored⟩ := kept.host base other same
    have name := short base other same
    rw [here] at there
    cases there
    refine ⟨here, low, .inr name, ?_⟩
    dsimp only
    rw [Resolver.writes_mem]
    exact stored.putAll inside room (hostWrites_inRange scratch other) (.inr (by omega))
  · intro base other same
    cases same
    refine ⟨scratch, rfl, here, fits, ?_⟩
    dsimp only
    rw [Resolver.writes_mem]
    exact stored_putAll inside room (servWrites_apart scratch entry)

/-- What a lookup that fits does: it returns, writes in the block, and keeps the records. -/
structure Served (s : Lookups) (call : LookupCall) (outcome : LookupOutcome) : Prop where
  returns : call.run s.resolver = some outcome
  inBlock : ∀ write ∈ outcome.writes, ∃ scratch,
    outcome.after.sockets.scratchAddr = some scratch ∧ scratch ≤ write.1 ∧
      write.1 + write.2.length ≤ scratch + 256
  kept : (s.next call outcome).Kept

theorem Kept.failed (kept : s.Kept) (code : Nat) :
    Kept { s with resolver := (s.resolver.fails code).after } :=
  kept.move (Resolver.roomy_fails kept.roomy code) rfl fun _ same => same

/-- The block that a lookup asks for moves no record, and has its place in memory. -/
theorem Kept.ensured (kept : s.Kept) {scratch : Nat} {after : Resolver}
    (ensured : s.resolver.ensureHostentScratch = (scratch, after)) :
    Kept { s with resolver := after } ∧ (scratch ≠ 0 →
      after.sockets.scratchAddr = some scratch ∧ scratch + 256 < 2 ^ 32) := by
  obtain ⟨roomy, mem, set, keeps⟩ := Resolver.ensure_roomy kept.roomy ensured
  apply And.intro (kept.move roomy mem keeps)
  intro there
  exact ⟨set there, Nat.lt_of_le_of_lt (roomy.block scratch (set there)) roomy.small⟩

/-- A lookup that has no block. -/
theorem Kept.served_none {after : Resolver} {entry : Entry}
    (moved : Kept { s with resolver := after })
    (resolved : call.resolved s.resolver.mem = .ok entry)
    (run : call.run s.resolver = some (after.fails soceNobufs)) :
    s.Served call (after.fails soceNobufs) := by
  refine ⟨run, nofun, ?_⟩
  rw [next, resolved]
  cases entry with
  | host _ => exact moved.failed soceNobufs
  | serv _ => exact moved.failed soceNobufs

theorem Kept.served_host (kept : s.Kept) {entry : HostEntry}
    (resolved : call.resolved s.resolver.mem = .ok (.host entry))
    (fits : entry.name.bytes.length < 24 ∨ s.serv = none ∧ entry.name.bytes.length < 216) :
    ∃ outcome, s.Served call outcome := by
  have run : call.run s.resolver = writeHostentToScratch s.resolver entry := by
    rw [LookupCall.run, resolved]
  cases ensured : s.resolver.ensureHostentScratch with
  | mk scratch after =>
    obtain ⟨moved, block⟩ := kept.ensured ensured
    rw [writeHostentToScratch, ensured] at run
    dsimp only at run
    by_cases zero : scratch = 0
    · rw [if_pos zero] at run
      exact ⟨_, moved.served_none resolved run⟩
    · obtain ⟨here, small⟩ := block zero
      rw [if_neg zero, hostentWrites_eq small] at run
      refine ⟨after.writes scratch (hostWrites scratch entry), run, ?_, ?_⟩
      · intro write member
        have range := hostWrites_inRange scratch entry write member
        exact ⟨scratch, here, range.1, by omega⟩
      · have some_ : (after.writes scratch (hostWrites scratch entry)).result ≠ 0 := zero
        rw [next, resolved]
        dsimp only
        rw [record, if_neg some_]
        exact moved.writeHost here fits

theorem Kept.served_serv (kept : s.Kept) {entry : ServEntry}
    (resolved : call.resolved s.resolver.mem = .ok (.serv entry)) (fits : entry.Fits)
    (short : ∀ base host, s.host = some (base, host) → host.name.bytes.length < 24) :
    ∃ outcome, s.Served call outcome := by
  have run : call.run s.resolver = writeServentToScratch s.resolver entry := by
    rw [LookupCall.run, resolved]
  cases ensured : s.resolver.ensureHostentScratch with
  | mk scratch after =>
    obtain ⟨moved, block⟩ := kept.ensured ensured
    rw [writeServentToScratch, ensured] at run
    dsimp only at run
    by_cases zero : scratch = 0
    · rw [if_pos zero] at run
      exact ⟨_, moved.served_none resolved run⟩
    · obtain ⟨here, small⟩ := block zero
      rw [if_neg zero, serventWrites_eq small fits, addWord_of_lt (by omega)] at run
      refine ⟨after.writes (scratch + 0x40) (servWrites scratch entry), run, ?_, ?_⟩
      · intro write member
        have range := servWrites_inRange scratch fits write member
        exact ⟨scratch, here, by omega, range.2⟩
      · have some_ : (after.writes (scratch + 0x40) (servWrites scratch entry)).result ≠ 0 :=
          Nat.succ_ne_zero _
        rw [next, resolved]
        dsimp only
        rw [record, if_neg some_]
        exact moved.writeServ here fits short

theorem Kept.served (kept : s.Kept) (fits : s.Fits call) : ∃ outcome, s.Served call outcome := by
  unfold Fits at fits
  cases resolved : call.resolved s.resolver.mem with
  | error code =>
    refine ⟨s.resolver.fails code, by rw [LookupCall.run, resolved], nofun, ?_⟩
    rw [next, resolved]
    exact kept.failed code
  | ok found =>
    rw [resolved] at fits
    cases found with
    | host entry => exact kept.served_host resolved fits
    | serv entry => exact kept.served_serv resolved fits.1 fits.2

theorem Kept.run {finish : Lookups} {calls : List LookupCall} (kept : s.Kept)
    (run : Run (lookupStep.guarded Fits) s calls finish) : finish.Kept := by
  apply run.invariant Kept _ kept
  intro start call finish kept step
  obtain ⟨fits, outcome, returns, rfl⟩ := step
  obtain ⟨other, served⟩ := kept.served fits
  have same : other = outcome := Option.some.inj (served.returns.symm.trans returns)
  exact same ▸ served.kept

end Lookups

/-- As long as all names fit, both records can be read back after every lookup, and the next
lookup does not panic and writes in the block only. -/
theorem lookups_intact {start finish : Lookups} {calls : List LookupCall} (fresh : start.Fresh)
    (run : Run (lookupStep.guarded Lookups.Fits) start calls finish) :
    finish.Intact ∧ ∀ call, finish.Fits call → finish.Safe call := by
  have kept := fresh.kept.run run
  apply And.intro kept.intact
  intro call fits
  obtain ⟨outcome, served⟩ := kept.served fits
  exact ⟨outcome, served.returns, served.inBlock⟩

/-- An allocator of 12 KiB, and nothing looked up. -/
def scratchStart : Lookups where
  resolver := { mem := ⟨16384, fun _ => 0⟩, memMgr := .new 4096 16384, sockets := .new }
  host := none
  serv := none

theorem scratchStart_fresh : scratchStart.Fresh where
  noScratch := rfl
  noHost := rfl
  noServ := rfl
  layout := ⟨_, MemoryManager.layout_new 4096 16384⟩
  limit := by decide
  small := by decide

/-- A name of so many letters. -/
def letters (count : Nat) : CName where
  bytes := List.replicate count 97
  noNul := by simp [List.mem_replicate]

/-- `http` of `tcp`, whose port is in network byte order. -/
def httpTcp : ServEntry where
  name := ⟨[104, 116, 116, 112], by decide⟩
  port := 0x5000
  proto := ⟨[116, 99, 112], by decide⟩

/-- A service and a host of a short name. -/
theorem short_host_intact : ∃ finish, Run (lookupStep.guarded Lookups.Fits) scratchStart
    [.getservbyname (some httpTcp), .gethostbyname (letters 9) (some #v[10, 0, 0, 1])] finish ∧
      finish.Intact := by
  have run : Run (lookupStep.guarded Lookups.Fits) scratchStart
      [.getservbyname (some httpTcp), .gethostbyname (letters 9) (some #v[10, 0, 0, 1])] _ :=
    .cons ⟨⟨by decide, nofun⟩, _, rfl, rfl⟩ (.cons ⟨.inl (by decide), _, rfl, rfl⟩ (.nil _))
  exact ⟨_, run, (lookups_intact scratchStart_fresh run).1⟩

/-- A host's name of 26 bytes runs into the service record behind it. -/
theorem long_host_damages : ∃ finish, Run lookupStep scratchStart
    [.getservbyname (some httpTcp), .gethostbyname (letters 26) (some #v[10, 0, 0, 1])] finish ∧
      ¬ finish.Intact := by
  refine ⟨_, .cons ⟨_, rfl, rfl⟩ (.cons ⟨_, rfl, rfl⟩ (.nil _)), ?_⟩
  intro intact
  obtain ⟨name, _, _, here, _, _, _, string, _⟩ := intact.serv 4160 httpTcp rfl
  -- the name's pointer is two letters now, and points out of guest memory
  have place : name = 0x6161 := Option.some.inj (here.symm.trans rfl)
  rw [place] at string
  exact absurd string (by unfold CStringAt; decide)

end Warpine.Loader
