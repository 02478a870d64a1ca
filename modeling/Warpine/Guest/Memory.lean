import Warpine.Lib.Memory

/-! Guest physical memory. Every access is checked against its size; a write
that does not fit changes nothing, and most callers ignore that it failed. -/
namespace Warpine.Guest
open Warpine.Lib

structure GuestMemory where
  size : Nat
  bytes : ByteStore

namespace GuestMemory

/-- `ptr_at` grants an access of `len` bytes. -/
def inBounds (mem : GuestMemory) (offset len : Nat) : Bool := offset + len ≤ mem.size

def writeBytes (mem : GuestMemory) (offset : Nat) (data : List UInt8) : Option GuestMemory :=
  if mem.inBounds offset data.length then some { mem with bytes := mem.bytes.store offset data }
  else none

/-- A value of `width` bytes. -/
def write (mem : GuestMemory) (width offset value : Nat) : Option GuestMemory :=
  mem.writeBytes offset (leBytes width value)

def slice (mem : GuestMemory) (offset len : Nat) : Option (List UInt8) :=
  if mem.inBounds offset len then some (mem.bytes.load offset len) else none

def read (mem : GuestMemory) (width offset : Nat) : Option Nat :=
  (mem.slice offset width).map leValue

/-- A write whose result the caller drops. -/
def putBytes (mem : GuestMemory) (offset : Nat) (data : List UInt8) : GuestMemory :=
  (mem.writeBytes offset data).getD mem

def put (mem : GuestMemory) (width offset value : Nat) : GuestMemory :=
  mem.putBytes offset (leBytes width value)

/-- A write through a pointer argument that may be null. -/
def putAt (mem : GuestMemory) (width ptr value : Nat) : GuestMemory :=
  if ptr ≠ 0 then mem.put width ptr value else mem

/-- Several writes whose results the caller drops. -/
def putAll (mem : GuestMemory) (writes : List (Nat × List UInt8)) : GuestMemory :=
  writes.foldl (fun mem write => mem.putBytes write.1 write.2) mem

/-- Several writes, of which each has to fit. -/
def writeAll (mem : GuestMemory) (writes : List (Nat × List UInt8)) : Option GuestMemory :=
  writes.foldlM (fun mem write => mem.writeBytes write.1 write.2) mem

variable (mem : GuestMemory) {offset : Nat} {data : List UInt8}

theorem putBytes_of_inBounds (h : mem.inBounds offset data.length) :
    mem.putBytes offset data = { mem with bytes := mem.bytes.store offset data } := by
  simp [putBytes, writeBytes, h]

theorem putBytes_of_not_inBounds (h : mem.inBounds offset data.length = false) :
    mem.putBytes offset data = mem := by
  simp [putBytes, writeBytes, h]

@[simp] theorem putBytes_size : (mem.putBytes offset data).size = mem.size := by
  unfold putBytes writeBytes
  split <;> simp

@[simp] theorem putAll_size (writes : List (Nat × List UInt8)) :
    (mem.putAll writes).size = mem.size := by
  induction writes generalizing mem with
  | nil => rfl
  | cons write rest ih => exact (ih (mem.putBytes write.1 write.2)).trans mem.putBytes_size

theorem slice_putBytes (h : mem.inBounds offset data.length) :
    (mem.putBytes offset data).slice offset data.length = some data := by
  rw [putBytes_of_inBounds mem h]
  have hbounds : inBounds { mem with bytes := mem.bytes.store offset data } offset data.length =
    true := h
  simp [slice, hbounds]

theorem slice_putBytes_apart {other len : Nat} (h : Apart offset data.length other len) :
    (mem.putBytes offset data).slice other len = mem.slice other len := by
  cases hbounds : mem.inBounds offset data.length with
  | true =>
    rw [putBytes_of_inBounds mem hbounds]
    simp [slice, inBounds, ByteStore.load_store_apart mem.bytes h]
  | false => rw [putBytes_of_not_inBounds mem hbounds]

theorem slice_eq_some {len : Nat} : mem.slice offset len = some data ↔
    mem.inBounds offset len ∧ mem.bytes.load offset len = data := by
  unfold slice
  split <;> simp [*]

/-- A string that is written over. -/
theorem slice_putBytes_same_iff {other : Nat} {old : List UInt8}
    (h : mem.slice other old.length = some old) :
    (mem.putBytes offset data).slice other old.length = some old ↔
      (mem.inBounds offset data.length → ∀ i j, i < data.length → j < old.length →
        offset + i = other + j → data[i]? = old[j]?) := by
  obtain ⟨inside, load⟩ := mem.slice_eq_some.mp h
  cases hbounds : mem.inBounds offset data.length with
  | true =>
    rw [putBytes_of_inBounds mem hbounds, slice_eq_some, ← ByteStore.load_store_same_iff _ load]
    simpa [inBounds] using fun _ => inside
  | false =>
    rw [putBytes_of_not_inBounds mem hbounds]
    simpa using h

/-- A byte that a value does not go over. -/
theorem bytes_put_outside {width value addr : Nat}
    (h : addr < offset ∨ offset + width ≤ addr) :
    (mem.put width offset value).bytes addr = mem.bytes addr := by
  unfold put
  cases hbounds : mem.inBounds offset (leBytes width value).length with
  | true =>
    rw [putBytes_of_inBounds mem hbounds]
    exact mem.bytes.store_outside (by rwa [leBytes_length])
  | false => rw [putBytes_of_not_inBounds mem hbounds]

/-- A single byte. -/
theorem read_byte (offset : Nat) :
    mem.read 1 offset = if offset < mem.size then some (mem.bytes offset).toNat else none := by
  unfold read slice inBounds
  by_cases inside : offset < mem.size
  · have bound : offset + 1 ≤ mem.size := inside
    simp [inside, bound, ByteStore.load, leValue]
  · have bound : ¬ offset + 1 ≤ mem.size := inside
    simp [inside, bound]

theorem put_byte (byte : UInt8) (h : offset < mem.size) :
    mem.put 1 offset byte.toNat = { mem with bytes := mem.bytes.store offset [byte] } := by
  have bytes : leBytes 1 byte.toNat = [byte] := by
    rw [leBytes, UInt8.ofNat_toNat]
    rfl
  have bound : mem.inBounds offset [byte].length := decide_eq_true h
  rw [put, bytes, putBytes_of_inBounds mem bound]

/-- A string read in two parts. -/
theorem slice_append {left right : List UInt8} :
    mem.slice offset (left ++ right).length = some (left ++ right) ↔
      mem.slice offset left.length = some left ∧
        mem.slice (offset + left.length) right.length = some right := by
  unfold slice inBounds
  rw [List.length_append, ByteStore.load_append]
  by_cases hbounds : offset + (left.length + right.length) ≤ mem.size
  · have hleft : offset + left.length ≤ mem.size := by omega
    have hright : offset + left.length + right.length ≤ mem.size := by omega
    simp only [hbounds, hleft, hright, decide_true, if_true, Option.some.injEq]
    constructor
    · exact fun h => List.append_inj h (by simp)
    · rintro ⟨hl, hr⟩
      rw [hl, hr]
  · have hright : ¬ offset + left.length + right.length ≤ mem.size := by omega
    simp [hbounds, hright]

/-- A part of a string. -/
theorem slice_part {off len : Nat} (h : mem.slice offset data.length = some data)
    (inside : off + len ≤ data.length) :
    mem.slice (offset + off) len = some ((data.drop off).take len) := by
  have hparts : data = data.take off ++ ((data.drop off).take len ++ data.drop (off + len)) := by
    rw [← List.drop_drop, List.take_append_drop, List.take_append_drop]
  have hfront : (data.take off).length = off := by
    rw [List.length_take]
    omega
  have hmiddle : ((data.drop off).take len).length = len := by
    rw [List.length_take, List.length_drop]
    omega
  rw [hparts] at h
  have hslice := (mem.slice_append.mp (mem.slice_append.mp h).2).1
  rwa [hfront, hmiddle] at hslice

/-- Writing over the front of a string. -/
theorem slice_putBytes_front {front tail : List UInt8}
    (h : mem.slice offset (front ++ tail).length = some (front ++ tail))
    (same : data.length = front.length) :
    (mem.putBytes offset data).slice offset (data ++ tail).length = some (data ++ tail) := by
  obtain ⟨hfront, htail⟩ := mem.slice_append.mp h
  have hbounds : mem.inBounds offset data.length := by
    unfold slice at hfront
    split at hfront
    · rw [same]
      assumption
    · cases hfront
  rw [slice_append]
  refine ⟨mem.slice_putBytes hbounds, ?_⟩
  rw [mem.slice_putBytes_apart (Or.inl (Nat.le_refl _)), same]
  exact htail

/-- Each of several strings side by side is there when all of them are. -/
theorem slice_sideBySide {parts : List (List UInt8)}
    (h : mem.slice offset parts.flatten.length = some parts.flatten) :
    ∀ write ∈ ByteStore.sideBySide offset parts,
      mem.slice write.1 write.2.length = some write.2 := by
  induction parts generalizing offset with
  | nil => simp [ByteStore.sideBySide]
  | cons bytes rest ih =>
    rw [List.flatten_cons, slice_append] at h
    exact List.forall_mem_cons.mpr ⟨h.1, ih h.2⟩

theorem read_eq_some {width value : Nat} :
    mem.read width offset = some value ↔
      value < 256 ^ width ∧ mem.slice offset width = some (leBytes width value) := by
  unfold read
  rw [Option.map_eq_some_iff]
  constructor
  · rintro ⟨bytes, hslice, rfl⟩
    have hlength : bytes.length = width := by
      unfold slice at hslice
      split at hslice
      · cases hslice
        exact mem.bytes.load_length offset width
      · cases hslice
    subst hlength
    exact ⟨leValue_lt bytes, by rw [leBytes_leValue]; exact hslice⟩
  · rintro ⟨hsmall, hslice⟩
    exact ⟨_, hslice, leValue_leBytes hsmall⟩

theorem read_put {width value : Nat} (small : value < 256 ^ width)
    (h : mem.inBounds offset width) :
    (mem.put width offset value).read width offset = some value := by
  have hslice := mem.slice_putBytes (show mem.inBounds offset (leBytes width value).length by
    rwa [leBytes_length])
  rw [leBytes_length] at hslice
  exact (read_eq_some _).mpr ⟨small, hslice⟩

/-- Writes side by side that fit are one write. -/
theorem putAll_sideBySide {parts : List (List UInt8)}
    (h : mem.inBounds offset parts.flatten.length) :
    mem.putAll (ByteStore.sideBySide offset parts) = mem.putBytes offset parts.flatten := by
  rw [putBytes_of_inBounds mem h]
  induction parts generalizing mem offset with
  | nil => simp [ByteStore.sideBySide, putAll]
  | cons bytes rest ih =>
    have hbounds : offset + (bytes :: rest).flatten.length ≤ mem.size := of_decide_eq_true h
    rw [List.flatten_cons, List.length_append] at hbounds
    have hhead : mem.inBounds offset bytes.length := decide_eq_true (by omega)
    have htail : inBounds { mem with bytes := mem.bytes.store offset bytes }
        (offset + bytes.length) rest.flatten.length := decide_eq_true (by dsimp only; omega)
    have hrest := ih { mem with bytes := mem.bytes.store offset bytes } htail
    unfold putAll at hrest ⊢
    rw [ByteStore.sideBySide, List.foldl_cons, putBytes_of_inBounds mem hhead, hrest]
    simp only [ByteStore.store_append, List.flatten_cons]

theorem writeAll_eq_some {writes : List (Nat × List UInt8)} {next : GuestMemory} :
    mem.writeAll writes = some next ↔
      (∀ write ∈ writes, mem.inBounds write.1 write.2.length) ∧
        next = { mem with bytes := mem.bytes.storeAll writes } := by
  induction writes generalizing mem with
  | nil =>
    simp only [writeAll, List.foldlM_nil, Option.pure_def, Option.some.injEq]
    constructor
    · rintro rfl
      exact ⟨by simp, rfl⟩
    · rintro ⟨_, rfl⟩
      rfl
  | cons write rest ih =>
    unfold writeAll at ih ⊢
    rw [List.foldlM_cons, Option.bind_eq_bind, Option.bind_eq_some_iff]
    constructor
    · rintro ⟨middle, hwrite, hrest⟩
      unfold writeBytes at hwrite
      split at hwrite
      · rename_i hbounds
        cases hwrite
        obtain ⟨hall, rfl⟩ := (ih _).mp hrest
        exact ⟨List.forall_mem_cons.mpr ⟨hbounds, hall⟩, rfl⟩
      · cases hwrite
    · rintro ⟨hall, rfl⟩
      obtain ⟨hbounds, hall⟩ := List.forall_mem_cons.mp hall
      exact ⟨{ mem with bytes := mem.bytes.store write.1 write.2 },
        by rw [writeBytes, if_pos hbounds], (ih _).mpr ⟨hall, rfl⟩⟩

/-- What a write that was made among others apart from it leaves at its place. -/
theorem slice_writeAll {writes : List (Nat × List UInt8)} {next : GuestMemory}
    (h : mem.writeAll writes = some next) (apart : writes.Pairwise ByteStore.WritesApart)
    {write : Nat × List UInt8} (member : write ∈ writes) :
    next.slice write.1 write.2.length = some write.2 := by
  obtain ⟨hbounds, rfl⟩ := (mem.writeAll_eq_some).mp h
  have hin : inBounds { mem with bytes := mem.bytes.storeAll writes } write.1 write.2.length =
    true := hbounds write member
  simp only [slice, hin, if_true, ByteStore.load_storeAll mem.bytes apart member]

theorem slice_writeAll_apart {writes : List (Nat × List UInt8)} {next : GuestMemory}
    {other len : Nat} (h : mem.writeAll writes = some next)
    (apart : ∀ write ∈ writes, Apart write.1 write.2.length other len) :
    next.slice other len = mem.slice other len := by
  obtain ⟨_, rfl⟩ := (mem.writeAll_eq_some).mp h
  simp only [slice, inBounds, ByteStore.load_storeAll_apart mem.bytes other len apart]
  rfl

variable {mem} {next : GuestMemory} {width value : Nat}

theorem write_eq_some (h : mem.write width offset value = some next) :
    mem.inBounds offset width ∧ next = mem.put width offset value := by
  unfold write writeBytes at h
  split at h
  · rename_i hbounds
    cases h
    exact ⟨by rwa [leBytes_length] at hbounds, (mem.putBytes_of_inBounds hbounds).symm⟩
  · contradiction

theorem read_write (h : mem.write width offset value = some next) (small : value < 256 ^ width) :
    next.read width offset = some value := by
  obtain ⟨hbounds, rfl⟩ := write_eq_some h
  exact mem.read_put small hbounds

theorem slice_put_apart {other len : Nat} (apart : Apart offset width other len) :
    (mem.put width offset value).slice other len = mem.slice other len :=
  mem.slice_putBytes_apart (by rwa [leBytes_length])

theorem slice_write_apart {other len : Nat} (h : mem.write width offset value = some next)
    (apart : Apart offset width other len) : next.slice other len = mem.slice other len := by
  obtain ⟨_, rfl⟩ := write_eq_some h
  exact slice_put_apart apart

/-- A word that can be read can be written. -/
theorem inBounds_of_read (h : mem.read width offset = some value) : mem.inBounds offset width := by
  have here := ((mem.read_eq_some).mp h).2
  unfold slice at here
  split at here
  · assumption
  · cases here

theorem read_lt (h : mem.read width offset = some value) : value < 256 ^ width :=
  ((mem.read_eq_some).mp h).1

end GuestMemory
end Warpine.Guest
