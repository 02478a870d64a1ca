import Warpine.Loader.Constants
import Warpine.Loader.FindFiles

/-! The records of a search buffer, as they are written and as the guest reads
them: what fits is found, in order. -/
namespace Warpine.Loader
open Warpine.Lib Warpine.Guest Warpine.Vfs ByteStore

def statusParts (status : FileStatus) : List (List UInt8) := [
  leBytes 2 status.creationDate.toNat, leBytes 2 status.creationTime.toNat,
  leBytes 2 status.lastAccessDate.toNat, leBytes 2 status.lastAccessTime.toNat,
  leBytes 2 status.lastWriteDate.toNat, leBytes 2 status.lastWriteTime.toNat,
  leBytes 4 status.fileSize.toNat, leBytes 4 status.fileAlloc.toNat,
  leBytes 4 status.attributes.bits.toNat]

/-- The fields of a record after its link. -/
def recordFields (includeEaSize : Bool) (entry : FoundEntry) : List (List UInt8) :=
  statusParts entry.status ++ (if includeEaSize then [leBytes 4 4] else []) ++
    [leBytes 1 entry.name.length, entry.name, [0]]

def recordBytes (includeEaSize : Bool) (next : Nat) (entry : FoundEntry) : List UInt8 :=
  leBytes 4 next ++ (recordFields includeEaSize entry).flatten

def recordSize (includeEaSize : Bool) (entry : FoundEntry) : Nat :=
  4 + 24 + eaFieldSize includeEaSize + 1 + entry.name.length + 1

theorem recordBytes_length (includeEaSize : Bool) (next : Nat) (entry : FoundEntry) :
    (recordBytes includeEaSize next entry).length = recordSize includeEaSize entry := by
  cases includeEaSize <;>
    simp [recordBytes, recordFields, statusParts, recordSize, eaFieldSize] <;> omega

/-- Where nothing wraps, the writes of a record lie side by side. -/
theorem entryWrites_eq (includeEaSize : Bool) {entryPtr : Nat} (entry : FoundEntry)
    (room : entryPtr + recordSize includeEaSize entry ≤ u32Size) :
    entryWrites includeEaSize entryPtr entry.status entry.name =
      sideBySide entryPtr (leBytes 4 0 :: recordFields includeEaSize entry) := by
  unfold recordSize at room
  cases includeEaSize <;> simp only [eaFieldSize, Bool.false_eq_true, if_true, if_false] at room <;>
    simp (disch := omega) [entryWrites, filestatus3Writes, recordFields, statusParts, eaFieldSize,
      sideBySide, wrapAdd_of_lt] <;> omega

variable {mem : GuestMemory}

theorem readEntry_eq {includeEaSize : Bool} {ptr next : Nat} {entry : FoundEntry}
    (h : mem.slice ptr (recordSize includeEaSize entry) =
      some (recordBytes includeEaSize next entry))
    (linkFits : next < u32Size) (nameFits : entry.name.length < 256) :
    readEntry includeEaSize mem ptr = some (next, entry) := by
  have hparts : (leBytes 4 next :: recordFields includeEaSize entry).flatten =
    recordBytes includeEaSize next entry := rfl
  rw [← recordBytes_length includeEaSize next entry, ← hparts] at h
  have hfields := mem.slice_sideBySide h
  have hnext : leValue (leBytes 4 next) = next := leValue_leBytes linkFits
  have hname : leValue (leBytes 1 entry.name.length) = entry.name.length :=
    leValue_leBytes nameFits
  cases includeEaSize <;>
    simp only [recordFields, statusParts, sideBySide, List.forall_mem_cons, leBytes_length,
      Nat.add_assoc, Nat.reduceAdd, if_true, if_false, Bool.false_eq_true, List.cons_append,
      List.nil_append] at hfields
  · simp [readEntry, readFileStatus, GuestMemory.read, eaFieldSize, Nat.add_assoc, hfields, hnext,
      hname]
  · simp [readEntry, readFileStatus, GuestMemory.read, eaFieldSize, Nat.add_assoc, hfields, hnext,
      hname]

/-- Records that lead to each other by their links, the last of which is zero. -/
def Linked (includeEaSize : Bool) (mem : GuestMemory) : Nat → FoundEntry → List FoundEntry → Prop
  | ptr, entry, [] => readEntry includeEaSize mem ptr = some (0, entry)
  | ptr, entry, other :: rest => ∃ next, next ≠ 0 ∧
      readEntry includeEaSize mem ptr = some (next, entry) ∧
        Linked includeEaSize mem (ptr + next) other rest

theorem Linked.readEntries {includeEaSize : Bool} {ptr : Nat} {entry : FoundEntry}
    {rest : List FoundEntry} (linked : Linked includeEaSize mem ptr entry rest) :
    readEntries includeEaSize mem (rest.length + 1) ptr = some (entry :: rest) := by
  induction rest generalizing ptr entry with
  | nil =>
    have last : readEntry includeEaSize mem ptr = some (0, entry) := linked
    simp [Loader.readEntries, last]
  | cons other rest ih =>
    obtain ⟨next, _, read, later⟩ := linked
    rw [List.length_cons, Loader.readEntries, read]
    simp [ih later]

def found (encode : Path → List UInt8) (entry : DirEntry) : FoundEntry :=
  ⟨nameBytes encode entry, entry.status⟩

section Pack

variable (encode : Path → List UInt8) (bufPtr bufLen : Nat) (includeEaSize : Bool)

/-- The entries that the loop writes, from an offset on. -/
def fitting : Nat → List DirEntry → List DirEntry
  | _, [] => []
  | offset, entry :: rest =>
      let size := entrySize encode includeEaSize entry
      if bufLen < offset + size then [] else entry :: fitting (offset + alignedSize size) rest

theorem entrySize_le (entry : DirEntry) : entrySize encode includeEaSize entry ≤ 289 := by
  have hname : (nameBytes encode entry).length ≤ 255 := by simp [nameBytes]
  unfold entrySize eaFieldSize
  split <;> omega

theorem fitting_initial (entries : List DirEntry) (offset : Nat) :
    fitting encode bufLen includeEaSize offset entries <+: entries := by
  induction entries generalizing offset with
  | nil => exact List.prefix_rfl
  | cons entry rest ih =>
    rw [fitting]
    split
    · exact List.nil_prefix
    · exact (List.prefix_cons_inj entry).mpr (ih _)

theorem fitting_length (entries : List DirEntry) (offset : Nat) :
    (fitting encode bufLen includeEaSize offset entries).length ≤ bufLen - offset := by
  induction entries generalizing offset with
  | nil => simp [fitting]
  | cons entry rest ih =>
    rw [fitting]
    split
    · simp
    · have hlow : 0 < entrySize encode includeEaSize entry := by unfold entrySize; omega
      have hroom : entrySize encode includeEaSize entry ≤
        alignedSize (entrySize encode includeEaSize entry) := by unfold alignedSize; omega
      have hrest := ih (offset + alignedSize (entrySize encode includeEaSize entry))
      rw [List.length_cons]
      omega

variable {encode bufPtr bufLen includeEaSize}

theorem linkPrevious_size (prev : Option Nat) (ptr : Nat) :
    (linkPrevious mem prev ptr).size = mem.size := by
  cases prev with
  | none => rfl
  | some prev => exact mem.putBytes_size

/-- A link is written over the first bytes of the record before. -/
theorem linkPrevious_apart {prev : Option Nat} {ptr a n : Nat}
    (apart : ∀ p ∈ prev, Apart p 4 a n) :
    (linkPrevious mem prev ptr).slice a n = mem.slice a n := by
  cases prev with
  | none => rfl
  | some prev =>
    apply mem.slice_putBytes_apart
    rw [leBytes_length]
    exact apart prev rfl

/-- Where the record fits, one round of the loop writes it as one string. -/
theorem packEntry_eq {st : PackState} {entry : DirEntry}
    (room : bufPtr + bufLen ≤ st.mem.size) (small : st.mem.size ≤ guestMemSize)
    (fits : st.offset + entrySize encode includeEaSize entry ≤ bufLen) :
    packEntry encode bufPtr includeEaSize st entry = {
      mem := linkPrevious (st.mem.putBytes (bufPtr + st.offset)
        (recordBytes includeEaSize 0 (found encode entry))) st.prevEntryPtr (bufPtr + st.offset)
      offset := st.offset + alignedSize (entrySize encode includeEaSize entry)
      count := st.count + 1
      prevEntryPtr := some (bufPtr + st.offset) } := by
  have hsize : entrySize encode includeEaSize entry =
    recordSize includeEaSize (found encode entry) := rfl
  have hlow := entrySize_le encode includeEaSize entry
  have hwords : guestMemSize + 512 ≤ u32Size := by decide
  have hptr : wrapAdd bufPtr st.offset = bufPtr + st.offset := wrapAdd_of_lt (by omega)
  have hoffset : wrapAdd st.offset (alignedSize (entrySize encode includeEaSize entry)) =
      st.offset + alignedSize (entrySize encode includeEaSize entry) :=
    wrapAdd_of_lt (by unfold alignedSize; omega)
  have hbounds : st.mem.inBounds (bufPtr + st.offset)
      (recordBytes includeEaSize 0 (found encode entry)).length :=
    decide_eq_true (by rw [recordBytes_length]; omega)
  have hwrites : st.mem.putAll (entryWrites includeEaSize (bufPtr + st.offset) entry.status
        (nameBytes encode entry)) =
      st.mem.putBytes (bufPtr + st.offset) (recordBytes includeEaSize 0 (found encode entry)) := by
    have hside := entryWrites_eq includeEaSize (found encode entry)
      (show bufPtr + st.offset + recordSize includeEaSize (found encode entry) ≤ u32Size by omega)
    exact (congrArg st.mem.putAll hside).trans (st.mem.putAll_sideBySide hbounds)
  unfold packEntry
  dsimp only
  rw [hptr, hoffset, hwrites]

theorem packEntry_size {st : PackState} {entry : DirEntry}
    (room : bufPtr + bufLen ≤ st.mem.size) (small : st.mem.size ≤ guestMemSize)
    (fits : st.offset + entrySize encode includeEaSize entry ≤ bufLen) :
    (packEntry encode bufPtr includeEaSize st entry).mem.size = st.mem.size := by
  rw [packEntry_eq room small fits]
  exact (linkPrevious_size _ _).trans st.mem.putBytes_size

/-- Bytes apart from the record and from the link before it are as they were. -/
theorem packEntry_apart {st : PackState} {entry : DirEntry} {a n : Nat}
    (room : bufPtr + bufLen ≤ st.mem.size) (small : st.mem.size ≤ guestMemSize)
    (fits : st.offset + entrySize encode includeEaSize entry ≤ bufLen)
    (apart : Apart (bufPtr + st.offset) (entrySize encode includeEaSize entry) a n)
    (link : ∀ p ∈ st.prevEntryPtr, Apart p 4 a n) :
    (packEntry encode bufPtr includeEaSize st entry).mem.slice a n = st.mem.slice a n := by
  rw [packEntry_eq room small fits]
  dsimp only
  rw [linkPrevious_apart link]
  apply st.mem.slice_putBytes_apart
  rw [recordBytes_length]
  exact apart

theorem packEntry_record {st : PackState} {entry : DirEntry}
    (room : bufPtr + bufLen ≤ st.mem.size) (small : st.mem.size ≤ guestMemSize)
    (fits : st.offset + entrySize encode includeEaSize entry ≤ bufLen)
    (before : ∀ p ∈ st.prevEntryPtr, p + 4 ≤ bufPtr + st.offset) :
    (packEntry encode bufPtr includeEaSize st entry).mem.slice (bufPtr + st.offset)
        (recordSize includeEaSize (found encode entry)) =
      some (recordBytes includeEaSize 0 (found encode entry)) := by
  have hsize : entrySize encode includeEaSize entry =
    recordSize includeEaSize (found encode entry) := rfl
  rw [packEntry_eq room small fits]
  dsimp only
  rw [linkPrevious_apart fun p hp => Or.inl (before p hp), ← recordBytes_length includeEaSize 0]
  apply st.mem.slice_putBytes
  apply decide_eq_true
  rw [recordBytes_length]
  omega

/-- The record before now links to the new one. -/
theorem packEntry_link {st : PackState} {entry : DirEntry} {p : Nat} {prev : FoundEntry}
    (room : bufPtr + bufLen ≤ st.mem.size) (small : st.mem.size ≤ guestMemSize)
    (fits : st.offset + entrySize encode includeEaSize entry ≤ bufLen)
    (hprev : st.prevEntryPtr = some p)
    (before : p + recordSize includeEaSize prev ≤ bufPtr + st.offset)
    (held : st.mem.slice p (recordSize includeEaSize prev) =
      some (recordBytes includeEaSize 0 prev)) :
    (packEntry encode bufPtr includeEaSize st entry).mem.slice p (recordSize includeEaSize prev) =
      some (recordBytes includeEaSize (bufPtr + st.offset - p) prev) := by
  have hwords : guestMemSize + 512 ≤ u32Size := by decide
  have hlow : 0 < entrySize encode includeEaSize entry := by unfold entrySize; omega
  have hlink : wrapSub (bufPtr + st.offset) p = bufPtr + st.offset - p :=
    wrapSub_of_le (by omega) (by omega)
  let written := st.mem.putBytes (bufPtr + st.offset)
    (recordBytes includeEaSize 0 (found encode entry))
  let tail := (recordFields includeEaSize prev).flatten
  have hheld : written.slice p (leBytes 4 0 ++ tail).length = some (leBytes 4 0 ++ tail) := by
    change written.slice p (recordBytes includeEaSize 0 prev).length = _
    rw [recordBytes_length, st.mem.slice_putBytes_apart]
    · exact held
    · rw [recordBytes_length]
      exact Or.inr before
  have hover := written.slice_putBytes_front hheld
    (show (leBytes 4 (bufPtr + st.offset - p)).length = (leBytes 4 0).length by simp)
  rw [packEntry_eq room small fits, hprev]
  dsimp only [linkPrevious, GuestMemory.put]
  rw [hlink, ← recordBytes_length includeEaSize (bufPtr + st.offset - p)]
  exact hover

/-- One turn of the loop, without the wrapping of its sum. -/
theorem packEntries_cons {entry : DirEntry} {rest : List DirEntry} {st : PackState}
    (small : bufLen ≤ guestMemSize) (offset : st.offset ≤ bufLen + 3) :
    packEntries encode bufPtr bufLen includeEaSize (entry :: rest) st =
      if bufLen < st.offset + entrySize encode includeEaSize entry then st
      else packEntries encode bufPtr bufLen includeEaSize rest
        (packEntry encode bufPtr includeEaSize st entry) := by
  have hlow := entrySize_le encode includeEaSize entry
  have hwords : guestMemSize + 512 ≤ u32Size := by decide
  rw [packEntries, wrapAdd_of_lt (by omega)]

/-- Only the buffer from the offset on changes, and the link of the last record. -/
theorem packEntries_apart {entries : List DirEntry} {st : PackState} {a n : Nat}
    (room : bufPtr + bufLen ≤ st.mem.size) (small : st.mem.size ≤ guestMemSize)
    (offset : st.offset ≤ bufLen + 3)
    (apart : bufPtr + bufLen ≤ a ∨ a + n ≤ bufPtr + st.offset)
    (link : ∀ p ∈ st.prevEntryPtr, Apart p 4 a n) :
    (packEntries encode bufPtr bufLen includeEaSize entries st).mem.slice a n =
      st.mem.slice a n := by
  induction entries generalizing st with
  | nil => rfl
  | cons entry rest ih =>
    rw [packEntries_cons (by omega) offset]
    split
    · rfl
    · rename_i hfits
      have hfits := Nat.le_of_not_lt hfits
      have hlow : 4 ≤ entrySize encode includeEaSize entry := by unfold entrySize; omega
      have hsize := packEntry_size room small hfits
      have hnext := packEntry_eq room small hfits
      have haligned : alignedSize (entrySize encode includeEaSize entry) ≤
        entrySize encode includeEaSize entry + 3 := by unfold alignedSize; omega
      rw [ih (by rw [hsize]; exact room) (by rw [hsize]; exact small)]
      · apply packEntry_apart room small hfits _ link
        unfold Apart
        omega
      · rw [hnext]
        dsimp only
        omega
      · rw [hnext]
        dsimp only
        omega
      · rw [hnext]
        intro p hp
        cases Option.some.inj hp
        unfold Apart
        omega

theorem packEntries_size {entries : List DirEntry} {st : PackState}
    (room : bufPtr + bufLen ≤ st.mem.size) (small : st.mem.size ≤ guestMemSize)
    (offset : st.offset ≤ bufLen + 3) :
    (packEntries encode bufPtr bufLen includeEaSize entries st).mem.size = st.mem.size ∧
      (packEntries encode bufPtr bufLen includeEaSize entries st).count =
        st.count + (fitting encode bufLen includeEaSize st.offset entries).length := by
  induction entries generalizing st with
  | nil => exact ⟨rfl, rfl⟩
  | cons entry rest ih =>
    rw [packEntries_cons (by omega) offset, fitting]
    split
    · exact ⟨rfl, rfl⟩
    · rename_i hfits
      have hfits := Nat.le_of_not_lt hfits
      have hsize := packEntry_size room small hfits
      have hnext := packEntry_eq room small hfits
      have haligned : alignedSize (entrySize encode includeEaSize entry) ≤
        entrySize encode includeEaSize entry + 3 := by unfold alignedSize; omega
      have hrest := @ih (packEntry encode bufPtr includeEaSize st entry)
        (by rw [hsize]; exact room) (by rw [hsize]; exact small)
        (by rw [hnext]; dsimp only; omega)
      rw [hrest.1, hrest.2, hsize, hnext]
      refine ⟨rfl, ?_⟩
      dsimp only
      rw [List.length_cons]
      omega

/-- From a record on, the guest comes by the links to that record and all that fit after
it. Its view may differ from what the loop leaves outside the buffer. -/
theorem linked_packEntries {entries : List DirEntry} {st : PackState} {p : Nat}
    {prev : FoundEntry} {view : GuestMemory} (room : bufPtr + bufLen ≤ st.mem.size)
    (small : st.mem.size ≤ guestMemSize) (offset : st.offset ≤ bufLen + 3)
    (hprev : st.prevEntryPtr = some p)
    (before : p + recordSize includeEaSize prev ≤ bufPtr + st.offset)
    (inside : bufPtr ≤ p ∧ p + recordSize includeEaSize prev ≤ bufPtr + bufLen)
    (held : st.mem.slice p (recordSize includeEaSize prev) =
      some (recordBytes includeEaSize 0 prev))
    (nameFits : prev.name.length < 256)
    (agree : ∀ a n, bufPtr ≤ a → a + n ≤ bufPtr + bufLen → view.slice a n =
      (packEntries encode bufPtr bufLen includeEaSize entries st).mem.slice a n) :
    Linked includeEaSize view p prev
      ((fitting encode bufLen includeEaSize st.offset entries).map (found encode)) := by
  induction entries generalizing st p prev with
  | nil => exact readEntry_eq ((agree p _ inside.1 inside.2).trans held) (by decide) nameFits
  | cons entry rest ih =>
    rw [packEntries_cons (by omega) offset] at agree
    rw [fitting]
    split at agree
    · rename_i hfull
      rw [if_pos hfull]
      exact readEntry_eq ((agree p _ inside.1 inside.2).trans held) (by decide) nameFits
    · rename_i hfits
      rw [if_neg hfits]
      have hfits := Nat.le_of_not_lt hfits
      have hwords : guestMemSize + 512 ≤ u32Size := by decide
      have hsize := packEntry_size room small hfits
      have hnext := packEntry_eq room small hfits
      have haligned : alignedSize (entrySize encode includeEaSize entry) ≤
        entrySize encode includeEaSize entry + 3 := by unfold alignedSize; omega
      have hroom : entrySize encode includeEaSize entry ≤
        alignedSize (entrySize encode includeEaSize entry) := by unfold alignedSize; omega
      have hentry : entrySize encode includeEaSize entry =
        recordSize includeEaSize (found encode entry) := rfl
      have hsmall : recordSize includeEaSize prev ≥ 4 := by unfold recordSize; omega
      have hoffset : (packEntry encode bufPtr includeEaSize st entry).offset =
        st.offset + alignedSize (entrySize encode includeEaSize entry) := by rw [hnext]
      have hlast : (packEntry encode bufPtr includeEaSize st entry).prevEntryPtr =
        some (bufPtr + st.offset) := by rw [hnext]
      have hrecord := packEntry_record room small hfits fun q hq => by
        rw [hprev] at hq
        cases Option.some.inj hq
        omega
      have hrest := ih (by rw [hsize]; exact room) (by rw [hsize]; exact small)
        (by rw [hoffset]; omega) hlast (by rw [hoffset]; omega) (by omega) hrecord
        (by simp [found, nameBytes]) agree
      rw [hoffset] at hrest
      have hlink : view.slice p (recordSize includeEaSize prev) =
          some (recordBytes includeEaSize (bufPtr + st.offset - p) prev) := by
        rw [agree p _ inside.1 inside.2, packEntries_apart (by rw [hsize]; exact room)
          (by rw [hsize]; exact small) (by rw [hoffset]; omega) (by rw [hoffset]; omega)
          fun q hq => ?_]
        · exact packEntry_link room small hfits hprev before held
        · rw [hlast] at hq
          cases Option.some.inj hq
          exact Or.inr before
      have hread := readEntry_eq hlink (by omega) nameFits
      have hstep : p + (bufPtr + st.offset - p) = bufPtr + st.offset := by omega
      refine ⟨_, by omega, hread, ?_⟩
      rw [hstep]
      exact hrest

/-- The records of the buffer, from the first on. -/
theorem linked_packed {entries rest : List DirEntry} {first : DirEntry} {view : GuestMemory}
    (room : bufPtr + bufLen ≤ mem.size) (small : mem.size ≤ guestMemSize)
    (fit : fitting encode bufLen includeEaSize 0 entries = first :: rest)
    (agree : ∀ a n, bufPtr ≤ a → a + n ≤ bufPtr + bufLen → view.slice a n =
      (packEntries encode bufPtr bufLen includeEaSize entries ⟨mem, 0, 0, none⟩).mem.slice a n) :
    Linked includeEaSize view bufPtr (found encode first) (rest.map (found encode)) := by
  cases entries with
  | nil => cases fit
  | cons entry others =>
    rw [packEntries_cons (by omega) (Nat.zero_le _)] at agree
    dsimp only at agree
    rw [fitting] at fit
    split at agree
    · rename_i hfull
      rw [if_pos hfull] at fit
      cases fit
    · rename_i hfits
      rw [if_neg hfits] at fit
      cases fit
      have hfits := Nat.le_of_not_lt hfits
      have hstart : (⟨mem, 0, 0, none⟩ : PackState).offset + entrySize encode includeEaSize first ≤
        bufLen := hfits
      have hnext := packEntry_eq room small hstart
      have hsize := packEntry_size room small hstart
      have hrecord := packEntry_record room small hstart fun q hq => nomatch hq
      have haligned : alignedSize (entrySize encode includeEaSize first) ≤
        entrySize encode includeEaSize first + 3 := by unfold alignedSize; omega
      have hroom : entrySize encode includeEaSize first ≤
        alignedSize (entrySize encode includeEaSize first) := by unfold alignedSize; omega
      have hentry : entrySize encode includeEaSize first =
        recordSize includeEaSize (found encode first) := rfl
      have hoffset : (packEntry encode bufPtr includeEaSize ⟨mem, 0, 0, none⟩ first).offset =
        0 + alignedSize (entrySize encode includeEaSize first) := by rw [hnext]
      have hread := linked_packEntries (by rw [hsize]; exact room)
        (by rw [hsize]; exact small) (by rw [hoffset]; omega) (by rw [hnext])
        (by rw [hoffset]; dsimp only; omega) (by dsimp only; omega) hrecord
        (by simp [found, nameBytes]) agree
      rw [hoffset] at hread
      exact hread

theorem readEntries_packed {entries : List DirEntry} {view : GuestMemory}
    (room : bufPtr + bufLen ≤ mem.size) (small : mem.size ≤ guestMemSize)
    (agree : ∀ a n, bufPtr ≤ a → a + n ≤ bufPtr + bufLen → view.slice a n =
      (packEntries encode bufPtr bufLen includeEaSize entries ⟨mem, 0, 0, none⟩).mem.slice a n) :
    readEntries includeEaSize view (fitting encode bufLen includeEaSize 0 entries).length bufPtr =
      some ((fitting encode bufLen includeEaSize 0 entries).map (found encode)) := by
  cases fit : fitting encode bufLen includeEaSize 0 entries with
  | nil => rfl
  | cons first rest =>
    have linked := (linked_packed room small fit agree).readEntries
    rwa [List.length_map] at linked

end Pack

/-- The buffer and the count cell lie in the guest's memory and share no byte. -/
structure FindBuffer.Valid (buffer : FindBuffer) (mem : GuestMemory) : Prop where
  small : mem.size ≤ guestMemSize
  room : buffer.bufPtr.toNat + buffer.bufLen.toNat ≤ mem.size
  count : buffer.pcFoundPtr ≠ 0 → buffer.pcFoundPtr.toNat + 4 ≤ mem.size ∧
    Apart buffer.pcFoundPtr.toNat 4 buffer.bufPtr.toNat buffer.bufLen.toNat

theorem FindBuffer.Valid.of_size {buffer : FindBuffer} {other : GuestMemory}
    (valid : buffer.Valid mem) (same : other.size = mem.size) : buffer.Valid other where
  small := same ▸ valid.small
  room := same ▸ valid.room
  count := same ▸ valid.count

/-- The loop's result in terms of the entries that fit. -/
theorem writeFilefindbuf3Multi_eq (encode : Path → List UInt8) (includeEaSize : Bool)
    {buffer : FindBuffer} (entries : List DirEntry) (valid : buffer.Valid mem) :
    ∃ packed : GuestMemory, packed.size = mem.size ∧
      (∀ view : GuestMemory, (∀ a n, buffer.bufPtr.toNat ≤ a →
          a + n ≤ buffer.bufPtr.toNat + buffer.bufLen.toNat → view.slice a n = packed.slice a n) →
        readEntries includeEaSize view
            (fitting encode buffer.bufLen.toNat includeEaSize 0 entries).length
            buffer.bufPtr.toNat =
          some ((fitting encode buffer.bufLen.toNat includeEaSize 0 entries).map
            (found encode))) ∧
      writeFilefindbuf3Multi encode mem entries buffer includeEaSize =
        (if (fitting encode buffer.bufLen.toNat includeEaSize 0 entries).length = 0 then
            errorBufferOverflow
          else 0,
          packed.putAt 4 buffer.pcFoundPtr.toNat
            (fitting encode buffer.bufLen.toNat includeEaSize 0 entries).length) := by
  let st := packEntries encode buffer.bufPtr.toNat buffer.bufLen.toNat includeEaSize entries
    ⟨mem, 0, 0, none⟩
  have hpacked : st.mem.size = mem.size ∧
      st.count = 0 + (fitting encode buffer.bufLen.toNat includeEaSize 0 entries).length :=
    packEntries_size valid.room valid.small (Nat.zero_le _)
  rw [Nat.zero_add] at hpacked
  refine ⟨st.mem, hpacked.1, fun view agree => ?_, ?_⟩
  · exact readEntries_packed valid.room valid.small agree
  · rw [← hpacked.2]
    rfl

theorem delivered_of_error {includeEaSize : Bool} {buffer : FindBuffer} {code : Nat}
    (h : code ≠ 0) : delivered includeEaSize buffer code mem = some [] :=
  if_pos h

/-- After a call the guest reads from its buffer the entries that fit. -/
theorem delivered_write {encode : Path → List UInt8} {includeEaSize : Bool} {buffer : FindBuffer}
    {entries : List DirEntry} (valid : buffer.Valid mem)
    (single : buffer.pcFoundPtr = 0 → entries.length ≤ 1) :
    delivered includeEaSize buffer
        (writeFilefindbuf3Multi encode mem entries buffer includeEaSize).1
        (writeFilefindbuf3Multi encode mem entries buffer includeEaSize).2 =
      some ((fitting encode buffer.bufLen.toNat includeEaSize 0 entries).map (found encode)) := by
  obtain ⟨packed, hsize, hread, hwrite⟩ :=
    writeFilefindbuf3Multi_eq encode includeEaSize entries valid
  have hle := (fitting_initial encode buffer.bufLen.toNat includeEaSize entries 0).length_le
  have hlimit := fitting_length encode buffer.bufLen.toNat includeEaSize entries 0
  have hword : buffer.bufLen.toNat < 256 ^ 4 := buffer.bufLen.toNat_lt
  rw [hwrite]
  dsimp only
  by_cases hnone : (fitting encode buffer.bufLen.toNat includeEaSize 0 entries).length = 0
  · rw [if_pos hnone, delivered_of_error (by decide), List.length_eq_zero_iff.mp hnone]
    rfl
  · rw [if_neg hnone]
    unfold delivered
    rw [if_neg (by decide)]
    by_cases hpc : buffer.pcFoundPtr = 0
    · have hone : (fitting encode buffer.bufLen.toNat includeEaSize 0 entries).length = 1 := by
        have := single hpc
        omega
      have hview := hread packed fun _ _ _ _ => rfl
      rw [hone] at hview
      simpa [hpc, GuestMemory.putAt] using hview
    · have hzero : buffer.pcFoundPtr.toNat ≠ 0 := by
        intro h
        exact hpc (UInt32.toNat_inj.mp h)
      obtain ⟨hcell, hapart⟩ := valid.count hpc
      rw [if_neg hpc, GuestMemory.putAt, if_pos hzero]
      rw [packed.read_put (by omega) (decide_eq_true (by omega))]
      apply hread
      intro a n hlow hhigh
      apply packed.slice_putBytes_apart
      rw [leBytes_length]
      exact (hapart.symm.shrink hlow hhigh).symm

end Warpine.Loader
