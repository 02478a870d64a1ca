import Warpine.Loader.FindRecords

/-! The buffer of one search call, as a guest reads it that follows the links of its
records, and what the call leaves alone around it. -/
namespace Warpine.Loader
open Warpine.Lib Warpine.Guest Warpine.Vfs

/-- The guest's walk along the links, until one is zero. -/
def linkedEntries (includeEaSize : Bool) (mem : GuestMemory) :
    Nat → Nat → Option (List FoundEntry)
  | 0, _ => none
  | fuel + 1, ptr => do
      let (next, entry) ← readEntry includeEaSize mem ptr
      if next = 0 then some [entry]
      else do
        let rest ← linkedEntries includeEaSize mem fuel (ptr + next)
        return entry :: rest

variable {mem : GuestMemory} {includeEaSize : Bool}

/-- Any fuel that is enough gives the records up to the one without a link. -/
theorem Linked.linkedEntries {ptr : Nat} {entry : FoundEntry} {rest : List FoundEntry}
    (linked : Linked includeEaSize mem ptr entry rest) {fuel : Nat} (enough : rest.length < fuel) :
    linkedEntries includeEaSize mem fuel ptr = some (entry :: rest) := by
  induction rest generalizing ptr entry fuel with
  | nil =>
    obtain ⟨more, rfl⟩ : ∃ more, fuel = more + 1 := ⟨fuel - 1, by omega⟩
    have last : readEntry includeEaSize mem ptr = some (0, entry) := linked
    simp [Loader.linkedEntries, last]
  | cons other rest ih =>
    obtain ⟨more, rfl⟩ : ∃ more, fuel = more + 1 := ⟨fuel - 1, by omega⟩
    rw [List.length_cons] at enough
    obtain ⟨next, some_, read, later⟩ := linked
    simp [Loader.linkedEntries, read, some_, ih later (show rest.length < more by omega)]

/-- What is around the buffer and the count cell. -/
def Outside (buffer : FindBuffer) (a n : Nat) : Prop :=
  Apart a n buffer.bufPtr.toNat buffer.bufLen.toNat ∧
    (buffer.pcFoundPtr ≠ 0 → Apart buffer.pcFoundPtr.toNat 4 a n)

/-- What a call has delivered: a number of entries from the front, in records linked to each
other, with their names as `name` gives them. -/
structure Delivers (name : DirEntry → List UInt8) (includeEaSize : Bool) (mem : GuestMemory)
    (entries : List DirEntry) (buffer : FindBuffer) (result : Nat × GuestMemory) (count : Nat) :
    Prop where
  code : result.1 = if count = 0 then errorBufferOverflow else 0
  counted : buffer.pcFoundPtr ≠ 0 → result.2.read 4 buffer.pcFoundPtr.toNat = some count
  among : count ≤ entries.length
  records : 0 < count → ∀ fuel, count ≤ fuel →
    linkedEntries includeEaSize result.2 fuel buffer.bufPtr.toNat =
      some ((entries.take count).map fun entry => ⟨name entry, entry.status⟩)
  size : result.2.size = mem.size
  rest : ∀ a n, Outside buffer a n → result.2.slice a n = mem.slice a n

section Write

variable {encode : Path → List UInt8} {entries : List DirEntry} {buffer : FindBuffer}

/-- The records fill the front of the buffer; a name is cut to 255 bytes. -/
theorem writeFilefindbuf3Multi_delivers (valid : buffer.Valid mem) :
    Delivers (nameBytes encode) includeEaSize mem entries buffer
      (writeFilefindbuf3Multi encode mem entries buffer includeEaSize)
      (fitting encode buffer.bufLen.toNat includeEaSize 0 entries).length := by
  have sizes := @packEntries_size encode buffer.bufPtr.toNat buffer.bufLen.toNat includeEaSize
    entries ⟨mem, 0, 0, none⟩ valid.room valid.small (Nat.zero_le _)
  have front := fitting_initial encode buffer.bufLen.toNat includeEaSize entries 0
  have limit := fitting_length encode buffer.bufLen.toNat includeEaSize entries 0
  have word : buffer.bufLen.toNat < 256 ^ 4 := buffer.bufLen.toNat_lt
  have result : writeFilefindbuf3Multi encode mem entries buffer includeEaSize =
      (if (fitting encode buffer.bufLen.toNat includeEaSize 0 entries).length = 0 then
          errorBufferOverflow
        else 0,
        (packEntries encode buffer.bufPtr.toNat buffer.bufLen.toNat includeEaSize entries
          ⟨mem, 0, 0, none⟩).mem.putAt 4 buffer.pcFoundPtr.toNat
            (fitting encode buffer.bufLen.toNat includeEaSize 0 entries).length) := by
    have count := sizes.2
    rw [Nat.zero_add] at count
    unfold writeFilefindbuf3Multi
    dsimp only
    rw [count]
  have spared {a n : Nat} (apart : Apart a n buffer.bufPtr.toNat buffer.bufLen.toNat) :
      (packEntries encode buffer.bufPtr.toNat buffer.bufLen.toNat includeEaSize entries
        ⟨mem, 0, 0, none⟩).mem.slice a n = mem.slice a n := by
    apply packEntries_apart valid.room valid.small (Nat.zero_le _)
    · unfold Apart at apart
      dsimp only
      omega
    · exact fun _ hp => nomatch hp
  have held {entry : DirEntry} {others : List DirEntry}
      (fit : fitting encode buffer.bufLen.toNat includeEaSize 0 entries = entry :: others)
      {view : GuestMemory} (agree : ∀ a n, buffer.bufPtr.toNat ≤ a →
        a + n ≤ buffer.bufPtr.toNat + buffer.bufLen.toNat → view.slice a n =
          (packEntries encode buffer.bufPtr.toNat buffer.bufLen.toNat includeEaSize entries
            ⟨mem, 0, 0, none⟩).mem.slice a n) : Linked includeEaSize view buffer.bufPtr.toNat
              (found encode entry) (others.map (found encode)) :=
    linked_packed valid.room valid.small fit agree
  rw [result]
  generalize packEntries encode buffer.bufPtr.toNat buffer.bufLen.toNat includeEaSize entries
    ⟨mem, 0, 0, none⟩ = st at sizes spared held ⊢
  generalize fit : fitting encode buffer.bufLen.toNat includeEaSize 0 entries = list at *
  have cut : entries.take list.length = list := List.prefix_iff_eq_take.mp front |>.symm
  have zero : buffer.pcFoundPtr ≠ 0 → buffer.pcFoundPtr.toNat ≠ 0 :=
    fun some_ none => some_ (UInt32.toNat_inj.mp none)
  have other {a n : Nat} (apart : buffer.pcFoundPtr ≠ 0 → Apart buffer.pcFoundPtr.toNat 4 a n) :
      (st.mem.putAt 4 buffer.pcFoundPtr.toNat list.length).slice a n = st.mem.slice a n := by
    unfold GuestMemory.putAt
    split
    · rename_i some_
      apply GuestMemory.slice_put_apart (apart _)
      rintro null
      rw [null] at some_
      exact some_ rfl
    · rfl
  constructor
  · rfl
  · intro some_
    rw [GuestMemory.putAt, if_pos (zero some_)]
    apply st.mem.read_put (by omega)
    have stored : st.mem.size = mem.size := sizes.1
    have cell := (valid.count some_).1
    exact decide_eq_true (by omega)
  · rw [← cut]
    exact List.length_take_le' ..
  · intro positive fuel enough
    dsimp only
    rw [cut]
    cases list with
    | nil => cases positive
    | cons entry others =>
      have linked := @held entry others rfl
        (st.mem.putAt 4 buffer.pcFoundPtr.toNat (entry :: others).length) fun a n low high =>
          other fun some_ => ((valid.count some_).2.symm.shrink low high).symm
      apply linked.linkedEntries
      rw [List.length_map]
      exact enough
  · have sized : (st.mem.putAt 4 buffer.pcFoundPtr.toNat list.length).size = st.mem.size := by
      unfold GuestMemory.putAt GuestMemory.put
      split
      · exact st.mem.putBytes_size
      · rfl
    exact sized.trans sizes.1
  · intro a n outside
    exact (other outside.2).trans (spared outside.1)

end Write

/-- For every list of entries, both levels and every buffer in the guest's memory: a call
writes nothing but its buffer and its count, and by the links from the start of the buffer
the guest comes to exactly as many entries as the count says. -/
theorem search_buffer_linked (encode : Path → List UInt8) (includeEaSize : Bool)
    {buffer : FindBuffer} (entries : List DirEntry) (valid : buffer.Valid mem) :
    ∃ count, Delivers (fun entry => (encode entry.name).take 255) includeEaSize mem entries buffer
      (writeFilefindbuf3Multi encode mem entries buffer includeEaSize) count :=
  ⟨_, writeFilefindbuf3Multi_delivers valid⟩

section Sample

def linkStatus : FileStatus := ⟨0x21, 0, 0x21, 0, 0x21, 0, 5, 5, ⟨0x20⟩⟩

def linkBuffer : FindBuffer := ⟨512, 1024, 16⟩

def linkMemory : GuestMemory := ⟨4096, fun _ => 0⟩

theorem linkBuffer_valid : linkBuffer.Valid linkMemory where
  small := by decide
  room := by decide
  count := fun _ => ⟨by decide, .inl (by decide)⟩

end Sample

theorem search_buffer_linked_two : ∃ count, Delivers
    (fun entry => (cpEncode noConversions entry.name 437).take 255) true linkMemory
    [⟨"A".toList, linkStatus⟩, ⟨"B".toList, linkStatus⟩] linkBuffer
    (writeFilefindbuf3Multi (cpEncode noConversions · 437) linkMemory
      [⟨"A".toList, linkStatus⟩, ⟨"B".toList, linkStatus⟩] linkBuffer true) count :=
  search_buffer_linked _ true _ linkBuffer_valid

/-- A name of 256 characters does not come whole. -/
theorem long_name_cut :
    ¬ ∀ (rs : EncodingRs) (cp : Nat) (includeEaSize : Bool) (mem : GuestMemory)
      (buffer : FindBuffer) (entries : List DirEntry), buffer.Valid mem →
        ∃ count, Delivers (fun entry => cpEncode rs entry.name cp) includeEaSize mem entries buffer
          (writeFilefindbuf3Multi (cpEncode rs · cp) mem entries buffer includeEaSize) count := by
  intro claim
  obtain ⟨count, whole⟩ := claim noConversions 437 false linkMemory linkBuffer
    [⟨List.replicate 256 'A', linkStatus⟩] linkBuffer_valid
  have cut := @writeFilefindbuf3Multi_delivers linkMemory false
    (cpEncode noConversions · 437) [⟨List.replicate 256 'A', linkStatus⟩] linkBuffer linkBuffer_valid
  have one : (fitting (cpEncode noConversions · 437) linkBuffer.bufLen.toNat false 0
    [⟨List.replicate 256 'A', linkStatus⟩]).length = 1 := by decide +kernel
  rw [one] at cut
  have same : some count = some 1 :=
    (whole.counted (by decide)).symm.trans (cut.counted (by decide))
  cases same
  have names := (whole.records (by decide) 1 (Nat.le_refl 1)).symm.trans
    (cut.records (by decide) 1 (Nat.le_refl 1))
  have lengths := congrArg (Option.map fun list => list.map fun entry => entry.name.length) names
  exact absurd lengths (by decide +kernel)

end Warpine.Loader
