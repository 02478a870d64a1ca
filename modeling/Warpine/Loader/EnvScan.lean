import Mathlib.Data.List.TakeWhile
import Warpine.Loader.CodepageStrings
import Warpine.Loader.FindFiles
import Warpine.Vcpu.Seh

/-! The search of the environment block: its strings one after the other, each entered
where the one before it is taken to end. -/
namespace Warpine.Loader
open Warpine.Lib Warpine.Guest Warpine.Vfs Warpine.Vcpu

def errorEnvvarNotFound : Nat := 204

def upperAscii (text : Path) : Path := text.map Char.toUpper

section Scan
variable (rs : EncodingRs) (cp : Nat) (mem : GuestMemory)

/-- A string is a variable's when it starts with the name and an equals sign. -/
def startsEntry (name entry : Path) : Bool :=
  (upperAscii (name ++ ['='])).isPrefixOf (upperAscii entry)

/-- The cursor goes on by the length of the decoded string. -/
def scanEnv (name : Path) (ppValue : Nat) : Nat → Nat → Nat × GuestMemory
  | 0, _ => (errorEnvvarNotFound, mem)
  | turns + 1, cursor =>
    let entry := readGuestString rs cp mem cursor
    if entry = [] then (errorEnvvarNotFound, mem)
    else if startsEntry name entry then
      let valueOffset := wrapAdd cursor (HostDir.utf8Len (name ++ ['=']))
      (0, mem.put 4 ppValue valueOffset)
    else scanEnv name ppValue turns (wrapAdd cursor (HostDir.utf8Len entry + 1))

/-- Every turn moves on, so that as many turns as bytes are enough. -/
def dosScanEnv (pszName ppValue : Nat) : Nat × GuestMemory :=
  let name := readGuestString rs cp mem pszName
  if name = [] then (errorEnvvarNotFound, mem)
  else match mem.read 4 (pibBase + 0x10) with
    | some envAddr => scanEnv rs cp mem name ppValue (mem.size + 1) envAddr
    | none => (errorEnvvarNotFound, mem)

/-- The bytes that a read of a string takes: those up to a zero, of at most 4096. -/
def guestBytes (ptr : Nat) : List UInt8 :=
  if mem.size ≤ ptr then []
  else (mem.bytes.load ptr (min maxGuestStringLen (mem.size - ptr))).takeWhile (· ≠ 0)

/-- Where the scan reads strings, and what it takes of each. -/
def scanReads (name : Path) : Nat → Nat → List (Nat × List UInt8)
  | 0, _ => []
  | turns + 1, cursor =>
    let entry := readGuestString rs cp mem cursor
    if entry = [] ∨ startsEntry name entry then [(cursor, guestBytes mem cursor)]
    else
      let next := wrapAdd cursor (HostDir.utf8Len entry + 1)
      (cursor, guestBytes mem cursor) :: scanReads name turns next

end Scan

section Block
variable (rs : EncodingRs) (cp : Nat)

/-- An environment block: strings, each with its zero, and an empty one. -/
def blockBytes (entries : List (List UInt8)) : List UInt8 :=
  entries.flatMap (· ++ [0]) ++ [0]

/-- The string is the variable's; upper and lower case letters of ASCII are the same. -/
def IsVariable (name : Path) (entry : List UInt8) : Prop :=
  startsEntry name (cpDecode rs entry cp)

instance (name : Path) (entry : List UInt8) : Decidable (IsVariable rs cp name entry) :=
  inferInstanceAs (Decidable (_ = true))

/-- The offset behind an equals sign, so many others before it. -/
def valueOffset : Nat → List UInt8 → Nat
  | _, [] => 0
  | before, byte :: rest =>
    if byte = 0x3D then
      match before with
      | 0 => 1
      | before + 1 => valueOffset before rest + 1
    else valueOffset before rest + 1

/-- The value of the first string that is the variable's. -/
def valueAddr (name : Path) : Nat → List (List UInt8) → Option Nat
  | _, [] => none
  | addr, entry :: rest =>
    if IsVariable rs cp name entry then some (addr + valueOffset (name.count '=') entry)
    else valueAddr name (addr + (entry.length + 1)) rest

/-- The strings up to that one, with their places. -/
def readsInOrder (name : Path) : Nat → List (List UInt8) → List (Nat × List UInt8)
  | addr, [] => [(addr, [])]
  | addr, entry :: rest =>
    if IsVariable rs cp name entry then [(addr, entry)]
    else (addr, entry) :: readsInOrder name (addr + (entry.length + 1)) rest

/-- The scan stays on the strings and knows the value's place: no string up to the variable's
is cut off, each before it has as many bytes in UTF-8 as in the block, and so has the name. -/
def ScanPlain (name : Path) : List (List UInt8) → Prop
  | [] => True
  | entry :: rest =>
    entry.length ≤ maxGuestStringLen ∧
      if IsVariable rs cp name entry then
        HostDir.utf8Len (name ++ ['=']) = valueOffset (name.count '=') entry
      else HostDir.utf8Len (cpDecode rs entry cp) = entry.length ∧ ScanPlain name rest

instance decidableScanPlain (name : Path) :
    (entries : List (List UInt8)) → Decidable (ScanPlain rs cp name entries)
  | [] => isTrue trivial
  | entry :: rest =>
    have := decidableScanPlain name rest
    inferInstanceAs (Decidable (_ ∧ ite (IsVariable rs cp name entry) _ (_ ∧ _)))

end Block

/-- The call succeeds when the variable is there, and stores the address of its value. -/
structure ScanRight (ppValue : Nat) (value : Option Nat) (outcome : Nat × GuestMemory) : Prop where
  found : outcome.1 = 0 ↔ value.isSome
  stored : ∀ addr, value = some addr → outcome.2.read 4 ppValue = some addr

section Strings
variable {rs : EncodingRs} {cp : Nat} {mem : GuestMemory} {ptr : Nat} {bytes : List UInt8}

/-- A string in memory, with its zero. -/
def StringAt (mem : GuestMemory) (ptr : Nat) (bytes : List UInt8) : Prop :=
  mem.slice ptr (bytes ++ [0]).length = some (bytes ++ [0])

instance : Decidable (StringAt mem ptr bytes) := inferInstanceAs (Decidable (_ = _))

theorem StringAt.bound (there : StringAt mem ptr bytes) : ptr + (bytes.length + 1) ≤ mem.size := by
  unfold StringAt GuestMemory.slice at there
  split at there
  · rename_i inside
    simpa [GuestMemory.inBounds] using inside
  · contradiction

theorem StringAt.loads (there : StringAt mem ptr bytes) :
    mem.bytes.load ptr bytes.length = bytes ∧ mem.bytes (ptr + bytes.length) = 0 := by
  unfold StringAt GuestMemory.slice at there
  split at there
  · rw [Option.some.injEq, List.length_append, ByteStore.load_append] at there
    obtain ⟨hfront, hzero⟩ := List.append_inj there (by simp)
    exact ⟨hfront, by simpa [ByteStore.load] using hzero⟩
  · contradiction

/-- A read takes at most 4096 bytes of it. -/
theorem guestBytes_eq (there : StringAt mem ptr bytes) (clean : 0 ∉ bytes) :
    guestBytes mem ptr = bytes.take maxGuestStringLen := by
  have hbound := there.bound
  obtain ⟨hload, hzero⟩ := there.loads
  have nonzero : ∀ b ∈ bytes, decide (b ≠ 0) = true := by
    intro b member
    exact decide_eq_true fun zero => clean (zero ▸ member)
  rw [guestBytes, if_neg (by omega)]
  by_cases short : bytes.length < maxGuestStringLen
  · obtain ⟨more, hmore⟩ := Nat.exists_eq_add_of_lt
      (show bytes.length < min maxGuestStringLen (mem.size - ptr) by omega)
    rw [hmore, Nat.add_assoc, ByteStore.load_append, hload,
      List.takeWhile_append_of_pos nonzero, List.take_of_length_le (by omega)]
    simp [ByteStore.load, List.range_succ_eq_map, hzero]
  · have hlen : min maxGuestStringLen (mem.size - ptr) = maxGuestStringLen := by omega
    obtain ⟨more, hmore⟩ := Nat.exists_eq_add_of_le (Nat.not_lt.mp short)
    have hcut : mem.bytes.load ptr maxGuestStringLen = bytes.take maxGuestStringLen := by
      rw [← hload, hmore, ByteStore.load_append, List.take_left' (by simp)]
    rw [hlen, hcut]
    exact List.takeWhile_eq_self_iff.mpr fun b member => nonzero b (List.mem_of_mem_take member)

theorem readGuestString_at (there : StringAt mem ptr bytes) (clean : 0 ∉ bytes) :
    readGuestString rs cp mem ptr = cpDecode rs (bytes.take maxGuestStringLen) cp := by
  have hbound := there.bound
  have hread := guestBytes_eq there clean
  rw [guestBytes, if_neg (by omega)] at hread
  simp only [readGuestString]
  rw [if_neg (by omega), hread]

end Strings

section Lengths
variable {rs : EncodingRs} {cp : Nat}

theorem utf8Size_ofNat {n : Nat} (plane : n < 0xD800) : (Char.ofNat n).utf8Size ≤ 3 := by
  have code := toNat_ofNat plane
  have bound : (Char.ofNat n).val ≤ 0xFFFF := by
    rw [UInt32.le_iff_toNat_le]
    change (Char.ofNat n).toNat ≤ 0xFFFF
    omega
  unfold Char.utf8Size
  dsimp only
  split
  · decide
  split
  · decide
  · exact (if_pos bound).le

theorem utf8Len_map {f : UInt8 → Char} {k : Nat} (size : ∀ byte, (f byte).utf8Size ≤ k)
    (bytes : List UInt8) : HostDir.utf8Len (bytes.map f) ≤ k * bytes.length := by
  induction bytes with
  | nil => simp [HostDir.utf8Len]
  | cons byte rest ih =>
    have := size byte
    simp only [HostDir.utf8Len, List.map_cons, List.sum_cons, List.length_cons,
      Nat.mul_succ] at ih ⊢
    omega

/-- A byte makes three bytes of UTF-8 at most. -/
theorem cpDecode_length
    (bounded : ∀ bytes, HostDir.utf8Len (rs.decode cp bytes) ≤ 3 * bytes.length)
    (bytes : List UInt8) : HostDir.utf8Len (cpDecode rs bytes cp) ≤ 3 * bytes.length := by
  unfold cpDecode
  split
  · rename_i upper table
    apply utf8Len_map
    intro byte
    have hbyte := byte.toNat_lt
    split
    · exact utf8Size_ofNat (by omega)
    · apply utf8Size_ofNat
      cases found : upper[byte.toNat - 0x80]? with
      | none => simp
      | some n => exact ((upperHalf_of_dos table).past n (List.mem_of_getElem? found)).2
  split
  · exact bounded bytes
  · apply utf8Len_map
    intro byte
    have hbyte := byte.toNat_lt
    exact utf8Size_ofNat (by omega)

theorem utf8Len_pos {text : Path} : HostDir.utf8Len text = 0 ↔ text = [] := by
  cases text with
  | nil => simp [HostDir.utf8Len]
  | cons c rest =>
    have := c.utf8Size_pos
    simp only [HostDir.utf8Len, List.map_cons, List.sum_cons]
    simp
    omega

end Lengths

section Scan
variable {rs : EncodingRs} {cp : Nat} {mem : GuestMemory} {name : Path} {ppValue : Nat}

theorem startsEntry_nil (name : Path) : startsEntry name [] = false := by
  cases name <;> rfl

theorem scanReads_head (turns cursor : Nat) :
    (scanReads rs cp mem name (turns + 1) cursor).head? =
      some (cursor, guestBytes mem cursor) := by
  rw [scanReads]
  dsimp only
  split <;> rfl

theorem readsInOrder_head (addr : Nat) (entry : List UInt8) (rest : List (List UInt8)) :
    (readsInOrder rs cp name addr (entry :: rest)).head? = some (addr, entry) := by
  rw [readsInOrder]
  split <;> rfl

theorem readsInOrder_start (addr : Nat) (entries : List (List UInt8)) :
    ∃ bytes later, readsInOrder rs cp name addr entries = (addr, bytes) :: later := by
  cases entries with
  | nil => exact ⟨[], [], rfl⟩
  | cons entry rest =>
    rw [readsInOrder]
    split
    · exact ⟨entry, [], rfl⟩
    · exact ⟨entry, _, rfl⟩

theorem blockBytes_cons (entry : List UInt8) (rest : List (List UInt8)) :
    blockBytes (entry :: rest) = (entry ++ [0]) ++ blockBytes rest := by
  simp [blockBytes]

theorem length_lt_blockBytes (entries : List (List UInt8)) :
    entries.length < (blockBytes entries).length := by
  induction entries with
  | nil => simp [blockBytes]
  | cons entry rest ih =>
    rw [blockBytes_cons]
    simp only [List.length_append, List.length_cons, List.length_nil]
    omega

theorem block_inBounds {addr : Nat} {bytes : List UInt8}
    (there : mem.slice addr bytes.length = some bytes) : bytes.length ≤ mem.size := by
  unfold GuestMemory.slice at there
  split at there
  · rename_i inside
    have := of_decide_eq_true inside
    omega
  · contradiction

/-- As many turns as bytes are enough: the scan would take no more. -/
theorem scanEnv_enough (small : mem.size ≤ guestMemSize)
    (bounded : ∀ bytes, HostDir.utf8Len (rs.decode cp bytes) ≤ 3 * bytes.length)
    (more turns : Nat) {cursor : Nat} (enough : mem.size ≤ cursor + turns) :
    scanEnv rs cp mem name ppValue (turns + 1 + more) cursor =
      scanEnv rs cp mem name ppValue (turns + 1) cursor := by
  have past (cursor more : Nat) (outside : mem.size ≤ cursor) :
      scanEnv rs cp mem name ppValue (more + 1) cursor = (errorEnvvarNotFound, mem) := by
    have hread : readGuestString rs cp mem cursor = [] := if_pos outside
    rw [scanEnv, hread, if_pos rfl]
  induction turns generalizing cursor with
  | zero => rw [Nat.add_right_comm, past cursor _ enough, past cursor _ enough]
  | succ turns ih =>
    by_cases outside : mem.size ≤ cursor
    · rw [Nat.add_right_comm, past cursor _ outside, past cursor _ outside]
    · have hread : readGuestString rs cp mem cursor = cpDecode rs (guestBytes mem cursor) cp := by
        simp only [readGuestString, guestBytes]
        rw [if_neg outside, if_neg outside]
      have hlength : (guestBytes mem cursor).length ≤ maxGuestStringLen := by
        rw [guestBytes, if_neg outside]
        refine (List.takeWhile_prefix _).length_le.trans ?_
        rw [ByteStore.load_length]
        exact Nat.min_le_left _ _
      have htext := cpDecode_length bounded (guestBytes mem cursor)
      have hnext : wrapAdd cursor (HostDir.utf8Len (readGuestString rs cp mem cursor) + 1) =
          cursor + (HostDir.utf8Len (readGuestString rs cp mem cursor) + 1) := wrapAdd_of_lt (by
        rw [hread]
        simp only [guestMemSize, maxGuestStringLen, u32Size] at *
        omega)
      rw [Nat.add_right_comm, scanEnv, scanEnv, hnext]
      split
      · rfl
      split
      · rfl
      · apply ih
        omega

/-- What the call stores, where there is room for it. -/
theorem put_right {addr value : Nat} (word : value < u32Size) :
    ScanRight ppValue (some addr) (0, mem.put 4 ppValue value) ↔
      mem.inBounds ppValue 4 ∧ value = addr := by
  constructor
  · intro right
    have hread := right.stored addr rfl
    have inside : mem.inBounds ppValue 4 := by
      have := GuestMemory.inBounds_of_read hread
      rwa [GuestMemory.inBounds, GuestMemory.put, GuestMemory.putBytes_size] at this
    rw [mem.read_put (by simpa [u32Size] using word) inside] at hread
    exact ⟨inside, Option.some.inj hread⟩
  · rintro ⟨inside, rfl⟩
    refine ⟨by simp, fun addr here => ?_⟩
    rw [← Option.some.inj here]
    exact mem.read_put (by simpa [u32Size] using word) inside

theorem not_found_right {value : Option Nat} :
    ScanRight ppValue value (errorEnvvarNotFound, mem) ↔ value = none := by
  constructor
  · intro right
    have := right.found
    simpa [errorEnvvarNotFound] using this
  · rintro rfl
    exact ⟨by simp [errorEnvvarNotFound], by simp⟩

/-- The scan stays on the strings and answers right exactly when nothing on the way to the
variable leads it off. -/
theorem scan_iff (small : mem.size ≤ guestMemSize)
    (bounded : ∀ bytes, HostDir.utf8Len (rs.decode cp bytes) ≤ 3 * bytes.length)
    (named : HostDir.utf8Len name ≤ 3 * maxGuestStringLen) {entries : List (List UInt8)}
    (clean : ∀ entry ∈ entries, entry ≠ [] ∧ 0 ∉ entry) {turns addr : Nat}
    (there : mem.slice addr (blockBytes entries).length = some (blockBytes entries))
    (enough : entries.length < turns) :
    scanReads rs cp mem name turns addr = readsInOrder rs cp name addr entries ∧
        ScanRight ppValue (valueAddr rs cp name addr entries)
          (scanEnv rs cp mem name ppValue turns addr) ↔
      ScanPlain rs cp name entries ∧
        ((valueAddr rs cp name addr entries).isSome → mem.inBounds ppValue 4) := by
  induction entries generalizing turns addr with
  | nil =>
    obtain ⟨turns, rfl⟩ := Nat.exists_eq_add_of_lt enough
    have hstring : StringAt mem addr [] := there
    have hbytes := guestBytes_eq hstring (by simp)
    have hread : readGuestString rs cp mem addr = [] := by
      rw [readGuestString_at hstring (by simp)]
      have := cpDecode_length bounded []
      exact utf8Len_pos.mp (by simpa using this)
    simp only [List.length_nil, Nat.zero_add, scanReads, scanEnv, hread, hbytes, true_or, if_true,
      readsInOrder, valueAddr, ScanPlain, List.take_nil, not_found_right]
    simp
  | cons entry rest ih =>
    obtain ⟨turns, rfl⟩ : ∃ n, turns = n + 1 := ⟨turns - 1, by omega⟩
    obtain ⟨⟨nonempty, nozero⟩, hclean⟩ := List.forall_mem_cons.mp clean
    rw [blockBytes_cons] at there
    obtain ⟨hstring, hrest⟩ := mem.slice_append.mp there
    have hbound := StringAt.bound hstring
    have hbytes := guestBytes_eq hstring nozero
    have hread : readGuestString rs cp mem addr = _ := readGuestString_at hstring nozero
    by_cases short : entry.length ≤ maxGuestStringLen
    · rw [List.take_of_length_le short] at hbytes hread
      have htext := cpDecode_length bounded entry
      have low : mem.size + 3 * maxGuestStringLen + 3 < u32Size := by
        simp only [guestMemSize, maxGuestStringLen, u32Size] at *
        omega
      by_cases variable_ : IsVariable rs cp name entry
      · have starts : startsEntry name (cpDecode rs entry cp) = true := variable_
        have some_ : cpDecode rs entry cp ≠ [] := by
          intro empty
          rw [empty, startsEntry_nil] at starts
          contradiction
        have hname : HostDir.utf8Len (name ++ ['=']) = HostDir.utf8Len name + 1 := by
          simp [HostDir.utf8Len]
          rfl
        have hvalue : wrapAdd addr (HostDir.utf8Len (name ++ ['='])) =
            addr + HostDir.utf8Len (name ++ ['=']) := wrapAdd_of_lt (by omega)
        simp only [scanReads, scanEnv, hread, hbytes, some_, starts, readsInOrder, valueAddr,
          variable_, ScanPlain, short, if_true, if_false, or_true, true_and, hvalue]
        rw [put_right (by omega)]
        simp only [Option.isSome_some, forall_const, Nat.add_left_cancel_iff]
        exact and_comm
      · have other : ¬startsEntry name (cpDecode rs entry cp) = true := variable_
        have hnext : wrapAdd addr (HostDir.utf8Len (cpDecode rs entry cp) + 1) =
            addr + (HostDir.utf8Len (cpDecode rs entry cp) + 1) := wrapAdd_of_lt (by omega)
        simp only [valueAddr, variable_, if_false, readsInOrder, ScanPlain, short, true_and]
        by_cases even : HostDir.utf8Len (cpDecode rs entry cp) = entry.length
        · have some_ : cpDecode rs entry cp ≠ [] := by
            intro empty
            rw [utf8Len_pos.mpr empty] at even
            exact nonempty (List.length_eq_zero_iff.mp even.symm)
          have hrest' : mem.slice (addr + (entry.length + 1)) (blockBytes rest).length =
              some (blockBytes rest) := by simpa using hrest
          have hlater := ih hclean hrest' (show rest.length < turns by simpa using enough)
          rw [even] at hnext
          simp only [scanReads, scanEnv, hread, hbytes, some_, other, false_or, if_false, hnext,
            even, List.cons.injEq, true_and, Bool.false_eq_true]
          exact hlater
        · have led : scanReads rs cp mem name (turns + 1) addr ≠
              (addr, entry) :: readsInOrder rs cp name (addr + (entry.length + 1)) rest := by
            obtain ⟨bytes, later, hstart⟩ :=
              @readsInOrder_start rs cp name (addr + (entry.length + 1)) rest
            obtain ⟨turns, rfl⟩ : ∃ n, turns = n + 1 :=
              ⟨turns - 1, by simp only [List.length_cons] at enough; omega⟩
            rw [hstart, scanReads]
            simp only [hread, hbytes, other, or_false, Bool.false_eq_true, hnext]
            intro same
            split at same
            · simp at same
            · have heads := congrArg List.head? (List.cons.inj same).2
              rw [scanReads_head] at heads
              have := congrArg Prod.fst (Option.some.inj heads)
              dsimp only at this
              omega
          simp [led, even]
    · have apart : scanReads rs cp mem name (turns + 1) addr ≠
          readsInOrder rs cp name addr (entry :: rest) := by
        intro same
        have heads := congrArg List.head? same
        rw [scanReads_head, readsInOrder_head, hbytes] at heads
        have := congrArg (fun pair => pair.2.length) (Option.some.inj heads)
        simp only [List.length_take] at this
        omega
      simp [apart, ScanPlain, short]

/-- The call reads the name as a whole, and then the strings in order up to the variable's. -/
def Tracks (rs : EncodingRs) (cp : Nat) (mem : GuestMemory) (pszName envAddr : Nat)
    (nameBytes : List UInt8) (entries : List (List UInt8)) : Prop :=
  guestBytes mem pszName = nameBytes ∧
    let name := cpDecode rs nameBytes cp
    name ≠ [] → scanReads rs cp mem name (mem.size + 1) envAddr =
      readsInOrder rs cp name envAddr entries

/-- What the name and the strings have to be. -/
def Scannable (rs : EncodingRs) (cp : Nat) (mem : GuestMemory) (ppValue envAddr : Nat)
    (nameBytes : List UInt8) (entries : List (List UInt8)) : Prop :=
  nameBytes.length ≤ maxGuestStringLen ∧
    let name := cpDecode rs nameBytes cp
    let value := valueAddr rs cp name envAddr entries
    if name = [] then value = none
    else ScanPlain rs cp name entries ∧ (value.isSome → mem.inBounds ppValue 4)

/-- The call stays on the string boundaries and answers right exactly when the name and the
strings before the variable have as many bytes in UTF-8 as in memory, and none is too long. -/
theorem dosScanEnv_iff {pszName envAddr : Nat} {nameBytes : List UInt8}
    {entries : List (List UInt8)} (small : mem.size ≤ guestMemSize)
    (bounded : ∀ bytes, HostDir.utf8Len (rs.decode cp bytes) ≤ 3 * bytes.length)
    (pib : mem.read 4 (pibBase + 0x10) = some envAddr)
    (called : StringAt mem pszName nameBytes) (nozero : 0 ∉ nameBytes)
    (clean : ∀ entry ∈ entries, entry ≠ [] ∧ 0 ∉ entry)
    (there : mem.slice envAddr (blockBytes entries).length = some (blockBytes entries)) :
    Tracks rs cp mem pszName envAddr nameBytes entries ∧
        ScanRight ppValue (valueAddr rs cp (cpDecode rs nameBytes cp) envAddr entries)
          (dosScanEnv rs cp mem pszName ppValue) ↔
      Scannable rs cp mem ppValue envAddr nameBytes entries := by
  have hbytes := guestBytes_eq called nozero
  have hread : readGuestString rs cp mem pszName = _ := readGuestString_at called nozero
  by_cases short : nameBytes.length ≤ maxGuestStringLen
  · rw [List.take_of_length_le short] at hbytes hread
    by_cases named : cpDecode rs nameBytes cp = []
    · simp [Tracks, Scannable, short, hbytes, dosScanEnv, hread, named, not_found_right]
    · have enough : entries.length < mem.size + 1 := by
        have := (length_lt_blockBytes entries).trans_le (block_inBounds there)
        omega
      have hname := (cpDecode_length bounded nameBytes).trans (Nat.mul_le_mul_left 3 short)
      simp only [Tracks, Scannable, short, hbytes, dosScanEnv, hread, named, pib, if_false,
        true_and, ne_eq, not_false_eq_true, forall_const]
      exact scan_iff small bounded hname clean there enough
  · have cut : guestBytes mem pszName ≠ nameBytes := by
      rw [hbytes]
      intro same
      have := congrArg List.length same
      simp only [List.length_take] at this
      omega
    simp [Tracks, Scannable, cut, short]

end Scan

section Samples

/-- A memory that ends with the pointer to the environment, a name, and the environment. -/
def envMemory (nameBytes : List UInt8) (entries : List (List UInt8)) : GuestMemory where
  size := 0x91040
  bytes := ByteStore.store (fun _ => 0) 0x91010
    (leBytes 4 0x91020 ++ (nameBytes ++ List.replicate (12 - nameBytes.length) 0) ++
      blockBytes entries)

theorem noConversions_bounded (cp : Nat) (bytes : List UInt8) :
    HostDir.utf8Len (noConversions.decode cp bytes) ≤ 3 * bytes.length := by
  simp [noConversions, HostDir.utf8Len]

/-- `A=1` and `B=2`, and the name `b`. -/
def plainEntries : List (List UInt8) := [[0x41, 0x3D, 0x31], [0x42, 0x3D, 0x32]]

theorem dosScanEnv_plain :
    Tracks noConversions 850 (envMemory [0x62] plainEntries) 0x91014 0x91020 [0x62] plainEntries ∧
      ScanRight 0x91000
        (valueAddr noConversions 850 (cpDecode noConversions [0x62] 850) 0x91020 plainEntries)
        (dosScanEnv noConversions 850 (envMemory [0x62] plainEntries) 0x91014 0x91000) :=
  (dosScanEnv_iff (by decide) (noConversions_bounded 850) (by decide) (by decide) (by decide)
    (by decide) (by decide)).mpr (by unfold Scannable; decide)

/-- `A=é` and `B=1`: the letter has two bytes in UTF-8, and the scan enters `B=1` too late. -/
def accentEntries : List (List UInt8) := [[0x41, 0x3D, 0x82], [0x42, 0x3D, 0x31]]

theorem accent_hides_next :
    ¬∀ (rs : EncodingRs) (cp : Nat) (mem : GuestMemory) (pszName ppValue envAddr : Nat)
      (nameBytes : List UInt8) (entries : List (List UInt8)), mem.size ≤ guestMemSize →
      (∀ bytes, HostDir.utf8Len (rs.decode cp bytes) ≤ 3 * bytes.length) →
      mem.read 4 (pibBase + 0x10) = some envAddr → StringAt mem pszName nameBytes →
      0 ∉ nameBytes → (∀ entry ∈ entries, entry ≠ [] ∧ 0 ∉ entry) →
      mem.slice envAddr (blockBytes entries).length = some (blockBytes entries) →
      ScanRight ppValue (valueAddr rs cp (cpDecode rs nameBytes cp) envAddr entries)
        (dosScanEnv rs cp mem pszName ppValue) := by
  intro claim
  have right := claim noConversions 850 (envMemory [0x42] accentEntries) 0x91014 0x91000 0x91020
    [0x42] accentEntries (by decide) (noConversions_bounded 850) (by decide) (by decide)
    (by decide) (by decide) (by decide)
  have outcome : (dosScanEnv noConversions 850 (envMemory [0x42] accentEntries) 0x91014
      0x91000).1 = errorEnvvarNotFound := by decide
  have found := right.found.mpr (by decide)
  rw [outcome] at found
  exact absurd found (by decide)

end Samples

end Warpine.Loader
