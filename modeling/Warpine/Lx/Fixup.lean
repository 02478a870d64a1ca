import Warpine.Lib.Reader

/-! Fixup records of an LX executable. Beside the reader stands the layout the
format gives a record, and the layout the reader assumes. -/
namespace Warpine.Lx
open Warpine.Lib Reader

def hasFlag (bits flag : Nat) : Bool := bits &&& flag != 0

inductive FixupTarget where
  | internal (objectNum targetOffset : Nat)
  | externalOrdinal (moduleOrdinal procOrdinal : Nat)
  | externalName (moduleOrdinal procNameOffset : Nat)
  | internalEntry (entryOrdinal : Nat)
deriving DecidableEq, Repr

structure LxFixupRecord where
  sourceType : Nat
  targetFlags : Nat
  sourceOffsets : List Nat
  target : FixupTarget
  additive : Option Nat
deriving DecidableEq, Repr

def indexWidth (flags : Nat) : Nat := if hasFlag flags 0x40 then 2 else 1
def offsetWidth (flags : Nat) : Nat := if hasFlag flags 0x10 then 4 else 2
def ordinalWidth (flags : Nat) : Nat := if hasFlag flags 0x80 then 1 else offsetWidth flags
def additiveWidth (flags : Nat) : Nat := if hasFlag flags 0x20 then 4 else 2

namespace LxFixupRecord

def readSourceOffsets (sourceType : Nat) : Reader (List Nat) :=
  if hasFlag sourceType 0x20 then do
    let count ← readLe 1
    times count (readLe 2)
  else do
    let offset ← readLe 2
    return [offset]

def readTarget (flags : Nat) : Reader FixupTarget :=
  match flags &&& 0x03 with
  | 0 => do
      let objectNum ← readLe (indexWidth flags)
      let targetOffset ← readLe (offsetWidth flags)
      return .internal objectNum targetOffset
  | 1 => do
      let moduleOrdinal ← readLe (indexWidth flags)
      let procOrdinal ← readLe (ordinalWidth flags)
      return .externalOrdinal moduleOrdinal procOrdinal
  | 2 => do
      let moduleOrdinal ← readLe (indexWidth flags)
      let procNameOffset ← readLe (offsetWidth flags)
      return .externalName moduleOrdinal procNameOffset
  | _ => do
      let entryOrdinal ← readLe (indexWidth flags)
      return .internalEntry entryOrdinal

def readAdditive (flags : Nat) : Reader (Option Nat) :=
  if hasFlag flags 0x04 then do
    let additive ← readLe (additiveWidth flags)
    return some additive
  else return none

def read : Reader LxFixupRecord := do
  let sourceType ← readLe 1
  let targetFlags ← readLe 1
  let sourceOffsets ← readSourceOffsets sourceType
  let target ← readTarget targetFlags
  let additive ← readAdditive targetFlags
  return { sourceType, targetFlags, sourceOffsets, target, additive }

end LxFixupRecord

/-- The target data of a record. A 16-bit selector fixup of an internal target
has no offset field in the format; the reader takes one from every internal target. -/
def FixupTarget.bytes (flags : Nat) (offsetField : Bool) : FixupTarget → List UInt8
  | .internal objectNum targetOffset =>
      leBytes (indexWidth flags) objectNum ++
        if offsetField then leBytes (offsetWidth flags) targetOffset else []
  | .externalOrdinal moduleOrdinal procOrdinal =>
      leBytes (indexWidth flags) moduleOrdinal ++ leBytes (ordinalWidth flags) procOrdinal
  | .externalName moduleOrdinal procNameOffset =>
      leBytes (indexWidth flags) moduleOrdinal ++ leBytes (offsetWidth flags) procNameOffset
  | .internalEntry entryOrdinal => leBytes (indexWidth flags) entryOrdinal

/-- The target is of the kind the flags name, and its fields fit their widths. -/
def FixupTarget.Fits (flags : Nat) (offsetField : Bool) : FixupTarget → Prop
  | .internal objectNum targetOffset =>
      flags &&& 0x03 = 0 ∧ objectNum < 256 ^ indexWidth flags ∧
        if offsetField then targetOffset < 256 ^ offsetWidth flags else targetOffset = 0
  | .externalOrdinal moduleOrdinal procOrdinal =>
      flags &&& 0x03 = 1 ∧ moduleOrdinal < 256 ^ indexWidth flags ∧
        procOrdinal < 256 ^ ordinalWidth flags
  | .externalName moduleOrdinal procNameOffset =>
      flags &&& 0x03 = 2 ∧ moduleOrdinal < 256 ^ indexWidth flags ∧
        procNameOffset < 256 ^ offsetWidth flags
  | .internalEntry entryOrdinal =>
      flags &&& 0x03 = 3 ∧ entryOrdinal < 256 ^ indexWidth flags

namespace LxFixupRecord

def hasSourceList (record : LxFixupRecord) : Bool := hasFlag record.sourceType 0x20

/-- A fixup that stores a 16-bit selector. -/
def isSelector (record : LxFixupRecord) : Bool := record.sourceType &&& 0x0F == 0x02

def isInternal (record : LxFixupRecord) : Bool :=
  match record.target with
  | .internal _ _ => true
  | _ => false

def additiveBytes (flags : Nat) : Option Nat → List UInt8
  | some additive => leBytes (additiveWidth flags) additive
  | none => []

def AdditiveFits (flags : Nat) : Option Nat → Prop
  | some additive => hasFlag flags 0x04 ∧ additive < 256 ^ additiveWidth flags
  | none => hasFlag flags 0x04 = false

def OffsetsFit (sourceType : Nat) (offsets : List Nat) : Prop :=
  (∀ offset ∈ offsets, offset < 256 ^ 2) ∧
    if hasFlag sourceType 0x20 then offsets.length < 256 else offsets.length = 1

/-- What stands between the flags and the target: the count of a source list,
or the one offset. -/
def sourceHead (record : LxFixupRecord) : List UInt8 :=
  if record.hasSourceList then leBytes 1 record.sourceOffsets.length
  else record.sourceOffsets.flatMap (leBytes 2)

def sourceList (record : LxFixupRecord) : List UInt8 :=
  if record.hasSourceList then record.sourceOffsets.flatMap (leBytes 2) else []

/-- The target data and the additive, in the format. -/
def body (record : LxFixupRecord) : List UInt8 :=
  record.target.bytes record.targetFlags (!record.isSelector) ++
    additiveBytes record.targetFlags record.additive

def flagBytes (record : LxFixupRecord) : List UInt8 :=
  leBytes 1 record.sourceType ++ leBytes 1 record.targetFlags

/-- The bytes of a record in the LX format: a source list stands last. -/
def encode (record : LxFixupRecord) : List UInt8 :=
  record.flagBytes ++ record.sourceHead ++ record.body ++ record.sourceList

/-- The bytes `read` takes a record to have. -/
def bytesRead (record : LxFixupRecord) : List UInt8 :=
  record.flagBytes ++ record.sourceHead ++ record.sourceList ++
    record.target.bytes record.targetFlags true ++
      additiveBytes record.targetFlags record.additive

/-- Every field fits the width the flags give it. -/
structure Fits (record : LxFixupRecord) (offsetField : Bool) : Prop where
  sourceType : record.sourceType < 256
  targetFlags : record.targetFlags < 256
  offsets : OffsetsFit record.sourceType record.sourceOffsets
  target : record.target.Fits record.targetFlags offsetField
  additive : AdditiveFits record.targetFlags record.additive

/-- A record as the LX format can express it. -/
def WellFormed (record : LxFixupRecord) : Prop := record.Fits (!record.isSelector)

variable {data : List UInt8} {pos next : Nat}

theorem readSourceOffsets_eq_ok {sourceType : Nat} {offsets : List Nat} :
    readSourceOffsets sourceType data pos = .ok (offsets, next) ↔
      OffsetsFit sourceType offsets ∧
        Stored data pos ((if hasFlag sourceType 0x20 then leBytes 1 offsets.length else []) ++
          offsets.flatMap (leBytes 2)) ∧
          next = pos + (if hasFlag sourceType 0x20 then 1 else 0) + 2 * offsets.length := by
  have hlist : ∀ list : List Nat, (list.flatMap (leBytes 2)).length = 2 * list.length := by
    intro list
    simp [List.length_flatMap, Nat.mul_comm]
  unfold readSourceOffsets OffsetsFit
  split
  · have hitem : ∀ pos value next, readLe 2 data pos = .ok (value, next) ↔
        value < 256 ^ 2 ∧ Stored data pos (leBytes 2 value) ∧
          next = pos + (leBytes 2 value).length := by
      intro pos value next
      rw [readLe_eq_ok, leBytes_length]
    simp only [bind_eq_ok, readLe_eq_ok, times_eq_ok hitem, Stored.append,
      leBytes_length, hlist]
    constructor
    · rintro ⟨count, middle, ⟨hcount, hbyte, rfl⟩, rfl, hsmall, hstored, rfl⟩
      exact ⟨⟨hsmall, by simpa using hcount⟩, ⟨hbyte, hstored⟩, rfl⟩
    · rintro ⟨⟨hsmall, hcount⟩, ⟨hbyte, hstored⟩, rfl⟩
      exact ⟨_, _, ⟨by simpa using hcount, hbyte, rfl⟩, rfl, hsmall, hstored, rfl⟩
  · simp only [bind_eq_ok, readLe_eq_ok, pure_eq_ok, List.nil_append]
    constructor
    · rintro ⟨offset, middle, ⟨hsmall, hstored, rfl⟩, rfl, rfl⟩
      simpa using ⟨hsmall, hstored⟩
    · rintro ⟨⟨hsmall, hone⟩, hstored, rfl⟩
      obtain ⟨offset, rfl⟩ := List.length_eq_one_iff.mp hone
      exact ⟨offset, _, ⟨hsmall offset (by simp), by simpa using hstored, rfl⟩, rfl, rfl⟩

/-- Two words in a row. -/
theorem readPair_eq_ok {α : Type} {first second : Nat} {make : Nat → Nat → α} {result : α} :
    (do let a ← readLe first; let b ← readLe second; return make a b : Reader α) data pos =
        .ok (result, next) ↔
      ∃ a b, make a b = result ∧ a < 256 ^ first ∧ b < 256 ^ second ∧
        Stored data pos (leBytes first a ++ leBytes second b) ∧ next = pos + (first + second) := by
  simp only [bind_eq_ok, readLe_eq_ok, pure_eq_ok, Stored.append, leBytes_length]
  constructor
  · rintro ⟨a, middle, ⟨ha, hfirst, rfl⟩, b, stop, ⟨hb, hsecond, rfl⟩, rfl, rfl⟩
    exact ⟨a, b, rfl, ha, hb, ⟨hfirst, hsecond⟩, by omega⟩
  · rintro ⟨a, b, rfl, ha, hb, ⟨hfirst, hsecond⟩, rfl⟩
    exact ⟨a, _, ⟨ha, hfirst, rfl⟩, b, _, ⟨hb, hsecond, rfl⟩, rfl, by omega⟩

theorem readTarget_eq_ok {flags : Nat} {target : FixupTarget} :
    readTarget flags data pos = .ok (target, next) ↔
      target.Fits flags true ∧ Stored data pos (target.bytes flags true) ∧
        next = pos + (target.bytes flags true).length := by
  have hkind : flags &&& 0x03 < 4 := Nat.lt_of_le_of_lt Nat.and_le_right (by decide)
  unfold readTarget
  obtain kind | kind | kind | kind : flags &&& 0x03 = 0 ∨ flags &&& 0x03 = 1 ∨
      flags &&& 0x03 = 2 ∨ flags &&& 0x03 = 3 := by omega
  · simp only [kind]
    rw [readPair_eq_ok]
    constructor
    · rintro ⟨objectNum, offset, rfl, hobject, hoffset, hstored, rfl⟩
      exact ⟨⟨kind, hobject, hoffset⟩, hstored, by simp [FixupTarget.bytes]⟩
    · rintro ⟨hfits, hstored, rfl⟩
      cases target with
      | internal objectNum offset =>
        exact ⟨objectNum, offset, rfl, hfits.2.1, hfits.2.2, hstored, by simp [FixupTarget.bytes]⟩
      | _ => simp [FixupTarget.Fits, kind] at hfits
  · simp only [kind]
    rw [readPair_eq_ok]
    constructor
    · rintro ⟨moduleOrdinal, ordinal, rfl, hmodule, hordinal, hstored, rfl⟩
      exact ⟨⟨kind, hmodule, hordinal⟩, hstored, by simp [FixupTarget.bytes]⟩
    · rintro ⟨hfits, hstored, rfl⟩
      cases target with
      | externalOrdinal moduleOrdinal ordinal =>
        exact ⟨moduleOrdinal, ordinal, rfl, hfits.2.1, hfits.2.2, hstored,
          by simp [FixupTarget.bytes]⟩
      | _ => simp [FixupTarget.Fits, kind] at hfits
  · simp only [kind]
    rw [readPair_eq_ok]
    constructor
    · rintro ⟨moduleOrdinal, offset, rfl, hmodule, hoffset, hstored, rfl⟩
      exact ⟨⟨kind, hmodule, hoffset⟩, hstored, by simp [FixupTarget.bytes]⟩
    · rintro ⟨hfits, hstored, rfl⟩
      cases target with
      | externalName moduleOrdinal offset =>
        exact ⟨moduleOrdinal, offset, rfl, hfits.2.1, hfits.2.2, hstored,
          by simp [FixupTarget.bytes]⟩
      | _ => simp [FixupTarget.Fits, kind] at hfits
  · simp only [kind, bind_eq_ok, readLe_eq_ok, pure_eq_ok]
    constructor
    · rintro ⟨ordinal, middle, ⟨hordinal, hstored, rfl⟩, rfl, rfl⟩
      exact ⟨⟨kind, hordinal⟩, hstored, by simp [FixupTarget.bytes]⟩
    · rintro ⟨hfits, hstored, rfl⟩
      cases target with
      | internalEntry ordinal =>
        exact ⟨ordinal, _, ⟨hfits.2, hstored, rfl⟩, rfl, by simp [FixupTarget.bytes]⟩
      | _ => simp [FixupTarget.Fits, kind] at hfits

theorem readAdditive_eq_ok {flags : Nat} {additive : Option Nat} :
    readAdditive flags data pos = .ok (additive, next) ↔
      AdditiveFits flags additive ∧ Stored data pos (additiveBytes flags additive) ∧
        next = pos + (additiveBytes flags additive).length := by
  unfold readAdditive
  split
  · rename_i hflag
    simp only [bind_eq_ok, readLe_eq_ok, pure_eq_ok]
    constructor
    · rintro ⟨value, middle, ⟨hsmall, hstored, rfl⟩, rfl, rfl⟩
      simp [AdditiveFits, additiveBytes, *]
    · rintro ⟨hfits, hstored, rfl⟩
      cases additive with
      | none => simp [AdditiveFits, hflag] at hfits
      | some value => exact ⟨value, _, ⟨hfits.2, hstored, rfl⟩, rfl, by simp [additiveBytes]⟩
  · rename_i hflag
    rw [pure_eq_ok]
    constructor
    · rintro ⟨rfl, rfl⟩
      simpa [AdditiveFits, additiveBytes] using hflag
    · rintro ⟨hfits, _, rfl⟩
      cases additive with
      | none => simp [additiveBytes]
      | some value => exact absurd hfits.1 hflag

theorem sourceBytes_eq (record : LxFixupRecord) :
    (if hasFlag record.sourceType 0x20 then leBytes 1 record.sourceOffsets.length else []) ++
        record.sourceOffsets.flatMap (leBytes 2) = record.sourceHead ++ record.sourceList := by
  unfold sourceHead sourceList hasSourceList
  split <;> simp

theorem sourceBytes_length (record : LxFixupRecord) :
    (record.sourceHead ++ record.sourceList).length =
      (if hasFlag record.sourceType 0x20 then 1 else 0) + 2 * record.sourceOffsets.length := by
  rw [← sourceBytes_eq]
  split <;> simp [List.length_flatMap, Nat.mul_comm]

/-- The reader succeeds exactly on the layout it assumes. -/
theorem read_eq_ok {record : LxFixupRecord} :
    read data pos = .ok (record, next) ↔
      record.Fits true ∧ Stored data pos record.bytesRead ∧
        next = pos + record.bytesRead.length := by
  unfold read bytesRead flagBytes
  simp only [bind_eq_ok, pure_eq_ok, readLe_eq_ok, readSourceOffsets_eq_ok, readTarget_eq_ok,
    readAdditive_eq_ok]
  constructor
  · rintro ⟨sourceType, _, ⟨htype, hfirst, rfl⟩, flags, _, ⟨hflags, hsecond, rfl⟩, offsets, _,
      ⟨hoffsets, hsources, rfl⟩, target, _, ⟨htarget, hbytes, rfl⟩, additive, _,
      ⟨hadditive, hextra, rfl⟩, rfl, rfl⟩
    have hsource := sourceBytes_eq ⟨sourceType, flags, offsets, target, additive⟩
    have hlength := sourceBytes_length ⟨sourceType, flags, offsets, target, additive⟩
    dsimp only at hsource hlength
    rw [hsource] at hsources
    refine ⟨⟨by simpa using htype, by simpa using hflags, hoffsets, htarget, hadditive⟩, ?_, ?_⟩
    · rw [List.append_assoc _ (sourceHead _), Stored.append, Stored.append, Stored.append,
        Stored.append]
      simp only [List.length_append, leBytes_length] at hlength ⊢
      refine ⟨⟨⟨⟨hfirst, hsecond⟩, ?_⟩, ?_⟩, ?_⟩
      · exact hsources
      · convert hbytes using 1
        omega
      · convert hextra using 1
        omega
    · simp only [List.length_append, leBytes_length] at hlength ⊢
      omega
  · rintro ⟨fits, hstored, rfl⟩
    have hlength := sourceBytes_length record
    rw [List.append_assoc _ (sourceHead _), Stored.append, Stored.append, Stored.append,
      Stored.append] at hstored
    obtain ⟨⟨⟨⟨hfirst, hsecond⟩, hsources⟩, hbytes⟩, hextra⟩ := hstored
    simp only [List.length_append, leBytes_length] at hlength hfirst hsecond hsources hbytes hextra
    refine ⟨record.sourceType, _, ⟨by simpa using fits.sourceType, hfirst, rfl⟩,
      record.targetFlags, _, ⟨by simpa using fits.targetFlags, hsecond, rfl⟩,
      record.sourceOffsets, _, ⟨fits.offsets, ?_, rfl⟩, record.target, _, ⟨fits.target, ?_, rfl⟩,
      record.additive, _, ⟨fits.additive, ?_, rfl⟩, rfl, ?_⟩
    · rw [sourceBytes_eq]
      exact hsources
    · convert hbytes using 1
      omega
    · convert hextra using 1
      omega
    · simp only [List.length_append, leBytes_length]
      omega

/-- The record reads the same in the layout the reader assumes: it has the
offset field the reader takes, and its source list may stand before its body. -/
def InOrder (record : LxFixupRecord) : Prop :=
  ¬ (record.isInternal ∧ record.isSelector) ∧
    (record.hasSourceList →
      record.sourceList ++ record.body = record.body ++ record.sourceList)

theorem WellFormed.fits {record : LxFixupRecord} (h : record.WellFormed) : record.Fits true where
  sourceType := h.sourceType
  targetFlags := h.targetFlags
  offsets := h.offsets
  additive := h.additive
  target := by
    have htarget := h.target
    cases hcase : record.target with
    | internal objectNum offset =>
      rw [hcase] at htarget
      obtain ⟨hkind, hobject, hoffset⟩ := htarget
      refine ⟨hkind, hobject, ?_⟩
      cases hselector : record.isSelector with
      | true =>
        simp only [hselector, Bool.not_true, Bool.false_eq_true, if_false] at hoffset
        rw [hoffset]
        exact Nat.pow_pos (by decide)
      | false => simpa [hselector] using hoffset
    | externalOrdinal moduleOrdinal ordinal => rwa [hcase] at htarget
    | externalName moduleOrdinal offset => rwa [hcase] at htarget
    | internalEntry ordinal => rwa [hcase] at htarget

/-- Only an internal selector fixup has a field the format leaves out. -/
theorem target_bytes (record : LxFixupRecord) :
    (record.target.bytes record.targetFlags true).length =
        (record.target.bytes record.targetFlags (!record.isSelector)).length +
          (if record.isInternal ∧ record.isSelector then offsetWidth record.targetFlags else 0) ∧
      (¬ (record.isInternal ∧ record.isSelector) →
        record.target.bytes record.targetFlags true =
          record.target.bytes record.targetFlags (!record.isSelector)) := by
  cases hselector : record.isSelector with
  | false => simp
  | true =>
    cases hcase : record.target <;> simp [FixupTarget.bytes, isInternal, hcase]

theorem bytesRead_eq_encode_iff (record : LxFixupRecord) :
    record.bytesRead = record.encode ↔ record.InOrder := by
  obtain ⟨hlength, hsame⟩ := target_bytes record
  unfold InOrder
  by_cases hfield : record.isInternal ∧ record.isSelector
  · rw [if_pos hfield] at hlength
    have hwidth : 0 < offsetWidth record.targetFlags := by
      unfold offsetWidth
      split <;> decide
    constructor
    · intro heq
      have hcount := congrArg List.length heq
      simp only [bytesRead, encode, body, List.length_append, hlength] at hcount
      omega
    · intro horder
      exact absurd hfield horder.1
  · have hbody : record.target.bytes record.targetFlags true ++
        additiveBytes record.targetFlags record.additive = record.body := by
      rw [hsame hfield, body]
    have hread : record.bytesRead =
        (record.flagBytes ++ record.sourceHead) ++ (record.sourceList ++ record.body) := by
      rw [← hbody]
      simp only [bytesRead, List.append_assoc]
    have hencode : record.encode =
        (record.flagBytes ++ record.sourceHead) ++ (record.body ++ record.sourceList) := by
      simp only [encode, List.append_assoc]
    rw [hread, hencode, List.append_cancel_left_eq]
    constructor
    · intro heq
      exact ⟨hfield, fun _ => heq⟩
    · intro horder
      cases hlist : record.hasSourceList with
      | true => exact horder.2 hlist
      | false => simp [sourceList, hlist]

/-- `read` returns an encoded record and stops at its end exactly when the
record reads the same with its source list first. -/
theorem read_encode_iff (record : LxFixupRecord) (wellFormed : record.WellFormed)
    (front rest : List UInt8) :
    read (front ++ record.encode ++ rest) front.length =
        .ok (record, front.length + record.encode.length) ↔
      record.InOrder := by
  rw [read_eq_ok, ← bytesRead_eq_encode_iff]
  have hencoded : Stored (front ++ record.encode ++ rest) front.length record.encode :=
    Stored.middle front rest
  constructor
  · rintro ⟨_, hstored, hnext⟩
    exact hstored.unique hencoded (by omega)
  · intro heq
    rw [heq]
    exact ⟨wellFormed.fits, hencoded, rfl⟩

/-- A 32-bit offset fixup of an internal target, at one offset. -/
def sampleRecord (sourceType : Nat) (sourceOffsets : List Nat) : LxFixupRecord where
  sourceType := sourceType
  targetFlags := 0x10
  sourceOffsets := sourceOffsets
  target := .internal 1 0x2000
  additive := none

theorem read_encode_iff_offset32 :
    read ([0xFF] ++ (sampleRecord 0x07 [0x40]).encode ++ []) 1 =
      .ok (sampleRecord 0x07 [0x40], 1 + 9) :=
  (read_encode_iff (sampleRecord 0x07 [0x40])
    ⟨by decide, by decide, ⟨by decide, by decide⟩, ⟨by decide, by decide, by decide⟩, rfl⟩
    [0xFF] []).mpr
    ⟨by decide, by decide⟩

/-- The same fixup at two offsets: the list is read where the target stands. -/
theorem read_source_list_differs :
    ¬ ∀ (record : LxFixupRecord), record.WellFormed → ∀ front rest : List UInt8,
      read (front ++ record.encode ++ rest) front.length =
        .ok (record, front.length + record.encode.length) := by
  intro claim
  have hread := claim (sampleRecord 0x27 [0x40, 0x80])
    ⟨by decide, by decide, ⟨by decide, by decide⟩, ⟨by decide, by decide, by decide⟩, rfl⟩
    [] []
  exact absurd hread (by decide)

end LxFixupRecord
end Warpine.Lx
