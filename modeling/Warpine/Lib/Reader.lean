import Warpine.Lib.Words

/-! Readers over a byte string with a cursor, as `std::io::Read` and `Seek`
offer them. What a reader returns is tied to the bytes at its cursor by
equivalences, so that one lemma serves both for decoding and for inversion. -/
namespace Warpine.Lib

inductive ReadError where
  | unexpectedEof
  | invalidData (message : String)
deriving DecidableEq, Repr

def Reader (α : Type) : Type := List UInt8 → Nat → Except ReadError (α × Nat)

namespace Reader

variable {α β : Type}

instance : Monad Reader where
  pure value := fun _ pos => .ok (value, pos)
  bind reader next := fun data pos =>
    match reader data pos with
    | .error e => .error e
    | .ok (value, middle) => next value data middle

/-- Fills a buffer of the given size. -/
def readExact (count : Nat) : Reader (List UInt8) := fun data pos =>
  let bytes := (data.drop pos).take count
  if bytes.length = count then .ok (bytes, pos + count) else .error .unexpectedEof

/-- A little-endian word of the given width in bytes. -/
def readLe (width : Nat) : Reader Nat := do
  let bytes ← readExact width
  return leValue bytes

def seek (pos : Nat) : Reader Unit := fun _ _ => .ok ((), pos)

def streamPosition : Reader Nat := fun _ pos => .ok (pos, pos)

def invalidData (message : String) : Reader α := fun _ _ => .error (.invalidData message)

/-- The reader's result, or `none` where it runs out of bytes. -/
def orElse (reader : Reader α) : Reader (Option α) := fun data pos =>
  match reader data pos with
  | .ok (value, next) => .ok (some value, next)
  | .error _ => .ok (none, pos)

def times (count : Nat) (reader : Reader α) : Reader (List α) :=
  match count with
  | 0 => return []
  | count + 1 => do
      let head ← reader
      let tail ← times count reader
      return head :: tail

/-- One item for each index of the list. -/
def forEach {ι : Type} (indices : List ι) (reader : ι → Reader α) : Reader (List α) :=
  match indices with
  | [] => return []
  | index :: rest => do
      let head ← reader index
      let tail ← forEach rest reader
      return head :: tail

/-- Items as long as the cursor is below `stop`. Every item moves the cursor, so
`stop` itself is fuel enough. -/
def untilPos (stop : Nat) (reader : Reader α) : Nat → Reader (List α)
  | 0 => return []
  | fuel + 1 => do
      let pos ← streamPosition
      if pos < stop then
        let head ← reader
        let tail ← untilPos stop reader fuel
        return head :: tail
      else return []

/-- The length of what is read, as fuel for a loop that reads at least one byte a turn. -/
def dataLength : Reader Nat := fun data pos => .ok (data.length, pos)

end Reader

/-- So many bytes can be read from the position on. -/
def Within (data : List UInt8) (pos count : Nat) : Prop := count = 0 ∨ pos + count ≤ data.length

def bytesAt (data : List UInt8) (pos count : Nat) : List UInt8 := (data.drop pos).take count

/-- The bytes stand at the position. -/
def Stored (data : List UInt8) (pos : Nat) (bytes : List UInt8) : Prop :=
  bytes <+: data.drop pos

instance (data : List UInt8) (pos : Nat) (bytes : List UInt8) : Decidable (Stored data pos bytes) :=
  inferInstanceAs (Decidable (bytes <+: _))

namespace Stored

variable {data bytes left right : List UInt8} {pos : Nat}

theorem append : Stored data pos (left ++ right) ↔
    Stored data pos left ∧ Stored data (pos + left.length) right := by
  unfold Stored
  rw [← List.drop_drop]
  constructor
  · rintro ⟨rest, hrest⟩
    rw [← hrest]
    simp [List.append_assoc]
  · rintro ⟨⟨rest, hrest⟩, hright⟩
    rw [← hrest, List.drop_left] at hright
    rw [← hrest]
    exact List.prefix_append_right_inj left |>.mpr hright

@[simp] theorem nil : Stored data pos [] := List.nil_prefix

theorem at_pos {other : Nat} (h : Stored data pos bytes) (same : pos = other) :
    Stored data other bytes := same ▸ h

theorem middle (front rest : List UInt8) : Stored (front ++ bytes ++ rest) front.length bytes := by
  unfold Stored
  rw [List.append_assoc, List.drop_left]
  exact List.prefix_append bytes rest

theorem bytesAt_eq (h : Stored data pos bytes) : bytesAt data pos bytes.length = bytes :=
  (List.prefix_iff_eq_take.mp h).symm

/-- One of several strings of one length, stored one after the other. -/
theorem of_flatMap {α : Type} {items : List α} {encode : α → List UInt8} {width i : Nat} {item : α}
    (h : Stored data pos (items.flatMap encode)) (widths : ∀ item, (encode item).length = width)
    (member : items[i]? = some item) : Stored data (pos + i * width) (encode item) := by
  induction items generalizing pos i with
  | nil => simp at member
  | cons head rest ih =>
    rw [List.flatMap_cons, append, widths] at h
    cases i with
    | zero =>
      cases member
      exact h.1.at_pos (by omega)
    | succ i =>
      apply (ih h.2 member).at_pos
      rw [Nat.succ_mul]
      omega

/-- Two strings of one length at one position are the same. -/
theorem unique (hleft : Stored data pos left) (hright : Stored data pos right)
    (same : left.length = right.length) : left = right := by
  have hl := List.prefix_iff_eq_take.mp hleft
  have hr := List.prefix_iff_eq_take.mp hright
  rw [hl, hr, same]

end Stored

namespace Reader

variable {α β : Type} {data bytes : List UInt8} {pos next : Nat}

theorem bind_eq_ok {reader : Reader α} {f : α → Reader β} {result : β} :
    (reader >>= f) data pos = .ok (result, next) ↔
      ∃ value middle, reader data pos = .ok (value, middle) ∧
        f value data middle = .ok (result, next) := by
  change (match reader data pos with
    | .error e => Except.error e
    | .ok (value, middle) => f value data middle) = _ ↔ _
  cases h : reader data pos with
  | error e => simp
  | ok found =>
    cases found with
    | mk value middle => simp

/-- A step of a reader, as a rewrite rule. -/
theorem bind_apply (reader : Reader α) (f : α → Reader β) :
    (reader >>= f) data pos = match reader data pos with
      | .error e => .error e
      | .ok (value, middle) => f value data middle := rfl

theorem pure_apply (value : α) : (pure value : Reader α) data pos = .ok (value, pos) := rfl

theorem pure_eq_ok {value result : α} :
    (pure value : Reader α) data pos = .ok (result, next) ↔ value = result ∧ pos = next := by
  change Except.ok (value, pos) = _ ↔ _
  simp

theorem readExact_eq_ok {count : Nat} :
    readExact count data pos = .ok (bytes, next) ↔
      bytes.length = count ∧ Stored data pos bytes ∧ next = pos + count := by
  simp only [readExact, Stored, List.prefix_iff_eq_take]
  constructor
  · intro h
    split at h
    · rename_i full
      cases h
      exact ⟨full, by rw [full], rfl⟩
    · cases h
  · rintro ⟨rfl, hbytes, rfl⟩
    rw [if_pos (by rw [← hbytes]), ← hbytes]

theorem within_succ {size count : Nat} : Within data pos (size * (count + 1)) ↔
    Within data pos size ∧ Within data (pos + size) (size * count) := by
  unfold Within
  rw [Nat.mul_succ]
  omega

theorem readExact_within {count : Nat} :
    readExact count data pos = .ok (bytes, next) ↔
      Within data pos count ∧ bytes = bytesAt data pos count ∧ next = pos + count := by
  have full : (bytesAt data pos count).length = count ↔ Within data pos count := by
    rw [bytesAt, List.length_take, List.length_drop, Within]
    omega
  change (if (bytesAt data pos count).length = count then _ else _) = _ ↔ _
  rw [← full]
  split
  · rename_i enough
    rw [and_iff_right enough, Except.ok.injEq, Prod.mk.injEq]
    exact and_congr eq_comm eq_comm
  · rename_i short
    exact iff_of_false nofun fun all => short all.1

theorem readLe_within {width value : Nat} :
    readLe width data pos = .ok (value, next) ↔
      Within data pos width ∧ value = leValue (bytesAt data pos width) ∧ next = pos + width := by
  unfold readLe
  simp only [bind_eq_ok, readExact_within, pure_eq_ok]
  constructor
  · rintro ⟨_, _, ⟨inside, rfl, rfl⟩, rfl, rfl⟩
    exact ⟨inside, rfl, rfl⟩
  · rintro ⟨inside, rfl, rfl⟩
    exact ⟨_, _, ⟨inside, rfl, rfl⟩, rfl, rfl⟩

/-- Items of one size are read where all of them are there. -/
theorem times_within {reader : Reader α} {size : Nat} {decode : List UInt8 → α}
    (item : ∀ pos value next, reader data pos = .ok (value, next) ↔
      Within data pos size ∧ value = decode (bytesAt data pos size) ∧ next = pos + size)
    {count : Nat} {values : List α} :
    times count reader data pos = .ok (values, next) ↔
      Within data pos (size * count) ∧
        values = (List.range count).map (fun i => decode (bytesAt data (pos + size * i) size)) ∧
          next = pos + size * count := by
  induction count generalizing pos next values with
  | zero =>
    rw [times, pure_eq_ok]
    simp [Within, eq_comm]
  | succ count ih =>
    unfold times
    simp only [bind_eq_ok, pure_eq_ok, item, ih]
    have values_ : (List.range (count + 1)).map
        (fun i => decode (bytesAt data (pos + size * i) size)) =
        decode (bytesAt data pos size) :: (List.range count).map
          fun i => decode (bytesAt data (pos + size + size * i) size) := by
      rw [List.range_succ_eq_map, List.map_cons, List.map_map]
      congr 1
      apply List.map_congr_left
      intro i _
      simp only [Function.comp_apply, Nat.succ_eq_add_one, Nat.mul_succ]
      congr 2
      omega
    rw [within_succ, values_, Nat.mul_succ]
    constructor
    · rintro ⟨_, _, ⟨first, rfl, rfl⟩, _, _, ⟨rest, rfl, rfl⟩, rfl, rfl⟩
      exact ⟨⟨first, rest⟩, rfl, by omega⟩
    · rintro ⟨⟨first, rest⟩, rfl, rfl⟩
      exact ⟨_, _, ⟨first, rfl, rfl⟩, _, _, ⟨rest, rfl, rfl⟩, rfl, by omega⟩

theorem readLe_eq_ok {width value : Nat} :
    readLe width data pos = .ok (value, next) ↔
      value < 256 ^ width ∧ Stored data pos (leBytes width value) ∧ next = pos + width := by
  unfold readLe
  simp only [bind_eq_ok, pure_eq_ok, readExact_eq_ok]
  constructor
  · rintro ⟨bytes, middle, ⟨rfl, hstored, rfl⟩, rfl, rfl⟩
    exact ⟨leValue_lt bytes, by rwa [leBytes_leValue], rfl⟩
  · rintro ⟨hsmall, hstored, rfl⟩
    exact ⟨_, _, ⟨leBytes_length width value, hstored, rfl⟩, leValue_leBytes hsmall, rfl⟩

@[simp] theorem seek_apply (target : Nat) : seek target data pos = .ok ((), target) := rfl

@[simp] theorem streamPosition_apply : streamPosition data pos = .ok (pos, pos) := rfl

/-- Reading `count` items back to back. -/
theorem times_eq_ok {reader : Reader α} {encode : α → List UInt8} {valid : α → Prop}
    (item : ∀ pos value next, reader data pos = .ok (value, next) ↔
      valid value ∧ Stored data pos (encode value) ∧ next = pos + (encode value).length)
    {count : Nat} {values : List α} :
    times count reader data pos = .ok (values, next) ↔
      values.length = count ∧ (∀ value ∈ values, valid value) ∧
        Stored data pos (values.flatMap encode) ∧
          next = pos + (values.flatMap encode).length := by
  induction count generalizing pos next values with
  | zero =>
    unfold times
    rw [pure_eq_ok]
    constructor
    · rintro ⟨rfl, rfl⟩
      simp
    · rintro ⟨hlength, _, _, hnext⟩
      cases List.length_eq_zero_iff.mp hlength
      simp [hnext]
  | succ count ih =>
    unfold times
    simp only [bind_eq_ok, pure_eq_ok, item, ih]
    constructor
    · rintro ⟨head, middle, ⟨hhead, hstored, rfl⟩, tail, stop, ⟨rfl, htail, hrest, rfl⟩, rfl, rfl⟩
      refine ⟨rfl, by simpa [hhead] using htail, ?_, by simp; omega⟩
      rw [List.flatMap_cons, Stored.append]
      exact ⟨hstored, hrest⟩
    · rintro ⟨hlength, hvalid, hstored, rfl⟩
      cases values with
      | nil => simp at hlength
      | cons head tail =>
        rw [List.flatMap_cons, Stored.append] at hstored
        refine ⟨head, _, ⟨hvalid head (by simp), hstored.1, rfl⟩, tail, _,
          ⟨by simpa using hlength, fun value member => hvalid value (by simp [member]),
            hstored.2, rfl⟩, rfl, ?_⟩
        simp
        omega

/-- Items that stand back to back are read one after the other. -/
theorem times_stored {reader : Reader α} {encode : α → List UInt8} {values : List α}
    (item : ∀ value ∈ values, ∀ pos, Stored data pos (encode value) →
      reader data pos = .ok (value, pos + (encode value).length))
    (stored : Stored data pos (values.flatMap encode)) :
    times values.length reader data pos =
      .ok (values, pos + (values.flatMap encode).length) := by
  induction values generalizing pos with
  | nil => rfl
  | cons head tail ih =>
    obtain ⟨hhead, htail⟩ := List.forall_mem_cons.mp item
    rw [List.flatMap_cons, Stored.append] at stored
    rw [List.length_cons, times]
    simp only [bind_apply, hhead pos stored.1, ih htail stored.2, pure_apply, List.flatMap_cons,
      List.length_append, Nat.add_assoc]

theorem untilPos_stored {reader : Reader α} {encode : α → List UInt8} {values : List α}
    {stop fuel : Nat} (item : ∀ value ∈ values, ∀ pos, Stored data pos (encode value) →
      reader data pos = .ok (value, pos + (encode value).length))
    (nonempty : ∀ value ∈ values, encode value ≠ [])
    (stored : Stored data pos (values.flatMap encode))
    (hstop : stop = pos + (values.flatMap encode).length) (enough : stop - pos ≤ fuel) :
    untilPos stop reader fuel data pos = .ok (values, stop) := by
  induction values generalizing pos fuel with
  | nil =>
    have hdone : stop = pos := hstop
    cases fuel with
    | zero => rw [untilPos, pure_apply, hdone]
    | succ fuel =>
      rw [untilPos, bind_apply]
      simp only [streamPosition_apply, hdone, Nat.lt_irrefl, if_false, pure_apply]
  | cons head tail ih =>
    obtain ⟨hhead, htail⟩ := List.forall_mem_cons.mp item
    obtain ⟨hsome, hrest⟩ := List.forall_mem_cons.mp nonempty
    have hlength := List.length_pos_iff.mpr hsome
    rw [List.flatMap_cons, Stored.append] at stored
    rw [List.flatMap_cons, List.length_append] at hstop
    obtain ⟨more, rfl⟩ : ∃ more, fuel = more + 1 := ⟨fuel - 1, by omega⟩
    have hlater := ih htail hrest stored.2 (by omega) (show _ ≤ more by omega)
    rw [untilPos, bind_apply]
    simp only [streamPosition_apply, if_pos (show pos < stop by omega), bind_apply,
      hhead pos stored.1, hlater, pure_apply]

/-- Whatever the reader returns, at any place of the data, has the property. -/
def Ensures (data : List UInt8) (reader : Reader α) (post : α → Prop) : Prop :=
  ∀ pos value next, reader data pos = .ok (value, next) → post value

namespace Ensures

variable {reader : Reader α} {f : α → Reader β} {post : α → Prop} {final : β → Prop}

theorem bind (head : Ensures data reader post)
    (rest : ∀ value, post value → Ensures data (f value) final) :
    Ensures data (reader >>= f) final := by
  intro pos value next read
  obtain ⟨first, middle, found, read⟩ := bind_eq_ok.mp read
  exact rest first (head pos first middle found) middle value next read

theorem of_pure {value : α} (holds : post value) : Ensures data (pure value) post := by
  intro pos result next read
  obtain ⟨rfl, -⟩ := pure_eq_ok.mp read
  exact holds

theorem any : Ensures data reader fun _ => True := fun _ _ _ _ => trivial

theorem of_invalidData {message : String} : Ensures data (invalidData message) post := nofun

/-- A check that refuses its input goes before the rest. -/
theorem check {refused : Prop} [Decidable refused] {message : String} {rest : Unit → Reader β}
    (h : ¬refused → Ensures data (rest ()) final) :
    Ensures data (if refused then invalidData message >>= rest else rest ()) final := by
  split
  · exact nofun
  · exact h ‹_›

theorem of_times (item : Ensures data reader post) (count : Nat) :
    Ensures data (times count reader) fun values =>
      values.length = count ∧ ∀ value ∈ values, post value := by
  induction count with
  | zero => exact of_pure (by simp)
  | succ count ih =>
    unfold times
    refine item.bind fun head holds => ih.bind fun tail rest => ?_
    exact of_pure ⟨by simp [rest.1], List.forall_mem_cons.mpr ⟨holds, rest.2⟩⟩

theorem readLe_fits (width : Nat) : Ensures data (readLe width) fun value => value < 256 ^ width := by
  intro pos value next read
  exact (readLe_eq_ok.mp read).1

end Ensures

end Reader
end Warpine.Lib
