import Warpine.Ne.Header

/-! When the tables of an NE executable that are parsed in memory are parsed without a
panic: names always, entries when their bundles are whole and their ordinals are words. -/
namespace Warpine.Ne
open Warpine.Lib

section Indexing

variable {data : List UInt8} {pos : Nat}

theorem exists_index (inside : pos < data.length) : ∃ byte, data[pos]? = some byte :=
  ⟨data[pos], List.getElem?_eq_getElem inside⟩

theorem exists_wordAt (inside : pos + 1 < data.length) : ∃ word, wordAt data pos = some word := by
  obtain ⟨low, hlow⟩ := exists_index (show pos < data.length by omega)
  obtain ⟨high, hhigh⟩ := exists_index inside
  exact ⟨_, by rw [wordAt, hlow, hhigh]; rfl⟩

theorem exists_slice {start stop : Nat} (ordered : start ≤ stop) (inside : stop ≤ data.length) :
    ∃ bytes, slice data start stop = some bytes :=
  ⟨_, if_pos ⟨ordered, inside⟩⟩

end Indexing

/-- Names never lead out of the table. -/
theorem parseNames_isSome {data : List UInt8} {fuel pos : Nat} {entries : List (String × Nat)}
    (inside : pos ≤ data.length) (enough : data.length < pos + fuel) :
    (parseNames data fuel pos entries).isSome := by
  induction fuel generalizing pos entries with
  | zero => omega
  | succ fuel ih =>
    unfold parseNames
    split
    · rfl
    · rename_i more
      obtain ⟨len, hlen⟩ := exists_index (show pos < data.length by omega)
      simp only [hlen, Option.bind_eq_bind, Option.bind_some]
      split
      · rfl
      · split
        · rfl
        · rename_i _ room
          obtain ⟨name, hname⟩ := @exists_slice data (pos + 1) (pos + 1 + len.toNat)
            (by omega) (by omega)
          obtain ⟨ordinal, hordinal⟩ := @exists_wordAt data (pos + 1 + len.toNat) (by omega)
          simp only [hname, hordinal, Option.bind_some]
          exact ih (by omega) (by omega)

theorem parseNameTable_isSome (data : List UInt8) : (parseNameTable data).isSome :=
  parseNames_isSome (Nat.zero_le _) (by omega)

/-- The size of an entry in a bundle of the given kind. -/
def entrySize (indicator : Nat) : Nat := if indicator = entryMovable then 6 else 3

/-- As many entries of a bundle as the rest of the table has room for. -/
def wholeEntries (indicator count room : Nat) : Nat := min count (room / entrySize indicator)

section Entries

variable {data : List UInt8} {indicator count pos ordinal : Nat} {entries : List NeEntry}

theorem parseEntries_short (short : data.length < pos + entrySize indicator) :
    parseEntries data indicator (count + 1) pos ordinal entries = some (pos, ordinal, entries) := by
  unfold parseEntries
  unfold entrySize at short
  split
  · rename_i movable
    rw [if_pos movable] at short
    exact if_pos short
  · rename_i fixed
    rw [if_neg fixed] at short
    exact if_pos short

theorem parseEntries_step (room : pos + entrySize indicator ≤ data.length) :
    ∃ entry, parseEntries data indicator (count + 1) pos ordinal entries =
      (addWord 16 ordinal 1).bind fun next =>
        parseEntries data indicator count (pos + entrySize indicator) next (entries ++ [entry]) := by
  unfold entrySize at room
  obtain ⟨flags, hflags⟩ := @exists_index data pos (by split at room <;> omega)
  rw [parseEntries]
  split
  · rename_i movable
    rw [if_pos movable] at room
    obtain ⟨segmentNum, hsegment⟩ := @exists_index data (pos + 3) (by omega)
    obtain ⟨offset, hoffset⟩ := @exists_wordAt data (pos + 4) (by omega)
    rw [if_neg (by omega), entrySize, if_pos movable]
    simp only [hflags, hsegment, hoffset, Option.bind_eq_bind, Option.bind_some]
    exact ⟨_, rfl⟩
  · rename_i fixed
    rw [if_neg fixed] at room
    obtain ⟨offset, hoffset⟩ := @exists_wordAt data (pos + 1) (by omega)
    rw [if_neg (by omega), entrySize, if_neg fixed]
    simp only [hflags, hoffset, Option.bind_eq_bind, Option.bind_some]
    exact ⟨_, rfl⟩

theorem entrySize_pos (indicator : Nat) : 0 < entrySize indicator := by
  unfold entrySize
  split <;> omega

/-- Room for one entry more is room for the first and for the others behind it. -/
theorem wholeEntries_succ (room : pos + entrySize indicator ≤ data.length) :
    wholeEntries indicator (count + 1) (data.length - pos) =
      wholeEntries indicator count (data.length - (pos + entrySize indicator)) + 1 := by
  have positive := entrySize_pos indicator
  unfold wholeEntries
  rw [Nat.div_eq_sub_div positive (by omega), Nat.sub_sub]
  omega

theorem wholeEntries_short (short : data.length < pos + entrySize indicator) :
    wholeEntries indicator count (data.length - pos) = 0 := by
  have positive := entrySize_pos indicator
  unfold wholeEntries
  rw [Nat.div_eq_of_lt (by omega)]
  omega

/-- The entries of a bundle are parsed unless their ordinals run out. -/
theorem parseEntries_spec (small : ordinal < 2 ^ 16) (inside : pos ≤ data.length) :
    let whole := wholeEntries indicator count (data.length - pos)
    if ordinal + whole < 2 ^ 16 then
      ∃ more, parseEntries data indicator count pos ordinal entries =
        some (pos + whole * entrySize indicator, ordinal + whole, more)
    else parseEntries data indicator count pos ordinal entries = none := by
  induction count generalizing pos ordinal entries with
  | zero =>
    simp only [wholeEntries, Nat.zero_min, Nat.add_zero, if_pos small, Nat.zero_mul, parseEntries]
    exact ⟨entries, rfl⟩
  | succ count ih =>
    intro whole
    by_cases short : data.length < pos + entrySize indicator
    · have none : whole = 0 := wholeEntries_short short
      rw [none, Nat.add_zero, if_pos small, Nat.zero_mul, Nat.add_zero, parseEntries_short short]
      exact ⟨entries, rfl⟩
    · have room : pos + entrySize indicator ≤ data.length := by omega
      have split_ : whole = wholeEntries indicator count
          (data.length - (pos + entrySize indicator)) + 1 := wholeEntries_succ room
      obtain ⟨entry, step⟩ := @parseEntries_step data indicator count pos ordinal entries room
      rw [step]
      by_cases last : ordinal + 1 < 2 ^ 16
      · rw [addWord_of_lt last, Option.bind_some]
        have rest := @ih (pos + entrySize indicator) (ordinal + 1) (entries ++ [entry]) last room
        dsimp only at rest
        rw [split_]
        split at rest
        · obtain ⟨more, parsed⟩ := rest
          rw [if_pos (by omega), parsed]
          refine ⟨more, ?_⟩
          rw [Nat.add_mul, Nat.one_mul]
          congr 2
          · omega
          · congr 1
            omega
        · rw [if_neg (by omega)]
          exact rest
      · rw [addWord_of_le (by omega), if_neg (by omega)]
        rfl

end Entries

/-- A table of bundles: a count and a kind, and what entries of it the table has room for.
The ordinals of all of them are words, and so is the one that would come next. -/
inductive Bundles : Nat → List UInt8 → Prop where
  | done (ordinal : Nat) : Bundles ordinal []
  | stop (ordinal : Nat) (rest : List UInt8) : Bundles ordinal (0 :: rest)
  | unused {ordinal : Nat} {count : UInt8} {rest : List UInt8} (some_ : count ≠ 0)
      (words : ordinal + count.toNat < 2 ^ 16) (more : Bundles (ordinal + count.toNat) rest) :
      Bundles ordinal (count :: 0 :: rest)
  | entries {ordinal whole : Nat} {count indicator : UInt8} {rest : List UInt8} (some_ : count ≠ 0)
      (used : indicator ≠ 0)
      (fit : whole = wholeEntries indicator.toNat count.toNat rest.length)
      (words : ordinal + whole < 2 ^ 16)
      (more : Bundles (ordinal + whole) (rest.drop (whole * entrySize indicator.toNat))) :
      Bundles ordinal (count :: indicator :: rest)

section Bundles

variable {ordinal : Nat} {count indicator : UInt8} {rest : List UInt8}

theorem not_bundles_one (some_ : count ≠ 0) : ¬ Bundles ordinal [count] := by
  intro h
  cases h
  exact some_ rfl

theorem bundles_unused (some_ : count ≠ 0) : Bundles ordinal (count :: 0 :: rest) ↔
    ordinal + count.toNat < 2 ^ 16 ∧ Bundles (ordinal + count.toNat) rest := by
  constructor
  · intro h
    cases h with
    | stop => exact absurd rfl some_
    | unused _ words more => exact ⟨words, more⟩
    | entries _ used => exact absurd rfl used
  · rintro ⟨words, more⟩
    exact .unused some_ words more

theorem bundles_entries (some_ : count ≠ 0) (used : indicator ≠ 0) :
    Bundles ordinal (count :: indicator :: rest) ↔
      ordinal + wholeEntries indicator.toNat count.toNat rest.length < 2 ^ 16 ∧
        Bundles (ordinal + wholeEntries indicator.toNat count.toNat rest.length)
          (rest.drop (wholeEntries indicator.toNat count.toNat rest.length *
            entrySize indicator.toNat)) := by
  constructor
  · intro h
    cases h with
    | stop => exact absurd rfl some_
    | unused => exact absurd rfl used
    | entries _ _ fit words more =>
      subst fit
      exact ⟨words, more⟩
  · rintro ⟨words, more⟩
    exact .entries some_ used rfl words more

end Bundles

theorem parseBundles_isSome {data : List UInt8} {fuel pos ordinal : Nat} {entries : List NeEntry}
    (small : ordinal < 2 ^ 16) (inside : pos ≤ data.length) (enough : data.length < pos + fuel) :
    (parseBundles data fuel pos ordinal entries).isSome ↔ Bundles ordinal (data.drop pos) := by
  induction fuel generalizing pos ordinal entries with
  | zero => omega
  | succ fuel ih =>
    unfold parseBundles
    split
    · rename_i ended
      rw [List.drop_eq_nil_of_le ended]
      simp [Bundles.done]
    · rename_i more
      have first := List.drop_eq_getElem_cons (show pos < data.length by omega)
      have hcount : data[pos]? = some data[pos] := List.getElem?_eq_getElem (by omega)
      generalize data[pos] = count at first hcount
      rw [first]
      simp only [hcount, Option.bind_eq_bind, Option.bind_some]
      split
      · rename_i none
        rw [none]
        simp [Bundles.stop]
      · rename_i some_
        by_cases last : pos + 1 < data.length
        · have second := List.drop_eq_getElem_cons last
          have hindicator : data[pos + 1]? = some data[pos + 1] := List.getElem?_eq_getElem last
          generalize data[pos + 1] = indicator at second hindicator
          rw [second]
          simp only [hindicator, Option.bind_some]
          by_cases unused : indicator = 0
          · rw [unused, if_pos (show UInt8.toNat 0 = entryUnused from rfl), bundles_unused some_]
            by_cases words : ordinal + count.toNat < 2 ^ 16
            · rw [addWord_of_lt words, Option.bind_some,
                ih words (by omega) (by omega), and_iff_right words]
            · rw [addWord_of_le (by omega)]
              exact iff_of_false nofun fun both => words both.1
          · have used : indicator.toNat ≠ entryUnused := fun none =>
              unused (UInt8.toNat_inj.mp none)
            have parsed := @parseEntries_spec data indicator.toNat count.toNat (pos + 2) ordinal
              entries small (by omega)
            rw [if_neg used, bundles_entries some_ unused, List.length_drop]
            dsimp only at parsed
            split at parsed
            · rename_i words
              obtain ⟨listed, parsed⟩ := parsed
              have room : wholeEntries indicator.toNat count.toNat (data.length - (pos + 2)) *
                  entrySize indicator.toNat ≤ data.length - (pos + 2) := by
                apply Nat.le_trans (Nat.mul_le_mul_right _ (Nat.min_le_right _ _))
                exact Nat.div_mul_le_self _ _
              rw [parsed, Option.bind_some, ih words (by omega) (by omega),
                and_iff_right words, List.drop_drop]
            · rename_i words
              rw [parsed]
              exact iff_of_false nofun fun both => words both.1
        · have ended : data.length ≤ pos + 1 := by omega
          rw [List.drop_eq_nil_of_le ended, List.getElem?_eq_none ended]
          simp [not_bundles_one some_]

/-- The entry table is parsed without a panic just when it is made of bundles. -/
theorem parseEntryTable_isSome (data : List UInt8) :
    (parseEntryTable data).isSome ↔ Bundles 1 data := by
  have parsed := @parseBundles_isSome data (data.length + 1) 0 1 [] (by decide) (Nat.zero_le _)
    (by omega)
  rwa [List.drop_zero] at parsed

end Warpine.Ne
