import Warpine.Loader.EaLists

/-! What a query of extended attributes by name needs to end and to stay inside the list
that it is given: its code looks at neither the links that it follows nor the size that
the guest declares. -/
namespace Warpine.Loader
open Warpine.Lib Warpine.Guest Warpine.Vfs

section Chain

variable (mem : GuestMemory) (pGea2List cbList : Nat)

/-- The entry after the one at a position, where the walk goes on. -/
def geaLink (pos : Nat) : Option Nat :=
  if pos < cbList ∧ geaNameLen mem pGea2List pos ≠ 0 ∧ geaNext mem pGea2List pos ≠ 0 then
    some (wrapAdd pos (geaNext mem pGea2List pos))
  else none

/-- The links lead to no entry twice. -/
def NoReturn : Prop := ∀ n m pos, walk (geaLink mem pGea2List cbList) n 4 = some pos →
  walk (geaLink mem pGea2List cbList) m 4 = some pos → n = m

variable {mem pGea2List cbList}

theorem geaNames_eq_none (fuel pos : Nat) : geaNames mem pGea2List cbList fuel pos = none ↔
    walk (geaLink mem pGea2List cbList) fuel pos ≠ none := by
  induction fuel generalizing pos with
  | zero => simp [geaNames, walk]
  | succ fuel ih =>
    rw [geaNames, walk_front]
    by_cases inside : pos < cbList
    · by_cases unnamed : geaNameLen mem pGea2List pos = 0
      · simp [inside, unnamed, geaLink]
      · by_cases last : geaNext mem pGea2List pos = 0
        · simp [inside, unnamed, last, geaLink]
        · have linked : geaLink mem pGea2List cbList pos =
              some (wrapAdd pos (geaNext mem pGea2List pos)) := if_pos ⟨inside, unnamed, last⟩
          rw [if_pos inside, if_neg unnamed, if_neg last, linked, Option.map_eq_none_iff, ih,
            Option.bind_some]
    · simp [inside, geaLink]

theorem geaLink_lt {pos next : Nat} (h : geaLink mem pGea2List cbList pos = some next) :
    next < u32Size := by
  unfold geaLink at h
  split at h
  · cases h
    exact wrapAdd_lt ..
  · cases h

/-- The names are all read exactly when the links never lead back. -/
theorem geaNames_ends_iff : (∃ fuel names, geaNames mem pGea2List cbList fuel 4 = some names) ↔
    NoReturn mem pGea2List cbList := by
  have words : ∀ n pos, walk (geaLink mem pGea2List cbList) n 4 = some pos →
      pos ∈ Set.Iio u32Size := by
    intro n pos here
    cases n with
    | zero =>
      cases here
      exact show 4 < u32Size by decide
    | succ n =>
      obtain ⟨before, _, link⟩ := Option.bind_eq_some_iff.mp here
      exact geaLink_lt link
  rw [NoReturn, ← walk_ends_iff (Set.finite_Iio u32Size) words]
  apply exists_congr
  intro fuel
  rw [← Option.ne_none_iff_exists', ne_eq, geaNames_eq_none, not_not]

/-- More fuel reads the same names. -/
theorem geaNames_mono {fuel pos : Nat} {names : List String}
    (h : geaNames mem pGea2List cbList fuel pos = some names) {more : Nat} (le : fuel ≤ more) :
    geaNames mem pGea2List cbList more pos = some names := by
  induction fuel generalizing pos names more with
  | zero => cases h
  | succ fuel ih =>
    obtain ⟨more, rfl⟩ : ∃ rest, more = rest + 1 := ⟨more - 1, by omega⟩
    rw [geaNames] at h ⊢
    by_cases inside : pos < cbList
    · rw [if_pos inside] at h ⊢
      by_cases unnamed : geaNameLen mem pGea2List pos = 0
      · rwa [if_pos unnamed] at h ⊢
      · rw [if_neg unnamed] at h ⊢
        by_cases last : geaNext mem pGea2List pos = 0
        · rwa [if_pos last] at h ⊢
        · rw [if_neg last] at h ⊢
          obtain ⟨rest, later, rfl⟩ := Option.map_eq_some_iff.mp h
          rw [ih later (by omega)]
          rfl
    · rwa [if_neg inside] at h ⊢

theorem geaNames_unique {first second pos : Nat} {names others : List String}
    (h : geaNames mem pGea2List cbList first pos = some names)
    (h' : geaNames mem pGea2List cbList second pos = some others) : names = others := by
  have left := geaNames_mono h (Nat.le_max_left first second)
  rw [geaNames_mono h' (Nat.le_max_right first second)] at left
  exact (Option.some.inj left).symm

end Chain

section Room

variable (mem : GuestMemory) (pFea2List : Nat)

/-- The size that the guest declares for the list. -/
def declaredSize : Nat := (mem.read 4 pFea2List).getD 0

/-- The buffer of that size, and its length field. -/
def InFeaBuffer (addr : Nat) : Prop :=
  pFea2List ≤ addr ∧ addr < pFea2List + max (declaredSize mem pFea2List) 4

/-- The writes that are made at all, as they lie in memory, are made in the buffer. -/
def Contained (writes : List (Nat × List UInt8)) : Prop :=
  ∀ write ∈ writes, mem.inBounds write.1 write.2.length → ∀ addr, ByteStore.Covers write addr →
    InFeaBuffer mem pFea2List addr

/-- A field that lies in memory lies in the buffer. -/
def Stays (addr len : Nat) : Prop :=
  len ≠ 0 → addr + len ≤ mem.size →
    pFea2List ≤ addr ∧ addr + len ≤ pFea2List + max (declaredSize mem pFea2List) 4

end Room

/-- The fields of a record, by their places in it and their lengths. -/
def FeaRecord.fields (record : FeaRecord) : List (Nat × Nat) :=
  [(0, 4), (4, 1), (5, 1), (6, 2), (8, record.name.length), (8 + record.name.length, 1),
    (9 + record.name.length, record.value.length)]

/-- The records with their offsets. -/
def placed : Nat → List FeaRecord → List (Nat × FeaRecord)
  | _, [] => []
  | offset, record :: rest => (offset, record) :: placed (offset + alignedSize record.size) rest

/-- Every field of every record, and the cell for an error's place, keeps to the buffer. -/
def Room (mem : GuestMemory) (pFea2List bufPtr : Nat) (records : List FeaRecord) : Prop :=
  (∀ spot ∈ placed 4 records, ∀ field ∈ spot.2.fields,
    Stays mem pFea2List ((pFea2List + spot.1 + field.1) % u32Size) field.2) ∧
    Stays mem pFea2List (wrapAdd bufPtr 8) 4

section Writes

variable {mem : GuestMemory} {pFea2List : Nat}

theorem contained_iff {writes : List (Nat × List UInt8)} : Contained mem pFea2List writes ↔
    ∀ write ∈ writes, Stays mem pFea2List write.1 write.2.length := by
  apply forall₂_congr
  intro write _
  unfold Stays InFeaBuffer ByteStore.Covers
  rw [GuestMemory.inBounds, decide_eq_true_iff]
  constructor
  · intro inside some_ bounds
    have first := inside bounds write.1 (by omega)
    have last := inside bounds (write.1 + write.2.length - 1) (by omega)
    omega
  · intro stays bounds addr covers
    have := stays (by omega) bounds
    omega

/-- The writes of a record are its fields. -/
theorem writes_stay_iff {ptr : Nat} (small : ptr < u32Size) (record : FeaRecord) :
    (∀ write ∈ record.writes ptr, Stays mem pFea2List write.1 write.2.length) ↔
      ∀ field ∈ record.fields, Stays mem pFea2List ((ptr + field.1) % u32Size) field.2 := by
  have start : ptr % u32Size = ptr := Nat.mod_eq_of_lt small
  unfold FeaRecord.writes FeaRecord.fields
  by_cases empty : record.value = []
  · have none (addr : Nat) : Stays mem pFea2List addr 0 := fun some_ => absurd rfl some_
    simp [empty, none, start, wrapAdd, Nat.add_assoc]
  · simp [empty, start, wrapAdd, Nat.add_assoc]

/-- The writes of all records. A link is written where a record's first field is. -/
theorem feaWrites_stay_iff (records : List FeaRecord) (offset : Nat) (prev : Option Nat) :
    (∀ write ∈ (feaWrites pFea2List (offset % u32Size) prev records).1,
        Stays mem pFea2List write.1 write.2.length) ↔
      (∀ ptr ∈ prev, records ≠ [] → Stays mem pFea2List ptr 4) ∧
        ∀ spot ∈ placed offset records, ∀ field ∈ spot.2.fields,
          Stays mem pFea2List ((pFea2List + spot.1 + field.1) % u32Size) field.2 := by
  induction records generalizing offset prev with
  | nil => simp [feaWrites, placed]
  | cons record rest ih =>
    have next : wrapAdd (offset % u32Size) (wrapAdd (record.size % u32Size) 3 / 4 * 4) =
        (offset + alignedSize record.size) % u32Size := by
      have same := aligned_mod record.size
      generalize wrapAdd (record.size % u32Size) 3 / 4 * 4 = aligned at same ⊢
      unfold wrapAdd
      unfold u32Size at same ⊢
      omega
    have ptr : wrapAdd pFea2List (offset % u32Size) = (pFea2List + offset) % u32Size :=
      Nat.add_mod_mod ..
    have here := @writes_stay_iff mem pFea2List _ (wrapAdd_lt pFea2List (offset % u32Size)) record
    have shifted (field : Nat) : ((pFea2List + offset) % u32Size + field) % u32Size =
      (pFea2List + offset + field) % u32Size := Nat.mod_add_mod ..
    have link : (∀ write ∈ linkWrites prev (wrapAdd pFea2List (offset % u32Size)),
        Stays mem pFea2List write.1 write.2.length) ↔
          ∀ ptr ∈ prev, Stays mem pFea2List ptr 4 := by
      cases prev <;> simp [linkWrites]
    rw [feaWrites, next]
    dsimp only
    rw [List.forall_mem_append, List.forall_mem_append, ih, here, link, placed,
      List.forall_mem_cons, ptr]
    simp only [shifted, ne_eq, reduceCtorEq, not_false_eq_true, forall_const]
    constructor
    · rintro ⟨⟨fields, before⟩, _, later⟩
      exact ⟨before, fields, later⟩
    · rintro ⟨before, fields, later⟩
      refine ⟨⟨fields, before⟩, ?_, later⟩
      intro other same _
      rw [← Option.mem_some_iff.mp same]
      exact fields (0, 4) List.mem_cons_self

/-- All writes of a query that is answered. -/
theorem answered_contained_iff (bufPtr : Nat) (records : List FeaRecord) :
    Contained mem pFea2List ((feaWrites pFea2List 4 none records).1 ++
        [(pFea2List, leBytes 4 (feaWrites pFea2List 4 none records).2),
          (wrapAdd bufPtr 8, leBytes 4 0)]) ↔ Room mem pFea2List bufPtr records := by
  have length : Stays mem pFea2List pFea2List 4 := by
    intro _ _
    omega
  have all := @feaWrites_stay_iff mem pFea2List records 4 none
  rw [Nat.mod_eq_of_lt (by decide)] at all
  rw [contained_iff, List.forall_mem_append, all, Room]
  simp [length]

end Writes

section Calls

variable {β : Type} [EaBackend β] {rs : EncodingRs} {cp : Nat} {dm : DriveManager β}
  {mem : GuestMemory} {os2Path : Path} {bufPtr bufLen : Nat}

/-- The chain of the names ends, and what is written for them keeps to the buffer. -/
structure QueryFits (rs : EncodingRs) (cp : Nat) (dm : DriveManager β) (mem : GuestMemory)
    (os2Path : Path) (bufPtr pGea2List pFea2List : Nat) : Prop where
  noReturn : NoReturn mem pGea2List ((mem.read 4 pGea2List).getD 0)
  room : ∀ fuel names drive relPath backend,
    geaNames mem pGea2List ((mem.read 4 pGea2List).getD 0) fuel 4 = some names →
      dm.resolvePath os2Path = .ok (drive, relPath) → dm.drives drive = some backend →
        Room mem pFea2List bufPtr
          (names.map fun name => feaRecord rs cp (eaAnswer backend relPath name))

/-- What a query does once the names have been read. -/
theorem query_named {fuel : Nat} {names : List String} (long : ¬ bufLen < 12)
    (lists : ¬ ((mem.read 4 bufPtr).getD 0 = 0 ∨ (mem.read 4 (wrapAdd bufPtr 4)).getD 0 = 0))
    (listed : ¬ (mem.read 4 ((mem.read 4 bufPtr).getD 0)).getD 0 < 4)
    (named : geaNames mem ((mem.read 4 bufPtr).getD 0)
      ((mem.read 4 ((mem.read 4 bufPtr).getD 0)).getD 0) fuel 4 = some names) :
    ∃ code writes, dosQueryEasFromList rs cp dm fuel mem os2Path bufPtr bufLen =
        some (code, writes) ∧
      (Contained mem ((mem.read 4 (wrapAdd bufPtr 4)).getD 0) writes ↔
        ∀ drive relPath backend, dm.resolvePath os2Path = .ok (drive, relPath) →
          dm.drives drive = some backend →
            Room mem ((mem.read 4 (wrapAdd bufPtr 4)).getD 0) bufPtr
              (names.map fun name => feaRecord rs cp (eaAnswer backend relPath name))) := by
  have nothing : Contained mem ((mem.read 4 (wrapAdd bufPtr 4)).getD 0) [] := by simp [Contained]
  simp only [dosQueryEasFromList, long, lists, listed, named, if_false, Option.map_some]
  refine ⟨_, _, rfl, ?_⟩
  cases resolved : dm.resolvePath os2Path with
  | error e => simp [nothing]
  | ok found =>
    obtain ⟨drive, relPath⟩ := found
    cases mounted : dm.drives drive with
    | none =>
      simp only [mounted, nothing, true_iff]
      intro other path backend same there
      cases same
      rw [mounted] at there
      cases there
    | some backend =>
      simp only [mounted]
      rw [answered_contained_iff]
      constructor
      · intro room other path backend' same there
        cases same
        rw [mounted] at there
        cases there
        exact room
      · exact fun room => room drive relPath backend rfl mounted

/-- A query returns, with all its writes in the list of the declared size, exactly when it
is refused for its arguments, or its chain of names comes back to no entry and no field of
a record, nor the cell for an error's place, lies in memory outside that list. -/
theorem query_contained_iff :
    (∃ fuel code writes, dosQueryEasFromList rs cp dm fuel mem os2Path bufPtr bufLen =
        some (code, writes) ∧
      Contained mem ((mem.read 4 (wrapAdd bufPtr 4)).getD 0) writes) ↔
      bufLen < 12 ∨ (mem.read 4 bufPtr).getD 0 = 0 ∨ (mem.read 4 (wrapAdd bufPtr 4)).getD 0 = 0 ∨
        (mem.read 4 ((mem.read 4 bufPtr).getD 0)).getD 0 < 4 ∨
          QueryFits rs cp dm mem os2Path bufPtr ((mem.read 4 bufPtr).getD 0)
            ((mem.read 4 (wrapAdd bufPtr 4)).getD 0) := by
  have nothing : Contained mem ((mem.read 4 (wrapAdd bufPtr 4)).getD 0) [] := by simp [Contained]
  by_cases short : bufLen < 12
  · simp only [short, true_or, iff_true]
    exact ⟨0, _, [], if_pos short, nothing⟩
  · by_cases null : (mem.read 4 bufPtr).getD 0 = 0 ∨ (mem.read 4 (wrapAdd bufPtr 4)).getD 0 = 0
    · have refused : dosQueryEasFromList rs cp dm 0 mem os2Path bufPtr bufLen =
        some (invalidParameter, []) := (if_neg short).trans (if_pos null)
      constructor
      · exact fun _ => null.elim (fun h => .inr (.inl h)) fun h => .inr (.inr (.inl h))
      · exact fun _ => ⟨0, _, [], refused, nothing⟩
    · by_cases unlisted : (mem.read 4 ((mem.read 4 bufPtr).getD 0)).getD 0 < 4
      · have refused : dosQueryEasFromList rs cp dm 0 mem os2Path bufPtr bufLen =
          some (invalidParameter, []) :=
            (if_neg short).trans ((if_neg null).trans (if_pos unlisted))
        simp only [unlisted, true_or, or_true, iff_true]
        exact ⟨0, _, [], refused, nothing⟩
      · obtain ⟨first, second⟩ := not_or.mp null
        simp only [short, first, second, unlisted, false_or]
        constructor
        · rintro ⟨fuel, code, writes, call, contained⟩
          cases named : geaNames mem ((mem.read 4 bufPtr).getD 0)
              ((mem.read 4 ((mem.read 4 bufPtr).getD 0)).getD 0) fuel 4 with
          | none =>
            simp only [dosQueryEasFromList, short, null, unlisted, named, if_false,
              Option.map_none, reduceCtorEq] at call
          | some names =>
            obtain ⟨code', writes', call', room⟩ :=
              @query_named _ _ rs cp dm _ os2Path _ _ _ _ short null unlisted named
            rw [call'] at call
            cases call
            refine ⟨geaNames_ends_iff.mp ⟨fuel, names, named⟩, ?_⟩
            intro other others drive relPath backend named' resolved mounted
            rw [geaNames_unique named' named]
            exact room.mp contained drive relPath backend resolved mounted
        · rintro ⟨noReturn, room⟩
          obtain ⟨fuel, names, named⟩ := geaNames_ends_iff.mpr noReturn
          obtain ⟨code, writes, call, contained⟩ :=
            @query_named _ _ rs cp dm _ os2Path _ _ _ _ short null unlisted named
          refine ⟨fuel, code, writes, call, contained.mpr ?_⟩
          exact fun drive relPath backend => room fuel names drive relPath backend named

end Calls

/-- Both lists, of which the second is declared to be four bytes long. -/
def shortListMemory : GuestMemory := oneEaMemory.put 4 128 4

/-- A record is written behind a list that has no room for it. -/
theorem short_list_overrun :
    ¬ ∀ (rs : EncodingRs) (cp : Nat) (dm : DriveManager EaVolume) (mem : GuestMemory)
      (os2Path : Path) (bufPtr bufLen : Nat), ∃ fuel code writes,
        dosQueryEasFromList rs cp dm fuel mem os2Path bufPtr bufLen = some (code, writes) ∧
          Contained mem ((mem.read 4 (wrapAdd bufPtr 4)).getD 0) writes := by
  intro claim
  obtain ⟨fuel, code, writes, call, contained⟩ :=
    claim noConversions 437 (oneEaDrives [1]) shortListMemory "A".toList 16 12
  have named : geaNames shortListMemory 64 11 1 4 = some ["X"] := by decide
  cases spent : geaNames shortListMemory 64 11 fuel 4 with
  | none =>
    have stuck : dosQueryEasFromList noConversions 437 (oneEaDrives [1]) fuel shortListMemory
        "A".toList 16 12 = none := congrArg (Option.map _) spent
    rw [stuck] at call
    cases call
  | some names =>
    cases geaNames_unique spent named
    obtain ⟨code', writes', call', room⟩ := @query_named _ _ noConversions 437 (oneEaDrives [1])
      shortListMemory "A".toList 16 12 fuel ["X"] (by decide) (by decide)
      (by decide) spent
    rw [call'] at call
    cases call
    obtain ⟨fields, _⟩ := room.mp contained 2 "A".toList (oneEaVolume [1]) (by decide) rfl
    have stays : Stays shortListMemory 128 132 4 :=
      fields _ List.mem_cons_self (0, 4) List.mem_cons_self
    exact absurd (stays (by decide) (by decide)) (by decide)

end Warpine.Loader
