import Mathlib.Data.Nat.ModEq
import Warpine.Guest.Footprint
import Warpine.Vcpu.NeStart

/-! What one relocation of a 16-bit executable should make of guest memory, and when it does. -/
namespace Warpine.Vcpu
open Warpine.Lib Warpine.Guest Warpine.Ne Warpine.Loader

section Places

/-- The places that a relocation patches: its own one, if what it finds there is an operand,
and else those of a chain that gets to its end and nowhere in its own way. -/
def ChainPlaces (mem : GuestMemory) (base : Nat) (reloc : NeRelocationEntry) (places : List Nat) :
    Prop :=
  if reloc.isAdditive then places = [reloc.sourceOffset]
  else places.head? = some reloc.sourceOffset ∧ Links mem base places ∧
    places.Pairwise (KeepsClear reloc.sourceType base)

variable {reloc : NeRelocationEntry} {target : Nat × Nat} {base offset : Nat}
  {mem after other : GuestMemory} {places : List Nat}

/-- The links decide where a chain ends and what it leaves. -/
theorem Chain.unique (chain : Chain reloc target base offset mem after)
    (second : Chain reloc target base offset mem other) : after = other := by
  induction chain with
  | last ends =>
    cases second with
    | last => rfl
    | next goes => exact absurd ends goes
  | next goes _ ih =>
    cases second with
    | last ends => exact absurd ends goes
    | next _ rest => exact ih rest

theorem Links.lt (links : Links mem base (offset :: places)) (small : offset < 2 ^ 16) :
    ∀ place ∈ offset :: places, place < 2 ^ 16 := by
  induction places generalizing offset with
  | nil => exact List.forall_mem_singleton.mpr small
  | cons next rest ih =>
    obtain ⟨held, _, more⟩ := links
    exact List.forall_mem_cons.mpr ⟨small, ih more (GuestMemory.read_lt held)⟩

theorem ChainPlaces.lt (chain : ChainPlaces mem base reloc places)
    (small : reloc.sourceOffset < 2 ^ 16) : ∀ place ∈ places, place < 2 ^ 16 := by
  unfold ChainPlaces at chain
  split at chain
  · subst chain
    exact List.forall_mem_singleton.mpr small
  · obtain ⟨head, links, _⟩ := chain
    obtain ⟨rest, rfl⟩ := List.head?_eq_some_iff.mp head
    exact links.lt small

theorem ChainPlaces.source (chain : ChainPlaces mem base reloc places) :
    reloc.sourceOffset ∈ places := by
  unfold ChainPlaces at chain
  split at chain
  · subst chain
    exact List.mem_singleton_self _
  · exact List.mem_of_head? chain.1

theorem ChainPlaces.apart (chain : ChainPlaces mem base reloc places) :
    (fieldWrites reloc.sourceType target base places).Pairwise ByteStore.WritesApart := by
  have clear : places.Pairwise (KeepsClear reloc.sourceType base) := by
    unfold ChainPlaces at chain
    split at chain
    · subst chain
      exact List.pairwise_singleton ..
    · exact chain.2.2
  apply List.pairwise_map.mpr
  refine clear.imp ?_
  intro first second apart
  unfold ByteStore.WritesApart
  rw [leBytes_length]
  exact (apart.symm.shrink (Nat.le_refl _) (by omega)).symm

/-- The loop patches the places of the chain, one after the other. -/
theorem ChainPlaces.chain (chain : ChainPlaces mem base reloc places)
    (room : base + 0x10003 ≤ guestMemSize) (size : mem.size = guestMemSize)
    (small : reloc.sourceOffset < 2 ^ 16) : Chain reloc target base reloc.sourceOffset mem
      (mem.putAll (fieldWrites reloc.sourceType target base places)) := by
  unfold ChainPlaces at chain
  split at chain
  · rename_i additive
    subst chain
    have single : mem.putAll (fieldWrites reloc.sourceType target base [reloc.sourceOffset]) =
        patched reloc.sourceType target mem (base + reloc.sourceOffset) :=
      (patched_eq_put room size small).symm
    rw [single]
    exact .last (if_pos additive)
  · rename_i single
    obtain ⟨head, links, clear⟩ := chain
    obtain ⟨rest, rfl⟩ := List.head?_eq_some_iff.mp head
    exact chain_of_links (Bool.not_eq_true _ ▸ single) room size small links clear

theorem ChainPlaces.written (chain : ChainPlaces mem base reloc places)
    (room : base + 0x10003 ≤ guestMemSize) (size : mem.size = guestMemSize)
    (small : reloc.sourceOffset < 2 ^ 16) :
    mem.writeAll (fieldWrites reloc.sourceType target base places) =
      some (mem.putAll (fieldWrites reloc.sourceType target base places)) := by
  apply writeAll_putAll
  intro write member
  obtain ⟨place, inside, rfl⟩ := List.mem_map.mp member
  rw [leBytes_length]
  exact inBounds_place room size (chain.lt small place inside) (fieldWidth_le reloc.sourceType)

end Places

section Meaning

/-- The target of a reference to segment 0xFF: the entry point with that ordinal. -/
def entryTarget (file : NeFile) (ordinal : Nat) : Option (Nat × Nat) := do
  let (segmentNum, offset) ← file.resolveEntry ordinal
  let selector ← segSelector segmentNum
  return (offset, selector)

/-- What a target stands for. -/
def meantTarget (file : NeFile) : NeRelocationTarget → Option (Nat × Nat)
  | .internalRef segmentNum offset =>
      if segmentNum = 0xFF then entryTarget file offset
      else placedTarget file (.internalRef segmentNum offset)
  | target => placedTarget file target

/-- The value that an additive relocation finds at its place. -/
def operand (mem : GuestMemory) (base : Nat) (reloc : NeRelocationEntry) : Nat :=
  if reloc.isAdditive then
    (mem.read (fieldWidth reloc.sourceType) (base + reloc.sourceOffset)).getD 0
  else 0

/-- The places hold what is meant, and everything else is as before. -/
structure Relocated (file : NeFile) (base : Nat) (reloc : NeRelocationEntry) (places : List Nat)
    (mem after : GuestMemory) : Prop where
  size : after.size = mem.size
  fields : ∀ target, meantTarget file reloc.target = some target → ∀ place ∈ places,
    after.slice (base + place) (fieldWidth reloc.sourceType) =
      some (leBytes (fieldWidth reloc.sourceType)
        (operand mem base reloc + fieldValue reloc.sourceType target))
  rest : ∀ addr, (∀ place ∈ places,
    addr < base + place ∨ base + place + fieldWidth reloc.sourceType ≤ addr) →
      after.bytes addr = mem.bytes addr

/-- The relocation comes to an end and has the effect that is meant. -/
def RelocatesAsMeant (file : NeFile) (base : Nat) (reloc : NeRelocationEntry) (places : List Nat)
    (mem : GuestMemory) : Prop :=
  ∃ fuel after, applyRelocation fuel file base mem reloc = some after ∧
    Relocated file base reloc places mem after

/-- The targets agree in the field, with what was there before added to the one that is meant. -/
def FieldAgrees (mem : GuestMemory) (base : Nat) (reloc : NeRelocationEntry)
    (meant placed : Nat × Nat) : Prop :=
  operand mem base reloc + fieldValue reloc.sourceType meant ≡
    fieldValue reloc.sourceType placed [MOD 256 ^ fieldWidth reloc.sourceType]

/-- An additive relocation has found 0, and a reference to segment 0xFF has an entry point
that is the same in the field as the ordinal itself in a segment of that number. -/
def MeaningKept (file : NeFile) (base : Nat) (reloc : NeRelocationEntry) (mem : GuestMemory) :
    Prop :=
  match reloc.target with
  | .internalRef segmentNum offset =>
      if segmentNum = 0xFF then ∀ meant, entryTarget file offset = some meant →
        FieldAgrees mem base reloc meant (offset, selectorOf 254)
      else segmentNum ≠ 0 ∧ operand mem base reloc = 0
  | .importOrdinal moduleIndex ordinal =>
      thunkBase (importedModule file moduleIndex) + ordinal < 2 ^ 16 ∧ operand mem base reloc = 0
  | .importName _ _ => operand mem base reloc = 0
  | .osFixup _ => True

variable {file : NeFile} {reloc : NeRelocationEntry} {base : Nat} {mem after : GuestMemory}
  {places : List Nat} {target meant : Nat × Nat}

theorem operand_lt : operand mem base reloc < 256 ^ fieldWidth reloc.sourceType := by
  unfold operand
  split
  · cases found : mem.read (fieldWidth reloc.sourceType) (base + reloc.sourceOffset) with
    | none => exact Nat.pow_pos (by decide)
    | some value => exact GuestMemory.read_lt found
  · exact Nat.pow_pos (by decide)

/-- Nothing else can be added without a trace. -/
theorem fieldAgrees_self : FieldAgrees mem base reloc target target ↔ operand mem base reloc = 0 := by
  unfold FieldAgrees
  constructor
  · intro same
    have zero : operand mem base reloc ≡ 0 [MOD 256 ^ fieldWidth reloc.sourceType] := by
      apply Nat.ModEq.add_right_cancel' (fieldValue reloc.sourceType target)
      rwa [Nat.zero_add]
    exact Nat.eq_zero_of_dvd_of_lt (Nat.modEq_zero_iff_dvd.mp zero) operand_lt
  · intro zero
    rw [zero, Nat.zero_add]

/-- What the loop over the relocations does at one that has a target. -/
theorem applyRelocation_iff (sized : reloc.Sized) (safe : TargetSafe file reloc.target)
    (placed : placedTarget file reloc.target = some target) (room : base + 0x10003 ≤ guestMemSize)
    (size : mem.size = guestMemSize) (chain : ChainPlaces mem base reloc places) :
    (∃ fuel, applyRelocation fuel file base mem reloc = some after) ↔
      after = mem.putAll (fieldWrites reloc.sourceType target base places) := by
  have low := low_of_room room
  have found := relocTarget_safe sized.target safe
  have turn : ∀ fuel, applyRelocation fuel file base mem reloc =
      followChain reloc target base fuel reloc.sourceOffset mem := by
    intro fuel
    rw [applyRelocation, found, placed]
    rfl
  simp only [turn, followChain_iff low sized.sourceOffset]
  have patches := @ChainPlaces.chain _ target _ _ _ chain room size sized.sourceOffset
  constructor
  · intro other
    exact other.unique patches
  · rintro rfl
    exact patches

theorem Relocated.of_putAll (sized : reloc.Sized) (room : base + 0x10003 ≤ guestMemSize)
    (size : mem.size = guestMemSize) (chain : ChainPlaces mem base reloc places)
    (same : ∀ meant, meantTarget file reloc.target = some meant →
      FieldAgrees mem base reloc meant target) :
    Relocated file base reloc places mem
      (mem.putAll (fieldWrites reloc.sourceType target base places)) := by
  have written := @ChainPlaces.written _ target _ _ _ chain room size sized.sourceOffset
  refine ⟨?_, ?_, ?_⟩
  · obtain ⟨_, stored⟩ := (mem.writeAll_eq_some).mp written
    rw [stored]
  · intro meant known place member
    have field := GuestMemory.slice_writeAll mem written chain.apart
      (List.mem_map_of_mem (f := fun place => (base + place,
        leBytes (fieldWidth reloc.sourceType) (fieldValue reloc.sourceType target))) member)
    rw [leBytes_length] at field
    rw [field, leBytes_inj_mod.mpr (same meant known)]
  · intro addr away
    obtain ⟨_, stored⟩ := (mem.writeAll_eq_some).mp written
    rw [stored]
    apply ByteStore.storeAll_outside
    intro write member covers
    obtain ⟨place, inside, rfl⟩ := List.mem_map.mp member
    have outside := away place inside
    unfold ByteStore.Covers at covers
    rw [leBytes_length] at covers
    dsimp only at covers
    omega

/-- What has to agree is read off the place of the relocation itself. -/
theorem FieldAgrees.of_relocated (sized : reloc.Sized) (room : base + 0x10003 ≤ guestMemSize)
    (size : mem.size = guestMemSize) (chain : ChainPlaces mem base reloc places)
    (known : meantTarget file reloc.target = some meant)
    (relocated : Relocated file base reloc places mem
      (mem.putAll (fieldWrites reloc.sourceType target base places))) :
    FieldAgrees mem base reloc meant target := by
  have written := @ChainPlaces.written _ target _ _ _ chain room size sized.sourceOffset
  have field := GuestMemory.slice_writeAll mem written chain.apart
    (List.mem_map_of_mem (f := fun place => (base + place,
      leBytes (fieldWidth reloc.sourceType) (fieldValue reloc.sourceType target))) chain.source)
  rw [leBytes_length] at field
  have wanted := relocated.fields meant known reloc.sourceOffset chain.source
  exact leBytes_inj_mod.mp (Option.some.inj (wanted.symm.trans field))

theorem relocatesAsMeant_iff_agrees (sized : reloc.Sized) (room : base + 0x10003 ≤ guestMemSize)
    (size : mem.size = guestMemSize) (chain : ChainPlaces mem base reloc places) :
    RelocatesAsMeant file base reloc places mem ↔ TargetSafe file reloc.target ∧
      ∀ target, placedTarget file reloc.target = some target →
        ∀ meant, meantTarget file reloc.target = some meant →
          FieldAgrees mem base reloc meant target := by
  constructor
  · rintro ⟨fuel, after, applied, relocated⟩
    have safe : TargetSafe file reloc.target := by
      by_contra bad
      rw [applyRelocation, relocTarget_unsafe bad] at applied
      contradiction
    refine ⟨safe, ?_⟩
    intro target placed meant known
    obtain rfl := (applyRelocation_iff sized safe placed room size chain).mp ⟨fuel, applied⟩
    exact FieldAgrees.of_relocated sized room size chain known relocated
  · rintro ⟨safe, same⟩
    cases placed : placedTarget file reloc.target with
    | some target =>
      obtain ⟨fuel, applied⟩ := (applyRelocation_iff sized safe placed room size chain).mpr rfl
      exact ⟨fuel, _, applied, .of_putAll sized room size chain (same target placed)⟩
    | none =>
      have nothing : meantTarget file reloc.target = none := by
        cases reloc with
        | mk _ _ _ target => cases target <;> first | contradiction | rfl
      refine ⟨0, mem, ?_, rfl, ?_, fun _ _ => rfl⟩
      · rw [applyRelocation, relocTarget_safe sized.target safe, placed]
        rfl
      · intro meant known
        cases known.symm.trans nothing

/-- Relocations of parsed files have the effect that is meant exactly where the meaning is kept. -/
theorem relocatesAsMeant_iff {data : List UInt8} (parsed : NeFile.parse data = some (.ok file))
    (member : (base, reloc) ∈ sites file) (size : mem.size = guestMemSize)
    (chain : ChainPlaces mem base reloc places) :
    RelocatesAsMeant file base reloc places mem ↔ MeaningKept file base reloc mem := by
  obtain ⟨room, sized⟩ := sites_placed (NeFile.parse_sized parsed) _ member
  rw [relocatesAsMeant_iff_agrees sized room size chain]
  unfold MeaningKept
  cases kind : reloc.target with
  | internalRef segmentNum offset =>
    by_cases entry : segmentNum = 0xFF
    · subst entry
      simp [TargetSafe, placedTarget, meantTarget]
    · simp [TargetSafe, placedTarget, meantTarget, entry, fieldAgrees_self]
  | importOrdinal moduleIndex ordinal =>
    simp [TargetSafe, placedTarget, meantTarget, fieldAgrees_self]
  | importName moduleIndex nameOffset =>
    simp [TargetSafe, placedTarget, meantTarget, fieldAgrees_self]
  | osFixup fixupType => simp [TargetSafe, placedTarget]

theorem relocatesAsMeant_iff_two_places : RelocatesAsMeant sampleNeFile neSegmentBase
    ⟨relocOffset, 0, 0, .internalRef 1 0x1234⟩ [0, 4]
      (loadedMemory sampleNe sampleNeFile (newLoader 25 80).guestMem) := by
  have member : (neSegmentBase, ⟨relocOffset, 0, 0, .internalRef 1 0x1234⟩) ∈ sites sampleNeFile :=
    List.mem_singleton_self _
  have clear : [0, 4].Pairwise (KeepsClear relocOffset neSegmentBase) := by decide
  exact (relocatesAsMeant_iff sampleNe_parsed member loadedMemory_size
    ⟨rfl, sampleNe_links, clear⟩).mpr ⟨by decide, rfl⟩

/-- The same program with an additive relocation, whose place holds 4. -/
def additiveNe : List UInt8 :=
  sampleNe.take (sampleNe.length - 8) ++ [5, 4, 0, 0, 1, 0, 0x34, 0x12]

def additiveNeFile : NeFile :=
  { sampleNeFile with relocationsBySegment := [[⟨5, 4, 0, .internalRef 1 0x1234⟩]] }

theorem additiveNe_parsed : NeFile.parse additiveNe = some (.ok additiveNeFile) := by
  decide +kernel

theorem operand_overwritten : ¬∀ (data : List UInt8) (file : NeFile) (base : Nat)
    (reloc : NeRelocationEntry) (places : List Nat) (mem : GuestMemory),
      NeFile.parse data = some (.ok file) → (base, reloc) ∈ sites file →
        mem.size = guestMemSize → ChainPlaces mem base reloc places →
          RelocatesAsMeant file base reloc places mem := by
  intro all
  have member : (neSegmentBase, ⟨5, 4, 0, .internalRef 1 0x1234⟩) ∈ sites additiveNeFile :=
    List.mem_singleton_self _
  have meant := all additiveNe additiveNeFile neSegmentBase ⟨5, 4, 0, .internalRef 1 0x1234⟩ [0]
    (loadedMemory additiveNe additiveNeFile (newLoader 25 80).guestMem) additiveNe_parsed member
    loadedMemory_size rfl
  obtain ⟨room, sized⟩ := sites_placed (NeFile.parse_sized additiveNe_parsed) _ member
  obtain ⟨_, agrees⟩ :=
    (relocatesAsMeant_iff_agrees sized room loadedMemory_size rfl).mp meant
  have zero := fieldAgrees_self.mp (agrees (0x1234, selectorOf 0) rfl (0x1234, selectorOf 0) rfl)
  revert zero
  decide +kernel

end Meaning

end Warpine.Vcpu
