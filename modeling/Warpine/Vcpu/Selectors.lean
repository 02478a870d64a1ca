import Warpine.Vcpu.StartUp

/-! Selectors of tiles. The table of descriptors, the fixups and the calls that convert
addresses each work out the tile of an address for themselves. -/
namespace Warpine.Vcpu
open Warpine.Lib Warpine.Guest Warpine.Lx Warpine.Loader Fixups

def gdtEntry (mem : GuestMemory) (selector : Nat) : Nat :=
  (mem.read 8 (gdtBase + selector / 8 * 8)).getD 0

def gdtEntryBase (mem : GuestMemory) (selector : Nat) : Nat :=
  let entry := gdtEntry mem selector
  let baseLo := entry >>> 16 &&& 0xFFFF
  let baseMid := entry >>> 32 &&& 0xFF
  let baseHi := entry >>> 56 &&& 0xFF
  baseLo ||| baseMid <<< 16 ||| baseHi <<< 24

def gdtEntryLimit (mem : GuestMemory) (selector : Nat) : Nat :=
  let entry := gdtEntry mem selector
  let limitLo := entry &&& 0xFFFF
  let limitHi := entry >>> 48 &&& 0x0F
  limitLo ||| limitHi <<< 16

def dosFlatToSel (flatAddr : Nat) : Nat :=
  let tileIndex := flatAddr >>> 16
  let offset := flatAddr &&& 0xFFFF
  let selector := (tiledSelStartIndex + tileIndex) * 8
  selector <<< 16 % u32Size ||| offset

def dosSelToFlat (selOff : Nat) : Nat :=
  let selector := selOff >>> 16 % u16Size
  let offset := selOff &&& 0xFFFF
  let gdtIndex := selector / 8
  if tiledCodeStartIndex ≤ gdtIndex then (gdtIndex - tiledCodeStartIndex) * tileSize + offset
  else if tiledSelStartIndex ≤ gdtIndex then (gdtIndex - tiledSelStartIndex) * tileSize + offset
  else offset

/-- The two halves of a packed pointer. -/
def selectorPart (selOff : Nat) : Nat := selOff >>> 16
def offsetPart (selOff : Nat) : Nat := selOff &&& 0xFFFF

/-- What a fixup writes for a packed pointer. -/
def farPointer (sourcePhys selOff : Nat) : List (Nat × List UInt8) :=
  let source := sourcePhys % u32Size
  [(source, leBytes 2 (offsetPart selOff)), (wrapAdd source 2, leBytes 2 (selectorPart selOff))]

/-- All the ways to an address through its tile agree. A fixup that resolves to address 0
is left out. -/
structure TileAgrees (tables : GuestMemory) (flat : Nat) : Prop where
  back : dosSelToFlat (dosFlatToSel flat) = flat
  base : gdtEntryBase tables (selectorPart (dosFlatToSel flat)) +
    offsetPart (dosFlatToSel flat) = flat
  limit : offsetPart (dosFlatToSel flat) ≤ gdtEntryLimit tables (selectorPart (dosFlatToSel flat))
  fixup : ∀ dllMgr file objectBases pageBase (record : LxFixupRecord),
    record.sourceType &&& 0x0F = 0x03 →
    targetAddr dllMgr file objectBases record.target = flat →
      recordWrites dllMgr file objectBases (pageBase, record) =
        if flat = 0 then [] else record.sourceOffsets.flatMap fun off =>
          farPointer (pageBase + off) (dosFlatToSel flat)

section Bits

theorem or_shiftLeft {low n : Nat} (high : Nat) (h : low < 2 ^ n) :
    low ||| high <<< n = low + high * 2 ^ n := by
  rw [Nat.or_comm, ← Nat.shiftLeft_add_eq_or_of_lt h, Nat.shiftLeft_eq, Nat.add_comm]

theorem and_mask4 (value : Nat) : value &&& 0x0F = value % 2 ^ 4 :=
  Nat.and_two_pow_sub_one_eq_mod value 4
theorem and_mask8 (value : Nat) : value &&& 0xFF = value % 2 ^ 8 :=
  Nat.and_two_pow_sub_one_eq_mod value 8
theorem and_mask16 (value : Nat) : value &&& 0xFFFF = value % 2 ^ 16 :=
  Nat.and_two_pow_sub_one_eq_mod value 16

variable {base limit access flags : Nat}

/-- The byte of a descriptor with the high part of the limit and the flags. -/
def granularity (limit flags : Nat) : Nat := limit / 2 ^ 16 % 2 ^ 4 ||| (flags &&& 0xF0)

theorem granularity_lt (limit flags : Nat) : granularity limit flags < 2 ^ 8 := by
  apply Nat.or_lt_two_pow
  · omega
  · exact Nat.lt_of_le_of_lt Nat.and_le_right (by decide)

/-- The nibble of the limit beside the flags is not touched by them. -/
theorem granularity_low (limit flags : Nat) :
    granularity limit flags % 2 ^ 4 = limit / 2 ^ 16 % 2 ^ 4 := by
  have apart : flags &&& 0xF0 &&& 0x0F = 0 := by
    rw [Nat.and_assoc]
    exact Nat.and_zero flags
  rw [granularity, ← and_mask4, Nat.and_or_distrib_right, apart, Nat.or_zero, and_mask4]
  omega

/-- The fields of a descriptor lie side by side. -/
theorem makeGdtEntry_eq (haccess : access < 2 ^ 8) :
    makeGdtEntry base limit access flags =
      limit % 2 ^ 16 + base % 2 ^ 16 * 2 ^ 16 + base / 2 ^ 16 % 2 ^ 8 * 2 ^ 32 + access * 2 ^ 40 +
        granularity limit flags * 2 ^ 48 + base / 2 ^ 24 % 2 ^ 8 * 2 ^ 56 := by
  have small := granularity_lt limit flags
  unfold makeGdtEntry
  simp only [and_mask4, and_mask8, and_mask16, Nat.shiftRight_eq_div_pow]
  rw [← granularity, @or_shiftLeft _ 16, @or_shiftLeft _ 32, @or_shiftLeft _ 40,
    @or_shiftLeft _ 48, @or_shiftLeft _ 56]
  all_goals omega

theorem makeGdtEntry_lt (haccess : access < 2 ^ 8) :
    makeGdtEntry base limit access flags < 256 ^ 8 := by
  have small := granularity_lt limit flags
  rw [makeGdtEntry_eq haccess]
  omega

/-- What stands in each field of a word of this shape. -/
theorem fields_apart {limitLo baseLo baseMid access upper baseHi entry : Nat}
    (h : entry = limitLo + baseLo * 2 ^ 16 + baseMid * 2 ^ 32 + access * 2 ^ 40 + upper * 2 ^ 48 +
      baseHi * 2 ^ 56)
    (hlimit : limitLo < 2 ^ 16) (hlo : baseLo < 2 ^ 16) (hmid : baseMid < 2 ^ 8)
    (haccess : access < 2 ^ 8) (hupper : upper < 2 ^ 8) (hhi : baseHi < 2 ^ 8) :
    entry % 2 ^ 16 = limitLo ∧ entry / 2 ^ 16 % 2 ^ 16 = baseLo ∧ entry / 2 ^ 32 % 2 ^ 8 = baseMid ∧
      entry / 2 ^ 48 % 2 ^ 4 = upper % 2 ^ 4 ∧ entry / 2 ^ 56 % 2 ^ 8 = baseHi := by
  refine ⟨?_, ?_, ?_, ?_, ?_⟩
  all_goals omega

variable {mem : GuestMemory} {selector : Nat}

theorem gdtEntryBase_of (hbase : base < 2 ^ 32) (haccess : access < 2 ^ 8)
    (h : gdtEntry mem selector = makeGdtEntry base limit access flags) :
    gdtEntryBase mem selector = base := by
  obtain ⟨_, lo, mid, _, hi⟩ := fields_apart (h.trans (makeGdtEntry_eq haccess))
    (by omega) (by omega) (by omega) haccess (granularity_lt limit flags) (by omega)
  unfold gdtEntryBase
  simp only [and_mask8, and_mask16, Nat.shiftRight_eq_div_pow, lo, mid, hi]
  rw [@or_shiftLeft _ 16, @or_shiftLeft _ 24]
  all_goals omega

theorem gdtEntryLimit_of (hlimit : limit < 2 ^ 20) (haccess : access < 2 ^ 8)
    (h : gdtEntry mem selector = makeGdtEntry base limit access flags) :
    gdtEntryLimit mem selector = limit := by
  obtain ⟨lo, _, _, hi, _⟩ := fields_apart (h.trans (makeGdtEntry_eq haccess))
    (by omega) (by omega) (by omega) haccess (granularity_lt limit flags) (by omega)
  unfold gdtEntryLimit
  simp only [and_mask4, and_mask16, Nat.shiftRight_eq_div_pow, lo, hi]
  rw [granularity_low, @or_shiftLeft _ 16]
  all_goals omega

end Bits

section Tables

variable {mem tables : GuestMemory} {flat : Nat}

theorem tiles_apart (count startIndex access : Nat) :
    (tiles count startIndex access).Pairwise ByteStore.WritesApart := by
  unfold tiles
  rw [List.pairwise_map]
  refine List.pairwise_lt_range.imp ?_
  intro first second before
  rw [ByteStore.WritesApart, Apart, leBytes_length]
  omega

/-- The table of vectors lies behind the descriptors. -/
theorem idtVector_behind : ∀ vector < 32, ∀ write ∈ idtVector vector, idtBase ≤ write.1 := by
  decide

/-- The data tiles are still there when the whole table has been set up. -/
theorem setupIdt_tile (h : setupIdt mem = some tables) {tile : Nat} (few : tile < numTiles) :
    tables.slice (gdtBase + (tiledSelStartIndex + tile) * 8) 8 =
      some (leBytes 8 (makeGdtEntry (tile * tileSize) 0xFFFF 0xD3 0x00)) := by
  simp only [setupIdt, Option.bind_eq_bind] at h
  obtain ⟨fixed, -, h⟩ := Option.bind_eq_some_iff.mp h
  obtain ⟨data, hdata, h⟩ := Option.bind_eq_some_iff.mp h
  obtain ⟨code, hcode, hidt⟩ := Option.bind_eq_some_iff.mp h
  have stored := fixed.slice_writeAll hdata (tiles_apart numTiles tiledSelStartIndex 0xD3)
    (List.mem_map_of_mem (List.mem_range.mpr few))
  rw [leBytes_length] at stored
  rw [code.slice_writeAll_apart hidt, data.slice_writeAll_apart hcode, stored]
  · intro write member
    obtain ⟨i, -, rfl⟩ := List.mem_map.mp member
    rw [Apart, leBytes_length]
    unfold tiledCodeStartIndex
    omega
  · intro write member
    obtain ⟨vector, among, member⟩ := List.mem_flatMap.mp member
    have behind := idtVector_behind vector (List.mem_range.mp among) write member
    unfold idtBase at behind
    unfold numTiles at few
    unfold Apart gdtBase tiledSelStartIndex
    omega

theorem setupIdt_entry (h : setupIdt mem = some tables) {tile : Nat} (few : tile < numTiles) :
    gdtEntry tables ((tiledSelStartIndex + tile) * 8) =
      makeGdtEntry (tile * tileSize) 0xFFFF 0xD3 0x00 := by
  rw [gdtEntry, Nat.mul_div_cancel _ (by decide : 0 < 8), GuestMemory.read, setupIdt_tile h few,
    Option.map_some, Option.getD_some, leValue_leBytes (makeGdtEntry_lt (by decide))]

/-- The selector and offset that an address is packed into. -/
theorem dosFlatToSel_eq (below : flat < numTiles * tileSize) :
    dosFlatToSel flat = (tiledSelStartIndex + flat / tileSize) * 8 * 2 ^ 16 + flat % tileSize := by
  unfold numTiles tileSize at below
  unfold dosFlatToSel u32Size tiledSelStartIndex tileSize
  simp only [and_mask16, Nat.shiftRight_eq_div_pow, Nat.shiftLeft_eq]
  rw [Nat.mod_eq_of_lt (by omega), Nat.or_comm, ← Nat.shiftLeft_eq, or_shiftLeft _ (by omega)]
  omega

theorem selectorPart_eq (below : flat < numTiles * tileSize) :
    selectorPart (dosFlatToSel flat) = (tiledSelStartIndex + flat / tileSize) * 8 := by
  rw [selectorPart, dosFlatToSel_eq below, Nat.shiftRight_eq_div_pow]
  unfold tileSize
  omega

theorem offsetPart_eq (below : flat < numTiles * tileSize) :
    offsetPart (dosFlatToSel flat) = flat % tileSize := by
  rw [offsetPart, dosFlatToSel_eq below, and_mask16]
  unfold tileSize
  omega

theorem dosSelToFlat_dosFlatToSel (below : flat < numTiles * tileSize) :
    dosSelToFlat (dosFlatToSel flat) = flat := by
  have offset := offsetPart_eq below
  have selector := selectorPart_eq below
  unfold offsetPart at offset
  unfold selectorPart at selector
  unfold dosSelToFlat
  simp only [offset, selector]
  unfold numTiles tileSize at below
  unfold tiledCodeStartIndex tiledSelStartIndex numTiles tileSize u16Size
  rw [if_neg (by omega), if_pos (by omega)]
  omega

/-- A fixup works out the same pair. -/
theorem siteWrites_far (below : flat < numTiles * tileSize) {sourceType : Nat}
    (far : sourceType &&& 0x0F = 0x03) (sourcePhys : Nat) :
    siteWrites sourceType flat sourcePhys = farPointer sourcePhys (dosFlatToSel flat) := by
  have low : leBytes 2 flat = leBytes 2 (flat % tileSize) := (leBytes_mod 2 flat).symm
  unfold siteWrites farPointer
  rw [far, selectorPart_eq below, offsetPart_eq below]
  dsimp only
  rw [low]
  rfl

theorem tileAgrees (h : setupIdt mem = some tables) (below : flat < numTiles * tileSize) :
    TileAgrees tables flat where
  back := dosSelToFlat_dosFlatToSel below
  base := by
    have few : flat / tileSize < numTiles := Nat.div_lt_of_lt_mul (by rwa [Nat.mul_comm])
    have stands : flat / tileSize * tileSize < 2 ^ 32 := by
      unfold numTiles tileSize at below
      unfold tileSize
      omega
    rw [selectorPart_eq below, offsetPart_eq below,
      gdtEntryBase_of stands (by decide) (setupIdt_entry h few)]
    exact Nat.div_add_mod' flat tileSize
  limit := by
    have few : flat / tileSize < numTiles := Nat.div_lt_of_lt_mul (by rwa [Nat.mul_comm])
    rw [selectorPart_eq below, offsetPart_eq below,
      gdtEntryLimit_of (by decide) (by decide) (setupIdt_entry h few)]
    exact Nat.le_of_lt_succ (Nat.mod_lt flat (by decide))
  fixup := by
    intro dllMgr file objectBases pageBase record far same
    unfold recordWrites
    dsimp only
    rw [same]
    split
    · rfl
    · simp only [siteWrites_far below far]

/-- The decoder of descriptors undoes the encoder, and all ways to an address through its
tile agree. -/
theorem selectors_agree :
    (∀ (mem next : GuestMemory) (selector base limit access flags : Nat), base < 2 ^ 32 →
        limit < 2 ^ 20 → access < 2 ^ 8 → flags < 2 ^ 8 →
        mem.write 8 (gdtBase + selector / 8 * 8) (makeGdtEntry base limit access flags) = some next →
          gdtEntryBase next selector = base ∧ gdtEntryLimit next selector = limit) ∧
      ∀ (mem tables : GuestMemory) (flat : Nat), setupIdt mem = some tables →
        flat < numTiles * tileSize → TileAgrees tables flat := by
  constructor
  · intro mem next selector base limit access flags hbase hlimit haccess _ written
    have entry : gdtEntry next selector = makeGdtEntry base limit access flags := by
      rw [gdtEntry, GuestMemory.read_write written (makeGdtEntry_lt haccess), Option.getD_some]
    exact ⟨gdtEntryBase_of hbase haccess entry, gdtEntryLimit_of hlimit haccess entry⟩
  · intro mem tables flat h below
    exact tileAgrees h below

/-- In a guest that starts, at an address in its last megabyte of tiles. -/
theorem selectors_agree_high : ∃ tables, setupIdt ⟨guestMemSize, fun _ => 0⟩ = some tables ∧
    TileAgrees tables 0x0FEDCBA8 := by
  obtain ⟨tables, h, -⟩ := @setupIdt_placed ⟨guestMemSize, fun _ => 0⟩ rfl
  exact ⟨tables, h, selectors_agree.2 _ tables 0x0FEDCBA8 h (by decide)⟩

end Tables

end Warpine.Vcpu
