import Mathlib.Data.List.Forall2
import Warpine.Loader.CapitalLetters

/-! Mapping a buffer to capital letters: which buffers come out right, and once for all. -/
namespace Warpine.Loader
open Warpine.Lib Warpine.Guest Warpine.Vfs

section Buffer

variable {rs : EncodingRs} {codes : Nat → Char → Option (List UInt8)} {uppercase : Char → Path}
  {cp : Nat} {cb pStr : UInt32} {mem : GuestMemory}

/-- Each unit of the buffer is mapped, and mapped for good, where the capitals fit. -/
theorem units_map (setting : CaseSetting rs codes uppercase cp) {data : List UInt8}
    (fits : CapitalsFit rs codes uppercase cp data) :
    ∀ unit ∈ units (isDbcsLeadByte · cp) data,
      MapsUnit rs codes uppercase cp unit (mapUnit rs uppercase cp unit) ∧
        mapUnit rs uppercase cp (mapUnit rs uppercase cp unit) = mapUnit rs uppercase cp unit := by
  intro unit member
  rcases mem_units member with ⟨byte, inside, rfl⟩ | ⟨lead, trail, isLead, rfl⟩
  · have one : CapitalsFit rs codes uppercase cp [byte] := by
      refine fits.imp id (Or.imp id fun present item here => ?_)
      rw [List.mem_singleton.mp here]
      exact present byte inside
    obtain ⟨maps, again⟩ := single_maps setting one
    exact ⟨maps, congrArg (fun byte => [byte]) again⟩
  · obtain ⟨maps, again, _⟩ := pair_maps setting isLead
    exact ⟨maps, again⟩

theorem caseBuffer_length : (caseBuffer pStr cb mem).length =
    min cb.toNat (mem.size - pStr.toNat) := ByteStore.load_length ..

/-- What the call leaves. -/
theorem dosMapCase_mem (small : mem.size < u32Size) (buffer : pStr ≠ 0) :
    (dosMapCase rs uppercase cp cb pStr mem).2 = ⟨mem.size, mem.bytes.store pStr.toNat
      (mapCaseBytes rs uppercase cp (caseBuffer pStr cb mem))⟩ := by
  unfold dosMapCase
  rw [if_pos buffer]
  exact mapCaseGuestBuf_eq small

theorem caseBuffer_dosMapCase (setting : CaseSetting rs codes uppercase cp)
    (small : mem.size < u32Size) (buffer : pStr ≠ 0) :
    caseBuffer pStr cb (dosMapCase rs uppercase cp cb pStr mem).2 =
      mapCaseBytes rs uppercase cp (caseBuffer pStr cb mem) := by
  have same : (mapCaseBytes rs uppercase cp (caseBuffer pStr cb mem)).length =
      min cb.toNat (mem.size - pStr.toNat) := by
    rw [mapCaseBytes, length_mapUnits (mapUnit_keepsForm setting), caseBuffer_length]
  rw [dosMapCase_mem small buffer]
  unfold caseBuffer
  dsimp only
  conv => lhs; arg 3; rw [← same]
  exact ByteStore.load_store _

/-- A letter that is mapped right has its capital in the codepage. -/
theorem capital_present (setting : CaseSetting rs codes uppercase cp)
    (library : cpToEncoding cp = true) (single : isDbcs cp = false) {byte : UInt8} {c up : Char}
    (maps : MapsUnit rs codes uppercase cp [byte] (mapUnit rs uppercase cp [byte]))
    (decoded : cpDecode rs [byte] cp = [c]) (upper : uppercase c = [up]) (other : up ≠ c) :
    codes cp up ≠ none := by
  intro absent
  have here := maps.2
  -- the character has no capital in the codepage, so that it has to stay
  have none_ : capital rs codes uppercase cp [byte] = none := by
    cases found : capital rs codes uppercase cp [byte] with
    | none => rfl
    | some up' =>
      obtain ⟨c', code, decoded', upper', coded, _⟩ := capital_eq_some.mp found
      rw [decoded] at decoded'
      cases decoded'
      rw [upper] at upper'
      cases upper'
      rw [codepageCode_library library, absent] at coded
      cases coded
  rw [none_] at here
  have stays : cpMapCaseUpper rs uppercase byte cp = byte := (List.cons.inj here).1
  by_cases low : byte < 0x80
  · obtain ⟨lowUpper, _, capitalUp, ascii, _⟩ := toAsciiUpper_spec low
    obtain ⟨_, _, _, asciiUpper, _⟩ := toAsciiUpper_spec lowUpper
    rw [decode_ascii setting low] at decoded
    cases decoded
    rw [setting.unicode.ascii _ ascii] at upper
    cases upper
    rw [← capitalUp, (setting.library library).asciiCode _ asciiUpper] at absent
    cases absent
  · rw [cpMapCaseUpper_high setting single low decoded, upper] at stays
    dsimp only at stays
    rw [if_neg other, codepageCode_library library, absent] at stays
    dsimp only at stays
    rw [if_pos library] at stays
    exact low (stays ▸ by decide)

/-- The call is right exactly where every capital of the buffer that is another letter has a
place in the codepage, or the codepage is not one of the library's single-byte ones. -/
theorem maps_case_iff (setting : CaseSetting rs codes uppercase cp) (cb pStr : UInt32)
    (mem : GuestMemory) (small : mem.size < u32Size) (buffer : pStr ≠ 0) :
    MapsCase rs codes uppercase cp cb pStr mem (dosMapCase rs uppercase cp cb pStr mem).2 ↔
      CapitalsFit rs codes uppercase cp (caseBuffer pStr cb mem) := by
  have after := @dosMapCase_mem rs uppercase cp cb pStr mem small buffer
  have changed := @caseBuffer_dosMapCase rs codes uppercase cp cb pStr mem setting small buffer
  have cut : units (isDbcsLeadByte · cp)
      (caseBuffer pStr cb (dosMapCase rs uppercase cp cb pStr mem).2) =
        (units (isDbcsLeadByte · cp) (caseBuffer pStr cb mem)).map (mapUnit rs uppercase cp) := by
    rw [changed]
    exact units_mapUnits (mapUnit_keepsForm setting) _
  constructor
  · intro whole
    by_contra leaks
    unfold CapitalsFit at leaks
    rw [not_or, not_or] at leaks
    obtain ⟨library, single, missing⟩ := leaks
    rw [Bool.not_eq_false] at library
    rw [Bool.not_eq_true] at single
    push Not at missing
    obtain ⟨byte, inside, c, up, decoded, upper, other, absent⟩ := missing
    have each := whole.characters
    rw [cut, List.forall₂_map_right_iff, List.forall₂_same,
      units_no_lead (isDbcsLeadByte_single single)] at each
    have maps := each [byte] (List.mem_map_of_mem inside)
    have decoded' := (@cpDecode_library rs cp library [byte]).trans decoded
    exact capital_present setting library single maps decoded' upper other absent
  · intro fits
    have each := units_map setting fits
    refine ⟨by rw [after], ?_, ?_, ?_⟩
    · intro addr apart
      rw [after]
      apply ByteStore.store_outside
      rw [mapCaseBytes, length_mapUnits (mapUnit_keepsForm setting), caseBuffer_length]
      omega
    · rw [cut, List.forall₂_map_right_iff, List.forall₂_same]
      exact fun unit member => (each unit member).1
    · have small' : (dosMapCase rs uppercase cp cb pStr mem).2.size < u32Size := by
        rw [after]
        exact small
      have twice : mapCaseBytes rs uppercase cp (mapCaseBytes rs uppercase cp
          (caseBuffer pStr cb mem)) = mapCaseBytes rs uppercase cp (caseBuffer pStr cb mem) :=
        mapUnits_twice (mapUnit_keepsForm setting) fun unit member => (each unit member).2
      have again : (dosMapCase rs uppercase cp cb pStr mem).2.bytes.store pStr.toNat
          (caseBuffer pStr cb (dosMapCase rs uppercase cp cb pStr mem).2) =
            (dosMapCase rs uppercase cp cb pStr mem).2.bytes := ByteStore.store_load ..
      rw [dosMapCase_mem small' buffer, changed, twice, ← changed, again]

end Buffer

section Samples

/-- The capitals of the letters that the sample codepages have. -/
def sampleUpper (c : Char) : Path :=
  if isAscii c then [c.toUpper]
  else if c.toNat < 0x100 then
    if c.toNat = 0xB5 then [Char.ofNat 0x39C]
    else if c.toNat = 0xDF then ['S', 'S']
    else if c.toNat = 0xFF then [Char.ofNat 0x178]
    else if 0xE0 ≤ c.toNat ∧ c.toNat ≠ 0xF7 then [Char.ofNat (c.toNat - 0x20)]
    else [c]
  else if 0xFF41 ≤ c.toNat ∧ c.toNat ≤ 0xFF5A then [Char.ofNat (c.toNat - 0x20)]
  else [c]

theorem sampleUpper_unicode : UnicodeUpper sampleUpper where
  ascii := fun _ ascii => if_pos ascii
  again := by
    intro c up upper
    have low : ∀ n < 0x100, (sampleUpper (Char.ofNat n)).length = 1 →
        (sampleUpper (Char.ofNat n)).flatMap sampleUpper = sampleUpper (Char.ofNat n) := by
      decide +kernel
    have wide : ∀ n < 26, (sampleUpper (Char.ofNat (0xFF41 + n))).flatMap sampleUpper =
        sampleUpper (Char.ofNat (0xFF41 + n)) := by
      decide
    by_cases small : c.toNat < 0x100
    · have each := low c.toNat small
      rw [Char.ofNat_toNat, upper, List.flatMap_singleton] at each
      exact each rfl
    · by_cases letter : 0xFF41 ≤ c.toNat ∧ c.toNat ≤ 0xFF5A
      · have each := wide (c.toNat - 0xFF41) (by omega)
        rw [Nat.add_sub_cancel' letter.1, Char.ofNat_toNat, upper, List.flatMap_singleton] at each
        exact each
      · have ascii : ¬ isAscii c = true := by
          unfold isAscii
          rw [decide_eq_true_iff]
          omega
        have own : sampleUpper c = [c] := by
          unfold sampleUpper
          rw [if_neg ascii, if_neg small, if_neg letter]
        rw [own] at upper
        cases upper
        exact own
  replacement := by decide

/-- What the sample codepages have is read as the character. -/
theorem sampleCode_returns {cp : Nat} {c : Char} {code : List UInt8}
    (h : sampleCode cp c = some code) : sampleLibrary.decode cp code = [c] := by
  have one : ∀ n < 0x100, n < 0x80 ∨ isDbcs cp = false →
      sampleLibrary.decode cp [UInt8.ofNat n] = [Char.ofNat n] := by
    intro n small which
    have value : (UInt8.ofNat n).toNat = n := by
      rw [UInt8.toNat_ofNat']
      exact Nat.mod_eq_of_lt small
    unfold sampleLibrary
    dsimp only
    rcases which with low | single
    · have below : UInt8.ofNat n < 0x80 := by
        rw [UInt8.lt_iff_toNat_lt, value]
        exact low
      split
      · rw [sampleDecode, if_pos below, value]
      · rw [List.map_singleton, value]
    · rw [single, if_neg Bool.false_ne_true, List.map_singleton, value]
  have capitals : ∀ n < 26, sampleDecode [0x82, UInt8.ofNat (n + 0x60)] = [Char.ofNat (0xFF21 + n)] := by
    decide
  have letters : ∀ n < 26, sampleDecode [0x82, UInt8.ofNat (n + 0x81)] = [Char.ofNat (0xFF41 + n)] := by
    decide
  unfold sampleCode at h
  split at h
  · rename_i ascii
    cases h
    have low : c.toNat < 0x80 := of_decide_eq_true ascii
    rw [one c.toNat (by omega) (Or.inl low), Char.ofNat_toNat]
  · split at h
    · rename_i dbcs
      have wide (bytes : List UInt8) : sampleLibrary.decode cp bytes = sampleDecode bytes :=
        if_pos dbcs
      split at h
      · rename_i capital
        cases h
        rw [wide, capitals _ (by omega), Nat.add_sub_cancel' capital.1, Char.ofNat_toNat]
      · split at h
        · rename_i letter
          cases h
          rw [wide, letters _ (by omega), Nat.add_sub_cancel' letter.1, Char.ofNat_toNat]
        · cases h
    · rename_i single
      split at h
      · rename_i latin
        cases h
        rw [one c.toNat latin.2 (Or.inr (Bool.eq_false_iff.mpr single)), Char.ofNat_toNat]
      · cases h

theorem sampleSetting {cp : Nat} (supported : cp = 1252 ∨ cp = 932) :
    CaseSetting sampleLibrary sampleCode sampleUpper cp where
  supported := Or.inr (by rcases supported with rfl | rfl <;> rfl)
  documented := sampleLibrary_documented
  unicode := sampleUpper_unicode
  library := fun _ =>
    { asciiDecode := by
        intro byte low
        obtain ⟨_, _, _, ascii, value⟩ := toAsciiUpper_spec low
        have back := @sampleCode_returns cp _ _ (if_pos ascii)
        rwa [value] at back
      asciiCode := fun c ascii => if_pos ascii
      single := by
        intro single byte
        refine ⟨Char.ofNat byte.toNat, ?_⟩
        unfold sampleLibrary
        dsimp only
        rw [single]
        rfl
      alone := by
        intro dbcs byte c high decoded
        have other : sampleLibrary.decode cp [byte] = [Char.ofNat 0xFFFD] := by
          unfold sampleLibrary
          dsimp only
          rw [if_pos dbcs, sampleDecode, if_neg high]
        rw [other] at decoded
        cases decoded
        decide
      pair := by
        intro lead trail c up first second head upper _ coded
        rcases supported with rfl | rfl
        · -- a codepage of single bytes has no pairs
          exact absurd (sampleLibrary_documented.oneByte 1252 up _ rfl rfl coded) (by simp)
        · by_cases low : lead < 0x80
          · -- ASCII has its capitals in one byte
            obtain ⟨lowUpper, _, capitalUp, ascii, _⟩ := toAsciiUpper_spec low
            obtain ⟨_, _, _, asciiUpper, _⟩ := toAsciiUpper_spec lowUpper
            change (sampleDecode [lead, trail]).head? = some c at head
            rw [sampleDecode, if_pos low, List.head?_cons, Option.some.injEq] at head
            rw [← head, sampleUpper, if_pos ascii, ← capitalUp] at upper
            rw [← (List.cons.inj upper).1, sampleCode, if_pos asciiUpper] at coded
            cases coded
          · have one : sampleLibrary.decode 932 [lead, trail] =
                [if lead = 0x82 then sampleWide trail else Char.ofNat 0xFFFD] := by
              change sampleDecode [lead, trail] = _
              rw [sampleDecode, if_neg low]
              rfl
            rw [one] at head ⊢
            rw [List.head?_cons, Option.some.injEq] at head
            rw [head]
      returns := fun _ _ _ _ _ coded => sampleCode_returns coded
      leadByte := by
        intro dbcs c first second coded
        rcases supported with rfl | rfl
        · exact absurd dbcs (by decide)
        · unfold sampleCode at coded
          rw [if_pos dbcs] at coded
          split at coded
          · cases coded
          · split at coded
            · rw [Option.some.injEq, List.cons.injEq] at coded
              rw [← coded.1]
              decide
            · split at coded
              · rw [Option.some.injEq, List.cons.injEq] at coded
                rw [← coded.1]
                decide
              · cases coded }

def caseMemory (bytes : List UInt8) : GuestMemory := ⟨64, fun addr => (bytes[addr - 16]?).getD 0⟩

/-- An accented letter in a codepage of one byte, and a letter of full width. -/
theorem maps_case_iff_letters :
    MapsCase sampleLibrary sampleCode sampleUpper 1252 2 16 (caseMemory [0xE9, 0x62])
        (dosMapCase sampleLibrary sampleUpper 1252 2 16 (caseMemory [0xE9, 0x62])).2 ∧
      MapsCase sampleLibrary sampleCode sampleUpper 932 3 16 (caseMemory [0x61, 0x82, 0x81])
        (dosMapCase sampleLibrary sampleUpper 932 3 16 (caseMemory [0x61, 0x82, 0x81])).2 := by
  constructor
  · refine (maps_case_iff (sampleSetting (Or.inl rfl)) 2 16 (caseMemory [0xE9, 0x62]) (by decide)
      (by decide)).mpr (Or.inr (Or.inr ?_))
    intro byte inside c up decoded upper _
    have present : ((caseBuffer 16 2 (caseMemory [0xE9, 0x62])).all fun byte =>
        (sampleUpper (Char.ofNat byte.toNat)).all fun up => (sampleCode 1252 up).isSome) = true := by
      decide
    have each := List.all_eq_true.mp present byte inside
    have char : Char.ofNat byte.toNat = c := (List.cons.inj decoded).1
    rw [char, upper] at each
    exact Option.isSome_iff_ne_none.mp (List.all_eq_true.mp each up (List.mem_singleton_self up))
  · exact (maps_case_iff (sampleSetting (Or.inr rfl)) 3 16 (caseMemory [0x61, 0x82, 0x81])
      (by decide) (by decide)).mpr (Or.inr (Or.inl rfl))

/-- The capital of the micro sign is a Greek letter, and becomes an ampersand. -/
theorem micro_sign_becomes_ampersand :
    CaseSetting sampleLibrary sampleCode sampleUpper 1252 ∧
      ¬ MapsCase sampleLibrary sampleCode sampleUpper 1252 1 16 (caseMemory [0xB5])
        (dosMapCase sampleLibrary sampleUpper 1252 1 16 (caseMemory [0xB5])).2 := by
  refine ⟨sampleSetting (Or.inl rfl), ?_⟩
  intro whole
  have before : units (isDbcsLeadByte · 1252) (caseBuffer 16 1 (caseMemory [0xB5])) = [[0xB5]] := by
    decide
  have after : units (isDbcsLeadByte · 1252) (mapCaseBytes sampleLibrary sampleUpper 1252
      (caseBuffer 16 1 (caseMemory [0xB5]))) = [[0x26]] := by
    decide
  have none_ : capital sampleLibrary sampleCode sampleUpper 1252 [0xB5] = none := by
    decide
  have each := whole.characters
  rw [@caseBuffer_dosMapCase _ _ _ _ 1 16 (caseMemory [0xB5]) (sampleSetting (Or.inl rfl))
    (by decide) (by decide), before, after] at each
  have here := (List.forall₂_cons.mp each).1.2
  rw [none_] at here
  exact absurd here (by decide)

end Samples

end Warpine.Loader
