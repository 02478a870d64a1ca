import Mathlib.Data.List.Forall2
import Warpine.Loader.MapCase

/-! What mapping a buffer to capital letters does to its characters. The tables leave a
letter whose capital they lack; the library's codepages of one byte do not. -/
namespace Warpine.Loader
open Warpine.Lib Warpine.Guest Warpine.Vfs

/-- `char::to_uppercase`, as far as a mapping in place depends on it. -/
structure UnicodeUpper (uppercase : Char → Path) : Prop where
  ascii : ∀ c, isAscii c = true → uppercase c = [c.toUpper]
  again : ∀ c up, uppercase c = [up] → uppercase up = [up]
  replacement : uppercase (Char.ofNat 0xFFFD) = [Char.ofNat 0xFFFD]

/-- The library as it is documented, for one of its codepages and the letters with a capital.
All of them extend ASCII; in those of two bytes no other single byte is a letter. -/
structure EncodingRs.CaseDocumented (rs : EncodingRs) (codes : Nat → Char → Option (List UInt8))
    (uppercase : Char → Path) (cp : Nat) : Prop where
  asciiDecode : ∀ byte, byte < 0x80 → rs.decode cp [byte] = [Char.ofNat byte.toNat]
  asciiCode : ∀ c, isAscii c = true → codes cp c = some [UInt8.ofNat c.toNat]
  single : isDbcs cp = false → ∀ byte, ∃ c, rs.decode cp [byte] = [c]
  alone : isDbcs cp = true → ∀ byte c, ¬ byte < 0x80 → rs.decode cp [byte] = [c] →
    uppercase c = [c]
  pair : ∀ lead trail c up first second, (rs.decode cp [lead, trail]).head? = some c →
    uppercase c = [up] → up ≠ c → codes cp up = some [first, second] →
      rs.decode cp [lead, trail] = [c]
  returns : ∀ c up code, uppercase c = [up] → up ≠ c → codes cp up = some code →
    rs.decode cp code = [up]
  leadByte : isDbcs cp = true → ∀ c first second, codes cp c = some [first, second] →
    isDbcsLeadByte first cp = true

/-- A codepage that the program knows, and the parts that are not its own. -/
structure CaseSetting (rs : EncodingRs) (codes : Nat → Char → Option (List UInt8))
    (uppercase : Char → Path) (cp : Nat) : Prop where
  supported : dosUpper cp ≠ none ∨ cpToEncoding cp = true
  documented : rs.Documented codes
  library : cpToEncoding cp = true → rs.CaseDocumented codes uppercase cp
  unicode : UnicodeUpper uppercase

section Spec

variable (rs : EncodingRs) (codes : Nat → Char → Option (List UInt8)) (uppercase : Char → Path)
  (cp : Nat)

/-- The capital that a character has in its place: one character, of as many bytes. -/
def capital (unit : List UInt8) : Option Char :=
  match cpDecode rs unit cp with
  | [c] =>
      match uppercase c with
      | [up] =>
          match codepageCode codes cp up with
          | some code => if code.length = unit.length then some up else none
          | none => none
      | _ => none
  | _ => none

/-- A character becomes its capital, or stays. -/
def MapsUnit (unit unit' : List UInt8) : Prop :=
  unit'.length = unit.length ∧
    match capital rs codes uppercase cp unit with
    | some up => cpDecode rs unit' cp = [up]
    | none => unit' = unit

/-- The characters of the buffer are mapped one by one, nothing else changes, and the call
made again changes nothing. -/
structure MapsCase (cb pStr : UInt32) (mem after : GuestMemory) : Prop where
  size : after.size = mem.size
  outside : ∀ addr, addr < pStr.toNat ∨ pStr.toNat + cb.toNat ≤ addr →
    after.bytes addr = mem.bytes addr
  characters : List.Forall₂ (MapsUnit rs codes uppercase cp)
    (units (isDbcsLeadByte · cp) (caseBuffer pStr cb mem))
    (units (isDbcsLeadByte · cp) (caseBuffer pStr cb after))
  twice : (dosMapCase rs uppercase cp cb pStr after).2 = after

/-- No byte is a letter with another letter as its capital that its codepage of the library
lacks. -/
def CapitalsFit (data : List UInt8) : Prop :=
  cpToEncoding cp = false ∨ isDbcs cp = true ∨ ∀ byte ∈ data, ∀ c up,
    rs.decode cp [byte] = [c] → uppercase c = [up] → up ≠ c → codes cp up ≠ none

end Spec

section Bytes

variable {rs : EncodingRs} {codes : Nat → Char → Option (List UInt8)} {uppercase : Char → Path}
  {cp : Nat} {byte : UInt8} {c up : Char}

theorem toAsciiUpper_spec (low : byte < 0x80) : toAsciiUpper byte < 0x80 ∧
    toAsciiUpper (toAsciiUpper byte) = toAsciiUpper byte ∧
      Char.ofNat (toAsciiUpper byte).toNat = (Char.ofNat byte.toNat).toUpper ∧
        isAscii (Char.ofNat byte.toNat) = true ∧
          UInt8.ofNat (Char.ofNat byte.toNat).toNat = byte := by
  have h := @forall_byte (fun byte => decide (byte < 0x80 → toAsciiUpper byte < 0x80 ∧
    toAsciiUpper (toAsciiUpper byte) = toAsciiUpper byte ∧
      Char.ofNat (toAsciiUpper byte).toNat = (Char.ofNat byte.toNat).toUpper ∧
        isAscii (Char.ofNat byte.toNat) = true ∧
          UInt8.ofNat (Char.ofNat byte.toNat).toNat = byte)) (by decide +kernel) byte
  exact of_decide_eq_true h low

theorem isDbcsLeadByte_single (single : isDbcs cp = false) (byte : UInt8) :
    isDbcsLeadByte byte cp = false := by
  unfold isDbcs at single
  have none_ : dbcsLeadRanges cp = [] := by
    rw [Bool.not_eq_false'] at single
    exact List.isEmpty_iff.mp single
  rw [isDbcsLeadByte, none_]
  rfl

theorem isDbcs_iff : isDbcs cp = true ↔ cp = 932 ∨ cp = 936 ∨ cp = 949 ∨ cp = 950 := by
  unfold isDbcs dbcsLeadRanges
  by_cases sjis : cp = 932
  · simp [sjis]
  · by_cases others : cp = 936 ∨ cp = 949 ∨ cp = 950
    · simp [sjis, others]
    · simp [sjis, others]

theorem isDbcs_library (dbcs : isDbcs cp = true) : dosUpper cp = none ∧ cpToEncoding cp = true := by
  rcases isDbcs_iff.mp dbcs with rfl | rfl | rfl | rfl <;> exact ⟨rfl, rfl⟩

/-- No lead byte is in ASCII. -/
theorem isDbcsLeadByte_high (lead : isDbcsLeadByte byte cp = true) : ¬ byte < 0x80 := by
  have h := @forall_byte (fun byte => [932, 936, 949, 950].all fun cp =>
    !isDbcsLeadByte byte cp || !decide (byte < 0x80)) (by decide +kernel) byte
  rw [List.all_eq_true] at h
  by_cases dbcs : isDbcs cp = true
  · have member : cp ∈ [932, 936, 949, 950] := by simpa using isDbcs_iff.mp dbcs
    have high := h cp member
    rw [lead] at high
    simpa using high
  · rw [isDbcsLeadByte_single (Bool.eq_false_iff.mpr dbcs)] at lead
    cases lead

theorem decode_ascii (setting : CaseSetting rs codes uppercase cp) (low : byte < 0x80) :
    cpDecode rs [byte] cp = [Char.ofNat byte.toNat] := by
  cases dos : dosUpper cp with
  | some upper =>
    rw [cpDecode, dos]
    change [if byte < 0x80 then Char.ofNat byte.toNat else _] = _
    rw [if_pos low]
  | none =>
    have library := setting.supported.resolve_left (not_not_intro dos)
    rw [cpDecode_library library]
    exact (setting.library library).asciiDecode byte low

theorem code_ascii (setting : CaseSetting rs codes uppercase cp) (ascii : isAscii c = true) :
    codepageCode codes cp c = some [UInt8.ofNat c.toNat] := by
  cases dos : dosUpper cp with
  | some upper =>
    rw [codepageCode, dos]
    exact if_pos ascii
  | none =>
    have library := setting.supported.resolve_left (not_not_intro dos)
    rw [codepageCode_library library]
    exact (setting.library library).asciiCode c ascii

/-- A byte of a single-byte codepage is one character. -/
theorem decode_single (setting : CaseSetting rs codes uppercase cp) (single : isDbcs cp = false)
    (byte : UInt8) : ∃ c, cpDecode rs [byte] cp = [c] := by
  cases dos : dosUpper cp with
  | some upper =>
    rw [cpDecode, dos]
    exact ⟨decodeByte upper byte, rfl⟩
  | none =>
    have library := setting.supported.resolve_left (not_not_intro dos)
    rw [cpDecode_library library]
    exact (setting.library library).single single byte

/-- What a table has for a character is read as the character. -/
theorem table_returns {upper : List Nat} {code : List UInt8} (length : upper.length = 128)
    (h : tableCode upper c = some code) : decodeSingleByte code upper = [c] := by
  unfold tableCode at h
  split at h
  · rename_i ascii
    cases h
    have small : c.toNat < 128 := of_decide_eq_true ascii
    have value : (UInt8.ofNat c.toNat).toNat = c.toNat := by
      rw [UInt8.toNat_ofNat']
      exact Nat.mod_eq_of_lt (by omega)
    have low : UInt8.ofNat c.toNat < 0x80 := by
      rw [UInt8.lt_iff_toNat_lt, value]
      exact small
    change [if UInt8.ofNat c.toNat < 0x80 then _ else _] = _
    rw [if_pos low, value, Char.ofNat_toNat]
  · obtain ⟨idx, found, rfl⟩ := Option.map_eq_some_iff.mp h
    obtain ⟨inside, here, _⟩ := List.idxOf?_eq_some_iff.mp found
    have value : (UInt8.ofNat idx + 0x80).toNat = idx + 128 := by
      rw [UInt8.toNat_add, UInt8.toNat_ofNat', Nat.mod_eq_of_lt (show idx < 2 ^ 8 by omega)]
      exact Nat.mod_eq_of_lt (by change idx + 128 < 2 ^ 8; omega)
    have high : ¬ UInt8.ofNat idx + 0x80 < 0x80 := by
      rw [UInt8.lt_iff_toNat_lt, value]
      exact Nat.not_lt.mpr (Nat.le_add_left _ _)
    change [if UInt8.ofNat idx + 0x80 < 0x80 then _ else
      Char.ofNat ((upper[(UInt8.ofNat idx + 0x80).toNat - 0x80]?).getD 0)] = _
    rw [if_neg high, value]
    simp [here, inside]

theorem code_returns (setting : CaseSetting rs codes uppercase cp) {code : List UInt8}
    (upper : uppercase c = [up]) (other : up ≠ c) (h : codepageCode codes cp up = some code) :
    cpDecode rs code cp = [up] := by
  cases dos : dosUpper cp with
  | some table =>
    rw [codepageCode, dos] at h
    rw [cpDecode, dos]
    exact table_returns (upperHalf_of_dos dos).length h
  | none =>
    have library := setting.supported.resolve_left (not_not_intro dos)
    rw [codepageCode_library library] at h
    rw [cpDecode_library library]
    exact (setting.library library).returns c up code upper other h

/-- A byte of a single-byte codepage, outside ASCII. Of what the library writes for a character
that it lacks, the first byte is taken. -/
theorem cpMapCaseUpper_high (setting : CaseSetting rs codes uppercase cp)
    (single : isDbcs cp = false) (high : ¬ byte < 0x80) (decoded : cpDecode rs [byte] cp = [c]) :
    cpMapCaseUpper rs uppercase byte cp =
      match uppercase c with
      | [up] =>
          if up = c then byte
          else match codepageCode codes cp up with
            | some code => (code.head?).getD byte
            | none => if cpToEncoding cp then 0x26 else byte
      | _ => byte := by
  unfold cpMapCaseUpper
  rw [if_neg high]
  cases dos : dosUpper cp with
  | some table =>
    rw [cpDecode, dos] at decoded
    have char : Char.ofNat ((table[byte.toNat - 0x80]?).getD 0) = c := by
      change [if byte < 0x80 then _ else Char.ofNat ((table[byte.toNat - 0x80]?).getD 0)] = _
        at decoded
      rw [if_neg high] at decoded
      exact (List.cons.inj decoded).1
    dsimp only
    unfold mapCaseSbcs codepageCode tableCode
    rw [char, dos, cpToEncoding_tables dos]
    dsimp only
    rcases uppercase c with _ | ⟨up, _ | _⟩
    · rfl
    · dsimp only
      by_cases same : up = c
      · rw [if_pos same, if_pos same]
      · rw [if_neg same, if_neg same]
        by_cases ascii : isAscii up = true
        · rw [if_pos ascii, if_pos ascii]
          rfl
        · rw [if_neg ascii, if_neg ascii]
          cases table.idxOf? up.toNat <;> rfl
    · rfl
  | none =>
    have library := setting.supported.resolve_left (not_not_intro dos)
    have notDbcs : ¬ (cp = 932 ∨ cp = 936 ∨ cp = 949 ∨ cp = 950) := by
      rw [← isDbcs_iff, single]
      exact Bool.false_ne_true
    rw [cpDecode_library library] at decoded
    simp only [codepageCode_library library]
    rw [if_neg notDbcs, if_pos library, decoded]
    dsimp only [List.head?_cons]
    rcases uppercase c with _ | ⟨up, _ | _⟩
    · rfl
    · dsimp only
      by_cases same : up = c
      · rw [if_pos same, if_neg (not_not_intro same)]
      · have written := setting.documented.encode cp [up] library
        rw [List.flatMap_singleton] at written
        rw [if_neg same, if_pos same, written, if_pos library]
        cases codes cp up <;> rfl
    · rfl

/-- A byte of a double-byte codepage has no capital by itself. -/
theorem cpMapCaseUpper_dbcs (dbcs : isDbcs cp = true) (high : ¬ byte < 0x80) :
    cpMapCaseUpper rs uppercase byte cp = byte := by
  unfold cpMapCaseUpper
  rw [if_neg high, (isDbcs_library dbcs).1]
  exact if_pos (isDbcs_iff.mp dbcs)

/-- A letter that is its own capital stays. -/
theorem cpMapCaseUpper_stays (setting : CaseSetting rs codes uppercase cp)
    (decoded : cpDecode rs [byte] cp = [c]) (own : uppercase c = [c]) :
    cpMapCaseUpper rs uppercase byte cp = byte := by
  by_cases low : byte < 0x80
  · rw [decode_ascii setting low] at decoded
    obtain ⟨_, _, upper, ascii, value⟩ := toAsciiUpper_spec low
    obtain ⟨lowUpper, _⟩ := toAsciiUpper_spec low
    have same : Char.ofNat (toAsciiUpper byte).toNat = Char.ofNat byte.toNat := by
      rw [upper]
      rw [← (List.cons.inj decoded).1, setting.unicode.ascii _ ascii] at own
      exact (List.cons.inj own).1
    obtain ⟨_, _, _, _, value'⟩ := toAsciiUpper_spec lowUpper
    rw [cpMapCaseUpper, if_pos low, ← value', same, value]
  · cases single : isDbcs cp with
    | false =>
      rw [cpMapCaseUpper_high setting single low decoded, own]
      exact if_pos rfl
    | true => exact cpMapCaseUpper_dbcs single low

end Bytes

section Characters

variable {rs : EncodingRs} {codes : Nat → Char → Option (List UInt8)} {uppercase : Char → Path}
  {cp : Nat} {unit code : List UInt8} {c up : Char}

theorem capital_eq_some : capital rs codes uppercase cp unit = some up ↔
    ∃ c code, cpDecode rs unit cp = [c] ∧ uppercase c = [up] ∧
      codepageCode codes cp up = some code ∧ code.length = unit.length := by
  unfold capital
  constructor
  · intro h
    split at h
    · rename_i c decoded
      split at h
      · rename_i letter upper
        split at h
        · rename_i code found
          split at h
          · rename_i width
            cases h
            exact ⟨c, code, decoded, upper, found, width⟩
          · cases h
        · cases h
      · cases h
    · cases h
  · rintro ⟨c, code, decoded, upper, found, width⟩
    rw [decoded]
    dsimp only
    rw [upper]
    dsimp only
    rw [found]
    exact if_pos width

/-- The bytes of the capital. -/
theorem mapsUnit_capital (decoded : cpDecode rs unit cp = [c]) (upper : uppercase c = [up])
    (found : codepageCode codes cp up = some code) (width : code.length = unit.length)
    (back : cpDecode rs code cp = [up]) : MapsUnit rs codes uppercase cp unit code := by
  refine ⟨width, ?_⟩
  rw [capital_eq_some.mpr ⟨c, code, decoded, upper, found, width⟩]
  exact back

/-- What has no capital but itself. -/
theorem mapsUnit_self (own : ∀ c up code, cpDecode rs unit cp = [c] → uppercase c = [up] →
    codepageCode codes cp up = some code → code.length = unit.length → up = c) :
    MapsUnit rs codes uppercase cp unit unit := by
  refine ⟨rfl, ?_⟩
  cases found : capital rs codes uppercase cp unit with
  | none => rfl
  | some up =>
    obtain ⟨c, code, decoded, upper, coded, width⟩ := capital_eq_some.mp found
    dsimp only
    rw [own c up code decoded upper coded width, decoded]

theorem single_maps (setting : CaseSetting rs codes uppercase cp) {byte : UInt8}
    (fits : CapitalsFit rs codes uppercase cp [byte]) :
    MapsUnit rs codes uppercase cp [byte] [cpMapCaseUpper rs uppercase byte cp] ∧
      cpMapCaseUpper rs uppercase (cpMapCaseUpper rs uppercase byte cp) cp =
        cpMapCaseUpper rs uppercase byte cp := by
  by_cases low : byte < 0x80
  · obtain ⟨lowUpper, again, upper, ascii, _⟩ := toAsciiUpper_spec low
    obtain ⟨_, _, _, asciiUpper, value⟩ := toAsciiUpper_spec lowUpper
    have here : cpMapCaseUpper rs uppercase byte cp = toAsciiUpper byte := if_pos low
    have there : cpMapCaseUpper rs uppercase (toAsciiUpper byte) cp = toAsciiUpper byte := by
      rw [cpMapCaseUpper, if_pos lowUpper, again]
    rw [here, there]
    refine ⟨?_, rfl⟩
    have coded := code_ascii setting asciiUpper
    rw [value] at coded
    refine mapsUnit_capital (decode_ascii setting low) ?_ coded rfl (decode_ascii setting lowUpper)
    rw [setting.unicode.ascii _ ascii, upper]
  · cases single : isDbcs cp with
    | true =>
      have same := @cpMapCaseUpper_dbcs rs uppercase cp byte single low
      rw [same, same]
      refine ⟨mapsUnit_self ?_, rfl⟩
      intro c up _ decoded upper _ _
      have library := (isDbcs_library single).2
      rw [cpDecode_library library] at decoded
      rw [(setting.library library).alone single byte c low decoded] at upper
      exact (List.cons.inj upper).1.symm
    | false =>
      obtain ⟨c, decoded⟩ := decode_single setting single byte
      have result := cpMapCaseUpper_high setting single low decoded
      -- a byte that stays, since its character has no other capital
      have stays (same : cpMapCaseUpper rs uppercase byte cp = byte)
          (own : ∀ up code, uppercase c = [up] → codepageCode codes cp up = some code → up = c) :
          MapsUnit rs codes uppercase cp [byte] [cpMapCaseUpper rs uppercase byte cp] ∧
            cpMapCaseUpper rs uppercase (cpMapCaseUpper rs uppercase byte cp) cp =
              cpMapCaseUpper rs uppercase byte cp := by
        rw [same, same]
        refine ⟨mapsUnit_self ?_, rfl⟩
        intro c' up code decoded' upper coded _
        rw [decoded] at decoded'
        cases decoded'
        exact own up code upper coded
      cases upper : uppercase c with
      | nil =>
        rw [upper] at result
        exact stays result (fun up _ one _ => absurd (upper.symm.trans one) (by simp))
      | cons up more =>
        cases more with
        | cons second rest =>
          rw [upper] at result
          exact stays result (fun up _ one _ => absurd (upper.symm.trans one) (by simp))
        | nil =>
          rw [upper] at result
          dsimp only at result
          by_cases same : up = c
          · rw [if_pos same] at result
            refine stays result (fun up' _ one _ => ?_)
            rw [upper] at one
            rw [← (List.cons.inj one).1, same]
          · rw [if_neg same] at result
            cases coded : codepageCode codes cp up with
            | some code =>
              have width := codepageCode_length setting.documented single coded
              obtain ⟨byte', rfl⟩ := List.length_eq_one_iff.mp width
              rw [coded] at result
              dsimp only [List.head?_cons, Option.getD_some] at result
              have back := code_returns setting upper same coded
              rw [result]
              exact ⟨mapsUnit_capital decoded upper coded rfl back,
                cpMapCaseUpper_stays setting back (setting.unicode.again c up upper)⟩
            | none =>
              have tables : cpToEncoding cp = false := by
                rcases fits with tables | dbcs | present
                · exact tables
                · rw [single] at dbcs
                  cases dbcs
                · cases library : cpToEncoding cp with
                  | false => rfl
                  | true =>
                    rw [cpDecode_library library] at decoded
                    rw [codepageCode_library library] at coded
                    exact absurd coded
                      (present byte (List.mem_singleton_self byte) c up decoded upper same)
              rw [coded, tables] at result
              refine stays result (fun up' code one coded' => ?_)
              rw [upper] at one
              rw [← (List.cons.inj one).1, coded] at coded'
              cases coded'

theorem mapCasePair_eq_some (setting : CaseSetting rs codes uppercase cp) {lead trail : UInt8}
    {first second : UInt8} (library : cpToEncoding cp = true) :
    mapCasePair rs uppercase lead trail cp = some (first, second) ↔
      ∃ c up, (cpDecode rs [lead, trail] cp).head? = some c ∧ uppercase c = [up] ∧ up ≠ c ∧
        codepageCode codes cp up = some [first, second] := by
  have written (up : Char) : rs.encode cp [up] = [first, second] ↔
      codepageCode codes cp up = some [first, second] := by
    rw [setting.documented.encode cp [up] library, List.flatMap_singleton,
      codepageCode_library library]
    cases codes cp up with
    | some code => simp
    | none =>
      constructor
      · intro reference
        have long := numericReference_length up
        rw [Option.getD_none] at reference
        rw [reference] at long
        exact absurd long (Nat.lt_irrefl 2)
      · intro h
        cases h
  unfold mapCasePair decodeDbcs
  constructor
  · intro h
    dsimp only at h
    split at h
    · rename_i valid
      cases decoded : (cpDecode rs [lead, trail] cp).head? with
      | none =>
        rw [decoded] at valid
        exact absurd rfl valid
      | some c =>
        rw [decoded, Option.getD_some] at h
        split at h
        · rename_i up upper
          split at h
          · rename_i other
            split at h
            · rename_i code encoded
              cases h
              exact ⟨c, up, rfl, upper, other.1, (written up).mp encoded⟩
            · cases h
          · cases h
        · cases h
    · cases h
  · rintro ⟨c, up, decoded, upper, other, coded⟩
    have valid : c ≠ Char.ofNat 0xFFFD := by
      rintro rfl
      rw [setting.unicode.replacement] at upper
      exact other (List.cons.inj upper).1.symm
    rw [decoded, Option.getD_some]
    dsimp only
    rw [if_pos valid, upper]
    dsimp only
    rw [if_pos ⟨other, library⟩, (written up).mpr coded]

theorem pair_maps (setting : CaseSetting rs codes uppercase cp) {lead trail : UInt8}
    (isLead : isDbcsLeadByte lead cp = true) :
    MapsUnit rs codes uppercase cp [lead, trail] (mapUnit rs uppercase cp [lead, trail]) ∧
      mapUnit rs uppercase cp (mapUnit rs uppercase cp [lead, trail]) =
        mapUnit rs uppercase cp [lead, trail] ∧
        ∃ lead' trail', mapUnit rs uppercase cp [lead, trail] = [lead', trail'] ∧
          isDbcsLeadByte lead' cp = true := by
  have dbcs : isDbcs cp = true := by
    cases single : isDbcs cp with
    | true => rfl
    | false =>
      rw [isDbcsLeadByte_single single] at isLead
      cases isLead
  have library := (isDbcs_library dbcs).2
  have given := setting.library library
  cases mapped : mapCasePair rs uppercase lead trail cp with
  | some code =>
    obtain ⟨first, second⟩ := code
    obtain ⟨c, up, head, upper, other, coded⟩ :=
      (mapCasePair_eq_some setting library).mp mapped
    have raw := coded
    rw [codepageCode_library library] at raw
    have decoded : cpDecode rs [lead, trail] cp = [c] := by
      rw [cpDecode_library library] at head ⊢
      exact given.pair lead trail c up first second head upper other raw
    have back := code_returns setting upper other coded
    have here : mapUnit rs uppercase cp [lead, trail] = [first, second] := by
      rw [mapUnit, mapped]
    have stays : mapCasePair rs uppercase first second cp = none := by
      cases again : mapCasePair rs uppercase first second cp with
      | none => rfl
      | some code =>
        obtain ⟨c', up', head', upper', other', _⟩ :=
          (mapCasePair_eq_some setting library).mp again
        rw [back] at head'
        cases head'
        rw [setting.unicode.again c up upper] at upper'
        exact absurd (List.cons.inj upper').1.symm other'
    have there : mapUnit rs uppercase cp [first, second] = [first, second] := by
      rw [mapUnit, stays]
    rw [here, there]
    exact ⟨mapsUnit_capital decoded upper coded rfl back, rfl, first, second, rfl,
      given.leadByte dbcs up first second raw⟩
  | none =>
    have here : mapUnit rs uppercase cp [lead, trail] = [lead, trail] := by
      rw [mapUnit, mapped]
    rw [here, here]
    refine ⟨mapsUnit_self ?_, rfl, lead, trail, rfl, isLead⟩
    intro c up code decoded upper coded width
    by_contra other
    obtain ⟨first, second, rfl⟩ := List.length_eq_two.mp width
    have some_ := (mapCasePair_eq_some setting library).mpr
      ⟨c, up, by rw [decoded]; rfl, upper, other, coded⟩
    rw [mapped] at some_
    cases some_

/-- The change of one byte makes no lead byte and unmakes none. -/
theorem single_isLead (byte : UInt8) :
    isDbcsLeadByte (cpMapCaseUpper rs uppercase byte cp) cp = isDbcsLeadByte byte cp := by
  cases single : isDbcs cp with
  | false => rw [isDbcsLeadByte_single single, isDbcsLeadByte_single single]
  | true =>
    by_cases low : byte < 0x80
    · have notLead {byte : UInt8} (low : byte < 0x80) : isDbcsLeadByte byte cp = false :=
        Bool.eq_false_iff.mpr fun lead => isDbcsLeadByte_high lead low
      rw [cpMapCaseUpper, if_pos low, notLead low, notLead (toAsciiUpper_spec low).1]
    · rw [cpMapCaseUpper_dbcs single low]

theorem mapUnit_keepsForm (setting : CaseSetting rs codes uppercase cp) :
    KeepsForm (isDbcsLeadByte · cp) (mapUnit rs uppercase cp) where
  single := fun byte => ⟨cpMapCaseUpper rs uppercase byte cp, rfl, single_isLead byte⟩
  pair := fun _ _ lead => (pair_maps setting lead).2.2

end Characters

end Warpine.Loader
