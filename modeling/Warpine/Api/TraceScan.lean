import Warpine.Api.TraceGen
import Warpine.Lib.Dict

/-! The generated source is read back by the check. -/
namespace Warpine.Api
open Warpine.Lib Warpine.Cmd

section Scanner

/-- `str::split_once`. -/
def splitOnce (pattern : Text) : Text → Option (Text × Text)
  | [] => none
  | c :: rest =>
      if pattern.isPrefixOf (c :: rest) then some ([], (c :: rest).drop pattern.length)
      else (splitOnce pattern rest).map fun cut => (c :: cut.1, cut.2)

def containsText (pattern text : Text) : Bool := (splitOnce pattern text).isSome

/-- `text.split(pattern).nth(1)`. -/
def secondPart (pattern text : Text) : Option Text :=
  (splitOnce pattern text).map fun cut => ((splitOnce pattern cut.2).map Prod.fst).getD cut.2

def trimMatches (stop : Char) (text : Text) : Text :=
  (text.dropWhile (· = stop)).rdropWhile (· = stop)

/-- The numbers that the scanner knows the constants by. -/
def resolveConsts : List (Text × Nat) := [
  ("0".toList, 0), ("1024".toList, 1024), ("PMWIN_BASE".toList, 2048),
  ("PMGPI_BASE".toList, 3072), ("KBDCALLS_BASE".toList, 4096), ("VIOCALLS_BASE".toList, 5120),
  ("SESMGR_BASE".toList, 6144), ("NLS_BASE".toList, 7168), ("MSG_BASE".toList, 8192),
  ("MDM_BASE".toList, 10240), ("UCONV_BASE".toList, 12288), ("SO32DLL_BASE".toList, 13312),
  ("TCP32DLL_BASE".toList, 14336), ("STUB_AREA_SIZE".toList, 16384)]

def resolveConst (name : Text) : Nat :=
  match (resolveConsts.find? fun entry => entry.1 = trim name).map Prod.snd with
  | some value => value
  | none => (parseUnsigned u32Size (trim name)).getD 0

def extractStrLiteral (text : Text) : Option Text :=
  let text := trim ((trim text).rdropWhile (· = ','))
  if text.head? = some '"' ∧ text.getLast? = some '"' ∧ 2 ≤ text.length then
    let inner := text.tail.dropLast
    if inner ≠ "?".toList then some inner else none
  else none

structure Scan where
  inFn : Bool
  subBase : Option Nat
  braceDepth : Int
  map : Dict Nat Text
  /-- The loop was left. -/
  done : Bool
deriving DecidableEq

def Scan.start : Scan := ⟨false, none, 0, [], false⟩

def braces (text : Text) : Int := text.count '{' - text.count '}'

def Scan.readArm (s : Scan) (trimmed : Text) : Option Scan :=
  match splitOnce "=>".toList trimmed with
  | some (lhs, rhs) =>
      let rhs := (trim rhs).rdropWhile (· = ',')
      match parseUnsigned u32Size (trim lhs), extractStrLiteral rhs with
      | some localOrd, some name =>
          (addWord 32 (s.subBase.getD 0) localOrd).map fun flat =>
            { s with map := s.map.insert flat name }
      | _, _ => some s
  | none => some s

/-- A sum of ordinals that leaves its word is a panic. -/
def scanLine (s : Scan) (line : Text) : Option Scan :=
  let trimmed := trim line
  if s.done then some s
  else if s.inFn then
    let s := { s with braceDepth := s.braceDepth + braces trimmed }
    if s.braceDepth ≤ 0 then some { s with done := true }
    else if containsText ".contains(&o)".toList trimmed ∧
        containsText "match o - ".toList trimmed then
      match secondPart "o - ".toList trimmed with
      | some name =>
          some { s with subBase := some (resolveConst (trim (trimMatches '{' (trim name)))) }
      | none => some s
    else if s.subBase.isSome ∧ "\x7d,".toList.isPrefixOf trimmed ∧
        ¬containsText "=>".toList trimmed then
      some { s with subBase := none }
    else s.readArm trimmed
  else if "pub fn ordinal_to_name(".toList.isPrefixOf trimmed then
    some { s with inFn := true, braceDepth := 0 }
  else some s

def extractTraceNames (content : Text) : Option (Dict Nat Text) :=
  ((lines content).foldlM scanLine Scan.start).map Scan.map

end Scanner

section Drift

def coveredModules : List Text := [
  "DOSCALLS".toList, "QUECALLS".toList, "KBDCALLS".toList, "VIOCALLS".toList, "NLS".toList,
  "MSG".toList, "MDM".toList, "UCONV".toList, "SO32DLL".toList, "TCP32DLL".toList]

/-- What the check warns of. -/
structure Drift where
  missing : List OrdEntry
  mismatch : List (OrdEntry × Text)
  orphans : List (Nat × Text)

def drift (entries : List OrdEntry) (map : Dict Nat Text) : Drift :=
  let covered := entries.filter fun e => coveredModules.contains e.module
  { missing := covered.filter fun e => (map.get e.flatOrdinal).isNone
    mismatch := covered.filterMap fun e =>
      (map.get e.flatOrdinal).bind fun name => if name ≠ e.name then some (e, name) else none
    orphans := sortBy Prod.fst
      (map.filter fun entry => !covered.any fun e => e.flatOrdinal = entry.1) }

end Drift

section Lines

variable {s : Scan} {line : Text}

/-- A scan inside the function. -/
structure Scan.Inside (s : Scan) : Prop where
  inFn : s.inFn = true
  done : s.done = false
  deep : 0 < s.braceDepth

theorem scanLine_inside (inside : s.Inside) (deep : 0 < s.braceDepth + braces (trim line))
    (noRange : containsText ".contains(&o)".toList (trim line) = false)
    (noEnd : "\x7d,".toList.isPrefixOf (trim line) = false) :
    scanLine s line =
      { s with braceDepth := s.braceDepth + braces (trim line) }.readArm (trim line) := by
  unfold scanLine
  simp only
  rw [if_neg (Bool.eq_false_iff.mp inside.done), if_pos inside.inFn, if_neg (Int.not_le.mpr deep),
    if_neg fun both => Bool.eq_false_iff.mp noRange both.1,
    if_neg fun all => Bool.eq_false_iff.mp noEnd all.2.1]

/-- A line without an arm, such as a comment. -/
structure Idle (trimmed : Text) : Prop where
  braces : braces trimmed = 0
  noRange : containsText ".contains(&o)".toList trimmed = false
  noEnd : "\x7d,".toList.isPrefixOf trimmed = false
  noArm : ∀ cut ∈ splitOnce "=>".toList trimmed, parseUnsigned u32Size (trim cut.1) = none

theorem scanLine_idle (inside : s.Inside) (idle : Idle (trim line)) : scanLine s line = some s := by
  have same : s.braceDepth + braces (trim line) = s.braceDepth := by rw [idle.braces, Int.add_zero]
  have deep : 0 < s.braceDepth + braces (trim line) := by
    rw [same]
    exact inside.deep
  rw [scanLine_inside inside deep idle.noRange idle.noEnd, same, Scan.readArm]
  cases cut : splitOnce "=>".toList (trim line) with
  | none => rfl
  | some parts =>
    obtain ⟨lhs, rhs⟩ := parts
    simp only [idle.noArm _ cut]

theorem idle_iff (trimmed : Text) : Idle trimmed ↔ braces trimmed = 0 ∧
    containsText ".contains(&o)".toList trimmed = false ∧
    "\x7d,".toList.isPrefixOf trimmed = false ∧
    ∀ cut ∈ splitOnce "=>".toList trimmed, parseUnsigned u32Size (trim cut.1) = none := by
  constructor
  · rintro ⟨balanced, noRange, noEnd, noArm⟩
    exact ⟨balanced, noRange, noEnd, noArm⟩
  · rintro ⟨balanced, noRange, noEnd, noArm⟩
    exact ⟨balanced, noRange, noEnd, noArm⟩

theorem idle_comment {entry : Text × Nat} (member : entry ∈ modules) :
    Idle (trim (commentLine entry.1)) := by
  rw [idle_iff]
  revert entry
  decide

theorem idle_unknown (indent : Nat) (few : indent < 13) :
    Idle (trim (List.replicate indent ' ' ++ "_ => \"?\",".toList)) := by
  rw [idle_iff]
  revert indent
  decide

end Lines

section Search

variable {pattern text front back : Text} {c : Char}

/-- A character of the pattern that the text lacks. -/
theorem containsText_of_not_mem (member : c ∈ pattern) (absent : c ∉ text) :
    containsText pattern text = false := by
  have cut : splitOnce pattern text = none := by
    induction text with
    | nil => rfl
    | cons d rest ih =>
      rw [List.mem_cons, not_or] at absent
      have first : ¬pattern.isPrefixOf (d :: rest) = true := by
        intro starts
        have inside := (List.isPrefixOf_iff_prefix.mp starts).subset member
        rcases List.mem_cons.mp inside with same | later
        · exact absent.1 same
        · exact absent.2 later
      rw [splitOnce, if_neg first, ih absent.2]
      rfl
  rw [containsText, cut]
  rfl

theorem isPrefixOf_of_not_mem (member : c ∈ pattern) (absent : c ∉ text) :
    pattern.isPrefixOf text = false := by
  rw [Bool.eq_false_iff]
  exact fun starts => absent ((List.isPrefixOf_iff_prefix.mp starts).subset member)

/-- The text is cut where the first character of the pattern stands for the first time. -/
theorem splitOnce_first (absent : c ∉ front) :
    splitOnce (c :: pattern) (front ++ (c :: pattern ++ back)) = some (front, back) := by
  induction front with
  | nil =>
    have starts : (c :: pattern).isPrefixOf (c :: (pattern ++ back)) = true :=
      List.isPrefixOf_iff_prefix.mpr (List.prefix_append (c :: pattern) back)
    rw [List.nil_append, List.cons_append, splitOnce, if_pos starts, List.length_cons,
      List.drop_succ_cons, List.drop_left]
  | cons d rest ih =>
    rw [List.mem_cons, not_or] at absent
    have apart : ¬(c :: pattern).isPrefixOf (d :: (rest ++ (c :: pattern ++ back))) = true := by
      intro starts
      obtain ⟨same, -⟩ := List.cons_prefix_cons.mp (List.isPrefixOf_iff_prefix.mp starts)
      exact absent.1 same
    rw [List.cons_append, splitOnce, if_neg apart, ih absent.2]
    rfl

end Search

section Names

/-- A character that stands for itself in a string, and that the scanner does not look for. -/
def Printable (c : Char) : Prop := '!' ≤ c ∧ c ≤ '~' ∧ c ∉ ['"', '\\', '(', '{', '}']

instance (c : Char) : Decidable (Printable c) := inferInstanceAs (Decidable (_ ∧ _))

theorem Printable.plain {c : Char} (h : Printable c) : isWhitespace c = false := by
  have low : 33 ≤ c.toNat := UInt32.le_iff_toNat_le.mp h.1
  have high : c.toNat ≤ 126 := UInt32.le_iff_toNat_le.mp h.2.1
  unfold isWhitespace
  simp only [List.contains_eq_mem, List.mem_cons, List.not_mem_nil]
  simp
  omega

/-- A name that the scanner can read back. -/
structure Readable (name : Text) : Prop where
  printable : ∀ c ∈ name, Printable c
  known : name ≠ "?".toList

variable {name : Text} {n : Nat}

/-- An arm without its indent. -/
def armText (n : Nat) (name : Text) : Text :=
  decimal n ++ (" => ".toList ++ ('"' :: name ++ ['"', ',']))

theorem decimal_digit {c : Char} (member : c ∈ decimal n) : c.isDigit :=
  Nat.isDigit_of_mem_toDigits (by decide) (by decide) member

theorem not_mem_armText {c : Char} (digit : c.isDigit = false)
    (others : c ∉ [' ', '=', '>', '"', ',']) (absent : c ∉ name) : c ∉ armText n name := by
  intro member
  rcases List.mem_append.mp member with front | back
  · rw [decimal_digit front] at digit
    cases digit
  · simp only [List.mem_cons, List.not_mem_nil, or_false, not_or] at others
    simp [others, absent] at back

theorem trim_armText : trim (armText n name) = armText n name := by
  refine trim_of_ends ?_ ?_
  · intro c first
    obtain ⟨d, rest, split⟩ := List.exists_cons_of_ne_nil
      (show decimal n ≠ [] from Nat.toDigits_ne_nil)
    rw [armText, split] at first
    cases first
    exact decimal_plain n c (split ▸ List.mem_cons_self)
  · intro c last
    have ended : (armText n name).getLast? = some ',' := by
      simp [armText, List.getLast?_append, List.getLast?_cons]
    rw [ended] at last
    cases last
    decide

theorem trim_spaces (indent : Nat) (text : Text) :
    trim (List.replicate indent ' ' ++ text) = trim text := by
  have front : (List.replicate indent ' ' ++ text).dropWhile isWhitespace =
      text.dropWhile isWhitespace := by
    refine List.dropWhile_append_of_pos fun c member => ?_
    rw [List.eq_of_mem_replicate member]
    decide
  rw [trim, front, trim]

theorem extractStrLiteral_quoted (readable : Readable name) :
    extractStrLiteral ('"' :: name ++ ['"']) = some name := by
  have quoted : trim ('"' :: name ++ ['"']) = '"' :: name ++ ['"'] := by
    refine trim_of_ends ?_ ?_
    · intro c first
      cases first
      decide
    · intro c last
      rw [List.getLast?_concat] at last
      cases last
      decide
  have commas : ('"' :: name ++ ['"']).rdropWhile (· = ',') = '"' :: name ++ ['"'] :=
    List.rdropWhile_concat_neg _ _ _ (by decide)
  unfold extractStrLiteral
  simp only
  rw [quoted, commas, quoted, List.getLast?_concat, if_pos ⟨rfl, rfl, by simp⟩]
  have inner : ('"' :: name ++ ['"']).tail.dropLast = name := by simp
  rw [inner, if_pos readable.known]

theorem trim_decimal (n : Nat) : trim (decimal n ++ [' ']) = decimal n := by
  obtain ⟨d, rest, split⟩ := List.exists_cons_of_ne_nil
    (show decimal n ≠ [] from Nat.toDigits_ne_nil)
  have front : (decimal n ++ [' ']).dropWhile isWhitespace = decimal n ++ [' '] := by
    have plain : ¬isWhitespace d = true := by
      rw [decimal_plain n d (split ▸ List.mem_cons_self)]
      decide
    rw [split, List.cons_append, List.dropWhile_cons_of_neg plain]
  have last : ∀ some_ : decimal n ≠ [], ¬isWhitespace ((decimal n).getLast some_) = true := by
    intro some_
    rw [decimal_plain n _ (List.getLast_mem some_)]
    decide
  have space : isWhitespace ' ' = true := by decide
  rw [trim, front, List.rdropWhile_concat_pos _ _ _ space, List.rdropWhile_eq_self_iff.mpr last]

theorem splitOnce_armText : splitOnce "=>".toList (armText n name) =
    some (decimal n ++ [' '], ' ' :: ('"' :: name ++ ['"', ','])) := by
  have absent : '=' ∉ decimal n ++ [' '] := by
    intro member
    rcases List.mem_append.mp member with digit | space
    · exact absurd (decimal_digit digit) (by decide)
    · simp at space
  have first : splitOnce ['=', '>'] ((decimal n ++ [' ']) ++
      (['=', '>'] ++ ' ' :: ('"' :: name ++ ['"', ',']))) =
        some (decimal n ++ [' '], ' ' :: ('"' :: name ++ ['"', ','])) := splitOnce_first absent
  rw [← first, armText, List.append_assoc]
  rfl

theorem readArm_armText {s : Scan} {flat : Nat} (small : n < u32Size) (readable : Readable name)
    (sum : addWord 32 (s.subBase.getD 0) n = some flat) :
    s.readArm (armText n name) = some { s with map := s.map.insert flat name } := by
  have quoted : trim (' ' :: ('"' :: name ++ ['"', ','])) = '"' :: name ++ ['"', ','] := by
    have spaced := trim_spaces 1 ('"' :: name ++ ['"', ','])
    refine spaced.trans (trim_of_ends ?_ ?_)
    · intro c first
      cases first
      decide
    · intro c last
      have ended : ('"' :: name ++ ['"', ',']).getLast? = some ',' := by
        simp [List.getLast?_cons, List.getLast?_append]
      rw [ended] at last
      cases last
      decide
  have literal : ('"' :: name ++ ['"', ',']).rdropWhile (· = ',') = '"' :: name ++ ['"'] := by
    have split : '"' :: name ++ ['"', ','] = ('"' :: name ++ ['"']) ++ [','] := by simp
    rw [split]
    exact (List.rdropWhile_concat_pos _ _ _ (by decide)).trans
      (List.rdropWhile_concat_neg _ _ _ (by decide))
  have number : parseUnsigned u32Size (decimal n) = some n := parseUnsigned_toDigits small
  rw [Scan.readArm, splitOnce_armText]
  simp only [trim_decimal, quoted, literal, number, extractStrLiteral_quoted readable, sum]
  rfl

variable {escape : Char → Text} (plain : ∀ c, Printable c → escape c = [c])

include plain in
theorem debugText_printable (printable : ∀ c ∈ name, Printable c) :
    debugText escape name = '"' :: name ++ ['"'] := by
  have same : name.flatMap escape = name := by
    induction name with
    | nil => rfl
    | cons c rest ih =>
      rw [List.flatMap_cons, plain c (printable c List.mem_cons_self),
        ih fun d member => printable d (List.mem_cons_of_mem _ member)]
      rfl
  rw [debugText, same]

include plain in
theorem armLine_eq (indent : Nat) (printable : ∀ c ∈ name, Printable c) :
    armLine escape indent n name = List.replicate indent ' ' ++ armText n name := by
  rw [armLine, debugText_printable plain printable, armText]
  simp

include plain in
/-- An arm is read as what it says. -/
theorem scanLine_armLine {s : Scan} {flat : Nat} (inside : s.Inside) (indent : Nat)
    (small : n < u32Size) (readable : Readable name)
    (sum : addWord 32 (s.subBase.getD 0) n = some flat) :
    scanLine s (armLine escape indent n name) =
      some { s with map := s.map.insert flat name } := by
  have trimmed : trim (armLine escape indent n name) = armText n name := by
    rw [armLine_eq plain indent readable.printable, trim_spaces, trim_armText]
  have apart : ∀ c, c.isDigit = false → c ∉ [' ', '=', '>', '"', ','] → ¬Printable c →
      c ∉ armText n name := fun c digit others odd =>
    not_mem_armText digit others fun member => odd (readable.printable c member)
  have balanced : braces (armText n name) = 0 := by
    rw [braces, List.count_eq_zero.mpr (apart '{' (by decide) (by decide) (by decide)),
      List.count_eq_zero.mpr (apart '}' (by decide) (by decide) (by decide))]
    rfl
  have same : s.braceDepth + braces (armText n name) = s.braceDepth := by
    rw [balanced, Int.add_zero]
  have noRange : containsText ".contains(&o)".toList (armText n name) = false :=
    containsText_of_not_mem (c := '(') (by decide) (apart '(' (by decide) (by decide) (by decide))
  have noEnd : "\x7d,".toList.isPrefixOf (armText n name) = false :=
    isPrefixOf_of_not_mem (c := '}') (by decide) (apart '}' (by decide) (by decide) (by decide))
  have deep : 0 < s.braceDepth + braces (trim (armLine escape indent n name)) := by
    rw [trimmed, same]
    exact inside.deep
  rw [scanLine_inside inside deep (trimmed ▸ noRange) (trimmed ▸ noEnd), trimmed, same,
    readArm_armText small readable sum]

end Names

section Blocks

variable {escape : Char → Text} {map : Dict Nat Text} {group entries : List OrdEntry}
  {entry : Text × Nat}

/-- The scan between two blocks. -/
def Scan.between (map : Dict Nat Text) : Scan := ⟨true, none, 1, map, false⟩

/-- The scan inside a block with a guard. -/
def Scan.within (base : Nat) (map : Dict Nat Text) : Scan := ⟨true, some base, 2, map, false⟩

theorem inside_between (map : Dict Nat Text) : (Scan.between map).Inside :=
  ⟨rfl, rfl, Int.zero_lt_one⟩

theorem inside_within (base : Nat) (map : Dict Nat Text) : (Scan.within base map).Inside :=
  ⟨rfl, rfl, Int.ofNat_succ_pos 1⟩

def noted (map : Dict Nat Text) (group : List OrdEntry) : Dict Nat Text :=
  group.foldl (fun map e => map.insert e.flatOrdinal e.name) map

theorem range_facts (member : entry ∈ modules) :
    let trimmed := trim (rangeLine (baseConst entry.1) (upperConst entry.1))
    braces trimmed = 1 ∧ containsText ".contains(&o)".toList trimmed = true ∧
      containsText "match o - ".toList trimmed = true ∧
      (secondPart "o - ".toList trimmed).map
        (fun name => resolveConst (trim (trimMatches '{' (trim name)))) = some entry.2 := by
  revert entry
  decide

theorem scan_range (member : entry ∈ modules) :
    scanLine (.between map) (rangeLine (baseConst entry.1) (upperConst entry.1)) =
      some (.within entry.2 map) := by
  obtain ⟨opens, header, sub, base⟩ := range_facts member
  obtain ⟨name, second, known⟩ := Option.map_eq_some_iff.mp base
  unfold scanLine Scan.between
  simp only [opens, second, known]
  rw [if_neg Bool.false_ne_true, if_pos trivial, if_neg (by decide), if_pos ⟨header, sub⟩]
  rfl

theorem scan_closing {base : Nat} :
    scanLine (.within base map) "        \x7d,".toList = some (.between map) := by
  rfl

theorem literal_lines (some_ : group ≠ []) :
    (moduleItems "DOSCALLS".toList group).flatMap (Item.lines escape) =
      commentLine "DOSCALLS".toList ::
        (group.map fun e => armLine escape 8 e.flatOrdinal e.name) ++ [[]] := by
  rw [moduleItems, if_neg some_, if_pos rfl, List.cons_append, List.flatMap_cons,
    List.flatMap_append, List.flatMap_map, List.map_eq_flatMap]
  rfl

theorem range_lines {module : Text} (some_ : group ≠ []) (other : module ≠ "DOSCALLS".toList) :
    (moduleItems module group).flatMap (Item.lines escape) =
      commentLine module :: rangeLine (baseConst module) (upperConst module) ::
        ((group.map fun e => armLine escape 12 e.localOrdinal e.name) ++
          ["            _ => \"?\",".toList, "        \x7d,".toList, []]) := by
  have arms : (group.map fun e => (e.localOrdinal, e.name)).map
      (fun arm => armLine escape 12 arm.1 arm.2) =
        group.map fun e => armLine escape 12 e.localOrdinal e.name := List.map_map
  have comment : Item.lines escape (.comment module) = [commentLine module] := rfl
  have body : ∀ arm, Item.lines escape (.arm arm) = arm.lines escape := fun _ => rfl
  have blank : Item.lines escape .blank = [[]] := rfl
  rw [moduleItems, if_neg some_, if_neg other, List.flatMap_append, List.flatMap_cons,
    List.flatMap_singleton, List.flatMap_singleton, comment, body, blank, Arm.lines, arms,
    List.singleton_append, List.cons_append, List.cons_append, List.cons_append,
    List.append_assoc]
  rfl

section Escape

variable (plain : ∀ c, Printable c → escape c = [c])
include plain

theorem scan_arms {s : Scan} (inside : s.Inside) (indent : Nat) (number : OrdEntry → Nat)
    (each : ∀ e ∈ group, number e < u32Size ∧ Readable e.name ∧
      addWord 32 (s.subBase.getD 0) (number e) = some e.flatOrdinal) :
    (group.map fun e => armLine escape indent (number e) e.name).foldlM scanLine s =
      some { s with map := noted s.map group } := by
  induction group generalizing s with
  | nil => rfl
  | cons e rest ih =>
    obtain ⟨small, readable, sum⟩ := each e List.mem_cons_self
    rw [List.map_cons, List.foldlM_cons, scanLine_armLine plain inside indent small readable sum]
    have later : ({ s with map := s.map.insert e.flatOrdinal e.name } : Scan).Inside :=
      ⟨inside.inFn, inside.done, inside.deep⟩
    exact ih later fun other member => each other (List.mem_cons_of_mem _ member)

/-- A block adds its entries. -/
theorem scan_block (member : entry ∈ modules)
    (own : ∀ e ∈ group, (e.module = entry.1 ∧ e.Fits) ∧ Readable e.name) :
    ((moduleItems entry.1 group).flatMap (Item.lines escape)).foldlM scanLine (.between map) =
      some (.between (noted map group)) := by
  have comment := scanLine_idle (inside_between map) (idle_comment member)
  have base := moduleBase_of_mem member
  by_cases empty : group = []
  · rw [moduleItems, if_pos empty, empty]
    rfl
  · by_cases first : entry.1 = "DOSCALLS".toList
    · have zero : entry.2 = 0 := by
        rw [first] at base
        exact (Option.some.inj base).symm
      have arms := scan_arms plain (inside_between map) 8 OrdEntry.flatOrdinal
        fun e (inside : e ∈ group) => by
          obtain ⟨⟨same, fits⟩, readable⟩ := own e inside
          have flat := fits.valid.flat (same ▸ base)
          rw [zero, Nat.zero_add] at flat
          have small : e.flatOrdinal < u32Size := flat ▸ fits.valid.small
          refine ⟨small, readable, ?_⟩
          rw [Scan.between, Option.getD_none, addWord_of_lt (by rwa [Nat.zero_add]), Nat.zero_add]
      rw [first] at comment ⊢
      rw [literal_lines empty, List.cons_append, List.foldlM_cons, comment, Option.bind_eq_bind,
        Option.bind_some, List.foldlM_append, arms]
      rfl
    · have arms : (group.map fun e => armLine escape 12 e.localOrdinal e.name).foldlM scanLine
          (.within entry.2 map) = some (.within entry.2 (noted map group)) :=
        scan_arms plain (inside_within entry.2 map) 12 OrdEntry.localOrdinal fun e inside => by
          obtain ⟨⟨same, fits⟩, readable⟩ := own e inside
          obtain ⟨other, known, sum⟩ := fits.valid.base
          rw [same, base] at known
          cases known
          exact ⟨fits.valid.small, readable, sum⟩
      rw [range_lines empty first, List.foldlM_cons, comment, Option.bind_eq_bind,
        Option.bind_some, List.foldlM_cons, scan_range member, Option.bind_eq_bind,
        Option.bind_some, List.foldlM_append, arms, Option.bind_eq_bind, Option.bind_some]
      have unknown : scanLine (.within entry.2 (noted map group))
          "            _ => \"?\",".toList = some (.within entry.2 (noted map group)) :=
        scanLine_idle (inside_within entry.2 _) (idle_unknown 12 (by decide))
      rw [List.foldlM_cons, unknown, Option.bind_eq_bind, Option.bind_some, List.foldlM_cons,
        scan_closing]
      rfl

/-- All blocks, one after the other. -/
theorem scan_items {list : List (Text × Nat)} (known : ∀ entry ∈ list, entry ∈ modules)
    (fits : ∀ e ∈ entries, e.Fits) (readable : ∀ e ∈ entries, Readable e.name) :
    ((list.flatMap fun module => moduleItems module.1 (ofModule module.1 entries)).flatMap
      (Item.lines escape)).foldlM scanLine (.between map) =
        some (.between (noted map
          (list.flatMap fun module => ofModule module.1 entries))) := by
  induction list generalizing map with
  | nil => rfl
  | cons module rest ih =>
    have own : ∀ e ∈ ofModule module.1 entries,
        (e.module = module.1 ∧ e.Fits) ∧ Readable e.name := fun e inside =>
      ⟨own_ofModule fits module.1 e inside, readable e (List.mem_filter.mp inside).1⟩
    rw [List.flatMap_cons, List.flatMap_append, List.foldlM_append,
      scan_block plain (known module List.mem_cons_self) own, Option.bind_eq_bind,
      Option.bind_some, ih fun entry member => known entry (List.mem_cons_of_mem _ member),
      List.flatMap_cons]
    rw [noted, noted, noted, List.foldl_append]

end Escape

end Blocks

section Whole

variable {entries : List OrdEntry} {map : Dict Nat Text}

theorem preamble_scan : preamble.foldlM scanLine Scan.start = some (.between []) := by
  decide

theorem scan_done {s : Scan} (done : s.done = true) (rest : List Text) :
    rest.foldlM scanLine s = some s := by
  induction rest with
  | nil => rfl
  | cons line rest ih =>
    rw [List.foldlM_cons, scanLine, if_pos done]
    exact ih

/-- The loop is left behind the last brace of the function. -/
theorem scan_footer (rest : List Text) :
    ((["        _ => \"?\",".toList, "    \x7d".toList, "\x7d".toList, []] ++ rest).foldlM scanLine
      (.between map)).map Scan.map = some map := by
  have unknown : scanLine (.between map) "        _ => \"?\",".toList = some (.between map) :=
    scanLine_idle (inside_between map) (idle_unknown 8 (by decide))
  have last : scanLine (.between map) "    \x7d".toList = some ⟨true, none, 0, map, true⟩ := rfl
  rw [List.cons_append, List.foldlM_cons, unknown, Option.bind_eq_bind, Option.bind_some,
    List.cons_append, List.foldlM_cons, last, Option.bind_eq_bind, Option.bind_some,
    scan_done rfl]
  rfl

theorem erase_of_fresh {key : Nat} (fresh : ∀ entry ∈ map, entry.1 ≠ key) :
    map.erase key = map := by
  rw [Dict.erase, List.filter_eq_self]
  exact fun entry member => decide_eq_true (fresh entry member)

/-- Entries of different ordinals are noted one behind the other. -/
theorem noted_distinct {group : List OrdEntry} (nodup : (group.map OrdEntry.flatOrdinal).Nodup)
    (fresh : ∀ e ∈ group, ∀ entry ∈ map, entry.1 ≠ e.flatOrdinal) :
    noted map group = map ++ group.map fun e => (e.flatOrdinal, e.name) := by
  induction group generalizing map with
  | nil => simp [noted]
  | cons e rest ih =>
    rw [List.map_cons, List.nodup_cons] at nodup
    have insert : map.insert e.flatOrdinal e.name = map ++ [(e.flatOrdinal, e.name)] := by
      rw [Dict.insert, erase_of_fresh (fresh e List.mem_cons_self)]
    have later : ∀ other ∈ rest, ∀ entry ∈ map ++ [(e.flatOrdinal, e.name)],
        entry.1 ≠ other.flatOrdinal := by
      intro other member entry inside
      rcases List.mem_append.mp inside with old | new
      · exact fresh other (List.mem_cons_of_mem _ member) entry old
      · rw [List.mem_singleton.mp new]
        intro same
        have same : e.flatOrdinal = other.flatOrdinal := same
        exact nodup.1 (same ▸ List.mem_map_of_mem member)
    rw [noted, List.foldl_cons, ← noted, insert, ih nodup.2 later, List.append_assoc]
    rfl

section IsLine

variable {escape : Char → Text} (plain : ∀ c, Printable c → escape c = [c])
include plain

theorem isLine_armLine (indent n : Nat) {name : Text} (printable : ∀ c ∈ name, Printable c) :
    IsLine (armLine escape indent n name) := by
  rw [armLine_eq plain indent printable]
  refine ⟨?_, ?_⟩
  · intro member
    rcases List.mem_append.mp member with space | text
    · exact absurd (List.eq_of_mem_replicate space) (by decide)
    · refine not_mem_armText (by decide) (by decide) (fun inside => ?_) text
      exact absurd (printable _ inside) (by decide)
  · have ended : (armText n name).getLast? = some ',' := by
      simp [armText, List.getLast?_append, List.getLast?_cons]
    rw [List.getLast?_append, ended, Option.some_or]
    decide

theorem isLine_moduleItems {entry : Text × Nat} (member : entry ∈ modules)
    {group : List OrdEntry} (readable : ∀ e ∈ group, Readable e.name) :
    ∀ line ∈ (moduleItems entry.1 group).flatMap (Item.lines escape), IsLine line := by
  have comment : ∀ entry ∈ modules, IsLine (commentLine entry.1) ∧
      IsLine (rangeLine (baseConst entry.1) (upperConst entry.1)) := by
    unfold IsLine
    decide
  have closing : ∀ line ∈ ["            _ => \"?\",".toList, "        \x7d,".toList, []],
      IsLine line := by
    unfold IsLine
    decide
  by_cases empty : group = []
  · rw [moduleItems, if_pos empty]
    exact fun line inside => absurd inside List.not_mem_nil
  · by_cases first : entry.1 = "DOSCALLS".toList
    · rw [first, literal_lines empty, ← first]
      intro line inside
      rcases List.mem_append.mp inside with front | blank
      · rcases List.mem_cons.mp front with rfl | arm
        · exact (comment entry member).1
        · obtain ⟨e, here, rfl⟩ := List.mem_map.mp arm
          exact isLine_armLine plain 8 _ (readable e here).printable
      · rw [List.mem_singleton.mp blank]
        exact closing [] (by decide)
    · rw [range_lines empty first]
      intro line inside
      rcases List.mem_cons.mp inside with rfl | later
      · exact (comment entry member).1
      · rcases List.mem_cons.mp later with rfl | block
        · exact (comment entry member).2
        · rcases List.mem_append.mp block with arm | last
          · obtain ⟨e, here, rfl⟩ := List.mem_map.mp arm
            exact isLine_armLine plain 12 _ (readable e here).printable
          · exact closing line last

/-- Module names stand for themselves. -/
theorem moduleFunction_eq : moduleFunction escape = moduleFunction fun c => [c] := by
  have all : ∀ entry ∈ modules, entry.1.all (fun c => Printable c) = true := by decide
  have printable : ∀ entry ∈ modules, ∀ c ∈ entry.1, Printable c := fun entry member c inside =>
    of_decide_eq_true (List.all_eq_true.mp (all entry member) c inside)
  have same : modules.map (fun module => conditionLine escape module.1) =
      modules.map fun module => conditionLine (fun c => [c]) module.1 := by
    refine List.map_congr_left fun entry member => ?_
    rw [conditionLine, conditionLine, debugText_printable plain (printable entry member),
      debugText_printable (fun _ _ => rfl) (printable entry member)]
  rw [moduleFunction, moduleFunction, same]

theorem isLine_genTraceLines (readable : ∀ e ∈ entries, Readable e.name) :
    ∀ line ∈ genTraceLines escape entries, IsLine line := by
  have closed : ∀ line ∈ preamble ++ (["        _ => \"?\",".toList, "    \x7d".toList,
      "\x7d".toList, []] ++ moduleFunction fun c => [c]), IsLine line := by
    unfold IsLine
    decide
  intro line inside
  rw [genTraceLines, moduleFunction_eq plain, List.append_assoc] at inside
  rcases List.mem_append.mp inside with front | back
  · rcases List.mem_append.mp front with start | item
    · exact closed line (List.mem_append_left _ start)
    · rw [traceItems, List.flatMap_assoc] at item
      obtain ⟨entry, member, here⟩ := List.mem_flatMap.mp item
      exact isLine_moduleItems plain member
        (fun e own => readable e (List.mem_filter.mp own).1) line here
  · exact closed line (List.mem_append_right _ back)

end IsLine

section Noted

variable (fits : ∀ e ∈ entries, e.Fits) (checked : checkErrors entries = [])

/-- The entries in the order in which they are noted. -/
def inBlocks (entries : List OrdEntry) : List OrdEntry :=
  modules.flatMap fun module => ofModule module.1 entries

include fits in
theorem inBlocks_perm : (inBlocks entries).Perm entries := by
  have perm : (grouped OrdEntry.module id (modules.map Prod.fst) entries).Perm entries :=
    grouped_perm_of_mem (fun group => .refl group) modules_nodup
      fun e member => (fits e member).valid.known
  rwa [grouped, List.flatMap_map] at perm

include fits checked in
theorem flat_nodup : ((inBlocks entries).map OrdEntry.flatOrdinal).Nodup := by
  have distinct : (inBlocks entries).Nodup :=
    (inBlocks_perm fits).nodup_iff.mpr (checkErrors_eq_nil.mp checked).1.of_map
  refine distinct.map_on fun one first two second same => ?_
  exact flat_injective fits checked ((inBlocks_perm fits).mem_iff.mp first)
    ((inBlocks_perm fits).mem_iff.mp second) same

/-- What the scanner notes of the generated source. -/
def notes (entries : List OrdEntry) : Dict Nat Text :=
  (inBlocks entries).map fun e => (e.flatOrdinal, e.name)

include fits checked in
theorem extractTraceNames_genTrace {escape : Char → Text}
    (plain : ∀ c, Printable c → escape c = [c]) (readable : ∀ e ∈ entries, Readable e.name) :
    extractTraceNames (genTrace escape entries) = some (notes entries) := by
  have items : ((modules.flatMap fun module =>
      moduleItems module.1 (ofModule module.1 entries)).flatMap (Item.lines escape)).foldlM
        scanLine (.between []) = some (.between (noted [] (inBlocks entries))) :=
    scan_items plain (fun entry member => member) fits readable
  have distinct : noted [] (inBlocks entries) = [] ++ notes entries :=
    noted_distinct (flat_nodup fits checked) fun _ _ _ inside => absurd inside List.not_mem_nil
  rw [extractTraceNames, genTrace, lines_unlines (isLine_genTraceLines plain readable),
    genTraceLines, List.append_assoc, List.append_assoc, List.foldlM_append, preamble_scan,
    Option.bind_eq_bind, Option.bind_some, List.foldlM_append, traceItems, items,
    Option.bind_eq_bind, Option.bind_some, scan_footer, distinct, List.nil_append]

theorem mem_notes (fits : ∀ e ∈ entries, e.Fits) {ordinal : Nat} {name : Text} :
    (ordinal, name) ∈ notes entries ↔
      ∃ e ∈ entries, e.flatOrdinal = ordinal ∧ e.name = name := by
  rw [notes, List.mem_map]
  constructor
  · rintro ⟨e, member, same⟩
    cases same
    exact ⟨e, (inBlocks_perm fits).mem_iff.mp member, rfl, rfl⟩
  · rintro ⟨e, member, rfl, rfl⟩
    exact ⟨e, (inBlocks_perm fits).mem_iff.mpr member, rfl⟩

include fits checked in
theorem get_notes {ordinal : Nat} {name : Text} : (notes entries).get ordinal = some name ↔
    ∃ e ∈ entries, e.flatOrdinal = ordinal ∧ e.name = name := by
  rw [← mem_notes fits]
  refine ⟨Dict.mem_of_get, fun member => ?_⟩
  cases found : (notes entries).find? fun entry => entry.1 = ordinal with
  | none =>
    have none_ := List.find?_eq_none.mp found _ member
    exact absurd (decide_eq_true rfl) none_
  | some other =>
    obtain ⟨key, value⟩ := other
    obtain ⟨one, here, rfl, rfl⟩ := (mem_notes fits).mp (List.mem_of_find?_eq_some found)
    obtain ⟨two, there, rfl, rfl⟩ := (mem_notes fits).mp member
    have same : one.flatOrdinal = two.flatOrdinal := by simpa using List.find?_some found
    rw [Dict.get, found, flat_injective fits checked here there same]
    rfl

end Noted

end Whole

end Warpine.Api
