import Warpine.Cmd.Parse
import Warpine.Lib.Lists
import Warpine.Lib.Panics
import Warpine.Lib.Table
import Warpine.Lib.Fields
import Warpine.Loader.StubArea

/-! The table of the ordinals: a text that is read, and one that is written anew and read as the old
one, sorted. -/
namespace Warpine.Api
open Warpine.Lib Warpine.Cmd

abbrev Text := List Char

def stubAreaSize : Nat := 16384

/-- The windows of the flat ordinals, by their starts. -/
def modules : List (Text × Nat) := [
  ("DOSCALLS".toList, 0), ("QUECALLS".toList, 1024), ("PMWIN".toList, 2048),
  ("PMGPI".toList, 3072), ("KBDCALLS".toList, 4096), ("VIOCALLS".toList, 5120),
  ("SESMGR".toList, 6144), ("NLS".toList, 7168), ("MSG".toList, 8192), ("MDM".toList, 10240),
  ("UCONV".toList, 12288), ("SO32DLL".toList, 13312), ("TCP32DLL".toList, 14336)]

/-- They are those of the loader. -/
theorem modules_windows :
    modules = Loader.windows.map fun window => (window.module.toList, window.start) := rfl

structure OrdEntry where
  module : Text
  localOrdinal : Nat
  flatOrdinal : Nat
  name : Text
  line : Nat
deriving DecidableEq, Repr

def moduleBase (module : Text) : Option Nat :=
  (modules.find? fun entry => entry.1 = module).map Prod.snd

def moduleUpper (module : Text) : Nat :=
  let pos := (modules.findIdx? fun entry => entry.1 = module).getD 0
  (modules[pos + 1]?).elim stubAreaSize Prod.snd

section Parsing

inductive DefError where
  | missingName (line : Nat) (text : Text)
  | expectedOrdinal (line : Nat) (text : Text)
  | invalidOrdinal (line : Nat) (text : Text)
  | unknownModule (line : Nat) (module : Text)
deriving DecidableEq, Repr

/-- A sum of ordinals that leaves its word is a panic. -/
abbrev Parsing := ExceptT DefError Option

/-- What stands before the first dot and behind it. -/
def splitDot (text : Text) : Option (Text × Text) :=
  if '.' ∈ text then some (text.takeWhile (· ≠ '.'), (text.dropWhile (· ≠ '.')).tail) else none

def orThrow {α : Type} (value : Option α) (error : DefError) : Parsing α :=
  match value with
  | some found => pure found
  | none => throw error

def parseEntry (lineNum : Nat) (raw : Text) : Parsing (Option OrdEntry) := do
  let line := trim raw
  if line = [] ∨ line.head? = some '#' then return none
  let parts := fields isWhitespace line
  let moduleOrd := parts.head?.getD []
  let name := parts.tail.head?.getD []
  if name = [] then throw (.missingName lineNum line)
  let (module, ordStr) ← orThrow (splitDot moduleOrd) (.expectedOrdinal lineNum moduleOrd)
  let localOrdinal ← orThrow (parseUnsigned u32Size ordStr) (.invalidOrdinal lineNum ordStr)
  let base ← orThrow (moduleBase module) (.unknownModule lineNum module)
  let flatOrdinal ← ExceptT.lift (addWord 32 base localOrdinal)
  return some ⟨module, localOrdinal, flatOrdinal, name, lineNum⟩

def parseLines (lineNum : Nat) : List Text → Parsing (List OrdEntry)
  | [] => return []
  | raw :: rest => do
      let entry ← parseEntry lineNum raw
      let more ← parseLines (lineNum + 1) rest
      return entry.toList ++ more

def parseDef (content : Text) : Parsing (List OrdEntry) := parseLines 1 (lines content)

end Parsing

section Writing

/-- `{:<width}`. -/
def padded (width : Nat) (text : Text) : Text := text.rightpad width ' '

def decimal (n : Nat) : Text := Nat.toDigits 10 n

def moduleLine (module : Text × Nat) : Text :=
  "#   ".toList ++ padded 12 module.1 ++ " base ".toList ++ padded 6 (decimal module.2) ++
    "  (MAGIC_API_BASE + ".toList ++ decimal module.2 ++ " + ordinal)".toList

def headerLines : List Text :=
  ["# OS/2 API ordinal map for the Warpine LX linker.".toList, "#".toList,
    "# Format:  MODULE.ORDINAL  SymbolName".toList, "#".toList,
    "# Modules and their MAGIC_API_BASE offsets:".toList] ++ modules.map moduleLine ++ [[]]

/-- The rule is as long as the bytes of the label leave. -/
def labelLine (module : Text) : Text :=
  let label := "── ".toList ++ module ++ [' ']
  "# ".toList ++ label ++ List.replicate (75 - ((label.map Char.utf8Size).sum + 2)) '─'

def entryLine (e : OrdEntry) : Text :=
  e.module ++ '.' :: padded 6 (decimal e.localOrdinal) ++ "  ".toList ++ e.name

def sortByOrdinal (entries : List OrdEntry) : List OrdEntry :=
  sortBy OrdEntry.localOrdinal entries

def ofModule (module : Text) (entries : List OrdEntry) : List OrdEntry :=
  entries.filter fun e => e.module = module

def moduleLines (module : Text) (group : List OrdEntry) : List Text :=
  if group = [] then [] else labelLine module :: (sortByOrdinal group).map entryLine ++ [[]]

def genDefLines (entries : List OrdEntry) : List Text :=
  headerLines ++ modules.flatMap fun module => moduleLines module.1 (ofModule module.1 entries)

def genDef (entries : List OrdEntry) : Text := unlines (genDefLines entries)

end Writing

section Reading

variable {α β : Type} {error : DefError}

theorem parsing_bind {first : Parsing α} {next : α → Parsing β} {result : β} :
    (first >>= next).run = some (.ok result) ↔
      ∃ value, first.run = some (.ok value) ∧ (next value).run = some (.ok result) := by
  rw [ExceptT.run_bind, Option.bind_eq_bind, Option.bind_eq_some_iff]
  constructor
  · rintro ⟨value, here, there⟩
    cases value with
    | error e => cases there
    | ok value => exact ⟨value, here, there⟩
  · rintro ⟨value, here, there⟩
    exact ⟨_, here, there⟩

theorem parsing_pure {value result : α} :
    (pure value : Parsing α).run = some (.ok result) ↔ value = result := by
  rw [ExceptT.run_pure]
  simp

theorem orThrow_run {value : Option α} {result : α} :
    (orThrow value error).run = some (.ok result) ↔ value = some result := by
  cases value with
  | none => simp [orThrow]
  | some found => simp [orThrow]

theorem lift_run {value : Option α} {result : α} :
    (ExceptT.lift value : Parsing α).run = some (.ok result) ↔ value = some result := by
  cases value with
  | none => simp
  | some found => simp

theorem throw_run {result : α} : ¬(throw error : Parsing α).run = some (.ok result) := by
  intro h
  cases h

/-- A line without an entry. -/
def Silent (raw : Text) : Prop := trim raw = [] ∨ (trim raw).head? = some '#'

theorem parseEntry_silent {raw : Text} (silent : Silent raw) (lineNum : Nat) :
    (parseEntry lineNum raw).run = some (.ok none) := by
  unfold Silent at silent
  unfold parseEntry
  simp only
  rw [if_pos silent]
  rfl

/-- The first two words of a line are its entry. -/
theorem parseEntry_entry {lineNum : Nat} {raw : Text} {entry : Option OrdEntry}
    (line : ¬Silent raw) : (parseEntry lineNum raw).run = some (.ok entry) ↔
      ∃ moduleOrd name more module ordStr localOrdinal base flatOrdinal,
        fields isWhitespace (trim raw) = moduleOrd :: name :: more ∧
        splitDot moduleOrd = some (module, ordStr) ∧
        parseUnsigned u32Size ordStr = some localOrdinal ∧ moduleBase module = some base ∧
        addWord 32 base localOrdinal = some flatOrdinal ∧
        some ⟨module, localOrdinal, flatOrdinal, name, lineNum⟩ = entry := by
  unfold Silent at line
  unfold parseEntry
  simp only
  rw [if_neg line]
  cases words : fields isWhitespace (trim raw) with
  | nil => simp [throw_run]
  | cons moduleOrd rest =>
    cases rest with
    | nil => simp [throw_run]
    | cons name more =>
      have named : name ≠ [] :=
        (plain_of_mem_fields (words ▸ List.mem_cons_of_mem _ List.mem_cons_self)).1
      simp only [List.head?_cons, List.tail_cons, Option.getD_some, named, if_false, parsing_bind,
        orThrow_run, lift_run, parsing_pure]
      constructor
      · rintro ⟨cut, dot, localOrdinal, ord, base, known, flatOrdinal, sum, same⟩
        exact ⟨_, _, _, cut.1, cut.2, localOrdinal, base, flatOrdinal, rfl, dot, ord, known, sum,
          same⟩
      · rintro ⟨_, _, _, module, ordStr, localOrdinal, base, flatOrdinal, both, dot, ord, known, sum,
          same⟩
        cases both
        exact ⟨(module, ordStr), dot, localOrdinal, ord, base, known, flatOrdinal, sum, same⟩

/-- An entry as the table can hold it. -/
structure OrdEntry.Valid (e : OrdEntry) : Prop where
  base : ∃ base, moduleBase e.module = some base ∧
    addWord 32 base e.localOrdinal = some e.flatOrdinal
  small : e.localOrdinal < u32Size
  named : e.name ≠ []
  word : ∀ c ∈ e.name, isWhitespace c = false

theorem valid_of_parseEntry {lineNum : Nat} {raw : Text} {entry : Option OrdEntry}
    (h : (parseEntry lineNum raw).run = some (.ok entry)) : ∀ e ∈ entry, e.Valid := by
  by_cases silent : Silent raw
  · rw [parseEntry_silent silent] at h
    cases h
    simp
  · obtain ⟨moduleOrd, name, more, module, ordStr, localOrdinal, base, flatOrdinal, words, -, ord,
      known, sum, rfl⟩ := (parseEntry_entry silent).mp h
    intro e same
    cases same
    have word : name ∈ fields isWhitespace (trim raw) := by
      rw [words]
      exact List.mem_cons_of_mem _ List.mem_cons_self
    exact ⟨⟨base, known, sum⟩, parseUnsigned_lt ord, (plain_of_mem_fields word).1,
      (plain_of_mem_fields word).2⟩

theorem valid_of_parseLines {lineNum : Nat} {all : List Text} {entries : List OrdEntry}
    (h : (parseLines lineNum all).run = some (.ok entries)) : ∀ e ∈ entries, e.Valid := by
  induction all generalizing lineNum entries with
  | nil =>
    rw [← parsing_pure.mp h]
    simp
  | cons raw rest ih =>
    obtain ⟨entry, first, later⟩ := parsing_bind.mp h
    obtain ⟨more, others, done⟩ := parsing_bind.mp later
    rw [← parsing_pure.mp done]
    intro e member
    rcases List.mem_append.mp member with here | there
    · exact valid_of_parseEntry first e (Option.mem_toList.mp here)
    · exact ih others e there

end Reading

section Lines

theorem trim_of_ends {text : Text} (first : ∀ c ∈ text.head?, isWhitespace c = false)
    (last : ∀ c ∈ text.getLast?, isWhitespace c = false) : trim text = text := by
  have front : text.dropWhile isWhitespace = text := by
    cases text with
    | nil => rfl
    | cons c rest => exact List.dropWhile_cons_of_neg (by simp [first c rfl])
  rw [trim, front, List.rdropWhile_eq_self_iff]
  intro some_ space
  rw [last _ (List.getLast?_eq_some_getLast some_)] at space
  cases space

/-- The name of a module is a word without a dot, and begins no comment. -/
structure Plain (module : Text) : Prop where
  some_ : module ≠ []
  word : ∀ c ∈ module, isWhitespace c = false
  dot : '.' ∉ module
  comment : module.head? ≠ some '#'

theorem plain_of_mem {entry : Text × Nat} (member : entry ∈ modules) : Plain entry.1 := by
  have all : ∀ entry ∈ modules, entry.1 ≠ [] ∧ entry.1.all (fun c => !isWhitespace c) = true ∧
      '.' ∉ entry.1 ∧ entry.1.head? ≠ some '#' := by decide
  obtain ⟨some_, word, dot, comment⟩ := all entry member
  exact ⟨some_, fun c inside => by simpa using List.all_eq_true.mp word c inside, dot, comment⟩

theorem mem_of_moduleBase {module : Text} {base : Nat} (h : moduleBase module = some base) :
    (module, base) ∈ modules := by
  obtain ⟨entry, found, rfl⟩ := Option.map_eq_some_iff.mp h
  have same : entry.1 = module := by simpa using List.find?_some found
  rw [← same]
  exact List.mem_of_find?_eq_some found

theorem digit_plain {c : Char} (h : c.isDigit) : isWhitespace c = false := by
  obtain ⟨above, below⟩ := Bool.and_eq_true_iff.mp h
  have low : 48 ≤ c.toNat := UInt32.le_iff_toNat_le.mp (of_decide_eq_true above)
  have high : c.toNat ≤ 57 := UInt32.le_iff_toNat_le.mp (of_decide_eq_true below)
  unfold isWhitespace
  simp only [List.contains_eq_mem, List.mem_cons, List.not_mem_nil]
  simp
  omega

theorem decimal_plain (n : Nat) : ∀ c ∈ decimal n, isWhitespace c = false := fun _ member =>
  digit_plain (Nat.isDigit_of_mem_toDigits (by decide) (by decide) member)

theorem splitDot_cut {front : Text} (h : '.' ∉ front) (back : Text) :
    splitDot (front ++ '.' :: back) = some (front, back) := by
  have all : ∀ c ∈ front, decide (c ≠ '.') = true := fun c member =>
    decide_eq_true fun same => h (same ▸ member)
  rw [splitDot, if_pos (by simp), List.takeWhile_append_of_pos all,
    List.dropWhile_append_of_pos all]
  simp

variable {e : OrdEntry}

theorem entryLine_eq (e : OrdEntry) : entryLine e = (e.module ++ '.' :: decimal e.localOrdinal) ++
    (List.replicate (6 - (decimal e.localOrdinal).length) ' ' ++ "  ".toList) ++ e.name := by
  simp [entryLine, padded, List.rightpad]

theorem OrdEntry.Valid.plain (valid : e.Valid) : Plain e.module := by
  obtain ⟨base, known, -⟩ := valid.base
  exact plain_of_mem (mem_of_moduleBase known)

theorem trim_entryLine (valid : e.Valid) : trim (entryLine e) = entryLine e := by
  refine trim_of_ends ?_ ?_
  · intro c first
    obtain ⟨d, rest, split⟩ := List.exists_cons_of_ne_nil valid.plain.some_
    rw [entryLine, split] at first
    cases first
    exact valid.plain.word c (split ▸ List.mem_cons_self)
  · intro c last
    rw [entryLine_eq, List.getLast?_append_of_ne_nil _ valid.named] at last
    exact valid.word c (List.mem_of_getLast? last)

theorem fields_entryLine (valid : e.Valid) : fields isWhitespace (entryLine e) =
    [e.module ++ '.' :: decimal e.localOrdinal, e.name] := by
  rw [entryLine_eq, fields_word_gap (by simp) ?_ (by simp) ?_,
    fields_word valid.named valid.word]
  · intro c member
    rcases List.mem_append.mp member with front | back
    · exact valid.plain.word c front
    · rcases List.mem_cons.mp back with rfl | digit
      · decide
      · exact decimal_plain _ c digit
  · intro c member
    have space : c = ' ' := by
      rcases List.mem_append.mp member with pad | gap
      · exact List.eq_of_mem_replicate pad
      · simpa using gap
    rw [space]
    decide

/-- The same entry, found on another line. -/
def OrdEntry.at (e : OrdEntry) (line : Nat) : OrdEntry := { e with line }

theorem parseEntry_entryLine (valid : e.Valid) (lineNum : Nat) :
    (parseEntry lineNum (entryLine e)).run = some (.ok (some (e.at lineNum))) := by
  have line : ¬Silent (entryLine e) := by
    obtain ⟨c, rest, split⟩ := List.exists_cons_of_ne_nil valid.plain.some_
    have comment := valid.plain.comment
    rw [Silent, trim_entryLine valid, entryLine, split]
    rw [split] at comment
    simpa using comment
  obtain ⟨base, known, sum⟩ := valid.base
  refine (parseEntry_entry line).mpr ⟨_, _, _, e.module, decimal e.localOrdinal, e.localOrdinal,
    base, e.flatOrdinal, (by rw [trim_entryLine valid, fields_entryLine valid]),
    splitDot_cut valid.plain.dot _, parseUnsigned_toDigits valid.small, known, sum, rfl⟩

theorem isLine_entryLine (valid : e.Valid) : IsLine (entryLine e) := by
  have last : (entryLine e).getLast? = e.name.getLast? := by
    rw [entryLine_eq, List.getLast?_append_of_ne_nil _ valid.named]
  refine ⟨?_, ?_⟩
  · intro member
    rw [entryLine_eq] at member
    have feed : isWhitespace '\n' = true := by decide
    rcases List.mem_append.mp member with front | name
    · rcases List.mem_append.mp front with word | gap
      · rcases List.mem_append.mp word with module | digits
        · rw [valid.plain.word _ module] at feed
          cases feed
        · rcases List.mem_cons.mp digits with dot | digit
          · cases dot
          · rw [decimal_plain _ _ digit] at feed
            cases feed
      · simp at gap
    · rw [valid.word _ name] at feed
      cases feed
  · rw [last]
    intro ended
    have back := valid.word _ (List.mem_of_getLast? ended)
    revert back
    decide

end Lines

/-- What an entry says, wherever it stands. -/
def OrdEntry.content (e : OrdEntry) : OrdEntry := e.at 0

section Reads

/-- Lines that are read as these entries, from whatever line on. -/
structure Reads (all : List Text) (entries : List OrdEntry) : Prop where
  isLine : ∀ line ∈ all, IsLine line
  found : ∀ lineNum, ∃ found, (parseLines lineNum all).run = some (.ok found) ∧
    found.map OrdEntry.content = entries.map OrdEntry.content

theorem parseLines_append {front back : List Text} {one two : List OrdEntry} {lineNum : Nat}
    (first : (parseLines lineNum front).run = some (.ok one))
    (second : (parseLines (lineNum + front.length) back).run = some (.ok two)) :
    (parseLines lineNum (front ++ back)).run = some (.ok (one ++ two)) := by
  induction front generalizing lineNum one with
  | nil =>
    rw [← parsing_pure.mp first]
    exact second
  | cons raw rest ih =>
    obtain ⟨entry, here, later⟩ := parsing_bind.mp first
    obtain ⟨more, others, done⟩ := parsing_bind.mp later
    rw [← parsing_pure.mp done, List.append_assoc]
    rw [List.length_cons, ← Nat.succ_add_eq_add_succ] at second
    exact parsing_bind.mpr ⟨entry, here, parsing_bind.mpr ⟨_, ih others second, rfl⟩⟩

namespace Reads

theorem nil : Reads [] [] :=
  ⟨fun _ member => absurd member List.not_mem_nil, fun _ => ⟨[], rfl, rfl⟩⟩

theorem append {front back : List Text} {one two : List OrdEntry} (first : Reads front one)
    (second : Reads back two) : Reads (front ++ back) (one ++ two) where
  isLine line member := (List.mem_append.mp member).elim (first.isLine line) (second.isLine line)
  found lineNum := by
    obtain ⟨here, read, same⟩ := first.found lineNum
    obtain ⟨there, later, alike⟩ := second.found (lineNum + front.length)
    exact ⟨here ++ there, parseLines_append read later, by
      rw [List.map_append, List.map_append, same, alike]⟩

theorem flatMap {ι : Type} {items : List ι} {texts : ι → List Text}
    {entries : ι → List OrdEntry} (each : ∀ item ∈ items, Reads (texts item) (entries item)) :
    Reads (items.flatMap texts) (items.flatMap entries) := by
  induction items with
  | nil => exact nil
  | cons item rest ih =>
    rw [List.flatMap_cons, List.flatMap_cons]
    exact (each item List.mem_cons_self).append
      (ih fun other member => each other (List.mem_cons_of_mem _ member))

theorem silent {all : List Text} (h : ∀ line ∈ all, IsLine line ∧ Silent line) : Reads all [] where
  isLine line member := (h line member).1
  found lineNum := by
    refine ⟨[], ?_, rfl⟩
    induction all generalizing lineNum with
    | nil => rfl
    | cons raw rest ih =>
      refine parsing_bind.mpr ⟨none, parseEntry_silent (h raw List.mem_cons_self).2 lineNum, ?_⟩
      exact parsing_bind.mpr
        ⟨[], ih (fun line member => h line (List.mem_cons_of_mem _ member)) _, rfl⟩

theorem entries {all : List OrdEntry} (valid : ∀ e ∈ all, e.Valid) :
    Reads (all.map entryLine) all where
  isLine line member := by
    obtain ⟨e, here, rfl⟩ := List.mem_map.mp member
    exact isLine_entryLine (valid e here)
  found lineNum := by
    induction all generalizing lineNum with
    | nil => exact ⟨[], rfl, rfl⟩
    | cons e rest ih =>
      obtain ⟨found, read, same⟩ :=
        ih (fun other member => valid other (List.mem_cons_of_mem _ member)) (lineNum + 1)
      refine ⟨e.at lineNum :: found, parsing_bind.mpr ⟨_,
        parseEntry_entryLine (valid e List.mem_cons_self) lineNum,
        parsing_bind.mpr ⟨_, read, rfl⟩⟩, ?_⟩
      rw [List.map_cons, List.map_cons, same]
      rfl

end Reads

/-- The entries in the order in which they are written. -/
def canonical (entries : List OrdEntry) : List OrdEntry :=
  grouped OrdEntry.module sortByOrdinal (modules.map Prod.fst) entries

theorem reads_genDef {entries : List OrdEntry} (valid : ∀ e ∈ entries, e.Valid) :
    Reads (genDefLines entries) (canonical entries) := by
  have header : ∀ line ∈ headerLines, IsLine line ∧ Silent line := by
    unfold IsLine Silent
    decide +kernel
  have labels : ∀ entry ∈ modules, IsLine (labelLine entry.1) ∧ Silent (labelLine entry.1) := by
    unfold IsLine Silent
    decide +kernel
  have blank : IsLine [] ∧ Silent [] := by
    unfold IsLine Silent
    decide
  have body : Reads
      (modules.flatMap fun module => moduleLines module.1 (ofModule module.1 entries))
      (modules.flatMap fun module => sortByOrdinal (ofModule module.1 entries)) := by
    refine Reads.flatMap fun entry member => ?_
    unfold moduleLines
    split
    · rename_i empty
      rw [empty, sortByOrdinal, sortBy, List.mergeSort_nil]
      exact Reads.nil
    · have label : Reads [labelLine entry.1] [] := .silent (by simpa using labels entry member)
      have group := Reads.entries fun e (inside : e ∈ sortByOrdinal (ofModule entry.1 entries)) =>
        valid e (List.mem_filter.mp (sortBy_perm.mem_iff.mp inside)).1
      have last : Reads [[]] [] := .silent (by simpa using blank)
      have three := (label.append group).append last
      rwa [List.nil_append, List.append_nil, List.append_assoc] at three
  have whole := (Reads.silent header).append body
  rwa [List.nil_append] at whole

end Reads

section Canonical

variable {entries : List OrdEntry} {module : Text}

theorem modules_nodup : (modules.map Prod.fst).Nodup := by decide

theorem OrdEntry.Valid.known {e : OrdEntry} (valid : e.Valid) :
    e.module ∈ modules.map Prod.fst := by
  obtain ⟨base, known, -⟩ := valid.base
  exact List.mem_map_of_mem (mem_of_moduleBase known)

theorem canonical_perm (valid : ∀ e ∈ entries, e.Valid) : (canonical entries).Perm entries :=
  grouped_perm_of_mem (fun _ => sortBy_perm) modules_nodup fun e member => (valid e member).known

theorem ofModule_canonical (member : module ∈ modules.map Prod.fst) :
    ofModule module (canonical entries) = sortByOrdinal (ofModule module entries) :=
  filter_grouped (fun _ => sortBy_perm) modules_nodup member

theorem ofModule_content :
    (ofModule module entries).map OrdEntry.content =
      ofModule module (entries.map OrdEntry.content) := by
  rw [ofModule, ofModule, List.filter_map]
  rfl

theorem sorted_of_content {group : List OrdEntry} :
    ((group.map OrdEntry.content).Pairwise fun one two => one.localOrdinal ≤ two.localOrdinal) ↔
      group.Pairwise fun one two => one.localOrdinal ≤ two.localOrdinal :=
  List.pairwise_map

theorem moduleLines_content (group : List OrdEntry) :
    moduleLines module (group.map OrdEntry.content) = moduleLines module group := by
  have sorted : (sortByOrdinal (group.map OrdEntry.content)).map entryLine =
      (sortByOrdinal group).map entryLine := by
    have keeps : ∀ e : OrdEntry, e.content.localOrdinal = e.localOrdinal := fun _ => rfl
    rw [sortByOrdinal, ← map_sortBy keeps, List.map_map]
    rfl
  unfold moduleLines
  simp only [List.map_eq_nil_iff, sorted]

/-- What is written does not depend on the lines that the entries were read from. -/
theorem genDefLines_content : genDefLines (entries.map OrdEntry.content) = genDefLines entries := by
  unfold genDefLines
  congr 2
  funext entry
  rw [← ofModule_content, moduleLines_content]

theorem moduleLines_sorted (group : List OrdEntry) :
    moduleLines module (sortByOrdinal group) = moduleLines module group := by
  have nil : sortByOrdinal group = [] ↔ group = [] := by
    rw [← List.length_eq_zero_iff, ← List.length_eq_zero_iff, sortByOrdinal, sortBy_perm.length_eq]
  have again : sortByOrdinal (sortByOrdinal group) = sortByOrdinal group :=
    sortBy_of_sorted sortBy_sorted
  unfold moduleLines
  rw [again]
  simp only [nil]

theorem genDefLines_canonical : genDefLines (canonical entries) = genDefLines entries := by
  unfold genDefLines
  congr 1
  rw [List.flatMap_congr]
  intro entry member
  rw [ofModule_canonical (List.mem_map_of_mem member), moduleLines_sorted]

theorem parseDef_canonical (valid : ∀ e ∈ entries, e.Valid) :
    ∃ again, (parseDef (genDef entries)).run = some (.ok again) ∧
      again.map OrdEntry.content = (canonical entries).map OrdEntry.content := by
  have reads := reads_genDef valid
  rw [parseDef, genDef, lines_unlines reads.isLine]
  exact reads.found 1

end Canonical

/-- A text that is accepted is written anew with the same entries, in order inside each module; what
was written is accepted, and written anew it stays as it is. -/
theorem parseDef_genDef {content : Text} {entries : List OrdEntry}
    (h : (parseDef content).run = some (.ok entries)) :
    ∃ again, (parseDef (genDef entries)).run = some (.ok again) ∧
      (again.map OrdEntry.content).Perm (entries.map OrdEntry.content) ∧
      (∀ module, (ofModule module again).Pairwise fun one two =>
        one.localOrdinal ≤ two.localOrdinal) ∧
      genDef again = genDef entries := by
  have valid := valid_of_parseLines h
  obtain ⟨again, read, same⟩ := parseDef_canonical valid
  have perm := canonical_perm valid
  refine ⟨again, read, same ▸ perm.map _, fun module => ?_, ?_⟩
  · rw [← sorted_of_content, ofModule_content, same, ← ofModule_content, sorted_of_content]
    by_cases known : module ∈ modules.map Prod.fst
    · rw [ofModule_canonical known]
      exact sortBy_sorted
    · have empty : ofModule module (canonical entries) = [] := by
        refine List.filter_eq_nil_iff.mpr fun e member eq => known ?_
        rw [← of_decide_eq_true eq]
        exact (valid e (perm.mem_iff.mp member)).known
      rw [empty]
      exact .nil
  · rw [genDef, genDef, ← genDefLines_content, same, genDefLines_content, genDefLines_canonical]

/-- A table out of order. -/
theorem parseDef_genDef_unsorted :
    let content := "NLS.7 NlsGetDBCSEv\nDOSCALLS.282\tDosWrite # last\nDOSCALLS.+234 DosExit".toList
    ((parseDef content).run.map Except.isOk) = some true ∧
      ∀ entries, (parseDef content).run = some (.ok entries) → ∃ again,
        (parseDef (genDef entries)).run = some (.ok again) ∧ genDef again = genDef entries := by
  refine ⟨by decide, fun entries h => ?_⟩
  obtain ⟨again, read, -, -, same⟩ := parseDef_genDef h
  exact ⟨again, read, same⟩

section Linker

-- `char::to_uppercase`.
variable (uppercase : Char → Text)

/-- The linker passes over a line that is no entry. -/
def linkEntry (raw : Text) : Option (Text × Text × Nat) :=
  let line := trim raw
  if line = [] ∨ line.head? = some '#' then none
  else
    match fields isWhitespace line with
    | modOrd :: sym :: _ =>
        (splitDot modOrd).bind fun cut =>
          (parseUnsigned u32Size cut.2).map fun ordinal => (sym, cut.1.flatMap uppercase, ordinal)
    | _ => none

def noteImport (map : Table Text (Text × Nat)) : Option (Text × Text × Nat) →
    Table Text (Text × Nat)
  | some (sym, place) => map.insert sym place
  | none => map

/-- The symbols that the linker imports, and from where. -/
def linkDef (content : Text) : Table Text (Text × Nat) :=
  (lines content).foldl (fun map raw => noteImport map (linkEntry uppercase raw)) .empty

variable {uppercase}

theorem uppercase_module (ascii : ∀ c, c.toNat < 128 → uppercase c = [c.toUpper])
    {module : Text} {base : Nat} (known : moduleBase module = some base) :
    module.flatMap uppercase = module := by
  have capital : ∀ entry ∈ modules,
      entry.1.all (fun c => c.toNat < 128 ∧ c.toUpper = c) = true := by decide
  have same : ∀ c ∈ module, uppercase c = [c] := by
    intro c member
    obtain ⟨small, upper⟩ := of_decide_eq_true
      (List.all_eq_true.mp (capital _ (mem_of_moduleBase known)) c member)
    rw [ascii c small, upper]
  rw [List.flatMap_congr same, List.flatMap_singleton']

theorem linkEntry_of_parseEntry (ascii : ∀ c, c.toNat < 128 → uppercase c = [c.toUpper])
    {lineNum : Nat} {raw : Text} {entry : Option OrdEntry}
    (h : (parseEntry lineNum raw).run = some (.ok entry)) :
    linkEntry uppercase raw = entry.map fun e => (e.name, e.module, e.localOrdinal) := by
  by_cases silent : Silent raw
  · rw [parseEntry_silent silent] at h
    cases h
    exact if_pos silent
  · obtain ⟨moduleOrd, name, more, module, ordStr, localOrdinal, base, flatOrdinal, words, dot, ord,
      known, sum, rfl⟩ := (parseEntry_entry silent).mp h
    refine (if_neg silent).trans ?_
    simp only [words, dot, Option.bind_some, ord, Option.map_some,
      uppercase_module ascii known]

/-- Later entries of a symbol take the place of earlier ones. -/
def imports (entries : List OrdEntry) : Table Text (Text × Nat) :=
  entries.foldl (fun map e => map.insert e.name (e.module, e.localOrdinal)) .empty

theorem linkDef_of_parseDef (ascii : ∀ c, c.toNat < 128 → uppercase c = [c.toUpper])
    {content : Text} {entries : List OrdEntry}
    (h : (parseDef content).run = some (.ok entries)) :
    linkDef uppercase content = imports entries := by
  have all : ∀ (rest : List Text) (lineNum : Nat) (found : List OrdEntry)
      (map : Table Text (Text × Nat)), (parseLines lineNum rest).run = some (.ok found) →
        rest.foldl (fun map raw => noteImport map (linkEntry uppercase raw)) map =
          found.foldl (fun map e => map.insert e.name (e.module, e.localOrdinal)) map := by
    intro rest
    induction rest with
    | nil =>
      intro lineNum found map h
      rw [← parsing_pure.mp h]
      rfl
    | cons raw rest ih =>
      intro lineNum found map h
      obtain ⟨entry, first, later⟩ := parsing_bind.mp h
      obtain ⟨more, others, done⟩ := parsing_bind.mp later
      rw [← parsing_pure.mp done, List.foldl_cons, List.foldl_append,
        linkEntry_of_parseEntry ascii first, ih _ _ _ others]
      cases entry <;> rfl
  exact all (lines content) 1 entries .empty h

/-- The last entry of a name decides. -/
theorem imports_eq (entries : List OrdEntry) (sym : Text) : imports entries sym =
    (entries.reverse.find? fun e => e.name = sym).map fun e => (e.module, e.localOrdinal) := by
  induction entries using List.reverseRecOn with
  | nil => rfl
  | append_singleton entries e ih =>
    have last : imports (entries ++ [e]) =
        (imports entries).insert e.name (e.module, e.localOrdinal) := by
      rw [imports, List.foldl_append]
      rfl
    rw [last, List.reverse_append, List.reverse_singleton, List.singleton_append, List.find?_cons]
    by_cases same : e.name = sym
    · rw [← same, Table.insert_self, decide_eq_true rfl]
      rfl
    · rw [Table.insert_ne _ _ (Ne.symm same), ih, decide_eq_false same]

/-- Of two tables with the same entries of a name, all of which say the same. -/
theorem imports_congr {one two : List OrdEntry} {sym : Text}
    (alike : ∀ e, e.name = sym → (e ∈ one.map OrdEntry.content ↔ e ∈ two.map OrdEntry.content))
    (same : ∀ first ∈ two, ∀ second ∈ two, first.name = sym → second.name = sym →
      first.module = second.module ∧ first.localOrdinal = second.localOrdinal) :
    imports one sym = imports two sym := by
  have across : ∀ {left right : List OrdEntry},
      (∀ e, e.name = sym → e ∈ left.map OrdEntry.content → e ∈ right.map OrdEntry.content) →
        ∀ e ∈ left, e.name = sym → ∃ other ∈ right, other.name = sym ∧
          other.module = e.module ∧ other.localOrdinal = e.localOrdinal := by
    intro left right sub e member name
    obtain ⟨other, there, content⟩ :=
      List.mem_map.mp (sub e.content name (List.mem_map_of_mem member))
    have fields := OrdEntry.mk.inj content
    exact ⟨other, there, fields.2.2.2.1.trans name, fields.1, fields.2.1⟩
  rw [imports_eq, imports_eq]
  cases left : one.reverse.find? fun e => e.name = sym with
  | none =>
    cases right : two.reverse.find? fun e => e.name = sym with
    | none => rfl
    | some e =>
      have name : e.name = sym := by simpa using List.find?_some right
      obtain ⟨other, member, named, -⟩ := across (fun e name => (alike e name).mpr) e
        (List.mem_reverse.mp (List.mem_of_find?_eq_some right)) name
      have none_ := List.find?_eq_none.mp left other (List.mem_reverse.mpr member)
      exact absurd (decide_eq_true named) none_
  | some e =>
    have name : e.name = sym := by simpa using List.find?_some left
    obtain ⟨other, member, named, module, ordinal⟩ := across (fun e name => (alike e name).mp) e
      (List.mem_reverse.mp (List.mem_of_find?_eq_some left)) name
    cases right : two.reverse.find? fun e => e.name = sym with
    | none =>
      have none_ := List.find?_eq_none.mp right other (List.mem_reverse.mpr member)
      exact absurd (decide_eq_true named) none_
    | some last =>
      have known : last.name = sym := by simpa using List.find?_some right
      obtain ⟨own, number⟩ := same other member last
        (List.mem_reverse.mp (List.mem_of_find?_eq_some right)) named known
      rw [Option.map_some, Option.map_some, ← module, ← ordinal, own, number]

/-- The linker imports what the table says, and from the table that is written anew the same, but for
a name of several entries that do not agree. -/
theorem linkDef_genDef (ascii : ∀ c, c.toNat < 128 → uppercase c = [c.toUpper])
    {content : Text} {entries : List OrdEntry}
    (h : (parseDef content).run = some (.ok entries)) :
    linkDef uppercase content = imports entries ∧
      ∀ sym, (∀ one ∈ entries, ∀ two ∈ entries, one.name = sym → two.name = sym →
        one.module = two.module ∧ one.localOrdinal = two.localOrdinal) →
          linkDef uppercase (genDef entries) sym = linkDef uppercase content sym := by
  have valid := valid_of_parseLines h
  obtain ⟨again, read, alike⟩ := parseDef_canonical valid
  refine ⟨linkDef_of_parseDef ascii h, fun sym same => ?_⟩
  rw [linkDef_of_parseDef ascii h, linkDef_of_parseDef ascii read]
  refine imports_congr (fun e name => ?_) same
  rw [alike]
  exact ((canonical_perm valid).map OrdEntry.content).mem_iff

/-- Symbols of two modules, which are written the other way round. -/
theorem linkDef_genDef_window :
    let content := "NLS.7 NlsGetDBCSEv\nDOSCALLS.234 DosExit".toList
    let uppercase : Char → Text := fun c => [c.toUpper]
    ∃ entries, (parseDef content).run = some (.ok entries) ∧
      linkDef uppercase (genDef entries) "DosExit".toList = some ("DOSCALLS".toList, 234) := by
  intro content uppercase
  let entries : List OrdEntry := [⟨"NLS".toList, 7, 7175, "NlsGetDBCSEv".toList, 1⟩,
    ⟨"DOSCALLS".toList, 234, 234, "DosExit".toList, 2⟩]
  have read : (parseDef content).run = some (.ok entries) := by decide
  have ascii : ∀ c : Char, c.toNat < 128 → uppercase c = [c.toUpper] := fun _ _ => rfl
  have agrees := (linkDef_genDef ascii read).2 "DosExit".toList (by decide)
  exact ⟨entries, read, agrees.trans (by decide)⟩

end Linker

end Warpine.Api
