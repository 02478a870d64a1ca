import Mathlib.Data.List.Find
import Warpine.Api.DefFile
import Warpine.Lib.Table

/-! The source that is generated from the table, and what it means. -/
namespace Warpine.Api
open Warpine.Lib

section Generator

/-- The constant that stands for the start of a module's window. -/
def baseConsts : List (Text × Text) := [
  ("DOSCALLS".toList, "0".toList), ("QUECALLS".toList, "1024".toList),
  ("PMWIN".toList, "PMWIN_BASE".toList), ("PMGPI".toList, "PMGPI_BASE".toList),
  ("KBDCALLS".toList, "KBDCALLS_BASE".toList), ("VIOCALLS".toList, "VIOCALLS_BASE".toList),
  ("SESMGR".toList, "SESMGR_BASE".toList), ("NLS".toList, "NLS_BASE".toList),
  ("MSG".toList, "MSG_BASE".toList), ("MDM".toList, "MDM_BASE".toList),
  ("UCONV".toList, "UCONV_BASE".toList), ("SO32DLL".toList, "SO32DLL_BASE".toList),
  ("TCP32DLL".toList, "TCP32DLL_BASE".toList)]

def upperConsts : List (Text × Text) := [
  ("DOSCALLS".toList, "1024".toList), ("QUECALLS".toList, "PMWIN_BASE".toList),
  ("PMWIN".toList, "PMGPI_BASE".toList), ("PMGPI".toList, "KBDCALLS_BASE".toList),
  ("KBDCALLS".toList, "VIOCALLS_BASE".toList), ("VIOCALLS".toList, "SESMGR_BASE".toList),
  ("SESMGR".toList, "NLS_BASE".toList), ("NLS".toList, "MSG_BASE".toList),
  ("MSG".toList, "MDM_BASE".toList), ("MDM".toList, "UCONV_BASE".toList),
  ("UCONV".toList, "SO32DLL_BASE".toList), ("SO32DLL".toList, "TCP32DLL_BASE".toList),
  ("TCP32DLL".toList, "STUB_AREA_SIZE".toList)]

def constOf (consts : List (Text × Text)) (module : Text) : Text :=
  ((consts.find? fun entry => entry.1 = module).map Prod.snd).getD "?".toList

def baseConst (module : Text) : Text := constOf baseConsts module
def upperConst (module : Text) : Text := constOf upperConsts module

inductive Arm where
  | literal (ordinal : Nat) (name : Text)
  /-- An arm with a guard, and a match on what is left of the ordinal. -/
  | range (base upper : Text) (arms : List (Nat × Text))

inductive Item where
  | comment (module : Text)
  | arm (arm : Arm)
  | blank

def moduleItems (module : Text) (group : List OrdEntry) : List Item :=
  if group = [] then []
  else .comment module ::
    (if module = "DOSCALLS".toList then
      group.map fun e => .arm (.literal e.flatOrdinal e.name)
    else [.arm (.range (baseConst module) (upperConst module)
      (group.map fun e => (e.localOrdinal, e.name)))]) ++ [.blank]

def traceItems (entries : List OrdEntry) : List Item :=
  modules.flatMap fun module => moduleItems module.1 (ofModule module.1 entries)

/-- The conditions of `module_for_ordinal`. The one of `UCONV` is written out. -/
def moduleConditions : List (Text × Text) :=
  modules.map fun module =>
    (if module.1 = "UCONV".toList then "STUB_AREA_SIZE".toList else upperConst module.1, module.1)

section Text

-- What `{:?}` makes of a character inside a string.
variable (escape : Char → Text)

def debugText (text : Text) : Text := '"' :: text.flatMap escape ++ ['"']

def armLine (indent ordinal : Nat) (name : Text) : Text :=
  List.replicate indent ' ' ++ decimal ordinal ++ " => ".toList ++ debugText escape name ++ [',']

def rangeLine (base upper : Text) : Text :=
  "        o if (".toList ++ base ++ "..".toList ++ upper ++
    ").contains(&o) => match o - ".toList ++ base ++ " \x7b".toList

def Arm.lines : Arm → List Text
  | .literal ordinal name => [armLine escape 8 ordinal name]
  | .range base upper arms =>
      rangeLine base upper :: arms.map (fun arm => armLine escape 12 arm.1 arm.2) ++
        ["            _ => \"?\",".toList, "        \x7d,".toList]

def commentLine (module : Text) : Text :=
  "        // ── ".toList ++ module ++ ' ' :: List.replicate 46 '─'

def Item.lines : Item → List Text
  | .comment module => [commentLine module]
  | .arm body => body.lines escape
  | .blank => [[]]

def preamble : List Text := [
  "// AUTO-GENERATED — do not edit manually.".toList,
  "// Regenerate with: cargo run --bin gen_api -- gen-trace".toList,
  "// Source of truth:  targets/os2api.def".toList, [], "use super::constants::*;".toList, [],
  "/// Map a warpine flat ordinal to its OS/2 API name.".toList, "///".toList,
  "/// Returns `\"?\"` for unknown ordinals.".toList,
  "pub fn ordinal_to_name(ordinal: u32) -> &'static str \x7b".toList,
  "    match ordinal \x7b".toList]

def conditionLine (module : Text) : Text :=
  if module = "DOSCALLS".toList then
    "    if ordinal < ".toList ++ upperConst module ++ " \x7b ".toList ++ debugText escape module ++
      " \x7d".toList
  else if module = "UCONV".toList then
    "    else if ordinal < STUB_AREA_SIZE \x7b ".toList ++ debugText escape module ++ " \x7d".toList
  else
    "    else if ordinal < ".toList ++ upperConst module ++ " \x7b ".toList ++
      debugText escape module ++ " \x7d   // ".toList ++ baseConst module ++ "–".toList ++
      upperConst module ++ "−1".toList

def moduleFunction : List Text :=
  ["/// Map a flat warpine ordinal to the OS/2 DLL that owns it.".toList,
    "pub fn module_for_ordinal(ordinal: u32) -> &'static str \x7b".toList] ++
  modules.map (fun module => conditionLine escape module.1) ++
  ["    else \x7b \"?\" \x7d".toList, "\x7d".toList]

def genTraceLines (entries : List OrdEntry) : List Text :=
  preamble ++ (traceItems entries).flatMap (Item.lines escape) ++
    ["        _ => \"?\",".toList, "    \x7d".toList, "\x7d".toList, []] ++ moduleFunction escape

def genTrace (entries : List OrdEntry) : Text := unlines (genTraceLines escape entries)

end Text

end Generator

section Check

inductive CheckError where
  | duplicate (e : OrdEntry) (prevLine : Nat)
  | overflow (e : OrdEntry) (upper : Nat)
deriving DecidableEq

def duplicates (seen : Table (Text × Nat) Nat) : List OrdEntry → List CheckError
  | [] => []
  | e :: rest =>
      match seen (e.module, e.localOrdinal) with
      | some prevLine => .duplicate e prevLine :: duplicates seen rest
      | none => duplicates (seen.insert (e.module, e.localOrdinal) e.line) rest

def overflows (entries : List OrdEntry) : List CheckError :=
  (entries.filter fun e => moduleUpper e.module ≤ e.flatOrdinal).map fun e =>
    .overflow e (moduleUpper e.module)

/-- What makes the check fail. -/
def checkErrors (entries : List OrdEntry) : List CheckError :=
  duplicates .empty entries ++ overflows entries

variable {entries : List OrdEntry}

theorem duplicates_eq_nil {seen : Table (Text × Nat) Nat} :
    duplicates seen entries = [] ↔ (∀ e ∈ entries, seen (e.module, e.localOrdinal) = none) ∧
      (entries.map fun e => (e.module, e.localOrdinal)).Nodup := by
  induction entries generalizing seen with
  | nil => simp [duplicates]
  | cons e rest ih =>
    rw [List.map_cons, List.nodup_cons, List.forall_mem_cons, duplicates]
    cases here : seen (e.module, e.localOrdinal) with
    | some prevLine => simp
    | none =>
      simp only [true_and]
      rw [ih]
      constructor
      · rintro ⟨unseen, nodup⟩
        refine ⟨fun other member => ?_, ?_, nodup⟩
        · have known := unseen other member
          by_cases same : (other.module, other.localOrdinal) = (e.module, e.localOrdinal)
          · rw [same, Table.insert_self] at known
            cases known
          · rwa [Table.insert_ne _ _ same] at known
        · intro member
          obtain ⟨other, inside, same⟩ := List.mem_map.mp member
          have known := unseen other inside
          rw [same, Table.insert_self] at known
          cases known
      · rintro ⟨unseen, fresh, nodup⟩
        refine ⟨fun other member => ?_, nodup⟩
        have apart : (other.module, other.localOrdinal) ≠ (e.module, e.localOrdinal) := fun same =>
          fresh (same ▸ List.mem_map_of_mem (f := fun e => (e.module, e.localOrdinal)) member)
        rw [Table.insert_ne _ _ apart]
        exact unseen other member

theorem overflows_eq_nil :
    overflows entries = [] ↔ ∀ e ∈ entries, e.flatOrdinal < moduleUpper e.module := by
  simp [overflows]

theorem checkErrors_eq_nil : checkErrors entries = [] ↔
    (entries.map fun e => (e.module, e.localOrdinal)).Nodup ∧
      ∀ e ∈ entries, e.flatOrdinal < moduleUpper e.module := by
  rw [checkErrors, List.append_eq_nil_iff, duplicates_eq_nil, overflows_eq_nil]
  simp

end Check

section Meaning

/-- The values of the constants in the source. -/
def constants : List (Text × Nat) := [
  ("0".toList, 0), ("1024".toList, 1024), ("PMWIN_BASE".toList, Loader.pmwinBase),
  ("PMGPI_BASE".toList, Loader.pmgpiBase), ("KBDCALLS_BASE".toList, Loader.kbdcallsBase),
  ("VIOCALLS_BASE".toList, Loader.viocallsBase), ("SESMGR_BASE".toList, Loader.sesmgrBase),
  ("NLS_BASE".toList, Loader.nlsBase), ("MSG_BASE".toList, Loader.msgBase),
  ("MDM_BASE".toList, Loader.mdmBase), ("UCONV_BASE".toList, Loader.uconvBase),
  ("SO32DLL_BASE".toList, Loader.so32dllBase), ("TCP32DLL_BASE".toList, Loader.tcp32dllBase),
  ("STUB_AREA_SIZE".toList, Loader.stubAreaSize)]

def valueOf (constant : Text) : Nat :=
  ((constants.find? fun entry => entry.1 = constant).map Prod.snd).getD 0

/-- What an arm of the match gives, if it is taken. -/
def Arm.result (ordinal : Nat) : Arm → Option Text
  | .literal number name => if ordinal = number then some name else none
  | .range base upper arms =>
      if valueOf base ≤ ordinal ∧ ordinal < valueOf upper then
        some (((arms.find? fun arm => arm.1 = ordinal - valueOf base).map Prod.snd).getD "?".toList)
      else none

def Item.result (ordinal : Nat) : Item → Option Text
  | .arm body => body.result ordinal
  | _ => none

/-- The match that was generated, by its first arm that is taken. -/
def ordinalToName (items : List Item) (ordinal : Nat) : Text :=
  (items.findSome? (Item.result ordinal)).getD "?".toList

/-- The chain of conditions that was generated. -/
def moduleForOrdinal (ordinal : Nat) : Text :=
  ((moduleConditions.find? fun condition => ordinal < valueOf condition.1).map Prod.snd).getD
    "?".toList

end Meaning

section Windows

variable {entry other : Text × Nat} {e : OrdEntry} {ordinal base : Nat} {module : Text}

theorem moduleBase_of_mem (member : entry ∈ modules) : moduleBase entry.1 = some entry.2 := by
  revert entry
  decide

theorem valueOf_baseConst (member : entry ∈ modules) : valueOf (baseConst entry.1) = entry.2 := by
  revert entry
  decide

theorem valueOf_upperConst (member : entry ∈ modules) :
    valueOf (upperConst entry.1) = moduleUpper entry.1 := by
  revert entry
  decide

theorem windows_apart (one : entry ∈ modules) (two : other ∈ modules) (apart : entry ≠ other) :
    moduleUpper entry.1 ≤ other.2 ∨ moduleUpper other.1 ≤ entry.2 := by
  have all : ∀ entry ∈ modules, ∀ other ∈ modules, entry ≠ other →
      moduleUpper entry.1 ≤ other.2 ∨ moduleUpper other.1 ≤ entry.2 := by decide
  exact all entry one other two apart

theorem exists_entry (inside : ordinal < stubAreaSize) :
    ∃ entry ∈ modules, entry.2 ≤ ordinal ∧ ordinal < moduleUpper entry.1 := by
  have uppers : modules.map (fun entry => (entry.2, moduleUpper entry.1)) =
      [(0, 1024), (1024, 2048), (2048, 3072), (3072, 4096), (4096, 5120), (5120, 6144),
        (6144, 7168), (7168, 8192), (8192, 10240), (10240, 12288), (12288, 13312),
        (13312, 14336), (14336, 16384)] := by decide
  have some_ : ∃ window ∈ modules.map (fun entry => (entry.2, moduleUpper entry.1)),
      window.1 ≤ ordinal ∧ ordinal < window.2 := by
    rw [uppers]
    unfold stubAreaSize at inside
    simp only [List.mem_cons, List.not_mem_nil, or_false, exists_eq_or_imp, exists_eq_left]
    omega
  obtain ⟨window, member, low, high⟩ := some_
  obtain ⟨entry, here, rfl⟩ := List.mem_map.mp member
  exact ⟨entry, here, low, high⟩

theorem upper_le (member : entry ∈ modules) : moduleUpper entry.1 ≤ stubAreaSize := by
  revert entry
  decide

/-- An entry that does not leave its module's window. -/
structure OrdEntry.Fits (e : OrdEntry) : Prop where
  valid : e.Valid
  below : e.flatOrdinal < moduleUpper e.module

theorem OrdEntry.Valid.flat (valid : e.Valid) (known : moduleBase e.module = some base) :
    e.flatOrdinal = base + e.localOrdinal := by
  obtain ⟨other, found, sum⟩ := valid.base
  cases known.symm.trans found
  unfold addWord at sum
  obtain ⟨-, same⟩ := Option.ite_none_right_eq_some.mp sum
  exact (Option.some.inj same).symm

theorem OrdEntry.Fits.window (fits : e.Fits) :
    ∃ entry ∈ modules, entry.1 = e.module ∧ entry.2 ≤ e.flatOrdinal ∧
      e.flatOrdinal < moduleUpper entry.1 ∧ e.flatOrdinal = entry.2 + e.localOrdinal := by
  obtain ⟨base, known, -⟩ := fits.valid.base
  have flat := fits.valid.flat known
  exact ⟨(e.module, base), mem_of_moduleBase known, rfl, flat ▸ Nat.le_add_right _ _, fits.below,
    flat⟩

end Windows

section Blocks

variable {entries group : List OrdEntry} {entry : Text × Nat} {ordinal : Nat}

/-- What a block of the match gives: for `DOSCALLS` its own ordinals only. -/
theorem moduleItems_result (group : List OrdEntry) (module : Text) (ordinal : Nat) :
    (moduleItems module group).findSome? (Item.result ordinal) =
      if module = "DOSCALLS".toList then
        (group.find? fun e => ordinal = e.flatOrdinal).map OrdEntry.name
      else if group = [] then none
      else (Arm.range (baseConst module) (upperConst module)
        (group.map fun e => (e.localOrdinal, e.name))).result ordinal := by
  have literals : ∀ group : List OrdEntry,
      ((group.map fun e => Item.arm (.literal e.flatOrdinal e.name)) ++ [Item.blank]).findSome?
          (Item.result ordinal) =
        (group.find? fun e => ordinal = e.flatOrdinal).map OrdEntry.name := by
    intro group
    induction group with
    | nil => rfl
    | cons e rest ih =>
      rw [List.map_cons, List.cons_append, List.findSome?_cons, List.find?_cons]
      by_cases same : ordinal = e.flatOrdinal
      · rw [Item.result, Arm.result, if_pos same, decide_eq_true same]
        rfl
      · rw [Item.result, Arm.result, if_neg same, decide_eq_false same]
        exact ih
  unfold moduleItems
  split
  · rename_i empty
    rw [empty]
    split <;> rfl
  · have comment : (Item.result ordinal (.comment module)).isNone := rfl
    rw [List.cons_append, List.findSome?_cons_of_isNone comment]
    by_cases first : module = "DOSCALLS".toList
    · rw [if_pos first, if_pos first]
      exact literals group
    · rw [if_neg first, if_neg first, List.singleton_append, List.findSome?_cons, Item.result]
      cases (Arm.range _ _ _).result ordinal <;> rfl

section Window

variable (member : entry ∈ modules) (own : ∀ e ∈ group, e.module = entry.1 ∧ e.Fits)
include member own

theorem flat_of_own {e : OrdEntry} (inside : e ∈ group) : entry.2 ≤ e.flatOrdinal ∧
    e.flatOrdinal < moduleUpper entry.1 ∧ e.flatOrdinal = entry.2 + e.localOrdinal := by
  obtain ⟨same, fits⟩ := own e inside
  have flat := fits.valid.flat (same ▸ moduleBase_of_mem member)
  exact ⟨flat ▸ Nat.le_add_right _ _, same ▸ fits.below, flat⟩

/-- Outside its window a module gives nothing. -/
theorem moduleItems_outside (outside : ¬(entry.2 ≤ ordinal ∧ ordinal < moduleUpper entry.1)) :
    (moduleItems entry.1 group).findSome? (Item.result ordinal) = none := by
  rw [moduleItems_result]
  split
  · rw [Option.map_eq_none_iff, List.find?_eq_none]
    intro e inside same
    have same : ordinal = e.flatOrdinal := by simpa using same
    obtain ⟨low, high, -⟩ := flat_of_own member own inside
    exact outside (same ▸ ⟨low, high⟩)
  · split
    · rfl
    · rw [Arm.result, valueOf_baseConst member, valueOf_upperConst member, if_neg outside]

/-- Inside its window it gives the name of the first entry with that ordinal. -/
theorem moduleItems_inside (inside : entry.2 ≤ ordinal ∧ ordinal < moduleUpper entry.1) :
    ((moduleItems entry.1 group).findSome? (Item.result ordinal)).getD "?".toList =
      ((group.find? fun e => e.flatOrdinal = ordinal).map OrdEntry.name).getD "?".toList := by
  rw [moduleItems_result]
  split
  · simp only [eq_comm]
  · split
    · rename_i empty
      rw [empty]
      rfl
    · rw [Arm.result, valueOf_baseConst member, valueOf_upperConst member, if_pos inside,
        Option.getD_some, List.find?_map, Option.map_map]
      congr 2
      refine List.find?_congr fun e here => ?_
      obtain ⟨-, -, flat⟩ := flat_of_own member own here
      simp only [Function.comp_apply, flat, decide_eq_decide]
      omega

end Window

theorem findSome?_flatMap {α β γ : Type} {f : β → Option γ} {g : α → List β} {list : List α} :
    (list.flatMap g).findSome? f = list.findSome? fun a => (g a).findSome? f := by
  induction list with
  | nil => rfl
  | cons a rest ih =>
    rw [List.flatMap_cons, List.findSome?_append, List.findSome?_cons, ih]
    cases (g a).findSome? f <;> rfl

theorem findSome?_of_only {α β : Type} {f : α → Option β} {list : List α} {a : α}
    (member : a ∈ list) (only : ∀ b ∈ list, b ≠ a → f b = none) :
    list.findSome? f = f a := by
  induction list with
  | nil => cases member
  | cons b rest ih =>
    rw [List.findSome?_cons]
    by_cases same : b = a
    · rw [same]
      cases here : f a with
      | some found => rfl
      | none =>
        refine List.findSome?_eq_none_iff.mpr fun c inside => ?_
        by_cases again : c = a
        · exact again ▸ here
        · exact only c (List.mem_cons_of_mem _ inside) again
    · rw [only b List.mem_cons_self same]
      exact ih ((List.mem_cons.mp member).resolve_left (Ne.symm same))
        fun c inside => only c (List.mem_cons_of_mem _ inside)

theorem own_ofModule (fits : ∀ e ∈ entries, e.Fits) (module : Text) :
    ∀ e ∈ ofModule module entries, e.module = module ∧ e.Fits := fun e inside =>
  ⟨of_decide_eq_true (List.mem_filter.mp inside).2, fits e (List.mem_filter.mp inside).1⟩

theorem ordinalToName_traceItems (fits : ∀ e ∈ entries, e.Fits) (ordinal : Nat) :
    ordinalToName (traceItems entries) ordinal =
      ((entries.find? fun e => e.flatOrdinal = ordinal).map OrdEntry.name).getD "?".toList := by
  have own := own_ofModule fits
  rw [ordinalToName, traceItems, findSome?_flatMap]
  by_cases inside : ordinal < stubAreaSize
  · obtain ⟨entry, member, low, high⟩ := exists_entry inside
    rw [findSome?_of_only member fun other there apart => moduleItems_outside there (own other.1) ?_,
      moduleItems_inside member (own entry.1) ⟨low, high⟩, ofModule, List.find?_filter]
    · congr 2
      refine List.find?_congr fun e here => ?_
      by_cases same : e.flatOrdinal = ordinal
      · obtain ⟨other, there, name, least, most, -⟩ := (fits e here).window
        have unique : other = entry := by
          by_contra apart
          rcases windows_apart there member apart with before | after <;> omega
        simp [same, ← name, unique]
      · simp [same]
    · rintro ⟨least, most⟩
      rcases windows_apart there member apart with before | after <;> omega
  · have none_ : entries.find? (fun e => e.flatOrdinal = ordinal) = none := by
      rw [List.find?_eq_none]
      intro e here same
      have same : e.flatOrdinal = ordinal := by simpa using same
      obtain ⟨other, there, -, -, most, -⟩ := (fits e here).window
      have bound := upper_le there
      omega
    rw [none_]
    refine congrArg (fun found => Option.getD found _) (List.findSome?_eq_none_iff.mpr ?_)
    intro entry member
    refine moduleItems_outside member (own entry.1) ?_
    have bound := upper_le member
    omega

section Checked

variable {content : Text} {e : OrdEntry}

theorem fits_of_checked (h : (parseDef content).run = some (.ok entries))
    (checked : checkErrors entries = []) : ∀ e ∈ entries, e.Fits := fun e member =>
  ⟨valid_of_parseLines h e member, (checkErrors_eq_nil.mp checked).2 e member⟩

theorem entry_unique {one two : Text × Nat} (first : one ∈ modules) (second : two ∈ modules)
    (here : one.2 ≤ ordinal ∧ ordinal < moduleUpper one.1)
    (there : two.2 ≤ ordinal ∧ ordinal < moduleUpper two.1) : one = two := by
  by_contra apart
  rcases windows_apart first second apart with before | after <;> omega

/-- No two entries that pass the check have one flat ordinal. -/
theorem flat_injective (fits : ∀ e ∈ entries, e.Fits) (checked : checkErrors entries = [])
    {one two : OrdEntry} (first : one ∈ entries) (second : two ∈ entries)
    (same : one.flatOrdinal = two.flatOrdinal) : one = two := by
  obtain ⟨left, here, module, low, high, flat⟩ := (fits one first).window
  obtain ⟨right, there, other, least, most, sum⟩ := (fits two second).window
  have equal : left = right := entry_unique here there ⟨low, high⟩ ⟨same ▸ least, same ▸ most⟩
  refine List.inj_on_of_nodup_map (checkErrors_eq_nil.mp checked).1 first second ?_
  rw [Prod.mk.injEq]
  refine ⟨module.symm.trans (equal ▸ other), ?_⟩
  rw [flat, sum, equal] at same
  exact Nat.add_left_cancel same

theorem find?_flat (fits : ∀ e ∈ entries, e.Fits) (checked : checkErrors entries = [])
    (member : e ∈ entries) :
    entries.find? (fun other => other.flatOrdinal = e.flatOrdinal) = some e := by
  cases found : entries.find? fun other => other.flatOrdinal = e.flatOrdinal with
  | none =>
    have none_ := List.find?_eq_none.mp found e member
    rw [decide_eq_true_iff] at none_
    exact absurd rfl none_
  | some other =>
    have same : other.flatOrdinal = e.flatOrdinal := by simpa using List.find?_some found
    rw [flat_injective fits checked (List.mem_of_find?_eq_some found) member same]

/-- No condition parts a window, so that all its ordinals have one module. -/
theorem moduleForOrdinal_start {entry : Text × Nat} (member : entry ∈ modules)
    (low : entry.2 ≤ ordinal) (high : ordinal < moduleUpper entry.1) :
    moduleForOrdinal ordinal = moduleForOrdinal entry.2 := by
  have whole : ∀ entry ∈ modules, ∀ condition ∈ moduleConditions,
      valueOf condition.1 ≤ entry.2 ∨ moduleUpper entry.1 ≤ valueOf condition.1 := by decide
  have same : moduleConditions.find? (fun condition => ordinal < valueOf condition.1) =
      moduleConditions.find? fun condition => entry.2 < valueOf condition.1 := by
    refine List.find?_congr fun condition here => ?_
    rw [decide_eq_decide]
    rcases whole entry member condition here with below | above <;> omega
  rw [moduleForOrdinal, moduleForOrdinal, same]

/-- The condition of `UCONV` takes the two windows above it. -/
theorem moduleForOrdinal_window {entry : Text × Nat} (member : entry ∈ modules)
    (low : entry.2 ≤ ordinal) (high : ordinal < moduleUpper entry.1) :
    moduleForOrdinal ordinal = entry.1 ↔
      entry.1 ≠ "SO32DLL".toList ∧ entry.1 ≠ "TCP32DLL".toList := by
  rw [moduleForOrdinal_start member low high]
  clear low high
  revert entry
  decide

end Checked

/-- Of a table that passes the check, the first generated function gives each ordinal its name and
no other one any, and the second gives it its module, unless that is behind `UCONV`. -/
theorem genTrace_means {content : Text} (h : (parseDef content).run = some (.ok entries))
    (checked : checkErrors entries = []) :
    (∀ e ∈ entries, ordinalToName (traceItems entries) e.flatOrdinal = e.name ∧
      (moduleForOrdinal e.flatOrdinal = e.module ↔
        e.module ≠ "SO32DLL".toList ∧ e.module ≠ "TCP32DLL".toList)) ∧
      ∀ ordinal, (∀ e ∈ entries, e.flatOrdinal ≠ ordinal) →
        ordinalToName (traceItems entries) ordinal = "?".toList := by
  have fits := fits_of_checked h checked
  refine ⟨fun e member => ⟨?_, ?_⟩, fun ordinal unknown => ?_⟩
  · rw [ordinalToName_traceItems fits, find?_flat fits checked member]
    rfl
  · obtain ⟨entry, known, name, low, high, -⟩ := (fits e member).window
    rw [← name]
    exact moduleForOrdinal_window known low high
  · have none_ : entries.find? (fun e => e.flatOrdinal = ordinal) = none := by
      rw [List.find?_eq_none]
      exact fun e member same => unknown e member (of_decide_eq_true same)
    rw [ordinalToName_traceItems fits, none_]
    rfl

/-- A table of three modules. -/
theorem genTrace_means_three :
    let entries : List OrdEntry := [⟨"NLS".toList, 5, 7173, "NlsQueryCp".toList, 1⟩,
      ⟨"DOSCALLS".toList, 234, 234, "DosExit".toList, 2⟩,
      ⟨"SO32DLL".toList, 1, 13313, "ACCEPT".toList, 3⟩]
    (parseDef "NLS.5 NlsQueryCp\nDOSCALLS.234 DosExit\nSO32DLL.1 ACCEPT".toList).run =
        some (.ok entries) ∧ checkErrors entries = [] ∧
      ordinalToName (traceItems entries) 7173 = "NlsQueryCp".toList := by
  intro entries
  have read : (parseDef "NLS.5 NlsQueryCp\nDOSCALLS.234 DosExit\nSO32DLL.1 ACCEPT".toList).run =
      some (.ok entries) := by decide
  have checked : checkErrors entries = [] := by decide
  exact ⟨read, checked, ((genTrace_means read checked).1 _ List.mem_cons_self).1⟩

end Blocks

end Warpine.Api
