import Warpine.Lib.Fields
import Warpine.Vcpu.NeStart
import Warpine.Vcpu.StartLayout

/-! The arguments of a program on their way from `DosExecPgm` to the child: out of the
parent's memory, over the host's argument vector and `main`, into the block that the child
finds at `pib_pchcmd`. -/
namespace Warpine.Vcpu
open Warpine.Lib Warpine.Guest Warpine.Lx Warpine.Ne Warpine.Loader Attempt Posix

section Parent

/-- `byte as char`. -/
def charOf (byte : UInt8) : Char := Char.ofNat byte.toNat

/-- `char::is_whitespace` on the characters that a byte can stand for. -/
def isWhitespace (c : Char) : Bool :=
  (9 ≤ c.toNat && c.toNat ≤ 13) || c.toNat ∈ [0x20, 0x85, 0xA0]

/-- At most `fuel` bytes; a string that has not ended by then is left out. -/
def stringsFrom (byteAt : Nat → UInt8) : Nat → Nat → List Char → List (List Char)
  | 0, _, _ => []
  | fuel + 1, offset, current =>
      if byteAt offset = 0 then
        if current = [] then [] else current :: stringsFrom byteAt fuel (offset + 1) []
      else stringsFrom byteAt fuel (offset + 1) (current ++ [charOf (byteAt offset)])

def maxArgBytes : Nat := 4096

def byteAt (mem : GuestMemory) (ptr offset : Nat) : UInt8 :=
  UInt8.ofNat ((mem.read 1 (wrapAdd ptr offset)).getD 0)

def parseDoubleNullString (mem : GuestMemory) (ptr : Nat) : List (List Char) :=
  stringsFrom (byteAt mem ptr) maxArgBytes 0 []

/-- The words of the second string; the first is the program name. -/
def argWords (mem : GuestMemory) (pArg : Nat) : List (List Char) :=
  let args := if pArg ≠ 0 then parseDoubleNullString mem pArg else []
  if 1 < args.length then fields isWhitespace (args.getD 1 []) else []

def isShell (base : List Char) : Bool :=
  base.map Char.toUpper ∈ ["CMD.EXE".toList, "OS2SHELL.EXE".toList]

/-- Resolved paths start at the root of the host. -/
def pathText (path : HostPath) : List Char :=
  if path = [] then ['/'] else path.flatMap fun name => '/' :: name

inductive Exec where
  | builtinShell
  | fileNotFound
  | spawned (args : List (List Char))
deriving DecidableEq

/-- The command that `DosExecPgm` runs beside its own executable. The host takes no
argument that has a null character. -/
def dosExecPgm (mem : GuestMemory) (resolve : List Char → Option HostPath) (progName : List Char)
    (pArg : Nat) : Exec :=
  if isShell ((progName.splitOnP fun c => c = '\\' || c = '/').getLastD progName) then
    .builtinShell
  else match resolve progName with
    | none => .fileNotFound
    | some path =>
        let args := pathText path :: argWords mem pArg
        if args.all fun arg => decide ('\x00' ∉ arg) then .spawned args else .fileNotFound

end Parent

section Child

def compatOption : List Char := "--compat".toList
def gdbOption : List Char := "--gdb".toList

/-- `str::parse::<u16>`. -/
def parsePort (text : List Char) : Option Nat :=
  let digits := if text.head? = some '+' then text.tail else text
  let value := digits.foldl (fun value c => value * 10 + (c.toNat - '0'.toNat)) 0
  if digits ≠ [] ∧ digits.all Char.isDigit ∧ value < u16Size then some value else none

/-- The port of the last `--gdb` and the other arguments; an option without a port ends
the process. -/
def scanArgs : List (List Char) → Option (Option Nat × List (List Char))
  | [] => some (none, [])
  | arg :: rest =>
      if arg = gdbOption then
        match rest with
        | [] => none
        | port :: later => do
            let number ← parsePort port
            let (last, remaining) ← scanArgs later
            return (last <|> some number, remaining)
      else do
        let (port, remaining) ← scanArgs rest
        return (port, arg :: remaining)

inductive Launch where
  | usage
  | compatReport
  | badOption
  | shell (args : List (List Char))
  | run (filePath : List Char) (gdbPort : Option Nat)

/-- The process by its arguments, the name of its own executable left out. -/
def main (args : List (List Char)) : Launch :=
  match args with
  | [] => .usage
  | first :: _ =>
      if first = compatOption then .compatReport
      else match scanArgs args with
        | none => .badOption
        | some (_, []) => .usage
        | some (port, filePath :: rest) =>
            if isShell ((fileName (components filePath)).getD filePath) then .shell rest
            else .run filePath port

inductive Executable where
  | lx (file : LxFile)
  | ne (file : NeFile)

/-- The executable is parsed and loaded into a new loader. -/
def Executable.Loads (host : Platform) (fuel : Nat) (data : List UInt8) (rows cols : UInt16)
    (s : SharedState) : Executable → Prop
  | .lx file => LxFile.parse data = .ok file ∧
      (load host.seekLimit data file (newLoader rows cols)).Returns s
  | .ne file => NeFile.parse data = some (.ok file) ∧
      (loadNe fuel host.seekLimit data file (newLoader rows cols)).Returns s

/-- The name of the executable is kept for one of the formats. -/
def Executable.exeName (filePath : List Char) : Executable → List Char
  | .lx _ => filePath
  | .ne _ => []

def Executable.setUp (uppercase : List Char → List Char) (filePath : List Char) (s : SharedState) :
    Executable → Option SharedState
  | .lx file => (setupGuest uppercase file { s with exeName := filePath }).map Prod.snd
  | .ne file => (setupGuestNe uppercase file s).map Prod.snd

def Executable.environment : Executable → List UInt8
  | .lx _ => environmentBytes
  | .ne _ => neEnvironmentBytes

/-- The environment block with the program name at its end. -/
def Executable.block (uppercase : List Char → List Char) (filePath : List Char)
    (exe : Executable) : List UInt8 :=
  exe.environment ++ (os2Exe uppercase (exe.exeName filePath)).flatMap Utf8.encodeChar ++ [0]

end Child

section Strings

variable {bytes : Nat → UInt8} {fuel offset : Nat} {current : List Char} {text : List UInt8}

/-- Bytes that are not null are gathered. -/
theorem stringsFrom_text (nonzero : (0 : UInt8) ∉ text)
    (there : ∀ i (h : i < text.length), bytes (offset + i) = text[i]) :
    stringsFrom bytes (text.length + fuel) offset current =
      stringsFrom bytes fuel (offset + text.length) (current ++ text.map charOf) := by
  induction text generalizing offset current with
  | nil => simp
  | cons byte rest ih =>
    have first : bytes offset = byte := there 0 (Nat.succ_pos _)
    have later : ∀ i (h : i < rest.length), bytes (offset + 1 + i) = rest[i] := by
      intro i h
      have := there (i + 1) (Nat.succ_lt_succ h)
      rwa [Nat.add_assoc, Nat.add_comm 1 i]
    have differs : byte ≠ 0 := fun heq => nonzero (heq ▸ List.mem_cons_self)
    rw [List.length_cons, Nat.add_right_comm, stringsFrom, first, if_neg differs,
      ih (fun member => nonzero (List.mem_cons_of_mem _ member)) later]
    simp only [List.map_cons, List.append_assoc, List.singleton_append, Nat.add_assoc,
      Nat.add_comm 1]

/-- A string that is too long is dropped. -/
theorem stringsFrom_short (nonzero : (0 : UInt8) ∉ text) (short : fuel ≤ text.length)
    (there : ∀ i (h : i < text.length), bytes (offset + i) = text[i]) :
    stringsFrom bytes fuel offset current = [] := by
  have part : (0 : UInt8) ∉ text.take fuel := fun member => nonzero (List.mem_of_mem_take member)
  have length : (text.take fuel).length = fuel := by
    rw [List.length_take]
    omega
  have gathered := @stringsFrom_text bytes 0 offset current _ part (by
    intro i h
    rw [List.getElem_take]
    exact there i (by omega))
  rw [length, Nat.add_zero] at gathered
  rw [gathered, stringsFrom]

/-- The name and the arguments, as the parent wrote them down. -/
def doubleNul (name arguments : List UInt8) : List UInt8 :=
  name ++ ([0] ++ ((if arguments = [] then [] else arguments ++ [0]) ++ [0]))

/-- The parent's argument string. A null pointer stands for no arguments. -/
structure ArgString (mem : GuestMemory) (pArg : Nat) (name arguments : List UInt8) : Prop where
  size : mem.size = guestMemSize
  name_nonzero : (0 : UInt8) ∉ name
  arguments_nonzero : (0 : UInt8) ∉ arguments
  given : if pArg = 0 then arguments = []
    else mem.slice pArg (doubleNul name arguments).length = some (doubleNul name arguments)

/-- The arguments that reach the host's argument vector: those of a string that fits and
has a name. -/
def Passed (name arguments : List UInt8) : Prop :=
  name ≠ [] ∧ name.length + arguments.length + 2 ≤ maxArgBytes

instance (name arguments : List UInt8) : Decidable (Passed name arguments) :=
  inferInstanceAs (Decidable (_ ∧ _))

theorem byteAt_slice {mem : GuestMemory} {ptr : Nat} (size : mem.size = guestMemSize)
    (there : mem.slice (ptr + offset) text.length = some text) (i : Nat) (h : i < text.length) :
    byteAt mem ptr (offset + i) = text[i] := by
  have fits : ptr + offset + text.length ≤ guestMemSize := by
    unfold GuestMemory.slice GuestMemory.inBounds at there
    rw [size] at there
    split at there
    · rename_i inside
      exact of_decide_eq_true inside
    · contradiction
  have place : wrapAdd ptr (offset + i) = ptr + offset + i := by
    rw [wrapAdd_of_lt (by unfold guestMemSize at fits; unfold u32Size; omega)]
    omega
  have one := mem.slice_part there (show i + 1 ≤ text.length by omega)
  have item : (text.drop i).take 1 = [text[i]] := by
    rw [List.drop_eq_getElem_cons h]
    rfl
  unfold byteAt
  rw [place, GuestMemory.read, one, item]
  simp [leValue]

theorem stringsFrom_null (null : bytes offset = 0) :
    stringsFrom bytes (fuel + 1) offset current =
      if current = [] then [] else current :: stringsFrom bytes fuel (offset + 1) [] := by
  rw [stringsFrom, if_pos null]

/-- A whole string with its null byte, where there is room for both. -/
theorem stringsFrom_string (nonzero : (0 : UInt8) ∉ text) (some : text ≠ [])
    (room : text.length + 1 ≤ fuel)
    (there : ∀ i (h : i < text.length), bytes (offset + i) = text[i])
    (null : bytes (offset + text.length) = 0) :
    stringsFrom bytes fuel offset [] = text.map charOf ::
      stringsFrom bytes (fuel - (text.length + 1)) (offset + (text.length + 1)) [] := by
  have split : fuel = text.length + (fuel - (text.length + 1) + 1) := by omega
  have current : text.map charOf ≠ [] := fun heq => some (List.map_eq_nil_iff.mp heq)
  rw [split, stringsFrom_text nonzero there, stringsFrom_null null, List.nil_append,
    if_neg current, ← split, Nat.add_assoc]

theorem byteAt_null {mem : GuestMemory} {ptr : Nat} (size : mem.size = guestMemSize)
    (there : mem.slice (ptr + offset) 1 = some [0]) : byteAt mem ptr offset = 0 :=
  @byteAt_slice offset [0] mem ptr size there 0 Nat.one_pos

/-- The strings of a pointer that is not null. -/
theorem parse_doubleNul {mem : GuestMemory} {ptr : Nat} {name arguments : List UInt8}
    (size : mem.size = guestMemSize) (hname : (0 : UInt8) ∉ name) (harg : (0 : UInt8) ∉ arguments)
    (written : mem.slice ptr (doubleNul name arguments).length = some (doubleNul name arguments)) :
    (name = [] → parseDoubleNullString mem ptr = []) ∧
    (name ≠ [] → name.length + 1 ≤ maxArgBytes → parseDoubleNullString mem ptr =
      name.map charOf ::
        if arguments ≠ [] ∧ name.length + arguments.length + 2 ≤ maxArgBytes then
          arguments.map charOf :: stringsFrom (byteAt mem ptr)
            (maxArgBytes - (name.length + arguments.length + 2))
            (name.length + arguments.length + 2) []
        else []) ∧
    (maxArgBytes < name.length + 1 → parseDoubleNullString mem ptr = []) := by
  unfold doubleNul at written
  obtain ⟨atName, rest⟩ := mem.slice_append.mp written
  obtain ⟨atNull, rest⟩ := mem.slice_append.mp rest
  have nameBytes := @byteAt_slice 0 name mem ptr size atName
  have nameEnd : byteAt mem ptr (0 + name.length) = 0 :=
    byteAt_null size (by rw [Nat.zero_add]; exact atNull)
  refine ⟨?_, ?_, ?_⟩
  · intro unnamed
    rw [unnamed] at nameEnd
    exact stringsFrom_null nameEnd
  · intro named room
    unfold parseDoubleNullString
    rw [stringsFrom_string hname named room nameBytes nameEnd, Nat.zero_add]
    refine congrArg (List.cons _) ?_
    by_cases none : arguments = []
    · rw [if_neg (fun both => both.1 none)]
      rw [if_pos none] at rest
      have twice : byteAt mem ptr (name.length + 1) = 0 := byteAt_null size rest
      cases maxArgBytes - (name.length + 1) with
      | zero => rfl
      | succ fuel => exact stringsFrom_null twice
    · rw [if_neg none] at rest
      obtain ⟨inside, _⟩ := mem.slice_append.mp rest
      obtain ⟨atArguments, atEnd⟩ := mem.slice_append.mp inside
      have bytes := @byteAt_slice (name.length + 1) arguments mem ptr size atArguments
      have place : ptr + (name.length + 1 + arguments.length) =
          ptr + name.length + 1 + arguments.length := by omega
      have null : byteAt mem ptr (name.length + 1 + arguments.length) = 0 :=
        byteAt_null size (place ▸ atEnd)
      by_cases fits : name.length + arguments.length + 2 ≤ maxArgBytes
      · have sum : name.length + 1 + (arguments.length + 1) = name.length + arguments.length + 2 := by
          omega
        rw [if_pos ⟨none, fits⟩, stringsFrom_string harg none (by omega) bytes null, Nat.sub_sub, sum]
      · rw [if_neg (fun both => fits both.2)]
        exact stringsFrom_short harg (by omega) bytes
  · intro long
    exact stringsFrom_short hname (by omega) nameBytes

/-- The words that the command gets are those of the arguments, or none. -/
theorem argWords_eq {mem : GuestMemory} {pArg : Nat} {name arguments : List UInt8}
    (given : ArgString mem pArg name arguments) :
    argWords mem pArg =
      if Passed name arguments then fields isWhitespace (arguments.map charOf) else [] := by
  have written := given.given
  by_cases null : pArg = 0
  · rw [if_pos null] at written
    simp [argWords, null, written]
  · rw [if_neg null] at written
    obtain ⟨unnamed, named, long⟩ :=
      parse_doubleNul given.size given.name_nonzero given.arguments_nonzero written
    simp only [argWords, ne_eq, null, not_false_eq_true, if_true, Passed]
    by_cases empty : name = []
    · simp [unnamed empty, empty]
    · by_cases room : name.length + 1 ≤ maxArgBytes
      · rw [named empty room]
        by_cases fits : name.length + arguments.length + 2 ≤ maxArgBytes
        · by_cases none : arguments = []
          · simp [none]
          · simp [empty, fits, none]
        · simp [fits]
      · have unfit : ¬name.length + arguments.length + 2 ≤ maxArgBytes := by omega
        simp [long (by omega), unfit]

end Strings

section Options

variable {args rest remaining : List (List Char)} {arg filePath : List Char} {port : Option Nat}

theorem scanArgs_other (other : arg ≠ gdbOption) : scanArgs (arg :: rest) = some (port, remaining) ↔
    ∃ later, scanArgs rest = some (port, later) ∧ remaining = arg :: later := by
  rw [scanArgs.eq_def]
  simp only [other, if_false, Option.bind_eq_bind, Option.bind_eq_some_iff, Option.pure_def,
    Option.some.injEq, Prod.exists, Prod.mk.injEq]
  constructor
  · rintro ⟨found, later, scanned, rfl, rfl⟩
    exact ⟨later, scanned, rfl⟩
  · rintro ⟨later, scanned, rfl⟩
    exact ⟨port, later, scanned, rfl, rfl⟩

theorem scanArgs_gdb (h : scanArgs (gdbOption :: rest) = some (port, remaining)) :
    ∃ number later last, rest = number :: later ∧ scanArgs later = some (last, remaining) := by
  rw [scanArgs.eq_def] at h
  simp only [if_true] at h
  cases rest with
  | nil => contradiction
  | cons number later =>
    simp only [Option.bind_eq_bind, Option.bind_eq_some_iff, Option.pure_def, Option.some.injEq,
      Prod.exists, Prod.mk.injEq] at h
    obtain ⟨_, _, last, _, scanned, _, rfl⟩ := h
    exact ⟨number, later, last, rfl, scanned⟩

theorem scanArgs_length (h : scanArgs args = some (port, remaining)) :
    remaining.length ≤ args.length := by
  induction args using scanArgs.induct generalizing port remaining with
  | case1 => cases h; exact Nat.le_refl _
  | case2 => simp [scanArgs] at h
  | case3 number later ih =>
    obtain ⟨_, _, _, same, scanned⟩ := scanArgs_gdb h
    cases same
    exact Nat.le_succ_of_le (Nat.le_succ_of_le (ih scanned))
  | case4 arg rest other ih =>
    obtain ⟨later, scanned, rfl⟩ := (scanArgs_other other).mp h
    exact Nat.succ_le_succ (ih scanned)

/-- All arguments are left exactly where none of them is the option. -/
theorem scanArgs_eq_self_iff : scanArgs args = some (none, args) ↔ gdbOption ∉ args := by
  induction args with
  | nil => simp [scanArgs]
  | cons arg rest ih =>
    by_cases option : arg = gdbOption
    · subst option
      refine iff_of_false (fun scanned => ?_) fun absent => absent List.mem_cons_self
      obtain ⟨number, later, last, rfl, others⟩ := scanArgs_gdb scanned
      have short := scanArgs_length others
      simp only [List.length_cons] at short
      omega
    · rw [scanArgs_other option, List.mem_cons, not_or, ← ih]
      constructor
      · rintro ⟨later, scanned, same⟩
        cases same
        exact ⟨Ne.symm option, scanned⟩
      · exact fun h => ⟨rest, h.2, rfl⟩

/-- The child takes none of the arguments for an option of its own. -/
structure OptionFree (args : List (List Char)) : Prop where
  noCompat : args.head? ≠ some compatOption
  noGdb : scanArgs args = some (none, args)

theorem pathText_head (path : HostPath) : (pathText path).head? = some '/' := by
  unfold pathText
  split_ifs with root
  · rfl
  · cases path with
    | nil => exact absurd rfl root
    | cons name rest => rfl

theorem pathText_ne (path : HostPath) {text : List Char} (h : text.head? ≠ some '/') :
    pathText path ≠ text := by
  intro heq
  rw [← heq] at h
  exact h (pathText_head path)

theorem optionFree_iff (path : HostPath) (words : List (List Char)) :
    OptionFree (pathText path :: words) ↔ gdbOption ∉ words := by
  have first : pathText path ≠ gdbOption := pathText_ne path (by decide)
  have compat : pathText path ≠ compatOption := pathText_ne path (by decide)
  constructor
  · intro free member
    exact scanArgs_eq_self_iff.mp free.noGdb (List.mem_cons_of_mem _ member)
  · intro absent
    refine ⟨fun heq => compat (Option.some.inj heq), scanArgs_eq_self_iff.mpr ?_⟩
    rw [List.mem_cons, not_or]
    exact ⟨first.symm, absent⟩

/-- What runs is the program that the parent named. -/
theorem main_run {path : HostPath} {words : List (List Char)}
    (h : main (pathText path :: words) = .run filePath port) : filePath = pathText path := by
  have first : pathText path ≠ gdbOption := pathText_ne path (by decide)
  have compat : pathText path ≠ compatOption := pathText_ne path (by decide)
  simp only [main, compat, if_false] at h
  split at h
  · contradiction
  · contradiction
  · rename_i found file rest scanned
    obtain ⟨later, _, same⟩ := (scanArgs_other first).mp scanned
    cases same
    split at h
    · contradiction
    · cases h
      rfl

end Options

section Area

variable {before after : GuestMemory} {writes info rest : List (Nat × List UInt8)}
  {block : List UInt8} {value addr len : Nat}

/-- Nothing at the addresses of the area is written. -/
theorem slice_writeAll_uncovered (written : before.writeAll writes = some after)
    (outside : ∀ i, addr ≤ i → i < addr + len → ¬Covered (writes.map extent) i) :
    after.slice addr len = before.slice addr len := by
  obtain ⟨-, rfl⟩ := before.writeAll_eq_some.mp written
  have same : ByteStore.load (before.bytes.storeAll writes) addr len = before.bytes.load addr len := by
    apply List.ext_getElem
    · rw [ByteStore.load_length, ByteStore.load_length]
    · intro i hi _
      rw [ByteStore.load_length] at hi
      simp only [ByteStore.load, List.getElem_map, List.getElem_range]
      apply ByteStore.storeAll_outside
      intro write member covers
      exact outside (addr + i) (by omega) (by omega) ⟨extent write, List.mem_map_of_mem member, covers⟩
  simp only [GuestMemory.slice, GuestMemory.inBounds, same]
  rfl

theorem writeAll_single {offset : Nat} (wrote : before.writeBytes offset block = some after) :
    before.writeAll [(offset, block)] = some after := by
  unfold GuestMemory.writeAll
  rw [List.foldlM_cons, wrote]
  rfl

/-- Areas apart from the pointer to the command line and from the space that blocks come from. -/
def Elsewhere (areas : List (Nat × Nat)) : Prop :=
  ∀ i, Covered areas i → i < dynamicAllocBase ∧ (i < pibBase + 0x0C ∨ pibBase + 0x10 ≤ i)

/-- The block and the pointer are there once all is written, and behind the block memory is
as it was. -/
theorem written_block {env mid : GuestMemory}
    (wrote : before.writeBytes dynamicAllocBase block = some env)
    (blocks : env.writeAll info = some mid) (others : mid.writeAll rest = some after)
    (apart : info.Pairwise ByteStore.WritesApart)
    (pointer : (pibBase + 0x0C, leBytes 4 value) ∈ info)
    (low : ∀ i, Covered (info.map extent) i → i < dynamicAllocBase)
    (elsewhere : Elsewhere (rest.map extent)) :
    after.slice (pibBase + 0x0C) 4 = some (leBytes 4 value) ∧
    after.slice dynamicAllocBase block.length = some block ∧
    ∀ behind, dynamicAllocBase + block.length ≤ behind → ∀ len,
      after.slice behind len = before.slice behind len := by
  have high : ∀ behind, dynamicAllocBase ≤ behind → ∀ len,
      after.slice behind len = env.slice behind len := by
    intro behind above len
    rw [slice_writeAll_uncovered others fun i hi _ covered => by
        have := (elsewhere i covered).1
        omega,
      slice_writeAll_uncovered blocks fun i hi _ covered => by
        have := low i covered
        omega]
  refine ⟨?_, ?_, ?_⟩
  · rw [slice_writeAll_uncovered others fun i hi hlt covered => by
      have := (elsewhere i covered).2
      omega]
    have there := env.slice_writeAll blocks apart pointer
    rwa [leBytes_length] at there
  · rw [high _ (Nat.le_refl _)]
    exact before.slice_writeAll (writeAll_single wrote) (List.pairwise_singleton _ _)
      List.mem_cons_self
  · intro behind above len
    rw [high _ (by omega), slice_writeAll_uncovered (writeAll_single wrote) fun i hi _ covered => by
      rw [List.map_cons, List.map_nil, covered_cons] at covered
      simp only [extent, covered_nil, or_false] at covered
      omega]

theorem elsewhere_append {left right : List (Nat × Nat)} (first : Elsewhere left)
    (second : Elsewhere right) : Elsewhere (left ++ right) :=
  fun i covered => (covered_append.mp covered).elim (first i) (second i)

theorem infoBlocks_apart (envAddr cmdlineAddr : Nat) :
    (infoBlocks envAddr cmdlineAddr).Pairwise ByteStore.WritesApart := by
  have extents : (infoBlocks envAddr cmdlineAddr).map extent = [(tibBase, 4), (tibBase + 0x0C, 4),
      (tibBase + 0x18, 4), (tibBase + 0x30, 4), (tibBase + 0x40, 4), (tibBase + 0x44, 4),
      (pibBase, 4), (pibBase + 0x0C, 4), (pibBase + 0x10, 4)] := by
    simp only [infoBlocks, List.map_cons, List.map_nil, extent, leBytes_length]
    rfl
  have apart : ((infoBlocks envAddr cmdlineAddr).map extent).Pairwise
      fun a b => Apart a.1 a.2 b.1 b.2 := by
    rw [extents]
    decide
  have pairs := List.pairwise_map.mp apart
  exact pairs

theorem infoBlocks_low (envAddr cmdlineAddr : Nat) (i : Nat)
    (covered : Covered ((infoBlocks envAddr cmdlineAddr).map extent) i) : i < dynamicAllocBase := by
  rw [infoBlocks_covered] at covered
  simp only [infoAreas, covered_cons, covered_nil, or_false, tibBase, pibBase] at covered
  unfold dynamicAllocBase
  omega

/-- The set-up's other tables, which both formats have. -/
theorem tables_elsewhere (cols pageSize lastRow : Nat) :
    Elsewhere ((biosDataArea cols pageSize lastRow ++ stubs ++ gdtWrites ++
      (List.range 32).flatMap idtVector).map extent) := by
  intro i covered
  simp only [List.map_append, covered_append, biosDataArea_covered, stubs_covered,
    gdtWrites_covered, idt_covered] at covered
  have handlers : ∀ i, Covered ((List.range 32).map handlerExtent) i →
      idtHandlerBase ≤ i ∧ i < idtHandlerBase + 0x205 := by
    rintro i ⟨range, member, low, high⟩
    obtain ⟨vector, few, rfl⟩ := List.mem_map.mp member
    rw [List.mem_range] at few
    unfold handlerExtent at low high
    dsimp only at low high
    split at high <;> omega
  rcases covered with ((bios | stub) | gdt) | gates | handler
  · simp only [biosAreas, covered_cons, covered_nil, or_false] at bios
    unfold dynamicAllocBase pibBase
    omega
  · simp only [covered_cons, covered_nil, or_false, magicApiBase, stubAreaSize] at stub
    unfold dynamicAllocBase pibBase
    omega
  · simp only [covered_cons, covered_nil, or_false, gdtBase, gdtEntryCount, numTiles,
      numCodeTiles] at gdt
    unfold dynamicAllocBase pibBase
    omega
  · simp only [covered_cons, covered_nil, or_false, idtBase] at gates
    unfold dynamicAllocBase pibBase
    omega
  · have := handlers i handler
    unfold idtHandlerBase at this
    unfold dynamicAllocBase pibBase
    omega

theorem thunkTile_elsewhere : Elsewhere (thunkTile.map extent) := by
  rintro i ⟨range, member, low, high⟩
  obtain ⟨write, tile, rfl⟩ := List.mem_map.mp member
  obtain ⟨place, few, rfl⟩ := List.mem_map.mp tile
  rw [List.mem_range] at few
  unfold tileSize at few
  simp only [extent, leBytes_length, neThunkBase] at low high
  unfold dynamicAllocBase pibBase
  omega

theorem descriptorWrites_elsewhere {file : NeFile} (sized : file.Sized) :
    Elsewhere ((descriptorWrites file).map extent) := by
  rintro i ⟨range, member, low, high⟩
  obtain ⟨write, descriptor, rfl⟩ := List.mem_map.mp member
  obtain ⟨entry, hentry, rfl⟩ := List.mem_map.mp descriptor
  have few := (segment_entry sized hentry).2
  simp only [extent, descriptorWrite, leBytes_length, selectorOf, gdtBase, tiledSelStartIndex,
    neSegmentBase, tileSize] at low high
  unfold dynamicAllocBase pibBase
  omega

theorem addWord_sum {bits a b sum : Nat} (h : addWord bits a b = some sum) : sum = a + b := by
  unfold addWord at h
  split at h
  · exact (Option.some.inj h).symm
  · cases h

/-- What a program's set-up leaves at the pointer to its command line. -/
structure BlockBuilt (before after : GuestMemory) (environment name : List UInt8) : Prop where
  pointer : after.slice (pibBase + 0x0C) 4 =
    some (leBytes 4 (dynamicAllocBase + environment.length))
  program : after.slice (dynamicAllocBase + environment.length) (name ++ [0]).length =
    some (name ++ [0])
  behind : ∀ len, after.slice (dynamicAllocBase + environment.length + (name ++ [0]).length) len =
    before.slice (dynamicAllocBase + environment.length + (name ++ [0]).length) len

theorem built_of_writes {environment name : List UInt8} {env mid : GuestMemory}
    (wrote : before.writeBytes dynamicAllocBase (environment ++ name ++ [0]) = some env)
    (blocks : env.writeAll info = some mid) (others : mid.writeAll rest = some after)
    (apart : info.Pairwise ByteStore.WritesApart)
    (pointer : (pibBase + 0x0C, leBytes 4 (dynamicAllocBase + environment.length)) ∈ info)
    (low : ∀ i, Covered (info.map extent) i → i < dynamicAllocBase)
    (elsewhere : Elsewhere (rest.map extent)) : BlockBuilt before after environment name := by
  obtain ⟨cell, block, behind⟩ := written_block wrote blocks others apart pointer low elsewhere
  rw [List.append_assoc] at block behind
  refine ⟨cell, ((after.slice_append).mp block).2, fun len => ?_⟩
  apply behind
  rw [List.length_append]
  omega

/-- The tables that both formats have, one after the other. -/
theorem tables_written {mid bios stubbed tables : GuestMemory} {cols pageSize lastRow : Nat}
    (hbios : mid.writeAll (biosDataArea cols pageSize lastRow) = some bios)
    (hstubs : setupStubs bios = some stubbed) (hidt : setupIdt stubbed = some tables) :
    mid.writeAll (biosDataArea cols pageSize lastRow ++ stubs ++ gdtWrites ++
      (List.range 32).flatMap idtVector) = some tables := by
  obtain ⟨fixed, hfixed, hidt⟩ := Option.bind_eq_some_iff.mp hidt
  obtain ⟨data, hdata, hidt⟩ := Option.bind_eq_some_iff.mp hidt
  obtain ⟨code, hcode, hidt⟩ := Option.bind_eq_some_iff.mp hidt
  have gdt : stubbed.writeAll gdtWrites = some code :=
    writeAll_append (writeAll_append hfixed hdata) hcode
  exact writeAll_append (writeAll_append (writeAll_append hbios hstubs) gdt) hidt

theorem setupGuest_built {uppercase : List Char → List Char} {file : LxFile} {s next : SharedState}
    {entry : Entry} (fresh : s.memMgr = (newLoader s.rows s.cols).memMgr)
    (done : setupGuest uppercase file s = some (entry, next)) :
    BlockBuilt s.guestMem next.guestMem environmentBytes
      ((os2Exe uppercase s.exeName).flatMap Utf8.encodeChar) := by
  obtain ⟨-, -, -, envAddr, memMgr, env, alloc, wrote, cmdlineAddr, cmdline, info, blocks, cells,
    pageSize, lastRow, hcells, hpage, hrow, bios, hbios, stubbed, hstubs, final, hidt, rfl⟩ :=
    setupGuest_eq_some.mp done
  rw [fresh] at alloc
  obtain ⟨rounded, -, rfl, -⟩ := alloc_newLoader_eq alloc
  have place := addWord_sum cmdline
  subst place
  refine built_of_writes wrote blocks (tables_written hbios hstubs hidt) (infoBlocks_apart _ _) ?_
    (infoBlocks_low _ _) (tables_elsewhere _ _ _)
  simp [infoBlocks]

theorem setupGuestNe_built {uppercase : List Char → List Char} {file : NeFile}
    {s next : SharedState} {start : NeStart} (sized : file.Sized)
    (fresh : s.memMgr = (newLoader s.rows s.cols).memMgr)
    (done : setupGuestNe uppercase file s = some (start, next)) :
    BlockBuilt s.guestMem next.guestMem neEnvironmentBytes
      ((os2Exe uppercase s.exeName).flatMap Utf8.encodeChar) := by
  simp only [setupGuestNe, Option.bind_eq_bind, Option.bind_eq_some_iff, Option.pure_def,
    Option.some.injEq, Prod.mk.injEq, Prod.exists] at done
  obtain ⟨envAddr, memMgr, alloc, cmdlineAddr, cmdline, env, wrote, mid, blocks, _, _, pageSize, _,
    lastRow, _, bios, hbios, stubbed, hstubs, tables, hidt, thunks, hthunks, final, described,
    _, _, _, _, _, _, _, rfl⟩ := done
  rw [fresh] at alloc
  obtain ⟨rounded, -, rfl, -⟩ := alloc_newLoader_eq alloc
  have place := addWord_sum cmdline
  subst place
  have later := writeAll_append (tables_written hbios hstubs hidt)
    (writeAll_append hthunks ((describeSegments_eq sized).symm.trans described))
  refine built_of_writes wrote blocks later
    ((infoBlocks_apart _ _).sublist (List.tail_sublist _)) ?_ ?_ ?_
  · simp [neInfoBlocks, infoBlocks]
  · rintro i ⟨range, member, inside⟩
    obtain ⟨write, tail, rfl⟩ := List.mem_map.mp member
    exact infoBlocks_low _ _ i ⟨_, List.mem_map_of_mem (List.mem_of_mem_tail tail), inside⟩
  · have tables := tables_elsewhere s.cols.toNat pageSize lastRow
    simp only [List.map_append] at tables ⊢
    exact elsewhere_append tables
      (elsewhere_append thunkTile_elsewhere (descriptorWrites_elsewhere sized))

end Area

section Arrival

variable {uppercase : List Char → List Char} {exe : Executable} {filePath : List Char}
  {s next : SharedState}

/-- The child reads a program name and the arguments at the pointer it is given. -/
def CommandLine (mem : GuestMemory) (arguments : List UInt8) : Prop :=
  ∃ addr name, mem.read 4 (pibBase + 0x0C) = some addr ∧ (0 : UInt8) ∉ name ∧
    mem.slice addr (name ++ [0] ++ (arguments ++ [0])).length = some (name ++ [0] ++ (arguments ++ [0]))

/-- The image has the arguments in memory already, right behind the place of the block. -/
def Behind (s : SharedState) (uppercase : List Char → List Char) (exe : Executable)
    (filePath : List Char) (arguments : List UInt8) : Prop :=
  s.guestMem.slice (dynamicAllocBase + (exe.block uppercase filePath).length)
    (arguments ++ [0]).length = some (arguments ++ [0])

/-- A name does not end before its null byte. -/
theorem not_shorter {mem : GuestMemory} {addr : Nat} {one two : List UInt8}
    (first : mem.slice addr (one ++ [0]).length = some (one ++ [0]))
    (second : mem.slice addr (two ++ [0]).length = some (two ++ [0]))
    (nonzero : (0 : UInt8) ∉ two) : two.length ≤ one.length := by
  apply Nat.le_of_not_lt
  intro shorter
  have ends : mem.slice (addr + one.length) 1 = some [0] := (mem.slice_append.mp first).2
  have inside := mem.slice_part second (show one.length + 1 ≤ (two ++ [0]).length by
    rw [List.length_append, List.length_singleton]
    omega)
  have item : ((two ++ [0]).drop one.length).take 1 = [two[one.length]] := by
    rw [List.drop_append_of_le_length (Nat.le_of_lt shorter), List.drop_eq_getElem_cons shorter]
    rfl
  rw [ends, item] at inside
  have zero : two[one.length] = 0 := (List.cons.inj (Option.some.inj inside)).1.symm
  exact nonzero (zero ▸ List.getElem_mem shorter)

theorem fresh_of_loads {host : Platform} {fuel : Nat} {data : List UInt8} {rows cols : UInt16}
    (loads : exe.Loads host fuel data rows cols s) :
    s.memMgr = (newLoader s.rows s.cols).memMgr ∧ s.exeName = [] := by
  cases exe with
  | lx file =>
    have size : (newLoader rows cols).guestMem.size = guestMemSize := rfl
    obtain ⟨mem, resources, rfl, -⟩ := load_returns size loads.2
    exact ⟨rfl, rfl⟩
  | ne file =>
    have returned := loads.2
    unfold loadNe at returned
    simp only [returns_bind, returns_ofOption, returns_pure] at returned
    obtain ⟨_, _, _, _, rfl⟩ := returned
    exact ⟨rfl, rfl⟩

theorem setUp_built {host : Platform} {fuel : Nat} {data : List UInt8} {rows cols : UInt16}
    (loads : exe.Loads host fuel data rows cols s)
    (done : exe.setUp uppercase filePath s = some next) :
    BlockBuilt s.guestMem next.guestMem exe.environment
      ((os2Exe uppercase (exe.exeName filePath)).flatMap Utf8.encodeChar) := by
  obtain ⟨fresh, unnamed⟩ := fresh_of_loads loads
  cases exe with
  | lx file =>
    obtain ⟨⟨entry, after⟩, ready, rfl⟩ := Option.map_eq_some_iff.mp done
    have named : ({ s with exeName := filePath } : SharedState).memMgr =
        (newLoader s.rows s.cols).memMgr := fresh
    have built := setupGuest_built named ready
    exact built
  | ne file =>
    have stepped : (setupGuestNe uppercase file s).map Prod.snd = some next := done
    obtain ⟨⟨start, after⟩, ready, rfl⟩ := Option.map_eq_some_iff.mp stepped
    have parsed : NeFile.parse data = some (.ok file) := loads.1
    have built := setupGuestNe_built (NeFile.parse_sized parsed) fresh ready
    rw [unnamed] at built
    exact built

theorem fileName_mem {path : HostPath} {name : Posix.Name} (h : fileName path = some name) :
    name ∈ path := by
  obtain ⟨last, -⟩ := Option.filter_eq_some_iff.mp h
  exact (List.mem_filter.mp (List.mem_of_getLast? last)).1

theorem component_mem {text : List Char} {name : Posix.Name} {c : Char}
    (member : name ∈ components text) (inside : c ∈ name) (other : c ≠ '.') : c ∈ text := by
  have piece : name ∈ (text.splitOn '/').filter (· ≠ []) := by
    unfold components at member
    dsimp only at member
    split at member
    · rcases List.mem_append.mp member with part | final
      · exact part
      · rw [List.mem_singleton.mp final, dot, List.mem_singleton] at inside
        exact absurd inside other
    · exact member
  exact mem_of_mem_splitOnP (List.mem_filter.mp piece).1 inside

/-- A program name has no null byte when the path has no null character. -/
theorem os2Exe_nonzero (keeps : ∀ name, '\x00' ∉ name → '\x00' ∉ uppercase name)
    {exeName : List Char} (nonzero : '\x00' ∉ exeName) :
    (0 : UInt8) ∉ (os2Exe uppercase exeName).flatMap Utf8.encodeChar := by
  have chars : '\x00' ∉ os2Exe uppercase exeName := by
    unfold os2Exe
    split
    · decide
    · rw [List.mem_append, not_or]
      refine ⟨by decide, ?_⟩
      split
      · rename_i name found
        apply keeps
        exact fun inside => nonzero (component_mem (fileName_mem found) inside (by decide))
      · decide
  intro member
  obtain ⟨c, inside, byte⟩ := List.mem_flatMap.mp member
  have value : c.toNat ≠ 0 := by
    intro zero
    have null : c = '\x00' := Char.ext (UInt32.toNat_inj.mp zero)
    exact chars (null ▸ inside)
  exact Utf8.zero_not_mem_encodeChar value byte

/-- What the child finds is its name and what lies behind the block. -/
theorem commandLine_iff_behind {host : Platform} {fuel : Nat} {data : List UInt8}
    {rows cols : UInt16} (loads : exe.Loads host fuel data rows cols s)
    (done : exe.setUp uppercase filePath s = some next)
    (nonzero : (0 : UInt8) ∉
      (os2Exe uppercase (exe.exeName filePath)).flatMap Utf8.encodeChar) {arguments : List UInt8} :
    CommandLine next.guestMem arguments ↔ Behind s uppercase exe filePath arguments := by
  have built := setUp_built loads done
  generalize hname : (os2Exe uppercase (exe.exeName filePath)).flatMap Utf8.encodeChar = name
    at built nonzero
  have place : dynamicAllocBase + exe.environment.length + (name ++ [0]).length =
      dynamicAllocBase + (exe.block uppercase filePath).length := by
    simp only [Executable.block, hname, List.length_append]
    omega
  have behind := built.behind (arguments ++ [0]).length
  rw [place] at behind
  unfold Behind
  rw [← behind]
  have small : dynamicAllocBase + exe.environment.length < 256 ^ 4 := by
    cases exe with
    | lx file => exact show dynamicAllocBase + environmentBytes.length < 256 ^ 4 by decide
    | ne file => exact show dynamicAllocBase + neEnvironmentBytes.length < 256 ^ 4 by decide
  have mine := next.guestMem.read_eq_some.mpr ⟨small, built.pointer⟩
  constructor
  · rintro ⟨addr, other, pointer, otherNonzero, area⟩
    rw [mine] at pointer
    cases pointer
    obtain ⟨program, there⟩ := next.guestMem.slice_append.mp area
    have same : other.length = name.length := Nat.le_antisymm
      (not_shorter built.program program otherNonzero) (not_shorter program built.program nonzero)
    have lengths : (other ++ [0]).length = (name ++ [0]).length := by
      rw [List.length_append, List.length_append, same]
    rwa [lengths, place] at there
  · intro there
    exact ⟨_, name, mine, nonzero, next.guestMem.slice_append.mpr ⟨built.program, place ▸ there⟩⟩

/-- The program runs, and its guest code finds the arguments, none of which was taken for an
option of the process. -/
structure ArgumentsArrive (args : List (List Char)) (filePath : List Char) (next : SharedState)
    (arguments : List UInt8) : Prop where
  runs : ∃ port, main args = .run filePath port
  optionFree : OptionFree args
  arrive : CommandLine next.guestMem arguments

theorem main_of_optionFree {path : HostPath} {words : List (List Char)}
    (program : isShell ((fileName (components (pathText path))).getD (pathText path)) = false)
    (free : OptionFree (pathText path :: words)) :
    main (pathText path :: words) = .run (pathText path) none := by
  have compat : pathText path ≠ compatOption := pathText_ne path (by decide)
  simp only [main, compat, if_false, free.noGdb, program, Bool.false_eq_true]

theorem spawned_args {mem : GuestMemory} {resolve : List Char → Option HostPath}
    {progName : List Char} {pArg : Nat} {args : List (List Char)}
    (spawned : dosExecPgm mem resolve progName pArg = .spawned args) :
    ∃ path, resolve progName = some path ∧ args = pathText path :: argWords mem pArg ∧
      '\x00' ∉ pathText path := by
  unfold dosExecPgm at spawned
  split at spawned
  · contradiction
  · split at spawned
    · contradiction
    · rename_i path found
      dsimp only at spawned
      split at spawned
      · rename_i clean
        cases spawned
        rw [List.all_cons, Bool.and_eq_true] at clean
        exact ⟨path, found, rfl, of_decide_eq_true clean.1⟩
      · contradiction

/-- The arguments arrive only where the image happens to have them behind the block, and
no word of them is the option of the process. -/
theorem argumentsArrive_iff {host : Platform}
    (keeps : ∀ name, '\x00' ∉ name → '\x00' ∉ host.uppercase name) {mem : GuestMemory}
    {pArg : Nat} {name arguments : List UInt8} (given : ArgString mem pArg name arguments)
    {resolve : List Char → Option HostPath} {progName : List Char} {args : List (List Char)}
    (spawned : dosExecPgm mem resolve progName pArg = .spawned args) {path : HostPath}
    (found : resolve progName = some path)
    (program : isShell ((fileName (components (pathText path))).getD (pathText path)) = false)
    {fuel : Nat} {data : List UInt8} {rows cols : UInt16}
    (loads : exe.Loads host fuel data rows cols s)
    (done : exe.setUp host.uppercase (pathText path) s = some next) :
    ArgumentsArrive args (pathText path) next arguments ↔
      Behind s host.uppercase exe (pathText path) arguments ∧
        ¬(Passed name arguments ∧ gdbOption ∈ fields isWhitespace (arguments.map charOf)) := by
  obtain ⟨_, same, rfl, clean⟩ := spawned_args spawned
  rw [found] at same
  cases same
  have nonzero : '\x00' ∉ exe.exeName (pathText path) := by
    cases exe with
    | lx file => exact clean
    | ne file => exact List.not_mem_nil
  have options : OptionFree (pathText path :: argWords mem pArg) ↔
      ¬(Passed name arguments ∧ gdbOption ∈ fields isWhitespace (arguments.map charOf)) := by
    rw [optionFree_iff, argWords_eq given]
    by_cases passed : Passed name arguments
    · simp [passed]
    · simp [passed]
  rw [← options, ← commandLine_iff_behind loads done (os2Exe_nonzero keeps nonzero)]
  constructor
  · exact fun h => ⟨h.arrive, h.optionFree⟩
  · exact fun h => ⟨⟨none, main_of_optionFree program h.2⟩, h.2, h.1⟩

theorem behind_unique {one two : List UInt8} (first : Behind s uppercase exe filePath one)
    (second : Behind s uppercase exe filePath two) (hone : (0 : UInt8) ∉ one)
    (htwo : (0 : UInt8) ∉ two) : one.length = two.length :=
  Nat.le_antisymm (not_shorter second first hone) (not_shorter first second htwo)

end Arrival

section Sample

def sampleParent (arguments : List UInt8) : GuestMemory :=
  ⟨guestMemSize, ByteStore.store (fun _ => 0) 0x1000 (doubleNul [65] arguments)⟩

def sampleProgram : HostPath := ["srv".toList, "child.exe".toList]

def sampleArgs (arguments : List UInt8) : List (List Char) :=
  pathText sampleProgram :: argWords (sampleParent arguments) 0x1000

def sampleExe : Executable := .lx (onePageFile 0x10000)

theorem sample_given {arguments : List UInt8} (nonzero : (0 : UInt8) ∉ arguments)
    (short : arguments.length ≤ 100) : ArgString (sampleParent arguments) 0x1000 [65] arguments where
  size := rfl
  name_nonzero := by decide
  arguments_nonzero := nonzero
  given := by
    have bound : (doubleNul [65] arguments).length ≤ 104 := by
      unfold doubleNul
      split <;> simp only [List.length_append, List.length_cons, List.length_nil] <;> omega
    have fits : (sampleParent arguments).inBounds 0x1000 (doubleNul [65] arguments).length = true :=
      decide_eq_true (by simp only [sampleParent, guestMemSize]; omega)
    rw [if_neg (by decide), GuestMemory.slice, if_pos fits]
    exact congrArg some (ByteStore.load_store _)

theorem sample_uppercase (name : List Char) (clean : '\x00' ∉ name) :
    '\x00' ∉ sampleHost.uppercase name := by
  intro member
  obtain ⟨c, inside, same⟩ := List.mem_map.mp member
  delta Char.toUpper at same
  split at same
  · rename_i lower
    have low : 97 ≤ c.val.toNat := UInt32.le_iff_toNat_le.mp lower.1
    have high : c.val.toNat ≤ 122 := UInt32.le_iff_toNat_le.mp lower.2
    have shift : ('A'.val - 'a'.val).toNat = 4294967264 := by decide
    have zero : ('\x00'.val).toNat = 0 := by decide
    have value := congrArg UInt32.toNat (congrArg Char.val same)
    rw [zero, UInt32.toNat_add, shift] at value
    omega
  · exact clean (same ▸ inside)

theorem sample_starts : ∃ s next,
    sampleExe.Loads sampleHost 0 (onePageBytes 0x10000) 25 80 s ∧
      sampleExe.setUp sampleHost.uppercase (pathText sampleProgram) s = some next := by
  have parsed : LxFile.parse (onePageBytes 0x10000) = .ok (onePageFile 0x10000) := by decide
  obtain ⟨s, entry, next, loaded, done⟩ := onePageFile_starts 0x10000 (pathText sampleProgram)
    (by decide +kernel) parsed (by decide +kernel) (by decide +kernel)
  have ready : (setupGuest sampleHost.uppercase (onePageFile 0x10000)
      { s with exeName := pathText sampleProgram }).map Prod.snd = some next := by
    rw [done]
    rfl
  exact ⟨s, next, ⟨parsed, loaded⟩, ready⟩

theorem argumentsArrive_iff_x : ∃ s next,
    sampleExe.Loads sampleHost 0 (onePageBytes 0x10000) 25 80 s ∧
      (ArgumentsArrive (sampleArgs [120]) (pathText sampleProgram) next [120] ↔
        Behind s sampleHost.uppercase sampleExe (pathText sampleProgram) [120] ∧
          ¬(Passed [65] [120] ∧ gdbOption ∈ fields isWhitespace ([120].map charOf))) := by
  obtain ⟨s, next, loads, done⟩ := sample_starts
  have spawned : dosExecPgm (sampleParent [120]) (fun _ => some sampleProgram) "A".toList 0x1000 =
      .spawned (sampleArgs [120]) := by decide
  exact ⟨s, next, loads, argumentsArrive_iff sample_uppercase
    (sample_given (by decide) (by decide)) spawned rfl (by decide) loads done⟩

/-- The child cannot find both one argument and another one, and it is not told which of
them it was given. -/
theorem arguments_not_told_apart : ¬∀ (host : Platform) (mem : GuestMemory) (pArg : Nat)
    (name arguments : List UInt8) (resolve : List Char → Option HostPath) (progName : List Char)
    (args : List (List Char)) (path : HostPath) (exe : Executable) (fuel : Nat) (data : List UInt8)
    (rows cols : UInt16) (s next : SharedState),
      ArgString mem pArg name arguments →
        dosExecPgm mem resolve progName pArg = .spawned args → resolve progName = some path →
          isShell ((fileName (components (pathText path))).getD (pathText path)) = false →
            exe.Loads host fuel data rows cols s →
              exe.setUp host.uppercase (pathText path) s = some next →
                ArgumentsArrive args (pathText path) next arguments := by
  intro all
  obtain ⟨s, next, loads, done⟩ := sample_starts
  have one := all sampleHost _ _ _ [120] (fun _ => some sampleProgram) "A".toList (sampleArgs [120])
    sampleProgram _ _ _ _ _ s next (sample_given (by decide) (by decide)) (by decide) rfl
    (by decide) loads done
  have two := all sampleHost _ _ _ [120, 121] (fun _ => some sampleProgram) "A".toList
    (sampleArgs [120, 121]) sampleProgram _ _ _ _ _ s next (sample_given (by decide) (by decide))
    (by decide) rfl (by decide) loads done
  have clean := @os2Exe_nonzero sampleHost.uppercase sample_uppercase (pathText sampleProgram)
    (by decide)
  have lengths := behind_unique ((commandLine_iff_behind loads done clean).mp one.arrive)
    ((commandLine_iff_behind loads done clean).mp two.arrive) (by decide) (by decide)
  exact absurd lengths (by decide)

end Sample

end Warpine.Vcpu
