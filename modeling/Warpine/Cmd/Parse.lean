import Mathlib.Data.List.DropRight
import Mathlib.Data.List.Infix
import Mathlib.Data.List.TakeWhile
import Warpine.Vfs.Types

/-! The command line: its comment is cut off, and it is parsed into the segments of a
pipeline and two redirections. Three scans go over it, each with its own idea of quotes. -/
namespace Warpine.Cmd
open Warpine.Vfs

/-- White space of Unicode. -/
def isWhitespace (c : Char) : Bool :=
  let n := c.toNat
  (9 ≤ n && n ≤ 13) || (0x2000 ≤ n && n ≤ 0x200A) ||
    [0x20, 0x85, 0xA0, 0x1680, 0x2028, 0x2029, 0x202F, 0x205F, 0x3000].contains n

def trim (text : Path) : Path := (text.dropWhile isWhitespace).rdropWhile isWhitespace

structure ParsedCommand where
  segments : List Path
  stdinFile : Option Path
  stdoutRedir : Option (Path × Bool)
deriving DecidableEq, Repr

section Parsing

inductive Target where
  | stdin
  | stdout (append : Bool)
deriving DecidableEq, Repr

/-- The variables of the loop. -/
structure Scan where
  segments : List Path
  stdinFile : Option Path
  stdoutRedir : Option (Path × Bool)
  current : Path
  inQuote : Bool
deriving DecidableEq, Repr

def Scan.start : Scan := ⟨[], none, none, [], false⟩

def Scan.push (scan : Scan) (ch : Char) : Scan := { scan with current := scan.current ++ [ch] }

def Scan.toggle (scan : Scan) : Scan := { scan with inQuote := !scan.inQuote }

def Scan.segment (scan : Scan) : Scan :=
  { scan with segments := scan.segments ++ [trim scan.current], current := [] }

/-- An empty name redirects nothing. -/
def Scan.redirect (scan : Scan) (target : Target) (fname : Path) : Scan :=
  if fname = [] then scan
  else match target with
    | .stdin => { scan with stdinFile := some fname }
    | .stdout append => { scan with stdoutRedir := some (fname, append) }

def endsName (ch : Char) : Bool := ch = ' ' || ch = '<' || ch = '>' || ch = '|'

/-- The name behind an operator and what follows it. -/
def scanName (chars : Path) : Path × Path :=
  let chars := chars.dropWhile (· = ' ')
  (chars.takeWhile (! endsName ·), chars.dropWhile (! endsName ·))

/-- Every turn takes a character, so that as many turns as characters are enough. -/
def parseLoop : Nat → Scan → Path → Scan
  | 0, scan, _ => scan
  | _ + 1, scan, [] => scan
  | turns + 1, scan, ch :: chars =>
    if ch = '"' then parseLoop turns (scan.toggle.push ch) chars
    else if scan.inQuote then parseLoop turns (scan.push ch) chars
    else if ch = '|' then parseLoop turns scan.segment chars
    else if ch = '>' then
      let append : Bool := chars.head? = some '>'
      let (fname, rest) := scanName (if append then chars.tail else chars)
      parseLoop turns (scan.redirect (.stdout append) fname) rest
    else if ch = '<' then
      let (fname, rest) := scanName chars
      parseLoop turns (scan.redirect .stdin fname) rest
    else parseLoop turns (scan.push ch) chars

/-- The last segment is dropped where it is empty and not the only one. -/
def Scan.command (scan : Scan) : ParsedCommand :=
  let last := trim scan.current
  { segments := if last ≠ [] ∨ scan.segments = [] then scan.segments ++ [last] else scan.segments
    stdinFile := scan.stdinFile
    stdoutRedir := scan.stdoutRedir }

def parseCommand (line : Path) : ParsedCommand := (parseLoop line.length .start line).command

end Parsing

/-- Where the first double colon is. -/
def findComment : Path → Option Nat
  | [] => none
  | c :: rest => if c = ':' ∧ rest.head? = some ':' then some 0 else (findComment rest).map (· + 1)

def stripComment (line : Path) : Path :=
  match findComment line with
  | some pos => line.take pos
  | none => line

/-- What of a line is given to the pipeline, nothing for an empty one. -/
def executeLine (line : Path) : Option ParsedCommand :=
  let line := trim (stripComment line)
  if line = [] then none else some (parseCommand line)

/-- The loop with the token that has begun, if any. -/
def tokenLoop : Option Path → Bool → Path → List Path
  | none, _, [] => []
  | some token, _, [] => [token]
  | start, inQuote, b :: rest =>
    if b = '"' then tokenLoop (some (start.getD [] ++ [b])) (!inQuote) rest
    else if b = ' ' ∧ inQuote = false then start.toList ++ tokenLoop none inQuote rest
    else tokenLoop (some (start.getD [] ++ [b])) inQuote rest

def tokenize (line : Path) : List Path := tokenLoop none false line

example : tokenize "echo \"hello world\"".toList = ["echo".toList, "\"hello world\"".toList] := by
  decide

theorem trim_within (text : Path) : trim text <:+: text :=
  (List.rdropWhile_prefix _ _).isInfix.trans (List.dropWhile_suffix _).isInfix

/-- What is left of a text without its comment and the white space in front of that. -/
theorem strip_subset (text : Path) : (stripComment text).rdropWhile isWhitespace ⊆ text := by
  intro ch member
  have stripped := (List.rdropWhile_prefix isWhitespace _).subset member
  unfold stripComment at stripped
  split at stripped
  · exact List.mem_of_mem_take stripped
  · exact stripped

section Steps

/-- Where a scan is between two characters: behind a first `>`, before a target's name or in it. -/
inductive Mode where
  | main
  | more
  | gap (target : Target)
  | name (target : Target) (fname : Path)
deriving DecidableEq, Repr

abbrev ScanState := Scan × Mode

def mainStep (scan : Scan) (ch : Char) : ScanState :=
  if ch = '"' then (scan.toggle.push ch, .main)
  else if scan.inQuote then (scan.push ch, .main)
  else if ch = '|' then (scan.segment, .main)
  else if ch = '>' then (scan, .more)
  else if ch = '<' then (scan, .gap .stdin)
  else (scan.push ch, .main)

/-- The character behind a name is scanned again. -/
def nameStep (scan : Scan) (target : Target) (fname : Path) (ch : Char) : ScanState :=
  if endsName ch then mainStep (scan.redirect target fname) ch
  else (scan, .name target (fname ++ [ch]))

def gapStep (scan : Scan) (target : Target) (ch : Char) : ScanState :=
  if ch = ' ' then (scan, .gap target) else nameStep scan target [] ch

def step (state : ScanState) (ch : Char) : ScanState :=
  match state.2 with
  | .main => mainStep state.1 ch
  | .more => if ch = '>' then (state.1, .gap (.stdout true)) else gapStep state.1 (.stdout false) ch
  | .gap target => gapStep state.1 target ch
  | .name target fname => nameStep state.1 target fname ch

def finish (state : ScanState) : Scan :=
  match state.2 with
  | .name target fname => state.1.redirect target fname
  | _ => state.1

def scanText (state : ScanState) (text : Path) : ScanState := text.foldl step state

theorem scanText_append (state : ScanState) (front back : Path) :
    scanText state (front ++ back) = scanText (scanText state front) back :=
  List.foldl_append

theorem redirect_nil (scan : Scan) (target : Target) : scan.redirect target [] = scan := rfl

/-- A name is read up to its end. -/
theorem scanText_name (scan : Scan) (target : Target) (fname chars : Path) :
    finish (scanText (scan, .name target fname) chars) =
      finish (scanText (scan.redirect target (fname ++ chars.takeWhile (! endsName ·)), .main)
        (chars.dropWhile (! endsName ·))) := by
  induction chars generalizing fname with
  | nil => simp [scanText, finish]
  | cons ch chars ih =>
    cases ends : endsName ch with
    | true =>
      rw [List.takeWhile_cons_of_neg (by simp [ends]), List.dropWhile_cons_of_neg (by simp [ends]),
        List.append_nil]
      simp [scanText, step, nameStep, ends]
    | false =>
      have inside : scanText (scan, .name target fname) (ch :: chars) =
          scanText (scan, .name target (fname ++ [ch])) chars := by
        simp [scanText, step, nameStep, ends]
      rw [List.takeWhile_cons_of_pos (by simp [ends]), List.dropWhile_cons_of_pos (by simp [ends]),
        inside, ih, List.append_assoc]
      rfl

/-- The spaces before a name are left out. -/
theorem scanText_gap (scan : Scan) (target : Target) (chars : Path) :
    finish (scanText (scan, .gap target) chars) =
      finish (scanText (scan.redirect target (scanName chars).1, .main) (scanName chars).2) := by
  induction chars with
  | nil => rfl
  | cons ch chars ih =>
    by_cases space : ch = ' '
    · subst space
      exact ih
    · have kept : (ch :: chars).dropWhile (· = ' ') = ch :: chars :=
        List.dropWhile_cons_of_neg (by simpa using space)
      rw [scanName, kept]
      cases ends : endsName ch with
      | true =>
        dsimp only
        rw [List.takeWhile_cons_of_neg (by simp [ends]), List.dropWhile_cons_of_neg (by simp [ends]),
          redirect_nil]
        simp [scanText, step, gapStep, nameStep, ends, space, redirect_nil]
      | false =>
        have inside : scanText (scan, .gap target) (ch :: chars) =
            scanText (scan, .name target [ch]) chars := by
          simp [scanText, step, gapStep, nameStep, ends, space]
        dsimp only
        rw [inside, scanText_name, List.takeWhile_cons_of_pos (by simp [ends]),
          List.dropWhile_cons_of_pos (by simp [ends])]
        rfl

/-- Behind a `>` a second one makes the redirection append. -/
theorem scanText_more (scan : Scan) (chars : Path) :
    finish (scanText (scan, .more) chars) =
      let append : Bool := chars.head? = some '>'
      let (fname, rest) := scanName (if append then chars.tail else chars)
      finish (scanText (scan.redirect (.stdout append) fname, .main) rest) := by
  cases chars with
  | nil => rfl
  | cons ch chars =>
    by_cases second : ch = '>'
    · subst second
      exact scanText_gap scan (.stdout true) chars
    · have one : scanText (scan, .more) (ch :: chars) =
          scanText (scan, .gap (.stdout false)) (ch :: chars) := by
        simp [scanText, step, second]
      rw [one, scanText_gap]
      simp [second]

theorem scanName_length (chars : Path) : (scanName chars).2.length ≤ chars.length := by
  unfold scanName
  exact Nat.le_trans (List.dropWhile_sublist _).length_le (List.dropWhile_sublist _).length_le

/-- The loop is the scan of one character after the other. -/
theorem parseLoop_eq (turns : Nat) (scan : Scan) (chars : Path) (enough : chars.length ≤ turns) :
    parseLoop turns scan chars = finish (scanText (scan, .main) chars) := by
  induction turns generalizing scan chars with
  | zero =>
    cases chars with
    | nil => rfl
    | cons ch chars => exact absurd enough (Nat.not_succ_le_zero _)
  | succ turns ih =>
    cases chars with
    | nil => rfl
    | cons ch chars =>
      have fits : chars.length ≤ turns := Nat.le_of_succ_le_succ enough
      have one (next : ScanState) (h : mainStep scan ch = next) :
          scanText (scan, .main) (ch :: chars) = scanText next chars := by
        rw [← h]
        rfl
      unfold parseLoop
      split_ifs with quoted inside pipe out input
      · rw [ih _ _ fits, one _ (if_pos quoted)]
      · rw [ih _ _ fits, one (scan.push ch, .main) (by simp [mainStep, quoted, inside])]
      · rw [ih _ _ fits, one (scan.segment, .main) (by simp [mainStep, inside, pipe])]
      · rw [one (scan, .more) (by simp [mainStep, inside, out])]
        have shorter : (if (decide (chars.head? = some '>') : Bool) then chars.tail
            else chars).length ≤ turns := by
          split
          · rw [List.length_tail]
            omega
          · exact fits
        rw [scanText_more]
        exact ih _ _ (Nat.le_trans (scanName_length _) shorter)
      · dsimp only
        rw [ih _ _ (Nat.le_trans (scanName_length chars) fits),
          one (scan, .gap .stdin) (by simp [mainStep, inside, input]), scanText_gap]
      · rw [ih _ _ fits, one (scan.push ch, .main) (by simp [mainStep, quoted, inside, pipe, out, input])]

end Steps

section TwoRuns

def Blank (text : Path) : Prop := ∀ c ∈ text, isWhitespace c = true

theorem trim_eq_nil {text : Path} : trim text = [] ↔ Blank text := by
  rw [trim, List.rdropWhile_eq_nil_iff]
  constructor
  · intro all
    have none_ : text.dropWhile isWhitespace = [] := by
      by_contra some_
      have first := List.head_dropWhile_not isWhitespace some_
      rw [all _ (List.head_mem some_)] at first
      cases first
    exact List.dropWhile_eq_nil_iff.mp none_
  · intro blank c member
    exact blank c ((List.dropWhile_sublist _).subset member)

/-- Two scans that differ only in the text of their segments, one with so many segments more. -/
structure Alike (extra : Nat) (one other : Scan) : Prop where
  inQuote : other.inQuote = one.inQuote
  stdin : other.stdinFile = one.stdinFile
  stdout : other.stdoutRedir = one.stdoutRedir
  count : other.segments.length = one.segments.length + extra
  first : other.segments = [] ↔ one.segments = []
  blank : Blank other.current ↔ Blank one.current

variable {extra : Nat} {one other : Scan}

theorem Alike.push (h : Alike extra one other) (ch : Char) :
    Alike extra (one.push ch) (other.push ch) where
  inQuote := h.inQuote
  stdin := h.stdin
  stdout := h.stdout
  count := h.count
  first := h.first
  blank := by
    unfold Blank Scan.push
    rw [List.forall_mem_append, List.forall_mem_append]
    exact and_congr_left' h.blank

theorem Alike.toggle (h : Alike extra one other) : Alike extra one.toggle other.toggle where
  inQuote := congrArg Bool.not h.inQuote
  stdin := h.stdin
  stdout := h.stdout
  count := h.count
  first := h.first
  blank := h.blank

theorem Alike.segment (h : Alike extra one other) : Alike extra one.segment other.segment where
  inQuote := h.inQuote
  stdin := h.stdin
  stdout := h.stdout
  count := by
    have := h.count
    simp only [Scan.segment, List.length_append, List.length_singleton]
    omega
  first := by simp [Scan.segment]
  blank := Iff.rfl

theorem Alike.redirect (h : Alike extra one other) (target : Target) (fname : Path) :
    Alike extra (one.redirect target fname) (other.redirect target fname) := by
  unfold Scan.redirect
  split
  · exact h
  · cases target with
    | stdin => exact ⟨h.inQuote, rfl, h.stdout, h.count, h.first, h.blank⟩
    | stdout append => exact ⟨h.inQuote, h.stdin, rfl, h.count, h.first, h.blank⟩

/-- The states are alike, and at the same place. -/
def AlikeStates (extra : Nat) (one other : ScanState) : Prop :=
  other.2 = one.2 ∧ Alike extra one.1 other.1

theorem mainStep_alike (h : Alike extra one other) (ch : Char) :
    AlikeStates extra (mainStep one ch) (mainStep other ch) := by
  unfold mainStep
  rw [h.inQuote]
  split_ifs
  · exact ⟨rfl, h.toggle.push ch⟩
  · exact ⟨rfl, h.push ch⟩
  · exact ⟨rfl, h.segment⟩
  · exact ⟨rfl, h⟩
  · exact ⟨rfl, h⟩
  · exact ⟨rfl, h.push ch⟩

theorem nameStep_alike (h : Alike extra one other) (target : Target) (fname : Path) (ch : Char) :
    AlikeStates extra (nameStep one target fname ch) (nameStep other target fname ch) := by
  unfold nameStep
  split
  · exact mainStep_alike (h.redirect target fname) ch
  · exact ⟨rfl, h⟩

theorem gapStep_alike (h : Alike extra one other) (target : Target) (ch : Char) :
    AlikeStates extra (gapStep one target ch) (gapStep other target ch) := by
  unfold gapStep
  split
  · exact ⟨rfl, h⟩
  · exact nameStep_alike h target [] ch

theorem step_alike {left right : ScanState} (h : AlikeStates extra left right) (ch : Char) :
    AlikeStates extra (step left ch) (step right ch) := by
  obtain ⟨place, alike⟩ := h
  unfold step
  rw [place]
  cases left.2 with
  | main => exact mainStep_alike alike ch
  | more =>
    dsimp only
    split
    · exact ⟨rfl, alike⟩
    · exact gapStep_alike alike _ ch
  | gap target => exact gapStep_alike alike target ch
  | name target fname => exact nameStep_alike alike target fname ch

theorem scanText_alike {left right : ScanState} (h : AlikeStates extra left right) (text : Path) :
    AlikeStates extra (scanText left text) (scanText right text) := by
  induction text generalizing left right with
  | nil => exact h
  | cons ch text ih => exact ih (step_alike h ch)

theorem finish_alike {left right : ScanState} (h : AlikeStates extra left right) :
    Alike extra (finish left) (finish right) := by
  obtain ⟨place, alike⟩ := h
  unfold finish
  rw [place]
  cases left.2 with
  | name target fname => exact alike.redirect target fname
  | _ => exact alike

/-- What becomes of alike scans differs in the number of segments alone. -/
theorem command_alike (h : Alike extra one other) :
    other.command.segments.length = one.command.segments.length + extra ∧
      other.command.stdinFile = one.command.stdinFile ∧
      other.command.stdoutRedir = one.command.stdoutRedir := by
  refine ⟨?_, h.stdin, h.stdout⟩
  have last : (trim other.current ≠ [] ∨ other.segments = []) ↔
      (trim one.current ≠ [] ∨ one.segments = []) := by
    rw [Ne, Ne, trim_eq_nil, trim_eq_nil, h.blank, h.first]
  have count := h.count
  simp only [Scan.command]
  rw [if_congr last rfl rfl]
  split
  · rw [List.length_append, List.length_append, List.length_singleton, List.length_singleton]
    omega
  · exact count

end TwoRuns

end Warpine.Cmd
