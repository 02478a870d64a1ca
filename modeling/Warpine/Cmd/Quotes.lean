import Warpine.Cmd.Parse
import Warpine.Lib.Fields

/-! Text in quotes on a command line: what of the line's reading depends on it. -/
namespace Warpine.Cmd
open Warpine.Lib Warpine.Vfs

def HasComment (text : Path) : Prop := (findComment text).isSome

instance (text : Path) : Decidable (HasComment text) := inferInstanceAs (Decidable (_ = true))

/-- A line with a quoted text. -/
def quote (before inside behind : Path) : Path := before ++ '"' :: (inside ++ '"' :: behind)

/-- Two quoted texts make no difference to the line around them. -/
structure SameReading (before behind one other : Path) : Prop where
  comment : (findComment (quote before one behind)).isSome =
    (findComment (quote before other behind)).isSome
  rest : (stripComment (quote before one behind)).drop (before.length + one.length + 2) =
    (stripComment (quote before other behind)).drop (before.length + other.length + 2)
  segments : (executeLine (quote before one behind)).map (·.segments.length) =
    (executeLine (quote before other behind)).map (·.segments.length)
  redirections : (executeLine (quote before one behind)).map
      (fun command => (command.stdinFile, command.stdoutRedir)) =
    (executeLine (quote before other behind)).map
      fun command => (command.stdinFile, command.stdoutRedir)

/-- The text between the quotes can be exchanged for any other text. -/
def Inert (allowed : Path → Prop) (before behind : Path) : Prop :=
  ∀ one other, '"' ∉ one → '"' ∉ other → allowed one → allowed other →
    SameReading before behind one other

/-- The state of the parser at the opening quote, white space at the start trimmed. -/
def scanBefore (before : Path) : ScanState := scanText (.start, .main) (before.dropWhile isWhitespace)

/-- The parser comes to the quote outside quotes and outside the name of a target. -/
def Plain (before : Path) : Prop :=
  (scanBefore before).2 = .main ∧ (scanBefore before).1.inQuote = false

instance (before : Path) : Decidable (Plain before) := inferInstanceAs (Decidable (_ ∧ _))

/-- The target that a command redirects to. -/
def ParsedCommand.target (command : ParsedCommand) : Target → Option Path
  | .stdin => command.stdinFile
  | .stdout append => (command.stdoutRedir.filter (·.2 = append)).map (·.1)

/-- How a redirection is written. -/
def operator : Target → Path
  | .stdin => ['<']
  | .stdout append => if append then ['>', '>'] else ['>']

/-- The last redirection of a line, to a name in quotes, is to the whole name. -/
def TargetWhole (before : Path) (target : Target) (spaces : Nat) (name behind : Path) : Prop :=
  ∃ command fname,
    executeLine (quote (before ++ operator target ++ List.replicate spaces ' ') name behind) =
      some command ∧ command.target target = some fname ∧
      '"' :: (name ++ ['"']) <+: fname

section Comment

variable {before inside behind : Path}

theorem findComment_stop {stop : Char} (h : stop ≠ ':') (front back : Path) :
    findComment (front ++ stop :: back) =
      (findComment front).or ((findComment back).map (· + (front.length + 1))) := by
  induction front with
  | nil => simp [findComment, h]
  | cons c front ih =>
    rw [List.cons_append, findComment, findComment, ih]
    have next : (front ++ stop :: back).head? = some ':' ↔ front.head? = some ':' := by
      cases front with
      | nil => simp [h]
      | cons d front => rfl
    simp only [next]
    split
    · rfl
    · cases findComment front with
      | some pos => rfl
      | none =>
        cases findComment back with
        | none => rfl
        | some pos =>
          simp only [Option.map_some, Option.none_or, Option.map_none, Option.some_inj,
            List.length_cons]
          omega

theorem findComment_quote (front back : Path) : findComment (front ++ '"' :: back) =
    (findComment front).or ((findComment back).map (· + (front.length + 1))) :=
  findComment_stop (by decide) front back

theorem findComment_none {text : Path} (h : ':' ∉ text) : findComment text = none := by
  induction text with
  | nil => rfl
  | cons c text ih =>
    rw [List.mem_cons, not_or] at h
    rw [findComment, if_neg (fun both => h.1 both.1.symm), ih h.2]
    rfl

theorem findComment_lt {text : Path} {pos : Nat} (h : findComment text = some pos) :
    pos < text.length := by
  induction text generalizing pos with
  | nil => cases h
  | cons c text ih =>
    rw [findComment] at h
    split at h
    · cases h
      exact Nat.zero_lt_succ _
    · obtain ⟨before, found, rfl⟩ := Option.map_eq_some_iff.mp h
      exact Nat.succ_lt_succ (ih found)

theorem stripComment_length (text : Path) : (stripComment text).length ≤ text.length := by
  unfold stripComment
  split
  · exact (List.take_sublist _ _).length_le
  · exact Nat.le_refl _

/-- A comment before the quotes takes them with it. -/
theorem stripComment_before (h : HasComment before) (back : Path) :
    stripComment (before ++ '"' :: back) = stripComment before := by
  obtain ⟨pos, found⟩ := Option.isSome_iff_exists.mp h
  rw [stripComment, stripComment, findComment_quote, found]
  exact List.take_append_of_le_length (Nat.le_of_lt (findComment_lt found))

theorem stripComment_behind (h : ¬ HasComment before) (back : Path) :
    stripComment (before ++ '"' :: back) = before ++ '"' :: stripComment back := by
  have none_ : findComment before = none := Option.not_isSome_iff_eq_none.mp h
  rw [stripComment, stripComment, findComment_quote, none_, Option.none_or]
  cases findComment back with
  | none => rfl
  | some pos =>
    dsimp only [Option.map_some]
    rw [List.take_append, show pos + (before.length + 1) - before.length = pos + 1 by omega,
      List.take_of_length_le (by omega), List.take_succ_cons]

end Comment

section Reading

variable {before inside behind : Path}

theorem trim_quote (before back : Path) : trim (before ++ '"' :: back) =
    before.dropWhile isWhitespace ++ '"' :: back.rdropWhile isWhitespace := by
  have stop : isWhitespace '"' = false := by decide
  rw [trim, dropWhile_stop stop, rdropWhile_stop stop]

/-- A line with no comment before its quotes is read up to the opening one, and on from there. -/
theorem executeLine_quote (plain : ¬ HasComment before) (inside behind : Path) :
    executeLine (quote before inside behind) = some (finish (scanText (step (scanBefore before) '"')
      ((stripComment (inside ++ '"' :: behind)).rdropWhile isWhitespace))).command := by
  have some_ : before.dropWhile isWhitespace ++
      '"' :: (stripComment (inside ++ '"' :: behind)).rdropWhile isWhitespace ≠ [] := by simp
  rw [executeLine, quote, stripComment_behind plain, trim_quote, if_neg some_, parseCommand,
    parseLoop_eq _ _ _ (Nat.le_refl _), scanText_append]
  rfl

/-- Between quotes every other character is taken as it is. -/
theorem scanText_inside (scan : Scan) {text : Path} (noQuote : '"' ∉ text) :
    scanText ({ scan with inQuote := true }, .main) text =
      ({ scan with current := scan.current ++ text, inQuote := true }, .main) := by
  induction text generalizing scan with
  | nil => simp [scanText]
  | cons ch text ih =>
    rw [List.mem_cons, not_or] at noQuote
    have one : step ({ scan with inQuote := true }, .main) ch =
        ({ scan.push ch with inQuote := true }, .main) := by
      simp [step, mainStep, Scan.push, Ne.symm noQuote.1]
    change scanText (step _ ch) text = _
    rw [one, ih _ noQuote.2]
    simp [Scan.push]

/-- A command whose last segment has a quote in it. -/
theorem command_last (scan : Scan) {current : Path} (some_ : '"' ∈ current) (inQuote : Bool) :
    ({ scan with current, inQuote } : Scan).command.segments.length = scan.segments.length + 1 := by
  have last : trim current ≠ [] := by
    intro none_
    have := trim_eq_nil.mp none_ '"' some_
    exact absurd this (by decide)
  simp [Scan.command, last]

/-- The opening quote where the parser is outside quotes. -/
theorem step_opening {before : Path} (plain : Plain before) :
    step (scanBefore before) '"' =
      ({ (scanBefore before).1.push '"' with inQuote := true }, .main) := by
  obtain ⟨main, outside⟩ := plain
  rw [step, main]
  simp [mainStep, Scan.toggle, Scan.push, outside]

end Reading

section Inertness

variable {before behind : Path}

/-- Outside quotes, a text in quotes goes into the segment whatever it is. -/
theorem scanText_quoted (plain : Plain before) {inside : Path} (noQuote : '"' ∉ inside) :
    step (scanText (step (scanBefore before) '"') inside) '"' =
      ({ (scanBefore before).1 with
        current := (scanBefore before).1.current ++ '"' :: (inside ++ ['"']), inQuote := false },
        .main) := by
  rw [step_opening plain, scanText_inside _ noQuote]
  simp [step, mainStep, Scan.toggle, Scan.push]

theorem not_blank {text : Path} (h : '"' ∈ text) : ¬ Blank text := fun blank =>
  absurd (blank '"' h) (by decide)

/-- The comment of a line comes behind a quoted text that has none. -/
theorem stripComment_quote (plain : ¬ HasComment before) {inside : Path}
    (clear : ¬ HasComment inside) : stripComment (quote before inside behind) =
      before ++ '"' :: (inside ++ '"' :: stripComment behind) := by
  rw [quote, stripComment_behind plain, stripComment_behind clear]

theorem rest_clear (plain : ¬ HasComment before) {inside : Path} (clear : ¬ HasComment inside) :
    (stripComment (quote before inside behind)).drop (before.length + inside.length + 2) =
      stripComment behind := by
  rw [stripComment_quote plain clear]
  have whole : before ++ '"' :: (inside ++ '"' :: stripComment behind) =
      (before ++ '"' :: (inside ++ ['"'])) ++ stripComment behind := by simp
  rw [whole]
  exact List.drop_left' (by simp; omega)

/-- A comment in the quotes leaves nothing of the line. -/
theorem rest_cut (plain : ¬ HasComment before) {inside : Path} (cut : HasComment inside) :
    (stripComment (quote before inside behind)).drop (before.length + inside.length + 2) = [] := by
  rw [quote, stripComment_behind plain, stripComment_before cut]
  have short := stripComment_length inside
  apply List.drop_eq_nil_of_le
  rw [List.length_append, List.length_cons]
  omega

theorem comment_quote (inside : Path) : (findComment (quote before inside behind)).isSome =
    ((findComment before).isSome || (findComment inside).isSome || (findComment behind).isSome) := by
  rw [quote, findComment_quote, findComment_quote]
  cases findComment before <;> cases findComment inside <;> cases findComment behind <;> rfl

/-- Everything behind a comment is lost. -/
theorem sameReading_comment (cut : HasComment before) (one other : Path) :
    SameReading before behind one other := by
  have strip : ∀ inside, stripComment (quote before inside behind) = stripComment before :=
    fun inside => stripComment_before cut _
  have line : ∀ inside, executeLine (quote before inside behind) = executeLine (before ++ ['"']) := by
    intro inside
    rw [executeLine, executeLine, strip, stripComment_before cut]
  have short := stripComment_length before
  refine ⟨?_, ?_, by rw [line, line], by rw [line, line]⟩
  · rw [comment_quote, comment_quote, show (findComment before).isSome = true from cut]
    rfl
  · rw [strip, strip, List.drop_eq_nil_of_le (by omega), List.drop_eq_nil_of_le (by omega)]

/-- Outside quotes and targets, texts without a double colon make no difference. -/
theorem sameReading_plain (noComment : ¬ HasComment before) (plain : Plain before) {one other : Path}
    (oneQuote : '"' ∉ one) (otherQuote : '"' ∉ other) (oneClear : ¬ HasComment one)
    (otherClear : ¬ HasComment other) : SameReading before behind one other := by
  have line : ∀ inside, '"' ∉ inside → ¬ HasComment inside →
      executeLine (quote before inside behind) = some (finish (scanText
        ({ (scanBefore before).1 with
          current := (scanBefore before).1.current ++ '"' :: (inside ++ ['"']), inQuote := false },
          .main) ((stripComment behind).rdropWhile isWhitespace))).command := by
    intro inside noQuote clear
    rw [executeLine_quote noComment, stripComment_behind clear,
      rdropWhile_stop (by decide : isWhitespace '"' = false), scanText_append]
    change some (finish (scanText (step _ '"') _)).command = _
    rw [scanText_quoted plain noQuote]
  have alike : AlikeStates 0
      ({ (scanBefore before).1 with
        current := (scanBefore before).1.current ++ '"' :: (one ++ ['"']), inQuote := false }, .main)
      ({ (scanBefore before).1 with
        current := (scanBefore before).1.current ++ '"' :: (other ++ ['"']), inQuote := false },
        .main) := by
    refine ⟨rfl, rfl, rfl, rfl, rfl, Iff.rfl, ?_⟩
    exact iff_of_false (not_blank (by simp)) (not_blank (by simp))
  obtain ⟨count, stdin, stdout⟩ := command_alike (finish_alike
    (scanText_alike alike ((stripComment behind).rdropWhile isWhitespace)))
  refine ⟨?_, ?_, ?_, ?_⟩
  · rw [comment_quote, comment_quote, Option.not_isSome_iff_eq_none.mp oneClear,
      Option.not_isSome_iff_eq_none.mp otherClear]
  · rw [rest_clear noComment oneClear, rest_clear noComment otherClear]
  · rw [line one oneQuote oneClear, line other otherQuote otherClear]
    exact congrArg some count.symm
  · rw [line one oneQuote oneClear, line other otherQuote otherClear]
    exact congrArg some (Prod.ext stdin.symm stdout.symm)

/-- Where a comment follows the quotes, a comment in them cuts off nothing else. -/
theorem executeLine_ended (noComment : ¬ HasComment before) (plain : Plain before)
    (ended : stripComment behind = []) {inside : Path} (noQuote : '"' ∉ inside) :
    ∃ current inQuote, '"' ∈ current ∧ executeLine (quote before inside behind) =
      some ({ (scanBefore before).1 with current, inQuote } : Scan).command := by
  rw [executeLine_quote noComment]
  by_cases clear : HasComment inside
  · have sub : '"' ∉ (stripComment inside).rdropWhile isWhitespace :=
      fun member => noQuote (strip_subset inside member)
    rw [stripComment_before clear, step_opening plain, scanText_inside _ sub]
    exact ⟨_, true, by simp [Scan.push], rfl⟩
  · rw [stripComment_behind clear, ended, rdropWhile_stop (by decide : isWhitespace '"' = false),
      scanText_append]
    change ∃ current inQuote, '"' ∈ current ∧ some (finish (step _ '"')).command = _
    rw [scanText_quoted plain noQuote]
    exact ⟨_, false, by simp, rfl⟩

theorem sameReading_ended (noComment : ¬ HasComment before) (plain : Plain before)
    (ended : findComment behind = some 0) {one other : Path} (oneQuote : '"' ∉ one)
    (otherQuote : '"' ∉ other) : SameReading before behind one other := by
  have nothing : stripComment behind = [] := by
    rw [stripComment, ended]
    rfl
  have rest : ∀ inside : Path, (stripComment (quote before inside behind)).drop
      (before.length + inside.length + 2) = [] := by
    intro inside
    by_cases clear : HasComment inside
    · exact rest_cut noComment clear
    · rw [rest_clear noComment clear, nothing]
  obtain ⟨current, inQuote, has, line⟩ := executeLine_ended noComment plain nothing oneQuote
  obtain ⟨current', inQuote', has', line'⟩ := executeLine_ended noComment plain nothing otherQuote
  refine ⟨?_, by rw [rest, rest], ?_, ?_⟩
  · rw [comment_quote, comment_quote, ended]
    simp
  · rw [line, line', Option.map_some, Option.map_some, command_last _ has, command_last _ has']
  · rw [line, line']
    rfl

/-- Quotes are not counted in the name of a target. -/
def Quiet (state : ScanState) : Prop := state.2 ≠ .main → state.1.inQuote = false

theorem mainStep_quiet (scan : Scan) (ch : Char) : Quiet (mainStep scan ch) := by
  unfold mainStep
  split_ifs with quoted inside
  · exact fun other => absurd rfl other
  · exact fun other => absurd rfl other
  · exact fun other => absurd rfl other
  · exact fun _ => Bool.eq_false_iff.mpr inside
  · exact fun _ => Bool.eq_false_iff.mpr inside
  · exact fun other => absurd rfl other

theorem gapStep_quiet {scan : Scan} (outside : scan.inQuote = false) (target : Target) (ch : Char) :
    Quiet (gapStep scan target ch) := by
  unfold gapStep nameStep
  split
  · exact fun _ => outside
  · split
    · exact mainStep_quiet _ ch
    · exact fun _ => outside

theorem step_quiet {state : ScanState} (h : Quiet state) (ch : Char) : Quiet (step state ch) := by
  unfold step
  cases place : state.2 with
  | main => exact mainStep_quiet _ ch
  | more =>
    have outside := h (by rw [place]; exact nofun)
    dsimp only
    split
    · exact fun _ => outside
    · exact gapStep_quiet outside _ ch
  | gap target => exact gapStep_quiet (h (by rw [place]; exact nofun)) target ch
  | name target fname =>
    have outside := h (by rw [place]; exact nofun)
    dsimp only [nameStep]
    split
    · exact mainStep_quiet _ ch
    · exact fun _ => outside

theorem scanText_quiet {state : ScanState} (h : Quiet state) (text : Path) :
    Quiet (scanText state text) := by
  induction text generalizing state with
  | nil => exact h
  | cons ch text ih => exact ih (step_quiet h ch)

theorem redirect_outside {scan : Scan} (outside : scan.inQuote = false) (target : Target)
    (fname : Path) : (scan.redirect target fname).inQuote = false := by
  unfold Scan.redirect
  split
  · exact outside
  · cases target <;> exact outside

/-- Where the opening quote closes one or belongs to a target, a pipe in the text is a pipe. -/
theorem step_pipe {state : ScanState} (quiet : Quiet state)
    (other : ¬ (state.2 = .main ∧ state.1.inQuote = false)) :
    ∃ scan, step (step state '"') '|' = (scan, .main) ∧ scan.inQuote = false ∧
      scan.segments ≠ [] ∧ scan.current = [] := by
  have named : ∀ scan : Scan, scan.inQuote = false → ∀ target fname,
      ∃ next, step (scan, .name target fname) '|' = (next, .main) ∧ next.inQuote = false ∧
        next.segments ≠ [] ∧ next.current = [] := by
    intro scan outside target fname
    have kept := redirect_outside outside target fname
    refine ⟨(scan.redirect target fname).segment, ?_, kept, by simp [Scan.segment], rfl⟩
    simp [step, nameStep, endsName, mainStep, kept]
  obtain ⟨scan, mode⟩ := state
  cases mode with
  | main =>
    have inside : scan.inQuote = true := by simpa using other
    refine ⟨(scan.toggle.push '"').segment, ?_, ?_, by simp [Scan.segment], rfl⟩
    · simp [step, mainStep, Scan.toggle, Scan.push, inside]
    · simp [Scan.segment, Scan.push, Scan.toggle, inside]
  | more => exact named scan (quiet fun main => by cases main) (.stdout false) ['"']
  | gap target => exact named scan (quiet fun main => by cases main) target ['"']
  | name target fname => exact named scan (quiet fun main => by cases main) target (fname ++ ['"'])

/-- Two pipes make one segment more than one. -/
theorem not_sameReading_pipes (noComment : ¬ HasComment before) (other : ¬ Plain before) :
    ¬ SameReading before behind ['|'] ['|', '|'] := by
  intro same
  have quiet : Quiet (scanBefore before) := scanText_quiet (fun other => absurd rfl other) _
  obtain ⟨scan, one, outside, some_, empty⟩ := step_pipe quiet other
  have two : step (scan, .main) '|' = (scan.segment, .main) := by
    simp [step, mainStep, outside]
  have alike : AlikeStates 1 (scan, .main) (scan.segment, .main) := by
    refine ⟨rfl, rfl, rfl, rfl, by simp [Scan.segment], by simp [Scan.segment, some_], ?_⟩
    rw [empty]
    exact Iff.rfl
  have clear : ¬ HasComment ['|'] ∧ ¬ HasComment ['|', '|'] := by decide
  have count := same.segments
  rw [executeLine_quote noComment, executeLine_quote noComment, stripComment_behind clear.1,
    stripComment_behind clear.2, rdropWhile_stop (by decide : isWhitespace '"' = false),
    rdropWhile_stop (by decide : isWhitespace '"' = false), scanText_append, scanText_append] at count
  change some (finish (scanText (step (step _ '|') '"') _)).command.segments.length =
    some (finish (scanText (step (step (step _ '|') '|') '"') _)).command.segments.length at count
  rw [one, two] at count
  have more := (command_alike (finish_alike (scanText_alike (step_alike alike '"')
    ((stripComment behind).rdropWhile isWhitespace)))).1
  have := Option.some.inj count
  omega

theorem inert_iff (before behind : Path) :
    Inert (fun _ => True) before behind ↔
      HasComment before ∨ (Plain before ∧ findComment behind = some 0) := by
  constructor
  · intro inert
    by_cases cut : HasComment before
    · exact Or.inl cut
    have plain : Plain before := by
      by_contra other
      exact not_sameReading_pipes cut other (inert _ _ (by decide) (by decide) trivial trivial)
    have colons := inert [] [':', ':'] (by decide) (by decide) trivial trivial
    have comment := colons.comment
    have rest := colons.rest
    rw [comment_quote, comment_quote, Option.not_isSome_iff_eq_none.mp cut] at comment
    rw [rest_clear cut (by decide), rest_cut cut (by decide)] at rest
    have found : (findComment behind).isSome = true := by simpa [findComment] using comment
    obtain ⟨pos, at_pos⟩ := Option.isSome_iff_exists.mp found
    have short := findComment_lt at_pos
    rw [stripComment, at_pos] at rest
    have zero : pos = 0 := by
      have length := congrArg List.length rest
      rw [List.length_take, List.length_nil] at length
      omega
    exact Or.inr ⟨plain, by rw [at_pos, zero]⟩
  · rintro (cut | ⟨plain, ended⟩) one other oneQuote otherQuote _ _
    · exact sameReading_comment cut one other
    · by_cases cut : HasComment before
      · exact sameReading_comment cut one other
      · exact sameReading_ended cut plain ended oneQuote otherQuote

theorem inert_clear_iff (before behind : Path) :
    Inert (fun text => ¬ HasComment text) before behind ↔ HasComment before ∨ Plain before := by
  constructor
  · intro inert
    by_cases cut : HasComment before
    · exact Or.inl cut
    right
    by_contra other
    exact not_sameReading_pipes cut other
      (inert _ _ (by decide) (by decide) (by decide) (by decide))
  · rintro (cut | plain) one other oneQuote otherQuote oneClear otherClear
    · exact sameReading_comment cut one other
    · by_cases cut : HasComment before
      · exact sameReading_comment cut one other
      · exact sameReading_plain cut plain oneQuote otherQuote oneClear otherClear

end Inertness

section Targets

variable {before name behind : Path}

theorem hasComment_iff (text : Path) : HasComment text ↔ [':', ':'] <:+: text := by
  induction text with
  | nil => simp [HasComment, findComment]
  | cons c text ih =>
    have here : [':', ':'] <+: c :: text ↔ c = ':' ∧ text.head? = some ':' := by
      cases text with
      | nil => simp
      | cons d text => simp [eq_comm]
    rw [List.infix_cons_iff, here, ← ih, HasComment, HasComment, findComment]
    split <;> simp_all

/-- Nothing that is read has a comment in it. -/
theorem stripComment_clear (text : Path) : ¬ HasComment (stripComment text) := by
  induction text with
  | nil => decide
  | cons c text ih =>
    unfold stripComment at ih ⊢
    rw [findComment]
    split_ifs with colons
    · exact (by decide : ¬ HasComment [])
    · cases found : findComment text with
      | none =>
        rw [found] at ih
        simp [HasComment, findComment, colons, found]
      | some pos =>
        rw [found] at ih
        simp only [Option.map_some, List.take_succ_cons]
        have next : ¬ (c = ':' ∧ (text.take pos).head? = some ':') := by
          rintro ⟨colon, head⟩
          apply colons
          cases text with
          | nil => simp at head
          | cons d text =>
            cases pos with
            | zero => simp at head
            | succ pos => exact ⟨colon, head⟩
        rw [HasComment, findComment, if_neg next, Option.isSome_map]
        exact ih

/-- A name as the parser takes it from a text. -/
def NameIn (fname text : Path) : Prop := (∀ ch ∈ fname, endsName ch = false) ∧ fname <:+: text

theorem NameIn.snoc {fname text : Path} (h : NameIn fname text) (ch : Char) :
    NameIn fname (text ++ [ch]) :=
  ⟨h.1, h.2.trans (List.prefix_append _ _).isInfix⟩

/-- The names that a scan has taken are in the text behind it. -/
structure Names (text : Path) (scan : Scan) : Prop where
  stdin : ∀ fname, scan.stdinFile = some fname → NameIn fname text
  stdout : ∀ fname append, scan.stdoutRedir = some (fname, append) → NameIn fname text

/-- The name that is being read ends where the scan is. -/
structure NamesAt (text : Path) (state : ScanState) : Prop extends Names text state.1 where
  reading : ∀ target fname, state.2 = .name target fname →
    (∀ ch ∈ fname, endsName ch = false) ∧ fname <:+ text

theorem Names.redirect {text : Path} {scan : Scan} (h : Names text scan) (target : Target)
    {fname : Path} (named : NameIn fname text) : Names text (scan.redirect target fname) := by
  unfold Scan.redirect
  split
  · exact h
  · cases target with
    | stdin =>
      refine ⟨fun other taken => ?_, h.stdout⟩
      cases taken
      exact named
    | stdout append =>
      refine ⟨h.stdin, fun other appends taken => ?_⟩
      cases taken
      exact named

theorem Names.snoc {text : Path} {scan : Scan} (h : Names text scan) (ch : Char) :
    Names (text ++ [ch]) scan :=
  ⟨fun fname taken => (h.stdin fname taken).snoc ch,
    fun fname append taken => (h.stdout fname append taken).snoc ch⟩

theorem mainStep_names {text : Path} {scan : Scan} (h : Names text scan) (ch : Char) :
    NamesAt text (mainStep scan ch) := by
  unfold mainStep
  split_ifs <;> exact ⟨⟨h.stdin, h.stdout⟩, nofun⟩

theorem nameStep_names {text : Path} {scan : Scan} (h : Names text scan) (target : Target)
    {fname : Path} (ch : Char) (clear : ∀ ch ∈ fname, endsName ch = false) (last : fname <:+ text) :
    NamesAt (text ++ [ch]) (nameStep scan target fname ch) := by
  unfold nameStep
  split
  · exact mainStep_names ((h.redirect target ⟨clear, last.isInfix⟩).snoc ch) ch
  · rename_i inside
    refine ⟨h.snoc ch, fun other longer taken => ?_⟩
    cases taken
    refine ⟨?_, ?_⟩
    · rw [List.forall_mem_append, List.forall_mem_singleton]
      exact ⟨clear, Bool.eq_false_iff.mpr inside⟩
    · obtain ⟨front, rfl⟩ := last
      exact ⟨front, (List.append_assoc front fname [ch]).symm⟩

theorem gapStep_names {text : Path} {scan : Scan} (h : Names text scan) (target : Target)
    (ch : Char) : NamesAt (text ++ [ch]) (gapStep scan target ch) := by
  unfold gapStep
  split
  · exact ⟨h.snoc ch, nofun⟩
  · exact nameStep_names h target ch (List.forall_mem_nil _) (List.nil_suffix)

theorem step_names {text : Path} {state : ScanState} (h : NamesAt text state) (ch : Char) :
    NamesAt (text ++ [ch]) (step state ch) := by
  unfold step
  cases place : state.2 with
  | main => exact mainStep_names (h.toNames.snoc ch) ch
  | more =>
    dsimp only
    split
    · exact ⟨h.toNames.snoc ch, nofun⟩
    · exact gapStep_names h.toNames _ ch
  | gap target => exact gapStep_names h.toNames target ch
  | name target fname =>
    obtain ⟨clear, last⟩ := h.reading target fname place
    exact nameStep_names h.toNames target ch clear last

theorem scanText_names {text : Path} {state : ScanState} (h : NamesAt text state) (rest : Path) :
    NamesAt (text ++ rest) (scanText state rest) := by
  induction rest generalizing text state with
  | nil => rwa [List.append_nil]
  | cons ch rest ih =>
    have next := ih (step_names h ch)
    rwa [List.append_assoc] at next

theorem finish_names {text : Path} {state : ScanState} (h : NamesAt text state) :
    Names text (finish state) := by
  unfold finish
  cases place : state.2 with
  | name target fname =>
    obtain ⟨clear, last⟩ := h.reading target fname place
    exact h.toNames.redirect target ⟨clear, last.isInfix⟩
  | _ => exact h.toNames

/-- A target ends at a space, at an operator and at a pipe, in quotes or not. -/
theorem target_names {line fname : Path} {command : ParsedCommand} {target : Target}
    (read : executeLine line = some command) (taken : command.target target = some fname) :
    (∀ ch ∈ fname, endsName ch = false) ∧ ¬ HasComment fname := by
  unfold executeLine at read
  dsimp only at read
  split at read
  · cases read
  · have parsed := Option.some.inj read
    rw [parseCommand, parseLoop_eq _ _ _ (Nat.le_refl _)] at parsed
    have start : NamesAt [] (Scan.start, Mode.main) := ⟨⟨nofun, nofun⟩, nofun⟩
    have names := finish_names (scanText_names start (trim (stripComment line)))
    have named : NameIn fname (trim (stripComment line)) := by
      rw [← parsed] at taken
      cases target with
      | stdin => exact names.stdin fname taken
      | stdout append =>
        obtain ⟨⟨found, appends⟩, kept, rfl⟩ := Option.map_eq_some_iff.mp taken
        exact names.stdout _ appends (Option.filter_eq_some_iff.mp kept).1
    refine ⟨named.1, fun comment => stripComment_clear line ?_⟩
    rw [hasComment_iff] at comment ⊢
    exact comment.trans (named.2.trans (trim_within _))

/-- The name begins with a text and is taken, or is still being read. -/
def Held (target : Target) (front : Path) (state : ScanState) : Prop :=
  ∃ fname, front <+: fname ∧ (state.2 = .name target fname ∨
    state.2 = .main ∧ state.1.command.target target = some fname)

theorem target_redirect (scan : Scan) (target : Target) {fname : Path} (some_ : fname ≠ []) :
    (scan.redirect target fname).command.target target = some fname := by
  unfold Scan.redirect
  rw [if_neg some_]
  cases target with
  | stdin => rfl
  | stdout append => simp [ParsedCommand.target, Scan.command]

theorem mainStep_target {scan : Scan} {target : Target} {fname : Path} {ch : Char}
    (taken : scan.command.target target = some fname) (input : ch ≠ '<') (out : ch ≠ '>') :
    (mainStep scan ch).2 = .main ∧
      (mainStep scan ch).1.command.target target = some fname := by
  have same : ∀ other : Scan, other.stdinFile = scan.stdinFile →
      other.stdoutRedir = scan.stdoutRedir → other.command.target target = some fname := by
    intro other stdin stdout
    rw [← taken]
    cases target with
    | stdin => exact stdin
    | stdout append =>
      exact congrArg (fun redir : Option (Path × Bool) =>
        (redir.filter (·.2 = append)).map (·.1)) stdout
  unfold mainStep
  split_ifs
  · exact ⟨rfl, same _ rfl rfl⟩
  · exact ⟨rfl, same _ rfl rfl⟩
  · exact ⟨rfl, same _ rfl rfl⟩
  · exact ⟨rfl, same _ rfl rfl⟩

theorem step_held {target : Target} {front : Path} (some_ : front ≠ []) {state : ScanState}
    (h : Held target front state) {ch : Char} (input : ch ≠ '<') (out : ch ≠ '>') :
    Held target front (step state ch) := by
  obtain ⟨fname, begins, reading | ⟨main, taken⟩⟩ := h
  · have named : fname ≠ [] := fun none_ => some_ (List.prefix_nil.mp (none_ ▸ begins))
    unfold step nameStep
    rw [reading]
    dsimp only
    split
    · exact ⟨fname, begins, Or.inr (mainStep_target (target_redirect _ _ named) input out)⟩
    · exact ⟨fname ++ [ch], begins.trans (List.prefix_append _ _), Or.inl rfl⟩
  · unfold step
    rw [main]
    exact ⟨fname, begins, Or.inr (mainStep_target taken input out)⟩

theorem scanText_held {target : Target} {front : Path} (some_ : front ≠ []) {state : ScanState}
    (h : Held target front state) {text : Path} (input : '<' ∉ text) (out : '>' ∉ text) :
    Held target front (scanText state text) := by
  induction text generalizing state with
  | nil => exact h
  | cons ch text ih =>
    rw [List.mem_cons, not_or] at input out
    exact ih (step_held some_ h (Ne.symm input.1) (Ne.symm out.1)) input.2 out.2

/-- Behind an operator and spaces a quote begins the name. -/
theorem scanText_operator (scan : Scan) (outside : scan.inQuote = false) (target : Target)
    (spaces : Nat) : scanText (scan, .main) (operator target ++ List.replicate spaces ' ' ++ ['"']) =
      (scan, .name target ['"']) := by
  have gap : ∀ count, scanText (scan, .gap target) (List.replicate count ' ' ++ ['"']) =
      (scan, .name target ['"']) := by
    intro count
    induction count with
    | zero => rfl
    | succ count ih => exact ih
  rw [List.append_assoc, scanText_append]
  cases target with
  | stdin =>
    have one : scanText (scan, .main) (operator .stdin) = (scan, .gap .stdin) := by
      simp [scanText, operator, step, mainStep, outside]
    rw [one, gap]
  | stdout append =>
    cases append with
    | true =>
      have one : scanText (scan, .main) (operator (.stdout true)) = (scan, .gap (.stdout true)) := by
        simp [scanText, operator, step, mainStep, outside]
      rw [one, gap]
    | false =>
      have one : scanText (scan, .main) (operator (.stdout false)) = (scan, .more) := by
        simp [scanText, operator, step, mainStep, outside]
      rw [one]
      cases spaces with
      | zero => rfl
      | succ count => exact gap count

/-- A name without a character that ends it is read whole. -/
theorem scanText_whole (scan : Scan) (target : Target) (fname : Path) {text : Path}
    (clear : ∀ ch ∈ text, endsName ch = false) :
    scanText (scan, .name target fname) text = (scan, .name target (fname ++ text)) := by
  induction text generalizing fname with
  | nil => simp [scanText]
  | cons ch text ih =>
    rw [List.forall_mem_cons] at clear
    have one : step (scan, .name target fname) ch = (scan, .name target (fname ++ [ch])) := by
      simp [step, nameStep, clear.1]
    change scanText (step _ ch) text = _
    rw [one, ih _ clear.2]
    simp

/-- An operator is a character that is no colon and no white space, and maybe another. -/
theorem operator_cons (target : Target) : ∃ ch rest, operator target = ch :: rest ∧ ch ≠ ':' ∧
    ':' ∉ rest ∧ isWhitespace ch = false := by
  cases target with
  | stdin => exact ⟨'<', [], rfl, by decide, by decide, by decide⟩
  | stdout append =>
    cases append with
    | true => exact ⟨'>', ['>'], rfl, by decide, by decide, by decide⟩
    | false => exact ⟨'>', [], rfl, by decide, by decide, by decide⟩

theorem operator_clear (noComment : ¬ HasComment before) (target : Target) (spaces : Nat) :
    ¬ HasComment (before ++ operator target ++ List.replicate spaces ' ') := by
  obtain ⟨ch, rest, written, noColon, rests, _⟩ := operator_cons target
  have behind : ':' ∉ rest ++ List.replicate spaces ' ' := by
    rw [List.mem_append, not_or]
    exact ⟨rests, fun member => absurd (List.eq_of_mem_replicate member) (by decide)⟩
  rw [HasComment, written, List.append_assoc, List.cons_append, findComment_stop noColon,
    findComment_none behind, Option.not_isSome_iff_eq_none.mp noComment]
  exact Bool.false_ne_true

theorem scanBefore_operator (before : Path) (target : Target) (spaces : Nat) :
    scanBefore (before ++ operator target ++ List.replicate spaces ' ') =
      scanText (scanBefore before) (operator target ++ List.replicate spaces ' ') := by
  obtain ⟨ch, rest, written, _, _, visible⟩ := operator_cons target
  have kept : (before ++ (operator target ++ List.replicate spaces ' ')).dropWhile isWhitespace =
      before.dropWhile isWhitespace ++ (operator target ++ List.replicate spaces ' ') := by
    rw [written, List.cons_append, dropWhile_stop visible]
  rw [scanBefore, List.append_assoc, kept, scanText_append]
  rfl

/-- A quoted name is the target just where nothing in it ends a name or begins a comment. -/
theorem targetWhole_iff (noComment : ¬ HasComment before) (plain : Plain before) (target : Target)
    (spaces : Nat) (input : '<' ∉ behind) (out : '>' ∉ behind) :
    TargetWhole before target spaces name behind ↔
      (∀ ch ∈ name, endsName ch = false) ∧ ¬ HasComment name := by
  constructor
  · intro ⟨command, fname, read, taken, begins⟩
    obtain ⟨clear, uncut⟩ := target_names read taken
    have inside : name <:+: fname := by
      have middle : name <:+: '"' :: (name ++ ['"']) := ⟨['"'], ['"'], rfl⟩
      exact middle.trans begins.isInfix
    refine ⟨fun ch member => clear ch (inside.subset member), fun comment => uncut ?_⟩
    rw [hasComment_iff] at comment ⊢
    exact comment.trans inside
  · intro ⟨clear, uncut⟩
    obtain ⟨main, outside⟩ := plain
    have clean := operator_clear noComment target spaces
    have reached : step (scanBefore (before ++ operator target ++ List.replicate spaces ' ')) '"' =
        ((scanBefore before).1, .name target ['"']) := by
      rw [scanBefore_operator]
      change scanText (scanText _ _) ['"'] = _
      rw [← scanText_append, show scanBefore before = ((scanBefore before).1, .main) from
        Prod.ext rfl main]
      exact scanText_operator _ outside target spaces
    have line := executeLine_quote clean name behind
    rw [reached, stripComment_behind uncut, rdropWhile_stop (by decide : isWhitespace '"' = false),
      scanText_append, scanText_whole _ _ _ clear] at line
    have quoted : step ((scanBefore before).1, .name target (['"'] ++ name)) '"' =
        ((scanBefore before).1, .name target ('"' :: (name ++ ['"']))) := by
      simp [step, nameStep, endsName]
    have rest := strip_subset behind
    have held : Held target ('"' :: (name ++ ['"']))
        (scanText ((scanBefore before).1, .name target ('"' :: (name ++ ['"'])))
          ((stripComment behind).rdropWhile isWhitespace)) :=
      scanText_held (List.cons_ne_nil _ _) ⟨_, List.prefix_refl _, Or.inl rfl⟩
        (fun member => input (rest member)) (fun member => out (rest member))
    obtain ⟨fname, begins, ended⟩ := held
    have named : fname ≠ [] := by
      rintro rfl
      exact absurd (List.prefix_nil.mp begins) (List.cons_ne_nil _ _)
    refine ⟨_, fname, line, ?_, begins⟩
    change (finish (scanText (step _ '"') _)).command.target target = _
    rw [quoted]
    unfold finish
    rcases ended with reading | ⟨ended, taken⟩
    · rw [reading]
      exact target_redirect _ _ named
    · rw [ended]
      exact taken

end Targets

/-- Text in quotes is inert for the comment, the segments and the redirections just where a
comment has taken it already, or where one follows the quotes and the parser is outside quotes
and targets. Texts without a double colon need the latter alone. A quoted target is read whole
just where nothing in it ends a name or begins a comment. -/
theorem quoted_text_iff (before behind : Path) :
    (Inert (fun _ => True) before behind ↔
      HasComment before ∨ (Plain before ∧ findComment behind = some 0)) ∧
    (Inert (fun text => ¬ HasComment text) before behind ↔ HasComment before ∨ Plain before) ∧
    ∀ target spaces name, ¬ HasComment before → Plain before → '<' ∉ behind → '>' ∉ behind →
      (TargetWhole before target spaces name behind ↔
        (∀ ch ∈ name, endsName ch = false) ∧ ¬ HasComment name) :=
  ⟨inert_iff before behind, inert_clear_iff before behind,
    fun target spaces _ noComment plain input out =>
      targetWhole_iff noComment plain target spaces input out⟩

theorem quoted_text_out : TargetWhole "echo hi ".toList (.stdout false) 1 ['o', 'u', 't'] [] :=
  ((quoted_text_iff "echo hi ".toList []).2.2 (.stdout false) 1 ['o', 'u', 't'] (by decide)
    (by decide) (by decide) (by decide)).mpr ⟨by simp [endsName], by decide⟩

/-- A double colon in quotes cuts off the pipeline, and a space ends a target in quotes. -/
theorem colons_cut_line :
    executeLine "echo \"ab\" | sort".toList =
      some ⟨["echo \"ab\"".toList, "sort".toList], none, none⟩ ∧
    executeLine "echo \"a::b\" | sort".toList = some ⟨["echo \"a".toList], none, none⟩ ∧
    ¬ Inert (fun _ => True) "echo ".toList " | sort".toList ∧
    executeLine "echo hi > \"my file\"".toList =
      some ⟨["echo hi  file\"".toList], none, some ("\"my".toList, false)⟩ ∧
    ¬ TargetWhole "echo hi ".toList (.stdout false) 1 "my file".toList [] := by
  refine ⟨by decide, by decide, fun inert => ?_, by decide, ?_⟩
  · have same := inert "ab".toList "a::b".toList (by decide) (by decide) trivial trivial
    exact absurd same.segments (by decide)
  · intro ⟨command, fname, read, taken, begins⟩
    have file := (target_names read taken).1 ' ' (begins.subset (by decide))
    exact absurd file (by decide)

section Tokens

/-- A token that has begun goes on over any text in quotes. -/
theorem tokenLoop_inside (token : Path) {inside : Path} (noQuote : '"' ∉ inside) (rest : Path) :
    tokenLoop (some token) true (inside ++ '"' :: rest) =
      tokenLoop (some (token ++ inside ++ ['"'])) false rest := by
  induction inside generalizing token with
  | nil => simp [tokenLoop]
  | cons ch inside ih =>
    rw [List.mem_cons, not_or] at noQuote
    rw [List.cons_append, tokenLoop, if_neg (Ne.symm noQuote.1), if_neg (by simp), Option.getD_some,
      ih _ noQuote.2]
    simp

/-- How many tokens there are does not depend on the text of the one that has begun. -/
theorem tokenLoop_length (token other : Path) (inQuote : Bool) (text : Path) :
    (tokenLoop (some token) inQuote text).length = (tokenLoop (some other) inQuote text).length := by
  induction text generalizing token other inQuote with
  | nil => rfl
  | cons ch text ih =>
    rw [tokenLoop, tokenLoop]
    split_ifs
    · exact ih _ _ _
    · rfl
    · exact ih _ _ _

theorem tokenLoop_cons (start : Option Path) (inQuote : Bool) (b : Char) (rest : Path) :
    tokenLoop start inQuote (b :: rest) =
      if b = '"' then tokenLoop (some (start.getD [] ++ [b])) (!inQuote) rest
      else if b = ' ' ∧ inQuote = false then start.toList ++ tokenLoop none inQuote rest
      else tokenLoop (some (start.getD [] ++ [b])) inQuote rest := by
  cases start <;> rw [tokenLoop]

/-- The tokens up to a place, and how the loop goes on from there. -/
theorem tokenLoop_append (start : Option Path) (inQuote : Bool) (front : Path) :
    ∃ tokens next, ∀ rest, tokenLoop start inQuote (front ++ rest) =
      tokens ++ tokenLoop next (inQuote ^^ decide (front.count '"' % 2 = 1)) rest := by
  induction front generalizing start inQuote with
  | nil => exact ⟨[], start, fun rest => by simp⟩
  | cons ch front ih =>
    by_cases quoted : ch = '"'
    · obtain ⟨tokens, next, goesOn⟩ := ih (some (start.getD [] ++ [ch])) (!inQuote)
      refine ⟨tokens, next, fun rest => ?_⟩
      have parity : (!inQuote ^^ decide (front.count '"' % 2 = 1)) =
          (inQuote ^^ decide ((ch :: front).count '"' % 2 = 1)) := by
        have odd : decide ((front.count '"' + 1) % 2 = 1) = !decide (front.count '"' % 2 = 1) := by
          rw [← decide_not, decide_eq_decide]
          omega
        rw [quoted, List.count_cons_self, odd]
        cases inQuote <;> simp
      rw [List.cons_append, tokenLoop_cons, if_pos quoted, goesOn, parity]
    · have same : (ch :: front).count '"' = front.count '"' := List.count_cons_of_ne quoted
      by_cases space : ch = ' ' ∧ inQuote = false
      · obtain ⟨tokens, next, goesOn⟩ := ih none inQuote
        refine ⟨start.toList ++ tokens, next, fun rest => ?_⟩
        rw [List.cons_append, tokenLoop_cons, if_neg quoted, if_pos space, goesOn, same,
          List.append_assoc]
      · obtain ⟨tokens, next, goesOn⟩ := ih (some (start.getD [] ++ [ch])) inQuote
        refine ⟨tokens, next, fun rest => ?_⟩
        rw [List.cons_append, tokenLoop_cons, if_neg quoted, if_neg space, goesOn, same]

/-- The tokenizer keeps to the quotes: a text in them is part of one token. -/
theorem tokenize_quote (before behind : Path) (matched : before.count '"' % 2 = 0) {one other : Path}
    (oneQuote : '"' ∉ one) (otherQuote : '"' ∉ other) :
    (tokenize (quote before one behind)).length = (tokenize (quote before other behind)).length := by
  obtain ⟨tokens, next, goesOn⟩ := tokenLoop_append none false before
  have outside : (false ^^ decide (before.count '"' % 2 = 1)) = false := by simp [matched]
  have read : ∀ inside : Path, '"' ∉ inside → (tokenize (quote before inside behind)).length =
      tokens.length + (tokenLoop (some (next.getD [] ++ ['"'] ++ inside ++ ['"'])) false
        behind).length := by
    intro inside noQuote
    rw [tokenize, quote, goesOn, outside, tokenLoop_cons, if_pos rfl, Bool.not_false,
      tokenLoop_inside _ noQuote, List.length_append]
  rw [read one oneQuote, read other otherQuote]
  exact congrArg _ (tokenLoop_length _ _ _ _)

end Tokens

end Warpine.Cmd
