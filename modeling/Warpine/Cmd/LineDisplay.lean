import Warpine.Cmd.ReadLine

/-! What the editor displays. After every key, and after each cell that a key erases, the line
has to stand behind the prompt. -/
namespace Warpine.Cmd
open Warpine.Lib Warpine.Loader Warpine.Vfs Warpine.Vio
open VioManager (decodeVioByte Sized)

namespace CmdShell

variable (shell : CmdShell) (ki : KbdKeyInfo)

/-- What a key puts in place of the whole line. -/
def replacement : Option Path :=
  match editKey ki with
  | .escape => some []
  | .up => if 0 < shell.histIdx then some (shell.entry (shell.histIdx - 1)) else none
  | .down =>
    if shell.histIdx < shell.history.length then some (shell.entry (shell.histIdx + 1)) else none
  | _ => none

/-- How many cells a key erases. -/
def erasures : Nat :=
  if (shell.replacement ki).isSome then (asBytes shell.line).length
  else if editKey ki = .backspace ∧ shell.line ≠ [] then 1
  else 0

end CmdShell

/-- The character that a key adds. -/
def typed (ki : KbdKeyInfo) : Option UInt8 :=
  match editKey ki with
  | .printable ch => some ch
  | _ => none

/-- The shell, and the screen as it was when the line was begun. -/
structure Session where
  shell : CmdShell
  opened : VioManager

namespace Session

def begin (history : List Path) (shared : System) : Session :=
  ⟨{ shared, history, line := [], histIdx := history.length }, shared.console⟩

variable (rs : EncodingRs) (session : Session)

/-- Behind the prompt are the characters of the line, and behind them the cursor. -/
def LineShown : Prop :=
  ∃ scrolled, Displays session.opened session.shell.console scrolled session.shell.line

/-- No erasure of a key moves the cursor to the left of the end of the prompt. -/
def StaysRight (ki : KbdKeyInfo) : Prop :=
  ∃ scrolled, Displays session.opened session.shell.console scrolled session.shell.line ∧
    ∀ n ≤ session.shell.erasures ki, cursorAt session.opened ≤
      cursorAt (session.shell.eraseInput rs n).console + scrolled * session.opened.cols

/-- A text on the screen is less than a screenful from the row of the prompt's end on. -/
def Fits (text : Path) : Prop :=
  session.opened.cursorCol + text.length < session.opened.rows * session.opened.cols

/-- What a key may meet: a line that can be replaced, a character in front of the cursor in
its row, and a byte that stands for the same character to the codepage and to the line. -/
def Right (ki : KbdKeyInfo) : Prop :=
  (∀ text ∈ session.shell.replacement ki, session.shell.Erasable ∧
    Echoed rs session.shell.shared.activeCodepage text ∧ session.Fits text) ∧
  (editKey ki = .backspace → session.shell.line ≠ [] → 0 < session.shell.console.cursorCol) ∧
  ∀ ch ∈ typed ki,
    decodeVioByte rs ch session.shell.shared.activeCodepage = Char.ofNat ch.toNat ∧
      session.Fits (session.shell.line ++ [Char.ofNat ch.toNat])

instance (text : Path) : Decidable (session.Fits text) := inferInstanceAs (Decidable (_ < _))
instance (ki : KbdKeyInfo) : Decidable (session.Right rs ki) :=
  @instDecidableAnd _ _ (Option.decidableForallMem _)
    (@instDecidableAnd _ _ inferInstance (Option.decidableForallMem _))

end Session

inductive SessionEvent where
  | key (ki : KbdKeyInfo)
  /-- Enter, with what the command and the next prompt leave. -/
  | line (ki : KbdKeyInfo) (shared : System)

def SessionEvent.ki : SessionEvent → KbdKeyInfo
  | .key ki => ki
  | .line ki _ => ki

inductive SessionStep (rs : EncodingRs) : Step Session SessionEvent where
  | key {shell next : CmdShell} {opened : VioManager} {ki : KbdKeyInfo}
      (more : shell.readLineKey rs ki = (next, none)) :
      SessionStep rs ⟨shell, opened⟩ (.key ki) ⟨next, opened⟩
  | line {shell next : CmdShell} {opened : VioManager} {ki : KbdKeyInfo} {text : Path}
      {shared : System} (entered : shell.readLineKey rs ki = (next, some text))
      (sized : Sized shared.console) :
      SessionStep rs ⟨shell, opened⟩ (.line ki shared) ⟨next.nextLine text shared, shared.console⟩

section Keys

variable {rs : EncodingRs} {shell next : CmdShell} {opened : VioManager} {scrolled : Nat}
  {ki : KbdKeyInfo}

theorem editKey_printable {ch : UInt8} (key : editKey ki = .printable ch) : 0x20 ≤ ch := by
  unfold editKey at key
  split_ifs at key
  rename_i printable
  cases key
  exact printable

theorem Displays.backspace (displays : Displays opened shell.console scrolled shell.line)
    (nonempty : shell.line ≠ []) (room : 0 < shell.console.cursorCol) :
    Displays opened (shell.eraseInput rs 1).console scrolled shell.line.dropLast := by
  have long := List.length_pos_iff.mpr nonempty
  have inside := displays.sized.cursorCol
  exact (@Displays.erase _ _ _ rs shell.shared.activeCodepage _ attrNormal displays (by omega)
    (by omega)).1

/-- One key that does not end the line. -/
theorem readLineKey_displays (more : shell.readLineKey rs ki = (next, none))
    (displays : Displays opened shell.console scrolled shell.line)
    (right : Session.Right rs ⟨shell, opened⟩ ki) :
    ∃ scrolled, Displays opened next.console scrolled next.line := by
  obtain ⟨replaced, back, added⟩ := right
  unfold CmdShell.readLineKey at more
  unfold CmdShell.replacement at replaced
  unfold typed at added
  cases key : editKey ki with
  | enter =>
    rw [key] at more
    cases congrArg Prod.snd more
  | backspace =>
    rw [key] at more
    dsimp only at more
    split at more
    · cases more
      exact ⟨scrolled, displays⟩
    · rename_i nonempty
      cases more
      exact ⟨scrolled, @Displays.backspace rs _ _ _ displays nonempty (back key nonempty)⟩
  | escape =>
    rw [key] at more replaced
    cases more
    obtain ⟨erasable, _, _⟩ := replaced [] rfl
    exact ⟨scrolled, @Displays.erased rs _ _ _ displays erasable⟩
  | up =>
    rw [key] at more replaced
    dsimp only at more replaced
    split at more
    · rename_i some_
      cases more
      rw [if_pos some_] at replaced
      obtain ⟨erasable, echoed, fits⟩ := replaced _ rfl
      exact @Displays.replace rs _ _ { shell with histIdx := shell.histIdx - 1 } _ displays erasable
        echoed fits
    · cases more
      exact ⟨scrolled, displays⟩
  | down =>
    rw [key] at more replaced
    dsimp only at more replaced
    split at more
    · rename_i some_
      cases more
      rw [if_pos some_] at replaced
      obtain ⟨erasable, echoed, fits⟩ := replaced _ rfl
      exact @Displays.replace rs _ _ { shell with histIdx := shell.histIdx + 1 } _ displays erasable
        echoed fits
    · cases more
      exact ⟨scrolled, displays⟩
  | printable ch =>
    rw [key] at more added
    cases more
    obtain ⟨same, fits⟩ := added ch rfl
    unfold Session.Fits at fits
    rw [List.length_append, List.length_singleton] at fits
    have shown := @Displays.type _ _ _ rs shell.shared.activeCodepage _ attrNormal ch displays
      (isControl_printable (editKey_printable key)) fits
    rw [same] at shown
    exact shown
  | other =>
    rw [key] at more
    cases more
    exact ⟨scrolled, displays⟩

/-- The cursor never is in front of the place where the line begins. -/
theorem Displays.behind {vio : VioManager} {line : Path}
    (displays : Displays opened vio scrolled line) :
    cursorAt opened ≤ cursorAt vio + scrolled * opened.cols := by
  rw [displays.cursor]
  exact Nat.le_add_right _ _

theorem erasures_stay (displays : Displays opened shell.console scrolled shell.line)
    (right : Session.Right rs ⟨shell, opened⟩ ki) :
    Session.StaysRight rs ⟨shell, opened⟩ ki := by
  refine ⟨scrolled, displays, ?_⟩
  intro n le
  obtain ⟨replaced, back, _⟩ := right
  dsimp only at replaced back le ⊢
  unfold CmdShell.erasures at le
  split at le
  · rename_i some_
    obtain ⟨text, htext⟩ := Option.isSome_iff_exists.mp some_
    exact (@Displays.eraseInput rs _ _ _ displays (replaced text htext).1 n le).1.behind
  · split at le
    · rename_i both
      have erased := @Displays.backspace rs _ _ _ displays both.2 (back both.1 both.2)
      cases n with
      | zero => exact displays.behind
      | succ n =>
        have one : n = 0 := by omega
        rw [one]
        exact erased.behind
    · rw [Nat.le_zero.mp le]
      exact displays.behind

theorem SessionStep.shown {start finish : Session} {event : SessionEvent}
    (shown : start.LineShown) (right : start.Right rs event.ki)
    (step : SessionStep rs start event finish) : finish.LineShown := by
  obtain ⟨scrolled, displays⟩ := shown
  cases step with
  | key more => exact readLineKey_displays more displays right
  | line _ sized => exact ⟨0, .begin sized⟩

end Keys

/-- Every right key keeps the line displayed. -/
theorem session_shown {rs : EncodingRs} {history : List Path} {shared : System}
    (sized : Sized shared.console) {events : List SessionEvent} {session : Session}
    (run : Run ((SessionStep rs).guarded fun session event => session.Right rs event.ki)
      (Session.begin history shared) events session) : session.LineShown := by
  apply run.invariant Session.LineShown
  · intro start event finish shown step
    exact step.2.shown shown step.1
  · exact ⟨0, .begin sized⟩

/-- The editor over whole sessions, from any history and any screen on: as long as every key is
right, the line is displayed, and the erasures of the next key stay behind the prompt. -/
theorem line_displayed (rs : EncodingRs) (history : List Path) {shared : System}
    (sized : Sized shared.console) {events : List SessionEvent} {session : Session}
    (run : Run ((SessionStep rs).guarded fun session event => session.Right rs event.ki)
      (Session.begin history shared) events session) :
    session.LineShown ∧ ∀ ki, session.Right rs ki → session.StaysRight rs ki := by
  obtain ⟨scrolled, displays⟩ := session_shown sized run
  refine ⟨⟨scrolled, displays⟩, ?_⟩
  intro ki right
  exact erasures_stay displays right

section Ascii

variable {rs : EncodingRs} {shell next : CmdShell} {ki : KbdKeyInfo}

/-- What a key makes of the line, which it takes from the history or from the line before. The
place in the history stays in it. -/
theorem readLineKey_line {result : Option Path} (turn : shell.readLineKey rs ki = (next, result)) :
    next.history = shell.history ∧
      (shell.histIdx ≤ shell.history.length → next.histIdx ≤ shell.history.length) ∧
      (next.line = [] ∨ next.line ∈ shell.history ∨ next.line <+: shell.line ∨
        ∃ ch ∈ typed ki, next.line = shell.line ++ [Char.ofNat ch.toNat]) ∧
      ∀ text ∈ result, text = shell.line := by
  unfold CmdShell.readLineKey at turn
  unfold typed
  cases key : editKey ki with
  | enter =>
    rw [key] at turn
    cases turn
    exact ⟨rfl, id, Or.inr (Or.inr (Or.inl List.prefix_rfl)), by simp⟩
  | backspace =>
    rw [key] at turn
    dsimp only at turn
    split at turn
    · cases turn
      exact ⟨rfl, id, Or.inr (Or.inr (Or.inl List.prefix_rfl)), by simp⟩
    · cases turn
      exact ⟨rfl, id, Or.inr (Or.inr (Or.inl (List.dropLast_prefix _))), by simp⟩
  | escape =>
    rw [key] at turn
    cases turn
    exact ⟨CmdShell.eraseInput_history _, fun _ => Nat.le_refl _, Or.inl rfl, by simp⟩
  | up =>
    rw [key] at turn
    dsimp only at turn
    split at turn
    · cases turn
      refine ⟨CmdShell.eraseInput_history _, ?_, (CmdShell.entry_cases _).imp_right Or.inl, by simp⟩
      intro inside
      exact (CmdShell.eraseInput_histIdx _).trans_le ((Nat.sub_le _ 1).trans inside)
    · cases turn
      exact ⟨rfl, id, Or.inr (Or.inr (Or.inl List.prefix_rfl)), by simp⟩
  | down =>
    rw [key] at turn
    dsimp only at turn
    split at turn
    · rename_i inside
      cases turn
      exact ⟨CmdShell.eraseInput_history _, fun _ => (CmdShell.eraseInput_histIdx _).trans_le inside,
        (CmdShell.entry_cases _).imp_right Or.inl, by simp⟩
    · cases turn
      exact ⟨rfl, id, Or.inr (Or.inr (Or.inl List.prefix_rfl)), by simp⟩
  | printable ch =>
    rw [key] at turn
    cases turn
    exact ⟨rfl, id, Or.inr (Or.inr (Or.inr ⟨ch, rfl, rfl⟩)), by simp⟩
  | other =>
    rw [key] at turn
    cases turn
    exact ⟨rfl, id, Or.inr (Or.inr (Or.inl List.prefix_rfl)), by simp⟩

/-- An arrow key never looks behind the end of the history. -/
theorem histIdx_inside {history : List Path} {shared : System} {events : List SessionEvent}
    {session : Session} (run : Run (SessionStep rs) (Session.begin history shared) events session) :
    session.shell.histIdx ≤ session.shell.history.length := by
  apply run.invariant fun session => session.shell.histIdx ≤ session.shell.history.length
  · intro start event finish inside step
    cases step with
    | key more =>
      obtain ⟨same, place, _⟩ := readLineKey_line more
      exact same.symm ▸ place inside
    | line entered sized => exact Nat.le_refl _
  · exact Nat.le_refl _

def PlainText (text : Path) : Prop := ∀ c ∈ text, 0x20 ≤ c.toNat ∧ c.toNat < 0x80

/-- The line and all that can be recalled are ASCII. -/
def Session.Plain (session : Session) : Prop :=
  PlainText session.shell.line ∧ ∀ text ∈ session.shell.history, PlainText text

/-- What ASCII asks of a key: its cells on the screen and in their row. -/
def Session.Roomy (session : Session) (ki : KbdKeyInfo) : Prop :=
  (∀ text ∈ session.shell.replacement ki,
    session.shell.line.length ≤ session.shell.console.cursorCol ∧ session.Fits text) ∧
  (editKey ki = .backspace → session.shell.line ≠ [] → 0 < session.shell.console.cursorCol) ∧
  ∀ ch ∈ typed ki, ch < 0x80 ∧ session.Fits (session.shell.line ++ [Char.ofNat ch.toNat])

theorem PlainText.asBytes {text : Path} (plain : PlainText text) :
    asBytes text = text.map fun c => UInt8.ofNat c.toNat := by
  induction text with
  | nil => rfl
  | cons c rest ih =>
    obtain ⟨hc, hrest⟩ := List.forall_mem_cons.mp plain
    rw [List.map_cons, ← ih hrest]
    unfold Cmd.asBytes Utf8.encodeChar
    rw [List.flatMap_cons, if_pos hc.2]
    rfl

theorem PlainText.echoed {text : Path} {cp : Nat} (plain : PlainText text) :
    Echoed rs cp text := by
  have byte (c : Char) (hc : c ∈ text) : (UInt8.ofNat c.toNat).toNat = c.toNat :=
    Utf8.byte_toNat (by have := plain c hc; omega)
  unfold Echoed
  rw [plain.asBytes]
  constructor
  · intro byte_ member
    obtain ⟨c, hc, rfl⟩ := List.mem_map.mp member
    apply isControl_printable
    rw [UInt8.le_iff_toNat_le, byte c hc]
    exact (plain c hc).1
  · rw [List.map_map]
    have each : ∀ c ∈ text,
        ((fun byte => decodeVioByte rs byte cp) ∘ fun c => UInt8.ofNat c.toNat) c = id c := by
      intro c hc
      have low : UInt8.ofNat c.toNat < 0x80 := by
        rw [UInt8.lt_iff_toNat_lt, byte c hc]
        exact (plain c hc).2
      rw [Function.comp_apply, decodeVioByte_ascii low, byte c hc, Char.ofNat_toNat]
      rfl
    exact (List.map_congr_left each).trans (List.map_id text)

theorem PlainText.erasable (plain : PlainText shell.line)
    (row : shell.line.length ≤ shell.console.cursorCol) : shell.Erasable := by
  unfold CmdShell.Erasable
  rw [plain.asBytes, List.length_map]
  exact Nat.min_eq_left row

theorem PlainText.replacement {text : Path} (plain : ∀ entry ∈ shell.history, PlainText entry)
    (replaced : text ∈ shell.replacement ki) : PlainText text := by
  have recalled (idx : Nat) : PlainText (shell.entry idx) := by
    obtain empty | member := shell.entry_cases idx
    · rw [empty]
      intro c hc
      cases hc
    · exact plain _ member
  unfold CmdShell.replacement at replaced
  split at replaced
  · cases replaced
    intro c hc
    cases hc
  · split at replaced
    · cases replaced
      exact recalled _
    · cases replaced
  · split at replaced
    · cases replaced
      exact recalled _
    · cases replaced
  · cases replaced

theorem Session.Plain.right {session : Session} (plain : session.Plain)
    (roomy : session.Roomy ki) : session.Right rs ki := by
  obtain ⟨replaced, back, added⟩ := roomy
  refine ⟨?_, back, ?_⟩
  · intro text member
    obtain ⟨row, fits⟩ := replaced text member
    exact ⟨plain.1.erasable row, (PlainText.replacement plain.2 member).echoed, fits⟩
  · intro ch member
    obtain ⟨low, fits⟩ := added ch member
    exact ⟨decodeVioByte_ascii low, fits⟩

theorem typed_printable {ch : UInt8} (member : ch ∈ typed ki) : 0x20 ≤ ch := by
  unfold typed at member
  split at member
  · rename_i other key
    cases member
    exact editKey_printable key
  · cases member

theorem SessionStep.plain {start finish : Session} {event : SessionEvent} (plain : start.Plain)
    (roomy : start.Roomy event.ki) (step : SessionStep rs start event finish) : finish.Plain := by
  cases step with
  | key more =>
    obtain ⟨history, _, line, _⟩ := readLineKey_line more
    refine ⟨?_, by dsimp only; rw [history]; exact plain.2⟩
    dsimp only
    obtain empty | recalled | part | ⟨ch, member, longer⟩ := line
    · rw [empty]
      intro c hc
      cases hc
    · exact plain.2 _ recalled
    · exact fun c hc => plain.1 c (part.subset hc)
    · rw [longer]
      intro c hc
      obtain old | new := List.mem_append.mp hc
      · exact plain.1 c old
      · have low := UInt8.lt_iff_toNat_lt.mp (roomy.2.2 ch member).1
        have high := UInt8.le_iff_toNat_le.mp (typed_printable member)
        rw [List.mem_singleton.mp new, toNat_ofNat (Nat.lt_trans low (by decide))]
        exact ⟨high, low⟩
  | line entered sized =>
    obtain ⟨history, _, _, text⟩ := readLineKey_line entered
    refine ⟨fun c hc => absurd hc List.not_mem_nil, ?_⟩
    intro entry member
    unfold CmdShell.nextLine at member
    dsimp only at member
    rw [history, text _ rfl] at member
    split at member
    · exact plain.2 entry member
    · obtain old | new := CmdShell.mem_historyPush member
      · exact plain.2 entry old
      · rw [new]
        exact fun c hc => plain.1 c ((trim_within _).subset hc)

/-- Where only ASCII is typed, the editor needs nothing but room: a line that does not end in
a later row than its prompt where it is replaced, and that fits on the screen. -/
theorem ascii_displayed (rs : EncodingRs) {history : List Path} {shared : System}
    (plain : ∀ text ∈ history, PlainText text) (sized : Sized shared.console)
    {events : List SessionEvent} {session : Session}
    (run : Run ((SessionStep rs).guarded fun session event => session.Roomy event.ki)
      (Session.begin history shared) events session) : session.LineShown := by
  have begun : (Session.begin history shared).Plain :=
    ⟨fun c hc => absurd hc List.not_mem_nil, plain⟩
  apply session_shown sized
  exact run.reguard Session.Plain (fun _ _ _ plain roomy step => step.plain plain roomy)
    (fun _ _ plain roomy => plain.right roomy) begun

end Ascii

/-- A prompt on a small screen. -/
def prompted : System :=
  ⟨437, (VioManager.new (some (2, 12))).writeTty noLibrary (asBytes "[C:\\] ".toList) 0x0B 437⟩

theorem prompted_sized : Sized prompted.console :=
  @exec_sized noLibrary 437 (VioManager.new (some (2, 12)))
    (.wrtTty (asBytes "[C:\\] ".toList) 0x0B) (VioManager.new_sized _)

theorem line_displayed_recalled :
    let events := [.key ⟨0x64, 0x20, 0⟩, .line ⟨0x0D, scanEnter, 0⟩ prompted,
      .key ⟨0, scanUp, 0⟩, .key ⟨0x08, scanBackspace, 0⟩]
    ∃ session, Run ((SessionStep noLibrary).guarded fun session event =>
        session.Right noLibrary event.ki) (Session.begin [] prompted) events session ∧
      session.LineShown := by
  intro events
  have recalled : ∃ session, Run ((SessionStep noLibrary).guarded fun session event =>
      session.Right noLibrary event.ki) (Session.begin [] prompted) events session :=
    ⟨_, .cons ⟨by decide, .key rfl⟩ (.cons ⟨by decide, .line rfl prompted_sized⟩
      (.cons ⟨by decide, .key rfl⟩ (.cons ⟨by decide, .key rfl⟩ (.nil _))))⟩
  obtain ⟨session, run⟩ := recalled
  exact ⟨session, run, (line_displayed noLibrary [] prompted_sized run).1⟩

/-- In codepage 437 the byte of a letter with an accent is another character to the line. -/
theorem accent_not_displayed :
    ¬ ∀ (rs : EncodingRs) (history : List Path) (shared : System), Sized shared.console →
      ∀ (events : List SessionEvent) (session : Session),
        Run (SessionStep rs) (Session.begin history shared) events session →
          session.LineShown ∧ ∀ ki, session.StaysRight rs ki := by
  intro claim
  have run : Run (SessionStep noLibrary) (Session.begin [] prompted) [.key ⟨0x82, 0, 0⟩] _ :=
    .cons (.key rfl) (.nil _)
  obtain ⟨scrolled, displays⟩ := (claim noLibrary [] prompted prompted_sized _ _ run).1
  have top : scrolled = 0 := Nat.le_zero.mp displays.above
  subst top
  exact absurd (displays.shown.each 6 0 (by decide) (by decide)) (by decide)

end Warpine.Cmd
