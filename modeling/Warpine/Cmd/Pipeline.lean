import Warpine.Cmd.Shell
import Warpine.Lib.Attempts
import Warpine.Lib.Lists

/-! What a line means: its segments run one after the other, and only the last one writes to
where the line does. -/
namespace Warpine.Cmd.Shell
open Warpine.Lib Warpine.Vfs

variable {ω φ α β : Type} (host : Host ω φ)

section Blindness

/-- Two sinks of one kind; what a buffer holds is its own affair. -/
inductive SameSink : OutputSink φ → OutputSink φ → Prop where
  | vio : SameSink .vio .vio
  | file (handle : φ) : SameSink (.file handle) (.file handle)
  | buffer (one other : List UInt8) : SameSink (.buffer one) (.buffer other)

/-- Two shells in one world, with sinks of one kind. Each has its own input and history. -/
structure Twins (kind : OutputSink φ) (one other : InputSource × List Path)
    (s t : CmdShell ω φ) : Prop where
  world : s.world = t.world
  sink : SameSink kind s.outputSink ∧ SameSink kind t.outputSink
  rest : (s.inputSource, s.history) = one ∧ (t.inputSource, t.history) = other

/-- The computation writes to the sink, and sees neither what it holds nor the input. -/
def Blind (compute : ShellM ω φ α) : Prop :=
  ∀ kind one other, Agrees (Twins kind one other) compute

variable {host}

theorem Blind.pure (value : α) : Blind (pure value : ShellM ω φ α) :=
  fun _ _ _ => .pure value

theorem Blind.bind {first : ShellM ω φ α} {next : α → ShellM ω φ β} (head : Blind first)
    (tail : ∀ value, Blind (next value)) : Blind (first >>= next) :=
  fun kind one other => .bind (head kind one other) fun value => tail value kind one other

theorem Blind.forM {ι : Type} {step : ι → ShellM ω φ PUnit} (each : ∀ i, Blind (step i))
    (items : List ι) : Blind (items.forM step) :=
  fun kind one other => .forM (fun i => each i kind one other) items

theorem Blind.perform (act : ω → Except Abort (α × ω)) : Blind (perform act : ShellM ω φ α) := by
  intro kind one other s t twins
  unfold Shell.perform
  rw [twins.world]
  cases act t.world with
  | error abort => exact .failed abort
  | ok done => exact .returned done.1 ⟨rfl, twins.sink, twins.rest⟩

theorem Blind.call (act : ω → α × ω) : Blind (call act : ShellM ω φ α) := .perform _

theorem Blind.ask (look : ω → α) : Blind (ask look : ShellM ω φ α) := .call _

theorem Blind.panic : Blind (panic : ShellM ω φ α) := .perform _

theorem Blind.writeSink (bytes : List UInt8) (attr : UInt8) :
    Blind (writeSink host bytes attr) := by
  rintro kind one other ⟨_, _, mine, _⟩ ⟨_, _, yours, _⟩ ⟨rfl, ⟨left, right⟩, rest⟩
  unfold Shell.writeSink
  refine .returned () ?_
  cases left <;> cases right
  · exact ⟨rfl, ⟨.vio, .vio⟩, rest⟩
  · exact ⟨rfl, ⟨.file _, .file _⟩, rest⟩
  · exact ⟨rfl, ⟨.buffer _ _, .buffer _ _⟩, rest⟩

theorem Blind.writeOut (bytes : List UInt8) : Blind (writeOut host bytes) := .writeSink _ _

theorem Blind.writelnAttr (text : Path) (attr : UInt8) : Blind (writelnAttr host text attr) :=
  .bind (.writeSink _ _) fun _ => .writeSink _ _

theorem Blind.writeln (text : Path) : Blind (writeln host text) := .writelnAttr _ _

theorem Blind.withArgument (args : List Path) {command : Path → ShellM ω φ Unit}
    (each : ∀ path, Blind (command path)) : Blind (withArgument host args command) := by
  cases args with
  | nil => exact .writelnAttr _ _
  | cons pathArg rest => exact each pathArg

theorem Blind.changing (message : String) (act : Path → ω → VfsResult Unit × ω)
    (args : List Path) : Blind (changing host message act args) := by
  refine .withArgument args fun path => .bind (.call _) fun answer => ?_
  cases answer with
  | ok done => exact .pure _
  | error e => exact .writelnAttr _ _

theorem blind_sortedVars : Blind (sortedVars host) := by
  refine .bind (.ask _) fun vars => ?_
  cases vars with
  | none => exact .panic
  | some vars => exact .pure _

theorem blind_cmdSet (args : List Path) : Blind (cmdSet host args) := by
  unfold cmdSet
  dsimp only
  split
  · exact .bind blind_sortedVars fun vars => .forM (fun var => .writeln _) vars
  · split
    · split
      · exact .panic
      · split
        · exact .call _
        · exact .call _
    · refine .bind blind_sortedVars fun vars => .bind (.forM (fun var => .writeln _) _) fun _ => ?_
      split
      · exact .writelnAttr _ _
      · exact .pure _

theorem blind_cmdCd (args : List Path) : Blind (cmdCd host args) := by
  cases args with
  | nil => exact .bind (.ask _) fun dirs => .writeln _
  | cons path rest =>
    refine .bind (.ask _) fun dirs => ?_
    split
    · exact .call _
    · exact .writelnAttr _ _

theorem blind_changeDrive (cmd : Path) : Blind (changeDrive host cmd) := by
  unfold changeDrive
  split
  · split
    · refine .bind (.ask _) fun dirs => ?_
      split
      · exact .call _
      · exact .writelnAttr _ _
    · exact .writelnAttr _ _
  · exact .panic

theorem blind_cmdDir (args : List Path) : Blind (cmdDir host args) := by
  refine .bind (.ask _) fun dirs => .bind (.writelnAttr _ _) fun _ => .bind (.writeln _) fun _ =>
    .bind (.call _) fun found => ?_
  cases found with
  | none => exact .writelnAttr _ _
  | some listing => exact .forM (fun line => .writeln line) listing.lines

theorem blind_cmdType (args : List Path) : Blind (cmdType host args) := by
  refine .withArgument args fun path => .bind (.call _) fun hostPath => ?_
  cases hostPath with
  | none => exact .writelnAttr _ _
  | some hostPath =>
    refine .bind (.ask _) fun content => ?_
    cases content with
    | error e => exact .writelnAttr _ _
    | ok bytes => exact .bind (.writeOut _) fun _ => .writeOut _

theorem blind_builtins : ∀ entry ∈ builtins host, ∀ args, Blind (entry.2 args) := by
  unfold builtins
  simp only [List.forall_mem_cons, List.not_mem_nil, false_implies, implies_true, and_true]
  exact ⟨fun _ => .pure _, fun _ => .writeln _, fun _ => .call _, fun _ => .writeln _,
    fun _ => .forM (fun _ => .writeln _) _, blind_cmdSet, blind_cmdCd, blind_cmdDir, blind_cmdType,
    fun _ => .changing _ _ _, fun _ => .changing _ _ _, fun _ => .changing _ _ _⟩

/-- Only whether the sink is the screen is seen, and that is so for both. -/
theorem blind_spawnExternal (progPath : Path) (args : List Path) :
    Blind (spawnExternal host progPath args) := by
  refine .bind (.ask _) fun exe => ?_
  cases exe with
  | error e => exact .writelnAttr _ _
  | ok exe =>
    refine .bind (.ask _) fun dirs => .bind (.call _) fun started => ?_
    cases started with
    | error e => exact .writelnAttr _ _
    | ok pieces =>
      have elsewhere : Blind (do
          let output := pieces.flatten
          if output ≠ [] then Shell.writeOut host output : ShellM ω φ Unit) := by
        dsimp only
        split
        · exact .writeOut _
        · exact .pure _
      rintro kind one other ⟨_, mine, _, _⟩ ⟨_, yours, _, _⟩ ⟨rfl, ⟨left, right⟩, rest⟩
      cases left <;> cases right
      · exact Blind.forM (fun piece => .call _) pieces .vio one other _ _
          ⟨rfl, ⟨.vio, .vio⟩, rest⟩
      · exact elsewhere (.file _) one other _ _ ⟨rfl, ⟨.file _, .file _⟩, rest⟩
      · exact elsewhere (.buffer _) one other _ _ ⟨rfl, ⟨.buffer _ _, .buffer _ _⟩, rest⟩

theorem blind_findExternal (cmd : Path) : Blind (findExternal host cmd) := by
  unfold findExternal
  dsimp only
  split
  · exact .bind (.call _) fun _ => .pure _
  · split
    · exact .bind (.call _) fun _ => .pure _
    · refine .bind (.call _) fun found => ?_
      cases found with
      | none => exact .bind (.call _) fun _ => .pure _
      | some progPath => exact .pure _

theorem blind_execExternal (script : Path → ω → Except Abort ω) (cmd : Path) (args : List Path) :
    Blind (execExternal host script cmd args) := by
  refine .bind (blind_findExternal cmd) fun found => ?_
  split
  · exact .writelnAttr _ _
  · exact .perform _
  · exact blind_spawnExternal _ _

theorem blind_refuse (message : Path) : Blind (refuse host message) :=
  .bind (.writelnAttr _ _) fun _ => .pure _

theorem blind_openSink (redir : Option (Path × Bool)) : Blind (openSink host redir) := by
  cases redir with
  | none => exact .pure _
  | some target =>
    refine .bind (.call _) fun hostPath => .bind (.call _) fun opened => ?_
    cases opened with
    | ok handle => exact .pure _
    | error e => exact .pure _

theorem blind_openSource (path : Option Path) : Blind (openSource host path) := by
  cases path with
  | none => exact .pure _
  | some path =>
    refine .bind (.call _) fun hostPath => ?_
    cases hostPath with
    | none => exact .pure _
    | some hostPath =>
      refine .bind (.ask _) fun content => ?_
      cases content with
      | ok content => exact .pure _
      | error e => exact .pure _

theorem blind_executeSegment (script : Path → ω → Except Abort ω) (line : Path) :
    Blind (executeSegment host script line) := by
  unfold executeSegment
  split
  · exact .pure _
  · dsimp only
    split
    · rename_i entry found
      exact .bind (blind_builtins entry (List.mem_of_find?_eq_some found) _) fun _ => .pure _
    · split
      · exact .pure _
      · split
        · exact .bind (blind_changeDrive _) fun _ => .pure _
        · exact .bind (blind_execExternal _ _ _) fun _ => .pure _

end Blindness

/-- What a computation does to the world, in a shell of its own that writes to the sink. -/
def alone (sink : OutputSink φ) (compute : ShellM ω φ α) (world : ω) : Except Abort (α × ω) :=
  (compute ⟨world, [], sink, .kbd⟩).map fun done => (done.1, done.2.world)

section Meaning

variable (script : Path → ω → Except Abort ω)

/-- The segments one after the other, until one ends the shell. Only the last one writes to
the sink; what the others write is lost. -/
def sequence (sink : OutputSink φ) : List Path → ω → Except Abort (Option Nat × ω)
  | [], world => .ok (none, world)
  | segment :: rest, world =>
    let text := trim segment
    if text = [] then sequence sink rest world
    else do
      let (code, world) ← alone (if rest.isEmpty then sink else .buffer [])
        (executeSegment host script text) world
      if code.isSome then .ok (code, world) else sequence sink rest world

/-- The redirections are opened, and then the input is of no use. -/
def meaning (parsed : ParsedCommand) (world : ω) : Except Abort (Option Nat × ω) :=
  if parsed.segments.all List.isEmpty then .ok (none, world)
  else do
    let (opened, world) ← alone .vio (openSink host parsed.stdoutRedir) world
    match opened with
    | .error message => alone .vio (refuse host message) world
    | .ok finalSink => do
      let (source, world) ← alone .vio (openSource host parsed.stdinFile) world
      match source with
      | .error message => alone .vio (refuse host message) world
      | .ok _ => sequence host script (finalSink.elim .vio .file) parsed.segments world

def lineMeaning (line : Path) (world : ω) : Except Abort (Option Nat × ω) :=
  match Cmd.executeLine line with
  | none => .ok (none, world)
  | some parsed => meaning host script parsed world

/-- The lines one after the other, until one gives a code or the loader shuts down. -/
def linesMeaning : List Path → ω → Except Abort (Nat × ω)
  | [], world => .ok (0, world)
  | line :: rest, world =>
    if host.exitRequested world then .ok (0, world)
    else
      let trimmed := trim line
      if trimmed = [] then linesMeaning rest world
      else do
        let (code, world) ← lineMeaning host script trimmed world
        match code with
        | some code => .ok (code, world)
        | none => linesMeaning rest world

end Meaning

section Refinement

variable {host} {script : Path → ω → Except Abort ω} {compute : ShellM ω φ α}

theorem ask_prompt (look : ω → α) (world : ω) (history : List Path) :
    ask look (.prompt world history : CmdShell ω φ) = .ok (look world, .prompt world history) := rfl

theorem call_eq (act : ω → α × ω) (shell : CmdShell ω φ) : call act shell =
    .ok ((act shell.world).1, { shell with world := (act shell.world).2 }) := rfl

/-- Not a buffer. -/
def Plain (sink : OutputSink φ) : Prop := ∀ other, SameSink sink other → other = sink

theorem plain_vio : Plain (.vio : OutputSink φ) := by
  rintro other ⟨⟩
  rfl

theorem plain_file (handle : φ) : Plain (.file handle) := by
  rintro other ⟨⟩
  rfl

theorem sameSink_self (sink : OutputSink φ) : SameSink sink sink := by
  cases sink with
  | vio => exact .vio
  | file handle => exact .file handle
  | buffer captured => exact .buffer captured captured

/-- A blind computation does in any shell what it does alone. -/
theorem Blind.together (blind : Blind compute) {sink : OutputSink φ} {shell : CmdShell ω φ}
    (same : SameSink shell.outputSink sink) :
    Together (Twins shell.outputSink (shell.inputSource, shell.history) (.kbd, []))
      (compute shell) (compute ⟨shell.world, [], sink, .kbd⟩) :=
  blind _ _ _ _ _ ⟨rfl, ⟨sameSink_self _, same⟩, ⟨rfl, rfl⟩⟩

theorem Blind.run (blind : Blind compute) {shell : CmdShell ω φ} (plain : Plain shell.outputSink) :
    compute shell = (alone shell.outputSink compute shell.world).map fun done =>
      (done.1, { shell with world := done.2 }) := by
  have together := blind.together (sameSink_self shell.outputSink)
  unfold alone
  generalize compute shell = mine at together
  generalize compute ⟨shell.world, [], shell.outputSink, .kbd⟩ = single at together
  cases together with
  | failed abort => rfl
  | @returned value s t twins =>
    obtain ⟨world, ⟨left, right⟩, rest⟩ := twins
    have sink := plain _ left
    obtain ⟨source, history⟩ := Prod.mk.inj rest.1
    change Except.ok (value, s) = .ok (value, { shell with world := t.world })
    rw [← world, ← source, ← history, ← sink]

theorem Blind.run_buffer (blind : Blind compute) (shell : CmdShell ω φ) {captured : List UInt8}
    (buffer : shell.outputSink = .buffer captured) :
    ∃ written : List UInt8, compute shell = (alone (.buffer []) compute shell.world).map fun done =>
      (done.1, { shell with world := done.2, outputSink := .buffer written }) := by
  have same : SameSink shell.outputSink (.buffer []) := by
    rw [buffer]
    exact .buffer _ _
  have together := blind.together same
  unfold alone
  generalize compute shell = mine at together
  generalize compute ⟨shell.world, [], .buffer [], .kbd⟩ = single at together
  cases together with
  | failed abort => exact ⟨[], rfl⟩
  | @returned value s t twins =>
    obtain ⟨world, ⟨left, right⟩, rest⟩ := twins
    obtain ⟨source, history⟩ := Prod.mk.inj rest.1
    rw [buffer] at left
    cases sink : s.outputSink with
    | buffer written =>
      refine ⟨written, ?_⟩
      change Except.ok (value, s) =
        .ok (value, { shell with world := t.world, outputSink := .buffer written })
      rw [← world, ← source, ← history, ← sink]
    | vio =>
      rw [sink] at left
      cases left
    | file handle =>
      rw [sink] at left
      cases left

def toPrompt (done : Option Nat × CmdShell ω φ) : Option Nat × CmdShell ω φ :=
  (done.1, .prompt done.2.world done.2.history)

theorem capture_eq (segment : Path) (shell : CmdShell ω φ) : ∃ source,
    capture host script segment shell =
      (alone (.buffer []) (executeSegment host script segment) shell.world).map fun done =>
        (done.1, { shell with world := done.2, inputSource := source }) := by
  obtain ⟨written, run⟩ := (@blind_executeSegment _ _ host script segment).run_buffer
    { shell with outputSink := .buffer [] } rfl
  refine ⟨.lines (capturedLines written), ?_⟩
  change (executeSegment host script segment { shell with outputSink := .buffer [] } >>= _) = _
  rw [run]
  cases alone (.buffer []) (executeSegment host script segment) shell.world with
  | error abort => rfl
  | ok done => rfl

theorem runSegments_eq (segments : List Path) (shell : CmdShell ω φ)
    (plain : Plain shell.outputSink) :
    (runSegments host script segments shell).map toPrompt =
      (sequence host script shell.outputSink segments shell.world).map fun done =>
        (done.1, .prompt done.2 shell.history) := by
  induction segments generalizing shell with
  | nil => rfl
  | cons segment rest ih =>
    unfold runSegments sequence
    dsimp only
    split
    · exact ih shell plain
    · have one : ∃ source, executeAt host script rest.isEmpty (trim segment) shell =
          (alone (if rest.isEmpty then shell.outputSink else .buffer [])
            (executeSegment host script (trim segment)) shell.world).map fun done =>
              (done.1, { shell with world := done.2, inputSource := source }) := by
        unfold executeAt
        split
        · exact ⟨shell.inputSource, (blind_executeSegment script _).run plain⟩
        · exact capture_eq _ shell
      obtain ⟨source, one⟩ := one
      change Except.map toPrompt (executeAt host script rest.isEmpty (trim segment) shell >>= _) = _
      rw [one]
      cases alone (if rest.isEmpty then shell.outputSink else .buffer [])
        (executeSegment host script (trim segment)) shell.world with
      | error abort => rfl
      | ok done =>
        obtain ⟨code, world⟩ := done
        cases code with
        | some code => rfl
        | none => exact ih { shell with world, inputSource := source } plain

theorem runPipeline_eq (segments : List Path) (shell : CmdShell ω φ)
    (plain : Plain shell.outputSink) : runPipeline host script segments shell =
      (sequence host script shell.outputSink segments shell.world).map fun done =>
        (done.1, .prompt done.2 shell.history) := by
  rw [← runSegments_eq segments shell plain]
  change (runSegments host script segments shell >>= _) = _
  cases runSegments host script segments shell with
  | error abort => rfl
  | ok done => rfl

theorem Blind.run_prompt (blind : Blind compute) (world : ω) (history : List Path) :
    compute (.prompt world history) = (alone .vio compute world).map fun done =>
      (done.1, .prompt done.2 history) :=
  blind.run plain_vio

theorem executePipeline_eq (parsed : ParsedCommand) (world : ω) (history : List Path) :
    executePipeline host script parsed (.prompt world history) =
      (meaning host script parsed world).map fun done => (done.1, .prompt done.2 history) := by
  unfold executePipeline meaning
  split
  · rfl
  · change (openSink host parsed.stdoutRedir (.prompt world history) >>= _) = _
    rw [(blind_openSink _).run_prompt]
    cases alone .vio (openSink host parsed.stdoutRedir) world with
    | error abort => rfl
    | ok done =>
      obtain ⟨opened, world⟩ := done
      cases opened with
      | error message => exact (blind_refuse message).run_prompt world history
      | ok finalSink =>
        change (openSource host parsed.stdinFile (.prompt world history) >>= _) = _
        rw [(blind_openSource _).run_prompt]
        change _ = Except.map _ (alone .vio (openSource host parsed.stdinFile) world >>= _)
        cases alone .vio (openSource host parsed.stdinFile) world with
        | error abort => rfl
        | ok done =>
          obtain ⟨source, world⟩ := done
          cases source with
          | error message => exact (blind_refuse message).run_prompt world history
          | ok initialStdin =>
            -- the input is set or not, and seen by nobody
            cases initialStdin with
            | none => cases finalSink with
              | none => exact runPipeline_eq _ ⟨world, history, .vio, .kbd⟩ plain_vio
              | some handle =>
                exact runPipeline_eq _ ⟨world, history, .file handle, .kbd⟩ (plain_file handle)
            | some source => cases finalSink with
              | none => exact runPipeline_eq _ ⟨world, history, .vio, source⟩ plain_vio
              | some handle =>
                exact runPipeline_eq _ ⟨world, history, .file handle, source⟩ (plain_file handle)

/-- A line at the prompt does what it means, and leads back to the prompt. -/
theorem executeLine_eq (line : Path) (world : ω) (history : List Path) :
    executeLine host script line (.prompt world history) =
      (lineMeaning host script line world).map fun done => (done.1, .prompt done.2 history) := by
  unfold executeLine lineMeaning
  cases Cmd.executeLine line with
  | none => rfl
  | some parsed => exact executePipeline_eq parsed world history

theorem runLines_eq (lines : List Path) (world : ω) (history : List Path) :
    runLines host script lines (.prompt world history) =
      (linesMeaning host script lines world).map fun done => (done.1, .prompt done.2 history) := by
  induction lines generalizing world with
  | nil => rfl
  | cons line rest ih =>
    unfold runLines linesMeaning
    change (if host.exitRequested world = true then (pure 0 : ShellM ω φ Nat) else _)
      (.prompt world history) = _
    split
    · rfl
    · dsimp only
      split
      · exact ih world
      · change (executeLine host script (trim line) (.prompt world history) >>= _) = _
        rw [executeLine_eq]
        cases lineMeaning host script (trim line) world with
        | error abort => rfl
        | ok done =>
          obtain ⟨code, world⟩ := done
          cases code with
          | some code => rfl
          | none => exact ih world

theorem findExternal_eq (cmd : Path) (shell : CmdShell ω φ) : findExternal host cmd shell =
    (alone .vio (findExternal host cmd : ShellM ω φ _) shell.world).map fun done =>
      (done.1, { shell with world := done.2 }) := by
  unfold findExternal
  dsimp only
  split
  · rfl
  · split
    · rfl
    · unfold alone
      rw [bind_of_ok (call_eq _ shell), bind_of_ok (call_eq _ _)]
      cases (host.resolveToHostPath (cmd ++ ".EXE".toList) shell.world).1 with
      | none => rfl
      | some progPath => rfl

/-- A script runs its lines as if they were typed, until one gives a code, which is dropped.
What the lines write does not go to the sink of the shell that calls the script. -/
theorem execExternal_script {depth : Nat} {cmd path content : Path} {args : List Path}
    {shell : CmdShell ω φ} {world : ω}
    (found : alone .vio (findExternal host cmd : ShellM ω φ _) shell.world =
      .ok ((some path, true), world)) (readable : host.readToString path world = .ok content) :
    execExternal host (scriptAt host (depth + 1)) cmd args shell =
      (linesMeaning host (scriptAt host depth) (lines content) world).map fun done =>
        ((), { shell with world := done.2 }) := by
  have resolved := @findExternal_eq _ _ host cmd shell
  rw [found] at resolved
  change (findExternal host cmd shell >>= _) = _
  rw [resolved]
  change ((scriptAt host (depth + 1) path world).map _).map _ = _
  unfold scriptAt
  have inside : runScript host (scriptAt host depth) path (.prompt world []) =
      runLines host (scriptAt host depth) (lines content) (.prompt world []) := by
    unfold runScript
    rw [bind_of_ok (ask_prompt _ _ _), readable]
  change (((runScript host (scriptAt host depth) path (.prompt world [])).map _).map _).map _ = _
  rw [inside, runLines_eq]
  cases linesMeaning host (scriptAt host depth) (lines content) world with
  | error abort => rfl
  | ok done => rfl

/-- A host without files but for one script, which ends itself. -/
def oneScript : Host Unit Unit where
  toUppercase := id
  exitRequested _ := false
  readKeys _ _ := (none, ())
  writeTty _ _ _ := ()
  clearScreen _ := ()
  vars _ := some []
  setVar _ _ _ := ()
  removeVar _ _ := ()
  dirs _ := ⟨.new, .new⟩
  setDirs _ _ := ()
  resolveToHostPath path _ := (if path = "A.CMD".toList then some path else none, ())
  createDir _ _ := (.ok (), ())
  deleteDir _ _ := (.ok (), ())
  deleteFile _ _ := (.ok (), ())
  search _ _ := (none, ())
  openWrite _ _ _ := (.ok (), ())
  writeAll _ _ _ := ()
  readToString _ _ := .ok "EXIT 3".toList
  read _ _ := .error []
  currentExe _ := .error []
  spawn _ _ _ _ := (.error [], ())

theorem execExternal_script_buffer :
    execExternal oneScript (scriptAt oneScript 1) "A".toList [] ⟨(), [], .buffer [7], .kbd⟩ =
      (linesMeaning oneScript (scriptAt oneScript 0) (lines "EXIT 3".toList) ()).map fun done =>
        ((), ⟨done.2, [], .buffer [7], .kbd⟩) :=
  execExternal_script rfl rfl

end Refinement

section Session

/-- What is kept of the entered lines: no line right behind itself, and the newest ones. -/
def remembered (entered : List Path) : List Path :=
  (entered.destutter (· ≠ ·)).rtake Cmd.historySize

theorem historyPush_remembered (entered : List Path) (line : Path) :
    CmdShell.historyPush (remembered entered) line = remembered (entered ++ [line]) := by
  unfold CmdShell.historyPush remembered
  rw [destutter_concat, getLast?_rtake (by decide), getLast?_destutter]
  split
  · rfl
  · exact (rtake_concat (by decide)).symm

variable (script : Path → ω → Except Abort ω)

/-- The code that a session ends with, the lines entered in it, and the world behind it. The
keyboard is read behind a prompt, for at most so many lines. -/
def session : Nat → List Path → ω → Except Abort (Option Nat × List Path × ω)
  | 0, entered, world => .ok (none, entered, world)
  | turns + 1, entered, world =>
    if host.exitRequested world then .ok (some 0, entered, world)
    else
      let prompt := asBytes (buildPrompt (host.dirs world))
      match host.readKeys (remembered entered) (host.writeTty prompt attrHeader world) with
      | (none, world) => .ok (some 0, entered, world)
      | (some line, world) =>
        let trimmed := trim line
        if trimmed = [] then session turns entered world
        else do
          let (code, world) ← lineMeaning host script trimmed world
          match code with
          | some code => .ok (some code, entered ++ [trimmed], world)
          | none => session turns (entered ++ [trimmed]) world

/-- A first command is no line of the session. -/
def runMeaning (rawArgs : List Path) (turns : Nat) (world : ω) :
    Except Abort (Option Nat × List Path × ω) :=
  match parseShellFlags host rawArgs with
  | (_, none) => session host script turns [] world
  | (runOnce, some cmd) => do
    let (code, world) ← lineMeaning host script (trim cmd) world
    if runOnce ∨ code.isSome then .ok (some (code.getD 0), [], world)
    else session host script turns [] world

variable {host} {script}

theorem writeSink_prompt (bytes : List UInt8) (attr : UInt8) (world : ω) (history : List Path) :
    writeSink host bytes attr (.prompt world history) =
      .ok ((), .prompt (host.writeTty bytes attr world) history) := rfl

theorem readLine_prompt (world : ω) (history : List Path) :
    readLine host (.prompt world history) = .ok ((host.readKeys history world).1,
      .prompt (host.readKeys history world).2 history) := rfl

theorem interactiveTurn_eq {world : ω} (running : ¬host.exitRequested world) (entered : List Path) :
    interactiveTurn host script (.prompt world (remembered entered)) =
      match host.readKeys (remembered entered) (host.writeTty
          (asBytes (buildPrompt (host.dirs world))) attrHeader world) with
      | (none, world) => .ok (some 0, .prompt world (remembered entered))
      | (some line, world) =>
        if trim line = [] then .ok (none, .prompt world (remembered entered))
        else executeLine host script (trim line)
          (.prompt world (remembered (entered ++ [trim line]))) := by
  unfold interactiveTurn
  change (if host.exitRequested world = true then _ else _ : ShellM ω φ (Option Nat))
    (.prompt world (remembered entered)) = _
  rw [if_neg running]
  rw [bind_of_ok (ask_prompt _ _ _), bind_of_ok (writeSink_prompt _ _ _ _),
    bind_of_ok (readLine_prompt _ _)]
  rcases host.readKeys (remembered entered) (host.writeTty
    (asBytes (buildPrompt (host.dirs world))) attrHeader world) with ⟨_ | line, next⟩
  · rfl
  · dsimp only
    split
    · rfl
    · rw [← historyPush_remembered]
      rfl

theorem interactiveLoop_eq (turns : Nat) (entered : List Path) (world : ω) :
    interactiveLoop host script turns (.prompt world (remembered entered)) =
      (session host script turns entered world).map fun (code, entered, world) =>
        (code, .prompt world (remembered entered)) := by
  induction turns generalizing entered world with
  | zero => rfl
  | succ turns ih =>
    unfold interactiveLoop session
    split
    · rename_i shutdown
      change ((if host.exitRequested world = true then _ else _ : ShellM ω φ (Option Nat))
        (.prompt world (remembered entered)) >>= _) = _
      rw [if_pos shutdown]
      rfl
    · rename_i running
      change (interactiveTurn host script (.prompt world (remembered entered)) >>= _) = _
      rw [interactiveTurn_eq running]
      dsimp only
      rcases host.readKeys (remembered entered) (host.writeTty
        (asBytes (buildPrompt (host.dirs world))) attrHeader world) with ⟨_ | line, next⟩
      · rfl
      · dsimp only
        split
        · exact ih entered next
        · rw [executeLine_eq]
          cases lineMeaning host script (trim line) next with
          | error abort => rfl
          | ok done =>
            obtain ⟨code, last⟩ := done
            cases code with
            | some code => rfl
            | none => exact ih (entered ++ [trim line]) last

/-- A shell does what its lines mean, and is at its prompt whenever it reads one. -/
theorem run_eq (rawArgs : List Path) (turns : Nat) (world : ω) :
    run host script rawArgs turns (.new world) =
      (runMeaning host script rawArgs turns world).map fun (code, entered, world) =>
        (code, .prompt world (remembered entered)) := by
  unfold run runMeaning start
  rcases parseShellFlags host rawArgs with ⟨runOnce, _ | cmd⟩
  · exact interactiveLoop_eq turns [] world
  · dsimp only
    change ((executeLine host script (trim cmd) (.prompt world []) >>= _) >>= _) = _
    rw [executeLine_eq]
    cases lineMeaning host script (trim cmd) world with
    | error abort => rfl
    | ok done =>
      obtain ⟨code, last⟩ := done
      change ((if runOnce = true ∨ code.isSome = true then _ else _ : ShellM ω φ (Option Nat))
        (.prompt last []) >>= _) =
          Except.map _ (if runOnce = true ∨ code.isSome = true then _ else _)
      split
      · rfl
      · exact interactiveLoop_eq turns [] last

end Session

end Warpine.Cmd.Shell
