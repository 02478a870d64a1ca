import Warpine.Cmd.Dir
import Warpine.Cmd.ReadLine
import Warpine.Lib.Fields
import Warpine.Vfs.CurrentDir

/-! The command shell: its lines, pipelines, commands and scripts. The host, with its files
and programs, is a parameter. -/
namespace Warpine.Cmd.Shell
open Warpine.Lib Warpine.Vfs

def attrHeader : UInt8 := 0x0B
def attrError : UInt8 := 0x0C

inductive OutputSink (φ : Type) where
  | vio
  | file (handle : φ)
  | buffer (bytes : List UInt8)

inductive InputSource where
  | kbd
  | lines (lines : List Path)

/-- What is around the shell: the console, the drives, the environment, the files and the
programs of the host. Its own errors are given by their texts, and a variable whose text is
not Unicode leaves none to read. The keys come to a line, or at a shutdown to none. -/
structure Host (ω φ : Type) where
  toUppercase : Path → Path
  exitRequested : ω → Bool
  readKeys : List Path → ω → Option Path × ω
  writeTty : List UInt8 → UInt8 → ω → ω
  clearScreen : ω → ω
  vars : ω → Option (List (Path × Path))
  setVar : Path → Path → ω → ω
  removeVar : Path → ω → ω
  dirs : ω → DirState Unit
  setDirs : DirState Unit → ω → ω
  resolveToHostPath : Path → ω → Option Path × ω
  createDir : Path → ω → VfsResult Unit × ω
  deleteDir : Path → ω → VfsResult Unit × ω
  deleteFile : Path → ω → VfsResult Unit × ω
  search : Path → ω → Option DirListing × ω
  openWrite : Path → Bool → ω → Except Path φ × ω
  writeAll : φ → List UInt8 → ω → ω
  readToString : Path → ω → Except Path Path
  read : Path → ω → Except Path (List UInt8)
  currentExe : ω → Except Path Path
  spawn : Path → List Path → Path → ω → Except Path (List (List UInt8)) × ω

structure CmdShell (ω φ : Type) where
  world : ω
  history : List Path
  outputSink : OutputSink φ
  inputSource : InputSource

/-- The shell's thread panics, or scripts call each other more deeply than they may. -/
inductive Abort where
  | panicked
  | deep
deriving DecidableEq, Repr

abbrev ShellM (ω φ α : Type) := StateT (CmdShell ω φ) (Except Abort) α

variable {ω φ : Type} (host : Host ω φ)

/-- The shell at its prompt. -/
def CmdShell.prompt (world : ω) (history : List Path) : CmdShell ω φ := ⟨world, history, .vio, .kbd⟩

def CmdShell.new (world : ω) : CmdShell ω φ := .prompt world []

section Access

def perform {α : Type} (act : ω → Except Abort (α × ω)) : ShellM ω φ α := fun shell =>
  (act shell.world).map fun (value, world) => (value, { shell with world })

def call {α : Type} (act : ω → α × ω) : ShellM ω φ α := perform fun world => .ok (act world)

def ask {α : Type} (look : ω → α) : ShellM ω φ α := call fun world => (look world, world)

def panic {α : Type} : ShellM ω φ α := perform fun _ => .error .panicked

def setSource (source : InputSource) : ShellM ω φ Unit :=
  modify fun shell => { shell with inputSource := source }

def replaceSink (sink : OutputSink φ) : ShellM ω φ (OutputSink φ) :=
  modifyGet fun shell => (shell.outputSink, { shell with outputSink := sink })

def writeSink (bytes : List UInt8) (attr : UInt8) : ShellM ω φ Unit :=
  modify fun shell => match shell.outputSink with
    | .vio => { shell with world := host.writeTty bytes attr shell.world }
    | .file handle => { shell with world := host.writeAll handle bytes shell.world }
    | .buffer captured => { shell with outputSink := .buffer (captured ++ bytes) }

def writeOut (bytes : List UInt8) : ShellM ω φ Unit := writeSink host bytes attrNormal

def writelnAttr (text : Path) (attr : UInt8) : ShellM ω φ Unit := do
  writeSink host (asBytes text) attr
  writeSink host [0x0D, 0x0A] attr

def writeln (text : Path) : ShellM ω φ Unit := writelnAttr host text attrNormal

end Access

section Builtins

def joined (args : List Path) : Path := [' '].intercalate args

def cmdEcho (args : List Path) : ShellM ω φ Unit :=
  writeln host (if args.isEmpty then "ECHO is on.".toList else joined args)

def cmdCls : ShellM ω φ Unit := call fun world => ((), host.clearScreen world)

def cmdVer : ShellM ω φ Unit :=
  writeln host "Warpine OS/2 Compatibility Layer [Builtin CMD.EXE]".toList

def helpLines : List String :=
  ["Available commands:",
   "  DIR [path]         List directory",
   "  CD [path]          Change directory",
   "  <X>:               Change drive",
   "  SET [var[=value]]  Show/set environment variable",
   "  ECHO [text]        Display text",
   "  TYPE file          Display file contents",
   "  MD / MKDIR dir     Create directory",
   "  RD / RMDIR dir     Remove directory",
   "  DEL / ERASE file   Delete file",
   "  CLS                Clear screen",
   "  VER                Show version",
   "  REM / ::           Comment",
   "  EXIT [code]        Exit shell",
   "  <program>          Run OS/2 executable"]

def cmdHelp : ShellM ω φ Unit := helpLines.forM fun line => writeln host line.toList

/-- The environment in the order of its names. -/
def sortedVars : ShellM ω φ (List (Path × Path)) := do
  match ← ask host.vars with
  | none => panic
  | some vars => pure (vars.mergeSort fun a b => decide (a.1 ≤ b.1))

def writeVar (var : Path × Path) : ShellM ω φ Unit := writeln host (var.1 ++ '=' :: var.2)

/-- The names and values that `setenv` refuses make the standard library panic. -/
def cmdSet (args : List Path) : ShellM ω φ Unit := do
  let text := joined args
  if args.isEmpty then
    (← sortedVars host).forM (writeVar host)
  else if '=' ∈ text then
    let name := trim (text.takeWhile (· ≠ '='))
    let value := (text.dropWhile (· ≠ '=')).tail
    if name.isEmpty ∨ '\x00' ∈ name ∨ '\x00' ∈ value then panic
    else if value.isEmpty then call fun world => ((), host.removeVar name world)
    else call fun world => ((), host.setVar name value world)
  else
    let start := host.toUppercase text
    let found := (← sortedVars host).filter fun var => start.isPrefixOf (host.toUppercase var.1)
    found.forM (writeVar host)
    if found.isEmpty then writelnAttr host "Environment variable not found.".toList attrError

def driveLetter (drive : Nat) : Char := Char.ofNat ('A'.toNat + drive)

def hereText (state : DirState Unit) : Path :=
  let disk := state.driveMgr.currentDisk
  driveLetter disk :: ':' :: '\\' :: state.driveMgr.currentDirs disk

def errorNames : List (Nat × String) :=
  [(0, "NO_ERROR"), (1, "INVALID_FUNCTION"), (2, "FILE_NOT_FOUND"), (3, "PATH_NOT_FOUND"),
   (4, "TOO_MANY_OPEN_FILES"), (5, "ACCESS_DENIED"), (6, "INVALID_HANDLE"),
   (8, "NOT_ENOUGH_MEMORY"), (15, "INVALID_DRIVE"), (16, "CURRENT_DIRECTORY"),
   (17, "NOT_SAME_DEVICE"), (18, "NO_MORE_FILES"), (19, "WRITE_PROTECT"),
   (32, "SHARING_VIOLATION"), (33, "LOCK_VIOLATION"), (80, "FILE_EXISTS"), (82, "CANNOT_MAKE"),
   (87, "INVALID_PARAMETER"), (110, "OPEN_FAILED"), (111, "BUFFER_OVERFLOW"), (112, "DISK_FULL"),
   (113, "NO_MORE_SEARCH_HANDLES"), (124, "INVALID_LEVEL"), (145, "DIRECTORY_NOT_EMPTY"),
   (206, "FILENAME_EXCED_RANGE"), (254, "EA_NOT_FOUND")]

/-- The debug text of an error. -/
def errorText (error : Os2Error) : Path :=
  let name := match errorNames.lookup error.code with
    | some name => '=' :: name.toList
    | none => []
  "Os2Error(".toList ++ Nat.toDigits 10 error.code ++ name ++ [')']

def cmdCd (args : List Path) : ShellM ω φ Unit := do
  match args with
  | [] => writeln host (hereText (← ask host.dirs))
  | path :: _ =>
    match (← ask host.dirs).cmdCd path with
    | .ok dirs => call fun world => ((), host.setDirs dirs world)
    | .error error => writelnAttr host ("The system cannot find the path specified. (".toList ++
        errorText error ++ [')']) attrError

def cmdChangeDrive (diskOs2 : UInt8) : ShellM ω φ Unit := do
  match (← ask host.dirs).cmdChangeDrive diskOs2 with
  | .ok dirs => call fun world => ((), host.setDirs dirs world)
  | .error _ => writelnAttr host ("Drive ".toList ++
      driveLetter (diskOs2.toNat - 1) :: ": is not available.".toList) attrError

/-- The header is written before the search. -/
def cmdDir (args : List Path) : ShellM ω φ Unit := do
  let pattern := dirPattern (← ask host.dirs).driveMgr args
  writelnAttr host (" Directory of ".toList ++
    (pattern.rdropWhile (· = '*')).rdropWhile (· = '\\')) attrHeader
  writeln host []
  match ← call (host.search pattern) with
  | none => writelnAttr host "File not found.".toList attrError
  | some listing => listing.lines.forM (writeln host)

def withArgument (args : List Path) (command : Path → ShellM ω φ Unit) : ShellM ω φ Unit :=
  match args with
  | [] => writelnAttr host "Required parameter missing.".toList attrError
  | pathArg :: _ => command pathArg

def cmdType (args : List Path) : ShellM ω φ Unit := withArgument host args fun pathArg => do
  match ← call (host.resolveToHostPath pathArg) with
  | none => writelnAttr host "The system cannot find the file specified.".toList attrError
  | some hostPath => match ← ask (host.read hostPath) with
    | .error e => writelnAttr host ("Error reading file: ".toList ++ e) attrError
    | .ok bytes => do
      writeOut host bytes
      writeOut host [0x0D, 0x0A]

/-- A change of the drive, with a message where it fails. -/
def changing (message : String) (act : Path → ω → VfsResult Unit × ω) (args : List Path) :
    ShellM ω φ Unit := withArgument host args fun pathArg => do
  match ← call (act pathArg) with
  | .ok () => pure ()
  | .error e => writelnAttr host (message.toList ++ errorText e) attrError

def cmdMd : List Path → ShellM ω φ Unit :=
  changing host "Cannot create directory: " host.createDir

def cmdRd : List Path → ShellM ω φ Unit :=
  changing host "Cannot remove directory: " host.deleteDir

def cmdDel : List Path → ShellM ω φ Unit :=
  changing host "Could not delete file: " host.deleteFile

end Builtins

section External

/-- The directory of a child below the host's own. -/
def childDir (state : DirState Unit) : Path :=
  (state.processMgr.currentDir.map fun c => if c = '\\' then '/' else c).dropWhile (· = '/')

/-- The child has the host's standard input. What it writes goes to the screen piece by
piece, and elsewhere once it has ended. -/
def spawnExternal (progPath : Path) (args : List Path) : ShellM ω φ Unit := do
  match ← ask host.currentExe with
  | .error e => writelnAttr host ("Cannot locate warpine executable: ".toList ++ e) attrError
  | .ok exe =>
    let cwd := childDir (← ask host.dirs)
    match ← call (host.spawn exe (progPath :: args) cwd) with
    | .error e => writelnAttr host ("Failed to spawn program: ".toList ++ e) attrError
    | .ok pieces => match (← get).outputSink with
      | .vio => pieces.forM fun piece => call fun world =>
          ((), host.writeTty piece attrNormal world)
      | _ => do
        let output := pieces.flatten
        if output ≠ [] then writeOut host output

/-- A name without one of the two extensions stands for a program first. -/
def findExternal (cmd : Path) : ShellM ω φ (Option Path × Bool) := do
  let upper := host.toUppercase cmd
  if ".CMD".toList.isSuffixOf upper then pure (← call (host.resolveToHostPath cmd), true)
  else if ".EXE".toList.isSuffixOf upper then pure (← call (host.resolveToHostPath cmd), false)
  else match ← call (host.resolveToHostPath (cmd ++ ".EXE".toList)) with
    | some progPath => pure (some progPath, false)
    | none => pure (← call (host.resolveToHostPath (cmd ++ ".CMD".toList)), true)

/-- A script has a shell of its own; the code that it ends with is dropped. -/
def execExternal (script : Path → ω → Except Abort ω) (cmd : Path) (args : List Path) :
    ShellM ω φ Unit := do
  match ← findExternal host cmd with
  | (none, _) => writelnAttr host ("'".toList ++ cmd ++
      "' is not recognized as an internal or external command.".toList) attrError
  | (some path, true) => perform fun world => (script path world).map fun world => ((), world)
  | (some progPath, false) => spawnExternal host progPath args

end External

section Lines

variable (script : Path → ω → Except Abort ω)

def exitCode (args : List Path) : Nat := (args.head?.bind (parseUnsigned (2 ^ 32))).getD 0

/-- Two bytes with a colon. -/
def isDrive (cmd : Path) : Bool := (asBytes cmd).length == 2 && cmd.getLast? == some ':'

def changeDrive (cmd : Path) : ShellM ω φ Unit :=
  match cmd.head? with
  | some c =>
    if c.isAlpha then cmdChangeDrive host (UInt8.ofNat (c.toNat - 'A'.toNat + 1))
    else writelnAttr host "Invalid drive.".toList attrError
  | none => panic

def builtins : List (List String × (List Path → ShellM ω φ Unit)) :=
  [(["REM", "::"], fun _ => pure ()),
   (["ECHO"], cmdEcho host),
   (["CLS"], fun _ => cmdCls host),
   (["VER"], fun _ => cmdVer host),
   (["HELP"], fun _ => cmdHelp host),
   (["SET"], cmdSet host),
   (["CD", "CHDIR"], cmdCd host),
   (["DIR"], cmdDir host),
   (["TYPE"], cmdType host),
   (["MD", "MKDIR"], cmdMd host),
   (["RD", "RMDIR"], cmdRd host),
   (["DEL", "ERASE"], cmdDel host)]

def executeSegment (line : Path) : ShellM ω φ (Option Nat) := do
  match tokenize line with
  | [] => pure none
  | first :: args =>
    let cmd := host.toUppercase first
    match (builtins host).find? fun entry => entry.1.contains (String.ofList cmd) with
    | some entry => do
      entry.2 args
      pure none
    | none =>
      if cmd = "EXIT".toList then pure (some (exitCode args))
      else if isDrive cmd then do
        changeDrive host cmd
        pure none
      else do
        execExternal host script cmd args
        pure none

/-- Lines of what a segment has written. -/
def capturedLines (captured : List UInt8) : List Path :=
  (captured.splitOn 0x0A).map fun line =>
    (Utf8.fromUtf8Lossy line).toList.rdropWhile (· = '\r')

/-- What is written goes to a buffer, and becomes the source of input. -/
def capture (segment : Path) : ShellM ω φ (Option Nat) := do
  let prevSink ← replaceSink (.buffer [])
  let result ← executeSegment host script segment
  let sink ← replaceSink prevSink
  let captured := match sink with
    | .buffer bytes => bytes
    | _ => []
  setSource (.lines (capturedLines captured))
  pure result

/-- Only the last segment writes to where the line does. -/
def executeAt (last : Bool) (text : Path) : ShellM ω φ (Option Nat) :=
  if last then executeSegment host script text else capture host script text

def runSegments : List Path → ShellM ω φ (Option Nat)
  | [] => pure none
  | segment :: rest => do
    let text := trim segment
    if text = [] then runSegments rest
    else match ← executeAt host script rest.isEmpty text with
      | some code => pure (some code)
      | none => runSegments rest

/-- The segments, and then the defaults again. -/
def runPipeline (segments : List Path) : ShellM ω φ (Option Nat) := do
  let result ← runSegments host script segments
  let _ ← replaceSink .vio
  setSource .kbd
  pure result

def openSink : Option (Path × Bool) → ShellM ω φ (Except Path (Option φ))
  | none => pure (.ok none)
  | some (path, append) => do
    let hostPath := (← call (host.resolveToHostPath path)).getD path
    match ← call (host.openWrite hostPath append) with
    | .ok handle => pure (.ok (some handle))
    | .error e => pure (.error ("Cannot open '".toList ++ path ++ "': ".toList ++ e))

def openSource : Option Path → ShellM ω φ (Except Path (Option InputSource))
  | none => pure (.ok none)
  | some path => do
    match ← call (host.resolveToHostPath path) with
    | none => pure (.error ("File not found: ".toList ++ path))
    | some hostPath => match ← ask (host.readToString hostPath) with
      | .ok content => pure (.ok (some (.lines (lines content))))
      | .error e => pure (.error ("Cannot read '".toList ++ path ++ "': ".toList ++ e))

/-- The line is given up. -/
def refuse (message : Path) : ShellM ω φ (Option Nat) := do
  writelnAttr host message attrError
  pure none

/-- The redirection of the output is opened first, and stays opened where that of the input
fails. -/
def executePipeline (parsed : ParsedCommand) : ShellM ω φ (Option Nat) := do
  if parsed.segments.all List.isEmpty then pure none
  else match ← openSink host parsed.stdoutRedir with
    | .error message => refuse host message
    | .ok finalSink => match ← openSource host parsed.stdinFile with
      | .error message => refuse host message
      | .ok initialStdin => do
        if let some source := initialStdin then setSource source
        if let some handle := finalSink then let _ ← replaceSink (.file handle)
        runPipeline host script parsed.segments

def executeLine (line : Path) : ShellM ω φ (Option Nat) :=
  match Cmd.executeLine line with
  | none => pure none
  | some parsed => executePipeline host script parsed

/-- The lines of a script, until one of them ends it. -/
def runLines : List Path → ShellM ω φ Nat
  | [] => pure 0
  | line :: rest => do
    if ← ask host.exitRequested then pure 0
    else
      let trimmed := trim line
      if trimmed = [] then runLines rest
      else match ← executeLine host script trimmed with
        | some code => pure code
        | none => runLines rest

def runScript (path : Path) : ShellM ω φ Nat := do
  match ← ask (host.readToString path) with
  | .error e => do
    writelnAttr host ("Cannot open script: ".toList ++ e) attrError
    pure 1
  | .ok content => runLines host script (lines content)

end Lines

/-- A script in a shell of its own, with so many more levels for the scripts that it calls. -/
def scriptAt : Nat → Path → ω → Except Abort ω
  | 0, _, _ => .error .deep
  | depth + 1, path, world =>
    ((runScript host (scriptAt depth) path).run (.new world)).map fun done => done.2.world

section Start

/-- Whether the shell ends behind its first command, and that command. -/
def parseShellFlags (args : List Path) : Bool × Option Path :=
  match args[1]? with
  | none => (false, none)
  | some argument =>
    if argument.isEmpty then (false, none)
    else
      let text := trim argument
      let upper := host.toUppercase text
      let cmd := trim (text.drop 2)
      let initial := if cmd.isEmpty then none else some cmd
      if "/C ".toList.isPrefixOf upper ∨ upper = "/C".toList then (true, initial)
      else if "/K ".toList.isPrefixOf upper ∨ upper = "/K".toList then (false, initial)
      else (false, some text)

/-- The part of `run` before the prompt: the code that the shell ends with, if it does. -/
def start (script : Path → ω → Except Abort ω) (rawArgs : List Path) : ShellM ω φ (Option Nat) := do
  match parseShellFlags host rawArgs with
  | (_, none) => pure none
  | (runOnce, some cmd) =>
    let result ← executeLine host script (trim cmd)
    if runOnce ∨ result.isSome then pure (some (result.getD 0)) else pure none

def buildPrompt (state : DirState Unit) : Path := '[' :: hereText state ++ "] ".toList

/-- The keyboard is read only where it is the source of input. -/
def readLine : ShellM ω φ (Option Path) := do
  let shell ← get
  match shell.inputSource with
  | .lines [] => pure none
  | .lines (line :: rest) => do
    setSource (.lines rest)
    pure (some line)
  | .kbd => call (host.readKeys shell.history)

/-- One turn of `interactive_loop`: the code that it ends with, if it does. -/
def interactiveTurn (script : Path → ω → Except Abort ω) : ShellM ω φ (Option Nat) := do
  if ← ask host.exitRequested then pure (some 0)
  else
    writeSink host (asBytes (buildPrompt (← ask host.dirs))) attrHeader
    match ← readLine host with
    | none => pure (some 0)
    | some line =>
      let trimmed := trim line
      if trimmed = [] then pure none
      else
        modify fun shell => { shell with
          history := Cmd.CmdShell.historyPush shell.history trimmed }
        executeLine host script trimmed

/-- So many turns at most. -/
def interactiveLoop (script : Path → ω → Except Abort ω) : Nat → ShellM ω φ (Option Nat)
  | 0 => pure none
  | turns + 1 => do
    match ← interactiveTurn host script with
    | some code => pure (some code)
    | none => interactiveLoop script turns

def run (script : Path → ω → Except Abort ω) (rawArgs : List Path) (turns : Nat) :
    ShellM ω φ (Option Nat) := do
  match ← start host script rawArgs with
  | some code => pure (some code)
  | none => interactiveLoop host script turns

end Start

end Warpine.Cmd.Shell
