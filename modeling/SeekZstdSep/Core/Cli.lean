/-
Module: SeekZstdSep.Core.Cli
Purpose: The command line tool, of cli.rs and main.rs: compressions, edits in place or of a copy,
  copies of a range and `cat`, over the files there are. A copy opens its output with its first
  write and goes on reading its input as that is by then.
Trusted boundary: the file system, as `Core.Deliver` has it, and `view`, as `Core.Session` has it.
  A path names one file, and a file that is edited is the input of no append.
Main exports: BoundaryArgs, CliSteps, LazyFile, runCopyRange, updateFile, runAppend, runCat,
  Command, Command.run, SystemCall, Session.callStep
-/
import SeekZstdSep.Core.Session

namespace SeekZstdSep

open Lib

/-! ### The arguments -/

/-- Where a record ends, as the command line names it. The parser takes one of the two parameters
only. -/
structure BoundaryArgs where
  finder : String := "sep"
  finderArg : Option String := none
  separator : Option String := none
  one_param : finderArg = none ∨ separator = none := by decide

/-- No flag is given: a record ends with a newline. -/
def BoundaryArgs.lines : BoundaryArgs := {}

/-- What the flags name. -/
def BoundaryArgs.boundary (args : BoundaryArgs) : Except Error NamedBoundary :=
  if args.separator.isSome ∧ args.finder ≠ "sep" then
    .error (.external ("--separator is --finder sep --finder-arg, so it cannot be given with " ++
      s!"--finder {args.finder}"))
  else fromSpec args.finder (args.finderArg <|> args.separator)

def BoundaryArgs.isSeparator (args : BoundaryArgs) : Bool := args.finder = "sep"

structure TruncateArgs where
  copy : Bool := false
  zstfile : String
  records : Nat
  boundary : BoundaryArgs := .lines

/-- Arguments of `append`. The parser sees to what goes with what. -/
structure AppendArgs where
  copy : Bool := false
  zstfile : String
  input : Option String := none
  boundary : BoundaryArgs := .lines
  insertSeparator : Bool := false
  recordsPerFrame : Option Nat := none
  trustRecordsPerFrame : Bool := false
  inputSeekable : Bool := false
  inputFrom : Option Nat := none
  inputCnt : Option Nat := none
  checkInputFrames : Bool := false
  level : Option Int := none
  seekable_input : inputSeekable = true → input ≠ none := by decide
  trusted_count : trustRecordsPerFrame = true → recordsPerFrame ≠ none := by decide

/-- Arguments of the `copy-range` subcommand. -/
structure CopyRangeArgs where
  input : String
  /-- `-` for the standard output. -/
  output : String
  fromIdx : Nat
  cnt : Option Nat := none
  boundary : BoundaryArgs := .lines
  noAlign : Bool := false
  checkUniform : Bool := false

structure CatArgs where
  input : String
  fromIdx : Nat := 0
  cnt : Nat := 1
  boundary : BoundaryArgs := .lines

/-! ### The machine -/

/-- How an update of a copy goes: whether there is a copy to update, whether it takes the place of
the file, and whether the lock is removed behind that. -/
structure CopySteps where
  copies : Bool := true
  replaces : Bool := true
  closes : Bool := true

/-- How the machine takes the steps of one command: those of a compression, what the standard input
holds, how the file that is edited or copied answers, and the input of an append. -/
structure CliSteps extends FileSteps where
  stdin : Bytes := []
  reads : Nat → Nat
  fileSchedule : Nat → Option Nat
  inputOpens : Bool := true
  inputReads : Nat → Nat
  inputSchedule : Nat → Option Nat
  /-- How much `io::copy` asks for at a time. -/
  copyBuffer : Nat := 8192
  copyBuffer_pos : 0 < copyBuffer := by decide
  copy : CopySteps := {}

/-- The file of a handle, as it is while a command has it open. -/
def CliSteps.file (steps : CliSteps) (files : Files) (handle : Nat) : File where
  bytes := files.content handle
  reads := steps.reads
  schedule := steps.fileSchedule

/-! ### Copying a range -/

/-- The output of a copy, created by the first write rather than when it is named. -/
structure LazyFile where
  path : String
  file : Option Nat := none
  written : Bytes := []

/-- Writes all of some bytes. Writing none does not create the file. -/
def LazyFile.writeAll (steps : FileSteps) (out : LazyFile) (data : Bytes) (files : Files) :
    Except Error Unit × LazyFile × Files :=
  if data = [] then (.ok (), out, files)
  else
    let opened :=
      match out.file with
      | some handle => some (handle, files)
      | none => if steps.creates then some (files.put out.path () []) else none
    match opened with
    | none => (.error (.external "failed to create the output"), out, files)
    | some (handle, files) =>
        let all := out.written ++ data
        let taken := (steps.takes.map all.take).getD all
        (if taken = all then .ok () else .error (.external "failed to write the output"),
          { out with file := some handle, written := taken }, files.write handle taken)

/-- Where a copy goes. -/
inductive CopyOutput where
  | stdout (sink : Sink)
  | file (out : LazyFile)

def CopyOutput.writeAll (steps : FileSteps) (data : Bytes) (files : Files) :
    CopyOutput → Except Error Unit × CopyOutput × Files
  | .stdout sink =>
      let wrote := sink.writeAll data
      (wrote.1, .stdout wrote.2, files)
  | .file out =>
      let wrote := out.writeAll steps data files
      (wrote.1, .file wrote.2.1, wrote.2.2)

/-- `io::copy` of what an open file holds from `pos` on, up to `stop`. -/
def copyFuel (steps : CliSteps) (handle stop : Nat) :
    Nat → Nat → Nat → CopyOutput → Files → Except Error Unit × CopyOutput × Files
  | 0, _, _, out, files => (.error .fuel, out, files)
  | fuel + 1, tick, pos, out, files =>
      -- what is read is what the file holds by now
      let source : Input :=
        { data := ((files.content handle).drop pos).take (stop - pos)
          schedule := steps.fileSchedule
          tick := tick }
      match Read.read source steps.copyBuffer with
      | .error e => (.error e, out, files)
      | .ok (bytes, source) =>
          if bytes.isEmpty then (.ok (), out, files)
          else
            match out.writeAll steps.toFileSteps bytes files with
            | (.error e, out, files) => (.error e, out, files)
            | (.ok (), out, files) =>
                copyFuel steps handle stop fuel source.tick (pos + bytes.length) out files

/-- `copy_range_with` from an open file. -/
def copyRangeOnto (zeek : Zeekstd) (steps : CliSteps) (handle fromIdx : Nat) (cnt : Option Nat)
    (find : Finder UInt8) (align : Alignment) (check : SeparatorCheck) (out : CopyOutput)
    (files : Files) : Except Error Unit × CopyOutput × Files :=
  match copyRangeChecks zeek (steps.file files handle) fromIdx cnt find align check with
  | .error e => (.error e, out, files)
  | .ok (table, k, j) =>
      let start := table.frameStartComp k
      let stop := table.frameEndComp (j - 1)
      match copyFuel steps handle stop (stop - start + 1) 0 start out files with
      | (.error e, out, files) => (.error e, out, files)
      | (.ok (), out, files) =>
          match logFrames zeek [] (table.range k j) with
          | .error e => (.error e, out, files)
          | .ok logged => out.writeAll steps.toFileSteps (zeek.serialize logged) files

/-- Opens a file that is there. -/
def openFile (opens : Bool) (files : Files) (path : String) : Except Error Nat :=
  match if opens then files.entry path else none with
  | none => .error (.external "failed to open the file")
  | some handle => .ok handle

/-- Runs `copy-range` over the standard output. -/
def runCopyRange (zeek : Zeekstd) (args : CopyRangeArgs) (steps : CliSteps) (stdout : Sink)
    (files : Files) : Except Error Unit × CopyOutput × Files :=
  let out : CopyOutput :=
    if args.output = "-" then .stdout stdout else .file { path := args.output }
  match openFile steps.opens files args.input with
  | .error e => (.error e, out, files)
  | .ok handle =>
      match args.boundary.boundary with
      | .error e => (.error e, out, files)
      | .ok named =>
          match named.checked with
          | .error e => (.error e, out, files)
          | .ok boundary =>
              copyRangeOnto zeek steps handle args.fromIdx args.cnt boundary.find
                (if args.noAlign then .notRequired else .required)
                (if args.checkUniform then .twoFrames else .firstFrame) out files

/-! ### Edits -/

/-- Updates the file of a path, in place or in a copy that takes its place where the update
succeeds. -/
def updateFile (steps : CliSteps) (copy : Bool) (path : String)
    (update : File → Except Error Unit × File) (files : Files) : Except Error Unit × Files :=
  if copy then
    match files.entry path with
    | none => (.error (.external "failed to open the file"), files)
    | some handle =>
        if steps.copy.copies then
          match update (steps.file files handle) with
          | (.error e, _) => (.error e, files)
          | (.ok (), f) =>
              if steps.copy.replaces then
                -- the copy is a file of its own, under the name from now on
                let replaced := (((files.remove path).getD files).put path () f.bytes).2
                (if steps.copy.closes then .ok ()
                  else .error (.external "failed to remove the lock"), replaced)
              else (.error (.external "failed to replace the file"), files)
        else (.error (.external "failed to copy the file"), files)
  else
    match openFile steps.opens files path with
    | .error e => (.error e, files)
    | .ok handle =>
        let ran := update (steps.file files handle)
        (ran.1, files.write handle ran.2.bytes)

/-- What `truncate` does to a file. -/
def TruncateArgs.update (zeek : Zeekstd) (args : TruncateArgs) (f : File) :
    Except Error Unit × File :=
  match args.boundary.boundary with
  | .error e => (.error e, f)
  | .ok named =>
      match named.checked with
      | .error e => (.error e, f)
      | .ok boundary => truncateRecords zeek f args.records boundary.find

def runTruncate (zeek : Zeekstd) (args : TruncateArgs) (steps : CliSteps) (files : Files) :
    Except Error Unit × Files :=
  updateFile steps args.copy args.zstfile (args.update zeek) files

/-- Opens the input of an append, where one is named. -/
def AppendArgs.opened (args : AppendArgs) (steps : CliSteps) (files : Files) :
    Except Error (Option Bytes) :=
  match args.input with
  | none => .ok none
  | some path =>
      match if steps.inputOpens then files.read path else none with
      | none => .error (.external "failed to open the input")
      | some bytes => .ok (some bytes)

/-- The records to append: the file that was named, or standard input. -/
def recordsInput (steps : CliSteps) (opened : Option Bytes) : Input where
  data := opened.getD steps.stdin
  schedule := steps.inputSchedule

/-- What `append` does to a file. -/
def AppendArgs.update (zeek : Zeekstd) (args : AppendArgs) (steps : CliSteps) (files : Files)
    (f : File) : Except Error Unit × File :=
  match args.opened steps files with
  | .error e => (.error e, f)
  | .ok opened =>
      if args.insertSeparator ∧ args.boundary.isSeparator = false then
        (.error (.external
          "--insert-separator writes a separator at the join, so it needs --finder sep"), f)
      else
        match args.boundary.boundary with
        | .error e => (.error e, f)
        | .ok named =>
            match args.inputSeekable, opened with
            | true, some bytes =>
                match named.checked with
                | .error e => (.error e, f)
                | .ok boundary =>
                    let input : File :=
                      { bytes := bytes, reads := steps.inputReads, schedule := steps.inputSchedule }
                    appendFramesWith zeek f input (args.inputFrom.getD 0) args.inputCnt
                      boundary.find (if args.checkInputFrames then .everyFrame else .firstFrame)
            -- a seekable input is named, so this is the other kind
            | _, _ =>
                let ran := named.append zeek f (recordsInput steps opened)
                  (if args.insertSeparator then .insert else .refuse) (args.level.getD 0)
                  args.recordsPerFrame args.trustRecordsPerFrame
                (ran.1.map fun _ => (), ran.2)

def runAppend (zeek : Zeekstd) (args : AppendArgs) (steps : CliSteps) (files : Files) :
    Except Error Unit × Files :=
  updateFile steps args.copy args.zstfile (args.update zeek steps files) files

/-! ### The commands -/

/-- Writes a range of records to the standard output. -/
def runCat (view : Bytes → Except Error SeekableFile) (args : CatArgs) (opens : Bool)
    (stdout : Sink) (files : Files) : Except Error Unit × Sink :=
  match args.boundary.boundary with
  | .error e => (.error e, stdout)
  | .ok named =>
      match openPath view opens files args.input named with
      | .error e => (.error e, stdout)
      | .ok reader =>
          let ran := reader.recordsTo args.fromIdx args.cnt stdout
          (ran.1, ran.2.2)

/-- What writes files. The boundary of a compression is the one its arguments are given. -/
inductive Command where
  | compress (boundary : BoundaryArgs) (args : ConvertArgs)
  | truncate (args : TruncateArgs)
  | append (args : AppendArgs)
  | copyRange (args : CopyRangeArgs)

/-- A command, and the files it leaves. `none` is a panic of a compression, or more attempts at one
than `fuel`. -/
def Command.run (zeek : Zeekstd) (overflowChecks : Bool) (steps : CliSteps) (files : Files)
    (fuel : Nat) : Command → Option (Except Error Unit × Files)
  | .compress boundary args =>
      (runCompress zeek overflowChecks { args with boundary := boundary.boundary } steps.stdin
          steps.toFileSteps files fuel).map fun finished =>
        (finished.result.map fun _ => (), finished.files)
  | .truncate args => some (runTruncate zeek args steps files)
  | .append args => some (runAppend zeek args steps files)
  | .copyRange args =>
      let ran := runCopyRange zeek args steps {} files
      some (ran.1, ran.2.2)

/-- What is done with the plugin and the tool, one call after another. -/
inductive SystemCall (V : Type) where
  | plugin (call : SessionCall V)
  | tool (command : Command) (steps : CliSteps)

/-- The session behind a call. The tool has no part in the plugin's table. -/
def Session.callStep {V : Type} (engine : Engine V) (zeek : Zeekstd) (overflowChecks : Bool)
    (view : Bytes → Except Error SeekableFile) (fuel : Nat) (session : Session) :
    SystemCall V → Option Session
  | .plugin call => session.step engine zeek overflowChecks view fuel call
  | .tool command steps =>
      (command.run zeek overflowChecks steps session.files fuel).map fun ran =>
        { session with files := ran.2 }

end SeekZstdSep
