/-
Module: SeekZstdSep.Core.Deliver
Purpose: `run_compress` of cli.rs and `compress` of the plugin's save.rs: an output that is opened
  first, compressed into directly or delivered to by `compress_with_retry`, and an input that may
  be removed behind it. Each step of the file system may fail.
Trusted boundary: the file system, as `Directory` has it, and `reflink_or_copy`, which succeeds with
  the whole file under the name or fails and leaves any part of it or nothing there.
Main exports: Clone, FileSteps, deliver, compressOnto, ConvertArgs, runCompress, saveCompress
-/
import SeekZstdSep.Lib.Directory
import SeekZstdSep.Core.Retry

namespace SeekZstdSep

open Lib

/-- What `from_spec` makes of what the caller named: a separator, as it was given, or a finder. -/
inductive NamedBoundary where
  | separator (bytes : Bytes)
  | finder (find : Finder UInt8)

/-- The conversion that cuts at the boundary. An empty separator is refused. -/
def NamedBoundary.convert (zeek : Zeekstd) (overflowChecks isSame : Bool)
    (limitMultiplier : Option Nat) : NamedBoundary → Input → Nat → Option CompressOptions →
      Option (Except Error Bytes)
  | .separator bytes =>
      if h : bytes = [] then fun _ _ _ => some (.error .emptySeparator)
      else convertBuffered zeek overflowChecks isSame (separatorFinder bytes h) limitMultiplier
  | .finder find => convertBuffered zeek overflowChecks isSame find limitMultiplier

/-! ### The file system -/

/-- The files there are names for. -/
abbrev Files := Directory String Unit Bytes

/-- How `reflink_or_copy` ends: it fails having left nothing under the name that was not there, or
all the bytes of the file but the last so many. -/
inductive Clone where
  | done
  | failed (missing : Option Nat)
deriving DecidableEq, Repr

/-- How the file system takes the steps of one call, in the order the call makes them. -/
structure FileSteps where
  opens : Bool
  creates : Bool
  /-- How much each read of each attempt hands out, or that it fails. -/
  schedule : Nat → Nat → Option Nat
  rewinds : Nat → Bool
  staging : Staging
  /-- Whether the old output can be removed. -/
  removes : Bool
  clone : Clone
  /-- How many bytes the open output takes before a write fails, `none` for all there are. -/
  takes : Option Nat
  removesInput : Bool

/-- Where a compression writes to: the file it opened under a path, or the standard output. -/
inductive Destination where
  | file (path : String) (handle : Nat)
  | stdout
deriving DecidableEq, Repr

/-- Writes to the open output, from its start on. -/
def Destination.write (takes : Option Nat) (data : Bytes) : Destination → Files → Bool × Files
  | .stdout, files => (takes.isNone, files)
  | .file _ handle, files =>
      let taken := (takes.map data.take).getD data
      (takes.isNone, files.write handle (taken ++ (files.content handle).drop taken.length))

/-- What `compress_with_retry` does with the staging file: the old output goes, the staging file is
cloned to its path, and where that fails it is copied to the output that is open. -/
def deliver (steps : FileSteps) (staged : Bytes) (dest : Destination) (files : Files) :
    Bool × Files :=
  match dest with
  -- nothing to reflink onto
  | .stdout => dest.write steps.takes staged files
  | .file path _ =>
      -- what comes of the removal is not looked at
      let files := if steps.removes then (files.remove path).getD files else files
      match steps.clone with
      | .done => (true, (files.put path () staged).2)
      | .failed none => dest.write steps.takes staged files
      | .failed (some missing) =>
          dest.write steps.takes staged
            (files.put path () (staged.take (staged.length - missing))).2

/-! ### The calls -/

/-- A compression is over once its output is written. -/
def settled (made : Bytes) (wrote : Bool × Files) : Except Error Bytes × Files :=
  (if wrote.1 then .ok made else .error (.external "failed to write the output"), wrote.2)

/-- Compresses onto an output that is open: in one conversion where the framing is given, else
through the staging file. `none` is a panic, or more attempts than `fuel`. -/
def compressOnto (overflowChecks : Bool) (steps : FileSteps) (reader : RetryReader)
    (frameSize : Nat) (opts : CompressOptions)
    (convert : Input → Nat → Option CompressOptions → Option (Except Error Bytes))
    (converts : Bool) (dest : Destination) (files : Files) (fuel : Nat) :
    Option (Except Error Bytes × Files) :=
  if converts then
    match convert (reader.input 0 reader.pos) frameSize (some opts) with
    | none => none
    | some (.error e) => some (.error e, files)
    | some (.ok made) => some (settled made (dest.write steps.takes made files))
  else
    match compressWithRetry overflowChecks reader { steps.staging with delivers := true } frameSize
        (some opts) convert fuel with
    | some (.returned (.ok staged)) => some (settled staged (deliver steps staged dest files))
    | some (.returned (.error e)) => some (.error e, files)
    | _ => none

/-- `File::create`, with what it hands back. -/
def openOutput (steps : FileSteps) (files : Files) : Option String →
    Except Error (Destination × Files)
  | none => .ok (.stdout, files)
  | some path =>
      if steps.creates then
        let created := files.put path () []
        .ok (.file path created.1, created.2)
      else .error (.external "failed to create the output")

/-- What a call comes to. -/
structure Finished where
  /-- The compressed output, where the call returns `Ok`. -/
  result : Except Error Bytes
  files : Files
  /-- The files there were when the input was removed. -/
  removedFrom : Option Files := none

/-- Arguments of the `compress` and `convert` subcommands. The two paths are their names. -/
structure ConvertArgs where
  input : Option String
  output : Option String
  boundary : Except Error NamedBoundary
  frameSize : Nat
  limitMultiplier : Option Nat
  cntOfSeparatorPerFrame : Option Nat
  rm : Bool
  keepCntOfSeparatorsInFrame : Bool
  noCheck : Bool
  level : Option Int

/-- Where the output of a call goes, and `none` for the standard output. -/
def ConvertArgs.outputPath (args : ConvertArgs) : Option String :=
  args.output <|> args.input.map (· ++ ".seek.zst")

/-- What is read: a file that was opened, or what was spooled. -/
inductive OpenInput where
  | file (handle : Nat)
  | spool (data : Bytes)

/-- What reading on from the start hands out, once the output is open too. -/
def OpenInput.data (files : Files) : OpenInput → Bytes
  | .file handle => files.content handle
  | .spool data => data

/-- Opens the input, or spools the standard input. -/
def openInput (steps : FileSteps) (files : Files) (stdin : Bytes) : Option String →
    Except Error OpenInput
  | none => if steps.opens then .ok (.spool stdin) else .error (.external "read failed")
  | some path =>
      match files.entry path with
      | some handle =>
          if steps.opens then .ok (.file handle) else .error (.external "failed to open the input")
      | none => .error (.external "failed to open the input")

/-- `--rm`, once the output is written. -/
def removeInput (steps : FileSteps) (args : ConvertArgs) (made : Bytes) (files : Files) :
    Finished :=
  if !args.rm then { result := .ok made, files := files }
  else
    match args.input with
    | none => { result := .error (.external "--rm requires input file"), files := files }
    | some path =>
        match if steps.removesInput then files.remove path else none with
        | none => { result := .error (.external "failed to remove the input"), files := files }
        | some removed => { result := .ok made, files := removed, removedFrom := some files }

/-- Runs `compress` over the standard input and output. -/
def runCompress (zeek : Zeekstd) (overflowChecks : Bool) (args : ConvertArgs) (stdin : Bytes)
    (steps : FileSteps) (files : Files) (fuel : Nat) : Option Finished :=
  let opts : CompressOptions :=
    { checksum := !args.noCheck
      level := args.level.getD 0
      maxOfSeparator := args.cntOfSeparatorPerFrame }
  match args.boundary with
  | .error e => some { result := .error e, files := files }
  | .ok boundary =>
      match openInput steps files stdin args.input with
      | .error e => some { result := .error e, files := files }
      | .ok input =>
          match openOutput steps files args.outputPath with
          | .error e => some { result := .error e, files := files }
          | .ok (dest, files) =>
              let reader : RetryReader :=
                { data := input.data files, schedule := steps.schedule, rewinds := steps.rewinds }
              match compressOnto overflowChecks steps reader args.frameSize opts
                  (boundary.convert zeek overflowChecks args.keepCntOfSeparatorsInFrame
                    args.limitMultiplier)
                  args.cntOfSeparatorPerFrame.isSome dest files fuel with
              | none => none
              | some (.error e, files) => some { result := .error e, files := files }
              | some (.ok made, files) => some (removeInput steps args made files)

/-- The flags of the plugin's `save` that `compress` reads. -/
structure SaveArgs where
  frameSize : Nat
  limitMultiplier : Nat
  recordsPerFrame : Option Nat
  noCheck : Bool
  boundary : Except Error NamedBoundary

/-- The plugin's `compress`: compresses the staged records into `path`. -/
def saveCompress (zeek : Zeekstd) (overflowChecks : Bool) (args : SaveArgs) (path : String)
    (records : Bytes) (steps : FileSteps) (files : Files) (fuel : Nat) : Option Finished :=
  let opts : CompressOptions :=
    { checksum := !args.noCheck, level := 0, maxOfSeparator := args.recordsPerFrame }
  match openOutput steps files (some path) with
  | .error e => some { result := .error e, files := files }
  | .ok (dest, files) =>
      match args.boundary with
      | .error e => some { result := .error e, files := files }
      | .ok boundary =>
          let reader : RetryReader :=
            { data := records, schedule := steps.schedule, rewinds := steps.rewinds }
          -- a uniform count per frame is not a choice the caller gets to make
          match compressOnto overflowChecks steps reader args.frameSize opts
              (boundary.convert zeek overflowChecks true (some args.limitMultiplier))
              args.recordsPerFrame.isSome dest files fuel with
          | none => none
          | some (result, files) => some { result := result, files := files }

end SeekZstdSep
