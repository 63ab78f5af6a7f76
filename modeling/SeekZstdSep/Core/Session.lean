/-
Module: SeekZstdSep.Core.Session
Purpose: What a user of the plugin does in any order: saves, opens, cell paths into handles and
  their summary, of the plugin's `open.rs`, `decode.rs`, `source.rs` and `lib.rs`, over the files
  and the table of open ones.
Trusted boundary: the engine and the file system, as `Core.Save` has them, and `view`, the file a
  reader finds in some bytes. A reader keeps to what it found when it was opened, which nothing
  relies on once its file was written to.
Main exports: Decode.record, NamedBoundary.checked, openPath, openSource, OpenFlags, openRun,
  followPathInt, summary, Session, SessionCall, Session.step
-/
import SeekZstdSep.Core.Save

namespace SeekZstdSep

variable {V : Type} (engine : Engine V)

/-! ### Records as values -/

namespace Decode

/-- `str::from_utf8`. -/
def fromUtf8 (bytes : Bytes) : Option String := String.fromUTF8? ⟨bytes.toArray⟩

/-- A string when the bytes are text, binary when they are not. -/
def rawValue (bytes : Bytes) : NuValue V :=
  match fromUtf8 bytes with
  | some text => .string text
  | none => .binary bytes

/-- One record, without its separator, as a value. -/
def record (spec : FinderSpec) (format : Format) (bytes : Bytes) :
    Except ShellError (NuValue V) :=
  let bytes := stripSeparator bytes spec.separator
  match format, fromUtf8 bytes with
  | .json, some text => engine.jsonParse text
  | _, _ => .ok (rawValue bytes)

/-- An item of the stream: a record that cannot be read or decoded is a value that says so. -/
def streamed (spec : FinderSpec) (format : Format) (result : Except Error Bytes) : NuValue V :=
  match result with
  | .error e => .error { error := "cannot read a record", msg := .library e }
  | .ok bytes =>
      match record engine spec format bytes with
      | .ok value => value
      | .error e => .error e

end Decode

/-! ### Opening -/

/-- Where records end, for a reader: an empty separator ends none. -/
def NamedBoundary.checked : NamedBoundary → Except Error Boundary
  | .separator bytes => if h : bytes = [] then .error .emptySeparator else .ok (.separator bytes h)
  | .finder find => .ok (.finder find)

/-- `RecordReader::open` and `open_with`, where `view` is the file that is found in some bytes and
`opens` says whether the file system lets the path be opened. -/
def openPath (view : Bytes → Except Error SeekableFile) (opens : Bool) (files : Files)
    (path : String) (named : NamedBoundary) : Except Error RecordReader :=
  match if opens then files.read path else none with
  | none => .error (.external "failed to open the file")
  | some bytes =>
      match named.checked with
      | .error e => .error e
      | .ok boundary =>
          match view bytes with
          | .error e => .error e
          | .ok file => RecordReader.fromReader file path boundary

/-- `Source::open`, where `opens` says which opens the file system refuses. -/
def openSource (view : Bytes → Except Error SeekableFile) (opens : Nat → Bool) (files : Files) :
    Opener String RecordReader := fun tick path spec =>
  match fromSpec spec.finder spec.arg with
  | .error e => .error e
  | .ok named => openPath view (opens tick) files path named

/-- The flags of `zstdsep open`. -/
structure OpenFlags where
  finder : FinderFlags := {}
  format : Option String := none
  raw : Bool := false
  noPartial : Bool := false

/-- The format of what is opened. The first file names it. -/
def OpenFlags.formatOf (flags : OpenFlags) (path : String) : Format :=
  if flags.raw then .raw
  else
    match flags.format with
    | some name => .named name
    | none => .ofPath path

/-- What a call of `zstdsep open` comes to. -/
inductive OpenOutcome (V : Type) where
  | handle (handle : Handle String)
  | values (values : List (NuValue V))
  /-- What `from <name>` makes of the bytes of the files. -/
  | parsed (output : PipelineData V)

/-- What a call of the plugin fails with. -/
inductive CallError where
  | shell (e : ShellError)
  /-- The files cannot be opened or read. -/
  | files (e : PluginError)
  /-- "no file to open" -/
  | noFile
  | accessBeyondEnd (maxIdx : Nat)
deriving DecidableEq

/-- The reader's bytes, from the start. -/
def RecordReader.intoBytes (r : RecordReader) : Bytes := r.lookup.window.source.inner.stream

/-- Pipes the input through `from <name>`, resolved in the caller's scope. -/
def callFrom (name : String) (input : ByteStream) : Except ShellError (PipelineData V) :=
  match engine.findDecl s!"from {name}" with
  | .error e => .error e
  | .ok false =>
      .error {
        error := s!"`from {name}` is not in scope"
        msg := .text "no command to parse the records with"
        help := some ("run `use std formats *` for jsonl and ndjson, pass --format to name " ++
          "another one, or pass --raw to get the records as strings") }
  | .ok true => engine.callDecl s!"from {name}" (.byteStream input)

/-- Every record of the files in the order they were named. A `from` command is handed the bytes of
all of them; it splits records itself. -/
def streamOf (spec : FinderSpec) (format : Format) (readers : List RecordReader) (fuel : Nat) :
    Except ShellError (OpenOutcome V) :=
  match format with
  | .from name =>
      (callFrom engine name { pieces := readers.map RecordReader.intoBytes }).map .parsed
  | _ =>
      .ok (.values ((streamRecords fuel (readers.map RecordReader.intoRecords)).map
        (Decode.streamed engine spec format)))

/-- The paths as typed, made absolute. -/
def resolveAll (currentDir : Except ShellError String) :
    List String → Except ShellError (List String)
  | [] => .ok []
  | path :: paths =>
      match resolve currentDir path with
      | .error e => .error e
      | .ok path => (resolveAll currentDir paths).map (path :: ·)

/-- `zstdsep open`. The stream is read for at most `fuel` steps. -/
def openRun (opener : Opener String RecordReader) (currentDir : Except ShellError String)
    (table : State String RecordReader) (named : List String) (flags : OpenFlags) (fuel : Nat) :
    Except CallError (OpenOutcome V) × State String RecordReader :=
  if named = [] then (.error .noFile, table)
  else
    match resolveAll currentDir named, finder flags.finder with
    | .error e, _ => (.error (.shell e), table)
    | _, .error e => (.error (.shell e), table)
    | .ok paths, .ok spec =>
        let format := flags.formatOf (paths.headD "")
        if flags.noPartial then
          match State.openAll opener spec table.tick paths with
          | (.error e, tick) => (.error (.files e), { table with tick := tick })
          | (.ok readers, tick) =>
              ((streamOf engine spec format readers fuel).mapError .shell,
                { table with tick := tick })
        else
          match table.openCommand opener paths spec format.name with
          | (.error e, table) => (.error (.files e), table)
          | (.ok handle, table) => (.ok (.handle handle), table)

/-! ### Handles -/

/-- What a record of the handle is decoded by. -/
def Handle.formatOf (handle : Handle String) : Format :=
  match handle.format with
  | none => .raw
  | some name => .named name

/-- `$h.10` and `get 10`. -/
def followPathInt (opener : Opener String RecordReader) (table : State String RecordReader)
    (handle : Handle String) (index : Nat) (optional : Bool) :
    Except CallError (NuValue V) × State String RecordReader :=
  match table.withFiles opener handle (OpenFiles.record · index) with
  | (.error e, table) => (.error (.files e), table)
  | (.ok (some bytes), table) =>
      ((Decode.record engine handle.finder handle.formatOf bytes).mapError .shell, table)
  | (.ok none, table) =>
      if optional then (.ok .nothing, table)
      else
        match table.withFiles opener handle OpenFiles.total with
        | (.error _, table) => (.error (.accessBeyondEnd 0), table)
        | (.ok total, table) => (.error (.accessBeyondEnd (total - 1)), table)

/-- What a handle says about its files: everything but the records. -/
structure Summary where
  path : List String
  finder : String
  finderArg : Option String
  format : Option String
  frames : List Nat
  recordsPerFrame : List Nat
  records : Option Nat
deriving DecidableEq

/-- What the summary of a handle makes of its files, with the number of records only where that is
asked for. -/
def summaryOf (handle : Handle String) (withRecords : Bool)
    (files : OpenFiles String RecordReader) :
    Except PluginError Summary × OpenFiles String RecordReader :=
  let counted := if withRecords then files.total else (.ok 0, files)
  (counted.1.map fun records => {
      path := handle.paths
      finder := handle.finder.finder
      finderArg := handle.finder.arg
      format := handle.format
      frames := files.readers.map RecordReader.frameCount
      recordsPerFrame := files.readers.map RecordReader.recordsPerFrame
      records := if withRecords then some records else none },
    counted.2)

def summary (opener : Opener String RecordReader) (table : State String RecordReader)
    (handle : Handle String) (withRecords : Bool) :
    Except PluginError Summary × State String RecordReader :=
  table.withFiles opener handle (summaryOf handle withRecords)

/-! ### Sessions -/

/-- The files, and the plugin's table. -/
structure Session where
  files : Files
  table : State String RecordReader

/-- What is done with the plugin. A restart loses the table and begins to count ids anew. -/
inductive SessionCall (V : Type) where
  | save (call : SaveCall V)
  | openFiles (opens : Nat → Bool) (currentDir : Except ShellError String) (named : List String)
      (flags : OpenFlags)
  | follow (opens : Nat → Bool) (handle : Handle String) (index : Nat) (optional : Bool)
  | summary (opens : Nat → Bool) (handle : Handle String) (withRecords : Bool)
  | drop (handle : Handle String)
  | restart (nextId : Nat)

/-- The session behind a call. `none` is a panic of a save, or more attempts at its compression than
`fuel`. -/
def Session.step (zeek : Zeekstd) (overflowChecks : Bool)
    (view : Bytes → Except Error SeekableFile) (fuel : Nat) (session : Session) :
    SessionCall V → Option Session
  | .save call =>
      (Save.run engine zeek overflowChecks call session.files fuel).map fun ran =>
        { session with files := ran.2 }
  | .openFiles opens currentDir named flags =>
      let opener := openSource view opens session.files
      some { session with
        table := (openRun engine opener currentDir session.table named flags fuel).2 }
  | .follow opens handle index optional =>
      let opener := openSource view opens session.files
      some { session with
        table := (followPathInt engine opener session.table handle index optional).2 }
  | .summary opens handle withRecords =>
      let opener := openSource view opens session.files
      some { session with table := (summary opener session.table handle withRecords).2 }
  | .drop handle => some { session with table := session.table.dropped handle }
  | .restart nextId =>
      some { session with table := { nextId := nextId, tick := session.table.tick } }

end SeekZstdSep
