/-
Module: SeekZstdSep.Core.Save
Purpose: The plugin's `zstdsep save`, of its `save.rs` and `encode.rs`: the input written to a spool
  as records, and these compressed into a new file or added to one that is there.
Trusted boundary: the engine, which runs the `to` commands, and the JSON library, as `Engine` has
  them; the file system, as `FileSteps` has it.
Main exports: NuValue, PipelineData, Engine, Encode.records, SaveFlags, SaveSteps, SaveCall,
  Save.append, Save.run
-/
import SeekZstdSep.Core.Append
import SeekZstdSep.Core.PluginEncode
import SeekZstdSep.Core.Spec

namespace SeekZstdSep

open Lib

/-! ### Values -/

/-- A value of the shell, of which the plugin tells these kinds apart from all others. -/
inductive NuValue (V : Type) where
  | string (val : String)
  | binary (val : Bytes)
  | nothing
  | error (e : ShellError)
  | other (value : V)
deriving DecidableEq

/-- Bytes that come in pieces, and what reading them fails with behind these, if it does. -/
structure ByteStream where
  pieces : List Bytes
  fails : Option ShellError := none

/-- What is piped into a command. -/
inductive PipelineData (V : Type) where
  | empty
  | list (vals : List (NuValue V))
  | listStream (vals : List (NuValue V))
  /-- A value that is no list. -/
  | value (value : NuValue V)
  | byteStream (stream : ByteStream)

/-- What the plugin has of the engine and of the JSON library. -/
structure Engine (V : Type) where
  typeName : V → String
  /-- `json::text` -/
  jsonText : NuValue V → Except ShellError String
  /-- `json::parse` -/
  jsonParse : String → Except ShellError (NuValue V)
  /-- Whether a command is in scope. -/
  findDecl : String → Except ShellError Bool
  callDecl : String → PipelineData V → Except ShellError (PipelineData V)
  /-- What `write_to` writes of anything that is no byte stream. -/
  writeTo : PipelineData V → ByteStream
  /-- What `write_to` fails with where the sink does. -/
  writeFailed : Error → ShellError

variable {V W : Type} [Write W] (engine : Engine V)

/-- What `write_to` writes. -/
def PipelineData.written : PipelineData V → ByteStream
  | .byteStream stream => stream
  | input => engine.writeTo input

/-- `Value::get_type`, as it is shown. -/
def NuValue.typeName : NuValue V → String
  | .string _ => "string"
  | .binary _ => "binary"
  | .nothing => "nothing"
  | .error _ => "error"
  | .other value => engine.typeName value

namespace Encode

/-- The bytes a value already is, or the value back when it has to be serialised first. -/
def textBytes : NuValue V → Except (NuValue V) Bytes
  | .string val => .ok (utf8 val)
  | .binary val => .ok val
  | value => .error value

/-- Whether the plugin writes this format itself. -/
def isJson (format : Option String) : Bool := format.map Format.named = some .json

def failedToWrite (e : Error) : ShellError :=
  { error := "cannot write the records", msg := .library e }

def notText (value : NuValue V) : ShellError where
  error := s!"a {value.typeName engine} is not a record"
  msg := .text "a list is saved one item per record, so every item has to be text"
  help := some "pass --format, or name the format in the file's inner extension"

/-- The items of a list that begins with text: every one has to be text. -/
def textRecords (separator : Bytes) : W → List (NuValue V) → Except ShellError W
  | sink, [] => (Write.flush sink).mapError failedToWrite
  | sink, value :: values =>
      match textBytes value with
      | .error value => .error (notText engine value)
      | .ok bytes =>
          match writeRecord sink bytes separator with
          | .error e => .error (failedToWrite e)
          | .ok sink => textRecords separator sink values

/-- One JSON record per value. -/
def jsonRecords (separator : Bytes) : W → List (NuValue V) → Except ShellError W
  | sink, [] => (Write.flush sink).mapError failedToWrite
  | sink, value :: values =>
      match engine.jsonText value with
      | .error e => .error e
      | .ok record =>
          match writeRecord sink (utf8 record) separator with
          | .error e => .error (failedToWrite e)
          | .ok sink => jsonRecords separator sink values

/-- Pipes the input through the `to <format>` command found in the caller's scope. -/
def serialise (input : PipelineData V) (format : Option String) :
    Except ShellError (PipelineData V) :=
  match format with
  | none =>
      .error {
        error := "no format to write these records with"
        msg := .text "this input is not text, and nothing says how to serialise it"
        help := some ("name the format in the file's inner extension (events.jsonl.seek.zst), " ++
          "or pass --format") }
  | some name =>
      match engine.findDecl s!"to {name}" with
      | .error e => .error e
      | .ok false =>
          .error {
            error := s!"`to {name}` is not in scope"
            msg := .text "no command to serialise the records with"
            help := some ("pass --format to name another one, or pipe in text. Only nushell's " ++
              "own `to` commands can be called from a plugin; jsonl and ndjson are written " ++
              "here instead") }
      | .ok true => engine.callDecl s!"to {name}" input

/-- Writes the bytes of the input through, ending them with `separator`. -/
def text (separator : Bytes) (sink : W) (input : PipelineData V) : Except ShellError W :=
  let stream := input.written engine
  match writePieces ({ sink := sink, separator := separator } : Terminating W) stream.pieces with
  | .error e => .error (engine.writeFailed e)
  | .ok writer =>
      match stream.fails with
      | some e => .error e
      | none => writer.finish.mapError failedToWrite

/-- What is not text: JSON the plugin writes itself, anything else through a command. -/
def structured (format : Option String) (separator : Bytes) (sink : W) (values : List (NuValue V))
    (input : PipelineData V) : Except ShellError W :=
  if isJson format then jsonRecords engine separator sink values
  else
    match serialise engine input format with
    | .error e => .error e
    | .ok output => text engine separator sink output

/-- A list, by what its first item is. -/
def listRecords (format : Option String) (separator : Bytes) (sink : W) :
    List (NuValue V) → Except ShellError W
  | [] => .ok sink
  | first :: values =>
      match textBytes first with
      | .ok _ => textRecords engine separator sink (first :: values)
      | .error _ =>
          structured engine format separator sink (first :: values) (.listStream (first :: values))

/-- Writes the input to the sink as records that end with `separator`. -/
def records (format : Option String) (separator : Bytes) (sink : W) :
    PipelineData V → Except ShellError W
  | .empty => .ok sink
  | .list vals => listRecords engine format separator sink vals
  | .listStream vals => listRecords engine format separator sink vals
  | .value (.error e) => .error e
  | .value value =>
      match textBytes value with
      | .ok _ => textRecords engine separator sink [value]
      | .error value => structured engine format separator sink [value] (.value value)
  | .byteStream stream => text engine separator sink (.byteStream stream)

end Encode

/-! ### The call -/

/-- The flags of `zstdsep save`. The counts and sizes are `i64`. -/
structure SaveFlags where
  append : Bool := false
  force : Bool := false
  finder : FinderFlags := {}
  format : Option String := none
  raw : Bool := false
  insertSeparator : Bool := false
  frameSize : Option Int := none
  recordsPerFrame : Option Int := none
  limitMultiplier : Option Int := none
  trustRecordsPerFrame : Bool := false
  noCheck : Bool := false

/-- How the machine takes the steps of one call: those of a compression, and the directory the
caller is in, how much each write to the spool takes, whether that can be flushed and rewound, how
much each read of a decoder over the file hands out and what each read of the file itself does.
`opens` says whether the file that is added to can be opened. -/
structure SaveSteps extends FileSteps where
  currentDir : Except ShellError String
  spool : Nat → Option Nat
  flushes : Bool
  rewound : Bool
  reads : Nat → Nat
  fileSchedule : Nat → Option Nat

/-- One call of `zstdsep save`. -/
structure SaveCall (V : Type) where
  path : String
  flags : SaveFlags
  input : PipelineData V
  steps : SaveSteps

/-- A path as typed, made absolute against the caller's directory. -/
def resolve (currentDir : Except ShellError String) (path : String) : Except ShellError String :=
  if path.toList.head? = some '/' then .ok path
  else
    match currentDir with
    | .error e => .error e
    | .ok dir =>
        if dir = "" ∨ dir.toList.getLast? = some '/' then .ok (dir ++ path)
        else .ok (dir ++ "/" ++ path)

/-- What the library is called with to add records by what was named. -/
def NamedBoundary.append (zeek : Zeekstd) (f : File) (records : Input)
    (onMissing : OnMissingSeparator) (level : Int) (recordsPerFrame : Option Nat) (trust : Bool) :
    NamedBoundary → Except Error AppendResult × File
  | .separator bytes =>
      appendRecordsWithOpts zeek f records bytes onMissing level recordsPerFrame
        { trustRecordsPerFrame := trust }
  | .finder find =>
      appendRecordsWithOpts zeek f records [] onMissing level recordsPerFrame
        { finder := some find, trustRecordsPerFrame := trust }

namespace Save

/-- The compressor's defaults, which are the CLI's. -/
def frameSize : Int := 131072

def limitMultiplier : Int := 4

def failed (path : String) (e : Error) : ShellError :=
  { error := s!"cannot write {path}", msg := .library e }

/-- Refuses a destination before anything is read: an existing file that nothing says to replace,
and a missing one there is nothing to add to. -/
def checkDestination (path : String) (flags : SaveFlags) (files : Files) :
    Except ShellError Unit :=
  match flags.append, (files.entry path).isSome with
  | true, false =>
      .error {
        error := s!"{path} does not exist"
        msg := .text "--append adds to a file's records; there are none here"
        help := some "write the file first, without --append" }
  | false, true =>
      if flags.force then .ok ()
      else
        .error {
          error := s!"{path} already exists"
          msg := .text "this would replace a file"
          help := some "pass --force to overwrite it, or --append to add to its records" }
  | _, _ => .ok ()

/-- The records per frame `--append` hands the library, and whether to trust it. -/
def appendCount (flags : SaveFlags) : Except ShellError (Option Nat × Bool) :=
  match flags.recordsPerFrame with
  | some n =>
      if n < 0 then
        .error {
          error := "--records-per-frame cannot be negative"
          msg := .text s!"{n} was given" }
      else .ok (some (asUsize n), flags.trustRecordsPerFrame)
  | none =>
      if flags.trustRecordsPerFrame then
        .error {
          error := "--trust-records-per-frame needs --records-per-frame"
          msg := .text "it is that count which is trusted" }
      else .ok (none, flags.trustRecordsPerFrame)

/-- Whether a boundary is a separator. -/
def hasSeparator : NamedBoundary → Bool
  | .separator _ => true
  | .finder _ => false

/-- Adds the staged records to the file of `path`. -/
def append (zeek : Zeekstd) (spec : FinderSpec) (flags : SaveFlags) (path : String)
    (records : Bytes) (steps : SaveSteps) (files : Files) : Except ShellError Unit × Files :=
  match spec.boundary with
  | .error e => (.error e, files)
  | .ok boundary =>
      if flags.insertSeparator ∧ hasSeparator boundary = false then
        (.error {
          error := "--insert-separator needs --finder sep"
          msg := .text "it writes a separator at the join, and only sep has one" }, files)
      else
        match files.entry path with
        | none => (.error (failed path (.external "failed to open the file")), files)
        | some handle =>
            if steps.opens then
              match appendCount flags with
              | .error e => (.error e, files)
              | .ok (recordsPerFrame, trust) =>
                  let f : File :=
                    { bytes := files.content handle
                      reads := steps.reads
                      schedule := steps.fileSchedule }
                  let ran := boundary.append zeek f
                    { data := records, schedule := steps.schedule 0 }
                    (if flags.insertSeparator then .insert else .refuse) 0 recordsPerFrame trust
                  ((ran.1.map fun _ => ()).mapError (failed path), files.write handle ran.2.bytes)
            else (.error (failed path (.external "failed to open the file")), files)

/-- What `compress` is called with. -/
def compressArgs (spec : FinderSpec) (flags : SaveFlags) : SaveArgs where
  frameSize := asUsize (flags.frameSize.getD frameSize)
  limitMultiplier := asUsize (flags.limitMultiplier.getD limitMultiplier)
  recordsPerFrame := flags.recordsPerFrame.map asUsize
  noCheck := flags.noCheck
  boundary := fromSpec spec.finder spec.arg

/-- What a compression that fails is reported as: the finder is built once the output is open. -/
def compressFailed (spec : FinderSpec) (path : String) (steps : SaveSteps) (e : Error) :
    ShellError :=
  match spec.boundary with
  | .error e' => if steps.creates then e' else failed path e
  | .ok _ => failed path e

/-- The staged records are there: they are added to the file, or compressed into it. -/
def deliverTo (zeek : Zeekstd) (overflowChecks : Bool) (spec : FinderSpec) (flags : SaveFlags)
    (path : String) (records : Bytes) (steps : SaveSteps) (files : Files) (fuel : Nat) :
    Option (Except ShellError Unit × Files) :=
  if flags.append then some (append zeek spec flags path records steps files)
  else
    (saveCompress zeek overflowChecks (compressArgs spec flags) path records steps.toFileSteps
        files fuel).map fun finished =>
      ((finished.result.map fun _ => ()).mapError (compressFailed spec path steps),
        finished.files)

/-- The format the input is serialised with, which `--raw` refuses. -/
def formatOf (path : String) (flags : SaveFlags) : Option String :=
  if flags.raw then none else flags.format <|> innerExtension path

/-- What is checked before anything is read: the path, the finder and the flags. -/
def checks (call : SaveCall V) (files : Files) : Except ShellError (String × FinderSpec) :=
  match resolve call.steps.currentDir call.path with
  | .error e => .error e
  | .ok path =>
      match finder call.flags.finder with
      | .error e => .error e
      | .ok spec =>
          if call.flags.append = false ∧ call.flags.trustRecordsPerFrame then
            .error {
              error := "--trust-records-per-frame needs --append"
              msg := .text "it is the frames already in the file whose count is trusted" }
          else if call.flags.append ∧ call.flags.force then
            .error {
              error := "--append and --force cannot be given together"
              msg := .text "one adds to the file, the other replaces it" }
          else (checkDestination path call.flags files).map fun _ => (path, spec)

/-- The input as it is staged: compression needs to seek over the records, and a file the caller
cannot serialise should not have been created by then. -/
def stage (call : SaveCall V) (path : String) (spec : FinderSpec) : Except ShellError Bytes :=
  let spool : ByteSink := { schedule := call.steps.spool, flushes := call.steps.flushes }
  match Encode.records engine (formatOf path call.flags) spec.separator spool call.input with
  | .error e => .error e
  | .ok spool =>
      if call.steps.rewound then .ok spool.written
      else .error (failed path (.external "failed to rewind the records"))

/-- `zstdsep save`. `none` is a panic, or more attempts at a compression than `fuel`. -/
def run (zeek : Zeekstd) (overflowChecks : Bool) (call : SaveCall V) (files : Files)
    (fuel : Nat) : Option (Except ShellError Unit × Files) :=
  match checks call files with
  | .error e => some (.error e, files)
  | .ok (path, spec) =>
      match stage engine call path spec with
      | .error e => some (.error e, files)
      | .ok records =>
          deliverTo zeek overflowChecks spec call.flags path records call.steps files fuel

end Save

end SeekZstdSep
