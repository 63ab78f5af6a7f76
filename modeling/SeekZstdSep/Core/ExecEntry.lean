/-
Module: SeekZstdSep.Core.ExecEntry
Purpose: The entry points that take a separator, as the machine runs them: which of them check it,
  and the record loops each of them makes with it.
Trusted boundary: the library, as `Zeekstd` has it
Main exports: Exec.convertRecords, Exec.oldConvert, Exec.compressWithRetry, Exec.openReader,
  Exec.inspectWithOpts, EntryPoint, EntryPoint.run
-/
import SeekZstdSep.Core.ExecAppend
import SeekZstdSep.Core.Inspect
import SeekZstdSep.Core.OldCompress
import SeekZstdSep.Core.Retry

namespace SeekZstdSep

open Lib

/-- Whether the build checks for overflow. -/
def Arithmetic.checks : Arithmetic → Bool
  | .checked => true
  | .wrapping => false

namespace Exec

variable (mode : Arithmetic)

/-! ### The compressors -/

/-- Asks for the buffer of a compression. -/
def buffer (frameSize : Nat) (limitMultiplier : Option Nat) : Exec Unit := do
  let capacity ← mul mode 64 frameSize (limitMultiplier.getD limitSepBufMultiplier)
  if isizeMax < capacity then Program.fault .capacity else pure ()

section Convert

variable {R : Type} (find : RawFind) (isSame : Bool) (frameSize : Nat)

omit find in
/-- The frame that a record makes due which ends there. -/
def encodeDue {zeek : Zeekstd} (state : Compression zeek R) (ended : Nat) (stream : Stream R) :
    Except Error (FrameEncodeResult × Compression zeek R) :=
  let state : Compression zeek R :=
    { state with
      stream := stream
      frameEnd := ended
      cntOfSeparator := state.cntOfSeparator + if isSame then 1 else 0 }
  if isSame then state.encodeFrameOnSameSeparatorCnt frameSize
  else state.encodeFrameNotSameSeparatorCnt frameSize

def compressRound {zeek : Zeekstd} (state : Compression zeek R) :
    Exec (Round (Compression zeek R) (Compression zeek R)) :=
  match nextEnd find state.stream with
  | none => pure (.done state)
  | some (ended, stream) => do
      let due ← Program.ofExcept (encodeDue isSame frameSize state ended stream)
      pure (.again due.2)

/-- The records that end in the buffer, and the frames they make due. -/
def scan {zeek : Zeekstd} (state : Compression zeek R) : Exec (Compression zeek R) :=
  Program.loop (compressRound find isSame frameSize) state

omit find in
/-- The frame that a separator makes due behind which the buffer goes on there. -/
def oldEncodeDue {zeek : Zeekstd} (separator : Bytes) (state : OldCompression zeek R)
    (posAfter : Nat) : Except Error (FrameEncodeResult × OldCompression zeek R) :=
  let absolutePosAfter := state.searchStart + posAfter
  let state : OldCompression zeek R :=
    { state with
      cntOfSeparator := state.cntOfSeparator + if isSame then 1 else 0
      frameEnd := absolutePosAfter - separator.length
      searchStart := absolutePosAfter }
  if isSame then state.oldEncodeFrameOnSameSeparatorCnt frameSize separator
  else state.oldEncodeFrameNotSameSeparatorCnt frameSize separator

omit find in
def oldScanRound {zeek : Zeekstd} (separator : Bytes) (state : OldCompression zeek R) :
    Exec (Round (OldCompression zeek R) (OldCompression zeek R)) :=
  match bySeparator separator (state.buf.drop state.searchStart) with
  | none => pure (.done state)
  | some posAfter => do
      let due ← Program.ofExcept (oldEncodeDue isSame frameSize separator state posAfter)
      pure (.again due.2)

/-- The same loop of the old compressor. -/
def oldScan {zeek : Zeekstd} (separator : Bytes) (state : OldCompression zeek R) :
    Exec (OldCompression zeek R) :=
  Program.loop (oldScanRound isSame frameSize separator) state

variable [Read R] (limitMultiplier : Nat)

/-- Refuses a buffer that holds more than the limit behind its last record. -/
def checkLimit (maxOfSeparator : Int) (unscanned : Nat) : Exec Unit :=
  let limit := saturatingMul frameSize limitMultiplier
  if isSame ∧ limit < unscanned then Program.fail (.compressErrorData maxOfSeparator)
  else if limit < unscanned then
    Program.fail (.noSeparatorBeforeLimit unscanned limit limitMultiplier)
  else pure ()

def convertRound {zeek : Zeekstd} (state : Compression zeek R) :
    Exec (Round (Compression zeek R) (Compression zeek R)) := do
  let filled ← Program.ofExcept state.stream.fill
  match filled with
  | (false, stream) => pure (.done { state with stream := stream })
  | (true, stream) => do
      checkLimit isSame frameSize limitMultiplier state.maxOfSeparator stream.unscanned
      let scanned ← scan find isSame frameSize { state with stream := stream }
      pure (.again (scanned.dropProcessed isSame frameSize))

/-- The loop of a conversion. -/
def convertLoop {zeek : Zeekstd} (state : Compression zeek R) : Exec (Compression zeek R) :=
  Program.loop (convertRound find isSame frameSize limitMultiplier) state

def oldConvertRound {zeek : Zeekstd} (separator : Bytes) (state : OldCompression zeek R) :
    Exec (Round (OldCompression zeek R) (OldCompression zeek R)) := do
  let got ← Program.ofExcept (Read.read state.reader readBufSize)
  if got.1.length = 0 then pure (.done { state with reader := got.2 })
  else do
    let buf := state.buf ++ got.1
    checkLimit isSame frameSize limitMultiplier state.maxOfSeparator
      (buf.length - state.searchStart)
    let scanned ← oldScan isSame frameSize separator { state with reader := got.2, buf := buf }
    pure (.again (scanned.dropProcessed isSame frameSize))

/-- The loop of the old compressor. -/
def oldConvertLoop {zeek : Zeekstd} (separator : Bytes) (state : OldCompression zeek R) :
    Exec (OldCompression zeek R) :=
  Program.loop (oldConvertRound isSame frameSize limitMultiplier separator) state

end Convert

/-- What is left is compressed, and the frame and the file ended. -/
def finishWith {zeek : Zeekstd} (encoder : Encoder zeek) (writtenFrame : Nat) (rest : Bytes) :
    Exec Bytes := do
  let encoder ← Program.ofExcept
    (if rest.isEmpty then .ok encoder else encoder.compressNext writtenFrame rest)
  Program.ofExcept encoder.finish

variable (zeek : Zeekstd) {R : Type} [Read R]

/-- `convert_records_to_seekable_zst_reader_with_opts`. -/
def convertRecords (reader : R) (frameSize : Nat) (isSame : Bool) (find : RawFind)
    (limitMultiplier : Option Nat) (opts : Option CompressOptions) : Exec Bytes := do
  buffer mode frameSize limitMultiplier
  let options := opts.getD {}
  let start : Compression zeek R :=
    { encoder := { checksum := options.checksum, level := options.level }
      stream := { source := reader }
      maxOfSeparator := (options.maxOfSeparator.map asI64).getD (-1) }
  let state ← convertLoop find isSame frameSize (limitMultiplier.getD limitSepBufMultiplier) start
  finishWith state.encoder state.writtenFrame state.stream.buf

/-- `new_convert_to_seekable_zst_reader_with_opts`. -/
def newConvert (reader : R) (frameSize : Nat) (isSame : Bool) (separator : Bytes)
    (limitMultiplier : Option Nat) (opts : Option CompressOptions) : Exec Bytes :=
  if separator = [] then Program.fail .emptySeparator
  else convertRecords mode zeek reader frameSize isSame (bySeparator separator) limitMultiplier opts

/-- `old_convert_to_seekable_zst_reader_with_opts`, which asks for its buffer before it looks at
the separator. -/
def oldConvert (reader : R) (frameSize : Nat) (isSame : Bool) (separator : Bytes)
    (limitMultiplier : Option Nat) (opts : Option CompressOptions) : Exec Bytes := do
  buffer mode frameSize limitMultiplier
  if separator = [] then Program.fail .emptySeparator
  else do
    let options := opts.getD {}
    let start : OldCompression zeek R :=
      { encoder := { checksum := options.checksum, level := ({} : CompressOptions).level }
        reader := reader
        maxOfSeparator := (options.maxOfSeparator.map asI64).getD (-1) }
    let state ← oldConvertLoop isSame frameSize (limitMultiplier.getD limitSepBufMultiplier)
      separator start
    finishWith state.encoder state.writtenFrame state.buf

omit zeek

def retryRound (reader : RetryReader) (staging : Staging) (opts : Option CompressOptions)
    (convert : Input → Nat → Option CompressOptions → Exec Bytes) (state : Retry) :
    Exec (Round Retry Bytes) := do
  let converted ←
    (convert (reader.input state.attempt state.pos) state.frameSize state.opts).attempt
  match state.step mode.checks reader staging (fun _ _ _ => some converted) opts with
  | .returned (.ok bytes) => pure (.done bytes)
  | .returned (.error e) => Program.fail e
  | .panicked => Program.fault .overflow
  | .again state => pure (.again state)

/-- `compress_with_retry`. -/
def compressWithRetry (reader : RetryReader) (staging : Staging) (frameSize : Nat)
    (opts : Option CompressOptions)
    (convert : Input → Nat → Option CompressOptions → Exec Bytes) : Exec Bytes :=
  if ¬ staging.created then Program.fail (.external "failed to make the staging file")
  else
    Program.loop (retryRound mode reader staging opts convert)
      { pos := reader.pos, frameSize := frameSize, opts := opts }

/-! ### The reader and the inspection -/

variable (zeek : Zeekstd)

/-- What a decoder over a file is opened with, refused where the file has no seek table. -/
def openTable (opened : Except Error File) : Exec FrameReader := do
  let f ← Program.ofExcept opened
  let table ← Program.ofExcept (zeek.fromSeekable f.bytes)
  pure (.new zeek f table)

/-- `RecordReader::open`, up to the record count of frame 0, which it returns. -/
def openReader (opened : Except Error File) (label : String) (separator : Bytes) : Exec Nat := do
  let f ← Program.ofExcept opened
  if separator = [] then Program.fail .emptySeparator
  else do
    let reader ← openTable zeek (.ok f)
    if reader.table.length = 0 then Program.fail (.noFrames label)
    else do
      let counted ← frameRecords (bySeparator separator) reader 0
      if counted.1 = 0 then Program.fail (.noRecordEndsWith label separator)
      else pure counted.1

/-- Whether the records of frame `i` are counted. -/
def countsFrame (fastMode : Bool) (frameLen i : Nat) : Exec Bool :=
  if !fastMode || i == 0 then pure true
  else do
    let bound ← sub mode 64 frameLen 3
    pure (decide (bound < i))

/-- `cnt_of_sep` of a frame: its records are counted, or what was cached is taken for them. -/
def cntOfSep (find : RawFind) (counts : Bool) (cacheCntOfSep : Nat) (reader : FrameReader)
    (i : Nat) : Exec (Nat × FrameReader) :=
  if counts then frameRecords find reader i else pure (cacheCntOfSep, reader)

/-- `inspect_frames` over the frames left of `spans`, the first of which has number `i`, with the
count that was cached so far. -/
def inspectFramesFrom (find : RawFind) (opts : InspectOptions) (sep : Bytes) (frameLen : Nat) :
    Nat → Spans → Nat → FrameReader → Exec (List InspectResult)
  | _, [], _, _ => pure []
  | i, (start, _) :: spans, cacheCntOfSep, reader => do
      let counts ← countsFrame mode opts.fastMode frameLen i
      let counted ← cntOfSep find counts cacheCntOfSep reader i
      let cache := if opts.fastMode && i == 0 then counted.1 else cacheCntOfSep
      let results ← inspectFramesFrom find opts sep frameLen (i + 1) spans cache counted.2
      pure (inspectResult reader.table sep i start counted.1 :: results)

/-- `inspect_with_opts`. -/
def inspectWithOpts (opened : Except Error File) (label : String) (separator : Bytes)
    (opts : InspectOptions) : Exec (List InspectResult) := do
  let reader ← openTable zeek opened
  match seekTableDecompFrames reader.table with
  | none => Program.fail (.noFrames label)
  | some spans =>
      inspectFramesFrom mode (bySeparator separator) opts separator spans.length 0 spans 0 reader

end Exec

/-! ### The entry points -/

/-- What a call is not handed but meets: the build, the reads of a reader that is rewound, whether
it is, and the staging file. -/
structure Environment where
  mode : Arithmetic
  schedule : Nat → Nat → Option Nat
  rewinds : Nat → Bool
  staging : Staging

/-- A call of an entry point that takes a separator, but for the separator. -/
inductive EntryPoint where
  | compress (data : Bytes) (pos frameSize : Nat) (isSame : Bool) (limitMultiplier : Option Nat)
      (opts : Option CompressOptions)
  | convert (reader : Input) (frameSize : Nat) (isSame : Bool) (limitMultiplier : Option Nat)
      (opts : Option CompressOptions)
  | oldConvert (reader : Input) (frameSize : Nat) (isSame : Bool) (limitMultiplier : Option Nat)
      (opts : Option CompressOptions)
  | openReader (opened : Except Error File) (label : String)
  | truncate (f : File) (recordLen : Nat)
  | append (f : File) (data : Input) (onMissing : OnMissingSeparator) (level : Int)
      (records : Option Nat) (trust : Bool) (previous : Option AppendResult)
  | appendFrames (f input : File) (fromIdx : Nat) (cnt : Option Nat) (check : RangeCheck)
  | copyRange (input : File) (output : Sink) (fromIdx : Nat) (cnt : Option Nat)
      (align : Alignment) (check : SeparatorCheck)
  | countFrames (f : File) (table : SeekTable) (start stop : Nat)
  | inspect (opened : Except Error File) (label : String) (opts : InspectOptions)

namespace EntryPoint

/-- Runs an edit that a separator is checked for. -/
def edit {α : Type} (separator : Bytes) (operation : RawFind → Exec (Except Error α)) :
    Exec Unit :=
  if separator = [] then Program.fail .emptySeparator
  else do
    let result ← operation (bySeparator separator)
    let _ ← Program.ofExcept result
    pure ()

/-- Runs an entry point. What it returns is not looked at. -/
def run (zeek : Zeekstd) (env : Environment) (separator : Bytes) : EntryPoint → Exec Unit
  | .compress data pos frameSize isSame limitMultiplier opts => do
      let _ ← Exec.compressWithRetry env.mode
        { data := data, pos := pos, schedule := env.schedule, rewinds := env.rewinds }
        env.staging frameSize opts fun input frameSize opts =>
          Exec.newConvert env.mode zeek input frameSize isSame separator limitMultiplier opts
      pure ()
  | .convert reader frameSize isSame limitMultiplier opts => do
      let _ ← Exec.newConvert env.mode zeek reader frameSize isSame separator limitMultiplier opts
      pure ()
  | .oldConvert reader frameSize isSame limitMultiplier opts => do
      let _ ← Exec.oldConvert env.mode zeek reader frameSize isSame separator limitMultiplier opts
      pure ()
  | .openReader opened label => do
      let _ ← Exec.openReader zeek opened label separator
      pure ()
  | .truncate f recordLen =>
      edit separator fun find => do
        let done ← Exec.truncateRecords env.mode zeek f recordLen find
        pure done.1
  | .append f data onMissing level records trust previous =>
      edit separator fun find => do
        let done ← Exec.appendRecordsInner env.mode zeek f data find (some separator) onMissing
          level records trust previous
        pure done.1
  | .appendFrames f input fromIdx cnt check =>
      edit separator fun find => do
        let done ← Exec.appendFramesWith env.mode zeek f input fromIdx cnt find check
        pure done.1
  | .copyRange input output fromIdx cnt align check =>
      edit separator fun find => do
        let done ← Exec.copyRangeWith env.mode zeek input output fromIdx cnt find align check
        pure done.1
  | .countFrames f table start stop =>
      edit separator fun find => do
        let counts ← Exec.frameCounts find (.new zeek f table) (List.range' start (stop - start))
        pure (.ok counts.1)
  | .inspect opened label opts => do
      let _ ← Exec.inspectWithOpts env.mode zeek opened label separator opts
      pure ()

end EntryPoint

end SeekZstdSep
