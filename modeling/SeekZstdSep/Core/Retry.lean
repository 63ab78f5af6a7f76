/-
Module: SeekZstdSep.Core.Retry
Purpose: `compress_with_retry` of `seekzstdsep_lib.rs`: attempts at a compression into a staging
  file, with fewer records to a frame or with larger frames, until one does not pass its limit.
Trusted boundary: none
Main exports: RetryReader, Staging, Retry.step, Retry.runFuel, compressRecordsToSeekableZst,
  compressToSeekableZst
-/
import SeekZstdSep.Core.Compress

namespace SeekZstdSep

open Lib

/-- `isize::MAX`: no buffer of more bytes can be asked for. -/
def isizeMax : Nat := 2 ^ 63 - 1

/-- `as usize`. -/
def asUsize (v : Int) : Nat := (BitVec.ofInt 64 v).toNat

/-- A reader that seeks: its bytes, where it stands, how much each read of each attempt hands
out, or that it fails, and whether it can be rewound after an attempt. -/
structure RetryReader where
  data : Bytes
  pos : Nat := 0
  schedule : Nat → Nat → Option Nat
  rewinds : Nat → Bool

/-- What an attempt reads that starts at `pos`. -/
def RetryReader.input (reader : RetryReader) (attempt pos : Nat) : Input :=
  { data := reader.data.drop pos, schedule := reader.schedule attempt }

/-- What comes of the staging file: whether it is made, what an attempt that fails has written to
it, whether it can then be rewound and emptied, and whether it can be copied in the end. -/
structure Staging where
  created : Bool
  left : Nat → Bytes
  rewinds : Nat → Bool
  empties : Nat → Bool
  delivers : Bool

/-- A file that is written where its cursor is. -/
structure StagingFile where
  bytes : Bytes := []
  pos : Nat := 0

namespace StagingFile

def write (file : StagingFile) (data : Bytes) : StagingFile :=
  { bytes := file.bytes.take file.pos ++ List.replicate (file.pos - file.bytes.length) 0 ++
      data ++ file.bytes.drop (file.pos + data.length)
    pos := file.pos + data.length }

def rewind (file : StagingFile) : StagingFile := { file with pos := 0 }

/-- `set_len(0)`, which leaves the cursor where it is. -/
def empty (file : StagingFile) : StagingFile := { file with bytes := [] }

/-- What is read of the file to its end. -/
def ahead (file : StagingFile) : Bytes := file.bytes.drop file.pos

end StagingFile

/-- What the retry loop carries from one attempt to the next. -/
structure Retry where
  attempt : Nat := 0
  pos : Nat
  frameSize : Nat
  opts : Option CompressOptions
  file : StagingFile := {}

/-- What comes of one attempt. -/
inductive RetryStep where
  | returned (result : Except Error Bytes)
  | panicked
  | again (state : Retry)

/-- What comes of the loop. -/
inductive RetryOutcome where
  | returned (result : Except Error Bytes)
  | panicked
deriving DecidableEq

namespace Retry

section Loop

variable (overflowChecks : Bool) (reader : RetryReader) (staging : Staging)
  (convert : Input → Nat → Option CompressOptions → Option (Except Error Bytes))
  (pOpts : Option CompressOptions)

/-- One attempt, and what is set for the next. `none` of the conversion is a panic. -/
def step (state : Retry) : RetryStep :=
  match convert (reader.input state.attempt state.pos) state.frameSize state.opts with
  | none => .panicked
  | some (.ok bytes) =>
      -- by reflink or by copy, the staging file is what is delivered
      if staging.delivers then .returned (.ok (state.file.write bytes).rewind.ahead)
      else .returned (.error (.external "failed to write the output"))
  | some (.error (.compressErrorData perFrame)) =>
      let count := asUsize perFrame
      match if count < 2 then mulUsize overflowChecks state.frameSize 2
          else some state.frameSize with
      | none => .panicked
      | some frameSize =>
          let opts := { pOpts.getD {} with
            maxOfSeparator := some (if count < 2 then count else count / 2) }
          if ¬ reader.rewinds state.attempt then
            .returned (.error (.external "failed to rewind the input to compress it again"))
          else if ¬ staging.rewinds state.attempt then
            .returned (.error
              (.external "failed to rewind the staging file to compress again"))
          else if ¬ staging.empties state.attempt then
            .returned (.error (.external "failed to empty the staging file to compress again"))
          else
            .again {
              attempt := state.attempt + 1
              pos := 0
              frameSize := frameSize
              opts := some opts
              file := (state.file.write (staging.left state.attempt)).rewind.empty }
  | some (.error e) => .returned (.error e)

/-- The loop, for so many attempts. -/
def runFuel : Nat → Retry → Option RetryOutcome
  | 0, _ => none
  | fuel + 1, state =>
      match state.step overflowChecks reader staging convert pOpts with
      | .returned result => some (.returned result)
      | .panicked => some .panicked
      | .again state => runFuel fuel state

end Loop

end Retry

/-- `compress_with_retry`, given up after `fuel` attempts. -/
def compressWithRetry (overflowChecks : Bool) (reader : RetryReader) (staging : Staging)
    (frameSize : Nat) (opts : Option CompressOptions)
    (convert : Input → Nat → Option CompressOptions → Option (Except Error Bytes)) (fuel : Nat) :
    Option RetryOutcome :=
  if ¬ staging.created then some (.returned (.error (.external "failed to make the staging file")))
  else
    Retry.runFuel overflowChecks reader staging convert opts fuel
      { pos := reader.pos, frameSize := frameSize, opts := opts }

/-- `convert_records_to_seekable_zst_reader_with_opts`, from its buffer on: `none` where the
buffer cannot be asked for. -/
def convertBuffered (zeek : Zeekstd) (overflowChecks isSame : Bool) (find : Finder UInt8)
    (limitMultiplier : Option Nat) (input : Input) (frameSize : Nat)
    (opts : Option CompressOptions) : Option (Except Error Bytes) :=
  match mulUsize overflowChecks frameSize (limitMultiplier.getD limitSepBufMultiplier) with
  | none => none
  | some capacity =>
      if isizeMax < capacity then none
      else some
        (convertRecordsToSeekableZst zeek input frameSize isSame find limitMultiplier opts)

/-- `compress_records_to_seekable_zst_with_opts`. -/
def compressRecordsToSeekableZst (zeek : Zeekstd) (overflowChecks : Bool) (reader : RetryReader)
    (staging : Staging) (frameSize : Nat) (isSame : Bool) (find : Finder UInt8)
    (limitMultiplier : Option Nat) (opts : Option CompressOptions) (fuel : Nat) :
    Option RetryOutcome :=
  compressWithRetry overflowChecks reader staging frameSize opts
    (convertBuffered zeek overflowChecks isSame find limitMultiplier) fuel

/-- `compress_to_seekable_zst_with_opts`, over `new_convert_to_seekable_zst_reader_with_opts`. -/
def compressToSeekableZst (zeek : Zeekstd) (overflowChecks : Bool) (reader : RetryReader)
    (staging : Staging) (frameSize : Nat) (isSame : Bool) (separator : Bytes)
    (limitMultiplier : Option Nat) (opts : Option CompressOptions) (fuel : Nat) :
    Option RetryOutcome :=
  compressWithRetry overflowChecks reader staging frameSize opts
    (if h : separator = [] then fun _ _ _ => some (.error .emptySeparator)
      else convertBuffered zeek overflowChecks isSame (separatorFinder separator h)
        limitMultiplier) fuel

end SeekZstdSep
