/-
Module: SeekZstdSep.Core.Compress
Purpose: `seekzstdsep_lib.rs`: the compressor. Records are gathered until a frame is due, which
  is by their bytes, or by their number where every frame is to hold as many: as many as are asked
  for, or else as many as were due by their bytes first.
Trusted boundary: none
Main exports: CompressOptions, Compression, convertRecordsToSeekableZst
-/
import SeekZstdSep.Core.Stream
import SeekZstdSep.Core.Zeekstd

namespace SeekZstdSep

open Lib

/-- `LIMIT_SEP_BUF_MULTIPLIER`. -/
def limitSepBufMultiplier : Nat := 4

/-- What of the options of a compression the conversion goes by. -/
structure CompressOptions where
  maxOfSeparator : Option Nat := none
  checksum : Bool := true
  level : Int := 0

/-- `as i64`. -/
def asI64 (v : Nat) : Int := (BitVec.ofNat 64 v).toInt

/-- What the loop of a compression carries along. A count of records that are in memory is the
same as an `i64`. -/
structure Compression (zeek : Zeekstd) (R : Type) where
  encoder : Encoder zeek
  stream : Stream R
  frameEnd : Nat := 0
  maxOfSeparator : Int
  cntOfSeparator : Nat := 0
  writtenFrame : Nat := 0

inductive FrameEncodeResult where
  | skipped
  | encoded
deriving Repr, DecidableEq

/-- Ends the frame before and compresses into the next. The last frame is left to `finish`. -/
def Encoder.compressNext {zeek : Zeekstd} (encoder : Encoder zeek) (writtenFrame : Nat)
    (data : Bytes) : Except Error (Encoder zeek) :=
  if 0 < writtenFrame then
    match encoder.endFrame with
    | .error e => .error e
    | .ok encoder => .ok (encoder.write data)
  else .ok (encoder.write data)

namespace Compression

variable {zeek : Zeekstd} {R : Type}

def encodeFrameNotSameSeparatorCnt (frameSize : Nat) (state : Compression zeek R) :
    Except Error (FrameEncodeResult × Compression zeek R) :=
  if state.frameEnd < frameSize then .ok (.skipped, state)
  else
    let written : Except Error (Compression zeek R) :=
      if 0 < state.frameEnd then
        match state.encoder.compressNext state.writtenFrame
            (state.stream.buf.take state.frameEnd) with
        | .error e => .error e
        | .ok encoder =>
            .ok { state with encoder := encoder, writtenFrame := state.writtenFrame + 1 }
      else .ok state
    match written with
    | .error e => .error e
    | .ok state =>
        .ok (.encoded, { state with stream := state.stream.dropToLastEnd, frameEnd := 0 })

def encodeFrameOnSameSeparatorCnt (frameSize : Nat) (state : Compression zeek R) :
    Except Error (FrameEncodeResult × Compression zeek R) :=
  if state.maxOfSeparator = -1 then
    match state.encodeFrameNotSameSeparatorCnt frameSize with
    | .error e => .error e
    | .ok (.skipped, state) => .ok (.skipped, state)
    | .ok (.encoded, state) =>
        .ok (.encoded,
          { state with maxOfSeparator := state.cntOfSeparator, cntOfSeparator := 0 })
  else if state.cntOfSeparator < state.maxOfSeparator then .ok (.skipped, state)
  else
    match state.encoder.compressNext state.writtenFrame
        (state.stream.buf.take state.frameEnd) with
    | .error e => .error e
    | .ok encoder =>
        .ok (.encoded,
          { state with
            encoder := encoder
            writtenFrame := state.writtenFrame + 1
            cntOfSeparator := 0
            stream := state.stream.dropToLastEnd
            frameEnd := 0 })

/-- The records that end in the buffer, and the frames they make due. -/
def scanFuel (find : Finder UInt8) (isSame : Bool) (frameSize : Nat) :
    Nat → Compression zeek R → Except Error (Compression zeek R)
  | 0, state => .ok state
  | fuel + 1, state =>
      match state.stream.nextEnd find with
      | none => .ok state
      | some (ended, stream) =>
          let state : Compression zeek R :=
            { state with
              stream := stream
              frameEnd := ended
              cntOfSeparator := state.cntOfSeparator + if isSame then 1 else 0 }
          let result :=
            if isSame then state.encodeFrameOnSameSeparatorCnt frameSize
            else state.encodeFrameNotSameSeparatorCnt frameSize
          match result with
          | .error e => .error e
          | .ok (_, state) => scanFuel find isSame frameSize fuel state

/-- Drops from the buffer what the frame end is past. -/
def dropProcessed (isSame : Bool) (frameSize : Nat) (state : Compression zeek R) :
    Compression zeek R :=
  if isSame ∧ state.maxOfSeparator = -1 then state
  else if isSame ∧ (state.cntOfSeparator : Int) ≠ state.maxOfSeparator then state
  else if frameSize < state.frameEnd then
    { state with stream := state.stream.dropFront state.frameEnd, frameEnd := 0 }
  else state

variable [Read R]

def loopFuel (find : Finder UInt8) (isSame : Bool) (frameSize limitMultiplier : Nat) :
    Nat → Compression zeek R → Except Error (Compression zeek R)
  | 0, _ => .error .fuel
  | fuel + 1, state =>
      match state.stream.fill with
      | .error e => .error e
      | .ok (false, stream) => .ok { state with stream := stream }
      | .ok (true, stream) =>
          let limit := saturatingMul frameSize limitMultiplier
          if isSame ∧ limit < stream.unscanned then .error (.compressErrorData state.maxOfSeparator)
          else if limit < stream.unscanned then
            .error (.noSeparatorBeforeLimit stream.unscanned limit limitMultiplier)
          else
            match scanFuel find isSame frameSize stream.unscanned
                { state with stream := stream } with
            | .error e => .error e
            | .ok state =>
                loopFuel find isSame frameSize limitMultiplier fuel
                  (state.dropProcessed isSame frameSize)

end Compression

variable {R : Type} [Read R]

/-- `convert_records_to_seekable_zst_reader_with_opts`: what it has written once it returns. -/
def convertRecordsToSeekableZst (zeek : Zeekstd) (reader : R) (frameSize : Nat) (isSame : Bool)
    (find : Finder UInt8) (limitMultiplier : Option Nat) (opts : Option CompressOptions) :
    Except Error Bytes :=
  let options := opts.getD {}
  let start : Compression zeek R :=
    { encoder := { checksum := options.checksum, level := options.level }
      stream := { source := reader }
      maxOfSeparator := (options.maxOfSeparator.map asI64).getD (-1) }
  match start.loopFuel find isSame frameSize (limitMultiplier.getD limitSepBufMultiplier)
      (Read.budget reader + 1) with
  | .error e => .error e
  | .ok state =>
      let written : Except Error (Encoder zeek) :=
        if state.stream.buf.isEmpty then .ok state.encoder
        else state.encoder.compressNext state.writtenFrame state.stream.buf
      match written with
      | .error e => .error e
      | .ok encoder => encoder.finish

end SeekZstdSep
