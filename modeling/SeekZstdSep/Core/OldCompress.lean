/-
Module: SeekZstdSep.Core.OldCompress
Purpose: `seekzstdsep_lib.rs`: the compressor as it was before the buffered scan was taken out of
  it, which the one in use is measured against. It searches for the separator itself, and its
  frame end leaves the separator out.
Trusted boundary: the fields of `FrameSizePolicy`: an encoder under another policy differs from
  that in use in how much it puts into one frame.
Main exports: FrameSizePolicy, OldCompression, oldConvertToSeekableZst, newConvertToSeekableZst
-/
import SeekZstdSep.Core.Compress

namespace SeekZstdSep

open Lib

/-- A frame size policy of the library: what its encoder then makes of what it is given before it
is told to end the frame. -/
structure FrameSizePolicy (format : FrameFormat) where
  encode : Bool → Int → Bytes → Except Error (List (Stored format))
  encode_content : ∀ {checksum level data frames}, encode checksum level data = .ok frames →
    (frames.map Stored.content).flatten = data
  encode_ne_nil : ∀ {checksum level data frames}, encode checksum level data = .ok frames →
    frames ≠ []
  encode_checksum : ∀ {checksum level data frames}, encode checksum level data = .ok frames →
    ∀ frame ∈ frames, headerChecksum frame.bytes = checksum
  frameLimit : Nat
  encode_one : ∀ {checksum level data frames}, encode checksum level data = .ok frames →
    data.length ≤ frameLimit → frames.length = 1
  encode_split : ∀ {checksum level data frames}, encode checksum level data = .ok frames →
    frameLimit < data.length → 1 < frames.length

/-- The library with its encoders under another policy. -/
def Zeekstd.under (zeek : Zeekstd) (policy : FrameSizePolicy zeek.toFrameFormat) : Zeekstd :=
  { zeek with
    encode := policy.encode
    encode_content := policy.encode_content
    encode_ne_nil := policy.encode_ne_nil
    encode_checksum := policy.encode_checksum
    frameLimit := policy.frameLimit
    encode_one := policy.encode_one
    encode_split := policy.encode_split }

/-- What the loop of the old compressor carries along. -/
structure OldCompression (zeek : Zeekstd) (R : Type) where
  encoder : Encoder zeek
  reader : R
  buf : Bytes := []
  /-- Where the frame ends, the last separator left out. -/
  frameEnd : Nat := 0
  searchStart : Nat := 0
  maxOfSeparator : Int
  cntOfSeparator : Nat := 0
  writtenFrame : Nat := 0

namespace OldCompression

variable {zeek : Zeekstd} {R : Type}

def oldEncodeFrameNotSameSeparatorCnt (frameSize : Nat) (separator : Bytes)
    (state : OldCompression zeek R) : Except Error (FrameEncodeResult × OldCompression zeek R) :=
  if state.frameEnd < frameSize then .ok (.skipped, state)
  else
    let written : Except Error (OldCompression zeek R) :=
      if separator.length < state.frameEnd then
        match state.encoder.compressNext state.writtenFrame
            (state.buf.take (state.frameEnd + separator.length)) with
        | .error e => .error e
        | .ok encoder =>
            .ok { state with encoder := encoder, writtenFrame := state.writtenFrame + 1 }
      else .ok state
    match written with
    | .error e => .error e
    | .ok state =>
        .ok (.encoded,
          { state with
            buf := state.buf.drop state.searchStart
            searchStart := 0
            frameEnd := 0 })

def oldEncodeFrameOnSameSeparatorCnt (frameSize : Nat) (separator : Bytes)
    (state : OldCompression zeek R) : Except Error (FrameEncodeResult × OldCompression zeek R) :=
  if state.maxOfSeparator = -1 then
    match state.oldEncodeFrameNotSameSeparatorCnt frameSize separator with
    | .error e => .error e
    | .ok (.skipped, state) => .ok (.skipped, state)
    | .ok (.encoded, state) =>
        .ok (.encoded,
          { state with maxOfSeparator := state.cntOfSeparator, cntOfSeparator := 0 })
  else if state.cntOfSeparator < state.maxOfSeparator then .ok (.skipped, state)
  else
    match state.encoder.compressNext state.writtenFrame
        (state.buf.take (state.frameEnd + separator.length)) with
    | .error e => .error e
    | .ok encoder =>
        .ok (.encoded,
          { state with
            encoder := encoder
            writtenFrame := state.writtenFrame + 1
            cntOfSeparator := 0
            buf := state.buf.drop state.searchStart
            searchStart := 0
            frameEnd := 0 })

/-- The separators found in the buffer, and the frames they make due. -/
def scanFuel (separator : Bytes) (isSame : Bool) (frameSize : Nat) :
    Nat → OldCompression zeek R → Except Error (OldCompression zeek R)
  | 0, state => .ok state
  | fuel + 1, state =>
      match (memmem separator (state.buf.drop state.searchStart)).map (· + separator.length) with
      | none => .ok state
      | some posAfter =>
          let absolutePosAfter := state.searchStart + posAfter
          let chunkEnd := absolutePosAfter - separator.length
          let state : OldCompression zeek R :=
            { state with
              cntOfSeparator := state.cntOfSeparator + if isSame then 1 else 0
              frameEnd := chunkEnd
              searchStart := absolutePosAfter }
          let result :=
            if isSame then state.oldEncodeFrameOnSameSeparatorCnt frameSize separator
            else state.oldEncodeFrameNotSameSeparatorCnt frameSize separator
          match result with
          | .error e => .error e
          | .ok (_, state) => scanFuel separator isSame frameSize fuel state

/-- Drops from the buffer what the frame end is past. -/
def dropProcessed (isSame : Bool) (frameSize : Nat) (state : OldCompression zeek R) :
    OldCompression zeek R :=
  if isSame ∧ state.maxOfSeparator = -1 then state
  else if isSame ∧ (state.cntOfSeparator : Int) ≠ state.maxOfSeparator then state
  else if frameSize < state.frameEnd then
    { state with
      buf := state.buf.drop state.frameEnd
      searchStart := state.searchStart - state.frameEnd
      frameEnd := 0 }
  else state

variable [Read R]

def loopFuel (separator : Bytes) (isSame : Bool) (frameSize limitMultiplier : Nat) :
    Nat → OldCompression zeek R → Except Error (OldCompression zeek R)
  | 0, _ => .error .fuel
  | fuel + 1, state =>
      match Read.read state.reader readBufSize with
      | .error e => .error e
      | .ok (bytes, reader) =>
          if bytes.length = 0 then .ok { state with reader := reader }
          else
            let buf := state.buf ++ bytes
            let limit := saturatingMul frameSize limitMultiplier
            if isSame ∧ limit < buf.length - state.searchStart then
              .error (.compressErrorData state.maxOfSeparator)
            else if limit < buf.length - state.searchStart then
              .error (.noSeparatorBeforeLimit (buf.length - state.searchStart) limit
                limitMultiplier)
            else
              match scanFuel separator isSame frameSize (buf.length - state.searchStart)
                  { state with reader := reader, buf := buf } with
              | .error e => .error e
              | .ok state =>
                  loopFuel separator isSame frameSize limitMultiplier fuel
                    (state.dropProcessed isSame frameSize)

end OldCompression

variable {R : Type} [Read R]

/-- `old_convert_to_seekable_zst_reader_with_opts`: what it has written once it returns. It leaves
the level at its default. -/
def oldConvertToSeekableZst (zeek : Zeekstd) (reader : R) (frameSize : Nat) (isSame : Bool)
    (separator : Bytes) (limitMultiplier : Option Nat) (opts : Option CompressOptions) :
    Except Error Bytes :=
  let options := opts.getD {}
  if separator = [] then .error .emptySeparator
  else
    let start : OldCompression zeek R :=
      { encoder := { checksum := options.checksum, level := ({} : CompressOptions).level }
        reader := reader
        maxOfSeparator := (options.maxOfSeparator.map asI64).getD (-1) }
    match start.loopFuel separator isSame frameSize (limitMultiplier.getD limitSepBufMultiplier)
        (Read.budget reader + 1) with
    | .error e => .error e
    | .ok state =>
        let written : Except Error (Encoder zeek) :=
          if state.buf.isEmpty then .ok state.encoder
          else state.encoder.compressNext state.writtenFrame state.buf
        match written with
        | .error e => .error e
        | .ok encoder => encoder.finish

/-- `new_convert_to_seekable_zst_reader_with_opts`. -/
def newConvertToSeekableZst (zeek : Zeekstd) (reader : R) (frameSize : Nat) (isSame : Bool)
    (separator : Bytes) (limitMultiplier : Option Nat) (opts : Option CompressOptions) :
    Except Error Bytes :=
  if h : separator = [] then .error .emptySeparator
  else
    convertRecordsToSeekableZst zeek reader frameSize isSame (separatorFinder separator h)
      limitMultiplier opts

end SeekZstdSep
