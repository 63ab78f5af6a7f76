/-
Module: SeekZstdSep.Core.Inspect
Purpose: `inspect_with_opts` and `inspect_records_with_opts`: where each frame of a file lies and
  how many records it holds, counted frame by frame or, in the fast mode, in the first frame and
  the last two only.
Trusted boundary: none
Main exports: InspectResult, InspectOptions, inspectFrames, inspectWithOpts,
  inspectRecordsWithOpts
-/
import SeekZstdSep.Core.Edit

namespace SeekZstdSep

open Lib

/-- Layout of one frame. -/
structure InspectResult where
  compStart : Nat
  compEnd : Nat
  compSize : Nat
  decompStart : Nat
  decompEnd : Nat
  decompSize : Nat
  /-- The separator the count was measured with. -/
  sep : Bytes
  cntOfSep : Nat
deriving Repr, DecidableEq

structure InspectOptions where
  /-- Measure separators only in frame 0 and the last two frames, assuming that count for the
  rest. -/
  fastMode : Bool

/-- Whether the records of frame `i` are counted: `!fast_mode || i == 0 || i > frame_len - 3`. -/
def countsFrame (overflowChecks fastMode : Bool) (frameLen i : Nat) : Option Bool :=
  if !fastMode || i == 0 then some true
  else (subUsize overflowChecks frameLen 3).map fun bound => decide (bound < i)

/-- What is reported of frame `i`, which starts at `start` in the decompressed stream. -/
def inspectResult (table : SeekTable) (sep : Bytes) (i start cntOfSep : Nat) : InspectResult where
  compStart := table.frameStartComp i
  compEnd := table.frameEndComp i
  compSize := table.frameSizeComp i
  decompStart := start
  decompEnd := table.frameEndDecomp i
  decompSize := table.frameSizeDecomp i
  sep := sep
  cntOfSep := cntOfSep

/-- The frames from number `i` on, with the count that was cached so far. `none` is a panic. -/
def inspectFramesFrom (overflowChecks : Bool) (find : Finder UInt8) (opts : InspectOptions)
    (sep : Bytes) (table : SeekTable) (frameLen : Nat) :
    Nat → Spans → Nat → Decoder → Option (Except Error (List InspectResult))
  | _, [], _, _ => some (.ok [])
  | i, (start, len) :: frames, cacheCntOfSep, decoder =>
      match countsFrame overflowChecks opts.fastMode frameLen i with
      | none => none
      | some counts =>
          let counted :=
            if counts then countRecordsInFrame find decoder start len
            else (.ok cacheCntOfSep, decoder)
          match counted.1 with
          | .error e => some (.error e)
          | .ok cntOfSep =>
              let cache := if opts.fastMode && i == 0 then cntOfSep else cacheCntOfSep
              (inspectFramesFrom overflowChecks find opts sep table frameLen (i + 1) frames cache
                counted.2).map (Except.map (inspectResult table sep i start cntOfSep :: ·))

/-- The frame walk both entry points make, `sep` being what they report having measured with. -/
def inspectFrames (overflowChecks : Bool) (file : SeekableFile) (label : String)
    (find : Finder UInt8) (opts : InspectOptions) (sep : Bytes) :
    Option (Except Error (List InspectResult)) :=
  let table := file.decoder.seekTable
  match seekTableDecompFrames table with
  | none => some (.error (.noFrames label))
  | some frames =>
      inspectFramesFrom overflowChecks find opts sep table frames.length 0 frames 0 file.decoder

def inspectWithOpts (overflowChecks : Bool) (file : SeekableFile) (label : String)
    (separator : Bytes) (ne : separator ≠ []) (opts : InspectOptions) :
    Option (Except Error (List InspectResult)) :=
  inspectFrames overflowChecks file label (separatorFinder separator ne) opts separator

/-- A finder is not a separator, and none is reported. -/
def inspectRecordsWithOpts (overflowChecks : Bool) (file : SeekableFile) (label : String)
    (find : Finder UInt8) (opts : InspectOptions) : Option (Except Error (List InspectResult)) :=
  inspectFrames overflowChecks file label find opts []

end SeekZstdSep
