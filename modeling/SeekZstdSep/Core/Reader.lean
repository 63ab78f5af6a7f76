/-
Module: SeekZstdSep.Core.Reader
Purpose: `reader.rs`: the record reader with every read it offers, the iterators it hands out,
  and the readers opened from a frame on. A verifying reader is one that holds a judge.
Trusted boundary: none
Main exports: RecordReader, RecordReader.fromReader, RecordReader.openWithOpts,
  RecordReader.record, RecordReader.recordsTo, RecordReader.foldRecords,
  RecordReader.totalRecords, BorrowedRecordIter, RecordIter
-/
import SeekZstdSep.Core.Record

namespace SeekZstdSep

open Lib

/-- Where each frame starts in the decompressed stream and how long it is there. -/
abbrev Spans := List (Nat × Nat)

/-- The span at an index that is in range. -/
def Spans.at (frames : Spans) (i : Nat) : Nat × Nat := frames.getD i (0, 0)

/-- The last span. -/
def Spans.last (frames : Spans) : Nat × Nat := frames.at (frames.length - 1)

namespace Window

def withFrameEnds (w : Window) (frames : Spans) : Window :=
  { w with frameEnds := (frames.take (frames.length - 1)).map fun span => span.1 + span.2 }

def useFrameEnds (w : Window) (ends : List Nat) (base first : Nat) : Window :=
  { w with frameEnds := ends, frameEndBase := base, nextFrameEnd := first }

def withoutFrameEnds (w : Window) : Window := w.useFrameEnds [] 0 0

end Window

/-! ### Frames and counts -/

/-- How many records the region `[start, start + len)` of a decoder holds, and the decoder, which
the count leaves elsewhere. -/
def countRecordsInFrame (find : Finder UInt8) (decoder : Decoder) (start len : Nat) :
    Except Error Nat × Decoder :=
  if len = 0 then (.ok 0, decoder)
  else
    let w : Window := { source := { inner := decoder.seek start, limit := len } }
    let counted := Records.countRecords find {} w
    (counted.1, counted.2.source.inner)

def spansFrom : Nat → SeekTable → Spans
  | _, [] => []
  | start, (_, len) :: table => (start, len) :: spansFrom (start + len) table

/-- Each frame's start and length in the decompressed stream, or `none` if there are none. -/
def seekTableDecompFrames (table : SeekTable) : Option Spans :=
  if table.isEmpty then none else some (spansFrom 0 table)

namespace SeekTable

def frameStartComp (table : SeekTable) (frame : Nat) : Nat :=
  ((table.take frame).map Prod.fst).sum

def frameSizeComp (table : SeekTable) (frame : Nat) : Nat := (table.getD frame (0, 0)).1

def frameEndComp (table : SeekTable) (frame : Nat) : Nat := table.frameStartComp (frame + 1)

def frameEndDecomp (table : SeekTable) (frame : Nat) : Nat :=
  ((table.take (frame + 1)).map Prod.snd).sum

end SeekTable

/-! ### Placing a read -/

/-- The decoder's window, and the frame it is pointed at, `none` once the decoder has moved
since. -/
structure Lookup where
  window : Window
  frame : Option Nat := none

namespace Lookup

/-- The decoder, for a caller that seeks it itself. -/
def loadDecoder (lookup : Lookup) : Decoder × Lookup :=
  (lookup.window.source.inner, { lookup with frame := none })

/-- The caller is done with the decoder. -/
def putDecoder (lookup : Lookup) (decoder : Decoder) : Lookup :=
  { lookup with
    window := { lookup.window with source := { lookup.window.source with inner := decoder } } }

/-- How many records the window has to walk past to reach record `inFrame` of the frame covering
`region`. The window is pointed at that frame first unless the walk can go on from where the
last lookup left it. -/
def walkTo (lookup : Lookup) (frame : Nat) (region : Nat × Nat) (inFrame : Nat) : Nat × Lookup :=
  let walked :=
    if lookup.frame = some frame then lookup.window.walkFrom inFrame else (none, lookup.window)
  match walked with
  | (some skip, window) => (skip, { lookup with window := window })
  | (none, window) =>
      (inFrame, { window := window.seekTo region.1 region.2, frame := some frame })

end Lookup

/-- The bytes a read of records has to decode, and the records to skip in them. -/
structure RecordsRequest where
  start : Nat
  len : Nat
  skip : Nat
deriving Repr, DecidableEq

/-- What a read of `cnt` records from `fromIdx` has to ask for. -/
def recordsRequest (frames : Spans) (perFrame : Nat) (label : String) (fromIdx cnt : Nat) :
    Except Error RecordsRequest :=
  let totalSepCnt := perFrame * frames.length
  let frameIdx := saturatingMul frames.length fromIdx / totalSepCnt
  -- The final frame may contain one unterminated record after all its separators.
  let frameIdx :=
    if frameIdx = frames.length ∧ fromIdx = totalSepCnt then frameIdx - 1 else frameIdx
  if frameIdx ≥ frames.length then .error (.pastTheEnd fromIdx label)
  else
    let idxInFrame := fromIdx - frameIdx * perFrame
    let start := (frames.at frameIdx).1
    let stop := saturatingAdd (saturatingAdd fromIdx cnt) 1
    let endFrameIdx := min (saturatingMul frames.length stop / totalSepCnt) (frames.length - 1)
    let len := (frames.at endFrameIdx).1 + (frames.at endFrameIdx).2 - start
    .ok { start := start, len := len, skip := idxInFrame }

/-- Where the frames covering `[start, start + len)` end, as offsets from `start`. The ends are
those of `first` and the frames after it, up to the first one that does not lie in the region.
Starts and lengths are sums of `u32`s, so adding them does not overflow. -/
def frameEndsFrom (frames : Spans) (first start len : Nat) : List Nat :=
  (((frames.drop first).map fun span =>
      if start ≤ span.1 + span.2 then some (span.1 + span.2 - start) else none).takeWhile
    fun frameEnd => frameEnd.any fun frameEnd => decide (frameEnd ≤ len)).filterMap id

/-- What judges the frames a read walks past, `first` being the one the walk starts in. -/
def watchFrames (judge : FrameJudge) (first : Nat) (ends : List Nat) : Watch :=
  { offsets := ends, passed := some { judge := judge, first := first } }

def watchSpan (judge : FrameJudge) (frames : Spans) (perFrame fromIdx start len : Nat) : Watch :=
  if perFrame = 0 then {}
  else
    let first := fromIdx / perFrame
    if first ≥ frames.length then {}
    else watchFrames judge first (frameEndsFrom frames first start len)

def watchVerifiedSpan (judge : FrameJudge) (frames : Spans) (perFrame fromIdx start len : Nat) :
    Watch :=
  match judge.physical with
  | none => watchSpan judge frames perFrame fromIdx start len
  | some physical =>
      let absoluteStart := physical.base + start
      let absoluteEnd := saturatingAdd absoluteStart len
      let first := (physical.ends.takeWhile fun e => decide (e ≤ absoluteStart)).length
      let ends :=
        ((physical.ends.drop first ++ [physical.finalEnd]).takeWhile
          fun e => decide (e ≤ absoluteEnd)).map (· - absoluteStart)
      watchFrames judge (first - physical.first) ends

/-- `Verifier::watch`: a reader without a judge watches nothing. -/
def watchOf (judge : Option FrameJudge) (frames : Spans) (perFrame fromIdx start len : Nat) :
    Watcher :=
  match judge with
  | none => .unwatched
  | some judge => .watched (watchVerifiedSpan judge frames perFrame fromIdx start len)

/-- `Verifier::watch_nothing`. -/
def watchNothing (judge : Option FrameJudge) : Watcher :=
  match judge with
  | none => .unwatched
  | some _ => .watched {}

def pointWindow (lookup : Lookup) (req : RecordsRequest) : Lookup :=
  { window := lookup.window.seekTo req.start req.len, frame := none }

def placeSpan (lookup : Lookup) (judge : Option FrameJudge) (frames : Spans)
    (perFrame fromIdx : Nat) (req : RecordsRequest) : Watcher × Lookup :=
  (watchOf judge frames perFrame fromIdx req.start req.len, pointWindow lookup req)

/-- Whether the first index beyond all full frames names a real final record. -/
def finalSlotIsTail (w : Window) (frames : Spans) (boundary : Boundary) (perFrame : Nat) :
    Except Error Bool × Window :=
  if !boundary.tailIsRecord then (.ok false, w)
  else
    match Records.countRecords boundary.find {} (w.seekTo frames.last.1 frames.last.2) with
    | (.error e, w) => (.error e, w)
    | (.ok whole, w) => (.ok (whole == perFrame && !w.remainder.isEmpty), w)

/-- Resolves and positions a record iterator's forward span. -/
def positionIterSpan (lookup : Lookup) (frames : Spans) (boundary : Boundary) (perFrame : Nat)
    (label : String) (fromIdx : Nat) : Except Error RecordsRequest × Lookup :=
  let tail :=
    if fromIdx = perFrame * frames.length then
      finalSlotIsTail lookup.window frames boundary perFrame
    else (.ok true, lookup.window)
  let lookup := { lookup with window := tail.2 }
  match tail.1 with
  | .error e => (.error e, lookup)
  | .ok false => (.error (.pastTheEnd fromIdx label), lookup)
  | .ok true =>
      match recordsRequest frames perFrame label fromIdx usizeMax with
      | .error e => (.error e, lookup)
      | .ok req => (.ok req, pointWindow lookup req)

/-- How the walk of a span treats what is left at the end of the file. -/
def RecordUnitCursor.atFileEnd (boundary : Boundary) (cursor : RecordUnitCursor) :
    RecordUnitCursor :=
  if boundary.tailIsRecord then cursor.includingFinalRecord else cursor.rejectingFinalFragment

/-! ### The reader -/

/-- A compressed file held open for reading records by index. `judge` is that of a verifying
reader. -/
structure RecordReader where
  label : String
  lookup : Lookup
  frames : Spans
  boundary : Boundary
  /-- Records in frame 0, taken as the record count of every frame. -/
  sepCnt : Nat
  originalFrameCount : Option Nat := none
  originalRecordsPerFrame : Option Nat := none
  judge : Option FrameJudge := none
  shared : Option SeekableFile := none
  maxFrameComp : Nat := 0
  maxFrameDecomp : Nat := 0

namespace RecordReader

/-- Opens a file: its frames, and frame 0's record count. -/
def fromReader (file : SeekableFile) (label : String) (boundary : Boundary) :
    Except Error RecordReader :=
  let decoder := file.decoder
  let table := decoder.seekTable
  match seekTableDecompFrames table with
  | none => .error (.noFrames label)
  | some frames =>
      let last := table.length - 1
      let huge := table.frameEndComp last > u32Max ∨ table.frameEndDecomp last > u32Max
      let lookup : Lookup :=
        { window := Window.withFrameEnds { source := { inner := decoder, limit := 0 } } frames }
      let loaded := lookup.loadDecoder
      match countRecordsInFrame boundary.find loaded.1 (frames.at 0).1 (frames.at 0).2 with
      | (.error e, _) => .error e
      | (.ok sepCnt, decoder) =>
          if sepCnt = 0 then
            if boundary.bytes.isEmpty then .error (.noRecordEnds label)
            else .error (.noRecordEndsWith label boundary.bytes)
          else
            .ok
              { label := label
                lookup := loaded.2.putDecoder decoder
                frames := frames
                boundary := boundary
                sepCnt := sepCnt
                maxFrameComp := if huge then (table.map Prod.fst).foldl max 0 else 0
                maxFrameDecomp := if huge then (frames.map Prod.snd).foldl max 0 else 0 }

/-- Records in frame 0 of the file. -/
def recordsPerFrame (r : RecordReader) : Nat := r.originalRecordsPerFrame.getD r.sepCnt

/-- The seek table entry and the span of one logical frame: the frames from `start` up to `stop`
of the opened reader. -/
def logicalFrame (opened : RecordReader) (startFrame start stop : Nat) :
    (Nat × Nat) × (Nat × Nat) :=
  let table := opened.lookup.window.source.inner.seekTable
  let base := (opened.frames.at startFrame).1
  let compStart := table.frameStartComp start
  let compEnd := table.frameStartComp stop
  let decompStart := (opened.frames.at start).1
  let decompEnd :=
    if stop = opened.frames.length then opened.frames.last.1 + opened.frames.last.2
    else (opened.frames.at stop).1
  ((compEnd - compStart, decompEnd - decompStart), (decompStart - base, decompEnd - decompStart))

/-- The logical frames of `groupSize` frames each, the last one excepted. The fuel is the number
of frames. -/
def logicalFrames (opened : RecordReader) (startFrame groupSize : Nat) :
    Nat → Nat → List ((Nat × Nat) × (Nat × Nat))
  | 0, _ => []
  | fuel + 1, start =>
      if start < opened.frames.length then
        let stop := min (start + groupSize) opened.frames.length
        opened.logicalFrame startFrame start stop ::
          logicalFrames opened startFrame groupSize fuel stop
      else []

/-- How many frames of the file a logical frame covers: all that are left where their lengths
fit, else as many as always do. -/
def groupSize (opened : RecordReader) (startFrame : Nat) : Nat :=
  let table := opened.lookup.window.source.inner.seekTable
  let compressedLen :=
    table.frameEndComp (opened.frames.length - 1) - table.frameStartComp startFrame
  let decompressedLen :=
    opened.frames.last.1 + opened.frames.last.2 - (opened.frames.at startFrame).1
  if compressedLen ≤ u32Max ∧ decompressedLen ≤ u32Max then opened.frames.length - startFrame
  else max (min (u32Max / opened.maxFrameComp) (u32Max / opened.maxFrameDecomp)) 1

/-- A reader of the frames from `startFrame` on of the file `opened` reads. -/
def openFromFrame (opened : RecordReader) (startFrame : Nat) : Except Error RecordReader :=
  if startFrame ≥ opened.frames.length then .error (.frameOutOfRange startFrame)
  else
    match opened.shared with
    | none => .error .notOpenedFromFile
    | some file =>
        let remaining := opened.frames.length - startFrame
        let groupSize := opened.groupSize startFrame
        let logical := opened.logicalFrames startFrame groupSize remaining startFrame
        if startFrame > u32Max ∨
            (logical.any fun l => decide (l.1.1 > u32Max ∨ l.1.2 > u32Max)) then
          .error .intConversion
        else if opened.sepCnt * groupSize > usizeMax then .error .recordCountOverflow
        else
          let decoder := file.decoderFrom startFrame (logical.map Prod.fst)
          let w : Window := { source := { inner := decoder, limit := 0 } }
          .ok
            { label := opened.label
              lookup :=
                { window :=
                    w.useFrameEnds opened.lookup.window.frameEnds (opened.frames.at startFrame).1
                      startFrame }
              frames := logical.map Prod.snd
              boundary := opened.boundary
              sepCnt := opened.sepCnt * groupSize
              originalFrameCount := some remaining
              originalRecordsPerFrame := some opened.recordsPerFrame }

end RecordReader

/-- Options for opening a file or reusing a reader from a frame on. A path stands for the file it
opens. -/
structure RecordReaderOpenOptions where
  path : Option (String × SeekableFile) := none
  boundary : Option Boundary := none
  reuse : Option RecordReader := none
  startFrame : Nat := 0

namespace RecordReader

def openWithOpts (opts : RecordReaderOpenOptions) : Except Error RecordReader :=
  match opts.reuse with
  | some opened =>
      if opts.path.isSome ∨ opts.boundary.isSome then .error .reusedWithPathOrBoundary
      else opened.openFromFrame opts.startFrame
  | none =>
      match opts.path, opts.boundary with
      | none, _ => .error .pathRequired
      | some _, none => .error .boundaryRequired
      | some (label, file), some boundary =>
          match fromReader file label boundary with
          | .error e => .error e
          | .ok r =>
              let r := { r with shared := some file }
              if opts.startFrame = 0 then .ok r else r.openFromFrame opts.startFrame

/-- The same reader, judging the frames it walks from here on. -/
def verifying (r : RecordReader) : RecordReader :=
  let ends := r.lookup.window.frameEnds
  let physical := r.originalFrameCount.map fun remaining =>
    let first := ends.length + 1 - remaining
    let base := if first = 0 then 0 else ends.getD (first - 1) 0
    { ends := ends
      first := first
      base := base
      finalEnd := base + r.frames.last.1 + r.frames.last.2 : PhysicalFrameEnds }
  let judge : FrameJudge :=
    { label := r.label
      last := r.originalFrameCount.getD r.frames.length - 1
      perFrame := r.recordsPerFrame
      physical := physical }
  -- Readers from a frame on retain the guard against reading into the next frame.
  let window :=
    if r.originalFrameCount.isNone then r.lookup.window.withoutFrameEnds else r.lookup.window
  { r with judge := some judge, lookup := { r.lookup with window := window } }

/-- Frames of the file, whichever one the reader starts at. -/
def frameCount (r : RecordReader) : Nat :=
  if r.originalFrameCount.isSome then r.lookup.window.frameEnds.length + 1 else r.frames.length

/-- Decompressed length of a frame of the file. -/
def frameDecompressedSize (r : RecordReader) (frame : Nat) : Option Nat :=
  match r.originalFrameCount with
  | some remaining =>
      let ends := r.lookup.window.frameEnds
      if frame > ends.length then none
      else
        let first := ends.length + 1 - remaining
        let start := if frame = 0 then 0 else ends.getD (frame - 1) 0
        let stop :=
          ends[frame]?.getD
            ((if first = 0 then 0 else ends.getD (first - 1) 0) +
              r.frames.last.1 + r.frames.last.2)
        some (stop - start)
  | none => r.frames[frame]?.map Prod.snd

/-- How many records the reader holds, a nonempty unterminated final record among them. -/
def totalRecords (r : RecordReader) : Except Error Nat × RecordReader :=
  let last := r.frames.length - 1
  let w := r.lookup.window.seekTo r.frames.last.1 r.frames.last.2
  let cursor := RecordUnitCursor.atFileEnd r.boundary (.ofRecords {})
  let folded :=
    cursor.tryFold r.boundary.find (fun count _ => .ok (count + 1)) (w.ahead + 1) none 0 w
  let r := { r with lookup := { window := folded.2.2, frame := none } }
  match folded.1 with
  | .error e => (.error e, r)
  | .ok inLast => (.ok (r.sepCnt * last + inLast), r)

/-- What a read of a record range walks: its cursor, after the records it skips. -/
def withUnits (r : RecordReader) (fromIdx cnt : Nat) :
    Except Error RecordUnitCursor × RecordReader :=
  match recordsRequest r.frames r.sepCnt r.label fromIdx cnt with
  | .error e => (.error e, r)
  | .ok req =>
      let (watch, lookup) := placeSpan r.lookup r.judge r.frames r.sepCnt fromIdx req
      let cursor : RecordUnitCursor :=
        .ofRecords { watch := watch, skip := req.skip, skipWhole := true }
      let cursor :=
        if req.start + req.len = r.frames.last.1 + r.frames.last.2 then
          cursor.atFileEnd r.boundary
        else cursor
      match cursor.prepare r.boundary.find lookup.window with
      | (.error e, _, w) => (.error e, { r with lookup := { lookup with window := w } })
      | (.ok (), cursor, w) => (.ok cursor, { r with lookup := { lookup with window := w } })

/-- Writes `cnt` records from `fromIdx`, or fewer when the file holds fewer. -/
def recordsTo (r : RecordReader) (fromIdx cnt : Nat) (dst : Sink) :
    Except Error Unit × RecordReader × Sink :=
  let tail :=
    if fromIdx = r.sepCnt * r.frames.length then
      let tail := finalSlotIsTail r.lookup.window r.frames r.boundary r.sepCnt
      (tail.1, { r with lookup := { window := tail.2, frame := none } })
    else (.ok true, r)
  match tail.1 with
  | .error e => (.error e, tail.2, dst)
  | .ok false => (.error (.pastTheEnd fromIdx r.label), tail.2, dst)
  | .ok true =>
      match tail.2.withUnits fromIdx cnt with
      | (.error e, r) => (.error e, r, dst)
      | (.ok cursor, r) =>
          let w := r.lookup.window
          match cursor.writeTo r.boundary.find cnt (w.ahead + 1) w dst with
          | (.error e, _, w, dst) =>
              (.error e, { r with lookup := { r.lookup with window := w } }, dst)
          | (.ok (), cursor, w, dst) =>
              ((cursor.finish w cnt).1, { r with lookup := { r.lookup with window := w } }, dst)

/-- `cnt` records from `fromIdx`, gathered. -/
def records (r : RecordReader) (fromIdx cnt : Nat) : Except Error Bytes × RecordReader :=
  match r.recordsTo fromIdx cnt {} with
  | (.error e, r, _) => (.error e, r)
  | (.ok (), r, out) => (.ok out.written, r)

/-- Folds records borrowed from the read window. -/
def foldRecords {β : Type} (r : RecordReader) (fromIdx cnt : Nat) (init : β)
    (f : β → Bytes → Except Error β) : Except Error β × RecordReader :=
  match r.withUnits fromIdx cnt with
  | (.error e, r) => (.error e, r)
  | (.ok cursor, r) =>
      let w := r.lookup.window
      match cursor.tryFold r.boundary.find f (w.ahead + 1) (some cnt) init w with
      | (.error e, _, w) => (.error e, { r with lookup := { r.lookup with window := w } })
      | (.ok value, cursor, w) =>
          let r := { r with lookup := { r.lookup with window := w } }
          match (cursor.finish w cnt).1 with
          | .error e => (.error e, r)
          | .ok () => (.ok value, r)

/-- The units of one record of frame `frame`, `skip` records behind where the window stands. -/
def recordCursor (r : RecordReader) (frame skip : Nat) (watch : Watcher) : RecordUnitCursor :=
  let cursor : RecordUnitCursor := .ofRecords { watch := watch, skip := skip, skipWhole := false }
  if frame = r.frames.length - 1 then cursor.atFileEnd r.boundary else cursor

/-- The frame a lookup of record `index` goes to: `none` where the file holds no such record. -/
def recordFrame (r : RecordReader) (index : Nat) : Except Error (Option Nat) × RecordReader :=
  let frame := index / r.sepCnt
  let tail : Except Error (Option Nat) × RecordReader :=
    if frame = r.frames.length ∧ index = r.sepCnt * r.frames.length then
      let tail := finalSlotIsTail r.lookup.window r.frames r.boundary r.sepCnt
      let r := { r with lookup := { window := tail.2, frame := none } }
      match tail.1 with
      | .error e => (.error e, r)
      | .ok false => (.ok none, r)
      | .ok true => (.ok (some (frame - 1)), r)
    else (.ok (some frame), r)
  match tail with
  | (.ok (some frame), r) =>
      if frame ≥ r.frames.length then (.ok none, r) else (.ok (some frame), r)
  | tail => tail

/-- Record `index`, or `none` when the file holds no such record. -/
def record (r : RecordReader) (index : Nat) : Except Error (Option Bytes) × RecordReader :=
  match r.recordFrame index with
  | (.error e, r) => (.error e, r)
  | (.ok none, r) => (.ok none, r)
  | (.ok (some frame), r) =>
      let inFrame := index - frame * r.sepCnt
      let (skip, lookup) := r.lookup.walkTo frame (r.frames.at frame) inFrame
      let cursor := r.recordCursor frame skip .unwatched
      let (answer, _, w) := cursor.nextOwned r.boundary.find lookup.window
      (answer, { r with lookup := { lookup with window := w } })

/-- Refuses the frame the walk stopped in for the records it turned out to hold. -/
def verifyWalkedFrame (r : RecordReader) (frame : Nat) : Except Error Unit :=
  match r.judge with
  | none => .ok ()
  | some judge => judge.count frame r.lookup.window.walked

/-- `record` of a verifying reader, which refuses the frame the walk ran out in for a count of its
own. -/
def recordAsRead (r : RecordReader) (index : Nat) : Except Error (Option Bytes) × RecordReader :=
  match r.recordFrame index with
  | (.error e, r) => (.error e, r)
  | (.ok none, r) => (.ok none, r)
  | (.ok (some frame), r) =>
      let inFrame := index - frame * r.sepCnt
      let (skip, lookup) := r.lookup.walkTo frame (r.frames.at frame) inFrame
      let cursor := r.recordCursor frame skip (.watched {})
      let (answer, _, w) := cursor.nextOwned r.boundary.find lookup.window
      let r := { r with lookup := { lookup with window := w } }
      match answer with
      | .ok none =>
          match r.verifyWalkedFrame frame with
          | .error e => (.error e, r)
          | .ok () => (.ok none, r)
      | answer => (answer, r)

end RecordReader

/-! ### The borrowing iterator -/

/-- Records borrowed from a reader's window, in order from `fromIdx` on. -/
structure BorrowedRecordIter where
  reader : RecordReader
  fromIdx : Nat
  units : Option RecordUnitCursor := none
  spent : Bool := false

def RecordReader.recordsFrom (r : RecordReader) (fromIdx : Nat) : BorrowedRecordIter :=
  { reader := r, fromIdx := fromIdx }

namespace BorrowedRecordIter

def withLookup (it : BorrowedRecordIter) (lookup : Lookup) : BorrowedRecordIter :=
  { it with reader := { it.reader with lookup := lookup } }

def withWindow (it : BorrowedRecordIter) (w : Window) : BorrowedRecordIter :=
  it.withLookup { it.reader.lookup with window := w }

def arm (it : BorrowedRecordIter) : Except Error Unit × BorrowedRecordIter :=
  let r := it.reader
  match positionIterSpan r.lookup r.frames r.boundary r.sepCnt r.label it.fromIdx with
  | (.error e, lookup) => (.error e, it.withLookup lookup)
  | (.ok req, lookup) =>
      let watch := watchOf r.judge r.frames r.sepCnt it.fromIdx req.start req.len
      let cursor : RecordUnitCursor :=
        .ofRecords { watch := watch, skip := req.skip, skipWhole := true }
      match (cursor.atFileEnd r.boundary).prepare r.boundary.find lookup.window with
      | (.error e, _, w) => (.error e, it.withLookup { lookup with window := w })
      | (.ok (), cursor, w) =>
          (.ok (), { it.withLookup { lookup with window := w } with units := some cursor })

/-- What an iterator with units does next. -/
def step (it : BorrowedRecordIter) (units : RecordUnitCursor) :
    Option (Except Error Bytes) × BorrowedRecordIter :=
  match units.nextOwned it.reader.boundary.find it.reader.lookup.window with
  | (.ok (some record), units, w) =>
      (some (.ok record), { it.withWindow w with units := some units })
  | (.error e, units, w) =>
      (some (.error e), { it.withWindow w with units := some units, spent := true })
  | (.ok none, units, w) =>
      let finished := units.finish w usizeMax
      let it := { it.withWindow w with units := some finished.2, spent := true }
      match finished.1 with
      | .ok () => (none, it)
      | .error e => (some (.error e), it)

def next (it : BorrowedRecordIter) : Option (Except Error Bytes) × BorrowedRecordIter :=
  if it.spent then (none, it)
  else
    match it.units with
    | some units => it.step units
    | none =>
        match it.arm with
        | (.error e, it) => (some (.error e), { it with spent := true })
        | (.ok (), it) => it.step (it.units.getD {})

end BorrowedRecordIter

/-! ### The owning iterator -/

/-- Every record of a reader, from either end. -/
structure RecordIter where
  frames : Spans
  perFrame : Nat
  label : String
  /-- The record handed out next going forward. -/
  front : Nat
  /-- The frame a reverse read is in. -/
  backFrame : Nat
  /-- Records of `backFrame` a reverse read has not handed out, once that frame is counted. -/
  backLeft : Option Nat := none
  armed : Bool := false
  spent : Bool := false
  boundary : Boundary
  lookup : Lookup
  judge : Option FrameJudge
  cursor : Option RecordUnitCursor := none

def RecordReader.intoRecordsFrom (r : RecordReader) (fromIdx : Nat) : RecordIter :=
  { frames := r.frames
    perFrame := r.sepCnt
    label := r.label
    front := fromIdx
    backFrame := r.frames.length - 1
    boundary := r.boundary
    lookup := r.lookup
    judge := r.judge }

def RecordReader.intoRecords (r : RecordReader) : RecordIter := r.intoRecordsFrom 0

namespace RecordIter

def withWindow (it : RecordIter) (w : Window) : RecordIter :=
  { it with lookup := { it.lookup with window := w } }

/-- Points the window at the records from `front` on and builds what watches that walk. -/
def arm (it : RecordIter) : Except Error Unit × RecordIter :=
  match positionIterSpan it.lookup it.frames it.boundary it.perFrame it.label it.front with
  | (.error e, lookup) => (.error e, { it with lookup := lookup })
  | (.ok req, lookup) =>
      let watch := watchOf it.judge it.frames it.perFrame it.front req.start req.len
      let cursor := (RecordUnitCursor.new watch req.skip).atFileEnd it.boundary
      (.ok (), { it with lookup := lookup, cursor := some cursor, armed := true })

/-- How many records frame `frame` holds, judged as a range read judges a frame it walks past. -/
def countFrame (it : RecordIter) (frame : Nat) : Except Error Nat × RecordIter :=
  let region := it.frames.at frame
  let (_, lookup) := it.lookup.walkTo frame region 0
  let watch := watchOf it.judge it.frames it.perFrame (frame * it.perFrame) region.1 region.2
  let cursor : RecordUnitCursor := .ofRecords { watch := watch }
  let cursor := if frame = it.frames.length - 1 then cursor.atFileEnd it.boundary else cursor
  let w := lookup.window
  match cursor.tryFold it.boundary.find (fun count _ => .ok (count + 1)) (w.ahead + 1) none 0 w with
  | (.error e, _, w) => (.error e, { it with lookup := { lookup with window := w } })
  | (.ok count, cursor, w) =>
      match (cursor.finish w usizeMax).1 with
      | .error e => (.error e, { it with lookup := { lookup with window := w } })
      -- Counting consumes the final unterminated record too, so the next reverse lookup starts
      -- from the frame.
      | .ok () => (.ok count, { it with lookup := { window := w, frame := none } })

/-- Whether the forward read has reached the record a reverse read handed out last. -/
def metTheReverseRead (it : RecordIter) : Bool :=
  it.backLeft.any fun left => decide (it.front ≥ it.backFrame * it.perFrame + left)

/-- What an iterator with a cursor does next. -/
def step (it : RecordIter) (cursor : RecordUnitCursor) : Option (Except Error Bytes) × RecordIter :=
  match cursor.nextOwned it.boundary.find it.lookup.window with
  | (.ok (some record), cursor, w) =>
      (some (.ok record), { it.withWindow w with cursor := some cursor, front := it.front + 1 })
  | (.ok none, cursor, w) =>
      let finished := cursor.finish w usizeMax
      let it := { it.withWindow w with cursor := some finished.2, spent := true }
      match finished.1 with
      | .ok () => (none, it)
      | .error e => (some (.error e), it)
  | (.error e, cursor, w) =>
      (some (.error e), { it.withWindow w with cursor := some cursor, spent := true })

def next (it : RecordIter) : Option (Except Error Bytes) × RecordIter :=
  if it.spent || it.metTheReverseRead then (none, it)
  else if it.armed then it.step (it.cursor.getD {})
  else
    match it.arm with
    | (.error e, it) => (some (.error e), { it with spent := true })
    | (.ok (), it) => it.step (it.cursor.getD {})

/-- Record `index` of the frame a reverse read is in. -/
def recordBack (it : RecordIter) (index : Nat) : Except Error (Option Bytes) × RecordIter :=
  let (skip, lookup) := it.lookup.walkTo it.backFrame (it.frames.at it.backFrame) index
  let finalFrame := it.boundary.tailIsRecord && it.backFrame == it.frames.length - 1
  let cursor : RecordUnitCursor :=
    .ofRecords { watch := watchNothing it.judge, skip := skip, skipWhole := true }
  let cursor := if finalFrame then cursor.includingFinalRecord else cursor
  let (answer, _, w) := cursor.nextOwned it.boundary.find lookup.window
  (answer, { it with lookup := { lookup with window := w } })

def nextBackFuel : Nat → RecordIter → Option (Except Error Bytes) × RecordIter
  | 0, it => (some (.error .fuel), it)
  | fuel + 1, it =>
      if it.spent then (none, it)
      else
        let counted : Except Error Nat × RecordIter :=
          match it.backLeft with
          | some left => (.ok left, it)
          | none => it.countFrame it.backFrame
        match counted with
        | (.error e, it) => (some (.error e), { it with spent := true })
        | (.ok left, it) =>
            -- The forward walk finds the error for a starting position past the last record.
            if it.backLeft.isNone ∧ it.backFrame = it.frames.length - 1 ∧
                it.front > it.backFrame * it.perFrame + left then it.next
            else
              let it := { it with backLeft := some left }
              if left = 0 then
                if it.backFrame = 0 then (none, { it with spent := true })
                else nextBackFuel fuel { it with backFrame := it.backFrame - 1, backLeft := none }
              else
                let index := left - 1
                if it.backFrame * it.perFrame + index < it.front then
                  (none, { it with spent := true })
                else
                  match it.recordBack index with
                  | (.ok (some record), it) =>
                      (some (.ok record), { it with backLeft := some index })
                  | (.ok none, it) => nextBackFuel fuel { it with backLeft := some index }
                  | (.error e, it) => (some (.error e), { it with spent := true })

/-- The next record from the end. The loop takes a record off the frame it is in or goes on to the
frame before it, which bounds its steps by the length of the file. -/
def nextBack (it : RecordIter) : Option (Except Error Bytes) × RecordIter :=
  nextBackFuel (it.lookup.window.source.inner.stream.length + 2 * it.frames.length + 2)
    { it with armed := false }

end RecordIter

end SeekZstdSep
