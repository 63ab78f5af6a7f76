/-
Module: SeekZstdSep.Core.ExecReader
Purpose: reader.rs as the machine runs it, as far as the seek table goes: what opening a file
  gathers of it, and the table of a reader from a frame on, which groups the frames.
Trusted boundary: the library, as `Zeekstd` has it. It opens a decoder over every table it is given.
Main exports: seekTableDecompFramesWith, TableReader, Exec.fromReader, Exec.fromFile,
  Exec.groupSize, Exec.regroup, Exec.openFromFrame
-/
import SeekZstdSep.Core.ExecAppend

namespace SeekZstdSep

open Lib

/-! ### Opening a file -/

section Frames

variable {Gathered : Type} (table : SeekTable) (onFrame : Gathered → Nat → Nat → Gathered)

/-- The loop of `seek_table_decomp_frames_with` over the frames `indices`, the frame in front of
which ends at `prevEnd`. What `on_frame` keeps is handed on. -/
def decompFramesFrom : List Nat → Nat → Gathered → Spans × Gathered
  | [], _, gathered => ([], gathered)
  | i :: indices, prevEnd, gathered =>
      let stop := table.frameEndDecomp i
      let len := stop - prevEnd
      let rest := decompFramesFrom indices stop (onFrame gathered i len)
      ((prevEnd, len) :: rest.1, rest.2)

/-- Each frame's start and length in the decompressed stream, handed to `on_frame` one by one. -/
def seekTableDecompFramesWith (gathered : Gathered) : Option (Spans × Gathered) :=
  if table.length = 0 then none
  else some (decompFramesFrom table onFrame (List.range table.length) 0 gathered)

end Frames

/-- The closure that gathers the longest frame, compressed and decompressed. -/
def gatherMaxima (table : SeekTable) (maxima : Nat × Nat) (i len : Nat) : Nat × Nat :=
  (max maxima.1 (table.frameSizeComp i), max maxima.2 len)

/-- A reader, without the window it reads records through. -/
structure TableReader where
  label : String
  /-- The seek table of its decoder. -/
  table : SeekTable
  frames : Spans
  boundary : Boundary
  sepCnt : Nat
  originalFrameCount : Option Nat := none
  originalRecordsPerFrame : Option Nat := none
  shared : Option File := none
  maxFrameComp : Nat := 0
  maxFrameDecomp : Nat := 0

def TableReader.recordsPerFrame (r : TableReader) : Nat :=
  r.originalRecordsPerFrame.getD r.sepCnt

/-- A positioned view of a range of the frames of a file. -/
structure FrameSource where
  file : File
  base : Nat
  len : Nat
  firstFrameLen : Option Nat

/-- A reader of the frames of a file from one on, with what its decoder reads. The frame ends it
guards are those of the reader it was made of, counted from `frameEndBase`, the next one being that
of frame `nextFrameEnd`. -/
structure ReaderFrom extends TableReader where
  source : FrameSource
  frameEndBase : Nat
  nextFrameEnd : Nat

namespace Exec

variable (zeek : Zeekstd)

/-- `frame_end_decomp`. -/
def endDecomp (table : SeekTable) (index : Nat) : Exec Nat := do
  let _ ← entryAt table index
  pure (table.frameEndDecomp index)

/-- `frame_size_comp`. -/
def sizeComp (table : SeekTable) (index : Nat) : Exec Nat := do
  let entry ← entryAt table index
  pure entry.1

/-- `from_reader`: only the table of a file that passes `u32::MAX` has its maxima gathered. -/
def fromReader (f : File) (label : String) (boundary : Boundary) : Exec TableReader := do
  let table ← Program.ofExcept (zeek.fromSeekable f.bytes)
  let reader : FrameReader := .new zeek f table
  if table.length = 0 then Program.fail (.noFrames label)
  else do
    let compressedEnd ← endComp table (table.length - 1)
    let decompressedEnd ← endDecomp table (table.length - 1)
    let gathered :=
      if compressedEnd > u32Max ∨ decompressedEnd > u32Max then
        seekTableDecompFramesWith table (gatherMaxima table) (0, 0)
      else seekTableDecompFramesWith table (fun maxima _ _ => maxima) (0, 0)
    match gathered with
    | none => Program.fail (.noFrames label)
    | some (frames, maxima) => do
        let counted ← frameRecords boundary.find.find reader 0
        if counted.1 = 0 then
          if boundary.bytes.isEmpty then Program.fail (.noRecordEnds label)
          else Program.fail (.noRecordEndsWith label boundary.bytes)
        else
          pure
            { label := label
              table := table
              frames := frames
              boundary := boundary
              sepCnt := counted.1
              maxFrameComp := maxima.1
              maxFrameDecomp := maxima.2 }

/-- `from_file_with`: the reader keeps the file. -/
def fromFile (f : File) (label : String) (boundary : Boundary) : Exec TableReader := do
  let r ← fromReader zeek f label boundary
  pure { r with shared := some f }

/-! ### A reader from a frame on -/

/-- `try_from`, refused for what is more than `most`. -/
def tryFrom (most a : Nat) : Exec Nat :=
  if a ≤ most then pure a else Program.fail .intConversion

/-- `div_ceil`. -/
def divCeil (a b : Nat) : Exec Nat :=
  if b = 0 then Program.fault .divisionByZero else pure ((a + b - 1) / b)

variable (mode : Arithmetic)

/-- How many frames of the file a logical frame covers: all that are left where their lengths fit,
else as many as always do. -/
def groupSize (opened : TableReader) (compressedLen decompressedLen remaining : Nat) :
    Exec Nat :=
  if compressedLen ≤ u32Max ∧ decompressedLen ≤ u32Max then pure remaining
  else do
    let byComp ← div u32Max opened.maxFrameComp
    let byDecomp ← div u32Max opened.maxFrameDecomp
    let size ← tryFrom usizeMax (min byComp byDecomp)
    pure (max size 1)

/-- The loop over the groups: the frame the next one starts at and where that starts, compressed
and decompressed, and the logical frames so far. -/
structure Regrouping where
  atFrame : Nat
  compStart : Nat
  decompStart : Nat
  table : SeekTable := []
  frames : Spans := []

/-- Where the frames in front of `stop` end in the file. -/
def groupEndComp (opened : TableReader) (compressedEnd stop : Nat) : Exec Nat :=
  if stop = opened.frames.length then pure compressedEnd
  else do
    let index ← tryFrom u32Max stop
    startComp opened.table index

/-- Where they end in the decompressed stream. -/
def groupEndDecomp (opened : TableReader) (stop : Nat) : Exec Nat :=
  if stop = opened.frames.length then
    add mode 64 opened.frames.last.1 opened.frames.last.2
  else pure (opened.frames.at stop).1

def regroupRound (opened : TableReader) (startFrame groupSize compressedEnd : Nat)
    (state : Regrouping) : Exec (Round Regrouping (SeekTable × Spans)) :=
  if state.atFrame < opened.frames.length then do
    let stop := min (saturatingAdd state.atFrame groupSize) opened.frames.length
    let compEnd ← groupEndComp opened compressedEnd stop
    let decompEnd ← groupEndDecomp mode opened stop
    let compSize ← sub mode 64 compEnd state.compStart
    let decompSize ← sub mode 64 decompEnd state.decompStart
    let comp ← tryFrom u32Max compSize
    let decomp ← tryFrom u32Max decompSize
    let table ← Program.ofExcept (logFrame zeek state.table (comp, decomp))
    let start ← sub mode 64 state.decompStart (opened.frames.at startFrame).1
    pure (.again
      { atFrame := stop
        compStart := compEnd
        decompStart := decompEnd
        table := table
        frames := state.frames ++ [(start, decompSize)] })
  else pure (.done (state.table, state.frames))

/-- The table of the logical frames, and their spans. -/
def regroup (opened : TableReader) (startFrame groupSize base compressedEnd compressedLen
    decompressedLen remaining : Nat) : Exec (SeekTable × Spans) :=
  if groupSize = remaining then do
    let comp ← tryFrom u32Max compressedLen
    let decomp ← tryFrom u32Max decompressedLen
    let table ← Program.ofExcept (logFrame zeek [] (comp, decomp))
    pure (table, [(0, decompressedLen)])
  else do
    let _ ← divCeil remaining groupSize
    Program.loop (regroupRound zeek mode opened startFrame groupSize compressedEnd)
      { atFrame := startFrame, compStart := base, decompStart := (opened.frames.at startFrame).1 }

/-- The reader over the logical frames. -/
def readerFrom (opened : TableReader) (file : File) (startFrame base compressedEnd compressedLen
    decompressedLen remaining : Nat) : Exec ReaderFrom := do
  let size ← groupSize opened compressedLen decompressedLen remaining
  let logical ← regroup zeek mode opened startFrame size base compressedEnd compressedLen
    decompressedLen remaining
  let firstFrameLen ← sizeComp opened.table startFrame
  if usizeMax < opened.sepCnt * size then Program.fail .recordCountOverflow
  else
    pure
      { label := opened.label
        table := logical.1
        frames := logical.2
        boundary := opened.boundary
        sepCnt := opened.sepCnt * size
        originalFrameCount := some remaining
        originalRecordsPerFrame := some opened.recordsPerFrame
        source :=
          { file := file
            base := base
            len := compressedLen
            firstFrameLen := some firstFrameLen }
        frameEndBase := (opened.frames.at startFrame).1
        nextFrameEnd := startFrame }

/-- `open_from_frame`. -/
def openFromFrame (opened : TableReader) (startFrame : Nat) : Exec ReaderFrom :=
  if opened.frames.length ≤ startFrame then Program.fail (.frameOutOfRange startFrame)
  else
    match opened.shared with
    | none => Program.fail .notOpenedFromFile
    | some file => do
        let frame ← tryFrom u32Max startFrame
        let base ← startComp opened.table frame
        let last ← sub mode 64 opened.frames.length 1
        let last ← tryFrom u32Max last
        let lastStart ← startComp opened.table last
        let lastSize ← sizeComp opened.table last
        let compressedEnd ← add mode 64 lastStart lastSize
        let compressedLen ← sub mode 64 compressedEnd base
        let decompressedEnd ← add mode 64 opened.frames.last.1 opened.frames.last.2
        let decompressedLen ← sub mode 64 decompressedEnd (opened.frames.at startFrame).1
        let remaining ← sub mode 64 opened.frames.length startFrame
        readerFrom zeek mode opened file frame base compressedEnd compressedLen decompressedLen
          remaining

end Exec

end SeekZstdSep
