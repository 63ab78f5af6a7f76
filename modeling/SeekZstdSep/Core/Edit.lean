/-
Module: SeekZstdSep.Core.Edit
Purpose: `edit.rs`: what every operation at frame boundaries reads before it writes, and the
  operations that shorten a file and that copy frames of one.
Trusted boundary: none
Main exports: decompressedRangeInto, FrameReader, walkFrame, validateSeparator,
  recordsPerFrame, frameRange, truncateRecords, appendFramesWith, copyRangeWith
-/
import SeekZstdSep.Core.Zeekstd

namespace SeekZstdSep

open Lib

/-- Whether the result has to be aligned: every frame holding the same number of records. -/
inductive Alignment where
  | required
  | notRequired
deriving Repr, DecidableEq

/-- How many frames the separator is checked against before a range is copied. -/
inductive SeparatorCheck where
  | firstFrame
  | twoFrames
deriving Repr, DecidableEq

/-- How many of the frames being copied are counted before they are taken. -/
inductive RangeCheck where
  | firstFrame
  | everyFrame
deriving Repr, DecidableEq

/-! ### Reading frames -/

def SeekTable.frameSizeDecomp (table : SeekTable) (frame : Nat) : Nat :=
  (table.getD frame (0, 0)).2

/-- `decompressed_range_into`: the bytes of `[start, start + len)`, as the buffer holds them that
was emptied and filled with NUL first. One `read`, and how much it read is not looked at. -/
def decompressedRangeInto (decoder : Decoder) (start len : Nat) : Bytes × Decoder :=
  let got := (decoder.seek start).read len
  (got.1 ++ List.replicate (len - got.1.length) 0, got.2)

/-- A decoder held open across the frames of one file, with the seek table it was built from and
the window the frames are walked through. -/
structure FrameReader where
  table : SeekTable
  /-- What the decoder hands out of each frame, or what it fails with there. -/
  frame : Nat → Except Error Bytes
  /-- How much each of its reads hands out. -/
  reads : Nat → Nat
  window : Window

namespace FrameReader

def new (zeek : Zeekstd) (f : File) (table : SeekTable) : FrameReader :=
  { table := table
    frame := zeek.decodeFrame f.bytes table
    reads := f.reads
    window := {
      source := {
        inner := { seekTable := table, stream := [], schedule := f.reads }
        limit := 0 } } }

/-- The window over the decoder where it hands out `content`, counted from there. -/
def frameWindow (reader : FrameReader) (content : Bytes) : Window :=
  { reader.window with
    source := { reader.window.source with
      inner := { reader.window.source.inner with stream := content, schedule := reader.reads } } }

/-- Decompresses a frame into a buffer of its own. One `read`: what a short one leaves is NUL. -/
def readFrame (reader : FrameReader) (index : Nat) : Except Error (Bytes × FrameReader) :=
  let len := reader.table.frameSizeDecomp index
  if len = 0 then .ok ([], reader)
  else
    match reader.frame index with
    | .error e => .error e
    | .ok content =>
        let got := ((reader.frameWindow content).source.inner.seek 0).read len
        let source : Take := { reader.window.source with inner := got.2 }
        .ok (got.1 ++ List.replicate (len - got.1.length) 0,
          { reader with window := { reader.window with source := source } })

end FrameReader

/-- The number of records a frame holds and whether it ends with a whole one rather than with a
fragment. An empty frame ends with neither. -/
def walkFrame (find : Finder UInt8) (reader : FrameReader) (index : Nat) :
    Except Error ((Nat × Bool) × FrameReader) :=
  let len := reader.table.frameSizeDecomp index
  if len = 0 then .ok ((0, false), reader)
  else
    match reader.frame index with
    | .error e => .error e
    | .ok content =>
        match Records.countRecords find {} ((reader.frameWindow content).seekTo 0 len) with
        | (.error e, _) => .error e
        | (.ok count, window) =>
            .ok ((count, window.remainder.isEmpty), { reader with window := window })

/-- `walkFrame` for a caller that only wants the count. -/
def frameRecords (find : Finder UInt8) (reader : FrameReader) (index : Nat) :
    Except Error (Nat × FrameReader) :=
  match walkFrame find reader index with
  | .error e => .error e
  | .ok ((count, _), reader) => .ok (count, reader)

/-- The number of records each frame of a range holds. -/
def frameCounts (find : Finder UInt8) :
    FrameReader → List Nat → Except Error (List Nat × FrameReader)
  | reader, [] => .ok ([], reader)
  | reader, index :: indices =>
      match frameRecords find reader index with
      | .error e => .error e
      | .ok (held, reader) =>
          match frameCounts find reader indices with
          | .error e => .error e
          | .ok (counts, reader) => .ok (held :: counts, reader)

def lastDataFrameFrom (table : SeekTable) : Nat → Nat
  | 0 => 0
  | last + 1 =>
      if table.frameSizeDecomp (last + 1) = 0 then lastDataFrameFrom table last else last + 1

/-- The last frame that carries data. A table of no frames has none: the index wraps below 0 and
is refused as out of range. -/
def lastDataFrame (table : SeekTable) : Except Error Nat :=
  if table.length = 0 then .error .frameIndexTooLarge
  else .ok (lastDataFrameFrom table (table.length - 1))

/-! ### What is checked first -/

/-- Compares the first frame against the last one that is not allowed to be short, and returns
the records per frame. -/
def validateSeparator (find : Finder UInt8) (reader : FrameReader) :
    Except Error (Nat × FrameReader) :=
  let frames := reader.table.length
  if frames < 3 then .error (.tooFewFrames frames)
  else
    match frameRecords find reader 0 with
    | .error e => .error e
    | .ok (first, reader) =>
        if first = 0 then .error .notInFrameZero
        else
          let lastFull := frames - 2
          match frameRecords find reader lastFull with
          | .error e => .error e
          | .ok (second, reader) =>
              if first ≠ second then .error (.countsDiffer first lastFull second)
              else .ok (first, reader)

/-- Reads the records per frame off frame 0 alone, which has to end where a record does. -/
def recordsPerFrame (find : Finder UInt8) (reader : FrameReader) (check : SeparatorCheck) :
    Except Error (Nat × FrameReader) :=
  match lastDataFrame reader.table with
  | .error e => .error e
  | .ok last =>
      if last = 0 then .error .oneDataFrame
      else
        match walkFrame find reader 0 with
        | .error e => .error e
        | .ok ((n, endsWhole), reader) =>
            if n = 0 then .error .notInFrameZero
            else if !endsWhole then .error .frameZeroNotWhole
            else if check = .twoFrames then
              let full := last - 1
              if full = 0 then .error .twoDataFrames
              else
                match frameRecords find reader full with
                | .error e => .error e
                | .ok (second, reader) =>
                    if n ≠ second then .error (.countsDiffer n full second)
                    else .ok (n, reader)
            else .ok (n, reader)

/-- The first frame of a range whose count does not fit: any that does not hold `n` records,
except the one the range ends at where the file ends there too and it holds fewer. -/
def judgeRange (n last j : Nat) : Nat → List Nat → Except Error Unit
  | _, [] => .ok ()
  | i, held :: counts =>
      if held = n then judgeRange n last j (i + 1) counts
      else if i = j - 1 ∧ i = last ∧ held < n then judgeRange n last j (i + 1) counts
      else .error (.rangeFrameCount i held n)

/-- Confirms every frame of `k..j` holds `n` records. The whole range is counted before any of it
is judged. -/
def checkRangeUniform (find : Finder UInt8) (reader : FrameReader) (n k j : Nat) :
    Except Error Unit :=
  match lastDataFrame reader.table with
  | .error e => .error e
  | .ok last =>
      match frameCounts find reader (List.range' k (j - k)) with
      | .error e => .error e
      | .ok (counts, _) => judgeRange n last j k counts

/-- The frames a record range covers, as `k..j`, along with the record count of the last data
frame where the range reaches it. -/
def frameRange (find : Finder UInt8) (reader : FrameReader) (n fromIdx : Nat)
    (cnt : Option Nat) : Except Error (Nat × Nat × Option Nat) :=
  match lastDataFrame reader.table with
  | .error e => .error e
  | .ok last =>
      if fromIdx % n ≠ 0 then .error (.copyFromInsideFrame fromIdx n)
      else if last < fromIdx / n then .error (.copyFromPastEnd fromIdx (last + 1) n)
      else
        let k := fromIdx / n
        let ended := cnt.bind fun c => if fromIdx + c ≤ usizeMax then some (fromIdx + c) else none
        match ended.filter fun ended => ended % n = 0 ∧ ended / n ≤ last with
        | some ended => .ok (k, ended / n, none)
        | none =>
            match frameRecords find reader last with
            | .error e => .error e
            | .ok (tail, _) =>
                let total := n * last + tail
                match cnt.filter fun c => saturatingAdd fromIdx c ≠ total with
                | some c => .error (.copyToInsideFrame c fromIdx total)
                | none => .ok (k, last + 1, some tail)

/-! ### Writing -/

/-- Logs one entry, refused where the table is full. -/
def logFrame (zeek : Zeekstd) (out : SeekTable) (entry : Nat × Nat) : Except Error SeekTable :=
  if zeek.maxFrames ≤ out.length then .error .frameIndexTooLarge else .ok (out ++ [entry])

/-- Logs entries of another table behind those of `out`, in order. -/
def logFrames (zeek : Zeekstd) : SeekTable → List (Nat × Nat) → Except Error SeekTable
  | out, [] => .ok out
  | out, entry :: entries =>
      match logFrame zeek out entry with
      | .error e => .error e
      | .ok out => logFrames zeek out entries

/-- The entries of the frames `k..j`. -/
def SeekTable.range (table : SeekTable) (k j : Nat) : List (Nat × Nat) :=
  (table.drop k).take (j - k)

/-- The source that hands out `[start, stop)` of a file. -/
def File.part (f : File) (start stop : Nat) : Input :=
  { data := (f.bytes.drop start).take (stop - start), schedule := f.schedule }

/-! ### Truncating -/

/-- What `truncate_records` establishes before it cuts: the table, and how many frames stay. -/
def truncateChecks (zeek : Zeekstd) (f : File) (recordLen : Nat) (find : Finder UInt8) :
    Except Error (SeekTable × Nat) :=
  match zeek.fromSeekable f.bytes with
  | .error e => .error e
  | .ok table =>
      let frames := table.length
      match validateSeparator find (.new zeek f table) with
      | .error e => .error e
      | .ok (n, reader) =>
          match frameRecords find reader (frames - 1) with
          | .error e => .error e
          | .ok (last, _) =>
              let total := n * (frames - 1) + last
              if recordLen = 0 then .error .truncateToNothing
              else if total < recordLen then .error (.truncatePastEnd recordLen total)
              else
                let k := recordLen / n
                if recordLen % n ≠ 0 ∨ (frames ≤ k ∧ last ≠ n) then
                  .error (.truncateInsideFrame recordLen n)
                else .ok (table, k)

/-- Shortens a file to `recordLen` records. -/
def truncateRecords (zeek : Zeekstd) (f : File) (recordLen : Nat) (find : Finder UInt8) :
    Except Error Unit × File :=
  match truncateChecks zeek f recordLen find with
  | .error e => (.error e, f)
  | .ok (table, k) =>
      let f := f.setLen (table.frameEndComp (k - 1))
      match logFrames zeek [] (table.take k) with
      | .error e => (.error e, f)
      | .ok out => (.ok (), f.writeAll (zeek.serialize out))

/-! ### Appending frames -/

/-- What `append_frames_with` establishes before it cuts: the table of the target and its last
data frame, the table of the input, and the frames to copy. -/
def appendFramesChecks (zeek : Zeekstd) (f input : File) (fromIdx : Nat) (cnt : Option Nat)
    (find : Finder UInt8) (check : RangeCheck) :
    Except Error (SeekTable × Nat × SeekTable × Nat × Nat) :=
  match zeek.fromSeekable f.bytes with
  | .error e => .error e
  | .ok table =>
      match validateSeparator find (.new zeek f table) with
      | .error e => .error e
      | .ok (n, reader) =>
          match lastDataFrame table with
          | .error e => .error e
          | .ok last =>
              match walkFrame find reader last with
              | .error e => .error e
              | .ok ((held, endsWhole), _) =>
                  if !endsWhole then .error .endsInFragment
                  else if held ≠ n then .error (.shortLastFrame last held n)
                  else
                    match zeek.fromSeekable input.bytes with
                    | .error e => .error (.notSeekable e)
                    | .ok inTable =>
                        match recordsPerFrame find (.new zeek input inTable) .firstFrame with
                        | .error e => .error e
                        | .ok (inN, inReader) =>
                            if inN ≠ n then .error (.perFrameDiffers inN n)
                            else
                              match frameRange find inReader n fromIdx cnt with
                              | .error e => .error e
                              | .ok (k, j, _) =>
                                  if k ≠ j ∧ check = .everyFrame then
                                    match checkRangeUniform find inReader n k j with
                                    | .error e => .error e
                                    | .ok () => .ok (table, last, inTable, k, j)
                                  else .ok (table, last, inTable, k, j)

/-- Appends `cnt` records of `input`, from record `fromIdx` on, as the frames they already are. -/
def appendFramesWith (zeek : Zeekstd) (f input : File) (fromIdx : Nat) (cnt : Option Nat)
    (find : Finder UInt8) (check : RangeCheck) : Except Error Unit × File :=
  match appendFramesChecks zeek f input fromIdx cnt find check with
  | .error e => (.error e, f)
  | .ok (table, last, inTable, k, j) =>
      if k = j then (.ok (), f)
      else
        let source := input.part (inTable.frameStartComp k) (inTable.frameEndComp (j - 1))
        let copied := ioCopy source
        let f := (f.setLen (table.frameEndComp last)).writeAll copied.2
        match copied.1 with
        | .error e => (.error e, f)
        | .ok () =>
            match logFrames zeek [] (table.take (last + 1)) with
            | .error e => (.error e, f)
            | .ok out =>
                match logFrames zeek out (inTable.range k j) with
                | .error e => (.error e, f)
                | .ok out => (.ok (), f.writeAll (zeek.serialize out))

/-! ### Copying a range -/

/-- What `copy_range_with` establishes before it writes: the table and the frames to copy. -/
def copyRangeChecks (zeek : Zeekstd) (input : File) (fromIdx : Nat) (cnt : Option Nat)
    (find : Finder UInt8) (align : Alignment) (check : SeparatorCheck) :
    Except Error (SeekTable × Nat × Nat) :=
  match zeek.fromSeekable input.bytes with
  | .error e => .error e
  | .ok table =>
      match recordsPerFrame find (.new zeek input table) check with
      | .error e => .error e
      | .ok (n, reader) =>
          match frameRange find reader n fromIdx cnt with
          | .error e => .error e
          | .ok (k, j, tail) =>
              if cnt = some 0 then .error .copyNothing
              else
                match tail.filter fun tail => tail ≠ n ∧ align = .required with
                | some tail => .error (.copyUnaligned (j - 1) tail n)
                | none => .ok (table, k, j)

/-- Writes `cnt` records of `input`, from record `fromIdx` on, as a seekable file of its own. -/
def copyRangeWith (zeek : Zeekstd) (input : File) (output : Sink) (fromIdx : Nat)
    (cnt : Option Nat) (find : Finder UInt8) (align : Alignment) (check : SeparatorCheck) :
    Except Error Unit × Sink :=
  match copyRangeChecks zeek input fromIdx cnt find align check with
  | .error e => (.error e, output)
  | .ok (table, k, j) =>
      let copied := ioCopy (input.part (table.frameStartComp k) (table.frameEndComp (j - 1)))
      match output.writeAll copied.2 with
      | (.error e, output) => (.error e, output)
      | (.ok (), output) =>
          match copied.1 with
          | .error e => (.error e, output)
          | .ok () =>
              match logFrames zeek [] (table.range k j) with
              | .error e => (.error e, output)
              | .ok out => output.writeAll (zeek.serialize out)

end SeekZstdSep
