/-
Module: SeekZstdSep.Core.ExecEdit
Purpose: edit.rs as the machine runs it: frame indices are `u32`, record counts and positions
  `u64`, and every entry of a table is asked for by its index.
Trusted boundary: the library, as `Zeekstd` has it. It opens a decoder over every table it parses.
Main exports: Exec.walkFrame, Exec.lastDataFrame, Exec.recordsPerFrame, Exec.frameRange,
  Exec.truncateRecords, Exec.appendFramesWith, Exec.copyRangeWith
-/
import SeekZstdSep.Core.Exec

namespace SeekZstdSep

open Lib

/-! ### The halves of an append of frames -/

/-- What an append of frames establishes of its target: the table, the records per frame, and the
last data frame, which holds as many. -/
def framesTarget (zeek : Zeekstd) (f : File) (find : Finder UInt8) :
    Except Error (SeekTable × Nat × Nat) :=
  match zeek.fromSeekable f.bytes with
  | .error e => .error e
  | .ok table =>
      match validateSeparator find (.new zeek f table) with
      | .error e => .error e
      | .ok (n, reader) =>
          match lastDataFrame table with
          | .error e => .error e
          | .ok last =>
              match walkFrame find reader last with
              | .error e => .error e
              | .ok ((held, endsWhole), _) =>
                  if !endsWhole then .error .endsInFragment
                  else if held ≠ n then .error (.shortLastFrame last held n)
                  else .ok (table, n, last)

/-- What it establishes of its input: the table, and the frames to copy. -/
def framesInput (zeek : Zeekstd) (input : File) (n fromIdx : Nat) (cnt : Option Nat)
    (find : Finder UInt8) (check : RangeCheck) : Except Error (SeekTable × Nat × Nat) :=
  match zeek.fromSeekable input.bytes with
  | .error e => .error (.notSeekable e)
  | .ok inTable =>
      match recordsPerFrame find (.new zeek input inTable) .firstFrame with
      | .error e => .error e
      | .ok (inN, inReader) =>
          if inN ≠ n then .error (.perFrameDiffers inN n)
          else
            match frameRange find inReader n fromIdx cnt with
            | .error e => .error e
            | .ok (k, j, _) =>
                if k ≠ j ∧ check = .everyFrame then
                  match checkRangeUniform find inReader n k j with
                  | .error e => .error e
                  | .ok () => .ok (inTable, k, j)
                else .ok (inTable, k, j)

namespace Exec

/-! ### The seek table -/

/-- The entry of a frame, refused where the table has none. -/
def entryAt (table : SeekTable) (index : Nat) : Exec (Nat × Nat) :=
  match table[index]? with
  | some entry => pure entry
  | none => Program.fail .frameIndexTooLarge

/-- `frame_start_comp`. -/
def startComp (table : SeekTable) (index : Nat) : Exec Nat := do
  let _ ← entryAt table index
  pure (table.frameStartComp index)

/-- `frame_end_comp`. -/
def endComp (table : SeekTable) (index : Nat) : Exec Nat := do
  let _ ← entryAt table index
  pure (table.frameEndComp index)

/-- `log_frames_range`, of some indices. -/
def logFramesRange (mode : Arithmetic) (zeek : Zeekstd) (table : SeekTable) :
    SeekTable → List Nat → Exec SeekTable
  | out, [] => pure out
  | out, index :: indices => do
      let entry ← entryAt table index
      let comp ← cast mode 32 entry.1
      let decomp ← cast mode 32 entry.2
      let out ← Program.ofExcept (logFrame zeek out (comp, decomp))
      logFramesRange mode zeek table out indices

/-! ### Frames -/

section Frames

variable (mode : Arithmetic) (find : RawFind)

def walkFrame (reader : FrameReader) (index : Nat) : Exec ((Nat × Bool) × FrameReader) := do
  let entry ← entryAt reader.table index
  if entry.2 = 0 then pure ((0, false), reader)
  else do
    -- a window is walked before it is read into: what is found in nothing is found first
    let _ ← walk find ((reader.frameWindow []).seekTo 0 entry.2) none
    let content ← Program.ofExcept (reader.frame index)
    let counted ← countRecords find ((reader.frameWindow content).seekTo 0 entry.2)
    pure ((counted.1, counted.2.remainder.isEmpty), { reader with window := counted.2 })

def frameRecords (reader : FrameReader) (index : Nat) : Exec (Nat × FrameReader) := do
  let walked ← walkFrame find reader index
  pure (walked.1.1, walked.2)

def frameCounts : FrameReader → List Nat → Exec (List Nat × FrameReader)
  | reader, [] => pure ([], reader)
  | reader, index :: indices => do
      let held ← frameRecords find reader index
      let counts ← frameCounts held.2 indices
      pure (held.1 :: counts.1, counts.2)

omit find in
def lastDataRound (table : SeekTable) (last : Nat) : Exec (Round Nat Nat) :=
  if 0 < last then do
    let entry ← entryAt table last
    if entry.2 = 0 then do
      let before ← sub mode 32 last 1
      pure (.again before)
    else pure (.done last)
  else pure (.done last)

omit find in
def lastDataFrame (table : SeekTable) : Exec Nat := do
  let last ← sub mode 32 table.length 1
  Program.loop (lastDataRound mode table) last

def validateSeparator (reader : FrameReader) : Exec (Nat × FrameReader) :=
  let frames := reader.table.length
  if frames < 3 then Program.fail (.tooFewFrames frames)
  else do
    let first ← frameRecords find reader 0
    if first.1 = 0 then Program.fail .notInFrameZero
    else do
      let lastFull ← sub mode 32 frames 2
      let second ← frameRecords find first.2 lastFull
      if first.1 ≠ second.1 then Program.fail (.countsDiffer first.1 lastFull second.1)
      else pure (first.1, second.2)

def recordsPerFrame (reader : FrameReader) (check : SeparatorCheck) :
    Exec (Nat × FrameReader) := do
  let last ← lastDataFrame mode reader.table
  if last = 0 then Program.fail .oneDataFrame
  else do
    let walked ← walkFrame find reader 0
    let n := walked.1.1
    if n = 0 then Program.fail .notInFrameZero
    else if !walked.1.2 then Program.fail .frameZeroNotWhole
    else if check = .twoFrames then do
      let full ← sub mode 32 last 1
      if full = 0 then Program.fail .twoDataFrames
      else do
        let second ← frameRecords find walked.2 full
        if n ≠ second.1 then Program.fail (.countsDiffer n full second.1)
        else pure (n, second.2)
    else pure (n, walked.2)

omit find in
/-- The loop of `check_range_uniform`, from an offset on. -/
def judgeRange (n last k j : Nat) : Nat → List Nat → Exec Unit
  | _, [] => pure ()
  | offset, held :: counts => do
      let narrow ← cast mode 32 offset
      let i ← add mode 32 k narrow
      if held = n then judgeRange n last k j (offset + 1) counts
      else do
        let ended ← sub mode 32 j 1
        if i = ended ∧ i = last ∧ held < n then judgeRange n last k j (offset + 1) counts
        else Program.fail (.rangeFrameCount i held n)

def checkRangeUniform (reader : FrameReader) (n k j : Nat) : Exec Unit := do
  let last ← lastDataFrame mode reader.table
  let counts ← frameCounts find reader (List.range' k (j - k))
  judgeRange mode n last k j 0 counts.1

def frameRange (reader : FrameReader) (n fromIdx : Nat) (cnt : Option Nat) :
    Exec (Nat × Nat × Option Nat) := do
  let last ← lastDataFrame mode reader.table
  let inside ← rem fromIdx n
  if inside ≠ 0 then Program.fail (.copyFromInsideFrame fromIdx n)
  else do
    let frame ← div fromIdx n
    if last < frame then do
      let frames ← add mode 32 last 1
      Program.fail (.copyFromPastEnd fromIdx frames n)
    else do
      let k ← cast mode 32 frame
      let ended := cnt.bind fun c => if fromIdx + c ≤ usizeMax then some (fromIdx + c) else none
      match ended.filter fun ended => ended % n = 0 ∧ ended / n ≤ last with
      | some ended => do
          let j ← cast mode 32 (ended / n)
          pure (k, j, none)
      | none => do
          let tail ← frameRecords find reader last
          let full ← mul mode 64 n last
          let total ← add mode 64 full tail.1
          match cnt.filter fun c => saturatingAdd fromIdx c ≠ total with
          | some c => Program.fail (.copyToInsideFrame c fromIdx total)
          | none => do
              let j ← add mode 32 last 1
              pure (k, j, some tail.1)

end Frames

/-! ### Truncating -/

section Edits

variable (mode : Arithmetic) (zeek : Zeekstd)

/-- What `truncate_records` establishes before it cuts: the table, how many frames stay, and
where the file is cut. -/
def truncateChecks (f : File) (recordLen : Nat) (find : RawFind) :
    Exec (SeekTable × Nat × Nat) := do
  let table ← Program.ofExcept (zeek.fromSeekable f.bytes)
  let validated ← validateSeparator mode find (.new zeek f table)
  let n := validated.1
  let lastIndex ← sub mode 32 table.length 1
  let last ← frameRecords find validated.2 lastIndex
  let others ← sub mode 32 table.length 1
  let full ← mul mode 64 n others
  let total ← add mode 64 full last.1
  if recordLen = 0 then Program.fail .truncateToNothing
  else if total < recordLen then Program.fail (.truncatePastEnd recordLen total)
  else do
    let k ← div recordLen n
    let inside ← rem recordLen n
    if inside ≠ 0 ∨ (table.length ≤ k ∧ last.1 ≠ n) then
      Program.fail (.truncateInsideFrame recordLen n)
    else do
      let kept ← cast mode 32 k
      let lastKept ← sub mode 32 kept 1
      let cut ← endComp table lastKept
      pure (table, kept, cut)

def truncateRecords (f : File) (recordLen : Nat) (find : RawFind) :
    Exec (Except Error Unit × File) := do
  let checked ← (truncateChecks mode zeek f recordLen find).attempt
  match checked with
  | .error e => pure (.error e, f)
  | .ok (table, kept, cut) => do
      let f := f.setLen cut
      let logged ← (logFramesRange mode zeek table [] (List.range' 0 kept)).attempt
      match logged with
      | .error e => pure (.error e, f)
      | .ok out => pure (.ok (), f.writeAll (zeek.serialize out))

/-! ### Appending frames -/

/-- What `append_frames_with` establishes of the target: the table, the records per frame, and
the last data frame, which holds as many. -/
def framesTarget (f : File) (find : RawFind) : Exec (SeekTable × Nat × Nat) := do
  let table ← Program.ofExcept (zeek.fromSeekable f.bytes)
  let validated ← validateSeparator mode find (.new zeek f table)
  let n := validated.1
  let last ← lastDataFrame mode table
  let walked ← walkFrame find validated.2 last
  if !walked.1.2 then Program.fail .endsInFragment
  else if walked.1.1 ≠ n then Program.fail (.shortLastFrame last walked.1.1 n)
  else pure (table, n, last)

/-- What it establishes of the input: the table, and the frames to copy. -/
def framesInput (input : File) (n fromIdx : Nat) (cnt : Option Nat) (find : RawFind)
    (check : RangeCheck) : Exec (SeekTable × Nat × Nat) := do
  let inTable ← Program.ofExcept ((zeek.fromSeekable input.bytes).mapError .notSeekable)
  let read ← recordsPerFrame mode find (.new zeek input inTable) .firstFrame
  if read.1 ≠ n then Program.fail (.perFrameDiffers read.1 n)
  else do
    let range ← frameRange mode find read.2 n fromIdx cnt
    if range.1 ≠ range.2.1 ∧ check = .everyFrame then do
      checkRangeUniform mode find read.2 n range.1 range.2.1
      pure (inTable, range.1, range.2.1)
    else pure (inTable, range.1, range.2.1)

/-- What `append_frames_with` establishes before it cuts. -/
def appendFramesChecks (f input : File) (fromIdx : Nat) (cnt : Option Nat) (find : RawFind)
    (check : RangeCheck) : Exec (SeekTable × Nat × SeekTable × Nat × Nat) := do
  let target ← framesTarget mode zeek f find
  let read ← framesInput mode zeek input target.2.1 fromIdx cnt find check
  pure (target.1, target.2.2, read)

/-- Where the frames `k..j` of a table lie in its file. -/
def part (table : SeekTable) (k j : Nat) : Exec (Nat × Nat) := do
  let start ← startComp table k
  let last ← sub mode 32 j 1
  let stop ← endComp table last
  -- the length that is taken
  let _ ← sub mode 64 stop start
  pure (start, stop)

def appendFramesWith (f input : File) (fromIdx : Nat) (cnt : Option Nat) (find : RawFind)
    (check : RangeCheck) : Exec (Except Error Unit × File) := do
  let checked ← (appendFramesChecks mode zeek f input fromIdx cnt find check).attempt
  match checked with
  | .error e => pure (.error e, f)
  | .ok (table, last, inTable, k, j) =>
      if k = j then pure (.ok (), f)
      else do
        let span ← (part mode inTable k j).attempt
        match span with
        | .error e => pure (.error e, f)
        | .ok (start, stop) => do
            let cut ← (endComp table last).attempt
            match cut with
            | .error e => pure (.error e, f)
            | .ok cut => do
                let copied := ioCopy (input.part start stop)
                let f := (f.setLen cut).writeAll copied.2
                match copied.1 with
                | .error e => pure (.error e, f)
                | .ok () => do
                    let kept ← add mode 32 last 1
                    let logged ← (do
                      let out ← logFramesRange mode zeek table [] (List.range' 0 kept)
                      logFramesRange mode zeek inTable out (List.range' k (j - k))).attempt
                    match logged with
                    | .error e => pure (.error e, f)
                    | .ok out => pure (.ok (), f.writeAll (zeek.serialize out))

/-! ### Copying a range -/

/-- What `copy_range_with` establishes before it writes: the table and the frames to copy. -/
def copyRangeChecks (input : File) (fromIdx : Nat) (cnt : Option Nat) (find : RawFind)
    (align : Alignment) (check : SeparatorCheck) : Exec (SeekTable × Nat × Nat) := do
  let table ← Program.ofExcept (zeek.fromSeekable input.bytes)
  let read ← recordsPerFrame mode find (.new zeek input table) check
  let n := read.1
  let range ← frameRange mode find read.2 n fromIdx cnt
  if cnt = some 0 then Program.fail .copyNothing
  else
    match range.2.2.filter fun tail => tail ≠ n ∧ align = .required with
    | some tail => do
        let short ← sub mode 32 range.2.1 1
        Program.fail (.copyUnaligned short tail n)
    | none => pure (table, range.1, range.2.1)

def copyRangeWith (input : File) (output : Sink) (fromIdx : Nat) (cnt : Option Nat)
    (find : RawFind) (align : Alignment) (check : SeparatorCheck) :
    Exec (Except Error Unit × Sink) := do
  let checked ← (copyRangeChecks mode zeek input fromIdx cnt find align check).attempt
  match checked with
  | .error e => pure (.error e, output)
  | .ok (table, k, j) => do
      let span ← (part mode table k j).attempt
      match span with
      | .error e => pure (.error e, output)
      | .ok (start, stop) =>
          let copied := ioCopy (input.part start stop)
          match output.writeAll copied.2 with
          | (.error e, output) => pure (.error e, output)
          | (.ok (), output) =>
              match copied.1 with
              | .error e => pure (.error e, output)
              | .ok () => do
                  let logged ←
                    (logFramesRange mode zeek table [] (List.range' k (j - k))).attempt
                  match logged with
                  | .error e => pure (.error e, output)
                  | .ok out => pure (output.writeAll (zeek.serialize out))

end Edits

end Exec

end SeekZstdSep
