/-
Module: SeekZstdSep.Core.Source
Purpose: What the crate reads from: data sources that hand out fewer bytes than asked, a
  decoder that seeks in the decompressed stream, and the limit a region puts on it. The
  errors every operation can answer with are here as well.
Trusted boundary: the `Read` contract of the sources and of the decoder. A read hands out
  between one byte and the bytes asked for, and nothing only at the end, and it returns: the
  library may read for ever where the seek table says more of the last frame than that holds,
  which is outside of the model. A decoder over a regrouped seek table reads what the frames
  behind it decompress to.
Main exports: Error, Read, Input, Chain, Frame, SeekableFile, Decoder, Take
-/
import SeekZstdSep.Core.Find
import Mathlib.Tactic.Ring

namespace SeekZstdSep

/-- How much every reader in the crate takes from its source at a time. -/
def readBufSize : Nat := 32768

/-- How much of a decompressed frame is held at once, to begin with. -/
def readFrameBufSize : Nat := readBufSize

/-- `usize::MAX`. -/
def usizeMax : Nat := 2 ^ 64 - 1

/-- `u32::MAX`. -/
def u32Max : Nat := 2 ^ 32 - 1

def saturatingMul (a b : Nat) : Nat := min (a * b) usizeMax

def saturatingAdd (a b : Nat) : Nat := min (a + b) usizeMax

/-- `a - b` on `usize`. Below 0 a build that checks for overflow panics, for which `none` stands,
and any other wraps. -/
def subUsize (overflowChecks : Bool) (a b : Nat) : Option Nat :=
  if b ≤ a then some (a - b) else if overflowChecks then none else some (a + 2 ^ 64 - b)

/-- `a * b` on `usize`, with the same two ways of overflowing. -/
def mulUsize (overflowChecks : Bool) (a b : Nat) : Option Nat :=
  if a * b ≤ usizeMax then some (a * b)
  else if overflowChecks then none else some (a * b % 2 ^ 64)

/-- What a call can be refused or fail with. -/
inductive Error where
  /-- "separator must not be empty" -/
  | emptySeparator
  /-- "incomplete record at nonfinal frame boundary" -/
  | incompleteRecord
  /-- "incomplete final record" -/
  | incompleteFinalRecord
  /-- "No separator found in frame" -/
  | noSeparatorInFrame
  /-- "record {record} is past the end of {label}" -/
  | pastTheEnd (record : Nat) (label : String)
  /-- "frame {frame} of {label} holds {held} records rather than {perFrame}: …" -/
  | frameCount (frame : Nat) (label : String) (held perFrame : Nat)
  /-- "frame {frame} of {label} holds bytes after its last record: …" -/
  | frameTail (frame : Nat) (label : String)
  /-- "frame {frame} is out of range" -/
  | frameOutOfRange (frame : Nat)
  /-- "open_with_opts requires a reader opened from a file" -/
  | notOpenedFromFile
  /-- "path and boundary cannot be set when reusing a reader" -/
  | reusedWithPathOrBoundary
  /-- "path is required" -/
  | pathRequired
  /-- "boundary is required" -/
  | boundaryRequired
  /-- "no frames in {label}" -/
  | noFrames (label : String)
  /-- "no record ends in frame 0 of {label}" -/
  | noRecordEnds (label : String)
  /-- "no record in frame 0 of {label} ends with {separator}: …" -/
  | noRecordEndsWith (label : String) (separator : Bytes)
  /-- "record count overflow" -/
  | recordCountOverflow
  /-- a checked integer conversion that does not fit -/
  | intConversion
  /-- "refusing to validate the separator against {frames} frames: …" -/
  | tooFewFrames (frames : Nat)
  /-- "the separator does not occur in frame 0" -/
  | notInFrameZero
  /-- "frame 0 holds {first} separators and frame {frame} holds {second}: …" -/
  | countsDiffer (first frame second : Nat)
  /-- "frame {index} must contain {n} whole records and no fragment: …" -/
  | mustContain (index n count : Nat) (whole : Bool)
  /-- "refusing to read the separator off a file of one data frame: …" -/
  | oneDataFrame
  /-- "frame 0 does not end with the separator: …" -/
  | frameZeroNotWhole
  /-- "refusing to compare two frames in a file of two data frames: …" -/
  | twoDataFrames
  /-- "refusing to truncate to 0 records: …" -/
  | truncateToNothing
  /-- "refusing to truncate to {recordLen} records: the file holds {total}" -/
  | truncatePastEnd (recordLen total : Nat)
  /-- "refusing to truncate to {recordLen} records: the cut has to land on a frame boundary, …" -/
  | truncateInsideFrame (recordLen n : Nat)
  /-- "trust_records_per_frame requires a records per frame count" -/
  | trustWithoutCount
  /-- "records per frame must be greater than zero" -/
  | zeroRecordsPerFrame
  /-- "refusing to append to a file with no data frames" -/
  | noDataFrames
  /-- "refusing to append a zstd stream as records: …" -/
  | zstdAsRecords
  /-- "frame {index} does not start with the zstd magic number" -/
  | noMagic (index : Nat)
  /-- "refusing to insert a separator at the join: …" -/
  | insertWithoutSeparator
  /-- "refusing to append to a file that does not end with a whole record: …" -/
  | endsInFragment
  /-- "refusing to append: writing a separator leaves the fragment the file ends in a
  fragment, …" -/
  | separatorOverlapsItself
  /-- "last data frame holds {count} records, which exceeds the supplied count {n}" -/
  | lastFrameExceeds (count n : Nat)
  /-- "re-encoding {bytes} bytes produced {frames} frames, not one" -/
  | reencodedFrames (bytes frames : Nat)
  /-- "compressing {frames} frames of {n} records produced {written}: …" -/
  | oversizedFrames (frames n written : Nat)
  /-- "refusing to append frames after frame {last}, which holds {held} records rather
  than {n}: …" -/
  | shortLastFrame (last held n : Nat)
  /-- "refusing to append the frames of a file that is not a seekable zst", and why it is not -/
  | notSeekable (cause : Error)
  /-- "refusing to append a file holding {inN} records per frame to one holding {n}: …" -/
  | perFrameDiffers (inN n : Nat)
  /-- "refusing to copy frame {frame}, which holds {held} records rather than {n}: a short
  frame …" -/
  | rangeFrameCount (frame held n : Nat)
  /-- "refusing to copy from record {from}: a range starts at the first record of a frame, …" -/
  | copyFromInsideFrame (fromIdx n : Nat)
  /-- "refusing to copy from record {from}: the file holds {frames} frames of {n} records" -/
  | copyFromPastEnd (fromIdx frames n : Nat)
  /-- "refusing to copy {cnt} records from record {from}: a range ends at the first record of a
  frame or at the end of the file, which holds {total} records" -/
  | copyToInsideFrame (cnt fromIdx total : Nat)
  /-- "refusing to copy 0 records: …" -/
  | copyNothing
  /-- "refusing to copy frame {frame}, which holds {held} records rather than {n}: the result
  would not hold the same count in every frame" -/
  | copyUnaligned (frame held n : Nat)
  /-- a seek table that holds as many frames as it can -/
  | frameIndexTooLarge
  /-- what a data source, a sink or a caller's closure fails with -/
  | external (message : String)
  /-- `CompressErrorData`: unprocessed data passed the limit with {perFrame} records to a frame -/
  | compressErrorData (perFrame : Int)
  /-- "No separator was found before reaching the limit size ({unscanned} > {limit}). …" -/
  | noSeparatorBeforeLimit (unscanned limit multiplier : Nat)
  /-- the step bound of a modelled loop; no function returns it, see the termination lemmas -/
  | fuel
deriving Repr, DecidableEq

/-- How many bytes a read hands out that may take up to `most`: any number from 1 on, as the
schedule has it, and 0 only where there is nothing to hand out. -/
def shortRead (wish most : Nat) : Nat :=
  if most = 0 then 0 else wish % most + 1

theorem shortRead_le (wish most : Nat) : shortRead wish most ≤ most := by
  unfold shortRead
  split
  · omega
  · have := Nat.mod_lt wish (Nat.pos_of_ne_zero ‹_›)
    omega

theorem shortRead_eq_zero_iff {wish most : Nat} : shortRead wish most = 0 ↔ most = 0 := by
  unfold shortRead
  split <;> omega

/-- A byte source: up to `want` bytes, and the source that is left. -/
class Read (R : Type) where
  read : R → Nat → Except Error (Bytes × R)
  /-- An upper bound on the reads that hand out bytes. -/
  budget : R → Nat

/-- A data source: the bytes it still holds, and for every read how much it hands out, or that
it fails. -/
structure Input where
  data : Bytes
  schedule : Nat → Option Nat
  tick : Nat := 0

instance : Read Input where
  read source want :=
    match source.schedule source.tick with
    | none => .error (.external "read failed")
    | some wish =>
        let n := shortRead wish (min want source.data.length)
        .ok (source.data.take n,
          { source with data := source.data.drop n, tick := source.tick + 1 })
  budget source := source.data.length

/-- Bytes already in memory, then a source: `Cursor::new(bytes).chain(source)`. -/
structure Chain (R : Type) where
  first : Bytes
  second : R

instance {R : Type} [Read R] : Read (Chain R) where
  read source want :=
    if source.first ≠ [] ∧ want ≠ 0 then
      .ok (source.first.take want, { source with first := source.first.drop want })
    else
      match Read.read source.second want with
      | .error e => .error e
      | .ok (bytes, second) => .ok (bytes, { source with second := second })
  budget source := source.first.length + Read.budget source.second

/-- A frame of a seekable file: its compressed length and what it decompresses to. A seek table
holds both lengths as `u32`. -/
structure Frame where
  comp : Nat
  content : Bytes
  comp_pos : 0 < comp
  comp_le : comp ≤ u32Max
  content_le : content.length ≤ u32Max

/-- A seekable file, and how much each read of a decoder over it hands out. -/
structure SeekableFile where
  frames : List Frame
  reads : Nat → Nat
  count_le : frames.length ≤ u32Max

/-- What the frames of the file decompress to. -/
def SeekableFile.contents (file : SeekableFile) : List Bytes := file.frames.map Frame.content

/-- The compressed and the decompressed length of every frame. -/
abbrev SeekTable := List (Nat × Nat)

/-- The decoder of a seekable file: its seek table, the decompressed stream, where it reads on
from, and how much each read hands out. -/
structure Decoder where
  seekTable : SeekTable := []
  stream : Bytes
  pos : Nat := 0
  schedule : Nat → Nat
  tick : Nat := 0

namespace Decoder

def seek (decoder : Decoder) (pos : Nat) : Decoder := { decoder with pos := pos }

/-- `Decoder::read`. It is assumed to return. -/
def read (decoder : Decoder) (want : Nat) : Bytes × Decoder :=
  let n := shortRead (decoder.schedule decoder.tick)
    (min want (decoder.stream.length - decoder.pos))
  ((decoder.stream.drop decoder.pos).take n,
    { decoder with pos := decoder.pos + n, tick := decoder.tick + 1 })

end Decoder

/-- The decoder `Decoder::new` makes of a file. -/
def SeekableFile.decoder (file : SeekableFile) : Decoder :=
  { seekTable := file.frames.map fun frame => (frame.comp, frame.content.length)
    stream := file.contents.flatten
    schedule := file.reads }

/-- The decoder over the frames from `startFrame` on, behind a seek table that groups them: it
reads what those frames decompress to. -/
def SeekableFile.decoderFrom (file : SeekableFile) (startFrame : Nat) (table : SeekTable) :
    Decoder :=
  { seekTable := table
    stream := (file.contents.drop startFrame).flatten
    schedule := file.reads }

/-- A decoder that hands out at most `limit` further bytes. -/
structure Take where
  inner : Decoder
  limit : Nat

namespace Take

def read (source : Take) (want : Nat) : Bytes × Take :=
  if source.limit = 0 then ([], source)
  else
    let got := source.inner.read (min want source.limit)
    (got.1, { inner := got.2, limit := source.limit - got.1.length })

/-- What the source still hands out, read to its end. -/
def ahead (source : Take) : Bytes :=
  (source.inner.stream.drop source.inner.pos).take source.limit

/-- A read hands out the head of what is ahead, and leaves the rest of it. -/
theorem read_spec (source : Take) (want : Nat) :
    (source.read want).1 ++ (source.read want).2.ahead = source.ahead ∧
      (source.read want).1.length ≤ want ∧
      ((source.read want).1 = [] → want = 0 ∨ source.ahead = []) ∧
      (source.read want).2.inner.stream = source.inner.stream := by
  unfold read
  by_cases hlimit : source.limit = 0
  · rw [if_pos hlimit]
    refine ⟨rfl, by simp, fun _ => Or.inr ?_, rfl⟩
    simp [ahead, hlimit]
  · rw [if_neg hlimit]
    simp only [Decoder.read, ahead]
    generalize hmost : min (min want source.limit)
      (source.inner.stream.length - source.inner.pos) = most
    generalize hn : shortRead (source.inner.schedule source.inner.tick) most = n
    have hle : n ≤ most := hn ▸ shortRead_le _ _
    have hlen : ((source.inner.stream.drop source.inner.pos).take n).length = n := by
      rw [List.length_take, List.length_drop]
      omega
    refine ⟨?_, by omega, ?_, trivial⟩
    · obtain ⟨more, hmore⟩ : ∃ more, source.limit = n + more := ⟨source.limit - n, by omega⟩
      rw [hlen, hmore, Nat.add_sub_cancel_left, ← List.drop_drop, ← List.take_add]
    · intro hnil
      have hzero : n = 0 := by
        rw [← hlen, hnil]
        rfl
      have hmost0 : most = 0 := shortRead_eq_zero_iff.mp (hn.trans hzero)
      rcases Nat.eq_zero_or_pos want with hwant | hwant
      · exact Or.inl hwant
      · right
        rw [List.drop_eq_nil_of_le (by omega)]
        simp

end Take

end SeekZstdSep
