/-
Module: SeekZstdSep.Core.Zeekstd
Purpose: The seekable zstd library the crate is written over, as a parameter: seek tables, the
  decoder of a file and the encoder of its frames. The files it is used on are bytes.
Trusted boundary: the fields of `FrameFormat` and `Zeekstd`, which say of the library what its
  documentation does. A seek table behind its frames reads back as what was written; a decoder
  hands out what a frame holds, or fails, and returns either way (it may not where the table says
  more of the last frame than that holds, which is outside of the model); an encoder ends a frame
  where it is told to and nowhere below its frame limit. The target of an edit never fails to be
  read, written or shortened.
Main exports: FrameFormat, Stored, Zeekstd, File, Archive, Encoder, ioCopy
-/
import SeekZstdSep.Core.Reader

namespace SeekZstdSep

/-- The four bytes every zstd frame starts with. -/
def zstdMagic : Bytes := [0x28, 0xb5, 0x2f, 0xfd]

/-- The four bytes a seek table starts with. -/
def skippableMagic : Bytes := [0x5e, 0x2a, 0x4d, 0x18]

/-- Bit 2 of the frame header descriptor, which follows the magic number. -/
def headerChecksum (frame : Bytes) : Bool := (frame.getD 4 0) &&& 4 != 0

/-- What the library writes to a file: frames, and the seek table behind them. -/
structure FrameFormat where
  /-- `IsFrame bytes content`: `bytes` is one zstd frame and `content` what it decompresses to. -/
  IsFrame : Bytes → Bytes → Prop
  magic : ∀ {bytes content}, IsFrame bytes content →
    bytes.take 4 = zstdMagic ∧ 5 ≤ bytes.length
  /-- A frame says itself where it ends. -/
  frame_unique : ∀ {bytes content bytes' content' more more'}, IsFrame bytes content →
    IsFrame bytes' content' → bytes ++ more = bytes' ++ more' → bytes = bytes'
  serialize : SeekTable → Bytes
  /-- A seek table is a skippable frame. -/
  serialize_magic : ∀ table, (serialize table).take 4 = skippableMagic
  /-- `SEEKABLE_MAX_FRAMES`. -/
  maxFrames : Nat
  maxFrames_le : maxFrames ≤ u32Max

/-- A frame of a file, with what it decompresses to. A seek table holds both lengths as `u32`. -/
structure Stored (format : FrameFormat) where
  bytes : Bytes
  content : Bytes
  isFrame : format.IsFrame bytes content
  bytes_le : bytes.length ≤ u32Max
  content_le : content.length ≤ u32Max

/-- The entry of a frame in a seek table. -/
def Stored.entry {format : FrameFormat} (frame : Stored format) : Nat × Nat :=
  (frame.bytes.length, frame.content.length)

/-- The seek table of some frames. -/
def tableOf {format : FrameFormat} (frames : List (Stored format)) : SeekTable :=
  frames.map Stored.entry

/-- The bytes of some frames. -/
def bodyOf {format : FrameFormat} (frames : List (Stored format)) : Bytes :=
  (frames.map Stored.bytes).flatten

/-- The bytes of a file of some frames. -/
def bytesOf {format : FrameFormat} (frames : List (Stored format)) : Bytes :=
  bodyOf frames ++ format.serialize (tableOf frames)

/-- The library. -/
structure Zeekstd extends FrameFormat where
  fromSeekable : Bytes → Except Error SeekTable
  fromSeekable_bytesOf : ∀ frames : List (Stored toFrameFormat), frames.length ≤ maxFrames →
    fromSeekable (bytesOf frames) = .ok (tableOf frames)
  fromSeekable_length : ∀ {bytes table}, fromSeekable bytes = .ok table →
    table.length ≤ maxFrames
  /-- What a decoder over a file and its table hands out from where a frame starts to where it
  ends, or what it fails with there. Its reads are assumed to return. -/
  decodeFrame : Bytes → SeekTable → Nat → Except Error Bytes
  decodeFrame_bytesOf : ∀ (frames : List (Stored toFrameFormat)) {i : Nat}
    (hi : i < frames.length), frames.length ≤ maxFrames →
    decodeFrame (bytesOf frames) (tableOf frames) i = .ok frames[i].content
  /-- The frames an encoder makes of what it is given before it is told to end the frame. -/
  encode : Bool → Int → Bytes → Except Error (List (Stored toFrameFormat))
  encode_content : ∀ {checksum level data frames}, encode checksum level data = .ok frames →
    (frames.map Stored.content).flatten = data
  encode_ne_nil : ∀ {checksum level data frames}, encode checksum level data = .ok frames →
    frames ≠ []
  encode_checksum : ∀ {checksum level data frames}, encode checksum level data = .ok frames →
    ∀ frame ∈ frames, headerChecksum frame.bytes = checksum
  /-- How much is encoded as one frame: `SEEKABLE_MAX_FRAME_SIZE`. -/
  frameLimit : Nat
  encode_one : ∀ {checksum level data frames}, encode checksum level data = .ok frames →
    data.length ≤ frameLimit → frames.length = 1
  /-- What is more than a frame can hold is split. -/
  encode_split : ∀ {checksum level data frames}, encode checksum level data = .ok frames →
    frameLimit < data.length → 1 < frames.length
  /-- What an encoder that is dropped has passed on of the frames it made. -/
  passedOn : List (Stored toFrameFormat) → Bytes
  passedOn_prefix : ∀ frames, passedOn frames <+: bodyOf frames

/-- A file: its bytes, how much each read of a decoder over it hands out, and for every read of
the file itself how much that hands out, or that it fails. -/
@[ext]
structure File where
  bytes : Bytes
  reads : Nat → Nat
  schedule : Nat → Option Nat

namespace File

/-- `set_len`. -/
def setLen (f : File) (len : Nat) : File :=
  { f with bytes := f.bytes.take len ++ List.replicate (len - f.bytes.length) 0 }

/-- `write_all` at the end of the file, which is where every edit writes. -/
def writeAll (f : File) (data : Bytes) : File := { f with bytes := f.bytes ++ data }

@[simp] theorem writeAll_bytes (f : File) (data : Bytes) :
    (f.writeAll data).bytes = f.bytes ++ data := rfl

@[simp] theorem writeAll_writeAll (f : File) (data data' : Bytes) :
    (f.writeAll data).writeAll data' = f.writeAll (data ++ data') := by
  simp [writeAll]

theorem setLen_bytes {f : File} {len : Nat} (h : len ≤ f.bytes.length) :
    (f.setLen len).bytes = f.bytes.take len := by
  rw [setLen, Nat.sub_eq_zero_of_le h, List.replicate_zero, List.append_nil]

end File

/-- A seekable file as the library lays it out. -/
structure Archive (zeek : Zeekstd) where
  frames : List (Stored zeek.toFrameFormat)
  count_le : frames.length ≤ zeek.maxFrames
  reads : Nat → Nat
  schedule : Nat → Option Nat

namespace Archive

variable {zeek : Zeekstd}

def file (archive : Archive zeek) : File :=
  { bytes := bytesOf archive.frames, reads := archive.reads, schedule := archive.schedule }

/-- What the frames decompress to. -/
def contents (archive : Archive zeek) : List Bytes := archive.frames.map Stored.content

/-- What the file decompresses to. -/
def data (archive : Archive zeek) : Bytes := archive.contents.flatten

end Archive

/-! ### The encoder -/

/-- An encoder: what the frame it is on was given so far, and the frames it ended. -/
structure Encoder (zeek : Zeekstd) where
  checksum : Bool
  level : Int
  pending : Bytes := []
  ended : List (Stored zeek.toFrameFormat) := []

namespace Encoder

variable {zeek : Zeekstd}

/-- `write_all`, and `compress` alike. -/
def write (encoder : Encoder zeek) (data : Bytes) : Encoder zeek :=
  { encoder with pending := encoder.pending ++ data }

def endFrame (encoder : Encoder zeek) : Except Error (Encoder zeek) :=
  match zeek.encode encoder.checksum encoder.level encoder.pending with
  | .error e => .error e
  | .ok frames =>
      if zeek.maxFrames < (encoder.ended ++ frames).length then .error .frameIndexTooLarge
      else .ok { encoder with pending := [], ended := encoder.ended ++ frames }

/-- `finish`: ends the frame and writes the seek table. -/
def finish (encoder : Encoder zeek) : Except Error Bytes :=
  match encoder.endFrame with
  | .error e => .error e
  | .ok encoder => .ok (bytesOf encoder.ended)

end Encoder

/-! ### Copying -/

/-- `std::io::copy` from a source, with what it passed on before it failed. -/
def ioCopyFuel {R : Type} [Read R] : Nat → R → Bytes → Except Error Unit × Bytes
  | 0, _, copied => (.error .fuel, copied)
  | fuel + 1, source, copied =>
      match Read.read source readBufSize with
      | .error e => (.error e, copied)
      | .ok (bytes, source) =>
          if bytes.isEmpty then (.ok (), copied) else ioCopyFuel fuel source (copied ++ bytes)

def ioCopy {R : Type} [Read R] (source : R) : Except Error Unit × Bytes :=
  ioCopyFuel (Read.budget source + 1) source []

end SeekZstdSep
