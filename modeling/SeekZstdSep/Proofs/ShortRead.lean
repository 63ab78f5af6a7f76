/-
Module: SeekZstdSep.Proofs.ShortRead
Purpose: What a frame read with a single read comes to where the read is short: the bytes that
  were read, and NUL for the rest. That is the frame exactly when the rest of it is NUL, and an
  append writes what it read.
Trusted boundary: the library, as `Zeekstd` has it
Main exports: NulFrom, decompressedRangeInto_exact_iff, readFrame_exact_iff, short_reads_iff
-/
import SeekZstdSep.Proofs.Append

namespace SeekZstdSep

open Lib

/-! ### A buffer filled with NUL -/

/-- From byte `k` on the region is NUL. -/
def NulFrom (k : Nat) (region : Bytes) : Prop := ∀ byte ∈ region.drop k, byte = 0

instance (k : Nat) (region : Bytes) : Decidable (NulFrom k region) :=
  inferInstanceAs (Decidable (∀ byte ∈ region.drop k, byte = 0))

/-- What a buffer for `len` bytes holds after the first `k` of the region were read into it. -/
def bufferAfter (region : Bytes) (len k : Nat) : Bytes :=
  region.take k ++ List.replicate (len - k) 0

theorem bufferAfter_eq_iff {region : Bytes} {len k : Nat} (hk : k ≤ region.length)
    (hlen : region.length ≤ len) :
    bufferAfter region len k = region ↔ region.length = len ∧ NulFrom k region := by
  constructor
  · intro heq
    have hlength := congrArg List.length heq
    rw [bufferAfter, List.length_append, List.length_take, List.length_replicate,
      Nat.min_eq_left hk] at hlength
    refine ⟨by omega, ?_⟩
    have hdrop := congrArg (List.drop k) heq
    rw [bufferAfter, List.drop_left' (by rw [List.length_take, Nat.min_eq_left hk])] at hdrop
    intro byte hbyte
    rw [← hdrop] at hbyte
    exact List.eq_of_mem_replicate hbyte
  · rintro ⟨hlength, hnul⟩
    have hrest : List.replicate (len - k) 0 = region.drop k := by
      rw [← hlength, ← List.length_drop]
      exact (List.eq_replicate_of_mem hnul).symm
    rw [bufferAfter, hrest, List.take_append_drop]

/-! ### The reads -/

/-- The region of a decoder's stream. -/
def Decoder.region (decoder : Decoder) (start len : Nat) : Bytes :=
  (decoder.stream.drop start).take len

/-- How many bytes of the region the next read hands out. -/
def Decoder.handsOut (decoder : Decoder) (start len : Nat) : Nat :=
  shortRead (decoder.schedule decoder.tick) (decoder.region start len).length

theorem decompressedRangeInto_eq (decoder : Decoder) (start len : Nat) :
    (decompressedRangeInto decoder start len).1 =
      bufferAfter (decoder.region start len) len (decoder.handsOut start len) := by
  have hlength : (decoder.region start len).length =
      min len (decoder.stream.length - start) := by
    rw [Decoder.region, List.length_take, List.length_drop]
  rw [decompressedRangeInto, bufferAfter, Decoder.handsOut, hlength]
  simp only [Decoder.seek, Decoder.read]
  generalize hn : shortRead (decoder.schedule decoder.tick)
    (min len (decoder.stream.length - start)) = n
  have hle : n ≤ min len (decoder.stream.length - start) := hn ▸ shortRead_le _ _
  rw [Decoder.region, List.take_take, Nat.min_eq_left (by omega), List.length_take,
    List.length_drop, Nat.min_eq_left (by omega)]

/-- A region is delivered exactly when the read fills the buffer but for bytes that are NUL. -/
theorem decompressedRangeInto_exact_iff (decoder : Decoder) (start len : Nat) :
    (decompressedRangeInto decoder start len).1 = decoder.region start len ↔
      (decoder.region start len).length = len ∧
        NulFrom (decoder.handsOut start len) (decoder.region start len) := by
  rw [decompressedRangeInto_eq]
  apply bufferAfter_eq_iff
  · exact shortRead_le _ _
  · rw [Decoder.region, List.length_take]
    exact Nat.min_le_left _ _

namespace FrameReader

/-- The decoder a frame is read with. -/
def decoderOn (reader : FrameReader) (content : Bytes) : Decoder :=
  (reader.frameWindow content).source.inner

/-- What the read of a frame leaves unread is NUL: the frame holds what the seek table says, and
nothing else than NUL behind the bytes the decoder hands out. -/
def ReadsExactly (reader : FrameReader) (index : Nat) (content : Bytes) : Prop :=
  let len := reader.table.frameSizeDecomp index
  len ≤ content.length ∧
    NulFrom ((reader.decoderOn content).handsOut 0 len) (content.take len)

instance (reader : FrameReader) (index : Nat) (content : Bytes) :
    Decidable (reader.ReadsExactly index content) :=
  inferInstanceAs (Decidable (_ ∧ _))

variable {reader : FrameReader} {index : Nat} {content : Bytes}

/-- A frame that holds something is read as the region it is. -/
theorem readFrame_eq (hframe : reader.frame index = .ok content) :
    ∃ reader', reader.readFrame index =
      .ok ((decompressedRangeInto (reader.decoderOn content) 0
        (reader.table.frameSizeDecomp index)).1, reader') := by
  rw [readFrame]
  by_cases hlen : reader.table.frameSizeDecomp index = 0
  · rw [if_pos hlen, hlen]
    refine ⟨reader, ?_⟩
    rw [decompressedRangeInto_eq]
    simp [bufferAfter, Decoder.region]
  · rw [if_neg hlen, hframe]
    exact ⟨_, rfl⟩

/-- A frame is read as it is exactly when the read leaves nothing but NUL unread. -/
theorem readFrame_exact_iff (hframe : reader.frame index = .ok content) :
    (∀ buf reader', reader.readFrame index = .ok (buf, reader') →
        buf = content.take (reader.table.frameSizeDecomp index)) ↔
      reader.ReadsExactly index content := by
  obtain ⟨reader', hread⟩ := readFrame_eq hframe
  have hregion : (reader.decoderOn content).region 0 (reader.table.frameSizeDecomp index) =
      content.take (reader.table.frameSizeDecomp index) := rfl
  have hexact := decompressedRangeInto_exact_iff (reader.decoderOn content) 0
    (reader.table.frameSizeDecomp index)
  rw [hregion, List.length_take, min_eq_left_iff] at hexact
  rw [ReadsExactly, ← hexact, hread]
  constructor
  · exact fun hall => hall _ _ rfl
  · rintro heq buf reader'' hok
    cases hok
    exact heq

end FrameReader

/-! ### What an append writes -/

/-- What an append writes is what the last frame held, where it takes that back, what ends a
fragment, and the data. -/
def WritesBack (find : Finder UInt8) (separator : Option Bytes) (n : Nat) (old region : Bytes)
    (data written : Bytes) : Prop :=
  written = (if find.Full n old then [] else region ++ glueOf find separator old) ++ data

/-- The bytes read of the last frame are written back as they were unless something of them is
not what was there, and the frame is not left where it is. -/
theorem writesBack_iff {n : Nat} {old region data written : Bytes}
    (h : written = (if find.Full n old then [] else old ++ glueOf find separator old) ++ data) :
    WritesBack find separator n old region data written ↔ find.Full n old ∨ old = region := by
  rw [WritesBack, h]
  by_cases hfull : find.Full n old
  · simp [hfull]
  · simp [hfull, List.append_cancel_right_eq]

/-- A region is read as what it holds exactly when the read leaves nothing but NUL of it unread,
for a region of a decoder and for a frame. An append writes nothing else than what was in the
file, the separator and the data exactly when the last frame was read so, or what was read of it
looks full and the frame is left as it is. -/
theorem short_reads_iff (zeek : Zeekstd) :
    (∀ (decoder : Decoder) (start len : Nat),
      (decompressedRangeInto decoder start len).1 = decoder.region start len ↔
        (decoder.region start len).length = len ∧
          NulFrom (decoder.handsOut start len) (decoder.region start len)) ∧
    (∀ (reader : FrameReader) (index : Nat) (content : Bytes),
      reader.frame index = .ok content →
        ((∀ buf reader', reader.readFrame index = .ok (buf, reader') →
            buf = content.take (reader.table.frameSizeDecomp index)) ↔
          reader.ReadsExactly index content)) ∧
    ∀ (f f' : File) (data : Input) (find : Finder UInt8)
      (separator : Option Bytes) (onMissing : OnMissingSeparator) (level : Int)
      (records : Option Nat) (trust : Bool) (result : AppendResult), data.data ≠ [] →
      appendRecordsInner zeek f data find separator onMissing level records trust none =
        (.ok result, f') →
      ∃ target old reader', ∃ frames : List (Stored zeek.toFrameFormat),
        appendTarget zeek f find records trust none = .ok target ∧
        target.reader.readFrame target.last = .ok (old, reader') ∧
        f'.bytes =
          (f.setLen (if find.Full target.n old then target.table.frameEndComp target.last
            else target.table.frameStartComp target.last)).bytes ++ bodyOf frames ++
          zeek.serialize (target.table.take (if find.Full target.n old then target.last + 1
            else target.last) ++ tableOf frames) ∧
        ∀ content, target.reader.frame target.last = .ok content →
          (WritesBack find separator target.n old
              (content.take (target.reader.table.frameSizeDecomp target.last)) data.data
              (frames.map Stored.content).flatten ↔
            find.Full target.n old ∨ target.reader.ReadsExactly target.last content) := by
  refine ⟨decompressedRangeInto_exact_iff, fun _ _ _ => FrameReader.readFrame_exact_iff, ?_⟩
  intro f f' data find separator onMissing level records trust result hdata hok
  obtain ⟨target, old, reader', frames, htarget, hread, hgroups, -, rfl⟩ :=
    appendRecordsInner_writes hdata hok
  have hwritten : (frames.map Stored.content).flatten =
      (if find.Full target.n old then [] else old ++ glueOf find separator old) ++ data.data := by
    rw [hgroups, Finder.flatten_groups (appendTarget_fresh htarget).2]
  refine ⟨target, old, reader', frames, htarget, hread, rfl, ?_⟩
  intro content hframe
  rw [writesBack_iff hwritten, ← FrameReader.readFrame_exact_iff hframe, hread]
  constructor
  · rintro (hfull | heq)
    · exact Or.inl hfull
    · right
      rintro buf reader'' hok
      cases hok
      exact heq
  · rintro (hfull | hexact)
    · exact Or.inl hfull
    · exact Or.inr (hexact _ _ rfl)

/-- Two records and the start of a third, of which every read hands out one byte: `a`, `b`;
`c` and the start of a record. -/
def oneByteArchive : Archive storedZeekstd :=
  { storedArchive [[97, 10, 98, 10], [99, 10, 100]] with reads := fun _ => 0 }

/-- A reader of its frames. -/
def oneByteReader : FrameReader :=
  FrameReader.new storedZeekstd oneByteArchive.file (tableOf oneByteArchive.frames)

/-- `e`, appended to it with what ends its fragment. -/
def oneByteAppended : Except Error AppendResult × File :=
  appendRecordsWithOpts storedZeekstd oneByteArchive.file
    ({ data := [101, 10], schedule := fun _ => some 0 } : Input) [10] .insert 3 (some 2) {}

theorem short_reads_iff_fragmentArchive :
    (∀ buf reader', (FrameReader.new storedZeekstd fragmentArchive.file
        (tableOf fragmentArchive.frames)).readFrame 2 = .ok (buf, reader') → buf = [99]) ∧
      ∃ target old reader',
        appendTarget storedZeekstd fragmentArchive.file lineBoundary.find (some 1) false none =
          .ok target ∧
        target.reader.readFrame target.last = .ok (old, reader') := by
  obtain ⟨-, hframe, happend⟩ := short_reads_iff storedZeekstd
  constructor
  · exact (hframe _ 2 [99] rfl).mpr (by decide +kernel)
  · have hrun : fragmentAppended.1 = .ok {
        recordsPerFrame := 1, countValidated := true, frameCount := 5, lastFrame := 4
        lastComp := 11, lastDecomp := 2, lastRecords := some 1, lastWhole := true
        checksum := true } := by decide +kernel
    obtain ⟨target, old, reader', -, htarget, hread, -⟩ :=
      happend fragmentArchive.file fragmentAppended.2 byteByByte
        lineBoundary.find (some [10]) .insert 3 (some 1) false _ (by decide) (Prod.ext hrun rfl)
    exact ⟨target, old, reader', htarget, hread⟩

/-- Of the last frame, which holds `c` and the start of a record, one byte is read; the append
writes two bytes of NUL behind it, and the start of the record is gone. -/
theorem short_reads_become_data_oneByteArchive :
    (∃ reader', oneByteReader.readFrame 1 = .ok ([99, 0, 0], reader')) ∧
      ¬ (∀ buf reader', oneByteReader.readFrame 1 = .ok (buf, reader') → buf = [99, 10, 100]) ∧
      oneByteAppended.1.isOk = true ∧
      oneByteAppended.2.bytes =
        (storedArchive [[97, 10, 98, 10], [99, 0, 0, 10, 101, 10]]).file.bytes := by
  have hread : ∃ reader', oneByteReader.readFrame 1 = .ok ([99, 0, 0], reader') := ⟨_, rfl⟩
  refine ⟨hread, ?_, by decide +kernel, by decide +kernel⟩
  intro hall
  obtain ⟨reader', hread⟩ := hread
  exact absurd (hall _ _ hread) (by decide)

end SeekZstdSep
