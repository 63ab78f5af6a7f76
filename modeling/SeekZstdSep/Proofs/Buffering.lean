/-
Module: SeekZstdSep.Proofs.Buffering
Purpose: What a compression has in its buffer at each of its reads, and the limit it holds against
  it: what is past the last record end, and not the whole records that wait for their frame.
Trusted boundary: the library, as `Zeekstd` has it
Main exports: LoopsTo, buffered_le_iff
-/
import SeekZstdSep.Core.StoredFrames
import SeekZstdSep.Proofs.Loop

namespace SeekZstdSep

open Lib

variable {zeek : Zeekstd} {R : Type} {find : Finder UInt8}

namespace Compression

/-- The states a compression comes to in front of its reads. -/
inductive LoopsTo [Read R] (find : Finder UInt8) (isSame : Bool)
    (frameSize limitMultiplier : Nat) (start : Compression zeek R) : Compression zeek R → Prop where
  | start : LoopsTo find isSame frameSize limitMultiplier start start
  | pass {state : Compression zeek R} {stream : Stream R} {state' : Compression zeek R}
      (before : LoopsTo find isSame frameSize limitMultiplier start state)
      (fills : state.stream.fill = .ok (true, stream))
      (within : stream.unscanned ≤ saturatingMul frameSize limitMultiplier)
      (scans : scanFuel find isSame frameSize stream.unscanned { state with stream := stream } =
        .ok state') :
      LoopsTo find isSame frameSize limitMultiplier start (state'.dropProcessed isSame frameSize)

section LoopsTo

variable [Read R] {isSame : Bool} {frameSize limitMultiplier : Nat}
  {start state state' : Compression zeek R} {stream : Stream R}

/-- They are the states the loop goes on in. -/
theorem loopFuel_pass {fuel : Nat} (fills : state.stream.fill = .ok (true, stream))
    (within : stream.unscanned ≤ saturatingMul frameSize limitMultiplier)
    (scans : scanFuel find isSame frameSize stream.unscanned { state with stream := stream } =
      .ok state') :
    loopFuel find isSame frameSize limitMultiplier (fuel + 1) state =
      loopFuel find isSame frameSize limitMultiplier fuel
        (state'.dropProcessed isSame frameSize) := by
  have hin : ¬ saturatingMul frameSize limitMultiplier < stream.unscanned := by omega
  rw [loopFuel, fills]
  simp only [hin, and_false, if_false, scans]

theorem fill_of_read {bytes : Bytes} {source : R}
    (hread : Read.read state.stream.source readBufSize = .ok (bytes, source)) (hne : bytes ≠ []) :
    state.stream.fill =
      .ok (true, { state.stream with source := source, buf := state.stream.buf ++ bytes }) := by
  rw [Stream.fill, hread]
  simp only [List.length_eq_zero_iff, hne, if_false]

/-- A fill that goes on is a read that handed something out. -/
theorem fill_eq_ok (fills : state.stream.fill = .ok (true, stream)) :
    ∃ bytes source, Read.read state.stream.source readBufSize = .ok (bytes, source) ∧
      bytes ≠ [] ∧
      stream = { state.stream with source := source, buf := state.stream.buf ++ bytes } := by
  rw [Stream.fill] at fills
  cases hread : Read.read state.stream.source readBufSize with
  | error e =>
      rw [hread] at fills
      cases fills
  | ok got =>
      rw [hread] at fills
      simp only at fills
      split at fills
      · cases fills
      · next hlength =>
          cases fills
          exact ⟨got.1, got.2, rfl, mt List.length_eq_zero_iff.mpr hlength, rfl⟩

variable [LawfulRead R] {reader : R} {opts : Option CompressOptions}

/-- What was read is behind a state the loop comes to. -/
theorem LoopsTo.reading
    (h : LoopsTo find isSame frameSize limitMultiplier (.start zeek opts reader) state) :
    ∃ before, chunks reader = before ++ chunks state.stream.source ∧
      ¬ Overruns find (saturatingMul frameSize limitMultiplier) [] before ∧
      Reading find isSame frameSize (startDue find isSame frameSize (.start zeek opts reader))
        (.start zeek opts reader) before.flatten state := by
  induction h with
  | start => exact ⟨[], rfl, not_overruns_nil, reading_start reader opts⟩
  | @pass state stream state' _ fills within scans ih =>
      obtain ⟨before, hchunks, hin, hreading⟩ := ih
      obtain ⟨bytes, source, hread, hne, rfl⟩ := fill_eq_ok fills
      have hunscanned := hreading.unscanned_eq bytes
      have hscan := hreading.scan hread hne
      simp only [Stream.unscanned, hunscanned] at within
      cases hfed : (Compression.start zeek opts reader).encoder.feedAll
          (Compression.start zeek opts reader).writtenFrame
          ((find.gather (startDue find isSame frameSize (.start zeek opts reader))).records
            (before.flatten ++ bytes)) with
      | error e =>
          have herror := hscan.1 e hfed
          rw [filled] at herror
          simp only [Stream.unscanned] at scans
          rw [herror] at scans
          cases scans
      | ok fed =>
          obtain ⟨state₁, hscan₁, hreading₁, rfl⟩ := hscan.2 fed hfed
          rw [filled] at hscan₁
          simp only [Stream.unscanned] at scans
          rw [hscan₁] at scans
          cases scans
          rw [hreading₁.dropProcessed]
          refine ⟨before ++ [bytes], ?_, ?_, ?_⟩
          · rw [hchunks, chunks_of_read hread hne, List.append_assoc]
            rfl
          · rw [overruns_append_iff, List.nil_append, overruns_cons_iff]
            rintro (hover | hover | hover)
            · exact hin hover
            · omega
            · exact not_overruns_nil hover
          · rw [List.flatten_append, List.flatten_cons, List.flatten_nil, List.append_nil]
            exact hreading₁

/-- Where what was read does not overrun the limit and its frames can be written, the loop comes
to what is behind it. -/
theorem LoopsTo.of_chunks {before after : List Bytes} (hchunks : chunks reader = before ++ after)
    (hin : ¬ Overruns find (saturatingMul frameSize limitMultiplier) [] before)
    {fed : Encoder zeek × Nat}
    (hfed : (Compression.start zeek opts reader).encoder.feedAll
      (Compression.start zeek opts reader).writtenFrame
      ((find.gather (startDue find isSame frameSize (.start zeek opts reader))).records
        before.flatten) = .ok fed) :
    ∃ state, LoopsTo find isSame frameSize limitMultiplier (.start zeek opts reader) state ∧
      chunks state.stream.source = after ∧
      Reading find isSame frameSize (startDue find isSame frameSize (.start zeek opts reader))
        (.start zeek opts reader) before.flatten state := by
  induction before using List.reverseRecOn generalizing after fed with
  | nil => exact ⟨_, .start, hchunks, reading_start reader opts⟩
  | append_singleton before chunk ih =>
      rw [overruns_append_iff, List.nil_append, overruns_cons_iff] at hin
      rw [List.flatten_append, List.flatten_cons, List.flatten_nil, List.append_nil] at hfed ⊢
      cases hbefore : (Compression.start zeek opts reader).encoder.feedAll
          (Compression.start zeek opts reader).writtenFrame
          ((find.gather (startDue find isSame frameSize (.start zeek opts reader))).records
            before.flatten) with
      | error e =>
          rw [Finder.records_append, Encoder.feedAll_append, hbefore] at hfed
          cases hfed
      | ok fed₁ =>
          rw [List.append_assoc, List.singleton_append] at hchunks
          obtain ⟨state, hloops, hahead, hreading⟩ :=
            ih hchunks (fun hover => hin (Or.inl hover)) hbefore
          obtain ⟨source, hread, hne, hafter⟩ := chunks_eq_cons hahead
          obtain ⟨state', hscan, hreading', hsource⟩ := (hreading.scan hread hne).2 fed hfed
          have hnext := LoopsTo.pass hloops (fill_of_read hread hne)
            (Nat.le_of_not_lt fun hover => ?_) hscan
          · rw [hreading'.dropProcessed] at hnext
            exact ⟨state', hnext, hsource ▸ hafter, hreading'⟩
          · simp only [Stream.unscanned, hreading.unscanned_eq] at hover
            exact hin (Or.inr (Or.inl hover))

end LoopsTo

/-- Each read that a compression goes on after leaves no more in its buffer than the limit. -/
def BoundedBuffer [Read R] (find : Finder UInt8) (frameSize limitMultiplier : Nat)
    (start : Compression zeek R) : Prop :=
  ∀ state stream, LoopsTo find true frameSize limitMultiplier start state →
    state.stream.fill = .ok (true, stream) →
    stream.unscanned ≤ saturatingMul frameSize limitMultiplier →
    stream.buf.length ≤ frameSize * limitMultiplier

variable {frameSize limitMultiplier : Nat} {reader : Input} {opts : Option CompressOptions}

/-- What is read and not yet written is what is behind the last full frame. It keeps to the limit
exactly where, at every read the loop goes on after, these bytes do, the whole records among them
as well as what is past the last. -/
theorem buffered_le_iff :
    BoundedBuffer find frameSize limitMultiplier (.start zeek opts reader) ↔
      ∀ before chunk after, chunks reader = before ++ chunk :: after →
        ¬ Overruns find (saturatingMul frameSize limitMultiplier) [] (before ++ [chunk]) →
        (∃ fed, (Compression.start zeek opts reader).encoder.feedAll 0
          ((find.gather (ruleOf find true (heldCount (opts.getD {}).maxOfSeparator) frameSize
            (ioCopy reader).2).due).records before.flatten) = .ok fed) →
        ((find.gather (ruleOf find true (heldCount (opts.getD {}).maxOfSeparator) frameSize
            (ioCopy reader).2).due).rest before.flatten).length + chunk.length ≤
          frameSize * limitMultiplier := by
  have hrule : ∀ before after, chunks reader = before ++ after →
      (ioCopy reader).2 = before.flatten ++ after.flatten := by
    intro before after hchunks
    rw [← flatten_chunks, hchunks, List.flatten_append]
  constructor
  · rintro hbound before chunk after hchunks hin ⟨fed, hfed⟩
    obtain ⟨hrecords, hrest⟩ :=
      @gather_startDue zeek _ find _ reader frameSize true opts _ _ (hrule _ _ hchunks)
    rw [overruns_append_iff, overruns_cons_iff, List.nil_append] at hin
    rw [← hrecords] at hfed
    obtain ⟨state, hloops, hahead, hreading⟩ :=
      LoopsTo.of_chunks hchunks (fun hover => hin (Or.inl hover)) hfed
    obtain ⟨source, hread, hne, -⟩ := chunks_eq_cons hahead
    have hle := hbound state _ hloops (fill_of_read hread hne) (Nat.le_of_not_lt ?_)
    · rwa [List.length_append, hreading.buf, hrest] at hle
    · intro hover
      simp only [Stream.unscanned, hreading.unscanned_eq] at hover
      exact hin (Or.inr (Or.inl hover))
  · intro hwaiting state stream hloops hfill hwithin
    obtain ⟨before, hchunks, hin, hreading⟩ := hloops.reading
    obtain ⟨bytes, source, hread, hne, rfl⟩ := fill_eq_ok hfill
    rw [chunks_of_read hread hne] at hchunks
    obtain ⟨hrecords, hrest⟩ :=
      @gather_startDue zeek _ find _ reader frameSize true opts _ _ (hrule _ _ hchunks)
    have hfed := hreading.fed
    rw [hrecords] at hfed
    have hle := hwaiting before bytes _ hchunks ?_ ⟨_, hfed⟩
    · rwa [List.length_append, hreading.buf, hrest]
    · simp only [Stream.unscanned, hreading.unscanned_eq] at hwithin
      rw [overruns_append_iff, overruns_cons_iff, List.nil_append]
      rintro (hover | hover | hover)
      · exact hin hover
      · omega
      · exact not_overruns_nil hover

end Compression

/-- Three lines, read one at a time. -/
def lineByLine : Input := { data := [97, 10, 98, 10, 99, 10], schedule := fun _ => some 1 }

/-- The compression of five lines to a frame, once `read` of them is read, in `tick` reads. -/
def lineByLineRead (read left : Bytes) (tick lastEnd count : Nat) :
    Compression storedZeekstd Input :=
  { encoder := { checksum := true, level := 0 }
    stream := {
      source := { data := left, schedule := fun _ => some 1, tick := tick }
      buf := read
      lastEnd := lastEnd }
    frameEnd := lastEnd
    maxOfSeparator := 5
    cntOfSeparator := count }

/-- With five lines to a frame the second line is buffered behind the first, twice the limit. -/
theorem buffered_past_limit_lineByLine :
    ¬ Compression.BoundedBuffer lineBoundary.find 2 1
      (.start storedZeekstd (some { maxOfSeparator := some 5 }) lineByLine) := by
  intro hbound
  have hfill : (lineByLineRead [] [97, 10, 98, 10, 99, 10] 0 0 0).stream.fill =
      .ok (true, (lineByLineRead [97, 10] [98, 10, 99, 10] 1 0 0).stream) := rfl
  have hscan : Compression.scanFuel lineBoundary.find true 2
      (lineByLineRead [97, 10] [98, 10, 99, 10] 1 0 0).stream.unscanned
      (lineByLineRead [97, 10] [98, 10, 99, 10] 1 0 0) =
        .ok (lineByLineRead [97, 10] [98, 10, 99, 10] 1 2 1) := rfl
  have hnext : (lineByLineRead [97, 10] [98, 10, 99, 10] 1 2 1).stream.fill =
      .ok (true, (lineByLineRead [97, 10, 98, 10] [99, 10] 2 2 1).stream) := rfl
  have hloops : Compression.LoopsTo lineBoundary.find true 2 1
      (.start storedZeekstd (some { maxOfSeparator := some 5 }) lineByLine)
      (lineByLineRead [97, 10] [98, 10, 99, 10] 1 2 1) :=
    .pass .start hfill (by decide) hscan
  have hbuffered := hbound _ _ hloops hnext (by decide)
  exact absurd hbuffered (by decide)

end SeekZstdSep
