/-
Module: SeekZstdSep.Proofs.Compress
Purpose: How the compressor scans its buffer: the runs of records a frame is due at, each
  encoded, and what is left behind the last.
Trusted boundary: the library, as `Zeekstd` has it
Main exports: Encoder.feedAll, ScannedTo, scan_settled, scan_first, dropProcessed_eq
-/
import SeekZstdSep.Core.Compress
import SeekZstdSep.Lib.Gather
import SeekZstdSep.Proofs.Cutter
import SeekZstdSep.Proofs.Encode

namespace SeekZstdSep

open Lib

variable {zeek : Zeekstd} {R : Type} {find : Finder UInt8}

/-! ### Frame after frame -/

namespace Encoder

/-- Compresses the frames, each ended by the next. -/
def feedAll : Encoder zeek → Nat → List Bytes → Except Error (Encoder zeek × Nat)
  | encoder, written, [] => .ok (encoder, written)
  | encoder, written, g :: gs =>
      match encoder.compressNext written g with
      | .error e => .error e
      | .ok encoder => feedAll encoder (written + 1) gs

theorem feedAll_append (encoder : Encoder zeek) (written : Nat) (gs gs' : List Bytes) :
    encoder.feedAll written (gs ++ gs') =
      (encoder.feedAll written gs).bind fun fed => fed.1.feedAll fed.2 gs' := by
  induction gs generalizing encoder written with
  | nil => rfl
  | cons g gs ih =>
      rw [List.cons_append, feedAll, feedAll]
      cases encoder.compressNext written g with
      | error e => rfl
      | ok encoder => exact ih encoder (written + 1)

/-- What is left to the end of the file is ended with it. -/
theorem finish_feedAll (encoder : Encoder zeek) {written : Nat} (hwritten : 0 < written)
    (gs : List Bytes) :
    ((encoder.feedAll written gs).bind fun fed => fed.1.finish) =
      (encodeAll { encoder with pending := [] } (encoder.pending :: gs)).map fun encoder =>
        bytesOf encoder.ended := by
  induction gs generalizing encoder written with
  | nil =>
      have hsame : ({ encoder with pending := [] } : Encoder zeek).write encoder.pending =
          encoder := rfl
      rw [feedAll, encodeAll, hsame, Except.bind]
      simp only [finish]
      cases encoder.endFrame with
      | error e => rfl
      | ok encoder => rfl
  | cons g gs ih =>
      have hsame : ({ encoder with pending := [] } : Encoder zeek).write encoder.pending =
          encoder := rfl
      rw [feedAll, encodeAll, hsame, compressNext, if_pos hwritten]
      cases hend : encoder.endFrame with
      | error e => rfl
      | ok encoder' =>
          have hpending : encoder'.pending = [] := by
            rw [endFrame] at hend
            split at hend
            · cases hend
            · split at hend
              · cases hend
              · cases hend
                rfl
          have hfresh : ({ encoder'.write g with pending := [] } : Encoder zeek) = encoder' := by
            rw [← hpending]
            rfl
          have hnext : (encoder'.write g).pending = g := by
            rw [write, hpending]
            rfl
          have hrest := ih (encoder'.write g) (Nat.succ_pos written)
          rw [hfresh, hnext] at hrest
          exact hrest

end Encoder

/-- What is left in the buffer is the last frame. -/
theorem Encoder.finish_rest (encoder : Encoder zeek) (written : Nat) (buf : Bytes) :
    (match (if buf.isEmpty then .ok encoder else encoder.compressNext written buf :
        Except Error (Encoder zeek)) with
      | .error e => .error e
      | .ok encoder => encoder.finish) =
      (encoder.feedAll written (if buf.isEmpty then [] else [buf])).bind fun fed =>
        fed.1.finish := by
  cases buf.isEmpty with
  | true => rfl
  | false =>
      simp only [Bool.false_eq_true, if_false, feedAll]
      cases encoder.compressNext written buf <;> rfl

/-- The frames of a file: an empty one where there is nothing. -/
def orEmpty (gs : List Bytes) : List Bytes := if gs.isEmpty then [[]] else gs

theorem Encoder.finish_feedAll_new (encoder : Encoder zeek) (hpending : encoder.pending = [])
    (gs : List Bytes) :
    ((encoder.feedAll 0 gs).bind fun fed => fed.1.finish) =
      (encoder.encodeAll (orEmpty gs)).map fun encoder => bytesOf encoder.ended := by
  cases gs with
  | nil =>
      have hsame : encoder.write [] = encoder := by
        rw [write, List.append_nil]
      rw [feedAll, orEmpty, List.isEmpty_nil, if_pos rfl, encodeAll, hsame, Except.bind]
      simp only [finish]
      cases encoder.endFrame with
      | error e => rfl
      | ok encoder => rfl
  | cons g gs =>
      have hfresh : ({ encoder.write g with pending := [] } : Encoder zeek) = encoder := by
        rw [← hpending]
        rfl
      have hnext : (encoder.write g).pending = g := by
        rw [write, hpending]
        rfl
      have hrest := (encoder.write g).finish_feedAll Nat.one_pos gs
      rw [hfresh, hnext] at hrest
      exact hrest

/-! ### The scan -/

namespace Compression

/-- How it is told that a frame is due, once that is settled. -/
def due (isSame : Bool) (frameSize : Nat) (state : Compression zeek R) : Nat → Nat → Bool :=
  if isSame = true ∧ state.maxOfSeparator ≠ -1 then
    fun i _ => decide (state.maxOfSeparator ≤ i)
  else fun _ size => decide (frameSize ≤ size)

/-- The first `i` records of the buffer are scanned, and no frame was due at any of them. -/
structure ScannedTo (find : Finder UInt8) (isSame : Bool) (due : Nat → Nat → Bool) (i : Nat)
    (state : Compression zeek R) : Prop where
  le : i ≤ (find.records state.stream.buf).length
  lastEnd : state.stream.lastEnd = find.offset state.stream.buf i
  frameEnd : state.frameEnd = find.offset state.stream.buf i
  count : state.cntOfSeparator = if isSame then i else 0
  before : ∀ j, 0 < j → j ≤ i → due j (find.offset state.stream.buf j) = false

/-- The state behind a scan that leaves `buf` in the buffer. -/
def scanned (find : Finder UInt8) (isSame : Bool) (state : Compression zeek R)
    (encoder : Encoder zeek) (written : Nat) (max : Int) (buf : Bytes) : Compression zeek R :=
  { encoder := encoder
    stream := {
      source := state.stream.source
      buf := buf
      lastEnd := find.offset buf (find.records buf).length }
    frameEnd := find.offset buf (find.records buf).length
    maxOfSeparator := max
    cntOfSeparator := if isSame then (find.records buf).length else 0
    writtenFrame := written }

variable {isSame : Bool} {frameSize i : Nat} {due : Nat → Nat → Bool}
  {state : Compression zeek R}

namespace ScannedTo

/-- Where no more records are found, all of the buffer is scanned. -/
theorem eq_length_of_none (h : ScannedTo find isSame due i state)
    (hnone : find (find.after state.stream.buf i) = none) :
    i = (find.records state.stream.buf).length :=
  Nat.le_antisymm h.le (find.length_le_of_find_after hnone)

theorem scanned_self (h : ScannedTo find isSame due (find.records state.stream.buf).length state) :
    state.scanned find isSame state.encoder state.writtenFrame state.maxOfSeparator
      state.stream.buf = state := by
  obtain ⟨encoder, stream, frameEnd, max, cnt, written⟩ := state
  obtain ⟨-, hlastEnd, hframeEnd, hcount, -⟩ := h
  simp only at hlastEnd hframeEnd hcount
  rw [scanned, ← hlastEnd, hframeEnd, ← hlastEnd, hcount]

theorem firstAt_none (h : ScannedTo find isSame due (find.records state.stream.buf).length state) :
    find.firstAt due state.stream.buf = none :=
  Finder.firstAt_eq_none_iff.mpr h.before

/-- What is scanned stays scanned when the buffer is filled. -/
theorem filled (h : ScannedTo find isSame due i state) (source : R) (bytes : Bytes) :
    ScannedTo find isSame due i
      { state with
        stream := { state.stream with source := source, buf := state.stream.buf ++ bytes } } where
  le := Nat.le_trans h.le (find.length_records_le_append _ _)
  lastEnd := by rw [h.lastEnd, find.offset_append _ _ h.le]
  frameEnd := by rw [h.frameEnd, find.offset_append _ _ h.le]
  count := h.count
  before j hpos hle := by
    rw [find.offset_append _ _ (Nat.le_trans hle h.le)]
    exact h.before j hpos hle

/-- The next record is scanned, where no frame is due at it. -/
theorem next (h : ScannedTo find isSame due i state)
    (hlt : i < (find.records state.stream.buf).length) {ended : Nat}
    (hended : ended = find.offset state.stream.buf (i + 1))
    (hdue : due (i + 1) ended = false) :
    ScannedTo find isSame due (i + 1)
      { state with
        stream := { state.stream with lastEnd := ended }
        frameEnd := ended
        cntOfSeparator := state.cntOfSeparator + if isSame then 1 else 0 } where
  le := hlt
  lastEnd := hended
  frameEnd := hended
  count := by
    rw [h.count]
    cases isSame <;> rfl
  before j hpos hle := by
    rcases Nat.lt_or_ge i j with hgt | hle'
    · obtain rfl : j = i + 1 := by omega
      rw [← hended]
      exact hdue
    · exact h.before j hpos hle'

/-- A frame is first due at the next record. -/
theorem firstAt_next (h : ScannedTo find isSame due i state)
    (hlt : i < (find.records state.stream.buf).length)
    (hdue : due (i + 1) (find.offset state.stream.buf (i + 1)) = true) :
    find.firstAt due state.stream.buf = some (i + 1) :=
  Finder.firstAt_eq_some_iff.mpr
    ⟨Nat.succ_pos i, hlt, hdue, fun j hpos hj => h.before j hpos (Nat.le_of_lt_succ hj)⟩

end ScannedTo

/-- Nothing is scanned of a buffer that was just cut. -/
theorem scannedTo_zero (hlastEnd : state.stream.lastEnd = 0) (hframeEnd : state.frameEnd = 0)
    (hcount : state.cntOfSeparator = 0) : ScannedTo find isSame due 0 state where
  le := Nat.zero_le _
  lastEnd := hlastEnd
  frameEnd := hframeEnd
  count := by
    rw [hcount]
    cases isSame <;> rfl
  before j hpos hle := by omega

/-- The next frame is written and its records are dropped. -/
def framed (state : Compression zeek R) (encoder : Encoder zeek) (max : Int) :
    Compression zeek R :=
  { encoder := encoder
    stream := state.stream.dropToLastEnd
    frameEnd := 0
    maxOfSeparator := max
    cntOfSeparator := 0
    writtenFrame := state.writtenFrame + 1 }

/-- A frame that is due by its bytes is written, where there is one. -/
theorem encodeFrameNotSame_eq (hpos : 0 < state.frameEnd) :
    state.encodeFrameNotSameSeparatorCnt frameSize =
      if frameSize ≤ state.frameEnd then
        match state.encoder.compressNext state.writtenFrame
            (state.stream.buf.take state.frameEnd) with
        | .error e => .error e
        | .ok encoder =>
            .ok (.encoded,
              { state.framed encoder state.maxOfSeparator with
                cntOfSeparator := state.cntOfSeparator })
      else .ok (.skipped, state) := by
  rw [encodeFrameNotSameSeparatorCnt]
  by_cases hdue : frameSize ≤ state.frameEnd
  · rw [if_neg (Nat.not_lt.mpr hdue), if_pos hdue, if_pos hpos]
    cases state.encoder.compressNext state.writtenFrame
        (state.stream.buf.take state.frameEnd) with
    | error e => rfl
    | ok encoder => rfl
  · rw [if_pos (Nat.lt_of_not_le hdue), if_neg hdue]

/-- Both ways to end a frame write it exactly when it is due. -/
theorem encodeFrame_settled (hsettled : isSame = false ∨ state.maxOfSeparator ≠ -1)
    (hpos : 0 < state.frameEnd) (hcount : state.cntOfSeparator = if isSame then i else 0) :
    (if isSame then state.encodeFrameOnSameSeparatorCnt frameSize
      else state.encodeFrameNotSameSeparatorCnt frameSize) =
      if state.due isSame frameSize i state.frameEnd then
        match state.encoder.compressNext state.writtenFrame
            (state.stream.buf.take state.frameEnd) with
        | .error e => .error e
        | .ok encoder => .ok (.encoded, state.framed encoder state.maxOfSeparator)
      else .ok (.skipped, state) := by
  cases isSame with
  | false =>
      have hrule : state.due false frameSize i state.frameEnd =
          decide (frameSize ≤ state.frameEnd) := rfl
      have hzero : state.cntOfSeparator = 0 := hcount
      simp only [Bool.false_eq_true, if_false, hrule, decide_eq_true_eq,
        encodeFrameNotSame_eq hpos, hzero]
      rfl
  | true =>
      have hmax : state.maxOfSeparator ≠ -1 := hsettled.resolve_left (by decide)
      have hcnt : state.cntOfSeparator = i := hcount
      have hrule : state.due true frameSize i state.frameEnd =
          decide (state.maxOfSeparator ≤ i) := by
        rw [Compression.due, if_pos ⟨rfl, hmax⟩]
      simp only [if_true, hrule, decide_eq_true_eq]
      rw [encodeFrameOnSameSeparatorCnt, if_neg hmax, hcnt]
      by_cases hdue : state.maxOfSeparator ≤ i
      · rw [if_neg (Int.not_lt.mpr hdue), if_pos hdue]
        rfl
      · rw [if_pos (Int.not_le.mp hdue), if_neg hdue]

/-- A scan writes the frames that are due in the buffer, and leaves what is behind the last. -/
theorem scan_settled (fuel : Nat) (hsettled : isSame = false ∨ state.maxOfSeparator ≠ -1)
    (hdue : state.due isSame frameSize = due) (h : ScannedTo find isSame due i state)
    (hfuel : (find.after state.stream.buf i).length ≤ fuel) :
    scanFuel find isSame frameSize fuel state =
      match state.encoder.feedAll state.writtenFrame
          ((find.gather due).records state.stream.buf) with
      | .error e => .error e
      | .ok (encoder, written) =>
          .ok (state.scanned find isSame encoder written state.maxOfSeparator
            ((find.gather due).rest state.stream.buf)) := by
  induction fuel generalizing state i with
  | zero =>
      have hnil : find.after state.stream.buf i = [] :=
        List.length_eq_zero_iff.mp (Nat.le_zero.mp hfuel)
      obtain rfl := h.eq_length_of_none (by rw [hnil, Finder.find_nil])
      have hnone := Finder.gather_eq_none_iff.mpr h.firstAt_none
      rw [scanFuel, Finder.records_of_none _ hnone, Finder.rest_of_none _ hnone, Encoder.feedAll]
      simp only [h.scanned_self]
  | succ fuel ih =>
      rw [scanFuel, Stream.nextEnd, h.lastEnd]
      cases hfind : find (state.stream.buf.drop (find.offset state.stream.buf i)) with
      | none =>
          obtain rfl := h.eq_length_of_none hfind
          have hnone := Finder.gather_eq_none_iff.mpr h.firstAt_none
          rw [Finder.records_of_none _ hnone, Finder.rest_of_none _ hnone, Encoder.feedAll]
          simp only [h.scanned_self]
      | some found =>
          obtain ⟨hlt, hoffset⟩ :=
            find.offset_succ_of_find_after (d := state.stream.buf) (i := i) hfind
          have hpos := find.pos hfind
          have hless : (find.after state.stream.buf (i + 1)).length ≤ fuel := by
            have hafter := find.length_after_lt hlt (Nat.lt_add_one i)
            omega
          simp only
          generalize hnext : ({ state with
            stream := { state.stream with lastEnd := find.offset state.stream.buf i + found }
            frameEnd := find.offset state.stream.buf i + found
            cntOfSeparator := state.cntOfSeparator + if isSame then 1 else 0 } :
              Compression zeek R) = next
          have hbuf : next.stream.buf = state.stream.buf := by rw [← hnext]
          have hencoder : next.encoder = state.encoder := by rw [← hnext]
          have hwritten : next.writtenFrame = state.writtenFrame := by rw [← hnext]
          have hmax : next.maxOfSeparator = state.maxOfSeparator := by rw [← hnext]
          have hend : next.frameEnd = find.offset state.stream.buf (i + 1) := by
            rw [← hnext, hoffset]
          have hcount : next.cntOfSeparator = if isSame then i + 1 else 0 := by
            rw [← hnext, h.count]
            cases isSame <;> rfl
          have hrule : next.due isSame frameSize = due := by
            rw [← hdue, Compression.due, Compression.due, hmax]
          rw [encodeFrame_settled (i := i + 1) (hmax ▸ hsettled) (by rw [hend]; omega) hcount,
            hrule, hend, hbuf, hencoder, hwritten]
          by_cases hyes : due (i + 1) (find.offset state.stream.buf (i + 1)) = true
          · have hsome : find.gather due state.stream.buf =
                some (find.offset state.stream.buf (i + 1)) := by
              rw [Finder.gather_eq, h.firstAt_next hlt hyes]
              rfl
            rw [if_pos hyes, Finder.records_of_some _ hsome, Finder.rest_of_some _ hsome,
              Encoder.feedAll]
            cases hcompress : state.encoder.compressNext state.writtenFrame
                (state.stream.buf.take (find.offset state.stream.buf (i + 1))) with
            | error e => rfl
            | ok encoder =>
                have hcut : (next.framed encoder next.maxOfSeparator).stream.buf =
                    state.stream.buf.drop (find.offset state.stream.buf (i + 1)) := by
                  rw [framed, Stream.dropToLastEnd, hbuf, ← hnext, hoffset]
                have hscan := @ih 0 (next.framed encoder next.maxOfSeparator)
                  (hmax ▸ hsettled) hrule (scannedTo_zero rfl rfl rfl) (by
                    rw [Finder.after_zero, hcut]
                    exact hless)
                simp only [hscan, hcut]
                simp only [framed, scanned, ← hnext, Stream.dropToLastEnd]
          · rw [if_neg hyes]
            have hto : ScannedTo find isSame due (i + 1) next := by
              rw [← hnext, ← hoffset]
              exact h.next hlt rfl (Bool.eq_false_iff.mpr hyes)
            have hscan := ih (hmax ▸ hsettled) hrule hto (by rw [hbuf]; exact hless)
            simp only [hscan, hbuf, hencoder, hwritten]
            simp only [scanned, ← hnext]

/-- A scan until a frame is first due by its bytes: there it is settled how many records every
frame holds, and the scan goes on by that. -/
theorem scan_first (fuel : Nat) (hmax : state.maxOfSeparator = -1)
    (h : ScannedTo find true (fun _ size => decide (frameSize ≤ size)) i state)
    (hfuel : (find.after state.stream.buf i).length ≤ fuel) :
    scanFuel find true frameSize fuel state =
      match find.firstAt (fun _ size => decide (frameSize ≤ size)) state.stream.buf with
      | none => .ok (state.scanned find true state.encoder state.writtenFrame (-1)
          state.stream.buf)
      | some n =>
          match state.encoder.feedAll state.writtenFrame
              ((find.gather fun i _ => decide (n ≤ i)).records state.stream.buf) with
          | .error e => .error e
          | .ok (encoder, written) =>
              .ok (state.scanned find true encoder written n
                ((find.gather fun i _ => decide (n ≤ i)).rest state.stream.buf)) := by
  induction fuel generalizing state i with
  | zero =>
      have hnil : find.after state.stream.buf i = [] :=
        List.length_eq_zero_iff.mp (Nat.le_zero.mp hfuel)
      obtain rfl := h.eq_length_of_none (by rw [hnil, Finder.find_nil])
      rw [scanFuel, h.firstAt_none, ← hmax]
      simp only [h.scanned_self]
  | succ fuel ih =>
      rw [scanFuel, Stream.nextEnd, h.lastEnd]
      cases hfind : find (state.stream.buf.drop (find.offset state.stream.buf i)) with
      | none =>
          obtain rfl := h.eq_length_of_none hfind
          rw [h.firstAt_none, ← hmax]
          simp only [h.scanned_self]
      | some found =>
          obtain ⟨hlt, hoffset⟩ :=
            find.offset_succ_of_find_after (d := state.stream.buf) (i := i) hfind
          have hpos := find.pos hfind
          have hless : (find.after state.stream.buf (i + 1)).length ≤ fuel := by
            have hafter := find.length_after_lt hlt (Nat.lt_add_one i)
            omega
          simp only [if_true]
          generalize hnext : ({ state with
            stream := { state.stream with lastEnd := find.offset state.stream.buf i + found }
            frameEnd := find.offset state.stream.buf i + found
            cntOfSeparator := state.cntOfSeparator + 1 } : Compression zeek R) = next
          have hbuf : next.stream.buf = state.stream.buf := by rw [← hnext]
          have hencoder : next.encoder = state.encoder := by rw [← hnext]
          have hwritten : next.writtenFrame = state.writtenFrame := by rw [← hnext]
          have hmax' : next.maxOfSeparator = -1 := by
            rw [← hnext]
            exact hmax
          have hend : next.frameEnd = find.offset state.stream.buf (i + 1) := by
            rw [← hnext, hoffset]
          have hcount : next.cntOfSeparator = i + 1 := by
            rw [← hnext, h.count]
            rfl
          rw [encodeFrameOnSameSeparatorCnt, if_pos hmax',
            encodeFrameNotSame_eq (by rw [hend]; omega), hend, hbuf, hencoder, hwritten]
          by_cases hyes : frameSize ≤ find.offset state.stream.buf (i + 1)
          · have hfirst := h.firstAt_next hlt (decide_eq_true hyes)
            have hsome : find.gather (fun j _ => decide (i + 1 ≤ j)) state.stream.buf =
                some (find.offset state.stream.buf (i + 1)) := by
              rw [Finder.gather_eq, Finder.firstAt_count (Nat.succ_pos i),
                if_pos (Nat.succ_le_of_lt hlt)]
              rfl
            rw [if_pos hyes, hfirst]
            simp only
            rw [Finder.records_of_some _ hsome, Finder.rest_of_some _ hsome, Encoder.feedAll]
            cases hcompress : state.encoder.compressNext state.writtenFrame
                (state.stream.buf.take (find.offset state.stream.buf (i + 1))) with
            | error e => rfl
            | ok encoder =>
                simp only [hcount]
                have hcut : (next.framed encoder (i + 1 : Nat)).stream.buf =
                    state.stream.buf.drop (find.offset state.stream.buf (i + 1)) := by
                  rw [framed, Stream.dropToLastEnd, hbuf, ← hnext, hoffset]
                have hrule : (next.framed encoder (i + 1 : Nat)).due true frameSize =
                    fun j _ => decide (i + 1 ≤ j) := by
                  have hset : ((i + 1 : Nat) : Int) ≠ -1 := by omega
                  rw [Compression.due, if_pos ⟨rfl, hset⟩]
                  funext j _
                  simp only [framed, Int.ofNat_le]
                have hto : ScannedTo find true (fun j _ => decide (i + 1 ≤ j)) 0
                    (next.framed encoder (i + 1 : Nat)) := scannedTo_zero rfl rfl rfl
                have hscan := scan_settled fuel (Or.inr (by simp only [framed]; omega)) hrule hto
                  (by rw [Finder.after_zero, hcut]; exact hless)
                rw [hcut] at hscan
                simp only [framed, hwritten] at hscan ⊢
                rw [hscan]
                simp only [scanned, ← hnext, Stream.dropToLastEnd]
          · have hno : decide (frameSize ≤ find.offset state.stream.buf (i + 1)) = false :=
              decide_eq_false hyes
            rw [if_neg hyes]
            have hto : ScannedTo find true (fun _ size => decide (frameSize ≤ size)) (i + 1)
                next := by
              rw [← hnext, ← hoffset]
              exact h.next hlt rfl hno
            have hscan := ih hmax' hto (by rw [hbuf]; exact hless)
            simp only [hscan, hbuf, hencoder, hwritten]
            simp only [scanned, ← hnext]

/-! ### The loop -/

/-- Nothing is ever left in the buffer in front of the frame end: what is written is dropped at
once. -/
theorem dropProcessed_eq (hdue : state.due isSame frameSize = due)
    (h : ScannedTo find isSame due i state) : state.dropProcessed isSame frameSize = state := by
  rw [dropProcessed]
  by_cases hfirst : isSame = true ∧ state.maxOfSeparator = -1
  · rw [if_pos hfirst]
  rw [if_neg hfirst]
  by_cases hshort : isSame = true ∧ (state.cntOfSeparator : Int) ≠ state.maxOfSeparator
  · rw [if_pos hshort]
  rw [if_neg hshort]
  apply if_neg
  rcases Nat.eq_zero_or_pos i with hzero | hpos
  · rw [h.frameEnd, hzero]
    exact Nat.not_lt_zero _
  · have hnot := h.before i hpos (Nat.le_refl i)
    rw [← hdue, Compression.due] at hnot
    cases isSame with
    | false =>
        simp only [Bool.false_eq_true, false_and, if_false, decide_eq_false_iff_not] at hnot
        rw [h.frameEnd]
        omega
    | true =>
        -- the count would be the one a frame is due at
        have hset : state.maxOfSeparator ≠ -1 := fun hmax => hfirst ⟨rfl, hmax⟩
        have hcount : (state.cntOfSeparator : Int) = state.maxOfSeparator := by
          by_contra hne
          exact hshort ⟨rfl, hne⟩
        rw [if_pos ⟨rfl, hset⟩, decide_eq_false_iff_not, ← hcount, h.count] at hnot
        exact absurd (Int.le_refl _) hnot

/-- Behind a scan all that is in the buffer is scanned. -/
theorem scanned_scannedTo {encoder : Encoder zeek} {written : Nat} {max : Int} {buf : Bytes}
    (hnone : find.firstAt due buf = none) :
    ScannedTo find isSame due (find.records buf).length
      (state.scanned find isSame encoder written max buf) where
  le := Nat.le_refl _
  lastEnd := rfl
  frameEnd := rfl
  count := rfl
  before := Finder.firstAt_eq_none_iff.mp hnone

end Compression

end SeekZstdSep
