/-
Module: SeekZstdSep.Proofs.ExecCompress
Purpose: The compressors end with what the model of them comes to, wherever the buffer they ask for
  can be had, and the retries end as often as those of the model do.
Trusted boundary: none
Main exports: Exec.convertRecords_ends, Exec.newConvert_of_some, Exec.oldConvert_ends,
  Exec.Converts, Exec.compressWithRetry_settles_iff
-/
import SeekZstdSep.Core.ExecEntry
import SeekZstdSep.Proofs.Exec
import SeekZstdSep.Proofs.Retry

namespace SeekZstdSep

open Lib

variable {zeek : Zeekstd} {R : Type} {frameSize : Nat} {result : FrameEncodeResult}

/-! ### What a frame that is due leaves to scan -/

/-- As much is left to scan of the same source. -/
structure Stream.Level (stream stream' : Stream R) : Prop where
  unscanned : stream'.unscanned = stream.unscanned
  source : stream'.source = stream.source

theorem Stream.Level.refl (stream : Stream R) : stream.Level stream := ⟨rfl, rfl⟩

theorem Stream.dropToLastEnd_level (stream : Stream R) : stream.Level stream.dropToLastEnd where
  unscanned := by
    simp only [Stream.unscanned, Stream.dropToLastEnd, List.length_drop, Nat.sub_zero]
  source := rfl

namespace Compression

variable {state state' : Compression zeek R}

theorem encodeFrameNotSameSeparatorCnt_level
    (h : state.encodeFrameNotSameSeparatorCnt frameSize = .ok (result, state')) :
    state.stream.Level state'.stream := by
  rw [encodeFrameNotSameSeparatorCnt] at h
  by_cases hshort : state.frameEnd < frameSize
  · rw [if_pos hshort] at h
    cases h
    exact .refl _
  rw [if_neg hshort] at h
  by_cases hpos : 0 < state.frameEnd
  · simp only [if_pos hpos] at h
    cases hnext : state.encoder.compressNext state.writtenFrame
        (state.stream.buf.take state.frameEnd) with
    | error e =>
        rw [hnext] at h
        cases h
    | ok encoder =>
        rw [hnext] at h
        cases h
        exact state.stream.dropToLastEnd_level
  · simp only [if_neg hpos] at h
    cases h
    exact state.stream.dropToLastEnd_level

theorem encodeFrameOnSameSeparatorCnt_level
    (h : state.encodeFrameOnSameSeparatorCnt frameSize = .ok (result, state')) :
    state.stream.Level state'.stream := by
  rw [encodeFrameOnSameSeparatorCnt] at h
  by_cases hfirst : state.maxOfSeparator = -1
  · rw [if_pos hfirst] at h
    cases hdue : state.encodeFrameNotSameSeparatorCnt frameSize with
    | error e =>
        rw [hdue] at h
        cases h
    | ok due =>
        obtain ⟨due, state₁⟩ := due
        have hlevel := encodeFrameNotSameSeparatorCnt_level hdue
        rw [hdue] at h
        cases due with
        | skipped =>
            cases h
            exact hlevel
        | encoded =>
            cases h
            exact hlevel
  rw [if_neg hfirst] at h
  split at h
  · cases h
    exact .refl _
  · cases hnext : state.encoder.compressNext state.writtenFrame
        (state.stream.buf.take state.frameEnd) with
    | error e =>
        rw [hnext] at h
        cases h
    | ok encoder =>
        rw [hnext] at h
        cases h
        exact state.stream.dropToLastEnd_level

end Compression

namespace OldCompression

/-- As much is left to search, of the same reader. -/
structure Level (state state' : OldCompression zeek R) : Prop where
  unsearched : state'.buf.length - state'.searchStart = state.buf.length - state.searchStart
  reader : state'.reader = state.reader

variable {separator : Bytes} {state state' : OldCompression zeek R}

theorem oldEncodeFrameNotSameSeparatorCnt_level
    (h : state.oldEncodeFrameNotSameSeparatorCnt frameSize separator = .ok (result, state')) :
    state.Level state' := by
  have hcut : (state.buf.drop state.searchStart).length - 0 =
      state.buf.length - state.searchStart := by
    rw [List.length_drop, Nat.sub_zero]
  rw [oldEncodeFrameNotSameSeparatorCnt] at h
  by_cases hshort : state.frameEnd < frameSize
  · rw [if_pos hshort] at h
    cases h
    exact ⟨rfl, rfl⟩
  rw [if_neg hshort] at h
  by_cases hpos : separator.length < state.frameEnd
  · simp only [if_pos hpos] at h
    cases hnext : state.encoder.compressNext state.writtenFrame
        (state.buf.take (state.frameEnd + separator.length)) with
    | error e =>
        rw [hnext] at h
        cases h
    | ok encoder =>
        rw [hnext] at h
        cases h
        exact ⟨hcut, rfl⟩
  · simp only [if_neg hpos] at h
    cases h
    exact ⟨hcut, rfl⟩

theorem oldEncodeFrameOnSameSeparatorCnt_level
    (h : state.oldEncodeFrameOnSameSeparatorCnt frameSize separator = .ok (result, state')) :
    state.Level state' := by
  rw [oldEncodeFrameOnSameSeparatorCnt] at h
  by_cases hfirst : state.maxOfSeparator = -1
  · rw [if_pos hfirst] at h
    cases hdue : state.oldEncodeFrameNotSameSeparatorCnt frameSize separator with
    | error e =>
        rw [hdue] at h
        cases h
    | ok due =>
        obtain ⟨due, state₁⟩ := due
        have hlevel := oldEncodeFrameNotSameSeparatorCnt_level hdue
        rw [hdue] at h
        cases due with
        | skipped =>
            cases h
            exact hlevel
        | encoded =>
            cases h
            exact ⟨hlevel.unsearched, hlevel.reader⟩
  rw [if_neg hfirst] at h
  split at h
  · cases h
    exact ⟨rfl, rfl⟩
  · cases hnext : state.encoder.compressNext state.writtenFrame
        (state.buf.take (state.frameEnd + separator.length)) with
    | error e =>
        rw [hnext] at h
        cases h
    | ok encoder =>
        rw [hnext] at h
        cases h
        constructor
        · show (state.buf.drop state.searchStart).length - 0 = _
          rw [List.length_drop, Nat.sub_zero]
        · rfl

theorem dropProcessed_reader (isSame : Bool) (state : OldCompression zeek R) :
    (state.dropProcessed isSame frameSize).reader = state.reader := by
  rw [dropProcessed]
  split_ifs <;> rfl

end OldCompression

namespace Exec

variable (find : Finder UInt8) (isSame : Bool) (frameSize : Nat)

/-! ### The compressor -/

section Compress

variable {isSame frameSize} {state : Compression zeek R} {stream : Stream R} {ended : Nat}

/-- Either way of making frames due leaves as much to scan. -/
theorem encodeDue_level {due : FrameEncodeResult × Compression zeek R}
    (h : encodeDue isSame frameSize state ended stream = .ok due) :
    stream.Level due.2.stream := by
  rw [encodeDue] at h
  cases isSame with
  | true => exact Compression.encodeFrameOnSameSeparatorCnt_level h
  | false => exact Compression.encodeFrameNotSameSeparatorCnt_level h

theorem scanFuel_succ {fuel : Nat} (hnext : state.stream.nextEnd find = some (ended, stream)) :
    Compression.scanFuel find isSame frameSize (fuel + 1) state =
      (encodeDue isSame frameSize state ended stream).bind fun due =>
        Compression.scanFuel find isSame frameSize fuel due.2 := by
  rw [Compression.scanFuel, hnext, encodeDue]
  cases isSame with
  | true =>
      simp only [if_true]
      generalize Compression.encodeFrameOnSameSeparatorCnt frameSize _ = due
      cases due with
      | error e => rfl
      | ok due => rfl
  | false =>
      simp only [Bool.false_eq_true, if_false]
      generalize Compression.encodeFrameNotSameSeparatorCnt frameSize _ = due
      cases due with
      | error e => rfl
      | ok due => rfl

end Compress

/-- Each record that ends shortens what is left to scan. -/
theorem compressFuel_ends (fuel : Nat) :
    ∀ state : Compression zeek R, state.stream.unscanned ≤ fuel →
      (scan find.find isSame frameSize state).Ends
        (Program.endingOf (Compression.scanFuel find isSame frameSize fuel state)) := by
  induction fuel with
  | zero =>
      intro state hle
      have hnone : nextEnd find.find state.stream = none := by
        cases hnext : state.stream.nextEnd find with
        | none => exact hnext
        | some found =>
            have hless := (nextEnd_unscanned hnext).1
            omega
      apply Program.Ends.loop_done
      rw [compressRound, hnone]
      exact Program.ends_pure _
  | succ fuel ih =>
      intro state hle
      cases hnext : state.stream.nextEnd find with
      | none =>
          have hnone : nextEnd find.find state.stream = none := hnext
          rw [Compression.scanFuel, hnext]
          apply Program.Ends.loop_done
          rw [compressRound, hnone]
          exact Program.ends_pure _
      | some found =>
          obtain ⟨ended, stream⟩ := found
          have hsome : nextEnd find.find state.stream = some (ended, stream) := hnext
          have hless := (nextEnd_unscanned hnext).1
          rw [scanFuel_succ find hnext]
          cases hdue : encodeDue isSame frameSize state ended stream with
          | error e =>
              apply Program.Ends.loop_failed
              rw [compressRound, hsome]
              simp only [hdue]
              exact Program.ends_ofEnding _
          | ok due =>
              have hlevel := encodeDue_level hdue
              apply Program.Ends.loop_again _ (ih due.2 (by rw [hlevel.unscanned]; omega))
              rw [compressRound, hsome]
              simp only [hdue]
              exact Program.ends_pure _

/-- A scan reads nothing. -/
theorem scanFuel_source (fuel : Nat) :
    ∀ {state state' : Compression zeek R},
      Compression.scanFuel find isSame frameSize fuel state = .ok state' →
        state'.stream.source = state.stream.source := by
  induction fuel with
  | zero =>
      intro state state' h
      cases h
      rfl
  | succ fuel ih =>
      intro state state' h
      cases hnext : state.stream.nextEnd find with
      | none =>
          rw [Compression.scanFuel, hnext] at h
          cases h
          rfl
      | some found =>
          obtain ⟨ended, stream⟩ := found
          rw [scanFuel_succ find hnext] at h
          cases hdue : encodeDue isSame frameSize state ended stream with
          | error e =>
              rw [hdue] at h
              cases h
          | ok due =>
              rw [hdue] at h
              calc state'.stream.source = due.2.stream.source := ih h
                _ = stream.source := (encodeDue_level hdue).source
                _ = state.stream.source := (nextEnd_unscanned hnext).2

theorem dropProcessed_source (state : Compression zeek R) :
    (state.dropProcessed isSame frameSize).stream.source = state.stream.source := by
  rw [Compression.dropProcessed]
  split_ifs <;> rfl

section Convert

variable [Read R] [LawfulRead R] (limitMultiplier : Nat)

/-- Each read takes what it hands out off the budget of the source. -/
theorem convertFuel_ends (fuel : Nat) :
    ∀ state : Compression zeek R, Read.budget state.stream.source < fuel →
      (convertLoop find.find isSame frameSize limitMultiplier state).Ends
        (Program.endingOf
          (state.loopFuel find isSame frameSize limitMultiplier fuel)) := by
  induction fuel with
  | zero =>
      intro state hfuel
      exact absurd hfuel (Nat.not_lt_zero _)
  | succ fuel ih =>
      intro state hfuel
      rw [Compression.loopFuel]
      cases hfill : state.stream.fill with
      | error e =>
          apply Program.Ends.loop_failed
          rw [convertRound, hfill]
          exact Program.ends_ofEnding _
      | ok filled =>
          obtain ⟨more, stream⟩ := filled
          cases more with
          | false =>
              apply Program.Ends.loop_done
              rw [convertRound, hfill]
              exact Program.ends_pure _
          | true =>
              have hless := (fill_ahead hfill).2 rfl
              have hround : convertRound find.find isSame frameSize limitMultiplier state =
                  (checkLimit isSame frameSize limitMultiplier state.maxOfSeparator
                    stream.unscanned >>= fun _ =>
                  scan find.find isSame frameSize { state with stream := stream } >>= fun scanned =>
                    pure (.again (scanned.dropProcessed isSame frameSize))) := by
                rw [convertRound, hfill]
                rfl
              simp only
              split
              · next hover =>
                apply Program.Ends.loop_failed
                rw [hround, checkLimit, if_pos hover]
                exact Program.ends_ofEnding _
              split
              · next hover' hover =>
                apply Program.Ends.loop_failed
                rw [hround, checkLimit, if_neg hover', if_pos hover]
                exact Program.ends_ofEnding _
              next hwithin hwithin' =>
              have hscan := compressFuel_ends find isSame frameSize stream.unscanned
                { state with stream := stream } (Nat.le_refl _)
              rw [checkLimit, if_neg hwithin, if_neg hwithin'] at hround
              cases hscanned : Compression.scanFuel find isSame frameSize stream.unscanned
                  { state with stream := stream } with
              | error e =>
                  rw [hscanned] at hscan
                  apply Program.Ends.loop_failed
                  rw [hround]
                  exact hscan.bind_failed
              | ok scanned =>
                  have hsource := scanFuel_source find isSame frameSize _ hscanned
                  rw [hscanned] at hscan
                  apply Program.Ends.loop_again _ (ih _ _)
                  · rw [hround]
                    exact hscan.bind (Program.ends_pure _)
                  · rw [dropProcessed_source, hsource]
                    exact Nat.lt_of_lt_of_le hless (Nat.le_of_lt_succ hfuel)

end Convert

theorem finishWith_ends (encoder : Encoder zeek) (writtenFrame : Nat) (rest : Bytes) :
    (finishWith encoder writtenFrame rest).Ends
      (Program.endingOf ((if rest.isEmpty then .ok encoder
        else encoder.compressNext writtenFrame rest).bind Encoder.finish)) :=
  (Program.ends_ofExcept _).bind_ofExcept Encoder.finish

/-! ### The buffer -/

section Buffer

variable {mode : Arithmetic} {frameSize} {limitMultiplier : Option Nat}

theorem mul_of_some {a b c : Nat} (h : mulUsize mode.checks a b = some c) :
    mul mode 64 a b = pure c := by
  rw [mulUsize] at h
  by_cases hfits : a * b ≤ usizeMax
  · rw [if_pos hfits] at h
    cases h
    apply mul_of_lt
    rw [usizeMax] at hfits
    omega
  · have hover : ¬ a * b < 2 ^ 64 := by
      rw [usizeMax] at hfits
      omega
    rw [if_neg hfits] at h
    cases mode with
    | checked => cases h
    | wrapping =>
        cases h
        rw [mul, if_neg hover, leaves]

theorem mul_of_none {a b : Nat} (h : mulUsize mode.checks a b = none) :
    mul mode 64 a b = Program.fault .overflow := by
  rw [mulUsize] at h
  by_cases hfits : a * b ≤ usizeMax
  · rw [if_pos hfits] at h
    cases h
  · have hover : ¬ a * b < 2 ^ 64 := by
      rw [usizeMax] at hfits
      omega
    rw [if_neg hfits] at h
    cases mode with
    | checked => rw [mul, if_neg hover, leaves]
    | wrapping => cases h

/-- The buffer can be asked for where the model has it so. -/
theorem buffer_of_some {isSame : Bool} {input : Input} {opts : Option CompressOptions}
    {result : Except Error Bytes}
    (h : convertBuffered zeek mode.checks isSame find limitMultiplier input frameSize opts =
      some result) :
    buffer mode frameSize limitMultiplier = pure () ∧
      result =
        convertRecordsToSeekableZst zeek input frameSize isSame find limitMultiplier opts := by
  rw [convertBuffered] at h
  cases hmul : mulUsize mode.checks frameSize (limitMultiplier.getD limitSepBufMultiplier) with
  | none =>
      rw [hmul] at h
      cases h
  | some capacity =>
      rw [hmul] at h
      simp only at h
      split_ifs at h with hover
      cases h
      rw [buffer, mul_of_some hmul, Program.pure_andThen, if_neg hover]
      exact ⟨rfl, rfl⟩

theorem buffer_of_none {isSame : Bool} {input : Input} {opts : Option CompressOptions}
    (h : convertBuffered zeek mode.checks isSame find limitMultiplier input frameSize opts =
      none) :
    ∃ fault, buffer mode frameSize limitMultiplier = Program.fault fault := by
  rw [convertBuffered] at h
  cases hmul : mulUsize mode.checks frameSize (limitMultiplier.getD limitSepBufMultiplier) with
  | none =>
      refine ⟨.overflow, ?_⟩
      rw [buffer, mul_of_none hmul, Program.fault_andThen]
  | some capacity =>
      rw [hmul] at h
      simp only at h
      split_ifs at h with hover
      refine ⟨.capacity, ?_⟩
      rw [buffer, mul_of_some hmul, Program.pure_andThen, if_pos hover]

end Buffer

/-! ### A conversion -/

section NewConvert

variable {mode : Arithmetic} {limitMultiplier : Option Nat}

theorem convertRecords_ends [Read R] [LawfulRead R] (zeek : Zeekstd) (reader : R)
    (opts : Option CompressOptions) (h : buffer mode frameSize limitMultiplier = pure ()) :
    (convertRecords mode zeek reader frameSize isSame find.find limitMultiplier opts).Ends
      (Program.endingOf (convertRecordsToSeekableZst zeek reader frameSize isSame find
        limitMultiplier opts)) := by
  rw [convertRecords, h, Program.pure_andThen, convertRecordsToSeekableZst]
  have hloop := convertFuel_ends find isSame frameSize
    (limitMultiplier.getD limitSepBufMultiplier) (Read.budget reader + 1)
    (Compression.start zeek opts reader) (Nat.lt_succ_self _)
  have hstart : Compression.start zeek opts reader =
    { encoder := { checksum := (opts.getD {}).checksum, level := (opts.getD {}).level }
      stream := { source := reader }
      maxOfSeparator := ((opts.getD {}).maxOfSeparator.map asI64).getD (-1) } := rfl
  simp only [← hstart]
  cases hran : (Compression.start zeek opts reader).loopFuel find isSame frameSize
      (limitMultiplier.getD limitSepBufMultiplier) (Read.budget reader + 1) with
  | error e =>
      rw [hran] at hloop
      exact hloop.bind_failed
  | ok state =>
      have hfinish := finishWith_ends state.encoder state.writtenFrame state.stream.buf
      rw [hran] at hloop
      apply hloop.bind
      simp only
      generalize (if state.stream.buf.isEmpty then Except.ok state.encoder
        else state.encoder.compressNext state.writtenFrame state.stream.buf) = written at hfinish ⊢
      cases written with
      | error e => exact hfinish
      | ok encoder => exact hfinish

/-- What comes of an attempt comes of it in the model. -/
theorem newConvert_of_some {separator : Bytes} (hne : separator ≠ []) {input : Input}
    {opts : Option CompressOptions} {result : Except Error Bytes}
    (h : convertBuffered zeek mode.checks isSame (separatorFinder separator hne) limitMultiplier
      input frameSize opts = some result) :
    (newConvert mode zeek input frameSize isSame separator limitMultiplier opts).Ends
      (Program.endingOf result) := by
  obtain ⟨hbuffer, rfl⟩ := buffer_of_some _ h
  rw [newConvert, if_neg hne]
  exact convertRecords_ends (separatorFinder separator hne) isSame frameSize zeek input opts hbuffer

theorem newConvert_of_none {separator : Bytes} (hne : separator ≠ []) {input : Input}
    {opts : Option CompressOptions}
    (h : convertBuffered zeek mode.checks isSame (separatorFinder separator hne) limitMultiplier
      input frameSize opts = none) :
    ∃ fault, (newConvert mode zeek input frameSize isSame separator limitMultiplier opts).Ends
      (.faulted fault) := by
  obtain ⟨fault, hbuffer⟩ := buffer_of_none _ h
  refine ⟨fault, ?_⟩
  rw [newConvert, if_neg hne, convertRecords, hbuffer]
  exact Program.ends_ofEnding _

end NewConvert

/-! ### The old compressor -/

section OldConvert

variable {separator : Bytes} (hne : separator ≠ [])

section Due

variable {isSame frameSize} {state : OldCompression zeek R} {posAfter : Nat}

theorem oldEncodeDue_level {due : FrameEncodeResult × OldCompression zeek R}
    (h : oldEncodeDue isSame frameSize separator state posAfter = .ok due) :
    due.2.buf.length - due.2.searchStart =
        state.buf.length - (state.searchStart + posAfter) ∧
      due.2.reader = state.reader := by
  rw [oldEncodeDue] at h
  cases isSame with
  | true =>
      have hlevel := OldCompression.oldEncodeFrameOnSameSeparatorCnt_level h
      exact ⟨hlevel.unsearched, hlevel.reader⟩
  | false =>
      have hlevel := OldCompression.oldEncodeFrameNotSameSeparatorCnt_level h
      exact ⟨hlevel.unsearched, hlevel.reader⟩

theorem oldScanFuel_succ {fuel : Nat}
    (hfind : bySeparator separator (state.buf.drop state.searchStart) = some posAfter) :
    OldCompression.scanFuel separator isSame frameSize (fuel + 1) state =
      (oldEncodeDue isSame frameSize separator state posAfter).bind fun due =>
        OldCompression.scanFuel separator isSame frameSize fuel due.2 := by
  rw [bySeparator] at hfind
  rw [OldCompression.scanFuel, hfind, oldEncodeDue]
  cases isSame with
  | true =>
      simp only [if_true]
      generalize OldCompression.oldEncodeFrameOnSameSeparatorCnt frameSize separator _ = due
      cases due with
      | error e => rfl
      | ok due => rfl
  | false =>
      simp only [Bool.false_eq_true, if_false]
      generalize OldCompression.oldEncodeFrameNotSameSeparatorCnt frameSize separator _ = due
      cases due with
      | error e => rfl
      | ok due => rfl

end Due

include hne

/-- Each separator found shortens what is left to search. -/
theorem oldScanFuel_ends (fuel : Nat) :
    ∀ state : OldCompression zeek R, state.buf.length - state.searchStart ≤ fuel →
      (oldScan isSame frameSize separator state).Ends
        (Program.endingOf
          (OldCompression.scanFuel separator isSame frameSize fuel state)) := by
  induction fuel with
  | zero =>
      intro state hle
      have hnil : state.buf.drop state.searchStart = [] := List.drop_eq_nil_of_le (by omega)
      have hnone : bySeparator separator (state.buf.drop state.searchStart) = none := by
        rw [hnil]
        exact (separatorFinder separator hne).find_nil
      apply Program.Ends.loop_done
      rw [oldScanRound, hnone]
      exact Program.ends_pure _
  | succ fuel ih =>
      intro state hle
      cases hfind : bySeparator separator (state.buf.drop state.searchStart) with
      | none =>
          have hmodel : OldCompression.scanFuel separator isSame frameSize (fuel + 1) state =
              .ok state := by
            rw [OldCompression.scanFuel, ← bySeparator, hfind]
          rw [hmodel]
          apply Program.Ends.loop_done
          rw [oldScanRound, hfind]
          exact Program.ends_pure _
      | some posAfter =>
          have hpos : 0 < posAfter := (separatorFinder separator hne).pos hfind
          have hin : posAfter ≤ (state.buf.drop state.searchStart).length :=
            (separatorFinder separator hne).le hfind
          rw [List.length_drop] at hin
          rw [oldScanFuel_succ hfind]
          cases hdue : oldEncodeDue isSame frameSize separator state posAfter with
          | error e =>
              apply Program.Ends.loop_failed
              rw [oldScanRound, hfind]
              simp only [hdue]
              exact Program.ends_ofEnding _
          | ok due =>
              obtain ⟨hleft, -⟩ := oldEncodeDue_level hdue
              apply Program.Ends.loop_again _ (ih due.2 (by omega))
              rw [oldScanRound, hfind]
              simp only [hdue]
              exact Program.ends_pure _

omit hne

theorem oldScanFuel_reader (fuel : Nat) :
    ∀ {state state' : OldCompression zeek R},
      OldCompression.scanFuel separator isSame frameSize fuel state = .ok state' →
        state'.reader = state.reader := by
  induction fuel with
  | zero =>
      intro state state' h
      cases h
      rfl
  | succ fuel ih =>
      intro state state' h
      cases hfind : bySeparator separator (state.buf.drop state.searchStart) with
      | none =>
          rw [OldCompression.scanFuel, ← bySeparator, hfind] at h
          cases h
          rfl
      | some posAfter =>
          rw [oldScanFuel_succ hfind] at h
          cases hdue : oldEncodeDue isSame frameSize separator state posAfter with
          | error e =>
              rw [hdue] at h
              cases h
          | ok due =>
              rw [hdue] at h
              exact (ih h).trans (oldEncodeDue_level hdue).2

variable [Read R] [LawfulRead R]

include hne

theorem oldConvertFuel_ends (limitMultiplier fuel : Nat) :
    ∀ state : OldCompression zeek R, Read.budget state.reader < fuel →
      (oldConvertLoop isSame frameSize limitMultiplier separator state).Ends
        (Program.endingOf
          (state.loopFuel separator isSame frameSize limitMultiplier fuel)) := by
  induction fuel with
  | zero =>
      intro state hfuel
      exact absurd hfuel (Nat.not_lt_zero _)
  | succ fuel ih =>
      intro state hfuel
      rw [OldCompression.loopFuel]
      cases hread : Read.read state.reader readBufSize with
      | error e =>
          apply Program.Ends.loop_failed
          rw [oldConvertRound, hread]
          exact Program.ends_ofEnding _
      | ok got =>
          obtain ⟨bytes, reader⟩ := got
          have hbudget := LawfulRead.budget_read hread
          by_cases hnil : bytes.length = 0
          · simp only [if_pos hnil]
            apply Program.Ends.loop_done
            rw [oldConvertRound, hread, Program.ofExcept_ok, Program.pure_andThen]
            simp only [if_pos hnil]
            exact Program.ends_pure _
          have hround : oldConvertRound isSame frameSize limitMultiplier separator state =
              (checkLimit isSame frameSize limitMultiplier state.maxOfSeparator
                ((state.buf ++ bytes).length - state.searchStart) >>= fun _ =>
              oldScan isSame frameSize separator
                { state with reader := reader, buf := state.buf ++ bytes } >>= fun scanned =>
                pure (.again (scanned.dropProcessed isSame frameSize))) := by
            rw [oldConvertRound, hread, Program.ofExcept_ok, Program.pure_andThen]
            exact if_neg hnil
          simp only [if_neg hnil]
          split
          · next hover =>
            apply Program.Ends.loop_failed
            rw [hround, checkLimit, if_pos hover]
            exact Program.ends_ofEnding _
          split
          · next hover' hover =>
            apply Program.Ends.loop_failed
            rw [hround, checkLimit, if_neg hover', if_pos hover]
            exact Program.ends_ofEnding _
          next hwithin hwithin' =>
          have hscan := oldScanFuel_ends isSame frameSize hne
            ((state.buf ++ bytes).length - state.searchStart)
            { state with reader := reader, buf := state.buf ++ bytes } (Nat.le_refl _)
          rw [checkLimit, if_neg hwithin, if_neg hwithin'] at hround
          cases hscanned : OldCompression.scanFuel separator isSame frameSize
              ((state.buf ++ bytes).length - state.searchStart)
              { state with reader := reader, buf := state.buf ++ bytes } with
          | error e =>
              rw [hscanned] at hscan
              apply Program.Ends.loop_failed
              rw [hround]
              exact hscan.bind_failed
          | ok scanned =>
              have hsame := oldScanFuel_reader isSame frameSize _ hscanned
              rw [hscanned] at hscan
              apply Program.Ends.loop_again _ (ih _ _)
              · rw [hround]
                exact hscan.bind (Program.ends_pure _)
              · rw [OldCompression.dropProcessed_reader, hsame]
                show Read.budget reader < fuel
                omega

omit hne

/-- The old compressor asks for its buffer before it looks at the separator. -/
theorem oldConvert_ends {mode : Arithmetic} {limitMultiplier : Option Nat} (zeek : Zeekstd)
    (reader : R) (opts : Option CompressOptions)
    (h : buffer mode frameSize limitMultiplier = pure ()) :
    (oldConvert mode zeek reader frameSize isSame separator limitMultiplier opts).Ends
      (Program.endingOf (oldConvertToSeekableZst zeek reader frameSize isSame separator
        limitMultiplier opts)) := by
  rw [oldConvert, h, Program.pure_andThen, oldConvertToSeekableZst]
  by_cases hempty : separator = []
  · simp only [if_pos hempty]
    exact Program.ends_ofEnding _
  simp only [if_neg hempty]
  generalize hstart : ({
    encoder := { checksum := (opts.getD {}).checksum, level := ({} : CompressOptions).level }
    reader := reader
    maxOfSeparator := ((opts.getD {}).maxOfSeparator.map asI64).getD (-1) } :
      OldCompression zeek R) = start
  have hreader : start.reader = reader := by rw [← hstart]
  have hloop := oldConvertFuel_ends isSame frameSize hempty
    (limitMultiplier.getD limitSepBufMultiplier) (Read.budget reader + 1) start
    (by rw [hreader]; exact Nat.lt_succ_self _)
  cases hran : start.loopFuel separator isSame frameSize
      (limitMultiplier.getD limitSepBufMultiplier) (Read.budget reader + 1) with
  | error e =>
      rw [hran] at hloop
      exact hloop.bind_failed
  | ok state =>
      have hfinish := finishWith_ends state.encoder state.writtenFrame state.buf
      rw [hran] at hloop
      apply hloop.bind
      simp only
      generalize (if state.buf.isEmpty then Except.ok state.encoder
        else state.encoder.compressNext state.writtenFrame state.buf) = written at hfinish ⊢
      cases written with
      | error e => exact hfinish
      | ok encoder => exact hfinish

end OldConvert

/-! ### Attempts -/

section Attempts

variable {mode : Arithmetic} {reader : RetryReader} {staging : Staging}
  {opts : Option CompressOptions} {convert : Input → Nat → Option CompressOptions → Exec Bytes}
  {model : Input → Nat → Option CompressOptions → Option (Except Error Bytes)}

/-- What comes of every attempt comes of it in the model, where none is a fault. -/
structure Converts (convert : Input → Nat → Option CompressOptions → Exec Bytes)
    (model : Input → Nat → Option CompressOptions → Option (Except Error Bytes)) : Prop where
  ends : ∀ {input size opts result}, model input size opts = some result →
    (convert input size opts).Ends (Program.endingOf result)
  faults : ∀ {input size opts}, model input size opts = none →
    ∃ fault, (convert input size opts).Ends (.faulted fault)

/-- A round does what the step of the model does. -/
inductive Turns (program : Exec (Round Retry Bytes)) : RetryStep → Prop where
  | returned {result : Except Error Bytes}
      (ends : program.Ends (Program.endingOf (result.map Round.done))) :
      Turns program (.returned result)
  | panicked {fault : ArithFault} (ends : program.Ends (.faulted fault)) : Turns program .panicked
  | again {next : Retry} (ends : program.Ends (.returned (.again next))) :
      Turns program (.again next)

theorem retryRound_turns (mode : Arithmetic) (reader : RetryReader) (staging : Staging)
    (opts : Option CompressOptions) (h : Converts convert model) (state : Retry) :
    Turns (retryRound mode reader staging opts convert state)
      (state.step mode.checks reader staging model opts) := by
  cases hmodel : model (reader.input state.attempt state.pos) state.frameSize state.opts with
  | none =>
      obtain ⟨fault, hfault⟩ := h.faults hmodel
      rw [Retry.step, hmodel]
      exact .panicked hfault.attempt.bind_faulted
  | some result =>
      have hattempt := (h.ends hmodel).attempt_except
      have hstep : state.step mode.checks reader staging (fun _ _ _ => some result) opts =
          state.step mode.checks reader staging model opts := by
        rw [Retry.step, Retry.step, hmodel]
      rw [← hstep]
      cases hturn : state.step mode.checks reader staging (fun _ _ _ => some result) opts with
      | returned last =>
          apply Turns.returned
          apply hattempt.bind
          simp only [hturn]
          cases last with
          | error e => exact Program.ends_ofEnding _
          | ok bytes => exact Program.ends_pure _
      | panicked =>
          apply Turns.panicked
          apply hattempt.bind
          simp only [hturn]
          exact Program.ends_ofEnding _
      | again next =>
          apply Turns.again
          apply hattempt.bind
          simp only [hturn]
          exact Program.ends_pure _

/-- A loop of attempts ends as the model of it does. -/
theorem retry_ends (h : Converts convert model) (fuel : Nat) :
    ∀ state : Retry,
      (∀ result, state.runFuel mode.checks reader staging model opts fuel =
          some (.returned result) →
        (Program.loop (retryRound mode reader staging opts convert) state).Ends
          (Program.endingOf result)) ∧
      (state.runFuel mode.checks reader staging model opts fuel = some .panicked →
        ∃ fault, (Program.loop (retryRound mode reader staging opts convert) state).Ends
          (.faulted fault)) := by
  induction fuel with
  | zero =>
      intro state
      constructor
      · intro result hrun
        cases hrun
      · intro hrun
        cases hrun
  | succ fuel ih =>
      intro state
      have hturns := retryRound_turns mode reader staging opts h state
      rw [Retry.runFuel]
      generalize state.step mode.checks reader staging model opts = step at hturns
      cases hturns with
      | @returned turned ends =>
          constructor
          · intro result hrun
            cases hrun
            cases turned with
            | error e => exact Program.Ends.loop_failed ends
            | ok bytes => exact Program.Ends.loop_done ends
          · intro hrun
            cases hrun
      | panicked ends =>
          constructor
          · intro result hrun
            cases hrun
          · intro _
            exact ⟨_, Program.Ends.loop_faulted ends⟩
      | again ends =>
          obtain ⟨hreturned, hpanicked⟩ := ih _
          constructor
          · intro result hrun
            exact Program.Ends.loop_again ends (hreturned result hrun)
          · intro hrun
            obtain ⟨fault, hfault⟩ := hpanicked hrun
            exact ⟨fault, Program.Ends.loop_again ends hfault⟩

/-- Attempts that never come to an end in the model never do. -/
theorem retry_diverges (h : Converts convert model) {state : Retry}
    (hnone : ∀ fuel, state.runFuel mode.checks reader staging model opts fuel = none) :
    (Program.loop (retryRound mode reader staging opts convert) state).Diverges := by
  refine Program.loop_diverges
    (fun state => ∀ fuel, state.runFuel mode.checks reader staging model opts fuel = none) ?_ hnone
  intro state hnone
  have hturns := retryRound_turns mode reader staging opts h state
  have honce := hnone 1
  have hmore : ∀ fuel, state.runFuel mode.checks reader staging model opts (fuel + 1) = none :=
    fun fuel => hnone (fuel + 1)
  simp only [Retry.runFuel] at honce hmore
  generalize state.step mode.checks reader staging model opts = step at hturns honce hmore
  cases hturns with
  | returned ends => cases honce
  | panicked ends => cases honce
  | again ends => exact ⟨_, hmore, ends⟩

/-- The attempts come to an end of their own if and only if those of the model do. -/
theorem compressWithRetry_settles_iff (h : Converts convert model) :
    (compressWithRetry mode reader staging frameSize opts convert).Settles ↔
      ∃ fuel result, SeekZstdSep.compressWithRetry mode.checks reader staging frameSize opts model
        fuel = some (.returned result) := by
  rw [compressWithRetry]
  by_cases hcreated : staging.created = true
  · simp only [SeekZstdSep.compressWithRetry, if_neg (not_not_intro hcreated)]
    constructor
    · intro hsettles
      by_contra hnever
      have hnone : ∀ fuel, Retry.runFuel mode.checks reader staging model opts fuel
          { pos := reader.pos, frameSize := frameSize, opts := opts } = none := by
        intro fuel
        cases hrun : Retry.runFuel mode.checks reader staging model opts fuel
            { pos := reader.pos, frameSize := frameSize, opts := opts } with
        | none => rfl
        | some outcome =>
            cases outcome with
            | returned result => exact absurd ⟨fuel, result, hrun⟩ hnever
            | panicked =>
                obtain ⟨fault, hfault⟩ := (retry_ends h fuel _).2 hrun
                exact absurd hsettles hfault.not_settles
      exact (retry_diverges h hnone).not_settles hsettles
    · rintro ⟨fuel, result, hrun⟩
      exact ⟨result, (retry_ends h fuel _).1 result hrun⟩
  · simp only [SeekZstdSep.compressWithRetry, if_pos hcreated]
    apply iff_of_true (Program.settles_fail _)
    exact ⟨0, _, rfl⟩

end Attempts

end Exec

end SeekZstdSep
