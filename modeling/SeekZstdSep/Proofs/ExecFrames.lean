/-
Module: SeekZstdSep.Proofs.ExecFrames
Purpose: What the edits establish of a table and of the frames behind it comes to an end, with what
  the model of it comes to, in any arithmetic, wherever a table that is asked for its last data
  frame has a frame.
Trusted boundary: the seek table holds both lengths of a frame as `u32`
Main exports: Zeekstd.ParsesU32, FrameReader.Ready, Exec.walkFrame_ends, Exec.recordsPerFrame_ends,
  Exec.frameRange_ends
-/
import SeekZstdSep.Core.ExecEdit
import SeekZstdSep.Proofs.Exec
import SeekZstdSep.Proofs.Front

namespace SeekZstdSep

open Lib

/-- The entries are numbers of 32 bits. -/
def SeekTable.InU32 (table : SeekTable) : Prop :=
  ∀ entry ∈ table, entry.1 ≤ u32Max ∧ entry.2 ≤ u32Max

/-- What is parsed of a file is a table of such entries: the format has no others. -/
def Zeekstd.ParsesU32 (zeek : Zeekstd) : Prop :=
  ∀ bytes table, zeek.fromSeekable bytes = .ok table → table.InU32

theorem SeekTable.InU32.frameSizeDecomp_le {table : SeekTable} (h : table.InU32) (i : Nat) :
    table.frameSizeDecomp i ≤ u32Max := by
  rw [SeekTable.frameSizeDecomp, List.getD_eq_getElem?_getD]
  cases hentry : table[i]? with
  | none => exact Nat.zero_le _
  | some entry => exact (h entry (List.mem_of_getElem? hentry)).2

/-- A parsed table has no more frames than a `u32` counts. -/
theorem Zeekstd.length_le {zeek : Zeekstd} {bytes : Bytes} {table : SeekTable}
    (h : zeek.fromSeekable bytes = .ok table) : table.length ≤ u32Max :=
  Nat.le_trans (zeek.fromSeekable_length h) zeek.maxFrames_le

@[simp] theorem length_spansFrom (start : Nat) (table : SeekTable) :
    (spansFrom start table).length = table.length := by
  induction table generalizing start with
  | nil => rfl
  | cons entry table ih => rw [spansFrom, List.length_cons, ih, List.length_cons]

/-- The window of the reader goes over its frames unwatched. -/
structure FrameReader.Ready (reader : FrameReader) : Prop where
  frameEnds : reader.window.frameEnds = []
  cap_pos : 0 < reader.window.cap

/-- What a count leaves of a reader. -/
structure FrameReader.Keeps (reader reader' : FrameReader) : Prop where
  ready : reader'.Ready
  table : reader'.table = reader.table

theorem FrameReader.Keeps.trans {reader reader' reader'' : FrameReader}
    (h : reader.Keeps reader') (h' : reader'.Keeps reader'') : reader.Keeps reader'' :=
  ⟨h'.ready, h'.table.trans h.table⟩

theorem FrameReader.new_ready (zeek : Zeekstd) (f : File) (table : SeekTable) :
    (FrameReader.new zeek f table).Ready where
  frameEnds := rfl
  cap_pos := Nat.zero_lt_succ _

namespace FrameReader.Ready

variable {find : Finder UInt8} {reader reader' : FrameReader} {index count : Nat}

/-- The window over a frame stands before its first record. -/
theorem window_at (h : reader.Ready) (find : Finder UInt8) (content : Bytes) (len : Nat) :
    Window.At find (content.take len) 0 0 ((reader.frameWindow content).seekTo 0 len) := by
  have hnone : (reader.frameWindow content).frameEnds = [] := h.frameEnds
  apply Window.seekTo_at
  · rw [List.drop_zero]
    rfl
  · exact h.cap_pos
  · rw [hnone]
    exact List.Pairwise.nil
  · intro e he
    rw [hnone] at he
    exact absurd he List.not_mem_nil

/-- A count of a frame is of records in it. -/
theorem walkFrame_keeps (h : reader.Ready) {state : Nat × Bool}
    (hwalk : walkFrame find reader index = .ok (state, reader')) :
    reader.Keeps reader' ∧ state.1 ≤ reader.table.frameSizeDecomp index := by
  rw [walkFrame] at hwalk
  by_cases hempty : reader.table.frameSizeDecomp index = 0
  · rw [if_pos hempty] at hwalk
    cases hwalk
    exact ⟨⟨h, rfl⟩, Nat.zero_le _⟩
  · rw [if_neg hempty] at hwalk
    cases hframe : reader.frame index with
    | error e =>
        rw [hframe] at hwalk
        cases hwalk
    | ok content =>
        have hat := h.window_at find content (reader.table.frameSizeDecomp index)
        obtain ⟨w', hcount, -, -⟩ := Records.countRecords_spec hat
        have hsame := Records.countRecords_sameFile find {}
          ((reader.frameWindow content).seekTo 0 (reader.table.frameSizeDecomp index))
        rw [hcount] at hsame
        rw [hframe] at hwalk
        simp only [hcount] at hwalk
        cases hwalk
        constructor
        · constructor
          · constructor
            · exact hsame.frameEnds.trans h.frameEnds
            · exact Nat.lt_of_lt_of_le h.cap_pos hsame.cap_le
          · rfl
        · calc (find.records (content.take (reader.table.frameSizeDecomp index))).length
              ≤ (content.take (reader.table.frameSizeDecomp index)).length :=
                find.length_records_le _
            _ ≤ reader.table.frameSizeDecomp index := List.length_take_le _ _

theorem frameRecords_keeps (h : reader.Ready)
    (hcount : frameRecords find reader index = .ok (count, reader')) :
    reader.Keeps reader' ∧ count ≤ reader.table.frameSizeDecomp index := by
  rw [frameRecords] at hcount
  cases hwalk : walkFrame find reader index with
  | error e =>
      rw [hwalk] at hcount
      cases hcount
  | ok walked =>
      rw [hwalk] at hcount
      cases hcount
      exact h.walkFrame_keeps hwalk

theorem validateSeparator_keeps (h : reader.Ready)
    (hok : validateSeparator find reader = .ok (count, reader')) :
    reader.Keeps reader' ∧ 0 < count ∧ count ≤ reader.table.frameSizeDecomp 0 := by
  have hpos := validateSeparator_pos hok
  rw [validateSeparator] at hok
  split at hok
  · cases hok
  cases hfirst : frameRecords find reader 0 with
  | error e =>
      rw [hfirst] at hok
      cases hok
  | ok first =>
      obtain ⟨hkeeps, hle⟩ := h.frameRecords_keeps hfirst
      rw [hfirst] at hok
      simp only at hok
      split at hok
      · cases hok
      cases hsecond : frameRecords find first.2 (reader.table.length - 2) with
      | error e =>
          rw [hsecond] at hok
          cases hok
      | ok second =>
          obtain ⟨hkeeps', -⟩ := hkeeps.ready.frameRecords_keeps hsecond
          rw [hsecond] at hok
          simp only at hok
          split at hok
          · cases hok
          · cases hok
            exact ⟨hkeeps.trans hkeeps', hpos, hle⟩

theorem recordsPerFrame_keeps (h : reader.Ready) {check : SeparatorCheck}
    (hok : recordsPerFrame find reader check = .ok (count, reader')) :
    reader.Keeps reader' ∧ 0 < count ∧ count ≤ reader.table.frameSizeDecomp 0 := by
  rw [recordsPerFrame] at hok
  split at hok
  · cases hok
  split at hok
  · cases hok
  cases hwalk : walkFrame find reader 0 with
  | error e =>
      rw [hwalk] at hok
      cases hok
  | ok walked =>
      obtain ⟨⟨n, endsWhole⟩, reader₁⟩ := walked
      obtain ⟨hkeeps, hle⟩ := h.walkFrame_keeps hwalk
      rw [hwalk] at hok
      simp only at hok
      split_ifs at hok with hzero hwhole htwo hfull
      · have hpos := Nat.pos_of_ne_zero hzero
        split at hok
        · cases hok
        next hsecond =>
          obtain ⟨hkeeps', -⟩ := hkeeps.ready.frameRecords_keeps hsecond
          split_ifs at hok
          cases hok
          exact ⟨hkeeps.trans hkeeps', hpos, hle⟩
      · cases hok
        exact ⟨hkeeps, Nat.pos_of_ne_zero hzero, hle⟩

end FrameReader.Ready

/-- Every frame that is asked about is counted. -/
theorem length_frameCounts {find : Finder UInt8} {indices : List Nat} :
    ∀ {reader : FrameReader} {counted : List Nat × FrameReader},
      frameCounts find reader indices = .ok counted → counted.1.length = indices.length := by
  induction indices with
  | nil =>
      intro reader counted hok
      cases hok
      rfl
  | cons index indices ih =>
      intro reader counted hok
      rw [frameCounts] at hok
      split at hok
      · cases hok
      · split at hok
        · cases hok
        · next hrest =>
            cases hok
            rw [List.length_cons, List.length_cons, ih hrest]

namespace Exec

variable (mode : Arithmetic) (find : Finder UInt8) {reader reader' : FrameReader}

/-! ### The seek table -/

theorem entryAt_of_lt {table : SeekTable} {index : Nat} (h : index < table.length) :
    entryAt table index = pure (table.frameSizeComp index, table.frameSizeDecomp index) := by
  have hentry : table[index]? = some table[index] := List.getElem?_eq_getElem h
  rw [entryAt, SeekTable.frameSizeComp, SeekTable.frameSizeDecomp, List.getD_eq_getElem?_getD,
    hentry]
  rfl

theorem startComp_of_lt {table : SeekTable} {index : Nat} (h : index < table.length) :
    startComp table index = pure (table.frameStartComp index) := by
  rw [startComp, entryAt_of_lt h, Program.pure_andThen]

theorem endComp_of_lt {table : SeekTable} {index : Nat} (h : index < table.length) :
    endComp table index = pure (table.frameEndComp index) := by
  rw [endComp, entryAt_of_lt h, Program.pure_andThen]

/-- Logging some frames of a table by their indices logs their entries. -/
theorem logFramesRange_ends (zeek : Zeekstd) {table : SeekTable} (hsmall : table.InU32)
    (count : Nat) :
    ∀ (start : Nat) (out : SeekTable), start + count ≤ table.length →
      (logFramesRange mode zeek table out (List.range' start count)).Ends
        (Program.endingOf (logFrames zeek out ((table.drop start).take count))) := by
  induction count with
  | zero =>
      intro start out _
      exact Program.ends_pure _
  | succ count ih =>
      intro start out hle
      have hstart : start < table.length := by omega
      have hcut : (table.drop start).take (count + 1) =
          table[start] :: (table.drop (start + 1)).take count := by
        rw [List.drop_eq_getElem_cons hstart, List.take_succ_cons]
      obtain ⟨hcomp, hdecomp⟩ := hsmall table[start] (List.getElem_mem hstart)
      have hentry : entryAt table start = pure table[start] := by
        rw [entryAt, List.getElem?_eq_getElem hstart]
      have hmax : u32Max < 2 ^ 32 := by decide
      rw [List.range'_succ, logFramesRange, hentry, Program.pure_andThen,
        cast_of_lt (Nat.lt_of_le_of_lt hcomp hmax), Program.pure_andThen,
        cast_of_lt (Nat.lt_of_le_of_lt hdecomp hmax), Program.pure_andThen, hcut, logFrames]
      cases hlog : logFrame zeek out table[start] with
      | error e => exact Program.ends_ofEnding _
      | ok out => exact ih (start + 1) out (by omega)

/-! ### Frames -/

theorem walkFrame_ends (h : reader.Ready) {index : Nat} (hindex : index < reader.table.length) :
    (walkFrame find.find reader index).Ends
      (Program.endingOf (SeekZstdSep.walkFrame find reader index)) := by
  rw [walkFrame, entryAt_of_lt hindex, Program.pure_andThen, SeekZstdSep.walkFrame]
  by_cases hempty : reader.table.frameSizeDecomp index = 0
  · simp only [if_pos hempty]
    exact Program.ends_pure _
  · simp only [if_neg hempty]
    apply (walk_ends find _ none).bind
    cases hframe : reader.frame index with
    | error e => exact Program.ends_ofEnding _
    | ok content =>
        have hat := h.window_at find content (reader.table.frameSizeDecomp index)
        obtain ⟨n, w', hmodel, hcode⟩ := countRecords_ends hat
        simp only [hmodel]
        exact hcode.bind (Program.ends_pure _)

theorem frameRecords_ends (h : reader.Ready) {index : Nat}
    (hindex : index < reader.table.length) :
    (frameRecords find.find reader index).Ends
      (Program.endingOf (SeekZstdSep.frameRecords find reader index)) := by
  have hwalk := walkFrame_ends find h hindex
  rw [SeekZstdSep.frameRecords]
  cases hwalked : SeekZstdSep.walkFrame find reader index with
  | error e =>
      rw [hwalked] at hwalk
      exact hwalk.bind_failed
  | ok walked =>
      rw [hwalked] at hwalk
      exact hwalk.bind (Program.ends_pure _)

theorem frameCounts_ends (indices : List Nat) :
    ∀ {reader : FrameReader}, reader.Ready → (∀ i ∈ indices, i < reader.table.length) →
      (frameCounts find.find reader indices).Ends
        (Program.endingOf (SeekZstdSep.frameCounts find reader indices)) := by
  induction indices with
  | nil =>
      intro reader _ _
      exact Program.ends_pure _
  | cons index indices ih =>
      intro reader h hin
      have hone := frameRecords_ends find h (hin index List.mem_cons_self)
      rw [frameCounts, SeekZstdSep.frameCounts]
      cases hheld : SeekZstdSep.frameRecords find reader index with
      | error e =>
          rw [hheld] at hone
          exact hone.bind_failed
      | ok held =>
          obtain ⟨hkeeps, -⟩ := h.frameRecords_keeps hheld
          have hrest := ih hkeeps.ready fun i hi => by
            rw [hkeeps.table]
            exact hin i (List.mem_cons_of_mem _ hi)
          rw [hheld] at hone
          apply hone.bind
          simp only
          cases hcounts : SeekZstdSep.frameCounts find held.2 indices with
          | error e =>
              rw [hcounts] at hrest
              exact hrest.bind_failed
          | ok counts =>
              rw [hcounts] at hrest
              exact hrest.bind (Program.ends_pure _)

/-- Each round goes one frame back. -/
theorem lastDataFrom_ends (table : SeekTable) (last : Nat) :
    last < table.length →
      (Program.loop (lastDataRound mode table) last).Ends
        (.returned (lastDataFrameFrom table last)) := by
  induction last with
  | zero =>
      intro _
      exact Program.Ends.loop_done (Program.ends_pure _)
  | succ last ih =>
      intro hlast
      have hround : lastDataRound mode table (last + 1) =
          if table.frameSizeDecomp (last + 1) = 0 then pure (.again last)
          else pure (.done (last + 1)) := by
        rw [lastDataRound, if_pos (Nat.succ_pos last), entryAt_of_lt hlast, Program.pure_andThen,
          sub_of_le (Nat.succ_pos last), Program.pure_andThen]
        rfl
      rw [lastDataFrameFrom]
      by_cases hempty : table.frameSizeDecomp (last + 1) = 0
      · rw [if_pos hempty] at hround ⊢
        apply Program.Ends.loop_again _ (ih (Nat.lt_of_succ_lt hlast))
        rw [hround]
        exact Program.ends_pure _
      · rw [if_neg hempty] at hround ⊢
        apply Program.Ends.loop_done
        rw [hround]
        exact Program.ends_pure _

theorem lastDataFrame_ends {table : SeekTable} (hne : table ≠ []) :
    (lastDataFrame mode table).Ends (Program.endingOf (SeekZstdSep.lastDataFrame table)) := by
  have hpos := List.length_pos_iff.mpr hne
  rw [lastDataFrame, sub_of_le hpos, Program.pure_andThen, SeekZstdSep.lastDataFrame,
    if_neg (Nat.pos_iff_ne_zero.mp hpos)]
  exact lastDataFrom_ends mode table _ (Nat.sub_lt hpos Nat.one_pos)

/-! ### What is checked first -/

theorem validateSeparator_ends (h : reader.Ready) :
    (validateSeparator mode find.find reader).Ends
      (Program.endingOf (SeekZstdSep.validateSeparator find reader)) := by
  rw [validateSeparator, SeekZstdSep.validateSeparator]
  by_cases hfew : reader.table.length < 3
  · simp only [if_pos hfew]
    exact Program.ends_ofEnding _
  · have hfirst := frameRecords_ends find h (show 0 < reader.table.length by omega)
    simp only [if_neg hfew]
    cases hcount : SeekZstdSep.frameRecords find reader 0 with
    | error e =>
        rw [hcount] at hfirst
        exact hfirst.bind_failed
    | ok first =>
        obtain ⟨hkeeps, -⟩ := h.frameRecords_keeps hcount
        rw [hcount] at hfirst
        apply hfirst.bind
        simp only
        split
        · exact Program.ends_ofEnding _
        have hlast : reader.table.length - 2 < first.2.table.length := by
          rw [hkeeps.table]
          omega
        have hsecond := frameRecords_ends find hkeeps.ready hlast
        rw [sub_of_le (by omega), Program.pure_andThen]
        cases hcount' : SeekZstdSep.frameRecords find first.2 (reader.table.length - 2) with
        | error e =>
            rw [hcount'] at hsecond
            exact hsecond.bind_failed
        | ok second =>
            rw [hcount'] at hsecond
            apply hsecond.bind
            simp only
            split
            · exact Program.ends_ofEnding _
            · exact Program.ends_pure _

theorem recordsPerFrame_ends (h : reader.Ready) (hne : reader.table ≠ [])
    (check : SeparatorCheck) :
    (recordsPerFrame mode find.find reader check).Ends
      (Program.endingOf (SeekZstdSep.recordsPerFrame find reader check)) := by
  have hlast := lastDataFrame_ends mode hne
  rw [recordsPerFrame, SeekZstdSep.recordsPerFrame]
  cases hframe : SeekZstdSep.lastDataFrame reader.table with
  | error e =>
      rw [hframe] at hlast
      exact hlast.bind_failed
  | ok last =>
      have hlt := lastDataFrame_lt hframe
      rw [hframe] at hlast
      apply hlast.bind
      simp only
      by_cases hzero : last = 0
      · simp only [if_pos hzero]
        exact Program.ends_ofEnding _
      have hwalk := walkFrame_ends find h (show 0 < reader.table.length by omega)
      simp only [if_neg hzero]
      cases hwalked : SeekZstdSep.walkFrame find reader 0 with
      | error e =>
          rw [hwalked] at hwalk
          exact hwalk.bind_failed
      | ok walked =>
          obtain ⟨hkeeps, -⟩ := h.walkFrame_keeps hwalked
          rw [hwalked] at hwalk
          apply hwalk.bind
          simp only
          split
          · exact Program.ends_ofEnding _
          split
          · exact Program.ends_ofEnding _
          split
          · rw [sub_of_le (Nat.pos_of_ne_zero hzero), Program.pure_andThen]
            split
            · exact Program.ends_ofEnding _
            have hfull : last - 1 < walked.2.table.length := by
              rw [hkeeps.table]
              omega
            have hsecond := frameRecords_ends find hkeeps.ready hfull
            cases hcount : SeekZstdSep.frameRecords find walked.2 (last - 1) with
            | error e =>
                rw [hcount] at hsecond
                exact hsecond.bind_failed
            | ok second =>
                rw [hcount] at hsecond
                apply hsecond.bind
                simp only
                split
                · exact Program.ends_ofEnding _
                · exact Program.ends_pure _
          · exact Program.ends_pure _

/-! ### What is copied -/

/-- Every frame that is judged lies below the end of the range. -/
theorem judgeRange_ends {n last k j : Nat} (hj : j ≤ u32Max) (counts : List Nat) :
    ∀ offset, k + offset + counts.length ≤ j →
      (judgeRange mode n last k j offset counts).Ends
        (Program.endingOf (SeekZstdSep.judgeRange n last j (k + offset) counts)) := by
  have hmax : u32Max < 2 ^ 32 := by decide
  induction counts with
  | nil =>
      intro offset _
      exact Program.ends_pure _
  | cons held counts ih =>
      intro offset hle
      rw [List.length_cons] at hle
      have hrest := ih (offset + 1) (by omega)
      rw [judgeRange, SeekZstdSep.judgeRange, cast_of_lt (by omega), Program.pure_andThen,
        add_of_lt (by omega), Program.pure_andThen]
      split
      · exact hrest
      · rw [sub_of_le (by omega), Program.pure_andThen]
        split
        · exact hrest
        · exact Program.ends_ofEnding _

theorem checkRangeUniform_ends (h : reader.Ready) {n k j : Nat} (hkj : k ≤ j)
    (hj : j ≤ reader.table.length) (hne : reader.table ≠ [])
    (hsmall : reader.table.length ≤ u32Max) :
    (checkRangeUniform mode find.find reader n k j).Ends
      (Program.endingOf (SeekZstdSep.checkRangeUniform find reader n k j)) := by
  have hlast := lastDataFrame_ends mode hne
  have hin : ∀ i ∈ List.range' k (j - k), i < reader.table.length := by
    intro i hi
    have := List.mem_range'_1.mp hi
    omega
  have hcounts := frameCounts_ends find _ h hin
  rw [checkRangeUniform, SeekZstdSep.checkRangeUniform]
  cases hframe : SeekZstdSep.lastDataFrame reader.table with
  | error e =>
      rw [hframe] at hlast
      exact hlast.bind_failed
  | ok last =>
      rw [hframe] at hlast
      apply hlast.bind
      simp only
      cases hcounted : SeekZstdSep.frameCounts find reader (List.range' k (j - k)) with
      | error e =>
          rw [hcounted] at hcounts
          exact hcounts.bind_failed
      | ok counted =>
          have hlength := length_frameCounts hcounted
          rw [List.length_range'] at hlength
          rw [hcounted] at hcounts
          apply hcounts.bind
          apply judgeRange_ends mode (Nat.le_trans hj hsmall) counted.1 0
          omega

/-- The last frame a range can end behind. -/
theorem frameRange_bounds {find : Finder UInt8} {n fromIdx k j : Nat} {cnt tail : Option Nat}
    (hok : SeekZstdSep.frameRange find reader n fromIdx cnt = .ok (k, j, tail)) :
    k < reader.table.length ∧ j ≤ reader.table.length := by
  rw [SeekZstdSep.frameRange] at hok
  cases hframe : SeekZstdSep.lastDataFrame reader.table with
  | error e =>
      rw [hframe] at hok
      cases hok
  | ok last =>
      have hlt := lastDataFrame_lt hframe
      rw [hframe] at hok
      simp only at hok
      split_ifs at hok with hinside hpast
      split at hok
      · next ended hended =>
          obtain ⟨-, hfits⟩ := Option.filter_eq_some_iff.mp hended
          have hend : ended / n ≤ last := (of_decide_eq_true hfits).2
          cases hok
          omega
      · split at hok
        · cases hok
        · split at hok
          · cases hok
          · cases hok
            omega

/-- The records of a file of `u32` frames are counted in 64 bits. -/
theorem total_lt {n last tail : Nat} (hn : n ≤ u32Max) (hlast : last ≤ u32Max)
    (htail : tail ≤ u32Max) : n * last + tail < 2 ^ 64 := by
  have hmax : u32Max = 4294967295 := by decide
  have hmul : n * last ≤ 4294967295 * 4294967295 := Nat.mul_le_mul (hmax ▸ hn) (hmax ▸ hlast)
  omega

theorem frameRange_ends (h : reader.Ready) (hne : reader.table ≠ [])
    (hsmall : reader.table.length ≤ u32Max) (hentries : reader.table.InU32) {n : Nat}
    (hpos : 0 < n) (hn : n ≤ u32Max) (fromIdx : Nat) (cnt : Option Nat) :
    (frameRange mode find.find reader n fromIdx cnt).Ends
      (Program.endingOf (SeekZstdSep.frameRange find reader n fromIdx cnt)) := by
  have hmax : u32Max < 2 ^ 32 := by decide
  have hlast := lastDataFrame_ends mode hne
  rw [frameRange, SeekZstdSep.frameRange]
  cases hframe : SeekZstdSep.lastDataFrame reader.table with
  | error e =>
      rw [hframe] at hlast
      exact hlast.bind_failed
  | ok last =>
      have hlt := lastDataFrame_lt hframe
      rw [hframe] at hlast
      apply hlast.bind
      simp only
      rw [rem_of_pos hpos, Program.pure_andThen]
      split
      · exact Program.ends_ofEnding _
      rw [div_of_pos hpos, Program.pure_andThen]
      split
      · rw [add_of_lt (by omega), Program.pure_andThen]
        exact Program.ends_ofEnding _
      rw [cast_of_lt (by omega), Program.pure_andThen]
      generalize hended : (cnt.bind fun c =>
        if fromIdx + c ≤ usizeMax then some (fromIdx + c) else none).filter
          (fun ended => ended % n = 0 ∧ ended / n ≤ last) = ended
      cases ended with
      | some ended =>
          obtain ⟨-, hfits⟩ := Option.filter_eq_some_iff.mp hended
          have hend : ended / n ≤ last := (of_decide_eq_true hfits).2
          simp only
          rw [cast_of_lt (by omega), Program.pure_andThen]
          exact Program.ends_pure _
      | none =>
          have hread := frameRecords_ends find h hlt
          simp only
          cases htail : SeekZstdSep.frameRecords find reader last with
          | error e =>
              rw [htail] at hread
              exact hread.bind_failed
          | ok tail =>
              obtain ⟨-, hle⟩ := h.frameRecords_keeps htail
              have hfits := total_lt hn (Nat.le_trans (Nat.le_of_lt hlt) hsmall)
                (Nat.le_trans hle (hentries.frameSizeDecomp_le last))
              rw [htail] at hread
              apply hread.bind
              rw [mul_of_lt (by omega), Program.pure_andThen, add_of_lt hfits,
                Program.pure_andThen]
              simp only
              cases cnt.filter (fun c => saturatingAdd fromIdx c ≠ n * last + tail.1) with
              | some c => exact Program.ends_ofEnding _
              | none =>
                  simp only
                  rw [add_of_lt (by omega), Program.pure_andThen]
                  exact Program.ends_pure _

end Exec

end SeekZstdSep
