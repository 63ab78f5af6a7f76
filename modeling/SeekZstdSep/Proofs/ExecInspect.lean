/-
Module: SeekZstdSep.Proofs.ExecInspect
Purpose: An inspection comes to an end of its own exactly where no empty separator is looked for in
  a frame and the fast mode does not come to the second frame of two.
Trusted boundary: a decoder opens over every table that is parsed
Main exports: InspectOptions.inspects, Inspectable, Exec.counts_of_finder,
  Exec.inspectWithOpts_nil_diverges, Exec.inspectWithOpts_settles_iff
-/
import SeekZstdSep.Core.ExecEntry
import SeekZstdSep.Proofs.ExecFrames

namespace SeekZstdSep

open Lib

theorem bySeparator_nil (data : Bytes) : bySeparator [] data = some 0 := by
  cases data <;> rfl

/-- Whether an inspection counts the records of frame `i`. -/
def InspectOptions.inspects (opts : InspectOptions) (frameLen i : Nat) : Bool :=
  !opts.fastMode || i == 0 || decide (frameLen < i + 3)

/-- The frame holds something, and the decoder fails on it. -/
def Unreadable (zeek : Zeekstd) (f : File) (table : SeekTable) (i : Nat) : Prop :=
  table.frameSizeDecomp i ≠ 0 ∧ ∃ e, zeek.decodeFrame f.bytes table i = .error e

/-- What lets an inspection come to an end of its own: no empty separator is looked for in a frame,
and the fast mode does not come to the second frame of two. -/
structure Inspectable (zeek : Zeekstd) (opts : InspectOptions) (separator : Bytes) (f : File)
    (table : SeekTable) : Prop where
  two : opts.fastMode = true → table.length = 2 → separator ≠ [] ∧ Unreadable zeek f table 0
  unseparated : separator = [] → ∀ i < table.length, opts.inspects table.length i = true →
    table.frameSizeDecomp i = 0

namespace Exec

variable {zeek : Zeekstd} {find : RawFind} {reader : FrameReader} {index : Nat}

/-! ### What is looked for in nothing -/

/-- An empty separator is found in what is left however often it was found before. -/
theorem walk_nil_diverges (w : Window) : (walk (bySeparator []) w none).Diverges := by
  apply Program.loop_diverges (fun _ => True) _ trivial
  intro walked _
  refine ⟨(walked.1 + 0, walked.2 + 1), trivial, ?_⟩
  rw [walkRound, bySeparator_nil]
  exact Program.ends_pure _

theorem frameRecords_nil_diverges (hindex : index < reader.table.length)
    (hdata : reader.table.frameSizeDecomp index ≠ 0) :
    (frameRecords (bySeparator []) reader index).Diverges := by
  rw [frameRecords, walkFrame, entryAt_of_lt hindex, Program.pure_andThen, if_neg hdata]
  exact (walk_nil_diverges _).bind.bind

/-- In an empty frame nothing is looked for. -/
theorem frameRecords_of_empty (hindex : index < reader.table.length)
    (hempty : reader.table.frameSizeDecomp index = 0) :
    frameRecords find reader index = pure (0, reader) := by
  rw [frameRecords, walkFrame, entryAt_of_lt hindex, Program.pure_andThen, if_pos hempty,
    Program.pure_andThen]

/-! ### Frames that can be counted -/

/-- A count of the frame comes to an end and leaves the reader as it has to be. -/
structure Counts (find : RawFind) (reader : FrameReader) (index : Nat) : Prop where
  settles : (frameRecords find reader index).Settles
  keeps : ∀ {counted}, (frameRecords find reader index).Ends (.returned counted) →
    reader.Keeps counted.2

/-- A separator that is not empty is looked for in any frame, and one that the table does not have
is refused. -/
theorem counts_of_finder (find : Finder UInt8) (h : reader.Ready) (index : Nat) :
    Counts find.find reader index := by
  by_cases hindex : index < reader.table.length
  · have hends := frameRecords_ends find h hindex
    constructor
    · exact hends.settles
    · intro counted hcounted
      have hsame := hends.unique hcounted
      cases hmodel : SeekZstdSep.frameRecords find reader index with
      | error e =>
          rw [hmodel] at hsame
          cases hsame
      | ok counted' =>
          rw [hmodel] at hsame
          cases hsame
          exact (h.frameRecords_keeps hmodel).1
  · have hentry : entryAt reader.table index = Program.fail .frameIndexTooLarge := by
      rw [entryAt, List.getElem?_eq_none (Nat.le_of_not_lt hindex)]
    have hfail : frameRecords find.find reader index = Program.fail .frameIndexTooLarge := by
      rw [frameRecords, walkFrame, hentry, Program.fail_andThen, Program.fail_andThen]
    constructor
    · rw [hfail]
      exact Program.settles_fail _
    · intro counted hcounted
      rw [hfail] at hcounted
      cases (Program.ends_ofEnding _).unique hcounted

theorem counts_of_empty (h : reader.Ready) (hindex : index < reader.table.length)
    (hempty : reader.table.frameSizeDecomp index = 0) : Counts find reader index := by
  have hpure := @frameRecords_of_empty find reader index hindex hempty
  constructor
  · rw [hpure]
    exact Program.settles_pure _
  · intro counted hcounted
    rw [hpure] at hcounted
    cases (Program.ends_pure _).unique hcounted
    exact ⟨h, rfl⟩

theorem frameCounts_settles (find : Finder UInt8) (indices : List Nat) :
    ∀ {reader : FrameReader}, reader.Ready → (frameCounts find.find reader indices).Settles := by
  induction indices with
  | nil =>
      intro reader _
      exact Program.settles_pure _
  | cons index indices ih =>
      intro reader h
      have hcounts := counts_of_finder find h index
      apply hcounts.settles.bind
      intro held hheld
      apply (ih (hcounts.keeps hheld).ready).bind
      intro counts _
      exact Program.settles_pure _

/-! ### The inspection -/

section Inspection

variable {mode : Arithmetic} {opts : InspectOptions} {sep : Bytes} {frameLen i : Nat}

theorem countsFrame_eq (mode : Arithmetic) (htwo : opts.fastMode = true → frameLen ≠ 2)
    (hi : i < frameLen) :
    countsFrame mode opts.fastMode frameLen i = pure (opts.inspects frameLen i) := by
  rw [countsFrame, InspectOptions.inspects]
  by_cases hfirst : (!opts.fastMode || i == 0) = true
  · rw [if_pos hfirst, hfirst, Bool.true_or]
  · have hthree : 3 ≤ frameLen := by
      simp only [Bool.or_eq_true, Bool.not_eq_true', beq_iff_eq, not_or,
        Bool.not_eq_false] at hfirst
      have hne := htwo hfirst.1
      omega
    have hbound : decide (frameLen - 3 < i) = decide (frameLen < i + 3) :=
      decide_eq_decide.mpr (by omega)
    rw [if_neg hfirst, sub_of_le hthree, Program.pure_andThen, hbound]
    rw [Bool.not_eq_true] at hfirst
    rw [hfirst, Bool.false_or]

theorem countsFrame_zero (mode : Arithmetic) (fastMode : Bool) (frameLen : Nat) :
    countsFrame mode fastMode frameLen 0 = pure true := by
  rw [countsFrame, beq_self_eq_true, Bool.or_true, if_pos rfl]

/-- What is taken from the cache needs no count. -/
theorem counts_cntOfSep (cache : Nat) (h : reader.Ready) {counts : Bool}
    (hcounts : counts = true → Counts find reader i) :
    (cntOfSep find counts cache reader i).Settles ∧
      ∀ counted, (cntOfSep find counts cache reader i).Ends (.returned counted) →
        reader.Keeps counted.2 := by
  cases counts with
  | true => exact ⟨(hcounts rfl).settles, fun _ => (hcounts rfl).keeps⟩
  | false =>
      constructor
      · exact Program.settles_pure _
      · intro counted hcounted
        cases (Program.ends_pure _).unique hcounted
        exact ⟨h, rfl⟩

/-- A walk comes to an end where every frame it counts can be counted. -/
theorem inspectFramesFrom_settles {table : SeekTable}
    (htwo : opts.fastMode = true → frameLen ≠ 2)
    (hcounts : ∀ {reader : FrameReader}, reader.Ready → reader.table = table →
      ∀ i < frameLen, opts.inspects frameLen i = true → Counts find reader i) (spans : Spans) :
    ∀ {i cache : Nat} {reader : FrameReader}, i + spans.length = frameLen → reader.Ready →
      reader.table = table →
        (inspectFramesFrom mode find opts sep frameLen i spans cache reader).Settles := by
  induction spans with
  | nil =>
      intro i cache reader _ _ _
      exact Program.settles_pure _
  | cons span spans ih =>
      intro i cache reader hlen hready htable
      rw [List.length_cons] at hlen
      have hi : i < frameLen := by omega
      have hframe := counts_cntOfSep cache hready (hcounts hready htable i hi)
      rw [inspectFramesFrom, countsFrame_eq mode htwo hi, Program.pure_andThen]
      apply hframe.1.bind
      intro counted hcounted
      have hkeeps := hframe.2 counted hcounted
      apply (ih (by omega) hkeeps.ready (hkeeps.table.trans htable)).bind
      intro results _
      exact Program.settles_pure _

/-- A walk that looks for an empty separator comes to an end only where each frame it counts is
empty. -/
theorem inspectFramesFrom_nil (htwo : opts.fastMode = true → frameLen ≠ 2) (spans : Spans) :
    ∀ {i cache : Nat} {reader : FrameReader}, i + spans.length = frameLen →
      frameLen = reader.table.length →
        (inspectFramesFrom mode (bySeparator []) opts sep frameLen i spans cache reader).Settles →
          ∀ j, i ≤ j → j < frameLen → opts.inspects frameLen j = true →
            reader.table.frameSizeDecomp j = 0 := by
  induction spans with
  | nil =>
      intro i cache reader hlen _ _ j hij hj
      rw [List.length_nil, Nat.add_zero] at hlen
      omega
  | cons span spans ih =>
      intro i cache reader hlen hlength hsettles j hij hj hin
      rw [List.length_cons] at hlen
      have hi : i < frameLen := by omega
      have hindex : i < reader.table.length := hlength ▸ hi
      rw [inspectFramesFrom, countsFrame_eq mode htwo hi, Program.pure_andThen] at hsettles
      by_cases hone : opts.inspects frameLen i = true
      · rw [hone, cntOfSep, if_pos rfl] at hsettles
        by_cases hempty : reader.table.frameSizeDecomp i = 0
        · rw [frameRecords_of_empty hindex hempty, Program.pure_andThen] at hsettles
          rcases Nat.eq_or_lt_of_le hij with rfl | hlt
          · exact hempty
          · exact ih (by omega) hlength hsettles.of_bind_left j hlt hj hin
        · exact absurd hsettles.of_bind_left (frameRecords_nil_diverges hindex hempty).not_settles
      · rw [cntOfSep, if_neg hone, Program.pure_andThen] at hsettles
        rcases Nat.eq_or_lt_of_le hij with rfl | hlt
        · exact absurd hin hone
        · exact ih (by omega) hlength hsettles.of_bind_left j hlt hj hin

/-- Behind the first frame of two the fast mode comes to an index below 0. -/
theorem inspectFramesFrom_two (hfast : opts.fastMode = true) {first second : Nat × Nat}
    {cache : Nat} {counted : Nat × FrameReader}
    (hcounted : (frameRecords find reader 0).Ends (.returned counted)) :
    (inspectFramesFrom .checked find opts sep 2 0 [first, second] cache reader).Ends
      (.faulted .underflow) := by
  have hone : countsFrame .checked opts.fastMode 2 1 = Program.fault .underflow := by
    rw [hfast]
    rfl
  have hrest : ∀ cache reader,
      (inspectFramesFrom .checked find opts sep 2 1 [second] cache reader).Ends
        (.faulted .underflow) := by
    intro cache reader
    rw [inspectFramesFrom, hone, Program.fault_andThen]
    exact Program.ends_ofEnding _
  rw [inspectFramesFrom, countsFrame_zero, Program.pure_andThen, cntOfSep, if_pos rfl]
  apply hcounted.bind
  exact (hrest _ _).bind_faulted

/-- Where the first frame cannot be counted it does not come so far. -/
theorem inspectFramesFrom_failed {span : Nat × Nat} {spans : Spans} {cache : Nat} {e : Error}
    (hcounted : (frameRecords find reader 0).Ends (.failed e)) :
    (inspectFramesFrom mode find opts sep frameLen 0 (span :: spans) cache reader).Ends
      (.failed e) := by
  rw [inspectFramesFrom, countsFrame_zero, Program.pure_andThen, cntOfSep, if_pos rfl]
  exact hcounted.bind_failed

/-- In the first frame an empty separator is looked for in any mode. -/
theorem inspectFramesFrom_nil_diverges {span : Nat × Nat} {spans : Spans} {cache : Nat}
    (hindex : 0 < reader.table.length) (hdata : reader.table.frameSizeDecomp 0 ≠ 0) :
    (inspectFramesFrom mode (bySeparator []) opts sep frameLen 0 (span :: spans) cache
      reader).Diverges := by
  rw [inspectFramesFrom, countsFrame_zero, Program.pure_andThen, cntOfSep, if_pos rfl]
  exact (frameRecords_nil_diverges hindex hdata).bind

variable {f : File} {table : SeekTable} {separator : Bytes}

/-- A frame that can be decoded can be counted. -/
theorem frameRecords_ok (find : Finder UInt8)
    (hreadable : ¬ Unreadable zeek f table index) :
    ∃ counted, SeekZstdSep.frameRecords find (.new zeek f table) index = .ok counted := by
  rw [SeekZstdSep.frameRecords, SeekZstdSep.walkFrame]
  by_cases hempty : table.frameSizeDecomp index = 0
  · have hsize : (FrameReader.new zeek f table).table.frameSizeDecomp index = 0 := hempty
    rw [if_pos hsize]
    exact ⟨_, rfl⟩
  · have hsize : (FrameReader.new zeek f table).table.frameSizeDecomp index ≠ 0 := hempty
    rw [if_neg hsize]
    cases hframe : (FrameReader.new zeek f table).frame index with
    | error e => exact absurd ⟨hempty, e, hframe⟩ hreadable
    | ok content =>
        have hready := FrameReader.new_ready zeek f table
        obtain ⟨n, w', hcount, -⟩ := countRecords_ends (hready.window_at find content
          ((FrameReader.new zeek f table).table.frameSizeDecomp index))
        simp only [hcount]
        exact ⟨_, rfl⟩

theorem frameRecords_error (find : Finder UInt8) (hunread : Unreadable zeek f table index) :
    ∃ e, SeekZstdSep.frameRecords find (.new zeek f table) index = .error e := by
  obtain ⟨hdata, e, hframe⟩ := hunread
  have hsize : (FrameReader.new zeek f table).table.frameSizeDecomp index ≠ 0 := hdata
  have hfails : (FrameReader.new zeek f table).frame index = .error e := hframe
  refine ⟨e, ?_⟩
  rw [SeekZstdSep.frameRecords, SeekZstdSep.walkFrame, if_neg hsize, hfails]

/-- The fast mode comes to an end over two frames only where it fails on the first. -/
theorem inspectable_two_of_settles (hfast : opts.fastMode = true) (hlen : table.length = 2)
    {spans : Spans} (hspans : spans.length = 2)
    (h : (inspectFramesFrom .checked (bySeparator separator) opts separator 2 0 spans 0
      (.new zeek f table)).Settles) : separator ≠ [] ∧ Unreadable zeek f table 0 := by
  obtain ⟨first, second, rfl⟩ := List.length_eq_two.mp hspans
  have hindex : 0 < (FrameReader.new zeek f table).table.length := by
    show 0 < table.length
    omega
  by_cases hsep : separator = []
  · subst hsep
    by_cases hempty : (FrameReader.new zeek f table).table.frameSizeDecomp 0 = 0
    · have hpure := @frameRecords_of_empty (bySeparator []) _ 0 hindex hempty
      have hcounted : (frameRecords (bySeparator []) (.new zeek f table) 0).Ends
          (.returned (0, .new zeek f table)) := by
        rw [hpure]
        exact Program.ends_pure _
      exact absurd h (inspectFramesFrom_two hfast hcounted).not_settles
    · exact absurd h (inspectFramesFrom_nil_diverges hindex hempty).not_settles
  · refine ⟨hsep, ?_⟩
    by_contra hreadable
    obtain ⟨counted, hmodel⟩ := frameRecords_ok (separatorFinder separator hsep) hreadable
    have hends := frameRecords_ends (separatorFinder separator hsep)
      (FrameReader.new_ready zeek f table) hindex
    rw [hmodel] at hends
    exact (inspectFramesFrom_two hfast hends).not_settles h

/-- The walk over the frames of a file comes to an end, in any build, exactly where its separator
and its mode allow it. -/
theorem inspectFramesFrom_settles_iff {spans : Spans} (hspans : spans.length = table.length) :
    (∀ mode, (inspectFramesFrom mode (bySeparator separator) opts separator spans.length 0 spans 0
      (.new zeek f table)).Settles) ↔ Inspectable zeek opts separator f table := by
  constructor
  · intro h
    constructor
    · intro hfast hlen
      have hchecked := h .checked
      rw [hspans, hlen] at hchecked
      exact inspectable_two_of_settles hfast hlen (hspans.trans hlen) hchecked
    · rintro rfl i hi hin
      by_cases htwo : opts.fastMode = true ∧ table.length = 2
      · have hchecked := h .checked
        rw [hspans, htwo.2] at hchecked
        exact absurd rfl
          (inspectable_two_of_settles htwo.1 htwo.2 (hspans.trans htwo.2) hchecked).1
      · rw [not_and] at htwo
        rw [← hspans] at htwo hi hin
        exact inspectFramesFrom_nil htwo spans (Nat.zero_add _) hspans (h .checked) i
          (Nat.zero_le _) hi hin
  · intro h mode
    by_cases htwo : opts.fastMode = true ∧ table.length = 2
    · obtain ⟨hsep, hunread⟩ := h.two htwo.1 htwo.2
      have hindex : 0 < (FrameReader.new zeek f table).table.length := by
        show 0 < table.length
        omega
      have hends := frameRecords_ends (separatorFinder separator hsep)
        (FrameReader.new_ready zeek f table) hindex
      obtain ⟨e, hmodel⟩ := frameRecords_error (separatorFinder separator hsep) hunread
      obtain ⟨first, second, rfl⟩ := List.length_eq_two.mp (hspans.trans htwo.2)
      rw [hmodel] at hends
      exact ⟨.error e, inspectFramesFrom_failed hends⟩
    · rw [not_and, ← hspans] at htwo
      apply inspectFramesFrom_settles htwo _ spans (Nat.zero_add _)
        (FrameReader.new_ready zeek f table) rfl
      intro reader hready htable i hi hin
      by_cases hsep : separator = []
      · rw [hspans] at hi hin
        have hempty := h.unseparated hsep i hi hin
        have hsame : reader.table = table := htable
        rw [← hsame] at hi hempty
        exact counts_of_empty hready hi hempty
      · exact counts_of_finder (separatorFinder separator hsep) hready i

theorem inspectWithOpts_of_parsed (hparse : zeek.fromSeekable f.bytes = .ok table)
    (label : String) :
    inspectWithOpts mode zeek (.ok f) label separator opts =
      if table.isEmpty then Program.fail (.noFrames label)
      else
        inspectFramesFrom mode (bySeparator separator) opts separator
          (spansFrom 0 table).length 0 (spansFrom 0 table) 0 (.new zeek f table) := by
  rw [inspectWithOpts, openTable, Program.ofExcept_ok, Program.pure_andThen, hparse]
  cases table <;> rfl

/-- An inspection with an empty separator of a file whose first frame is not empty goes on for
ever. -/
theorem inspectWithOpts_nil_diverges (mode : Arithmetic)
    (hparse : zeek.fromSeekable f.bytes = .ok table) (hdata : table.frameSizeDecomp 0 ≠ 0)
    (label : String) : (inspectWithOpts mode zeek (.ok f) label [] opts).Diverges := by
  rw [inspectWithOpts_of_parsed hparse]
  cases table with
  | nil => exact absurd rfl hdata
  | cons entry table =>
      have hindex : 0 < (FrameReader.new zeek f (entry :: table)).table.length :=
        Nat.succ_pos table.length
      rw [List.isEmpty_cons, if_neg Bool.false_ne_true, spansFrom]
      exact inspectFramesFrom_nil_diverges hindex hdata

theorem inspectWithOpts_settles_iff (opened : Except Error File) (label : String) :
    (∀ mode, (inspectWithOpts mode zeek opened label separator opts).Settles) ↔
      ∀ f table, opened = .ok f → zeek.fromSeekable f.bytes = .ok table →
        Inspectable zeek opts separator f table := by
  cases opened with
  | error e =>
      apply iff_of_true
      · intro mode
        exact Program.settles_fail e
      · rintro f table ⟨⟩
  | ok f =>
      cases hparse : zeek.fromSeekable f.bytes with
      | error e =>
          apply iff_of_true
          · intro mode
            rw [inspectWithOpts, openTable, Program.ofExcept_ok, Program.pure_andThen, hparse]
            exact Program.settles_fail e
          · rintro f' table ⟨⟩ htable
            rw [hparse] at htable
            cases htable
      | ok table =>
          simp only [inspectWithOpts_of_parsed hparse]
          have hwhole : (∀ f' table', (Except.ok f : Except Error File) = .ok f' →
              zeek.fromSeekable f'.bytes = .ok table' →
                Inspectable zeek opts separator f' table') ↔
              Inspectable zeek opts separator f table := by
            constructor
            · intro h
              exact h f table rfl hparse
            · rintro h f' table' ⟨⟩ htable
              rw [hparse] at htable
              cases htable
              exact h
          rw [hwhole]
          cases table with
          | nil =>
              apply iff_of_true
              · intro mode
                exact Program.settles_fail _
              · constructor
                · rintro - ⟨⟩
                · rintro - i hi
                  exact absurd hi (Nat.not_lt_zero i)
          | cons entry table =>
              exact inspectFramesFrom_settles_iff (length_spansFrom 0 (entry :: table))

end Inspection

end Exec

end SeekZstdSep
