/-
Module: SeekZstdSep.Proofs.Framing
Purpose: The frames a compression leaves. They hold what was read, whatever the reads it came in,
  and each but the last is as many records as the options ask for, unless records that belong in
  one frame are more than the library puts into one.
Trusted boundary: the library, as `Zeekstd` has it
Main exports: CutRule.Fills, CutRule.Short, Framed, framed_iff, convert_made,
  compress_framing_iff
-/
import SeekZstdSep.Core.StoredFrames
import SeekZstdSep.Proofs.Loop
import SeekZstdSep.Proofs.Frames

namespace SeekZstdSep

open Lib

variable {zeek : Zeekstd} {find : Finder UInt8}

namespace CutRule

/-- A frame that is as the rule has it: `n` whole records and nothing else, or the shortest run of
whole records that reaches so many bytes. -/
def Fills (rule : CutRule) (find : Finder UInt8) (g : Bytes) : Prop :=
  match rule with
  | .records n => find.Full n g
  | .bytes size =>
      find.rest g = [] ∧ size ≤ g.length ∧ find.offset g ((find.records g).length - 1) < size
  | .all => False

/-- A frame in which none is due: fewer than `n` whole records, or whole records that do not reach
so many bytes, and whatever follows them. -/
def Short (rule : CutRule) (find : Finder UInt8) (g : Bytes) : Prop :=
  match rule with
  | .records n => (find.records g).length < n
  | .bytes size => find.offset g (find.records g).length < size
  | .all => True

/-- A frame takes something. -/
def Pos : CutRule → Prop
  | .records n => 0 < n
  | .bytes size => 0 < size
  | .all => True

theorem pos_ruleOf {isSame : Bool} {maxOfSeparator : Option Nat} {frameSize : Nat}
    (hsize : isSame = false → 0 < frameSize) (input : Bytes) :
    (ruleOf find isSame maxOfSeparator frameSize input).Pos := by
  unfold ruleOf
  split_ifs with hsame
  · cases maxOfSeparator with
    | some v => exact Nat.lt_of_lt_of_le Nat.one_pos (Nat.le_max_right v 1)
    | none =>
        simp only
        cases hfirst : find.firstAt (fun _ size => decide (frameSize ≤ size)) input with
        | some n => exact (Finder.firstAt_eq_some_iff.mp hfirst).1
        | none => trivial
  · exact hsize (Bool.eq_false_iff.mpr hsame)

variable {rule : CutRule} {g : Bytes}

/-- A run of records a frame is due at is one the rule fills a frame with. -/
theorem gather_eq_length_iff (hpos : rule.Pos) :
    find.gather rule.due g = some g.length ↔ rule.Fills find g := by
  cases rule with
  | records n => exact Finder.gather_count_eq_length_iff hpos
  | all =>
      rw [Finder.gather_eq_length_iff, Finder.firstAt_eq_some_iff]
      constructor
      · rintro ⟨-, -, -, hdue, -⟩
        cases hdue
      · rintro ⟨⟩
  | bytes size =>
      have hsize : 0 < size := hpos
      rw [Finder.gather_eq_length_iff, Finder.firstAt_eq_some_iff, Fills]
      simp only [due, decide_eq_true_eq, decide_eq_false_iff_not, Nat.not_le]
      constructor
      · rintro ⟨hrest, hsome, -, hdue, hbefore⟩
        refine ⟨hrest, Nat.le_trans hdue (find.offset_le _ _), ?_⟩
        rcases Nat.eq_zero_or_pos ((find.records g).length - 1) with hone | hmore
        · rw [hone]
          exact hsize
        · exact hbefore _ hmore (by omega)
      · rintro ⟨hrest, hdue, hbefore⟩
        have hall := find.offset_add_length_after g (find.records g).length
        rw [find.after_of_length_le (Nat.le_refl _), hrest, List.length_nil] at hall
        have hsome : 0 < (find.records g).length := by
          by_contra hnone
          have hzero : find.offset g 0 = 0 := rfl
          rw [Nat.eq_zero_of_not_pos hnone, hzero] at hall
          omega
        refine ⟨hrest, hsome, Nat.le_refl _, by omega, fun j _ hlt => ?_⟩
        exact Nat.lt_of_le_of_lt (find.offset_mono g (by omega)) hbefore

theorem gather_eq_none_iff (hpos : rule.Pos) :
    find.gather rule.due g = none ↔ rule.Short find g := by
  cases rule with
  | records n => exact Finder.gather_count_eq_none_iff hpos
  | all =>
      rw [Finder.gather_eq_none_iff, Finder.firstAt_eq_none_iff]
      exact ⟨fun _ => trivial, fun _ _ _ _ => rfl⟩
  | bytes size =>
      have hsize : 0 < size := hpos
      rw [Finder.gather_eq_none_iff, Finder.firstAt_eq_none_iff, Short]
      simp only [due, decide_eq_false_iff_not, Nat.not_le]
      constructor
      · intro hnone
        rcases Nat.eq_zero_or_pos (find.records g).length with hzero | hsome
        · rw [hzero]
          exact hsize
        · exact hnone _ hsome (Nat.le_refl _)
      · intro hless j _ hle
        exact Nat.lt_of_le_of_lt (find.offset_mono g hle) hless

end CutRule

/-- Frames that hold `input` as the rule cuts it: nothing is lost, none is empty unless there is
nothing, each but the last is filled, and the last one is filled or holds what is left. -/
structure Framed (find : Finder UInt8) (rule : CutRule) (input : Bytes) (contents : List Bytes) :
    Prop where
  flatten : contents.flatten = input
  ne_nil : [] ∈ contents → input = []
  filled : ∀ g ∈ contents.dropLast, rule.Fills find g
  last : ∀ g ∈ contents.getLast?, rule.Fills find g ∨ rule.Short find g

section Framed

variable {rule : CutRule} {input : Bytes} {contents : List Bytes}

theorem flatten_frames (rule : CutRule) (find : Finder UInt8) (input : Bytes) :
    (rule.frames find input).flatten = input := by
  have hall := (find.gather rule.due).flatten_pieces input
  rw [CutRule.frames, orEmpty]
  split_ifs with hnone
  · rw [List.isEmpty_iff.mp hnone] at hall
    exact hall
  · exact hall

/-- Frames of so many records are the groups of them. -/
theorem CutRule.frames_records {n : Nat} (hn : 0 < n) (hne : input ≠ []) :
    (CutRule.records n).frames find input = find.groups n input := by
  have hgroups : find.groups n input = (find.gather (CutRule.records n).due).pieces input :=
    Finder.groups_eq_pieces hn input
  rw [CutRule.frames, ← hgroups, orEmpty,
    if_neg (by simpa using Finder.groups_ne_nil (f := find) hn hne)]

/-- Where no frame is ever due there is one of everything. -/
theorem CutRule.frames_all (hne : input ≠ []) : CutRule.all.frames find input = [input] := by
  have hnone : find.gather CutRule.all.due input = none :=
    (@CutRule.gather_eq_none_iff find .all input trivial).mpr trivial
  rw [CutRule.frames, Finder.pieces_of_none hnone hne]
  rfl

/-- What a rule makes of an input is framed by it. -/
theorem framed_frames (hwhole : find.Whole) (hpos : rule.Pos) (input : Bytes) :
    Framed find rule input (rule.frames find input) := by
  have hpieces := Finder.pieces_pieces (@Finder.gather_whole _ find rule.due hwhole) input
  by_cases hempty : input = []
  · subst hempty
    have hone : rule.frames find [] = [[]] := by
      rw [CutRule.frames, Finder.pieces_nil]
      rfl
    rw [hone]
    refine ⟨rfl, fun _ => rfl, fun g hg => absurd hg List.not_mem_nil, ?_⟩
    rintro g ⟨⟩
    exact Or.inr ((CutRule.gather_eq_none_iff hpos).mp (Finder.find_nil _))
  · have hsame : rule.frames find input = (find.gather rule.due).pieces input := by
      rw [CutRule.frames, orEmpty,
        if_neg (by simpa using Finder.pieces_ne_nil (f := find.gather rule.due) hempty)]
    rw [hsame]
    refine ⟨Finder.flatten_pieces _ _, fun hin => absurd rfl (Finder.ne_nil_of_mem_pieces hin),
      fun g hg => (CutRule.gather_eq_length_iff hpos).mp (hpieces.1 g hg), fun g hg => ?_⟩
    exact (hpieces.2 g hg).imp (CutRule.gather_eq_length_iff hpos).mp
      (CutRule.gather_eq_none_iff hpos).mp

/-- There is one way to frame an input that is not empty. -/
theorem Framed.eq_frames (h : Framed find rule input contents) (hpos : rule.Pos)
    (hne : input ≠ []) : contents = rule.frames find input := by
  have hpieces : (find.gather rule.due).Pieces contents :=
    ⟨fun g hg => (CutRule.gather_eq_length_iff hpos).mpr (h.filled g hg), fun g hg =>
      (h.last g hg).imp (CutRule.gather_eq_length_iff hpos).mpr
        (CutRule.gather_eq_none_iff hpos).mpr⟩
  have hsome : ∀ g ∈ contents, g ≠ [] := by
    rintro g hg rfl
    exact hne (h.ne_nil hg)
  have heq := Finder.eq_pieces hpieces hsome
  rw [h.flatten] at heq
  rw [CutRule.frames, orEmpty,
    if_neg (by simpa using Finder.pieces_ne_nil (f := find.gather rule.due) hne)]
  exact heq

/-- What is encoded of the frames of an input is framed exactly where each fits a frame of the
library. -/
theorem framed_iff (hwhole : find.Whole) (hpos : rule.Pos) {checksum : Bool} {level : Int}
    {made : List (List (Stored zeek.toFrameFormat))}
    (hmade : List.Forall₂ (fun g frames => zeek.encode checksum level g = .ok frames)
      (rule.frames find input) made) :
    Framed find rule input (made.flatten.map Stored.content) ↔
      ∀ g ∈ rule.frames find input, g.length ≤ zeek.frameLimit := by
  constructor
  · intro hframed
    by_cases hempty : input = []
    · subst hempty
      intro g hg
      rw [List.flatten_eq_nil_iff.mp (flatten_frames rule find []) g hg]
      exact Nat.zero_le _
    · have heq := congrArg List.length (hframed.eq_frames hpos hempty)
      rw [List.length_map] at heq
      exact (oneEach_of_length hmade (Nat.le_of_eq heq)).length_le
  · intro hfits
    rw [(oneEach_of_le hmade hfits).contents]
    exact framed_frames hwhole hpos input

end Framed

/-! ### The conversion -/

section Convert

variable {reader : Input} {frameSize : Nat} {isSame : Bool} {limitMultiplier : Option Nat}
  {opts : Option CompressOptions} {bytes : Bytes}

/-- A file that was compressed is what was encoded of the frames of its input. -/
theorem convert_made
    (hok : convertRecordsToSeekableZst zeek reader frameSize isSame find limitMultiplier opts =
      .ok bytes) :
    ∃ made : List (List (Stored zeek.toFrameFormat)),
      List.Forall₂ (fun g frames => zeek.encode (opts.getD {}).checksum (opts.getD {}).level g =
        .ok frames)
        ((ruleOf find isSame (heldCount (opts.getD {}).maxOfSeparator) frameSize
          reader.data).frames find reader.data) made ∧
      made.flatten.length ≤ zeek.maxFrames ∧ bytes = bytesOf made.flatten := by
  obtain ⟨hending, -, encoder, hencode, rfl⟩ := convert_returns hok
  rw [(ioCopy_spec reader).2.1 hending] at hencode
  obtain ⟨made, hmade, hroom, rfl⟩ := (Encoder.encodeAll_eq_ok rfl).mp hencode
  refine ⟨made, hmade, ?_, rfl⟩
  rcases hroom with hnone | hroom
  · rw [hnone] at hmade
    cases hmade
    exact Nat.zero_le _
  · exact hroom

/-- A compression that returns leaves a file of what was read, whatever the reads it came in. Its
frames are cut as the options have it exactly where the records that belong in one are no more
than the library puts into one frame. -/
theorem compress_framing_iff (hwhole : find.Whole) (hsize : 0 < frameSize)
    (hmax : ∀ v ∈ (opts.getD {}).maxOfSeparator, v < 2 ^ 63)
    (hok : convertRecordsToSeekableZst zeek reader frameSize isSame find limitMultiplier opts =
      .ok bytes) :
    ∃ archive : Archive zeek, archive.file.bytes = bytes ∧ archive.data = reader.data ∧
      (Framed find (ruleOf find isSame (opts.getD {}).maxOfSeparator frameSize reader.data)
          reader.data archive.contents ↔
        ∀ g ∈ (ruleOf find isSame (opts.getD {}).maxOfSeparator frameSize reader.data).frames
          find reader.data, g.length ≤ zeek.frameLimit) := by
  obtain ⟨made, hmade, hroom, rfl⟩ := convert_made hok
  rw [heldCount_of_lt hmax] at hmade
  refine ⟨⟨made.flatten, hroom, fun _ => 0, fun _ => none⟩, rfl, ?_, ?_⟩
  · rw [Archive.data, Archive.contents, flatten_contents_of_made hmade, flatten_frames]
  · exact framed_iff hwhole (CutRule.pos_ruleOf (fun _ => hsize) reader.data) hmade

end Convert

/-- A finder and the one record it finds in as many bytes. -/
theorem fixedFinder_full {len : Nat} (hpos : 0 < len) {d : Bytes} (hlength : d.length = len) :
    (fixedFinder len).Full 1 d := by
  have hfind : fixedFinder len d = some len := if_pos ⟨hpos, Nat.le_of_eq hlength.symm⟩
  have hnone : d.drop len = [] := List.drop_eq_nil_of_le (Nat.le_of_eq hlength)
  rw [Finder.Full, Finder.records_of_some _ hfind, Finder.rest_of_some _ hfind, hnone,
    Finder.records_nil, Finder.rest_nil]
  exact ⟨rfl, rfl⟩

/-- A full frame is all a rule makes of it. -/
theorem CutRule.frames_of_fills {rule : CutRule} {g : Bytes} (hpos : rule.Pos)
    (h : rule.Fills find g) : rule.frames find g = [g] := by
  have hsome := (gather_eq_length_iff hpos).mpr h
  rw [frames, Finder.pieces_of_some hsome, List.take_length, List.drop_length, Finder.pieces_nil]
  rfl

/-- One record to a frame, of `record` alone. -/
def recordCompressed (record : Bytes) : Except Error Bytes :=
  convertRecordsToSeekableZst storedZeekstd
    ({ data := record, schedule := fun _ => some 0 } : Input) record.length true
    (fixedFinder record.length) none (some { maxOfSeparator := some 1 })

/-- The two frames the stored library makes of more than one holds. -/
def splitFrames (record : Bytes) : List (Stored storedFormat) :=
  [storedFrameOf true (record.take storedLimit), storedFrameOf true (record.drop storedLimit)]

section Split

variable {record : Bytes}

theorem made_splitFrames (hlength : record.length = storedLimit + 1) :
    List.Forall₂ (fun g frames => storedZeekstd.encode true 0 g = .ok frames)
      ((CutRule.records 1).frames (fixedFinder record.length) record) [splitFrames record] := by
  have hlimit : 1 ≤ storedLimit := by decide
  have hframes : (CutRule.records 1).frames (fixedFinder record.length) record = [record] :=
    @CutRule.frames_of_fills _ (.records 1) _ Nat.one_pos
      (fixedFinder_full (by omega) rfl)
  have hencode : storedZeekstd.encode true 0 record = .ok (splitFrames record) := by
    have hchunks : storedChunks (record.length + 1) record =
        [record.take storedLimit, record.drop storedLimit] :=
      storedChunks_two (by omega) (by omega)
    exact congrArg (fun chunks => Except.ok (chunks.map (storedFrameOf true))) hchunks
  rw [hframes]
  exact List.Forall₂.cons hencode List.Forall₂.nil

/-- A record of one byte more than a frame of the library holds is compressed to two frames. -/
theorem recordCompressed_of_length (hlength : record.length = storedLimit + 1)
    (hbound : record.length ≤ saturatingMul record.length 4) :
    recordCompressed record = .ok (bytesOf (splitFrames record)) := by
  have hreads := ioCopy_spec { data := record, schedule := fun _ => some 0 }
  have hending := hreads.2.2 fun tick h => by cases h
  have hmax : ∀ v ∈ ((some { maxOfSeparator := some 1 } : Option CompressOptions).getD
      {}).maxOfSeparator, v < 2 ^ 63 := by
    rintro v ⟨⟩
    decide
  have hmost : 2 ≤ storedZeekstd.maxFrames := by decide
  let encoder : Encoder storedZeekstd :=
    { checksum := true, level := 0, ended := splitFrames record }
  refine @convert_succeeds _ _ _ _ _ _ _ _ _ _ hending ?_ encoder ?_
  · intro hover
    have hlt := hover.lt_length
    rw [List.nil_append, flatten_chunks, hreads.2.1 hending] at hlt
    exact Nat.not_lt.mpr hbound hlt
  · rw [hreads.2.1 hending, heldCount_of_lt hmax]
    exact (Encoder.encodeAll_eq_ok rfl).mpr ⟨_, made_splitFrames hlength, Or.inr hmost, rfl⟩

/-- The two are not one record to a frame. -/
theorem not_framed_splitFrames (hlength : record.length = storedLimit + 1) :
    ¬ Framed (fixedFinder record.length) (.records 1) record
      ((splitFrames record).map Stored.content) := by
  intro hframed
  have hframes : (CutRule.records 1).frames (fixedFinder record.length) record = [record] :=
    @CutRule.frames_of_fills _ (.records 1) _ Nat.one_pos
      (fixedFinder_full (by omega) rfl)
  have hfits := (@framed_iff _ _ (.records 1) _ (fixedFinder_whole _) Nat.one_pos _ _ _
    (made_splitFrames hlength)).mp hframed
  rw [hframes] at hfits
  have hle := hfits record List.mem_cons_self
  rw [hlength] at hle
  exact Nat.lt_irrefl _ hle

end Split

/-- The compression of such a record returns, and does not leave one record to a frame. -/
theorem recordCompressed_not_framed :
    ∃ frames : List (Stored storedFormat),
      recordCompressed (List.replicate (storedLimit + 1) 0) = .ok (bytesOf frames) ∧
        ¬ Framed (fixedFinder (List.replicate (storedLimit + 1) (0 : UInt8)).length)
          (.records 1) (List.replicate (storedLimit + 1) 0) (frames.map Stored.content) := by
  refine ⟨splitFrames _, recordCompressed_of_length List.length_replicate ?_,
    not_framed_splitFrames List.length_replicate⟩
  rw [List.length_replicate]
  decide

/-- Two lines to a frame, and what is behind them. -/
def linesCompressed : Except Error Bytes :=
  convertRecordsToSeekableZst storedZeekstd
    ({ data := [97, 10, 98, 10, 99, 10, 100], schedule := fun tick => some tick } : Input) 3 true
    lineBoundary.find none none

theorem compress_framing_iff_lines :
    ∃ archive : Archive storedZeekstd, linesCompressed = .ok archive.file.bytes ∧
      Framed lineBoundary.find (.records 2) [97, 10, 98, 10, 99, 10, 100] archive.contents := by
  have hwhole : lineBoundary.find.Whole := separatorFinder_whole [10] (by decide)
  have hok : ∃ bytes, linesCompressed = .ok bytes := ⟨_, rfl⟩
  obtain ⟨bytes, hok⟩ := hok
  obtain ⟨archive, rfl, -, hframed⟩ :=
    compress_framing_iff hwhole (by decide) (fun _ hin => by cases hin) hok
  refine ⟨archive, hok, hframed.mpr ?_⟩
  decide +kernel

end SeekZstdSep
