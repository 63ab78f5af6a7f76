/-
Module: SeekZstdSep.Proofs.Written
Purpose: The files that a compression and the edits behind it write, in whatever order these are
  made: every frame but the last holds as many whole records as the first one does.
Trusted boundary: the library, as `Zeekstd` has it
Main exports: Written, Archive.Counted, written_uniform
-/
import SeekZstdSep.Proofs.Join
import SeekZstdSep.Proofs.Recompress

namespace SeekZstdSep

open Lib

variable {zeek : Zeekstd} {boundary : Boundary} {n : Nat} {archive : Archive zeek}

/-- Data as a file of the boundary takes it: only a separator may be missing at its end. -/
def Boundary.Ends (boundary : Boundary) (data : Bytes) : Prop :=
  boundary.tailIsRecord = true ∨ boundary.find.rest data = []

/-- How many whole records frame 0 holds. -/
def firstCount (find : Finder UInt8) (contents : List Bytes) : Nat :=
  (find.records (contents.headD [])).length

/-- The files a compression and the edits leave, with the records that frame 0 of the compressed
file holds. Every operation returns, and none of the runs of records that are to go into one frame
of the compressed file is more than a frame holds. -/
inductive Written (zeek : Zeekstd) (boundary : Boundary) : Nat → Bytes → Prop where
  | compress {reader : Input} {frameSize : Nat} {limitMultiplier : Option Nat}
      {opts : Option CompressOptions} {bytes : Bytes} {contents : List Bytes}
      (whole : boundary.find.records reader.data ≠ []) (ends : boundary.Ends reader.data)
      (fits : ∀ g ∈ (ruleOf boundary.find true (heldCount (opts.getD {}).maxOfSeparator) frameSize
        reader.data).frames boundary.find reader.data, g.length ≤ zeek.frameLimit)
      (ok : convertRecordsToSeekableZst zeek reader frameSize true boundary.find limitMultiplier
        opts = .ok bytes)
      (holds : frameContents zeek bytes = .ok contents) :
      Written zeek boundary (firstCount boundary.find contents) bytes
  | append {n : Nat} {f f' : File} {call : AppendCall} {result : AppendResult}
      (before : Written zeek boundary n f.bytes) (fills : f.Fills zeek)
      (gives : call.Gives boundary) (records : call.records = none ∨ call.records = some n)
      (untrusted : call.trust = false) (ends : boundary.Ends call.data.data)
      (ok : call.run zeek f none = (.ok result, f')) : Written zeek boundary n f'.bytes
  | truncate {n recordLen : Nat} {f f' : File} (before : Written zeek boundary n f.bytes)
      (ok : truncateRecords zeek f recordLen boundary.find = (.ok (), f')) :
      Written zeek boundary n f'.bytes
  | appendFrames {n m fromIdx : Nat} {cnt : Option Nat} {f input f' : File}
      (before : Written zeek boundary n f.bytes) (other : Written zeek boundary m input.bytes)
      (ok : appendFramesWith zeek f input fromIdx cnt boundary.find .everyFrame = (.ok (), f')) :
      Written zeek boundary n f'.bytes
  | copyRange {n fromIdx : Nat} {cnt : Option Nat} {check : SeparatorCheck} {f : File}
      {output output' : Sink} (before : Written zeek boundary n f.bytes)
      (empty : output.written = [])
      (ok : copyRangeWith zeek f output fromIdx cnt boundary.find .required check =
        (.ok (), output')) : Written zeek boundary n output'.written

/-! ### What each operation preserves -/

/-- A uniform file whose first frame holds `n` records. -/
structure Archive.Counted (archive : Archive zeek) (boundary : Boundary) (n : Nat) : Prop where
  uniform : archive.IsUniform boundary n
  first : firstCount boundary.find archive.contents = n

/-- Another file of the same bytes is laid out alike. -/
theorem Archive.exists_of_bytes {f : File} (h : archive.file.bytes = f.bytes) :
    ∃ archive' : Archive zeek, f = archive'.file ∧ archive'.contents = archive.contents :=
  ⟨⟨archive.frames, archive.count_le, f.reads, f.schedule⟩, File.ext h.symm rfl rfl, rfl⟩

/-- A part of a uniform file is cut at records. -/
theorem cutAtRecords_slice {input : Archive zeek} (huniform : input.IsUniform boundary n)
    (a b : Nat) : CutAtRecords boundary ((input.contents.drop a).take b) := by
  by_cases hnone : (input.contents.drop a).take b = []
  · rw [hnone]
    exact ⟨by simp, Or.inr (by simp)⟩
  · have hslice := Uniform.slice huniform hnone
    refine ⟨fun g hg => (hslice.full g hg).2, ?_⟩
    by_cases htail : boundary.tailIsRecord = true
    · exact Or.inl htail
    · exact Or.inr fun g hg => (hslice.last g hg).2.2.resolve_left htail

theorem firstCount_of_all {find : Finder UInt8} {contents : List Bytes}
    (hall : ∀ g ∈ contents, (find.records g).length = n) (hne : contents ≠ []) :
    firstCount find contents = n := by
  obtain ⟨g, gs, rfl⟩ := List.exists_cons_of_ne_nil hne
  exact hall g List.mem_cons_self

namespace Archive.Counted

theorem of_contents (h : archive.Counted boundary n) {archive' : Archive zeek}
    (hcontents : archive'.contents = archive.contents) : archive'.Counted boundary n := by
  constructor
  · rw [Archive.IsUniform, hcontents]
    exact h.uniform
  · rw [hcontents]
    exact h.first

theorem le_length_records (h : archive.Counted boundary n) :
    n ≤ (boundary.find.records archive.data).length :=
  (Uniform.length_records_headD_iff h.uniform).mp h.first

/-- A uniform file that holds at least `n` records holds as many in its first frame. -/
theorem of_le (huniform : archive.IsUniform boundary n)
    (hle : n ≤ (boundary.find.records archive.data).length) : archive.Counted boundary n :=
  ⟨huniform, (Uniform.length_records_headD_iff huniform).mpr hle⟩

/-- An append. -/
theorem append (h : archive.Counted boundary n) (hwhole : boundary.find.Whole)
    (hfills : archive.file.Fills zeek) {call : AppendCall} (hgives : call.Gives boundary)
    (hrecords : call.records = none ∨ call.records = some n)
    (hends : boundary.Ends call.data.data) {result : AppendResult} {f' : File}
    (hok : call.run zeek archive.file none = (.ok result, f')) :
    ∃ archive' : Archive zeek, f' = archive'.file ∧ archive'.Counted boundary n := by
  have hcount := AppendCall.eq_of_records hrecords
  obtain ⟨target, -, hcase⟩ := appendRecordsInner_ok (Uniform.pos h.uniform)
    (Archive.lastContent_ne_nil h.uniform) (fun _ => ⟨_, h.uniform⟩)
    (Archive.fills_of_file hfills) hcount (fun _ hin => by cases hin) (fun _ hin => by cases hin)
    (AppendCall.run_ok hgives hok)
  rcases hcase with ⟨-, rfl, -⟩ | ⟨-, archive', rfl, -, hcontents, -⟩
  · exact ⟨archive, rfl, h⟩
  · refine ⟨archive', rfl, of_le ?_ ?_⟩
    · rw [Archive.IsUniform, hcontents]
      exact appendedContents_uniform hwhole h.uniform _ hends
    · rw [Archive.data, hcontents,
        appendedContents_flatten (Uniform.pos h.uniform) (Uniform.ne_nil h.uniform)]
      exact Nat.le_trans h.le_length_records (boundary.find.length_records_le_append _ _)

/-- A truncation. -/
theorem truncate (h : archive.Counted boundary n) {recordLen : Nat} {f' : File}
    (hok : truncateRecords zeek archive.file recordLen boundary.find = (.ok (), f')) :
    ∃ archive' : Archive zeek, f' = archive'.file ∧ archive'.Counted boundary n := by
  have hthree := three_le_of_truncateRecords hok
  have hin : 1 ≤ recordLen ∧ recordLen ≤ (boundary.find.records archive.data).length ∧
      n ∣ recordLen := by
    by_contra hout
    obtain ⟨e, hrefused⟩ := truncateRecords_refused h.uniform hthree hout
    rw [hrefused] at hok
    cases hok
  obtain ⟨hone, hle, k, rfl⟩ := hin
  have hk : 0 < k := Nat.pos_of_mul_pos_left hone
  rw [truncateRecords_of_frames h.uniform hthree hk hle] at hok
  cases hok
  refine ⟨archive.take k, rfl, ?_⟩
  rcases Nat.lt_or_ge k archive.contents.length with hlt | hge
  · refine ⟨(data_take_of_lt h.uniform hk hlt).2.2, ?_⟩
    have hhead : (archive.take k).contents.headD [] = archive.contents.headD [] := by
      rw [Archive.contents_take, List.headD_eq_head?_getD, List.head?_take,
        if_neg (Nat.pos_iff_ne_zero.mp hk), List.headD_eq_head?_getD]
    rw [firstCount, hhead]
    exact h.first
  · exact h.of_contents (take_of_length_le hge)

/-- The frames of another uniform file behind it. -/
theorem appendFrames (h : archive.Counted boundary n) {input : Archive zeek} {m fromIdx : Nat}
    (hinput : input.IsUniform boundary m) {cnt : Option Nat} {f' : File}
    (hok : appendFramesWith zeek archive.file input.file fromIdx cnt boundary.find .everyFrame =
      (.ok (), f')) :
    ∃ archive' : Archive zeek, f' = archive'.file ∧ archive'.Counted boundary n := by
  obtain ⟨archive', rfl, hcontents, hiff⟩ := joined_uniform_iff h.uniform hok
  refine ⟨archive', rfl, of_le (hiff.mpr ?_) ?_⟩
  · have hdata : dataFrames input.contents = input.contents := by
      rw [dataFrames, List.rdropWhile_eq_self_iff]
      intro hne hempty
      have hlast := (Uniform.last hinput _ (List.getLast?_eq_getLast_of_ne_nil hne)).1
      exact hlast (List.isEmpty_iff.mp hempty)
    cases cnt with
    | none =>
        rw [coveredBy, hdata, ← List.take_length (l := input.contents.drop (fromIdx / n))]
        exact cutAtRecords_slice hinput _ _
    | some c =>
        rw [coveredBy, hdata]
        exact cutAtRecords_slice hinput _ _
  · rw [Archive.data, hcontents, List.flatten_append]
    exact Nat.le_trans h.le_length_records (boundary.find.length_records_le_append _ _)

/-- A copy of whole frames. -/
theorem copyRange (h : archive.Counted boundary n) {fromIdx : Nat} {cnt : Option Nat}
    {check : SeparatorCheck} {output output' : Sink} (hempty : output.written = [])
    (hok : copyRangeWith zeek archive.file output fromIdx cnt boundary.find .required check =
      (.ok (), output')) :
    ∃ archive' : Archive zeek, archive'.file.bytes = output'.written ∧
      archive'.Counted boundary n := by
  obtain ⟨k, j, hchecks, hwritten⟩ := copyRangeWith_ok hok
  obtain ⟨-, hkj, hj, hends⟩ := copyRange_frames h.uniform hchecks
  refine ⟨archive.range k j, ?_, ?_⟩
  · rw [hwritten hkj, hempty]
    rfl
  have hlength : (archive.range k j).contents.length = j - k := by
    rw [Archive.contents_range, List.length_take, List.length_drop]
    omega
  have huniform : (archive.range k j).IsUniform boundary n := by
    rw [Archive.IsUniform, Archive.contents_range]
    apply Uniform.slice h.uniform
    rw [← Archive.contents_range]
    exact List.length_pos_iff.mp (by omega)
  refine ⟨huniform, ?_⟩
  rcases hends with ⟨-, -, -, hlt⟩ | ⟨-, hlastFull, -⟩
  · exact firstCount_of_all (range_aligned h.uniform hj fun hall => by omega)
      (Uniform.ne_nil huniform)
  · exact firstCount_of_all (range_aligned h.uniform hj fun _ => hlastFull rfl)
      (Uniform.ne_nil huniform)

end Archive.Counted

/-- What a rule that counts records makes of an input that holds one. -/
theorem uniform_frames {find : Finder UInt8} (hwhole : find.Whole) {tail : Bool}
    {maxOfSeparator : Option Nat} {frameSize : Nat} {input : Bytes}
    (hsome : find.records input ≠ []) (hends : tail = true ∨ find.rest input = []) :
    Uniform find tail
      (firstCount find ((ruleOf find true maxOfSeparator frameSize input).frames find input))
      ((ruleOf find true maxOfSeparator frameSize input).frames find input) := by
  have hne : input ≠ [] := by
    rintro rfl
    exact hsome (Finder.records_nil find)
  have hpos : (ruleOf find true maxOfSeparator frameSize input).Pos :=
    CutRule.pos_ruleOf (fun h => by cases h) input
  have hflatten := flatten_frames (ruleOf find true maxOfSeparator frameSize input) find input
  have hcounted : ∃ m, Uniform find tail m
      ((ruleOf find true maxOfSeparator frameSize input).frames find input) := by
    cases hrule : ruleOf find true maxOfSeparator frameSize input with
    | records m =>
        rw [hrule] at hpos
        rw [CutRule.frames_records hpos hne]
        exact ⟨m, Finder.uniform_groups hwhole hpos hne hends⟩
    | all =>
        have hone : Uniform find tail (find.records input).length ([] ++ [input]) ↔ _ :=
          uniform_concat_iff [] input
        rw [CutRule.frames_all hne]
        exact ⟨_, hone.mpr ⟨List.length_pos_iff.mpr hsome, fun g hg => absurd hg List.not_mem_nil,
          hne, Nat.le_refl _, hends⟩⟩
    | bytes size =>
        rw [ruleOf.eq_def, if_pos rfl] at hrule
        cases maxOfSeparator with
        | some v => cases hrule
        | none =>
            simp only at hrule
            split at hrule <;> cases hrule
  obtain ⟨m, huniform⟩ := hcounted
  apply (huniform.of_headD _).1
  apply huniform.length_records_headD_pos
  rw [hflatten]
  exact hsome

/-- A compression. -/
theorem compress_counted (hwhole : boundary.find.Whole) {reader : Input} {frameSize : Nat}
    {limitMultiplier : Option Nat} {opts : Option CompressOptions} {bytes : Bytes}
    (hsome : boundary.find.records reader.data ≠ []) (hends : boundary.Ends reader.data)
    (hfits : ∀ g ∈ (ruleOf boundary.find true (heldCount (opts.getD {}).maxOfSeparator) frameSize
      reader.data).frames boundary.find reader.data, g.length ≤ zeek.frameLimit)
    (hok : convertRecordsToSeekableZst zeek reader frameSize true boundary.find limitMultiplier
      opts = .ok bytes) :
    ∃ archive : Archive zeek, archive.file.bytes = bytes ∧
      archive.Counted boundary (firstCount boundary.find archive.contents) := by
  obtain ⟨made, hmade, hroom, rfl⟩ := convert_made hok
  refine ⟨⟨made.flatten, hroom, fun _ => 0, fun _ => none⟩, rfl, ?_, rfl⟩
  rw [Archive.IsUniform, Archive.contents, (oneEach_of_le hmade hfits).contents]
  exact uniform_frames hwhole hsome hends

theorem Written.counted (hwhole : boundary.find.Whole) {bytes : Bytes}
    (h : Written zeek boundary n bytes) :
    ∃ archive : Archive zeek, archive.file.bytes = bytes ∧ archive.Counted boundary n := by
  induction h with
  | compress whole ends fits ok holds =>
      obtain ⟨archive, rfl, hcounted⟩ := compress_counted hwhole whole ends fits ok
      rw [archive.frameContents_eq] at holds
      cases holds
      exact ⟨archive, rfl, hcounted⟩
  | append _ fills gives records untrusted ends ok ih =>
      obtain ⟨before, hbytes, hcounted⟩ := ih
      obtain ⟨now, rfl, hcontents⟩ := Archive.exists_of_bytes hbytes
      obtain ⟨after, rfl, hafter⟩ :=
        (hcounted.of_contents hcontents).append hwhole fills gives records ends ok
      exact ⟨after, rfl, hafter⟩
  | truncate _ ok ih =>
      obtain ⟨before, hbytes, hcounted⟩ := ih
      obtain ⟨now, rfl, hcontents⟩ := Archive.exists_of_bytes hbytes
      obtain ⟨after, rfl, hafter⟩ := (hcounted.of_contents hcontents).truncate ok
      exact ⟨after, rfl, hafter⟩
  | appendFrames _ _ ok ih ihOther =>
      obtain ⟨before, hbytes, hcounted⟩ := ih
      obtain ⟨now, rfl, hcontents⟩ := Archive.exists_of_bytes hbytes
      obtain ⟨other, hother, hcountedOther⟩ := ihOther
      obtain ⟨input, rfl, hinput⟩ := Archive.exists_of_bytes hother
      obtain ⟨after, rfl, hafter⟩ := (hcounted.of_contents hcontents).appendFrames
        (hcountedOther.of_contents hinput).uniform ok
      exact ⟨after, rfl, hafter⟩
  | copyRange _ empty ok ih =>
      obtain ⟨before, hbytes, hcounted⟩ := ih
      obtain ⟨now, rfl, hcontents⟩ := Archive.exists_of_bytes hbytes
      exact (hcounted.of_contents hcontents).copyRange empty ok

/-- Every file that a compression and the edits leave is uniform with the records its first frame
holds, and these are as many as they were in the compressed file. -/
theorem written_uniform (hwhole : boundary.find.Whole) {bytes : Bytes}
    (h : Written zeek boundary n bytes) :
    ∃ contents, frameContents zeek bytes = .ok contents ∧
      Uniform boundary.find boundary.tailIsRecord n contents ∧
      firstCount boundary.find contents = n := by
  obtain ⟨archive, rfl, huniform, hfirst⟩ := h.counted hwhole
  exact ⟨archive.contents, archive.frameContents_eq, huniform, hfirst⟩

/-- Four lines, a line to a frame. -/
def fourArchive : Archive storedZeekstd :=
  storedArchive [[97, 10], [98, 10], [99, 10], [100, 10]]

/-- A fifth line behind them. -/
def fiveAppended : Except Error AppendResult × File :=
  (lineAppend 1 [101, 10]).run storedZeekstd fourArchive.file none

/-- And the first four of the five. -/
def fourLeft : Except Error Unit × File :=
  truncateRecords storedZeekstd fiveAppended.2 4 lineBoundary.find

/-- Compressed, appended to and truncated, the lines are still one to a frame. -/
theorem written_uniform_fourArchive :
    ∃ contents, frameContents storedZeekstd fourLeft.2.bytes = .ok contents ∧
      Uniform lineBoundary.find true 1 contents ∧ firstCount lineBoundary.find contents = 1 := by
  have hcompress : linesCompressedBy 1 [97, 10, 98, 10, 99, 10, 100, 10] =
      .ok fourArchive.file.bytes := by rfl
  have hfirst : Written storedZeekstd lineBoundary 1 fourArchive.file.bytes :=
    Written.compress (by decide) (Or.inl rfl) (by decide +kernel) hcompress
      fourArchive.frameContents_eq
  have hfills : fourArchive.file.Fills storedZeekstd :=
    fills_of_wholeWish (fun _ => rfl) (by decide +kernel)
  have hgives : (lineAppend 1 [101, 10]).Gives lineBoundary := ⟨by decide, rfl⟩
  have hok : ∃ result, fiveAppended.1 = .ok result := ⟨_, rfl⟩
  obtain ⟨result, hok⟩ := hok
  have hsecond : Written storedZeekstd lineBoundary 1 fiveAppended.2.bytes :=
    Written.append hfirst hfills hgives (Or.inr rfl) rfl (Or.inl rfl) (Prod.ext hok rfl)
  have hleft : fourLeft.1 = .ok () := by rfl
  have hwhole : lineBoundary.find.Whole := separatorFinder_whole [10] (by decide)
  exact written_uniform hwhole (Written.truncate hsecond (Prod.ext hleft rfl))

/-- The first of the two frames of a record that is split holds no whole record. -/
theorem not_uniform_splitFrames {record : Bytes} (hlength : record.length = storedLimit + 1)
    {archive : Archive storedZeekstd} (hbytes : archive.file.bytes = bytesOf (splitFrames record)) :
    ¬ archive.IsUniform (.finder (fixedFinder record.length)) n := by
  intro huniform
  have hmost : (splitFrames record).length ≤ storedZeekstd.maxFrames := by
    have htwo : 2 ≤ storedZeekstd.maxFrames := by decide
    exact htwo
  let split : Archive storedZeekstd := ⟨splitFrames record, hmost, fun _ => 0, fun _ => none⟩
  have hsplit : archive.file.bytes = split.file.bytes := hbytes
  have hsame : archive.contents = (splitFrames record).map Stored.content :=
    Archive.contents_eq_of_bytes hsplit
  have hfirst : (storedFrameOf true (record.take storedLimit)).content = record.take storedLimit :=
    storedFrameOf_content (List.length_take_le _ _)
  rw [Archive.IsUniform, hsame] at huniform
  have hfull := huniform.full (record.take storedLimit) (by
    rw [splitFrames, List.map_cons, hfirst, List.map_singleton]
    exact List.mem_cons_self)
  have hnone : fixedFinder record.length (record.take storedLimit) = none := by
    cases hfind : fixedFinder record.length (record.take storedLimit) with
    | none => rfl
    | some k =>
        obtain ⟨rfl, -, hle⟩ := byFixed_eq_some hfind
        rw [List.length_take] at hle
        omega
  have hcount := hfull.1
  rw [Boundary.find, Finder.records_of_none _ hnone] at hcount
  exact absurd huniform.pos (by rw [← hcount]; exact Nat.lt_irrefl 0)

/-- A record of one byte more than a frame holds, compressed one to a frame: no count makes what
is written a uniform file. -/
theorem recordCompressed_not_uniform :
    let record := List.replicate (storedLimit + 1) (0 : UInt8)
    ((fixedFinder record.length).records record).length = 1 ∧
      (fixedFinder record.length).rest record = [] ∧
      ∃ bytes, recordCompressed record = .ok bytes ∧
        ∀ archive : Archive storedZeekstd, archive.file.bytes = bytes →
          ∀ n, ¬ archive.IsUniform (.finder (fixedFinder record.length)) n := by
  intro record
  have hlength : record.length = storedLimit + 1 := List.length_replicate
  have hfull := fixedFinder_full (d := record) (by omega) rfl
  refine ⟨hfull.1, hfull.2, _, recordCompressed_of_length hlength ?_, ?_⟩
  · rw [hlength]
    decide
  · intro archive hbytes n huniform
    exact not_uniform_splitFrames hlength hbytes huniform

end SeekZstdSep
