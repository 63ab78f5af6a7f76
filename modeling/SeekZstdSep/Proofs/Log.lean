/-
Module: SeekZstdSep.Proofs.Log
Purpose: A file as the record log it holds. Each edit that succeeds does to the log what it is
  there for, and a reader of the file answers with the log's records.
Trusted boundary: the library, as `Zeekstd` has it
Main exports: Archive.log, Archive.Counted.append_log, Archive.Counted.truncate_log,
  Archive.Counted.appendFrames_log, Archive.Counted.copyRange_log, compress_log,
  RecordReader.AnswersAs, SeekableFile.Of, Archive.Counted.answers
-/
import SeekZstdSep.Lib.RecordLog
import SeekZstdSep.Proofs.Answers
import SeekZstdSep.Proofs.Written

namespace SeekZstdSep

open Lib

variable {zeek : Zeekstd} {boundary : Boundary} {n : Nat} {archive : Archive zeek}

/-- The log that a file holds. -/
def Archive.log (archive : Archive zeek) (boundary : Boundary) (n : Nat) : RecordLog UInt8 :=
  boundary.find.log n archive.contents

namespace Archive

@[simp] theorem log_perFrame : (archive.log boundary n).perFrame = n := rfl

@[simp] theorem log_frames : (archive.log boundary n).frames = archive.contents.length := rfl

@[simp] theorem log_records :
    (archive.log boundary n).records = boundary.find.records archive.data := rfl

@[simp] theorem log_rest : (archive.log boundary n).rest = boundary.find.rest archive.data := rfl

theorem log_congr {archive' : Archive zeek} (h : archive'.contents = archive.contents) :
    archive'.log boundary n = archive.log boundary n := by
  rw [log, h, log]

end Archive

/-- A range that is accepted covers the frames it covers in the log, which hold the records that it
asks for. -/
theorem FrameReader.Over.frameRange_cover {find : Finder UInt8} {ragged : Bool}
    {contents : List Bytes} {reader : FrameReader} (h : reader.Over contents)
    (huniform : Uniform find ragged n contents)
    (hsmall : (find.records contents.flatten).length < usizeMax) {fromIdx k j : Nat}
    {cnt tail : Option Nat} (hok : frameRange find reader n fromIdx cnt = .ok (k, j, tail)) :
    (find.log n contents).cover fromIdx cnt = (k, j) ∧ k ≤ j ∧ k < contents.length ∧
      j ≤ contents.length ∧ ((find.log n contents).range fromIdx cnt).records =
        RecordLog.upTo cnt ((find.records contents.flatten).drop fromIdx) := by
  have hne := huniform.ne_nil
  have hpos := huniform.length_pos
  have hlast := h.lastDataFrame_of_last hne
    (huniform.last _ (List.getLast?_eq_getLast_of_ne_nil hne)).1
  obtain ⟨hfrom, rfl, hk, hends⟩ := h.frameRange_ok hlast (by omega) hok
  have hrecords : (∀ c, cnt = some c →
      ((fromIdx + c) % n = 0 ∧ (fromIdx + c) / n < contents.length) ∨
        fromIdx + c = (find.records contents.flatten).length) →
      ((find.log n contents).range fromIdx cnt).records =
        RecordLog.upTo cnt ((find.records contents.flatten).drop fromIdx) :=
    (find.log n contents).records_range hfrom huniform.length_records_le
  rcases hends with ⟨c, rfl, -, hmod, rfl, hj, -⟩ | ⟨rfl, -, hsome⟩
  · have hinside : (fromIdx + c) % n = 0 ∧ (fromIdx + c) / n < contents.length :=
      ⟨hmod, by omega⟩
    refine ⟨RecordLog.cover_of_inside hinside, Nat.div_le_div_right (Nat.le_add_right _ _),
      by omega, by omega, hrecords fun c' hc' => ?_⟩
    cases hc'
    exact Or.inl hinside
  · have hall : contents.length - 1 + 1 = contents.length := by omega
    rw [hall]
    cases cnt with
    | none => exact ⟨rfl, by omega, by omega, Nat.le_refl _, hrecords nofun⟩
    | some c =>
        -- a range that ends in front of no frame ends with the file, where no sum overflows
        obtain ⟨hsum, hnot⟩ := hsome c rfl
        have htotal := huniform.flatten_eq.1
        rw [List.getLast_eq_getElem] at htotal
        rw [count_eq, ← htotal, saturatingAdd] at hsum
        refine ⟨?_, by omega, by omega, Nat.le_refl _, hrecords fun c' hc' => ?_⟩
        · apply RecordLog.cover_of_not_inside
          rintro ⟨hmod, hlt⟩
          change (fromIdx + c) / n < contents.length at hlt
          exact hnot ⟨by omega, hmod, by omega⟩
        · cases hc'
          right
          omega

namespace Archive

namespace Counted

/-! ### What each edit does to the log -/

/-- A separator that may follow what a file ends with makes one record of it. -/
theorem ends_rest {separator : Bytes} (ne : separator ≠ []) {d : Bytes}
    (hfragment : (separatorFinder separator ne).rest d ≠ [])
    (hended : (separatorFinder separator ne).rest (d ++ separator) = []) :
    (separatorFinder separator ne).records ((separatorFinder separator ne).rest d ++ separator) =
        [(separatorFinder separator ne).rest d ++ separator] ∧
      (separatorFinder separator ne).rest
        ((separatorFinder separator ne).rest d ++ separator) = [] := by
  rw [Finder.rest_append] at hended
  refine ⟨?_, hended⟩
  have hone := records_append_separator (d := (separatorFinder separator ne).rest d)
    (by rwa [Finder.rest_rest]) hended
  rwa [Finder.records_rest, Finder.rest_rest, List.nil_append] at hone

/-- An append puts its data behind the log. -/
theorem append_log (h : archive.Counted boundary n) (hwhole : boundary.find.Whole)
    (hfills : archive.file.Fills zeek) {call : AppendCall} (hgives : call.Gives boundary)
    (hrecords : call.records = none ∨ call.records = some n)
    (hends : boundary.Ends call.data.data) {result : AppendResult} {f' : File}
    (hok : call.run zeek archive.file none = (.ok result, f')) :
    ∃ archive' : Archive zeek, f' = archive'.file ∧ archive'.Counted boundary n ∧
      archive'.log boundary n = (archive.log boundary n).append boundary.find
        (boundary.separator?.getD []) call.data.data := by
  have hcounted := h.append hwhole hfills hgives hrecords hends hok
  have hcount := AppendCall.eq_of_records hrecords
  obtain ⟨target, -, hcase⟩ := appendRecordsInner_ok (Uniform.pos h.uniform)
    (Archive.lastContent_ne_nil h.uniform) (fun _ => ⟨_, h.uniform⟩)
    (Archive.fills_of_file hfills) hcount (fun _ hin => by cases hin) (fun _ hin => by cases hin)
    (AppendCall.run_ok hgives hok)
  rcases hcase with ⟨hnone, rfl, -⟩ | ⟨hsome, archive', rfl, -, hcontents, hglue, -⟩
  · refine ⟨archive, rfl, h, ?_⟩
    rw [RecordLog.append, if_pos hnone]
  · obtain ⟨after, hfile, hafter⟩ := hcounted
    have hsame := Archive.contents_eq_of_bytes (congrArg File.bytes hfile)
    refine ⟨archive', rfl, hafter.of_contents hsame, ?_⟩
    have hlast : boundary.find.rest archive.data = boundary.find.rest archive.lastContent := by
      rw [archive.lastContent_eq (Uniform.ne_nil h.uniform)]
      exact (Uniform.flatten_eq h.uniform).2
    have hended : boundary.find.rest archive.data ≠ [] →
        boundary.find.records (boundary.find.rest archive.data ++ boundary.separator?.getD []) =
            [boundary.find.rest archive.data ++ boundary.separator?.getD []] ∧
          boundary.find.rest (boundary.find.rest archive.data ++ boundary.separator?.getD []) =
            [] := by
      intro hfragment
      obtain ⟨ne, rfl⟩ := hgives.of_fragment h.uniform hfragment
      rw [hlast] at hfragment ⊢
      have hnothing := (hglue hfragment).2
      rw [glueOf, if_neg (by simpa using hfragment)] at hnothing
      exact ends_rest ne hfragment hnothing
    have hglued : glueOf boundary.find boundary.separator? (archive.contents.getLastD []) =
        if boundary.find.rest (archive.contents.getLastD []) = [] then []
        else boundary.separator?.getD [] := by
      rw [glueOf]
      simp only [List.isEmpty_iff]
    rw [Archive.log, hcontents, appendedContents, if_neg hsome]
    simp only [hglued]
    exact Uniform.log_append h.uniform hsome hended

/-- A truncation that is accepted leaves so many whole frames of records that are there. -/
theorem truncate_within (h : archive.Counted boundary n) {recordLen : Nat} {f' : File}
    (hok : truncateRecords zeek archive.file recordLen boundary.find = (.ok (), f')) :
    1 ≤ recordLen ∧ recordLen ≤ (boundary.find.records archive.data).length ∧ n ∣ recordLen := by
  by_contra hout
  obtain ⟨e, hrefused⟩ := truncateRecords_refused h.uniform (three_le_of_truncateRecords hok) hout
  rw [hrefused] at hok
  cases hok

/-- A truncation keeps the first records. -/
theorem truncate_log (h : archive.Counted boundary n) {recordLen : Nat} {f' : File}
    (hok : truncateRecords zeek archive.file recordLen boundary.find = (.ok (), f')) :
    ∃ archive' : Archive zeek, f' = archive'.file ∧ archive'.Counted boundary n ∧
      archive'.log boundary n = (archive.log boundary n).truncate recordLen := by
  obtain ⟨after, hfile, hafter⟩ := h.truncate hok
  have hthree := three_le_of_truncateRecords hok
  obtain ⟨hone, hle, k, rfl⟩ := h.truncate_within hok
  have hk : 0 < k := Nat.pos_of_mul_pos_left hone
  have hn := Uniform.pos h.uniform
  have hframes : k ≤ archive.contents.length :=
    Nat.le_of_mul_le_mul_left (Nat.le_trans hle (Uniform.length_records_le h.uniform)) hn
  rw [truncateRecords_of_frames h.uniform hthree hk hle] at hok
  cases hok
  refine ⟨archive.take k, rfl,
    hafter.of_contents (Archive.contents_eq_of_bytes (congrArg File.bytes hfile)), ?_⟩
  have hslice := Uniform.log_slice h.uniform (Nat.zero_le k) (Uniform.length_pos h.uniform)
    hframes
  rw [List.drop_zero, Nat.sub_zero, ← Archive.contents_take] at hslice
  rw [RecordLog.truncate, log_perFrame, Nat.mul_div_cancel_left k hn]
  exact hslice

/-- The frames that an append of frames takes over are of as many records as those it finds. -/
theorem perFrame_of_appendFrames {input : Archive zeek} {m : Nat}
    (h : archive.IsUniform boundary n) (hinput : input.IsUniform boundary m) {fromIdx : Nat}
    {cnt : Option Nat} {check : RangeCheck} {plan : SeekTable × Nat × SeekTable × Nat × Nat}
    (hok : appendFramesChecks zeek archive.file input.file fromIdx cnt boundary.find check =
      .ok plan) : m = n := by
  rw [appendFramesChecks, archive.fromSeekable] at hok
  simp only at hok
  cases hvalidate : validateSeparator boundary.find
      (.new zeek archive.file (tableOf archive.frames)) with
  | error e => simp [hvalidate] at hok
  | ok validated =>
      have hthree := archive.stands.three_le_of_validateSeparator hvalidate
      obtain ⟨reader, hcount, -⟩ := archive.stands.validateSeparator_of_uniform h hthree
      rw [hvalidate] at hcount
      cases hcount
      simp only [hvalidate] at hok
      cases hper : recordsPerFrame boundary.find
          (.new zeek input.file (tableOf input.frames)) .firstFrame with
      | error e =>
          simp only [input.fromSeekable, hper] at hok
          repeat' split at hok
          all_goals cases hok
      | ok found =>
          obtain ⟨inN, inReader⟩ := found
          obtain ⟨-, -, hpos, hfull, last, hlast, hlast0⟩ := input.stands.recordsPerFrame_ok hper
          have hsame : inN = n := by
            by_contra hother
            simp only [input.fromSeekable, hper, ne_eq, hother, not_false_eq_true, if_true] at hok
            repeat' split at hok
            all_goals cases hok
          -- frame 0 is in front of another one, and so it is full
          have htwo : 1 < input.contents.length := by
            have hdata := (Uniform.last hinput _
              (List.getLast?_eq_getLast_of_ne_nil (Uniform.ne_nil hinput))).1
            have := input.stands.lastDataFrame_of_last (Uniform.ne_nil hinput) hdata
            rw [hlast, Except.ok.injEq] at this
            omega
          have hm := (Uniform.full_getElem hinput (k := 0) (by omega)).1
          rw [hfull.1] at hm
          rw [← hm, hsame]

/-- An append of frames puts the records asked for, a part of the other log, behind the log. -/
theorem appendFrames_log (h : archive.Counted boundary n) {input : Archive zeek} {m : Nat}
    (hinput : input.IsUniform boundary m) {fromIdx : Nat} {cnt : Option Nat} {check : RangeCheck}
    {f' : File} (hok : appendFramesWith zeek archive.file input.file fromIdx cnt boundary.find
      check = (.ok (), f')) :
    (∃ archive' : Archive zeek, f' = archive'.file ∧ archive'.Counted boundary n ∧
      archive'.log boundary n =
        (archive.log boundary n).join ((input.log boundary m).range fromIdx cnt)) ∧
      ((input.log boundary m).range fromIdx cnt).records =
        RecordLog.upTo cnt ((boundary.find.records input.data).drop fromIdx) := by
  obtain ⟨k, j, hchecks, count_le, rfl⟩ := appendFramesWith_ok h.uniform hok
  obtain rfl := perFrame_of_appendFrames h.uniform hinput hchecks
  obtain ⟨-, -, -, -, hfull, tail, reader, inLast, hover, -, -, hrange, -⟩ :=
    appendFramesChecks_ok h.uniform hchecks
  have hsmall : (boundary.find.records input.contents.flatten).length < usizeMax :=
    input.length_records_lt boundary.find
  obtain ⟨hcover, hkj, hk, hj, hrecords⟩ := hover.frameRange_cover hinput hsmall hrange
  have hslice := Uniform.log_slice hinput hkj hk hj
  have hcontents : (archive.withFrames (archive.frames ++ (input.frames.drop k).take (j - k))
      count_le).contents = archive.contents ++ (input.contents.drop k).take (j - k) := by
    rw [Archive.contents_withFrames, List.map_append, List.map_take, List.map_drop]
    rfl
  refine ⟨⟨_, rfl, of_le ?_ ?_, ?_⟩, hrecords⟩
  · rw [Archive.IsUniform, hcontents]
    by_cases hnone : (input.contents.drop k).take (j - k) = []
    · rw [hnone, List.append_nil]
      exact h.uniform
    · exact (Uniform.slice hinput hnone).append_full hfull
  · rw [Archive.data, hcontents, List.flatten_append]
    exact Nat.le_trans h.le_length_records (boundary.find.length_records_le_append _ _)
  · rw [Archive.log, hcontents, log_append_full hfull, hslice, RecordLog.range, Archive.log,
      Archive.log, hcover]

/-- The frames of a range that is accepted hold the records asked for, a part of the log. -/
theorem range_log (h : archive.Counted boundary n) {fromIdx k j : Nat} {cnt : Option Nat}
    {check : SeparatorCheck}
    (hok : copyRangeChecks zeek archive.file fromIdx cnt boundary.find .required check =
      .ok (tableOf archive.frames, k, j)) :
    (archive.range k j).Counted boundary n ∧
      (archive.range k j).log boundary n = (archive.log boundary n).range fromIdx cnt ∧
      ((archive.log boundary n).range fromIdx cnt).records =
        RecordLog.upTo cnt ((boundary.find.records archive.data).drop fromIdx) := by
  obtain ⟨-, hkj, hle, hends⟩ := copyRange_frames h.uniform hok
  obtain ⟨-, -, n', tail, reader, hover, -, ⟨hpos, hfull⟩, ⟨last, hlast, hlast0⟩, hrange, -⟩ :=
    copyRangeChecks_ok hok
  have hne := Uniform.ne_nil h.uniform
  have hlength := hover.lastDataFrame_of_last hne
    (Uniform.last h.uniform _ (List.getLast?_eq_getLast_of_ne_nil hne)).1
  rw [hlast, Except.ok.injEq] at hlength
  obtain rfl : n' = n := by
    rw [← hfull.1]
    exact (Uniform.full_getElem h.uniform (k := 0) (by omega)).1
  obtain ⟨hcover, -, hk, hj, hrecords⟩ := hover.frameRange_cover h.uniform
    (archive.length_records_lt boundary.find) hrange
  have huniform : (archive.range k j).IsUniform boundary n' := by
    rw [Archive.IsUniform, Archive.contents_range]
    apply Uniform.slice h.uniform
    apply List.length_pos_iff.mp
    rw [List.length_take, List.length_drop]
    omega
  refine ⟨⟨huniform, ?_⟩, ?_, hrecords⟩
  · have hlast' : j = archive.contents.length →
        ∀ g ∈ archive.contents.getLast?, (boundary.find.records g).length = n' := by
      intro hall
      rcases hends with ⟨-, -, -, hlt⟩ | ⟨-, hlastFull, -⟩
      · omega
      · exact hlastFull rfl
    exact firstCount_of_all (range_aligned h.uniform hle hlast') (Uniform.ne_nil huniform)
  · have hslice := Uniform.log_slice h.uniform (Nat.le_of_lt hkj) hk hj
    rw [Archive.log, Archive.contents_range, hslice, RecordLog.range, Archive.log, hcover]

/-- A copy of a range holds that part of the log. -/
theorem copyRange_log (h : archive.Counted boundary n) {fromIdx : Nat} {cnt : Option Nat}
    {check : SeparatorCheck} {output output' : Sink} (hempty : output.written = [])
    (hok : copyRangeWith zeek archive.file output fromIdx cnt boundary.find .required check =
      (.ok (), output')) :
    ∃ archive' : Archive zeek, archive'.file.bytes = output'.written ∧
      archive'.Counted boundary n ∧
      archive'.log boundary n = (archive.log boundary n).range fromIdx cnt := by
  obtain ⟨k, j, hchecks, hwritten⟩ := copyRangeWith_ok hok
  obtain ⟨-, hkj, -, -⟩ := copyRange_frames h.uniform hchecks
  obtain ⟨hcounted, hlog, -⟩ := h.range_log hchecks
  refine ⟨archive.range k j, ?_, hcounted, hlog⟩
  rw [hwritten hkj, hempty]
  rfl

end Counted

end Archive

/-- The log a compression writes. -/
def compressedLog (find : Finder UInt8) (data : Bytes) (frameSize : Nat)
    (opts : Option CompressOptions) : RecordLog UInt8 :=
  let frames := (ruleOf find true (heldCount (opts.getD {}).maxOfSeparator) frameSize data).frames
    find data
  find.log (firstCount find frames) frames

/-- A compression writes it. -/
theorem compress_log (hwhole : boundary.find.Whole) {reader : Input} {frameSize : Nat}
    {limitMultiplier : Option Nat} {opts : Option CompressOptions} {bytes : Bytes}
    (hsome : boundary.find.records reader.data ≠ []) (hends : boundary.Ends reader.data)
    (hfits : ∀ g ∈ (ruleOf boundary.find true (heldCount (opts.getD {}).maxOfSeparator) frameSize
      reader.data).frames boundary.find reader.data, g.length ≤ zeek.frameLimit)
    (hok : convertRecordsToSeekableZst zeek reader frameSize true boundary.find limitMultiplier
      opts = .ok bytes) :
    ∃ archive : Archive zeek, bytes = archive.file.bytes ∧
      archive.Counted boundary
        (compressedLog boundary.find reader.data frameSize opts).perFrame ∧
      archive.log boundary (compressedLog boundary.find reader.data frameSize opts).perFrame =
        compressedLog boundary.find reader.data frameSize opts := by
  obtain ⟨made, hmade, hroom, rfl⟩ := convert_made hok
  let archive : Archive zeek := ⟨made.flatten, hroom, fun _ => 0, fun _ => none⟩
  have hcontents : archive.contents = _ := (oneEach_of_le hmade hfits).contents
  refine ⟨archive, rfl, ⟨?_, ?_⟩, ?_⟩
  · rw [Archive.IsUniform, hcontents]
    exact uniform_frames hwhole hsome hends
  · rw [hcontents]
    rfl
  · rw [Archive.log, hcontents]
    rfl

/-! ### What a reader answers -/

/-- The seek table a reader of the file finds. -/
def SeekableFile.table (file : SeekableFile) : SeekTable :=
  file.frames.map fun frame => (frame.comp, frame.content.length)

/-- The bytes hold the file: its seek table is theirs, and so is what each frame holds. -/
structure SeekableFile.Of (file : SeekableFile) (zeek : Zeekstd) (bytes : Bytes) : Prop where
  table : zeek.fromSeekable bytes = .ok file.table
  frame : ∀ i (hi : i < file.frames.length),
    zeek.decodeFrame bytes file.table i = .ok file.frames[i].content

/-- A reader nobody has read from answers each index with the record there, each range that begins
among the records with its records, and how many there are. -/
structure RecordReader.AnswersAs (r : RecordReader) (us : List Bytes) : Prop where
  record : ∀ i, (r.record i).1 = .ok us[i]?
  records : ∀ fromIdx cnt, fromIdx < us.length → 1 ≤ cnt →
    (r.records fromIdx cnt).1 = .ok ((us.drop fromIdx).take cnt).flatten
  totalRecords : r.totalRecords.1 = .ok us.length

/-- A frame as a reader finds it. -/
def Stored.frame {format : FrameFormat} (stored : Stored format) : Frame where
  comp := stored.bytes.length
  content := stored.content
  comp_pos := Nat.lt_of_lt_of_le (by decide) (format.magic stored.isFrame).2
  comp_le := stored.bytes_le
  content_le := stored.content_le

/-- A file as a reader finds it. -/
def Archive.seekable (archive : Archive zeek) : SeekableFile where
  frames := archive.frames.map Stored.frame
  reads := archive.reads
  count_le := by
    rw [List.length_map]
    exact Nat.le_trans archive.count_le zeek.maxFrames_le

theorem Archive.table_seekable (archive : Archive zeek) :
    archive.seekable.table = tableOf archive.frames := List.map_map

theorem Archive.seekable_of (archive : Archive zeek) :
    archive.seekable.Of zeek archive.file.bytes where
  table := by rw [archive.table_seekable, archive.fromSeekable]
  frame i hi := by
    have hi' : i < archive.frames.length := by simpa [seekable] using hi
    rw [archive.table_seekable]
    simp only [seekable, List.getElem_map]
    exact zeek.decodeFrame_bytesOf archive.frames hi' archive.count_le

/-- What a reader finds in a file is settled by its bytes. -/
theorem SeekableFile.Of.contents_eq {file : SeekableFile} (h : file.Of zeek archive.file.bytes) :
    file.contents = archive.contents := by
  have htable : file.table = tableOf archive.frames := by
    have hseek := h.table
    rw [archive.fromSeekable] at hseek
    exact (Except.ok.inj hseek).symm
  have hlength : file.frames.length = archive.frames.length := by
    have := congrArg List.length htable
    simpa [SeekableFile.table] using this
  apply List.ext_getElem (by simp [SeekableFile.contents, hlength])
  intro i hi hi'
  have hleft := h.frame i (by simpa [SeekableFile.contents] using hi)
  have hright := archive.stands.frame i hi'
  rw [htable] at hleft
  simp only [FrameReader.new] at hright
  rw [hleft, Except.ok.injEq] at hright
  simpa [SeekableFile.contents] using hright

/-- A reader that serves frames answers with the records of these. -/
theorem Opened.answersAs {file : SeekableFile} {label : String} {r : RecordReader}
    (h : Opened file label boundary r) (hfile : UniformFile boundary n file) :
    r.AnswersAs (recordsOf boundary file) := by
  have hserves := h.serves hfile.uniform
  have hboundary := h.boundary_eq
  constructor
  · intro i
    obtain ⟨r', -, -, hrecord⟩ := RecordReader.record_spec hserves i fun _ hframe => by
      simp [h.frame] at hframe
    rw [hrecord, hboundary]
    rfl
  · intro fromIdx cnt hfrom _
    obtain ⟨r', -, -, hrecords⟩ := RecordReader.records_spec hserves fromIdx cnt
    have hgather := gatherRange_readFeed (h.uniform hfile.uniform).1
      (h.small hfile.uniform hfile.le_usizeMax) r.label fromIdx cnt
    rw [rangeRefusal_none hfrom] at hgather
    rw [hrecords, hboundary, hgather]
    rfl
  · obtain ⟨r', -, -, htotal⟩ := RecordReader.totalRecords_spec hserves
    rw [htotal, hboundary]
    rfl

/-- A file of few enough frames opens, and is read as its log. -/
theorem Archive.Counted.answers (h : archive.Counted boundary n)
    (hsmall : n * archive.contents.length * archive.contents.length < 2 ^ 64)
    {file : SeekableFile} (hfile : file.Of zeek archive.file.bytes) (label : String) :
    ∃ r, RecordReader.fromReader file label boundary = .ok r ∧
      r.AnswersAs ((archive.log boundary n).items boundary.tailIsRecord) := by
  have hcontents := hfile.contents_eq
  have huniform : UniformFile boundary n file := by
    constructor
    · rw [hcontents]
      exact h.uniform
    · rw [hcontents]
      exact hsmall
  have hfirst : 0 < (boundary.find.records (file.contents.headD [])).length := by
    have hcount : (boundary.find.records (archive.contents.headD [])).length = n := h.first
    rw [hcontents, hcount]
    exact Uniform.pos h.uniform
  obtain ⟨r, hopen, hopened⟩ := RecordReader.fromReader_isOk file label boundary
    (Uniform.ne_nil huniform.uniform) hfirst
  have hanswers := hopened.answersAs huniform
  rw [recordsOf, hcontents] at hanswers
  exact ⟨r, hopen, hanswers⟩

end SeekZstdSep
