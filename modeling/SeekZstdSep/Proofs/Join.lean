/-
Module: SeekZstdSep.Proofs.Join
Purpose: What `append_frames_with` makes of two files: the frames of the target and of the range,
  byte for byte, and when those keep the records per frame. Splitting a file and joining it again
  gives the file back.
Trusted boundary: the library, as `Zeekstd` has it
Main exports: appendFramesChecks_ok, appendFramesWith_ok, append_frames_uniform_iff,
  split_join_restores
-/
import SeekZstdSep.Proofs.CopyRange

namespace SeekZstdSep

open Lib

variable {zeek : Zeekstd} {boundary : Boundary} {n : Nat} {find : Finder UInt8}

/-! ### The check of every frame -/

/-- The range is passed exactly when each frame holds `n` records, but for the one that ends both
the range and the file, which may hold fewer. -/
theorem judgeRange_eq_ok_iff (n last j k : Nat) (counts : List Nat) :
    judgeRange n last j k counts = .ok () ↔
      ∀ i (hi : i < counts.length),
        counts[i] = n ∨ (k + i = j - 1 ∧ k + i = last ∧ counts[i] < n) := by
  induction counts generalizing k with
  | nil => simp [judgeRange]
  | cons held counts ih =>
      have hstep : (judgeRange n last j k (held :: counts) = .ok () ↔
          (held = n ∨ (k = j - 1 ∧ k = last ∧ held < n)) ∧
            judgeRange n last j (k + 1) counts = .ok ()) := by
        rw [judgeRange]
        by_cases hn : held = n
        · simp [hn]
        · rw [if_neg hn]
          by_cases hlast : k = j - 1 ∧ k = last ∧ held < n
          · rw [if_pos hlast]
            exact ⟨fun hok => ⟨Or.inr hlast, hok⟩, And.right⟩
          · rw [if_neg hlast]
            simp only [reduceCtorEq, false_iff, not_and_or]
            exact Or.inl (not_or.mpr ⟨hn, hlast⟩)
      rw [hstep, ih]
      constructor
      · rintro ⟨hhead, htail⟩ i hi
        cases i with
        | zero => exact hhead
        | succ i =>
            have := htail i (by simpa using hi)
            rwa [show k + 1 + i = k + (i + 1) by omega] at this
      · intro hall
        refine ⟨hall 0 (by simp), fun i hi => ?_⟩
        have := hall (i + 1) (by simpa using hi)
        rwa [show k + (i + 1) = k + 1 + i by omega] at this

namespace FrameReader.Over

variable {contents : List Bytes} {reader : FrameReader}

theorem checkRangeUniform_ok (h : reader.Over contents) {last k j : Nat}
    (hlast : lastDataFrame reader.table = .ok last) (hj : j ≤ contents.length)
    (hok : checkRangeUniform find reader n k j = .ok ()) :
    ∀ i (hi : i < contents.length), k ≤ i → i < j →
      (find.records contents[i]).length = n ∨
        (i = j - 1 ∧ i = last ∧ (find.records contents[i]).length < n) := by
  obtain ⟨reader', hcounts, -⟩ := h.frameCounts_spec find (List.range' k (j - k)) fun i hi => by
    rw [List.mem_range'_1] at hi
    omega
  rw [checkRangeUniform, hlast, hcounts] at hok
  intro i hi hki hij
  have := (judgeRange_eq_ok_iff n last j k _).mp hok (i - k)
    (by rw [List.length_map, List.length_range']; omega)
  simpa [count_eq, List.getD_eq_getElem?_getD, Nat.add_sub_cancel' hki, hi] using this

end FrameReader.Over

/-! ### What is established before the cut -/

variable {archive input : Archive zeek} {fromIdx : Nat} {cnt : Option Nat} {check : RangeCheck}

/-- The frames of a file up to the last one that carries data. -/
def dataFrames (contents : List Bytes) : List Bytes := contents.rdropWhile List.isEmpty

theorem dataFrames_eq_take {contents : List Bytes} {last : Nat} (hlt : last < contents.length)
    (hdata : contents[last] ≠ [])
    (hpast : ∀ i (hi : i < contents.length), last < i → contents[i] = []) :
    dataFrames contents = contents.take (last + 1) := by
  have hempty : ∀ g ∈ (contents.drop (last + 1)).reverse, g.isEmpty = true := by
    intro g hg
    obtain ⟨i, hi, rfl⟩ := List.mem_iff_getElem.mp (List.mem_reverse.mp hg)
    rw [List.length_drop] at hi
    rw [List.getElem_drop, List.isEmpty_iff]
    exact hpast _ (by omega) (by omega)
  have hdrop : dataFrames contents = (contents.take (last + 1)).rdropWhile List.isEmpty := by
    rw [dataFrames, List.rdropWhile, ← List.take_append_drop (last + 1) contents,
      List.reverse_append, List.dropWhile_append_of_pos hempty, List.take_append_drop]
    rfl
  rw [hdrop, List.rdropWhile_eq_self_iff]
  intro hne
  rw [List.isEmpty_iff, List.getLast_eq_getElem]
  simp only [List.length_take, List.getElem_take, Nat.min_eq_left (show last + 1 ≤ contents.length
    from hlt), Nat.add_sub_cancel]
  exact hdata

/-- The target of an append that goes ahead is full to its end, and the frames to copy lie in the
input, behind a frame 0 that holds as much as those of the target. -/
theorem appendFramesChecks_ok (huniform : archive.IsUniform boundary n)
    {table inTable : SeekTable} {last k j : Nat}
    (hok : appendFramesChecks zeek archive.file input.file fromIdx cnt boundary.find check =
      .ok (table, last, inTable, k, j)) :
    table = tableOf archive.frames ∧ inTable = tableOf input.frames ∧
      3 ≤ archive.contents.length ∧ last + 1 = archive.contents.length ∧
      (∀ g ∈ archive.contents, boundary.find.Full n g) ∧
      ∃ (tail : Option Nat) (reader : FrameReader) (inLast : Nat),
        reader.Over input.contents ∧ lastDataFrame reader.table = .ok inLast ∧ 0 < inLast ∧
        frameRange boundary.find reader n fromIdx cnt = .ok (k, j, tail) ∧
        (k ≠ j → check = .everyFrame → checkRangeUniform boundary.find reader n k j = .ok ()) := by
  rw [appendFramesChecks, archive.fromSeekable] at hok
  simp only at hok
  cases hvalidate : validateSeparator boundary.find
      (.new zeek archive.file (tableOf archive.frames)) with
  | error e => simp [hvalidate] at hok
  | ok validated =>
      have hthree := archive.stands.three_le_of_validateSeparator hvalidate
      obtain ⟨reader₁, hcount, hover₁⟩ :=
        archive.stands.validateSeparator_of_uniform huniform hthree
      rw [hvalidate] at hcount
      cases hcount
      have hne := Uniform.ne_nil huniform
      have hdata : archive.contents.getLast hne ≠ [] :=
        (Uniform.last huniform _ (List.getLast?_eq_getLast_of_ne_nil hne)).1
      have hlast := archive.stands.lastDataFrame_of_last hne hdata
      obtain ⟨reader₂, hwalk, hover₂⟩ := hover₁.walkFrame_spec boundary.find
        (i := archive.contents.length - 1) (by omega)
      rw [FrameReader.new] at hlast
      simp only [hvalidate, hlast, hwalk] at hok
      by_cases hwhole : endsWhole boundary.find archive.contents[archive.contents.length - 1] = true
      · rw [if_neg (by rw [hwhole]; decide)] at hok
        by_cases hheld : count boundary.find archive.contents[archive.contents.length - 1] = n
        · rw [if_neg (not_not.mpr hheld), input.fromSeekable] at hok
          simp only at hok
          cases hper : recordsPerFrame boundary.find
              (.new zeek input.file (tableOf input.frames)) .firstFrame with
          | error e => simp [hper] at hok
          | ok found =>
              obtain ⟨inN, inReader⟩ := found
              obtain ⟨hover, -, -, -, inLast, hinLast, hpos⟩ :=
                input.stands.recordsPerFrame_ok hper
              simp only [hper] at hok
              by_cases hsame : inN = n
              · rw [if_neg (not_not.mpr hsame)] at hok
                cases hrange : frameRange boundary.find inReader n fromIdx cnt with
                | error e => simp [hrange] at hok
                | ok range =>
                    obtain ⟨k', j', tail⟩ := range
                    simp only [hrange] at hok
                    have hfull : ∀ g ∈ archive.contents, boundary.find.Full n g := by
                      intro g hg
                      obtain ⟨i, hi, rfl⟩ := List.mem_iff_getElem.mp hg
                      by_cases hend : i + 1 = archive.contents.length
                      · obtain rfl : i = archive.contents.length - 1 := by omega
                        exact ⟨(count_eq _ _).symm.trans hheld,
                          ((endsWhole_iff _ _).mp hwhole).2⟩
                      · exact Uniform.full_getElem huniform (by omega)
                    have hlast' : lastDataFrame inReader.table = .ok inLast := by
                      rw [← hinLast]
                      exact hover.lastDataFrame_congr input.stands
                    by_cases hjudge : k' ≠ j' ∧ check = .everyFrame
                    · rw [if_pos hjudge] at hok
                      cases hcheck : checkRangeUniform boundary.find inReader n k' j' with
                      | error e => simp [hcheck] at hok
                      | ok u =>
                          simp only [hcheck] at hok
                          cases hok
                          exact ⟨rfl, rfl, hthree, by omega, hfull, tail, inReader, inLast, hover,
                            hlast', hpos, hrange, fun _ _ => hcheck⟩
                    · rw [if_neg hjudge] at hok
                      cases hok
                      exact ⟨rfl, rfl, hthree, by omega, hfull, tail, inReader, inLast, hover,
                        hlast', hpos, hrange, fun hne hevery => absurd ⟨hne, hevery⟩ hjudge⟩
              · rw [if_pos hsame] at hok
                cases hok
        · rw [if_pos hheld] at hok
          cases hok
      · rw [if_pos (by rw [Bool.eq_false_of_not_eq_true hwhole]; rfl)] at hok
        cases hok

/-- The frames to copy are frames of the input. -/
theorem FrameReader.Over.range_bounds {contents : List Bytes} {reader : FrameReader}
    (h : reader.Over contents) {inLast k j : Nat} {tail : Option Nat}
    (hlast : lastDataFrame reader.table = .ok inLast)
    (hrange : frameRange find reader n fromIdx cnt = .ok (k, j, tail)) :
    k ≤ j ∧ j ≤ inLast + 1 ∧ inLast < contents.length := by
  have hlt : inLast < contents.length := by
    have hne : contents ≠ [] := by
      rintro rfl
      have hnone : reader.table.length = 0 := h.length
      rw [lastDataFrame, if_pos hnone] at hlast
      cases hlast
    obtain ⟨last, hok, hlt, -⟩ := h.lastDataFrame_spec hne
    rw [hlast] at hok
    cases hok
    exact hlt
  obtain ⟨-, rfl, hk, hends⟩ := h.frameRange_ok hlast hlt hrange
  rcases hends with ⟨c, -, -, -, rfl, hj, -⟩ | ⟨rfl, -, -⟩
  · exact ⟨Nat.div_le_div_right (Nat.le_add_right _ _), by omega, hlt⟩
  · exact ⟨by omega, Nat.le_refl _, hlt⟩

/-- An append of frames that succeeds put the frames of the range behind those of the target. -/
theorem appendFramesWith_ok (huniform : archive.IsUniform boundary n) {joined : File}
    (hok : appendFramesWith zeek archive.file input.file fromIdx cnt boundary.find check =
      (.ok (), joined)) :
    ∃ k j, appendFramesChecks zeek archive.file input.file fromIdx cnt boundary.find check =
        .ok (tableOf archive.frames, archive.contents.length - 1, tableOf input.frames, k, j) ∧
      ∃ count_le, joined = (archive.withFrames
        (archive.frames ++ (input.frames.drop k).take (j - k)) count_le).file := by
  rw [appendFramesWith] at hok
  cases hchecks : appendFramesChecks zeek archive.file input.file fromIdx cnt boundary.find
      check with
  | error e => simp [hchecks] at hok
  | ok plan =>
      obtain ⟨table, last, inTable, k, j⟩ := plan
      obtain ⟨rfl, rfl, -, hlen, -, tail, reader, inLast, hover, hlast, -, hrange, -⟩ :=
        appendFramesChecks_ok huniform hchecks
      obtain ⟨hkj, -, -⟩ := hover.range_bounds hlast hrange
      obtain rfl : last = archive.contents.length - 1 := by omega
      refine ⟨k, j, rfl, ?_⟩
      simp only [hchecks] at hok
      by_cases hsame : k = j
      · rw [if_pos hsame] at hok
        cases hok
        refine ⟨by simpa [hsame] using archive.count_le, ?_⟩
        simp [hsame, Archive.withFrames]
      · rw [if_neg hsame] at hok
        obtain ⟨-, hall, -⟩ := ioCopy_spec (input.file.part
          ((tableOf input.frames).frameStartComp k) ((tableOf input.frames).frameEndComp (j - 1)))
        rw [input.part_frames (by omega)] at hall
        generalize ioCopy (input.file.part ((tableOf input.frames).frameStartComp k)
          ((tableOf input.frames).frameEndComp (j - 1))) = copied at hok hall
        obtain ⟨answer, bytes⟩ := copied
        cases answer with
        | error e => simp at hok
        | ok u =>
            obtain rfl : bytes = _ := hall rfl
            have hkept : (tableOf archive.frames).take (archive.contents.length - 1 + 1) =
                tableOf (archive.frames.take archive.contents.length) := by
              rw [hlen, tableOf_take]
            have hfirst : logFrames zeek []
                (tableOf (archive.frames.take archive.contents.length)) =
                  .ok (tableOf (archive.frames.take archive.contents.length)) := by
              apply logFrames_of_le
              simpa using archive.count_le
            simp only [hkept, hfirst, tableOf_range] at hok
            cases hlog : logFrames zeek (tableOf (archive.frames.take archive.contents.length))
                (tableOf ((input.frames.drop k).take (j - k))) with
            | error e =>
                simp only [hlog] at hok
                cases hok
            | ok out =>
                simp only [hlog] at hok
                cases hok
                obtain ⟨rfl, hroom⟩ := (logFrames_eq_ok_iff zeek _ _ _).mp hlog
                have hcount : (archive.frames.take archive.contents.length ++
                    (input.frames.drop k).take (j - k)).length ≤ zeek.maxFrames := by
                  rcases hroom with hnone | hroom
                  · have hnil := congrArg List.length hnone
                    have := archive.count_le
                    simp only [length_tableOf, List.length_nil] at hnil
                    rw [List.length_append, hnil]
                    simp
                    omega
                  · simpa using hroom
                have hcut := archive.cut_write archive.contents.length _ hcount
                rw [frameEndComp_tableOf, hlen, hcut]
                have hframes : archive.frames.take archive.contents.length = archive.frames :=
                  List.take_of_length_le (by rw [archive.length_contents])
                refine ⟨by rw [← hframes]; exact hcount, ?_⟩
                simp only [hframes]

/-! ### Splitting and joining -/

theorem three_le_of_truncateRecords {recordLen : Nat} {left : File}
    (hok : truncateRecords zeek archive.file recordLen find = (.ok (), left)) :
    3 ≤ archive.contents.length := by
  rw [truncateRecords, truncateChecks, archive.fromSeekable] at hok
  simp only at hok
  cases hvalidate : validateSeparator find (.new zeek archive.file (tableOf archive.frames)) with
  | error e => simp [hvalidate] at hok
  | ok validated => exact archive.stands.three_le_of_validateSeparator hvalidate

/-- A range that runs from its first frame to the end is the whole file. -/
theorem frameRange_whole {reader : FrameReader} {contents : List Bytes}
    (h : reader.Over contents) (hne : contents ≠ []) (hdata : contents.getLast hne ≠ [])
    {k j : Nat} {tail : Option Nat}
    (hrange : frameRange find reader n 0 none = .ok (k, j, tail)) :
    k = 0 ∧ j = contents.length := by
  have hpos := List.length_pos_iff.mpr hne
  have hlast := h.lastDataFrame_of_last hne hdata
  obtain ⟨-, rfl, -, hends⟩ := h.frameRange_ok hlast (by omega) hrange
  rcases hends with ⟨c, hc, -⟩ | ⟨rfl, -, -⟩
  · cases hc
  · exact ⟨Nat.zero_div n, by omega⟩

/-- Copying the records from `b` on, truncating to `b` records and appending the copy gives the
file back, byte for byte; in between the two parts hold what the file held. -/
theorem split_join_restores (huniform : archive.IsUniform boundary n) {b : Nat}
    {output second : Sink} (hempty : output.written = []) {left joined : File}
    {check : SeparatorCheck} {rangeCheck : RangeCheck} {reads : Nat → Nat}
    {schedule : Nat → Option Nat}
    (hcopy : copyRangeWith zeek archive.file output b none boundary.find .notRequired check =
      (.ok (), second))
    (htruncate : truncateRecords zeek archive.file b boundary.find = (.ok (), left))
    (happend : appendFramesWith zeek left { bytes := second.written, reads, schedule } 0 none
      boundary.find rangeCheck = (.ok (), joined)) :
    joined.bytes = archive.file.bytes ∧
      ∃ head rest : Archive zeek, left = head.file ∧ second.written = rest.file.bytes ∧
        head.data ++ rest.data = archive.data := by
  have hpos : 0 < n := Uniform.pos huniform
  have hthree := three_le_of_truncateRecords htruncate
  have hin : 1 ≤ b ∧ b ≤ (boundary.find.records archive.data).length ∧ n ∣ b := by
    by_contra hout
    obtain ⟨e, hrefused⟩ := truncateRecords_refused huniform hthree hout
    rw [hrefused] at htruncate
    cases htruncate
  obtain ⟨hone, hle, k, rfl⟩ := hin
  have hk : 0 < k := Nat.pos_of_mul_pos_left hone
  rw [truncateRecords_of_frames huniform hthree hk hle] at htruncate
  cases htruncate
  -- the copy starts where the cut is, and runs to the end
  obtain ⟨k', j, hchecks, hwritten⟩ := copyRangeWith_ok hcopy
  obtain ⟨hfrom, hkj, hj, hends⟩ := copyRange_frames huniform hchecks
  obtain rfl : k = k' := Nat.eq_of_mul_eq_mul_left hpos hfrom
  obtain rfl : j = archive.contents.length := by
    rcases hends with ⟨c, hc, -⟩ | ⟨hj, -, -⟩
    · cases hc
    · exact hj
  have hsecond : second.written = (archive.range k archive.contents.length).file.bytes := by
    rw [hwritten hkj, hempty, List.nil_append]
    rfl
  -- the append takes all of it
  obtain ⟨-, -, hleft⟩ := data_take_of_lt huniform hk hkj
  have hrest : (archive.range k archive.contents.length).frames = archive.frames.drop k := by
    rw [Archive.range, Archive.withFrames]
    apply List.take_of_length_le
    rw [List.length_drop, archive.length_contents]
  let copied : Archive zeek :=
    { archive.range k archive.contents.length with reads := reads, schedule := schedule }
  have hcopied : copied.contents = archive.contents.drop k := by
    show (archive.range k archive.contents.length).frames.map Stored.content = _
    rw [hrest, List.map_drop]
    rfl
  have hinput : ({ bytes := second.written, reads, schedule } : File) = copied.file := by
    rw [hsecond]
    rfl
  rw [hinput] at happend
  obtain ⟨k₂, j₂, hchecks₂, count_le, hjoined⟩ := appendFramesWith_ok hleft happend
  obtain ⟨-, -, -, -, -, tail, reader, -, hover, -, -, hrange, -⟩ :=
    appendFramesChecks_ok hleft hchecks₂
  rw [hcopied] at hover
  have hsuffix := Uniform.drop huniform hkj
  obtain ⟨rfl, rfl⟩ := frameRange_whole hover (Uniform.ne_nil hsuffix)
    (Uniform.last hsuffix _ (List.getLast?_eq_getLast_of_ne_nil _)).1 hrange
  refine ⟨?_, archive.take k, archive.range k archive.contents.length, rfl, hsecond, ?_⟩
  · have hall : archive.frames.take k ++
        (copied.frames.drop 0).take ((archive.contents.drop k).length - 0) = archive.frames := by
      show archive.frames.take k ++ (((archive.range k archive.contents.length).frames.drop 0).take
        ((archive.contents.drop k).length - 0)) = archive.frames
      have hmore : (archive.frames.drop k).take ((archive.contents.drop k).length - 0) =
          archive.frames.drop k :=
        List.take_of_length_le (by simp)
      rw [hrest, List.drop_zero, hmore, List.take_append_drop]
    rw [hjoined]
    show bytesOf (archive.frames.take k ++ _) = bytesOf archive.frames
    rw [hall]
  · have hmore : (archive.contents.drop k).take (archive.contents.length - k) =
        archive.contents.drop k :=
      List.take_of_length_le (by rw [List.length_drop])
    rw [Archive.data, Archive.data, Archive.contents_take, Archive.contents_range, hmore]
    exact Uniform.flatten_take_append_drop archive.contents k

/-- A record to each of five frames: `a`; `b`; `c`; `d`; `e`. -/
def fiveArchive : Archive storedZeekstd :=
  storedArchive [[97, 10], [98, 10], [99, 10], [100, 10], [101, 10]]

theorem fiveArchive_uniform : fiveArchive.IsUniform lineBoundary 1 := by
  unfold Archive.IsUniform
  decide

/-- What copying the last two records of the five wrote. -/
def fiveSecond : Sink :=
  (copyRangeWith storedZeekstd fiveArchive.file {} 3 none lineBoundary.find .notRequired
    .firstFrame).2

/-- The first three of the five. -/
def fiveLeft : File := (truncateRecords storedZeekstd fiveArchive.file 3 lineBoundary.find).2

/-- The two parts joined. -/
def fiveJoined : Except Error Unit × File :=
  appendFramesWith storedZeekstd fiveLeft
    { bytes := fiveSecond.written, reads := fun _ => 0, schedule := some } 0 none
    lineBoundary.find .everyFrame

theorem split_join_restores_fiveArchive : fiveJoined.2.bytes = fiveArchive.file.bytes := by
  have hcopy : (copyRangeWith storedZeekstd fiveArchive.file {} 3 none lineBoundary.find
      .notRequired .firstFrame).1 = .ok () := by rfl
  have htruncate : (truncateRecords storedZeekstd fiveArchive.file 3 lineBoundary.find).1 =
      .ok () := by rfl
  have happend : fiveJoined.1 = .ok () := by rfl
  have hempty : ({} : Sink).written = [] := rfl
  exact (split_join_restores fiveArchive_uniform hempty (Prod.ext hcopy rfl)
    (Prod.ext htruncate rfl) (Prod.ext happend rfl)).1

/-! ### Frames that keep the records per frame -/

/-- The frames of a file that a range of its records covers. -/
def coveredBy (contents : List Bytes) (n fromIdx : Nat) : Option Nat → List Bytes
  | none => (dataFrames contents).drop (fromIdx / n)
  | some c =>
      ((dataFrames contents).drop (fromIdx / n)).take ((fromIdx + c + (n - 1)) / n - fromIdx / n)

/-- Every frame but the last ends where a record does, and so does the last one where the file
may not end with an unfinished record. -/
def CutAtRecords (boundary : Boundary) (frames : List Bytes) : Prop :=
  (∀ g ∈ frames.dropLast, boundary.find.rest g = []) ∧
    (boundary.tailIsRecord = true ∨ ∀ g ∈ frames.getLast?, boundary.find.rest g = [])

theorem drop_take_take {contents : List Bytes} {last k j : Nat} (hj : j ≤ last) :
    ((contents.take last).drop k).take (j - k) = (contents.drop k).take (j - k) := by
  rw [List.drop_take, List.take_take, Nat.min_eq_left (by omega)]

/-- The frames that are copied are those the range covers. -/
theorem FrameReader.Over.range_covered {contents : List Bytes} {reader : FrameReader}
    (h : reader.Over contents) (hn : 0 < n) {inLast k j : Nat} {tail : Option Nat}
    (hlast : lastDataFrame reader.table = .ok inLast) (hpos : 0 < inLast)
    (hrange : frameRange find reader n fromIdx cnt = .ok (k, j, tail))
    (hsmall : n * inLast + n < usizeMax)
    (hheld : ∀ hlt : inLast < contents.length, k ≤ inLast → inLast < j →
      (find.records contents[inLast]).length ≤ n) :
    (contents.drop k).take (j - k) = coveredBy contents n fromIdx cnt := by
  obtain ⟨-, -, hlt⟩ := h.range_bounds hlast hrange
  obtain ⟨last, hok, -, hpast, hdata⟩ :=
    h.lastDataFrame_spec (List.length_pos_iff.mp (Nat.lt_of_le_of_lt (Nat.zero_le _) hlt))
  rw [hlast] at hok
  cases hok
  have hframes : dataFrames contents = contents.take (inLast + 1) := by
    apply dataFrames_eq_take hlt _ hpast
    have := hdata.resolve_left (by omega)
    rwa [List.getD_eq_getElem?_getD, List.getElem?_eq_getElem hlt, Option.getD_some] at this
  obtain ⟨-, rfl, hk, hends⟩ := h.frameRange_ok hlast hlt hrange
  rcases hends with ⟨c, rfl, -, hmod, rfl, hj, -⟩ | ⟨rfl, -, hsome⟩
  · have hceil : (fromIdx + c + (n - 1)) / n = (fromIdx + c) / n := by
      obtain ⟨q, hq⟩ := Nat.dvd_of_mod_eq_zero hmod
      rw [hq, Nat.mul_div_cancel_left _ hn, Nat.mul_add_div hn,
        Nat.div_eq_of_lt (show n - 1 < n by omega), Nat.add_zero]
    rw [coveredBy, hceil, hframes, drop_take_take (by omega)]
  · cases cnt with
    | none => rw [coveredBy, hframes, List.drop_take]
    | some c =>
        obtain ⟨hsum, hnot⟩ := hsome c rfl
        have hmost := hheld hlt hk (by omega)
        rw [count_eq, saturatingAdd] at hsum
        have hend : fromIdx + c = n * inLast + (find.records contents[inLast]).length := by omega
        have hsome : 0 < (find.records contents[inLast]).length := by
          apply Nat.pos_of_ne_zero
          intro hnone
          rw [hnone, Nat.add_zero] at hend
          exact hnot ⟨by omega, by rw [hend, Nat.mul_mod_right],
            by rw [hend, Nat.mul_div_cancel_left _ hn]⟩
        have hceil : (fromIdx + c + (n - 1)) / n = inLast + 1 := by
          rw [hend, Nat.add_assoc, Nat.mul_add_div hn]
          congr 1
          apply Nat.div_eq_of_lt_le
          · omega
          · omega
        rw [coveredBy, hceil, hframes, drop_take_take (Nat.le_refl _)]

/-- Frames behind full ones keep the format where each but the last is full too. -/
theorem uniform_append_iff {frames more : List Bytes} (hn : 0 < n) (hne : more ≠ [])
    (hfull : ∀ g ∈ frames, boundary.find.Full n g)
    (hcount : ∀ g ∈ more.dropLast, (boundary.find.records g).length = n)
    (hlast : more.getLast hne ≠ [] ∧ (boundary.find.records (more.getLast hne)).length ≤ n) :
    Uniform boundary.find boundary.tailIsRecord n (frames ++ more) ↔
      CutAtRecords boundary more := by
  have hsplit : frames ++ more = (frames ++ more.dropLast) ++ [more.getLast hne] := by
    rw [List.append_assoc, List.dropLast_append_getLast]
  rw [hsplit, uniform_concat_iff, CutAtRecords, List.getLast?_eq_getLast_of_ne_nil hne]
  constructor
  · rintro ⟨-, hall, -, -, htail⟩
    refine ⟨fun g hg => (hall g (List.mem_append_right _ hg)).2, htail.imp_right ?_⟩
    rintro hrest g ⟨⟩
    exact hrest
  · rintro ⟨hall, htail⟩
    refine ⟨hn, fun g hg => ?_, hlast.1, hlast.2, htail.imp_right fun hrest => hrest _ rfl⟩
    rcases List.mem_append.mp hg with hg | hg
    · exact hfull g hg
    · exact ⟨hcount g hg, hall g hg⟩

/-- What a check of every frame establishes about the frames that are copied. -/
theorem FrameReader.Over.range_checked {contents : List Bytes} {reader : FrameReader}
    (h : reader.Over contents) (hn : 0 < n) {inLast k j : Nat} {tail : Option Nat}
    (hlast : lastDataFrame reader.table = .ok inLast) (hpos : 0 < inLast)
    (hrange : frameRange find reader n fromIdx cnt = .ok (k, j, tail)) (hkj : k < j)
    (hcheck : checkRangeUniform find reader n k j = .ok ()) :
    ∃ hne : (contents.drop k).take (j - k) ≠ [],
      (∀ g ∈ ((contents.drop k).take (j - k)).dropLast, (find.records g).length = n) ∧
      ((contents.drop k).take (j - k)).getLast hne ≠ [] ∧
      (find.records (((contents.drop k).take (j - k)).getLast hne)).length ≤ n := by
  obtain ⟨-, hj, hlt⟩ := h.range_bounds hlast hrange
  obtain ⟨last, hok, -, -, hdata⟩ :=
    h.lastDataFrame_spec (List.length_pos_iff.mp (Nat.lt_of_le_of_lt (Nat.zero_le _) hlt))
  rw [hlast] at hok
  cases hok
  have hcounts := h.checkRangeUniform_ok hlast (by omega) hcheck
  have hlength : ((contents.drop k).take (j - k)).length = j - k := by
    rw [List.length_take, List.length_drop]
    omega
  have hne : (contents.drop k).take (j - k) ≠ [] := List.length_pos_iff.mp (by omega)
  refine ⟨hne, ?_, ?_⟩
  · intro g hg
    obtain ⟨i, hi, rfl⟩ := List.mem_iff_getElem.mp hg
    rw [List.length_dropLast, hlength] at hi
    rw [List.getElem_dropLast, List.getElem_take, List.getElem_drop]
    rcases hcounts (k + i) (by omega) (by omega) (by omega) with heq | ⟨hend, -⟩
    · exact heq
    · omega
  · have hgetLast : ((contents.drop k).take (j - k)).getLast hne = contents[j - 1] := by
      rw [List.getLast_eq_getElem]
      simp only [hlength, List.getElem_take, List.getElem_drop,
        show k + (j - k - 1) = j - 1 by omega]
    rw [hgetLast]
    rcases hcounts (j - 1) (by omega) (by omega) (by omega) with heq | ⟨-, hend, hfew⟩
    · refine ⟨?_, Nat.le_of_eq heq⟩
      intro hnil
      rw [hnil, find.records_nil] at heq
      simp at heq
      omega
    · refine ⟨?_, Nat.le_of_lt hfew⟩
      have := hdata.resolve_left (by omega)
      rw [List.getD_eq_getElem?_getD, List.getElem?_eq_getElem hlt, Option.getD_some] at this
      simp only [hend]
      exact this

/-- The records a frame holds fit a `u32`, and so do the frames of a file. -/
theorem Archive.wide (archive input : Archive zeek) {inLast : Nat}
    (hfull : ∀ g ∈ archive.contents, boundary.find.Full n g) (hne : archive.contents ≠ [])
    (hlt : inLast < input.contents.length) : n * inLast + n < usizeMax := by
  have hframe : n ≤ u32Max := by
    obtain ⟨g, hg⟩ := List.exists_mem_of_ne_nil _ hne
    obtain ⟨frame, -, rfl⟩ := List.mem_map.mp hg
    rw [← (hfull _ hg).1]
    exact Nat.le_trans (boundary.find.length_records_le _) frame.content_le
  have hcount : inLast + 1 ≤ u32Max := by
    rw [input.length_contents] at hlt
    exact Nat.le_trans hlt (Nat.le_trans input.count_le zeek.maxFrames_le)
  have hmul : n * (inLast + 1) ≤ u32Max * u32Max := Nat.mul_le_mul hframe hcount
  have hwide : u32Max * u32Max < usizeMax := by decide
  rw [← Nat.mul_succ]
  exact Nat.lt_of_le_of_lt hmul hwide

/-- Two files joined with every frame checked are the frames of the one and those the range
covers, and uniform exactly where these are cut at records: the check counts the records of a
frame and does not look behind the last. -/
theorem joined_uniform_iff (huniform : archive.IsUniform boundary n) {joined : File}
    (hok : appendFramesWith zeek archive.file input.file fromIdx cnt boundary.find .everyFrame =
      (.ok (), joined)) :
    ∃ result : Archive zeek, joined = result.file ∧
      result.contents = archive.contents ++ coveredBy input.contents n fromIdx cnt ∧
      (result.IsUniform boundary n ↔
        CutAtRecords boundary (coveredBy input.contents n fromIdx cnt)) := by
  have hn : 0 < n := Uniform.pos huniform
  obtain ⟨k, j, hchecks, count_le, rfl⟩ := appendFramesWith_ok huniform hok
  obtain ⟨-, -, -, -, hfull, tail, reader, inLast, hover, hlast, hpos, hrange, hcheck⟩ :=
    appendFramesChecks_ok huniform hchecks
  obtain ⟨hkj, hj, hlt⟩ := hover.range_bounds hlast hrange
  have hheld : ∀ hlt : inLast < input.contents.length, k ≤ inLast → inLast < j →
      (boundary.find.records input.contents[inLast]).length ≤ n := by
    intro hlt hk hj'
    rcases hover.checkRangeUniform_ok hlast (by omega) (hcheck (by omega) rfl) inLast hlt hk
      hj' with heq | ⟨-, -, hfew⟩
    · exact Nat.le_of_eq heq
    · exact Nat.le_of_lt hfew
  have hcovered := hover.range_covered hn hlast hpos hrange
    (archive.wide input hfull (Uniform.ne_nil huniform) hlt) hheld
  rw [← hcovered]
  have hcontents : (archive.withFrames (archive.frames ++ (input.frames.drop k).take (j - k))
      count_le).contents = archive.contents ++ (input.contents.drop k).take (j - k) := by
    rw [Archive.contents_withFrames, List.map_append, List.map_take, List.map_drop]
    rfl
  refine ⟨_, rfl, hcontents, ?_⟩
  rw [Archive.IsUniform, hcontents]
  rcases Nat.lt_or_eq_of_le hkj with hlt' | rfl
  · obtain ⟨hne, hcounts, hlastFrame⟩ := hover.range_checked hn hlast hpos hrange hlt'
      (hcheck (by omega) rfl)
    exact uniform_append_iff hn hne hfull hcounts hlastFrame
  · rw [Nat.sub_self, List.take_zero, List.append_nil]
    exact iff_of_true huniform ⟨by simp, Or.inr (by simp)⟩

/-- A join with every frame checked keeps the format exactly where the frames it takes over are
cut at records. -/
theorem append_frames_uniform_iff (huniform : archive.IsUniform boundary n) {joined : File}
    (hok : appendFramesWith zeek archive.file input.file fromIdx cnt boundary.find .everyFrame =
      (.ok (), joined)) :
    (∃ result : Archive zeek, joined = result.file ∧ result.IsUniform boundary n ∧
        result.data = archive.data ++ (coveredBy input.contents n fromIdx cnt).flatten) ↔
      CutAtRecords boundary (coveredBy input.contents n fromIdx cnt) := by
  obtain ⟨joined', rfl, hcontents, hiff⟩ := joined_uniform_iff huniform hok
  rw [← hiff]
  constructor
  · rintro ⟨result, hfile, hresult, -⟩
    have hsame := Archive.contents_eq_of_bytes (congrArg File.bytes hfile)
    rw [Archive.IsUniform, hsame]
    exact hresult
  · intro hjoined
    refine ⟨joined', rfl, hjoined, ?_⟩
    rw [Archive.data, hcontents, List.flatten_append]
    rfl

/-- Frames of one record each, the second with the start of another behind it:
`d`; `e`, `f…`; `…g`. -/
def straddlingArchive : Archive storedZeekstd :=
  storedArchive [[100, 10], [101, 10, 102], [103, 10]]

/-- The five letters, and the frames that straddle, behind them. -/
def straddlingJoined (fromIdx : Nat) (cnt : Option Nat) : Except Error Unit × File :=
  appendFramesWith storedZeekstd fiveArchive.file straddlingArchive.file fromIdx cnt
    lineBoundary.find .everyFrame

/-- Of the first frame alone the format is kept. -/
theorem append_frames_uniform_straddlingArchive :
    ∃ result : Archive storedZeekstd, (straddlingJoined 0 (some 1)).2 = result.file ∧
      result.IsUniform lineBoundary 1 := by
  have hok : (straddlingJoined 0 (some 1)).1 = .ok () := by rfl
  have hcut : CutAtRecords lineBoundary (coveredBy straddlingArchive.contents 1 0 (some 1)) := by
    unfold CutAtRecords
    decide
  obtain ⟨result, hfile, hresult, -⟩ :=
    (append_frames_uniform_iff fiveArchive_uniform (Prod.ext hok rfl)).mpr hcut
  exact ⟨result, hfile, hresult⟩

/-- All of them pass the check of every frame, and a frame of the result goes on behind its last
record. -/
theorem append_frames_drifts_straddlingArchive :
    fiveArchive.IsUniform lineBoundary 1 ∧ (straddlingJoined 0 none).1 = .ok () ∧
      ¬ ∃ result : Archive storedZeekstd, (straddlingJoined 0 none).2 = result.file ∧
        result.IsUniform lineBoundary 1 := by
  refine ⟨fiveArchive_uniform, by rfl, ?_⟩
  rintro ⟨result, hfile, hresult⟩
  have hbytes : (straddlingJoined 0 none).2.bytes = (storedArchive
      [[97, 10], [98, 10], [99, 10], [100, 10], [101, 10], [100, 10], [101, 10, 102],
        [103, 10]]).file.bytes := by rfl
  have hcontents := Archive.contents_eq_of_bytes (hbytes.symm.trans (congrArg File.bytes hfile))
  rw [Archive.IsUniform, ← hcontents] at hresult
  have hfull := hresult.full [101, 10, 102] (by decide)
  exact absurd hfull.2 (by decide)

end SeekZstdSep
