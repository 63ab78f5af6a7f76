/-
Module: SeekZstdSep.Proofs.Restore
Purpose: Truncating a file to the records it had before an append gives back the file it was. An
  append behind a full last frame touches nothing of the frames that were there, and whatever it
  leaves in the new last frame, the frames before it hold the count the cut is computed with.
Trusted boundary: the library, as `Zeekstd` has it
Main exports: append_then_truncate
-/
import SeekZstdSep.Proofs.Append

namespace SeekZstdSep

open Lib

variable {zeek : Zeekstd} {boundary : Boundary} {find : Finder UInt8} {ragged : Bool} {n : Nat}
  {archive : Archive zeek} {records : Option Nat} {target : AppendTarget}

/-- Frame 0 is the first one whose count is confirmed. -/
theorem FrameReader.Over.count_of_validate {contents : List Bytes} {reader reader' : FrameReader}
    (h : reader.Over contents) {last count : Nat} (hlast : 0 < last) (hin : 0 < contents.length)
    (hok : validateRecordsPerFrame find reader last count = .ok reader') :
    (find.records contents[0]).length = count := by
  obtain ⟨more, hmore⟩ : ∃ more, [0, last - 1].take (if 1 < last then 2 else last) = 0 :: more := by
    obtain ⟨k, hk⟩ : ∃ k, (if 1 < last then 2 else last) = k + 1 := by
      split
      · exact ⟨1, rfl⟩
      · exact ⟨last - 1, by omega⟩
    rw [hk, List.take_succ_cons]
    exact ⟨_, rfl⟩
  obtain ⟨reader₁, hwalk, -⟩ := h.walkFrame_spec find hin
  rw [validateRecordsPerFrame, hmore, mustContain, hwalk] at hok
  simp only [count_eq] at hok
  split_ifs at hok with hother
  by_contra hne
  exact hother (Or.inl hne)

/-- An append that does not trust its count goes by the one the file has. -/
theorem appendTarget_untrusted (huniform : Uniform find ragged n archive.contents)
    (htwo : 2 ≤ archive.contents.length)
    (hok : appendTarget zeek archive.file find records false none = .ok target) :
    target.Over archive n := by
  have hlast := Archive.lastContent_ne_nil huniform
  have hcount : ∀ count ∈ records, count = n := by
    rintro count ⟨⟩
    rw [appendTarget, archive.fromSeekable, if_neg fun h => Bool.false_ne_true h.1] at hok
    simp only [Archive.lastDataFrame_eq hlast, length_tableOf, ← archive.length_contents,
      if_neg (show ¬ archive.contents.length = 0 by omega), fittingResult, Option.filter_none,
      Option.any_none, Bool.not_false, Bool.and_true, if_true] at hok
    split_ifs at hok
    cases hvalidate : validateRecordsPerFrame find
        (FrameReader.new zeek archive.file (tableOf archive.frames))
        (archive.contents.length - 1) count with
    | error e =>
        rw [hvalidate] at hok
        cases hok
    | ok reader =>
        have hfirst := archive.stands.count_of_validate (by omega) (by omega) hvalidate
        rw [← hfirst]
        exact (huniform.full_getElem (k := 0) (by omega)).1
  exact (appendTarget_ok hlast (fun _ => ⟨_, huniform⟩) hcount (fun _ hin => by cases hin) hok).1

variable {data : Input} {separator : Bytes} {onMissing : OnMissingSeparator} {level : Int}
  {options : AppendOptions} {result : AppendResult} {f' : File}

/-- An append to a file whose last frame is full leaves every frame of it, and writes the groups of
the data behind them. -/
theorem appendRecordsInner_behind {separator : Option Bytes}
    (huniform : Uniform find ragged n archive.contents) (htwo : 2 ≤ archive.contents.length)
    (hfull : find.Full n archive.lastContent) (hfills : archive.Fills)
    (hok : appendRecordsInner zeek archive.file data find separator onMissing level records false
      none = (.ok result, f')) :
    f' = archive.file ∨
      ∃ (frames : List (Stored zeek.toFrameFormat))
        (hcount : (archive.frames ++ frames).length ≤ zeek.maxFrames),
        f' = (archive.withFrames (archive.frames ++ frames) hcount).file ∧
        frames.map Stored.content = find.groups n data.data ∧ data.data ≠ [] := by
  by_cases hdata : data.data = []
  · left
    rw [appendRecordsInner] at hok
    cases hchecks : appendChecks zeek archive.file data find separator onMissing level records
        false none with
    | error e =>
        rw [hchecks] at hok
        cases hok
    | ok plan =>
        obtain ⟨target, rest⟩ := plan
        obtain ⟨-, head, data', hhead, hcase⟩ := appendChecks_ok hchecks
        obtain ⟨hsplit, -, -⟩ := readHead_ok hhead
        have hhead : head = [] := by
          rw [hdata] at hsplit
          exact (List.append_eq_nil_iff.mp hsplit).1
        obtain rfl := (hcase.resolve_right fun hne => hne.1 hhead).2
        rw [hchecks] at hok
        cases hok
        rfl
  · right
    obtain ⟨target, old, reader', frames, htarget, hread, hgroups, hcount, rfl⟩ :=
      appendRecordsInner_writes hdata hok
    have hover := appendTarget_untrusted huniform htwo htarget
    have hlast : target.last < archive.contents.length := by
      rw [hover.last, ← archive.length_contents]
      omega
    obtain ⟨reader'', hread'⟩ := hover.reader.readFrame_spec hlast fun tick => by
      rw [hover.reads]
      exact hfills tick _ (List.getElem_mem hlast)
    rw [hread] at hread'
    have hold : old = archive.lastContent := by
      cases hread'
      rw [archive.lastContent_eq huniform.ne_nil, List.getLast_eq_getElem]
      simp only [hover.last, archive.length_contents]
    have hkept : target.last + 1 = archive.frames.length := by
      rw [hover.last, ← archive.length_contents]
      omega
    have hall : archive.frames.take archive.frames.length = archive.frames := List.take_length
    rw [hover.n, hold, if_pos hfull, List.nil_append] at hgroups
    rw [hover.n, hold, if_pos hfull, hkept, hover.table, tableOf_take, hall, ← tableOf_append,
      length_tableOf] at hcount
    refine ⟨frames, hcount, ?_, hgroups, hdata⟩
    have hcut := archive.cut_write archive.frames.length frames (by rw [hall]; exact hcount)
    rw [hover.n, hold, if_pos hfull, if_pos hfull, hkept, hover.table, tableOf_take,
      frameEndComp_tableOf, hkept, hcut]
    simp only [hall]

/-- Appended to and truncated to the records it had, a file whose last frame is full is the file
it was, seek table included. -/
theorem append_then_truncate (hwhole : boundary.find.Whole)
    (huniform : archive.IsUniform boundary n) (hthree : 3 ≤ archive.contents.length)
    (hfull : boundary.find.Full n archive.lastContent) (hfills : archive.Fills)
    (hgives : options.Gives separator boundary) (hprevious : options.previous = none)
    (htrust : options.trustRecordsPerFrame = false)
    (hok : appendRecordsWithOpts zeek archive.file data separator onMissing level records options =
      (.ok result, f')) :
    truncateRecords zeek f' (boundary.find.records archive.data).length boundary.find =
      (.ok (), archive.file) := by
  have hinner := appendRecordsWithOpts_ok hgives hok
  rw [hprevious, htrust] at hinner
  have hframes : ∀ g ∈ archive.contents, boundary.find.Full n g := by
    obtain ⟨init, last, hcontents, hinit, -⟩ := Uniform.exists_concat huniform
    rw [Archive.lastContent, hcontents, List.getLastD_concat] at hfull
    intro g hg
    rw [hcontents, List.mem_append, List.mem_singleton] at hg
    rcases hg with hg | rfl
    · exact hinit g hg
    · exact hfull
  obtain ⟨hcount, -⟩ := records_flatten_of_full hframes
  have hm : 0 < archive.contents.length := by omega
  rw [Archive.data, hcount]
  rcases appendRecordsInner_behind huniform (by omega) hfull hfills hinner with
    rfl | ⟨frames, hroom, rfl, hgroups, hdata⟩
  · rw [truncateRecords_of_frames huniform hthree hm (by rw [Archive.data, hcount])]
    rw [Archive.take, Archive.withFrames, archive.length_contents]
    simp only [List.take_length]
  · have huniform' : Uniform boundary.find true n
        (archive.withFrames (archive.frames ++ frames) hroom).contents := by
      rw [Archive.contents_withFrames, List.map_append, hgroups]
      exact (Finder.uniform_groups hwhole (Uniform.pos huniform) hdata (Or.inl rfl)).append_full
        hframes
    have hmany : 3 ≤ (archive.withFrames (archive.frames ++ frames) hroom).contents.length := by
      rw [Archive.contents_withFrames, List.length_map, List.length_append,
        ← archive.length_contents]
      omega
    have hle : n * archive.contents.length ≤ (boundary.find.records
        (archive.withFrames (archive.frames ++ frames) hroom).data).length := by
      rw [← hcount, Archive.data, Archive.contents_withFrames, List.map_append, List.flatten_append]
      exact boundary.find.length_records_le_append _ _
    rw [truncateRecords_of_frames huniform' hmany hm hle, archive.length_contents]
    simp only [Archive.take, Archive.withFrames, List.take_left']

/-- One record to each of three frames: `a`; `b`; `c`. -/
def threeRecords : Archive storedZeekstd := storedArchive [[97, 10], [98, 10], [99, 10]]

/-- `d` and the start of a record, appended to it a byte at a time. -/
def threeAppended : Except Error AppendResult × File :=
  appendRecordsWithOpts storedZeekstd threeRecords.file
    ({ data := [100, 10, 101], schedule := fun _ => some 0 } : Input) [10] .refuse 3 none {}

theorem append_then_truncate_threeRecords :
    truncateRecords storedZeekstd threeAppended.2 3 lineBoundary.find =
      (.ok (), threeRecords.file) := by
  have hwhole : lineBoundary.find.Whole := separatorFinder_whole [10] (by decide)
  have huniform : threeRecords.IsUniform lineBoundary 1 := by
    rw [Archive.IsUniform]
    decide +kernel
  have hfills : threeRecords.Fills := by
    intro tick
    change ∀ content ∈ threeRecords.contents,
      shortRead wholeWish content.length = content.length
    decide +kernel
  have hgives : AppendOptions.Gives {} [10] lineBoundary := ⟨by decide, rfl⟩
  have hrun : threeAppended.1 = .ok ({
      recordsPerFrame := 1, countValidated := true, frameCount := 5, lastFrame := 4
      lastComp := 10, lastDecomp := 1, lastRecords := some 0, lastWhole := false
      checksum := true } : AppendResult) := by decide +kernel
  have hrecords : (lineBoundary.find.records threeRecords.data).length = 3 := by decide +kernel
  have hthree : 3 ≤ threeRecords.contents.length := by decide
  have hfull : lineBoundary.find.Full 1 threeRecords.lastContent := by decide +kernel
  rw [← hrecords]
  exact append_then_truncate hwhole huniform hthree hfull hfills hgives rfl rfl
    (Prod.ext hrun rfl)

end SeekZstdSep
