/-
Module: SeekZstdSep.Proofs.Truncate
Purpose: What `truncate_records` leaves of a uniform file: the frames of so many records, and
  behind a last frame that is full the remainder that follows it.
Trusted boundary: the library, as `Zeekstd` has it
Main exports: validateSeparator_of_uniform, truncateRecords_of_frames, truncateRecords_refused,
  truncate_exact_iff
-/
import SeekZstdSep.Proofs.Frames
import SeekZstdSep.Core.StoredFrames

namespace SeekZstdSep

open Lib

variable {zeek : Zeekstd} {boundary : Boundary} {n : Nat}

/-- A file with `n` records to each frame, the last one excepted. -/
def Archive.IsUniform (archive : Archive zeek) (boundary : Boundary) (n : Nat) : Prop :=
  Uniform boundary.find boundary.tailIsRecord n archive.contents

/-- The first frames of a file, as a file of their own. -/
def Archive.take (archive : Archive zeek) (k : Nat) : Archive zeek :=
  archive.withFrames (archive.frames.take k)
    (Nat.le_trans (List.length_take_le' _ _) archive.count_le)

@[simp] theorem Archive.contents_take (archive : Archive zeek) (k : Nat) :
    (archive.take k).contents = archive.contents.take k := by
  rw [take, contents_withFrames, contents, List.map_take]

/-- Fewer than three frames are not compared. -/
theorem validateSeparator_length {find : Finder UInt8} {reader : FrameReader}
    {result : Nat × FrameReader} (hok : validateSeparator find reader = .ok result) :
    3 ≤ reader.table.length := by
  by_contra hfew
  rw [validateSeparator, if_pos (Nat.lt_of_not_le hfew)] at hok
  cases hok

namespace FrameReader.Over

variable {contents : List Bytes} {reader : FrameReader}

/-- The two frames that are compared hold the records per frame. -/
theorem validateSeparator_of_uniform (h : reader.Over contents) {find : Finder UInt8}
    {ragged : Bool} (huniform : Uniform find ragged n contents) (hthree : 3 ≤ contents.length) :
    ∃ reader', validateSeparator find reader = .ok (n, reader') ∧
      reader'.Over contents := by
  have hpos := huniform.pos
  obtain ⟨reader₁, hfirst, hover₁⟩ := h.frameRecords_spec find (i := 0) (by omega)
  obtain ⟨reader₂, hsecond, hover₂⟩ :=
    hover₁.frameRecords_spec find (i := contents.length - 2) (by omega)
  have hcount : ∀ i (hi : i + 1 < contents.length), count find contents[i] = n := by
    intro i hi
    rw [count_eq]
    exact (huniform.full_getElem hi).1
  rw [hcount 0 (by omega)] at hfirst
  rw [hcount (contents.length - 2) (by omega)] at hsecond
  refine ⟨reader₂, ?_, hover₂⟩
  rw [validateSeparator, h.length, if_neg (by omega), hfirst]
  simp only [hsecond, if_neg (show ¬ n = 0 by omega), ne_eq, not_true_eq_false, if_false]

theorem three_le_of_validateSeparator (h : reader.Over contents) {find : Finder UInt8}
    {result : Nat × FrameReader} (hok : validateSeparator find reader = .ok result) :
    3 ≤ contents.length := by
  rw [← h.length]
  exact validateSeparator_length hok

end FrameReader.Over

/-! ### The frames that stay -/

variable {archive : Archive zeek} {recordLen : Nat}

theorem truncateChecks_spec {ragged : Bool}
    (huniform : Uniform boundary.find ragged n archive.contents)
    (hthree : 3 ≤ archive.contents.length) :
    truncateChecks zeek archive.file recordLen boundary.find =
      if recordLen = 0 then .error .truncateToNothing
      else if (boundary.find.records archive.data).length < recordLen then
        .error (.truncatePastEnd recordLen (boundary.find.records archive.data).length)
      else if recordLen % n ≠ 0 then .error (.truncateInsideFrame recordLen n)
      else .ok (tableOf archive.frames, recordLen / n) := by
  have hpos : 0 < n := Uniform.pos huniform
  obtain ⟨reader₁, hvalidate, hover₁⟩ := archive.stands.validateSeparator_of_uniform huniform hthree
  obtain ⟨reader₂, hlast, -⟩ := hover₁.frameRecords_spec boundary.find
    (i := archive.contents.length - 1) (by omega)
  have htotal : (boundary.find.records archive.data).length = _ :=
    (Uniform.flatten_eq huniform).1
  have hmost := (Uniform.last_getElem huniform (k := archive.contents.length - 1) (by omega)).2.1
  rw [List.getLast_eq_getElem] at htotal
  rw [count_eq] at hlast
  rw [truncateChecks, archive.fromSeekable]
  simp only [hvalidate, length_tableOf, ← archive.length_contents, hlast, ← htotal]
  by_cases hzero : recordLen = 0
  · rw [if_pos hzero, if_pos hzero]
  rw [if_neg hzero, if_neg hzero]
  by_cases hpast : (boundary.find.records archive.data).length < recordLen
  · rw [if_pos hpast, if_pos hpast]
  rw [if_neg hpast, if_neg hpast]
  by_cases hmod : recordLen % n = 0
  · -- all the records there are: the last frame is full, or there would be fewer
    have hdiv : n * (recordLen / n) = recordLen :=
      Nat.mul_div_cancel' (Nat.dvd_of_mod_eq_zero hmod)
    rw [if_neg (not_not.mpr hmod), if_neg]
    rintro (hinside | ⟨hle, hne⟩)
    · exact hinside hmod
    · have hmul : n * archive.contents.length ≤ n * (recordLen / n) := Nat.mul_le_mul_left n hle
      have hlen : n * archive.contents.length = n * (archive.contents.length - 1) + n := by
        rw [← Nat.mul_succ]
        congr 1
        omega
      omega
  · rw [if_pos (Or.inl hmod), if_pos hmod]

/-- The frames a file is truncated to are those before the cut, byte for byte. -/
theorem truncateRecords_of_frames {ragged : Bool}
    (huniform : Uniform boundary.find ragged n archive.contents)
    (hthree : 3 ≤ archive.contents.length) {k : Nat} (hk : 0 < k)
    (hle : n * k ≤ (boundary.find.records archive.data).length) :
    truncateRecords zeek archive.file (n * k) boundary.find = (.ok (), (archive.take k).file) := by
  have hpos : 0 < n := Uniform.pos huniform
  have hmul : 0 < n * k := Nat.mul_pos hpos hk
  have hlog : logFrames zeek [] ((tableOf archive.frames).take k) =
      .ok (tableOf (archive.frames.take k)) := by
    rw [tableOf_take]
    apply logFrames_of_le
    simpa using Or.inr archive.count_le
  have hcut := archive.cut_write k [] (by simpa using Or.inr archive.count_le)
  rw [truncateRecords, truncateChecks_spec huniform hthree, if_neg (by omega), if_neg (by omega),
    if_neg (by simp), Nat.mul_div_cancel_left k hpos]
  simp only [hlog, frameEndComp_tableOf, show k - 1 + 1 = k by omega]
  simpa [Archive.take, bodyOf, tableOf, File.writeAll] using hcut

/-- Every other length is refused, and nothing is written. -/
theorem truncateRecords_refused (huniform : archive.IsUniform boundary n)
    (hthree : 3 ≤ archive.contents.length)
    (hout : ¬ (1 ≤ recordLen ∧ recordLen ≤ (boundary.find.records archive.data).length ∧
      n ∣ recordLen)) :
    ∃ e, truncateRecords zeek archive.file recordLen boundary.find = (.error e, archive.file) := by
  rw [truncateRecords, truncateChecks_spec huniform hthree]
  by_cases hzero : recordLen = 0
  · exact ⟨.truncateToNothing, by rw [if_pos hzero]⟩
  rw [if_neg hzero]
  by_cases hpast : (boundary.find.records archive.data).length < recordLen
  · exact ⟨.truncatePastEnd recordLen (boundary.find.records archive.data).length,
      by rw [if_pos hpast]⟩
  rw [if_neg hpast]
  have hmod : recordLen % n ≠ 0 := by
    intro hmod
    exact hout ⟨by omega, by omega, Nat.dvd_of_mod_eq_zero hmod⟩
  exact ⟨.truncateInsideFrame recordLen n, by rw [if_pos hmod]⟩

/-! ### What they hold -/

/-- Before the last frame they hold their records and nothing else. -/
theorem data_take_of_lt (huniform : archive.IsUniform boundary n) {k : Nat} (hk : 0 < k)
    (hlt : k < archive.contents.length) :
    (archive.take k).data = ((boundary.find.records archive.data).take (n * k)).flatten ∧
      boundary.find.rest (archive.take k).data = [] ∧
      (archive.take k).IsUniform boundary n := by
  have hoffset := Uniform.offset_flatten huniform hlt
  have htake := boundary.find.take_offset archive.contents.flatten (n * k)
  rw [hoffset] at htake
  refine ⟨?_, ?_, ?_⟩
  · rw [Archive.data, Archive.contents_take]
    rw [← Uniform.flatten_take_append_drop archive.contents k, List.take_left' rfl] at htake
    rw [htake, Uniform.flatten_take_append_drop]
    rfl
  · rw [Archive.data, Archive.contents_take]
    exact (Uniform.records_take huniform hlt).2
  · rw [Archive.IsUniform, Archive.contents_take]
    exact (Uniform.take huniform hk hlt).of_ended

/-- All of them hold everything. -/
theorem take_of_length_le {k : Nat} (hk : archive.contents.length ≤ k) :
    (archive.take k).contents = archive.contents := by
  rw [Archive.contents_take, List.take_of_length_le hk]

/-- Truncated to a length, a file holds exactly that many records and nothing behind them. -/
def TruncatesExactly (archive : Archive zeek) (boundary : Boundary) (n recordLen : Nat) : Prop :=
  ((truncateRecords zeek archive.file recordLen boundary.find).1 = .ok () ↔
    1 ≤ recordLen ∧ recordLen ≤ (boundary.find.records archive.data).length ∧ n ∣ recordLen) ∧
  ((truncateRecords zeek archive.file recordLen boundary.find).1 = .ok () →
    ∃ left : Archive zeek,
      (truncateRecords zeek archive.file recordLen boundary.find).2 = left.file ∧
      left.data = ((boundary.find.records archive.data).take recordLen).flatten ∧
      boundary.find.rest left.data = [] ∧ left.IsUniform boundary n) ∧
  ((truncateRecords zeek archive.file recordLen boundary.find).1 ≠ .ok () →
    (truncateRecords zeek archive.file recordLen boundary.find).2 = archive.file)

/-- Truncating is exact, except to all the records of a file whose last frame is full and has an
unfinished record behind them: that one stays. -/
theorem truncate_exact_iff (huniform : archive.IsUniform boundary n)
    (hthree : 3 ≤ archive.contents.length) (recordLen : Nat) :
    TruncatesExactly archive boundary n recordLen ↔
      ¬ (recordLen = n * archive.contents.length ∧
        recordLen ≤ (boundary.find.records archive.data).length ∧
        boundary.find.rest archive.data ≠ []) := by
  have hpos : 0 < n := Uniform.pos huniform
  by_cases hin : 1 ≤ recordLen ∧ recordLen ≤ (boundary.find.records archive.data).length ∧
      n ∣ recordLen
  · obtain ⟨hone, hle, k, rfl⟩ := hin
    have hk : 0 < k := Nat.pos_of_mul_pos_left hone
    have hframes : k ≤ archive.contents.length :=
      Nat.le_of_mul_le_mul_left (Nat.le_trans hle (Uniform.length_records_le huniform)) hpos
    have hok := truncateRecords_of_frames huniform hthree hk hle
    rw [TruncatesExactly, hok]
    rcases Nat.lt_or_eq_of_le hframes with hlt | heq
    · have hne : n * k ≠ n * archive.contents.length :=
        fun hmul => absurd (Nat.eq_of_mul_eq_mul_left hpos hmul) (by omega)
      refine iff_of_true ⟨⟨fun _ => ⟨hone, hle, k, rfl⟩, fun _ => rfl⟩, fun _ => ?_, by simp⟩
        (fun hall => hne hall.1)
      obtain ⟨hdata, hrest, hleft⟩ := data_take_of_lt huniform hk hlt
      exact ⟨archive.take k, rfl, hdata, hrest, hleft⟩
    · have hall := take_of_length_le (Nat.le_of_eq heq.symm)
      have hsame : (archive.take k).data = archive.data := by rw [Archive.data, hall, Archive.data]
      constructor
      · rintro ⟨-, hexact, -⟩ ⟨-, -, hrest⟩
        obtain ⟨left, hfile, -, hnil, -⟩ := hexact rfl
        have hcontents := Archive.contents_eq_of_bytes (congrArg File.bytes hfile)
        rw [Archive.data, ← hcontents, hall] at hnil
        exact hrest hnil
      · intro hnot
        have hrest : boundary.find.rest archive.data = [] := by
          by_contra hne
          exact hnot ⟨by rw [heq], hle, hne⟩
        refine ⟨⟨fun _ => ⟨hone, hle, k, rfl⟩, fun _ => rfl⟩, fun _ => ?_, by simp⟩
        have htotal : (boundary.find.records archive.data).length ≤ n * k :=
          heq ▸ Uniform.length_records_le huniform
        refine ⟨archive.take k, rfl, ?_, hsame ▸ hrest, ?_⟩
        · have hflatten := boundary.find.flatten_records_append_rest archive.data
          rw [hrest, List.append_nil] at hflatten
          rw [hsame, List.take_of_length_le htotal, hflatten]
        · rw [Archive.IsUniform, hall]
          exact huniform
  · obtain ⟨e, hrefused⟩ := truncateRecords_refused huniform hthree hin
    rw [TruncatesExactly, hrefused]
    refine iff_of_true ⟨by simpa using hin, by simp, by simp⟩ fun hall => hin ⟨?_, hall.2.1, ?_⟩
    · rw [hall.1]
      exact Nat.mul_pos hpos (Uniform.length_pos huniform)
    · exact ⟨_, hall.1⟩

/-- A record to each frame, the last one full and an unfinished record behind it:
`a`; `b`; `c`, `d`. -/
def overfullArchive : Archive storedZeekstd :=
  storedArchive [[97, 10], [98, 10], [99, 10, 100]]

theorem overfullArchive_uniform : overfullArchive.IsUniform lineBoundary 1 := by
  unfold Archive.IsUniform
  decide

theorem truncate_exact_overfullArchive :
    TruncatesExactly overfullArchive lineBoundary 1 2 :=
  (truncate_exact_iff overfullArchive_uniform (by decide) 2).mpr (by decide)

/-- Truncated to the three records there are, the file keeps what follows them. -/
theorem truncate_inexact_overfullArchive :
    overfullArchive.IsUniform lineBoundary 1 ∧ 3 ≤ overfullArchive.contents.length ∧
      ¬ TruncatesExactly overfullArchive lineBoundary 1 3 := by
  refine ⟨overfullArchive_uniform, by decide, ?_⟩
  rintro ⟨-, hexact, -⟩
  have hbytes : (truncateRecords storedZeekstd overfullArchive.file 3 lineBoundary.find).2.bytes =
      overfullArchive.file.bytes := by decide
  obtain ⟨left, hfile, -, hrest, -⟩ := hexact rfl
  have hcontents := Archive.contents_eq_of_bytes (hbytes.symm.trans (congrArg File.bytes hfile))
  rw [Archive.data, ← hcontents] at hrest
  exact absurd hrest (by decide)

end SeekZstdSep
