/-
Module: SeekZstdSep.Proofs.Verified
Purpose: A reader of a uniform file answers the same once it verifies what it reads, with one
  exception: a lookup past the last record, by a reader that starts in the middle of the file and
  takes several of its frames for one. It holds the records of all of them against the count of a
  single frame.
Trusted boundary: none
Main exports: RefusedPast, verifying_answers_iff
-/
import SeekZstdSep.Proofs.Calls

namespace SeekZstdSep

open Lib

variable {boundary : Boundary} {n : Nat} {file : SeekableFile} {label : String}
variable {r : RecordReader} {startFrame : Nat}

/-- The whole records of the last of the frames a reader opened at `startFrame` reads as one. -/
def heldByLast (boundary : Boundary) (file : SeekableFile) (startFrame : Nat)
    (r : RecordReader) : Nat :=
  (boundary.find.records
    ((file.contents.drop startFrame).flatten.drop r.frames.last.1)).length

/-- The index is past the records but not past what the frames of the reader could hold, and the
last of those frames holds another count than a frame of the file: more, or fewer without being
the frame the file ends with alone. -/
def RefusedPast (boundary : Boundary) (n : Nat) (file : SeekableFile) (startFrame : Nat)
    (r : RecordReader) (index : Nat) : Prop :=
  (recordsOf boundary file).length - n * startFrame ≤ index ∧
    index < r.sepCnt * r.frames.length ∧
    heldByLast boundary file startFrame r ≠ r.recordsPerFrame ∧
    ¬ (r.frames.length = file.contents.length - startFrame ∧
      heldByLast boundary file startFrame r < r.recordsPerFrame)

/-- The judge of a verifying reader counts the frames of the file. -/
theorem RecordReader.verifying_judge (r : RecordReader) :
    ∃ physical, r.verifying.judge = some
      { label := r.label
        last := r.originalFrameCount.getD r.frames.length - 1
        perFrame := r.recordsPerFrame
        physical := physical } :=
  ⟨_, rfl⟩

theorem verifyFrameCount_eq_error_iff {i last held perFrame : Nat} :
    (∃ e, verifyFrameCount label i last held perFrame = .error e) ↔
      held ≠ perFrame ∧ ¬ (i = last ∧ held < perFrame) := by
  unfold verifyFrameCount
  split
  · exact ⟨fun _ => ‹_›, fun _ => ⟨_, rfl⟩⟩
  · exact ⟨fun ⟨e, he⟩ => by simp at he, fun h => absurd h ‹_›⟩

namespace ReadsFrom

variable {groups : List Bytes}

/-- What the last of the reader's frames holds. -/
theorem heldByLast_eq (h : ReadsFrom boundary n file label startFrame r groups) :
    heldByLast boundary file startFrame r =
      (boundary.find.records (groups.getLastD [])).length := by
  have hne := h.serves.uniform.ne_nil
  have hlast : (groups.flatten).drop (startOf groups (groups.length - 1)) =
      groups.getLastD [] := by
    have hpos := h.serves.length_pos
    rw [startOf, ← Uniform.flatten_take_append_drop groups (groups.length - 1),
      List.drop_left' rfl, List.drop_length_sub_one hne, List.flatten_singleton,
      List.getLastD_eq_getLast?, List.getLast?_eq_getLast_of_ne_nil hne, Option.getD_some]
  rw [heldByLast, h.serves.spans_eq, spansOf_last hne, ← h.flatten, hlast]

/-- A verifying lookup refuses the last frame where it has run out in one that is miscounted. -/
theorem walkedVerdict_eq_error_iff (h : ReadsFrom boundary n file label startFrame r groups)
    (index : Nat) :
    (∃ e, r.verifying.walkedVerdict groups index = .error e) ↔
      RefusedPast boundary n file startFrame r index := by
  obtain ⟨physical, hjudge⟩ := r.verifying_judge
  have hlength : r.frames.length = groups.length := h.serves.spans_length
  have hremaining := h.remaining
  have hpos := h.serves.length_pos
  have hinside := h.inside
  have hitems : (itemsOf r.verifying.boundary groups).length =
      (recordsOf boundary file).length - n * startFrame := by
    rw [show r.verifying.boundary = r.boundary from rfl, h.boundary_eq, h.items, List.length_drop]
  have hsepCnt : r.verifying.sepCnt = r.sepCnt := rfl
  have hfind : r.verifying.boundary = boundary := h.boundary_eq
  rw [RecordReader.walkedVerdict, RefusedPast, hitems, hjudge, hfind, hsepCnt, hlength,
    h.heldByLast_eq]
  by_cases hpast : (recordsOf boundary file).length - n * startFrame ≤ index ∧
      index < r.sepCnt * groups.length
  · rw [if_pos hpast]
    simp only [FrameJudge.count]
    rw [verifyFrameCount_eq_error_iff]
    have hsame : groups.length - 1 = r.originalFrameCount.getD groups.length - 1 ↔
        groups.length = file.contents.length - startFrame := by
      rw [hlength] at hremaining
      omega
    rw [hsame]
    exact ⟨fun hcount => ⟨hpast.1, hpast.2, hcount⟩, fun hcount => hcount.2.2⟩
  · rw [if_neg hpast]
    exact ⟨fun herr => by simp at herr, fun hcount => absurd ⟨hcount.1, hcount.2.1⟩ hpast⟩

/-- What a lookup answers before and after. -/
theorem record_answers (h : ReadsFrom boundary n file label startFrame r groups) (index : Nat) :
    (r.perform (.record index)).1 = .record (.ok (itemsOf boundary groups)[index]?) ∧
      (r.verifying.perform (.record index)).1 =
        .record (match r.verifying.walkedVerdict groups index with
          | .error e => .error e
          | .ok () => .ok (itemsOf boundary groups)[index]?) := by
  have hframe := h.frame
  have hframe' : r.verifying.lookup.frame = none := h.frame
  have hfind : r.verifying.boundary = boundary := h.boundary_eq
  obtain ⟨physical, hjudge⟩ := r.verifying_judge
  obtain ⟨r₁, -, -, hrecord⟩ := RecordReader.record_spec h.serves index fun _ hsome => by
    simp [hframe] at hsome
  obtain ⟨r₂, -, -, hrecord'⟩ := RecordReader.recordAsRead_spec h.verifying index
    fun _ hsome => by simp [hframe'] at hsome
  constructor
  · rw [RecordReader.perform, h.judge, if_neg (by simp), hrecord, h.boundary_eq]
  · rewrite [RecordReader.perform, hjudge, if_pos (by simp), hrecord', hfind]
    cases r.verifying.walkedVerdict groups index <;> rfl

/-- Every other call answers the same. -/
theorem perform_verifying (h : ReadsFrom boundary n file label startFrame r groups) {call : Call}
    (hcall : ∀ index, call ≠ .record index) :
    (r.verifying.perform call).1 = (r.perform call).1 := by
  obtain ⟨r₁, -, -, hplain⟩ := RecordReader.perform_spec h.serves call
    fun index heq => absurd heq (hcall index)
  obtain ⟨r₂, -, -, hverified⟩ := RecordReader.perform_spec h.verifying call
    fun index heq => absurd heq (hcall index)
  rw [hplain, hverified]
  rfl

/-- So does the iterator it turns into. -/
theorem run_verifying (h : ReadsFrom boundary n file label startFrame r groups) (fromIdx : Nat)
    (sides : List Side) :
    (r.verifying.intoRecordsFrom fromIdx).run sides = (r.intoRecordsFrom fromIdx).run sides := by
  have hframe := h.frame
  have hframe' : r.verifying.lookup.frame = none := h.frame
  rw [RecordReader.run_intoRecordsFrom h.serves h.small (fun hsome => by simp [hframe] at hsome),
    RecordReader.run_intoRecordsFrom h.verifying h.small
      (fun hsome => by simp [hframe'] at hsome)]
  rfl

end ReadsFrom

/-- A verifying reader answers every call and every schedule as the reader it was made of does,
except for a lookup past the records in frames that are miscounted. -/
theorem verifying_answers_iff (h : UniformFile boundary n file)
    (hopen : OpensAt file label boundary startFrame r) :
    (∀ call, (r.verifying.perform call).1 = (r.perform call).1 ↔
        ¬ ∃ index, call = .record index ∧ RefusedPast boundary n file startFrame r index) ∧
      ∀ fromIdx sides, (r.verifying.intoRecordsFrom fromIdx).run sides =
        (r.intoRecordsFrom fromIdx).run sides := by
  obtain ⟨groups, hreads⟩ := opensAt_serves h hopen
  refine ⟨fun call => ?_, hreads.run_verifying⟩
  by_cases hcall : ∃ index, call = .record index
  · obtain ⟨index, rfl⟩ := hcall
    obtain ⟨hplain, hverified⟩ := hreads.record_answers index
    have hrefused : (∃ index', Call.record index = .record index' ∧
        RefusedPast boundary n file startFrame r index') ↔
          ∃ e, r.verifying.walkedVerdict groups index = .error e := by
      rw [hreads.walkedVerdict_eq_error_iff]
      exact ⟨fun ⟨index', heq, hpast⟩ => by cases heq; exact hpast, fun hpast => ⟨_, rfl, hpast⟩⟩
    rw [hrefused, hplain, hverified]
    cases r.verifying.walkedVerdict groups index with
    | error e => simp
    | ok verdict => simp
  · have hnone : ¬ ∃ index, call = .record index ∧
        RefusedPast boundary n file startFrame r index :=
      fun ⟨index, heq, _⟩ => hcall ⟨index, heq⟩
    exact iff_of_true (hreads.perform_verifying fun index heq => hcall ⟨index, heq⟩) hnone

/-- The letters, all of them terminated: `a`, `b`; `c`, `d`; `e`. -/
def endedFile : SeekableFile where
  frames := letterFrames ++ [frameOf [101, 10]]
  reads := fun tick => tick
  count_le := by decide

/-- Opening it at a frame. -/
def endedFrom (startFrame : Nat) : RecordReaderOpenOptions where
  path := some ("ended", endedFile)
  boundary := some lineBoundary
  startFrame := startFrame

theorem endedFile_uniform : UniformFile lineBoundary 2 endedFile :=
  ⟨by decide, by decide⟩

/-- A reader of the whole file counts. -/
theorem verifying_answers_endedFile :
    ∃ r, OpensAt endedFile "ended" lineBoundary 0 r ∧
      ∀ fromIdx cnt, (r.verifying.perform (.records fromIdx cnt)).1 =
        (r.perform (.records fromIdx cnt)).1 := by
  obtain ⟨r, hopen⟩ := exists_of_isOk (x := RecordReader.openWithOpts (endedFrom 0)) rfl
  refine ⟨r, Or.inl hopen, fun fromIdx cnt => ?_⟩
  rw [(verifying_answers_iff endedFile_uniform (Or.inl hopen)).1]
  rintro ⟨index, heq, -⟩
  cases heq

/-- A reader from the second frame on refuses a lookup it answered with nothing. -/
theorem verifying_differs_endedFile :
    UniformFile lineBoundary 2 endedFile ∧
      ∃ r, OpensAt endedFile "ended" lineBoundary 1 r ∧
        (r.perform (.record 3)).1 = .record (.ok none) ∧
        (r.verifying.perform (.record 3)).1 = .record (.error (.frameCount 0 "ended" 3 2)) := by
  have hplain : (RecordReader.openWithOpts (endedFrom 1)).map (fun r => (r.record 3).1) =
      .ok (.ok none) := rfl
  have hverified : (RecordReader.openWithOpts (endedFrom 1)).map
      (fun r => (r.verifying.recordAsRead 3).1) =
      .ok (.error (.frameCount 0 "ended" 3 2)) := rfl
  obtain ⟨r, hopen⟩ := exists_of_isOk (x := RecordReader.openWithOpts (endedFrom 1)) rfl
  obtain ⟨groups, hreads⟩ := opensAt_serves endedFile_uniform (Or.inl hopen)
  obtain ⟨physical, hjudge⟩ := r.verifying_judge
  rw [hopen] at hplain hverified
  refine ⟨endedFile_uniform, r, Or.inl hopen, ?_, ?_⟩
  · rw [RecordReader.perform, hreads.judge, if_neg (by simp)]
    exact congrArg Answer.record (Except.ok.inj hplain)
  · rw [RecordReader.perform, hjudge, if_pos (by simp)]
    exact congrArg Answer.record (Except.ok.inj hverified)

end SeekZstdSep
