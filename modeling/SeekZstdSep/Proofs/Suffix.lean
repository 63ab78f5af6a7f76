/-
Module: SeekZstdSep.Proofs.Suffix
Purpose: A reader opened at a frame is the suffix of the reader of the whole file, and readers
  opened at several frames that each read up to the next one's read every record once.
Trusted boundary: none
Main exports: OpensAt, ReadsFrom, opensAt_serves, opened_at_frame_is_suffix
-/
import SeekZstdSep.Proofs.Answers

namespace SeekZstdSep

open Lib

variable {boundary : Boundary} {n : Nat} {file : SeekableFile} {label : String}
variable {w r : RecordReader} {startFrame : Nat}

theorem exists_of_isOk {α : Type} {x : Except Error α} (h : x.isOk = true) : ∃ a, x = .ok a := by
  cases x with
  | error e => simp [Except.isOk, Except.toBool] at h
  | ok a => exact ⟨a, rfl⟩

/-- The reader is one of the file, opened by its path. -/
def OpensWhole (file : SeekableFile) (label : String) (boundary : Boundary)
    (r : RecordReader) : Prop :=
  RecordReader.openWithOpts { path := some (label, file), boundary := some boundary } = .ok r

/-- The reader is one of the file from frame `startFrame` on, opened by its path or reusing a
reader of the whole file. -/
def OpensAt (file : SeekableFile) (label : String) (boundary : Boundary) (startFrame : Nat)
    (r : RecordReader) : Prop :=
  RecordReader.openWithOpts
      { path := some (label, file), boundary := some boundary, startFrame := startFrame } = .ok r ∨
    ∃ w, OpensWhole file label boundary w ∧
      RecordReader.openWithOpts { reuse := some w, startFrame := startFrame } = .ok r

theorem OpensWhole.opened (h : OpensWhole file label boundary r) :
    Opened file label boundary r ∧ r.shared = some file := by
  unfold OpensWhole RecordReader.openWithOpts at h
  simp only [if_true] at h
  cases hopen : RecordReader.fromReader file label boundary with
  | error e => simp [hopen] at h
  | ok r' =>
      have hopened := RecordReader.opened_of_fromReader hopen
      simp only [hopen, Except.ok.injEq] at h
      subst h
      exact ⟨{ hopened with }, rfl⟩

/-- Either the reader is one of the whole file or it reads through a table of its own. -/
theorem OpensAt.cases (h : OpensAt file label boundary startFrame r) :
    (startFrame = 0 ∧ Opened file label boundary r) ∨
      ∃ w size, Opened file label boundary w ∧
        OpenedAt file label boundary w.sepCnt startFrame size r := by
  rcases h with hpath | ⟨w, hwhole, hreuse⟩
  · unfold RecordReader.openWithOpts at hpath
    simp only at hpath
    cases hopen : RecordReader.fromReader file label boundary with
    | error e => simp [hopen] at hpath
    | ok w =>
        have hopened := RecordReader.opened_of_fromReader hopen
        have hshared : Opened file label boundary { w with shared := some file } :=
          { hopened with }
        simp only [hopen] at hpath
        by_cases hzero : startFrame = 0
        · rw [if_pos hzero] at hpath
          exact Or.inl ⟨hzero, Except.ok.inj hpath ▸ hshared⟩
        · rw [if_neg hzero] at hpath
          exact Or.inr ⟨_, _, hshared, RecordReader.openedAt_of_openFromFrame hshared rfl hpath⟩
  · obtain ⟨hopened, hshared⟩ := hwhole.opened
    unfold RecordReader.openWithOpts at hreuse
    simp only [Option.isSome_none, Bool.false_eq_true, or_self, if_false] at hreuse
    exact Or.inr ⟨w, _, hopened, RecordReader.openedAt_of_openFromFrame hopened hshared hreuse⟩

/-- The frames such a reader reads: they hold what the file holds from its first frame on, and the
verifying reader made of it reads the same ones. -/
structure ReadsFrom (boundary : Boundary) (n : Nat) (file : SeekableFile) (label : String)
    (startFrame : Nat) (r : RecordReader) (groups : List Bytes) : Prop where
  serves : r.Serves groups
  verifying : r.verifying.Serves groups
  small : r.sepCnt * groups.length * groups.length ≤ usizeMax
  flatten : groups.flatten = (file.contents.drop startFrame).flatten
  items : itemsOf boundary groups = (recordsOf boundary file).drop (n * startFrame)
  frame : r.lookup.frame = none
  judge : r.judge = none
  boundary_eq : r.boundary = boundary
  label_eq : r.label = label
  inside : startFrame < file.contents.length
  remaining : r.originalFrameCount.getD r.frames.length = file.contents.length - startFrame

theorem opensAt_serves (h : UniformFile boundary n file)
    (hopen : OpensAt file label boundary startFrame r) :
    ∃ groups, ReadsFrom boundary n file label startFrame r groups := by
  rcases hopen.cases with ⟨rfl, hopened⟩ | ⟨w, size, hopened, hat⟩
  · exact ⟨file.contents,
      { serves := hopened.serves h.uniform
        verifying := hopened.verifying_serves h.uniform h.le_usizeMax
        small := hopened.small h.uniform h.le_usizeMax
        flatten := rfl
        items := rfl
        frame := hopened.frame
        judge := hopened.judge
        boundary_eq := hopened.boundary_eq
        label_eq := hopened.label_eq
        inside := h.uniform.length_pos
        remaining := by
          rw [hopened.originalFrameCount, hopened.frames_eq, spansOf_length]
          rfl }⟩
  · obtain ⟨huniform, -, hcount⟩ := hopened.uniform h.uniform
    have hsmall := hopened.small h.uniform h.le_usizeMax
    have hstart : n * startFrame = w.sepCnt * startFrame := by
      by_cases hone : 1 < file.contents.length
      · rw [hcount hone]
      · have hzero : startFrame = 0 := by
          have := hat.inside
          omega
        rw [hzero, Nat.mul_zero, Nat.mul_zero]
    exact ⟨OpenedAt.groups file startFrame size,
      { serves := hat.serves huniform
        verifying := hat.verifying_serves huniform hsmall
        small := hat.small hsmall
        flatten := hat.flatten_groups
        items := by
          rw [hat.items_groups huniform, hstart]
          rfl
        frame := hat.frame
        judge := hat.judge
        boundary_eq := hat.boundary_eq
        label_eq := hat.label_eq
        inside := hat.inside
        remaining := by
          rw [hat.originalFrameCount]
          rfl }⟩

/-! ### The frames of the file -/

theorem Opened.frameCount_eq (h : Opened file label boundary r) :
    r.frameCount = file.contents.length := by
  rw [RecordReader.frameCount, h.originalFrameCount, h.frames_eq, spansOf_length]
  rfl

theorem Opened.frameDecompressedSize_eq (h : Opened file label boundary r) (frame : Nat) :
    r.frameDecompressedSize frame = file.contents[frame]?.map List.length := by
  rw [RecordReader.frameDecompressedSize, h.originalFrameCount, h.frames_eq]
  simp only [spansOf, List.getElem?_map]
  by_cases hframe : frame < file.contents.length
  · rw [List.getElem?_range hframe, List.getElem?_eq_getElem hframe]
    simp [hframe]
  · rw [List.getElem?_eq_none (by simpa using hframe), List.getElem?_eq_none (by omega)]
    rfl

namespace OpenedAt

variable {perFrame size : Nat}

/-- A reader opened at a frame still knows all of them. -/
theorem frameCount_eq (h : OpenedAt file label boundary perFrame startFrame size r) :
    r.frameCount = file.contents.length := by
  have hinside := h.inside
  rw [RecordReader.frameCount, h.originalFrameCount, h.frameEnds, endsOf_length]
  simp only [Option.isSome_some, if_true]
  omega

theorem frameDecompressedSize_eq (h : OpenedAt file label boundary perFrame startFrame size r)
    (huniform : Uniform boundary.find boundary.tailIsRecord perFrame file.contents) (frame : Nat) :
    r.frameDecompressedSize frame = file.contents[frame]?.map List.length := by
  have hinside := h.inside
  rw [RecordReader.frameDecompressedSize, h.originalFrameCount]
  simp only [h.frameEnds, h.firstFrame_eq, h.base_eq, h.finalEnd_eq huniform]
  by_cases hframe : frame < file.contents.length
  · have hstart : (if frame = 0 then 0 else (endsOf file.contents).getD (frame - 1) 0) =
        startOf file.contents frame := by
      by_cases hzero : frame = 0
      · rw [if_pos hzero, hzero, startOf_zero]
      · rw [if_neg hzero, endsOf_getD (by omega), Nat.sub_add_cancel (Nat.pos_of_ne_zero hzero)]
    have hstop : ((endsOf file.contents)[frame]?).getD file.contents.flatten.length =
        startOf file.contents (frame + 1) := by
      by_cases hlast : frame + 1 = file.contents.length
      · rw [List.getElem?_eq_none (by rw [endsOf_length]; omega), Option.getD_none, hlast,
          startOf_length]
      · rw [endsOf, List.getElem?_map, List.getElem?_range (by omega)]
        rfl
    rw [if_neg (by rw [endsOf_length]; omega), hstart, hstop, startOf_succ hframe,
      Nat.add_sub_cancel_left, List.getElem?_eq_getElem hframe]
    rfl
  · rw [if_pos (by rw [endsOf_length]; omega), List.getElem?_eq_none (by omega)]
    rfl

end OpenedAt

/-! ### Suffixes -/

/-- What the readers opened at the frames of a list read, each up to where the next one starts. -/
def readShares (n : Nat) : List (Nat × RecordReader) → List (Except Error Bytes)
  | [] => []
  | [(_, r)] => [(r.records 0 usizeMax).1]
  | (s, r) :: (t, r') :: workers =>
      (r.records 0 (n * (t - s))).1 :: readShares n ((t, r') :: workers)

/-- A range that begins in what the reader serves. -/
theorem opensAt_records (h : UniformFile boundary n file)
    (hopen : OpensAt file label boundary startFrame r) (fromIdx cnt : Nat)
    (hfrom : n * startFrame + fromIdx < (recordsOf boundary file).length) :
    (r.records fromIdx cnt).1 =
      .ok (((recordsOf boundary file).drop (n * startFrame + fromIdx)).take cnt).flatten := by
  obtain ⟨groups, hreads⟩ := opensAt_serves h hopen
  rw [rangeForms_records hreads.serves hreads.small, hreads.boundary_eq, rangeRefusal_none,
    hreads.items, List.drop_drop]
  · rfl
  · rw [hreads.items, List.length_drop]
    omega

/-- Every frame begins with a record of the file. -/
theorem mul_lt_length_recordsOf (h : UniformFile boundary n file)
    (hstart : startFrame < file.contents.length) :
    n * startFrame < (recordsOf boundary file).length := by
  have hle := (mul_add_items_le h.uniform hstart).1
  have hpos := items_pos h.uniform hstart
  rw [recordsOf]
  omega

theorem length_recordsOf_le (boundary : Boundary) (file : SeekableFile) :
    (recordsOf boundary file).length ≤ usizeMax :=
  Nat.le_trans (boundary.find.length_items_le_length _ _) file.length_le

/-- Readers opened at several frames read what follows the first of them, and nothing twice. -/
theorem readShares_spec (h : UniformFile boundary n file) :
    ∀ (workers : List (Nat × RecordReader)) (s : Nat) (r : RecordReader),
      (((s, r) :: workers).map Prod.fst).Pairwise (· < ·) →
      (∀ p ∈ (s, r) :: workers, OpensAt file label boundary p.1 p.2) →
      ∃ shares : List Bytes, readShares n ((s, r) :: workers) = shares.map .ok ∧
        shares.flatten = ((recordsOf boundary file).drop (n * s)).flatten := by
  intro workers
  induction workers with
  | nil =>
      intro s r _ hopen
      have hat := hopen (s, r) (by simp)
      obtain ⟨groups, hreads⟩ := opensAt_serves h hat
      have hstart := hreads.inside
      have hrecords := opensAt_records h hat 0 usizeMax
        (mul_lt_length_recordsOf h hstart)
      have hlen := length_recordsOf_le boundary file
      rw [List.take_of_length_le (by rw [List.length_drop]; omega)] at hrecords
      exact ⟨[_], by rw [readShares, hrecords]; rfl, by simp⟩
  | cons worker workers ih =>
      intro s r hsorted hopen
      obtain ⟨t, r'⟩ := worker
      have hat := hopen (s, r) (by simp)
      obtain ⟨groups, hreads⟩ := opensAt_serves h hat
      have hstart := hreads.inside
      have hlt : s < t := (List.pairwise_cons.mp hsorted).1 t (by simp)
      obtain ⟨shares, hshares, hflat⟩ := ih t r' (List.pairwise_cons.mp hsorted).2
        fun p hp => hopen p (List.mem_cons_of_mem _ hp)
      have hrecords := opensAt_records h hat 0 (n * (t - s))
        (mul_lt_length_recordsOf h hstart)
      rw [Nat.add_zero] at hrecords
      refine ⟨_ :: shares, by rw [readShares, hrecords, hshares]; rfl, ?_⟩
      have hsplit : n * t = n * s + n * (t - s) := by
        rw [← Nat.mul_add]
        congr 1
        omega
      rw [List.flatten_cons, hflat, hsplit, ← List.drop_drop, ← List.flatten_append,
        List.take_append_drop]

/-- A reader opened at frame `startFrame` answers for the records from `n * startFrame` on what the
reader of the whole file does, and for the frames what that one does. -/
theorem opened_at_frame_is_suffix (h : UniformFile boundary n file)
    (hwhole : OpensWhole file label boundary w)
    (hopen : OpensAt file label boundary startFrame r) :
    (∀ i, (r.record i).1 = (w.record (i + n * startFrame)).1) ∧
      (∀ fromIdx cnt, fromIdx < (recordsOf boundary file).length - n * startFrame →
        (r.records fromIdx cnt).1 = (w.records (fromIdx + n * startFrame) cnt).1) ∧
      r.totalRecords.1 = .ok ((recordsOf boundary file).length - n * startFrame) ∧
      (∀ sides, r.intoRecords.run sides =
        (popSides sides ((recordsOf boundary file).drop (n * startFrame))).map (Option.map .ok)) ∧
      r.frameCount = w.frameCount ∧
      (∀ frame, r.frameDecompressedSize frame = w.frameDecompressedSize frame) ∧
      ∀ workers : List (Nat × RecordReader), (workers.map Prod.fst).head? = some 0 →
        (workers.map Prod.fst).Pairwise (· < ·) →
        (∀ p ∈ workers, OpensAt file label boundary p.1 p.2) →
        ∃ shares : List Bytes, readShares n workers = shares.map .ok ∧
          shares.flatten = (recordsOf boundary file).flatten := by
  obtain ⟨hopened, -⟩ := hwhole.opened
  have hserves := hopened.serves h.uniform
  have hat : OpensAt file label boundary 0 w := Or.inl hwhole
  obtain ⟨groups, hreads⟩ := opensAt_serves h hopen
  have hserves' := hreads.serves
  have hitems := hreads.items
  have hframe := hreads.frame
  have hboundary := hreads.boundary_eq
  refine ⟨?_, ?_, ?_, ?_, ?_, ?_, ?_⟩
  · intro i
    obtain ⟨r₁, -, -, hrecord⟩ := RecordReader.record_spec hserves' i fun _ hsome => by
      simp [hframe] at hsome
    obtain ⟨r₂, -, -, hrecord'⟩ := RecordReader.record_spec hserves (i + n * startFrame)
      fun _ hsome => by simp [hopened.frame] at hsome
    rw [hrecord, hrecord', hboundary, hitems, hopened.boundary_eq, List.getElem?_drop,
      Nat.add_comm]
    rfl
  · intro fromIdx cnt hfrom
    have hshift := opensAt_records h hat (fromIdx + n * startFrame) cnt
      (by rw [Nat.mul_zero]; omega)
    rw [opensAt_records h hopen _ _ (by omega), hshift, Nat.mul_zero, Nat.zero_add,
      Nat.add_comm fromIdx]
  · obtain ⟨r₁, -, -, htotal⟩ := RecordReader.totalRecords_spec hserves'
    rw [htotal, hboundary, hitems, List.length_drop]
  · intro sides
    have hpos := mul_lt_length_recordsOf h hreads.inside
    rw [RecordReader.intoRecords, RecordReader.run_intoRecordsFrom hserves' hreads.small
      (fun hsome => by simp [hframe] at hsome), hboundary,
      dequeFrom_of_lt (by rw [hitems, List.length_drop]; omega), hitems, List.drop_zero,
      Deque.run_of_records]
  · rw [hopened.frameCount_eq]
    rcases hopen.cases with ⟨-, hopened'⟩ | ⟨w', size, -, hat'⟩
    · exact hopened'.frameCount_eq
    · exact hat'.frameCount_eq
  · intro frame
    rw [hopened.frameDecompressedSize_eq]
    rcases hopen.cases with ⟨-, hopened'⟩ | ⟨w', size, hopened', hat'⟩
    · exact hopened'.frameDecompressedSize_eq frame
    · exact hat'.frameDecompressedSize_eq (hopened'.uniform h.uniform).1 frame
  · intro workers hhead hsorted hworkers
    cases workers with
    | nil => simp at hhead
    | cons worker workers =>
        obtain ⟨s, r₀⟩ := worker
        obtain rfl : s = 0 := by simpa using hhead
        have hshares := readShares_spec h workers 0 r₀ hsorted hworkers
        rwa [Nat.mul_zero, List.drop_zero] at hshares

/-- The reader of the letters from their second frame on. -/
theorem opened_at_frame_is_suffix_lettersFile :
    ∃ w r, OpensWhole lettersFile "letters" lineBoundary w ∧
      OpensAt lettersFile "letters" lineBoundary 1 r ∧
      ∀ i, (r.record i).1 = (w.record (i + 2 * 1)).1 := by
  obtain ⟨w, hwhole⟩ := exists_of_isOk (x := RecordReader.openWithOpts
    { path := some ("letters", lettersFile), boundary := some lineBoundary }) rfl
  obtain ⟨r, hopen⟩ := exists_of_isOk (x := RecordReader.openWithOpts
    { path := some ("letters", lettersFile), boundary := some lineBoundary, startFrame := 1 }) rfl
  exact ⟨w, r, hwhole, Or.inl hopen,
    (opened_at_frame_is_suffix lettersFile_uniform hwhole (Or.inl hopen)).1⟩

end SeekZstdSep
