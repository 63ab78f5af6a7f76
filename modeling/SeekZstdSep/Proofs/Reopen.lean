/-
Module: SeekZstdSep.Proofs.Reopen
Purpose: The reader of a file reused from a frame on: what reader.rs comes to as the machine runs
  it is the reader the records are read from, and no frame of a whole file is refused.
Trusted boundary: none
Main exports: RecordReader.tableReader, RecordReader.ofTable_of_fromReader,
  RecordReader.openFromFrame_agrees, RecordReader.openWithOpts_reuse
-/
import SeekZstdSep.Proofs.Open
import SeekZstdSep.Proofs.Regroup

namespace SeekZstdSep

open Lib

/-! ### The table behind a window -/

namespace Window

variable {find : Finder UInt8} {w w' : Window}

theorem Step.seekTable_eq (h : Step find w w') :
    w'.source.inner.seekTable = w.source.inner.seekTable := by
  cases h with
  | walk want => rfl
  | grow =>
      unfold growIfFull
      split <;> rfl
  | refill =>
      unfold Window.refill
      split
      · rfl
      · simp only
        cases hpass : w.passFrameEnds (w.offset + w.buf.length)
            (w.frameEnds.drop w.nextFrameEnd) with
        | error e => rfl
        | ok passed =>
            obtain ⟨c, rfl⟩ := passFrameEnds_eq hpass
            have hslide : ∀ v : Window, v.slide.source = v.source := by
              intro v
              unfold slide
              split <;> rfl
            have hread : ∀ (source : Take) (want : Nat),
                (source.read want).2.inner.seekTable = source.inner.seekTable := by
              intro source want
              unfold Take.read
              split <;> rfl
            simp only [fill]
            split
            · rw [hread, hslide]
            · rw [hread, hslide]
  | final =>
      unfold finalRecord
      split <;> rfl
  | back index =>
      unfold walkFrom
      split
      · rfl
      · split
        · rfl
        · split <;> rfl
  | seek start len => rfl

theorem Steps.seekTable_eq (h : Steps find w w') :
    w'.source.inner.seekTable = w.source.inner.seekTable := by
  induction h with
  | refl => rfl
  | tail _ hstep ih => exact hstep.seekTable_eq.trans ih

end Window

theorem countRecordsInFrame_seekTable (find : Finder UInt8) (decoder : Decoder) (start len : Nat) :
    (countRecordsInFrame find decoder start len).2.seekTable = decoder.seekTable := by
  rw [countRecordsInFrame]
  split
  · rfl
  · exact (Records.countRecords_steps find {} _).seekTable_eq

namespace RecordReader

/-! ### A reader of a whole file -/

/-- The table of the decoder a reader reads through. -/
abbrev seekTable (r : RecordReader) : SeekTable := r.lookup.window.source.inner.seekTable

/-- A reader without its window, over the file it keeps. -/
def tableReader (r : RecordReader) (shared : Option File) : TableReader where
  label := r.label
  table := r.seekTable
  frames := r.frames
  boundary := r.boundary
  sepCnt := r.sepCnt
  originalFrameCount := r.originalFrameCount
  originalRecordsPerFrame := r.originalRecordsPerFrame
  shared := shared
  maxFrameComp := r.maxFrameComp
  maxFrameDecomp := r.maxFrameDecomp

theorem foldl_max_le_iff {l : List Nat} {a most : Nat} :
    l.foldl max a ≤ most ↔ a ≤ most ∧ ∀ x ∈ l, x ≤ most := by
  induction l generalizing a with
  | nil => simp
  | cons x l ih =>
      rw [List.foldl_cons, ih]
      simp [and_assoc]

theorem map_snd_spansFrom (start : Nat) (table : SeekTable) :
    (spansFrom start table).map Prod.snd = table.map Prod.snd := by
  induction table generalizing start with
  | nil => rfl
  | cons entry table ih => rw [spansFrom, List.map_cons, List.map_cons, ih]

/-- What a reader keeps of the table of its file. -/
theorem fromReader_table {file : SeekableFile} {label : String} {boundary : Boundary}
    {r : RecordReader} (h : fromReader file label boundary = .ok r) :
    r.seekTable = file.decoder.seekTable ∧
      r.frames = spansFrom 0 file.decoder.seekTable ∧
      (u32Max < (SeekTable.total file.decoder.seekTable).1 ∨
          u32Max < (SeekTable.total file.decoder.seekTable).2 →
        r.maxFrameComp = (file.decoder.seekTable.map Prod.fst).foldl max 0 ∧
          r.maxFrameDecomp = (file.decoder.seekTable.map Prod.snd).foldl max 0) := by
  rw [fromReader] at h
  simp only at h
  by_cases hnil : file.decoder.seekTable = []
  · rw [hnil] at h
    cases h
  · have hspans : seekTableDecompFrames file.decoder.seekTable =
        some (spansFrom 0 file.decoder.seekTable) := by
      rw [seekTableDecompFrames, if_neg (by simpa using hnil)]
    obtain ⟨hcompEnd, hdecompEnd⟩ := Exec.frameEnds_last hnil
    rw [hspans] at h
    simp only [hcompEnd, hdecompEnd, map_snd_spansFrom] at h
    split at h
    · cases h
    · next sepCnt decoder hcounted =>
        have htable := congrArg (fun counted => counted.2.seekTable) hcounted
        simp only [countRecordsInFrame_seekTable] at htable
        split_ifs at h
        · cases h
          exact ⟨htable.symm, rfl, fun _ => ⟨rfl, rfl⟩⟩
        · cases h
          exact ⟨htable.symm, rfl, fun hhuge => absurd hhuge ‹_›⟩

/-- The reader of a file whose frames a table has room for. -/
theorem ofTable_of_fromReader {zeek : Zeekstd} {file : SeekableFile} {label : String}
    {boundary : Boundary} {r : RecordReader} (h : fromReader file label boundary = .ok r)
    (hcount : file.frames.length ≤ zeek.maxFrames) (shared : Option File) :
    (r.tableReader shared).OfTable zeek := by
  obtain ⟨htable, hframes, hmaxima⟩ := fromReader_table h
  have hopened := opened_of_fromReader h
  have hpos : 0 < file.frames.length := by
    have := List.length_pos_iff.mpr hopened.ne_nil
    rwa [SeekableFile.contents, List.length_map] at this
  have htable : (r.tableReader shared).table = file.decoder.seekTable := htable
  have hin : SeekTable.InU32 file.decoder.seekTable := by
    intro entry hentry
    obtain ⟨frame, -, rfl⟩ := List.mem_map.mp hentry
    exact ⟨frame.comp_le, frame.content_le⟩
  have hrecords : r.sepCnt ≤ SeekTable.frameSizeDecomp file.decoder.seekTable 0 := by
    rw [hopened.sepCnt_eq]
    refine Nat.le_trans (boundary.find.length_records_le _) (Nat.le_of_eq ?_)
    obtain ⟨frame, frames, hfile⟩ := List.exists_cons_of_length_pos hpos
    simp [SeekableFile.contents, SeekableFile.decoder, SeekTable.frameSizeDecomp, hfile]
  constructor
  · rw [htable]
    exact hframes
  · rw [htable]
    exact hin
  · rw [htable]
    simpa [SeekableFile.decoder] using hcount
  · rw [htable]
    exact Nat.lt_of_lt_of_le hopened.sepCnt_pos hrecords
  · exact Nat.le_trans hrecords (hin.frameSizeDecomp_le 0)
  · rw [htable]
    intro hhuge most
    obtain ⟨hcomp, hdecomp⟩ := hmaxima hhuge
    constructor
    · show r.maxFrameComp ≤ most ↔ _
      rw [hcomp, foldl_max_le_iff, List.forall_mem_map]
      simp only [Nat.zero_le, true_and]
    · show r.maxFrameDecomp ≤ most ↔ _
      rw [hdecomp, foldl_max_le_iff, List.forall_mem_map]
      simp only [Nat.zero_le, true_and]

/-! ### A reader from a frame on -/

/-- The reader the machine comes to: both have the same table, the same records in a group and the
same frame ends to guard. -/
structure IsReaderFrom (r : RecordReader) (reopened : ReaderFrom) : Prop where
  tableReader_eq : r.tableReader none = reopened.toTableReader
  frameEndBase_eq : r.lookup.window.frameEndBase = reopened.frameEndBase
  nextFrameEnd_eq : r.lookup.window.nextFrameEnd = reopened.nextFrameEnd

section Groups

variable {zeek : Zeekstd} {opened : RecordReader} {shared : Option File} {startFrame size : Nat}

/-- A logical frame is the entry of the frames it groups, and their span. -/
theorem logicalFrame_eq (h : (opened.tableReader shared).OfTable zeek) {start : Nat}
    (hle : startFrame ≤ start) (hstart : start < opened.seekTable.length) {group : SeekTable}
    (hgroup : (opened.seekTable.drop start).take size = group) :
    opened.logicalFrame startFrame start (min (start + size) opened.seekTable.length) =
      (SeekTable.total group,
        (opened.seekTable.frameStartDecomp start - opened.seekTable.frameStartDecomp startFrame,
          (SeekTable.total group).2)) := by
  obtain ⟨hcomp, hdecomp⟩ := opened.seekTable.starts_add start size
  have hat : ∀ k, k < opened.seekTable.length →
      (opened.frames.at k).1 = opened.seekTable.frameStartDecomp k := fun k hk => h.start_at hk
  have hlength : opened.frames.length = opened.seekTable.length := h.length_frames
  rw [hgroup] at hcomp hdecomp
  generalize hstop : min (start + size) opened.seekTable.length = stop at *
  have hend : (if stop = opened.frames.length then opened.frames.last.1 + opened.frames.last.2
      else (opened.frames.at stop).1) = opened.seekTable.frameStartDecomp stop := by
    rw [hlength]
    split
    · next heq =>
        rw [heq]
        exact h.last_sum
    · exact hat stop (by omega)
  unfold logicalFrame
  simp only [hend]
  rw [hat start hstart, hat startFrame (by omega), hcomp, hdecomp, Nat.add_sub_cancel_left,
    Nat.add_sub_cancel_left]

/-- The logical frames are those of the pieces of what is left. -/
theorem logicalFrames_pieces (h : (opened.tableReader shared).OfTable zeek) (hsize : 0 < size)
    (fuel : Nat) : ∀ start, opened.seekTable.length ≤ start + fuel → startFrame ≤ start →
      ∃ groups, Pieces size (opened.seekTable.drop start) groups ∧
        (opened.logicalFrames startFrame size fuel start).map Prod.fst =
          groups.map SeekTable.total ∧
        (opened.logicalFrames startFrame size fuel start).map Prod.snd =
          spansFrom (opened.seekTable.frameStartDecomp start -
            opened.seekTable.frameStartDecomp startFrame) (groups.map SeekTable.total) := by
  have hlength : opened.frames.length = opened.seekTable.length := h.length_frames
  induction fuel with
  | zero =>
      intro start hfuel hle
      rw [List.drop_eq_nil_of_le (by omega)]
      exact ⟨[], Pieces.nil size, rfl, rfl⟩
  | succ fuel ih =>
      intro start hfuel hle
      rw [logicalFrames, hlength]
      by_cases hstart : start < opened.seekTable.length
      · obtain ⟨groups, hpieces, hentries, hspans⟩ :=
          ih (min (start + size) opened.seekTable.length) (by omega) (by omega)
        have hmono := opened.seekTable.frameStartDecomp_mono hle (Nat.le_of_lt hstart)
        have hframe : opened.logicalFrame startFrame start
            (min (start + size) opened.seekTable.length) = _ := logicalFrame_eq h hle hstart rfl
        have hstop := (opened.seekTable.starts_add start size).2
        refine ⟨_, hpieces.step_drop hstart, ?_, ?_⟩
        · rw [if_pos hstart, List.map_cons, List.map_cons, hentries, hframe]
        · rw [if_pos hstart, List.map_cons, List.map_cons, hspans, hframe, spansFrom, hstop,
            Nat.sub_add_comm hmono]
      · rw [if_neg hstart, List.drop_eq_nil_of_le (Nat.le_of_not_lt hstart)]
        exact ⟨[], Pieces.nil size, rfl, rfl⟩

/-- What is left of the file behind a frame, as the model works it out. -/
theorem groupSize_eq (h : (opened.tableReader shared).OfTable zeek)
    (hstart : startFrame < opened.seekTable.length) :
    opened.groupSize startFrame = (opened.tableReader shared).groupLength startFrame := by
  have hlength : opened.frames.length = opened.seekTable.length := h.length_frames
  have hsum : opened.frames.last.1 + opened.frames.last.2 =
      opened.seekTable.frameStartDecomp opened.seekTable.length := h.last_sum
  have hat : (opened.frames.at startFrame).1 = opened.seekTable.frameStartDecomp startFrame :=
    h.start_at hstart
  have hend : opened.seekTable.frameEndComp (opened.seekTable.length - 1) =
      opened.seekTable.frameStartComp opened.seekTable.length := by
    rw [SeekTable.frameEndComp, Nat.sub_add_cancel (by omega)]
  obtain ⟨hcomp, hdecomp⟩ : opened.seekTable.frameStartComp opened.seekTable.length =
      opened.seekTable.frameStartComp startFrame +
        ((opened.tableReader shared).rest startFrame).1 ∧
      opened.seekTable.frameStartDecomp opened.seekTable.length =
        opened.seekTable.frameStartDecomp startFrame +
          ((opened.tableReader shared).rest startFrame).2 :=
    TableReader.OfTable.rest_eq (opened.tableReader shared) startFrame
  unfold groupSize TableReader.groupLength TableReader.RestFits
  simp only [hlength, hsum, hat, hend, hcomp, hdecomp, Nat.add_sub_cancel_left]
  rfl

/-- A reader from a frame on is the one the machine comes to. -/
theorem openFromFrame_agrees (f : File) (mode : Arithmetic) {file : SeekableFile}
    (h : (opened.tableReader (some f)).OfTable zeek) (hshared : opened.shared = some file)
    (hstart : startFrame < opened.seekTable.length)
    (hpos : (opened.tableReader (some f)).RestFits startFrame ∨
      0 < (opened.tableReader (some f)).maxFrameComp) :
    ∃ r reopened, opened.openFromFrame startFrame = .ok r ∧
      (Exec.openFromFrame zeek mode (opened.tableReader (some f)) startFrame).Ends
        (.returned reopened) ∧ r.IsReaderFrom reopened := by
  have hlength : opened.frames.length = opened.seekTable.length := h.length_frames
  have hsize := groupSize_eq h hstart
  have hcount : opened.seekTable.length ≤ u32Max := h.length_le
  obtain ⟨groups, hends, hgroups⟩ := Exec.openFromFrame_ends mode h hstart rfl hpos
  obtain ⟨groups', hpieces, hentries, hspans⟩ := logicalFrames_pieces h hgroups.size_pos
    (opened.seekTable.length - startFrame) startFrame (by omega) (Nat.le_refl startFrame)
  obtain rfl := hgroups.pieces.unique hpieces
  rw [Nat.sub_self] at hspans
  rw [← hsize, ← hlength] at hentries hspans
  have hfits : ¬ (startFrame > u32Max ∨
      ((opened.logicalFrames startFrame (opened.groupSize startFrame)
        (opened.frames.length - startFrame) startFrame).any
          fun l => decide (l.1.1 > u32Max ∨ l.1.2 > u32Max)) = true) := by
    rintro (hover | hover)
    · omega
    · obtain ⟨logical, hin, hover⟩ := List.any_eq_true.mp hover
      have hentry := List.mem_map_of_mem (f := Prod.fst) hin
      rw [hentries] at hentry
      obtain ⟨hcomp, hdecomp⟩ := hgroups.inU32 _ hentry
      have := of_decide_eq_true hover
      omega
  have hrecords : ¬ opened.sepCnt * opened.groupSize startFrame > usizeMax := by
    obtain ⟨-, hsmall⟩ := h.groupLength_bounds hstart
    rw [hsize]
    exact Nat.not_lt.mpr (Nat.le_trans (Nat.mul_le_mul h.sepCnt_le hsmall) (by decide))
  rw [openFromFrame, if_neg (by omega), hshared]
  simp only
  rw [if_neg hfits, if_neg hrecords]
  refine ⟨_, _, rfl, hends, ?_, h.start_at hstart, rfl⟩
  rw [tableReader, TableReader.mk.injEq]
  exact ⟨rfl, hentries, hspans, rfl, congrArg (opened.sepCnt * ·) hsize,
    congrArg (fun count => some (count - startFrame)) hlength, rfl, rfl, rfl, rfl⟩

end Groups

/-- A reader of a whole file is reused from any of its frames on. -/
theorem openWithOpts_reuse {zeek : Zeekstd} {file : SeekableFile} {label : String}
    {boundary : Boundary} {opened : RecordReader}
    (hopened : openWithOpts { path := some (label, file), boundary := some boundary } = .ok opened)
    (hcount : file.frames.length ≤ zeek.maxFrames) {startFrame : Nat}
    (hstart : startFrame < file.frames.length) (f : File) (mode : Arithmetic) :
    ∃ r reopened, openWithOpts { reuse := some opened, startFrame := startFrame } = .ok r ∧
      (Exec.openFromFrame zeek mode (opened.tableReader (some f)) startFrame).Ends
        (.returned reopened) ∧ r.IsReaderFrom reopened := by
  rw [openWithOpts] at hopened
  simp only [if_true] at hopened
  cases h : fromReader file label boundary with
  | error e =>
      rw [h] at hopened
      cases hopened
  | ok read =>
      rw [h] at hopened
      obtain rfl := Except.ok.inj hopened
      have htable : (({ read with shared := some file } : RecordReader).tableReader
          (some f)).OfTable zeek := ofTable_of_fromReader h hcount (some f)
      have hseek : read.seekTable = file.decoder.seekTable := (fromReader_table h).1
      have hstart : startFrame < read.seekTable.length := by
        rw [hseek]
        simpa [SeekableFile.decoder] using hstart
      apply openFromFrame_agrees f mode htable rfl hstart
      by_cases hrest : (read.tableReader (some f)).RestFits startFrame
      · exact Or.inl hrest
      · -- a frame of a whole file takes something
        have hsizes : ∀ entry ∈ read.seekTable, entry.1 ≠ 0 := by
          rw [hseek]
          intro entry hentry
          obtain ⟨frame, -, rfl⟩ := List.mem_map.mp hentry
          exact Nat.pos_iff_ne_zero.mp frame.comp_pos
        have hfirst : 0 < read.seekTable.length := by omega
        refine Or.inr ((htable.maxFrameComp_pos_iff hrest).mpr ?_)
        exact ⟨_, List.getElem_mem hfirst, hsizes _ (List.getElem_mem hfirst)⟩

end RecordReader

end SeekZstdSep
