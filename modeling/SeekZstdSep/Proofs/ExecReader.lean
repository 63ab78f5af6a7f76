/-
Module: SeekZstdSep.Proofs.ExecReader
Purpose: What opening a file gathers of its seek table: the spans of the frames and, where the file
  passes `u32::MAX`, the longest frame of each kind. The first frame holds a record.
Trusted boundary: the seek table holds both lengths of a frame as `u32`
Main exports: SeekTable.total, SeekTable.starts_add, spansFrom_at, TableReader.OfTable,
  Exec.fromReader_ends, Exec.ofTable_of_fromFile
-/
import SeekZstdSep.Core.ExecReader
import SeekZstdSep.Lib.Pieces
import SeekZstdSep.Proofs.ExecFrames

namespace SeekZstdSep

open Lib

/-! ### Sums of entries -/

namespace SeekTable

/-- What some frames take together, compressed and decompressed. -/
def total (entries : SeekTable) : Nat × Nat :=
  ((entries.map Prod.fst).sum, (entries.map Prod.snd).sum)

/-- Where a frame starts in the decompressed stream. -/
def frameStartDecomp (table : SeekTable) (frame : Nat) : Nat :=
  ((table.take frame).map Prod.snd).sum

variable {table : SeekTable} {size k : Nat}

theorem total_take (table : SeekTable) (k : Nat) :
    total (table.take k) = (table.frameStartComp k, table.frameStartDecomp k) := rfl

/-- The file ends where a frame behind all of its frames would start. -/
theorem total_eq (table : SeekTable) :
    total table = (table.frameStartComp table.length, table.frameStartDecomp table.length) := by
  rw [← total_take, List.take_length]

theorem total_append (entries entries' : SeekTable) :
    total (entries ++ entries') =
      ((total entries).1 + (total entries').1, (total entries).2 + (total entries').2) := by
  simp [total]

/-- Where the frame behind `size` others starts, or the end of the file. -/
theorem starts_add (table : SeekTable) (k size : Nat) :
    table.frameStartComp (min (k + size) table.length) =
        table.frameStartComp k + (total ((table.drop k).take size)).1 ∧
      table.frameStartDecomp (min (k + size) table.length) =
        table.frameStartDecomp k + (total ((table.drop k).take size)).2 := by
  have hcut : table.take (min (k + size) table.length) =
      table.take k ++ (table.drop k).take size := by
    rw [← List.take_add, List.take_eq_take_iff]
    omega
  have htotal := total_append (table.take k) ((table.drop k).take size)
  rw [← hcut, total_take, total_take, Prod.mk.injEq] at htotal
  exact htotal

theorem getElem_eq (hk : k < table.length) :
    table[k] = (table.frameSizeComp k, table.frameSizeDecomp k) := by
  rw [frameSizeComp, frameSizeDecomp, List.getD_eq_getElem?_getD,
    List.getElem?_eq_getElem hk]
  rfl

theorem starts_succ (hk : k < table.length) :
    table.frameStartComp (k + 1) = table.frameStartComp k + table.frameSizeComp k ∧
      table.frameStartDecomp (k + 1) = table.frameStartDecomp k + table.frameSizeDecomp k := by
  have hone : (table.drop k).take 1 = [(table.frameSizeComp k, table.frameSizeDecomp k)] := by
    rw [List.drop_eq_getElem_cons hk, getElem_eq hk]
    rfl
  have hadd := table.starts_add k 1
  rw [hone, Nat.min_eq_left hk] at hadd
  simpa [total] using hadd

theorem frameStartDecomp_mono (table : SeekTable) {i j : Nat} (hij : i ≤ j)
    (hj : j ≤ table.length) : table.frameStartDecomp i ≤ table.frameStartDecomp j := by
  have hadd := (table.starts_add i (j - i)).2
  rw [Nat.add_sub_cancel' hij, Nat.min_eq_left hj] at hadd
  omega

/-- A table has no sum that passes 64 bits. -/
theorem InU32.total_lt (h : table.InU32) (hcount : table.length ≤ u32Max) {entries : SeekTable}
    (hsub : entries ⊆ table) (hlength : entries.length ≤ table.length) :
    (total entries).1 < 2 ^ 64 ∧ (total entries).2 < 2 ^ 64 := by
  have hsquare : u32Max * u32Max < 2 ^ 64 := by decide
  have hcomp : (total entries).1 ≤ entries.length * u32Max :=
    sum_map_le fun entry hentry => (h entry (hsub hentry)).1
  have hdecomp : (total entries).2 ≤ entries.length * u32Max :=
    sum_map_le fun entry hentry => (h entry (hsub hentry)).2
  have hmost : entries.length * u32Max ≤ u32Max * u32Max :=
    Nat.mul_le_mul_right u32Max (Nat.le_trans hlength hcount)
  omega

theorem InU32.starts_lt (h : table.InU32) (hcount : table.length ≤ u32Max) (k : Nat) :
    table.frameStartComp k < 2 ^ 64 ∧ table.frameStartDecomp k < 2 ^ 64 :=
  h.total_lt hcount (List.take_subset k table) (List.length_take_le' k table)

end SeekTable

/-! ### The spans of a table -/

theorem spansFrom_at {table : SeekTable} {k : Nat} (hk : k < table.length) (start : Nat) :
    (spansFrom start table).at k =
      (start + table.frameStartDecomp k, table.frameSizeDecomp k) := by
  induction table generalizing start k with
  | nil => cases hk
  | cons entry table ih =>
      cases k with
      | zero => simp [spansFrom, Spans.at, SeekTable.frameStartDecomp, SeekTable.frameSizeDecomp]
      | succ k =>
          have hrest := ih (Nat.lt_of_succ_lt_succ hk) (start + entry.2)
          rw [Spans.at, SeekTable.frameSizeDecomp] at hrest ⊢
          simp only [spansFrom, List.getD_cons_succ, hrest, SeekTable.frameStartDecomp,
            List.take_succ_cons, List.map_cons, List.sum_cons, Nat.add_assoc]

/-- The last span ends where the file does. -/
theorem spansFrom_last {table : SeekTable} (hne : table ≠ []) :
    (spansFrom 0 table).last.1 + (spansFrom 0 table).last.2 =
      table.frameStartDecomp table.length := by
  have hpos := List.length_pos_iff.mpr hne
  have hlast : table.length - 1 < table.length := by omega
  have hends := (SeekTable.starts_succ hlast).2
  rw [Nat.sub_add_cancel hpos] at hends
  rw [Spans.last, length_spansFrom, spansFrom_at hlast, hends, Nat.zero_add]

/-! ### Opening a file -/

section Frames

variable {Gathered : Type} (table : SeekTable) (onFrame : Gathered → Nat → Nat → Gathered)

/-- The loop hands the closure every frame with its length, and keeps the spans. -/
theorem decompFramesFrom_eq (count : Nat) :
    ∀ i gathered, i + count = table.length →
      decompFramesFrom table onFrame (List.range' i count) (table.frameStartDecomp i) gathered =
        (spansFrom (table.frameStartDecomp i) (table.drop i),
          (List.range' i count).foldl
            (fun gathered i => onFrame gathered i (table.frameSizeDecomp i)) gathered) := by
  induction count with
  | zero =>
      intro i gathered hlast
      rw [List.drop_eq_nil_of_le (by omega)]
      rfl
  | succ count ih =>
      intro i gathered hlast
      have hi : i < table.length := by omega
      have hend : table.frameEndDecomp i = table.frameStartDecomp i + table.frameSizeDecomp i :=
        (SeekTable.starts_succ hi).2
      have hentry : table.drop i =
          (table.frameSizeComp i, table.frameSizeDecomp i) :: table.drop (i + 1) := by
        rw [List.drop_eq_getElem_cons hi, SeekTable.getElem_eq hi]
      have hrest := ih (i + 1) (onFrame gathered i (table.frameSizeDecomp i)) (by omega)
      rw [(SeekTable.starts_succ hi).2] at hrest
      rw [List.range'_succ, decompFramesFrom, hend, Nat.add_sub_cancel_left, hrest, hentry,
        spansFrom, List.foldl_cons]

theorem seekTableDecompFramesWith_eq (gathered : Gathered) :
    seekTableDecompFramesWith table onFrame gathered =
      (seekTableDecompFrames table).map fun frames =>
        (frames, (List.range table.length).foldl
          (fun gathered i => onFrame gathered i (table.frameSizeDecomp i)) gathered) := by
  rw [seekTableDecompFramesWith, seekTableDecompFrames]
  cases table with
  | nil => rfl
  | cons entry rest =>
      have hall := decompFramesFrom_eq (entry :: rest) onFrame (entry :: rest).length 0 gathered
        (Nat.zero_add _)
      rw [← List.range_eq_range'] at hall
      rw [if_neg (by simp), show (0 : Nat) = SeekTable.frameStartDecomp (entry :: rest) 0 from rfl,
        hall]
      rfl

end Frames

/-- What is gathered is the longest frame of each kind. -/
theorem gatherMaxima_le_iff (table : SeekTable) (indices : List Nat) :
    ∀ (maxima : Nat × Nat) (most : Nat),
      ((indices.foldl (fun maxima i => gatherMaxima table maxima i (table.frameSizeDecomp i))
          maxima).1 ≤ most ↔ maxima.1 ≤ most ∧ ∀ i ∈ indices, table.frameSizeComp i ≤ most) ∧
      ((indices.foldl (fun maxima i => gatherMaxima table maxima i (table.frameSizeDecomp i))
          maxima).2 ≤ most ↔ maxima.2 ≤ most ∧ ∀ i ∈ indices, table.frameSizeDecomp i ≤ most) := by
  induction indices with
  | nil => simp
  | cons i indices ih =>
      intro maxima most
      obtain ⟨hcomp, hdecomp⟩ := ih (gatherMaxima table maxima i (table.frameSizeDecomp i)) most
      rw [List.foldl_cons, hcomp, hdecomp]
      simp [gatherMaxima, and_assoc]

theorem SeekTable.forall_sizes_iff (table : SeekTable) (p : Nat × Nat → Prop) :
    (∀ i ∈ List.range table.length, p (table.frameSizeComp i, table.frameSizeDecomp i)) ↔
      ∀ entry ∈ table, p entry := by
  constructor
  · intro h entry hin
    obtain ⟨i, hi, rfl⟩ := List.mem_iff_getElem.mp hin
    rw [SeekTable.getElem_eq hi]
    exact h i (List.mem_range.mpr hi)
  · intro h i hi
    have hlt := List.mem_range.mp hi
    rw [← SeekTable.getElem_eq hlt]
    exact h _ (List.getElem_mem hlt)

/-- The spans of a table, and the closure's maxima of all of it. -/
theorem seekTableDecompFramesWith_gatherMaxima {table : SeekTable} (hne : table ≠ []) :
    ∃ maxima, seekTableDecompFramesWith table (gatherMaxima table) (0, 0) =
        some (spansFrom 0 table, maxima) ∧
      ∀ most, (maxima.1 ≤ most ↔ ∀ entry ∈ table, entry.1 ≤ most) ∧
        (maxima.2 ≤ most ↔ ∀ entry ∈ table, entry.2 ≤ most) := by
  have hspans : seekTableDecompFrames table = some (spansFrom 0 table) := by
    rw [seekTableDecompFrames, if_neg (by simpa using hne)]
  rw [seekTableDecompFramesWith_eq, hspans]
  refine ⟨_, rfl, fun most => ?_⟩
  obtain ⟨hcomp, hdecomp⟩ := gatherMaxima_le_iff table (List.range table.length) (0, 0) most
  rw [hcomp, hdecomp, ← table.forall_sizes_iff fun entry => entry.1 ≤ most,
    ← table.forall_sizes_iff fun entry => entry.2 ≤ most]
  simp

/-- What holds of the table of a reader that a file was opened to. The maxima are gathered where
the file passes `u32::MAX`. -/
structure TableReader.OfTable (zeek : Zeekstd) (r : TableReader) : Prop where
  frames_eq : r.frames = spansFrom 0 r.table
  inU32 : r.table.InU32
  count_le : r.table.length ≤ zeek.maxFrames
  first_pos : 0 < r.table.frameSizeDecomp 0
  sepCnt_le : r.sepCnt ≤ u32Max
  maxima : u32Max < (SeekTable.total r.table).1 ∨ u32Max < (SeekTable.total r.table).2 →
    ∀ most, (r.maxFrameComp ≤ most ↔ ∀ entry ∈ r.table, entry.1 ≤ most) ∧
      (r.maxFrameDecomp ≤ most ↔ ∀ entry ∈ r.table, entry.2 ≤ most)

namespace TableReader.OfTable

variable {zeek : Zeekstd} {r : TableReader}

theorem ne_nil (h : r.OfTable zeek) : r.table ≠ [] := by
  intro hnil
  have hpos := h.first_pos
  rw [hnil] at hpos
  exact Nat.lt_irrefl 0 hpos

theorem length_le (h : r.OfTable zeek) : r.table.length ≤ u32Max :=
  Nat.le_trans h.count_le zeek.maxFrames_le

theorem length_frames (h : r.OfTable zeek) : r.frames.length = r.table.length := by
  rw [h.frames_eq, length_spansFrom]

theorem start_at (h : r.OfTable zeek) {k : Nat} (hk : k < r.table.length) :
    (r.frames.at k).1 = r.table.frameStartDecomp k := by
  rw [h.frames_eq, spansFrom_at hk, Nat.zero_add]

theorem last_sum (h : r.OfTable zeek) :
    r.frames.last.1 + r.frames.last.2 = r.table.frameStartDecomp r.table.length := by
  rw [h.frames_eq, spansFrom_last h.ne_nil]

/-- The last span ends where the file does, which is a sum of 64 bits. -/
theorem last_end (h : r.OfTable zeek) (mode : Arithmetic) :
    Exec.add mode 64 r.frames.last.1 r.frames.last.2 =
      pure (r.table.frameStartDecomp r.table.length) := by
  have hlt := (h.inU32.starts_lt h.length_le r.table.length).2
  rw [← h.last_sum] at hlt ⊢
  exact Exec.add_of_lt hlt

end TableReader.OfTable

namespace Exec

variable {zeek : Zeekstd}

theorem endDecomp_of_lt {table : SeekTable} {index : Nat} (h : index < table.length) :
    endDecomp table index = pure (table.frameEndDecomp index) := by
  rw [endDecomp, entryAt_of_lt h, Program.pure_andThen]

theorem sizeComp_of_lt {table : SeekTable} {index : Nat} (h : index < table.length) :
    sizeComp table index = pure (table.frameSizeComp index) := by
  rw [sizeComp, entryAt_of_lt h, Program.pure_andThen]

/-- The last frame ends where all of them together do. -/
theorem frameEnds_last {table : SeekTable} (hne : table ≠ []) :
    table.frameEndComp (table.length - 1) = (SeekTable.total table).1 ∧
      table.frameEndDecomp (table.length - 1) = (SeekTable.total table).2 := by
  have hpos := List.length_pos_iff.mpr hne
  rw [SeekTable.frameEndComp, SeekTable.frameStartComp, SeekTable.frameEndDecomp,
    Nat.sub_add_cancel hpos, List.take_length]
  exact ⟨rfl, rfl⟩

/-- What `from_reader` gathers of a table. -/
theorem gathered_spec {table : SeekTable} (hne : table ≠ []) :
    ∃ maxima,
      (if (SeekTable.total table).1 > u32Max ∨ (SeekTable.total table).2 > u32Max then
          seekTableDecompFramesWith table (gatherMaxima table) (0, 0)
        else seekTableDecompFramesWith table (fun maxima _ _ => maxima) (0, 0)) =
          some (spansFrom 0 table, maxima) ∧
        (u32Max < (SeekTable.total table).1 ∨ u32Max < (SeekTable.total table).2 → ∀ most,
          (maxima.1 ≤ most ↔ ∀ entry ∈ table, entry.1 ≤ most) ∧
            (maxima.2 ≤ most ↔ ∀ entry ∈ table, entry.2 ≤ most)) := by
  by_cases hhuge : (SeekTable.total table).1 > u32Max ∨ (SeekTable.total table).2 > u32Max
  · obtain ⟨maxima, hgathered, hmaxima⟩ := seekTableDecompFramesWith_gatherMaxima hne
    rw [if_pos hhuge]
    exact ⟨maxima, hgathered, fun _ => hmaxima⟩
  · rw [if_neg hhuge, seekTableDecompFramesWith_eq, seekTableDecompFrames,
      if_neg (by simpa using hne)]
    exact ⟨_, rfl, fun h => absurd h hhuge⟩

/-- What a file is opened to, from what its first frame was counted to. -/
def readerOf (label : String) (boundary : Boundary) (table : SeekTable) (maxima : Nat × Nat)
    (counted : Nat) : Except Error TableReader :=
  if counted = 0 then
    if boundary.bytes.isEmpty then .error (.noRecordEnds label)
    else .error (.noRecordEndsWith label boundary.bytes)
  else
    .ok
      { label := label
        table := table
        frames := spansFrom 0 table
        boundary := boundary
        sepCnt := counted
        maxFrameComp := maxima.1
        maxFrameDecomp := maxima.2 }

/-- Opening a file over its table. -/
theorem fromReader_ends (label : String) (boundary : Boundary) {f : File} {table : SeekTable}
    (hparse : zeek.fromSeekable f.bytes = .ok table) (hne : table ≠ []) :
    ∃ maxima,
      (u32Max < (SeekTable.total table).1 ∨ u32Max < (SeekTable.total table).2 → ∀ most,
        (maxima.1 ≤ most ↔ ∀ entry ∈ table, entry.1 ≤ most) ∧
          (maxima.2 ≤ most ↔ ∀ entry ∈ table, entry.2 ≤ most)) ∧
      (fromReader zeek f label boundary).Ends (Program.endingOf
        ((SeekZstdSep.frameRecords boundary.find (.new zeek f table) 0).bind fun counted =>
          readerOf label boundary table maxima counted.1)) := by
  obtain ⟨maxima, hgathered, hmaxima⟩ := gathered_spec hne
  obtain ⟨hcompEnd, hdecompEnd⟩ := frameEnds_last hne
  have hpos := List.length_pos_iff.mpr hne
  have hlast : table.length - 1 < table.length := by omega
  have hmodel := frameRecords_ends boundary.find (FrameReader.new_ready zeek f table) hpos
  refine ⟨maxima, hmaxima, ?_⟩
  rw [fromReader, hparse, Program.ofExcept_ok, Program.pure_andThen]
  simp only
  rw [if_neg (Nat.pos_iff_ne_zero.mp hpos), endComp_of_lt hlast, Program.pure_andThen,
    endDecomp_of_lt hlast, Program.pure_andThen, hcompEnd, hdecompEnd]
  simp only [hgathered]
  cases hrecords : SeekZstdSep.frameRecords boundary.find (.new zeek f table) 0 with
  | error e =>
      rw [hrecords] at hmodel
      exact hmodel.bind_failed
  | ok counted =>
      rw [hrecords] at hmodel
      apply hmodel.bind
      show Program.Ends _ (Program.endingOf (readerOf label boundary table maxima counted.1))
      rw [readerOf]
      split
      · split
        · exact Program.ends_ofEnding _
        · exact Program.ends_ofEnding _
      · exact Program.ends_pure _

/-- A reader that a file is opened to. -/
theorem ofTable_of_fromReader (hzeek : zeek.ParsesU32) {f : File} {label : String}
    {boundary : Boundary} {r : TableReader}
    (h : (fromReader zeek f label boundary).Ends (.returned r)) : r.OfTable zeek := by
  have hends := h
  rw [fromReader] at hends
  obtain ⟨table, hparse, hends⟩ := hends.of_bind
  have hparsed := Program.ok_of_ends hparse
  by_cases hempty : table.length = 0
  · rw [if_pos hempty] at hends
    cases hends.unique (Program.ends_ofEnding _)
  · have hne : table ≠ [] := fun hnil => hempty (by rw [hnil]; rfl)
    obtain ⟨maxima, hmaxima, hmodel⟩ := fromReader_ends label boundary hparsed hne
    have hsame := h.unique hmodel
    cases hrecords : SeekZstdSep.frameRecords boundary.find (.new zeek f table) 0 with
    | error e =>
        rw [hrecords] at hsame
        cases hsame
    | ok counted =>
        obtain ⟨-, hle⟩ := (FrameReader.new_ready zeek f table).frameRecords_keeps hrecords
        have hle : counted.1 ≤ table.frameSizeDecomp 0 := hle
        have hin := hzeek _ _ hparsed
        rw [hrecords] at hsame
        have hsame : .returned r =
            Program.endingOf (readerOf label boundary table maxima counted.1) := hsame
        rw [readerOf] at hsame
        split_ifs at hsame with hzero htext
        · cases hsame
        · cases hsame
        · cases hsame
          exact
            { frames_eq := rfl
              inU32 := hin
              count_le := zeek.fromSeekable_length hparsed
              first_pos := Nat.lt_of_lt_of_le (Nat.pos_of_ne_zero hzero) hle
              sepCnt_le := Nat.le_trans hle (hin.frameSizeDecomp_le 0)
              maxima := hmaxima }

theorem ofTable_of_fromFile (hzeek : zeek.ParsesU32) {f : File} {label : String}
    {boundary : Boundary} {r : TableReader}
    (h : (fromFile zeek f label boundary).Ends (.returned r)) :
    r.OfTable zeek ∧ r.shared = some f := by
  rw [fromFile] at h
  obtain ⟨read, hread, h⟩ := h.of_bind
  have htable := ofTable_of_fromReader hzeek hread
  cases h.unique (Program.ends_pure _)
  exact ⟨{ htable with }, rfl⟩

end Exec

end SeekZstdSep
