/-
Module: SeekZstdSep.Proofs.Ready
Purpose: A reader of a file that ends with a record answers every lookup and count as the list of
  its records, however often and in whatever order it is asked, and so do the open files behind a
  handle, which fail at none.
Trusted boundary: none
Main exports: RecordReader.Ready, RecordReader.Ready.record, RecordReader.Ready.totalRecords,
  SureRecords, OpenFiles.record_sure, OpenFiles.total_sure
-/
import SeekZstdSep.Proofs.History
import SeekZstdSep.Proofs.OpenFiles

namespace SeekZstdSep

open Lib

/-! ### One reader -/

namespace RecordReader

/-- The reader is between two calls on a file that holds the records and nothing behind them. -/
def Ready (records : List Bytes) (r : RecordReader) : Prop :=
  ∃ frames, r.Serves frames ∧ r.boundary.find.rest frames.flatten = [] ∧
    itemsOf r.boundary frames = records ∧
    ∀ k, r.lookup.frame = some k → Lookup.Stands r.boundary.find frames k r.lookup.window

/-- A frame with too few records for an index that falls in it is the last one. -/
theorem length_le_of_last {boundary : Boundary} {n : Nat} {frames : List Bytes}
    (h : Uniform boundary.find boundary.tailIsRecord n frames)
    (hrest : boundary.find.rest frames.flatten = []) {i : Nat} (hk : i / n < frames.length)
    (hge : (boundary.find.records frames[i / n]).length ≤ i - i / n * n) :
    (itemsOf boundary frames).length ≤ i := by
  have hsplit := Nat.div_add_mod i n
  have hmod := Nat.mod_lt i h.pos
  have hcomm := Nat.mul_comm n (i / n)
  generalize i / n = k at hk hge hsplit hcomm
  have hlast : k = frames.length - 1 := by
    by_contra hother
    have hfull := (h.full_getElem (k := k) (by omega)).1
    omega
  subst hlast
  have htail : boundary.find.rest (frames.getLast h.ne_nil) = [] := by
    rw [← h.flatten_eq.2, hrest]
  have hlength := itemsOf_length h
  rw [Finder.items_of_rest htail, List.getLast_eq_getElem] at hlength
  omega

/-- A range is written to a sink that takes everything as far as there are records in it. -/
theorem Serves.recordsTo_whole {frames : List Bytes} {r : RecordReader} (h : r.Serves frames)
    (small : r.sepCnt * frames.length * frames.length ≤ usizeMax) (fromIdx cnt : Nat)
    (written : Bytes) :
    (r.recordsTo fromIdx cnt { written := written }).2.2 =
        { written :=
            written ++ (((itemsOf r.boundary frames).drop fromIdx).take cnt).flatten } ∧
      (fromIdx < (itemsOf r.boundary frames).length →
        (r.recordsTo fromIdx cnt { written := written }).1 = .ok ()) := by
  obtain ⟨r', -, -, hwrite⟩ := recordsTo_spec h fromIdx cnt { written := written }
  rw [hwrite]
  rcases readFeed_spec h.uniform small r.label fromIdx cnt with ⟨e, hrefusal, hfeed⟩ |
    ⟨-, us, hfeed, htake, -⟩
  · have hpast := rangeRefusal_past hrefusal
    rw [hfeed, List.drop_eq_nil_of_le hpast, List.take_nil, List.flatten_nil, List.append_nil]
    exact ⟨rfl, fun hlt => absurd hlt (Nat.not_lt_of_le hpast)⟩
  · rw [hfeed, writeRange, RecordUnitCursor.writeList, htake]
    rw [Sink.writeAll_all]
    exact ⟨rfl, fun _ => rfl⟩

namespace Ready

variable {records : List Bytes} {r : RecordReader}

/-- A lookup answers the record at its index. A window that handed out the last frame has no record
left in front of it that an index could ask for. -/
theorem record (h : r.Ready records) (i : Nat) :
    ∃ r', r.record i = (.ok records[i]?, r') ∧ r'.Ready records := by
  obtain ⟨frames, hserves, hrest, rfl, hstands⟩ := h
  by_cases hreach : i / r.sepCnt < frames.length → r.lookup.frame = some (i / r.sepCnt) →
      Lookup.Reaches r.boundary.find frames (i / r.sepCnt) (i - i / r.sepCnt * r.sepCnt)
        r.lookup.window
  · obtain ⟨r', hkept, hlooked, hrecord⟩ := record_spec hserves i hreach
    have heq := hkept.eq
    refine ⟨r', hrecord, frames, hserves.kept hkept, by rw [heq]; exact hrest, by rw [heq], ?_⟩
    intro k hframe
    have hboundary : r'.boundary = r.boundary := by rw [heq]
    rw [hboundary]
    rcases hlooked with rfl | hnone | ⟨k', hframe', hstands'⟩
    · exact hstands k hframe
    · rw [hnone] at hframe
      cases hframe
    · obtain rfl : k' = k := Option.some.inj (hframe'.symm.trans hframe)
      exact hstands'
  · simp only [Classical.not_imp] at hreach
    obtain ⟨hk, hframe, hnot⟩ := hreach
    obtain ⟨_, hat | hpast⟩ := hstands _ hframe
    · exact absurd ⟨hk, Or.inl hat⟩ hnot
    have hge : (r.boundary.find.records frames[i / r.sepCnt]).length ≤
        i - i / r.sepCnt * r.sepCnt := by
      by_contra hlt
      exact hnot ⟨hk, Or.inr ⟨hpast, Nat.lt_of_not_le hlt⟩⟩
    obtain ⟨-, -, hwalked⟩ := Past_blank hpast
    have hnone : (itemsOf r.boundary frames).length ≤ i :=
      length_le_of_last hserves.uniform hrest hk hge
    exact ⟨r, record_of_drained hserves hk hnone hframe hpast.drained (by omega), frames, hserves,
      hrest, rfl, hstands⟩

/-- A count answers how many records there are. -/
theorem totalRecords (h : r.Ready records) :
    ∃ r', r.totalRecords = (.ok records.length, r') ∧ r'.Ready records := by
  obtain ⟨frames, hserves, hrest, rfl, -⟩ := h
  obtain ⟨r', hkept, hframe, htotal⟩ := totalRecords_spec hserves
  have heq := hkept.eq
  refine ⟨r', htotal, frames, hserves.kept hkept, by rw [heq]; exact hrest, by rw [heq], ?_⟩
  intro k hk
  rw [hframe] at hk
  cases hk

end Ready

end RecordReader

instance : LawfulRecords RecordReader where
  Holds := RecordReader.Ready
  record := by
    intro records reader i h
    obtain ⟨r', hrecord, hready⟩ := h.record i
    simp only [ReadRecords.record, hrecord]
    exact ⟨hready, fun found hfound => (Except.ok.inj hfound).symm⟩
  totalRecords := by
    intro records reader h
    obtain ⟨r', htotal, hready⟩ := h.totalRecords
    simp only [ReadRecords.totalRecords, htotal]
    exact ⟨hready, fun total heq => (Except.ok.inj heq).symm⟩

/-! ### Readers that do not fail -/

/-- A reader that holds some records does not fail. -/
class SureRecords (R : Type) [ReadRecords R] extends LawfulRecords R where
  record_isOk : ∀ {records : List Bytes} {reader : R} (i : Nat), Holds records reader →
    ∃ found, (ReadRecords.record reader i).1 = .ok found
  totalRecords_isOk : ∀ {records : List Bytes} {reader : R}, Holds records reader →
    ∃ total, (ReadRecords.totalRecords reader).1 = .ok total

instance : SureRecords RecordReader where
  record_isOk := by
    intro records reader i h
    obtain ⟨r', hrecord, -⟩ := RecordReader.Ready.record h i
    exact ⟨_, congrArg Prod.fst hrecord⟩
  totalRecords_isOk := by
    intro records reader h
    obtain ⟨r', htotal, -⟩ := RecordReader.Ready.totalRecords h
    exact ⟨_, congrArg Prod.fst htotal⟩

namespace OpenFiles

variable {P R : Type} [ReadRecords R] [SureRecords R] {contents : List (List Bytes)}
  {files : OpenFiles P R}

theorem countFuel_sure (fuel : Nat) (h : Sound contents files)
    (hfuel : files.counted.length + fuel ≤ contents.length) :
    (files.countFuel fuel).1 = .ok () := by
  induction fuel generalizing files with
  | zero => rfl
  | succ fuel ih =>
      have hlt : files.counted.length < contents.length := by omega
      obtain ⟨reader, hreader, hholds⟩ := h.getElem?_eq hlt
      obtain ⟨hnext, hok⟩ := LawfulRecords.totalRecords hholds
      obtain ⟨total, htotal⟩ := SureRecords.totalRecords_isOk hholds
      have hcount := (h.set hlt hnext).count hlt
      rw [← hok total htotal] at hcount
      rw [countFuel, hreader]
      simp only [htotal]
      apply ih hcount
      simp only [List.length_append, List.length_singleton]
      omega

theorem countedUpto_sure (h : Sound contents files) {i : Nat} (hi : i < contents.length) :
    (files.countedUpto i).1 = .ok (before contents (i + 1)) := by
  have hle := h.counted_le
  have hfuel : files.counted.length + (i + 1 - files.counted.length) ≤ contents.length := by
    omega
  obtain ⟨hsound, hlen, -⟩ := countFuel_spec _ h hfuel
  have hsure := countFuel_sure _ h hfuel
  rw [countedUpto]
  cases hcount : files.countFuel (i + 1 - files.counted.length) with
  | mk result files' =>
      rw [hcount] at hsound hlen hsure
      obtain rfl : result = .ok () := hsure
      have hlong : i < files'.counted.length := by
        have hmore := hlen rfl
        simp only at hmore
        omega
      have hupto : files'.counted[i]? = some (before contents (i + 1)) := by
        rw [hsound.counted]
        exact getElem?_sums hlong
      simp only [hupto]

theorem placeFrom_sure (index left : Nat) {i : Nat} (h : Sound contents files)
    (hleft : i + left + 1 = contents.length) :
    ∃ place, (files.placeFrom index left i (before contents i)).1 = .ok place := by
  induction left generalizing files i with
  | zero => exact ⟨_, rfl⟩
  | succ left ih =>
      have hi : i < contents.length := by omega
      have hsound := (countedUpto_spec h hi).1
      have hsure := countedUpto_sure h hi
      rw [placeFrom]
      cases hcount : files.countedUpto i with
      | mk result files' =>
          rw [hcount] at hsound hsure
          obtain rfl : result = .ok (before contents (i + 1)) := hsure
          by_cases hin : index < before contents (i + 1)
          · simp only [if_pos hin]
            exact ⟨_, rfl⟩
          · simp only [if_neg hin]
            exact ih hsound (by omega)

/-- A lookup finds the record at its index of all the records. -/
theorem record_sure (h : Sound contents files) (hne : contents ≠ []) (index : Nat) :
    Sound contents (files.record index).2 ∧
      (files.record index).1 = .ok contents.flatten[index]? := by
  have hpos := List.length_pos_iff.mpr hne
  obtain ⟨hafter, hright, -⟩ := record_spec h hne index
  refine ⟨hafter, ?_⟩
  have hok : ∃ found, (files.record index).1 = .ok found := by
    obtain ⟨hsound, hplaced, -⟩ := placeFrom_spec index (contents.length - 1) (i := 0) h
      (by omega) (by rw [before_zero]; exact Nat.zero_le _)
    obtain ⟨⟨file, front⟩, hplace⟩ := placeFrom_sure index (contents.length - 1) (i := 0) h
      (by omega)
    obtain ⟨hfile, rfl, hfront, -⟩ := hplaced file front hplace
    rw [before_zero] at hplace hsound
    rw [record, h.last hne]
    simp only
    cases hresult : files.placeFrom index (contents.length - 1) 0 0 with
    | mk result files' =>
        rw [hresult] at hplace hsound
        obtain rfl : result = .ok (file, before contents file) := hplace
        obtain ⟨reader, hreader, hholds⟩ := hsound.getElem?_eq hfile
        obtain ⟨found, hfound⟩ :=
          SureRecords.record_isOk (index - before contents file) hholds
        have hsub : subUsize true index (before contents file) =
            some (index - before contents file) := if_pos hfront
        simp only [hreader, hsub, hfound]
        exact ⟨_, rfl⟩
  obtain ⟨found, hfound⟩ := hok
  rw [hfound, hright found hfound]

/-- The count of all of the files is how many records they hold. -/
theorem total_sure (h : Sound contents files) (hne : contents ≠ []) :
    Sound contents files.total.2 ∧ files.total.1 = .ok contents.flatten.length := by
  have hpos := List.length_pos_iff.mpr hne
  refine ⟨(total_spec h hne).1, ?_⟩
  have hsure := countedUpto_sure h (Nat.sub_one_lt_of_lt hpos)
  rw [Nat.sub_one_add_one (Nat.ne_of_gt hpos), before_length] at hsure
  rw [total, h.last hne]
  exact hsure

end OpenFiles

end SeekZstdSep
