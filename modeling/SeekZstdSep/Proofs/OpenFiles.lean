/-
Module: SeekZstdSep.Proofs.OpenFiles
Purpose: The open files behind a handle are the concatenation of their records: lookups and the
  count answer as that one list does, whatever is counted when and whichever call fails.
Trusted boundary: none
Main exports: LawfulRecords, OpenFiles.Sound, OpenFiles.record_spec, OpenFiles.total_spec,
  FreshOrFailing, FilesCall, open_files_concatenate
-/
import SeekZstdSep.Core.Handles
import SeekZstdSep.Lib.Concat
import SeekZstdSep.Proofs.Answers

namespace SeekZstdSep

open Lib

/-- A reader that holds some records answers with them or fails, and holds them still. -/
class LawfulRecords (R : Type) [ReadRecords R] where
  Holds : List Bytes → R → Prop
  record : ∀ {records : List Bytes} {reader : R} (i : Nat), Holds records reader →
    Holds records (ReadRecords.record reader i).2 ∧
      ∀ found, (ReadRecords.record reader i).1 = .ok found → found = records[i]?
  totalRecords : ∀ {records : List Bytes} {reader : R}, Holds records reader →
    Holds records (ReadRecords.totalRecords reader).2 ∧
      ∀ total, (ReadRecords.totalRecords reader).1 = .ok total → total = records.length

/-- What a file operation may fail with: what a reader fails with, and no panic. -/
def PluginError.OfReader : PluginError → Prop
  | .cannotCount _ => True
  | .cannotReadRecord _ _ => True
  | _ => False

namespace OpenFiles

variable {P R : Type} [ReadRecords R] [LawfulRecords R] {contents : List (List Bytes)}
  {files : OpenFiles P R}

/-- Each reader holds the records of its file, and the cached counts are the sums of the first
files. -/
structure Sound (contents : List (List Bytes)) (files : OpenFiles P R) : Prop where
  length_eq : files.readers.length = contents.length
  holds : ∀ i (hi : i < contents.length) reader, files.readers[i]? = some reader →
    LawfulRecords.Holds contents[i] reader
  counted_le : files.counted.length ≤ contents.length
  counted : files.counted = sums contents files.counted.length

namespace Sound

theorem getElem?_eq (h : Sound contents files) {i : Nat} (hi : i < contents.length) :
    ∃ reader, files.readers[i]? = some reader ∧ LawfulRecords.Holds contents[i] reader := by
  have hlt : i < files.readers.length := by
    rw [h.length_eq]
    exact hi
  have hreader := List.getElem?_eq_getElem hlt
  exact ⟨_, hreader, h.holds i hi _ hreader⟩

/-- Where there is a file there is a last one. -/
theorem last (h : Sound contents files) (hne : contents ≠ []) :
    subUsize true files.readers.length 1 = some (contents.length - 1) := by
  have hpos : 1 ≤ contents.length := List.length_pos_iff.mpr hne
  rw [subUsize, h.length_eq, if_pos hpos]

/-- A reader that still holds its records takes its place. -/
theorem set (h : Sound contents files) {i : Nat} (hi : i < contents.length) {reader : R}
    (hreader : LawfulRecords.Holds contents[i] reader) :
    Sound contents { files with readers := files.readers.set i reader } where
  length_eq := by
    rw [List.length_set]
    exact h.length_eq
  holds := by
    intro j hj other hother
    by_cases hij : i = j
    · subst hij
      rw [List.getElem?_set_self (by rw [h.length_eq]; exact hi)] at hother
      cases hother
      exact hreader
    · rw [List.getElem?_set_ne hij] at hother
      exact h.holds j hj other hother
  counted_le := h.counted_le
  counted := h.counted

/-- One more file is counted. -/
theorem count (h : Sound contents files) (hlt : files.counted.length < contents.length) :
    Sound contents
      { files with
        counted := files.counted ++
          [files.counted.getLast?.getD 0 + contents[files.counted.length].length] } where
  length_eq := h.length_eq
  holds := h.holds
  counted_le := by
    rw [List.length_append, List.length_singleton]
    exact hlt
  counted := by
    have hlast := getLast?_sums contents files.counted.length
    rw [← h.counted] at hlast
    rw [List.length_append, List.length_singleton, sums_succ hlt, ← h.counted, hlast]

end Sound

/-! ### Counting -/

/-- Counting more files keeps the counts sums, also where it fails on the way. -/
theorem countFuel_spec (fuel : Nat) (h : Sound contents files)
    (hfuel : files.counted.length + fuel ≤ contents.length) :
    Sound contents (files.countFuel fuel).2 ∧
      ((files.countFuel fuel).1 = .ok () →
        (files.countFuel fuel).2.counted.length = files.counted.length + fuel) ∧
      ∀ e, (files.countFuel fuel).1 = .error e → e.OfReader := by
  induction fuel generalizing files with
  | zero =>
      rw [countFuel]
      refine ⟨h, fun _ => rfl, ?_⟩
      intro e he
      cases he
  | succ fuel ih =>
      have hlt : files.counted.length < contents.length := by omega
      obtain ⟨reader, hreader, hholds⟩ := h.getElem?_eq hlt
      obtain ⟨hnext, hok⟩ := LawfulRecords.totalRecords hholds
      have hset := h.set hlt hnext
      rw [countFuel, hreader]
      simp only
      cases htotal : (ReadRecords.totalRecords reader).1 with
      | error e =>
          refine ⟨hset, ?_, ?_⟩
          · intro herr
            cases herr
          · intro e' he'
            cases he'
            trivial
      | ok records =>
          have hcount := hset.count hlt
          rw [← hok records htotal] at hcount
          obtain ⟨hsound, hlen, herr⟩ := ih hcount (by
            simp only [List.length_append, List.length_singleton]
            omega)
          refine ⟨hsound, ?_, herr⟩
          intro hdone
          have hmore := hlen hdone
          simp only [List.length_append, List.length_singleton] at hmore
          rw [hmore]
          omega

/-- A count is how many records come before the next file. -/
theorem countedUpto_spec (h : Sound contents files) {i : Nat} (hi : i < contents.length) :
    Sound contents (files.countedUpto i).2 ∧
      (∀ upto, (files.countedUpto i).1 = .ok upto → upto = before contents (i + 1)) ∧
      ∀ e, (files.countedUpto i).1 = .error e → e.OfReader := by
  have hle := h.counted_le
  obtain ⟨hsound, hlen, herr⟩ := countFuel_spec (i + 1 - files.counted.length) h (by omega)
  rw [countedUpto]
  cases hcount : files.countFuel (i + 1 - files.counted.length) with
  | mk result files' =>
      rw [hcount] at hsound hlen herr
      cases result with
      | error e =>
          refine ⟨hsound, ?_, ?_⟩
          · intro upto hupto
            cases hupto
          · intro e' he'
            cases he'
            exact herr e rfl
      | ok done =>
          have hlong : i < files'.counted.length := by
            have hmore := hlen rfl
            simp only at hmore
            omega
          have hupto : files'.counted[i]? = some (before contents (i + 1)) := by
            rw [hsound.counted]
            exact getElem?_sums hlong
          simp only [hupto]
          refine ⟨hsound, ?_, ?_⟩
          · intro upto heq
            exact (Except.ok.inj heq).symm
          · intro e he
            cases he

/-! ### Lookups -/

/-- The file a lookup comes to: the one its index falls in, or the last one. -/
theorem placeFrom_spec (index : Nat) (left : Nat) {i : Nat} (h : Sound contents files)
    (hleft : i + left + 1 = contents.length) (hbefore : before contents i ≤ index) :
    Sound contents (files.placeFrom index left i (before contents i)).2 ∧
      (∀ file front, (files.placeFrom index left i (before contents i)).1 = .ok (file, front) →
        file < contents.length ∧ front = before contents file ∧ front ≤ index ∧
          (file + 1 < contents.length → index < before contents (file + 1))) ∧
      ∀ e, (files.placeFrom index left i (before contents i)).1 = .error e → e.OfReader := by
  induction left generalizing files i with
  | zero =>
      rw [placeFrom]
      refine ⟨h, ?_, ?_⟩
      · intro file front hplace
        cases hplace
        exact ⟨by omega, rfl, hbefore, fun hmore => by omega⟩
      · intro e he
        cases he
  | succ left ih =>
      obtain ⟨hsound, hok, herr⟩ := countedUpto_spec h (show i < contents.length by omega)
      rw [placeFrom]
      cases hcount : files.countedUpto i with
      | mk result files' =>
          rw [hcount] at hsound hok herr
          cases result with
          | error e =>
              refine ⟨hsound, ?_, ?_⟩
              · intro file front hplace
                cases hplace
              · intro e' he'
                cases he'
                exact herr e rfl
          | ok upto =>
              obtain rfl := hok upto rfl
              by_cases hin : index < before contents (i + 1)
              · simp only [if_pos hin]
                refine ⟨hsound, ?_, ?_⟩
                · intro file front hplace
                  cases hplace
                  exact ⟨by omega, rfl, hbefore, fun _ => hin⟩
                · intro e he
                  cases he
              · simp only [if_neg hin]
                exact ih hsound (by omega) (Nat.le_of_not_lt hin)

/-- A lookup that does not fail finds the record at its index of all the records. -/
theorem record_spec (h : Sound contents files) (hne : contents ≠ []) (index : Nat) :
    Sound contents (files.record index).2 ∧
      (∀ found, (files.record index).1 = .ok found → found = contents.flatten[index]?) ∧
      ∀ e, (files.record index).1 = .error e → e.OfReader := by
  have hpos := List.length_pos_iff.mpr hne
  obtain ⟨hsound, hok, herr⟩ := placeFrom_spec index (contents.length - 1) (i := 0) h (by omega)
    (by rw [before_zero]; exact Nat.zero_le _)
  rw [before_zero] at hsound hok herr
  rw [record, h.last hne]
  simp only
  cases hplace : files.placeFrom index (contents.length - 1) 0 0 with
  | mk result files' =>
      rw [hplace] at hsound hok herr
      cases result with
      | error e =>
          refine ⟨hsound, ?_, ?_⟩
          · intro found hfound
            cases hfound
          · intro e' he'
            cases he'
            exact herr e rfl
      | ok place =>
          obtain ⟨file, front⟩ := place
          obtain ⟨hfile, rfl, hfront, hin⟩ := hok file front rfl
          obtain ⟨reader, hreader, hholds⟩ := hsound.getElem?_eq hfile
          obtain ⟨hnext, hfound⟩ := LawfulRecords.record (index - before contents file) hholds
          have hset := hsound.set hfile hnext
          have hsub : subUsize true index (before contents file) =
              some (index - before contents file) := if_pos hfront
          simp only [hreader, hsub]
          cases hanswer : (ReadRecords.record reader (index - before contents file)).1 with
          | error e =>
              refine ⟨hset, ?_, ?_⟩
              · intro found hok
                cases hok
              · intro e' he'
                cases he'
                trivial
          | ok found =>
              refine ⟨hset, ?_, ?_⟩
              · intro found' hok
                cases hok
                rw [hfound found hanswer, getElem?_flatten_of_before hfile hfront hin]
              · intro e he
                cases he

/-- The count of all of the files, where none fails, is how many records they hold. -/
theorem total_spec (h : Sound contents files) (hne : contents ≠ []) :
    Sound contents files.total.2 ∧
      (∀ total, files.total.1 = .ok total → total = contents.flatten.length) ∧
      ∀ e, files.total.1 = .error e → e.OfReader := by
  have hpos := List.length_pos_iff.mpr hne
  have hspec := countedUpto_spec h (Nat.sub_one_lt_of_lt hpos)
  rw [Nat.sub_one_add_one (Nat.ne_of_gt hpos), before_length] at hspec
  rw [total, h.last hne]
  exact hspec

end OpenFiles

/-! ### Runs of calls -/

/-- What is asked of the open files. -/
inductive FilesCall where
  | record (index : Nat)
  | total

inductive FilesAnswer where
  | record (found : Except PluginError (Option Bytes))
  | total (total : Except PluginError Nat)

namespace OpenFiles

variable {P R : Type} [ReadRecords R]

def perform (files : OpenFiles P R) : FilesCall → FilesAnswer × OpenFiles P R
  | .record index => (.record (files.record index).1, (files.record index).2)
  | .total => (.total files.total.1, files.total.2)

/-- The answers of a sequence of calls, and the files after it. -/
def performs : OpenFiles P R → List FilesCall → List FilesAnswer × OpenFiles P R
  | files, [] => ([], files)
  | files, call :: calls =>
      let rest := (files.perform call).2.performs calls
      ((files.perform call).1 :: rest.1, rest.2)

end OpenFiles

/-- The answer is that of the concatenation, or what a reader failed with. -/
def FilesCall.Right (contents : List (List Bytes)) : FilesCall → FilesAnswer → Prop
  | .record index, .record (.ok found) => found = contents.flatten[index]?
  | .record _, .record (.error e) => e.OfReader
  | .total, .total (.ok count) => count = (contents.map List.length).sum
  | .total, .total (.error e) => e.OfReader
  | _, _ => False

namespace OpenFiles

variable {P R : Type} [ReadRecords R] [LawfulRecords R] {contents : List (List Bytes)}
  {files : OpenFiles P R}

theorem perform_spec (h : Sound contents files) (hne : contents ≠ []) (call : FilesCall) :
    Sound contents (files.perform call).2 ∧ call.Right contents (files.perform call).1 := by
  cases call with
  | record index =>
      obtain ⟨hsound, hok, herr⟩ := record_spec h hne index
      refine ⟨hsound, ?_⟩
      cases hanswer : (files.record index).1 with
      | error e =>
          simp only [perform, hanswer]
          exact herr e hanswer
      | ok found =>
          simp only [perform, hanswer]
          exact hok found hanswer
  | total =>
      obtain ⟨hsound, hok, herr⟩ := total_spec h hne
      refine ⟨hsound, ?_⟩
      cases hanswer : files.total.1 with
      | error e =>
          simp only [perform, hanswer]
          exact herr e hanswer
      | ok count =>
          simp only [perform, hanswer]
          exact (hok count hanswer).trans List.length_flatten

theorem performs_spec (h : Sound contents files) (hne : contents ≠ []) (calls : List FilesCall) :
    Sound contents (files.performs calls).2 ∧
      List.Forall₂ (FilesCall.Right contents) calls (files.performs calls).1 := by
  induction calls generalizing files with
  | nil => exact ⟨h, .nil⟩
  | cons call calls ih =>
      obtain ⟨hsound, hright⟩ := perform_spec h hne call
      obtain ⟨hafter, hrest⟩ := ih hsound
      exact ⟨hafter, .cons hright hrest⟩

end OpenFiles

/-! ### The stream -/

/-- The iterator yields `records` and then nothing. -/
def RecordIter.Yields (it : RecordIter) (records : List Bytes) : Prop :=
  ∀ sides, it.run sides = (popSides sides records).map (Option.map .ok)

theorem RecordIter.Yields.next {it : RecordIter} {records : List Bytes} (h : it.Yields records) :
    it.next.1 = records.head?.map .ok ∧ it.next.2.Yields records.tail := by
  constructor
  · have hone := h [.front]
    exact (List.cons.inj hone).1
  · intro sides
    have hmore := h (.front :: sides)
    exact (List.cons.inj hmore).2

/-- Some iterators yield what each of them does, one after the other. -/
theorem streamRecords_eq {its : List RecordIter} {contents : List (List Bytes)}
    (h : List.Forall₂ RecordIter.Yields its contents) {fuel : Nat}
    (hfuel : contents.flatten.length + contents.length ≤ fuel) :
    streamRecords fuel its = contents.flatten.map .ok := by
  induction fuel generalizing its contents with
  | zero =>
      have hnil : contents = [] := List.length_eq_zero_iff.mp (by omega)
      rw [hnil]
      rfl
  | succ fuel ih =>
      cases h with
      | nil => rfl
      | @cons it records its contents hit hits =>
          obtain ⟨hhead, htail⟩ := hit.next
          rw [List.flatten_cons, List.length_append, List.length_cons] at hfuel
          rw [streamRecords]
          cases hnext : it.next with
          | mk found it' =>
              rw [hnext] at hhead htail
              cases records with
              | nil =>
                  obtain rfl : found = none := hhead
                  rw [List.length_nil] at hfuel
                  have hrest : streamRecords fuel its = contents.flatten.map .ok :=
                    ih hits (by omega)
                  exact hrest
              | cons record records =>
                  obtain rfl : found = some (.ok record) := hhead
                  rw [List.length_cons] at hfuel
                  have hrest := ih (.cons htail hits) (by
                    rw [List.flatten_cons, List.length_append, List.length_cons, List.tail_cons]
                    omega)
                  simp only [hrest]
                  rfl

/-! ### Readers of uniform files -/

/-- A reader that answers every call as a fresh reader does, or fails: `fails` says which calls do,
and with what. -/
structure FreshOrFailing where
  fresh : RecordReader
  fails : Nat → Option Error
  tick : Nat := 0

namespace FreshOrFailing

instance : ReadRecords FreshOrFailing where
  record reader i :=
    (match reader.fails reader.tick with
      | some e => .error e
      | none => (reader.fresh.record i).1, { reader with tick := reader.tick + 1 })
  totalRecords reader :=
    (match reader.fails reader.tick with
      | some e => .error e
      | none => reader.fresh.totalRecords.1, { reader with tick := reader.tick + 1 })

instance : LawfulRecords FreshOrFailing where
  Holds records reader :=
    (∀ i, (reader.fresh.record i).1 = .ok records[i]?) ∧
      reader.fresh.totalRecords.1 = .ok records.length
  record {records reader} i h := by
    refine ⟨h, ?_⟩
    intro found hfound
    simp only [ReadRecords.record] at hfound
    cases hfails : reader.fails reader.tick with
    | some e =>
        rw [hfails] at hfound
        cases hfound
    | none =>
        rw [hfails] at hfound
        simp only [h.1 i] at hfound
        exact (Except.ok.inj hfound).symm
  totalRecords {records reader} h := by
    refine ⟨h, ?_⟩
    intro total htotal
    simp only [ReadRecords.totalRecords] at htotal
    cases hfails : reader.fails reader.tick with
    | some e =>
        rw [hfails] at htotal
        cases htotal
    | none =>
        rw [hfails] at htotal
        simp only [h.2] at htotal
        exact (Except.ok.inj htotal).symm

/-- The reader answers as a fresh reader of a uniform file. -/
def On (boundary : Boundary) (file : SeekableFile) (reader : FreshOrFailing) : Prop :=
  (∃ n, UniformFile boundary n file) ∧
    ∃ label, RecordReader.fromReader file label boundary = .ok reader.fresh

variable {boundary : Boundary} {file : SeekableFile} {reader : FreshOrFailing}

theorem On.holds (h : On boundary file reader) :
    LawfulRecords.Holds (recordsOf boundary file) reader := by
  obtain ⟨⟨n, hfile⟩, label, hopen⟩ := h
  obtain ⟨hrecord, -, htotal⟩ := fresh_answers hfile hopen
  exact ⟨hrecord, htotal⟩

/-- A uniform file has a record. -/
theorem length_recordsOf_pos {n : Nat} (h : UniformFile boundary n file) :
    0 < (recordsOf boundary file).length := by
  obtain ⟨hne, -, htail⟩ :=
    h.uniform.last _ (List.getLast?_eq_getLast_of_ne_nil h.uniform.ne_nil)
  apply Nat.lt_of_lt_of_eq _ (itemsOf_length h.uniform).symm
  apply Nat.lt_of_lt_of_le _ (Nat.le_add_left _ _)
  generalize file.contents.getLast h.uniform.ne_nil = last at hne htail
  rw [List.length_pos_iff]
  by_cases hrest : boundary.find.rest last = []
  · rw [Finder.items_of_rest hrest]
    intro hnone
    have hall := boundary.find.flatten_records_append_rest last
    rw [hnone, hrest] at hall
    exact hne hall.symm
  · rw [Finder.items_of_tail (htail.resolve_right hrest) hrest]
    exact List.append_ne_nil_of_right_ne_nil _ (List.cons_ne_nil _ _)

/-- The iterator of a fresh reader yields the records of the file. -/
theorem On.yields (h : On boundary file reader) :
    (reader.fresh.intoRecordsFrom 0).Yields (recordsOf boundary file) := by
  obtain ⟨⟨n, hfile⟩, label, hopen⟩ := h
  intro sides
  exact (into_records_pops_both_ends hfile hopen (length_recordsOf_pos hfile) sides).1

end FreshOrFailing

/-- However its calls are ordered and whichever of them fail, a handle of several files answers as
the concatenation of their records, which is also what the stream of all of them yields; what it
cached are the counts of the first so many files. -/
theorem open_files_concatenate {P : Type} {boundary : Boundary} {sources : List SeekableFile}
    (hne : sources ≠ []) {readers : List FreshOrFailing}
    (hopen : List.Forall₂ (FreshOrFailing.On boundary) sources readers) (paths : List P)
    (finder : FinderSpec) (calls : List FilesCall) :
    List.Forall₂ (FilesCall.Right (sources.map (recordsOf boundary))) calls
        (({ readers := readers, paths := paths, finder := finder } : OpenFiles P
          FreshOrFailing).performs calls).1 ∧
      (∃ k ≤ sources.length,
        (({ readers := readers, paths := paths, finder := finder } : OpenFiles P
          FreshOrFailing).performs calls).2.counted =
            sums (sources.map (recordsOf boundary)) k) ∧
      ∀ fuel, (sources.map (recordsOf boundary)).flatten.length + sources.length ≤ fuel →
        streamRecords fuel (readers.map fun reader => reader.fresh.intoRecordsFrom 0) =
          (sources.map (recordsOf boundary)).flatten.map .ok := by
  have hsound : OpenFiles.Sound (sources.map (recordsOf boundary))
      ({ readers := readers, paths := paths, finder := finder } : OpenFiles P FreshOrFailing) := by
    constructor
    · rw [List.length_map]
      exact hopen.length_eq.symm
    · intro i hi reader hreader
      obtain ⟨hlt, rfl⟩ := List.getElem?_eq_some_iff.mp hreader
      have hon := List.forall₂_iff_get.mp hopen |>.2 i (by rwa [List.length_map] at hi) hlt
      rw [List.getElem_map]
      exact hon.holds
    · exact Nat.zero_le _
    · rfl
  have hcontents : sources.map (recordsOf boundary) ≠ [] := by
    rwa [Ne, List.map_eq_nil_iff]
  obtain ⟨hafter, hright⟩ := OpenFiles.performs_spec hsound hcontents calls
  refine ⟨hright, ⟨_, ?_, hafter.counted⟩, ?_⟩
  · have hle := hafter.counted_le
    rwa [List.length_map] at hle
  · intro fuel hfuel
    apply streamRecords_eq
    · rw [List.forall₂_map_left_iff, List.forall₂_map_right_iff]
      exact (hopen.imp fun _ _ hon => hon.yields).flip
    · rw [List.length_map]
      exact hfuel

/-- The file of letters twice, the first of its readers failing its first call. -/
theorem open_files_concatenate_letters :
    ∃ fresh, RecordReader.fromReader lettersFile "letters" lineBoundary = .ok fresh ∧
      List.Forall₂
        (FilesCall.Right ([lettersFile, lettersFile].map (recordsOf lineBoundary)))
        [.record 7, .record 7, .total, .record 12]
        (({ readers := [⟨fresh, fun tick => if tick = 0 then some .fuel else none, 0⟩,
              ⟨fresh, fun _ => none, 0⟩],
            paths := [0, 1], finder := ⟨"sep", some "\n"⟩ } : OpenFiles Nat
          FreshOrFailing).performs [.record 7, .record 7, .total, .record 12]).1 := by
  obtain ⟨fresh, hopen, -⟩ := RecordReader.fromReader_isOk lettersFile "letters" lineBoundary
    (by decide) (by decide)
  have hon : ∀ fails, FreshOrFailing.On lineBoundary lettersFile ⟨fresh, fails, 0⟩ :=
    fun _ => ⟨⟨2, lettersFile_uniform⟩, "letters", hopen⟩
  exact ⟨fresh, hopen, (open_files_concatenate (by decide)
    (.cons (hon _) (.cons (hon _) .nil)) _ _ _).1⟩

end SeekZstdSep
