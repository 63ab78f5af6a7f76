/-
Module: SeekZstdSep.Proofs.Answers
Purpose: What a reader nobody has read from answers over a uniform file: its records by index, by
  range and from both ends, the same whichever form of a range read is used. One form takes a
  range for empty that the others refuse.
Trusted boundary: none
Main exports: UniformFile, recordsOf, fresh_answers, into_records_pops_both_ends, rangeForms,
  rangeForms_agree_iff
-/
import SeekZstdSep.Proofs.Open
import SeekZstdSep.Proofs.Deque

namespace SeekZstdSep

open Lib

variable {boundary : Boundary} {n : Nat} {file : SeekableFile} {label : String} {r : RecordReader}

/-- A file with `n` records to each frame, the last one excepted, in which the place of a record
can be computed. -/
structure UniformFile (boundary : Boundary) (n : Nat) (file : SeekableFile) : Prop where
  uniform : Uniform boundary.find boundary.tailIsRecord n file.contents
  small : n * file.contents.length * file.contents.length < 2 ^ 64

namespace UniformFile

theorem le_usizeMax (h : UniformFile boundary n file) :
    n * file.contents.length * file.contents.length ≤ usizeMax :=
  Nat.le_sub_one_of_lt h.small

end UniformFile

/-- The records of a file, an unfinished last one among them where it counts. -/
def recordsOf (boundary : Boundary) (file : SeekableFile) : List Bytes :=
  itemsOf boundary file.contents

/-- A frame whose contents compress to one byte. -/
def frameOf (content : Bytes) (content_le : content.length ≤ u32Max := by decide) : Frame where
  comp := 1
  content := content
  comp_pos := Nat.one_pos
  comp_le := by decide
  content_le := content_le

/-- Two full frames of two records each: `a`, `b`; `c`, `d`. -/
def letterFrames : List Frame := [frameOf [97, 10, 98, 10], frameOf [99, 10, 100, 10]]

/-- Two records to each frame, and an unfinished one at the end: `a`, `b`; `c`, `d`; `e`. -/
def lettersFile : SeekableFile where
  frames := letterFrames ++ [frameOf [101]]
  reads := fun tick => tick
  count_le := by decide

theorem lettersFile_uniform : UniformFile lineBoundary 2 lettersFile :=
  ⟨by decide, by decide⟩

/-! ### Indices, ranges and the count -/

/-- A fresh reader answers each index with the record there, each range that begins in the file
with its records, and how many there are. -/
theorem fresh_answers (h : UniformFile boundary n file)
    (hopen : RecordReader.fromReader file label boundary = .ok r) :
    (∀ i, (r.record i).1 = .ok (recordsOf boundary file)[i]?) ∧
      (∀ fromIdx cnt, fromIdx < (recordsOf boundary file).length → 1 ≤ cnt →
        (r.records fromIdx cnt).1 =
          .ok (((recordsOf boundary file).drop fromIdx).take cnt).flatten) ∧
      r.totalRecords.1 = .ok (recordsOf boundary file).length := by
  have hopened := RecordReader.opened_of_fromReader hopen
  have hserves := hopened.serves h.uniform
  have hboundary := hopened.boundary_eq
  refine ⟨?_, ?_, ?_⟩
  · intro i
    obtain ⟨r', -, -, hrecord⟩ := RecordReader.record_spec hserves i fun _ hframe => by
      simp [hopened.frame] at hframe
    rw [hrecord, hboundary]
    rfl
  · intro fromIdx cnt hfrom _
    obtain ⟨r', -, -, hrecords⟩ := RecordReader.records_spec hserves fromIdx cnt
    have hgather := gatherRange_readFeed (hopened.uniform h.uniform).1
      (hopened.small h.uniform h.le_usizeMax) r.label fromIdx cnt
    rw [rangeRefusal_none hfrom] at hgather
    rw [hrecords, hboundary, hgather]
    rfl
  · obtain ⟨r', -, -, htotal⟩ := RecordReader.totalRecords_spec hserves
    rw [htotal, hboundary]
    rfl

theorem fresh_answers_lettersFile :
    ∃ r, RecordReader.fromReader lettersFile "letters" lineBoundary = .ok r ∧
      (∀ i, (r.record i).1 = .ok (recordsOf lineBoundary lettersFile)[i]?) ∧
      (∀ fromIdx cnt, fromIdx < (recordsOf lineBoundary lettersFile).length → 1 ≤ cnt →
        (r.records fromIdx cnt).1 =
          .ok (((recordsOf lineBoundary lettersFile).drop fromIdx).take cnt).flatten) ∧
      r.totalRecords.1 = .ok (recordsOf lineBoundary lettersFile).length := by
  obtain ⟨r, hopen, -⟩ := RecordReader.fromReader_isOk lettersFile "letters" lineBoundary
    (by decide) (by decide)
  exact ⟨r, hopen, fresh_answers lettersFile_uniform hopen⟩

/-! ### Both ends -/

/-- What the calls of a schedule handed out at one of the ends, in order. -/
def handedOut (which : Side) : List Side → List (Option (Except Error Bytes)) → List Bytes
  | side :: sides, answer :: answers =>
      (if side = which then (answer.bind Except.toOption).toList else []) ++
        handedOut which sides answers
  | _, _ => []

theorem handedOut_popSides (which : Side) (sides : List Side) (us : List Bytes) :
    handedOut which sides ((popSides sides us).map (Option.map .ok)) = taken which sides us := by
  induction sides generalizing us with
  | nil => rfl
  | cons side sides ih =>
      rw [popSides, List.map_cons, handedOut, taken, ih]
      cases (popSide side us).1 <;> rfl

theorem popSides_append (sides more : List Side) (us : List Bytes) :
    popSides (sides ++ more) us = popSides sides us ++ popSides more (left sides us) := by
  induction sides generalizing us with
  | nil => rfl
  | cons side sides ih => rw [List.cons_append, popSides, popSides, ih, left, List.cons_append]

/-- The iterator a fresh reader turns into is a double-ended queue of the records from where it
starts: each call pops one end, what went out at the two ends and what is left are those records in
order, and once nothing is left nothing comes out. -/
theorem into_records_pops_both_ends (h : UniformFile boundary n file)
    (hopen : RecordReader.fromReader file label boundary = .ok r) {fromIdx : Nat}
    (hfrom : fromIdx < (recordsOf boundary file).length) (sides : List Side) :
    (r.intoRecordsFrom fromIdx).run sides =
        (popSides sides ((recordsOf boundary file).drop fromIdx)).map (Option.map .ok) ∧
      handedOut .front sides ((r.intoRecordsFrom fromIdx).run sides) ++
          left sides ((recordsOf boundary file).drop fromIdx) ++
          (handedOut .back sides ((r.intoRecordsFrom fromIdx).run sides)).reverse =
        (recordsOf boundary file).drop fromIdx ∧
      (left sides ((recordsOf boundary file).drop fromIdx) = [] →
        ∀ more, (r.intoRecordsFrom fromIdx).run (sides ++ more) =
          (r.intoRecordsFrom fromIdx).run sides ++ List.replicate more.length none) := by
  have hopened := RecordReader.opened_of_fromReader hopen
  have hrun : ∀ sides, (r.intoRecordsFrom fromIdx).run sides =
      (popSides sides ((recordsOf boundary file).drop fromIdx)).map (Option.map .ok) := by
    intro sides
    rw [RecordReader.run_intoRecordsFrom (hopened.serves h.uniform)
      (hopened.small h.uniform h.le_usizeMax) (fun hframe => by simp [hopened.frame] at hframe),
      hopened.boundary_eq, dequeFrom_of_lt hfrom]
    exact Deque.run_of_records sides _
  refine ⟨hrun sides, ?_, ?_⟩
  · rw [hrun, handedOut_popSides, handedOut_popSides, taken_append_left]
  · intro hleft more
    rw [hrun, hrun, popSides_append, hleft, popSides_of_nil, List.map_append, List.map_replicate]
    rfl

theorem into_records_pops_both_ends_lettersFile :
    ∃ r, RecordReader.fromReader lettersFile "letters" lineBoundary = .ok r ∧
      (r.intoRecordsFrom 1).run [.front, .back, .back, .front, .front] =
        (popSides [.front, .back, .back, .front, .front]
          ((recordsOf lineBoundary lettersFile).drop 1)).map (Option.map .ok) := by
  obtain ⟨r, hopen, -⟩ := RecordReader.fromReader_isOk lettersFile "letters" lineBoundary
    (by decide) (by decide)
  exact ⟨r, hopen, (into_records_pops_both_ends lettersFile_uniform hopen (by decide) _).1⟩

/-! ### The forms of a range read -/

/-- `iter.take(cnt)`, joined: what the iterator yields up to its end or its first error. -/
def BorrowedRecordIter.gather : Nat → BorrowedRecordIter → Bytes → Except Error Bytes
  | 0, _, acc => .ok acc
  | cnt + 1, it, acc =>
      match it.next with
      | (none, _) => .ok acc
      | (some (.error e), _) => .error e
      | (some (.ok record), it) => gather cnt it (acc ++ record)

/-- The same of the owning iterator. -/
def RecordIter.gather : Nat → RecordIter → Bytes → Except Error Bytes
  | 0, _, acc => .ok acc
  | cnt + 1, it, acc =>
      match it.next with
      | (none, _) => .ok acc
      | (some (.error e), _) => .error e
      | (some (.ok record), it) => gather cnt it (acc ++ record)

/-- What each form of a read of `cnt` records from `fromIdx` comes to, each on a reader of its
own. -/
def rangeForms (r : RecordReader) (fromIdx cnt : Nat) : List (Except Error Bytes) :=
  [ (r.records fromIdx cnt).1,
    match r.recordsTo fromIdx cnt {} with
    | (.ok (), _, dst) => .ok dst.written
    | (.error e, _, _) => .error e,
    (r.foldRecords fromIdx cnt [] fun acc record => .ok (acc ++ record)).1,
    (r.recordsFrom fromIdx).gather cnt [],
    (r.intoRecordsFrom fromIdx).gather cnt [] ]

/-- All fail, or all come to the same bytes. -/
def Agree (answers : List (Except Error Bytes)) : Prop :=
  (∀ answer ∈ answers, ∃ e, answer = .error e) ∨ ∃ bytes, ∀ answer ∈ answers, answer = .ok bytes

/-- What gathering a list that may end with an error comes to. -/
def gatherFeed (us : List Bytes) (fin : Option Error) (cnt : Nat) (acc : Bytes) :
    Except Error Bytes :=
  match fin with
  | some e => if us.length < cnt then .error e else .ok (acc ++ (us.take cnt).flatten)
  | none => .ok (acc ++ (us.take cnt).flatten)

theorem gatherFeed_cons (u : Bytes) (us : List Bytes) (fin : Option Error) (cnt : Nat)
    (acc : Bytes) :
    gatherFeed (u :: us) fin (cnt + 1) acc = gatherFeed us fin cnt (acc ++ u) := by
  cases fin <;> simp [gatherFeed]

theorem BorrowedRecordIter.gather_spec {frames : List Bytes} :
    ∀ cnt (it : BorrowedRecordIter) us fin acc, it.reader.Serves frames → it.Yields frames us fin →
      it.gather cnt acc = gatherFeed us fin cnt acc := by
  intro cnt
  induction cnt with
  | zero =>
      intro it us fin acc h hy
      cases fin <;> simp [gather, gatherFeed]
  | succ cnt ih =>
      intro it us fin acc h hy
      obtain ⟨it', hnext, hkept, -, hy'⟩ := next_spec h hy
      rw [gather, hnext]
      cases us with
      | nil =>
          cases fin with
          | none => simp [popFeed, gatherFeed]
          | some e => simp [popFeed, gatherFeed]
      | cons u us =>
          simp only [popFeed]
          rw [ih it' us fin (acc ++ u) (h.kept hkept) hy', gatherFeed_cons]

theorem RecordIter.gather_spec {frames : List Bytes} :
    ∀ cnt (it : RecordIter) (s : TwoEnds) (d : Deque) acc, it.Follows frames s → s.Pops d →
      (d.us ≠ [] → d.frontRefusal = none) →
        it.gather cnt acc = gatherFeed d.us d.frontRefusal cnt acc := by
  intro cnt
  induction cnt with
  | zero =>
      intro it s d acc h hpops hplain
      cases d.frontRefusal <;> simp [gather, gatherFeed]
  | succ cnt ih =>
      intro it s d acc h hpops hplain
      obtain ⟨it', hnext, hfollows⟩ := next_follows h
      obtain ⟨hanswer, hpops'⟩ := TwoEnds.next_pops hpops
      rw [gather, hnext, hanswer, Deque.popFront]
      cases hus : d.us with
      | nil =>
          cases d.frontRefusal with
          | none => simp [gatherFeed]
          | some e => simp [gatherFeed]
      | cons u us =>
          rw [Deque.popFront, hus] at hpops'
          simp only at hpops' ⊢
          rw [ih it' _ { us := us } (acc ++ u) hfollows hpops' (fun _ => rfl),
            hplain (by rw [hus]; simp), gatherFeed_cons]

theorem foldList_append (us : List Bytes) (cnt : Nat) (acc : Bytes) :
    RecordUnitCursor.foldList (fun acc record => .ok (acc ++ record)) none us (some cnt) acc =
      .ok (acc ++ (us.take cnt).flatten) := by
  induction us generalizing cnt acc with
  | nil => cases cnt <;> simp [RecordUnitCursor.foldList]
  | cons u us ih =>
      cases cnt with
      | zero => simp [RecordUnitCursor.foldList]
      | succ cnt =>
          rw [RecordUnitCursor.foldList, if_neg (by simp)]
          simp only [Option.map_some, Nat.add_sub_cancel]
          rw [ih, List.take_succ_cons, List.flatten_cons, List.append_assoc]

/-- What a range of the records `us` comes to, where it is not refused. -/
def rangeAnswer (refusal : Option Error) (us : List Bytes) (cnt : Nat) : Except Error Bytes :=
  match refusal with
  | some e => .error e
  | none => .ok (us.take cnt).flatten

theorem gatherFeed_eq_rangeAnswer {refusal : Option Error} {us : List Bytes} {cnt : Nat}
    (hcnt : 1 ≤ cnt) (hnil : refusal ≠ none → us = []) :
    gatherFeed us refusal cnt [] = rangeAnswer refusal us cnt := by
  cases refusal with
  | none => rfl
  | some e =>
      rw [hnil (by simp)]
      simp only [gatherFeed, rangeAnswer, List.length_nil]
      rw [if_pos (by omega)]

section Forms

variable {frames : List Bytes} (h : r.Serves frames)
  (small : r.sepCnt * frames.length * frames.length ≤ usizeMax) (fromIdx : Nat) {cnt : Nat}

include h small

theorem rangeForms_records :
    (r.records fromIdx cnt).1 =
      rangeAnswer (rangeRefusal r.boundary r.sepCnt frames r.label fromIdx)
        ((itemsOf r.boundary frames).drop fromIdx) cnt := by
  obtain ⟨r', -, -, hrecords⟩ := RecordReader.records_spec h fromIdx cnt
  rw [hrecords]
  exact gatherRange_readFeed h.uniform small r.label fromIdx cnt

theorem rangeForms_recordsTo :
    (match r.recordsTo fromIdx cnt {} with
      | (.ok (), _, dst) => .ok dst.written
      | (.error e, _, _) => .error e) =
      rangeAnswer (rangeRefusal r.boundary r.sepCnt frames r.label fromIdx)
        ((itemsOf r.boundary frames).drop fromIdx) cnt := by
  rw [← rangeForms_records h small fromIdx, RecordReader.records]
  rcases r.recordsTo fromIdx cnt {} with ⟨answer, r', dst⟩
  cases answer <;> rfl

theorem rangeForms_foldRecords :
    (r.foldRecords fromIdx cnt [] fun acc record => .ok (acc ++ record)).1 =
      rangeAnswer (foldRefusal r.boundary r.sepCnt frames r.label fromIdx)
        ((itemsOf r.boundary frames).drop fromIdx) cnt := by
  obtain ⟨r', -, -, hfold⟩ := RecordReader.foldRecords_spec h fromIdx cnt []
    fun acc record => .ok (acc ++ record)
  rw [hfold]
  rcases rangeFeed_spec h.uniform small r.label fromIdx cnt with ⟨e, hrefusal, hfeed⟩ |
    ⟨hrefusal, us, hfeed, htake, -⟩
  · rw [hfeed, hrefusal]
    rfl
  · rw [hfeed, hrefusal]
    simp only [foldRange, foldList_append, htake, rangeAnswer, List.nil_append]

theorem rangeForms_recordsFrom (hcnt : 1 ≤ cnt) :
    (r.recordsFrom fromIdx).gather cnt [] =
      rangeAnswer (rangeRefusal r.boundary r.sepCnt frames r.label fromIdx)
        ((itemsOf r.boundary frames).drop fromIdx) cnt := by
  have hforward := forwardFeed_eq h.uniform small r.label fromIdx
  rw [BorrowedRecordIter.gather_spec cnt (r.recordsFrom fromIdx) _ _ [] h
    (Or.inr ⟨rfl, Or.inl ⟨rfl, hforward⟩⟩)]
  apply gatherFeed_eq_rangeAnswer hcnt
  intro hne
  obtain ⟨e, he⟩ := Option.ne_none_iff_exists'.mp hne
  exact List.drop_eq_nil_of_le (rangeRefusal_past he)

theorem rangeForms_intoRecordsFrom (hcnt : 1 ≤ cnt) (hframe : r.lookup.frame = none) :
    (r.intoRecordsFrom fromIdx).gather cnt [] =
      rangeAnswer (rangeRefusal r.boundary r.sepCnt frames r.label fromIdx)
        ((itemsOf r.boundary frames).drop fromIdx) cnt := by
  have hnil : rangeRefusal r.boundary r.sepCnt frames r.label fromIdx ≠ none →
      (itemsOf r.boundary frames).drop fromIdx = [] := by
    intro hne
    obtain ⟨e, he⟩ := Option.ne_none_iff_exists'.mp hne
    exact List.drop_eq_nil_of_le (rangeRefusal_past he)
  rw [RecordIter.gather_spec cnt _ _ _ [] (RecordReader.intoRecordsFrom_follows h
    (fun hsome => by simp [hframe] at hsome) fromIdx)
    (twoEndsFrom_pops h.uniform small r.label fromIdx)]
  · exact gatherFeed_eq_rangeAnswer hcnt hnil
  · intro hne
    by_contra hsome
    exact hne (hnil hsome)

end Forms

/-- The last frame holds as many records as a frame can, and nothing after them. -/
def LastFull (boundary : Boundary) (perFrame : Nat) (file : SeekableFile) : Prop :=
  (boundary.find.records (file.contents.getLastD [])).length = perFrame ∧
    boundary.find.rest (file.contents.getLastD []) = []

instance (perFrame : Nat) : Decidable (LastFull boundary perFrame file) :=
  inferInstanceAs (Decidable (_ ∧ _))

/-- The two tests for the end of the file differ right behind a full last frame, and nowhere
else. -/
theorem refusals_agree_iff (huniform : Uniform boundary.find boundary.tailIsRecord n file.contents)
    (fromIdx : Nat) :
    ((rangeRefusal boundary n file.contents label fromIdx = none) ↔
        foldRefusal boundary n file.contents label fromIdx = none) ↔
      ¬ (fromIdx = n * file.contents.length ∧ LastFull boundary n file) := by
  have hlast : file.contents.getLastD [] = file.contents.getLast huniform.ne_nil := by
    rw [List.getLastD_eq_getLast?, List.getLast?_eq_getLast_of_ne_nil huniform.ne_nil]
    rfl
  have hcount := huniform.flatten_eq.1
  have hrest := huniform.flatten_eq.2
  have hmore := mul_length_lt_items_iff huniform
  have hitems := records_le_items boundary file.contents
  have hpos := huniform.length_pos
  have hmul : n * file.contents.length = n * (file.contents.length - 1) + n := by
    rw [← Nat.mul_succ]
    congr 1
    omega
  have htail := (huniform.last _ (List.getLast?_eq_getLast_of_ne_nil huniform.ne_nil)).2.2
  have hwide := items_le_mul_length huniform
  rw [LastFull, hlast, rangeRefusal, foldRefusal]
  rcases Nat.lt_trichotomy fromIdx (n * file.contents.length) with hlt | heq | hgt
  · rw [if_neg (show ¬ (n * file.contents.length ≤ fromIdx ∧ _) by omega),
      if_neg (show ¬ n * file.contents.length < fromIdx by omega)]
    exact ⟨fun _ hand => absurd hand.1 (by omega), fun _ => Iff.rfl⟩
  · rw [if_neg (show ¬ n * file.contents.length < fromIdx by omega)]
    by_cases hend : (itemsOf boundary file.contents).length ≤ fromIdx
    · rw [if_pos ⟨by omega, hend⟩]
      have hrestNil : (boundary.find.records (file.contents.getLast huniform.ne_nil)).length = n →
          boundary.find.rest (file.contents.getLast huniform.ne_nil) = [] := by
        intro hfull
        by_contra hne
        have := hmore.mpr ⟨htail.resolve_right hne, hfull, hne⟩
        omega
      by_cases hshort : (boundary.find.records file.contents.flatten).length < fromIdx
      · rw [if_pos hshort]
        exact ⟨fun _ hand => absurd hand.2.1 (by omega), fun _ => by simp⟩
      · rw [if_neg hshort]
        have hfull : (boundary.find.records
            (file.contents.getLast huniform.ne_nil)).length = n := by omega
        simp only [reduceCtorEq, iff_true, false_iff]
        exact fun hnot => hnot ⟨heq, hfull, hrestNil hfull⟩
    · rw [if_neg (show ¬ (_ ∧ (itemsOf boundary file.contents).length ≤ fromIdx) by omega)]
      obtain ⟨-, -, hne⟩ := hmore.mp (by omega)
      exact ⟨fun _ hand => hne hand.2.2, fun _ => Iff.rfl⟩
  · rw [if_pos (by omega), if_pos hgt]
    exact ⟨fun _ hand => absurd hand.1 (by omega), fun _ => by simp⟩

/-- The forms of a range read agree on a fresh reader unless the range begins right behind a full
last frame: there the fold answers that it found nothing, and the others that there is nothing. -/
theorem rangeForms_agree_iff (h : UniformFile boundary n file)
    (hopen : RecordReader.fromReader file label boundary = .ok r) (fromIdx : Nat) {cnt : Nat}
    (hcnt : 1 ≤ cnt) :
    Agree (rangeForms r fromIdx cnt) ↔
      ¬ (fromIdx = r.sepCnt * file.contents.length ∧ LastFull boundary r.sepCnt file) := by
  have hopened := RecordReader.opened_of_fromReader hopen
  have hserves := hopened.serves h.uniform
  have hsmall := hopened.small h.uniform h.le_usizeMax
  rw [rangeForms, rangeForms_records hserves hsmall, rangeForms_recordsTo hserves hsmall,
    rangeForms_foldRecords hserves hsmall, rangeForms_recordsFrom hserves hsmall fromIdx hcnt,
    rangeForms_intoRecordsFrom hserves hsmall fromIdx hcnt hopened.frame, hopened.boundary_eq,
    ← refusals_agree_iff (hopened.uniform h.uniform).1 fromIdx]
  cases rangeRefusal boundary r.sepCnt file.contents r.label fromIdx with
  | none =>
      cases foldRefusal boundary r.sepCnt file.contents r.label fromIdx with
      | none => simp [Agree, rangeAnswer]
      | some e => simp [Agree, rangeAnswer]
  | some e =>
      cases foldRefusal boundary r.sepCnt file.contents r.label fromIdx with
      | none => simp [Agree, rangeAnswer]
      | some e' => simp [Agree, rangeAnswer]

/-- A frame of one record. -/
def lineFrame : Frame := frameOf [97, 10]

/-- A record to each frame, the last one full: `a`; `b`. -/
def linesFile : SeekableFile where
  frames := [lineFrame, frameOf [98, 10]]
  reads := fun tick => tick
  count_le := by decide

theorem linesFile_uniform : UniformFile lineBoundary 1 linesFile :=
  ⟨by decide, by decide⟩

/-- Inside the file the forms agree. -/
theorem rangeForms_agree_linesFile :
    ∃ r, RecordReader.fromReader linesFile "lines" lineBoundary = .ok r ∧
      Agree (rangeForms r 1 5) := by
  obtain ⟨r, hopen, -⟩ := RecordReader.fromReader_isOk linesFile "lines" lineBoundary
    (by decide) (by decide)
  have hopened := RecordReader.opened_of_fromReader hopen
  have hinside : 1 ≠ r.sepCnt * linesFile.contents.length := by
    rw [hopened.sepCnt_eq]
    decide
  exact ⟨r, hopen, (rangeForms_agree_iff linesFile_uniform hopen 1 (by decide)).mpr
    fun hpast => hinside hpast.1⟩

/-- Right behind its last record they do not. -/
theorem rangeForms_disagree_linesFile :
    UniformFile lineBoundary 1 linesFile ∧
      ∃ r, RecordReader.fromReader linesFile "lines" lineBoundary = .ok r ∧
        ¬ Agree (rangeForms r 2 1) := by
  have hforms : (RecordReader.fromReader linesFile "lines" lineBoundary).map
      (fun r => rangeForms r 2 1) =
      .ok [.error (.pastTheEnd 2 "lines"), .error (.pastTheEnd 2 "lines"), .ok [],
        .error (.pastTheEnd 2 "lines"), .error (.pastTheEnd 2 "lines")] := rfl
  obtain ⟨r, hopen, -⟩ := RecordReader.fromReader_isOk linesFile "lines" lineBoundary
    (by decide) (by decide)
  rw [hopen] at hforms
  have hanswers : rangeForms r 2 1 = _ := Except.ok.inj hforms
  refine ⟨linesFile_uniform, r, hopen, ?_⟩
  rw [hanswers]
  simp [Agree]

end SeekZstdSep
