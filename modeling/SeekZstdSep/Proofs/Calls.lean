/-
Module: SeekZstdSep.Proofs.Calls
Purpose: The calls of a reader as data, and what each answers: a function of the frames, the
  boundary and the arguments, as long as a lookup that goes on from the last one can reach its
  record.
Trusted boundary: none
Main exports: Call, Answer, RecordReader.perform, answerOf, RecordReader.perform_spec
-/
import SeekZstdSep.Proofs.Suffix

namespace SeekZstdSep

open Lib

/-! ### Calls and their answers -/

/-- A call of a reader that leaves the reader to its caller. An iterator is called a number of
times. -/
inductive Call : Type 1 where
  | record (index : Nat)
  | records (fromIdx cnt : Nat)
  | recordsTo (fromIdx cnt : Nat) (dst : Sink)
  | foldRecords (β : Type) (fromIdx cnt : Nat) (init : β) (f : β → Bytes → Except Error β)
  | totalRecords
  | recordsFrom (fromIdx steps : Nat)

/-- What a call answers, the bytes a sink has taken among it. -/
inductive Answer : Type 1 where
  | record (answer : Except Error (Option Bytes))
  | bytes (answer : Except Error Bytes)
  | written (answer : Except Error Unit) (written : Bytes)
  | folded (β : Type) (answer : Except Error β)
  | count (answer : Except Error Nat)
  | yielded (answers : List (Option (Except Error Bytes)))

/-- The first answers of an iterator, and the iterator after them. -/
def BorrowedRecordIter.steps : Nat → BorrowedRecordIter →
    List (Option (Except Error Bytes)) × BorrowedRecordIter
  | 0, it => ([], it)
  | count + 1, it =>
      let rest := steps count it.next.2
      (it.next.1 :: rest.1, rest.2)

/-- Makes a call. A verifying reader has a `record` of its own. -/
def RecordReader.perform (r : RecordReader) : Call → Answer × RecordReader
  | .record index =>
      let answer := if r.judge.isSome then r.recordAsRead index else r.record index
      (.record answer.1, answer.2)
  | .records fromIdx cnt => (.bytes (r.records fromIdx cnt).1, (r.records fromIdx cnt).2)
  | .recordsTo fromIdx cnt dst =>
      let answer := r.recordsTo fromIdx cnt dst
      (.written answer.1 answer.2.2.written, answer.2.1)
  | .foldRecords β fromIdx cnt init f =>
      let answer := r.foldRecords fromIdx cnt init f
      (.folded β answer.1, answer.2)
  | .totalRecords => (.count r.totalRecords.1, r.totalRecords.2)
  | .recordsFrom fromIdx steps =>
      let answer := (r.recordsFrom fromIdx).steps steps
      (.yielded answer.1, answer.2.reader)

/-! ### What they come to -/

/-- The first heads of a list that may end with an error. -/
def popFeeds : Nat → List Bytes → Option Error → List (Option (Except Error Bytes))
  | 0, _, _ => []
  | steps + 1, us, fin =>
      (popFeed us fin).1 :: popFeeds steps (popFeed us fin).2.1 (popFeed us fin).2.2

/-- What a reader of uniform frames answers. -/
def answerOf (boundary : Boundary) (n : Nat) (frames : List Bytes) (label : String) :
    Call → Answer
  | .record index => .record (.ok (itemsOf boundary frames)[index]?)
  | .records fromIdx cnt =>
      .bytes (gatherRange (readFeed boundary n frames label fromIdx cnt) cnt)
  | .recordsTo fromIdx cnt dst =>
      let answer := writeRange (readFeed boundary n frames label fromIdx cnt) cnt dst
      .written answer.1 answer.2.written
  | .foldRecords β fromIdx cnt init f =>
      .folded β (foldRange (rangeFeed boundary n frames label fromIdx cnt) cnt init f)
  | .totalRecords => .count (.ok (itemsOf boundary frames).length)
  | .recordsFrom fromIdx steps =>
      let feed := forwardFeed boundary n frames label fromIdx
      .yielded (popFeeds steps feed.1 feed.2)

variable {frames : List Bytes}

theorem BorrowedRecordIter.steps_spec :
    ∀ count (it : BorrowedRecordIter) us fin, it.reader.Serves frames → it.Yields frames us fin →
      ∃ it', it.steps count = (popFeeds count us fin, it') ∧
        RecordReader.Kept it.reader it'.reader ∧ Moved frames it it' := by
  intro count
  induction count with
  | zero =>
      intro it us fin _ _
      exact ⟨it, rfl, RecordReader.Kept.refl _, Moved.refl _ _⟩
  | succ count ih =>
      intro it us fin h hy
      obtain ⟨it', hnext, hkept, hmoved, hy'⟩ := next_spec h hy
      obtain ⟨it'', hsteps, hkept', hmoved'⟩ := ih it' _ _ (h.kept hkept) hy'
      refine ⟨it'', ?_, hkept.trans hkept', hmoved.trans ?_ hmoved'⟩
      · rw [steps, popFeeds, hnext]
        simp only [hsteps]
      · rw [hkept.eq]

namespace RecordReader

variable {r : RecordReader}

/-- A lookup of the record can go on from the last one, where it is in the same frame. -/
def CanReach (frames : List Bytes) (r : RecordReader) (index : Nat) : Prop :=
  index / r.sepCnt < frames.length → r.lookup.frame = some (index / r.sepCnt) →
    Lookup.Reaches r.boundary.find frames (index / r.sepCnt)
      (index - index / r.sepCnt * r.sepCnt) r.lookup.window

/-- Where a call leaves the reader: as it was, at no frame, in the frame of a lookup, or behind
the last frame with the frame of the last lookup unchanged. -/
def Landed (frames : List Bytes) (r r' : RecordReader) : Prop :=
  r'.lookup.frame = none ∨
    (∃ k, r'.lookup.frame = some k ∧
      Lookup.Stands r.boundary.find frames k r'.lookup.window) ∨
    (r'.lookup.frame = r.lookup.frame ∧
      (r'.lookup.window = r.lookup.window ∨
        Lookup.Stands r.boundary.find frames (frames.length - 1) r'.lookup.window))

theorem Landed.of_none {r' : RecordReader} (h : r'.lookup.frame = none ∨ r' = r) :
    Landed frames r r' := by
  rcases h with hnone | rfl
  · exact Or.inl hnone
  · exact Or.inr (Or.inr ⟨rfl, Or.inl rfl⟩)

theorem Landed.of_lookedUp {r' : RecordReader} (h : LookedUp frames r r') : Landed frames r r' := by
  rcases h with rfl | hnone | hstands
  · exact Landed.of_none (Or.inr rfl)
  · exact Or.inl hnone
  · exact Or.inr (Or.inl hstands)

/-- What a call answers that is not a lookup of a verifying reader. -/
theorem perform_spec (h : r.Serves frames) (call : Call)
    (hcall : ∀ index, call = .record index → r.judge = none ∧ CanReach frames r index) :
    ∃ r', Kept r r' ∧ Landed frames r r' ∧
      r.perform call = (answerOf r.boundary r.sepCnt frames r.label call, r') := by
  cases call with
  | record index =>
      obtain ⟨hjudge, hreach⟩ := hcall index rfl
      obtain ⟨r', hkept, hlooked, hrecord⟩ := record_spec h index hreach
      refine ⟨r', hkept, Landed.of_lookedUp hlooked, ?_⟩
      rw [perform, hjudge]
      simp only [Option.isSome_none, Bool.false_eq_true, if_false, hrecord]
      rfl
  | records fromIdx cnt =>
      obtain ⟨r', hkept, hframe, hrecords⟩ := records_spec h fromIdx cnt
      refine ⟨r', hkept, Landed.of_none hframe, ?_⟩
      rw [perform, hrecords]
      rfl
  | recordsTo fromIdx cnt dst =>
      obtain ⟨r', hkept, hframe, hto⟩ := recordsTo_spec h fromIdx cnt dst
      refine ⟨r', hkept, Landed.of_none hframe, ?_⟩
      rw [perform, hto]
      rfl
  | foldRecords β fromIdx cnt init f =>
      obtain ⟨r', hkept, hframe, hfold⟩ := foldRecords_spec h fromIdx cnt init f
      refine ⟨r', hkept, Landed.of_none hframe, ?_⟩
      rw [perform, hfold]
      rfl
  | totalRecords =>
      obtain ⟨r', hkept, hframe, htotal⟩ := totalRecords_spec h
      refine ⟨r', hkept, Or.inl hframe, ?_⟩
      rw [perform, htotal]
      rfl
  | recordsFrom fromIdx steps =>
      obtain ⟨it', hsteps, hkept, hmoved⟩ := BorrowedRecordIter.steps_spec steps
        (r.recordsFrom fromIdx) _ _ h (Or.inr ⟨rfl, Or.inl ⟨rfl, rfl⟩⟩)
      refine ⟨it'.reader, hkept, ?_, ?_⟩
      · rcases hmoved with hnone | hsame
        · exact Or.inl hnone
        · exact Or.inr (Or.inr hsame)
      · rw [perform, hsteps]
        rfl

end RecordReader

end SeekZstdSep
