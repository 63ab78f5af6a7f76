/-
Module: SeekZstdSep.Proofs.History
Purpose: What a reader answers after other calls. A lookup that goes on from the last one answers
  as on a fresh reader where the window still stands in the frame of that lookup and has the
  record before it; there are two ways in which it does not, and every run that avoids them is
  one of fresh answers.
Trusted boundary: none
Main exports: Drained, StepMeets, RecordReader.performs, answers_as_fresh
-/
import SeekZstdSep.Proofs.Verified

namespace SeekZstdSep

open Lib

variable {boundary : Boundary} {n : Nat} {frames : List Bytes} {r : RecordReader}

/-! ### A window that has nothing left -/

namespace Window

/-- The window has handed out all of its region and knows it. -/
structure Drained (w : Window) : Prop where
  eof : w.eof = true
  pos_eq : w.pos = w.buf.length

variable {find : Finder UInt8} {w : Window}

theorem Past.drained {region : Bytes} {start : Nat} (h : Past find region start w) : w.Drained :=
  ⟨h.eof, h.pos_eq⟩

namespace Drained

theorem remainder (h : w.Drained) : w.remainder = [] := by
  rw [Window.remainder, h.pos_eq, List.drop_length]

theorem nextFuel (h : w.Drained) (fuel : Nat) (records : Records) :
    Records.nextFuel find (fuel + 1) records w = (none, records, w) := by
  have hwalk : w.walk find records.left = (0, 0) := by
    rw [Window.walk, h.remainder]
    rfl
  have hgrow : w.growIfFull = w := by
    rw [Window.growIfFull, if_neg (by simp [h.eof])]
  rw [Records.nextFuel, hwalk]
  simp only [gt_iff_lt, Nat.lt_irrefl, if_false, hgrow]
  rw [Window.refill, if_pos h.eof]

theorem next (h : w.Drained) (records : Records) :
    records.next find w = (none, records, w) := by
  rw [Records.next]
  split
  · rfl
  · exact h.nextFuel _ _

/-- So a lookup that has to pass any record of it finds none. -/
theorem nextOwned (h : w.Drained) (find : Finder UInt8) {c : RecordUnitCursor}
    (hunwatched : c.watch = .unwatched) (hunspent : c.spent = false)
    (hwhole : c.skipWhole = false) :
    ∃ c', c.nextOwned find w = (.ok none, c', w) := by
  have hpassed : ∃ c', c.prepare find w = (.ok (), c', w) ∧ c'.watch = .unwatched := by
    rw [RecordUnitCursor.prepare]
    by_cases hskip : c.skip = 0
    · rw [if_pos hskip]
      exact ⟨c, rfl, hunwatched⟩
    · have hpos : 0 < c.skip := Nat.pos_of_ne_zero hskip
      unfold Records.passSkip
      simp only [if_neg hskip, Records.sumRuns, h.next, if_pos hpos, hunwatched, Watcher.spent,
        hwhole, Bool.false_eq_true, if_false]
      exact ⟨_, rfl, rfl⟩
  obtain ⟨c', hprepare, hwatch⟩ := hpassed
  have hfinal : ∀ c : RecordUnitCursor, (c.takeFinal w).1 = none ∧ (c.takeFinal w).2.2 = w := by
    intro c
    have hnone : w.finalRecord = (none, w) := by
      rw [Window.finalRecord, if_pos (by simp [h.pos_eq])]
    rw [RecordUnitCursor.takeFinal, h.remainder, hnone]
    cases c.rejectFinalFragment <;> cases c.includeFinalRecord <;> simp
  rw [RecordUnitCursor.nextOwned, RecordUnitCursor.next, RecordUnitCursor.nextRun,
    if_neg (by simp [hunspent]), hprepare]
  by_cases hspent : c'.spent = true
  · simp only [hspent, if_true]
    exact ⟨c', rfl⟩
  · simp only [hspent, h.next]
    obtain ⟨hnone, hsame⟩ := hfinal { c' with watch := c'.watch, spent := true }
    generalize RecordUnitCursor.takeFinal _ w = taken at hnone hsame ⊢
    obtain ⟨answer, c'', w'⟩ := taken
    obtain rfl : answer = none := hnone
    obtain rfl : w' = w := hsame
    exact ⟨c'', rfl⟩

end Drained

end Window

/-! ### Where a call may leave the window -/

namespace Window

/-- Where the span the window was pointed at ends. -/
def spanEnd (w : Window) : Nat := w.offset + w.buf.length + w.source.ahead.length

theorem At.spanEnd {find : Finder UInt8} {region : Bytes} {start i : Nat} {w : Window}
    (h : At find region start i w) : w.spanEnd = start + region.length := h.loaded

end Window

theorem Lookup.Stands.spanEnd {find : Finder UInt8} {k : Nat} {w : Window}
    (h : Lookup.Stands find frames k w) : w.spanEnd = startOf frames (k + 1) := by
  obtain ⟨hk, ⟨i, hat⟩ | hpast⟩ := h
  · rw [hat.spanEnd, startOf_succ hk]
  · have hend := hpast.before.spanEnd
    rw [startOf_succ hk, ← hend]
    rfl

namespace RecordReader

/-- The window stands in the frame of the last lookup, or in the last frame. -/
def Placed (frames : List Bytes) (r : RecordReader) : Prop :=
  ∀ k, r.lookup.frame = some k →
    Lookup.Stands r.boundary.find frames k r.lookup.window ∨
      Lookup.Stands r.boundary.find frames (frames.length - 1) r.lookup.window

theorem Landed.placed {r' : RecordReader} (h : Landed frames r r')
    (hboundary : r'.boundary = r.boundary) (hplaced : Placed frames r) : Placed frames r' := by
  intro k hframe
  rw [hboundary]
  rcases h with hnone | ⟨k', hframe', hstands⟩ | ⟨hframe', hsame | hstands⟩
  · simp [hnone] at hframe
  · obtain rfl : k' = k := Option.some.inj (hframe'.symm.trans hframe)
    exact Or.inl hstands
  · rw [hsame]
    exact hplaced k (hframe'.symm.trans hframe)
  · exact Or.inr hstands

/-- A lookup that points its window anew does not depend on where that was. -/
theorem walkTo_of_reseek {lookup : Lookup} {k inFrame : Nat} (region : Nat × Nat)
    (h : lookup.frame = some k → lookup.window.walkFrom inFrame = (none, lookup.window)) :
    lookup.walkTo k region inFrame = { lookup with frame := none }.walkTo k region inFrame := by
  rw [Lookup.walkTo, Lookup.walkTo]
  by_cases hframe : lookup.frame = some k
  · rw [if_pos hframe, h hframe]
    rfl
  · rw [if_neg hframe]
    rfl

theorem walkFrom_of_none {w : Window} {index : Nat} (h : (w.walkFrom index).1 = none) :
    w.walkFrom index = (none, w) := by
  unfold Window.walkFrom at h ⊢
  split at h
  · simp at h
  · rw [if_neg ‹_›]
    cases hfront : w.front with
    | none => rfl
    | some front =>
        rw [hfront] at h
        simp only at h ⊢
        split at h
        · rw [if_pos ‹_›]
        · simp at h

end RecordReader

/-! ### The condition on a step -/

/-- The record is looked up from where the last lookup left the window. -/
def GoesOn (r : RecordReader) (index : Nat) : Prop :=
  r.lookup.frame = some (index / r.sepCnt) ∧
    (r.lookup.window.walkFrom (index - index / r.sepCnt * r.sepCnt)).1 ≠ none

/-- What a call asks of the reader it is made on: a lookup that goes on from the last one finds the
window in the frame it is taken to be in, and where there is such a record, does not find every
byte of the frame handed out with the walk not past the record. -/
def StepMeets (boundary : Boundary) (file : SeekableFile) (r : RecordReader) : Call → Prop
  | .record index =>
      GoesOn r index →
        r.lookup.window.spanEnd =
            (r.frames.at (index / r.sepCnt)).1 + (r.frames.at (index / r.sepCnt)).2 ∧
          (index < (recordsOf boundary file).length →
            ¬ (r.lookup.window.remainder = [] ∧ r.lookup.window.source.ahead = [] ∧
              r.lookup.window.walked ≤ index - index / r.sepCnt * r.sepCnt))
  | _ => True

/-- What an iterator asks of the reader it is made of: it does not begin at the back with a window
that handed out the last frame and counted no record in it. -/
def IteratorMeets (r : RecordReader) (sides : List Side) : Prop :=
  sides.head? = some .back → r.lookup.frame = some (r.frames.length - 1) →
    ¬ (r.lookup.window.remainder = [] ∧ r.lookup.window.source.ahead = [] ∧
      r.lookup.window.walked = 0)

namespace RecordReader

variable {file : SeekableFile}

theorem Past_blank {find : Finder UInt8} {region : Bytes} {start : Nat} {w : Window}
    (h : Window.Past find region start w) :
    w.remainder = [] ∧ w.source.ahead = [] ∧ w.walked = (find.records region).length :=
  ⟨h.drained.remainder, h.before.eof h.eof, h.before.walked⟩

theorem recordFrame_of_lt (h : r.Serves frames) {index : Nat}
    (hk : index / r.sepCnt < frames.length) :
    r.recordFrame index = (.ok (some (index / r.sepCnt)), r) := by
  have hlength : r.frames.length = frames.length := h.spans_length
  unfold recordFrame
  simp only [hlength]
  rw [if_neg (by omega)]
  simp only
  rw [if_neg (by omega)]

/-- A lookup whose window has handed out the frame answers none, where there is none. -/
theorem record_of_drained (h : r.Serves frames) {index : Nat}
    (hk : index / r.sepCnt < frames.length) (hnone : (itemsOf r.boundary frames).length ≤ index)
    (hframe : r.lookup.frame = some (index / r.sepCnt)) (hdrained : r.lookup.window.Drained)
    (hge : r.lookup.window.walked ≤ index - index / r.sepCnt * r.sepCnt) :
    r.record index = (.ok (itemsOf r.boundary frames)[index]?, r) := by
  have hwalk : r.lookup.walkTo (index / r.sepCnt) (r.frames.at (index / r.sepCnt))
      (index - index / r.sepCnt * r.sepCnt) =
      (index - index / r.sepCnt * r.sepCnt - r.lookup.window.walked, r.lookup) := by
    rw [Lookup.walkTo, if_pos hframe, Window.walkFrom, if_pos hge]
  obtain ⟨-, hwhole, hwatch, hspent, -⟩ := recordCursor_flags r (index / r.sepCnt)
    (index - index / r.sepCnt * r.sepCnt - r.lookup.window.walked) .unwatched
  obtain ⟨c', hnext⟩ := hdrained.nextOwned r.boundary.find hwatch hspent hwhole
  rw [record, recordFrame_of_lt h hk]
  simp only [hwalk, hnext, List.getElem?_eq_none hnone]

/-- A lookup that points its window anew answers as if there had been none before it. -/
theorem record_of_reseek (h : r.Serves frames) {index : Nat}
    (hk : index / r.sepCnt < frames.length)
    (hwalk : r.lookup.window.walkFrom (index - index / r.sepCnt * r.sepCnt) =
      (none, r.lookup.window)) :
    r.record index = record { r with lookup := { r.lookup with frame := none } } index := by
  rw [record, record, recordFrame_of_lt h hk,
    recordFrame_of_lt (r := { r with lookup := { r.lookup with frame := none } }) h hk]
  simp only
  rw [walkTo_of_reseek _ fun _ => hwalk]
  rfl

/-- A lookup answers as on a fresh reader, and leaves a window that the next one can be judged
by. -/
theorem record_meets (h : r.Serves frames) (hplaced : Placed frames r) {index : Nat}
    (hitems : (recordsOf boundary file).length = (itemsOf r.boundary frames).length)
    (hmeets : StepMeets boundary file r (.record index)) :
    ∃ r', Kept r r' ∧ Placed frames r' ∧
      r.record index = (.ok (itemsOf r.boundary frames)[index]?, r') := by
  by_cases hreach : index / r.sepCnt < frames.length →
      r.lookup.frame = some (index / r.sepCnt) →
      Lookup.Reaches r.boundary.find frames (index / r.sepCnt)
        (index - index / r.sepCnt * r.sepCnt) r.lookup.window
  · obtain ⟨r', hkept, hlooked, hrecord⟩ := record_spec h index hreach
    exact ⟨r', hkept, (Landed.of_lookedUp hlooked).placed (by rw [hkept.eq]) hplaced, hrecord⟩
  · simp only [Classical.not_imp] at hreach
    obtain ⟨hk, hframe, hreach⟩ := hreach
    by_cases hwalk : (r.lookup.window.walkFrom (index - index / r.sepCnt * r.sepCnt)).1 = none
    · -- The window is pointed at the frame again.
      have hsame := record_of_reseek h hk (walkFrom_of_none hwalk)
      obtain ⟨r', hkept, hlooked, hrecord⟩ := record_spec
        (r := { r with lookup := { r.lookup with frame := none } }) h index (by simp)
      refine ⟨r', ⟨hkept.eq, hkept.file⟩, ?_, hsame.trans hrecord⟩
      exact (Landed.of_lookedUp hlooked).placed (by rw [hkept.eq]) (by simp [Placed])
    · obtain ⟨hend, hleft⟩ := hmeets ⟨hframe, hwalk⟩
      -- It stands in this frame, since it stands in one that ends where this does.
      have hstands : Lookup.Stands r.boundary.find frames (index / r.sepCnt) r.lookup.window := by
        rcases hplaced _ hframe with hstands | hstands
        · exact hstands
        · have hspan := hstands.spanEnd
          rw [hend, h.spans_eq, spansOf_at hk] at hspan
          simp only at hspan
          rw [← startOf_succ hk] at hspan
          have hpos := h.length_pos
          have hlast : index / r.sepCnt = frames.length - 1 := by
            by_contra hne
            have := startOf_lt (k := index / r.sepCnt + 1)
              (j := frames.length - 1 + 1) (fun g hg => h.uniform.ne_nil_of_mem hg) (by omega)
              (by omega)
            omega
          rwa [hlast]
      obtain ⟨_, hat | hpast⟩ := hstands
      · exact absurd ⟨hk, Or.inl hat⟩ hreach
      · have hge : (r.boundary.find.records frames[index / r.sepCnt]).length ≤
            index - index / r.sepCnt * r.sepCnt := by
          by_contra hlt
          exact hreach ⟨hk, Or.inr ⟨hpast, Nat.lt_of_not_le hlt⟩⟩
        obtain ⟨hremainder, hahead, hwalked⟩ := Past_blank hpast
        have hpastAll : (itemsOf r.boundary frames).length ≤ index := by
          by_contra hlt
          exact hleft (by omega) ⟨hremainder, hahead, by omega⟩
        exact ⟨r, Kept.refl r, hplaced,
          record_of_drained h hk hpastAll hframe hpast.drained (by omega)⟩

/-- What a call answers where the condition on its step holds. -/
theorem perform_meets (h : r.Serves frames) (hjudge : r.judge = none) (hplaced : Placed frames r)
    (hitems : (recordsOf boundary file).length = (itemsOf r.boundary frames).length) {call : Call}
    (hmeets : StepMeets boundary file r call) :
    ∃ r', Kept r r' ∧ Placed frames r' ∧
      r.perform call = (answerOf r.boundary r.sepCnt frames r.label call, r') := by
  by_cases hcall : ∃ index, call = .record index
  · obtain ⟨index, rfl⟩ := hcall
    obtain ⟨r', hkept, hplaced', hrecord⟩ := record_meets h hplaced hitems hmeets
    refine ⟨r', hkept, hplaced', ?_⟩
    rw [perform, hjudge, if_neg (by simp), hrecord]
    rfl
  · obtain ⟨r', hkept, hlanded, hperform⟩ := perform_spec h call
      fun index heq => absurd ⟨index, heq⟩ hcall
    exact ⟨r', hkept, hlanded.placed (by rw [hkept.eq]) hplaced, hperform⟩

/-! ### Runs -/

/-- The answers of calls made one after the other, and the reader after them. -/
def performs : List Call → RecordReader → List Answer × RecordReader
  | [], r => ([], r)
  | call :: calls, r =>
      let rest := performs calls (r.perform call).2
      ((r.perform call).1 :: rest.1, rest.2)

/-- Every step of a run meets its condition. -/
def StepsMeet (boundary : Boundary) (file : SeekableFile) : RecordReader → List Call → Prop
  | _, [] => True
  | r, call :: calls =>
      StepMeets boundary file r call ∧ StepsMeet boundary file (r.perform call).2 calls

theorem performs_meet :
    ∀ (calls : List Call) (r : RecordReader), r.Serves frames → r.judge = none →
      Placed frames r → (recordsOf boundary file).length = (itemsOf r.boundary frames).length →
      StepsMeet boundary file r calls →
      ∃ r', Kept r r' ∧ Placed frames r' ∧
        r.performs calls = (calls.map (answerOf r.boundary r.sepCnt frames r.label), r') := by
  intro calls
  induction calls with
  | nil =>
      intro r _ _ hplaced _ _
      exact ⟨r, Kept.refl r, hplaced, rfl⟩
  | cons call calls ih =>
      intro r h hjudge hplaced hitems hmeets
      obtain ⟨r', hkept, hplaced', hperform⟩ := perform_meets h hjudge hplaced hitems hmeets.1
      have hrest := hmeets.2
      rw [hperform] at hrest
      have heq := hkept.eq
      obtain ⟨r'', hkept', hplaced'', hperforms⟩ := ih r' (h.kept hkept) (by rw [heq, hjudge])
        hplaced' (by rw [heq, hitems]) hrest
      refine ⟨r'', hkept.trans hkept', hplaced'', ?_⟩
      rw [performs, hperform]
      simp only [hperforms]
      rw [heq]
      rfl

/-- What an iterator answers where the condition on it holds. -/
theorem run_meets (h : r.Serves frames) (hplaced : Placed frames r) (fromIdx : Nat)
    {sides : List Side} (hmeets : IteratorMeets r sides) :
    (r.intoRecordsFrom fromIdx).run sides =
      (twoEndsFrom r.boundary r.sepCnt frames r.label fromIdx).run sides := by
  have hlength : r.frames.length = frames.length := h.spans_length
  rw [IteratorMeets, hlength] at hmeets
  cases sides with
  | nil => rfl
  | cons side sides =>
      cases side with
      | front => exact run_intoRecordsFrom_front h fromIdx sides
      | back =>
          refine RecordIter.run_follows (intoRecordsFrom_follows h (fun hframe => ?_) fromIdx) _
          have hstands : Lookup.Stands r.boundary.find frames (frames.length - 1)
              r.lookup.window := (hplaced _ hframe).elim id id
          obtain ⟨hk, hat | hpast⟩ := hstands
          · exact ⟨hk, Or.inl hat⟩
          · obtain ⟨hremainder, hahead, hwalked⟩ := Past_blank hpast
            refine ⟨hk, Or.inr ⟨hpast, Nat.pos_of_ne_zero fun hzero => ?_⟩⟩
            exact hmeets rfl hframe ⟨hremainder, hahead, hwalked.trans hzero⟩

end RecordReader

variable {file : SeekableFile} {label : String}

/-- Every call of a run whose lookups go on from a window that stands where they take it to stand
answers as on a fresh reader, and the iterator the reader is turned into after it does. -/
theorem answers_as_fresh (h : Uniform boundary.find boundary.tailIsRecord n file.contents)
    (hopen : RecordReader.fromReader file label boundary = .ok r) (calls : List Call)
    (hmeets : RecordReader.StepsMeet boundary file r calls) :
    (r.performs calls).1 = calls.map (fun call => (r.perform call).1) ∧
      ∀ fromIdx sides, IteratorMeets (r.performs calls).2 sides →
        ((r.performs calls).2.intoRecordsFrom fromIdx).run sides =
          (r.intoRecordsFrom fromIdx).run sides := by
  have hopened := RecordReader.opened_of_fromReader hopen
  have hserves := hopened.serves h
  have hplaced : RecordReader.Placed file.contents r := by
    simp [RecordReader.Placed, hopened.frame]
  have hitems : (recordsOf boundary file).length = (itemsOf r.boundary file.contents).length := by
    rw [hopened.boundary_eq, recordsOf]
  have hfresh : ∀ call, StepMeets boundary file r call := by
    intro call
    cases call with
    | record index => simp [StepMeets, GoesOn, hopened.frame]
    | _ => trivial
  obtain ⟨r', hkept, hplaced', hperforms⟩ := RecordReader.performs_meet calls r hserves
    hopened.judge hplaced hitems hmeets
  have hserves' := hserves.kept hkept
  have heq := hkept.eq
  rw [hperforms]
  refine ⟨List.map_congr_left fun call _ => ?_, fun fromIdx sides hsides => ?_⟩
  · obtain ⟨r'', -, -, hperform⟩ := RecordReader.perform_meets hserves hopened.judge hplaced hitems
      (hfresh call)
    rw [hperform]
  · rw [RecordReader.run_meets hserves' hplaced' fromIdx hsides,
      RecordReader.run_meets hserves hplaced fromIdx (by simp [IteratorMeets, hopened.frame]), heq]

theorem RecordReader.perform_record (hjudge : r.judge = none) (index : Nat) :
    r.perform (.record index) = (.record (r.record index).1, (r.record index).2) := by
  rw [perform, hjudge, if_neg (by simp)]

/-- The records of the first frame, one after the other. -/
theorem answers_as_fresh_lettersFile :
    ∃ r, RecordReader.fromReader lettersFile "letters" lineBoundary = .ok r ∧
      (r.performs [.record 0, .record 1]).1 =
        [.record 0, .record 1].map (fun call => (r.perform call).1) := by
  obtain ⟨r, hopen, -⟩ := RecordReader.fromReader_isOk lettersFile "letters" lineBoundary
    (by decide) (by decide)
  have hopened := RecordReader.opened_of_fromReader hopen
  have hend : (RecordReader.fromReader lettersFile "letters" lineBoundary).map
      (fun r => decide ((r.record 0).2.lookup.window.spanEnd = 4 ∧ (r.record 0).2.sepCnt = 2 ∧
        (r.record 0).2.frames.at 0 = (0, 4))) = .ok true := rfl
  have hleft : (RecordReader.fromReader lettersFile "letters" lineBoundary).map
      (fun r => (r.record 0).2.lookup.window.remainder ++
        (r.record 0).2.lookup.window.source.ahead) = .ok [98, 10] := rfl
  rw [hopen] at hend hleft
  obtain ⟨hspan, hsepCnt, hframe⟩ := of_decide_eq_true (Except.ok.inj hend)
  have hremains := Except.ok.inj hleft
  refine ⟨r, hopen, (answers_as_fresh lettersFile_uniform.uniform hopen [.record 0, .record 1]
    ⟨by simp [StepMeets, GoesOn, hopened.frame], ?_, trivial⟩).1⟩
  rw [RecordReader.perform_record hopened.judge]
  simp only [StepMeets, hsepCnt, Nat.reduceDiv, hspan, hframe]
  intro _
  refine ⟨trivial, fun _ hnone => ?_⟩
  simp only at hremains
  rw [hnone.1, hnone.2.1] at hremains
  simp at hremains

/-- A lookup of the unfinished record finds it once; a lookup after an iterator that ran past the
end looks in the wrong frame. -/
theorem answers_differ_lettersFile :
    Uniform lineBoundary.find lineBoundary.tailIsRecord 2 lettersFile.contents ∧
      ∃ r, RecordReader.fromReader lettersFile "letters" lineBoundary = .ok r ∧
        (r.performs [.record 4, .record 4]).1 =
          [.record (.ok (some [101])), .record (.ok none)] ∧
        (r.performs [.record 0, .recordsFrom 6 1, .record 1]).1 =
          [.record (.ok (some [97, 10])), .yielded [some (.error (.pastTheEnd 6 "letters"))],
            .record (.ok none)] ∧
        (r.perform (.record 4)).1 = .record (.ok (some [101])) ∧
        (r.perform (.record 1)).1 = .record (.ok (some [98, 10])) := by
  obtain ⟨r, hopen, -⟩ := RecordReader.fromReader_isOk lettersFile "letters" lineBoundary
    (by decide) (by decide)
  have hjudge := (RecordReader.opened_of_fromReader hopen).judge
  have hfour : (RecordReader.fromReader lettersFile "letters" lineBoundary).map
      (fun r => (r.record 4).1) = .ok (.ok (some [101])) := rfl
  have hagain : (RecordReader.fromReader lettersFile "letters" lineBoundary).map
      (fun r => ((r.record 4).2.record 4).1) = .ok (.ok none) := rfl
  have hzero : (RecordReader.fromReader lettersFile "letters" lineBoundary).map
      (fun r => (r.record 0).1) = .ok (.ok (some [97, 10])) := rfl
  have hpast : (RecordReader.fromReader lettersFile "letters" lineBoundary).map
      (fun r => (((r.record 0).2.recordsFrom 6).steps 1).1) =
        .ok [some (.error (.pastTheEnd 6 "letters"))] := rfl
  have hone : (RecordReader.fromReader lettersFile "letters" lineBoundary).map
      (fun r => (r.record 1).1) = .ok (.ok (some [98, 10])) := rfl
  have hwrong : (RecordReader.fromReader lettersFile "letters" lineBoundary).map
      (fun r => ((((r.record 0).2.recordsFrom 6).steps 1).2.reader.record 1).1) =
        .ok (.ok none) := rfl
  have hplain : (RecordReader.fromReader lettersFile "letters" lineBoundary).map
      (fun r => (r.record 4).2.judge.isNone && (r.record 0).2.judge.isNone &&
        (((r.record 0).2.recordsFrom 6).steps 1).2.reader.judge.isNone) = .ok true := rfl
  rw [hopen] at hfour hagain hzero hpast hone hwrong hplain
  have hplain := Except.ok.inj hplain
  simp only [Bool.and_eq_true, Option.isNone_iff_eq_none] at hplain
  obtain ⟨⟨hfourJudge, hzeroJudge⟩, hpastJudge⟩ := hplain
  refine ⟨lettersFile_uniform.uniform, r, hopen, ?_, ?_, ?_, ?_⟩
  · simp only [RecordReader.performs, RecordReader.perform_record hjudge,
      RecordReader.perform_record hfourJudge]
    rw [show (r.record 4).1 = _ from Except.ok.inj hfour,
      show ((r.record 4).2.record 4).1 = _ from Except.ok.inj hagain]
  · have hfrom : (r.record 0).2.perform (.recordsFrom 6 1) =
        (.yielded (((r.record 0).2.recordsFrom 6).steps 1).1,
          (((r.record 0).2.recordsFrom 6).steps 1).2.reader) := rfl
    simp only [RecordReader.performs, RecordReader.perform_record hjudge, hfrom,
      RecordReader.perform_record hpastJudge]
    rw [show (r.record 0).1 = _ from Except.ok.inj hzero,
      show (((r.record 0).2.recordsFrom 6).steps 1).1 = _ from Except.ok.inj hpast,
      show ((((r.record 0).2.recordsFrom 6).steps 1).2.reader.record 1).1 = _ from
        Except.ok.inj hwrong]
  · rw [RecordReader.perform_record hjudge]
    exact congrArg Answer.record (Except.ok.inj hfour)
  · rw [RecordReader.perform_record hjudge]
    exact congrArg Answer.record (Except.ok.inj hone)

end SeekZstdSep
