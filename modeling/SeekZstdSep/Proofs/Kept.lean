/-
Module: SeekZstdSep.Proofs.Kept
Purpose: What no call of a reader changes, whatever it answers and whatever the frames hold: all
  of the reader but the place it stands at, and the file its window reads.
Trusted boundary: none
Main exports: RecordReader.perform_kept, RecordReader.performs_kept, positionIterSpan_sameFile
-/
import SeekZstdSep.Proofs.History

namespace SeekZstdSep

/-! ### Lookups and ranges -/

theorem finalSlotIsTail_sameFile (w : Window) (spans : Spans) (boundary : Boundary)
    (perFrame : Nat) : Window.SameFile w (finalSlotIsTail w spans boundary perFrame).2 := by
  have hcounted := (Window.seekTo_sameFile w spans.last.1 spans.last.2).trans
    (Records.countRecords_sameFile boundary.find {} _)
  rw [finalSlotIsTail]
  split
  · exact Window.SameFile.refl w
  · split <;> next heq =>
      rw [heq] at hcounted
      exact hcounted

theorem Lookup.walkTo_sameFile (lookup : Lookup) (frame : Nat) (region : Nat × Nat)
    (inFrame : Nat) :
    Window.SameFile lookup.window (lookup.walkTo frame region inFrame).2.window := by
  have hwalked : Window.SameFile lookup.window
      (if lookup.frame = some frame then lookup.window.walkFrom inFrame
        else (none, lookup.window)).2 := by
    split
    · exact Window.walkFrom_sameFile _ _
    · exact Window.SameFile.refl _
  unfold walkTo
  simp only
  split <;> next heq =>
    rw [heq] at hwalked
    first
    | exact hwalked
    | exact hwalked.trans (Window.seekTo_sameFile _ _ _)

namespace RecordReader

theorem recordFrame_kept (r : RecordReader) (index : Nat) : Kept r (r.recordFrame index).2 := by
  have hmoved : Kept r
      { r with lookup :=
        { window := (finalSlotIsTail r.lookup.window r.frames r.boundary r.sepCnt).2 } } :=
    Kept.of_window (finalSlotIsTail_sameFile r.lookup.window r.frames r.boundary r.sepCnt)
  unfold recordFrame
  simp only
  split
  · next heq =>
      have hkept := congrArg Prod.snd heq
      simp only at hkept
      split <;> (subst hkept; split)
      · split <;> exact hmoved
      · exact Kept.refl r
      · split <;> exact hmoved
      · exact Kept.refl r
  · split
    · split <;> exact hmoved
    · exact Kept.refl r

theorem withUnits_kept (r : RecordReader) (fromIdx cnt : Nat) :
    Kept r (r.withUnits fromIdx cnt).2 := by
  unfold withUnits
  split
  · exact Kept.refl r
  · next req _ =>
      simp only [placeSpan, pointWindow]
      generalize (if req.start + req.len = r.frames.last.1 + r.frames.last.2 then _ else _ :
        RecordUnitCursor) = c
      have hprepared := (Window.seekTo_sameFile r.lookup.window req.start req.len).trans
        (RecordUnitCursor.prepare_sameFile r.boundary.find c _)
      split <;> next heq =>
        rw [heq] at hprepared
        exact Kept.of_window hprepared

theorem recordsTo_kept (r : RecordReader) (fromIdx cnt : Nat) (dst : Sink) :
    Kept r (r.recordsTo fromIdx cnt dst).2.1 := by
  have hmoved : Kept r
      (if fromIdx = r.sepCnt * r.frames.length then
        ((finalSlotIsTail r.lookup.window r.frames r.boundary r.sepCnt).1,
          { r with lookup :=
            { window := (finalSlotIsTail r.lookup.window r.frames r.boundary r.sepCnt).2
              frame := none } })
      else (Except.ok true, r)).2 := by
    split
    · exact Kept.of_window (finalSlotIsTail_sameFile _ _ _ _)
    · exact Kept.refl r
  unfold recordsTo
  simp only
  generalize (if fromIdx = r.sepCnt * r.frames.length then _ else _ :
    Except Error Bool × RecordReader) = moved at hmoved ⊢
  obtain ⟨answer, r₀⟩ := moved
  split
  · exact hmoved
  · exact hmoved
  · have hunits := hmoved.trans (r₀.withUnits_kept fromIdx cnt)
    split
    · next heq =>
        rw [heq] at hunits
        exact hunits
    · next c r' heq =>
        rw [heq] at hunits
        have hwritten := RecordUnitCursor.writeTo_sameFile r'.boundary.find cnt
          (r'.lookup.window.ahead + 1) c r'.lookup.window dst
        split <;> next heq' =>
          rw [heq'] at hwritten
          exact hunits.trans (Kept.of_window hwritten)

theorem records_kept (r : RecordReader) (fromIdx cnt : Nat) :
    Kept r (r.records fromIdx cnt).2 := by
  have hto := r.recordsTo_kept fromIdx cnt {}
  unfold records
  split <;> next heq =>
    rw [heq] at hto
    exact hto

theorem foldRecords_kept (r : RecordReader) {β : Type} (fromIdx cnt : Nat) (init : β)
    (f : β → Bytes → Except Error β) : Kept r (r.foldRecords fromIdx cnt init f).2 := by
  have hunits := r.withUnits_kept fromIdx cnt
  unfold foldRecords
  split
  · next heq =>
      rw [heq] at hunits
      exact hunits
  · next c r' heq =>
      rw [heq] at hunits
      have hfolded := RecordUnitCursor.tryFold_sameFile r'.boundary.find f
        (r'.lookup.window.ahead + 1) (some cnt) init c r'.lookup.window
      simp only
      split
      · next heq' =>
          rw [heq'] at hfolded
          exact hunits.trans (Kept.of_window hfolded)
      · next heq' =>
          rw [heq'] at hfolded
          split <;> exact hunits.trans (Kept.of_window hfolded)

theorem totalRecords_kept (r : RecordReader) : Kept r r.totalRecords.2 := by
  have hfolded := (Window.seekTo_sameFile r.lookup.window r.frames.last.1 r.frames.last.2).trans
    (RecordUnitCursor.tryFold_sameFile r.boundary.find (fun count _ => .ok (count + 1))
      ((r.lookup.window.seekTo r.frames.last.1 r.frames.last.2).ahead + 1) none 0
      (RecordUnitCursor.atFileEnd r.boundary (.ofRecords {}))
      (r.lookup.window.seekTo r.frames.last.1 r.frames.last.2))
  unfold totalRecords
  simp only
  split <;> exact Kept.of_window hfolded

/-- Looking a record up moves the window of where the frame of it was found. -/
theorem lookUp_kept {r r' : RecordReader} (hkept : Kept r r') (frame inFrame : Nat)
    (watch : Watcher) :
    Kept r
      { r' with lookup :=
        { (r'.lookup.walkTo frame (r'.frames.at frame) inFrame).2 with
          window := ((r'.recordCursor frame
              (r'.lookup.walkTo frame (r'.frames.at frame) inFrame).1 watch).nextOwned
            r'.boundary.find
            (r'.lookup.walkTo frame (r'.frames.at frame) inFrame).2.window).2.2 } } :=
  hkept.trans (Kept.of_window ((Lookup.walkTo_sameFile _ _ _ _).trans
    (RecordUnitCursor.nextOwned_sameFile _ _ _)))

theorem record_kept (r : RecordReader) (index : Nat) : Kept r (r.record index).2 := by
  have hframe := r.recordFrame_kept index
  unfold record
  split <;> next heq =>
    rw [heq] at hframe
    first
    | exact hframe
    | exact lookUp_kept hframe _ _ _

theorem recordAsRead_kept (r : RecordReader) (index : Nat) :
    Kept r (r.recordAsRead index).2 := by
  have hframe := r.recordFrame_kept index
  unfold recordAsRead
  split
  · next heq =>
      rw [heq] at hframe
      exact hframe
  · next heq =>
      rw [heq] at hframe
      exact hframe
  · next heq =>
      rw [heq] at hframe
      simp only
      split
      · split <;> exact lookUp_kept hframe _ _ _
      · exact lookUp_kept hframe _ _ _

end RecordReader

/-! ### The borrowing iterator -/

theorem positionIterSpan_sameFile (lookup : Lookup) (spans : Spans) (boundary : Boundary)
    (perFrame : Nat) (label : String) (fromIdx : Nat) :
    Window.SameFile lookup.window
      (positionIterSpan lookup spans boundary perFrame label fromIdx).2.window := by
  have hmoved : Window.SameFile lookup.window
      (if fromIdx = perFrame * spans.length then
        finalSlotIsTail lookup.window spans boundary perFrame
      else (Except.ok true, lookup.window)).2 := by
    split
    · exact finalSlotIsTail_sameFile _ _ _ _
    · exact Window.SameFile.refl _
  unfold positionIterSpan
  simp only
  split
  · exact hmoved
  · exact hmoved
  · split
    · exact hmoved
    · exact hmoved.trans (Window.seekTo_sameFile _ _ _)

namespace BorrowedRecordIter

theorem arm_kept (it : BorrowedRecordIter) : RecordReader.Kept it.reader it.arm.2.reader := by
  have hpositioned := positionIterSpan_sameFile it.reader.lookup it.reader.frames
    it.reader.boundary it.reader.sepCnt it.reader.label it.fromIdx
  unfold arm
  simp only
  split
  · next heq =>
      rw [heq] at hpositioned
      exact RecordReader.Kept.of_window hpositioned
  · next req lookup heq =>
      rw [heq] at hpositioned
      generalize RecordUnitCursor.atFileEnd _ _ = c
      have hprepared := hpositioned.trans
        (RecordUnitCursor.prepare_sameFile it.reader.boundary.find c lookup.window)
      split <;> next heq' =>
        rw [heq'] at hprepared
        exact RecordReader.Kept.of_window hprepared

theorem step_kept (it : BorrowedRecordIter) (units : RecordUnitCursor) :
    RecordReader.Kept it.reader (it.step units).2.reader := by
  have hnext := RecordUnitCursor.nextOwned_sameFile it.reader.boundary.find units
    it.reader.lookup.window
  unfold step
  split <;> next heq =>
    rw [heq] at hnext
    simp only
    first
    | exact RecordReader.Kept.of_window hnext
    | split <;> exact RecordReader.Kept.of_window hnext

theorem next_kept (it : BorrowedRecordIter) : RecordReader.Kept it.reader it.next.2.reader := by
  unfold next
  split
  · exact RecordReader.Kept.refl _
  · split
    · exact it.step_kept _
    · have harm := it.arm_kept
      split <;> next heq =>
        rw [heq] at harm
        first
        | exact harm
        | exact harm.trans (step_kept _ _)

theorem steps_kept (count : Nat) (it : BorrowedRecordIter) :
    RecordReader.Kept it.reader (it.steps count).2.reader := by
  induction count generalizing it with
  | zero => exact RecordReader.Kept.refl _
  | succ count ih => exact it.next_kept.trans (ih _)

end BorrowedRecordIter

/-! ### Every call -/

namespace RecordReader

/-- A call changes but the place the reader stands at. -/
theorem perform_kept (r : RecordReader) (call : Call) : Kept r (r.perform call).2 := by
  cases call with
  | record index =>
      rw [perform]
      simp only
      split
      · exact r.recordAsRead_kept index
      · exact r.record_kept index
  | records fromIdx cnt => exact r.records_kept fromIdx cnt
  | recordsTo fromIdx cnt dst => exact r.recordsTo_kept fromIdx cnt dst
  | foldRecords β fromIdx cnt init f => exact r.foldRecords_kept fromIdx cnt init f
  | totalRecords => exact r.totalRecords_kept
  | recordsFrom fromIdx steps => exact (r.recordsFrom fromIdx).steps_kept steps

theorem performs_kept (calls : List Call) (r : RecordReader) : Kept r (r.performs calls).2 := by
  induction calls generalizing r with
  | nil => exact Kept.refl r
  | cons call calls ih => exact (r.perform_kept call).trans (ih _)

end RecordReader

end SeekZstdSep
