/-
Module: SeekZstdSep.Proofs.Iterate
Purpose: Where a forward read of uniform frames is placed, and what the borrowing iterator yields
  over it: a list, and the error it ends with.
Trusted boundary: none
Main exports: positionIterSpan_spec, forwardFeed, popFeed, BorrowedRecordIter.Yields,
  BorrowedRecordIter.next_spec
-/
import SeekZstdSep.Proofs.Lookup

namespace SeekZstdSep

open Lib

variable {boundary : Boundary} {n : Nat} {frames : List Bytes} {spans : Spans}
variable {judge : Option FrameJudge}

/-! ### Placing a forward read -/

/-- What placing a forward read comes to: refused, with the window left behind the last frame or
where it was, or put at a region of whole frames. -/
inductive Positioned (boundary : Boundary) (n : Nat) (frames : List Bytes) (spans : Spans)
    (judge : Option FrameJudge) (label : String) (fromIdx : Nat) (lookup : Lookup) :
    Except Error RecordsRequest × Lookup → Prop
  | refused {e lookup'} (same : Window.SameFile lookup.window lookup'.window)
      (feed : readFeed boundary n frames label fromIdx usizeMax = .error e)
      (frame : lookup'.frame = lookup.frame)
      (stays : lookup' = lookup ∨
        Lookup.Stands boundary.find frames (frames.length - 1) lookup'.window) :
      Positioned boundary n frames spans judge label fromIdx lookup (.error e, lookup')
  | placed {k j post lookup'} (same : Window.SameFile lookup.window lookup'.window)
      (pos : 0 < j) (inside : k + j ≤ frames.length) (frame : lookup'.frame = none)
      (window : Window.At boundary.find (regionOf frames k j) (startOf frames k) 0 lookup'.window)
      (watch : (watchOf judge spans n fromIdx (startOf frames k) (regionOf frames k j).length).At
        boundary.find (regionOf frames k j) post 0)
      (quiet : ¬ Blames boundary.find (regionOf frames k j) post)
      (feed : readFeed boundary n frames label fromIdx usizeMax =
        if (boundary.find.records (regionOf frames k j)).length < fromIdx - n * k then
          .error .noSeparatorInFrame
        else
          .ok ((boundary.find.items boundary.tailIsRecord (regionOf frames k j)).drop
            (fromIdx - n * k))) :
      Positioned boundary n frames spans judge label fromIdx lookup
        (.ok ⟨startOf frames k, (regionOf frames k j).length, fromIdx - n * k⟩, lookup')

theorem positionIterSpan_spec {lookup : Lookup}
    (h : Serves boundary spans n judge frames lookup.window) (label : String) (fromIdx : Nat) :
    Positioned boundary n frames spans judge label fromIdx lookup
      (positionIterSpan lookup spans boundary n label fromIdx) := by
  have hlength := h.spans_length
  obtain ⟨w', answer, htail, hsame, hstay, hanswer⟩ : ∃ w' answer,
      (if fromIdx = n * spans.length then finalSlotIsTail lookup.window spans boundary n
        else (.ok true, lookup.window)) = (.ok answer, w') ∧
      Window.SameFile lookup.window w' ∧
      (w' = lookup.window ∨ Lookup.Stands boundary.find frames (frames.length - 1) w') ∧
      readFeed boundary n frames label fromIdx usizeMax =
        if answer then rangeFeed boundary n frames label fromIdx usizeMax
        else .error (.pastTheEnd fromIdx label) := by
    rw [hlength]
    by_cases heq : fromIdx = n * frames.length
    · obtain ⟨w', hslot, hsame, hstay⟩ := finalSlotIsTail_spec h
      rw [if_pos heq]
      refine ⟨w', _, hslot, hsame, hstay.imp id ?_, ?_⟩
      · rintro ⟨i, hat⟩
        rw [List.getLast_eq_getElem] at hat
        exact ⟨Nat.sub_lt h.length_pos Nat.one_pos, Or.inl ⟨i, hat⟩⟩
      · by_cases hmore : n * frames.length < (itemsOf boundary frames).length
        · rw [readFeed, if_neg (by omega), if_pos (by simpa using hmore)]
        · rw [readFeed, if_pos (by omega), if_neg (by simpa using hmore)]
    · rw [if_neg heq]
      exact ⟨lookup.window, true, rfl, Window.SameFile.refl _, Or.inl rfl,
        by rw [readFeed, if_neg (by omega), if_pos rfl]⟩
  have hlookup : ({ lookup with window := w' } : Lookup) = lookup ∨
      Lookup.Stands boundary.find frames (frames.length - 1) w' :=
    hstay.imp (fun heq => by rw [heq]) id
  rw [positionIterSpan, htail]
  cases answer with
  | false => exact Positioned.refused hsame (by rw [hanswer]; rfl) rfl hlookup
  | true =>
      rw [if_pos rfl] at hanswer
      simp only
      rcases h.request label fromIdx usizeMax with ⟨e, hreq⟩ |
        ⟨k, j, post, hkj, hj, hk, hreq, hwatch, hblames⟩
      · rw [hreq]
        refine Positioned.refused hsame ?_ rfl hlookup
        rw [hanswer, rangeFeed, ← h.spans_eq, hreq]
      · rw [hreq]
        refine Positioned.placed (hsame.trans (Window.seekTo_sameFile _ _ _)) hj hkj rfl
          ((h.of_sameFile hsame).seekTo_at (by omega) j) hwatch hblames ?_
        rw [hanswer, rangeFeed_of_request _ (h.spans_eq ▸ hreq)]

/-- What a forward read from record `fromIdx` yields, and the error it ends with. -/
def forwardFeed (boundary : Boundary) (n : Nat) (frames : List Bytes) (label : String)
    (fromIdx : Nat) : List Bytes × Option Error :=
  match readFeed boundary n frames label fromIdx usizeMax with
  | .error e => ([], some e)
  | .ok us => (us, none)

/-- Where the arithmetic does not saturate that is every record from `fromIdx` on. -/
theorem forwardFeed_eq (h : Uniform boundary.find boundary.tailIsRecord n frames)
    (small : n * frames.length * frames.length ≤ usizeMax) (label : String) (fromIdx : Nat) :
    forwardFeed boundary n frames label fromIdx =
      ((itemsOf boundary frames).drop fromIdx, rangeRefusal boundary n frames label fromIdx) := by
  rw [forwardFeed]
  rcases readFeed_spec h small label fromIdx usizeMax with ⟨e, hrefusal, hfeed⟩ |
    ⟨hrefusal, us, hfeed, -, hall⟩
  · rw [hfeed, hrefusal, List.drop_eq_nil_of_le (rangeRefusal_past hrefusal)]
  · rw [hfeed, hrefusal, hall rfl]

/-- What a cursor placed for a forward read from record `fromIdx` feeds. -/
theorem feeds_forward {fromIdx k j : Nat} {w : Window} {label : String} {post : Option Lookout}
    (h : Uniform boundary.find boundary.tailIsRecord n frames) (hj : 0 < j)
    (hkj : k + j ≤ frames.length)
    (hat : Window.At boundary.find (regionOf frames k j) (startOf frames k) 0 w)
    {c : RecordUnitCursor} (hwatch : c.watch.At boundary.find (regionOf frames k j) post 0)
    (hfeed : readFeed boundary n frames label fromIdx usizeMax =
      if (boundary.find.records (regionOf frames k j)).length < fromIdx - n * k then
        .error .noSeparatorInFrame
      else
        .ok ((boundary.find.items boundary.tailIsRecord (regionOf frames k j)).drop
          (fromIdx - n * k)))
    (hskip : c.skip = fromIdx - n * k) (hwhole : c.skipWhole = true) (hspent : c.spent = false)
    (hinclude : c.includeFinalRecord = false) (hreject : c.rejectFinalFragment = false) :
    (c.atFileEnd boundary).skipWhole = true ∧
      (c.atFileEnd boundary).Stands boundary.find (regionOf frames k j) (startOf frames k) post
        (fromIdx - n * k) w ∧
      (c.atFileEnd boundary).feed boundary.find (regionOf frames k j) (fromIdx - n * k) =
        forwardFeed boundary n frames label fromIdx := by
  obtain ⟨hskip', hwhole', hwatch', hspent', -⟩ := RecordUnitCursor.atFileEnd_same boundary c
  obtain ⟨hinclude', hreject'⟩ := RecordUnitCursor.atFileEnd_flags boundary hinclude hreject
  obtain ⟨hstands, hfeeds⟩ := feeds_request h hj hkj hat (hwatch'.symm ▸ hwatch)
    (hskip'.trans hskip) (hwhole'.trans hwhole) (hspent'.trans hspent) (fun _ => hinclude') hreject'
  refine ⟨hwhole'.trans hwhole, hstands, ?_⟩
  rw [hfeeds, forwardFeed, hfeed]
  split <;> rfl

/-! ### The borrowing iterator -/

/-- Taking the head of a list that may end with an error, once. -/
def popFeed : List Bytes → Option Error →
    Option (Except Error Bytes) × List Bytes × Option Error
  | u :: us, fin => (some (.ok u), us, fin)
  | [], some e => (some (.error e), [], none)
  | [], none => (none, [], none)

namespace BorrowedRecordIter

/-- The iterator still yields `us`, and then the error `fin` if there is one. -/
def Yields (frames : List Bytes) (it : BorrowedRecordIter) (us : List Bytes)
    (fin : Option Error) : Prop :=
  (it.spent = true ∧ us = [] ∧ fin = none) ∨
    (it.spent = false ∧
      ((it.units = none ∧
          forwardFeed it.reader.boundary it.reader.sepCnt frames it.reader.label it.fromIdx =
            (us, fin)) ∨
        ∃ c region start post, it.units = some c ∧ it.reader.lookup.frame = none ∧
          c.Feeds it.reader.boundary.find region start post it.reader.lookup.window us fin ∧
          ¬ Blames it.reader.boundary.find region post))

/-- Where an iterator leaves the lookup of its reader. -/
def Moved (frames : List Bytes) (it it' : BorrowedRecordIter) : Prop :=
  it'.reader.lookup.frame = none ∨
    (it'.reader.lookup.frame = it.reader.lookup.frame ∧
      (it'.reader.lookup.window = it.reader.lookup.window ∨
        Lookup.Stands it.reader.boundary.find frames (frames.length - 1) it'.reader.lookup.window))

theorem Moved.refl (frames : List Bytes) (it : BorrowedRecordIter) : Moved frames it it :=
  Or.inr ⟨rfl, Or.inl rfl⟩

theorem Moved.trans {it it' it'' : BorrowedRecordIter}
    (hboundary : it'.reader.boundary = it.reader.boundary) (h : Moved frames it it')
    (h' : Moved frames it' it'') : Moved frames it it'' := by
  rcases h' with hnone | ⟨hframe', hwindow'⟩
  · exact Or.inl hnone
  · rcases h with hnone | ⟨hframe, hwindow⟩
    · exact Or.inl (hframe'.trans hnone)
    · refine Or.inr ⟨hframe'.trans hframe, ?_⟩
      rw [hboundary] at hwindow'
      rcases hwindow' with hsame | hstands
      · rw [hsame]
        exact hwindow
      · exact Or.inr hstands

/-- An iterator with units hands out what they feed. -/
theorem step_spec (it : BorrowedRecordIter) {c : RecordUnitCursor} {us : List Bytes}
    {fin : Option Error} {region : Bytes} {start : Nat} {post : Option Lookout}
    (hspent : it.spent = false) (hframe : it.reader.lookup.frame = none)
    (hfeeds : c.Feeds it.reader.boundary.find region start post it.reader.lookup.window us fin)
    (hblames : ¬ Blames it.reader.boundary.find region post) :
    ∃ it', it.step c = ((popFeed us fin).1, it') ∧
      RecordReader.Kept it.reader it'.reader ∧ it'.reader.lookup.frame = none ∧
      it'.Yields frames (popFeed us fin).2.1 (popFeed us fin).2.2 := by
  have hsame := RecordUnitCursor.nextOwned_sameFile it.reader.boundary.find c
    it.reader.lookup.window
  rw [step]
  rcases RecordUnitCursor.nextOwned_spec hfeeds with ⟨e, c', w', -, hb⟩ |
    ⟨u, us', c', w', rfl, hnext, -, hfeeds'⟩ | ⟨rfl, rfl, c', w', hnext, hdone, -, hfeeds'⟩ |
    ⟨rfl, e, c', w', rfl, hnext⟩
  · exact absurd hb hblames
  · rw [hnext] at hsame ⊢
    exact ⟨_, rfl, RecordReader.Kept.of_window hsame, hframe,
      Or.inr ⟨hspent, Or.inr ⟨c', region, start, post, rfl, hframe, hfeeds', hblames⟩⟩⟩
  · rw [hnext] at hsame ⊢
    simp only
    rcases RecordUnitCursor.finish_spec _ hfeeds' (fun _ => hdone) with
      ⟨c'', hfinish⟩ | ⟨-, hb⟩
    · rw [hfinish]
      exact ⟨_, rfl, RecordReader.Kept.of_window hsame, hframe, Or.inl ⟨rfl, rfl, rfl⟩⟩
    · exact absurd hb hblames
  · rw [hnext] at hsame ⊢
    exact ⟨_, rfl, RecordReader.Kept.of_window hsame, hframe, Or.inl ⟨rfl, rfl, rfl⟩⟩

/-- Each call takes the head of what the iterator yields. -/
theorem next_spec {it : BorrowedRecordIter} {us : List Bytes} {fin : Option Error}
    (h : it.reader.Serves frames) (hy : it.Yields frames us fin) :
    ∃ it', it.next = ((popFeed us fin).1, it') ∧
      RecordReader.Kept it.reader it'.reader ∧ Moved frames it it' ∧
      it'.Yields frames (popFeed us fin).2.1 (popFeed us fin).2.2 := by
  rw [next]
  rcases hy with ⟨hspent, rfl, rfl⟩ | ⟨hspent, ⟨hunits, hforward⟩ |
    ⟨c, region, start, post, hunits, hframe, hfeeds, hblames⟩⟩
  · rw [if_pos hspent]
    exact ⟨it, rfl, RecordReader.Kept.refl _, Moved.refl _ _, Or.inl ⟨hspent, rfl, rfl⟩⟩
  · rw [if_neg (by simp [hspent]), hunits]
    simp only
    have hpositioned := positionIterSpan_spec h it.reader.label it.fromIdx
    rw [arm]
    simp only
    generalize positionIterSpan it.reader.lookup _ _ _ _ _ = result at hpositioned
    cases hpositioned with
    | @refused e lookup' hsame hfed hframe hstay =>
      rw [forwardFeed, hfed] at hforward
      obtain ⟨rfl, rfl⟩ := Prod.mk.inj hforward
      refine ⟨_, rfl, RecordReader.Kept.of_window hsame, Or.inr ⟨hframe, ?_⟩,
        Or.inl ⟨rfl, rfl, rfl⟩⟩
      exact hstay.imp (congrArg Lookup.window) id
    | @placed k j post lookup' hsame hj hkj hframe hat hwatch hblames hfed =>
      obtain ⟨hwhole, hstands, hfeed⟩ := feeds_forward h.uniform hj hkj
        hat
        (c := .ofRecords
          { watch := watchOf it.reader.judge it.reader.frames it.reader.sepCnt it.fromIdx
              (startOf frames k) (regionOf frames k j).length
            skip := it.fromIdx - it.reader.sepCnt * k
            skipWhole := true })
        hwatch hfed rfl rfl rfl rfl rfl
      rw [hforward] at hfeed
      simp only
      generalize RecordUnitCursor.atFileEnd it.reader.boundary _ = c at hwhole hstands hfeed ⊢
      have hprepared := RecordUnitCursor.prepare_spec hstands
      have hprepareSame := hsame.trans (RecordUnitCursor.prepare_sameFile
        it.reader.boundary.find c lookup'.window)
      generalize c.prepare it.reader.boundary.find lookup'.window = result at hprepared hprepareSame
      cases hprepared with
      | refused blames => exact absurd blames hblames
      | failed short whole =>
          rw [RecordUnitCursor.feed, if_pos short, if_pos whole] at hfeed
          obtain ⟨rfl, rfl⟩ := Prod.mk.inj hfeed
          exact ⟨_, rfl, RecordReader.Kept.of_window hprepareSame, Or.inl hframe,
            Or.inl ⟨rfl, rfl, rfl⟩⟩
      | spent short whole => simp [hwhole] at whole
      | @ready watch' w' window watch =>
          obtain ⟨it', hstep, hkept, hframe', hy'⟩ := step_spec
            { it.withLookup { lookup' with window := w' } with
              units := some { c with skip := 0, watch := watch' } }
            (c := { c with skip := 0, watch := watch' })
            hspent hframe (Or.inl ⟨_, ⟨hstands.spent, Or.inl rfl, _, window, watch, rfl⟩, hfeed⟩)
            hblames
          exact ⟨it', hstep, (RecordReader.Kept.of_window hprepareSame).trans hkept,
            Or.inl hframe', hy'⟩
  · rw [if_neg (by simp [hspent]), hunits]
    obtain ⟨it', hstep, hkept, hframe', hy'⟩ := step_spec it hspent hframe hfeeds hblames
    exact ⟨it', hstep, hkept, Or.inl hframe', hy'⟩

end BorrowedRecordIter

end SeekZstdSep
