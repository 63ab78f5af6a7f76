/-
Module: SeekZstdSep.Proofs.TwoEnds
Purpose: What the owning iterator does on uniform frames, without the window it does it through: a
  place at each end, the records a forward read still holds, and the count of the frame a reverse
  read is in. The iterator of the reader follows this one call by call.
Trusted boundary: none
Main exports: TwoEnds, TwoEnds.run, RecordIter.Follows, RecordIter.run_follows
-/
import SeekZstdSep.Proofs.Iterate
import SeekZstdSep.Lib.Ends

namespace SeekZstdSep

open Lib

variable {boundary : Boundary} {n : Nat} {frames : List Bytes}

/-! ### The two ends -/

/-- A double-ended read of frames. `fed` is what the forward read still yields and the error it
ends with, once it is placed. -/
structure TwoEnds where
  boundary : Boundary
  perFrame : Nat
  frames : List Bytes
  label : String
  front : Nat
  backFrame : Nat
  backLeft : Option Nat := none
  fed : Option (List Bytes × Option Error) := none
  spent : Bool := false

namespace TwoEnds

/-- The records of the frame the reverse read is in. -/
def held (s : TwoEnds) : List Bytes :=
  s.boundary.find.items s.boundary.tailIsRecord (s.frames.getD s.backFrame [])

/-- The forward read has reached what the reverse read handed out last. -/
def met (s : TwoEnds) : Bool :=
  s.backLeft.any fun left => decide (s.front ≥ s.backFrame * s.perFrame + left)

def takeFront (s : TwoEnds) : List Bytes × Option Error → Option (Except Error Bytes) × TwoEnds
  | (u :: us, fin) => (some (.ok u), { s with front := s.front + 1, fed := some (us, fin) })
  | ([], fin) => (fin.map .error, { s with fed := none, spent := true })

def next (s : TwoEnds) : Option (Except Error Bytes) × TwoEnds :=
  if s.spent || s.met then (none, s)
  else s.takeFront (s.fed.getD (forwardFeed s.boundary s.perFrame s.frames s.label s.front))

/-- Takes record `index` of the frame the reverse read is in, unless the forward read has. -/
def takeBack (s : TwoEnds) (index : Nat) : Option (Except Error Bytes) × TwoEnds :=
  let s := { s with backLeft := some index }
  if s.backFrame * s.perFrame + index < s.front then (none, { s with spent := true })
  else (s.held[index]?.map .ok, s)

def stepBack (s : TwoEnds) : Option (Except Error Bytes) × TwoEnds :=
  if s.spent then (none, s)
  else
    match s.backLeft with
    | none =>
        if s.front > s.backFrame * s.perFrame + s.held.length then s.next
        else s.takeBack (s.held.length - 1)
    | some (index + 1) => s.takeBack index
    | some 0 =>
        if s.backFrame = 0 then (none, { s with spent := true })
        else
          let s := { s with backFrame := s.backFrame - 1, backLeft := none }
          s.takeBack (s.held.length - 1)

/-- The forward read is placed anew after each reverse one. -/
def nextBack (s : TwoEnds) : Option (Except Error Bytes) × TwoEnds :=
  { s with fed := none }.stepBack

def pull : Side → TwoEnds → Option (Except Error Bytes) × TwoEnds
  | .front => next
  | .back => nextBack

/-- What the calls of a schedule answer. -/
def run : List Side → TwoEnds → List (Option (Except Error Bytes))
  | [], _ => []
  | side :: sides, s => (s.pull side).1 :: run sides (s.pull side).2

end TwoEnds

/-- A double-ended read from record `fromIdx` on. -/
def twoEndsFrom (boundary : Boundary) (n : Nat) (frames : List Bytes) (label : String)
    (fromIdx : Nat) : TwoEnds where
  boundary := boundary
  perFrame := n
  frames := frames
  label := label
  front := fromIdx
  backFrame := frames.length - 1

/-- Every frame holds a record, if only an unfinished one. -/
theorem items_pos (h : Uniform boundary.find boundary.tailIsRecord n frames) {k : Nat}
    (hk : k < frames.length) :
    0 < (boundary.find.items boundary.tailIsRecord frames[k]).length := by
  obtain ⟨hne, -, htail⟩ := h.last_or_full hk
  have hsplit := boundary.find.flatten_records_append_rest frames[k]
  by_cases hrest : boundary.find.rest frames[k] = []
  · rw [Finder.items_of_rest hrest, List.length_pos_iff]
    intro hnil
    rw [hnil, hrest] at hsplit
    exact hne hsplit.symm
  · rw [Finder.items_of_tail (htail.resolve_right hrest) hrest, List.length_append]
    simp

namespace RecordIter

variable {it : RecordIter}

/-! ### Following them -/

/-- The two ends of an iterator, where its forward read still yields `fed`. -/
def ends (it : RecordIter) (frames : List Bytes) (fed : Option (List Bytes × Option Error)) :
    TwoEnds where
  boundary := it.boundary
  perFrame := it.perFrame
  frames := frames
  label := it.label
  front := it.front
  backFrame := it.backFrame
  backLeft := it.backLeft
  fed := fed
  spent := it.spent

/-- The iterator is not done, and its reverse read is in a frame of which it counts no more records
than that holds. -/
structure Lives (frames : List Bytes) (it : RecordIter) : Prop where
  unspent : it.spent = false
  serves : Serves it.boundary it.frames it.perFrame it.judge frames it.lookup.window
  inside : it.backFrame < frames.length
  last : it.backLeft = none → it.backFrame + 1 = frames.length
  left_le : ∀ left, it.backLeft = some left →
    left ≤ (it.boundary.find.items it.boundary.tailIsRecord frames[it.backFrame]).length
  placed : ∀ left k, it.backLeft = some left → it.lookup.frame = some k → k = it.backFrame

/-- The iterator reads on. Where its window is at the frame of the reverse read, the next reverse
lookup can go on from there; where its forward read is placed, that feeds `fed`. -/
structure Reads (frames : List Bytes) (it : RecordIter)
    (fed : Option (List Bytes × Option Error)) : Prop extends it.Lives frames where
  ready : it.lookup.frame = some it.backFrame → ∀ i,
    (it.backLeft = none ∧ i = 0) ∨ it.backLeft = some (i + 1) →
      Lookup.Reaches it.boundary.find frames it.backFrame i it.lookup.window
  armed : it.armed = fed.isSome
  feeding : ∀ us fin, fed = some (us, fin) → ∃ c region start post,
    it.cursor = some c ∧ it.lookup.frame = none ∧
      c.Feeds it.boundary.find region start post it.lookup.window us fin ∧
      ¬ Blames it.boundary.find region post

/-- The iterator answers every call as the two ends do. -/
inductive Follows (frames : List Bytes) (it : RecordIter) : TwoEnds → Prop
  | spent {s : TwoEnds} (spent : it.spent = true) (same : s.spent = true) : Follows frames it s
  | reads {fed} (reads : it.Reads frames fed) : Follows frames it (it.ends frames fed)

/-- An iterator with a cursor hands out what it feeds. -/
theorem step_spec {c : RecordUnitCursor} {us : List Bytes} {fin : Option Error} {region : Bytes}
    {start : Nat} {post : Option Lookout}
    (hfeeds : c.Feeds it.boundary.find region start post it.lookup.window us fin)
    (hblames : ¬ Blames it.boundary.find region post) :
    (∃ u us' c' w', us = u :: us' ∧ Window.SameFile it.lookup.window w' ∧
        it.step c = (some (.ok u),
          { it.withWindow w' with cursor := some c', front := it.front + 1 }) ∧
        c'.Feeds it.boundary.find region start post w' us' fin) ∨
      (us = [] ∧ ∃ it', it.step c = (fin.map .error, it') ∧ it'.spent = true) := by
  have hsame := RecordUnitCursor.nextOwned_sameFile it.boundary.find c it.lookup.window
  rw [step]
  rcases RecordUnitCursor.nextOwned_spec hfeeds with ⟨e, c', w', -, hb⟩ |
    ⟨u, us', c', w', rfl, hnext, -, hfeeds'⟩ | ⟨rfl, rfl, c', w', hnext, hdone, -, hfeeds'⟩ |
    ⟨rfl, e, c', w', rfl, hnext⟩
  · exact absurd hb hblames
  · rw [hnext] at hsame ⊢
    exact Or.inl ⟨u, us', c', w', rfl, hsame, rfl, hfeeds'⟩
  · rw [hnext]
    simp only
    rcases RecordUnitCursor.finish_spec _ hfeeds' (fun _ => hdone) with
      ⟨c'', hfinish⟩ | ⟨-, hb⟩
    · rw [hfinish]
      exact Or.inr ⟨trivial, _, rfl, rfl⟩
    · exact absurd hb hblames
  · rw [hnext]
    exact Or.inr ⟨rfl, _, rfl, rfl⟩

/-- A step of the forward read takes the head of what it feeds. -/
theorem step_follows {c : RecordUnitCursor} {us : List Bytes} {fin : Option Error}
    (h : it.Reads frames (some (us, fin))) (hcursor : it.cursor = some c) :
    ∃ it', it.step c = (((it.ends frames (some (us, fin))).takeFront (us, fin)).1, it') ∧
      it'.Follows frames ((it.ends frames (some (us, fin))).takeFront (us, fin)).2 := by
  obtain ⟨c', region, start, post, hcursor', hframe, hfeeds, hblames⟩ := h.feeding us fin rfl
  obtain rfl : c = c' := Option.some.inj (hcursor.symm.trans hcursor')
  rcases step_spec hfeeds hblames with ⟨u, us', c', w', rfl, hsame, hstep, hfeeds'⟩ |
    ⟨rfl, it', hstep, hspent⟩
  · rw [hstep]
    refine ⟨_, rfl, Follows.reads ?_⟩
    exact
      { unspent := h.unspent
        serves := h.serves.of_sameFile hsame
        inside := h.inside
        last := h.last
        left_le := h.left_le
        placed := h.placed
        ready := by
          intro hsome
          have hsome' : it.lookup.frame = some it.backFrame := hsome
          simp [hframe] at hsome'
        armed := h.armed
        feeding := by
          rintro us fin heq
          obtain ⟨rfl, rfl⟩ := Prod.mk.inj (Option.some.inj heq)
          exact ⟨c', region, start, post, rfl, hframe, hfeeds', hblames⟩ }
  · rw [hstep]
    exact ⟨it', rfl, Follows.spent hspent rfl⟩

/-- So does a forward read that has to be placed first, wherever the window was. -/
theorem place_follows (h : it.Lives frames) (harmed : it.armed = false)
    (hmet : it.metTheReverseRead = false) :
    ∃ it', it.next = ((it.ends frames none).next.1, it') ∧
      it'.Follows frames (it.ends frames none).next.2 := by
  have hends : (it.ends frames none).next = (it.ends frames none).takeFront
      (forwardFeed it.boundary it.perFrame frames it.label it.front) := by
    have hmet' : (it.ends frames none).met = false := hmet
    have hspent' : (it.ends frames none).spent = false := h.unspent
    rw [TwoEnds.next, hspent', hmet', if_neg (by simp)]
    rfl
  rw [hends, next, h.unspent, hmet, if_neg (by simp), if_neg (by simp [harmed]), arm]
  have hpositioned := positionIterSpan_spec h.serves it.label it.front
  generalize positionIterSpan it.lookup _ _ _ _ _ = result at hpositioned
  cases hpositioned with
  | refused hsame hfed hframe hstay =>
      rw [forwardFeed, hfed]
      exact ⟨_, rfl, Follows.spent rfl rfl⟩
  | @placed k j post lookup' hsame hj hkj hframe hat hwatch hblames hfed =>
      obtain ⟨-, hstands, hfeed⟩ := feeds_forward
        h.serves.uniform hj hkj hat
        (c := .new
          (watchOf it.judge it.frames it.perFrame it.front (startOf frames k)
            (regionOf frames k j).length) (it.front - it.perFrame * k))
        hwatch hfed rfl rfl rfl rfl rfl
      simp only [Option.getD_some]
      generalize RecordUnitCursor.atFileEnd it.boundary _ = c at hstands hfeed ⊢
      generalize forwardFeed it.boundary it.perFrame frames it.label it.front = feed at hfeed ⊢
      obtain ⟨us, fin⟩ := feed
      have hreads : Reads frames { it with lookup := lookup', cursor := some c, armed := true }
          (some (us, fin)) :=
        { unspent := h.unspent
          serves := h.serves.of_sameFile hsame
          inside := h.inside
          last := h.last
          left_le := h.left_le
          placed := by simp [hframe]
          ready := by simp [hframe]
          armed := rfl
          feeding := by
            intro us' fin' heq
            obtain ⟨rfl, rfl⟩ := Prod.mk.inj (Option.some.inj heq)
            exact ⟨c, _, startOf frames k, post, rfl, hframe, Or.inl ⟨_, hstands, hfeed⟩,
              hblames⟩ }
      obtain ⟨it', hstep, hfollows⟩ := step_follows hreads rfl
      refine ⟨it', ?_, ?_⟩
      · rw [hstep]
        cases us <;> rfl
      · cases us with
        | nil => exact hfollows
        | cons u us => exact hfollows

/-- A forward call of one follows that of the other. -/
theorem next_follows {s : TwoEnds} (h : it.Follows frames s) :
    ∃ it', it.next = (s.next.1, it') ∧ it'.Follows frames s.next.2 := by
  cases h with
  | spent spent same =>
      rw [next, TwoEnds.next, spent, same]
      exact ⟨it, rfl, Follows.spent spent same⟩
  | @reads fed reads =>
      by_cases hmet : it.metTheReverseRead = true
      · have hmet' : (it.ends frames fed).met = true := hmet
        rw [next, TwoEnds.next, hmet, hmet', Bool.or_true, Bool.or_true, if_pos rfl, if_pos rfl]
        exact ⟨it, rfl, Follows.reads reads⟩
      · rw [Bool.not_eq_true] at hmet
        have harmed := reads.armed
        cases fed with
        | none => exact place_follows reads.toLives harmed hmet
        | some feed =>
            obtain ⟨us, fin⟩ := feed
            obtain ⟨c, -, -, -, hcursor, -⟩ := reads.feeding us fin rfl
            have hmet' : (it.ends frames (some (us, fin))).met = false := hmet
            have hspent' : (it.ends frames (some (us, fin))).spent = false := reads.unspent
            have hends : (it.ends frames (some (us, fin))).next =
                (it.ends frames (some (us, fin))).takeFront (us, fin) := by
              rw [TwoEnds.next, hmet', hspent', if_neg (by simp)]
              rfl
            have hnext : it.next = it.step c := by
              rw [next, hmet, reads.unspent, if_neg (by simp), if_pos (by rw [harmed]; rfl),
                hcursor]
              rfl
            rw [hends, hnext]
            exact step_follows reads hcursor

/-! ### Going back -/

/-- Counting a frame finds every record of it, and leaves the iterator at no frame. -/
theorem countFrame_spec {k : Nat}
    (h : Serves it.boundary it.frames it.perFrame it.judge frames it.lookup.window)
    (hk : k < frames.length)
    (hreach : it.lookup.frame = some k →
      Lookup.Reaches it.boundary.find frames k 0 it.lookup.window) :
    ∃ w', Window.SameFile it.lookup.window w' ∧
      it.countFrame k =
        (.ok (it.boundary.find.items it.boundary.tailIsRecord frames[k]).length,
          { it with lookup := { window := w', frame := none } }) := by
  have hlength := h.spans_length
  obtain ⟨skip, lookup', j, hwalk, -, hsame, hat, hj⟩ := Lookup.walkTo_spec h hk hreach
  obtain rfl : j = 0 := by omega
  obtain ⟨post, hwatch, hblames⟩ := h.watches_frame hk
  rw [countFrame]
  simp only [hwalk]
  rw [show it.frames.at k = (startOf frames k, frames[k].length) by rw [h.spans_eq, spansOf_at hk]]
  simp only
  have hcursor : ∀ c : RecordUnitCursor,
      c = (if k = it.frames.length - 1 then
          RecordUnitCursor.atFileEnd it.boundary (.ofRecords
            { watch := watchOf it.judge it.frames it.perFrame (k * it.perFrame)
                (startOf frames k) frames[k].length })
        else .ofRecords
            { watch := watchOf it.judge it.frames it.perFrame (k * it.perFrame)
                (startOf frames k) frames[k].length }) →
      c.Feeds it.boundary.find frames[k] (startOf frames k) post lookup'.window
        (it.boundary.find.items it.boundary.tailIsRecord frames[k]) none := by
    rintro c rfl
    obtain ⟨hskip, -, hwatch', hspent, -⟩ := RecordUnitCursor.atFileEnd_same it.boundary
      (.ofRecords { watch := watchOf it.judge it.frames it.perFrame (k * it.perFrame)
                      (startOf frames k) frames[k].length })
    obtain ⟨hinclude, hreject⟩ := RecordUnitCursor.atFileEnd_flags it.boundary
      (c := .ofRecords { watch := watchOf it.judge it.frames it.perFrame (k * it.perFrame)
                           (startOf frames k) frames[k].length }) rfl rfl
    split
    · have hfeed := feed_frame h.uniform hk _ (fun _ => hinclude) hreject 0
      rw [if_neg (by omega), List.drop_zero] at hfeed
      exact Or.inl ⟨0, ⟨hspent, Or.inl hskip, 0, hat, hwatch'.symm ▸ hwatch, by rw [hskip]; rfl⟩,
        hfeed⟩
    · have hfeed := feed_frame h.uniform hk (.ofRecords
          { watch := watchOf it.judge it.frames it.perFrame (k * it.perFrame)
              (startOf frames k) frames[k].length })
        (fun hlast => by omega) (by simp [RecordUnitCursor.ofRecords]) 0
      rw [if_neg (by omega), List.drop_zero] at hfeed
      exact Or.inl ⟨0, ⟨rfl, Or.inl rfl, 0, hat, hwatch, rfl⟩, hfeed⟩
  have hfeeds := hcursor _ rfl
  generalize (if k = it.frames.length - 1 then _ else _ : RecordUnitCursor) = c at hfeeds ⊢
  have hfold := RecordUnitCursor.tryFold_spec (fun (count : Nat) _ => .ok (count + 1))
    (lookup'.window.ahead + 1) none 0 _ c lookup'.window (by have := hfeeds.length_le; omega) hfeeds
  have hfoldSame := RecordUnitCursor.tryFold_sameFile it.boundary.find
    (fun (count : Nat) _ => .ok (count + 1)) (lookup'.window.ahead + 1) none 0 c lookup'.window
  rcases hfold with ⟨e, c', w', -, hb⟩ | ⟨c', w', hfold, hleft⟩
  · exact absurd hb hblames
  · rw [hfold] at hfoldSame
    have hleft := hleft _ (RecordReader.foldList_count _ _)
    have hspent := hleft.spent (by simp)
    rw [hfold, RecordReader.foldList_count]
    rcases RecordUnitCursor.finish_spec usizeMax hleft.feeds (fun _ => hspent) with
      ⟨c'', hfinish⟩ | ⟨-, hb⟩
    · simp only [hfinish, Nat.zero_add]
      exact ⟨w', hsame.trans hfoldSame, rfl⟩
    · exact absurd hb hblames

/-- A reverse lookup takes the record of the frame it names. -/
theorem recordBack_spec {index : Nat}
    (h : Serves it.boundary it.frames it.perFrame it.judge frames it.lookup.window)
    (hk : it.backFrame < frames.length)
    (hindex : index < (it.boundary.find.items it.boundary.tailIsRecord frames[it.backFrame]).length)
    (hreach : it.lookup.frame = some it.backFrame →
      Lookup.Reaches it.boundary.find frames it.backFrame index it.lookup.window) :
    ∃ w', Window.SameFile it.lookup.window w' ∧
      Lookup.Stands it.boundary.find frames it.backFrame w' ∧
      it.recordBack index =
        (.ok (it.boundary.find.items it.boundary.tailIsRecord frames[it.backFrame])[index]?,
          { it with lookup := { window := w', frame := some it.backFrame } }) := by
  have hlength := h.spans_length
  have hitems := it.boundary.find.length_items_le it.boundary.tailIsRecord frames[it.backFrame]
  obtain ⟨skip, lookup', j, hwalk, hframe, hsame, hat, hj⟩ := Lookup.walkTo_spec h hk hreach
  have hwatch : (watchNothing it.judge).At it.boundary.find frames[it.backFrame] none j := by
    cases it.judge with
    | none => rfl
    | some judge => exact Or.inl ⟨rfl, rfl⟩
  rw [recordBack]
  simp only [hwalk]
  have hcursor : ∀ c : RecordUnitCursor,
      c = (if (it.boundary.tailIsRecord && it.backFrame == it.frames.length - 1) = true then
          RecordUnitCursor.includingFinalRecord (.ofRecords
            { watch := watchNothing it.judge, skip := skip, skipWhole := true })
        else .ofRecords { watch := watchNothing it.judge, skip := skip, skipWhole := true }) →
      c.Feeds it.boundary.find frames[it.backFrame] (startOf frames it.backFrame) none
        lookup'.window
        ((it.boundary.find.items it.boundary.tailIsRecord frames[it.backFrame]).drop index)
        none := by
    rintro c rfl
    rw [← hj]
    split
    · next hlast =>
        simp only [Bool.and_eq_true, beq_iff_eq] at hlast
        exact RecordUnitCursor.feeds_frame h.uniform hk hat rfl rfl hwatch
          (fun _ => hlast.1.symm) (fun htrue => by
            simp [RecordUnitCursor.includingFinalRecord, RecordUnitCursor.ofRecords] at htrue)
          (fun _ => by omega)
    · next hlast =>
        simp only [Bool.and_eq_true, beq_iff_eq, not_and] at hlast
        refine RecordUnitCursor.feeds_frame h.uniform hk hat rfl rfl hwatch ?_ (fun htrue => by
            simp [RecordUnitCursor.ofRecords] at htrue) (fun _ => by omega)
        intro hend
        cases htail : it.boundary.tailIsRecord with
        | true =>
            have := hlast htail
            omega
        | false => rfl
  have hfeeds := hcursor _ rfl
  generalize (if (it.boundary.tailIsRecord && _) = true then _ else _ : RecordUnitCursor) = c
    at hfeeds ⊢
  obtain ⟨c', w', hnext, hfeeds', -⟩ := RecordUnitCursor.nextOwned_head hfeeds not_blames_none
  have hnextSame := RecordUnitCursor.nextOwned_sameFile it.boundary.find c lookup'.window
  rw [hnext] at hnextSame
  rw [List.head?_drop] at hnext
  refine ⟨w', hsame.trans hnextSame, ⟨hk, hfeeds'.window⟩, ?_⟩
  simp only [hnext, hframe]


theorem held_ends (fed : Option (List Bytes × Option Error))
    (hk : it.backFrame < frames.length) :
    (it.ends frames fed).held =
      it.boundary.find.items it.boundary.tailIsRecord frames[it.backFrame] := by
  simp [TwoEnds.held, ends, hk]

/-- A reverse step inside a counted frame takes the last of the records left of it. -/
theorem nextBackFuel_counted {fuel left : Nat} (h : it.Reads frames none)
    (hleft : it.backLeft = some (left + 1)) :
    ∃ it', nextBackFuel (fuel + 1) it = (((it.ends frames none).takeBack left).1, it') ∧
      it'.Follows frames ((it.ends frames none).takeBack left).2 := by
  have hk := h.inside
  have hle := h.left_le _ hleft
  have harmed : it.armed = false := h.armed
  have hsameIter : { it with backLeft := some (left + 1) } = it := by rw [← hleft]
  rw [nextBackFuel, if_neg (by simp [h.unspent])]
  simp only [hleft, Option.isNone_some, Bool.false_eq_true, if_false, false_and,
    Nat.add_one_ne_zero, Nat.add_sub_cancel, hsameIter]
  have htake : (it.ends frames none).takeBack left =
      if it.backFrame * it.perFrame + left < it.front then
        (none, { it.ends frames none with backLeft := some left, spent := true })
      else ((it.boundary.find.items it.boundary.tailIsRecord frames[it.backFrame])[left]?.map .ok,
        { it.ends frames none with backLeft := some left }) := by
    rw [← held_ends none hk]
    rfl
  rw [htake]
  by_cases hmet : it.backFrame * it.perFrame + left < it.front
  · rw [if_pos hmet, if_pos hmet]
    exact ⟨_, rfl, Follows.spent rfl rfl⟩
  · obtain ⟨w', hsame, ⟨_, hstands⟩, hback⟩ := recordBack_spec h.serves hk
      (by omega) (fun hframe => h.ready hframe left (Or.inr hleft))
    rw [if_neg hmet, if_neg hmet, hback, List.getElem?_eq_getElem (by omega)]
    have hreads : Reads frames
        { it with
          lookup := { window := w', frame := some it.backFrame }
          backLeft := some left } none :=
      { unspent := h.unspent
        serves := h.serves.of_sameFile hsame
        inside := hk
        last := by simp
        left_le := by
          intro left' hsome
          obtain rfl : left = left' := Option.some.inj hsome
          exact Nat.le_of_succ_le hle
        placed := fun _ k _ hframe => (Option.some.inj hframe).symm
        ready := by
          intro _ i hi
          have hi' : left = i + 1 := by
            rcases hi with ⟨hnone, -⟩ | hsome
            · simp at hnone
            · exact Option.some.inj hsome
          have hitems := it.boundary.find.length_items_le it.boundary.tailIsRecord
            frames[it.backFrame]
          refine ⟨hk, hstands.imp id fun hpast => ⟨hpast, ?_⟩⟩
          show i < (it.boundary.find.records frames[it.backFrame]).length
          omega
        armed := harmed
        feeding := by simp }
    exact ⟨_, rfl, Follows.reads hreads⟩

/-- So does one that has to count its frame first. -/
theorem nextBackFuel_uncounted (frames : List Bytes) {fuel : Nat} (hspent : it.spent = false)
    (harmed : it.armed = false)
    (hserves : Serves it.boundary it.frames it.perFrame it.judge frames it.lookup.window)
    (hleft : it.backLeft = none) (hk : it.backFrame < frames.length)
    (hready : it.lookup.frame = some it.backFrame →
      Lookup.Reaches it.boundary.find frames it.backFrame 0 it.lookup.window)
    (hinside : it.backFrame + 1 = frames.length →
      it.front ≤ it.backFrame * it.perFrame + (it.ends frames none).held.length) :
    ∃ it', nextBackFuel (fuel + 1) it =
        (((it.ends frames none).takeBack ((it.ends frames none).held.length - 1)).1, it') ∧
      it'.Follows frames
        ((it.ends frames none).takeBack ((it.ends frames none).held.length - 1)).2 := by
  rw [held_ends none hk] at hinside ⊢
  obtain ⟨w', hsame, hcount⟩ := countFrame_spec hserves hk hready
  have hlength := hserves.spans_length
  have hbeyond : ¬ (it.backFrame = frames.length - 1 ∧ it.front > it.backFrame * it.perFrame +
      (it.boundary.find.items it.boundary.tailIsRecord frames[it.backFrame]).length) := by
    rintro ⟨hlast, hgt⟩
    have := hinside (by omega)
    omega
  obtain ⟨left, hheld⟩ : ∃ left,
      (it.boundary.find.items it.boundary.tailIsRecord frames[it.backFrame]).length = left + 1 :=
    ⟨_, (Nat.sub_add_cancel (items_pos hserves.uniform hk)).symm⟩
  have hcounted : nextBackFuel (fuel + 1) it = nextBackFuel (fuel + 1)
      { it with lookup := { window := w', frame := none }, backLeft := some (left + 1) } := by
    rw [nextBackFuel, nextBackFuel, if_neg (by simp [hspent]), if_neg (by simp [hspent])]
    rw [← hheld]
    simp only [hleft, hcount]
    simp only [hlength, Option.isNone_none, true_and, if_neg hbeyond, Option.isNone_some,
      Bool.false_eq_true, false_and, if_false]
  have hreads : Reads frames
      { it with lookup := { window := w', frame := none }, backLeft := some (left + 1) } none :=
    { unspent := hspent
      serves := hserves.of_sameFile hsame
      inside := hk
      last := by simp
      left_le := by
        intro left' hsome
        obtain rfl : left + 1 = left' := Option.some.inj hsome
        exact Nat.le_of_eq hheld.symm
      placed := by simp
      ready := by simp
      armed := harmed
      feeding := by simp }
  rw [hcounted, hheld, Nat.add_sub_cancel]
  exact nextBackFuel_counted hreads rfl

theorem stepBack_follows {fuel : Nat} (h : it.Reads frames none) :
    ∃ it', nextBackFuel (fuel + 1 + 1) it = ((it.ends frames none).stepBack.1, it') ∧
      it'.Follows frames (it.ends frames none).stepBack.2 := by
  have hk := h.inside
  have hspent : (it.ends frames none).spent = false := h.unspent
  have hback : (it.ends frames none).backLeft = it.backLeft := rfl
  have hunarmed : it.armed = false := h.armed
  rw [TwoEnds.stepBack, if_neg (by simp [hspent]), hback]
  cases hleft : it.backLeft with
  | none =>
      have hready := fun hframe => h.ready hframe 0 (Or.inl ⟨hleft, rfl⟩)
      simp only
      by_cases hbeyond : (it.ends frames none).front >
          (it.ends frames none).backFrame * (it.ends frames none).perFrame +
            (it.ends frames none).held.length
      · obtain ⟨w', hsame, hcount⟩ := countFrame_spec h.serves hk hready
        have hcounted : Reads frames { it with lookup := { window := w', frame := none } } none :=
          { h with
            serves := h.serves.of_sameFile hsame
            placed := by simp
            ready := by simp
            feeding := by simp }
        have hlength := h.serves.spans_length
        have hlast := h.last hleft
        have hpast : it.front > it.backFrame * it.perFrame +
            (it.boundary.find.items it.boundary.tailIsRecord frames[it.backFrame]).length := by
          rw [← held_ends none hk]
          exact hbeyond
        have hgoes : nextBackFuel (fuel + 1 + 1) it =
            next { it with lookup := { window := w', frame := none } } := by
          rw [nextBackFuel, if_neg (by simp [h.unspent])]
          simp only [hleft, hcount, hlength, Option.isNone_none, true_and]
          rw [if_pos ⟨by omega, hpast⟩]
        rw [if_pos hbeyond, hgoes]
        exact next_follows (Follows.reads hcounted)
      · rw [if_neg hbeyond]
        exact nextBackFuel_uncounted frames h.unspent hunarmed h.serves hleft hk hready
          (fun _ => Nat.le_of_not_lt hbeyond)
  | some left =>
      cases left with
      | succ left => exact nextBackFuel_counted h hleft
      | zero =>
          rw [nextBackFuel, if_neg (by simp [h.unspent])]
          simp only [hleft, Option.isNone_some, Bool.false_eq_true, false_and, if_false, if_true]
          have hfirst : (it.ends frames none).backFrame = it.backFrame := rfl
          rw [hfirst]
          by_cases hzero : it.backFrame = 0
          · rw [if_pos hzero, if_pos hzero]
            exact ⟨_, rfl, Follows.spent rfl rfl⟩
          · rw [if_neg hzero, if_neg hzero]
            have hbefore : it.backFrame - 1 < frames.length := by omega
            refine nextBackFuel_uncounted frames h.unspent hunarmed h.serves rfl hbefore ?_
              (fun hlast => by simp only at hlast; omega)
            intro hframe
            have := h.placed 0 _ hleft hframe
            simp only at this
            omega

/-- A reverse call of one follows that of the other. -/
theorem nextBack_follows {s : TwoEnds} (h : it.Follows frames s) :
    ∃ it', it.nextBack = (s.nextBack.1, it') ∧ it'.Follows frames s.nextBack.2 := by
  rw [nextBack, TwoEnds.nextBack]
  obtain ⟨fuel, hfuel⟩ : ∃ fuel, it.lookup.window.source.inner.stream.length +
      2 * it.frames.length + 2 = fuel + 1 + 1 := ⟨_, rfl⟩
  rw [hfuel]
  cases h with
  | spent spent same =>
      rw [nextBackFuel, if_pos (by simpa using spent), TwoEnds.stepBack,
        if_pos (by simpa using same)]
      exact ⟨_, rfl, Follows.spent spent same⟩
  | @reads fed reads =>
      exact stepBack_follows
        { reads with
          armed := rfl
          feeding := by simp }

/-! ### Schedules -/

/-- One call, at either end. -/
def pull : Side → RecordIter → Option (Except Error Bytes) × RecordIter
  | .front => next
  | .back => nextBack

/-- What the calls of a schedule answer. -/
def run : List Side → RecordIter → List (Option (Except Error Bytes))
  | [], _ => []
  | side :: sides, it => (it.pull side).1 :: run sides (it.pull side).2

theorem pull_follows {s : TwoEnds} (h : it.Follows frames s) (side : Side) :
    ∃ it', it.pull side = ((s.pull side).1, it') ∧ it'.Follows frames (s.pull side).2 := by
  cases side with
  | front => exact next_follows h
  | back => exact nextBack_follows h

/-- Whatever the schedule, the iterator answers as the two ends do. -/
theorem run_follows {s : TwoEnds} (h : it.Follows frames s) (sides : List Side) :
    it.run sides = s.run sides := by
  induction sides generalizing it s with
  | nil => rfl
  | cons side sides ih =>
      obtain ⟨it', hpull, hfollows⟩ := pull_follows h side
      rw [run, TwoEnds.run, hpull, ih hfollows]

end RecordIter

namespace RecordReader

variable {r : RecordReader}

theorem ends_intoRecordsFrom (h : r.Serves frames) (fromIdx : Nat) :
    (r.intoRecordsFrom fromIdx).ends frames none =
      twoEndsFrom r.boundary r.sepCnt frames r.label fromIdx := by
  have hlength : r.frames.length = frames.length := h.spans_length
  simp [twoEndsFrom, RecordIter.ends, intoRecordsFrom, hlength]

theorem intoRecordsFrom_lives (h : r.Serves frames) (fromIdx : Nat) :
    (r.intoRecordsFrom fromIdx).Lives frames := by
  have hlength : r.frames.length = frames.length := h.spans_length
  have hpos := h.length_pos
  exact
    { unspent := rfl
      serves := h
      inside := by show r.frames.length - 1 < _; omega
      last := fun _ => by show r.frames.length - 1 + 1 = _; omega
      left_le := by simp [intoRecordsFrom]
      placed := by simp [intoRecordsFrom] }

/-- The iterator a reader turns into, where a count of the last frame can go on from the last
lookup. -/
theorem intoRecordsFrom_follows (h : r.Serves frames)
    (ready : r.lookup.frame = some (frames.length - 1) →
      Lookup.Reaches r.boundary.find frames (frames.length - 1) 0 r.lookup.window)
    (fromIdx : Nat) :
    (r.intoRecordsFrom fromIdx).Follows frames
      (twoEndsFrom r.boundary r.sepCnt frames r.label fromIdx) := by
  have hlength : r.frames.length = frames.length := h.spans_length
  rw [← ends_intoRecordsFrom h]
  refine RecordIter.Follows.reads ?_
  exact
    { intoRecordsFrom_lives h fromIdx with
      ready := by
        intro hframe i hi
        have hzero : i = 0 := by
          rcases hi with ⟨-, hi⟩ | hi
          · exact hi
          · simp [intoRecordsFrom] at hi
        subst hzero
        simp only [intoRecordsFrom, hlength] at hframe ⊢
        exact ready hframe
      armed := rfl
      feeding := by simp }

/-- Where the first call goes forward, the last lookup does not matter. -/
theorem run_intoRecordsFrom_front (h : r.Serves frames) (fromIdx : Nat) (sides : List Side) :
    (r.intoRecordsFrom fromIdx).run (.front :: sides) =
      (twoEndsFrom r.boundary r.sepCnt frames r.label fromIdx).run (.front :: sides) := by
  obtain ⟨it', hnext, hfollows⟩ :=
    RecordIter.place_follows (intoRecordsFrom_lives h fromIdx) rfl rfl
  rw [ends_intoRecordsFrom h] at hnext hfollows
  have hpull : (r.intoRecordsFrom fromIdx).pull .front = _ := hnext
  rw [RecordIter.run, TwoEnds.run, hpull, RecordIter.run_follows hfollows]
  rfl

end RecordReader

end SeekZstdSep
