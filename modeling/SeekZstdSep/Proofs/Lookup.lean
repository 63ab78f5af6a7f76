/-
Module: SeekZstdSep.Proofs.Lookup
Purpose: What a lookup by index answers on uniform frames. A lookup goes on from where the last
  one left the window only where the window still stands in that frame with its unfinished
  record not handed out, or the record asked for is a whole one; then it answers the record.
Trusted boundary: none
Main exports: Lookup.Stands, Lookup.walkTo_spec, itemsOf_getElem?, RecordReader.record_spec,
  RecordReader.recordAsRead_spec
-/
import SeekZstdSep.Proofs.Ranges

namespace SeekZstdSep

open Lib

variable {boundary : Boundary} {n : Nat} {frames : List Bytes} {spans : Spans}
variable {judge : Option FrameJudge}

/-! ### The record a place names -/

theorem frame_split {k : Nat} (hk : k < frames.length) :
    (frames.drop k).flatten = frames[k] ++ (frames.drop (k + 1)).flatten := by
  rw [List.drop_eq_getElem_cons hk, List.flatten_cons]

/-- Record `n * k + i` of uniform frames is record `i` of frame `k`. -/
theorem itemsOf_getElem? (h : Uniform boundary.find boundary.tailIsRecord n frames) {k i : Nat}
    (hk : k < frames.length) (hi : k + 1 < frames.length → i < n) :
    (itemsOf boundary frames)[n * k + i]? =
      (boundary.find.items boundary.tailIsRecord frames[k])[i]? := by
  have hle : n * k ≤ (boundary.find.records frames.flatten).length := by
    have hmono := boundary.find.length_records_le_append (frames.take k).flatten
      (frames.drop k).flatten
    rwa [Uniform.flatten_take_append_drop, (h.records_take hk).1] at hmono
  have hdrop : (itemsOf boundary frames).drop (n * k) =
      boundary.find.items boundary.tailIsRecord (frames.drop k).flatten := by
    rw [itemsOf, ← boundary.find.items_after _ _ hle, h.after_flatten hk]
  rw [← List.getElem?_drop, hdrop, frame_split hk]
  by_cases hlast : k + 1 < frames.length
  · obtain ⟨hcount, hrest⟩ := h.full_getElem hlast
    have hin := hi hlast
    rw [Finder.items, Finder.items_of_rest hrest, boundary.find.records_append_of_rest hrest,
      List.append_assoc, List.getElem?_append_left (by omega)]
  · rw [List.drop_eq_nil_of_le (by omega), List.flatten_nil, List.append_nil]

/-! ### Going on from the last lookup -/

namespace Lookup

/-- The window stands somewhere in frame `k`. -/
def Stands (find : Finder UInt8) (frames : List Bytes) (k : Nat) (w : Window) : Prop :=
  ∃ hk : k < frames.length,
    (∃ i, Window.At find frames[k] (startOf frames k) i w) ∨
      Window.Past find frames[k] (startOf frames k) w

/-- Going on from the last lookup can reach record `inFrame` of frame `k`. -/
def Reaches (find : Finder UInt8) (frames : List Bytes) (k inFrame : Nat) (w : Window) : Prop :=
  ∃ hk : k < frames.length,
    (∃ i, Window.At find frames[k] (startOf frames k) i w) ∨
      (Window.Past find frames[k] (startOf frames k) w ∧
        inFrame < (find.records frames[k]).length)

/-- The window is put before the record, or as many records in front of it as it answers. -/
theorem walkTo_spec {lookup : Lookup} {k inFrame : Nat}
    (h : Serves boundary spans n judge frames lookup.window) (hk : k < frames.length)
    (hreach : lookup.frame = some k → Reaches boundary.find frames k inFrame lookup.window) :
    ∃ skip lookup' j, lookup.walkTo k (spans.at k) inFrame = (skip, lookup') ∧
      lookup'.frame = some k ∧ Window.SameFile lookup.window lookup'.window ∧
      Window.At boundary.find frames[k] (startOf frames k) j lookup'.window ∧
      j + skip = inFrame := by
  have hseek := h.seekTo_frame hk
  have hseekSame := Window.seekTo_sameFile lookup.window (spans.at k).1 (spans.at k).2
  rw [walkTo]
  by_cases hframe : lookup.frame = some k
  · rw [if_pos hframe]
    have hwalkSame := Window.walkFrom_sameFile lookup.window inFrame
    have hwalk : (∃ skip w' j, lookup.window.walkFrom inFrame = (some skip, w') ∧
        Window.At boundary.find frames[k] (startOf frames k) j w' ∧ j + skip = inFrame) ∨
          lookup.window.walkFrom inFrame = (none, lookup.window) := by
      obtain ⟨_, ⟨i, hat⟩ | ⟨hpast, hlt⟩⟩ := hreach hframe
      · exact hat.walkFrom inFrame
      · exact hpast.walkFrom hlt
    rcases hwalk with ⟨skip, w', j, heq, hat, hj⟩ | heq
    · rw [heq] at hwalkSame ⊢
      exact ⟨skip, _, j, rfl, hframe, hwalkSame, hat, hj⟩
    · rw [heq]
      exact ⟨inFrame, _, 0, rfl, rfl, hseekSame, hseek, Nat.zero_add _⟩
  · rw [if_neg hframe]
    exact ⟨inFrame, _, 0, rfl, rfl, hseekSame, hseek, Nat.zero_add _⟩

end Lookup

namespace RecordUnitCursor

variable {find : Finder UInt8} {region : Bytes} {start : Nat} {post : Option Lookout}

/-- A cursor that ends without an error answers the head of what it feeds. -/
theorem nextOwned_head {c : RecordUnitCursor} {w : Window} {us : List Bytes}
    (h : c.Feeds find region start post w us none) (hblames : ¬ Blames find region post) :
    ∃ c' w', c.nextOwned find w = (.ok us.head?, c', w') ∧
      c'.Feeds find region start post w' us.tail none ∧ (us = [] → c'.spent = true) := by
  rcases nextOwned_spec h with ⟨e, c', w', -, hb⟩ | ⟨u, us', c', w', rfl, hnext, -, hfeeds⟩ |
    ⟨rfl, -, c', w', hnext, hspent, -, hfeeds⟩ | ⟨-, e, c', w', hfin, -⟩
  · exact absurd hb hblames
  · exact ⟨c', w', hnext, hfeeds, by simp⟩
  · exact ⟨c', w', hnext, hfeeds, fun _ => hspent⟩
  · simp at hfin

/-- A cursor over one frame, `skip` records behind its window, feeds the frame from there on. -/
theorem feeds_frame {k i skip : Nat} {w : Window} {c : RecordUnitCursor}
    (h : Uniform boundary.find boundary.tailIsRecord n frames) (hk : k < frames.length)
    (hat : Window.At boundary.find frames[k] (startOf frames k) i w)
    (hskip : c.skip = skip) (hspent : c.spent = false)
    (hwatch : c.watch.At boundary.find frames[k] none i)
    (hinclude : k + 1 = frames.length → c.includeFinalRecord = boundary.tailIsRecord)
    (hreject : c.rejectFinalFragment = true → boundary.tailIsRecord = false)
    (hwhole : c.skipWhole = true → i + skip ≤ (boundary.find.records frames[k]).length) :
    c.Feeds boundary.find frames[k] (startOf frames k) none w
      ((boundary.find.items boundary.tailIsRecord frames[k]).drop (i + skip)) none := by
  refine Or.inl ⟨i + skip, ⟨hspent, Or.inr (Or.inr rfl), i, hat, hwatch, by rw [hskip]⟩, ?_⟩
  rw [feed_frame h hk c hinclude hreject]
  by_cases hshort : (boundary.find.records frames[k]).length < i + skip
  · have hitems := boundary.find.length_items_le boundary.tailIsRecord frames[k]
    have hfalse : c.skipWhole = false := by
      by_contra htrue
      have := hwhole (by simpa using htrue)
      omega
    rw [if_pos hshort, hfalse, List.drop_eq_nil_of_le (by omega)]
    rfl
  · rw [if_neg hshort]

end RecordUnitCursor

namespace RecordReader

variable {r : RecordReader}

theorem recordCursor_flags (r : RecordReader) (frame skip : Nat) (watch : Watcher) :
    (r.recordCursor frame skip watch).skip = skip ∧
      (r.recordCursor frame skip watch).skipWhole = false ∧
      (r.recordCursor frame skip watch).watch = watch ∧
      (r.recordCursor frame skip watch).spent = false ∧
      (frame = r.frames.length - 1 →
        (r.recordCursor frame skip watch).includeFinalRecord = r.boundary.tailIsRecord) ∧
      ((r.recordCursor frame skip watch).rejectFinalFragment = true →
        r.boundary.tailIsRecord = false) := by
  rw [recordCursor]
  split
  · obtain ⟨hskip, hwhole, hwatch, hspent, -⟩ := RecordUnitCursor.atFileEnd_same r.boundary
      (.ofRecords { watch := watch, skip := skip, skipWhole := false })
    obtain ⟨hinclude, hreject⟩ := RecordUnitCursor.atFileEnd_flags r.boundary
      (c := .ofRecords { watch := watch, skip := skip, skipWhole := false }) rfl rfl
    exact ⟨hskip, hwhole, hwatch, hspent, fun _ => hinclude, hreject⟩
  · next hne =>
    exact ⟨rfl, rfl, rfl, rfl, fun heq => absurd heq hne, by simp [RecordUnitCursor.ofRecords]⟩

/-- Where a lookup goes: to the frame its index falls in, to the last one for the slot past the
full frames where that holds a record, and nowhere for an index past the records. -/
theorem recordFrame_spec (h : r.Serves frames) (index : Nat) :
    ∃ r', Kept r r' ∧
      ((∃ k, k < frames.length ∧ r.sepCnt * k ≤ index ∧
          (k + 1 < frames.length → index - r.sepCnt * k < r.sepCnt) ∧
          (index < r.sepCnt * frames.length ∨ index < (itemsOf r.boundary frames).length) ∧
          ((k = index / r.sepCnt ∧ r' = r) ∨ r'.lookup.frame = none) ∧
          r.recordFrame index = (.ok (some k), r')) ∨
        ((itemsOf r.boundary frames).length ≤ index ∧ r.sepCnt * frames.length ≤ index ∧
          (r' = r ∨ r'.lookup.frame = none) ∧ r.recordFrame index = (.ok none, r'))) := by
  have hn := h.uniform.pos
  have hpos := h.length_pos
  have hlength : r.frames.length = frames.length := h.spans_length
  have hitems := items_le_mul_length h.uniform
  unfold recordFrame
  simp only [hlength]
  rcases Nat.lt_trichotomy index (r.sepCnt * frames.length) with hlt | heq | hgt
  · have hdiv : index / r.sepCnt < frames.length :=
      (Nat.div_lt_iff_lt_mul hn).mpr (by rw [Nat.mul_comm]; exact hlt)
    have hmod := Nat.div_add_mod index r.sepCnt
    have hmodlt := Nat.mod_lt index hn
    rw [if_neg (by omega)]
    simp only
    rw [if_neg (by omega)]
    exact ⟨r, Kept.refl r, Or.inl ⟨index / r.sepCnt, hdiv, by omega, fun _ => by omega,
      Or.inl hlt, Or.inl ⟨rfl, rfl⟩, rfl⟩⟩
  · have hdiv : index / r.sepCnt = frames.length := by rw [heq, Nat.mul_div_cancel_left _ hn]
    obtain ⟨w', hslot, hsame, -⟩ := finalSlotIsTail_spec h
    have hkept : Kept r { r with lookup := { window := w', frame := none } } :=
      Kept.of_window hsame
    rw [if_pos ⟨hdiv, heq⟩, hslot]
    simp only
    by_cases hmore : r.sepCnt * frames.length < (itemsOf r.boundary frames).length
    · have hpred : r.sepCnt * (frames.length - 1) ≤ r.sepCnt * frames.length :=
        Nat.mul_le_mul_left _ (by omega)
      rw [decide_eq_true hmore, hdiv]
      simp only
      rw [if_neg (by omega)]
      exact ⟨_, hkept, Or.inl ⟨frames.length - 1, by omega, by omega, fun hlast => by omega,
        Or.inr (by omega), Or.inr rfl, rfl⟩⟩
    · rw [decide_eq_false hmore]
      exact ⟨_, hkept, Or.inr ⟨by omega, by omega, Or.inr rfl, rfl⟩⟩
  · have hdiv : frames.length ≤ index / r.sepCnt :=
      (Nat.le_div_iff_mul_le hn).mpr (by rw [Nat.mul_comm]; omega)
    rw [if_neg (by omega)]
    simp only
    rw [if_pos (by omega)]
    exact ⟨r, Kept.refl r, Or.inr ⟨by omega, by omega, Or.inl rfl, rfl⟩⟩

/-- The frame a lookup goes to is reached from where the reader stood, or from nowhere. -/
theorem reaches_of_placed {r' : RecordReader} {k index : Nat} (hk : k < frames.length)
    (hreach : index / r.sepCnt < frames.length → r.lookup.frame = some (index / r.sepCnt) →
      Lookup.Reaches r.boundary.find frames (index / r.sepCnt)
        (index - index / r.sepCnt * r.sepCnt) r.lookup.window)
    (hplace : (k = index / r.sepCnt ∧ r' = r) ∨ r'.lookup.frame = none) :
    r'.lookup.frame = some k →
      Lookup.Reaches r.boundary.find frames k (index - k * r.sepCnt) r'.lookup.window := by
  intro hframe
  rcases hplace with ⟨rfl, rfl⟩ | hnone
  · exact hreach hk hframe
  · rw [hnone] at hframe
    cases hframe

/-- Walking to a record of a frame and taking it: the record the frame holds there. Where it
holds none, the walk has counted the whole frame. -/
theorem takeRecord_spec {k inFrame : Nat} (h : r.Serves frames) (hk : k < frames.length)
    (hreach : r.lookup.frame = some k →
      Lookup.Reaches r.boundary.find frames k inFrame r.lookup.window)
    (watch : Watcher) (hwatch : ∀ region i, watch.At r.boundary.find region none i) :
    ∃ skip lookup' c' w', r.lookup.walkTo k (r.frames.at k) inFrame = (skip, lookup') ∧
      (r.recordCursor k skip watch).nextOwned r.boundary.find lookup'.window =
        (.ok (r.boundary.find.items r.boundary.tailIsRecord frames[k])[inFrame]?, c', w') ∧
      lookup'.frame = some k ∧ Window.SameFile r.lookup.window w' ∧
      Lookup.Stands r.boundary.find frames k w' ∧
      ((r.boundary.find.items r.boundary.tailIsRecord frames[k]).length ≤ inFrame →
        w'.walked = (r.boundary.find.records frames[k]).length) := by
  obtain ⟨skip, lookup', j, hwalk, hframe, hsame, hat, hj⟩ := Lookup.walkTo_spec h hk hreach
  obtain ⟨hskip, hwhole, hwatchEq, hspent, hinclude, hreject⟩ :=
    recordCursor_flags r k skip watch
  have hlength : r.frames.length = frames.length := h.spans_length
  have hfeeds := RecordUnitCursor.feeds_frame h.uniform hk hat hskip hspent
    (by rw [hwatchEq]; exact hwatch _ _) (fun hlast => hinclude (by omega)) hreject
    (by rw [hwhole]; simp)
  rw [hj] at hfeeds
  obtain ⟨c', w', hnext, hfeeds', hdone⟩ := RecordUnitCursor.nextOwned_head hfeeds not_blames_none
  have hnextSame := RecordUnitCursor.nextOwned_sameFile r.boundary.find
    (r.recordCursor k skip watch) lookup'.window
  rw [hnext] at hnextSame
  rw [List.head?_drop] at hnext
  refine ⟨skip, lookup', c', w', hwalk, hnext, hframe, hsame.trans hnextSame,
    ⟨hk, hfeeds'.window⟩, ?_⟩
  intro hle
  obtain ⟨-, -, hwindow⟩ := hfeeds'.of_spent (hdone (List.drop_eq_nil_of_le hle))
  rcases hwindow with ⟨hat', -⟩ | ⟨-, hpast⟩
  · exact hat'.walked
  · exact hpast.before.walked

/-- What a lookup leaves behind: the reader as it was, or a window that stands in the frame the
lookup is on. -/
def LookedUp (frames : List Bytes) (r r' : RecordReader) : Prop :=
  r' = r ∨ r'.lookup.frame = none ∨
    ∃ k, r'.lookup.frame = some k ∧
      Lookup.Stands r.boundary.find frames k r'.lookup.window

theorem items_of_frame (h : r.Serves frames) {k index : Nat} (hk : k < frames.length)
    (hle : r.sepCnt * k ≤ index) (hin : k + 1 < frames.length → index - r.sepCnt * k < r.sepCnt) :
    (r.boundary.find.items r.boundary.tailIsRecord frames[k])[index - k * r.sepCnt]? =
      (itemsOf r.boundary frames)[index]? := by
  have hsplit : index = r.sepCnt * k + (index - r.sepCnt * k) := by omega
  rw [Nat.mul_comm k, ← itemsOf_getElem? h.uniform hk hin, ← hsplit]

/-- `record` answers record `index` of the frames, or `none` past the last one. -/
theorem record_spec (h : r.Serves frames) (index : Nat)
    (hreach : index / r.sepCnt < frames.length → r.lookup.frame = some (index / r.sepCnt) →
      Lookup.Reaches r.boundary.find frames (index / r.sepCnt)
        (index - index / r.sepCnt * r.sepCnt) r.lookup.window) :
    ∃ r', Kept r r' ∧ LookedUp frames r r' ∧
      r.record index = (.ok (itemsOf r.boundary frames)[index]?, r') := by
  obtain ⟨r', hkept, ⟨k, hk, hle, hin, -, hplace, hframe⟩ | ⟨hpast, -, hsame, hframe⟩⟩ :=
    recordFrame_spec h index
  · have hreach' := reaches_of_placed hk hreach hplace
    obtain ⟨l, rfl⟩ : ∃ l, r' = { r with lookup := l } := ⟨_, hkept.eq⟩
    obtain ⟨skip, lookup', c', w', hwalk, hnext, hlookup, hfile, hstands, -⟩ :=
      takeRecord_spec (h.kept hkept) hk hreach' .unwatched (fun _ _ => rfl)
    refine ⟨{ r with lookup := { lookup' with window := w' } }, Kept.of_window
      (hkept.file.trans hfile), Or.inr (Or.inr ⟨k, hlookup, hstands⟩), ?_⟩
    have hcursor : recordCursor { r with lookup := l } k skip .unwatched =
        r.recordCursor k skip .unwatched := rfl
    rw [hcursor] at hnext
    rw [record, hframe]
    simp only [hwalk, hcursor, hnext, items_of_frame h hk hle hin]
  · refine ⟨r', hkept, hsame.elim Or.inl fun hnone => Or.inr (Or.inl hnone), ?_⟩
    rw [record, hframe, List.getElem?_eq_none hpast]

/-- What a verifying lookup says of the last frame, where it ran out in it. -/
def walkedVerdict (r : RecordReader) (frames : List Bytes) (index : Nat) : Except Error Unit :=
  if (itemsOf r.boundary frames).length ≤ index ∧ index < r.sepCnt * frames.length then
    match r.judge with
    | none => .ok ()
    | some judge =>
        judge.count (frames.length - 1) (r.boundary.find.records (frames.getLastD [])).length
  else .ok ()

/-- `record` of a verifying reader answers what `record` does, unless the frame it ran out in is
refused. -/
theorem recordAsRead_spec (h : r.Serves frames) (index : Nat)
    (hreach : index / r.sepCnt < frames.length → r.lookup.frame = some (index / r.sepCnt) →
      Lookup.Reaches r.boundary.find frames (index / r.sepCnt)
        (index - index / r.sepCnt * r.sepCnt) r.lookup.window) :
    ∃ r', Kept r r' ∧ LookedUp frames r r' ∧
      r.recordAsRead index =
        (match r.walkedVerdict frames index with
          | .error e => .error e
          | .ok () => .ok (itemsOf r.boundary frames)[index]?, r') := by
  obtain ⟨r', hkept, ⟨k, hk, hle, hin, hinside, hplace, hframe⟩ |
    ⟨hpast, houtside, hsame, hframe⟩⟩ := recordFrame_spec h index
  · have hreach' := reaches_of_placed hk hreach hplace
    obtain ⟨l, rfl⟩ : ∃ l, r' = { r with lookup := l } := ⟨_, hkept.eq⟩
    obtain ⟨skip, lookup', c', w', hwalk, hnext, hlookup, hfile, hstands, hwalked⟩ :=
      takeRecord_spec (h.kept hkept) hk hreach' (.watched {})
        (fun _ _ => Or.inl ⟨rfl, rfl⟩)
    have hitem := items_of_frame h hk hle hin
    refine ⟨{ r with lookup := { lookup' with window := w' } }, Kept.of_window
      (hkept.file.trans hfile), Or.inr (Or.inr ⟨k, hlookup, hstands⟩), ?_⟩
    have hcursor : recordCursor { r with lookup := l } k skip (.watched {}) =
        r.recordCursor k skip (.watched {}) := rfl
    rw [hcursor] at hnext
    rw [recordAsRead, hframe]
    simp only [hwalk, hcursor, hnext, hitem]
    cases hanswer : (itemsOf r.boundary frames)[index]? with
    | some u =>
        have hlt := (List.getElem?_eq_some_iff.mp hanswer).1
        rw [walkedVerdict, if_neg (by omega)]
    | none =>
        have hpast : (itemsOf r.boundary frames).length ≤ index :=
          List.getElem?_eq_none_iff.mp hanswer
        rw [hanswer] at hitem
        have hheld := hwalked (List.getElem?_eq_none_iff.mp hitem)
        have hlast : k + 1 = frames.length := by
          by_contra hne
          have hlt : k + 1 < frames.length := by omega
          obtain ⟨hcount, hrest⟩ := h.uniform.full_getElem hlt
          rw [Finder.items_of_rest hrest, List.getElem?_eq_none_iff, hcount] at hitem
          have := hin hlt
          rw [Nat.mul_comm k] at hitem
          omega
        have hgetLast : frames.getLastD [] = frames[k] := by
          rw [List.getLastD_eq_getLast?, List.getLast?_eq_getElem?,
            List.getElem?_eq_getElem (by omega), Option.getD_some]
          congr 1
          omega
        rw [walkedVerdict, if_pos ⟨hpast, by omega⟩, hgetLast, ← hheld,
          show frames.length - 1 = k by omega, verifyWalkedFrame]
        cases r.judge with
        | none => rfl
        | some judge =>
            simp only
            cases judge.count k w'.walked with
            | error e => rfl
            | ok _ => rfl
  · refine ⟨r', hkept, hsame.elim Or.inl fun hnone => Or.inr (Or.inl hnone), ?_⟩
    rw [recordAsRead, hframe, walkedVerdict, if_neg (by omega), List.getElem?_eq_none hpast]

end RecordReader

end SeekZstdSep
