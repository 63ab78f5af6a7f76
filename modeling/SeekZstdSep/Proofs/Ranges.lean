/-
Module: SeekZstdSep.Proofs.Ranges
Purpose: What the range reads of a reader answer on uniform frames. Each answer is a function of
  the frames, the boundary and the arguments alone, whatever the reader read before and whether
  or not it verifies.
Trusted boundary: none
Main exports: Serves, RecordReader.Serves, RecordReader.Kept, rangeFeed, readFeed, withUnits_spec,
  recordsTo_spec, records_spec, foldRecords_spec, totalRecords_spec, rangeRefusal, foldRefusal,
  rangeFeed_spec, readFeed_spec
-/
import SeekZstdSep.Proofs.Place

namespace SeekZstdSep

open Lib

/-! ### A window that serves frames -/

/-- The window reads the joined `frames`, which are uniform with `perFrame` records; the frame
ends it guards are ends of records; and the judge, if there is one, refuses no frame. -/
structure Serves (boundary : Boundary) (spans : Spans) (perFrame : Nat)
    (judge : Option FrameJudge) (frames : List Bytes) (w : Window) : Prop where
  spans_eq : spans = spansOf frames
  uniform : Uniform boundary.find boundary.tailIsRecord perFrame frames
  stream : w.source.inner.stream = frames.flatten
  cap_pos : 0 < w.cap
  sorted : w.frameEnds.Pairwise (· ≤ ·)
  cut : ∀ e ∈ w.frameEnds, w.frameEndBase < e → e ≤ w.frameEndBase + frames.flatten.length →
    boundary.find.rest (frames.flatten.take (e - w.frameEndBase)) = []
  quiet : judge = none ∨
    perFrame * frames.length * frames.length ≤ usizeMax ∧
      ∀ k j fromIdx, 0 < j → k + j ≤ frames.length →
        (fromIdx / perFrame = k ∨ (k + 1 = frames.length ∧ fromIdx = perFrame * frames.length)) →
        ∃ post, (watchOf judge spans perFrame fromIdx (startOf frames k)
            (regionOf frames k j).length).At boundary.find (regionOf frames k j) post 0 ∧
          ¬ Blames boundary.find (regionOf frames k j) post

namespace Serves

variable {boundary : Boundary} {spans : Spans} {perFrame : Nat} {judge : Option FrameJudge}
variable {frames : List Bytes} {w w' : Window}

theorem of_sameFile (h : Serves boundary spans perFrame judge frames w)
    (hsame : Window.SameFile w w') : Serves boundary spans perFrame judge frames w' :=
  { spans_eq := h.spans_eq
    uniform := h.uniform
    stream := hsame.stream.trans h.stream
    cap_pos := Nat.lt_of_lt_of_le h.cap_pos hsame.cap_le
    sorted := by
      rw [hsame.frameEnds]
      exact h.sorted
    cut := by
      rw [hsame.frameEnds, hsame.frameEndBase]
      exact h.cut
    quiet := h.quiet }

theorem ne_nil (h : Serves boundary spans perFrame judge frames w) : frames ≠ [] :=
  h.uniform.ne_nil

theorem length_pos (h : Serves boundary spans perFrame judge frames w) : 0 < frames.length :=
  h.uniform.length_pos

theorem spans_length (h : Serves boundary spans perFrame judge frames w) :
    spans.length = frames.length := by
  rw [h.spans_eq, spansOf_length]

/-- Pointed at whole frames, the window stands before their first record. -/
theorem seekTo_at (h : Serves boundary spans perFrame judge frames w) {k : Nat}
    (hk : k < frames.length) (j : Nat) :
    Window.At boundary.find (regionOf frames k j) (startOf frames k) 0
      (w.seekTo (startOf frames k) (regionOf frames k j).length) := by
  apply Window.seekTo_at
  · rw [h.stream]
    exact regionOf_eq frames k j
  · exact h.cap_pos
  · exact h.sorted
  · intro e he hlt hle
    have hadd := startOf_add frames k j
    have hbound : startOf frames (k + j) ≤ frames.flatten.length := by
      rcases Nat.le_total (k + j) frames.length with hkj | hkj
      · rw [← startOf_length]
        exact startOf_mono frames hkj
      · rw [startOf, List.take_of_length_le hkj]
    have hcut := h.cut e he (by omega) (by omega)
    have hbefore := (h.uniform.records_take hk).2
    have hsplit : frames.flatten.take (e - w.frameEndBase) =
        (frames.take k).flatten ++
          (regionOf frames k j).take (e - w.frameEndBase - startOf frames k) := by
      have hjoin : frames.flatten = (frames.take k).flatten ++
          (regionOf frames k j ++ ((frames.drop k).drop j).flatten) := by
        rw [regionOf, ← List.flatten_append, List.take_append_drop, ← List.flatten_append,
          List.take_append_drop]
      have hlen : (frames.take k).flatten.length = startOf frames k := rfl
      rw [hjoin, List.take_append, hlen,
        List.take_of_length_le (by omega), List.take_append_of_le_length (by omega)]
    rw [hsplit, boundary.find.rest_append_of_rest hbefore] at hcut
    exact hcut

/-- Pointed at one frame. -/
theorem seekTo_frame (h : Serves boundary spans perFrame judge frames w) {k : Nat}
    (hk : k < frames.length) :
    Window.At boundary.find frames[k] (startOf frames k) 0
      (w.seekTo (spans.at k).1 (spans.at k).2) := by
  have hat := h.seekTo_at hk 1
  rw [regionOf_one hk] at hat
  rw [h.spans_eq, spansOf_at hk]
  exact hat

end Serves

/-- A request of a reader is refused or comes to a region of whole frames that nobody has
anything to refuse in. -/
theorem Serves.request {boundary : Boundary} {spans : Spans} {perFrame : Nat}
    {judge : Option FrameJudge} {frames : List Bytes} {w : Window}
    (h : Serves boundary spans perFrame judge frames w) (label : String) (fromIdx cnt : Nat) :
    (∃ e, recordsRequest spans perFrame label fromIdx cnt = .error e) ∨
      ∃ k j post, k + j ≤ frames.length ∧ 0 < j ∧ perFrame * k ≤ fromIdx ∧
        recordsRequest spans perFrame label fromIdx cnt =
          .ok ⟨startOf frames k, (regionOf frames k j).length, fromIdx - perFrame * k⟩ ∧
        (watchOf judge spans perFrame fromIdx (startOf frames k)
          (regionOf frames k j).length).At boundary.find (regionOf frames k j) post 0 ∧
        ¬ Blames boundary.find (regionOf frames k j) post := by
  have hspans := h.spans_eq
  rcases h.quiet with hnone | ⟨small, hquiet⟩
  · rw [hnone, hspans]
    rcases recordsRequest_cases h.uniform.pos
      h.ne_nil with hrefused | ⟨k, j, hkj, hj, hk, -, hreq⟩
    · exact Or.inl hrefused
    · exact Or.inr ⟨k, j, none, hkj, hj, hk, hreq, rfl, not_blames_none⟩
  · obtain ⟨hpast, hinside⟩ := recordsRequest_spec h.uniform.pos h.ne_nil small
    rw [← hspans] at hpast hinside
    by_cases hle : fromIdx ≤ perFrame * frames.length
    · obtain ⟨k, j, hkj, hj, hk, hplace, -, hreq⟩ := hinside hle
      obtain ⟨post, hwatch, hblames⟩ := hquiet k j fromIdx hj hkj hplace
      exact Or.inr ⟨k, j, post, hkj, hj, hk, hreq, hwatch, hblames⟩
    · exact Or.inl ⟨_, hpast (by omega)⟩

/-- Neither is there in a frame read by itself. -/
theorem Serves.watches_frame {boundary : Boundary} {spans : Spans} {perFrame : Nat}
    {judge : Option FrameJudge} {frames : List Bytes} {w : Window}
    (h : Serves boundary spans perFrame judge frames w) {k : Nat} (hk : k < frames.length) :
    ∃ post, (watchOf judge spans perFrame (k * perFrame) (startOf frames k)
        frames[k].length).At boundary.find frames[k] post 0 ∧
      ¬ Blames boundary.find frames[k] post := by
  rcases h.quiet with hnone | ⟨-, hquiet⟩
  · rw [hnone]
    exact ⟨none, rfl, not_blames_none⟩
  · have hone := hquiet k 1 (k * perFrame) Nat.one_pos (by omega)
      (Or.inl (Nat.mul_div_cancel _ h.uniform.pos))
    rwa [regionOf_one hk] at hone

/-! ### What a read is fed -/

section Records

variable (boundary : Boundary) (n : Nat) (frames : List Bytes)

/-- All records, an unfinished last one among them where it counts. -/
def itemsOf : List Bytes := boundary.find.items boundary.tailIsRecord frames.flatten

/-- The records a read of `cnt` records from `fromIdx` can take from the region it asks for, or
why there are none. -/
def rangeFeed (label : String) (fromIdx cnt : Nat) : Except Error (List Bytes) :=
  match recordsRequest (spansOf frames) n label fromIdx cnt with
  | .error e => .error e
  | .ok req =>
      let region := (frames.flatten.drop req.start).take req.len
      if (boundary.find.records region).length < req.skip then .error .noSeparatorInFrame
      else .ok ((boundary.find.items boundary.tailIsRecord region).drop req.skip)

/-- The same for the reads that ask first whether the slot past the full frames holds a record. -/
def readFeed (label : String) (fromIdx cnt : Nat) : Except Error (List Bytes) :=
  if fromIdx = n * frames.length ∧ (itemsOf boundary frames).length ≤ n * frames.length then
    .error (.pastTheEnd fromIdx label)
  else rangeFeed boundary n frames label fromIdx cnt

end Records

variable {boundary : Boundary} {n : Nat} {frames : List Bytes}

theorem itemsOf_length (h : Uniform boundary.find boundary.tailIsRecord n frames) :
    (itemsOf boundary frames).length =
      n * (frames.length - 1) +
        (boundary.find.items boundary.tailIsRecord (frames.getLast h.ne_nil)).length := by
  rw [itemsOf, Finder.items, Finder.items, List.length_append, List.length_append, h.flatten_eq.1,
    h.flatten_eq.2]
  omega

theorem records_le_items (boundary : Boundary) (frames : List Bytes) :
    (boundary.find.records frames.flatten).length ≤ (itemsOf boundary frames).length :=
  boundary.find.length_records_le_items _ _

/-- Only an unfinished record comes after as many whole ones as the frames can hold. -/
theorem mul_length_lt_items_iff (h : Uniform boundary.find boundary.tailIsRecord n frames) :
    n * frames.length < (itemsOf boundary frames).length ↔
      boundary.tailIsRecord = true ∧
        (boundary.find.records (frames.getLast h.ne_nil)).length = n ∧
        boundary.find.rest (frames.getLast h.ne_nil) ≠ [] := by
  have hlast := (h.last _ (List.getLast?_eq_getLast_of_ne_nil h.ne_nil)).2.1
  have hpos := h.length_pos
  have hmul : n * frames.length = n * (frames.length - 1) + n := by
    rw [← Nat.mul_succ]
    congr 1
    omega
  rw [itemsOf_length h, Finder.items, List.length_append]
  by_cases htail : boundary.tailIsRecord = true
  · by_cases hrest : boundary.find.rest (frames.getLast h.ne_nil) = []
    · simp [htail, hrest]
      omega
    · simp [htail, hrest]
      omega
  · simp [htail]
    omega

theorem items_le_mul_length (h : Uniform boundary.find boundary.tailIsRecord n frames) :
    (itemsOf boundary frames).length ≤ n * frames.length + 1 := by
  have hrecords := h.length_records_le
  have hitems := boundary.find.length_items_le boundary.tailIsRecord frames.flatten
  rw [itemsOf]
  omega

/-- Only the last region may end with a record that is not finished. -/
theorem rest_regionOf (h : Uniform boundary.find boundary.tailIsRecord n frames) {k j : Nat}
    (hj : 0 < j) (hkj : k + j ≤ frames.length) :
    boundary.find.rest (regionOf frames k j) = [] ∨
      (k + j = frames.length ∧ boundary.tailIsRecord = true) := by
  by_cases hend : k + j = frames.length
  · cases htail : boundary.tailIsRecord with
    | true => exact Or.inr ⟨hend, rfl⟩
    | false =>
        left
        rw [regionOf, h.region_to_end (by omega) (Nat.le_of_eq hend.symm), boundary.find.rest_after,
          h.rest_flatten htail]
  · exact Or.inl (h.rest_region (by omega))

/-- A region feeds its records, and the unfinished one where the region is the last. -/
theorem feed_region (h : Uniform boundary.find boundary.tailIsRecord n frames) {k j : Nat}
    (hj : 0 < j) (hkj : k + j ≤ frames.length) (c : RecordUnitCursor)
    (hinclude : k + j = frames.length → c.includeFinalRecord = boundary.tailIsRecord)
    (hreject : c.rejectFinalFragment = true → boundary.tailIsRecord = false) (i : Nat) :
    c.feed boundary.find (regionOf frames k j) i =
      if (boundary.find.records (regionOf frames k j)).length < i then
        ([], if c.skipWhole then some .noSeparatorInFrame else none)
      else ((boundary.find.items boundary.tailIsRecord (regionOf frames k j)).drop i, none) := by
  have hdone : (c.rejectFinalFragment && !(boundary.find.rest (regionOf frames k j)).isEmpty) =
      false := by
    rcases rest_regionOf h hj hkj with hrest | ⟨-, htail⟩
    · simp [hrest]
    · have hrejects : c.rejectFinalFragment = false := by
        by_contra htrue
        simp [hreject (by simpa using htrue)] at htail
      simp [hrejects]
  rw [RecordUnitCursor.feed, hdone]
  simp only [Bool.false_eq_true, if_false]
  rcases rest_regionOf h hj hkj with hrest | ⟨hend, -⟩
  · rw [Finder.items_of_rest hrest, Finder.items_of_rest hrest]
  · rw [hinclude hend]

theorem RecordUnitCursor.atFileEnd_same (boundary : Boundary) (c : RecordUnitCursor) :
    (c.atFileEnd boundary).skip = c.skip ∧ (c.atFileEnd boundary).skipWhole = c.skipWhole ∧
      (c.atFileEnd boundary).watch = c.watch ∧ (c.atFileEnd boundary).spent = c.spent ∧
      (c.atFileEnd boundary).emitted = c.emitted := by
  unfold RecordUnitCursor.atFileEnd
  split <;> exact ⟨rfl, rfl, rfl, rfl, rfl⟩

theorem RecordUnitCursor.atFileEnd_flags (boundary : Boundary) {c : RecordUnitCursor}
    (hinclude : c.includeFinalRecord = false) (hreject : c.rejectFinalFragment = false) :
    (c.atFileEnd boundary).includeFinalRecord = boundary.tailIsRecord ∧
      ((c.atFileEnd boundary).rejectFinalFragment = true → boundary.tailIsRecord = false) := by
  unfold RecordUnitCursor.atFileEnd
  cases htail : boundary.tailIsRecord with
  | true =>
      rw [if_pos rfl]
      exact ⟨rfl, fun htrue => by
        simp only [RecordUnitCursor.includingFinalRecord, hreject, Bool.false_eq_true] at htrue⟩
  | false =>
      rw [if_neg (by simp)]
      exact ⟨hinclude, fun _ => rfl⟩

/-- What a request placed at frame `k` is fed. -/
theorem rangeFeed_of_request (boundary : Boundary) {label : String} {fromIdx cnt k j : Nat}
    (hreq : recordsRequest (spansOf frames) n label fromIdx cnt =
      .ok ⟨startOf frames k, (regionOf frames k j).length, fromIdx - n * k⟩) :
    rangeFeed boundary n frames label fromIdx cnt =
      if (boundary.find.records (regionOf frames k j)).length < fromIdx - n * k then
        .error .noSeparatorInFrame
      else
        .ok ((boundary.find.items boundary.tailIsRecord (regionOf frames k j)).drop
          (fromIdx - n * k)) := by
  rw [rangeFeed, hreq]
  simp only [regionOf_eq]

/-- A cursor placed for a request feeds just that, after the skip it makes first. -/
theorem feeds_request {fromIdx k j : Nat} {w : Window} {post : Option Lookout}
    (h : Uniform boundary.find boundary.tailIsRecord n frames) (hj : 0 < j)
    (hkj : k + j ≤ frames.length)
    (hat : Window.At boundary.find (regionOf frames k j) (startOf frames k) 0 w)
    {c : RecordUnitCursor} (hwatch : c.watch.At boundary.find (regionOf frames k j) post 0)
    (hskip : c.skip = fromIdx - n * k) (hwhole : c.skipWhole = true) (hspent : c.spent = false)
    (hinclude : k + j = frames.length → c.includeFinalRecord = boundary.tailIsRecord)
    (hreject : c.rejectFinalFragment = true → boundary.tailIsRecord = false) :
    c.Stands boundary.find (regionOf frames k j) (startOf frames k) post (fromIdx - n * k) w ∧
      c.feed boundary.find (regionOf frames k j) (fromIdx - n * k) =
        if (boundary.find.records (regionOf frames k j)).length < fromIdx - n * k then
          ([], some .noSeparatorInFrame)
        else ((boundary.find.items boundary.tailIsRecord (regionOf frames k j)).drop
          (fromIdx - n * k), none) := by
  refine ⟨⟨hspent, Or.inr (Or.inl hwhole), 0, hat, hwatch, by rw [hskip, Nat.zero_add]⟩, ?_⟩
  rw [feed_region h hj hkj c hinclude hreject, hwhole]
  rfl

/-- One frame by itself feeds its records, and the unfinished one where the frame is the last. -/
theorem feed_frame (h : Uniform boundary.find boundary.tailIsRecord n frames) {k : Nat}
    (hk : k < frames.length) (c : RecordUnitCursor)
    (hinclude : k + 1 = frames.length → c.includeFinalRecord = boundary.tailIsRecord)
    (hreject : c.rejectFinalFragment = true → boundary.tailIsRecord = false) (i : Nat) :
    c.feed boundary.find frames[k] i =
      if (boundary.find.records frames[k]).length < i then
        ([], if c.skipWhole then some .noSeparatorInFrame else none)
      else ((boundary.find.items boundary.tailIsRecord frames[k]).drop i, none) := by
  have hfeed := feed_region h Nat.one_pos (show k + 1 ≤ frames.length by omega) c hinclude hreject i
  rwa [regionOf_one hk] at hfeed

/-! ### The slot past the full frames -/

/-- The slot holds a record when an unfinished one follows as many as the frames can hold. The
question leaves the window behind the last frame, where it is asked at all. -/
theorem finalSlotIsTail_spec {spans : Spans} {judge : Option FrameJudge} {w : Window}
    (h : Serves boundary spans n judge frames w) :
    ∃ w', finalSlotIsTail w spans boundary n =
        (.ok (decide (n * frames.length < (itemsOf boundary frames).length)), w') ∧
      Window.SameFile w w' ∧
      (w' = w ∨ ∃ i, Window.At boundary.find (frames.getLast h.ne_nil)
        (startOf frames (frames.length - 1)) i w') := by
  have hpos := h.length_pos
  have hiff := mul_length_lt_items_iff h.uniform
  rw [finalSlotIsTail]
  by_cases htail : boundary.tailIsRecord = true
  · rw [htail]
    simp only [Bool.not_true, Bool.false_eq_true, if_false]
    have hat := h.seekTo_frame (k := frames.length - 1) (by omega)
    rw [← List.getLast_eq_getElem h.ne_nil, ← h.spans_length] at hat
    obtain ⟨w', hcount, hat', heof⟩ := Records.countRecords_spec hat
    have hsame := (Window.seekTo_sameFile w spans.last.1 spans.last.2).trans
      (Records.countRecords_sameFile boundary.find {} _)
    rw [Spans.last] at hsame ⊢
    rw [hcount] at hsame ⊢
    rw [h.spans_length] at hat'
    simp only
    refine ⟨w', ?_, hsame, Or.inr ⟨_, hat'⟩⟩
    rw [Prod.mk.injEq, Except.ok.injEq]
    refine ⟨?_, rfl⟩
    rw [Bool.eq_iff_iff, decide_eq_true_eq, hiff, hat'.remainder_of_eof heof]
    simp [htail]
  · have hfalse : boundary.tailIsRecord = false := by simpa using htail
    refine ⟨w, ?_, Window.SameFile.refl w, Or.inl rfl⟩
    rw [if_pos (by simp [hfalse]), decide_eq_false (by rw [hiff]; simp [hfalse])]

/-! ### A reader of uniform frames -/

/-- The reader reads `frames`, with `r.sepCnt` records to each. -/
def RecordReader.Serves (r : RecordReader) (frames : List Bytes) : Prop :=
  SeekZstdSep.Serves r.boundary r.frames r.sepCnt r.judge frames r.lookup.window

/-- Of the reader only the place it stands at changed. -/
structure RecordReader.Kept (r r' : RecordReader) : Prop where
  eq : r' = { r with lookup := r'.lookup }
  file : Window.SameFile r.lookup.window r'.lookup.window

namespace RecordReader

variable {r r' : RecordReader}

theorem Kept.refl (r : RecordReader) : Kept r r := ⟨rfl, Window.SameFile.refl _⟩

theorem Kept.trans {r'' : RecordReader} (h : Kept r r') (h' : Kept r' r'') : Kept r r'' :=
  ⟨by rw [h'.eq, h.eq], h.file.trans h'.file⟩

theorem Kept.of_window {w : Window} {frame : Option Nat}
    (h : Window.SameFile r.lookup.window w) :
    Kept r { r with lookup := { window := w, frame := frame } } :=
  ⟨rfl, h⟩

theorem Serves.kept (h : r.Serves frames) (hkept : Kept r r') : r'.Serves frames := by
  have hsame := SeekZstdSep.Serves.of_sameFile h hkept.file
  unfold RecordReader.Serves
  rw [hkept.eq]
  exact hsame

/-- A range is refused or fed. -/
theorem withUnits_spec (h : r.Serves frames) (fromIdx cnt : Nat) :
    ∃ r', Kept r r' ∧
      ((∃ e, rangeFeed r.boundary r.sepCnt frames r.label fromIdx cnt = .error e ∧
          r.withUnits fromIdx cnt = (.error e, r') ∧ (r'.lookup.frame = none ∨ r' = r)) ∨
        ∃ us c region start post,
          rangeFeed r.boundary r.sepCnt frames r.label fromIdx cnt = .ok us ∧
          r.withUnits fromIdx cnt = (.ok c, r') ∧ r'.lookup.frame = none ∧ c.emitted = 0 ∧
          c.Feeds r.boundary.find region start post r'.lookup.window us none ∧
          ¬ Blames r.boundary.find region post) := by
  rcases h.request r.label fromIdx cnt with ⟨e, hreq⟩ |
    ⟨k, j, post, hkj, hj, hk, hreq, hwatch, hblames⟩
  · refine ⟨r, Kept.refl r, Or.inl ⟨e, ?_, ?_, Or.inr rfl⟩⟩
    · rw [rangeFeed, ← h.spans_eq, hreq]
    · rw [withUnits, hreq]
  · have hat := h.seekTo_at (k := k) (by omega) j
    have hlast : (startOf frames k + (regionOf frames k j).length =
        r.frames.last.1 + r.frames.last.2) ↔ k + j = frames.length := by
      rw [h.spans_eq, spansOf_last_end h.ne_nil, ← startOf_add, ← startOf_length]
      have hle := startOf_le_iff (fun g hg => h.uniform.ne_nil_of_mem hg) (j := k + j)
        (Nat.le_refl frames.length)
      constructor
      · intro heq
        have := hle.mp (by omega)
        omega
      · intro heq
        rw [heq]
    have hfeed := rangeFeed_of_request r.boundary (h.spans_eq ▸ hreq)
    rw [withUnits, hreq]
    simp only [placeSpan, pointWindow, hlast]
    generalize hcursor : (if k + j = frames.length then _ else _ : RecordUnitCursor) = c
    obtain ⟨hskip, hwhole, hwatch', hspent, hemitted, hinclude, hreject⟩ :
        c.skip = fromIdx - r.sepCnt * k ∧ c.skipWhole = true ∧
        c.watch = watchOf r.judge r.frames r.sepCnt fromIdx (startOf frames k)
          (regionOf frames k j).length ∧ c.spent = false ∧ c.emitted = 0 ∧
        (k + j = frames.length → c.includeFinalRecord = r.boundary.tailIsRecord) ∧
        (c.rejectFinalFragment = true → r.boundary.tailIsRecord = false) := by
      rw [← hcursor]
      split
      · obtain ⟨hskip, hwhole, hwatch, hspent, hemitted⟩ := RecordUnitCursor.atFileEnd_same
          r.boundary (.ofRecords
            { watch := watchOf r.judge r.frames r.sepCnt fromIdx (startOf frames k)
                (regionOf frames k j).length
              skip := fromIdx - r.sepCnt * k
              skipWhole := true })
        obtain ⟨hinclude, hreject⟩ := RecordUnitCursor.atFileEnd_flags r.boundary
          (c := .ofRecords
            { watch := watchOf r.judge r.frames r.sepCnt fromIdx (startOf frames k)
                (regionOf frames k j).length
              skip := fromIdx - r.sepCnt * k
              skipWhole := true }) rfl rfl
        exact ⟨hskip, hwhole, hwatch, hspent, hemitted, fun _ => hinclude, hreject⟩
      · next hne =>
          exact ⟨rfl, rfl, rfl, rfl, rfl, fun heq => absurd heq hne, by
            simp [RecordUnitCursor.ofRecords]⟩
    obtain ⟨hstands, hfeeds⟩ := feeds_request h.uniform hj hkj hat (hwatch'.symm ▸ hwatch) hskip
      hwhole hspent hinclude hreject
    have hprepared := RecordUnitCursor.prepare_spec hstands
    have hsame := (Window.seekTo_sameFile r.lookup.window (startOf frames k)
      (regionOf frames k j).length).trans
      (RecordUnitCursor.prepare_sameFile r.boundary.find c _)
    generalize c.prepare r.boundary.find _ = result at hprepared hsame
    cases hprepared with
    | refused blames => exact absurd blames hblames
    | @failed c' w' short whole =>
        refine ⟨_, Kept.of_window hsame, Or.inl ⟨_, ?_, rfl, Or.inl rfl⟩⟩
        rw [hfeed, if_pos short]
    | @ready watch' w' window watch =>
        have hle : ¬ (r.boundary.find.records (regionOf frames k j)).length <
            fromIdx - r.sepCnt * k := Nat.not_lt_of_le window.index_le
        rw [if_neg hle] at hfeed hfeeds
        exact ⟨_, Kept.of_window hsame, Or.inr ⟨_, _, regionOf frames k j,
          startOf frames k, post, hfeed, rfl, rfl, hemitted,
          Or.inl ⟨fromIdx - r.sepCnt * k, ⟨hspent, Or.inl rfl, _, window, watch, rfl⟩, hfeeds⟩,
          hblames⟩⟩
    | spent short whole => simp [hwhole] at whole

end RecordReader

/-- What a write of at most `cnt` of the records a read is fed comes to. -/
def writeRange (feed : Except Error (List Bytes)) (cnt : Nat) (dst : Sink) :
    Except Error Unit × Sink :=
  match feed with
  | .error e => (.error e, dst)
  | .ok us => RecordUnitCursor.writeList us none cnt dst

/-- What a fold over at most `cnt` of the records a read is fed comes to. -/
def foldRange {β : Type} (feed : Except Error (List Bytes)) (cnt : Nat) (init : β)
    (f : β → Bytes → Except Error β) : Except Error β :=
  match feed with
  | .error e => .error e
  | .ok us => RecordUnitCursor.foldList f none us (some cnt) init

namespace RecordReader

variable {r r' : RecordReader}

/-- Writing what a range is fed. -/
theorem writeUnits_spec (h : r.Serves frames) (fromIdx cnt : Nat) (dst : Sink) :
    ∃ r', Kept r r' ∧ (r'.lookup.frame = none ∨ r' = r) ∧
      (match r.withUnits fromIdx cnt with
        | (.error e, r) => (.error e, r, dst)
        | (.ok cursor, r) =>
            let w := r.lookup.window
            match cursor.writeTo r.boundary.find cnt (w.ahead + 1) w dst with
            | (.error e, _, w, dst) =>
                (.error e, { r with lookup := { r.lookup with window := w } }, dst)
            | (.ok (), cursor, w, dst) =>
                ((cursor.finish w cnt).1,
                  { r with lookup := { r.lookup with window := w } }, dst)) =
        ((writeRange (rangeFeed r.boundary r.sepCnt frames r.label fromIdx cnt) cnt dst).1, r',
          (writeRange (rangeFeed r.boundary r.sepCnt frames r.label fromIdx cnt) cnt dst).2) := by
  obtain ⟨r', hkept, ⟨e, hfeed, hunits, hframe⟩ | ⟨us, c, region, start, post, hfeed, hunits,
    hframe, hemitted, hfeeds, hblames⟩⟩ := withUnits_spec h fromIdx cnt
  · refine ⟨r', hkept, hframe, ?_⟩
    rw [hunits, hfeed]
    rfl
  · obtain ⟨lookup', rfl⟩ : ∃ l, r' = { r with lookup := l } := ⟨_, hkept.eq⟩
    rw [hunits, hfeed]
    simp only at hframe hfeeds ⊢
    have hwrite := RecordUnitCursor.writeTo_spec cnt (lookup'.window.ahead + 1) us c
      lookup'.window dst (by have := hfeeds.length_le; omega) hfeeds
    have hsame := RecordUnitCursor.writeTo_sameFile r.boundary.find cnt
      (lookup'.window.ahead + 1) c lookup'.window dst
    rw [hemitted, Nat.sub_zero] at hwrite
    rcases hwrite with ⟨e, c', w', sink', -, hblames'⟩ | ⟨c', w', hwrite, hleft⟩
    · exact absurd hblames' hblames
    · rw [hwrite] at hsame ⊢
      have hkept' : Kept r { r with lookup := { lookup' with window := w' } } :=
        Kept.of_window (hkept.file.trans hsame)
      refine ⟨_, hkept', Or.inl hframe, ?_⟩
      rw [writeRange]
      generalize RecordUnitCursor.writeList _ none cnt dst = written at hleft ⊢
      obtain ⟨answer, dst'⟩ := written
      cases answer with
      | error e => rfl
      | ok _ =>
          have hleft := hleft rfl
          have hspent : c'.emitted < cnt → c'.spent = true := by
            intro hlt
            have hemitted' := hleft.emitted
            exact hleft.spent (by omega)
          rcases RecordUnitCursor.finish_spec _ hleft.feeds hspent with ⟨c'', hfinish⟩ | ⟨-, hb⟩
          · simp only [hfinish]
          · exact absurd hb hblames

/-- `records_to` writes the records of the range. -/
theorem recordsTo_spec (h : r.Serves frames) (fromIdx cnt : Nat) (dst : Sink) :
    ∃ r', Kept r r' ∧ (r'.lookup.frame = none ∨ r' = r) ∧
      r.recordsTo fromIdx cnt dst =
        ((writeRange (readFeed r.boundary r.sepCnt frames r.label fromIdx cnt) cnt dst).1, r',
          (writeRange (readFeed r.boundary r.sepCnt frames r.label fromIdx cnt) cnt dst).2) := by
  have hlength : r.frames.length = frames.length := h.spans_length
  unfold recordsTo
  simp only [hlength]
  by_cases heq : fromIdx = r.sepCnt * frames.length
  · obtain ⟨w', hslot, hsame, -⟩ := finalSlotIsTail_spec h
    rw [if_pos heq, hslot]
    simp only
    have hkept : Kept r { r with lookup := { window := w', frame := none } } :=
      Kept.of_window hsame
    by_cases hitems : r.sepCnt * frames.length < (itemsOf r.boundary frames).length
    · obtain ⟨r', hkept', hframe, hwrite⟩ := writeUnits_spec (h.kept hkept) fromIdx cnt dst
      rw [decide_eq_true hitems, readFeed, if_neg (by omega)]
      exact ⟨r', hkept.trans hkept', Or.inl (hframe.elim id fun hr => by rw [hr]), hwrite⟩
    · rw [decide_eq_false hitems, readFeed, if_pos (by omega)]
      exact ⟨_, hkept, Or.inl rfl, rfl⟩
  · obtain ⟨r', hkept, hframe, hwrite⟩ := writeUnits_spec h fromIdx cnt dst
    rw [if_neg heq, readFeed, if_neg (by omega)]
    exact ⟨r', hkept, hframe, hwrite⟩

end RecordReader

/-- A sink that takes everything holds everything. -/
theorem Sink.writeAll_all (bytes written : Bytes) :
    ({ written := written } : Sink).writeAll bytes =
      (.ok (), { written := written ++ bytes }) := by
  induction bytes generalizing written with
  | nil => simp [Sink.writeAll]
  | cons byte bytes ih =>
      rw [Sink.writeAll, if_pos rfl]
      simp [ih]

/-- What gathering at most `cnt` of the records a read is fed comes to. -/
def gatherRange (feed : Except Error (List Bytes)) (cnt : Nat) : Except Error Bytes :=
  match feed with
  | .error e => .error e
  | .ok us => .ok (us.take cnt).flatten

namespace RecordReader

variable {r r' : RecordReader}

/-- `records` gathers the records of the range. -/
theorem records_spec (h : r.Serves frames) (fromIdx cnt : Nat) :
    ∃ r', Kept r r' ∧ (r'.lookup.frame = none ∨ r' = r) ∧
      r.records fromIdx cnt =
        (gatherRange (readFeed r.boundary r.sepCnt frames r.label fromIdx cnt) cnt, r') := by
  obtain ⟨r', hkept, hlookup, hwrite⟩ := recordsTo_spec h fromIdx cnt {}
  refine ⟨r', hkept, hlookup, ?_⟩
  rw [records, hwrite]
  cases readFeed r.boundary r.sepCnt frames r.label fromIdx cnt with
  | error e => rfl
  | ok us =>
      simp only [writeRange, gatherRange, RecordUnitCursor.writeList, Sink.writeAll_all,
        List.nil_append]

/-- `fold_records` folds the records of the range. -/
theorem foldRecords_spec {β : Type} (h : r.Serves frames) (fromIdx cnt : Nat) (init : β)
    (f : β → Bytes → Except Error β) :
    ∃ r', Kept r r' ∧ (r'.lookup.frame = none ∨ r' = r) ∧
      r.foldRecords fromIdx cnt init f =
        (foldRange (rangeFeed r.boundary r.sepCnt frames r.label fromIdx cnt) cnt init f, r') := by
  unfold foldRecords
  obtain ⟨r', hkept, ⟨e, hfeed, hunits, hframe⟩ | ⟨us, c, region, start, post, hfeed, hunits,
    hframe, hemitted, hfeeds, hblames⟩⟩ := withUnits_spec h fromIdx cnt
  · rw [hunits, hfeed]
    exact ⟨r', hkept, hframe, rfl⟩
  · obtain ⟨lookup', rfl⟩ : ∃ l, r' = { r with lookup := l } := ⟨_, hkept.eq⟩
    rw [hunits, hfeed]
    simp only at hframe hfeeds ⊢
    have hfold := RecordUnitCursor.tryFold_spec f (lookup'.window.ahead + 1) (some cnt) init us c
      lookup'.window (by have := hfeeds.length_le; omega) hfeeds
    have hsame := RecordUnitCursor.tryFold_sameFile r.boundary.find f
      (lookup'.window.ahead + 1) (some cnt) init c lookup'.window
    rcases hfold with ⟨e, c', w', -, hblames'⟩ | ⟨c', w', hfold, hleft⟩
    · exact absurd hblames' hblames
    · rw [hfold] at hsame ⊢
      have hkept' : Kept r { r with lookup := { lookup' with window := w' } } :=
        Kept.of_window (hkept.file.trans hsame)
      refine ⟨_, hkept', Or.inl hframe, ?_⟩
      rw [foldRange]
      generalize RecordUnitCursor.foldList f none _ (some cnt) init = answer at hleft ⊢
      cases answer with
      | error e => rfl
      | ok value =>
          have hleft := hleft value rfl
          have hspent : c'.emitted < cnt → c'.spent = true := by
            intro hlt
            have hemitted' := hleft.emitted
            rw [Option.getD_some] at hemitted'
            exact hleft.spent (by rw [Option.getD_some]; omega)
          rcases RecordUnitCursor.finish_spec _ hleft.feeds hspent with ⟨c'', hfinish⟩ | ⟨-, hb⟩
          · simp only [hfinish]
          · exact absurd hb hblames

theorem foldList_count (us : List Bytes) (total : Nat) :
    RecordUnitCursor.foldList (fun count _ => .ok (count + 1)) none us none total =
      .ok (total + us.length) := by
  induction us generalizing total with
  | nil => rfl
  | cons u us ih =>
      rw [RecordUnitCursor.foldList, if_neg (by simp)]
      simp only [Option.map_none]
      rw [ih, List.length_cons]
      congr 1
      omega

/-- `total_records` counts the records. -/
theorem totalRecords_spec (h : r.Serves frames) :
    ∃ r', Kept r r' ∧ r'.lookup.frame = none ∧
      r.totalRecords = (.ok (itemsOf r.boundary frames).length, r') := by
  have hpos := h.length_pos
  have hlength : r.frames.length = frames.length := h.spans_length
  have hat := h.seekTo_frame (k := frames.length - 1) (by omega)
  obtain ⟨hinclude, hreject⟩ := RecordUnitCursor.atFileEnd_flags r.boundary
    (c := .ofRecords {}) rfl rfl
  obtain ⟨hskip, hwhole, hwatch, hspent, -⟩ := RecordUnitCursor.atFileEnd_same r.boundary
    (.ofRecords {})
  have hspan : r.frames.at (frames.length - 1) = r.frames.last := by rw [Spans.last, hlength]
  rw [hspan] at hat
  rw [totalRecords]
  generalize (RecordUnitCursor.ofRecords {}).atFileEnd r.boundary = c at *
  have hfeed := feed_frame h.uniform (k := frames.length - 1) (by omega) c (fun _ => hinclude)
    hreject 0
  rw [if_neg (by omega), List.drop_zero] at hfeed
  have hfeeds : c.Feeds r.boundary.find frames[frames.length - 1]
      (startOf frames (frames.length - 1)) none
      (r.lookup.window.seekTo r.frames.last.1 r.frames.last.2)
      (r.boundary.find.items r.boundary.tailIsRecord frames[frames.length - 1]) none := by
    refine Or.inl ⟨0, ⟨hspent, Or.inl hskip, 0, hat, ?_, by rw [hskip]; rfl⟩, hfeed⟩
    rw [hwatch]
    rfl
  have hsame := (Window.seekTo_sameFile r.lookup.window r.frames.last.1 r.frames.last.2).trans
    (RecordUnitCursor.tryFold_sameFile r.boundary.find
      (fun count _ => .ok (count + 1))
      ((r.lookup.window.seekTo r.frames.last.1 r.frames.last.2).ahead + 1) none 0 c _)
  have hfold := RecordUnitCursor.tryFold_spec (fun (count : Nat) _ => .ok (count + 1))
    ((r.lookup.window.seekTo r.frames.last.1 r.frames.last.2).ahead + 1) none 0 _ c
    (r.lookup.window.seekTo r.frames.last.1 r.frames.last.2)
    (by have := hfeeds.length_le; omega) hfeeds
  rcases hfold with ⟨e, c', w', -, hblames⟩ | ⟨c', w', hfold, -⟩
  · exact absurd hblames not_blames_none
  · rw [hfold] at hsame
    refine ⟨_, Kept.of_window hsame, rfl, ?_⟩
    simp only [hfold, foldList_count]
    rw [itemsOf_length h.uniform, List.getLast_eq_getElem, hlength, Nat.zero_add]

end RecordReader

/-! ### What that is where the arithmetic does not saturate -/

section Refusals

variable (boundary : Boundary) (n : Nat) (frames : List Bytes)

/-- Why a read from record `fromIdx` on is refused, where it is. -/
def rangeRefusal (label : String) (fromIdx : Nat) : Option Error :=
  if n * frames.length ≤ fromIdx ∧ (itemsOf boundary frames).length ≤ fromIdx then
    some (.pastTheEnd fromIdx label)
  else if (boundary.find.records frames.flatten).length < fromIdx then some .noSeparatorInFrame
  else none

/-- Why a fold from record `fromIdx` on is refused: not where it starts right behind the last of
as many records as the frames can hold. -/
def foldRefusal (label : String) (fromIdx : Nat) : Option Error :=
  if n * frames.length < fromIdx then some (.pastTheEnd fromIdx label)
  else if (boundary.find.records frames.flatten).length < fromIdx then some .noSeparatorInFrame
  else none

end Refusals

theorem rangeRefusal_past {label : String} {fromIdx : Nat} {e : Error}
    (h : rangeRefusal boundary n frames label fromIdx = some e) :
    (itemsOf boundary frames).length ≤ fromIdx := by
  have hitems := boundary.find.length_items_le boundary.tailIsRecord frames.flatten
  unfold rangeRefusal at h
  split at h
  · omega
  · split at h
    · rw [itemsOf]
      omega
    · simp at h

theorem rangeRefusal_none {label : String} {fromIdx : Nat}
    (h : fromIdx < (itemsOf boundary frames).length) :
    rangeRefusal boundary n frames label fromIdx = none := by
  cases hrefusal : rangeRefusal boundary n frames label fromIdx with
  | none => rfl
  | some e =>
      have := rangeRefusal_past hrefusal
      omega

/-- The records of a region that begins with frame `k`, as far as it reaches. -/
theorem items_region (h : Uniform boundary.find boundary.tailIsRecord n frames)
    {k j fromIdx cnt : Nat} (hj : 0 < j) (hkj : k + j ≤ frames.length) (hk : n * k ≤ fromIdx)
    (hreach : k + j = frames.length ∨ fromIdx + cnt ≤ n * (k + j)) :
    ((boundary.find.records (regionOf frames k j)).length < fromIdx - n * k ↔
        (boundary.find.records frames.flatten).length < fromIdx) ∧
      ((boundary.find.items boundary.tailIsRecord (regionOf frames k j)).drop
          (fromIdx - n * k)).take cnt = ((itemsOf boundary frames).drop fromIdx).take cnt ∧
      (k + j = frames.length →
        (boundary.find.items boundary.tailIsRecord (regionOf frames k j)).drop (fromIdx - n * k) =
          (itemsOf boundary frames).drop fromIdx) := by
  have htotal := h.le_length_records
  by_cases hend : k + j = frames.length
  · have hregion : regionOf frames k j = boundary.find.after frames.flatten (n * k) := by
      rw [regionOf, h.region_to_end (by omega) (Nat.le_of_eq hend.symm)]
    have hle : n * k ≤ (boundary.find.records frames.flatten).length := by
      have hmul : n * k ≤ n * (frames.length - 1) := Nat.mul_le_mul_left n (by omega)
      omega
    have hdrop : (boundary.find.items boundary.tailIsRecord (regionOf frames k j)).drop
        (fromIdx - n * k) = (itemsOf boundary frames).drop fromIdx := by
      rw [hregion, boundary.find.items_after _ _ hle, List.drop_drop, itemsOf]
      congr 1
      omega
    refine ⟨?_, by rw [hdrop], fun _ => hdrop⟩
    rw [hregion, boundary.find.records_after, List.length_drop]
    omega
  · obtain ⟨hrecords, hrest⟩ := h.records_region (k := k) (j := j) (by omega)
    have hreach := hreach.resolve_left hend
    have hmul : n * (k + j) ≤ n * (frames.length - 1) := Nat.mul_le_mul_left n (by omega)
    have hadd : n * (k + j) = n * k + n * j := Nat.mul_add n k j
    have hlen : (((boundary.find.records frames.flatten).drop (n * k)).take (n * j)).length =
        n * j := by
      rw [List.length_take, List.length_drop]
      omega
    refine ⟨?_, ?_, fun heq => absurd heq hend⟩
    · rw [regionOf, hrecords, hlen]
      omega
    · have hdrop : (((boundary.find.records frames.flatten).drop (n * k)).take (n * j)).drop
          (fromIdx - n * k) =
          ((boundary.find.records frames.flatten).drop fromIdx).take (n * (k + j) - fromIdx) := by
        rw [List.drop_take, List.drop_drop]
        congr 1
        · omega
        · congr 1
          omega
      rw [regionOf, Finder.items_of_rest hrest, hrecords, hdrop, List.take_take,
        Nat.min_eq_left (by omega), itemsOf, Finder.items, List.drop_append_of_le_length (by omega),
        List.take_append_of_le_length]
      rw [List.length_drop]
      omega

/-- What a fold is fed: the records from `fromIdx` on, as far as it asks for them. -/
theorem rangeFeed_spec (h : Uniform boundary.find boundary.tailIsRecord n frames)
    (small : n * frames.length * frames.length ≤ usizeMax) (label : String) (fromIdx cnt : Nat) :
    (∃ e, foldRefusal boundary n frames label fromIdx = some e ∧
        rangeFeed boundary n frames label fromIdx cnt = .error e) ∨
      (foldRefusal boundary n frames label fromIdx = none ∧
        ∃ us, rangeFeed boundary n frames label fromIdx cnt = .ok us ∧
          us.take cnt = ((itemsOf boundary frames).drop fromIdx).take cnt ∧
          (cnt = usizeMax → us = (itemsOf boundary frames).drop fromIdx)) := by
  obtain ⟨hpast, hinside⟩ := recordsRequest_spec
    h.pos h.ne_nil small
  rw [foldRefusal]
  by_cases hle : fromIdx ≤ n * frames.length
  · obtain ⟨k, j, hkj, hj, hk, -, hreach, hreq⟩ := hinside hle
    obtain ⟨hshort, htake, hdrop⟩ := items_region h hj hkj hk hreach
    rw [if_neg (by omega), rangeFeed_of_request _ hreq]
    by_cases hlt : (boundary.find.records frames.flatten).length < fromIdx
    · rw [if_pos hlt, if_pos (hshort.mpr hlt)]
      exact Or.inl ⟨_, rfl, rfl⟩
    · rw [if_neg hlt, if_neg fun hless => hlt (hshort.mp hless)]
      refine Or.inr ⟨rfl, _, rfl, htake, ?_⟩
      rintro rfl
      apply hdrop
      rcases hreach with hend | hreach
      · exact hend
      · by_contra hne
        have hmul : n * (k + j) ≤ n * (frames.length - 1) := Nat.mul_le_mul_left n (by omega)
        have hpred : n * (frames.length - 1) < n * frames.length :=
          Nat.mul_lt_mul_of_pos_left (Nat.sub_lt h.length_pos Nat.one_pos) h.pos
        have hwide : n * frames.length ≤ n * frames.length * frames.length :=
          Nat.le_mul_of_pos_right _ h.length_pos
        omega
  · rw [if_pos (by omega), rangeFeed, hpast (by omega)]
    exact Or.inl ⟨_, rfl, rfl⟩

/-- What any other read of a range is fed. -/
theorem readFeed_spec (h : Uniform boundary.find boundary.tailIsRecord n frames)
    (small : n * frames.length * frames.length ≤ usizeMax) (label : String) (fromIdx cnt : Nat) :
    (∃ e, rangeRefusal boundary n frames label fromIdx = some e ∧
        readFeed boundary n frames label fromIdx cnt = .error e) ∨
      (rangeRefusal boundary n frames label fromIdx = none ∧
        ∃ us, readFeed boundary n frames label fromIdx cnt = .ok us ∧
          us.take cnt = ((itemsOf boundary frames).drop fromIdx).take cnt ∧
          (cnt = usizeMax → us = (itemsOf boundary frames).drop fromIdx)) := by
  have hitems := items_le_mul_length h
  rw [readFeed]
  by_cases hslot :
      fromIdx = n * frames.length ∧ (itemsOf boundary frames).length ≤ n * frames.length
  · rw [if_pos hslot, rangeRefusal, if_pos (by omega)]
    exact Or.inl ⟨_, rfl, rfl⟩
  · rw [if_neg hslot]
    have hsame : rangeRefusal boundary n frames label fromIdx =
        foldRefusal boundary n frames label fromIdx := by
      rw [rangeRefusal, foldRefusal]
      by_cases hpast : n * frames.length < fromIdx
      · rw [if_pos (by omega), if_pos hpast]
      · rw [if_neg (by omega), if_neg hpast]
    rw [hsame]
    exact rangeFeed_spec h small label fromIdx cnt

/-- So a range gathers the records it names, where it is not refused. -/
theorem gatherRange_readFeed (h : Uniform boundary.find boundary.tailIsRecord n frames)
    (small : n * frames.length * frames.length ≤ usizeMax) (label : String) (fromIdx cnt : Nat) :
    gatherRange (readFeed boundary n frames label fromIdx cnt) cnt =
      match rangeRefusal boundary n frames label fromIdx with
      | some e => .error e
      | none => .ok (((itemsOf boundary frames).drop fromIdx).take cnt).flatten := by
  rcases readFeed_spec h small label fromIdx cnt with ⟨e, hrefusal, hfeed⟩ |
    ⟨hrefusal, us, hfeed, htake, -⟩
  · rw [hrefusal, hfeed]
    rfl
  · rw [hrefusal, hfeed, ← htake]
    rfl

end SeekZstdSep
