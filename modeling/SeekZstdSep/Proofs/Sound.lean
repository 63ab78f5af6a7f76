/-
Module: SeekZstdSep.Proofs.Sound
Purpose: What the reads of a verifying reader vouch for over any frames at all: every frame they
  got past holds the count of the first one and ends with a record, as long as none of them was
  refused and the last record handed out is not an unfinished one that runs over the end of a
  frame. Where it is, they are silent about that frame.
Trusted boundary: none
Main exports: RecordReader.Judged, recordsTo_vouches, foldRecords_vouches
-/
import SeekZstdSep.Proofs.Judged
import SeekZstdSep.Proofs.Kept

namespace SeekZstdSep

open Lib

variable {boundary : Boundary} {n : Nat} {frames : List Bytes} {spans : Spans}
variable {judge : FrameJudge} {find : Finder UInt8} {k j : Nat}

namespace RecordUnitCursor

/-! ### How far a cursor has got -/

variable {region : Bytes} {start : Nat} {post : Option Lookout}

theorem length_feed (c : RecordUnitCursor) {i : Nat} (hle : i ≤ (find.records region).length) :
    (c.feed find region i).1.length =
      (if c.rejectFinalFragment && !(find.rest region).isEmpty then (find.records region).length
        else (find.items c.includeFinalRecord region).length) - i := by
  rw [feed, if_neg (by omega)]
  split <;> rw [List.length_drop]

/-- A cursor that has handed out `taken` of what another one feeds has its watch that far. -/
theorem Feeds.reached {c c' : RecordUnitCursor} {w : Window} {skip taken : Nat}
    (hflags : SameFlags c c') (hskip : c.skip = 0)
    (hle : skip ≤ (find.records region).length)
    (h : c'.Feeds find region start post w ((c.feed find region skip).1.drop taken)
      (c.feed find region skip).2) :
    ∃ i, c'.watch.At find region post i ∧
      min (skip + taken) (find.records region).length ≤ i := by
  rcases h with ⟨i, hstands, hfeed⟩ | ⟨-, -, -, hwatch, -⟩
  · obtain ⟨i', hat, hwatch, hi'⟩ := hstands.standing
    rw [hflags.skip hskip, Nat.add_zero] at hi'
    subst hi'
    refine ⟨i', hwatch, ?_⟩
    have hindex := hat.index_le
    have hlength := congrArg (fun feed => feed.1.length) hfeed
    simp only [List.length_drop] at hlength
    rw [length_feed c' hindex, length_feed c hle, hflags.includes, hflags.rejects] at hlength
    have hitems := find.length_records_le_items c.includeFinalRecord region
    split at hlength <;> omega
  · exact ⟨_, hwatch, Nat.min_le_right _ _⟩

end RecordUnitCursor

/-! ### A verifying reader of any frames -/

/-- The reader verifies `frames`, which may be any that are not empty, and holds them against
`r.sepCnt`. -/
structure RecordReader.Judged (frames : List Bytes) (judge : FrameJudge)
    (r : RecordReader) : Prop where
  spans_eq : r.frames = spansOf frames
  ne_nil : frames ≠ []
  ne : ∀ g ∈ frames, g ≠ []
  pos : 0 < r.sepCnt
  whole : r.boundary.find.Whole
  judge_eq : r.judge = some judge
  judges : judge.Judges r.sepCnt frames
  physical : judge.physical = none
  stream : r.lookup.window.source.inner.stream = frames.flatten
  cap_pos : 0 < r.lookup.window.cap
  unguarded : r.lookup.window.frameEnds = []
  length_le : frames.flatten.length ≤ usizeMax

/-- What a read of any frames vouches for, however its request and its cursor are placed. -/
def Vouches (boundary : Boundary) (n : Nat) (frames : List Bytes) (tail : Bool)
    (req : RecordsRequest) (count : Nat) : Prop :=
  Sound boundary.find tail n frames req count ↔
    ¬ Straddles boundary.find tail frames req count

/-- A walk over the region of a request that has passed its skip and handed out `taken` more. -/
structure Underway (boundary : Boundary) (n : Nat) (frames : List Bytes) (judge : FrameJudge)
    (tail : Bool) (k j skip taken : Nat) (c : RecordUnitCursor) (w : Window) : Prop where
  inside : k + j ≤ frames.length
  le : skip ≤ (boundary.find.records (regionOf frames k j)).length
  feeding : ∃ post c₀, WatchesOver judge frames k j post ∧ c₀.skip = 0 ∧
    c₀.includeFinalRecord = tail ∧ RecordUnitCursor.SameFlags c₀ c ∧
    c.Feeds boundary.find (regionOf frames k j) (startOf frames k) post w
      ((c₀.feed boundary.find (regionOf frames k j) skip).1.drop taken)
      (c₀.feed boundary.find (regionOf frames k j) skip).2

namespace Underway

variable {tail : Bool} {skip taken : Nat} {c : RecordUnitCursor} {w : Window}

theorem vouches (h : Underway boundary n frames judge tail k j skip taken c w)
    (hjudges : judge.Judges n frames) (ne : ∀ g ∈ frames, g ≠ []) :
    Vouches boundary n frames tail (requestOf frames k j skip) (skip + taken) := by
  obtain ⟨post, c₀, hpost, hskip, -, hflags, hfeeds⟩ := h.feeding
  obtain ⟨i, hat, hreach⟩ := hfeeds.reached hflags hskip h.le
  exact sound_iff hjudges ne h.inside hpost hat hreach

/-- A cursor that came to its end vouches for all of its region. -/
theorem vouches_all (h : Underway boundary n frames judge tail k j skip taken c w)
    (hjudges : judge.Judges n frames) (ne : ∀ g ∈ frames, g ≠ []) (hspent : c.spent = true)
    (count : Nat) : Vouches boundary n frames tail (requestOf frames k j skip) count := by
  obtain ⟨post, c₀, hpost, -, -, -, hfeeds⟩ := h.feeding
  obtain ⟨-, hat, -⟩ := hfeeds.of_spent hspent
  exact sound_iff hjudges ne h.inside hpost hat (Nat.min_le_right _ _)

/-- Taking one more, unless that is refused. -/
theorem nextOwned (h : Underway boundary n frames judge tail k j skip taken c w) :
    (∃ e c' w', c.nextOwned boundary.find w = (.error e, c', w')) ∨
      (∃ u c' w', c.nextOwned boundary.find w = (.ok (some u), c', w') ∧
        c'.emitted = c.emitted + 1 ∧
        Underway boundary n frames judge tail k j skip (taken + 1) c' w') ∨
      ∃ c' w', c.nextOwned boundary.find w = (.ok none, c', w') ∧ c'.spent = true ∧
        c'.emitted = c.emitted ∧ Underway boundary n frames judge tail k j skip taken c' w' := by
  obtain ⟨post, c₀, hpost, hskip, htail, hflags, hfeeds⟩ := h.feeding
  have hnextFlags := RecordUnitCursor.nextOwned_sameFlags boundary.find c w
  rcases RecordUnitCursor.nextOwned_spec hfeeds with ⟨e, c', w', hnext, -⟩ |
    ⟨u, us', c', w', hcons, hnext, hemitted, hfeeds'⟩ |
    ⟨hnil, hfin, c', w', hnext, hspent, hemitted, hfeeds'⟩ | ⟨-, e, c', w', -, hnext⟩
  · exact Or.inl ⟨e, c', w', hnext⟩
  · rw [hnext] at hnextFlags
    have hdrop : us' = (c₀.feed boundary.find (regionOf frames k j) skip).1.drop (taken + 1) := by
      rw [← List.drop_drop, hcons]
      rfl
    rw [hdrop] at hfeeds'
    exact Or.inr (Or.inl ⟨u, c', w', hnext, hemitted,
      ⟨h.inside, h.le, post, c₀, hpost, hskip, htail, hflags.trans hnextFlags, hfeeds'⟩⟩)
  · rw [hnext] at hnextFlags
    rw [← hnil, ← hfin] at hfeeds'
    exact Or.inr (Or.inr ⟨c', w', hnext, hspent, hemitted,
      ⟨h.inside, h.le, post, c₀, hpost, hskip, htail, hflags.trans hnextFlags, hfeeds'⟩⟩)
  · exact Or.inl ⟨e, c', w', hnext⟩

/-- Writing as many as are asked for. -/
theorem writeTo (h : Underway boundary n frames judge tail k j skip 0 c w)
    (hjudges : judge.Judges n frames) (ne : ∀ g ∈ frames, g ≠ []) (hemitted : c.emitted = 0)
    (requested : Nat) (sink : Sink)
    (hok : (c.writeTo boundary.find requested (w.ahead + 1) w sink).1 = .ok ()) :
    Vouches boundary n frames tail (requestOf frames k j skip) (skip + requested) := by
  obtain ⟨post, c₀, hpost, hskip, -, hflags, hfeeds⟩ := h.feeding
  have hfuel := hfeeds.length_le
  have hflags' := RecordUnitCursor.writeTo_sameFlags boundary.find requested
    (w.ahead + 1) c w sink
  rcases RecordUnitCursor.writeTo_spec requested (w.ahead + 1) _ c w sink (by omega)
    hfeeds with ⟨e, c', w', sink', hwrite, -⟩ | ⟨c', w', hwrite, hleft⟩
  · simp [hwrite] at hok
  · rw [hwrite] at hflags' hok
    have hfed := (hleft hok).feeds
    rw [hemitted, Nat.sub_zero, List.drop_zero] at hfed
    obtain ⟨i, hat, hreach⟩ := hfed.reached (hflags.trans hflags') hskip h.le
    exact sound_iff hjudges ne h.inside hpost hat hreach

/-- Folding as many as are asked for. -/
theorem tryFold (h : Underway boundary n frames judge tail k j skip 0 c w)
    (hjudges : judge.Judges n frames) (ne : ∀ g ∈ frames, g ≠ []) {β : Type} (requested : Nat)
    (f : β → Bytes → Except Error β) (init : β)
    (hok : ∃ acc, (c.tryFold boundary.find f (w.ahead + 1) (some requested) init w).1 = .ok acc) :
    Vouches boundary n frames tail (requestOf frames k j skip) (skip + requested) := by
  obtain ⟨post, c₀, hpost, hskip, -, hflags, hfeeds⟩ := h.feeding
  obtain ⟨acc, hok⟩ := hok
  have hfuel := hfeeds.length_le
  have hflags' := RecordUnitCursor.tryFold_sameFlags boundary.find f (w.ahead + 1)
    (some requested) init c w
  rcases RecordUnitCursor.tryFold_spec f (w.ahead + 1) (some requested) init _ c w (by omega)
    hfeeds with ⟨e, c', w', hfold, -⟩ | ⟨c', w', hfold, hleft⟩
  · simp [hfold] at hok
  · rw [hfold] at hflags' hok
    have hfed := (hleft acc hok).feeds
    rw [Option.getD_some, List.drop_zero] at hfed
    obtain ⟨i, hat, hreach⟩ := hfed.reached (hflags.trans hflags') hskip h.le
    exact sound_iff hjudges ne h.inside hpost hat hreach

end Underway

namespace RecordReader.Judged

variable {r r' : RecordReader}

theorem length_pos (h : r.Judged frames judge) : 0 < frames.length :=
  List.length_pos_iff.mpr h.ne_nil

theorem kept (h : r.Judged frames judge) (hkept : Kept r r') : r'.Judged frames judge := by
  have hfile := hkept.file
  have hstream := h.stream
  have hcap := h.cap_pos
  have hends := h.unguarded
  rw [hkept.eq]
  exact
    { h with
      stream := hfile.stream.trans hstream
      cap_pos := Nat.lt_of_lt_of_le hcap hfile.cap_le
      unguarded := hfile.frameEnds.trans hends }

/-- Pointed at whole frames, the window stands before their first record. -/
theorem seekTo_at (h : r.Judged frames judge) (k j : Nat) :
    Window.At r.boundary.find (regionOf frames k j) (startOf frames k) 0
      (r.lookup.window.seekTo (startOf frames k) (regionOf frames k j).length) := by
  apply Window.seekTo_at
  · rw [h.stream]
    exact regionOf_eq frames k j
  · exact h.cap_pos
  · rw [h.unguarded]
    exact List.Pairwise.nil
  · simp [h.unguarded]

/-- A walk of the frames its request begins with is watched over. -/
theorem watchOf_at (h : r.Judged frames judge) {fromIdx : Nat} (hkj : k + j ≤ frames.length)
    (hj : 0 < j)
    (hplace : fromIdx / r.sepCnt = k ∨
      (k + 1 = frames.length ∧ fromIdx = r.sepCnt * frames.length)) :
    ∃ post, WatchesOver judge frames k j post ∧
      (watchOf r.judge r.frames r.sepCnt fromIdx (startOf frames k)
        (regionOf frames k j).length).At r.boundary.find (regionOf frames k j) post 0 := by
  have hpos := h.pos
  rw [h.judge_eq, watchOf, watchVerifiedSpan, h.physical, watchSpan, if_neg (by omega), h.spans_eq]
  simp only [spansOf_length]
  rcases hplace with hk | ⟨hlast, hslot⟩
  · rw [hk, if_neg (by omega), frameEndsFrom_eq judge h.ne hkj]
    exact ⟨_, Or.inl rfl, watchFrames_at (l := lookoutOf judge frames k j)
      (lookoutOf_fits_of_whole h.whole judge h.ne hkj) rfl⟩
  · have hdiv : fromIdx / r.sepCnt = frames.length := by
      rw [hslot, Nat.mul_div_cancel_left _ hpos]
    rw [hdiv, if_pos (Nat.le_refl _)]
    exact ⟨none, Or.inr ⟨rfl, hlast⟩, Or.inl ⟨rfl, rfl⟩⟩

/-- A request whose first index does not saturate is placed and watched over. -/
theorem request (h : r.Judged frames judge) {label : String} {fromIdx cnt : Nat}
    (hsmall : frames.length * fromIdx ≤ usizeMax) {req : RecordsRequest}
    (hreq : recordsRequest r.frames r.sepCnt label fromIdx cnt = .ok req) :
    ∃ k j post, k + j ≤ frames.length ∧ req = requestOf frames k j req.skip ∧
      WatchesOver judge frames k j post ∧
      (watchOf r.judge r.frames r.sepCnt fromIdx req.start req.len).At r.boundary.find
        (regionOf frames k j) post 0 := by
  rw [h.spans_eq] at hreq
  rcases recordsRequest_cases h.pos h.ne_nil with
    ⟨e, he⟩ | ⟨k, j, hkj, hj, -, hplace, hok⟩
  · rw [he] at hreq
    simp at hreq
  · obtain rfl := Except.ok.inj (hok.symm.trans hreq)
    obtain ⟨post, hpost, hat⟩ := h.watchOf_at hkj hj (hplace hsmall)
    exact ⟨k, j, post, hkj, rfl, hpost, hat⟩

/-- Making the skip of a cursor placed at a region. -/
theorem prepare_underway {tail : Bool} {c : RecordUnitCursor} {w : Window} {post : Option Lookout}
    (hkj : k + j ≤ frames.length) (hpost : WatchesOver judge frames k j post)
    (hat : Window.At boundary.find (regionOf frames k j) (startOf frames k) 0 w)
    (hwatch : c.watch.At boundary.find (regionOf frames k j) post 0) (hwhole : c.skipWhole = true)
    (hspent : c.spent = false) (htail : c.includeFinalRecord = tail) :
    (∃ e c' w', c.prepare boundary.find w = (.error e, c', w')) ∨
      ∃ c' w', c.prepare boundary.find w = (.ok (), c', w') ∧ c'.emitted = c.emitted ∧
        c'.spent = false ∧ Underway boundary n frames judge tail k j c.skip 0 c' w' := by
  have hprepared := RecordUnitCursor.prepare_spec (i := c.skip)
    ⟨hspent, Or.inr (Or.inl hwhole), 0, hat, hwatch, Nat.zero_add _⟩
  generalize c.prepare boundary.find w = result at hprepared
  cases hprepared with
  | refused blames => exact Or.inl ⟨_, _, _, rfl⟩
  | failed short whole => exact Or.inl ⟨_, _, _, rfl⟩
  | spent short whole => simp [hwhole] at whole
  | @ready watch' w' window watch =>
      refine Or.inr ⟨_, _, rfl, rfl, hspent, hkj, window.index_le, post,
        { c with skip := 0, watch := watch' }, hpost, rfl, htail,
        RecordUnitCursor.SameFlags.refl _, Or.inl ⟨c.skip, ⟨hspent, Or.inl rfl, c.skip, window,
          watch, rfl⟩, ?_⟩⟩
      rw [List.drop_zero]

/-- A range that is not refused is walked from its request on. -/
theorem withUnits_underway (h : r.Judged frames judge) {fromIdx cnt : Nat}
    (hsmall : frames.length * fromIdx ≤ usizeMax) {req : RecordsRequest}
    (hreq : recordsRequest r.frames r.sepCnt r.label fromIdx cnt = .ok req) :
    (∃ e r', r.withUnits fromIdx cnt = (.error e, r')) ∨
      ∃ k j c r', r.withUnits fromIdx cnt = (.ok c, r') ∧ r'.boundary = r.boundary ∧
        req = requestOf frames k j req.skip ∧ c.emitted = 0 ∧
        Underway r.boundary r.sepCnt frames judge
          (r.boundary.tailIsRecord && decide (req.start + req.len = frames.flatten.length))
          k j req.skip 0 c r'.lookup.window := by
  obtain ⟨k, j, post, hkj, heq, hpost, hwatch⟩ := h.request hsmall hreq
  have hat := h.seekTo_at k j
  have hlast : r.frames.last.1 + r.frames.last.2 = frames.flatten.length := by
    rw [h.spans_eq, spansOf_last_end h.ne_nil]
  rw [RecordReader.withUnits, hreq]
  simp only [placeSpan, pointWindow, hlast]
  generalize hcursor : (if req.start + req.len = frames.flatten.length then _ else _ :
    RecordUnitCursor) = c
  obtain ⟨hskip, hwhole, hwatch', hspent, hemitted, hinclude⟩ : c.skip = req.skip ∧
      c.skipWhole = true ∧
      c.watch = watchOf r.judge r.frames r.sepCnt fromIdx req.start req.len ∧ c.spent = false ∧
      c.emitted = 0 ∧ c.includeFinalRecord =
        (r.boundary.tailIsRecord && decide (req.start + req.len = frames.flatten.length)) := by
    rw [← hcursor]
    by_cases hend : req.start + req.len = frames.flatten.length
    · rw [if_pos hend]
      obtain ⟨hskip, hwhole, hwatch, hspent, hemitted⟩ := RecordUnitCursor.atFileEnd_same
        r.boundary (.ofRecords
          { watch := watchOf r.judge r.frames r.sepCnt fromIdx req.start req.len
            skip := req.skip
            skipWhole := true })
      have hflags := RecordUnitCursor.atFileEnd_flags r.boundary
        (c := .ofRecords
          { watch := watchOf r.judge r.frames r.sepCnt fromIdx req.start req.len
            skip := req.skip
            skipWhole := true }) rfl rfl
      exact ⟨hskip, hwhole, hwatch, hspent, hemitted, by rw [hflags.1]; simp [hend]⟩
    · rw [if_neg hend]
      exact ⟨rfl, rfl, rfl, rfl, rfl, by rw [decide_eq_false hend, Bool.and_false]; rfl⟩
  have hwindow : r.lookup.window.seekTo req.start req.len =
      r.lookup.window.seekTo (startOf frames k) (regionOf frames k j).length := by rw [heq]; rfl
  rw [← hwindow] at hat
  rcases prepare_underway (n := r.sepCnt) hkj hpost hat (by rw [hwatch']; exact hwatch) hwhole
    hspent hinclude with ⟨e, c', w', hprepare⟩ | ⟨c', w', hprepare, hemitted', -, hunderway⟩
  · rw [hprepare]
    exact Or.inl ⟨e, _, rfl⟩
  · rw [hprepare]
    rw [hskip] at hunderway
    exact Or.inr ⟨k, j, c', _, rfl, rfl, heq, hemitted'.trans hemitted, hunderway⟩

/-- A read to a sink that is not refused vouches for what it got past. -/
theorem recordsTo_vouches (h : r.Judged frames judge) {fromIdx cnt : Nat} (dst : Sink)
    (hsmall : frames.length * fromIdx ≤ usizeMax) {req : RecordsRequest}
    (hreq : recordsRequest r.frames r.sepCnt r.label fromIdx cnt = .ok req)
    (hok : (r.recordsTo fromIdx cnt dst).1 = .ok ()) :
    Vouches r.boundary r.sepCnt frames
      (r.boundary.tailIsRecord && decide (req.start + req.len = frames.flatten.length)) req
      (req.skip + cnt) := by
  -- Whether the slot past the full frames holds a record only moves the window.
  obtain ⟨answer, r₀, htail, hkept⟩ : ∃ answer r₀,
      (if fromIdx = r.sepCnt * r.frames.length then
        ((finalSlotIsTail r.lookup.window r.frames r.boundary r.sepCnt).1,
          { r with lookup :=
            { window := (finalSlotIsTail r.lookup.window r.frames r.boundary r.sepCnt).2
              frame := none } })
      else (Except.ok true, r)) = (answer, r₀) ∧ RecordReader.Kept r r₀ := by
    by_cases hslot : fromIdx = r.sepCnt * r.frames.length
    · rw [if_pos hslot]
      exact ⟨_, _, rfl, RecordReader.Kept.of_window (finalSlotIsTail_sameFile _ _ _ _)⟩
    · rw [if_neg hslot]
      exact ⟨_, _, rfl, RecordReader.Kept.refl r⟩
  unfold RecordReader.recordsTo at hok
  simp only [htail] at hok
  cases answer with
  | error e => simp at hok
  | ok isTail =>
      cases isTail with
      | false => simp at hok
      | true =>
          have heq := hkept.eq
          have hreq' : recordsRequest r₀.frames r₀.sepCnt r₀.label fromIdx cnt = .ok req := by
            rw [heq]
            exact hreq
          have hboundary : r₀.boundary = r.boundary := by rw [heq]
          have hsepCnt : r₀.sepCnt = r.sepCnt := by rw [heq]
          rcases withUnits_underway (h.kept hkept) hsmall hreq' with ⟨e, r', hunits⟩ |
            ⟨k, j, c, r', hunits, hkeeps, hplace, hemitted, hunderway⟩
          · simp [hunits] at hok
          · simp only [hunits, hkeeps] at hok
            rw [hboundary, hsepCnt] at hunderway
            rw [hboundary] at hok
            have hvouches := hunderway.writeTo h.judges h.ne hemitted cnt dst (by
                generalize c.writeTo _ _ _ _ _ = result at hok ⊢
                obtain ⟨answer, c', w', sink⟩ := result
                cases answer with
                | error e => simp at hok
                | ok _ => rfl)
            rw [← hplace] at hvouches
            exact hvouches

/-- A fold that is not refused vouches for what it got past. -/
theorem foldRecords_vouches (h : r.Judged frames judge) {β : Type} {fromIdx cnt : Nat} {init : β}
    {f : β → Bytes → Except Error β} (hsmall : frames.length * fromIdx ≤ usizeMax)
    {req : RecordsRequest}
    (hreq : recordsRequest r.frames r.sepCnt r.label fromIdx cnt = .ok req) {value : β}
    (hok : (r.foldRecords fromIdx cnt init f).1 = .ok value) :
    Vouches r.boundary r.sepCnt frames
      (r.boundary.tailIsRecord && decide (req.start + req.len = frames.flatten.length)) req
      (req.skip + cnt) := by
  unfold RecordReader.foldRecords at hok
  rcases withUnits_underway h hsmall hreq with ⟨e, r', hunits⟩ |
    ⟨k, j, c, r', hunits, hkeeps, hplace, hemitted, hunderway⟩
  · simp [hunits] at hok
  · simp only [hunits, hkeeps] at hok
    have hvouches := hunderway.tryFold h.judges h.ne cnt f init (by
      generalize c.tryFold _ _ _ _ _ _ = result at hok ⊢
      obtain ⟨answer, c', w'⟩ := result
      cases answer with
      | error e => simp at hok
      | ok acc => exact ⟨acc, rfl⟩)
    rw [← hplace] at hvouches
    exact hvouches

end RecordReader.Judged

end SeekZstdSep
