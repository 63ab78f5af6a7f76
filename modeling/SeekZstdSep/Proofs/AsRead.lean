/-
Module: SeekZstdSep.Proofs.AsRead
Purpose: The soundness of the check a verifying reader makes as it reads, over every form of a
  read and every iterator, whatever the reader was asked before and whatever its frames hold.
Trusted boundary: none
Main exports: InReach, BorrowedRecordIter.steps_vouches, RecordIter.Checked,
  as_read_check_sound_iff
-/
import SeekZstdSep.Proofs.Sound

namespace SeekZstdSep

open Lib

variable {boundary : Boundary} {n : Nat} {frames : List Bytes} {judge : FrameJudge}
variable {k j : Nat}

/-! ### Where an iterator starts -/

/-- The product a read from `fromIdx` is placed by does not saturate, or only where the read is
past the end. -/
def InReach (n count fromIdx : Nat) : Prop :=
  count * fromIdx ≤ usizeMax ∨ n * count * count ≤ usizeMax

theorem InReach.mono {count fromIdx fromIdx' : Nat} (h : InReach n count fromIdx')
    (hle : fromIdx ≤ fromIdx') : InReach n count fromIdx :=
  h.imp (Nat.le_trans (Nat.mul_le_mul_left _ hle)) id

theorem InReach.of_request {spans : Spans} {label : String} {fromIdx cnt : Nat}
    {req : RecordsRequest} (h : InReach n spans.length fromIdx) (hpos : 0 < n * spans.length)
    (hreq : recordsRequest spans n label fromIdx cnt = .ok req) :
    spans.length * fromIdx ≤ usizeMax := by
  rcases h with hle | hall
  · exact hle
  · by_contra hgt
    have hfar : spans.length ≤ usizeMax / (n * spans.length) := by
      rw [Nat.le_div_iff_mul_le hpos, Nat.mul_comm]
      exact hall
    have hslot : fromIdx ≠ n * spans.length := by
      rintro rfl
      rw [Nat.mul_comm] at hgt
      exact hgt hall
    rw [recordsRequest] at hreq
    have hsaturated : saturatingMul spans.length fromIdx = usizeMax := by
      rw [saturatingMul, Nat.min_eq_right (by omega)]
    simp only [hsaturated, hslot, and_false, if_false] at hreq
    rw [if_pos hfar] at hreq
    simp at hreq

theorem RecordUnitCursor.new_eq (watch : Watcher) (skip : Nat) :
    RecordUnitCursor.new watch skip =
      .ofRecords { watch := watch, skip := skip, skipWhole := true } := rfl

namespace RecordReader.Judged

variable {r : RecordReader}

/-- Where the span of an iterator begins, and what watches over it. -/
theorem positioned (h : r.Judged frames judge) {fromIdx : Nat} {req : RecordsRequest}
    {lookup : Lookup}
    (hpositioned : positionIterSpan r.lookup r.frames r.boundary r.sepCnt r.label fromIdx =
      (.ok req, lookup)) :
    recordsRequest r.frames r.sepCnt r.label fromIdx usizeMax = .ok req ∧ lookup.frame = none ∧
      (InReach r.sepCnt frames.length fromIdx → ∃ k j post, k + j ≤ frames.length ∧
        req = requestOf frames k j req.skip ∧ WatchesOver judge frames k j post ∧
        (watchOf r.judge r.frames r.sepCnt fromIdx req.start req.len).At r.boundary.find
          (regionOf frames k j) post 0 ∧
        Window.At r.boundary.find (regionOf frames k j) (startOf frames k) 0 lookup.window) := by
  unfold positionIterSpan at hpositioned
  have hlen : r.frames.length = frames.length := by rw [h.spans_eq, spansOf_length]
  have hmoved : Window.SameFile r.lookup.window
      (if fromIdx = r.sepCnt * r.frames.length then
        finalSlotIsTail r.lookup.window r.frames r.boundary r.sepCnt
      else (Except.ok true, r.lookup.window)).2 := by
    split
    · exact finalSlotIsTail_sameFile _ _ _ _
    · exact Window.SameFile.refl _
  simp only at hpositioned
  split at hpositioned
  · simp at hpositioned
  · simp at hpositioned
  · split at hpositioned
    · simp at hpositioned
    · next req' hreq =>
        obtain ⟨hok, rfl⟩ := Prod.mk.inj hpositioned
        obtain rfl := Except.ok.inj hok
        refine ⟨hreq, rfl, fun hfits => ?_⟩
        have hsmall := InReach.of_request (by rw [hlen]; exact hfits)
          (Nat.mul_pos h.pos (by rw [hlen]; exact h.length_pos)) hreq
        rw [hlen] at hsmall
        obtain ⟨k, j, post, hkj, heq, hpost, hwatch⟩ := h.request hsmall hreq
        refine ⟨k, j, post, hkj, heq, hpost, hwatch, ?_⟩
        have hkept : Kept r { r with lookup := { window := _, frame := none } } :=
          Kept.of_window hmoved
        have hat := (h.kept hkept).seekTo_at k j
        rw [heq]
        exact hat

/-- An iterator's cursor, placed where its span begins, makes its skip. -/
theorem armed (h : r.Judged frames judge) {fromIdx : Nat} {req : RecordsRequest} {lookup : Lookup}
    (hpositioned : positionIterSpan r.lookup r.frames r.boundary r.sepCnt r.label fromIdx =
      (.ok req, lookup)) (hreach : InReach r.sepCnt frames.length fromIdx)
    {c : RecordUnitCursor} (hc : c = (RecordUnitCursor.new
      (watchOf r.judge r.frames r.sepCnt fromIdx req.start req.len) req.skip).atFileEnd
        r.boundary) :
    c.spent = false ∧ ((∃ e c' w', c.prepare r.boundary.find lookup.window = (.error e, c', w')) ∨
      ∃ k j c' w', c.prepare r.boundary.find lookup.window = (.ok (), c', w') ∧
        req = requestOf frames k j req.skip ∧ c'.emitted = 0 ∧ c'.spent = false ∧
        Underway r.boundary r.sepCnt frames judge r.boundary.tailIsRecord k j req.skip 0 c'
          w') := by
  obtain ⟨-, -, hplaced⟩ := h.positioned hpositioned
  obtain ⟨k, j, post, hkj, heq, hpost, hwatch, hat⟩ := hplaced hreach
  obtain ⟨hskip, hwhole, hwatched, hspent, hemitted⟩ := RecordUnitCursor.atFileEnd_same r.boundary
    (.new (watchOf r.judge r.frames r.sepCnt fromIdx req.start req.len) req.skip)
  have hflags := RecordUnitCursor.atFileEnd_flags r.boundary
    (c := .new (watchOf r.judge r.frames r.sepCnt fromIdx req.start req.len) req.skip) rfl rfl
  rw [← hc] at hskip hwhole hwatched hspent hemitted hflags
  refine ⟨hspent, ?_⟩
  rcases prepare_underway (n := r.sepCnt) hkj hpost hat (by rw [hwatched]; exact hwatch) hwhole
    hspent hflags.1 with hrefused | ⟨c', w', hprepare, hemitted', hspent', hunderway⟩
  · exact Or.inl hrefused
  · rw [hskip] at hunderway
    exact Or.inr ⟨k, j, c', w', hprepare, heq, hemitted'.trans hemitted, hspent', hunderway⟩

end RecordReader.Judged

/-! ### The borrowing iterator -/

/-- A walk of an iterator over `req` that was not refused and handed out `taken` records. -/
def ForwardWalk (boundary : Boundary) (n : Nat) (frames : List Bytes) (judge : FrameJudge)
    (req : RecordsRequest) (taken : Nat) (spent : Bool) (c : RecordUnitCursor) (w : Window) :
    Prop :=
  (spent = true ∧ ∀ count, Vouches boundary n frames boundary.tailIsRecord req count) ∨
    (spent = false ∧ ∃ k j, req = requestOf frames k j req.skip ∧
      Underway boundary n frames judge boundary.tailIsRecord k j req.skip taken c w)

theorem ForwardWalk.vouches {req : RecordsRequest} {taken : Nat} {spent : Bool}
    {c : RecordUnitCursor} {w : Window}
    (h : ForwardWalk boundary n frames judge req taken spent c w)
    (hjudges : judge.Judges n frames) (ne : ∀ g ∈ frames, g ≠ []) :
    Vouches boundary n frames boundary.tailIsRecord req (req.skip + taken) := by
  rcases h with ⟨-, hall⟩ | ⟨-, k, j, heq, hunderway⟩
  · exact hall _
  · have hvouches := hunderway.vouches hjudges ne
    rw [← heq] at hvouches
    exact hvouches

namespace BorrowedRecordIter

variable {r : RecordReader} {it : BorrowedRecordIter} {fromIdx taken : Nat}

/-- The iterator reads on from record `fromIdx` of `r`, has handed out `taken` records and was not
refused. -/
structure Unrefused (frames : List Bytes) (judge : FrameJudge) (r : RecordReader)
    (fromIdx taken : Nat) (it : BorrowedRecordIter) : Prop where
  kept : RecordReader.Kept r it.reader
  from_eq : it.fromIdx = fromIdx
  walk : (it.units = none ∧ it.spent = false ∧ taken = 0) ∨
    ∃ c req, it.units = some c ∧
      recordsRequest r.frames r.sepCnt r.label fromIdx usizeMax = .ok req ∧
      ForwardWalk r.boundary r.sepCnt frames judge req taken it.spent c it.reader.lookup.window

/-- What one more call comes to where it is not refused. -/
def Goes (frames : List Bytes) (judge : FrameJudge) (r : RecordReader) (fromIdx taken : Nat)
    (result : Option (Except Error Bytes) × BorrowedRecordIter) : Prop :=
  (∃ e, result.1 = some (.error e)) ∨
    (∃ u, result.1 = some (.ok u) ∧ result.2.units.isSome ∧
      result.2.Unrefused frames judge r fromIdx (taken + 1)) ∨
    (result.1 = none ∧ result.2.units.isSome ∧ result.2.Unrefused frames judge r fromIdx taken)

theorem step_goes (h : r.Judged frames judge) (hkept : RecordReader.Kept r it.reader)
    (hfrom : it.fromIdx = fromIdx) {req : RecordsRequest} {c : RecordUnitCursor}
    (hreq : recordsRequest r.frames r.sepCnt r.label fromIdx usizeMax = .ok req)
    (heq : req = requestOf frames k j req.skip) (hspent : it.spent = false)
    (hunderway : Underway r.boundary r.sepCnt frames judge r.boundary.tailIsRecord k j req.skip
      taken c it.reader.lookup.window) :
    Goes frames judge r fromIdx taken (it.step c) := by
  have hboundary : it.reader.boundary = r.boundary := by rw [hkept.eq]
  have hstep := hkept.trans (it.step_kept c)
  unfold step at hstep ⊢
  rw [hboundary] at hstep ⊢
  rcases hunderway.nextOwned with ⟨e, c', w', hnext⟩ | ⟨u, c', w', hnext, -, hunderway'⟩ |
    ⟨c', w', hnext, hspent', -, hunderway'⟩
  · rw [hnext]
    exact Or.inl ⟨e, rfl⟩
  · rw [hnext] at hstep ⊢
    exact Or.inr (Or.inl ⟨u, rfl, rfl, hstep, hfrom,
      Or.inr ⟨c', req, rfl, hreq, Or.inr ⟨hspent, k, j, heq, hunderway'⟩⟩⟩)
  · rw [hnext] at hstep ⊢
    have hall := fun count => hunderway'.vouches_all h.judges h.ne hspent' count
    rw [← heq] at hall
    simp only at hstep ⊢
    cases hfinish : c'.finish w' usizeMax with
    | mk answer c'' =>
        rw [hfinish] at hstep
        cases answer with
        | error e => exact Or.inl ⟨e, rfl⟩
        | ok _ =>
            exact Or.inr (Or.inr ⟨rfl, rfl, hstep, hfrom,
              Or.inr ⟨c'', req, rfl, hreq, Or.inl ⟨rfl, hall⟩⟩⟩)

theorem next_goes (h : r.Judged frames judge) (hreach : InReach r.sepCnt frames.length fromIdx)
    (hit : it.Unrefused frames judge r fromIdx taken) :
    Goes frames judge r fromIdx taken it.next := by
  obtain ⟨hkept, hfrom, ⟨hunits, hspent, rfl⟩ | ⟨c, req, hunits, hreq, hwalk⟩⟩ := hit
  · have hown := h.kept hkept
    have harmKept := hkept.trans it.arm_kept
    obtain ⟨hboundary, hsepCnt, hframes, hlabel⟩ : it.reader.boundary = r.boundary ∧
        it.reader.sepCnt = r.sepCnt ∧ it.reader.frames = r.frames ∧ it.reader.label = r.label := by
      rw [hkept.eq]
      exact ⟨rfl, rfl, rfl, rfl⟩
    rw [next, hspent, hunits]
    simp only [Bool.false_eq_true, if_false]
    unfold arm at harmKept ⊢
    simp only at harmKept ⊢
    cases hpositioned : positionIterSpan it.reader.lookup it.reader.frames it.reader.boundary
        it.reader.sepCnt it.reader.label it.fromIdx with
    | mk answer lookup =>
        rw [hpositioned] at harmKept
        cases answer with
        | error e => exact Or.inl ⟨e, rfl⟩
        | ok req =>
            simp only at harmKept ⊢
            obtain ⟨hreq, -, -⟩ := hown.positioned hpositioned
            obtain ⟨-, ⟨e, c', w', hprepare⟩ |
              ⟨k, j, c', w', hprepare, heq, -, -, hunderway⟩⟩ := hown.armed hpositioned
                (by rw [hfrom, hsepCnt]; exact hreach) rfl
            · rw [RecordUnitCursor.new_eq] at hprepare
              rw [hprepare]
              exact Or.inl ⟨e, rfl⟩
            · rw [RecordUnitCursor.new_eq] at hprepare
              rw [hprepare] at harmKept ⊢
              rw [hboundary, hsepCnt] at hunderway
              rw [hfrom, hframes, hsepCnt, hlabel] at hreq
              exact step_goes h harmKept hfrom hreq heq hspent hunderway
  · have hsome : it.units.isSome = true := by rw [hunits]; rfl
    rw [next, hunits]
    rcases hwalk with ⟨hspent, hall⟩ | ⟨hspent, k, j, heq, hunderway⟩
    · rw [hspent]
      exact Or.inr (Or.inr ⟨rfl, hsome, hkept, hfrom,
        Or.inr ⟨c, req, hunits, hreq, Or.inl ⟨hspent, hall⟩⟩⟩)
    · rw [hspent]
      exact step_goes h hkept hfrom hreq heq hspent hunderway

/-- The records handed out among the answers of an iterator. -/
def yielded (answers : List (Option (Except Error Bytes))) : Nat :=
  (answers.filter fun answer => answer.any fun answer => answer.toOption.isSome).length

/-- What an iterator that was not refused has vouched for. -/
theorem steps_unrefused (h : r.Judged frames judge)
    (hreach : InReach r.sepCnt frames.length fromIdx) (count : Nat) :
    ∀ (it : BorrowedRecordIter) passed, it.Unrefused frames judge r fromIdx passed →
      (∀ e, some (.error e) ∉ (it.steps count).1) →
      (0 < count → (it.steps count).2.units.isSome) ∧
        (it.steps count).2.Unrefused frames judge r fromIdx
          (passed + yielded (it.steps count).1) := by
  induction count with
  | zero => exact fun it passed hit _ => ⟨fun hpos => absurd hpos (Nat.lt_irrefl 0), hit⟩
  | succ count ih =>
      intro it passed hit hok
      have hfirst : ∀ e, it.next.1 ≠ some (.error e) := by
        intro e he
        exact hok e (by rw [steps, ← he]; exact List.mem_cons_self)
      have hrest : ∀ e, some (.error e) ∉ (it.next.2.steps count).1 :=
        fun e he => hok e (List.mem_cons_of_mem _ he)
      have hunits : ∀ (it' : BorrowedRecordIter), it'.units.isSome = true →
          (0 < count → (it'.steps count).2.units.isSome = true) →
          (it'.steps count).2.units.isSome = true := by
        intro it' hsome hlater
        cases count with
        | zero => exact hsome
        | succ count => exact hlater (Nat.succ_pos count)
      rcases next_goes h hreach hit with ⟨e, he⟩ | ⟨u, hu, hsome, hnext⟩ | ⟨hnone, hsome, hnext⟩
      · exact absurd he (hfirst e)
      · obtain ⟨hlater, hend⟩ := ih _ _ hnext hrest
        refine ⟨fun _ => hunits _ hsome hlater, ?_⟩
        have hcount : yielded (it.steps (count + 1)).1 = 1 + yielded (it.next.2.steps count).1 := by
          rw [yielded, steps, hu, List.filter_cons_of_pos rfl, List.length_cons, yielded,
            Nat.add_comm]
        rw [hcount, ← Nat.add_assoc]
        exact hend
      · obtain ⟨hlater, hend⟩ := ih _ _ hnext hrest
        refine ⟨fun _ => hunits _ hsome hlater, ?_⟩
        have hcount : yielded (it.steps (count + 1)).1 = yielded (it.next.2.steps count).1 := by
          rw [yielded, steps, hnone, List.filter_cons_of_neg (by simp), yielded]
        rw [hcount]
        exact hend

/-- Advanced at least once and not refused, the iterator vouches for what it got past. -/
theorem steps_vouches (h : r.Judged frames judge)
    (hreach : InReach r.sepCnt frames.length fromIdx) {count : Nat} (hcount : 0 < count)
    (hok : ∀ e, some (.error e) ∉ ((r.recordsFrom fromIdx).steps count).1) {req : RecordsRequest}
    (hreq : recordsRequest r.frames r.sepCnt r.label fromIdx usizeMax = .ok req) :
    Vouches r.boundary r.sepCnt frames r.boundary.tailIsRecord req
      (req.skip + yielded ((r.recordsFrom fromIdx).steps count).1) := by
  obtain ⟨hsome, hend⟩ := steps_unrefused h hreach count (r.recordsFrom fromIdx) 0
    ⟨RecordReader.Kept.refl r, rfl, Or.inl ⟨rfl, rfl, rfl⟩⟩ hok
  rcases hend.walk with ⟨hnone, -, -⟩ | ⟨c, req', -, hreq', hwalk⟩
  · have hsome := hsome hcount
    rw [hnone] at hsome
    simp at hsome
  · obtain rfl := Except.ok.inj (hreq'.symm.trans hreq)
    have hvouches := hwalk.vouches h.judges h.ne
    rwa [Nat.zero_add] at hvouches

end BorrowedRecordIter

/-! ### The owning iterator -/

theorem RecordUnitCursor.nextOwned_of_refused {find : Finder UInt8} {c c' : RecordUnitCursor}
    {w w' : Window} {e : Error} (hspent : c.spent = false)
    (hprepare : c.prepare find w = (.error e, c', w')) :
    c.nextOwned find w = (.error e, { c' with spent := true }, w') := by
  rw [nextOwned, next, nextRun, hspent, hprepare]
  rfl

/-- Making the skip first changes nothing. -/
theorem RecordUnitCursor.nextOwned_of_prepare {find : Finder UInt8} {c c' : RecordUnitCursor}
    {w w' : Window} (hspent : c.spent = false) (hspent' : c'.spent = false) (hskip : c'.skip = 0)
    (hprepare : c.prepare find w = (.ok (), c', w')) :
    c.nextOwned find w = c'.nextOwned find w' := by
  rw [nextOwned, nextOwned, next, next, nextRun, nextRun, hspent, hspent', hprepare, prepare,
    if_pos hskip]
  rfl

theorem Lookup.walkTo_frame (lookup : Lookup) (frame : Nat) (region : Nat × Nat) (inFrame : Nat) :
    (lookup.walkTo frame region inFrame).2.frame = some frame := by
  unfold walkTo
  by_cases hframe : lookup.frame = some frame
  · simp only [if_pos hframe]
    split
    · exact hframe
    · rfl
  · simp only [if_neg hframe]

theorem Underway.skip_zero {tail : Bool} {skip taken : Nat} {c : RecordUnitCursor} {w : Window}
    (h : Underway boundary n frames judge tail k j skip taken c w) : c.skip = 0 := by
  obtain ⟨post, c₀, -, hskip, -, hflags, -⟩ := h.feeding
  exact hflags.skip hskip

namespace RecordIter

/-- The reader the iterator holds the parts of. -/
def reader (it : RecordIter) : RecordReader where
  label := it.label
  lookup := it.lookup
  frames := it.frames
  boundary := it.boundary
  sepCnt := it.perFrame
  judge := it.judge

/-- The frames a reverse read has counted are whole, and what it looked up last is none of those it
has yet to count, the last one excepted. -/
structure Behind (frames : List Bytes) (it : RecordIter) : Prop where
  back_lt : it.backFrame < frames.length
  full : ∀ i (_ : i + 1 < frames.length),
    it.backFrame < i ∨ (it.backFrame = i ∧ it.backLeft.isSome) →
      it.boundary.find.Full it.perFrame frames[i]
  apart : it.backLeft = none → it.lookup.frame = some it.backFrame →
    it.backFrame + 1 = frames.length
  within : ∀ k, it.backLeft.isSome → it.lookup.frame = some k → k = it.backFrame

/-- What the iterator has got past, at either end, it has checked. -/
structure Checked (frames : List Bytes) (judge : FrameJudge) (r : RecordReader)
    (it : RecordIter) : Prop where
  kept : RecordReader.Kept r it.reader
  behind : it.Behind frames
  forward : it.armed = true → ∃ c fromIdx req, it.cursor = some c ∧
    fromIdx + c.emitted = it.front ∧
    recordsRequest r.frames r.sepCnt r.label fromIdx usizeMax = .ok req ∧
    ForwardWalk r.boundary r.sepCnt frames judge req c.emitted it.spent c it.lookup.window

variable {r : RecordReader} {it : RecordIter}

/-- What one more call comes to where it is not refused. -/
def Goes (frames : List Bytes) (judge : FrameJudge) (r : RecordReader) (front : Nat)
    (result : Option (Except Error Bytes) × RecordIter) : Prop :=
  (∃ e, result.1 = some (.error e)) ∨
    (result.2.Checked frames judge r ∧ result.2.front ≤ front + 1)

theorem kept_same (hkept : RecordReader.Kept r it.reader) :
    it.boundary = r.boundary ∧ it.perFrame = r.sepCnt ∧ it.frames = r.frames ∧
      it.label = r.label ∧ it.judge = r.judge := by
  have heq := hkept.eq
  exact ⟨congrArg RecordReader.boundary heq, congrArg RecordReader.sepCnt heq,
    congrArg RecordReader.frames heq, congrArg RecordReader.label heq,
    congrArg RecordReader.judge heq⟩

/-- A step is one of whatever cursor and window answer the same. -/
theorem step_withWindow {c c' : RecordUnitCursor} {w' : Window}
    (h : c.nextOwned it.boundary.find it.lookup.window = c'.nextOwned it.boundary.find w') :
    it.step c = (it.withWindow w').step c' := by
  unfold step
  rw [h, show (it.withWindow w').boundary = it.boundary from rfl,
    show (it.withWindow w').lookup.window = w' from rfl]
  generalize c'.nextOwned it.boundary.find w' = result
  obtain ⟨answer, c'', w''⟩ := result
  cases answer with
  | error e => rfl
  | ok handed => cases handed <;> rfl

theorem step_goes (it : RecordIter) (h : r.Judged frames judge)
    (hkept : RecordReader.Kept r it.reader)
    (hbehind : it.Behind frames) {fromIdx : Nat} {req : RecordsRequest} {c : RecordUnitCursor}
    (hreq : recordsRequest r.frames r.sepCnt r.label fromIdx usizeMax = .ok req)
    (heq : req = requestOf frames k j req.skip) (hfront : fromIdx + c.emitted = it.front)
    (hspent : it.spent = false)
    (hunderway : Underway r.boundary r.sepCnt frames judge r.boundary.tailIsRecord k j req.skip
      c.emitted c it.lookup.window) :
    Goes frames judge r it.front (it.step c) := by
  obtain ⟨hboundary, -⟩ := kept_same hkept
  have hsame := RecordUnitCursor.nextOwned_sameFile r.boundary.find c it.lookup.window
  unfold step
  rw [hboundary]
  rcases hunderway.nextOwned with ⟨e, c', w', hnext⟩ | ⟨u, c', w', hnext, hemitted, hunderway'⟩ |
    ⟨c', w', hnext, hspent', hemitted, hunderway'⟩
  · rw [hnext]
    exact Or.inl ⟨e, rfl⟩
  · rw [hnext] at hsame ⊢
    rw [← hemitted] at hunderway'
    exact Or.inr ⟨⟨hkept.trans (RecordReader.Kept.of_window hsame),
      ⟨hbehind.back_lt, hbehind.full, hbehind.apart, hbehind.within⟩,
      fun _ => ⟨c', fromIdx, req, rfl, by rw [hemitted, ← Nat.add_assoc, hfront], hreq,
        Or.inr ⟨hspent, k, j, heq, hunderway'⟩⟩⟩, Nat.le_refl _⟩
  · rw [hnext] at hsame ⊢
    have hall := fun count => hunderway'.vouches_all h.judges h.ne hspent' count
    rw [← heq] at hall
    simp only
    cases hfinish : c'.finish w' usizeMax with
    | mk answer c'' =>
        cases answer with
        | error e => exact Or.inl ⟨e, rfl⟩
        | ok _ =>
            have hkeeps : c''.emitted = c'.emitted := by
              have hfinished := congrArg (fun result => result.2.emitted) hfinish
              unfold RecordUnitCursor.finish at hfinished
              split at hfinished
              · split at hfinished <;> exact hfinished.symm
              · exact hfinished.symm
            exact Or.inr ⟨⟨hkept.trans (RecordReader.Kept.of_window hsame),
              ⟨hbehind.back_lt, hbehind.full, hbehind.apart, hbehind.within⟩,
              fun _ => ⟨c'', fromIdx, req, rfl, by rw [hkeeps, hemitted, hfront]; rfl, hreq,
                Or.inl ⟨rfl, hall⟩⟩⟩, Nat.le_succ _⟩

theorem next_goes (h : r.Judged frames judge) (hit : it.Checked frames judge r)
    (hreach : InReach r.sepCnt frames.length it.front) :
    Goes frames judge r it.front it.next := by
  obtain ⟨hkept, hbehind, hforward⟩ := hit
  rw [next]
  by_cases hdone : (it.spent || it.metTheReverseRead) = true
  · rw [if_pos hdone]
    exact Or.inr ⟨⟨hkept, hbehind, hforward⟩, Nat.le_succ _⟩
  · rw [if_neg hdone]
    have hspent : it.spent = false := by
      simp only [Bool.or_eq_true, not_or, Bool.not_eq_true] at hdone
      exact hdone.1
    by_cases harmed : it.armed = true
    · obtain ⟨c, fromIdx, req, hcursor, hfront, hreq, hwalk⟩ := hforward harmed
      rw [if_pos harmed, hcursor, Option.getD_some]
      rcases hwalk with ⟨htrue, -⟩ | ⟨-, k, j, heq, hunderway⟩
      · simp [hspent] at htrue
      · exact step_goes it h hkept hbehind hreq heq hfront hspent hunderway
    · rw [if_neg harmed, arm]
      obtain ⟨hboundary, hperFrame, hframes, hlabel, hjudge⟩ := kept_same hkept
      have hown : it.reader.Judged frames judge := h.kept hkept
      cases hpositioned : positionIterSpan it.lookup it.frames it.boundary it.perFrame it.label
          it.front with
      | mk answer lookup =>
          have hsame := positionIterSpan_sameFile it.lookup it.frames it.boundary it.perFrame
            it.label it.front
          rw [hpositioned] at hsame
          cases answer with
          | error e => exact Or.inl ⟨e, rfl⟩
          | ok req =>
              obtain ⟨hreq, hframe, -⟩ := hown.positioned hpositioned
              obtain ⟨hcspent, hprepared⟩ := hown.armed hpositioned
                (by rw [show it.reader.sepCnt = it.perFrame from rfl, hperFrame]; exact hreach) rfl
              rw [show it.reader.judge = it.judge from rfl,
                show it.reader.frames = it.frames from rfl,
                show it.reader.sepCnt = it.perFrame from rfl,
                show it.reader.boundary = it.boundary from rfl] at hprepared hcspent
              simp only [Option.getD_some]
              generalize RecordUnitCursor.atFileEnd _ _ = c at hcspent hprepared ⊢
              rcases hprepared with ⟨e, c', w', hprepare⟩ |
                ⟨k, j, c', w', hprepare, heq, hemitted, hspent', hunderway⟩
              · rw [step, RecordUnitCursor.nextOwned_of_refused hcspent hprepare]
                exact Or.inl ⟨e, rfl⟩
              · have hprepareSame := RecordUnitCursor.prepare_sameFile it.boundary.find c
                  lookup.window
                rw [hprepare] at hprepareSame
                rw [hboundary, hperFrame] at hunderway
                rw [show it.reader.frames = it.frames from rfl,
                  show it.reader.sepCnt = it.perFrame from rfl,
                  show it.reader.label = it.label from rfl, hframes, hperFrame, hlabel] at hreq
                -- The first step makes the skip, so it is one of the cursor that has made it.
                rw [step_withWindow (RecordUnitCursor.nextOwned_of_prepare hcspent hspent'
                  hunderway.skip_zero hprepare)]
                have hmoved : RecordReader.Kept r
                    { it.reader with lookup := { window := w', frame := lookup.frame } } :=
                  hkept.trans (RecordReader.Kept.of_window (hsame.trans hprepareSame))
                exact step_goes
                  { it with
                    lookup := { lookup with window := w' }
                    cursor := some c
                    armed := true }
                  h hmoved
                  ⟨hbehind.back_lt, hbehind.full,
                    fun _ hsome => absurd (hframe.symm.trans hsome) (by simp),
                    fun _ _ hsome => absurd (hframe.symm.trans hsome) (by simp)⟩
                  hreq heq (by rw [hemitted]; rfl) hspent (by rw [hemitted]; exact hunderway)

/-- A single frame that is not the last, walked from its start to its end and not refused, is
whole. -/
theorem full_of_counted (h : r.Judged frames judge) {k : Nat} (hlt : k < frames.length)
    (hk : k + 1 < frames.length)
    {c : RecordUnitCursor} {w : Window}
    (hat : Window.At r.boundary.find (regionOf frames k 1) (startOf frames k) 0 w)
    (hc : c = .ofRecords
      { watch := watchOf r.judge r.frames r.sepCnt (k * r.sepCnt) (startOf frames k)
          (regionOf frames k 1).length })
    {count : Nat} {c' c'' : RecordUnitCursor} {w' : Window}
    (hfold : c.tryFold r.boundary.find (fun (count : Nat) _ => .ok (count + 1)) (w.ahead + 1) none
      0 w = (.ok count, c', w'))
    (hfinish : c'.finish w' usizeMax = (.ok (), c'')) :
    r.boundary.find.Full r.sepCnt frames[k] := by
  obtain ⟨post, hpost, hwatch⟩ := h.watchOf_at (k := k) (j := 1) (by omega)
    Nat.one_pos (Or.inl (Nat.mul_div_cancel k h.pos))
  have hfeeds : c.Feeds r.boundary.find (regionOf frames k 1) (startOf frames k) post w
      (r.boundary.find.records (regionOf frames k 1)) none := by
    refine Or.inl ⟨0, ⟨by rw [hc]; rfl, Or.inl (by rw [hc]; rfl), 0, hat, by rw [hc]; exact hwatch,
      by rw [hc]; rfl⟩, ?_⟩
    rw [hc, RecordUnitCursor.feed, if_neg (Nat.not_lt_zero _)]
    simp [RecordUnitCursor.ofRecords, Finder.items_false]
  have hflags := RecordUnitCursor.tryFold_sameFlags r.boundary.find
    (fun (count : Nat) _ => .ok (count + 1)) (w.ahead + 1) none 0 c w
  have hfuel := hfeeds.length_le
  rcases RecordUnitCursor.tryFold_spec (fun (count : Nat) _ => .ok (count + 1)) (w.ahead + 1) none 0
    _ c w (by omega) hfeeds with ⟨e, c₁, w₁, hrefused, -⟩ | ⟨c₁, w₁, hfolded, hleft⟩
  · simp [hrefused] at hfold
  · rw [hfold] at hfolded hflags
    obtain ⟨hanswer, hcursor⟩ := Prod.mk.inj hfolded
    obtain ⟨rfl, rfl⟩ := Prod.mk.inj hcursor
    have hdone := hleft count hanswer.symm
    rw [Option.getD_none] at hdone
    have hspent := hdone.spent (Nat.lt_succ_self _)
    obtain ⟨-, hwatched, ⟨hend, heof⟩ | ⟨hinclude, -⟩⟩ := hdone.feeds.of_spent hspent
    · -- The frame is not the whole file, so what was handed out does not come to the bound.
      have hshort : c'.emitted < usizeMax := by
        have hemitted := hdone.emitted
        have hcount := r.boundary.find.length_records_le (regionOf frames k 1)
        have hadd := startOf_add frames k 1
        have hlt := startOf_lt h.ne (Nat.le_refl frames.length) hk
        have hlength := h.length_le
        rw [startOf_length] at hlt
        rw [show c.emitted = 0 by rw [hc]; rfl] at hemitted
        omega
      rw [RecordUnitCursor.finish, if_pos hshort] at hfinish
      cases hverdict : c'.watch.spent w' with
      | error e => simp [hverdict] at hfinish
      | ok watcher =>
          exact full_of_spent h.judges hk hpost hwatched (hend.remainder_of_eof heof) hverdict
    · rw [hflags.includes, hc] at hinclude
      simp [RecordUnitCursor.ofRecords] at hinclude

/-- Counting a frame that the last lookup did not go to checks it, unless it is the last one. -/
theorem countFrame_goes (h : r.Judged frames judge) (hkept : RecordReader.Kept r it.reader)
    {k : Nat} (hk : k < frames.length)
    (happart : it.lookup.frame = some k → k + 1 = frames.length) :
    (∃ e it', it.countFrame k = (.error e, it')) ∨
      ∃ count w', it.countFrame k =
          (.ok count, { it with lookup := { window := w', frame := none } }) ∧
        Window.SameFile it.lookup.window w' ∧
        ∀ _ : k + 1 < frames.length, r.boundary.find.Full r.sepCnt frames[k] := by
  obtain ⟨hboundary, hperFrame, hframes, hlabel, hjudge⟩ := kept_same hkept
  have hlen : r.frames.length = frames.length := by rw [h.spans_eq, spansOf_length]
  have hregion : it.frames.at k = (startOf frames k, (regionOf frames k 1).length) := by
    rw [hframes, h.spans_eq, spansOf_at hk, regionOf_one hk]
  have hwalked := Lookup.walkTo_sameFile it.lookup k (it.frames.at k) 0
  have hmoved : k + 1 < frames.length → (it.lookup.walkTo k (it.frames.at k) 0).2.window =
      it.lookup.window.seekTo (startOf frames k) (regionOf frames k 1).length := by
    intro hlt
    have hframe : it.lookup.frame ≠ some k := fun heq => by
      have := happart heq
      omega
    rw [Lookup.walkTo, hregion, if_neg hframe]
  rw [countFrame]
  simp only
  generalize it.lookup.walkTo k (it.frames.at k) 0 = walked at hwalked hmoved ⊢
  obtain ⟨skip, lookup⟩ := walked
  simp only at hwalked hmoved ⊢
  rw [hregion, hjudge, hframes, hperFrame, hboundary, hlen]
  simp only
  have hcursor : k + 1 < frames.length → (if k = frames.length - 1 then
        RecordUnitCursor.atFileEnd r.boundary (.ofRecords
          { watch := watchOf r.judge r.frames r.sepCnt (k * r.sepCnt) (startOf frames k)
              (regionOf frames k 1).length })
      else .ofRecords
        { watch := watchOf r.judge r.frames r.sepCnt (k * r.sepCnt) (startOf frames k)
            (regionOf frames k 1).length }) =
      RecordUnitCursor.ofRecords
        { watch := watchOf r.judge r.frames r.sepCnt (k * r.sepCnt) (startOf frames k)
            (regionOf frames k 1).length } := by
    intro hlt
    rw [if_neg (by omega)]
  generalize (if k = frames.length - 1 then _ else _ : RecordUnitCursor) = c at hcursor ⊢
  have hfolded := RecordUnitCursor.tryFold_sameFile r.boundary.find
    (fun (count : Nat) _ => .ok (count + 1)) (lookup.window.ahead + 1) none 0 c lookup.window
  cases hfold : c.tryFold r.boundary.find (fun (count : Nat) _ => .ok (count + 1))
      (lookup.window.ahead + 1) none 0 lookup.window with
  | mk answer rest =>
      obtain ⟨c', w'⟩ := rest
      rw [hfold] at hfolded
      cases answer with
      | error e => exact Or.inl ⟨e, _, rfl⟩
      | ok count =>
          simp only
          cases hfinish : c'.finish w' usizeMax with
          | mk verdict c'' =>
              cases verdict with
              | error e => exact Or.inl ⟨e, _, rfl⟩
              | ok _ =>
                  refine Or.inr ⟨count, w', rfl, hwalked.trans hfolded, fun hlt => ?_⟩
                  have hat : Window.At r.boundary.find (regionOf frames k 1) (startOf frames k) 0
                      lookup.window := by
                    rw [hmoved hlt]
                    have hat := (h.kept hkept).seekTo_at k 1
                    rw [show it.reader.boundary = it.boundary from rfl, hboundary] at hat
                    exact hat
                  exact full_of_counted h (by omega) hlt hat (hcursor hlt) hfold hfinish

theorem recordBack_same (it : RecordIter) (index : Nat) :
    ∃ w', (it.recordBack index).2 =
        { it with lookup := { window := w', frame := some it.backFrame } } ∧
      Window.SameFile it.lookup.window w' := by
  have hwalked := Lookup.walkTo_sameFile it.lookup it.backFrame (it.frames.at it.backFrame) index
  have hframe := Lookup.walkTo_frame it.lookup it.backFrame (it.frames.at it.backFrame) index
  rw [recordBack]
  generalize it.lookup.walkTo it.backFrame (it.frames.at it.backFrame) index = walked
    at hwalked hframe ⊢
  obtain ⟨skip, window, frame⟩ := walked
  obtain rfl : frame = some it.backFrame := hframe
  simp only
  exact ⟨_, rfl, hwalked.trans (RecordUnitCursor.nextOwned_sameFile _ _ _)⟩

/-- A reverse step in a frame that is counted. -/
theorem counted_goes {fuel left : Nat}
    (ih : ∀ it : RecordIter, it.Checked frames judge r → it.armed = false →
      InReach r.sepCnt frames.length it.front → Goes frames judge r it.front (nextBackFuel fuel it))
    (hit : it.Checked frames judge r) (harmed : it.armed = false) (hspent : it.spent = false)
    (hreach : InReach r.sepCnt frames.length it.front) (hleft : it.backLeft = some left) :
    Goes frames judge r it.front (nextBackFuel (fuel + 1) it) := by
  have hbehind := hit.behind
  have hsome : it.backLeft.isSome = true := by rw [hleft]; rfl
  have hunarmed : ∀ {p : Prop}, it.armed = true → p := fun htrue => by simp [harmed] at htrue
  have hsameIter : { it with backLeft := some left } = it := by rw [← hleft]
  have hstopped : Checked frames judge r { it with backLeft := some left, spent := true } :=
    ⟨hit.kept, ⟨hbehind.back_lt,
      fun i hi hcase => hbehind.full i hi (hcase.imp id fun hcase => ⟨hcase.1, hsome⟩),
      by simp, fun k _ hk => hbehind.within k hsome hk⟩, hunarmed⟩
  rw [nextBackFuel, if_neg (by simp [hspent])]
  simp only [hleft, Option.isNone_some, Bool.false_eq_true, if_false, false_and, hsameIter]
  by_cases hzero : left = 0
  · rw [if_pos hzero]
    by_cases hfirst : it.backFrame = 0
    · rw [if_pos hfirst]
      exact Or.inr ⟨hstopped, Nat.le_succ _⟩
    · rw [if_neg hfirst]
      have hlt := hbehind.back_lt
      -- The frame left behind is counted, and what was looked up last is in no frame before it.
      refine ih { it with backFrame := it.backFrame - 1, backLeft := none }
        ⟨hit.kept, ⟨by show it.backFrame - 1 < _; omega, ?_, ?_, by simp⟩, hunarmed⟩ harmed hreach
      · rintro i hi (hgt | ⟨-, hnone⟩)
        · have hgt : it.backFrame - 1 < i := hgt
          rcases Nat.lt_or_eq_of_le (show it.backFrame ≤ i by omega) with hlt | heq
          · exact hbehind.full i hi (Or.inl hlt)
          · exact hbehind.full i hi (Or.inr ⟨heq, hsome⟩)
        · simp at hnone
      · intro _ hframe
        have hsub : it.backFrame - 1 = it.backFrame := hbehind.within _ hsome hframe
        omega
  · rw [if_neg hzero]
    by_cases hmet : it.backFrame * it.perFrame + (left - 1) < it.front
    · rw [if_pos hmet]
      exact Or.inr ⟨hstopped, Nat.le_succ _⟩
    · rw [if_neg hmet]
      obtain ⟨w', hback, hsame⟩ := recordBack_same it (left - 1)
      have hafter : Checked frames judge r
          { it with
            lookup := { window := w', frame := some it.backFrame }
            backLeft := some (left - 1) } := by
        refine ⟨hit.kept.trans (RecordReader.Kept.of_window hsame),
          ⟨hbehind.back_lt, fun i hi hcase => ?_, by simp, fun k _ hk => (Option.some.inj hk).symm⟩,
          hunarmed⟩
        exact hbehind.full i hi (hcase.imp id fun hcase => ⟨hcase.1, hsome⟩)
      generalize it.recordBack (left - 1) = result at hback ⊢
      obtain ⟨answer, it'⟩ := result
      obtain rfl : it' = _ := hback
      cases answer with
      | error e => exact Or.inl ⟨e, rfl⟩
      | ok handed =>
          cases handed with
          | some record => exact Or.inr ⟨hafter, Nat.le_succ _⟩
          | none => exact ih _ hafter harmed hreach

theorem nextBackFuel_goes (h : r.Judged frames judge) (fuel : Nat) :
    ∀ it : RecordIter, it.Checked frames judge r → it.armed = false →
      InReach r.sepCnt frames.length it.front →
      Goes frames judge r it.front (nextBackFuel fuel it) := by
  induction fuel with
  | zero => exact fun it _ _ _ => Or.inl ⟨_, rfl⟩
  | succ fuel ih =>
      intro it hit harmed hreach
      have hbehind := hit.behind
      by_cases hspent : it.spent = true
      · rw [nextBackFuel, if_pos hspent]
        exact Or.inr ⟨hit, Nat.le_succ _⟩
      rw [Bool.not_eq_true] at hspent
      cases hleft : it.backLeft with
      | some left => exact counted_goes ih hit harmed hspent hreach hleft
      | none =>
          obtain ⟨hboundary, hperFrame, -⟩ := kept_same hit.kept
          rcases countFrame_goes h hit.kept hbehind.back_lt (hbehind.apart hleft) with
            ⟨e, it', hcount⟩ | ⟨left, w', hcount, hsame, hfull⟩
          · rw [nextBackFuel, if_neg (by simp [hspent])]
            simp only [hleft, hcount]
            exact Or.inl ⟨e, rfl⟩
          · have hkept : RecordReader.Kept r
                { it.reader with lookup := { window := w', frame := none } } :=
              hit.kept.trans (RecordReader.Kept.of_window hsame)
            have hunarmed : ∀ {p : Prop}, it.armed = true → p := fun htrue => by
              simp [harmed] at htrue
            by_cases hforward : it.backFrame = it.frames.length - 1 ∧
                it.front > it.backFrame * it.perFrame + left
            · -- The last frame was counted, and the forward walk takes over.
              have hgoes : nextBackFuel (fuel + 1) it =
                  next { it with lookup := { window := w', frame := none } } := by
                rw [nextBackFuel, if_neg (by simp [hspent])]
                simp only [hleft, hcount, Option.isNone_none, true_and, if_pos hforward]
              rw [hgoes]
              exact next_goes h
                ⟨hkept, ⟨hbehind.back_lt, hbehind.full, by simp, by simp⟩, hunarmed⟩ hreach
            · have hcounted : nextBackFuel (fuel + 1) it = nextBackFuel (fuel + 1)
                  { it with
                    lookup := { window := w', frame := none }
                    backLeft := some left } := by
                rw [nextBackFuel, nextBackFuel, if_neg (by simp [hspent]),
                  if_neg (by simp [hspent])]
                simp only [hleft, hcount, Option.isNone_none, true_and, if_neg hforward,
                  Option.isNone_some, Bool.false_eq_true, false_and, if_false]
              rw [hcounted]
              refine counted_goes ih
                ⟨hkept, ⟨hbehind.back_lt, fun i hi hcase => ?_, by simp, by simp⟩, hunarmed⟩ harmed
                hspent hreach rfl
              rcases hcase with hlt | ⟨rfl, -⟩
              · exact hbehind.full i hi (Or.inl hlt)
              · rw [hboundary, hperFrame]
                exact hfull hi

theorem nextBack_goes (h : r.Judged frames judge) (hit : it.Checked frames judge r)
    (hreach : InReach r.sepCnt frames.length it.front) :
    Goes frames judge r it.front it.nextBack :=
  nextBackFuel_goes h _ { it with armed := false }
    ⟨hit.kept, ⟨hit.behind.back_lt, hit.behind.full, hit.behind.apart, hit.behind.within⟩,
      fun htrue => by simp at htrue⟩ rfl hreach

theorem pull_goes (h : r.Judged frames judge) (hit : it.Checked frames judge r)
    (hreach : InReach r.sepCnt frames.length it.front) (side : Side) :
    Goes frames judge r it.front (it.pull side) := by
  cases side with
  | front => exact next_goes h hit hreach
  | back => exact nextBack_goes h hit hreach

/-- The iterator after the calls of a schedule. -/
def after : List Side → RecordIter → RecordIter
  | [], it => it
  | side :: sides, it => after sides (it.pull side).2

/-- A schedule that meets no error is checked to its end. -/
theorem after_checked (h : r.Judged frames judge) (sides : List Side) :
    ∀ it : RecordIter, it.Checked frames judge r →
      InReach r.sepCnt frames.length (it.front + sides.length) →
      (∀ e, some (.error e) ∉ it.run sides) → (it.after sides).Checked frames judge r := by
  induction sides with
  | nil => exact fun it hit _ _ => hit
  | cons side sides ih =>
      intro it hit hreach hok
      rw [List.length_cons] at hreach
      rcases pull_goes h hit (hreach.mono (by omega)) side with ⟨e, he⟩ | ⟨hchecked, hfront⟩
      · exact absurd (by rw [run, he]; exact List.mem_cons_self) (hok e)
      · exact ih _ hchecked (hreach.mono (by omega)) fun e he =>
          hok e (by rw [run]; exact List.mem_cons_of_mem _ he)

/-- A fresh iterator has got past nothing. -/
theorem fresh_checked (h : r.Judged frames judge) (fromIdx : Nat) :
    (r.intoRecordsFrom fromIdx).Checked frames judge (r.intoRecordsFrom fromIdx).reader := by
  have hlen : r.frames.length = frames.length := by rw [h.spans_eq, spansOf_length]
  have hpos := h.length_pos
  have hback : (r.intoRecordsFrom fromIdx).backFrame = r.frames.length - 1 := rfl
  refine ⟨RecordReader.Kept.refl _, ⟨by omega, ?_, fun _ _ => by omega, ?_⟩, ?_⟩
  · rintro i hi (hlt | ⟨-, hsome⟩)
    · omega
    · simp [RecordReader.intoRecordsFrom] at hsome
  · intro k hsome
    simp [RecordReader.intoRecordsFrom] at hsome
  · intro htrue
    simp [RecordReader.intoRecordsFrom] at htrue

theorem intoRecordsFrom_judged (h : r.Judged frames judge) (fromIdx : Nat) :
    (r.intoRecordsFrom fromIdx).reader.Judged frames judge :=
  { h with }

end RecordIter

/-! ### A file that is read as it is checked -/

theorem Opened.verifying_judged {file : SeekableFile} {label : String} {r : RecordReader}
    (h : Opened file label boundary r) (ne : ∀ g ∈ file.contents, g ≠ [])
    (hwhole : boundary.find.Whole) :
    r.verifying.Judged file.contents
      { label := r.label
        last := file.contents.length - 1
        perFrame := r.sepCnt
        physical := none } := by
  have hlength : r.frames.length = file.contents.length := by rw [h.frames_eq, spansOf_length]
  unfold RecordReader.verifying
  simp only [h.originalFrameCount, Option.map_none, Option.isNone_none, if_true, Option.getD_none,
    RecordReader.recordsPerFrame, h.originalRecordsPerFrame, hlength]
  exact
    { spans_eq := h.frames_eq
      ne_nil := h.ne_nil
      ne := ne
      pos := h.sepCnt_pos
      whole := by rw [h.boundary_eq]; exact hwhole
      judge_eq := rfl
      judges := ⟨rfl, rfl⟩
      physical := rfl
      stream := h.stream
      cap_pos := h.cap_pos
      unguarded := rfl
      length_le := file.length_le }

/-- The whole records of the first frame of a file. -/
def countOfFirst (boundary : Boundary) (file : SeekableFile) : Nat :=
  (boundary.find.records (file.contents.headD [])).length

/-- Whatever a verifying reader was asked before, a read that meets no error has got past no frame
but the last that does not hold the count of the first and end with a record, exactly as long as
it has not handed out an unfinished record that runs over the end of such a frame. The frames a
reverse read has counted are whole. -/
theorem as_read_check_sound_iff {file : SeekableFile} {label : String} {r₀ r : RecordReader}
    (hopen : RecordReader.fromReader file label boundary = .ok r₀)
    (ne : ∀ g ∈ file.contents, g ≠ []) (hwhole : boundary.find.Whole) {calls : List Call}
    (hcalls : r = (r₀.verifying.performs calls).2) {fromIdx cnt : Nat} {req : RecordsRequest} :
    (InReach (countOfFirst boundary file) file.contents.length fromIdx →
      recordsRequest (spansOf file.contents) (countOfFirst boundary file) label fromIdx cnt =
        .ok req →
      ((∃ bytes, (r.records fromIdx cnt).1 = .ok bytes) ∨
          (∃ dst, (r.recordsTo fromIdx cnt dst).1 = .ok ()) ∨
          ∃ (β : Type) (init value : β) (f : β → Bytes → Except Error β),
            (r.foldRecords fromIdx cnt init f).1 = .ok value) →
      Vouches boundary (countOfFirst boundary file) file.contents
        (boundary.tailIsRecord && decide (req.start + req.len = file.contents.flatten.length)) req
        (req.skip + cnt)) ∧
    (InReach (countOfFirst boundary file) file.contents.length fromIdx →
      recordsRequest (spansOf file.contents) (countOfFirst boundary file) label fromIdx usizeMax =
        .ok req →
      ∀ steps, 0 < steps → (∀ e, some (.error e) ∉ ((r.recordsFrom fromIdx).steps steps).1) →
        Vouches boundary (countOfFirst boundary file) file.contents boundary.tailIsRecord req
          (req.skip + BorrowedRecordIter.yielded ((r.recordsFrom fromIdx).steps steps).1)) ∧
    (∀ sides : List Side,
      InReach (countOfFirst boundary file) file.contents.length (fromIdx + sides.length) →
      (∀ e, some (.error e) ∉ (r.intoRecordsFrom fromIdx).run sides) →
      (((r.intoRecordsFrom fromIdx).after sides).armed = true →
        ∃ c began req, ((r.intoRecordsFrom fromIdx).after sides).cursor = some c ∧
          began + c.emitted = ((r.intoRecordsFrom fromIdx).after sides).front ∧
          recordsRequest (spansOf file.contents) (countOfFirst boundary file) label began usizeMax =
            .ok req ∧
          Vouches boundary (countOfFirst boundary file) file.contents boundary.tailIsRecord req
            (req.skip + c.emitted)) ∧
        ∀ i (_ : i + 1 < file.contents.length),
          ((r.intoRecordsFrom fromIdx).after sides).backFrame < i ∨
            (((r.intoRecordsFrom fromIdx).after sides).backFrame = i ∧
              ((r.intoRecordsFrom fromIdx).after sides).backLeft.isSome) →
          boundary.find.Full (countOfFirst boundary file) file.contents[i]) := by
  have hopened := RecordReader.opened_of_fromReader hopen
  have hkept := RecordReader.performs_kept calls r₀.verifying
  have hjudged := (hopened.verifying_judged ne hwhole).kept hkept
  rw [← hcalls] at hkept hjudged
  obtain ⟨hboundary, hsepCnt, hframes, hlabel⟩ : r.boundary = boundary ∧
      r.sepCnt = countOfFirst boundary file ∧ r.frames = spansOf file.contents ∧
      r.label = label := by
    rw [hkept.eq]
    exact ⟨hopened.boundary_eq, hopened.sepCnt_eq, hopened.frames_eq, hopened.label_eq⟩
  rw [← hboundary, ← hframes, ← hlabel]
  rw [← hboundary] at hsepCnt
  rw [← hsepCnt]
  refine ⟨fun hreach hreq hok => ?_, fun hreach hreq steps hsteps hok => ?_,
    fun sides hreach hok => ?_⟩
  · have hlength : r.frames.length = file.contents.length := by rw [hframes, spansOf_length]
    have hsmall := InReach.of_request (by rw [hlength]; exact hreach)
      (Nat.mul_pos hjudged.pos (by rw [hlength]; exact hjudged.length_pos)) hreq
    rw [hlength] at hsmall
    rcases hok with ⟨bytes, hrecords⟩ | ⟨dst, hto⟩ | ⟨β, init, value, f, hfold⟩
    · apply hjudged.recordsTo_vouches {} hsmall hreq
      rw [RecordReader.records] at hrecords
      generalize r.recordsTo fromIdx cnt {} = result at hrecords ⊢
      obtain ⟨answer, r', sink⟩ := result
      cases answer with
      | error e => simp at hrecords
      | ok _ => rfl
    · exact hjudged.recordsTo_vouches _ hsmall hreq hto
    · exact hjudged.foldRecords_vouches hsmall hreq hfold
  · exact BorrowedRecordIter.steps_vouches hjudged hreach hsteps hok hreq
  · have hchecked := RecordIter.after_checked (RecordIter.intoRecordsFrom_judged hjudged fromIdx)
      sides _ (RecordIter.fresh_checked hjudged fromIdx) hreach hok
    obtain ⟨hfind, hperFrame, -⟩ := RecordIter.kept_same hchecked.kept
    refine ⟨fun harmed => ?_, fun i hi hcase => ?_⟩
    · obtain ⟨c, began, req, hcursor, hfront, hreq, hwalk⟩ := hchecked.forward harmed
      exact ⟨c, began, req, hcursor, hfront, hreq, hwalk.vouches hjudged.judges hjudged.ne⟩
    · have hfull := hchecked.behind.full i hi hcase
      rw [hfind, hperFrame] at hfull
      exact hfull

/-- A line a frame, the second one of which ends in the third. -/
def stitchedFile : SeekableFile where
  frames := [lineFrame, frameOf [98, 99, 100], frameOf [101, 102]]
  reads := fun tick => tick
  count_le := by decide

/-- What a read of two of its records from the first on decodes. -/
def stitchedRequest : RecordsRequest := { start := 0, len := 7, skip := 0 }

theorem stitchedFile_read :
    ∃ r, RecordReader.fromReader stitchedFile "stitched" lineBoundary = .ok r ∧
      recordsRequest (spansOf stitchedFile.contents) 1 "stitched" 0 2 = .ok stitchedRequest ∧
      (r.verifying.records 0 2).1 = .ok [97, 10, 98, 99, 100, 101, 102] := by
  obtain ⟨r, hopen, -⟩ := RecordReader.fromReader_isOk stitchedFile "stitched" lineBoundary
    (by decide) (by decide)
  have hread : (RecordReader.fromReader stitchedFile "stitched" lineBoundary).map
      (fun r => (r.verifying.records 0 2).1) = .ok (.ok [97, 10, 98, 99, 100, 101, 102]) := rfl
  rw [hopen] at hread
  exact ⟨r, hopen, rfl, Except.ok.inj hread⟩

theorem as_read_check_sound_iff_stitchedFile :
    ∃ r, RecordReader.fromReader stitchedFile "stitched" lineBoundary = .ok r ∧
      (r.verifying.records 0 2).1 = .ok [97, 10, 98, 99, 100, 101, 102] ∧
      Vouches lineBoundary 1 stitchedFile.contents true stitchedRequest 2 := by
  obtain ⟨r, hopen, hreq, hread⟩ := stitchedFile_read
  refine ⟨r, hopen, hread, ?_⟩
  have hcalls : r.verifying = (r.verifying.performs []).2 := rfl
  exact (as_read_check_sound_iff hopen (by decide) (separatorFinder_whole [10] (by decide))
    hcalls).1 (Or.inr (by decide)) hreq (Or.inl ⟨_, hread⟩)

/-- The read hands out the second frame and the third one as a record, and does not say that no
record ends with the second. -/
theorem as_read_check_silent_stitchedFile :
    (∀ g ∈ stitchedFile.contents, g ≠ []) ∧
      ∃ r, RecordReader.fromReader stitchedFile "stitched" lineBoundary = .ok r ∧
        (r.verifying.records 0 2).1 = .ok [97, 10, 98, 99, 100, 101, 102] ∧
        recordsRequest r.verifying.frames r.verifying.sepCnt "stitched" 0 2 = .ok stitchedRequest ∧
        ¬ Sound lineBoundary.find true 1 stitchedFile.contents stitchedRequest
          (stitchedRequest.skip + 2) := by
  obtain ⟨r, hopen, hreq, hread⟩ := stitchedFile_read
  have hopened := RecordReader.opened_of_fromReader hopen
  refine ⟨by decide, r, hopen, hread, ?_, fun hsound => ?_⟩
  · rw [show r.verifying.frames = r.frames from rfl, show r.verifying.sepCnt = r.sepCnt from rfl,
      hopened.frames_eq, hopened.sepCnt_eq]
    exact hreq
  · exact absurd (hsound 1 (by decide) (by decide) (by decide)) (by decide)

end SeekZstdSep
