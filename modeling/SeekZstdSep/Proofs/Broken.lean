/-
Module: SeekZstdSep.Proofs.Broken
Purpose: The walk toward a nonfinal frame end that has an incomplete record in front of it. Up to
  there the window stands as one that has nothing behind that frame end; where that one is spent,
  the walk is refused.
Trusted boundary: none
Main exports: Window.cappedAt, Window.Toward, Records.next_toward, Records.passSkip_toward
-/
import SeekZstdSep.Proofs.Walk

namespace SeekZstdSep

open Lib

variable {find : Finder UInt8} {reach : Bytes} {start stop i : Nat} {good more : List Nat}

/-- Reads that may hand out equally much hand out the same. -/
theorem Take.read_limit {source : Take} {limit want want' : Nat} (hlimit : 0 < source.limit)
    (hlimit' : 0 < limit) (hsame : min want source.limit = min want' limit) :
    ({ source with limit := limit } : Take).read want' =
      ((source.read want).1, { inner := (source.read want).2.inner,
                               limit := limit - (source.read want).1.length }) := by
  rw [Take.read, Take.read, if_neg (Nat.ne_of_gt hlimit), if_neg (Nat.ne_of_gt hlimit')]
  simp only [← hsame]

theorem Take.read_limit_le (source : Take) (want : Nat) :
    source.limit ≤ (source.read want).1.length + (source.read want).2.limit := by
  rw [Take.read]
  split
  · exact Nat.le_add_left _ _
  · simp only
    omega

namespace Window

/-- The window with nothing behind `stop`: neither bytes in its source nor frame ends but `good`. -/
def cappedAt (w : Window) (stop : Nat) (good : List Nat) : Window :=
  { w with
    source := { w.source with limit := stop - (w.offset + w.buf.length) }
    frameEnds := good }

theorem growIfFull_cappedAt (w : Window) :
    w.growIfFull.cappedAt stop good = (w.cappedAt stop good).growIfFull := by
  unfold growIfFull cappedAt
  split
  · rfl
  · rfl

theorem passFrameEnds_cappedAt {w : Window} {loadedEnd : Nat}
    (hbefore : ∀ e ∈ more, e - w.frameEndBase ≠ loadedEnd) (ends : List Nat) :
    (w.cappedAt stop good).passFrameEnds loadedEnd ends =
      (w.passFrameEnds loadedEnd (ends ++ more)).map fun passed => passed.cappedAt stop good := by
  induction ends generalizing w with
  | nil =>
      cases more with
      | nil => rfl
      | cons e more =>
          rw [List.nil_append, passFrameEnds, passFrameEnds,
            if_neg (hbefore e List.mem_cons_self)]
          rfl
  | cons e ends ih =>
      rw [List.cons_append, passFrameEnds, passFrameEnds]
      have hbase : (w.cappedAt stop good).frameEndBase = w.frameEndBase := rfl
      have hpos : (w.cappedAt stop good).pos = w.pos := rfl
      have hbuf : (w.cappedAt stop good).buf = w.buf := rfl
      rw [hbase, hpos, hbuf]
      split_ifs
      · rfl
      · exact ih (w := { w with nextFrameEnd := w.nextFrameEnd + 1 }) hbefore
      · rfl

theorem passFrameEnds_next_le {w passed : Window} {loadedEnd : Nat} {ends : List Nat}
    (h : w.passFrameEnds loadedEnd ends = .ok passed) :
    passed.nextFrameEnd ≤ w.nextFrameEnd + ends.length := by
  induction ends generalizing w with
  | nil =>
      cases h
      exact Nat.le_refl _
  | cons e ends ih =>
      rw [passFrameEnds] at h
      split_ifs at h
      · have hle := ih h
        rw [List.length_cons]
        simp only at hle
        omega
      · cases h
        exact Nat.le_add_right _ _

theorem slide_loaded {w : Window} (hpos : w.pos ≤ w.buf.length) :
    w.slide.offset + w.slide.buf.length = w.offset + w.buf.length := by
  unfold slide
  split
  · simp only [List.length_drop]
    omega
  · rfl

theorem slide_cappedAt {w : Window} (hpos : w.pos ≤ w.buf.length) :
    w.slide.cappedAt stop good = (w.cappedAt stop good).slide := by
  have hloaded := slide_loaded hpos
  unfold slide at hloaded ⊢
  unfold cappedAt
  split
  · next hconsumed =>
      rw [if_pos hconsumed] at hloaded
      simp only [hloaded]
  · rfl

/-- Where frame ends and source of a window run past `stop`, and a frame ends there. -/
structure RunsPast (good more : List Nat) (stop : Nat) (w : Window) : Prop where
  ends : w.frameEnds = good ++ (w.frameEndBase + stop) :: more
  next_le : w.nextFrameEnd ≤ good.length
  before : ∀ e ∈ good, e < w.frameEndBase + stop
  behind : ∀ e ∈ more, w.frameEndBase + stop ≤ e
  limit_le : stop ≤ w.offset + w.buf.length + w.source.limit

theorem RunsPast.drop_ends {w : Window} (h : RunsPast good more stop w) :
    w.frameEnds.drop w.nextFrameEnd =
      good.drop w.nextFrameEnd ++ (w.frameEndBase + stop) :: more := by
  rw [h.ends, List.drop_append_of_le_length h.next_le]

theorem RunsPast.until_cappedAt {w : Window} (h : RunsPast good more stop w)
    (hloaded : w.offset + w.buf.length < stop) :
    min (w.untilFrameEnd (w.offset + w.buf.length)) w.source.limit =
      min ((w.cappedAt stop good).untilFrameEnd (w.offset + w.buf.length))
        (stop - (w.offset + w.buf.length)) := by
  have hlimit := h.limit_le
  rcases Nat.lt_or_ge w.nextFrameEnd good.length with hlt | hge
  · have hbefore := h.before _ (List.getElem_mem hlt)
    have hnext : w.frameEnds[w.nextFrameEnd]? = some good[w.nextFrameEnd] := by
      rw [h.ends, List.getElem?_append_left hlt, List.getElem?_eq_getElem hlt]
    have hnext' : (w.cappedAt stop good).frameEnds[(w.cappedAt stop good).nextFrameEnd]? =
        some good[w.nextFrameEnd] := List.getElem?_eq_getElem hlt
    rw [untilFrameEnd, untilFrameEnd, hnext, hnext']
    simp only [cappedAt]
    omega
  · have hindex : w.nextFrameEnd - good.length = 0 := Nat.sub_eq_zero_of_le h.next_le
    have hnext : w.frameEnds[w.nextFrameEnd]? = some (w.frameEndBase + stop) := by
      rw [h.ends, List.getElem?_append_right hge, hindex, List.getElem?_cons_zero]
    have hnext' : (w.cappedAt stop good).frameEnds[(w.cappedAt stop good).nextFrameEnd]? = none :=
      List.getElem?_eq_none hge
    rw [untilFrameEnd, untilFrameEnd, hnext, hnext']
    simp only [cappedAt]
    omega

theorem RunsPast.fill_cappedAt {w : Window} (h : RunsPast good more stop w)
    (hloaded : w.offset + w.buf.length < stop) :
    (w.cappedAt stop good).fill (w.offset + w.buf.length) =
      ((w.fill (w.offset + w.buf.length)).1,
        (w.fill (w.offset + w.buf.length)).2.cappedAt stop good) := by
  have hlimit := h.limit_le
  have hread := Take.read_limit (by omega) (by omega) (h.until_cappedAt hloaded)
  have hsource : (w.cappedAt stop good).source =
      { w.source with limit := stop - (w.offset + w.buf.length) } := rfl
  rw [fill, fill, hsource, hread]
  generalize w.source.read (w.untilFrameEnd (w.offset + w.buf.length)) = got
  simp only
  split
  · next hnone =>
      rw [hnone, Nat.sub_zero]
      rfl
  · have hmore : stop - (w.offset + w.buf.length) - got.1.length =
        stop - (w.offset + (w.buf ++ got.1).length) := by
      rw [List.length_append]
      omega
    rw [hmore]
    rfl

theorem RunsPast.growIfFull {w : Window} (h : RunsPast good more stop w) :
    RunsPast good more stop w.growIfFull := by
  unfold Window.growIfFull
  split
  · exact ⟨h.ends, h.next_le, h.before, h.behind, h.limit_le⟩
  · exact h

theorem RunsPast.slide {w : Window} (h : RunsPast good more stop w) (hpos : w.pos ≤ w.buf.length) :
    RunsPast good more stop w.slide := by
  unfold Window.slide
  split
  · have hlimit := h.limit_le
    refine ⟨h.ends, h.next_le, h.before, h.behind, ?_⟩
    simp only [List.length_drop]
    omega
  · exact h

theorem RunsPast.fill {w : Window} (h : RunsPast good more stop w) (loadedEnd : Nat) :
    RunsPast good more stop (w.fill loadedEnd).2 := by
  have hlimit := h.limit_le
  have hread := Take.read_limit_le w.source (w.untilFrameEnd loadedEnd)
  unfold Window.fill
  simp only
  split
  · next hnone =>
      refine ⟨h.ends, h.next_le, h.before, h.behind, ?_⟩
      simp only
      omega
  · refine ⟨h.ends, h.next_le, h.before, h.behind, ?_⟩
    simp only [List.length_append]
    omega

/-- Short of `stop` the two windows read on alike. -/
theorem RunsPast.refill_cappedAt {w : Window} (h : RunsPast good more stop w)
    (hpos : w.pos ≤ w.buf.length) (hloaded : w.offset + w.buf.length < stop) :
    (w.cappedAt stop good).refill = (w.refill.1, w.refill.2.cappedAt stop good) ∧
      RunsPast good more stop w.refill.2 := by
  have hbehind : ∀ e ∈ (w.frameEndBase + stop) :: more,
      e - w.frameEndBase ≠ w.offset + w.buf.length := by
    intro e hin
    rcases List.mem_cons.mp hin with rfl | hin
    · omega
    · have hle := h.behind e hin
      omega
  have hpass := @passFrameEnds_cappedAt stop good _ w _ hbehind (good.drop w.nextFrameEnd)
  rw [← h.drop_ends] at hpass
  have hpass' : (w.cappedAt stop good).passFrameEnds
      ((w.cappedAt stop good).offset + (w.cappedAt stop good).buf.length)
      ((w.cappedAt stop good).frameEnds.drop (w.cappedAt stop good).nextFrameEnd) = _ := hpass
  rw [refill, refill]
  simp only [hpass']
  cases heof : w.eof with
  | true =>
      have heof' : (w.cappedAt stop good).eof = true := heof
      rw [if_pos heof', if_pos rfl]
      exact ⟨rfl, h⟩
  | false =>
    have heof' : ¬ (w.cappedAt stop good).eof = true := by
      rw [show (w.cappedAt stop good).eof = w.eof from rfl, heof]
      exact Bool.false_ne_true
    rw [if_neg heof', if_neg Bool.false_ne_true]
    cases hpassed : w.passFrameEnds (w.offset + w.buf.length)
        (w.frameEnds.drop w.nextFrameEnd) with
    | error e => exact ⟨rfl, h⟩
    | ok passed =>
        have hle : passed.nextFrameEnd ≤ good.length := by
          have hmapped : (w.cappedAt stop good).passFrameEnds (w.offset + w.buf.length)
              (good.drop w.nextFrameEnd) = .ok (passed.cappedAt stop good) := by
            rw [hpass, hpassed]
            rfl
          have hnext := passFrameEnds_next_le hmapped
          rw [List.length_drop] at hnext
          have hsame : w.nextFrameEnd + (good.length - w.nextFrameEnd) = good.length := by
            have := h.next_le
            omega
          exact hnext.trans (Nat.le_of_eq hsame)
        obtain ⟨c, hc⟩ := passFrameEnds_eq hpassed
        have hpos' : passed.pos ≤ passed.buf.length := by rw [hc]; exact hpos
        have hend' : passed.offset + passed.buf.length = w.offset + w.buf.length := by rw [hc]
        have hpasses : RunsPast good more stop passed := by
          rw [hc] at hle ⊢
          exact ⟨h.ends, hle, h.before, h.behind, h.limit_le⟩
        have hslid := hpasses.slide hpos'
        have hend := (slide_loaded hpos').trans hend'
        have hfill := hslid.fill_cappedAt (hend ▸ hloaded)
        rw [slide_cappedAt hpos', hend] at hfill
        have hfill' : (passed.cappedAt stop good).slide.fill
            ((w.cappedAt stop good).offset + (w.cappedAt stop good).buf.length) = _ := hfill
        simp only [Except.map, hfill', true_and]
        exact hslid.fill _

theorem refill_eof {w : Window} (h : w.refill.1 = .ok true) : w.refill.2.eof = w.eof := by
  unfold refill at h ⊢
  split
  · rfl
  · next hopen =>
      rw [if_neg hopen] at h
      simp only at h ⊢
      cases hpassed : w.passFrameEnds (w.offset + w.buf.length)
          (w.frameEnds.drop w.nextFrameEnd) with
      | error e => rfl
      | ok passed =>
          rw [hpassed] at h
          obtain ⟨c, rfl⟩ := passFrameEnds_eq hpassed
          simp only at h ⊢
          unfold fill at h ⊢
          simp only at h ⊢
          split
          · next hnone =>
              rw [if_pos hnone] at h
              cases h
          · unfold slide
            split
            · rfl
            · rfl

/-- The window stands before record `i` of `reach`, behind which a frame ends with a record of it
unfinished. -/
structure Toward (find : Finder UInt8) (reach : Bytes) (start : Nat) (good more : List Nat)
    (i : Nat) (w : Window) : Prop where
  capped : At find reach start i (w.cappedAt (start + reach.length) good)
  past : RunsPast good more (start + reach.length) w
  broken : find.rest reach ≠ []
  eof : w.eof = false

theorem Toward.loaded {w : Window} (h : Toward find reach start good more i w) :
    w.offset + w.buf.length + (w.cappedAt (start + reach.length) good).source.ahead.length =
      start + reach.length :=
  h.capped.loaded

theorem Toward.hand_out {w : Window} (h : Toward find reach start good more i w) {c : Nat}
    (hc : c ≤ (find.records w.remainder).length) :
    Toward find reach start good more (i + c)
        { w with
          pos := w.pos + find.offset w.remainder c, walked := w.walked + c, onBoundary := true } ∧
      w.remainder.take (find.offset w.remainder c) =
        (((find.records reach).drop i).take c).flatten := by
  obtain ⟨hmoved, hbytes⟩ := h.capped.hand_out hc
  refine ⟨⟨hmoved, ?_, h.broken, h.eof⟩, hbytes⟩
  exact ⟨h.past.ends, h.past.next_le, h.past.before, h.past.behind, h.past.limit_le⟩

theorem Toward.growIfFull {w : Window} (h : Toward find reach start good more i w) :
    Toward find reach start good more i w.growIfFull ∧ w.growIfFull.remainder = w.remainder ∧
      (w.growIfFull.cappedAt (start + reach.length) good).source =
        (w.cappedAt (start + reach.length) good).source ∧
      (0 < w.growIfFull.pos ∨ w.growIfFull.buf.length < w.growIfFull.cap) := by
  obtain ⟨hgrown, hremainder, hsource, hroom⟩ := h.capped.growIfFull
  rw [← growIfFull_cappedAt] at hgrown hremainder hsource hroom
  have heof : w.growIfFull.eof = false := by
    unfold Window.growIfFull
    split
    · exact h.eof
    · exact h.eof
  exact ⟨⟨hgrown, h.past.growIfFull, h.broken, heof⟩, hremainder, hsource, hroom heof⟩

/-- A refill of such a window that holds no record end reads on, or is refused where the frame
ends. -/
theorem Toward.refill {w : Window} (h : Toward find reach start good more i w)
    (hnone : find w.remainder = none) (hroom : 0 < w.pos ∨ w.buf.length < w.cap) :
    (w.refill.1 = .ok true ∧ Toward find reach start good more i w.refill.2 ∧
        (w.refill.2.cappedAt (start + reach.length) good).source.ahead.length <
          (w.cappedAt (start + reach.length) good).source.ahead.length) ∨
      (i = (find.records reach).length ∧ w.refill = (.error .incompleteRecord, w)) := by
  obtain ⟨read, w', hrefill, hat, hmore, hspent⟩ := h.capped.refill hnone fun _ => hroom
  have hloaded := h.loaded
  rcases Nat.lt_or_ge (w.offset + w.buf.length) (start + reach.length) with hlt | hge
  · obtain ⟨hsame, hpast⟩ := h.past.refill_cappedAt h.capped.pos_le hlt
    rw [hsame] at hrefill
    obtain ⟨hfst, hsnd⟩ := Prod.mk.inj hrefill
    cases read with
    | false =>
        obtain ⟨-, hahead, hkept⟩ := hspent rfl
        have hafter := hat.after
        rw [hahead, List.append_nil, hkept, ← h.capped.after] at hafter
        have hnil := List.append_right_eq_self.mp hafter.symm
        rw [hnil, List.length_nil] at hloaded
        omega
    | true =>
        refine Or.inl ⟨hfst, ⟨hsnd ▸ hat, hpast, h.broken, ?_⟩, ?_⟩
        · rw [refill_eof hfst, h.eof]
        · rw [hsnd]
          exact hmore rfl
  · -- the window is loaded up to the frame end, with the unfinished record in front of it
    right
    have hahead : (w.cappedAt (start + reach.length) good).source.ahead = [] :=
      List.length_eq_zero_iff.mp (by omega)
    have hafter := h.capped.after
    rw [hahead, List.append_nil] at hafter
    have hkept : w.remainder = find.after reach i := hafter
    have hlast : i = (find.records reach).length := by
      have hle := find.length_le_of_find_after (hkept ▸ hnone)
      exact Nat.le_antisymm h.capped.index_le hle
    have hunfinished : w.pos ≠ w.buf.length := by
      intro hfull
      rw [hlast, find.after_of_length_le (Nat.le_refl _), remainder, hfull, List.drop_length]
        at hkept
      exact h.broken hkept.symm
    have hgood : good.drop w.nextFrameEnd = [] := by
      rw [List.eq_nil_iff_forall_not_mem]
      intro e hin
      have hpending : w.frameEndBase + (w.offset + w.buf.length) ≤ e := h.capped.pending e hin
      have hbefore := h.past.before e (List.mem_of_mem_drop hin)
      omega
    refine ⟨hlast, ?_⟩
    unfold Window.refill
    simp only
    rw [h.past.drop_ends, hgood, List.nil_append, passFrameEnds, if_neg (by simp [h.eof]),
      if_pos (by omega), if_pos hunfinished]

end Window

namespace Window

theorem Toward.length_after_le {w : Window} (h : Toward find reach start good more i w) :
    (find.after reach i).length ≤ w.ahead := by
  have hcapped := h.capped.length_ahead
  have hlimit := h.past.limit_le
  have hloaded := h.loaded
  have hless : (w.cappedAt (start + reach.length) good).source.ahead.length ≤
      w.source.ahead.length := by
    simp only [cappedAt, Take.ahead, List.length_take, List.length_drop]
    omega
  rw [← hcapped, Window.ahead, Window.ahead]
  exact Nat.add_le_add_left hless _

end Window

namespace Records

/-! ### Runs up to the unfinished record -/

/-- What the next run of an unwatched walk toward an unfinished record is. -/
inductive TowardOutcome (find : Finder UInt8) (reach : Bytes) (start : Nat) (good more : List Nat)
    (i : Nat) (records : Records) : Option (Except Error Run) × Records × Window → Prop
  | handed {run : Run} {w'} (pos : 0 < run.count)
      (wanted : ∀ n, records.left = some n → run.count ≤ n)
      (bytes : w'.bytes run = (((find.records reach).drop i).take run.count).flatten)
      (window : Window.Toward find reach start good more (i + run.count) w') :
      TowardOutcome find reach start good more i records
        (some (.ok run), { records with left := records.left.map (· - run.count) }, w')
  | refused {w'} (done : i = (find.records reach).length) :
      TowardOutcome find reach start good more i records
        (some (.error .incompleteRecord), records, w')

theorem nextFuel_toward :
    ∀ fuel (records : Records) (w : Window),
      (w.cappedAt (start + reach.length) good).source.ahead.length < fuel →
      Window.Toward find reach start good more i w → records.watch = .unwatched →
      records.left ≠ some 0 →
      TowardOutcome find reach start good more i records (nextFuel find fuel records w) := by
  intro fuel
  induction fuel with
  | zero =>
      intro records w hfuel
      omega
  | succ fuel ih =>
      intro records w hfuel htoward hwatch hleft
      obtain ⟨c, hwalk, hc, hwant, hstop⟩ := Window.walk_eq find w records.left
      rw [nextFuel, hwalk]
      simp only
      by_cases hpos : c > 0
      · rw [if_pos hpos]
        obtain ⟨hmoved, hbytes⟩ := htoward.hand_out hc
        simp only [hwatch, Watcher.saw]
        rw [← hwatch]
        refine TowardOutcome.handed hpos hwant ?_ hmoved
        exact hbytes
      · rw [if_neg hpos]
        obtain rfl : c = 0 := Nat.eq_zero_of_not_pos hpos
        have hnone : find w.remainder = none := by
          rcases hstop with hstop | hstop
          · exact find.records_eq_nil_iff.mp (List.length_eq_zero_iff.mp hstop.symm)
          · exact absurd hstop hleft
        obtain ⟨hgrown, hremainder, hsource, hroom⟩ := htoward.growIfFull
        rw [← hremainder] at hnone
        rcases hgrown.refill hnone hroom with ⟨hfst, hnext, hless⟩ | ⟨hdone, hrefill⟩
        · rw [hsource] at hless
          have hrefill : w.growIfFull.refill = (.ok true, w.growIfFull.refill.2) :=
            Prod.ext hfst rfl
          rw [hrefill]
          exact ih records _ (by omega) hnext hwatch hleft
        · rw [hrefill]
          exact TowardOutcome.refused hdone

theorem next_toward (records : Records) {w : Window}
    (htoward : Window.Toward find reach start good more i w) (hwatch : records.watch = .unwatched)
    (hleft : records.left ≠ some 0) :
    TowardOutcome find reach start good more i records (records.next find w) := by
  rw [next, if_neg hleft]
  apply nextFuel_toward _ records w _ htoward hwatch hleft
  have hahead := htoward.length_after_le
  rw [← htoward.capped.length_ahead, Window.ahead] at hahead
  omega

/-- Adding up the runs stops where the count asked for is reached, or at the unfinished record. -/
theorem sumRuns_toward :
    ∀ fuel i total (records : Records) (w : Window), (find.after reach i).length < fuel →
      Window.Toward find reach start good more i w → records.watch = .unwatched →
      (∃ c w', records.left = some c ∧
          sumRuns find fuel total records w =
            (.ok (total + c), { records with left := some 0 }, w') ∧
          Window.Toward find reach start good more (i + c) w') ∨
        ((∀ n, records.left = some n → (find.records reach).length < i + n) ∧
          ∃ records' w', sumRuns find fuel total records w =
            (.error .incompleteRecord, records', w')) := by
  intro fuel
  induction fuel with
  | zero =>
      intro i total records w hfuel
      omega
  | succ fuel ih =>
      intro i total records w hfuel htoward hwatch
      rw [sumRuns]
      by_cases hleft : records.left = some 0
      · have hnext : records.next find w = (none, records, w) := by
          rw [next, if_pos hleft]
        refine Or.inl ⟨0, w, hleft, ?_, htoward⟩
        rw [hnext]
        simp only [Nat.add_zero, ← hleft]
      · have houtcome := next_toward records htoward hwatch hleft
        generalize records.next find w = result at houtcome
        cases houtcome with
        | refused done =>
            refine Or.inr ⟨?_, _, _, rfl⟩
            intro n hn
            have hpos : n ≠ 0 := fun hzero => hleft (hzero ▸ hn)
            omega
        | @handed run w' pos wanted bytes window =>
            have hindex := window.capped.index_le
            have hless := find.length_after_lt (d := reach) (i := i) (j := i + run.count)
              (by omega) (by omega)
            simp only
            rcases ih (i + run.count) (total + run.count)
              { records with left := records.left.map (· - run.count) } w' (by omega) window hwatch
              with ⟨c, w'', hc, hsum, hstands⟩ | ⟨hshort, hfails⟩
            · obtain ⟨n, hn, rfl⟩ := Option.map_eq_some_iff.mp hc
              have hle := wanted n hn
              refine Or.inl ⟨n, w'', hn, ?_, ?_⟩
              · rw [hsum, Nat.add_assoc, Nat.add_sub_cancel' hle]
              · rwa [Nat.add_assoc, Nat.add_sub_cancel' hle] at hstands
            · refine Or.inr ⟨?_, hfails⟩
              intro n hn
              have hle := wanted n hn
              have hmore := hshort (n - run.count) (by rw [hn]; rfl)
              omega

/-- A skip lands, or comes to the unfinished record. -/
theorem passSkip_toward (records : Records) {w : Window}
    (htoward : Window.Toward find reach start good more i w)
    (hwatch : records.watch = .unwatched) :
    (∃ w', records.passSkip find w = (.ok true, { records with skip := 0 }, w') ∧
        Window.Toward find reach start good more (i + records.skip) w') ∨
      ((find.records reach).length < i + records.skip ∧
        ∃ records' w', records.passSkip find w = (.error .incompleteRecord, records', w')) := by
  rw [passSkip]
  by_cases hskip : records.skip = 0
  · rw [if_pos hskip, hskip]
    refine Or.inl ⟨w, ?_, htoward⟩
    cases records
    simp_all
  · rw [if_neg hskip]
    have hfuel : (find.after reach i).length < w.ahead + 1 :=
      Nat.lt_succ_of_le htoward.length_after_le
    simp only
    rcases sumRuns_toward (w.ahead + 1) i 0 { records with skip := 0, left := some records.skip } w
      hfuel htoward hwatch with ⟨c, w', hc, hsum, hstands⟩ | ⟨hshort, records', w', hfails⟩
    · obtain rfl := Option.some.inj hc
      refine Or.inl ⟨w', ?_, hstands⟩
      rw [hsum]
      simp
    · rw [hfails]
      exact Or.inr ⟨hshort records.skip rfl, _, _, rfl⟩

end Records

end SeekZstdSep
