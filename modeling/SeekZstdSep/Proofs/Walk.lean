/-
Module: SeekZstdSep.Proofs.Walk
Purpose: What the walks of `record.rs` hand out. Runs come out as the next records of the region
  whatever the reads do, a skip passes exactly the records it names, and a cursor feeds its
  consumer one list: the records from where it stands, the unfinished one where it counts, and
  the error the walk ends with, if any. A watched walk does the same unless a frame is refused.
Trusted boundary: none
Main exports: Records.Outcome, Records.next_spec, Records.passSkip_spec, Records.countRecords_spec,
  RecordUnitCursor.Feeds, RecordUnitCursor.nextRun_spec, writeTo_spec, tryFold_spec
-/
import SeekZstdSep.Proofs.Watch

namespace SeekZstdSep

open Lib

variable {find : Finder UInt8} {region : Bytes} {start i : Nat} {post : Option Lookout}

namespace Window

theorem At.remainder_of_eof {w : Window} (h : At find region start (find.records region).length w)
    (heof : w.eof = true) : w.remainder = find.rest region := by
  have hafter := h.after
  rwa [h.eof heof, List.append_nil, find.after_of_length_le (Nat.le_refl _)] at hafter

theorem At.length_ahead {w : Window} (h : At find region start i w) :
    w.ahead = (find.after region i).length := by
  rw [← h.after, List.length_append]
  rfl

end Window

namespace Records

/-! ### Runs -/

/-- What a walk that stands before record `i` answers when it is asked for the next run. -/
inductive Outcome (find : Finder UInt8) (region : Bytes) (start : Nat) (post : Option Lookout)
    (i : Nat) (records : Records) : Option (Except Error Run) × Records × Window → Prop
  | refused {e records' w'} (blames : Blames find region post) :
      Outcome find region start post i records (some (.error e), records', w')
  | handed {run : Run} {watch' w'} (pos : 0 < run.count)
      (wanted : ∀ n, records.left = some n → run.count ≤ n)
      (bytes : w'.bytes run = (((find.records region).drop i).take run.count).flatten)
      (window : Window.At find region start (i + run.count) w')
      (watch : watch'.At find region post (i + run.count)) :
      Outcome find region start post i records
        (some (.ok run),
          { records with left := records.left.map (· - run.count), watch := watch' }, w')
  | spent {w'} (done : i = (find.records region).length)
      (window : Window.At find region start i w') (eof : w'.eof = true) :
      Outcome find region start post i records (none, records, w')

theorem nextFuel_spec :
    ∀ fuel (records : Records) (w : Window), w.source.ahead.length < fuel →
      Window.At find region start i w → records.watch.At find region post i →
      records.left ≠ some 0 →
      Outcome find region start post i records (nextFuel find fuel records w) := by
  intro fuel
  induction fuel with
  | zero =>
      intro records w hfuel
      omega
  | succ fuel ih =>
      intro records w hfuel hat hwatch hleft
      obtain ⟨c, hwalk, hc, hwant, hstop⟩ := Window.walk_eq find w records.left
      rw [nextFuel, hwalk]
      simp only
      by_cases hpos : c > 0
      · rw [if_pos hpos]
        obtain ⟨hmoved, hbytes⟩ := hat.hand_out hc
        have hlen : find.offset region i + find.offset w.remainder c =
            find.offset region (i + c) := by
          rw [find.offset_add, ← hat.after, find.offset_append _ _ hc]
        have hsaw := Watcher.saw_spec hwatch ⟨w.pos, find.offset w.remainder c, c⟩
          hmoved.index_le hmoved.walked hlen hbytes
        rcases hsaw with ⟨watch', hsaw, hwatch'⟩ | ⟨⟨e, hsaw⟩, hblames⟩
        · rw [hsaw]
          exact Outcome.handed hpos hwant hbytes hmoved hwatch'
        · rw [hsaw]
          exact Outcome.refused hblames
      · rw [if_neg hpos]
        obtain rfl : c = 0 := by omega
        have hnone : find w.remainder = none := by
          rcases hstop with hstop | hstop
          · exact find.records_eq_nil_iff.mp (List.length_eq_zero_iff.mp hstop.symm)
          · exact absurd hstop hleft
        obtain ⟨hgrown, hremainder, hsource, hroom⟩ := hat.growIfFull
        rw [← hremainder] at hnone
        obtain ⟨more, w', hrefill, hat', hmore, hspent⟩ := hgrown.refill hnone hroom
        rw [hrefill]
        cases more with
        | true =>
            have hless := hmore rfl
            rw [hsource] at hless
            exact ih records w' (by omega) hat' hwatch hleft
        | false =>
            obtain ⟨heof, hahead, hkept⟩ := hspent rfl
            refine Outcome.spent ?_ hat' heof
            have hafter := hat'.after
            rw [hahead, List.append_nil, hkept] at hafter
            have hle := find.length_le_of_find_after (hafter ▸ hnone)
            have := hat'.index_le
            omega

/-- The next run of a walk is the next records of its region. -/
theorem next_spec (records : Records) {w : Window} (hat : Window.At find region start i w)
    (hwatch : records.watch.At find region post i) (hleft : records.left ≠ some 0) :
    Outcome find region start post i records (records.next find w) := by
  rw [next, if_neg hleft]
  exact nextFuel_spec _ records w (by rw [Window.ahead]; omega) hat hwatch hleft

/-! ### Counting and skipping -/

/-- What adding up the runs of a walk comes to. -/
inductive Summed (find : Finder UInt8) (region : Bytes) (start : Nat) (post : Option Lookout)
    (i total : Nat) (records : Records) : Except Error Nat × Records × Window → Prop
  | refused {e records' w'} (blames : Blames find region post) :
      Summed find region start post i total records (.error e, records', w')
  | summed {c watch' w'} (wanted : ∀ n, records.left = some n → c ≤ n)
      (window : Window.At find region start (i + c) w')
      (watch : watch'.At find region post (i + c))
      (stop : records.left = some c ∨
        (i + c = (find.records region).length ∧ w'.eof = true)) :
      Summed find region start post i total records
        (.ok (total + c), { records with left := records.left.map (· - c), watch := watch' }, w')

theorem sumRuns_spec :
    ∀ fuel i total (records : Records) (w : Window), w.ahead < fuel →
      Window.At find region start i w → records.watch.At find region post i →
      Summed find region start post i total records (sumRuns find fuel total records w) := by
  intro fuel
  induction fuel with
  | zero =>
      intro i total records w hfuel
      omega
  | succ fuel ih =>
      intro i total records w hfuel hat hwatch
      rw [sumRuns]
      by_cases hleft : records.left = some 0
      · have hnext : records.next find w = (none, records, w) := by
          rw [next, if_pos hleft]
        have hsame : { records with left := records.left.map (· - 0) } = records := by
          cases records
          simp_all
        rw [hnext]
        have hsummed : Summed find region start post i total records
            (.ok (total + 0), { records with left := records.left.map (· - 0) }, w) :=
          Summed.summed (fun n hn => Nat.zero_le n) hat hwatch (Or.inl hleft)
        rwa [hsame] at hsummed
      · have houtcome := next_spec records hat hwatch hleft
        generalize hnext : records.next find w = result at houtcome
        cases houtcome with
        | refused blames => exact Summed.refused blames
        | @handed run watch' w' pos wanted bytes window watch =>
            have hlen := hat.length_ahead
            have hlen' := window.length_ahead
            have hindex := window.index_le
            have hless := find.length_after_lt (d := region) (i := i) (j := i + run.count)
              (by omega) (by omega)
            have hsum := ih (i + run.count) (total + run.count)
              { records with left := records.left.map (· - run.count), watch := watch' } w'
              (by omega) window watch
            simp only
            generalize sumRuns find fuel (total + run.count) _ w' = result at hsum
            cases hsum with
            | refused blames => exact Summed.refused blames
            | @summed c watch'' w'' wanted' window' watch' stop =>
                have hleft' : (records.left.map (· - run.count)).map (· - c) =
                    records.left.map (· - (run.count + c)) := by
                  rw [Option.map_map]
                  congr 1
                  funext n
                  simp only [Function.comp]
                  omega
                simp only [hleft', Nat.add_assoc]
                rw [Nat.add_assoc] at window' watch'
                refine Summed.summed ?_ window' watch' ?_
                · intro n hn
                  have := wanted n hn
                  have := wanted' (n - run.count) (by rw [hn]; rfl)
                  omega
                · rcases stop with stop | ⟨stop, eof⟩
                  · obtain ⟨n, hn, hc⟩ := Option.map_eq_some_iff.mp stop
                    have := wanted n hn
                    exact Or.inl (by rw [hn]; congr 1; omega)
                  · exact Or.inr ⟨by omega, eof⟩
        | @spent w' done window eof =>
            have hsame : { records with left := records.left.map (· - 0) } = records := by
              cases records
              simp
            have hsummed : Summed find region start post i total records
                (.ok (total + 0), { records with left := records.left.map (· - 0) }, w') :=
              Summed.summed (fun n hn => Nat.zero_le n) window hwatch (Or.inr ⟨done, eof⟩)
            rwa [hsame] at hsummed

/-- What passing the skip of a chain comes to. -/
inductive Passed (find : Finder UInt8) (region : Bytes) (start : Nat) (post : Option Lookout)
    (i : Nat) (records : Records) : Except Error Bool × Records × Window → Prop
  | refused {e records' w'} (blames : Blames find region post) :
      Passed find region start post i records (.error e, records', w')
  | passed {watch' w'} (window : Window.At find region start (i + records.skip) w')
      (watch : watch'.At find region post (i + records.skip)) :
      Passed find region start post i records
        (.ok true, { records with skip := 0, watch := watch' }, w')
  | short {watch' w'} (short : (find.records region).length < i + records.skip)
      (window : Window.At find region start (find.records region).length w') (eof : w'.eof = true)
      (watch : post = none → watch'.At find region post (find.records region).length) :
      Passed find region start post i records
        (if records.skipWhole then .error .noSeparatorInFrame else .ok false,
          { records with skip := 0, watch := watch' }, w')

theorem passSkip_spec (records : Records) {w : Window} (hat : Window.At find region start i w)
    (hwatch : records.watch.At find region post i) :
    Passed find region start post i records (records.passSkip find w) := by
  rw [passSkip]
  by_cases hskip : records.skip = 0
  · have hsame : { records with skip := 0 } = records := by
      cases records
      simp_all
    rw [if_pos hskip]
    have hpassed := Passed.passed (by rwa [hskip]) (by rwa [hskip])
    rwa [hsame] at hpassed
  · rw [if_neg hskip]
    have hsum := sumRuns_spec (w.ahead + 1) i 0
      { records with skip := 0, left := some records.skip } w (by omega) hat hwatch
    simp only
    generalize sumRuns find (w.ahead + 1) 0 _ w = result at hsum
    cases hsum with
    | refused blames => exact Passed.refused blames
    | @summed c watch' w' wanted window watch stop =>
        have hc := wanted records.skip rfl
        simp only [Nat.zero_add]
        by_cases hshort : c < records.skip
        · rw [if_pos hshort]
          rcases stop with stop | ⟨stop, eof⟩
          · simp at stop
            omega
          · rw [stop] at window watch
            rcases Watcher.spent_spec watch window.walked
              (Or.inl (window.remainder_of_eof eof)) with ⟨watch'', hspent, hwatch''⟩ |
                ⟨⟨e, hspent⟩, blames⟩
            · rw [hspent]
              simp only
              have hpassed : Passed find region start post i records
                  (if records.skipWhole then .error .noSeparatorInFrame else .ok false,
                    { records with skip := 0, watch := watch'' }, _) :=
                Passed.short (by omega) window eof fun hpost => by rw [hwatch'' hpost]; exact watch
              cases hwhole : records.skipWhole <;> rw [hwhole] at hpassed <;> exact hpassed
            · rw [hspent]
              exact Passed.refused blames
        · rw [if_neg hshort]
          obtain rfl : c = records.skip := by omega
          exact Passed.passed window watch

/-- An unwatched walk that skips nothing counts the records that are left. -/
theorem countRecords_spec {w : Window} (hat : Window.At find region start i w) :
    ∃ w', countRecords find {} w = (.ok ((find.records region).length - i), w') ∧
      Window.At find region start (find.records region).length w' ∧ w'.eof = true := by
  have hsum := sumRuns_spec (w.ahead + 1) i 0 ({} : Records) w (by omega) hat rfl
  rw [countRecords, passSkip, if_pos rfl]
  simp only
  generalize sumRuns find (w.ahead + 1) 0 _ w = result at hsum
  cases hsum with
  | refused blames => exact absurd blames not_blames_none
  | @summed c watch' w' wanted window watch stop =>
      rcases stop with stop | ⟨stop, eof⟩
      · simp at stop
      · rw [stop] at window
        refine ⟨w', ?_, window, eof⟩
        simp only [Prod.mk.injEq, Except.ok.injEq, and_true]
        omega

end Records

/-! ### What a cursor feeds its consumer -/

namespace RecordUnitCursor

/-- What a cursor that stands before record `i` of the region still hands out, and the error it
ends with where it ends with one. -/
def feed (find : Finder UInt8) (region : Bytes) (c : RecordUnitCursor) (i : Nat) :
    List Bytes × Option Error :=
  if (find.records region).length < i then
    ([], if c.skipWhole then some .noSeparatorInFrame else none)
  else if c.rejectFinalFragment && !(find.rest region).isEmpty then
    ((find.records region).drop i, some .incompleteFinalRecord)
  else ((find.items c.includeFinalRecord region).drop i, none)

/-- The cursor stands before record `i` once it has made the skip it was given. -/
structure Stands (find : Finder UInt8) (region : Bytes) (start : Nat) (post : Option Lookout)
    (i : Nat) (c : RecordUnitCursor) (w : Window) : Prop where
  spent : c.spent = false
  whole : c.skip = 0 ∨ c.skipWhole = true ∨ post = none
  standing : ∃ j, Window.At find region start j w ∧ c.watch.At find region post j ∧
    j + c.skip = i

/-- Over the window `w` the cursor hands out `us` and then ends, with the error `fin` if there is
one. -/
def Feeds (find : Finder UInt8) (region : Bytes) (start : Nat) (post : Option Lookout)
    (c : RecordUnitCursor) (w : Window) (us : List Bytes) (fin : Option Error) : Prop :=
  (∃ i, c.Stands find region start post i w ∧ c.feed find region i = (us, fin)) ∨
    (c.spent = true ∧ us = [] ∧ fin = none ∧
      c.watch.At find region post (find.records region).length ∧
      ((Window.At find region start (find.records region).length w ∧ w.eof = true) ∨
        (c.includeFinalRecord = true ∧ Window.Past find region start w)))

variable {c : RecordUnitCursor} {w : Window} {us : List Bytes} {fin : Option Error}

/-- What making the skip of a cursor comes to. -/
inductive Prepared (find : Finder UInt8) (region : Bytes) (start : Nat) (post : Option Lookout)
    (i : Nat) (c : RecordUnitCursor) : Except Error Unit × RecordUnitCursor × Window → Prop
  | refused {e c' w'} (blames : Blames find region post) :
      Prepared find region start post i c (.error e, c', w')
  | ready {watch' w'} (window : Window.At find region start i w')
      (watch : watch'.At find region post i) :
      Prepared find region start post i c (.ok (), { c with skip := 0, watch := watch' }, w')
  | failed {c' w'} (short : (find.records region).length < i) (whole : c.skipWhole = true) :
      Prepared find region start post i c (.error .noSeparatorInFrame, c', w')
  | spent {watch' w'} (short : (find.records region).length < i) (whole : c.skipWhole = false)
      (window : Window.At find region start (find.records region).length w') (eof : w'.eof = true)
      (watch : watch'.At find region post (find.records region).length) :
      Prepared find region start post i c
        (.ok (), { c with skip := 0, watch := watch', spent := true }, w')

theorem prepare_spec (h : c.Stands find region start post i w) :
    Prepared find region start post i c (c.prepare find w) := by
  obtain ⟨j, hat, hwatch, rfl⟩ := h.standing
  rw [prepare]
  by_cases hskip : c.skip = 0
  · rw [if_pos hskip]
    have hsame : { c with skip := 0 } = c := by
      cases c
      simp_all
    have hready := Prepared.ready (c := c) (i := j + c.skip) (by rwa [hskip]) (by rwa [hskip])
    rwa [hsame] at hready
  · rw [if_neg hskip]
    have hpassed := Records.passSkip_spec
      { left := none, skip := c.skip, skipWhole := c.skipWhole, watch := c.watch } hat hwatch
    simp only
    generalize Records.passSkip find _ w = result at hpassed
    cases hpassed with
    | refused blames => exact Prepared.refused blames
    | @passed watch' w' window watch =>
        have hspent : (c.spent || !true) = c.spent := by simp
        simp only [hspent]
        exact Prepared.ready window watch
    | @short watch' w' short window eof watch =>
        cases hwhole : c.skipWhole with
        | true => exact Prepared.failed short hwhole
        | false =>
            have hspent : (c.spent || !false) = true := by simp
            simp only [Bool.false_eq_true, if_false, hspent]
            rcases h.whole with hzero | hwhole' | hpost
            · exact absurd hzero hskip
            · simp [hwhole] at hwhole'
            · have hprepared := Prepared.spent short hwhole window eof (watch hpost)
              rw [hwhole] at hprepared
              exact hprepared

/-- What the next run of a cursor is, that may take up to `limit` records. -/
inductive Outcome (find : Finder UInt8) (region : Bytes) (start : Nat) (post : Option Lookout)
    (limit : Nat) (c : RecordUnitCursor) :
    List Bytes → Option Error → Option (Except Error Run) × RecordUnitCursor × Window → Prop
  | refused {us fin e c' w'} (blames : Blames find region post) :
      Outcome find region start post limit c us fin (some (.error e), c', w')
  | failed {e c' w'} : Outcome find region start post limit c [] (some e) (some (.error e), c', w')
  | spent {c' w'} (spent : c'.spent = true) (emitted : c'.emitted = c.emitted)
      (feeds : c'.Feeds find region start post w' [] none) :
      Outcome find region start post limit c [] none (none, c', w')
  | handed {us fin run c' w'} (pos : 0 < run.count) (limited : run.count ≤ limit)
      (count_le : run.count ≤ us.length) (bytes : w'.bytes run = (us.take run.count).flatten)
      (emitted : c'.emitted = c.emitted + run.count)
      (feeds : c'.Feeds find region start post w' (us.drop run.count) fin) :
      Outcome find region start post limit c us fin (some (.ok run), c', w')

/-- Handing out `k` whole records leaves the rest of what a cursor feeds. -/
theorem feed_advance {k : Nat} (hik : i + k ≤ (find.records region).length) :
    (c.feed find region i).1.take k = ((find.records region).drop i).take k ∧
      k ≤ (c.feed find region i).1.length ∧
      c.feed find region (i + k) =
        ((c.feed find region i).1.drop k, (c.feed find region i).2) := by
  have hdrop : (find.records region).drop i =
      ((find.records region).drop i).take k ++ (find.records region).drop (i + k) := by
    rw [← List.drop_drop, List.take_append_drop]
  have hlen : k ≤ ((find.records region).drop i).length := by
    rw [List.length_drop]
    omega
  unfold feed
  rw [if_neg (show ¬ (find.records region).length < i by omega),
    if_neg (show ¬ (find.records region).length < i + k by omega)]
  cases c.rejectFinalFragment && !(find.rest region).isEmpty with
  | true => exact ⟨rfl, hlen, by simp [List.drop_drop]⟩
  | false =>
      simp only [Bool.false_eq_true, if_false, List.drop_drop]
      refine ⟨?_, ?_, trivial⟩
      · rw [Finder.items, List.drop_append_of_le_length (by omega),
          List.take_append_of_le_length hlen]
      · have := find.length_records_le_items c.includeFinalRecord region
        rw [List.length_drop]
        omega

/-- Past the whole records there is the unfinished one, where it counts. -/
theorem feed_end (c : RecordUnitCursor) :
    c.feed find region (find.records region).length =
      if c.rejectFinalFragment && !(find.rest region).isEmpty then
        ([], some .incompleteFinalRecord)
      else (if c.includeFinalRecord && !(find.rest region).isEmpty then [find.rest region] else [],
        none) := by
  unfold feed
  rw [if_neg (Nat.lt_irrefl _), List.drop_length, Finder.items, List.drop_left' rfl]

/-- A cursor whose window stands past the whole records takes the unfinished one where it counts,
or refuses it. -/
theorem takeFinal_spec {limit : Nat} {c₀ : RecordUnitCursor} (hlimit : 0 < limit)
    (hemitted : c.emitted = c₀.emitted) (hspent : c.spent = true)
    (hat : Window.At find region start (find.records region).length w) (heof : w.eof = true)
    (hwatch : c.watch.At find region post (find.records region).length) :
    Outcome find region start post limit c₀ (c.feed find region (find.records region).length).1
      (c.feed find region (find.records region).length).2 (c.takeFinal w) := by
  obtain ⟨hnone, hsome⟩ := hat.finalRecord heof
  rw [feed_end, takeFinal, hat.remainder_of_eof heof]
  have hend : c.Feeds find region start post w [] none :=
    Or.inr ⟨hspent, rfl, rfl, hwatch, Or.inl ⟨hat, heof⟩⟩
  cases hreject : c.rejectFinalFragment && !(find.rest region).isEmpty with
  | true => exact Outcome.failed
  | false =>
      simp only [Bool.false_eq_true, if_false]
      cases hinclude : c.includeFinalRecord with
      | false =>
          simp only [Bool.false_and, Bool.false_eq_true, if_false]
          exact Outcome.spent hspent hemitted hend
      | true =>
          simp only [Bool.true_and, if_true]
          by_cases hrest : find.rest region = []
          · rw [hnone hrest, hrest]
            exact Outcome.spent hspent hemitted hend
          · obtain ⟨run, w', hfinal, hcount, hbytes, hpast⟩ := hsome hrest
            have hne : (find.rest region).isEmpty = false := List.isEmpty_eq_false_iff.mpr hrest
            rw [hfinal, hne]
            simp only [Bool.not_false, if_true]
            have hafter : RecordUnitCursor.Feeds find region start post
                { c with emitted := c.emitted + 1 } w' [] none :=
              Or.inr ⟨hspent, rfl, rfl, hwatch, Or.inr ⟨hinclude, hpast⟩⟩
            refine Outcome.handed (by omega) (by omega) (by rw [hcount]; exact Nat.le_refl 1) ?_
              (by rw [hcount]; exact congrArg (· + 1) hemitted) ?_
            · rw [hcount, hbytes]
              simp
            · rw [hcount]
              rw [hinclude] at hafter
              exact hafter

/-- The next run of a cursor is the head of what it feeds. -/
theorem nextRun_spec (h : c.Feeds find region start post w us fin) (limit : Nat)
    (hlimit : 0 < limit) :
    Outcome find region start post limit c us fin (c.nextRun find w limit) := by
  have hpos : (limit == 0) = false := by simp; omega
  rcases h with ⟨i, hstands, hfeed⟩ | ⟨hspent, rfl, rfl, hwatch, hwindow⟩
  · obtain ⟨rfl, rfl⟩ : us = (c.feed find region i).1 ∧ fin = (c.feed find region i).2 := by
      rw [hfeed]
      exact ⟨rfl, rfl⟩
    have hprepared := prepare_spec hstands
    rw [nextRun, hstands.spent, hpos]
    simp only [Bool.or_self, Bool.false_eq_true, if_false]
    generalize c.prepare find w = result at hprepared
    cases hprepared with
    | refused blames => exact Outcome.refused blames
    | failed short whole =>
        rw [feed, if_pos short, if_pos whole]
        exact Outcome.failed
    | spent short whole window eof watch =>
        rw [feed, if_pos short, if_neg (by simp [whole])]
        simp only [if_true]
        exact Outcome.spent rfl rfl (Or.inr ⟨rfl, rfl, rfl, watch, Or.inl ⟨window, eof⟩⟩)
    | @ready watch' w' window watch =>
        simp only [hstands.spent, Bool.false_eq_true, if_false]
        have hnext := Records.next_spec
          { left := some limit, skip := 0, skipWhole := true, watch := watch' } window watch
          (by simp; omega)
        generalize Records.next find _ w' = result at hnext
        cases hnext with
        | refused blames => exact Outcome.refused blames
        | @handed run watch'' w'' pos wanted bytes window' watch' =>
            obtain ⟨htake, hle, hadvance⟩ := feed_advance (c := c) window'.index_le
            have hlimited := wanted limit rfl
            refine Outcome.handed pos hlimited hle (by rw [htake, bytes]) rfl ?_
            refine Or.inl ⟨i + run.count, ⟨rfl, Or.inl rfl, ?_⟩, hadvance⟩
            exact ⟨i + run.count, window', watch', rfl⟩
        | @spent w'' done window' eof =>
            subst done
            exact takeFinal_spec (c := { c with skip := 0, watch := watch', spent := true })
              hlimit rfl rfl window' eof watch
  · rw [nextRun, hspent]
    exact Outcome.spent hspent rfl (Or.inr ⟨hspent, rfl, rfl, hwatch, hwindow⟩)

/-- What a cursor still feeds fits in the bytes that follow where its window stands. -/
theorem length_feed_le (c : RecordUnitCursor) (hi : i ≤ (find.records region).length) (k : Nat) :
    (c.feed find region (i + k)).1.length ≤ (find.after region i).length := by
  have hitems := find.length_items_le_length c.includeFinalRecord (find.after region i)
  have hrecords := find.length_records_le_items c.includeFinalRecord region
  rw [find.items_after _ _ hi, List.length_drop] at hitems
  unfold feed
  split
  · exact Nat.zero_le _
  · split
    · simp only [List.length_drop]
      omega
    · simp only [List.length_drop]
      omega

/-- What a cursor still feeds fits in the bytes its window can come to. -/
theorem Feeds.length_le (h : c.Feeds find region start post w us fin) : us.length ≤ w.ahead := by
  rcases h with ⟨i, hstands, hfeed⟩ | ⟨-, rfl, -, -, -⟩
  · obtain ⟨j, hat, -, rfl⟩ := hstands.standing
    have hle := length_feed_le c hat.index_le c.skip
    rwa [hfeed, ← hat.length_ahead] at hle
  · exact Nat.zero_le _

theorem Feeds.window (h : c.Feeds find region start post w us fin) :
    (∃ i, Window.At find region start i w) ∨ Window.Past find region start w := by
  rcases h with ⟨i, hstands, -⟩ | ⟨-, -, -, -, ⟨hat, -⟩ | ⟨-, hpast⟩⟩
  · obtain ⟨j, hat, -⟩ := hstands.standing
    exact Or.inl ⟨j, hat⟩
  · exact Or.inl ⟨_, hat⟩
  · exact Or.inr hpast

/-- A cursor that ended has its window past the whole records, with or without the unfinished
one, and its watch has seen them all. -/
theorem Feeds.of_spent (h : c.Feeds find region start post w us fin) (hspent : c.spent = true) :
    us = [] ∧ c.watch.At find region post (find.records region).length ∧
      ((Window.At find region start (find.records region).length w ∧ w.eof = true) ∨
        (c.includeFinalRecord = true ∧ Window.Past find region start w)) := by
  rcases h with ⟨i, hstands, -⟩ | ⟨-, rfl, -, hwatch, hwindow⟩
  · simp [hstands.spent] at hspent
  · exact ⟨rfl, hwatch, hwindow⟩

/-- What is judged once a walk is over passes, where no frame is to blame. -/
theorem finish_spec (requested : Nat) (h : c.Feeds find region start post w us fin)
    (hspent : c.emitted < requested → c.spent = true) :
    (∃ c', c.finish w requested = (.ok (), c')) ∨
      ((∃ e c', c.finish w requested = (.error e, c')) ∧ Blames find region post) := by
  rw [finish]
  by_cases hmore : c.emitted < requested
  · rw [if_pos hmore]
    obtain ⟨-, hwatch, hwindow⟩ := h.of_spent (hspent hmore)
    have hwalked : w.walked = (find.records region).length ∧
        (w.remainder = find.rest region ∨ w.remainder = []) := by
      rcases hwindow with ⟨hat, heof⟩ | ⟨-, hpast⟩
      · exact ⟨hat.walked, Or.inl (hat.remainder_of_eof heof)⟩
      · refine ⟨hpast.before.walked, Or.inr ?_⟩
        rw [Window.remainder, hpast.pos_eq, List.drop_length]
    rcases Watcher.spent_spec hwatch hwalked.1 hwalked.2 with ⟨watch', hok, -⟩ | ⟨⟨e, herr⟩, hb⟩
    · rw [hok]
      exact Or.inl ⟨_, rfl⟩
    · rw [herr]
      exact Or.inr ⟨⟨e, _, rfl⟩, hb⟩
  · rw [if_neg hmore]
    exact Or.inl ⟨c, rfl⟩

/-! ### Consumers -/

/-- Folding at most `limit` items of a list that ends with the error `fin`, if there is one. -/
def foldList {β : Type} (step : β → Bytes → Except Error β) (fin : Option Error) :
    List Bytes → Option Nat → β → Except Error β
  | [], limit, acc =>
      if limit = some 0 then .ok acc
      else
        match fin with
        | none => .ok acc
        | some e => .error e
  | u :: us, limit, acc =>
      if limit = some 0 then .ok acc
      else
        match step acc u with
        | .error e => .error e
        | .ok acc => foldList step fin us (limit.map (· - 1)) acc

/-- Writing at most `want` items of such a list. -/
def writeList (us : List Bytes) (fin : Option Error) (want : Nat) (sink : Sink) :
    Except Error Unit × Sink :=
  match sink.writeAll (us.take want).flatten with
  | (.error e, sink) => (.error e, sink)
  | (.ok (), sink) =>
      match fin with
      | none => (.ok (), sink)
      | some e => (if us.length < want then .error e else .ok (), sink)

/-- What a consumer that takes up to `limit` records leaves behind. -/
structure Left (find : Finder UInt8) (region : Bytes) (start : Nat) (post : Option Lookout)
    (limit : Nat) (c : RecordUnitCursor) (us : List Bytes) (fin : Option Error)
    (c' : RecordUnitCursor) (w' : Window) : Prop where
  feeds : c'.Feeds find region start post w' (us.drop limit) fin
  emitted : c'.emitted = c.emitted + min limit us.length
  spent : us.length < limit → c'.spent = true

theorem Left.refl (h : c.Feeds find region start post w us fin) :
    Left find region start post 0 c us fin c w :=
  ⟨h, by simp, by simp⟩

/-- Taking `k` items and then up to `limit` more. -/
theorem Left.step {k limit : Nat} {c₁ c₂ : RecordUnitCursor} {w₂ : Window}
    (hk : k ≤ us.length) (hemitted : c₁.emitted = c.emitted + k)
    (h : Left find region start post limit c₁ (us.drop k) fin c₂ w₂) :
    Left find region start post (k + limit) c us fin c₂ w₂ := by
  have hlen : (us.drop k).length = us.length - k := List.length_drop
  refine ⟨?_, ?_, ?_⟩
  · have hfeeds := h.feeds
    rwa [List.drop_drop] at hfeeds
  · rw [h.emitted, hemitted, hlen]
    omega
  · intro hlt
    exact h.spent (by omega)

theorem nextOwned_spec (h : c.Feeds find region start post w us fin) :
    (∃ e c' w', c.nextOwned find w = (.error e, c', w') ∧ Blames find region post) ∨
      (∃ u us' c' w', us = u :: us' ∧ c.nextOwned find w = (.ok (some u), c', w') ∧
        c'.emitted = c.emitted + 1 ∧ c'.Feeds find region start post w' us' fin) ∨
      (us = [] ∧ fin = none ∧ ∃ c' w', c.nextOwned find w = (.ok none, c', w') ∧
        c'.spent = true ∧ c'.emitted = c.emitted ∧ c'.Feeds find region start post w' [] none) ∨
      (us = [] ∧ ∃ e c' w', fin = some e ∧ c.nextOwned find w = (.error e, c', w')) := by
  have hnext := nextRun_spec h 1 Nat.one_pos
  rw [nextOwned, next]
  generalize c.nextRun find w 1 = result at hnext
  cases hnext with
  | refused blames => exact Or.inl ⟨_, _, _, rfl, blames⟩
  | failed => exact Or.inr (Or.inr (Or.inr ⟨rfl, _, _, _, rfl, rfl⟩))
  | spent spent emitted feeds =>
      exact Or.inr (Or.inr (Or.inl ⟨rfl, rfl, _, _, rfl, spent, emitted, feeds⟩))
  | @handed _ _ run c' w' pos limited count_le bytes emitted feeds =>
      obtain hone : run.count = 1 := by omega
      rw [hone] at count_le bytes emitted feeds
      cases us with
      | nil => simp at count_le
      | cons u us =>
          have hu : w'.bytes run = u := by simpa using bytes
          exact Or.inr (Or.inl ⟨u, us, c', w', rfl, by simp only [hu], emitted, feeds⟩)

/-- Folding through a cursor folds what it feeds. -/
theorem tryFold_spec {β : Type} (step : β → Bytes → Except Error β) :
    ∀ fuel (limit : Option Nat) acc us (c : RecordUnitCursor) (w : Window), us.length < fuel →
      c.Feeds find region start post w us fin →
      (∃ e c' w', c.tryFold find step fuel limit acc w = (.error e, c', w') ∧
          Blames find region post) ∨
        ∃ c' w', c.tryFold find step fuel limit acc w = (foldList step fin us limit acc, c', w') ∧
          ∀ acc', foldList step fin us limit acc = .ok acc' →
            Left find region start post (limit.getD (us.length + 1)) c us fin c' w' := by
  intro fuel
  induction fuel with
  | zero =>
      intro limit acc us c w hfuel
      omega
  | succ fuel ih =>
      intro limit acc us c w hfuel h
      rw [tryFold]
      by_cases hlimit : limit = some 0
      · rw [if_pos hlimit]
        refine Or.inr ⟨c, w, ?_, fun _ _ => ?_⟩
        · cases us <;> simp [foldList, hlimit]
        · rw [hlimit]
          exact Left.refl h
      · rw [if_neg hlimit]
        rcases nextOwned_spec h with ⟨e, c', w', hnext, hblames⟩ |
          ⟨u, us', c', w', rfl, hnext, hemitted, hfeeds⟩ |
          ⟨rfl, rfl, c', w', hnext, hspent, hemitted, hfeeds⟩ | ⟨rfl, e, c', w', rfl, hnext⟩
        · rw [hnext]
          exact Or.inl ⟨e, c', w', rfl, hblames⟩
        · rw [hnext]
          simp only [foldList, if_neg hlimit]
          cases hstep : step acc u with
          | error e => exact Or.inr ⟨c', w', rfl, by simp⟩
          | ok acc =>
              simp only
              rcases ih (limit.map (· - 1)) acc us' c' w' (by simpa using hfuel) hfeeds with
                hrefused | ⟨c'', w'', heq, hleft⟩
              · exact Or.inl hrefused
              · refine Or.inr ⟨c'', w'', heq, ?_⟩
                intro acc' hok
                have hstep : Left find region start post
                    (1 + (limit.map (· - 1)).getD (us'.length + 1)) c (u :: us') fin c'' w'' :=
                  Left.step (by simp) hemitted (hleft acc' hok)
                have hmore : 1 + (limit.map (· - 1)).getD (us'.length + 1) =
                    limit.getD ((u :: us').length + 1) := by
                  cases limit with
                  | none => simp [Nat.add_comm]
                  | some n =>
                      have : n ≠ 0 := by simpa using hlimit
                      simp
                      omega
                rwa [hmore] at hstep
        · rw [hnext]
          refine Or.inr ⟨c', w', by simp [foldList], fun _ _ => ?_⟩
          exact ⟨by simpa using hfeeds, by simpa using hemitted, fun _ => hspent⟩
        · rw [hnext]
          exact Or.inr ⟨c', w', by simp [foldList, hlimit], by simp [foldList, hlimit]⟩

end RecordUnitCursor

/-- Writing in two goes is writing at once. -/
theorem Sink.writeAll_append (sink : Sink) (a b : Bytes) :
    sink.writeAll (a ++ b) =
      match sink.writeAll a with
      | (.error e, sink) => (.error e, sink)
      | (.ok (), sink) => sink.writeAll b := by
  induction a generalizing sink with
  | nil => rfl
  | cons byte a ih =>
      rw [List.cons_append, Sink.writeAll, Sink.writeAll]
      split
      · exact ih _
      · rfl

namespace RecordUnitCursor

theorem writeList_step {k want : Nat} (hk : k ≤ us.length) (hwant : k ≤ want) (sink : Sink) :
    writeList us fin want sink =
      match sink.writeAll (us.take k).flatten with
      | (.error e, sink) => (.error e, sink)
      | (.ok (), sink) => writeList (us.drop k) fin (want - k) sink := by
  have htake : (us.take want).flatten =
      (us.take k).flatten ++ ((us.drop k).take (want - k)).flatten := by
    obtain ⟨more, rfl⟩ := Nat.exists_eq_add_of_le hwant
    rw [List.take_add, List.flatten_append, Nat.add_sub_cancel_left]
  have hshort : (us.drop k).length < want - k ↔ us.length < want := by
    rw [List.length_drop]
    omega
  unfold writeList
  rw [htake, Sink.writeAll_append]
  cases sink.writeAll (us.take k).flatten with
  | mk result sink =>
      cases result with
      | error e => rfl
      | ok _ => simp only [hshort]

/-- Writing through a cursor writes what it feeds. -/
theorem writeTo_spec (requested : Nat) :
    ∀ fuel us (c : RecordUnitCursor) (w : Window) sink, us.length < fuel →
      c.Feeds find region start post w us fin →
      (∃ e c' w' sink', c.writeTo find requested fuel w sink = (.error e, c', w', sink') ∧
          Blames find region post) ∨
        ∃ c' w', c.writeTo find requested fuel w sink =
            ((writeList us fin (requested - c.emitted) sink).1, c', w',
              (writeList us fin (requested - c.emitted) sink).2) ∧
          ((writeList us fin (requested - c.emitted) sink).1 = .ok () →
            Left find region start post (requested - c.emitted) c us fin c' w') := by
  intro fuel
  induction fuel with
  | zero =>
      intro us c w sink hfuel
      omega
  | succ fuel ih =>
      intro us c w sink hfuel h
      rw [writeTo]
      by_cases hmore : c.emitted < requested
      · rw [if_pos hmore]
        have hnext := nextRun_spec h (requested - c.emitted) (by omega)
        generalize c.nextRun find w (requested - c.emitted) = result at hnext
        cases hnext with
        | refused blames => exact Or.inl ⟨_, _, _, _, rfl, blames⟩
        | @failed e c' w' =>
            have hwrite :
                writeList [] (some e) (requested - c.emitted) sink = (.error e, sink) := by
              have hlt : 0 < requested - c.emitted := by omega
              simp [writeList, Sink.writeAll, hlt]
            rw [hwrite]
            exact Or.inr ⟨c', w', rfl, by simp⟩
        | @spent c' w' spent emitted feeds =>
            have hwrite : writeList [] none (requested - c.emitted) sink = (.ok (), sink) := by
              simp [writeList, Sink.writeAll]
            rw [hwrite]
            exact Or.inr ⟨c', w', rfl, fun _ =>
              ⟨by simpa using feeds, by simpa using emitted, fun _ => spent⟩⟩
        | @handed _ _ run c' w' pos limited count_le bytes emitted feeds =>
            simp only
            rw [bytes, writeList_step count_le limited]
            cases sink.writeAll (us.take run.count).flatten with
            | mk result sink =>
                cases result with
                | error e => exact Or.inr ⟨c', w', rfl, by simp⟩
                | ok _ =>
                    have hleft : requested - c'.emitted = requested - c.emitted - run.count := by
                      omega
                    have hrest := ih (us.drop run.count) c' w' sink
                      (by rw [List.length_drop]; omega) feeds
                    rw [hleft] at hrest
                    rcases hrest with hrefused | ⟨c'', w'', heq, hstep⟩
                    · exact Or.inl hrefused
                    · refine Or.inr ⟨c'', w'', heq, fun hok => ?_⟩
                      have hstepped := Left.step count_le emitted (hstep hok)
                      rwa [show run.count + (requested - c.emitted - run.count) =
                        requested - c.emitted by omega] at hstepped
      · rw [if_neg hmore]
        have hzero : requested - c.emitted = 0 := by omega
        have hwrite : writeList us fin 0 sink = (.ok (), sink) := by
          cases fin <;> simp [writeList, Sink.writeAll]
        rw [hzero, hwrite]
        exact Or.inr ⟨c, w, rfl, fun _ => Left.refl h⟩

end RecordUnitCursor

/-! ### The steps of a walk -/

namespace Records

open Window

theorem nextFuel_steps (find : Finder UInt8) (fuel : Nat) (records : Records) (w : Window) :
    Steps find w (nextFuel find fuel records w).2.2 := by
  induction fuel generalizing w with
  | zero => exact Relation.ReflTransGen.refl
  | succ fuel ih =>
      rw [nextFuel]
      simp only
      split
      · have hwalked : Steps find w _ := Relation.ReflTransGen.single (Step.walk w records.left)
        split <;> exact hwalked
      · have hrefilled : Steps find w w.growIfFull.refill.2 :=
          (Relation.ReflTransGen.single (Step.grow w)).tail (Step.refill w.growIfFull)
        split
        · next heq =>
            rw [heq] at hrefilled
            exact hrefilled.trans (ih _)
        · next heq =>
            rw [heq] at hrefilled
            exact hrefilled
        · next heq =>
            rw [heq] at hrefilled
            exact hrefilled

theorem next_steps (find : Finder UInt8) (records : Records) (w : Window) :
    Steps find w (records.next find w).2.2 := by
  unfold next
  split
  · exact Relation.ReflTransGen.refl
  · exact nextFuel_steps _ _ _ _

theorem sumRuns_steps (find : Finder UInt8) (fuel total : Nat) (records : Records) (w : Window) :
    Steps find w (sumRuns find fuel total records w).2.2 := by
  induction fuel generalizing total records w with
  | zero => exact Relation.ReflTransGen.refl
  | succ fuel ih =>
      have hnext := next_steps find records w
      rw [sumRuns]
      split <;> next heq => rw [heq] at hnext; first | exact hnext | exact hnext.trans (ih _ _ _)

theorem passSkip_steps (find : Finder UInt8) (records : Records) (w : Window) :
    Steps find w (records.passSkip find w).2.2 := by
  unfold passSkip
  simp only
  split
  · exact Relation.ReflTransGen.refl
  · have hsum := sumRuns_steps find (w.ahead + 1) 0
      { records with skip := 0, left := some records.skip } w
    split
    · next heq =>
        rw [heq] at hsum
        exact hsum
    · next heq =>
        rw [heq] at hsum
        split
        · split
          · exact hsum
          · split <;> exact hsum
        · exact hsum

theorem countRecords_steps (find : Finder UInt8) (records : Records) (w : Window) :
    Steps find w (records.countRecords find w).2 := by
  have hpassed := passSkip_steps find records w
  unfold countRecords
  split <;> next heq =>
    rw [heq] at hpassed
    first
    | exact hpassed
    | exact hpassed.trans (sumRuns_steps _ _ _ _ _)

/-- No walk changes the file it reads. -/
theorem countRecords_sameFile (find : Finder UInt8) (records : Records) (w : Window) :
    SameFile w (records.countRecords find w).2 := (countRecords_steps find records w).sameFile

end Records

namespace RecordUnitCursor

open Window

theorem prepare_steps (find : Finder UInt8) (c : RecordUnitCursor) (w : Window) :
    Steps find w (c.prepare find w).2.2 := by
  unfold prepare
  simp only
  split
  · exact Relation.ReflTransGen.refl
  · have hpassed := Records.passSkip_steps find
      { left := none, skip := c.skip, skipWhole := c.skipWhole, watch := c.watch } w
    split <;> next heq =>
      rw [heq] at hpassed
      exact hpassed

theorem takeFinal_steps (find : Finder UInt8) (c : RecordUnitCursor) (w : Window) :
    Steps find w (c.takeFinal w).2.2 := by
  have hfinal : Steps find w w.finalRecord.2 := Relation.ReflTransGen.single (Step.final w)
  unfold takeFinal
  split
  · exact Relation.ReflTransGen.refl
  · split
    · split <;> next heq =>
        rw [heq] at hfinal
        exact hfinal
    · exact Relation.ReflTransGen.refl

theorem nextRun_steps (find : Finder UInt8) (c : RecordUnitCursor) (w : Window) (limit : Nat) :
    Steps find w (c.nextRun find w limit).2.2 := by
  have hprepared := prepare_steps find c w
  unfold nextRun
  split
  · exact Relation.ReflTransGen.refl
  · split
    · next heq =>
        rw [heq] at hprepared
        exact hprepared
    · next heq =>
        rw [heq] at hprepared
        simp only
        split
        · exact hprepared
        · next c' w' _ =>
            have hrun := hprepared.trans (Records.next_steps find
              { left := some limit, skip := 0, skipWhole := true, watch := c'.watch } w')
            split <;> next heq' =>
              rw [heq'] at hrun
              first
              | exact hrun
              | exact hrun.trans (takeFinal_steps find _ _)

theorem nextOwned_steps (find : Finder UInt8) (c : RecordUnitCursor) (w : Window) :
    Steps find w (c.nextOwned find w).2.2 := by
  have hnext := nextRun_steps find c w 1
  unfold nextOwned next
  split <;> next heq =>
    rw [heq] at hnext
    exact hnext

theorem writeTo_steps (find : Finder UInt8) (requested fuel : Nat) (c : RecordUnitCursor)
    (w : Window) (sink : Sink) :
    Steps find w (c.writeTo find requested fuel w sink).2.2.1 := by
  induction fuel generalizing c w sink with
  | zero => exact Relation.ReflTransGen.refl
  | succ fuel ih =>
      have hnext := nextRun_steps find c w (requested - c.emitted)
      rw [writeTo]
      split
      · split
        · next heq =>
            rw [heq] at hnext
            exact hnext
        · next heq =>
            rw [heq] at hnext
            exact hnext
        · next heq =>
            rw [heq] at hnext
            split
            · exact hnext
            · exact hnext.trans (ih _ _ _)
      · exact Relation.ReflTransGen.refl

theorem tryFold_steps (find : Finder UInt8) {β : Type} (step : β → Bytes → Except Error β)
    (fuel : Nat) (limit : Option Nat) (acc : β) (c : RecordUnitCursor) (w : Window) :
    Steps find w (c.tryFold find step fuel limit acc w).2.2 := by
  induction fuel generalizing limit acc c w with
  | zero => exact Relation.ReflTransGen.refl
  | succ fuel ih =>
      have hnext := nextOwned_steps find c w
      rw [tryFold]
      split
      · exact Relation.ReflTransGen.refl
      · split
        · next heq =>
            rw [heq] at hnext
            exact hnext
        · next heq =>
            rw [heq] at hnext
            exact hnext
        · next heq =>
            rw [heq] at hnext
            split
            · exact hnext
            · exact hnext.trans (ih _ _ _ _)

theorem prepare_sameFile (find : Finder UInt8) (c : RecordUnitCursor) (w : Window) :
    SameFile w (c.prepare find w).2.2 := (prepare_steps find c w).sameFile

theorem nextOwned_sameFile (find : Finder UInt8) (c : RecordUnitCursor) (w : Window) :
    SameFile w (c.nextOwned find w).2.2 := (nextOwned_steps find c w).sameFile

theorem writeTo_sameFile (find : Finder UInt8) (requested fuel : Nat) (c : RecordUnitCursor)
    (w : Window) (sink : Sink) : SameFile w (c.writeTo find requested fuel w sink).2.2.1 :=
  (writeTo_steps find requested fuel c w sink).sameFile

theorem tryFold_sameFile (find : Finder UInt8) {β : Type} (step : β → Bytes → Except Error β)
    (fuel : Nat) (limit : Option Nat) (acc : β) (c : RecordUnitCursor) (w : Window) :
    SameFile w (c.tryFold find step fuel limit acc w).2.2 :=
  (tryFold_steps find step fuel limit acc c w).sameFile

end RecordUnitCursor

/-! ### What a cursor keeps -/

namespace RecordUnitCursor

/-- The cursor treats the end of its span as it did, and has no skip left where it had none. -/
structure SameFlags (c c' : RecordUnitCursor) : Prop where
  includes : c'.includeFinalRecord = c.includeFinalRecord
  rejects : c'.rejectFinalFragment = c.rejectFinalFragment
  skip : c.skip = 0 → c'.skip = 0

theorem SameFlags.refl (c : RecordUnitCursor) : SameFlags c c := ⟨rfl, rfl, id⟩

theorem SameFlags.trans {c c' c'' : RecordUnitCursor} (h : SameFlags c c') (h' : SameFlags c' c'') :
    SameFlags c c'' :=
  ⟨h'.includes.trans h.includes, h'.rejects.trans h.rejects, fun hskip => h'.skip (h.skip hskip)⟩

theorem prepare_sameFlags (find : Finder UInt8) (c : RecordUnitCursor) (w : Window) :
    SameFlags c (c.prepare find w).2.1 := by
  unfold prepare
  split
  · exact SameFlags.refl c
  · simp only
    split <;> exact ⟨rfl, rfl, fun _ => rfl⟩

theorem takeFinal_sameFlags (c : RecordUnitCursor) (w : Window) :
    SameFlags c (c.takeFinal w).2.1 := by
  unfold takeFinal
  split
  · exact SameFlags.refl c
  · split
    · split <;> exact ⟨rfl, rfl, id⟩
    · exact SameFlags.refl c

theorem nextRun_sameFlags (find : Finder UInt8) (c : RecordUnitCursor) (w : Window) (limit : Nat) :
    SameFlags c (c.nextRun find w limit).2.1 := by
  have hprepared := prepare_sameFlags find c w
  have hupdated : ∀ (c c' : RecordUnitCursor) watch spent emitted, SameFlags c c' →
      SameFlags c { c' with watch := watch, spent := spent, emitted := emitted } :=
    fun c c' watch spent emitted h => ⟨h.includes, h.rejects, h.skip⟩
  unfold nextRun
  split
  · exact SameFlags.refl c
  · split
    · next heq =>
        rw [heq] at hprepared
        exact ⟨hprepared.includes, hprepared.rejects, hprepared.skip⟩
    · next heq =>
        rw [heq] at hprepared
        simp only
        split
        · exact hprepared
        · split
          · exact hupdated _ _ _ _ _ hprepared
          · exact hupdated _ _ _ _ _ hprepared
          · exact (hupdated _ _ _ _ _ hprepared).trans (takeFinal_sameFlags _ _)

theorem nextOwned_sameFlags (find : Finder UInt8) (c : RecordUnitCursor) (w : Window) :
    SameFlags c (c.nextOwned find w).2.1 := by
  have hnext := nextRun_sameFlags find c w 1
  unfold nextOwned next
  split <;> next heq =>
    rw [heq] at hnext
    exact hnext

theorem writeTo_sameFlags (find : Finder UInt8) (requested fuel : Nat) (c : RecordUnitCursor)
    (w : Window) (sink : Sink) :
    SameFlags c (c.writeTo find requested fuel w sink).2.1 := by
  induction fuel generalizing c w sink with
  | zero => exact SameFlags.refl c
  | succ fuel ih =>
      have hnext := nextRun_sameFlags find c w (requested - c.emitted)
      rw [writeTo]
      split
      · split <;> next heq =>
          rw [heq] at hnext
          first
          | exact hnext
          | split
            · exact hnext
            · exact hnext.trans (ih _ _ _)
      · exact SameFlags.refl c

theorem tryFold_sameFlags (find : Finder UInt8) {β : Type} (step : β → Bytes → Except Error β)
    (fuel : Nat) (limit : Option Nat) (acc : β) (c : RecordUnitCursor) (w : Window) :
    SameFlags c (c.tryFold find step fuel limit acc w).2.1 := by
  induction fuel generalizing limit acc c w with
  | zero => exact SameFlags.refl c
  | succ fuel ih =>
      have hnext := nextOwned_sameFlags find c w
      rw [tryFold]
      split
      · exact SameFlags.refl c
      · split <;> next heq =>
          rw [heq] at hnext
          first
          | exact hnext
          | split
            · exact hnext
            · exact hnext.trans (ih _ _ _ _)

end RecordUnitCursor

/-! ### A walk nothing watches -/

namespace Records

theorem nextFuel_unwatched (find : Finder UInt8) (fuel : Nat) {records : Records} (w : Window)
    (h : records.watch = .unwatched) : (nextFuel find fuel records w).2.1.watch = .unwatched := by
  induction fuel generalizing w with
  | zero => exact h
  | succ fuel ih =>
      rw [nextFuel]
      simp only [h, Watcher.saw]
      split
      · rfl
      · split
        · exact ih _
        · exact h
        · exact h

theorem next_unwatched (find : Finder UInt8) {records : Records} (w : Window)
    (h : records.watch = .unwatched) : (records.next find w).2.1.watch = .unwatched := by
  rw [next]
  split
  · exact h
  · exact nextFuel_unwatched find _ w h

theorem sumRuns_unwatched (find : Finder UInt8) (fuel total : Nat) {records : Records} (w : Window)
    (h : records.watch = .unwatched) :
    (sumRuns find fuel total records w).2.1.watch = .unwatched := by
  induction fuel generalizing total records w with
  | zero => exact h
  | succ fuel ih =>
      have hnext := next_unwatched find w h
      rw [sumRuns]
      split <;> next heq =>
        rw [heq] at hnext
        first
        | exact hnext
        | exact ih _ _ hnext

theorem passSkip_unwatched (find : Finder UInt8) {records : Records} (w : Window)
    (h : records.watch = .unwatched) : (records.passSkip find w).2.1.watch = .unwatched := by
  unfold passSkip
  simp only
  split
  · exact h
  · have hsum := @sumRuns_unwatched find (w.ahead + 1) 0
      { records with skip := 0, left := some records.skip } w h
    split
    · next heq =>
        rw [heq] at hsum
        exact hsum
    · next heq =>
        rw [heq] at hsum
        simp only at hsum
        split
        · simp only [hsum, Watcher.spent]
          split <;> rfl
        · exact hsum

end Records

end SeekZstdSep
