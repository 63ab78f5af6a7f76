/-
Module: SeekZstdSep.Proofs.Streaming
Purpose: Reading through the window is cutting in memory: whatever the reads hand out and however
  large the window is, a chain of runs and a record-unit cursor hand out the records that `ends`
  finds in the region, from the skip on and up to the limit, and come to a refusal exactly at a
  nonfinal frame end with an incomplete record in front of it.
Trusted boundary: none
Main exports: cutAtEnds, brokenEnd, streamed, Records.runs, RecordUnitCursor.runs,
  Window.Standing, StreamsAsCut, streaming_is_cutting
-/
import SeekZstdSep.Proofs.Broken
import SeekZstdSep.Proofs.Refill
import SeekZstdSep.Lib.Drain

namespace SeekZstdSep

open Lib

variable {find : Finder UInt8} {region : Bytes} {start : Nat}

/-! ### Cutting in memory -/

/-- The stretches of `data` between one end and the next, from `begun` on. -/
def between (data : Bytes) : Nat → List Nat → List Bytes
  | _, [] => []
  | begun, ended :: ends => (data.drop begun).take (ended - begun) :: between data ended ends

/-- The records that `ends` finds. -/
def cutAtEnds (find : Finder UInt8) (data : Bytes) : List Bytes := between data 0 (ends find data)

theorem between_offsets (find : Finder UInt8) (data : Bytes) (m i : Nat)
    (hm : i + m = (find.records data).length) :
    between data (find.offset data i)
        ((List.range m).map fun j => find.offset data (i + j + 1)) =
      (find.records data).drop i := by
  induction m generalizing i with
  | zero =>
      rw [List.drop_eq_nil_of_le (by omega)]
      rfl
  | succ m ih =>
      have hlt : i < (find.records data).length := by omega
      have hrest := ih (i + 1) (by omega)
      have hshift : (fun j => find.offset data (i + (j + 1) + 1)) =
          fun j => find.offset data (i + 1 + j + 1) := by
        funext j
        rw [Nat.add_assoc i 1 j, Nat.add_comm 1 j]
      have hrecord : (data.drop (find.offset data i)).take
          (find.offset data (i + 1) - find.offset data i) = (find.records data)[i] := by
        have hwhole := find.take_offset data (i + 1)
        have hfront := find.take_offset data i
        rw [List.take_succ_eq_append_getElem hlt, List.flatten_append, List.flatten_singleton,
          ← hfront] at hwhole
        rw [← List.drop_take, hwhole,
          List.drop_left' (List.length_take_of_le (find.offset_le data i))]
      rw [List.range_succ_eq_map, List.map_cons, List.map_map, between,
        List.drop_eq_getElem_cons hlt]
      simp only [Nat.add_zero, Function.comp_def, Nat.succ_eq_add_one, hrecord, hshift, hrest]

theorem cutAtEnds_eq (find : Finder UInt8) (data : Bytes) :
    cutAtEnds find data = find.records data := by
  have hcut := between_offsets find data (find.records data).length 0 (Nat.zero_add _)
  rw [cutAtEnds, ends_eq]
  simpa [Finder.offset] using hcut

/-- The first frame end inside the region with an incomplete record in front of it. -/
def brokenEnd (find : Finder UInt8) (frameEnds : List Nat) (base start : Nat) (region : Bytes) :
    Option Nat :=
  frameEnds.find? fun e =>
    decide (base + start < e ∧ e ≤ base + start + region.length) &&
      !endsWhole find (region.take (e - base - start))

/-- The region up to there. -/
def brokenReach (find : Finder UInt8) (frameEnds : List Nat) (base start : Nat) (region : Bytes) :
    Option Bytes :=
  (brokenEnd find frameEnds base start region).map fun e => region.take (e - base - start)

/-- The records of a region up to the first frame end that cuts one, and the error that is met
there. -/
def streamed (find : Finder UInt8) (frameEnds : List Nat) (base start : Nat) (region : Bytes) :
    List Bytes × Option Error :=
  match brokenEnd find frameEnds base start region with
  | none => (cutAtEnds find region, none)
  | some e =>
      ((cutAtEnds find region).take (count find (region.take (e - base - start))),
        some .incompleteRecord)

/-- What follows the last record that `ends` finds. -/
def afterLast (find : Finder UInt8) (data : Bytes) : Bytes :=
  data.drop ((ends find data).getLast?.getD 0)

theorem afterLast_eq (find : Finder UInt8) (data : Bytes) :
    afterLast find data = find.rest data := by
  rw [afterLast, ends_eq, ← find.after_of_length_le (Nat.le_refl _), Finder.after]
  cases hcount : (find.records data).length with
  | zero => simp [Finder.offset]
  | succ n =>
      rw [List.range_succ, List.map_append, List.map_singleton, List.getLast?_append,
        List.getLast?_singleton, Option.some_or, Option.getD_some]

/-- At most as many as the limit, where there is one: what comes behind them is not met. -/
def atMost (limit : Option Nat) (told : List Bytes × Option Error) : List Bytes × Option Error :=
  match limit with
  | none => told
  | some n => (told.1.take n, if told.1.length < n then told.2 else none)

/-- What the records of a region and its end are to a cursor. -/
def RecordUnitCursor.told (find : Finder UInt8) (c : RecordUnitCursor) (region : Bytes)
    (streamed : List Bytes × Option Error) : List Bytes × Option Error :=
  if streamed.2.isSome then (streamed.1.drop c.skip, streamed.2)
  else if streamed.1.length < c.skip then
    ([], if c.skipWhole then some .noSeparatorInFrame else none)
  else if c.rejectFinalFragment && !(afterLast find region).isEmpty then
    (streamed.1.drop c.skip, some .incompleteFinalRecord)
  else
    ((streamed.1 ++ if c.includeFinalRecord && !(afterLast find region).isEmpty then
        [afterLast find region] else []).drop c.skip, none)

/-- A run stands for the records it is of. -/
def asRun (group : List Bytes) : Bytes × Nat := (group.flatten, group.length)

/-! ### Walks to their end -/

namespace Records

/-- The next run of a chain, its bytes and how many records it is of. -/
def hand (find : Finder UInt8) (state : Records × Window) :
    Option (Except Error (Bytes × Nat)) × Records × Window :=
  let got := state.1.next find state.2
  (got.1.map fun run => run.map fun run => (got.2.2.bytes run, run.count), got.2)

/-- Everything a chain hands out behind its skip, and how the walk ends. -/
def runs (find : Finder UInt8) (records : Records) (w : Window) :
    Option (List (Bytes × Nat) × Option Error × Records × Window) :=
  match records.passSkip find w with
  | (.error e, rest) => some ([], some e, rest)
  | (.ok false, rest) => some ([], none, rest)
  | (.ok true, rest) => drain (hand find) (w.ahead + 1) rest

end Records

namespace RecordUnitCursor

/-- A run of a cursor, its bytes and how many records it is of, which the limit shrinks by. -/
def handed (limit : Option Nat) :
    Option (Except Error Run) × RecordUnitCursor × Window →
      Option (Except Error (Bytes × Nat)) × Option Nat × RecordUnitCursor × Window
  | (none, rest) => (none, limit, rest)
  | (some (.error e), rest) => (some (.error e), limit, rest)
  | (some (.ok run), c, w) =>
      (some (.ok (w.bytes run, run.count)), limit.map (· - run.count), c, w)

/-- The next run of a cursor that hands out at most `most` records at a time and as many as the
limit in all. -/
def hand (find : Finder UInt8) (most : Nat) (state : Option Nat × RecordUnitCursor × Window) :
    Option (Except Error (Bytes × Nat)) × Option Nat × RecordUnitCursor × Window :=
  handed state.1 (state.2.1.nextRun find state.2.2 (state.1.elim most (min most)))

/-- Everything a cursor hands out, and how the walk ends. -/
def runs (find : Finder UInt8) (most : Nat) (limit : Option Nat) (c : RecordUnitCursor)
    (w : Window) : Option (List (Bytes × Nat) × Option Error × Option Nat × RecordUnitCursor ×
      Window) :=
  drain (hand find most) (w.ahead + 1) (limit, c, w)

end RecordUnitCursor

/-! ### Where a window stands -/

namespace Window

/-- The window stands before record `i` of the region, or of what reaches up to an unfinished
record. -/
inductive Standing (find : Finder UInt8) (region : Bytes) (start : Nat) :
    Option Bytes → Nat → Window → Prop where
  | free {i : Nat} {w : Window} (window : At find region start i w) :
      Standing find region start none i w
  | toward {reach : Bytes} {good more : List Nat} {i : Nat} {w : Window}
      (window : Toward find reach start good more i w) :
      Standing find region start (some reach) i w

theorem takeWhile_ends {w : Window} {good more : List Nat} {stop : Nat}
    (hends : w.frameEnds = good ++ (w.frameEndBase + stop) :: more) (hstop : start < stop) :
    (w.frameEnds.takeWhile fun e => decide (e ≤ start + w.frameEndBase)) =
      good.takeWhile fun e => decide (e ≤ start + w.frameEndBase) := by
  rw [hends, List.takeWhile_append]
  split
  · next hall =>
      rw [List.takeWhile_cons_of_neg (by simp; omega), List.append_nil]
      exact ((List.takeWhile_prefix _).eq_of_length hall).symm
  · rfl

theorem seekTo_cappedAt {w : Window} {good more : List Nat} {stop len : Nat}
    (hends : w.frameEnds = good ++ (w.frameEndBase + stop) :: more) (hstop : start < stop) :
    (w.seekTo start len).cappedAt stop good =
      { w with frameEnds := good }.seekTo start (stop - start) := by
  have hnext := congrArg List.length (takeWhile_ends hends hstop)
  exact congrArg (fun next : Nat => ({ w.clear with
    source := { inner := w.source.inner.seek start, limit := stop - start }
    offset := start
    frameEnds := good
    nextFrameEnd := next } : Window)) hnext

theorem rest_of_endsWhole {e : Nat} {frameEndBase : Nat}
    (hin : frameEndBase + start < e ∧ e ≤ frameEndBase + start + region.length)
    (hpasses : ¬ (decide (frameEndBase + start < e ∧ e ≤ frameEndBase + start + region.length) &&
      !endsWhole find (region.take (e - frameEndBase - start))) = true) :
    find.rest (region.take (e - frameEndBase - start)) = [] := by
  rw [decide_eq_true hin, Bool.true_and, Bool.not_eq_true', Bool.not_eq_false] at hpasses
  exact ((endsWhole_iff find _).mp hpasses).2

/-- A window that is pointed at a region stands before its records, up to the first frame end that
cuts one. -/
theorem seekTo_standing {w : Window} {len : Nat}
    (hregion : (w.source.inner.stream.drop start).take len = region) (hcap : 0 < w.cap)
    (hsorted : w.frameEnds.Pairwise (· ≤ ·)) :
    Standing find region start (brokenReach find w.frameEnds w.frameEndBase start region) 0
      (w.seekTo start len) := by
  rw [brokenReach]
  cases hbroken : brokenEnd find w.frameEnds w.frameEndBase start region with
  | none =>
      have hnone := List.find?_eq_none.mp hbroken
      apply Standing.free
      apply seekTo_at hregion hcap hsorted
      intro e hin hlow hhigh
      exact rest_of_endsWhole ⟨hlow, hhigh⟩ (hnone e hin)
  | some e =>
      obtain ⟨hcuts, good, more, hends, hgood⟩ := List.find?_eq_some_iff_append.mp hbroken
      simp only [Bool.and_eq_true, decide_eq_true_eq, Bool.not_eq_true'] at hcuts
      obtain ⟨⟨hlow, hhigh⟩, hcut⟩ := hcuts
      obtain ⟨stop, rfl⟩ : ∃ stop, e = w.frameEndBase + stop :=
        Nat.exists_eq_add_of_le (by omega)
      have hlen : w.frameEndBase + stop - w.frameEndBase - start = stop - start := by omega
      rw [Option.map_some]
      simp only [hlen] at hcut ⊢
      generalize hreach : region.take (stop - start) = reach at hcut ⊢
      have hreachLen : reach.length = stop - start := by
        rw [← hreach, List.length_take]
        omega
      have hstop : start + reach.length = stop := by omega
      have hne : reach ≠ [] := List.ne_nil_of_length_pos (by omega)
      rw [hends, List.pairwise_append, List.pairwise_cons] at hsorted
      obtain ⟨hgoodSorted, ⟨hbehind, -⟩, hfront⟩ := hsorted
      have hbefore : ∀ e ∈ good, e < w.frameEndBase + stop := by
        intro e hin
        have hle := hfront e hin _ List.mem_cons_self
        apply Nat.lt_of_le_of_ne hle
        rintro rfl
        have hpassed := hgood _ hin
        rw [hlen, hreach, hcut] at hpassed
        simp only [Bool.not_false, Bool.and_true, Bool.not_eq_true', decide_eq_false_iff_not]
          at hpassed
        exact hpassed ⟨hlow, hhigh⟩
      have hregionLen : region.length ≤ len := by
        rw [← hregion]
        exact List.length_take_le _ _
      have htoward : Toward find reach start good more 0 (w.seekTo start len) :=
        { capped := by
            rw [hstop, seekTo_cappedAt hends (by omega)]
            apply @seekTo_at find { w with frameEnds := good } start (stop - start) reach _ hcap
              hgoodSorted
            · intro e hin he _
              have hpassed := hgood e hin
              have hless := hbefore e hin
              rw [← hreach, List.take_take, Nat.min_eq_left (by simp only; omega)]
              apply rest_of_endsWhole ⟨he, by simp only at he ⊢; omega⟩
              intro hcutting
              rw [hcutting] at hpassed
              cases hpassed
            · rw [← hreach, ← hregion, List.take_take,
                Nat.min_eq_left (show stop - start ≤ len by omega)]
          past :=
            { ends := by rw [hstop]; exact hends
              next_le := by
                have hnext := congrArg List.length
                  (takeWhile_ends hends (show start < stop by omega))
                exact (Nat.le_of_eq hnext).trans (List.takeWhile_prefix _).length_le
              before := by rw [hstop]; exact hbefore
              behind := by rw [hstop]; exact hbehind
              limit_le := by
                show start + reach.length ≤ start + 0 + len
                omega }
          broken := by
            intro hrest
            have hwhole := (endsWhole_iff find reach).mpr ⟨hne, hrest⟩
            rw [hcut] at hwhole
            cases hwhole
          eof := rfl }
      exact Standing.toward htoward

end Window

theorem streamed_eq (find : Finder UInt8) (frameEnds : List Nat) (base start : Nat)
    (region : Bytes) :
    streamed find frameEnds base start region =
      (find.records ((brokenReach find frameEnds base start region).getD region),
        (brokenReach find frameEnds base start region).map fun _ => .incompleteRecord) := by
  rw [streamed, brokenReach]
  cases brokenEnd find frameEnds base start region with
  | none => rw [cutAtEnds_eq, Option.map_none, Option.getD_none, Option.map_none]
  | some e =>
      generalize hcut : e - base - start = cut
      have hsplit := find.take_records_append (region.take cut) (region.drop cut) (Nat.le_refl _)
      rw [List.take_append_drop, List.take_length] at hsplit
      simp only [Option.map_some, Option.getD_some, hcut, cutAtEnds_eq, count_eq, hsplit]

/-! ### What is left to hand out -/

variable {broken : Option Bytes} {i : Nat} {w : Window}

theorem Window.Standing.index_le (h : Window.Standing find region start broken i w) :
    i ≤ (find.records (broken.getD region)).length := by
  cases h with
  | free window => exact window.index_le
  | toward window => exact window.capped.index_le

/-- What a cursor that stands before record `i` still hands out, and how it ends. -/
def RecordUnitCursor.toldFrom (find : Finder UInt8) (c : RecordUnitCursor) (region : Bytes)
    (broken : Option Bytes) (i : Nat) : List Bytes × Option Error :=
  match broken with
  | none => c.feed find region i
  | some reach => ((find.records reach).drop i, some .incompleteRecord)

theorem RecordUnitCursor.told_eq (find : Finder UInt8) (c : RecordUnitCursor)
    (frameEnds : List Nat) (base start : Nat) (region : Bytes) :
    c.told find region (streamed find frameEnds base start region) =
      c.toldFrom find region (brokenReach find frameEnds base start region) c.skip := by
  rw [told, streamed_eq, afterLast_eq]
  cases brokenReach find frameEnds base start region with
  | none => rfl
  | some reach => rfl

/-- Handing out `k` records leaves the rest. -/
theorem RecordUnitCursor.toldFrom_advance {c : RecordUnitCursor} {k : Nat}
    (hk : i + k ≤ (find.records (broken.getD region)).length) :
    (c.toldFrom find region broken i).1.take k =
        ((find.records (broken.getD region)).drop i).take k ∧
      k ≤ (c.toldFrom find region broken i).1.length ∧
      c.toldFrom find region broken (i + k) =
        ((c.toldFrom find region broken i).1.drop k, (c.toldFrom find region broken i).2) := by
  cases broken with
  | none => exact feed_advance hk
  | some reach =>
      refine ⟨rfl, ?_, ?_⟩
      · rw [toldFrom, List.length_drop]
        exact Nat.le_sub_of_add_le' hk
      · rw [toldFrom, toldFrom, List.drop_drop]

theorem Window.Standing.length_after_le (h : Window.Standing find region start broken i w) :
    (find.after (broken.getD region) i).length ≤ w.ahead := by
  cases h with
  | free window => exact Nat.le_of_eq window.length_ahead.symm
  | toward window => exact window.length_after_le

/-- What a cursor hands out fits in the bytes its window can come to. -/
theorem RecordUnitCursor.length_toldFrom_le (c : RecordUnitCursor)
    (h : Window.Standing find region start broken i w) (k : Nat) :
    (c.toldFrom find region broken (i + k)).1.length ≤ w.ahead := by
  refine Nat.le_trans ?_ h.length_after_le
  cases broken with
  | none => exact length_feed_le c h.index_le k
  | some reach =>
      have hrecords := find.length_records_le (find.after reach i)
      rw [find.records_after, List.length_drop] at hrecords
      rw [toldFrom, List.length_drop, Option.getD_some]
      omega

/-- The limit lets a walk come to its end. -/
def Unmet (limit : Option Nat) (us : List Bytes) : Prop := ∀ n, limit = some n → us.length < n

theorem Unmet.advance {limit : Option Nat} {us : List Bytes} {k : Nat} (h : Unmet limit us)
    (hk : k ≤ us.length) : Unmet (limit.map (· - k)) (us.drop k) := by
  intro n hn
  obtain ⟨m, hm, rfl⟩ := Option.map_eq_some_iff.mp hn
  have hlt := h m hm
  rw [List.length_drop]
  omega

theorem atMost_of_unmet {limit : Option Nat} {told : List Bytes × Option Error}
    (h : Unmet limit told.1) : atMost limit told = told := by
  cases limit with
  | none => rfl
  | some n =>
      have hlt := h n rfl
      rw [atMost, List.take_of_length_le (Nat.le_of_lt hlt), if_pos hlt]

theorem length_atMost_le (limit : Option Nat) (told : List Bytes × Option Error) :
    (atMost limit told).1.length ≤ told.1.length := by
  cases limit with
  | none => exact Nat.le_refl _
  | some n => exact List.length_take_le' _ _

theorem atMost_zero (told : List Bytes × Option Error) : atMost (some 0) told = ([], none) := rfl

theorem atMost_nil {limit : Option Nat} (hlimit : limit ≠ some 0) (fin : Option Error) :
    atMost limit ([], fin) = ([], fin) := by
  apply atMost_of_unmet
  intro n hn
  apply Nat.pos_of_ne_zero
  rintro rfl
  exact hlimit hn

theorem atMost_advance {limit : Option Nat} {told : List Bytes × Option Error} {k : Nat}
    (hk : k ≤ told.1.length) (hlimit : ∀ n, limit = some n → k ≤ n) :
    atMost limit told =
      (told.1.take k ++ (atMost (limit.map (· - k)) (told.1.drop k, told.2)).1,
        (atMost (limit.map (· - k)) (told.1.drop k, told.2)).2) := by
  cases limit with
  | none =>
      rw [Option.map_none, atMost, atMost, List.take_append_drop]
  | some n =>
      obtain ⟨more, rfl⟩ := Nat.exists_eq_add_of_le (hlimit n rfl)
      have hshort : (told.1.drop k).length < more ↔ told.1.length < k + more := by
        rw [List.length_drop]
        omega
      rw [Option.map_some, Nat.add_sub_cancel_left, atMost, atMost, List.take_add]
      simp only [hshort]

/-! ### One run of a chain -/

namespace Records

open Window

/-- What the next run of a chain that nothing watches is. -/
inductive NextStanding (find : Finder UInt8) (region : Bytes) (start : Nat) (broken : Option Bytes)
    (i : Nat) (records : Records) : Option (Except Error Run) × Records × Window → Prop
  | handed {run : Run} {w' : Window} (pos : 0 < run.count)
      (wanted : ∀ n, records.left = some n → run.count ≤ n)
      (bytes : w'.bytes run =
        (((find.records (broken.getD region)).drop i).take run.count).flatten)
      (window : Standing find region start broken (i + run.count) w') :
      NextStanding find region start broken i records
        (some (.ok run), { records with left := records.left.map (· - run.count) }, w')
  | ended {w' : Window} (free : broken = none) (done : i = (find.records region).length)
      (window : At find region start (find.records region).length w') (eof : w'.eof = true) :
      NextStanding find region start broken i records (none, records, w')
  | refused {reach : Bytes} {records' : Records} {w' : Window} (cut : broken = some reach)
      (done : i = (find.records reach).length) :
      NextStanding find region start broken i records
        (some (.error .incompleteRecord), records', w')

theorem next_standing {records : Records} (hstanding : Standing find region start broken i w)
    (hwatch : records.watch = .unwatched) (hleft : records.left ≠ some 0) :
    NextStanding find region start broken i records (records.next find w) := by
  cases hstanding with
  | free window =>
      have hunwatched := next_unwatched find w hwatch
      have houtcome := next_spec records window (by rw [hwatch]; rfl) hleft
      generalize records.next find w = result at houtcome hunwatched
      cases houtcome with
      | refused blames => exact absurd blames not_blames_none
      | @handed run watch' w' pos wanted bytes window watch =>
          simp only at hunwatched
          rw [hunwatched, ← hwatch]
          exact NextStanding.handed pos wanted bytes (Standing.free window)
      | spent done window eof =>
          subst done
          exact NextStanding.ended rfl rfl window eof
  | toward window =>
      have houtcome := next_toward records window hwatch hleft
      generalize records.next find w = result at houtcome
      cases houtcome with
      | refused done => exact NextStanding.refused rfl done
      | handed pos wanted bytes window =>
          exact NextStanding.handed pos wanted bytes (Standing.toward window)

/-- What passing the skip of such a chain comes to. -/
inductive SkipStanding (find : Finder UInt8) (region : Bytes) (start : Nat) (broken : Option Bytes)
    (i : Nat) (records : Records) : Except Error Bool × Records × Window → Prop
  | passed {w' : Window} (window : Standing find region start broken (i + records.skip) w') :
      SkipStanding find region start broken i records (.ok true, { records with skip := 0 }, w')
  | short {w' : Window} (free : broken = none)
      (short : (find.records region).length < i + records.skip)
      (rest : w'.remainder = find.rest region) :
      SkipStanding find region start broken i records
        (if records.skipWhole then .error .noSeparatorInFrame else .ok false,
          { records with skip := 0 }, w')
  | refused {reach : Bytes} {records' : Records} {w' : Window} (cut : broken = some reach)
      (short : (find.records reach).length < i + records.skip) :
      SkipStanding find region start broken i records (.error .incompleteRecord, records', w')

theorem passSkip_standing {records : Records} (hstanding : Standing find region start broken i w)
    (hwatch : records.watch = .unwatched) :
    SkipStanding find region start broken i records (records.passSkip find w) := by
  cases hstanding with
  | free window =>
      have hunwatched := passSkip_unwatched find w hwatch
      have hpassed := passSkip_spec records window (by rw [hwatch]; rfl)
      generalize records.passSkip find w = result at hpassed hunwatched
      cases hpassed with
      | refused blames => exact absurd blames not_blames_none
      | passed window watch =>
          simp only at hunwatched
          rw [hunwatched, ← hwatch]
          exact SkipStanding.passed (Standing.free window)
      | short short window eof watch =>
          simp only at hunwatched
          rw [hunwatched, ← hwatch]
          exact SkipStanding.short rfl short (window.remainder_of_eof eof)
  | toward window =>
      rcases passSkip_toward records window hwatch with ⟨w', hpass, hstands⟩ |
        ⟨hshort, records', w', hfails⟩
      · rw [hpass]
        exact SkipStanding.passed (Standing.toward hstands)
      · rw [hfails]
        exact SkipStanding.refused rfl hshort

/-- What a chain that has made its skip still hands out. Where `free` holds the walk comes to the
end of its input. -/
structure Leaves (find : Finder UInt8) (region : Bytes) (start : Nat) (broken : Option Bytes)
    (c : RecordUnitCursor) (free : Prop) (us : List Bytes) (fin : Option Error)
    (state : Records × Window) : Prop where
  unwatched : state.1.watch = .unwatched
  includes : c.includeFinalRecord = false
  rejects : c.rejectFinalFragment = false
  standing : ∃ i, Standing find region start broken i state.2 ∧
    (us, fin) = atMost state.1.left (c.toldFrom find region broken i) ∧
    (free → broken = none ∧ Unmet state.1.left (c.toldFrom find region broken i).1)

/-- The end of the input was reached with what follows the last whole record left over. -/
def Over (find : Finder UInt8) (region : Bytes) (free : Prop) (w : Window) : Prop :=
  free → w.remainder = find.rest region

theorem asRun_take {us : List Bytes} {k : Nat} {bytes : Bytes} (hk : k ≤ us.length)
    (hbytes : bytes = (us.take k).flatten) : (bytes, k) = asRun (us.take k) := by
  rw [asRun, ← hbytes, List.length_take_of_le hk]

theorem hand_answers {c : RecordUnitCursor} {free : Prop} {us : List Bytes} {fin : Option Error}
    {state : Records × Window} (h : Leaves find region start broken c free us fin state) :
    Answers asRun (· ≠ []) (Leaves find region start broken c free)
      (fun state => Over find region free state.2) us fin (hand find state) := by
  obtain ⟨records, w⟩ := state
  obtain ⟨hwatch, hincludes, hrejects, i, hstanding, htold, hfree⟩ := h
  simp only at hwatch hstanding htold hfree
  by_cases hleft : records.left = some 0
  · have hnext : records.next find w = (none, records, w) := by
      rw [next, if_pos hleft]
    obtain ⟨rfl, rfl⟩ := Prod.mk.inj (htold.trans (by rw [hleft, atMost_zero]))
    rw [hand, hnext]
    apply Answers.ended
    intro hholds
    exact absurd ((hfree hholds).2 0 hleft) (Nat.not_lt_zero _)
  · have hindex := hstanding.index_le
    have hanswer := next_standing hstanding hwatch hleft
    rw [hand]
    simp only
    generalize records.next find w = result at hanswer
    cases hanswer with
    | @handed run w' pos wanted bytes window =>
        obtain ⟨htake, hle, hrest⟩ :=
          @RecordUnitCursor.toldFrom_advance find _ _ _ c _ window.index_le
        rw [atMost_advance hle wanted] at htold
        obtain ⟨rfl, rfl⟩ := Prod.mk.inj htold
        rw [← htake] at bytes
        simp only [Option.map_some, Except.map, asRun_take hle bytes]
        apply Answers.handed
        · exact List.ne_nil_of_length_pos (by rw [List.length_take_of_le hle]; exact pos)
        · refine ⟨hwatch, hincludes, hrejects, _, window, ?_, ?_⟩
          · rw [hrest]
          · intro hholds
            obtain ⟨hnone, hunmet⟩ := hfree hholds
            rw [hrest]
            exact ⟨hnone, hunmet.advance hle⟩
    | ended free done window eof =>
        subst free done
        have hend : c.toldFrom find region none (find.records region).length = ([], none) := by
          rw [RecordUnitCursor.toldFrom, RecordUnitCursor.feed_end, hincludes, hrejects]
          rfl
        rw [hend, atMost_nil hleft] at htold
        obtain ⟨rfl, rfl⟩ := Prod.mk.inj htold
        exact Answers.ended fun _ => window.remainder_of_eof eof
    | @refused reach records' w' cut done =>
        subst cut done
        have hend : c.toldFrom find region (some reach) (find.records reach).length =
            ([], some .incompleteRecord) := by
          rw [RecordUnitCursor.toldFrom, List.drop_length]
        rw [hend, atMost_nil hleft] at htold
        obtain ⟨rfl, rfl⟩ := Prod.mk.inj htold
        apply Answers.failed
        intro hholds
        cases (hfree hholds).1

/-- What a chain hands out of the records of a region, up to its limit. The skip is made however
low the limit is. -/
def told (find : Finder UInt8) (records : Records) (region : Bytes)
    (streamed : List Bytes × Option Error) : List Bytes × Option Error :=
  let told := (RecordUnitCursor.ofRecords records).told find region streamed
  if streamed.1.length < records.skip then told else atMost records.left told

theorem runs_standing {records : Records} {us : List Bytes} {fin : Option Error} {free : Prop}
    (hstanding : Standing find region start broken 0 w) (hwatch : records.watch = .unwatched)
    (htold : (us, fin) =
      if (find.records (broken.getD region)).length < records.skip then
        (RecordUnitCursor.ofRecords records).toldFrom find region broken records.skip
      else atMost records.left
        ((RecordUnitCursor.ofRecords records).toldFrom find region broken records.skip))
    (hfree : free → broken = none ∧ ((find.records region).length < records.skip ∨
      Unmet records.left
        ((RecordUnitCursor.ofRecords records).toldFrom find region broken records.skip).1)) :
    ∃ runs records' w', records.runs find w = some (runs, fin, records', w') ∧
      HandedOut asRun (· ≠ []) runs us ∧ Over find region free w' := by
  have hskipped := passSkip_standing hstanding hwatch
  rw [runs]
  generalize records.passSkip find w = result at hskipped
  cases hskipped with
  | @passed w' window =>
      rw [Nat.zero_add] at window
      have hindex := window.index_le
      rw [if_neg (Nat.not_lt.mpr hindex)] at htold
      have hleaves : Leaves find region start broken (RecordUnitCursor.ofRecords records) free us
          fin ({ records with skip := 0 }, w') := by
        refine ⟨hwatch, rfl, rfl, records.skip, window, htold, ?_⟩
        intro hholds
        obtain ⟨hnone, hreached⟩ := hfree hholds
        refine ⟨hnone, hreached.resolve_left ?_⟩
        subst hnone
        exact Nat.not_lt.mpr hindex
      have hfuel : us.length < w.ahead + 1 := by
        have hmost := length_atMost_le records.left
          ((RecordUnitCursor.ofRecords records).toldFrom find region broken records.skip)
        have hle := (RecordUnitCursor.ofRecords records).length_toldFrom_le hstanding records.skip
        rw [Nat.zero_add] at hle
        rw [← htold] at hmost
        exact Nat.lt_succ_of_le (Nat.le_trans hmost hle)
      obtain ⟨runs, state, hdrain, hruns, hover⟩ :=
        drain_spec (fun _ => id) (fun _ _ _ => hand_answers) _ us fin _ hfuel hleaves
      exact ⟨runs, state.1, state.2, hdrain, hruns, hover⟩
  | @short w' free short rest =>
      subst free
      rw [Nat.zero_add] at short
      rw [Option.getD_none, if_pos short, RecordUnitCursor.toldFrom, RecordUnitCursor.feed,
        if_pos short] at htold
      obtain ⟨rfl, rfl⟩ := Prod.mk.inj htold
      have hskipWhole : (RecordUnitCursor.ofRecords records).skipWhole = records.skipWhole := rfl
      rw [hskipWhole]
      cases records.skipWhole with
      | true => exact ⟨[], _, _, rfl, HandedOut.nothing, fun _ => rest⟩
      | false => exact ⟨[], _, _, rfl, HandedOut.nothing, fun _ => rest⟩
  | @refused reach records' w' cut short =>
      subst cut
      rw [Nat.zero_add] at short
      rw [Option.getD_some, if_pos short, RecordUnitCursor.toldFrom,
        List.drop_eq_nil_of_le (Nat.le_of_lt short)] at htold
      obtain ⟨rfl, rfl⟩ := Prod.mk.inj htold
      refine ⟨[], _, _, rfl, HandedOut.nothing, ?_⟩
      intro hholds
      cases (hfree hholds).1

end Records

/-! ### One run of a cursor -/

theorem atMost_ended (limit : Option Nat) : atMost limit ([], none) = ([], none) := by
  cases limit with
  | none => rfl
  | some n => rw [atMost, List.take_nil, ite_self]

namespace RecordUnitCursor

open Window

/-- What making the skip of a cursor that nothing watches comes to. -/
inductive PrepareStanding (find : Finder UInt8) (region : Bytes) (start : Nat)
    (broken : Option Bytes) (i : Nat) (c : RecordUnitCursor) :
    Except Error Unit × RecordUnitCursor × Window → Prop
  | ready {w' : Window} (window : Standing find region start broken (i + c.skip) w') :
      PrepareStanding find region start broken i c (.ok (), { c with skip := 0 }, w')
  | failed {w' : Window} (free : broken = none)
      (short : (find.records region).length < i + c.skip) (whole : c.skipWhole = true)
      (rest : w'.remainder = find.rest region) :
      PrepareStanding find region start broken i c
        (.error .noSeparatorInFrame, { c with skip := 0 }, w')
  | spent {w' : Window} (free : broken = none)
      (short : (find.records region).length < i + c.skip) (whole : c.skipWhole = false)
      (rest : w'.remainder = find.rest region) :
      PrepareStanding find region start broken i c
        (.ok (), { c with skip := 0, spent := true }, w')
  | refused {reach : Bytes} {c' : RecordUnitCursor} {w' : Window} (cut : broken = some reach)
      (short : (find.records reach).length < i + c.skip) :
      PrepareStanding find region start broken i c (.error .incompleteRecord, c', w')

theorem prepare_standing {c : RecordUnitCursor} (hstanding : Standing find region start broken i w)
    (hwatch : c.watch = .unwatched) (hspent : c.spent = false) :
    PrepareStanding find region start broken i c (c.prepare find w) := by
  rw [prepare]
  by_cases hskip : c.skip = 0
  · have hsame : { c with skip := 0 } = c := by
      cases c
      simp_all
    have hready := PrepareStanding.ready (c := c) (by rwa [hskip] : Standing find region start
      broken (i + c.skip) w)
    rw [if_pos hskip]
    rwa [hsame] at hready
  · rw [if_neg hskip]
    simp only
    have hskipped := @Records.passSkip_standing find region start broken i w
      { left := none, skip := c.skip, skipWhole := c.skipWhole, watch := c.watch } hstanding hwatch
    generalize Records.passSkip find _ w = result at hskipped
    cases hskipped with
    | passed window =>
        simp only [hspent, Bool.not_true, Bool.or_false]
        rw [← hspent]
        exact PrepareStanding.ready window
    | @short w' free short rest =>
        cases hwhole : c.skipWhole with
        | true =>
            have hfailed :=
              @PrepareStanding.failed find region start broken i c w' free short hwhole rest
            rwa [hwhole] at hfailed
        | false =>
            have hended := @PrepareStanding.spent find region start broken i c w' free short hwhole
              rest
            rw [hwhole] at hended
            simpa only [Bool.false_eq_true, if_false, Bool.not_false, Bool.or_true] using hended
    | refused cut short => exact PrepareStanding.refused cut short

/-- What a cursor still hands out, up to its limit. Where `free` holds the walk comes to the end of
its input and leaves the unfinished record there. -/
structure Leaves (find : Finder UInt8) (region : Bytes) (start : Nat) (broken : Option Bytes)
    (free : Prop) (us : List Bytes) (fin : Option Error)
    (state : Option Nat × RecordUnitCursor × Window) : Prop where
  unwatched : state.2.1.watch = .unwatched
  includes : free → state.2.1.includeFinalRecord = false
  standing :
    (state.2.1.spent = true ∧ us = [] ∧ fin = none ∧ Records.Over find region free state.2.2) ∨
      (state.2.1.spent = false ∧ ∃ i, Standing find region start broken i state.2.2 ∧
        (us, fin) =
          atMost state.1 (state.2.1.toldFrom find region broken (i + state.2.1.skip)) ∧
        (free → broken = none ∧
          Unmet state.1 (state.2.1.toldFrom find region broken (i + state.2.1.skip)).1))

/-- What may come in one run. -/
def Fits (most : Nat) (group : List Bytes) : Prop := group ≠ [] ∧ group.length ≤ most

/-- The end of the input: the unfinished record is refused, handed out or left. -/
theorem takeFinal_answers {c : RecordUnitCursor} {limit : Option Nat} {free : Prop} {most : Nat}
    (hmost : 0 < most) (hlimit : limit ≠ some 0) (hspent : c.spent = true)
    (hwatch : c.watch = .unwatched) (hincludes : free → c.includeFinalRecord = false)
    (window : At find region start (find.records region).length w) (eof : w.eof = true) :
    Answers asRun (Fits most) (Leaves find region start broken free)
      (fun state => Records.Over find region free state.2.2)
      (atMost limit (c.feed find region (find.records region).length)).1
      (atMost limit (c.feed find region (find.records region).length)).2
      (handed limit (c.takeFinal w)) := by
  have hrest := window.remainder_of_eof eof
  obtain ⟨hnone, hsome⟩ := window.finalRecord eof
  rw [feed_end, takeFinal, hrest]
  cases c.rejectFinalFragment && !(find.rest region).isEmpty with
  | true =>
      simp only [if_true, atMost_nil hlimit]
      exact Answers.failed fun _ => hrest
  | false =>
      simp only [Bool.false_eq_true, if_false]
      cases hinclude : c.includeFinalRecord with
      | false =>
          simp only [Bool.false_and, Bool.false_eq_true, if_false, atMost_ended]
          exact Answers.ended fun _ => hrest
      | true =>
          simp only [Bool.true_and, if_true]
          by_cases hnil : find.rest region = []
          · rw [hnone hnil, hnil]
            simp only [List.isEmpty_nil, Bool.not_true, Bool.false_eq_true, if_false, atMost_ended]
            exact Answers.ended fun _ => hrest
          · obtain ⟨run, w', hfinal, hcount, hbytes, -⟩ := hsome hnil
            have hsome : (!(find.rest region).isEmpty) = true := by
              rw [List.isEmpty_eq_false_iff.mpr hnil, Bool.not_false]
            have hone : ∀ n, limit = some n → 1 ≤ n := by
              intro n hn
              apply Nat.pos_of_ne_zero
              rintro rfl
              exact hlimit hn
            have hrun : (w'.bytes run, run.count) = asRun [find.rest region] := by
              rw [asRun, List.flatten_singleton, List.length_singleton, hcount, hbytes]
            have hleft : atMost limit ([find.rest region], none) =
                ([find.rest region] ++ [], none) := by
              rw [atMost_advance (Nat.le_refl 1) hone]
              simp only [List.drop_succ_cons, List.drop_zero, atMost_ended]
              rfl
            rw [hfinal, hsome]
            simp only [if_true, hleft, handed, hrun]
            apply Answers.handed
            · exact ⟨List.cons_ne_nil _ _, hmost⟩
            · refine ⟨hwatch, ?_, Or.inl ⟨hspent, rfl, rfl, ?_⟩⟩
              · intro hholds
                rw [← hinclude]
                exact hincludes hholds
              · intro hholds
                rw [hincludes hholds] at hinclude
                cases hinclude

/-- The next run of a cursor is the next records of what it still hands out. -/
theorem hand_answers {free : Prop} {most : Nat} (hmost : 0 < most) {us : List Bytes}
    {fin : Option Error} {state : Option Nat × RecordUnitCursor × Window}
    (h : Leaves find region start broken free us fin state) :
    Answers asRun (Fits most) (Leaves find region start broken free)
      (fun state => Records.Over find region free state.2.2) us fin (hand find most state) := by
  obtain ⟨limit, c, w⟩ := state
  obtain ⟨hwatch, hincludes, hstanding⟩ := h
  simp only at hwatch hincludes hstanding
  rw [hand]
  simp only
  rcases hstanding with ⟨hspent, rfl, rfl, hover⟩ | ⟨hspent, i, hstanding, htold, hfree⟩
  · rw [nextRun, hspent]
    exact Answers.ended hover
  · by_cases hlimit : limit = some 0
    · subst hlimit
      obtain ⟨rfl, rfl⟩ := Prod.mk.inj (htold.trans (atMost_zero _))
      have hzero : (c.spent || (some 0).elim most (min most) == 0) = true := by
        simp
      rw [nextRun, if_pos hzero]
      apply Answers.ended
      intro hholds
      exact absurd ((hfree hholds).2 0 rfl) (Nat.not_lt_zero _)
    · have hask : 0 < limit.elim most (min most) ∧ limit.elim most (min most) ≤ most ∧
          ∀ n, limit = some n → limit.elim most (min most) ≤ n := by
        cases limit with
        | none => exact ⟨hmost, Nat.le_refl most, fun n hn => by cases hn⟩
        | some n =>
            have hpos : n ≠ 0 := fun hzero => hlimit (by rw [hzero])
            refine ⟨?_, Nat.min_le_left _ _, ?_⟩
            · exact Nat.lt_min.mpr ⟨hmost, Nat.pos_of_ne_zero hpos⟩
            · intro m hm
              cases hm
              exact Nat.min_le_right _ _
      obtain ⟨hpos, hwithin, hunder⟩ := hask
      generalize limit.elim most (min most) = ask at hpos hwithin hunder
      have hopen : (c.spent || ask == 0) = false := by
        rw [hspent, Bool.false_or, beq_eq_false_iff_ne]
        exact Nat.ne_of_gt hpos
      have hprepared := prepare_standing hstanding hwatch hspent
      rw [nextRun, hopen]
      simp only [Bool.false_eq_true, if_false]
      generalize c.prepare find w = result at hprepared
      cases hprepared with
      | failed free short whole rest =>
          subst free
          rw [toldFrom, feed, if_pos short, if_pos whole, atMost_nil hlimit] at htold
          obtain ⟨rfl, rfl⟩ := Prod.mk.inj htold
          exact Answers.failed fun _ => rest
      | spent free short whole rest =>
          subst free
          rw [toldFrom, feed, if_pos short, if_neg (ne_true_of_eq_false whole),
            atMost_ended] at htold
          obtain ⟨rfl, rfl⟩ := Prod.mk.inj htold
          exact Answers.ended fun _ => rest
      | refused cut short =>
          subst cut
          rw [toldFrom, List.drop_eq_nil_of_le (Nat.le_of_lt short), atMost_nil hlimit] at htold
          obtain ⟨rfl, rfl⟩ := Prod.mk.inj htold
          apply Answers.failed
          intro hholds
          cases (hfree hholds).1
      | @ready w' window =>
          simp only [hspent, Bool.false_eq_true, if_false]
          have hnext := @Records.next_standing find region start broken _ w'
            { left := some ask, skip := 0, skipWhole := true, watch := c.watch } window hwatch
            (fun hzero => absurd (Option.some.inj hzero) (Nat.ne_of_gt hpos))
          generalize Records.next find _ w' = result at hnext
          cases hnext with
          | @handed run w'' pos wanted bytes window =>
              obtain ⟨htake, hle, hrest⟩ :=
                @RecordUnitCursor.toldFrom_advance find _ _ _ c _ window.index_le
              have hasked := wanted ask rfl
              rw [atMost_advance hle fun n hn => hasked.trans (hunder n hn)] at htold
              obtain ⟨rfl, rfl⟩ := Prod.mk.inj htold
              rw [← htake] at bytes
              simp only [handed, Records.asRun_take hle bytes]
              apply Answers.handed
              · refine ⟨List.ne_nil_of_length_pos ?_, ?_⟩
                · rw [List.length_take_of_le hle]
                  exact pos
                · rw [List.length_take_of_le hle]
                  exact hasked.trans hwithin
              · have hkept : ({ c with
                    skip := 0, spent := false, emitted := c.emitted + run.count } :
                    RecordUnitCursor).toldFrom find region broken (i + c.skip + run.count) =
                      c.toldFrom find region broken (i + c.skip + run.count) := rfl
                refine ⟨hwatch, hincludes, Or.inr ⟨rfl, i + c.skip + run.count, window, ?_, ?_⟩⟩
                · simp only [Nat.add_zero, hkept, hrest]
                · intro hholds
                  obtain ⟨hnone, hunmet⟩ := hfree hholds
                  simp only [Nat.add_zero, hkept, hrest]
                  exact ⟨hnone, hunmet.advance hle⟩
          | @ended w'' free done final eof =>
              subst free
              rw [done] at htold
              obtain ⟨rfl, rfl⟩ := Prod.mk.inj htold
              exact takeFinal_answers (c := { c with skip := 0, spent := true }) hmost hlimit rfl
                hwatch hincludes final eof
          | refused cut done =>
              subst cut
              rw [done, toldFrom, List.drop_length, atMost_nil hlimit] at htold
              obtain ⟨rfl, rfl⟩ := Prod.mk.inj htold
              apply Answers.failed
              intro hholds
              cases (hfree hholds).1

theorem runs_standing {c : RecordUnitCursor} {most : Nat} {limit : Option Nat} {us : List Bytes}
    {fin : Option Error} {free : Prop} (hstanding : Standing find region start broken 0 w)
    (hmost : 0 < most) (hwatch : c.watch = .unwatched) (hspent : c.spent = false)
    (hincludes : free → c.includeFinalRecord = false)
    (htold : (us, fin) = atMost limit (c.toldFrom find region broken c.skip))
    (hfree : free → broken = none ∧ Unmet limit (c.toldFrom find region broken c.skip).1) :
    ∃ runs limit' c' w', c.runs find most limit w = some (runs, fin, limit', c', w') ∧
      HandedOut asRun (Fits most) runs us ∧ Records.Over find region free w' := by
  have hleaves : Leaves find region start broken free us fin (limit, c, w) := by
    refine ⟨hwatch, hincludes, Or.inr ⟨hspent, 0, hstanding, ?_, ?_⟩⟩
    · rw [Nat.zero_add]
      exact htold
    · rw [Nat.zero_add]
      exact hfree
  have hfuel : us.length < w.ahead + 1 := by
    have hmost := length_atMost_le limit (c.toldFrom find region broken c.skip)
    have hle := c.length_toldFrom_le hstanding c.skip
    rw [Nat.zero_add] at hle
    rw [← htold] at hmost
    exact Nat.lt_succ_of_le (Nat.le_trans hmost hle)
  obtain ⟨runs, state, hdrain, hruns, hover⟩ :=
    drain_spec (fun _ => And.left) (fun _ _ _ => hand_answers hmost) _ us fin _ hfuel hleaves
  exact ⟨runs, state.1, state.2.1, state.2.2, hdrain, hruns, hover⟩

end RecordUnitCursor

/-! ### Reading through the window -/

/-- What a window is pointed at. -/
def Window.pointedAt (w : Window) (start len : Nat) : Bytes :=
  (w.source.inner.stream.drop start).take len

/-- The records of it, up to the first frame end that cuts one, and the error that is met there. -/
def Window.cut (find : Finder UInt8) (w : Window) (start len : Nat) : List Bytes × Option Error :=
  streamed find w.frameEnds w.frameEndBase start (w.pointedAt start len)

/-- Reading what `w` is pointed at is cutting it. -/
structure StreamsAsCut (find : Finder UInt8) (w : Window) (start len : Nat) : Prop where
  /-- A chain hands out the records from its skip on, up to its limit, and ends as they do. -/
  chain : ∀ records : Records, records.watch = .unwatched →
    ∃ runs records' w', records.runs find (w.seekTo start len) =
        some (runs, (records.told find (w.pointedAt start len) (w.cut find start len)).2,
          records', w') ∧
      HandedOut asRun (· ≠ []) runs
        (records.told find (w.pointedAt start len) (w.cut find start len)).1 ∧
      ((w.cut find start len).2 = none →
        ((w.cut find start len).1.length < records.skip ∨
          Unmet records.left ((w.cut find start len).1.drop records.skip)) →
        w'.remainder = afterLast find (w.pointedAt start len))
  /-- So does a cursor, with at most `most` of them in one run. -/
  cursor : ∀ (c : RecordUnitCursor) (most : Nat) (limit : Option Nat), c.watch = .unwatched →
    c.spent = false → 0 < most →
    ∃ runs limit' c' w', c.runs find most limit (w.seekTo start len) =
        some (runs, (atMost limit (c.told find (w.pointedAt start len) (w.cut find start len))).2,
          limit', c', w') ∧
      HandedOut asRun (RecordUnitCursor.Fits most) runs
        (atMost limit (c.told find (w.pointedAt start len) (w.cut find start len))).1 ∧
      ((w.cut find start len).2 = none → c.includeFinalRecord = false →
        Unmet limit ((w.cut find start len).1.drop c.skip) →
        w'.remainder = afterLast find (w.pointedAt start len))
  /-- No refill on the way subtracts from less or reads over a frame end. -/
  refills : ∀ w', Window.Steps find (w.seekTo start len) w' → w'.Refills

theorem Window.cut_eq (find : Finder UInt8) (w : Window) (start len : Nat) :
    w.cut find start len =
      (find.records ((brokenReach find w.frameEnds w.frameEndBase start
          (w.pointedAt start len)).getD (w.pointedAt start len)),
        (brokenReach find w.frameEnds w.frameEndBase start (w.pointedAt start len)).map
          fun _ => .incompleteRecord) :=
  streamed_eq find w.frameEnds w.frameEndBase start (w.pointedAt start len)

/-- What a cursor that leaves the unfinished record alone hands out are the records behind its
skip. -/
theorem RecordUnitCursor.told_fst {c : RecordUnitCursor} (hincludes : c.includeFinalRecord = false)
    (region : Bytes) (streamed : List Bytes × Option Error) :
    (c.told find region streamed).1 = streamed.1.drop c.skip := by
  unfold told
  split
  · rfl
  · split
    · next hshort => exact (List.drop_eq_nil_of_le (Nat.le_of_lt hshort)).symm
    · split
      · rfl
      · rw [hincludes, Bool.false_and, if_neg Bool.false_ne_true, List.append_nil]

/-- Reading through the window is cutting in memory, whatever the reads hand out. -/
theorem streaming_is_cutting (find : Finder UInt8) (w : Window) (start len : Nat)
    (hcap : 0 < w.cap) (hsorted : w.frameEnds.Pairwise (· ≤ ·)) :
    StreamsAsCut find w start len := by
  have hregion : (w.source.inner.stream.drop start).take len = w.pointedAt start len := rfl
  have hstanding := @Window.seekTo_standing find _ _ _ _ hregion hcap hsorted
  have hcut := w.cut_eq find start len
  have htold : ∀ c : RecordUnitCursor, c.told find (w.pointedAt start len) (w.cut find start len) =
      c.toldFrom find (w.pointedAt start len)
        (brokenReach find w.frameEnds w.frameEndBase start (w.pointedAt start len)) c.skip :=
    fun c => c.told_eq find w.frameEnds w.frameEndBase start (w.pointedAt start len)
  generalize brokenReach find w.frameEnds w.frameEndBase start (w.pointedAt start len) = broken
    at hstanding hcut htold
  have hnone : (w.cut find start len).2 = none → broken = none := by
    intro hends
    rw [hcut] at hends
    exact Option.map_eq_none_iff.mp hends
  have hfst : (w.cut find start len).1 = find.records (broken.getD (w.pointedAt start len)) := by
    rw [hcut]
  constructor
  case chain =>
    intro records hwatch
    have htoldOf : (RecordUnitCursor.ofRecords records).told find (w.pointedAt start len)
        (w.cut find start len) = (RecordUnitCursor.ofRecords records).toldFrom find
          (w.pointedAt start len) broken records.skip := htold _
    have htells : ((records.told find (w.pointedAt start len) (w.cut find start len)).1,
        (records.told find (w.pointedAt start len) (w.cut find start len)).2) =
        if (find.records (broken.getD (w.pointedAt start len))).length < records.skip then
          (RecordUnitCursor.ofRecords records).toldFrom find (w.pointedAt start len) broken
            records.skip
        else atMost records.left ((RecordUnitCursor.ofRecords records).toldFrom find
          (w.pointedAt start len) broken records.skip) := by
      rw [Records.told, ← hfst, ← htoldOf]
    have hfree : ((w.cut find start len).2 = none ∧
        ((w.cut find start len).1.length < records.skip ∨
          Unmet records.left ((w.cut find start len).1.drop records.skip))) →
        broken = none ∧ ((find.records (w.pointedAt start len)).length < records.skip ∨
          Unmet records.left ((RecordUnitCursor.ofRecords records).toldFrom find
            (w.pointedAt start len) broken records.skip).1) := by
      rintro ⟨hends, hreached⟩
      have hfree := hnone hends
      have hsame := @RecordUnitCursor.told_fst find (RecordUnitCursor.ofRecords records) rfl
        (w.pointedAt start len) (w.cut find start len)
      have hwhole : find.records (w.pointedAt start len) = (w.cut find start len).1 := by
        rw [hfst, hfree, Option.getD_none]
      refine ⟨hfree, ?_⟩
      rw [hwhole, ← htoldOf, hsame]
      exact hreached
    obtain ⟨runs, records', w', hruns, hhanded, hover⟩ :=
      Records.runs_standing hstanding hwatch htells hfree
    refine ⟨runs, records', w', hruns, hhanded, ?_⟩
    intro hends hreached
    rw [afterLast_eq]
    exact hover ⟨hends, hreached⟩
  case cursor =>
    intro c most limit hwatch hspent hmost
    have hfree : ((w.cut find start len).2 = none ∧ c.includeFinalRecord = false ∧
        Unmet limit ((w.cut find start len).1.drop c.skip)) →
        broken = none ∧ Unmet limit (c.toldFrom find (w.pointedAt start len) broken c.skip).1 := by
      rintro ⟨hends, hincludes, hunmet⟩
      refine ⟨hnone hends, ?_⟩
      rwa [← htold, c.told_fst hincludes]
    obtain ⟨runs, limit', c', w', hruns, hhanded, hover⟩ :=
      RecordUnitCursor.runs_standing hstanding hmost hwatch hspent (fun h => h.2.1) rfl hfree
    rw [htold]
    refine ⟨runs, limit', c', w', hruns, hhanded, ?_⟩
    intro hends hincludes hunmet
    rw [afterLast_eq]
    exact hover ⟨hends, hincludes, hunmet⟩
  case refills =>
    intro w' hsteps
    exact (hsteps.sound (Window.seekTo_sound hsorted start len)).refills

/-- A window of one byte over three lines, with a nonfinal frame end inside the second. -/
def cutLine : Window :=
  { source := { inner := { stream := [97, 10, 98, 99, 10, 100], schedule := id }, limit := 0 }
    frameEnds := [2, 4, 4]
    cap := 1 }

example : ((Records.runs lineBoundary.find {} (cutLine.seekTo 0 6)).map fun got =>
    (got.1, got.2.1)) = some ([([97, 10], 1)], some .incompleteRecord) := by decide +kernel

example : ((RecordUnitCursor.runs lineBoundary.find 1 none { includeFinalRecord := true }
    (cutLine.seekTo 2 4)).map fun got => (got.1, got.2.1)) = some ([], some .incompleteRecord) := by
  decide +kernel

theorem streaming_is_cutting_cutLine :
    StreamsAsCut lineBoundary.find cutLine 0 6 ∧
      cutLine.cut lineBoundary.find 0 6 = ([[97, 10]], some .incompleteRecord) :=
  ⟨streaming_is_cutting lineBoundary.find cutLine 0 6 (by decide) (by decide), by decide +kernel⟩

end SeekZstdSep
