/-
Module: SeekZstdSep.Proofs.Exec
Purpose: The record loops end, with what the model of them comes to, wherever the finder keeps its
  contract.
Trusted boundary: none
Main exports: Exec.ends_ends, Exec.walk_ends, Exec.countRecords_ends, Exec.nextGroup_ends
-/
import SeekZstdSep.Core.Exec
import SeekZstdSep.Proofs.Cutter
import SeekZstdSep.Proofs.Walk

namespace SeekZstdSep.Exec

open Lib

variable (find : Finder UInt8)

/-! ### Where records end -/

/-- Each record shortens what is left of the data. -/
theorem endsFrom_ends (data : Bytes) (fuel : Nat) :
    ∀ (found : List Nat) (start : Nat), data.length - start ≤ fuel →
      (Program.loop (endsRound find.find data) (found, start)).Ends
        (.returned (found ++ endsFrom find data fuel start)) := by
  induction fuel with
  | zero =>
      intro found start hle
      have hnil : data.drop start = [] := List.drop_eq_nil_of_le (by omega)
      apply Program.Ends.loop_done
      simp only [endsRound, hnil, Finder.find_nil, endsFrom, List.append_nil]
      exact Program.ends_pure _
  | succ fuel ih =>
      intro found start hle
      cases hfind : find.find (data.drop start) with
      | none =>
          apply Program.Ends.loop_done
          simp only [endsRound, hfind, endsFrom, List.append_nil]
          exact Program.ends_pure _
      | some len =>
          have hpos := find.pos hfind
          have hrest := ih (found ++ [start + len]) (start + len) (by omega)
          rw [List.append_assoc, List.singleton_append] at hrest
          apply Program.Ends.loop_again
          · simp only [endsRound, hfind]
            exact Program.ends_pure _
          · simpa only [endsFrom, hfind] using hrest

theorem ends_ends (data : Bytes) :
    (ends find.find data).Ends (.returned (SeekZstdSep.ends find data)) :=
  endsFrom_ends find data data.length [] 0 (Nat.sub_le _ _)

theorem count_ends (data : Bytes) :
    (count find.find data).Ends (.returned (SeekZstdSep.count find data)) :=
  (ends_ends find data).bind (Program.ends_pure _)

theorem endsWhole_ends (data : Bytes) :
    (endsWhole find.find data).Ends (.returned (SeekZstdSep.endsWhole find data)) :=
  (ends_ends find data).bind (Program.ends_pure _)

/-! ### The window -/

theorem walkFuel_ends (held : Bytes) (want : Option Nat) (fuel : Nat) :
    ∀ used count, held.length - used ≤ fuel →
      (Program.loop (walkRound find.find held want) (used, count)).Ends
        (.returned (Window.walkFuel find held want fuel used count)) := by
  induction fuel with
  | zero =>
      intro used count hle
      have hnil : held.drop used = [] := List.drop_eq_nil_of_le (by omega)
      apply Program.Ends.loop_done
      simp only [walkRound, hnil, Finder.find_nil, Window.walkFuel]
      split <;> exact Program.ends_pure _
  | succ fuel ih =>
      intro used count hle
      by_cases hwant : (want.all fun want => decide (count < want)) = true
      · cases hfind : find.find (held.drop used) with
        | none =>
            apply Program.Ends.loop_done
            simp only [walkRound, hwant, hfind, Window.walkFuel, if_true]
            exact Program.ends_pure _
        | some found =>
            have hpos := find.pos hfind
            apply Program.Ends.loop_again
            · simp only [walkRound, hwant, hfind, if_true]
              exact Program.ends_pure _
            · simp only [Window.walkFuel, hwant, hfind, if_true]
              exact ih (used + found) (count + 1) (by omega)
      · apply Program.Ends.loop_done
        simp only [walkRound, hwant, Window.walkFuel, Bool.false_eq_true, if_false]
        exact Program.ends_pure _

theorem walk_ends (w : Window) (want : Option Nat) :
    (walk find.find w want).Ends (.returned (w.walk find want)) :=
  walkFuel_ends find w.remainder want w.remainder.length 0 0 (Nat.sub_le _ _)

section Window

variable {find} {region : Bytes} {start i : Nat} {w : Window}

/-- What the walk of a window that nothing watches hands out next, in the model and in the code. -/
inductive Hands (find : Finder UInt8) (region : Bytes) (start : Nat) (w : Window) :
    Option (Except Error Run) × Records × Window → Prop where
  | handed {run : Run} {w' : Window} {j : Nat}
      (code : (next find.find w).Ends (.returned (some run, w')))
      (window : Window.At find region start j w') (less : w'.ahead < w.ahead) :
      Hands find region start w (some (.ok run), {}, w')
  | spent {w' : Window} (code : (next find.find w).Ends (.returned (none, w'))) :
      Hands find region start w (none, {}, w')

/-- A round that reads on has as much ahead of it as the one before. -/
theorem Hands.again {w' : Window} {handed : Option (Except Error Run) × Records × Window}
    (hround : (nextRound find.find w).Ends (.returned (.again w'))) (hahead : w'.ahead = w.ahead)
    (h : Hands find region start w' handed) : Hands find region start w handed := by
  cases h with
  | handed code window less =>
      rw [hahead] at less
      exact .handed (Program.Ends.loop_again hround code) window less
  | spent code => exact .spent (Program.Ends.loop_again hround code)

/-- As long as the window reads on, each read shortens what is left of the source. -/
theorem nextFuel_ends (fuel : Nat) :
    ∀ w : Window, w.source.ahead.length < fuel → Window.At find region start i w →
      Hands find region start w (Records.nextFuel find fuel {} w) := by
  induction fuel with
  | zero =>
      intro w hfuel
      exact absurd hfuel (Nat.not_lt_zero _)
  | succ fuel ih =>
      intro w hfuel hat
      obtain ⟨c, hwalk, hc, -, hstop⟩ := Window.walk_eq find w none
      have hwalked := walk_ends find w none
      rw [hwalk] at hwalked
      by_cases hpos : c > 0
      · obtain ⟨hmoved, -⟩ := hat.hand_out hc
        have hindex := hmoved.index_le
        have hless := find.length_after_lt (d := region) (i := i) (j := i + c) (by omega)
          (Nat.lt_add_of_pos_right hpos)
        have hlen := hat.length_ahead
        have hlen' := hmoved.length_ahead
        rw [Records.nextFuel, hwalk]
        simp only [if_pos hpos]
        apply Hands.handed _ hmoved (by omega)
        apply Program.Ends.loop_done
        apply hwalked.bind
        simp only [if_pos hpos]
        exact Program.ends_pure _
      · obtain rfl : c = 0 := by omega
        have hnone : find w.remainder = none := by
          rcases hstop with hstop | hstop
          · exact find.records_eq_nil_iff.mp (List.length_eq_zero_iff.mp hstop.symm)
          · cases hstop
        obtain ⟨hgrown, hremainder, hsource, hroom⟩ := hat.growIfFull
        rw [← hremainder] at hnone
        obtain ⟨more, w', hrefill, hat', hmore, -⟩ := hgrown.refill hnone hroom
        rw [Records.nextFuel, hwalk]
        simp only [if_neg hpos, hrefill]
        have hround : (nextRound find.find w).Ends
            (.returned (if more then .again w' else .done (none, w'))) := by
          apply hwalked.bind
          simp only [if_neg hpos, hrefill]
          cases more <;> exact Program.ends_pure _
        cases more with
        | true =>
            have hless := hmore rfl
            rw [hsource] at hless
            have hahead : w'.ahead = w.ahead := by
              rw [hat'.length_ahead, hat.length_ahead]
            exact (ih w' (by omega) hat').again hround hahead
        | false => exact .spent (Program.Ends.loop_done hround)

theorem next_ends (hat : Window.At find region start i w) :
    Hands find region start w (Records.next find {} w) := by
  have hnext : Records.next find {} w = Records.nextFuel find (w.ahead + 1) {} w := by
    rw [Records.next, if_neg]
    rintro ⟨⟩
  have hfuel : w.source.ahead.length < w.ahead + 1 := by
    rw [Window.ahead]
    omega
  rw [hnext]
  exact nextFuel_ends (w.ahead + 1) w hfuel hat

/-- Each run shortens what is ahead. -/
theorem sumRuns_ends (fuel : Nat) :
    ∀ (total : Nat) {i : Nat} {w : Window}, w.ahead < fuel → Window.At find region start i w →
      ∃ n w', Records.sumRuns find fuel total {} w = (.ok n, {}, w') ∧
        (Program.loop (countRound find.find) (total, w)).Ends (.returned (n, w')) := by
  induction fuel with
  | zero =>
      intro total i w hfuel
      exact absurd hfuel (Nat.not_lt_zero _)
  | succ fuel ih =>
      intro total i w hfuel hat
      have hnext := next_ends hat
      generalize hhanded : Records.next find {} w = handed at hnext
      cases hnext with
      | handed code window less =>
          obtain ⟨n, w', hmodel, hcode⟩ := ih _ (by omega) window
          refine ⟨n, w', ?_, Program.Ends.loop_again (code.bind (Program.ends_pure _)) hcode⟩
          rw [Records.sumRuns, hhanded]
          exact hmodel
      | @spent w' code =>
          refine ⟨total, w', ?_, Program.Ends.loop_done (code.bind (Program.ends_pure _))⟩
          rw [Records.sumRuns, hhanded]

theorem countRecords_ends (hat : Window.At find region start i w) :
    ∃ n w', Records.countRecords find {} w = (.ok n, w') ∧
      (countRecords find.find w).Ends (.returned (n, w')) := by
  obtain ⟨n, w', hmodel, hcode⟩ := sumRuns_ends (w.ahead + 1) 0 (Nat.lt_succ_self _) hat
  refine ⟨n, w', ?_, hcode⟩
  rw [Records.countRecords, Records.passSkip, if_pos rfl]
  simp only [hmodel]

end Window

/-! ### Groups -/

section Groups

variable {find} {R : Type}

/-- A record that ends shortens what is left to scan. -/
theorem nextEnd_unscanned {stream stream' : Stream R} {ended : Nat}
    (h : stream.nextEnd find = some (ended, stream')) :
    stream'.unscanned < stream.unscanned ∧ stream'.source = stream.source := by
  rw [Stream.nextEnd] at h
  cases hfind : find (stream.buf.drop stream.lastEnd) with
  | none =>
      rw [hfind] at h
      cases h
  | some found =>
      rw [hfind] at h
      cases h
      have hpos := find.pos hfind
      have hle := find.le hfind
      rw [List.length_drop] at hle
      constructor
      · show stream.buf.length - (stream.lastEnd + found) < stream.buf.length - stream.lastEnd
        omega
      · rfl

theorem scanFuel_ends (find : Finder UInt8) (fuel : Nat) :
    ∀ cutter : Cutter R, cutter.stream.unscanned ≤ fuel →
      (scanGroup find.find cutter).Ends (.returned (cutter.scanFuel find fuel)) := by
  induction fuel with
  | zero =>
      intro cutter hle
      have hnone : nextEnd find.find cutter.stream = none := by
        cases hnext : cutter.stream.nextEnd find with
        | none => exact hnext
        | some found =>
            have hless := (nextEnd_unscanned hnext).1
            omega
      apply Program.Ends.loop_done
      rw [scanRound, hnone]
      exact Program.ends_pure _
  | succ fuel ih =>
      intro cutter hle
      rw [Cutter.scanFuel]
      cases hnext : cutter.stream.nextEnd find with
      | none =>
          have hnone : nextEnd find.find cutter.stream = none := hnext
          apply Program.Ends.loop_done
          rw [scanRound, hnone]
          exact Program.ends_pure _
      | some found =>
          obtain ⟨ended, stream⟩ := found
          have hsome : nextEnd find.find cutter.stream = some (ended, stream) := hnext
          have hless := (nextEnd_unscanned hnext).1
          by_cases hfull : cutter.found + 1 = cutter.records
          · apply Program.Ends.loop_done
            rw [scanRound, hsome]
            simp only [if_pos hfull]
            exact Program.ends_pure _
          · simp only [if_neg hfull]
            apply Program.Ends.loop_again _ (ih _ (by show stream.unscanned ≤ fuel; omega))
            rw [scanRound, hsome]
            simp only [if_neg hfull]
            exact Program.ends_pure _

/-- What a scan leaves to scan, which is less where it filled a group. -/
theorem scanFuel_unscanned (fuel : Nat) :
    ∀ {cutter cutter' : Cutter R} {group : Option Nat},
      cutter.scanFuel find fuel = (group, cutter') →
        cutter'.stream.unscanned + (if group.isSome then 1 else 0) ≤ cutter.stream.unscanned ∧
          cutter'.stream.source = cutter.stream.source := by
  induction fuel with
  | zero =>
      intro cutter cutter' group h
      cases h
      exact ⟨Nat.le_refl _, rfl⟩
  | succ fuel ih =>
      intro cutter cutter' group h
      rw [Cutter.scanFuel] at h
      cases hnext : cutter.stream.nextEnd find with
      | none =>
          rw [hnext] at h
          cases h
          exact ⟨Nat.le_refl _, rfl⟩
      | some found =>
          obtain ⟨ended, stream⟩ := found
          obtain ⟨hless, hsource⟩ := nextEnd_unscanned hnext
          rw [hnext] at h
          by_cases hfull : cutter.found + 1 = cutter.records
          · simp only [if_pos hfull] at h
            cases h
            exact ⟨hless, hsource⟩
          · simp only [if_neg hfull] at h
            obtain ⟨hle, hsame⟩ := ih h
            exact ⟨Nat.le_trans hle (Nat.le_of_lt hless), hsame.trans hsource⟩

variable [Read R] [LawfulRead R]

/-- What a cutter has still to look at, buffered or not. -/
def ahead (cutter : Cutter R) : Nat := cutter.stream.unscanned + Read.budget cutter.stream.source

/-- A fill moves what it reads, and takes it off the budget. -/
theorem fill_ahead {stream stream' : Stream R} {more : Bool}
    (h : stream.fill = .ok (more, stream')) :
    stream'.unscanned + Read.budget stream'.source ≤
        stream.unscanned + Read.budget stream.source ∧
      (more = true → Read.budget stream'.source < Read.budget stream.source) := by
  rw [Stream.fill] at h
  cases hread : Read.read stream.source readBufSize with
  | error e =>
      rw [hread] at h
      cases h
  | ok got =>
      have hbudget := LawfulRead.budget_read hread
      rw [hread] at h
      by_cases hnil : got.1.length = 0
      · simp only [if_pos hnil] at h
        cases h
        constructor
        · show stream.unscanned + Read.budget got.2 ≤ _
          omega
        · rintro ⟨⟩
      · simp only [if_neg hnil] at h
        cases h
        constructor
        · simp only [Stream.unscanned, List.length_append]
          omega
        · intro _
          show Read.budget got.2 < _
          omega

theorem gatherFuel_ends (find : Finder UInt8) (fuel : Nat) :
    ∀ cutter : Cutter R, Read.budget cutter.stream.source < fuel →
      (Program.loop (groupRound find.find) cutter).Ends
        (Program.endingOf (cutter.gatherFuel find fuel)) := by
  induction fuel with
  | zero =>
      intro cutter hfuel
      exact absurd hfuel (Nat.not_lt_zero _)
  | succ fuel ih =>
      intro cutter hfuel
      have hscan := scanFuel_ends find _ cutter (Nat.le_refl _)
      generalize hscanned : cutter.scanFuel find cutter.stream.unscanned = scanned at hscan
      obtain ⟨group, cutter'⟩ := scanned
      have hsource := (scanFuel_unscanned _ hscanned).2
      rw [Cutter.gatherFuel, hscanned]
      cases group with
      | some ended => exact Program.Ends.loop_done (hscan.bind (Program.ends_pure _))
      | none =>
          cases hfill : cutter'.stream.fill with
          | error e =>
              simp only [hfill]
              apply Program.Ends.loop_failed
              apply hscan.bind
              simp only [hfill]
              exact Program.ends_ofEnding _
          | ok filled =>
              obtain ⟨more, stream⟩ := filled
              simp only [hfill]
              cases more with
              | false =>
                  apply Program.Ends.loop_done
                  apply hscan.bind
                  simp only [hfill]
                  exact Program.ends_pure _
              | true =>
                  have hless := (fill_ahead hfill).2 rfl
                  rw [hsource] at hless
                  apply Program.Ends.loop_again _
                    (ih { cutter' with stream := stream } (Nat.lt_of_lt_of_le hless
                      (Nat.le_of_lt_succ hfuel)))
                  apply hscan.bind
                  simp only [hfill]
                  exact Program.ends_pure _

theorem nextGroup_ends (find : Finder UInt8) (cutter : Cutter R) :
    (nextGroup find.find cutter).Ends (Program.endingOf (cutter.nextGroup find)) :=
  gatherFuel_ends find _ _ (Nat.lt_succ_self _)

theorem gatherFuel_ahead (fuel : Nat) :
    ∀ {cutter cutter' : Cutter R} {ended : Nat},
      cutter.gatherFuel find fuel = .ok (some ended, cutter') → ahead cutter' < ahead cutter := by
  induction fuel with
  | zero =>
      intro cutter cutter' ended h
      cases h
  | succ fuel ih =>
      intro cutter cutter' ended h
      generalize hscanned : cutter.scanFuel find cutter.stream.unscanned = scanned at h
      obtain ⟨group, scanned⟩ := scanned
      obtain ⟨hless, hsource⟩ := scanFuel_unscanned _ hscanned
      rw [Cutter.gatherFuel, hscanned] at h
      cases group with
      | some _ =>
          cases h
          rw [ahead, ahead, hsource]
          exact Nat.add_lt_add_right hless _
      | none =>
          cases hfill : scanned.stream.fill with
          | error e =>
              simp only [hfill] at h
              cases h
          | ok filled =>
              obtain ⟨more, stream⟩ := filled
              simp only [hfill] at h
              cases more with
              | false => cases h
              | true =>
                  have hrest := ih h
                  have hle := (fill_ahead hfill).1
                  rw [hsource] at hle
                  have hahead : ahead { scanned with stream := stream } =
                    stream.unscanned + Read.budget stream.source := rfl
                  have hscan : scanned.stream.unscanned ≤ cutter.stream.unscanned := hless
                  have hbefore : ahead cutter =
                    cutter.stream.unscanned + Read.budget cutter.stream.source := rfl
                  omega

/-- Each group shortens what is ahead. -/
theorem nextGroup_ahead {cutter cutter' : Cutter R} {ended : Nat}
    (h : cutter.nextGroup find = .ok (some ended, cutter')) : ahead cutter' < ahead cutter := by
  have hless := gatherFuel_ahead _ h
  by_cases hfull : cutter.found = cutter.records
  · rw [if_pos hfull] at hless
    have hsame : ahead { cutter with stream := cutter.stream.dropToLastEnd, found := 0 } =
        ahead cutter := by
      simp only [ahead, Stream.unscanned, Stream.dropToLastEnd, List.length_drop, Nat.sub_zero]
    rwa [hsame] at hless
  · rwa [if_neg hfull] at hless

end Groups

end SeekZstdSep.Exec
