/-
Module: SeekZstdSep.Proofs.ExecAppend
Purpose: An append of records ends with what the model of it comes to, in any arithmetic.
Trusted boundary: the seek table holds both lengths of a frame as `u32`
Main exports: Exec.appendTarget_ends, Exec.appendJoin_ends, Exec.appendRest_ends,
  Exec.appendRewrite_ends, Exec.appendRecordsInner_ends, Exec.appendRecordsWithOpts_ends
-/
import SeekZstdSep.Core.ExecAppend
import SeekZstdSep.Proofs.ExecEdit

namespace SeekZstdSep

open Lib

namespace Exec

variable (mode : Arithmetic) {zeek : Zeekstd} (find : Finder UInt8) {f : File}

/-! ### The target -/

theorem mustContain_ends (n : Nat) (indices : List Nat) :
    ∀ {reader : FrameReader}, reader.Ready → (∀ i ∈ indices, i < reader.table.length) →
      (mustContain find.find n reader indices).Ends
        (Program.endingOf (SeekZstdSep.mustContain find n reader indices)) := by
  induction indices with
  | nil =>
      intro reader _ _
      exact Program.ends_pure _
  | cons index indices ih =>
      intro reader h hin
      have hwalk := walkFrame_ends find h (hin index List.mem_cons_self)
      rw [mustContain, SeekZstdSep.mustContain]
      cases hwalked : SeekZstdSep.walkFrame find reader index with
      | error e =>
          rw [hwalked] at hwalk
          exact hwalk.bind_failed
      | ok walked =>
          obtain ⟨hkeeps, -⟩ := h.walkFrame_keeps hwalked
          rw [hwalked] at hwalk
          apply hwalk.bind
          simp only
          split
          · exact Program.ends_ofEnding _
          · apply ih hkeeps.ready
            intro i hi
            rw [hkeeps.table]
            exact hin i (List.mem_cons_of_mem _ hi)

theorem validateRecordsPerFrame_ends {reader : FrameReader} (h : reader.Ready) {last : Nat}
    (hlast : last < reader.table.length) (n : Nat) :
    (validateRecordsPerFrame find.find reader last n).Ends
      (Program.endingOf (SeekZstdSep.validateRecordsPerFrame find reader last n)) := by
  apply mustContain_ends find n _ h
  intro i hi
  rcases List.mem_cons.mp (List.mem_of_mem_take hi) with rfl | hi
  · omega
  · rw [List.mem_singleton] at hi
    omega

theorem appendTarget_ends (hzeek : zeek.ParsesU32) (f : File) (records : Option Nat)
    (trust : Bool) (previous : Option AppendResult) :
    (appendTarget mode zeek f find.find records trust previous).Ends
      (Program.endingOf (SeekZstdSep.appendTarget zeek f find records trust previous)) := by
  rw [appendTarget, SeekZstdSep.appendTarget]
  split
  · exact Program.ends_ofEnding _
  split
  · exact Program.ends_ofEnding _
  cases hseek : zeek.fromSeekable f.bytes with
  | error e => exact Program.ends_ofEnding _
  | ok table =>
      have hnew := FrameReader.new_ready zeek f table
      rw [Program.ofExcept_ok, Program.pure_andThen]
      simp only
      split
      · exact Program.ends_ofEnding _
      next hnone =>
      have hne : table ≠ [] := mt List.length_eq_zero_iff.mpr hnone
      have hlast := lastDataFrame_ends mode hne
      cases hframe : SeekZstdSep.lastDataFrame table with
      | error e =>
          rw [hframe] at hlast
          exact hlast.bind_failed
      | ok last =>
          have hlt := lastDataFrame_lt hframe
          rw [hframe] at hlast
          apply hlast.bind
          cases records with
          | some n =>
              simp only
              rw [entryAt_of_lt hlt, Program.pure_andThen]
              split
              · exact Program.ends_ofEnding _
              split
              · have hvalidate := validateRecordsPerFrame_ends find hnew hlt n
                cases hvalidated : SeekZstdSep.validateRecordsPerFrame find
                    (.new zeek f table) last n with
                | error e =>
                    rw [hvalidated] at hvalidate
                    exact hvalidate.bind_failed
                | ok reader =>
                    rw [hvalidated] at hvalidate
                    exact hvalidate.bind (Program.ends_pure _)
              · exact Program.ends_pure _
          | none =>
              simp only
              cases (fittingResult table last none previous).filter (·.countValidated) with
              | some result => exact Program.ends_pure _
              | none =>
                  have hvalidate := validateSeparator_ends mode find hnew
                  simp only
                  cases hvalidated : SeekZstdSep.validateSeparator find (.new zeek f table) with
                  | error e =>
                      rw [hvalidated] at hvalidate
                      exact hvalidate.bind_failed
                  | ok validated =>
                      obtain ⟨-, -, hn⟩ := hnew.validateSeparator_keeps hvalidated
                      have hmost : validated.1 ≤ u32Max :=
                        Nat.le_trans hn ((hzeek _ _ hseek).frameSizeDecomp_le 0)
                      have hmax : u32Max < 2 ^ 64 := by decide
                      rw [hvalidated] at hvalidate
                      apply hvalidate.bind
                      simp only
                      rw [cast_of_lt (Nat.lt_of_le_of_lt hmost hmax), Program.pure_andThen]
                      exact Program.ends_pure _

/-! ### The join -/

theorem oldState_ends (target : AppendTarget) (tail : Bytes) :
    (oldState target find.find tail).Ends (.returned (target.oldState find tail)) := by
  rw [oldState, AppendTarget.oldState]
  cases target.known with
  | some state => exact Program.ends_pure _
  | none => exact (ends_ends find tail).bind (Program.ends_pure _)

theorem endFragment_ends (separator : Option Bytes) (onMissing : OnMissingSeparator)
    (tail : Bytes) (oldWhole : Bool) :
    (endFragment find.find separator onMissing tail oldWhole).Ends
      (Program.endingOf (SeekZstdSep.endFragment find separator onMissing tail oldWhole)) := by
  unfold endFragment SeekZstdSep.endFragment
  split
  · exact Program.ends_pure _
  cases onMissing with
  | refuse => exact Program.ends_ofEnding _
  | insert =>
      simp only
      apply (endsWhole_ends find (tail ++ separator.getD [])).bind
      split
      · exact Program.ends_ofEnding _
      · exact Program.ends_pure _

theorem appendJoin_ends (f : File) (target : AppendTarget) (separator : Option Bytes)
    (onMissing : OnMissingSeparator) (trust : Bool) (head : Bytes) :
    (appendJoin target f find.find separator onMissing trust head).Ends
      (Program.endingOf
        (SeekZstdSep.appendJoin target f find separator onMissing trust head)) := by
  rw [appendJoin, SeekZstdSep.appendJoin]
  split
  · exact Program.ends_ofEnding _
  cases target.checksum f with
  | error e => exact Program.ends_ofEnding _
  | ok checksum =>
      cases target.tail with
      | error e => exact Program.ends_ofEnding _
      | ok tail =>
          have hended := endFragment_ends find separator onMissing tail
            (target.oldState find tail).2
          simp only [Program.ofExcept_ok, Program.pure_andThen]
          apply (oldState_ends find target tail).bind
          cases hended' : SeekZstdSep.endFragment find separator onMissing tail
              (target.oldState find tail).2 with
          | error e =>
              rw [hended'] at hended
              exact hended.bind_failed
          | ok ended =>
              obtain ⟨ended, inserted⟩ := ended
              rw [hended'] at hended
              apply hended.bind
              simp only
              -- the count that is compared is not made where nothing is compared
              by_cases hasks : trust = true ∧ (!target.previouslyFull) = true
              · cases inserted with
                | true =>
                    rw [if_pos ⟨rfl, hasks⟩, if_pos rfl]
                    apply (count_ends find ended).bind
                    split
                    · exact Program.ends_ofEnding _
                    · exact Program.ends_pure _
                | false =>
                    rw [if_neg (fun h => Bool.false_ne_true h.1), if_neg Bool.false_ne_true]
                    split
                    · exact Program.ends_ofEnding _
                    · exact Program.ends_pure _
              · have hless : ∀ counted, ¬ (trust = true ∧ (!target.previouslyFull) = true ∧
                    target.n < counted) := fun counted h => hasks ⟨h.1, h.2.1⟩
                rw [if_neg (fun h => hasks h.2), if_neg (hless _), if_neg (hless _)]
                exact Program.ends_pure _

/-! ### The rewrite -/

section Rewrite

variable {R : Type} [Read R] [LawfulRead R] (level : Int)

theorem appendFirst_ends (zeek : Zeekstd) (n : Nat) (join : Join) (data : R) :
    (appendFirst zeek find.find n join level data).Ends
      (Program.endingOf (SeekZstdSep.appendFirst zeek find n join level data)) := by
  have hgroup := nextGroup_ends find
    (Cutter.new ({ first := join.tail, second := data } : Chain R) n)
  rw [appendFirst, SeekZstdSep.appendFirst]
  cases hcut : (Cutter.new ({ first := join.tail, second := data } : Chain R) n).nextGroup find with
  | error e =>
      rw [hcut] at hgroup
      exact hgroup.bind_failed
  | ok group =>
      obtain ⟨ended, cutter⟩ := group
      rw [hcut] at hgroup
      apply hgroup.bind
      cases ended with
      | some ended =>
          simp only
          cases encodeFrame zeek (cutter.stream.buf.take ended) join.checksum level with
          | error e => exact Program.ends_ofEnding _
          | ok frame => exact Program.ends_pure _
      | none =>
          simp only
          cases encodeFrame zeek cutter.stream.buf join.checksum level with
          | error e => exact Program.ends_ofEnding _
          | ok frame => exact Program.ends_pure _

/-- Each group shortens what is ahead of the cutter. -/
theorem appendGroupsFuel_ends (fuel : Nat) :
    ∀ (encoder : Encoder zeek) (frames : Nat) (cutter : Cutter (Chain R)), ahead cutter < fuel →
      (Program.loop (groupsRound find.find) (encoder, frames, cutter)).Ends
        (.returned (appendGroupsFuel find fuel encoder frames cutter)) := by
  induction fuel with
  | zero =>
      intro encoder frames cutter hfuel
      exact absurd hfuel (Nat.not_lt_zero _)
  | succ fuel ih =>
      intro encoder frames cutter hfuel
      have hgroup := (nextGroup_ends find cutter).attempt_except
      rw [appendGroupsFuel]
      cases hcut : cutter.nextGroup find with
      | error e =>
          rw [hcut] at hgroup
          exact Program.Ends.loop_done (hgroup.bind (Program.ends_pure _))
      | ok group =>
          obtain ⟨ended, cutter'⟩ := group
          rw [hcut] at hgroup
          cases ended with
          | none => exact Program.Ends.loop_done (hgroup.bind (Program.ends_pure _))
          | some ended =>
              have hless := nextGroup_ahead hcut
              simp only
              cases hframe : (encoder.write (cutter'.stream.buf.take ended)).endFrame with
              | error e =>
                  apply Program.Ends.loop_done
                  apply hgroup.bind
                  simp only [hframe]
                  exact Program.ends_pure _
              | ok encoder' =>
                  apply Program.Ends.loop_again _ (ih encoder' (frames + 1) cutter' (by omega))
                  apply hgroup.bind
                  simp only [hframe]
                  exact Program.ends_pure _

theorem appendWritten_ends (n frames : Nat) (encoder : Encoder zeek) (state : Appended) :
    (appendWritten mode n frames encoder state f).Ends
      (.returned (SeekZstdSep.appendWritten n frames encoder state f)) := by
  rw [appendWritten, SeekZstdSep.appendWritten]
  split
  · exact Program.ends_pure _
  simp only
  split
  · exact Program.ends_pure _
  have hsmall : (tableOf encoder.ended).InU32 := by
    intro entry hin
    obtain ⟨frame, -, rfl⟩ := List.mem_map.mp hin
    exact ⟨frame.bytes_le, frame.content_le⟩
  have hlog := logFramesRange_ends mode zeek hsmall
    (tableOf encoder.ended).length 0 state.out (by omega)
  rw [List.drop_zero, List.take_length] at hlog
  apply hlog.attempt_except.bind
  cases logFrames zeek state.out (tableOf encoder.ended) with
  | error e => exact Program.ends_pure _
  | ok out => exact Program.ends_pure _

theorem appendRest_ends (n : Nat) (checksum : Bool) (cutter : Cutter (Chain R))
    (state : Appended) :
    (appendRest mode zeek find.find n checksum level cutter state f).Ends
      (.returned (SeekZstdSep.appendRest zeek find n checksum level cutter state f)) := by
  have hahead : ahead cutter < cutter.stream.buf.length + Read.budget cutter.stream.source + 1 := by
    rw [ahead, Stream.unscanned]
    omega
  rw [appendRest, SeekZstdSep.appendRest]
  apply (appendGroupsFuel_ends find _ _ 0 cutter hahead).bind
  generalize appendGroupsFuel find _ _ 0 cutter = ran
  obtain ⟨e | ⟨frames, cutter⟩, encoder⟩ := ran
  · exact Program.ends_pure _
  · simp only
    split
    · exact appendWritten_ends mode n frames encoder state
    · cases (encoder.write cutter.takeRemainder.1).endFrame with
      | error e => exact Program.ends_pure _
      | ok encoder => exact appendWritten_ends mode n (frames + 1) encoder _

omit [Read R] [LawfulRead R] in
theorem appendWritten_out {n frames : Nat} {encoder : Encoder zeek} {state state' : Appended}
    {f' : File} (hok : SeekZstdSep.appendWritten n frames encoder state f = (.ok state', f')) :
    state.out.length ≤ state'.out.length := by
  rw [SeekZstdSep.appendWritten] at hok
  split at hok
  · cases hok
    exact Nat.le_refl _
  simp only at hok
  split at hok
  · cases hok
  cases hlog : logFrames zeek state.out (tableOf encoder.ended) with
  | error e =>
      rw [hlog] at hok
      cases hok
  | ok out =>
      rw [hlog] at hok
      cases hok
      rw [logFrames_ok hlog, List.length_append]
      exact Nat.le_add_right _ _

omit [LawfulRead R] in
/-- The table only grows. -/
theorem appendRest_out {n : Nat} {checksum : Bool} {cutter : Cutter (Chain R)}
    {state state' : Appended} {f' : File}
    (hok : SeekZstdSep.appendRest zeek find n checksum level cutter state f = (.ok state', f')) :
    state.out.length ≤ state'.out.length := by
  rw [SeekZstdSep.appendRest] at hok
  simp only at hok
  generalize appendGroupsFuel find _ _ 0 cutter = ran at hok
  obtain ⟨e | ⟨frames, cutter⟩, encoder⟩ := ran
  · cases hok
  · simp only at hok
    split at hok
    · exact appendWritten_out hok
    · cases hend : (encoder.write cutter.takeRemainder.1).endFrame with
      | error e =>
          rw [hend] at hok
          cases hok
      | ok encoder =>
          rw [hend] at hok
          have hgrown := appendWritten_out hok
          exact hgrown

omit [Read R] [LawfulRead R] in
theorem appendedResult_ends (target : AppendTarget) (checksum : Bool) {state : Appended}
    (hout : 0 < state.out.length) :
    (appendedResult mode target checksum state).Ends
      (.returned (SeekZstdSep.appendedResult target checksum state)) := by
  rw [appendedResult, sub_of_le hout, Program.pure_andThen,
    entryAt_of_lt (Nat.sub_lt hout Nat.one_pos), Program.pure_andThen]
  exact Program.ends_pure _

theorem appendRewrite_ends {target : AppendTarget} (hsmall : target.table.InU32)
    (hframes : target.table.length ≤ u32Max) (hlast : target.last < target.table.length)
    (join : Join) (first : FirstGroup zeek R) :
    (appendRewrite mode find.find target join first level f).Ends
      (.returned (SeekZstdSep.appendRewrite find target join first level f)) := by
  have hmax : u32Max < 2 ^ 32 := by decide
  have hkept : keptFrames target join ≤ target.table.length := by
    rw [keptFrames]
    split <;> omega
  have hcut : (if join.preserveLast then endComp target.table target.last
      else startComp target.table target.last) = pure (cutOf target join) := by
    rw [cutOf, endComp_of_lt hlast, startComp_of_lt hlast]
    split <;> rfl
  have hlog := logFramesRange_ends mode zeek hsmall
    (keptFrames target join) 0 [] (by omega)
  rw [List.drop_zero] at hlog
  have hlogged := (hlog.bind_ofExcept fun out =>
    logFrame zeek out first.frame.entry).attempt_except
  rw [appendRewrite, SeekZstdSep.appendRewrite, add_of_lt (by rw [keptFrames] at hkept; omega),
    Program.pure_andThen, hcut]
  apply (Program.ends_pure _).attempt.bind
  apply hlogged.bind
  cases logFrames zeek [] (target.table.take (keptFrames target join)) with
  | error e => exact Program.ends_pure _
  | ok out =>
      simp only [Except.bind]
      cases hfirst : logFrame zeek out first.frame.entry with
      | error e => exact Program.ends_pure _
      | ok out' =>
          have hpos : 0 < out'.length := by
            rw [logFrame] at hfirst
            split at hfirst
            · cases hfirst
            · cases hfirst
              rw [List.length_append]
              exact Nat.succ_pos _
          simp only
          cases first.whole with
          | true =>
              simp only [if_true]
              apply (appendRest_ends mode find level target.n join.checksum first.cutter _).bind
              generalize hrest : SeekZstdSep.appendRest zeek find target.n join.checksum level
                first.cutter _ _ = rest
              obtain ⟨e | state, f'⟩ := rest
              · exact Program.ends_pure _
              · have hgrown := appendRest_out find level hrest
                apply (appendedResult_ends mode target join.checksum
                  (Nat.lt_of_lt_of_le hpos hgrown)).attempt.bind
                exact Program.ends_pure _
          | false =>
              simp only [Bool.false_eq_true, if_false]
              have hresult := @appendedResult_ends mode target join.checksum
                ⟨out', first.lastRecords, first.lastWhole⟩ hpos
              apply hresult.attempt.bind
              exact Program.ends_pure _

theorem appendChecks_ends (f : File) (hzeek : zeek.ParsesU32) (data : R) (separator : Option Bytes)
    (onMissing : OnMissingSeparator) (records : Option Nat) (trust : Bool)
    (previous : Option AppendResult) :
    (appendChecks mode zeek f data find.find separator onMissing level records trust
        previous).Ends
      (Program.endingOf (SeekZstdSep.appendChecks zeek f data find separator onMissing level
        records trust previous)) := by
  have htarget := appendTarget_ends mode find hzeek f records trust previous
  rw [appendChecks, SeekZstdSep.appendChecks]
  cases htaken : SeekZstdSep.appendTarget zeek f find records trust previous with
  | error e =>
      rw [htaken] at htarget
      exact htarget.bind_failed
  | ok target =>
      rw [htaken] at htarget
      apply htarget.bind
      cases readHead data with
      | error e => exact Program.ends_ofEnding _
      | ok read =>
          have hjoin := appendJoin_ends find f target separator onMissing trust
            read.1
          simp only [Program.ofExcept_ok, Program.pure_andThen]
          split
          · exact Program.ends_pure _
          cases hjoined : SeekZstdSep.appendJoin target f find separator onMissing trust
              read.1 with
          | error e =>
              rw [hjoined] at hjoin
              exact hjoin.bind_failed
          | ok join =>
              have hfirst := appendFirst_ends find level zeek
                target.n join read.2
              rw [hjoined] at hjoin
              apply hjoin.bind
              simp only
              cases hgroup : SeekZstdSep.appendFirst zeek find target.n join level read.2 with
              | error e =>
                  rw [hgroup] at hfirst
                  exact hfirst.bind_failed
              | ok first =>
                  rw [hgroup] at hfirst
                  exact hfirst.bind (Program.ends_pure _)

theorem appendRecordsInner_ends (f : File) (hzeek : zeek.ParsesU32) (data : R)
    (separator : Option Bytes) (onMissing : OnMissingSeparator) (records : Option Nat) (trust : Bool)
    (previous : Option AppendResult) :
    (appendRecordsInner mode zeek f data find.find separator onMissing level records trust
        previous).Ends
      (.returned (SeekZstdSep.appendRecordsInner zeek f data find separator onMissing level
        records trust previous)) := by
  have hchecks := (appendChecks_ends mode find level f
    hzeek data separator onMissing records trust previous).attempt_except
  rw [appendRecordsInner, SeekZstdSep.appendRecordsInner]
  apply hchecks.bind
  cases hplan : SeekZstdSep.appendChecks zeek f data find separator onMissing level records trust
      previous with
  | error e => exact Program.ends_pure _
  | ok plan =>
      obtain ⟨target, none | ⟨join, first⟩⟩ := plan
      · exact Program.ends_pure _
      · obtain ⟨hseek, hlast⟩ := appendTarget_table (appendChecks_ok hplan).1
        exact appendRewrite_ends mode find level (hzeek _ _ hseek) (Zeekstd.length_le hseek) hlast
          join first

/-- An append ends with what the model of it comes to. -/
theorem appendRecordsWithOpts_ends (f : File) (hzeek : zeek.ParsesU32) (data : R)
    (separator : Bytes) (onMissing : OnMissingSeparator) (records : Option Nat)
    (options : AppendOptions) :
    (appendRecordsWithOpts mode zeek f data separator onMissing level records options).Ends
      (.returned (SeekZstdSep.appendRecordsWithOpts zeek f data separator onMissing level records
        options)) := by
  rw [appendRecordsWithOpts, SeekZstdSep.appendRecordsWithOpts]
  cases options.finder with
  | none =>
      simp only
      split
      · exact Program.ends_pure _
      · next hne =>
        exact appendRecordsInner_ends mode (separatorFinder separator hne) level f hzeek data
          _ _ _ _ _
  | some find =>
      simp only
      split
      · exact Program.ends_pure _
      · exact appendRecordsInner_ends mode find level f hzeek data _ _ _ _ _

end Rewrite

end Exec

end SeekZstdSep
