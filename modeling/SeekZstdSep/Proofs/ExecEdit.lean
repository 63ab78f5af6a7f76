/-
Module: SeekZstdSep.Proofs.ExecEdit
Purpose: The edits that go by frames end with what the model of them comes to, in any arithmetic,
  wherever a table that is asked for its last data frame has a frame, and stop in a build that
  checks for overflow where it has none.
Trusted boundary: the seek table holds both lengths of a frame as `u32`
Main exports: Exec.truncateRecords_ends, Exec.appendFramesWith_ends, Exec.copyRangeWith_ends,
  Exec.appendFramesWith_nil, Exec.copyRangeWith_nil
-/
import SeekZstdSep.Proofs.ExecFrames

namespace SeekZstdSep

open Lib

namespace Exec

variable (mode : Arithmetic) (find : Finder UInt8) {reader : FrameReader}

/-! ### Truncating -/

section Edits

variable {zeek : Zeekstd} {f input : File} {fromIdx : Nat} {cnt : Option Nat}

theorem truncateChecks_ends (hzeek : zeek.ParsesU32) (f : File) (recordLen : Nat) :
    (truncateChecks mode zeek f recordLen find.find).Ends
      (Program.endingOf ((SeekZstdSep.truncateChecks zeek f recordLen find).map
        fun plan => (plan.1, plan.2, plan.1.frameEndComp (plan.2 - 1)))) := by
  have hmax : u32Max < 2 ^ 32 := by decide
  rw [truncateChecks, SeekZstdSep.truncateChecks]
  cases hseek : zeek.fromSeekable f.bytes with
  | error e => exact Program.ends_ofEnding _
  | ok table =>
      have hframes := Zeekstd.length_le hseek
      have hentries := hzeek _ _ hseek
      have hnew := FrameReader.new_ready zeek f table
      have hvalidate := validateSeparator_ends mode find hnew
      rw [Program.ofExcept_ok, Program.pure_andThen]
      simp only
      cases hvalidated : SeekZstdSep.validateSeparator find (.new zeek f table) with
      | error e =>
          rw [hvalidated] at hvalidate
          exact hvalidate.bind_failed
      | ok validated =>
          obtain ⟨n, reader⟩ := validated
          obtain ⟨hkeeps, hpos, hn⟩ := hnew.validateSeparator_keeps hvalidated
          have hthree : 3 ≤ table.length := validateSeparator_length hvalidated
          have hn32 : n ≤ u32Max := Nat.le_trans hn (hentries.frameSizeDecomp_le 0)
          have hlastIndex : table.length - 1 < reader.table.length := by
            rw [hkeeps.table]
            show table.length - 1 < table.length
            omega
          have hread := frameRecords_ends find hkeeps.ready hlastIndex
          rw [hvalidated] at hvalidate
          apply hvalidate.bind
          simp only
          rw [sub_of_le (by omega), Program.pure_andThen]
          cases hcount : SeekZstdSep.frameRecords find reader (table.length - 1) with
          | error e =>
              rw [hcount] at hread
              exact hread.bind_failed
          | ok last =>
              obtain ⟨-, hlast⟩ := hkeeps.ready.frameRecords_keeps hcount
              have hlast32 : last.1 ≤ u32Max := by
                rw [hkeeps.table] at hlast
                exact Nat.le_trans hlast (hentries.frameSizeDecomp_le _)
              have htotal := total_lt hn32 (Nat.le_trans (Nat.sub_le _ 1) hframes) hlast32
              rw [hcount] at hread
              apply hread.bind
              rw [Program.pure_andThen, mul_of_lt (by omega), Program.pure_andThen,
                add_of_lt htotal, Program.pure_andThen]
              simp only
              split
              · exact Program.ends_ofEnding _
              next hzero =>
              split
              · exact Program.ends_ofEnding _
              next hpast =>
              rw [div_of_pos hpos, Program.pure_andThen, rem_of_pos hpos, Program.pure_andThen]
              split
              · exact Program.ends_ofEnding _
              next hwhole =>
              have hplan : SeekZstdSep.truncateChecks zeek f recordLen find =
                  .ok (table, recordLen / n) := by
                rw [SeekZstdSep.truncateChecks, hseek]
                simp only [hvalidated, hcount, if_neg hzero, if_neg hpast, if_neg hwhole]
              obtain ⟨-, hlow, hhigh⟩ := truncateChecks_ok hplan
              rw [cast_of_lt (by omega), Program.pure_andThen, sub_of_le hlow,
                Program.pure_andThen, endComp_of_lt (by omega)]
              exact Program.ends_pure _

theorem truncateRecords_ends (hzeek : zeek.ParsesU32) (f : File) (recordLen : Nat) :
    (truncateRecords mode zeek f recordLen find.find).Ends
      (.returned (SeekZstdSep.truncateRecords zeek f recordLen find)) := by
  have hchecks := (truncateChecks_ends mode find hzeek f
    recordLen).attempt_except
  rw [truncateRecords, SeekZstdSep.truncateRecords]
  apply hchecks.bind
  cases hplan : SeekZstdSep.truncateChecks zeek f recordLen find with
  | error e => exact Program.ends_pure _
  | ok plan =>
      obtain ⟨table, k⟩ := plan
      obtain ⟨hseek, -, hk⟩ := truncateChecks_ok hplan
      have hlog := logFramesRange_ends mode zeek (hzeek _ _ hseek) k 0 []
        (by omega)
      apply hlog.attempt_except.bind
      rw [List.drop_zero]
      simp only
      cases logFrames zeek [] (table.take k) with
      | error e => exact Program.ends_pure _
      | ok out => exact Program.ends_pure _

/-! ### Frames of another file -/

/-- Where the frames of a range lie, as long as there are some. -/
theorem part_ends {table : SeekTable} {k j : Nat} (hkj : k < j) (hj : j ≤ table.length) :
    (part mode table k j).Ends
      (.returned (table.frameStartComp k, table.frameEndComp (j - 1))) := by
  have hle : table.frameStartComp k ≤ table.frameEndComp (j - 1) := by
    apply List.Sublist.sum_le_sum
    · apply List.Sublist.map
      apply List.take_sublist_take_left
      omega
    · intro comp _
      exact Nat.zero_le comp
  rw [part, startComp_of_lt (by omega), Program.pure_andThen, sub_of_le (by omega),
    Program.pure_andThen, endComp_of_lt (by omega), Program.pure_andThen, sub_of_le hle,
    Program.pure_andThen]
  exact Program.ends_pure _

/-- What an input is copied by: its records per frame, and the range. -/
theorem readRange_ends (zeek : Zeekstd) (input : File) (fromIdx : Nat) (cnt : Option Nat)
    {table : SeekTable} (hframes : table.length ≤ u32Max)
    (hentries : table.InU32) (hne : table ≠ []) (check : SeparatorCheck) :
    (recordsPerFrame mode find.find (.new zeek input table) check).Ends
        (Program.endingOf (SeekZstdSep.recordsPerFrame find (.new zeek input table) check)) ∧
      ∀ n reader, SeekZstdSep.recordsPerFrame find (.new zeek input table) check =
          .ok (n, reader) →
        reader.Ready ∧ reader.table = table ∧
          (frameRange mode find.find reader n fromIdx cnt).Ends
            (Program.endingOf (SeekZstdSep.frameRange find reader n fromIdx cnt)) := by
  have hnew := FrameReader.new_ready zeek input table
  constructor
  · exact recordsPerFrame_ends mode find hnew hne check
  · intro n reader hread
    obtain ⟨hkeeps, hpos, hn⟩ := hnew.recordsPerFrame_keeps hread
    have htable : reader.table = table := hkeeps.table
    refine ⟨hkeeps.ready, htable, ?_⟩
    apply frameRange_ends mode find hkeeps.ready
    · rw [htable]
      exact hne
    · rw [htable]
      exact hframes
    · rw [htable]
      exact hentries
    · exact hpos
    · exact Nat.le_trans hn (hentries.frameSizeDecomp_le 0)

/-- The halves are the whole. -/
theorem appendFramesChecks_eq (check : RangeCheck) :
    SeekZstdSep.appendFramesChecks zeek f input fromIdx cnt find check =
      (SeekZstdSep.framesTarget zeek f find).bind fun target =>
        (SeekZstdSep.framesInput zeek input target.2.1 fromIdx cnt find check).map fun read =>
          (target.1, target.2.2, read) := by
  rw [SeekZstdSep.appendFramesChecks, SeekZstdSep.framesTarget]
  cases zeek.fromSeekable f.bytes with
  | error e => rfl
  | ok table =>
      simp only
      cases SeekZstdSep.validateSeparator find (.new zeek f table) with
      | error e => rfl
      | ok validated =>
          simp only
          cases SeekZstdSep.lastDataFrame table with
          | error e => rfl
          | ok last =>
              simp only
              cases SeekZstdSep.walkFrame find validated.2 last with
              | error e => rfl
              | ok walked =>
                  simp only
                  split
                  · rfl
                  split
                  · rfl
                  simp only [Except.bind, SeekZstdSep.framesInput]
                  cases zeek.fromSeekable input.bytes with
                  | error e => rfl
                  | ok inTable =>
                      simp only
                      cases SeekZstdSep.recordsPerFrame find (.new zeek input inTable)
                        .firstFrame with
                      | error e => rfl
                      | ok read =>
                          simp only
                          split
                          · rfl
                          cases SeekZstdSep.frameRange find read.2 validated.1 fromIdx cnt with
                          | error e => rfl
                          | ok range =>
                              simp only
                              split
                              · cases SeekZstdSep.checkRangeUniform find read.2 validated.1
                                  range.1 range.2.1 with
                                | error e => rfl
                                | ok _ => rfl
                              · rfl

theorem framesTarget_ends (zeek : Zeekstd) (f : File) :
    (framesTarget mode zeek f find.find).Ends
      (Program.endingOf (SeekZstdSep.framesTarget zeek f find)) := by
  rw [framesTarget, SeekZstdSep.framesTarget]
  cases hseek : zeek.fromSeekable f.bytes with
  | error e => exact Program.ends_ofEnding _
  | ok table =>
      have hnew := FrameReader.new_ready zeek f table
      have hvalidate := validateSeparator_ends mode find hnew
      rw [Program.ofExcept_ok, Program.pure_andThen]
      simp only
      cases hvalidated : SeekZstdSep.validateSeparator find (.new zeek f table) with
      | error e =>
          rw [hvalidated] at hvalidate
          exact hvalidate.bind_failed
      | ok validated =>
          obtain ⟨hkeeps, hpos, hn⟩ := hnew.validateSeparator_keeps hvalidated
          have hthree : 3 ≤ table.length := validateSeparator_length hvalidated
          have hne : table ≠ [] := List.length_pos_iff.mp (by omega)
          have hlast := lastDataFrame_ends mode hne
          rw [hvalidated] at hvalidate
          apply hvalidate.bind
          simp only
          cases hframe : SeekZstdSep.lastDataFrame table with
          | error e =>
              rw [hframe] at hlast
              exact hlast.bind_failed
          | ok last =>
              have hlt : last < validated.2.table.length := by
                rw [hkeeps.table]
                exact lastDataFrame_lt hframe
              have hwalk := walkFrame_ends find hkeeps.ready hlt
              rw [hframe] at hlast
              apply hlast.bind
              simp only
              cases hwalked : SeekZstdSep.walkFrame find validated.2 last with
              | error e =>
                  rw [hwalked] at hwalk
                  exact hwalk.bind_failed
              | ok walked =>
                  rw [hwalked] at hwalk
                  apply hwalk.bind
                  simp only
                  split
                  · exact Program.ends_ofEnding _
                  split
                  · exact Program.ends_ofEnding _
                  · exact Program.ends_pure _

theorem framesInput_ends (fromIdx : Nat) (cnt : Option Nat) {n : Nat} (hzeek : zeek.ParsesU32)
    (check : RangeCheck)
    (hne : zeek.fromSeekable input.bytes ≠ .ok []) :
    (framesInput mode zeek input n fromIdx cnt find.find check).Ends
      (Program.endingOf (SeekZstdSep.framesInput zeek input n fromIdx cnt find check)) := by
  rw [framesInput, SeekZstdSep.framesInput]
  cases hseek : zeek.fromSeekable input.bytes with
  | error e => exact Program.ends_ofEnding _
  | ok table =>
      have hframes := Zeekstd.length_le hseek
      have hsome : table ≠ [] := by
        rintro rfl
        exact hne hseek
      obtain ⟨hread, hrange⟩ := readRange_ends mode find zeek input fromIdx cnt hframes
        (hzeek _ _ hseek) hsome
        .firstFrame
      rw [Except.mapError, Program.ofExcept_ok, Program.pure_andThen]
      simp only
      cases hcount : SeekZstdSep.recordsPerFrame find (.new zeek input table) .firstFrame with
      | error e =>
          rw [hcount] at hread
          exact hread.bind_failed
      | ok read =>
          obtain ⟨hready, htable, hranged⟩ := hrange _ _ hcount
          rw [hcount] at hread
          apply hread.bind
          simp only
          split
          · exact Program.ends_ofEnding _
          next hsame =>
          obtain rfl : read.1 = n := not_not.mp hsame
          cases hframes' : SeekZstdSep.frameRange find read.2 read.1 fromIdx cnt with
          | error e =>
              rw [hframes'] at hranged
              exact hranged.bind_failed
          | ok range =>
              obtain ⟨k, j, tail⟩ := range
              rw [hframes'] at hranged
              apply hranged.bind
              simp only
              split
              · have huniform := checkRangeUniform_ends mode find hready
                  (n := read.1) (frameRange_le hframes') (frameRange_bounds hframes').2
                  (by rwa [htable]) (by rwa [htable])
                cases huniform' : SeekZstdSep.checkRangeUniform find read.2 read.1 k j with
                | error e =>
                    rw [huniform'] at huniform
                    exact huniform.bind_failed
                | ok _ =>
                    rw [huniform'] at huniform
                    exact huniform.bind (Program.ends_pure _)
              · exact Program.ends_pure _

theorem appendFramesChecks_ends (fromIdx : Nat) (cnt : Option Nat) (hzeek : zeek.ParsesU32)
    (check : RangeCheck)
    (hinput : ∀ target, SeekZstdSep.framesTarget zeek f find = .ok target →
      zeek.fromSeekable input.bytes ≠ .ok []) :
    (appendFramesChecks mode zeek f input fromIdx cnt find.find check).Ends
      (Program.endingOf
        (SeekZstdSep.appendFramesChecks zeek f input fromIdx cnt find check)) := by
  have htarget := framesTarget_ends mode find zeek f
  rw [appendFramesChecks, appendFramesChecks_eq]
  cases htaken : SeekZstdSep.framesTarget zeek f find with
  | error e =>
      rw [htaken] at htarget
      exact htarget.bind_failed
  | ok target =>
      have hread := framesInput_ends mode find fromIdx cnt (n := target.2.1) hzeek check
        (hinput target htaken)
      rw [htaken] at htarget
      apply htarget.bind
      rw [Except.bind]
      cases hranged : SeekZstdSep.framesInput zeek input target.2.1 fromIdx cnt find check with
      | error e =>
          rw [hranged] at hread
          exact hread.bind_failed
      | ok read =>
          rw [hranged] at hread
          exact hread.bind (Program.ends_pure _)

theorem framesTarget_table {find : Finder UInt8} {table : SeekTable} {n last : Nat}
    (hok : SeekZstdSep.framesTarget zeek f find = .ok (table, n, last)) :
    zeek.fromSeekable f.bytes = .ok table ∧ last < table.length := by
  rw [SeekZstdSep.framesTarget] at hok
  cases hseek : zeek.fromSeekable f.bytes with
  | error e =>
      rw [hseek] at hok
      cases hok
  | ok table' =>
      rw [hseek] at hok
      simp only at hok
      split at hok
      · cases hok
      split at hok
      · cases hok
      next hlast =>
      split at hok
      · cases hok
      split_ifs at hok
      cases hok
      exact ⟨rfl, lastDataFrame_lt hlast⟩

theorem framesInput_table {find : Finder UInt8} {check : RangeCheck} {table : SeekTable}
    {n k j : Nat}
    (hok : SeekZstdSep.framesInput zeek input n fromIdx cnt find check = .ok (table, k, j)) :
    zeek.fromSeekable input.bytes = .ok table ∧ k ≤ j ∧ j ≤ table.length := by
  rw [SeekZstdSep.framesInput] at hok
  cases hseek : zeek.fromSeekable input.bytes with
  | error e =>
      rw [hseek] at hok
      cases hok
  | ok table' =>
      rw [hseek] at hok
      simp only at hok
      cases hread : SeekZstdSep.recordsPerFrame find (.new zeek input table') .firstFrame with
      | error e =>
          rw [hread] at hok
          cases hok
      | ok read =>
          obtain ⟨hkeeps, -, -⟩ :=
            (FrameReader.new_ready zeek input table').recordsPerFrame_keeps hread
          rw [hread] at hok
          simp only at hok
          split at hok
          · cases hok
          split at hok
          · cases hok
          next k' j' tail hrange =>
          have hle := frameRange_le hrange
          have hbounds := (frameRange_bounds hrange).2
          rw [hkeeps.table] at hbounds
          have hplan : table' = table ∧ k' = k ∧ j' = j := by
            split at hok
            · split at hok
              · cases hok
              · cases hok
                exact ⟨rfl, rfl, rfl⟩
            · cases hok
              exact ⟨rfl, rfl, rfl⟩
          obtain ⟨rfl, rfl, rfl⟩ := hplan
          exact ⟨rfl, hle, hbounds⟩

/-- The tables an append of frames goes by, and the frames of both. -/
theorem appendFramesChecks_tables {find : Finder UInt8} {check : RangeCheck}
    {table inTable : SeekTable}
    {last k j : Nat}
    (hok : SeekZstdSep.appendFramesChecks zeek f input fromIdx cnt find check =
      .ok (table, last, inTable, k, j)) :
    zeek.fromSeekable f.bytes = .ok table ∧ zeek.fromSeekable input.bytes = .ok inTable ∧
      last < table.length ∧ k ≤ j ∧ j ≤ inTable.length := by
  rw [appendFramesChecks_eq] at hok
  cases htaken : SeekZstdSep.framesTarget zeek f find with
  | error e =>
      rw [htaken] at hok
      cases hok
  | ok target =>
      rw [htaken, Except.bind] at hok
      cases hread : SeekZstdSep.framesInput zeek input target.2.1 fromIdx cnt find check with
      | error e =>
          rw [hread] at hok
          cases hok
      | ok read =>
          rw [hread] at hok
          cases hok
          obtain ⟨hseek, hlast⟩ := framesTarget_table htaken
          obtain ⟨hseekIn, hkj, hj⟩ := framesInput_table hread
          exact ⟨hseek, hseekIn, hlast, hkj, hj⟩

theorem appendFramesWith_ends (hzeek : zeek.ParsesU32) (check : RangeCheck)
    (hinput : ∀ target, SeekZstdSep.framesTarget zeek f find = .ok target →
      zeek.fromSeekable input.bytes ≠ .ok []) :
    (appendFramesWith mode zeek f input fromIdx cnt find.find check).Ends
      (.returned (SeekZstdSep.appendFramesWith zeek f input fromIdx cnt find check)) := by
  have hchecks := (appendFramesChecks_ends mode find fromIdx cnt hzeek
    check hinput).attempt_except
  rw [appendFramesWith, SeekZstdSep.appendFramesWith]
  apply hchecks.bind
  cases hplan : SeekZstdSep.appendFramesChecks zeek f input fromIdx cnt find check with
  | error e => exact Program.ends_pure _
  | ok plan =>
      obtain ⟨table, last, inTable, k, j⟩ := plan
      obtain ⟨hseek, hseekIn, hlast, hkj, hj⟩ := appendFramesChecks_tables hplan
      have hframes := Zeekstd.length_le hseek
      simp only
      by_cases hnothing : k = j
      · rw [if_pos hnothing, if_pos hnothing]
        exact Program.ends_pure _
      rw [if_neg hnothing, if_neg hnothing]
      have hpart := part_ends mode (Nat.lt_of_le_of_ne hkj hnothing) hj
      apply hpart.attempt.bind
      simp only
      rw [endComp_of_lt hlast]
      apply (Program.ends_pure _).attempt.bind
      simp only
      cases (ioCopy (input.part (inTable.frameStartComp k) (inTable.frameEndComp (j - 1)))).1 with
      | error e => exact Program.ends_pure _
      | ok _ =>
          have hmax : u32Max < 2 ^ 32 := by decide
          have hkept := logFramesRange_ends mode zeek (hzeek _ _ hseek)
            (last + 1) 0 [] (by omega)
          simp only
          rw [add_of_lt (by omega), Program.pure_andThen]
          rw [List.drop_zero] at hkept
          cases hout : logFrames zeek [] (table.take (last + 1)) with
          | error e =>
              rw [hout] at hkept
              exact hkept.bind_failed.attempt.bind (Program.ends_pure _)
          | ok out =>
              have hcopied := logFramesRange_ends mode zeek
                (hzeek _ _ hseekIn) (j - k) k out (by omega)
              rw [hout] at hkept
              simp only
              rw [SeekTable.range]
              cases hall : logFrames zeek out ((inTable.drop k).take (j - k)) with
              | error e =>
                  rw [hall] at hcopied
                  apply (hkept.bind hcopied).attempt_except.bind
                  exact Program.ends_pure _
              | ok all =>
                  rw [hall] at hcopied
                  apply (hkept.bind hcopied).attempt_except.bind
                  exact Program.ends_pure _

/-! ### Copying a range -/

/-- A range that is to hold records holds a frame. -/
theorem frameRange_lt {find : Finder UInt8} {n k j : Nat} {tail : Option Nat} {reader : FrameReader}
    (hcnt : cnt ≠ some 0)
    (hok : SeekZstdSep.frameRange find reader n fromIdx cnt = .ok (k, j, tail)) : k < j := by
  rw [SeekZstdSep.frameRange] at hok
  split at hok
  · cases hok
  split_ifs at hok with hinside hpast
  simp only at hok
  split at hok
  · next ended hended =>
      cases hok
      obtain ⟨hsome, hfits⟩ := Option.filter_eq_some_iff.mp hended
      obtain ⟨c, hc, hsum⟩ := Option.bind_eq_some_iff.mp hsome
      split_ifs at hsum
      cases hsum
      apply Nat.div_lt_div_of_lt_of_dvd
      · exact Nat.dvd_of_mod_eq_zero (of_decide_eq_true hfits).1
      · have hpos : c ≠ 0 := by
          rintro rfl
          exact hcnt hc
        omega
  · split at hok
    · cases hok
    · split at hok
      · cases hok
      · cases hok
        omega

theorem copyRangeChecks_ends (fromIdx : Nat) (cnt : Option Nat) (hzeek : zeek.ParsesU32)
    (align : Alignment) (check : SeparatorCheck) (hne : zeek.fromSeekable input.bytes ≠ .ok []) :
    (copyRangeChecks mode zeek input fromIdx cnt find.find align check).Ends
      (Program.endingOf
        (SeekZstdSep.copyRangeChecks zeek input fromIdx cnt find align check)) := by
  rw [copyRangeChecks, SeekZstdSep.copyRangeChecks]
  cases hseek : zeek.fromSeekable input.bytes with
  | error e => exact Program.ends_ofEnding _
  | ok table =>
      have hframes := Zeekstd.length_le hseek
      have hsome : table ≠ [] := by
        rintro rfl
        exact hne hseek
      obtain ⟨hread, hrange⟩ := readRange_ends mode find zeek input fromIdx cnt hframes
        (hzeek _ _ hseek) hsome check
      rw [Program.ofExcept_ok, Program.pure_andThen]
      simp only
      cases hcount : SeekZstdSep.recordsPerFrame find (.new zeek input table) check with
      | error e =>
          rw [hcount] at hread
          exact hread.bind_failed
      | ok read =>
          obtain ⟨hready, htable, hranged⟩ := hrange _ _ hcount
          rw [hcount] at hread
          apply hread.bind
          simp only
          cases hframes' : SeekZstdSep.frameRange find read.2 read.1 fromIdx cnt with
          | error e =>
              rw [hframes'] at hranged
              exact hranged.bind_failed
          | ok range =>
              obtain ⟨k, j, tail⟩ := range
              rw [hframes'] at hranged
              apply hranged.bind
              simp only
              by_cases hnothing : cnt = some 0
              · rw [if_pos hnothing, if_pos hnothing]
                exact Program.ends_ofEnding _
              have hlt := frameRange_lt hnothing hframes'
              rw [if_neg hnothing, if_neg hnothing]
              cases tail.filter fun tail => tail ≠ read.1 ∧ align = .required with
              | some tail =>
                  simp only
                  rw [sub_of_le (by omega), Program.pure_andThen]
                  exact Program.ends_ofEnding _
              | none => exact Program.ends_pure _

theorem copyRangeChecks_table {find : Finder UInt8} {align : Alignment} {check : SeparatorCheck}
    {table : SeekTable}
    {k j : Nat}
    (hok : SeekZstdSep.copyRangeChecks zeek input fromIdx cnt find align check =
      .ok (table, k, j)) :
    zeek.fromSeekable input.bytes = .ok table ∧ k < j ∧ j ≤ table.length := by
  rw [SeekZstdSep.copyRangeChecks] at hok
  cases hseek : zeek.fromSeekable input.bytes with
  | error e =>
      rw [hseek] at hok
      cases hok
  | ok table' =>
      rw [hseek] at hok
      simp only at hok
      cases hread : SeekZstdSep.recordsPerFrame find (.new zeek input table') check with
      | error e =>
          rw [hread] at hok
          cases hok
      | ok read =>
          obtain ⟨hkeeps, -, -⟩ :=
            (FrameReader.new_ready zeek input table').recordsPerFrame_keeps hread
          rw [hread] at hok
          simp only at hok
          split at hok
          · cases hok
          next k' j' tail hrange =>
          have hbounds := (frameRange_bounds hrange).2
          rw [hkeeps.table] at hbounds
          split_ifs at hok with hnothing
          split at hok
          · cases hok
          · cases hok
            exact ⟨rfl, frameRange_lt hnothing hrange, hbounds⟩

theorem copyRangeWith_ends (hzeek : zeek.ParsesU32) (output : Sink) (align : Alignment)
    (check : SeparatorCheck) (hne : zeek.fromSeekable input.bytes ≠ .ok []) :
    (copyRangeWith mode zeek input output fromIdx cnt find.find align check).Ends
      (.returned
        (SeekZstdSep.copyRangeWith zeek input output fromIdx cnt find align check)) := by
  have hchecks := (copyRangeChecks_ends mode find fromIdx cnt hzeek align check hne).attempt_except
  rw [copyRangeWith, SeekZstdSep.copyRangeWith]
  apply hchecks.bind
  cases hplan : SeekZstdSep.copyRangeChecks zeek input fromIdx cnt find align check with
  | error e => exact Program.ends_pure _
  | ok plan =>
      obtain ⟨table, k, j⟩ := plan
      obtain ⟨hseek, hkj, hj⟩ := copyRangeChecks_table hplan
      simp only
      apply (part_ends mode hkj hj).attempt.bind
      simp only
      generalize hcopied :
        ioCopy (input.part (table.frameStartComp k) (table.frameEndComp (j - 1))) = copied
      generalize output.writeAll copied.2 = wrote
      obtain ⟨wrote, output⟩ := wrote
      cases wrote with
      | error e => exact Program.ends_pure _
      | ok _ =>
          simp only
          cases copied.1 with
          | error e => exact Program.ends_pure _
          | ok _ =>
              have hlog := logFramesRange_ends mode zeek
                (hzeek _ _ hseek) (j - k) k [] (by omega)
              apply hlog.attempt_except.bind
              rw [← SeekTable.range]
              cases logFrames zeek [] (table.range k j) with
              | error e => exact Program.ends_pure _
              | ok out => exact Program.ends_pure _

/-! ### A table of no frames -/

/-- What a table of no frames is asked for is not there: the index below 0. -/
theorem recordsPerFrame_nil (find : RawFind) (check : SeparatorCheck)
    (hnil : reader.table = []) :
    recordsPerFrame .checked find reader check = Program.fault .underflow := by
  have hlast : lastDataFrame .checked reader.table = Program.fault .underflow := by
    rw [hnil]
    rfl
  rw [recordsPerFrame, hlast, Program.fault_andThen]

theorem copyRangeWith_nil (hnil : zeek.fromSeekable input.bytes = .ok []) (output : Sink)
    (find : RawFind) (align : Alignment) (check : SeparatorCheck) :
    (copyRangeWith .checked zeek input output fromIdx cnt find align check).Ends
      (.faulted .underflow) := by
  have hchecks : copyRangeChecks .checked zeek input fromIdx cnt find align check =
      Program.fault .underflow := by
    rw [copyRangeChecks, hnil, Program.ofExcept_ok, Program.pure_andThen,
      recordsPerFrame_nil find check rfl, Program.fault_andThen]
  rw [copyRangeWith, hchecks]
  exact (Program.ends_ofEnding _).attempt.bind_faulted

theorem appendFramesWith_nil {target : SeekTable × Nat × Nat}
    (htarget : SeekZstdSep.framesTarget zeek f find = .ok target)
    (hnil : zeek.fromSeekable input.bytes = .ok []) (check : RangeCheck) :
    (appendFramesWith .checked zeek f input fromIdx cnt find.find check).Ends
      (.faulted .underflow) := by
  have htaken := framesTarget_ends .checked find zeek f
  have hread : framesInput .checked zeek input target.2.1 fromIdx cnt find.find check =
      Program.fault .underflow := by
    rw [framesInput, hnil, Except.mapError, Program.ofExcept_ok, Program.pure_andThen,
      recordsPerFrame_nil find.find .firstFrame rfl, Program.fault_andThen]
  have hchecks : (appendFramesChecks .checked zeek f input fromIdx cnt find.find check).Ends
      (.faulted .underflow) := by
    rw [htarget] at htaken
    rw [appendFramesChecks]
    apply htaken.bind
    rw [hread]
    exact Program.ends_ofEnding _
  rw [appendFramesWith]
  exact hchecks.attempt.bind_faulted

end Edits

end Exec

end SeekZstdSep
