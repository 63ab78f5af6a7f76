/-
Module: SeekZstdSep.Proofs.CopyRange
Purpose: The frames a record range covers, and what `copy_range_with` writes of them: the records
  asked for, and behind the last whole record of a file the remainder as well.
Trusted boundary: the library, as `Zeekstd` has it
Main exports: recordsPerFrame_ok, frameRange_ok, copyRangeWith_ok, copy_range_exact_iff
-/
import SeekZstdSep.Lib.Pieces
import SeekZstdSep.Proofs.Truncate

namespace SeekZstdSep

open Lib

variable {zeek : Zeekstd} {boundary : Boundary} {n : Nat} {find : Finder UInt8}

/-! ### Where a range lies -/

namespace FrameReader.Over

variable {contents : List Bytes} {reader : FrameReader}

/-- What is read off frame 0 is its count, which ends it, in front of another data frame. -/
theorem recordsPerFrame_ok (h : reader.Over contents) {check : SeparatorCheck} {count' : Nat}
    {reader' : FrameReader}
    (hok : recordsPerFrame find reader check = .ok (count', reader')) :
    reader'.Over contents ∧ 0 < count' ∧
      ∃ hpos : 0 < contents.length, find.Full count' contents[0] ∧
        ∃ last, lastDataFrame reader.table = .ok last ∧ 0 < last := by
  rw [recordsPerFrame] at hok
  cases hlast : lastDataFrame reader.table with
  | error e => simp [hlast] at hok
  | ok last =>
      simp only [hlast] at hok
      by_cases hzero : last = 0
      · rw [if_pos hzero] at hok
        cases hok
      rw [if_neg hzero] at hok
      have hpos : 0 < contents.length := by
        rw [← h.length]
        apply Nat.pos_of_ne_zero
        intro hnone
        rw [lastDataFrame, if_pos hnone] at hlast
        cases hlast
      obtain ⟨reader₁, hwalk, hover₁⟩ := h.walkFrame_spec find hpos
      simp only [hwalk] at hok
      by_cases hnone : count find contents[0] = 0
      · rw [if_pos hnone] at hok
        cases hok
      rw [if_neg hnone] at hok
      by_cases hwhole : endsWhole find contents[0] = true
      · have hfull : find.Full (count find contents[0]) contents[0] :=
          ⟨(count_eq find _).symm, ((endsWhole_iff find _).mp hwhole).2⟩
        rw [if_neg (by simp [hwhole])] at hok
        by_cases htwo : check = .twoFrames
        · rw [if_pos htwo] at hok
          by_cases hfew : last - 1 = 0
          · rw [if_pos hfew] at hok
            cases hok
          rw [if_neg hfew] at hok
          have hinside : last - 1 < contents.length := by
            obtain ⟨last', hlast', hlt, -⟩ :=
              h.lastDataFrame_spec (List.length_pos_iff.mp hpos)
            rw [hlast] at hlast'
            cases hlast'
            omega
          obtain ⟨reader₂, hsecond, hover₂⟩ := hover₁.frameRecords_spec find hinside
          simp only [hsecond] at hok
          split at hok
          · cases hok
          · cases hok
            exact ⟨hover₂, Nat.pos_of_ne_zero hnone, hpos, hfull, last, rfl,
              Nat.pos_of_ne_zero hzero⟩
        · rw [if_neg htwo] at hok
          cases hok
          exact ⟨hover₁, Nat.pos_of_ne_zero hnone, hpos, hfull, last, rfl,
            Nat.pos_of_ne_zero hzero⟩
      · rw [if_pos (by simp [hwhole])] at hok
        cases hok

/-- A range that is accepted starts at the first record of a frame that is there, and ends at the
first record of one or at the end of the file. -/
theorem frameRange_ok (h : reader.Over contents) {last fromIdx k j : Nat} {cnt tail : Option Nat}
    (hlast : lastDataFrame reader.table = .ok last) (hlt : last < contents.length)
    (hok : frameRange find reader n fromIdx cnt = .ok (k, j, tail)) :
    fromIdx % n = 0 ∧ k = fromIdx / n ∧ k ≤ last ∧
      ((∃ c, cnt = some c ∧ fromIdx + c ≤ usizeMax ∧ (fromIdx + c) % n = 0 ∧
          j = (fromIdx + c) / n ∧ j ≤ last ∧ tail = none) ∨
        (j = last + 1 ∧ tail = some (count find contents[last]) ∧
          ∀ c, cnt = some c → saturatingAdd fromIdx c = n * last + count find contents[last] ∧
            ¬ ((fromIdx + c) ≤ usizeMax ∧ (fromIdx + c) % n = 0 ∧ (fromIdx + c) / n ≤ last))) := by
  rw [frameRange, hlast] at hok
  simp only at hok
  by_cases hmod : fromIdx % n = 0
  · by_cases hpast : last < fromIdx / n
    · rw [if_neg (not_not.mpr hmod), if_pos hpast] at hok
      cases hok
    · rw [if_neg (not_not.mpr hmod), if_neg hpast] at hok
      refine ⟨hmod, ?_⟩
      obtain ⟨reader', hrecords, -⟩ := h.frameRecords_spec find hlt
      cases cnt with
      | none =>
          simp only [Option.bind_none, Option.filter_none, hrecords] at hok
          cases hok
          exact ⟨rfl, by omega, Or.inr ⟨rfl, rfl, by simp⟩⟩
      | some c =>
          simp only [Option.bind_some] at hok
          by_cases hinside : fromIdx + c ≤ usizeMax ∧ (fromIdx + c) % n = 0 ∧
              (fromIdx + c) / n ≤ last
          · obtain ⟨hfits, hends⟩ := hinside
            rw [if_pos hfits, Option.filter_some, if_pos (by simpa using hends)] at hok
            cases hok
            exact ⟨rfl, by omega, Or.inl ⟨c, rfl, hfits, hends.1, rfl, hends.2, rfl⟩⟩
          · have hnone : ((if fromIdx + c ≤ usizeMax then some (fromIdx + c) else none).filter
                fun ended => ended % n = 0 ∧ ended / n ≤ last) = none := by
              by_cases hfits : fromIdx + c ≤ usizeMax
              · rw [if_pos hfits, Option.filter_some, if_neg]
                simpa using fun hmod' => Nat.lt_of_not_le fun hle => hinside ⟨hfits, hmod', hle⟩
              · rw [if_neg hfits, Option.filter_none]
            rw [hnone] at hok
            simp only [hrecords, Option.filter_some] at hok
            by_cases htotal : saturatingAdd fromIdx c = n * last + count find contents[last]
            · rw [if_neg (by simpa using htotal)] at hok
              cases hok
              refine ⟨rfl, by omega, Or.inr ⟨rfl, rfl, ?_⟩⟩
              intro c' hc'
              cases hc'
              exact ⟨htotal, hinside⟩
            · rw [if_pos (by simpa using htotal)] at hok
              cases hok
  · rw [if_pos hmod] at hok
    cases hok

theorem lastDataFrame_congr (h : reader.Over contents) {reader' : FrameReader}
    (h' : reader'.Over contents) :
    lastDataFrame reader.table = lastDataFrame reader'.table := by
  have hfrom : ∀ last, last < contents.length →
      lastDataFrameFrom reader.table last = lastDataFrameFrom reader'.table last := by
    intro last
    induction last with
    | zero => exact fun _ => rfl
    | succ last ih =>
        intro hlt
        rw [lastDataFrameFrom, lastDataFrameFrom, h.size _ hlt, h'.size _ hlt, ih (by omega)]
  rw [lastDataFrame, lastDataFrame, h.length, h'.length]
  by_cases hnone : contents.length = 0
  · rw [if_pos hnone, if_pos hnone]
  · rw [if_neg hnone, if_neg hnone, hfrom _ (by omega)]

end FrameReader.Over

/-! ### What is written -/

theorem Sink.writeAll_ok {sink sink' : Sink} {bytes : Bytes}
    (h : sink.writeAll bytes = (.ok (), sink')) : sink'.written = sink.written ++ bytes := by
  induction bytes generalizing sink with
  | nil =>
      cases h
      rw [List.append_nil]
  | cons byte bytes ih =>
      rw [Sink.writeAll] at h
      split at h
      · rw [ih h, List.append_assoc]
        rfl
      · cases h

variable {archive : Archive zeek} {fromIdx : Nat} {cnt : Option Nat} {align : Alignment}
  {check : SeparatorCheck}

/-- The bytes between two frame starts of a file. -/
theorem Archive.part_frames (archive : Archive zeek) {k j : Nat} (hkj : k < j) :
    (archive.file.part ((tableOf archive.frames).frameStartComp k)
        ((tableOf archive.frames).frameEndComp (j - 1))).data =
      bodyOf ((archive.frames.drop k).take (j - k)) := by
  have hj : j - 1 + 1 = j := by omega
  rw [frameStartComp_tableOf, frameEndComp_tableOf, hj]
  exact part_bytesOf archive.frames (Nat.le_of_lt hkj)

/-- What a copy that is accepted established: the records per frame, and the range. -/
theorem copyRangeChecks_ok {table : SeekTable} {k j : Nat}
    (hok : copyRangeChecks zeek archive.file fromIdx cnt find align check = .ok (table, k, j)) :
    table = tableOf archive.frames ∧ cnt ≠ some 0 ∧
      ∃ (n : Nat) (tail : Option Nat) (reader : FrameReader), reader.Over archive.contents ∧
        0 < n ∧ (∃ hpos : 0 < archive.contents.length, find.Full n archive.contents[0]) ∧
        (∃ last, lastDataFrame reader.table = .ok last ∧ 0 < last) ∧
        frameRange find reader n fromIdx cnt = .ok (k, j, tail) ∧
        (align = .required → ∀ t, tail = some t → t = n) := by
  rw [copyRangeChecks, archive.fromSeekable] at hok
  simp only at hok
  cases hper : recordsPerFrame find (.new zeek archive.file (tableOf archive.frames)) check with
  | error e => simp [hper] at hok
  | ok found =>
      obtain ⟨n, reader⟩ := found
      obtain ⟨hover, hn, hpos, hfull, last, hlast, hlast0⟩ := archive.stands.recordsPerFrame_ok hper
      simp only [hper] at hok
      cases hrange : frameRange find reader n fromIdx cnt with
      | error e => simp [hrange] at hok
      | ok range =>
          obtain ⟨k', j', tail⟩ := range
          simp only [hrange] at hok
          by_cases hnothing : cnt = some 0
          · rw [if_pos hnothing] at hok
            cases hok
          rw [if_neg hnothing] at hok
          split at hok
          · cases hok
          · next hnone =>
              cases hok
              refine ⟨rfl, hnothing, n, tail, reader, hover, hn, ⟨hpos, hfull⟩,
                ⟨last, ?_, hlast0⟩, hrange, ?_⟩
              · rw [← hlast]
                exact hover.lastDataFrame_congr archive.stands
              · intro halign t ht
                by_contra hne
                rw [ht, Option.filter_some, if_pos (by simp [hne, halign])] at hnone
                cases hnone

/-- A copy that succeeds wrote the frames of its range and their seek table. -/
theorem copyRangeWith_ok {output output' : Sink}
    (hok : copyRangeWith zeek archive.file output fromIdx cnt find align check =
      (.ok (), output')) :
    ∃ k j, copyRangeChecks zeek archive.file fromIdx cnt find align check =
        .ok (tableOf archive.frames, k, j) ∧
      (k < j → output'.written =
        output.written ++ bytesOf ((archive.frames.drop k).take (j - k))) := by
  rw [copyRangeWith] at hok
  cases hchecks : copyRangeChecks zeek archive.file fromIdx cnt find align check with
  | error e => simp [hchecks] at hok
  | ok range =>
      obtain ⟨table, k, j⟩ := range
      obtain ⟨rfl, -⟩ := copyRangeChecks_ok hchecks
      refine ⟨k, j, rfl, fun hkj => ?_⟩
      simp only [hchecks] at hok
      obtain ⟨-, hall, -⟩ := ioCopy_spec (archive.file.part
        ((tableOf archive.frames).frameStartComp k) ((tableOf archive.frames).frameEndComp (j - 1)))
      generalize ioCopy (archive.file.part ((tableOf archive.frames).frameStartComp k)
        ((tableOf archive.frames).frameEndComp (j - 1))) = copied at hok hall
      obtain ⟨answer, bytes⟩ := copied
      have hlog : logFrames zeek [] ((tableOf archive.frames).range k j) =
          .ok (tableOf ((archive.frames.drop k).take (j - k))) := by
        rw [tableOf_range, logFrames_of_le, List.nil_append]
        have := archive.count_le
        simp only [List.length_nil, length_tableOf, List.length_take, List.length_drop]
        omega
      cases hwrite : output.writeAll bytes with
      | mk written output₁ =>
          cases written with
          | error e => simp [hwrite] at hok
          | ok u =>
              cases answer with
              | error e => simp [hwrite] at hok
              | ok u =>
                  simp only [hwrite, hlog] at hok
                  have hbytes : bytes = _ := hall rfl
                  rw [Sink.writeAll_ok hok, Sink.writeAll_ok hwrite, hbytes,
                    archive.part_frames hkj, bytesOf, List.append_assoc]

/-- A range that is not accepted is refused before anything is written. -/
theorem copyRangeWith_refused {output : Sink}
    (hbad : ∀ k j, copyRangeChecks zeek archive.file fromIdx cnt find align check ≠
      .ok (tableOf archive.frames, k, j)) :
    ∃ e, copyRangeWith zeek archive.file output fromIdx cnt find align check =
      (.error e, output) := by
  rw [copyRangeWith]
  cases hchecks : copyRangeChecks zeek archive.file fromIdx cnt find align check with
  | error e => exact ⟨e, rfl⟩
  | ok range =>
      obtain ⟨table, k, j⟩ := range
      obtain ⟨rfl, -⟩ := copyRangeChecks_ok hchecks
      exact absurd hchecks (hbad k j)

/-! ### What a copy of a uniform file holds -/

/-- A file holds fewer records than fit a machine word. -/
theorem Archive.length_records_lt (archive : Archive zeek) (find : Finder UInt8) :
    (find.records archive.data).length < usizeMax := by
  have hsum : archive.data.length ≤ archive.contents.length * u32Max := by
    apply length_flatten_le
    intro content hcontent
    obtain ⟨frame, -, rfl⟩ := List.mem_map.mp hcontent
    exact frame.content_le
  have hcount : archive.contents.length ≤ u32Max := by
    rw [archive.length_contents]
    exact Nat.le_trans archive.count_le zeek.maxFrames_le
  have hrecords := find.length_records_le archive.data
  have hmul := Nat.mul_le_mul_right u32Max hcount
  have hwide : u32Max * u32Max < usizeMax := by decide
  omega

/-- The frames of an accepted range of a uniform file: they start at record `fromIdx`, and end
where the range does or at the end of the file. -/
theorem copyRange_frames (huniform : archive.IsUniform boundary n) {k j : Nat}
    (hok : copyRangeChecks zeek archive.file fromIdx cnt boundary.find align check =
      .ok (tableOf archive.frames, k, j)) :
    fromIdx = n * k ∧ k < j ∧ j ≤ archive.contents.length ∧
      ((∃ c, cnt = some c ∧ fromIdx + c = n * j ∧ j < archive.contents.length) ∨
        (j = archive.contents.length ∧
          (align = .required →
            ∀ g ∈ archive.contents.getLast?, (boundary.find.records g).length = n) ∧
          ∀ c, cnt = some c → fromIdx + c = (boundary.find.records archive.data).length ∧
            n * (archive.contents.length - 1) < fromIdx + c)) := by
  obtain ⟨-, hnothing, n', tail, reader, hover, hn', ⟨hpos, hfull⟩, ⟨last, hlast, hlast0⟩, hrange,
    halign⟩ := copyRangeChecks_ok hok
  have hne := Uniform.ne_nil huniform
  have hlastNe : archive.contents.getLast hne ≠ [] :=
    (Uniform.last huniform _ (List.getLast?_eq_getLast_of_ne_nil hne)).1
  have hlen : last = archive.contents.length - 1 := by
    have := hover.lastDataFrame_of_last hne hlastNe
    rw [hlast] at this
    cases this
    rfl
  have hn : n' = n := by
    rw [← hfull.1]
    exact (Uniform.full_getElem huniform (k := 0) (by omega)).1
  subst hn
  have htotal : (boundary.find.records archive.data).length = _ :=
    (Uniform.flatten_eq huniform).1
  rw [List.getLast_eq_getElem] at htotal
  obtain ⟨hmod, rfl, hk, hends⟩ := hover.frameRange_ok hlast (by omega) hrange
  have hfrom : fromIdx = n' * (fromIdx / n') :=
    (Nat.mul_div_cancel' (Nat.dvd_of_mod_eq_zero hmod)).symm
  rcases hends with ⟨c, rfl, hfits, hmod', rfl, hj, -⟩ | ⟨rfl, rfl, hsome⟩
  · have hend : fromIdx + c = n' * ((fromIdx + c) / n') :=
      (Nat.mul_div_cancel' (Nat.dvd_of_mod_eq_zero hmod')).symm
    have hc : c ≠ 0 := fun hzero => hnothing (by rw [hzero])
    refine ⟨hfrom, Nat.lt_of_mul_lt_mul_left (a := n') (by omega), by omega,
      Or.inl ⟨c, rfl, hend, by omega⟩⟩
  · refine ⟨hfrom, by omega, by omega, Or.inr ⟨by omega, ?_, ?_⟩⟩
    · intro hrequired g hg
      have := halign hrequired _ rfl
      rw [count_eq] at this
      rw [List.getLast?_eq_getElem?, Option.mem_def] at hg
      obtain ⟨hin, hlastEq⟩ := List.getElem?_eq_some_iff.mp hg
      simp only [hlen] at this
      rwa [hlastEq] at this
    · intro c hc
      obtain ⟨hsum, hnot⟩ := hsome c hc
      have hmost := archive.length_records_lt boundary.find
      simp only [count_eq, hlen] at hsum
      rw [← htotal, saturatingAdd] at hsum
      have heq : fromIdx + c = (boundary.find.records archive.data).length := by omega
      refine ⟨heq, ?_⟩
      by_contra hle
      have hend : fromIdx + c = n' * (archive.contents.length - 1) := by omega
      refine hnot ⟨by omega, ?_, ?_⟩
      · rw [hend, Nat.mul_mod_right]
      · rw [hend, Nat.mul_div_cancel_left _ hn', hlen]

/-- A range of a file's frames, as a file of their own. -/
def Archive.range (archive : Archive zeek) (k j : Nat) : Archive zeek :=
  archive.withFrames ((archive.frames.drop k).take (j - k))
    (Nat.le_trans (List.length_take_le' _ _)
      (Nat.le_trans (by rw [List.length_drop]; exact Nat.sub_le _ _) archive.count_le))

theorem Archive.contents_range (archive : Archive zeek) (k j : Nat) :
    (archive.range k j).contents = (archive.contents.drop k).take (j - k) := by
  rw [range, contents_withFrames, contents, List.map_take, List.map_drop]

/-- What a range of records is to hold: everything from its first record on, or so many whole
records and nothing after them. -/
def HoldsRange (find : Finder UInt8) (data copied : Bytes) (fromIdx : Nat) : Option Nat → Prop
  | none => copied = find.after data fromIdx
  | some c => fromIdx + c ≤ (find.records data).length ∧
      copied = (((find.records data).drop fromIdx).take c).flatten

/-- A copy wrote a file of its own that holds its range, frame by frame where it has to be. -/
def CopiesExactly (archive : Archive zeek) (find : Finder UInt8) (n fromIdx : Nat)
    (cnt : Option Nat) (align : Alignment) (output output' : Sink) : Prop :=
  ∃ copy : Archive zeek, output'.written = output.written ++ copy.file.bytes ∧
    HoldsRange find archive.data copy.data fromIdx cnt ∧
    (align = .required → ∀ g ∈ copy.contents, (find.records g).length = n)

/-- A range that no copy may accept: it starts past the end or inside a frame, ends inside a
frame before the end of the file, or does not fit a machine word. -/
def RangeOutside (archive : Archive zeek) (boundary : Boundary) (n fromIdx : Nat)
    (cnt : Option Nat) : Prop :=
  (boundary.find.items boundary.tailIsRecord archive.data).length ≤ fromIdx ∨ ¬ n ∣ fromIdx ∨
    ∃ c, cnt = some c ∧
      (usizeMax < fromIdx + c ∨
        (¬ n ∣ fromIdx + c ∧ fromIdx + c ≠ (boundary.find.records archive.data).length) ∨
        (boundary.find.records archive.data).length < fromIdx + c)

/-- The range takes the rest of the whole records of a file that goes on behind them in the same
frame. -/
def StopsBeforeRemainder (archive : Archive zeek) (find : Finder UInt8) (n fromIdx : Nat)
    (cnt : Option Nat) : Prop :=
  ∃ c, cnt = some c ∧ fromIdx + c = (find.records archive.data).length ∧
    n * (archive.contents.length - 1) < fromIdx + c ∧ find.rest archive.data ≠ []

/-- Some record or the start of one is in the last frame. -/
theorem mul_lt_length_items (huniform : archive.IsUniform boundary n) :
    n * (archive.contents.length - 1) <
      (boundary.find.items boundary.tailIsRecord archive.data).length := by
  obtain ⟨hne, -, htail⟩ := Uniform.last huniform _
    (List.getLast?_eq_getLast_of_ne_nil (Uniform.ne_nil huniform))
  obtain ⟨hcount, hrest⟩ := Uniform.flatten_eq huniform
  have hle := boundary.find.length_records_le_items boundary.tailIsRecord archive.data
  by_cases hnone : boundary.find.rest archive.data = []
  · have hsome : boundary.find.records
        (archive.contents.getLast (Uniform.ne_nil huniform)) ≠ [] := by
      intro hnil
      have hflatten := boundary.find.flatten_records_append_rest
        (archive.contents.getLast (Uniform.ne_nil huniform))
      rw [hnil, ← hrest] at hflatten
      rw [Archive.data] at hnone
      rw [hnone] at hflatten
      exact hne hflatten.symm
    have hpos := List.length_pos_iff.mpr hsome
    rw [Archive.data] at hle ⊢
    omega
  · have htail' : boundary.tailIsRecord = true :=
      htail.resolve_right (fun hnil => hnone (hrest.trans hnil))
    rw [boundary.find.items_of_tail htail' hnone, List.length_append, List.length_singleton]
    rw [Archive.data]
    omega

theorem range_aligned (huniform : archive.IsUniform boundary n) {k j : Nat}
    (hj : j ≤ archive.contents.length)
    (hlast : j = archive.contents.length →
      ∀ g ∈ archive.contents.getLast?, (boundary.find.records g).length = n) :
    ∀ g ∈ (archive.range k j).contents, (boundary.find.records g).length = n := by
  intro g hg
  rw [Archive.contents_range] at hg
  obtain ⟨i, hi, rfl⟩ := List.mem_iff_getElem.mp hg
  rw [List.length_take, List.length_drop] at hi
  rw [List.getElem_take, List.getElem_drop]
  by_cases hend : k + i + 1 = archive.contents.length
  · apply hlast (by omega)
    rw [Option.mem_def, List.getLast?_eq_getElem?, List.getElem?_eq_getElem (by omega)]
    congr 2
    omega
  · exact (Uniform.full_getElem huniform (by omega)).1

theorem records_eq_drop_append (find : Finder UInt8) (data : Bytes) (i : Nat) :
    find.after data i =
      (((find.records data).drop i).take ((find.records data).length - i)).flatten ++
        find.rest data := by
  rw [find.after_eq, List.take_of_length_le (by rw [List.length_drop])]

/-- What the frames of an accepted range hold. -/
theorem range_holds_iff (huniform : archive.IsUniform boundary n) {k j : Nat}
    (hok : copyRangeChecks zeek archive.file fromIdx cnt boundary.find align check =
      .ok (tableOf archive.frames, k, j)) :
    HoldsRange boundary.find archive.data (archive.range k j).data fromIdx cnt ↔
      ¬ StopsBeforeRemainder archive boundary.find n fromIdx cnt := by
  obtain ⟨rfl, hkj, hj, hends⟩ := copyRange_frames huniform hok
  have hpos : 0 < n := Uniform.pos huniform
  have hdata : (archive.range k j).data =
      ((archive.contents.drop k).take (j - k)).flatten := by
    rw [Archive.data, Archive.contents_range]
  rcases hends with ⟨c, rfl, hend, hlt⟩ | ⟨rfl, -, hcount⟩
  · have hregion := (Uniform.records_region huniform (k := k) (j := j - k) (by omega))
    have hc : n * (j - k) = c := by
      rw [Nat.mul_sub]
      omega
    have hmost : n * j ≤ n * (archive.contents.length - 1) := Nat.mul_le_mul_left n (by omega)
    have hleast := Uniform.le_length_records huniform
    have hflatten := boundary.find.flatten_records_append_rest
      ((archive.contents.drop k).take (j - k)).flatten
    rw [hregion.1, hregion.2, List.append_nil, hc] at hflatten
    refine iff_of_true ⟨?_, by rw [hdata, ← hflatten]; rfl⟩ ?_
    · rw [hend]
      exact Nat.le_trans hmost hleast
    · rintro ⟨c', hc', -, hgt, -⟩
      cases hc'
      omega
  · have hafter : (archive.range k archive.contents.length).data =
        boundary.find.after archive.data (n * k) := by
      rw [hdata, Uniform.region_to_end huniform (by omega) (by omega)]
      rfl
    rw [hafter]
    cases cnt with
    | none => exact iff_of_true rfl (by rintro ⟨c, hc, -⟩; cases hc)
    | some c =>
        obtain ⟨htotal, hgt⟩ := hcount c rfl
        have hc : (boundary.find.records archive.data).length - n * k = c := by omega
        rw [records_eq_drop_append, hc]
        constructor
        · rintro ⟨-, heq⟩ ⟨c', -, -, -, hrest⟩
          exact hrest (List.append_right_eq_self.mp heq)
        · intro hnot
          refine ⟨Nat.le_of_eq htotal, ?_⟩
          have hrest : boundary.find.rest archive.data = [] := by
            by_contra hne
            exact hnot ⟨c, rfl, htotal, hgt, hne⟩
          rw [hrest, List.append_nil]

/-- An accepted range lies in the file. -/
theorem not_outside_of_accepted (huniform : archive.IsUniform boundary n) {k j : Nat}
    (hok : copyRangeChecks zeek archive.file fromIdx cnt boundary.find align check =
      .ok (tableOf archive.frames, k, j)) :
    ¬ RangeOutside archive boundary n fromIdx cnt := by
  obtain ⟨rfl, hkj, hj, hends⟩ := copyRange_frames huniform hok
  have hleast := Uniform.le_length_records huniform
  have hmost := archive.length_records_lt boundary.find
  rintro (hpast | hinside | ⟨c, rfl, hbad⟩)
  · have hmul : n * k ≤ n * (archive.contents.length - 1) := Nat.mul_le_mul_left n (by omega)
    have hsome := mul_lt_length_items huniform
    exact absurd hpast (Nat.not_le_of_lt (Nat.lt_of_le_of_lt hmul hsome))
  · exact hinside (Nat.dvd_mul_right n k)
  · have hend : n * k + c ≤ (boundary.find.records archive.data).length ∧
        (n ∣ n * k + c ∨ n * k + c = (boundary.find.records archive.data).length) := by
      rcases hends with ⟨c', hc', hend, hlt⟩ | ⟨-, -, hcount⟩
      · cases hc'
        have hmul : n * j ≤ n * (archive.contents.length - 1) :=
          Nat.mul_le_mul_left n (by omega)
        exact ⟨hend ▸ Nat.le_trans hmul hleast, Or.inl (hend ▸ Nat.dvd_mul_right n j)⟩
      · obtain ⟨htotal, -⟩ := hcount c rfl
        exact ⟨Nat.le_of_eq htotal, Or.inr htotal⟩
    obtain ⟨hle, hat⟩ := hend
    rcases hbad with hwide | ⟨hnot, hne⟩ | hgt
    · omega
    · exact hat.elim hnot hne
    · omega

/-- A copy that succeeds is exact unless the range stops in front of the remainder of the last
frame, which is copied with it. A range outside of the file is refused, and nothing is written. -/
theorem copy_range_exact_iff (huniform : archive.IsUniform boundary n) (fromIdx : Nat)
    (cnt : Option Nat) (align : Alignment) (check : SeparatorCheck) (output : Sink) :
    (∀ output', copyRangeWith zeek archive.file output fromIdx cnt boundary.find align check =
        (.ok (), output') →
      (CopiesExactly archive boundary.find n fromIdx cnt align output output' ↔
        ¬ StopsBeforeRemainder archive boundary.find n fromIdx cnt)) ∧
      (RangeOutside archive boundary n fromIdx cnt →
        ∃ e, copyRangeWith zeek archive.file output fromIdx cnt boundary.find align check =
          (.error e, output)) := by
  constructor
  · intro output' hok
    obtain ⟨k, j, hchecks, hwritten⟩ := copyRangeWith_ok hok
    obtain ⟨-, hkj, hj, hends⟩ := copyRange_frames huniform hchecks
    have hbytes : output'.written = output.written ++ (archive.range k j).file.bytes :=
      hwritten hkj
    rw [← range_holds_iff huniform hchecks]
    constructor
    · rintro ⟨copy, hcopy, hholds, -⟩
      have hcontents : copy.contents = (archive.range k j).contents :=
        Archive.contents_eq_of_bytes (List.append_cancel_left (hcopy.symm.trans hbytes))
      have hdata : copy.data = (archive.range k j).data := congrArg List.flatten hcontents
      rwa [hdata] at hholds
    · intro hholds
      refine ⟨archive.range k j, hbytes, hholds, fun halign => ?_⟩
      apply range_aligned huniform hj
      intro hlast g hg
      rcases hends with ⟨-, -, -, hlt⟩ | ⟨-, hlastFull, -⟩
      · omega
      · exact hlastFull halign g hg
  · intro houtside
    apply copyRangeWith_refused
    intro k j hchecks
    exact not_outside_of_accepted huniform hchecks houtside

/-- Two of the three records, up to the end of a frame. -/
theorem copy_range_exact_overfullArchive :
    CopiesExactly overfullArchive lineBoundary.find 1 0 (some 2) .required {}
      (copyRangeWith storedZeekstd overfullArchive.file {} 0 (some 2) lineBoundary.find .required
        .firstFrame).2 := by
  have hok : (copyRangeWith storedZeekstd overfullArchive.file {} 0 (some 2) lineBoundary.find
      .required .firstFrame).1 = .ok () := by rfl
  refine ((copy_range_exact_iff overfullArchive_uniform 0 (some 2) .required .firstFrame {}).1 _
    (Prod.ext hok rfl)).mpr ?_
  rintro ⟨c, hc, hend, -⟩
  cases hc
  exact absurd hend (by decide)

/-- The last two of the three records come with what follows them. -/
theorem copy_range_inexact_overfullArchive :
    overfullArchive.IsUniform lineBoundary 1 ∧
      (copyRangeWith storedZeekstd overfullArchive.file {} 1 (some 2) lineBoundary.find .required
        .firstFrame).1 = .ok () ∧
      ¬ CopiesExactly overfullArchive lineBoundary.find 1 1 (some 2) .required {}
        (copyRangeWith storedZeekstd overfullArchive.file {} 1 (some 2) lineBoundary.find .required
          .firstFrame).2 := by
  refine ⟨overfullArchive_uniform, by rfl, ?_⟩
  rintro ⟨copy, hcopy, ⟨-, hexact⟩, -⟩
  have hwritten : (copyRangeWith storedZeekstd overfullArchive.file {} 1 (some 2)
      lineBoundary.find .required .firstFrame).2.written =
        (storedArchive [[98, 10], [99, 10, 100]]).file.bytes := by decide
  have hcontents := Archive.contents_eq_of_bytes (hcopy.symm.trans hwritten)
  rw [Archive.data, hcontents] at hexact
  exact absurd hexact (by decide)

end SeekZstdSep
