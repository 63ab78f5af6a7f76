/-
Module: SeekZstdSep.Proofs.FailedEdits
Purpose: What an edit that fails leaves. Everything that is refused is refused before the cut; what
  can fail behind it leaves a file without a seek table.
Trusted boundary: the library, as `Zeekstd` has it
Main exports: Edit, Edit.run, Edit.FailsLate, failed_edits_keep_iff
-/
import SeekZstdSep.Proofs.Append

namespace SeekZstdSep

open Lib

variable {zeek : Zeekstd} {find : Finder UInt8}

/-! ### What was cut off does not come back -/

/-- A seek table behind frames is not the head of further frames. -/
theorem not_table_prefix {format : FrameFormat} {frames written : List (Stored format)}
    {table : SeekTable} : ¬ bodyOf frames ++ format.serialize table <+: bodyOf written := by
  rintro ⟨more, hmore⟩
  induction frames generalizing written with
  | nil =>
      have hmagic := format.serialize_magic table
      cases written with
      | nil =>
          have hnil := (List.append_eq_nil_iff.mp hmore).1
          rw [show bodyOf ([] : List (Stored format)) = [] from rfl, List.nil_append] at hnil
          rw [hnil] at hmagic
          cases hmagic
      | cons frame written =>
          obtain ⟨hzstd, hlong⟩ := format.magic frame.isFrame
          have hbody : bodyOf (frame :: written) = frame.bytes ++ bodyOf written := by
            simp [bodyOf]
          have hfour : 4 ≤ (format.serialize table).length := by
            have hlen := congrArg List.length hmagic
            rw [List.length_take] at hlen
            have : skippableMagic.length = 4 := rfl
            omega
          have hboth := congrArg (List.take 4) hmore
          rw [show bodyOf ([] : List (Stored format)) = [] from rfl, List.nil_append, hbody,
            List.take_append_of_le_length hfour, List.take_append_of_le_length (by omega), hzstd,
            hmagic] at hboth
          exact absurd hboth (by decide)
  | cons frame frames ih =>
      have hbody : bodyOf (frame :: frames) = frame.bytes ++ bodyOf frames := by simp [bodyOf]
      cases written with
      | nil =>
          obtain ⟨-, hlong⟩ := format.magic frame.isFrame
          have hlen := congrArg List.length hmore
          rw [hbody] at hlen
          simp only [List.length_append, bodyOf, List.map_nil, List.flatten_nil,
            List.length_nil] at hlen
          omega
      | cons other written =>
          have hbody' : bodyOf (other :: written) = other.bytes ++ bodyOf written := by
            simp [bodyOf]
          rw [hbody, hbody', List.append_assoc, List.append_assoc] at hmore
          have hsame := format.frame_unique frame.isFrame other.isFrame hmore
          rw [hsame, ← List.append_assoc (bodyOf frames)] at hmore
          exact ih (List.append_cancel_left hmore)

/-- A file cut where a frame starts, with no more than frames behind the cut, is another. -/
theorem Archive.bytes_ne_of_cut (archive : Archive zeek) (k : Nat) {written : Bytes}
    {frames : List (Stored zeek.toFrameFormat)} (hwritten : written <+: bodyOf frames) :
    ((archive.file.setLen (bodyOf (archive.frames.take k)).length).writeAll written).bytes ≠
      archive.file.bytes := by
  intro hsame
  rw [File.writeAll_bytes, setLen_bytesOf archive.frames rfl k] at hsame
  have hsplit : archive.file.bytes = bodyOf (archive.frames.take k) ++
      (bodyOf (archive.frames.drop k) ++ zeek.serialize (tableOf archive.frames)) := by
    rw [← List.append_assoc, ← bodyOf_append, List.take_append_drop]
    rfl
  rw [hsplit] at hsame
  rw [List.append_cancel_left hsame] at hwritten
  exact not_table_prefix hwritten

/-! ### Truncating -/

/-- A truncation that fails was refused. -/
theorem truncateRecords_error {f : File} {recordLen : Nat} {e : Error}
    (herror : (truncateRecords zeek f recordLen find).1 = .error e) :
    truncateRecords zeek f recordLen find = (.error e, f) := by
  rw [truncateRecords] at herror ⊢
  cases hchecks : truncateChecks zeek f recordLen find with
  | error e' =>
      rw [hchecks] at herror
      cases herror
      rfl
  | ok plan =>
      obtain ⟨table, k⟩ := plan
      have htable : table.length ≤ zeek.maxFrames := by
        rw [truncateChecks] at hchecks
        cases hseek : zeek.fromSeekable f.bytes with
        | error e' =>
            rw [hseek] at hchecks
            cases hchecks
        | ok table' =>
            rw [hseek] at hchecks
            simp only at hchecks
            repeat' split at hchecks
            all_goals cases hchecks
            exact zeek.fromSeekable_length hseek
      have hlog : logFrames zeek [] (table.take k) = .ok ([] ++ table.take k) := by
        apply logFrames_of_le
        rw [List.length_nil, List.length_take]
        omega
      rw [hchecks] at herror
      simp only [hlog] at herror
      cases herror

/-! ### Appending frames -/

/-- The input cannot be read to the end of what is copied, or the seek table has no room. -/
def FramesFailLate (zeek : Zeekstd) (f input : File) (fromIdx : Nat) (cnt : Option Nat)
    (find : Finder UInt8) (check : RangeCheck) : Prop :=
  ∃ table last inTable k j,
    appendFramesChecks zeek f input fromIdx cnt find check = .ok (table, last, inTable, k, j) ∧
      k ≠ j ∧
      ((∃ e, (ioCopy (input.part (inTable.frameStartComp k)
          (inTable.frameEndComp (j - 1)))).1 = .error e) ∨
        zeek.maxFrames < (table.take (last + 1) ++ inTable.range k j).length)

section Frames

variable {f input : File} {fromIdx : Nat} {cnt : Option Nat} {check : RangeCheck} {e : Error}
  {table inTable : SeekTable} {last k j : Nat}

/-- The tables an append of frames goes by are those of the two files. -/
theorem appendFramesChecks_tables
    (hok : appendFramesChecks zeek f input fromIdx cnt find check =
      .ok (table, last, inTable, k, j)) :
    zeek.fromSeekable f.bytes = .ok table ∧ zeek.fromSeekable input.bytes = .ok inTable := by
  rw [appendFramesChecks] at hok
  cases htable : zeek.fromSeekable f.bytes with
  | error e =>
      rw [htable] at hok
      cases hok
  | ok table' =>
      rw [htable] at hok
      cases hinput : zeek.fromSeekable input.bytes with
      | error e =>
          simp only [hinput] at hok
          repeat' split at hok
          all_goals cases hok
      | ok inTable' =>
          simp only [hinput] at hok
          repeat' split at hok
          all_goals cases hok
          all_goals exact ⟨rfl, rfl⟩

/-- What an append of frames does behind its checks. -/
theorem appendFramesWith_late
    (hchecks : appendFramesChecks zeek f input fromIdx cnt find check =
      .ok (table, last, inTable, k, j)) (hkj : k ≠ j) :
    (FramesFailLate zeek f input fromIdx cnt find check →
      ∃ e, appendFramesWith zeek f input fromIdx cnt find check =
        (.error e, (f.setLen (table.frameEndComp last)).writeAll
          (ioCopy (input.part (inTable.frameStartComp k) (inTable.frameEndComp (j - 1)))).2)) ∧
    (¬ FramesFailLate zeek f input fromIdx cnt find check →
      (appendFramesWith zeek f input fromIdx cnt find check).1 = .ok ()) := by
  have htable := zeek.fromSeekable_length (appendFramesChecks_tables hchecks).1
  have hlog : logFrames zeek [] (table.take (last + 1)) = .ok ([] ++ table.take (last + 1)) := by
    apply logFrames_of_le
    rw [List.length_nil, List.length_take]
    omega
  rw [appendFramesWith, hchecks]
  simp only [if_neg hkj, hlog, List.nil_append]
  cases hcopy : (ioCopy (input.part (inTable.frameStartComp k)
      (inTable.frameEndComp (j - 1)))).1 with
  | error e =>
      refine ⟨fun _ => ⟨e, rfl⟩, fun hnot => ?_⟩
      exact absurd ⟨table, last, inTable, k, j, hchecks, hkj, Or.inl ⟨e, hcopy⟩⟩ hnot
  | ok _ =>
      by_cases hroom : zeek.maxFrames < (table.take (last + 1) ++ inTable.range k j).length
      · constructor
        · intro _
          cases hrange : logFrames zeek (table.take (last + 1)) (inTable.range k j) with
          | error e => exact ⟨e, rfl⟩
          | ok out =>
              rcases ((logFrames_eq_ok_iff zeek _ _ _).mp hrange).2 with hnil | hfits
              · rw [hnil, List.append_nil, List.length_take] at hroom
                omega
              · rw [List.length_append] at hroom
                omega
        · intro hnot
          exact absurd ⟨table, last, inTable, k, j, hchecks, hkj, Or.inr hroom⟩ hnot
      · constructor
        · rintro ⟨table', last', inTable', k', j', hchecks', -, hlate⟩
          rw [hchecks] at hchecks'
          cases hchecks'
          rcases hlate with ⟨e, herror⟩ | hlate
          · rw [hcopy] at herror
            cases herror
          · exact absurd hlate hroom
        · intro _
          rw [List.length_append] at hroom
          rw [logFrames_of_le zeek (by omega)]

/-- An append of frames that does not fail late leaves the file where it fails. -/
theorem appendFramesWith_error (hlate : ¬ FramesFailLate zeek f input fromIdx cnt find check)
    (herror : (appendFramesWith zeek f input fromIdx cnt find check).1 = .error e) :
    appendFramesWith zeek f input fromIdx cnt find check = (.error e, f) := by
  cases hchecks : appendFramesChecks zeek f input fromIdx cnt find check with
  | error e' =>
      rw [appendFramesWith, hchecks] at herror ⊢
      cases herror
      rfl
  | ok plan =>
      obtain ⟨table, last, inTable, k, j⟩ := plan
      by_cases hkj : k = j
      · rw [appendFramesWith, hchecks] at herror
        simp only [if_pos hkj] at herror
        cases herror
      · rw [(appendFramesWith_late hchecks hkj).2 hlate] at herror
        cases herror

/-- A copy of a part of a file that starts where a frame does and ends no later than the last one
is the head of frames. -/
theorem Archive.part_prefix (archive : Archive zeek) (k j : Nat) {part : Bytes}
    (hpart : part <+: (archive.file.part ((tableOf archive.frames).frameStartComp k)
      ((tableOf archive.frames).frameEndComp j)).data) :
    part <+: bodyOf (archive.frames.drop k) := by
  apply hpart.trans
  have hsplit : archive.file.bytes = bodyOf (archive.frames.take k) ++
      (bodyOf (archive.frames.drop k) ++ zeek.serialize (tableOf archive.frames)) := by
    rw [← List.append_assoc, ← bodyOf_append, List.take_append_drop]
    rfl
  have hbody := congrArg List.length (bodyOf_append (archive.frames.take k) (archive.frames.drop k))
  rw [List.take_append_drop, List.length_append] at hbody
  have hstop : (bodyOf (archive.frames.take (j + 1))).length ≤ (bodyOf archive.frames).length := by
    have hlen := congrArg List.length
      (bodyOf_append (archive.frames.take (j + 1)) (archive.frames.drop (j + 1)))
    rw [List.take_append_drop, List.length_append] at hlen
    omega
  rw [File.part, frameStartComp_tableOf, frameEndComp_tableOf, hsplit]
  simp only
  rw [List.drop_left' rfl, List.take_append_of_le_length (by omega)]
  exact List.take_prefix _ _

/-- A late failure leaves another file. -/
theorem appendFramesWith_changes {archive source : Archive zeek}
    (hlate : FramesFailLate zeek archive.file source.file fromIdx cnt find check) :
    ∃ e f', appendFramesWith zeek archive.file source.file fromIdx cnt find check = (.error e, f') ∧
      f'.bytes ≠ archive.file.bytes := by
  have hlate' := hlate
  obtain ⟨table, last, inTable, k, j, hchecks, hkj, -⟩ := hlate
  obtain ⟨htable, hinput⟩ := appendFramesChecks_tables hchecks
  rw [archive.fromSeekable] at htable
  rw [source.fromSeekable] at hinput
  cases htable
  cases hinput
  obtain ⟨e, hrun⟩ := (appendFramesWith_late hchecks hkj).1 hlate'
  refine ⟨e, _, hrun, ?_⟩
  rw [frameEndComp_tableOf]
  exact archive.bytes_ne_of_cut (last + 1) (source.part_prefix k (j - 1) (ioCopy_spec _).1)

end Frames

/-! ### Appending records -/

section Records

variable {R : Type} [Read R] {n : Nat} {checksum : Bool} {level : Int} {f f' : File} {e : Error}

theorem appendWritten_error {frames : Nat} {encoder : Encoder zeek} {state : Appended}
    (herror : appendWritten n frames encoder state f = (.error e, f')) :
    f' = f.writeAll (bodyOf encoder.ended) := by
  rw [appendWritten] at herror
  split_ifs at herror
  · cases herror
  · cases herror
    rfl
  · simp only at herror
    split at herror
    · cases herror
      rfl
    · cases herror

/-- Where the groups behind the first fail, no more than frames was written. -/
theorem appendRest_error {cutter : Cutter (Chain R)} {state : Appended}
    (herror : appendRest zeek find n checksum level cutter state f = (.error e, f')) :
    ∃ (frames : List (Stored zeek.toFrameFormat)) (written : Bytes),
      f' = f.writeAll written ∧ written <+: bodyOf frames := by
  rw [appendRest] at herror
  simp only at herror
  split at herror
  · cases herror
    exact ⟨_, _, rfl, zeek.passedOn_prefix _⟩
  · split_ifs at herror
    · exact ⟨_, _, appendWritten_error herror, List.prefix_rfl⟩
    · split at herror
      · cases herror
        exact ⟨_, _, rfl, zeek.passedOn_prefix _⟩
      · exact ⟨_, _, appendWritten_error herror, List.prefix_rfl⟩

theorem appendRewrite_error {target : AppendTarget} {join : Join} {first : FirstGroup zeek R}
    (herror : appendRewrite find target join first level f = (.error e, f')) :
    ∃ (frames : List (Stored zeek.toFrameFormat)) (written : Bytes),
      f' = (f.setLen (cutOf target join)).writeAll written ∧ written <+: bodyOf frames := by
  have hone : first.frame.bytes <+: bodyOf [first.frame] := by simp [bodyOf]
  rw [appendRewrite] at herror
  simp only at herror
  split at herror
  · cases herror
    exact ⟨_, _, rfl, hone⟩
  · split at herror
    · cases herror
      exact ⟨_, _, rfl, hone⟩
    · split at herror
      · next happended =>
          cases herror
          split_ifs at happended
          · obtain ⟨frames, written, rfl, hfront⟩ := appendRest_error happended
            refine ⟨first.frame :: frames, first.frame.bytes ++ written,
              File.writeAll_writeAll _ _ _, ?_⟩
            have hbody : bodyOf (first.frame :: frames) =
                first.frame.bytes ++ bodyOf frames := by
              simp [bodyOf]
            rw [hbody]
            exact (List.prefix_append_right_inj _).mpr hfront
          · cases happended
      · cases herror

omit [Read R] in
/-- A scan for no records never fills a group. -/
theorem scanFuel_zero (find : Finder UInt8) (fuel : Nat) {cutter : Cutter R}
    (hzero : cutter.records = 0) :
    (cutter.scanFuel find fuel).1 = none ∧ (cutter.scanFuel find fuel).2.records = 0 := by
  induction fuel generalizing cutter with
  | zero => exact ⟨rfl, hzero⟩
  | succ fuel ih =>
      rw [Cutter.scanFuel]
      split
      · exact ⟨rfl, hzero⟩
      · rw [if_neg (by simp [hzero])]
        exact ih hzero

theorem gatherFuel_zero {fuel : Nat} {cutter cutter' : Cutter R} {ended : Nat}
    (hzero : cutter.records = 0) :
    cutter.gatherFuel find fuel ≠ .ok (some ended, cutter') := by
  induction fuel generalizing cutter with
  | zero => exact fun h => by cases h
  | succ fuel ih =>
      intro hsome
      rw [Cutter.gatherFuel] at hsome
      obtain ⟨hnone, hrecords⟩ := scanFuel_zero find cutter.stream.unscanned hzero
      split at hsome
      · next hscan =>
          rw [hscan] at hnone
          cases hnone
      · next hscan =>
          rw [hscan] at hrecords
          split at hsome
          · cases hsome
          · cases hsome
          · exact ih (by exact hrecords) hsome

/-- A whole first group is one of records. -/
theorem pos_of_first_whole {join : Join} {data : R} {first : FirstGroup zeek R}
    (hfirst : appendFirst zeek find n join level data = .ok first) (hwhole : first.whole = true) :
    0 < n := by
  apply Nat.pos_of_ne_zero
  rintro rfl
  rw [appendFirst, Cutter.nextGroup] at hfirst
  simp only [Cutter.new, if_true] at hfirst
  split at hfirst
  · cases hfirst
  · next hsome => exact gatherFuel_zero (by rfl) hsome
  · split at hfirst
    · cases hfirst
    · cases hfirst
      cases hwhole

/-- What fails behind the cut: the seek table is full before the first group is in it, or behind a
whole first group the source fails, a group does not make one frame, or the table is full. -/
def BehindCutFails (zeek : Zeekstd) (find : Finder UInt8) (target : AppendTarget) (join : Join)
    (level : Int) (first : FirstGroup zeek R) (d : Bytes) (ending : Except Error Unit) : Prop :=
  zeek.maxFrames ≤ keptFrames target join ∨
    (first.whole = true ∧ ¬ ∃ frames, Writes zeek join.checksum level (keptFrames target join + 1)
      (find.groups target.n (find.after d target.n)) ending frames)

/-- The groups of a stream are written where its first one is and the others are. -/
theorem writes_cons_iff {kept : Nat} {g : Bytes} {gs : List Bytes} {ending : Except Error Unit}
    {frame : Stored zeek.toFrameFormat} (hframe : zeek.encode checksum level g = .ok [frame]) :
    (∃ frames, Writes zeek checksum level kept (g :: gs) ending frames) ↔
      ∃ frames, Writes zeek checksum level (kept + 1) gs ending frames := by
  constructor
  · rintro ⟨frames, hending, hone, hroom⟩
    obtain ⟨_, rest, -, hrest, -⟩ := List.forall₂_cons_left_iff.mp hone
    refine ⟨rest, hending, hrest, ?_⟩
    rw [List.length_cons] at hroom
    omega
  · rintro ⟨frames, hending, hone, hroom⟩
    refine ⟨frame :: frames, hending, List.Forall₂.cons hframe hone, ?_⟩
    rw [List.length_cons]
    omega

theorem appendRewrite_late [LawfulRead R] {target : AppendTarget} {join : Join} {data : R}
    {first : FirstGroup zeek R}
    (hfirst : appendFirst zeek find target.n join level data = .ok first)
    (htail : join.tail ≠ []) (hkept : keptFrames target join ≤ target.table.length)
    (hmost : target.table.length ≤ zeek.maxFrames) (f : File) :
    (BehindCutFails zeek find target join level first (join.tail ++ (ioCopy data).2)
        (ioCopy data).1 →
      ∃ e, (appendRewrite find target join first level f).1 = .error e) ∧
    (¬ BehindCutFails zeek find target join level first (join.tail ++ (ioCopy data).2)
        (ioCopy data).1 →
      ∃ result, (appendRewrite find target join first level f).1 = .ok result) := by
  have hd : join.tail ++ (ioCopy data).2 ≠ [] := List.append_ne_nil_of_left_ne_nil htail _
  cases hwhole : first.whole with
  | true =>
      have hn := pos_of_first_whole hfirst hwhole
      have hof := appendFirst_ok hn hfirst
      have hspec := appendRewrite_spec hn hof hd hkept hmost f
      cases hof with
      | short => cases hwhole
      | @whole frame cutter fills encoded on found =>
          have hcons : (∃ frames, Writes zeek join.checksum level (keptFrames target join)
              (find.groups target.n (join.tail ++ (ioCopy data).2)) (ioCopy data).1 frames) ↔
                ∃ frames, Writes zeek join.checksum level (keptFrames target join + 1)
                  (find.groups target.n (find.after (join.tail ++ (ioCopy data).2) target.n))
                  (ioCopy data).1 frames := by
            rw [Finder.groups_of_le hn fills]
            exact writes_cons_iff encoded
          constructor
          · intro hlate
            have hnot : ¬ ∃ frames, Writes zeek join.checksum level (keptFrames target join)
                (find.groups target.n (join.tail ++ (ioCopy data).2)) (ioCopy data).1 frames := by
              rintro ⟨frames, hwrites⟩
              rcases hlate with hfull | ⟨-, hnone⟩
              · have hroom := hwrites.2.2
                rw [Finder.groups_of_le hn fills, List.length_cons] at hroom
                omega
              · exact hnone (hcons.mp ⟨frames, hwrites⟩)
            obtain ⟨e, more, hfail⟩ := hspec.2 hnot
            exact ⟨e, by rw [hfail]⟩
          · intro hlate
            rw [BehindCutFails, not_or] at hlate
            have hrest := not_and.mp hlate.2 rfl
            obtain ⟨frames, hwrites⟩ := hcons.mpr (not_not.mp hrest)
            exact ⟨_, by rw [hspec.1 frames hwrites]⟩
  | false =>
      have htake : (target.table.take (keptFrames target join)).length =
          keptFrames target join := by
        rw [List.length_take, Nat.min_eq_left hkept]
      have hlog : logFrames zeek [] (target.table.take (keptFrames target join)) =
          .ok ([] ++ target.table.take (keptFrames target join)) := by
        apply logFrames_of_le
        rw [htake, List.length_nil]
        omega
      rw [appendRewrite]
      simp only [hlog, List.nil_append, logFrame, htake, hwhole, BehindCutFails,
        Bool.false_eq_true, false_and, or_false, if_false]
      by_cases hfull : zeek.maxFrames ≤ keptFrames target join
      · rw [if_pos hfull]
        exact ⟨fun _ => ⟨_, rfl⟩, fun hnot => absurd hfull hnot⟩
      · rw [if_neg hfull]
        exact ⟨fun hlate => absurd hlate hfull, fun _ => ⟨_, rfl⟩⟩

end Records

/-- An append fails behind the cut. -/
def RecordsFailLate (zeek : Zeekstd) (f : File) (data : Input) (find : Finder UInt8)
    (separator : Option Bytes) (onMissing : OnMissingSeparator) (level : Int)
    (records : Option Nat) (trust : Bool) (previous : Option AppendResult) : Prop :=
  ∃ target join first head rest,
    appendChecks zeek f data find separator onMissing level records trust previous =
      .ok (target, some (join, first)) ∧
    readHead data = .ok (head, rest) ∧
    BehindCutFails zeek find target join level first (join.tail ++ (ioCopy rest).2) (ioCopy rest).1

section Inner

variable {f : File} {data : Input} {separator : Option Bytes} {onMissing : OnMissingSeparator}
  {level : Int} {records : Option Nat} {trust : Bool} {previous : Option AppendResult}
  {target : AppendTarget} {join : Join} {head : Bytes}

/-- An append that fails was refused, unless it fails late. -/
theorem appendRecordsInner_late :
    (RecordsFailLate zeek f data find separator onMissing level records trust previous →
      ∃ e target join, ∃ (frames : List (Stored zeek.toFrameFormat)) (written : Bytes),
        appendTarget zeek f find records trust previous = .ok target ∧
        appendRecordsInner zeek f data find separator onMissing level records trust previous =
          (.error e, (f.setLen (cutOf target join)).writeAll written) ∧
        written <+: bodyOf frames) ∧
    (¬ RecordsFailLate zeek f data find separator onMissing level records trust previous →
      ∀ e, (appendRecordsInner zeek f data find separator onMissing level records trust
          previous).1 = .error e →
        appendRecordsInner zeek f data find separator onMissing level records trust previous =
          (.error e, f)) := by
  cases hchecks : appendChecks zeek f data find separator onMissing level records trust
      previous with
  | error e' =>
      constructor
      · rintro ⟨target, join, first, head, rest, hok, -⟩
        rw [hchecks] at hok
        cases hok
      · intro _ e herror
        rw [appendRecordsInner, hchecks] at herror ⊢
        cases herror
        rfl
  | ok plan =>
      obtain ⟨target, none | ⟨join, first⟩⟩ := plan
      · constructor
        · rintro ⟨target', join, first, head, rest, hok, -⟩
          rw [hchecks] at hok
          cases hok
        · intro _ e herror
          rw [appendRecordsInner, hchecks] at herror
          cases herror
      · obtain ⟨htarget, head, rest, hhead, hcase⟩ := appendChecks_ok hchecks
        obtain ⟨hne, _, _, heq, hjoin, hfirst⟩ := hcase.resolve_left fun h => by cases h.2
        cases heq
        obtain ⟨hseek, hlast⟩ := appendTarget_table htarget
        have hkept : keptFrames target join ≤ target.table.length := by
          rw [keptFrames]
          split <;> omega
        have hlate := appendRewrite_late hfirst (appendJoin_tail_ne_nil hne hjoin) hkept
          (zeek.fromSeekable_length hseek) f
        constructor
        · rintro ⟨target', join', first', head', rest', hok, hhead', hfails⟩
          rw [hchecks] at hok
          cases hok
          rw [hhead] at hhead'
          cases hhead'
          obtain ⟨e, hfail⟩ := hlate.1 hfails
          obtain ⟨frames, written, hfile, hfront⟩ := appendRewrite_error (Prod.ext hfail rfl)
          refine ⟨e, target, join, frames, written, htarget, ?_, hfront⟩
          rw [appendRecordsInner, hchecks]
          exact Prod.ext hfail hfile
        · intro hnot e herror
          obtain ⟨result, hok⟩ := hlate.2 fun hfails =>
            hnot ⟨target, join, first, head, rest, hchecks, hhead, hfails⟩
          rw [appendRecordsInner, hchecks] at herror
          simp only at herror
          rw [hok] at herror
          cases herror

/-- A late failure leaves another file. -/
theorem appendRecordsInner_changes {archive : Archive zeek}
    (hlate : RecordsFailLate zeek archive.file data find separator onMissing level records trust
      previous) :
    ∃ e f', appendRecordsInner zeek archive.file data find separator onMissing level records trust
        previous = (.error e, f') ∧ f'.bytes ≠ archive.file.bytes := by
  obtain ⟨e, target, join, frames, written, htarget, hrun, hfront⟩ :=
    appendRecordsInner_late.1 hlate
  obtain ⟨htable, -⟩ := appendTarget_table htarget
  rw [archive.fromSeekable] at htable
  have hcut : ∃ k, cutOf target join = (bodyOf (archive.frames.take k)).length := by
    rw [cutOf, ← Except.ok.inj htable]
    split
    · exact ⟨_, frameEndComp_tableOf _ _⟩
    · exact ⟨_, frameStartComp_tableOf _ _⟩
  obtain ⟨k, hk⟩ := hcut
  refine ⟨e, _, hrun, ?_⟩
  rw [hk]
  exact archive.bytes_ne_of_cut k hfront

end Inner

/-! ### Every edit -/

/-- An edit in place, with everything it is given but the file. -/
inductive Edit where
  | truncateRecords (recordLen : Nat) (find : Finder UInt8)
  | appendRecords (data : Input) (separator : Bytes) (onMissing : OnMissingSeparator)
      (level : Int) (records : Option Nat) (options : AppendOptions)
  | appendFrames (input : File) (fromIdx : Nat) (cnt : Option Nat) (find : Finder UInt8)
      (check : RangeCheck)

namespace Edit

/-- Whether the edit fails, and with what, and the file it leaves. -/
def run (zeek : Zeekstd) (f : File) : Edit → Except Error Unit × File
  | truncateRecords recordLen find => SeekZstdSep.truncateRecords zeek f recordLen find
  | appendRecords data separator onMissing level records options =>
      let ran := appendRecordsWithOpts zeek f data separator onMissing level records options
      (ran.1.map fun _ => (), ran.2)
  | appendFrames input fromIdx cnt find check =>
      appendFramesWith zeek f input fromIdx cnt find check

/-- What fails behind the cut. -/
def FailsLate (zeek : Zeekstd) (f : File) : Edit → Prop
  | truncateRecords _ _ => False
  | appendRecords data separator onMissing level records options =>
      match options.finder with
      | none => ∃ h : separator ≠ [],
          RecordsFailLate zeek f data (separatorFinder separator h) (some separator) onMissing
            level records options.trustRecordsPerFrame options.previous
      | some find => onMissing ≠ .insert ∧
          RecordsFailLate zeek f data find none onMissing level records
            options.trustRecordsPerFrame options.previous
  | appendFrames input fromIdx cnt find check =>
      FramesFailLate zeek f input fromIdx cnt find check

/-- A failure leaves the bytes of the file as they were. -/
def KeepsOnFailure (zeek : Zeekstd) (f : File) (edit : Edit) : Prop :=
  ∀ e, (edit.run zeek f).1 = .error e → (edit.run zeek f).2.bytes = f.bytes

/-- Frames to append come from a file the library laid out. -/
def ReadsArchive (zeek : Zeekstd) : Edit → Prop
  | truncateRecords _ _ => True
  | appendRecords _ _ _ _ _ _ => True
  | appendFrames input _ _ _ _ => ∃ source : Archive zeek, input = source.file

end Edit

/-- An edit that fails leaves the file as it was, unless it fails behind the cut; and where it
does so on a file the library laid out the bytes are others. -/
theorem failed_edits_keep_iff (zeek : Zeekstd) (edit : Edit) :
    (∀ f, ¬ edit.FailsLate zeek f → edit.KeepsOnFailure zeek f) ∧
      (∀ archive : Archive zeek, edit.ReadsArchive zeek →
        (edit.KeepsOnFailure zeek archive.file ↔ ¬ edit.FailsLate zeek archive.file)) := by
  have hkeeps : ∀ f, ¬ edit.FailsLate zeek f → edit.KeepsOnFailure zeek f := by
    intro f hnot e herror
    cases edit with
    | truncateRecords recordLen find =>
        rw [Edit.run, truncateRecords_error herror]
    | appendRecords data separator onMissing level records options =>
        have hmap : (appendRecordsWithOpts zeek f data separator onMissing level records
            options).1 = .error e := by
          rw [Edit.run] at herror
          cases hrun : (appendRecordsWithOpts zeek f data separator onMissing level records
              options).1 with
          | error e' =>
              simp only [hrun, Except.map, Except.error.injEq] at herror
              rw [herror]
          | ok result =>
              simp only [hrun, Except.map] at herror
              cases herror
        show (appendRecordsWithOpts zeek f data separator onMissing level records
          options).2.bytes = f.bytes
        rw [Edit.FailsLate] at hnot
        rw [appendRecordsWithOpts] at hmap ⊢
        cases hfinder : options.finder with
        | none =>
            simp only [hfinder] at hnot hmap ⊢
            by_cases hempty : separator = []
            · rw [dif_pos hempty]
            · rw [dif_neg hempty] at hmap ⊢
              rw [appendRecordsInner_late.2 (fun hlate => hnot ⟨hempty, hlate⟩) e hmap]
        | some find =>
            simp only [hfinder] at hnot hmap ⊢
            by_cases hinsert : onMissing = .insert
            · rw [if_pos hinsert]
            · rw [if_neg hinsert] at hmap ⊢
              rw [appendRecordsInner_late.2 (fun hlate => hnot ⟨hinsert, hlate⟩) e hmap]
    | appendFrames input fromIdx cnt find check =>
        rw [Edit.run, appendFramesWith_error hnot herror]
  refine ⟨hkeeps, fun archive hreads => ⟨fun hkeep hlate => ?_, hkeeps archive.file⟩⟩
  cases edit with
  | truncateRecords recordLen find => exact hlate
  | appendRecords data separator onMissing level records options =>
      rw [Edit.FailsLate] at hlate
      rw [Edit.KeepsOnFailure, Edit.run, appendRecordsWithOpts] at hkeep
      cases hfinder : options.finder with
      | none =>
          simp only [hfinder] at hlate hkeep
          obtain ⟨hne, hlate⟩ := hlate
          obtain ⟨e, f', hrun, hchanged⟩ := appendRecordsInner_changes hlate
          rw [dif_neg hne, hrun] at hkeep
          exact hchanged (hkeep e rfl)
      | some find =>
          simp only [hfinder] at hlate hkeep
          obtain ⟨hrefuse, hlate⟩ := hlate
          obtain ⟨e, f', hrun, hchanged⟩ := appendRecordsInner_changes hlate
          rw [if_neg hrefuse, hrun] at hkeep
          exact hchanged (hkeep e rfl)
  | appendFrames input fromIdx cnt find check =>
      obtain ⟨source, rfl⟩ := hreads
      obtain ⟨e, f', hrun, hchanged⟩ := appendFramesWith_changes hlate
      rw [Edit.KeepsOnFailure, Edit.run, hrun] at hkeep
      exact hchanged (hkeep e rfl)

/-- A file of two full frames of one record. -/
def twoRecords : Archive storedZeekstd := storedArchive [[97, 10], [98, 10]]

/-- Two records to append, from a source that hands out a byte at a time and fails behind them. -/
def breakingAppend : Edit :=
  .appendRecords
    { data := [100, 10, 101, 10], schedule := fun tick => if tick < 4 then some 0 else none }
    [10] .refuse 3 (some 1) {}

/-- The append fails, and the file it leaves has no seek table. -/
theorem failed_edit_changes_twoRecords :
    (breakingAppend.run storedZeekstd twoRecords.file).1 = .error (.external "read failed") ∧
      ¬ breakingAppend.KeepsOnFailure storedZeekstd twoRecords.file := by
  have hrun : (breakingAppend.run storedZeekstd twoRecords.file).1 =
      .error (.external "read failed") := by rfl
  refine ⟨hrun, fun hkeep => ?_⟩
  have hbytes := congrArg List.length (hkeep _ hrun)
  revert hbytes
  decide +kernel

end SeekZstdSep
