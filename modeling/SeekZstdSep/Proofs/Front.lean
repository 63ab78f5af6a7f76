/-
Module: SeekZstdSep.Proofs.Front
Purpose: What every edit leaves of its target in front of its cut, however it ends, and the seek
  table it leaves where it ends well.
Trusted boundary: the library, as `Zeekstd` has it, and of a target that fails what `Leaves` says
Main exports: Edit.changes, Edit.Ends, Edit.kept, Edit.Adds, edits_keep_front
-/
import SeekZstdSep.Core.Changes
import SeekZstdSep.Core.StoredFrames
import SeekZstdSep.Proofs.CopyRange
import SeekZstdSep.Proofs.FailedEdits

namespace SeekZstdSep

open Lib

/-! ### Changes to a file -/

@[simp] theorem File.changes_nil (f : File) : f.changes [] = f := rfl

@[simp] theorem File.changes_cons (f : File) (change : Change) (changes : List Change) :
    f.changes (change :: changes) = (f.change change).changes changes := rfl

theorem File.changes_append (f : File) (changes more : List Change) :
    f.changes (changes ++ more) = (f.changes changes).changes more :=
  List.foldl_append

/-- What is left where the target does not fail. -/
theorem leaves_changes (f : File) (changes : List Change) :
    Leaves f changes (f.changes changes) := by
  induction changes generalizing f with
  | nil => exact .stopped f []
  | cons change changes ih => exact .made (ih _)

/-- A change that only adds bytes. -/
def Change.IsWrite : Change → Prop
  | .cutAt _ => False
  | .writeAll _ => True

/-- Writes leave what is in front of them. -/
theorem Leaves.front {f f' : File} {changes : List Change} (h : Leaves f changes f')
    (hwrites : ∀ change ∈ changes, change.IsWrite) : f.bytes <+: f'.bytes := by
  induction h with
  | stopped f changes => exact List.prefix_rfl
  | partly f changes head => exact List.prefix_append _ _
  | @made f f' change changes rest ih =>
      have hfirst : f.bytes <+: (f.change change).bytes := by
        have hwrite := hwrites change List.mem_cons_self
        cases change with
        | cutAt cut => exact hwrite.elim
        | writeAll data => exact List.prefix_append _ _
      apply hfirst.trans
      exact ih fun change hin => hwrites change (List.mem_cons_of_mem _ hin)

/-- A cut with writes behind it is not made, or all it leaves stays. -/
theorem Leaves.behind_cut {f f' : File} {cut : Nat} {changes : List Change}
    (h : Leaves f (.cutAt cut :: changes) f') (hwrites : ∀ change ∈ changes, change.IsWrite) :
    f' = f ∨ (f.setLen cut).bytes <+: f'.bytes := by
  cases h with
  | stopped => exact Or.inl rfl
  | made rest => exact Or.inr (rest.front hwrites)

theorem File.take_prefix_setLen (f : File) (cut : Nat) :
    f.bytes.take cut <+: (f.setLen cut).bytes :=
  List.prefix_append _ _

/-! ### The edits make their changes -/

variable {zeek : Zeekstd} {find : Finder UInt8} {f : File}

theorem truncateRecords_changes (recordLen : Nat) :
    (truncateRecords zeek f recordLen find).2 =
      f.changes (truncateChanges zeek f recordLen find) := by
  rw [truncateRecords, truncateChanges]
  cases truncateChecks zeek f recordLen find with
  | error e => rfl
  | ok plan =>
      obtain ⟨table, k⟩ := plan
      simp only
      cases logFrames zeek [] (table.take k) with
      | error e => rfl
      | ok out => rfl

theorem appendFramesWith_makes {input : File} (fromIdx : Nat) (cnt : Option Nat)
    (check : RangeCheck) :
    (appendFramesWith zeek f input fromIdx cnt find check).2 =
      f.changes (appendFramesChanges zeek f input fromIdx cnt find check) := by
  rw [appendFramesWith, appendFramesChanges]
  cases appendFramesChecks zeek f input fromIdx cnt find check with
  | error e => rfl
  | ok plan =>
      obtain ⟨table, last, inTable, k, j⟩ := plan
      simp only
      split_ifs
      · rfl
      · cases (ioCopy (input.part (inTable.frameStartComp k)
          (inTable.frameEndComp (j - 1)))).1 with
        | error e => rfl
        | ok _ =>
            cases logFrames zeek [] (table.take (last + 1)) with
            | error e => rfl
            | ok out =>
                simp only
                cases logFrames zeek out (inTable.range k j) with
                | error e => rfl
                | ok out => rfl

section Records

variable {R : Type} [Read R] {n : Nat} {checksum : Bool} {level : Int}

theorem appendWritten_makes (frames : Nat) (encoder : Encoder zeek) (state : Appended) :
    (appendWritten n frames encoder state f).2 = f.changes (writtenChanges frames encoder) := by
  rw [appendWritten, writtenChanges]
  split_ifs
  · rfl
  · rfl
  · simp only
    cases logFrames zeek state.out (tableOf encoder.ended) with
    | error e => rfl
    | ok out => rfl

theorem appendRest_makes (cutter : Cutter (Chain R)) (state : Appended) :
    (appendRest zeek find n checksum level cutter state f).2 =
      f.changes (restChanges zeek find checksum level cutter) := by
  rw [appendRest, restChanges]
  simp only
  generalize appendGroupsFuel find _ _ 0 cutter = ran
  obtain ⟨e | ⟨frames, cutter⟩, encoder⟩ := ran
  · rfl
  · simp only
    split_ifs
    · exact appendWritten_makes _ _ _
    · cases (encoder.write cutter.takeRemainder.1).endFrame with
      | error e => rfl
      | ok encoder => exact appendWritten_makes _ _ _

theorem appendRewrite_makes (target : AppendTarget) (join : Join) (first : FirstGroup zeek R) :
    (appendRewrite find target join first level f).2 =
      f.changes (rewriteChanges find target join first level f) := by
  rw [appendRewrite, rewriteChanges]
  simp only
  cases logFrames zeek [] (target.table.take (keptFrames target join)) with
  | error e => rfl
  | ok out =>
      simp only
      cases logFrame zeek out first.frame.entry with
      | error e => rfl
      | ok out =>
          simp only [File.changes_cons, File.changes_append, File.change]
          cases hwhole : first.whole with
          | false => rfl
          | true =>
              simp only [if_true]
              have hrest : (appendRest zeek find target.n join.checksum level first.cutter
                  { out := out, lastRecords := first.lastRecords, lastWhole := first.lastWhole }
                  ((f.setLen (cutOf target join)).writeAll first.frame.bytes)).2 = _ :=
                appendRest_makes first.cutter _
              rw [← hrest]
              split
              · next happended => rw [happended]; rfl
              · next happended => rw [happended]; rfl

theorem appendRecordsInner_makes (data : R) (separator : Option Bytes)
    (onMissing : OnMissingSeparator) (records : Option Nat) (trust : Bool)
    (previous : Option AppendResult) :
    (appendRecordsInner zeek f data find separator onMissing level records trust previous).2 =
      f.changes (appendInnerChanges zeek f data find separator onMissing level records trust
        previous) := by
  rw [appendRecordsInner, appendInnerChanges]
  cases appendChecks zeek f data find separator onMissing level records trust previous with
  | error e => rfl
  | ok plan =>
      obtain ⟨target, none | ⟨join, first⟩⟩ := plan
      · rfl
      · exact appendRewrite_makes target join first

end Records

/-! ### Where they cut -/

/-- What an edit does that may keep the first frames of the target: it makes no change, or cuts
where they end and writes behind that; where it returns, what `adds` says and the seek table. -/
def Rewrites {α : Type} (zeek : Zeekstd) (f : File) (adds : Bytes → SeekTable → Prop)
    (kept : Option (SeekTable × Nat)) (changes : List Change) (ran : Except Error α × File) :
    Prop :=
  match kept with
  | none => changes = []
  | some (table, k) =>
      zeek.fromSeekable f.bytes = .ok table ∧ k ≤ table.length ∧
        (∃ writes, changes = .cutAt (table.frameStartComp k) :: writes ∧
          ∀ change ∈ writes, change.IsWrite) ∧
        ∀ result, ran.1 = .ok result → ∃ written entries, adds written entries ∧
          ran.2.bytes = (f.setLen (table.frameStartComp k)).bytes ++
            (written ++ zeek.serialize (table.take k ++ entries))

theorem lastDataFrame_lt {table : SeekTable} {last : Nat} (hok : lastDataFrame table = .ok last) :
    last < table.length := by
  rw [lastDataFrame] at hok
  split_ifs at hok
  cases hok
  have hle := lastDataFrameFrom_le table (table.length - 1)
  omega

theorem logFrames_ok {out entries res : SeekTable} (hok : logFrames zeek out entries = .ok res) :
    res = out ++ entries :=
  ((logFrames_eq_ok_iff zeek _ _ _).mp hok).1

theorem truncateChecks_ok {recordLen k : Nat} {table : SeekTable}
    (hok : truncateChecks zeek f recordLen find = .ok (table, k)) :
    zeek.fromSeekable f.bytes = .ok table ∧ 0 < k ∧ k ≤ table.length := by
  rw [truncateChecks] at hok
  cases hseek : zeek.fromSeekable f.bytes with
  | error e =>
      rw [hseek] at hok
      cases hok
  | ok table' =>
      rw [hseek] at hok
      simp only at hok
      cases hvalidate : validateSeparator find (.new zeek f table') with
      | error e =>
          rw [hvalidate] at hok
          cases hok
      | ok validated =>
          obtain ⟨n, reader⟩ := validated
          have hn := validateSeparator_pos hvalidate
          have hthree : 3 ≤ table'.length := validateSeparator_length hvalidate
          rw [hvalidate] at hok
          simp only at hok
          split at hok
          · cases hok
          · next last _ _ =>
              split_ifs at hok with hzero hpast hinside
              cases hok
              obtain ⟨hwhole, hend⟩ := not_or.mp hinside
              have hdvd := Nat.dvd_of_mod_eq_zero (not_not.mp hwhole)
              refine ⟨rfl, Nat.div_pos (Nat.le_of_dvd (Nat.pos_of_ne_zero hzero) hdvd) hn, ?_⟩
              by_contra hlong
              have hlast : last = n := by
                by_contra hne
                exact hend ⟨Nat.le_of_not_le hlong, hne⟩
              have hmost : recordLen ≤ n * table.length := by
                have : n * (table.length - 1) + n = n * table.length := by
                  rw [← Nat.mul_succ, Nat.succ_eq_add_one, Nat.sub_add_cancel (by omega)]
                omega
              exact hlong (Nat.div_le_of_le_mul hmost)

theorem truncateRecords_rewrites (recordLen : Nat) :
    Rewrites zeek f (fun written entries => written = [] ∧ entries = [])
      (truncateChecks zeek f recordLen find).toOption (truncateChanges zeek f recordLen find)
      (truncateRecords zeek f recordLen find) := by
  rw [truncateRecords, truncateChanges]
  cases hchecks : truncateChecks zeek f recordLen find with
  | error e => rfl
  | ok plan =>
      obtain ⟨table, k⟩ := plan
      obtain ⟨hseek, hpos, hle⟩ := truncateChecks_ok hchecks
      have hcut : table.frameEndComp (k - 1) = table.frameStartComp k := by
        rw [SeekTable.frameEndComp, Nat.sub_add_cancel hpos]
      simp only [hcut]
      refine ⟨hseek, hle, ⟨_, rfl, ?_⟩, ?_⟩
      · cases logFrames zeek [] (table.take k) with
        | error e => simp
        | ok out => simp [Change.IsWrite]
      · intro result hok
        cases hlog : logFrames zeek [] (table.take k) with
        | error e =>
            rw [hlog] at hok
            cases hok
        | ok out =>
            refine ⟨[], [], ⟨rfl, rfl⟩, ?_⟩
            rw [logFrames_ok hlog]
            simp

/-! ### What an append of frames writes -/

section Frames

variable {input : File} {fromIdx : Nat} {cnt : Option Nat} {check : RangeCheck}
  {table inTable : SeekTable} {last k j : Nat}

theorem appendFramesChecks_plan
    (hok : appendFramesChecks zeek f input fromIdx cnt find check =
      .ok (table, last, inTable, k, j)) :
    last < table.length ∧
      ∃ n reader tail, frameRange find reader n fromIdx cnt = .ok (k, j, tail) := by
  rw [appendFramesChecks] at hok
  split at hok
  · cases hok
  split at hok
  · cases hok
  split at hok
  · cases hok
  next hlast =>
    split at hok
    · cases hok
    split_ifs at hok
    split at hok
    · cases hok
    split at hok
    · cases hok
    split_ifs at hok
    split at hok
    · cases hok
    next hrange =>
      split_ifs at hok
      · split at hok
        · cases hok
        · cases hok
          exact ⟨lastDataFrame_lt hlast, _, _, _, hrange⟩
      · cases hok
        exact ⟨lastDataFrame_lt hlast, _, _, _, hrange⟩

theorem frameRange_le {reader : FrameReader} {n : Nat} {tail : Option Nat}
    (hok : frameRange find reader n fromIdx cnt = .ok (k, j, tail)) : k ≤ j := by
  rw [frameRange] at hok
  split at hok
  · cases hok
  · split_ifs at hok with hmod hpast
    simp only at hok
    split at hok
    · next ended hended =>
        cases hok
        apply Nat.div_le_div_right
        obtain ⟨c, -, hsum⟩ := Option.bind_eq_some_iff.mp (Option.filter_eq_some_iff.mp hended).1
        split_ifs at hsum
        cases hsum
        exact Nat.le_add_right _ _
    · split at hok
      · cases hok
      · split at hok
        · cases hok
        · cases hok
          omega

/-- An append of frames adds what the input holds between two offsets of its seek table, and the
entries that has there. -/
def FramesAdded (zeek : Zeekstd) (f input : File) (fromIdx : Nat) (cnt : Option Nat)
    (find : Finder UInt8) (check : RangeCheck) (written : Bytes) (entries : SeekTable) : Prop :=
  ∃ table last inTable k j,
    appendFramesChecks zeek f input fromIdx cnt find check = .ok (table, last, inTable, k, j) ∧
      k < j ∧
      written =
        (input.part (inTable.frameStartComp k) (inTable.frameEndComp (j - 1))).data ∧
      entries = inTable.range k j

/-- The frames of the target an append of frames keeps. -/
def framesKept (zeek : Zeekstd) (f input : File) (fromIdx : Nat) (cnt : Option Nat)
    (find : Finder UInt8) (check : RangeCheck) : Option (SeekTable × Nat) :=
  match appendFramesChecks zeek f input fromIdx cnt find check with
  | .error _ => none
  | .ok (table, last, _, k, j) => if k = j then none else some (table, last + 1)

theorem appendFramesWith_rewrites :
    Rewrites zeek f (FramesAdded zeek f input fromIdx cnt find check)
      (framesKept zeek f input fromIdx cnt find check)
      (appendFramesChanges zeek f input fromIdx cnt find check)
      (appendFramesWith zeek f input fromIdx cnt find check) := by
  rw [framesKept, appendFramesChanges, appendFramesWith]
  cases hchecks : appendFramesChecks zeek f input fromIdx cnt find check with
  | error e => rfl
  | ok plan =>
      obtain ⟨table, last, inTable, k, j⟩ := plan
      obtain ⟨hlast, n, reader, tail, hrange⟩ := appendFramesChecks_plan hchecks
      have hkj := frameRange_le hrange
      simp only
      by_cases hsame : k = j
      · rw [if_pos hsame, if_pos hsame]
        rfl
      · rw [if_neg hsame, if_neg hsame, if_neg hsame]
        obtain ⟨-, hall, -⟩ := ioCopy_spec (input.part (inTable.frameStartComp k)
          (inTable.frameEndComp (j - 1)))
        generalize hcopied : ioCopy (input.part (inTable.frameStartComp k)
          (inTable.frameEndComp (j - 1))) = copied at hall
        obtain ⟨copiedWell, bytes⟩ := copied
        refine ⟨(appendFramesChecks_tables hchecks).1, hlast, ⟨_, rfl, ?_⟩, ?_⟩
        · simp only [List.mem_cons, forall_eq_or_imp]
          refine ⟨trivial, ?_⟩
          repeat' split
          all_goals simp [Change.IsWrite]
        · intro result hok
          cases copiedWell with
          | error e => cases hok
          | ok _ =>
              simp only at hok ⊢
              cases hkeep : logFrames zeek [] (table.take (last + 1)) with
              | error e =>
                  rw [hkeep] at hok
                  cases hok
              | ok out =>
                  rw [hkeep] at hok
                  simp only at hok ⊢
                  cases hlog : logFrames zeek out (inTable.range k j) with
                  | error e =>
                      rw [hlog] at hok
                      cases hok
                  | ok all =>
                      refine ⟨bytes, inTable.range k j, ⟨table, last, inTable, k, j, hchecks,
                        Nat.lt_of_le_of_ne hkj hsame, hall rfl, rfl⟩, ?_⟩
                      rw [logFrames_ok hlog, logFrames_ok hkeep]
                      simp [SeekTable.frameEndComp]

end Frames

/-! ### What an append of records writes -/

/-- An append of records adds frames, and of each in the seek table what it takes and what it
holds. -/
def RecordsAdded (zeek : Zeekstd) (written : Bytes) (entries : SeekTable) : Prop :=
  ∃ frames : List (Stored zeek.toFrameFormat), frames ≠ [] ∧ written = bodyOf frames ∧
    entries = tableOf frames

section AppendRecords

variable {R : Type} [Read R] {n : Nat} {checksum : Bool} {level : Int}

theorem appendWritten_ok {frames : Nat} {encoder : Encoder zeek} {state state' : Appended}
    {f' : File} (hok : appendWritten n frames encoder state f = (.ok state', f')) :
    ∃ made : List (Stored zeek.toFrameFormat),
      f' = f.writeAll (bodyOf made) ∧ state'.out = state.out ++ tableOf made := by
  rw [appendWritten] at hok
  split_ifs at hok
  · cases hok
    refine ⟨[], ?_, by simp [tableOf]⟩
    simp [bodyOf, File.writeAll]
  · cases hok
  · simp only at hok
    split at hok
    · cases hok
    · next hlog =>
        cases hok
        exact ⟨encoder.ended, rfl, logFrames_ok hlog⟩

theorem appendRest_ok {cutter : Cutter (Chain R)} {state state' : Appended} {f' : File}
    (hok : appendRest zeek find n checksum level cutter state f = (.ok state', f')) :
    ∃ made : List (Stored zeek.toFrameFormat),
      f' = f.writeAll (bodyOf made) ∧ state'.out = state.out ++ tableOf made := by
  rw [appendRest] at hok
  simp only at hok
  split at hok
  · cases hok
  · split_ifs at hok
    · exact appendWritten_ok hok
    · split at hok
      · cases hok
      · obtain ⟨made, hfile, hout⟩ := appendWritten_ok hok
        exact ⟨made, hfile, hout⟩

theorem appendRewrite_adds {target : AppendTarget} {join : Join} {first : FirstGroup zeek R}
    {result : AppendResult} {f' : File}
    (hok : appendRewrite find target join first level f = (.ok result, f')) :
    ∃ frames : List (Stored zeek.toFrameFormat), frames ≠ [] ∧
      f' = ((f.setLen (cutOf target join)).writeAll (bodyOf frames)).writeAll
        (zeek.serialize (target.table.take (keptFrames target join) ++ tableOf frames)) := by
  have hbody : ∀ made : List (Stored zeek.toFrameFormat),
      bodyOf (first.frame :: made) = first.frame.bytes ++ bodyOf made := by
    intro made
    simp [bodyOf]
  have htable : ∀ made : List (Stored zeek.toFrameFormat),
      tableOf (first.frame :: made) = [first.frame.entry] ++ tableOf made := fun _ => rfl
  rw [appendRewrite] at hok
  simp only at hok
  split at hok
  · cases hok
  next out hkeep =>
    split at hok
    · cases hok
    next out' hone =>
      have hout : out' = target.table.take (keptFrames target join) ++ [first.frame.entry] := by
        rw [logFrame] at hone
        split_ifs at hone
        cases hone
        rw [logFrames_ok hkeep, List.nil_append]
      split at hok
      · cases hok
      next state' f'' happended =>
        cases hok
        cases hwhole : first.whole with
        | false =>
            rw [hwhole] at happended
            cases happended
            refine ⟨[first.frame], List.cons_ne_nil _ _, ?_⟩
            rw [hbody, htable, hout]
            simp [bodyOf, tableOf]
        | true =>
            rw [hwhole] at happended
            obtain ⟨made, rfl, hmade⟩ := appendRest_ok happended
            refine ⟨first.frame :: made, List.cons_ne_nil _ _, ?_⟩
            rw [hbody, htable, hmade, hout, List.append_assoc]
            simp

theorem rewriteChanges_writes (target : AppendTarget) (join : Join) (first : FirstGroup zeek R) :
    ∃ writes, rewriteChanges find target join first level f = .cutAt (cutOf target join) :: writes ∧
      ∀ change ∈ writes, change.IsWrite := by
  have hwritten : ∀ frames (encoder : Encoder zeek),
      ∀ change ∈ writtenChanges frames encoder, change.IsWrite := by
    intro frames encoder
    rw [writtenChanges]
    split_ifs <;> simp [Change.IsWrite]
  have hrest : ∀ cutter : Cutter (Chain R),
      ∀ change ∈ restChanges zeek find join.checksum level cutter, change.IsWrite := by
    intro cutter
    rw [restChanges]
    simp only
    split
    · simp [Change.IsWrite]
    · split_ifs
      · exact hwritten _ _
      · split
        · simp [Change.IsWrite]
        · exact hwritten _ _
  refine ⟨_, rfl, ?_⟩
  intro change hin
  rcases List.mem_cons.mp hin with rfl | hin
  · trivial
  split at hin
  · cases hin
  split at hin
  · cases hin
  simp only at hin
  rcases List.mem_append.mp hin with hin | hin
  · split_ifs at hin
    · exact hrest _ change hin
    · cases hin
  · split at hin
    · cases hin
    · rw [List.mem_singleton.mp hin]
      trivial

/-- The frames of the target an append keeps, where there is something to append. -/
def recordsKept (zeek : Zeekstd) (f : File) (data : R) (find : Finder UInt8)
    (separator : Option Bytes) (onMissing : OnMissingSeparator) (level : Int)
    (records : Option Nat) (trust : Bool) (previous : Option AppendResult) :
    Option (SeekTable × Nat) :=
  match appendChecks zeek f data find separator onMissing level records trust previous with
  | .ok (target, some (join, _)) => some (target.table, keptFrames target join)
  | _ => none

theorem appendRecordsInner_rewrites (data : R) (separator : Option Bytes)
    (onMissing : OnMissingSeparator) (records : Option Nat) (trust : Bool)
    (previous : Option AppendResult) :
    Rewrites zeek f (RecordsAdded zeek)
      (recordsKept zeek f data find separator onMissing level records trust previous)
      (appendInnerChanges zeek f data find separator onMissing level records trust previous)
      (appendRecordsInner zeek f data find separator onMissing level records trust previous) := by
  rw [recordsKept, appendInnerChanges, appendRecordsInner]
  cases hchecks : appendChecks zeek f data find separator onMissing level records trust
      previous with
  | error e => rfl
  | ok plan =>
      obtain ⟨target, none | ⟨join, first⟩⟩ := plan
      · rfl
      · obtain ⟨hseek, hlast⟩ := appendTarget_table (appendChecks_ok hchecks).1
        have hcut : cutOf target join = target.table.frameStartComp (keptFrames target join) := by
          rw [cutOf, keptFrames]
          split <;> rfl
        have hkept : keptFrames target join ≤ target.table.length := by
          rw [keptFrames]
          split <;> omega
        obtain ⟨writes, hwrites, honly⟩ :=
          @rewriteChanges_writes _ find f _ _ level target join first
        rw [hcut] at hwrites
        refine ⟨hseek, hkept, ⟨writes, hwrites, honly⟩, ?_⟩
        intro result hok
        obtain ⟨frames, hne, hfile⟩ := appendRewrite_adds (Prod.ext hok rfl)
        refine ⟨bodyOf frames, tableOf frames, ⟨frames, hne, rfl, rfl⟩, ?_⟩
        rw [hcut] at hfile
        apply (congrArg File.bytes hfile).trans
        simp

end AppendRecords

/-! ### Every edit -/

theorem Rewrites.map {α β : Type} {adds : Bytes → SeekTable → Prop}
    {kept : Option (SeekTable × Nat)} {changes : List Change} {ran : Except Error α × File}
    (g : α → β) (h : Rewrites zeek f adds kept changes ran) :
    Rewrites zeek f adds kept changes (ran.1.map g, ran.2) := by
  rcases kept with _ | ⟨table, k⟩
  · exact h
  · obtain ⟨hseek, hle, hwrites, hadds⟩ := h
    refine ⟨hseek, hle, hwrites, ?_⟩
    intro result hok
    cases hran : ran.1 with
    | error e =>
        rw [hran] at hok
        cases hok
    | ok before => exact hadds before hran

namespace Edit

/-- What an edit does to its target, as long as that does not fail. -/
def changes (zeek : Zeekstd) (f : File) : Edit → List Change
  | truncateRecords recordLen find => truncateChanges zeek f recordLen find
  | appendRecords data separator onMissing level records options =>
      appendRecordsChanges zeek f data separator onMissing level records options
  | appendFrames input fromIdx cnt find check =>
      appendFramesChanges zeek f input fromIdx cnt find check

/-- How an edit can end, and what it leaves: as it runs on a target that does not fail, or with
an error of the target. -/
inductive Ends (zeek : Zeekstd) (f : File) (edit : Edit) : Except Error Unit → File → Prop where
  | ran : Ends zeek f edit (edit.run zeek f).1 (edit.run zeek f).2
  | targetFailed (e : Error) {f' : File} (left : Leaves f (edit.changes zeek f) f') :
      Ends zeek f edit (.error e) f'

/-- The seek table of the target and how many of its frames the edit keeps, where it comes to
cut: the frame behind those is the first it drops or writes anew. -/
def kept (zeek : Zeekstd) (f : File) : Edit → Option (SeekTable × Nat)
  | truncateRecords recordLen find => (truncateChecks zeek f recordLen find).toOption
  | appendRecords data separator onMissing level records options =>
      match options.finder with
      | none =>
          if h : separator = [] then none
          else
            recordsKept zeek f data (separatorFinder separator h) (some separator) onMissing level
              records options.trustRecordsPerFrame options.previous
      | some find =>
          if onMissing = .insert then none
          else
            recordsKept zeek f data find none onMissing level records
              options.trustRecordsPerFrame options.previous
  | appendFrames input fromIdx cnt find check =>
      framesKept zeek f input fromIdx cnt find check

/-- What stands behind the frames an edit keeps where it returns, and what the seek table says of
it. -/
def Adds (zeek : Zeekstd) (f : File) : Edit → Bytes → SeekTable → Prop
  | truncateRecords _ _ => fun written entries => written = [] ∧ entries = []
  | appendRecords _ _ _ _ _ _ => RecordsAdded zeek
  | appendFrames input fromIdx cnt find check => FramesAdded zeek f input fromIdx cnt find check

theorem rewrites (edit : Edit) :
    Rewrites zeek f (edit.Adds zeek f) (edit.kept zeek f) (edit.changes zeek f)
      (edit.run zeek f) := by
  cases edit with
  | truncateRecords recordLen find => exact truncateRecords_rewrites recordLen
  | appendFrames input fromIdx cnt find check => exact appendFramesWith_rewrites
  | appendRecords data separator onMissing level records options =>
      apply Rewrites.map
      rw [kept, changes, appendRecordsChanges, appendRecordsWithOpts]
      cases options.finder with
      | none =>
          simp only
          split_ifs
          · rfl
          · exact appendRecordsInner_rewrites _ _ _ _ _ _
      | some find =>
          simp only
          split_ifs
          · rfl
          · exact appendRecordsInner_rewrites _ _ _ _ _ _

/-- What an edit leaves is what its changes come to. -/
theorem makes (edit : Edit) : (edit.run zeek f).2 = f.changes (edit.changes zeek f) := by
  cases edit with
  | truncateRecords recordLen find => exact truncateRecords_changes recordLen
  | appendFrames input fromIdx cnt find check => exact appendFramesWith_makes fromIdx cnt check
  | appendRecords data separator onMissing level records options =>
      rw [run, changes, appendRecordsChanges, appendRecordsWithOpts]
      cases options.finder with
      | none =>
          simp only
          split_ifs
          · rfl
          · exact appendRecordsInner_makes _ _ _ _ _ _
      | some find =>
          simp only
          split_ifs
          · rfl
          · exact appendRecordsInner_makes _ _ _ _ _ _

theorem Ends.left {edit : Edit} {outcome : Except Error Unit} {f' : File}
    (h : edit.Ends zeek f outcome f') : Leaves f (edit.changes zeek f) f' := by
  cases h with
  | ran =>
      rw [edit.makes]
      exact leaves_changes f _
  | targetFailed e left => exact left

/-- An edit that takes its frames from a file the library laid out adds frames, and of each in
the seek table what it takes and what it holds. -/
theorem Adds.frames {edit : Edit} {written : Bytes} {entries : SeekTable}
    (h : edit.Adds zeek f written entries) (hreads : edit.ReadsArchive zeek) :
    ∃ frames : List (Stored zeek.toFrameFormat), written = bodyOf frames ∧
      entries = tableOf frames := by
  cases edit with
  | truncateRecords recordLen find => exact ⟨[], h.1, h.2⟩
  | appendRecords data separator onMissing level records options =>
      obtain ⟨frames, -, hbody, htable⟩ := h
      exact ⟨frames, hbody, htable⟩
  | appendFrames input fromIdx cnt find check =>
      obtain ⟨source, rfl⟩ := hreads
      obtain ⟨table, last, inTable, k, j, hchecks, hkj, rfl, rfl⟩ := h
      have hinput := (appendFramesChecks_tables hchecks).2
      rw [source.fromSeekable] at hinput
      cases hinput
      refine ⟨(source.frames.drop k).take (j - k), source.part_frames hkj, ?_⟩
      exact tableOf_range source.frames k j

/-- In every run that ends well the seek table has, behind the entries of the frames that stay,
what each frame behind them takes and what it holds. -/
def ListsTrueSizes (zeek : Zeekstd) (f : File) (edit : Edit) : Prop :=
  ∀ table k, edit.kept zeek f = some (table, k) → (edit.run zeek f).1 = .ok () →
    ∃ frames : List (Stored zeek.toFrameFormat),
      (edit.run zeek f).2.bytes = (f.setLen (table.frameStartComp k)).bytes ++
        (bodyOf frames ++ zeek.serialize (table.take k ++ tableOf frames))

end Edit

/-- However an edit ends, what stands in front of the first frame it drops or writes anew stays
as it was. Where it returns, its seek table has the entries of the frames that stay and then
those of what it added, which are true of the frames added unless they were copied from a file
whose own seek table is not. -/
theorem edits_keep_front (zeek : Zeekstd) (edit : Edit) (f f' : File)
    (outcome : Except Error Unit) (hends : edit.Ends zeek f outcome f') :
    (edit.kept zeek f = none → f' = f) ∧
      ∀ table k, edit.kept zeek f = some (table, k) →
        zeek.fromSeekable f.bytes = .ok table ∧ k ≤ table.length ∧
          (f' = f ∨ (f.setLen (table.frameStartComp k)).bytes <+: f'.bytes) ∧
          f.bytes.take (table.frameStartComp k) <+: f'.bytes ∧
          (outcome = .ok () → ∃ written entries, edit.Adds zeek f written entries ∧
            f'.bytes = (f.setLen (table.frameStartComp k)).bytes ++
              (written ++ zeek.serialize (table.take k ++ entries)) ∧
            (edit.ReadsArchive zeek → ∃ frames : List (Stored zeek.toFrameFormat),
              written = bodyOf frames ∧ entries = tableOf frames)) := by
  have hrewrites := @Edit.rewrites zeek f edit
  have hleft := hends.left
  constructor
  · intro hnone
    rw [hnone] at hrewrites
    rw [Rewrites] at hrewrites
    rw [hrewrites] at hleft
    cases hleft
    rfl
  · intro table k hkept
    rw [hkept] at hrewrites
    obtain ⟨hseek, hle, ⟨writes, hchanges, honly⟩, hadds⟩ := hrewrites
    rw [hchanges] at hleft
    have hfront := hleft.behind_cut honly
    refine ⟨hseek, hle, hfront, ?_, ?_⟩
    · rcases hfront with rfl | hfront
      · exact List.take_prefix _ _
      · exact (f.take_prefix_setLen _).trans hfront
    · intro hok
      cases hends with
      | ran =>
          obtain ⟨written, entries, hwritten, hbytes⟩ := hadds () hok
          exact ⟨written, entries, hwritten, hbytes, hwritten.frames⟩
      | targetFailed e left => cases hok

/-- Three frames of one record each. -/
def threeLines : Archive storedZeekstd := storedArchive [[97, 10], [98, 10], [99, 10]]

/-- Cuts them down to the first. -/
def firstLine : Edit := .truncateRecords 1 lineBoundary.find

/-- The target fails three bytes into the seek table; the first frame is still there. -/
theorem edits_keep_front_threeLines :
    threeLines.file.bytes.take 11 <+:
      ((threeLines.file.setLen 11).writeAll [0x5e, 0x2a, 0x4d]).bytes := by
  have hchanges : firstLine.changes storedZeekstd threeLines.file =
      [.cutAt 11, .writeAll (serializeTable [(11, 2)])] := by decide +kernel
  have hleft : Leaves threeLines.file (firstLine.changes storedZeekstd threeLines.file)
      ((threeLines.file.setLen 11).writeAll [0x5e, 0x2a, 0x4d]) := by
    rw [hchanges]
    apply Leaves.made
    apply Leaves.partly
    exact ⟨_, rfl⟩
  have hkept : firstLine.kept storedZeekstd threeLines.file =
      some ([(11, 2), (11, 2), (11, 2)], 1) := by decide +kernel
  obtain ⟨-, hcut⟩ := edits_keep_front storedZeekstd firstLine threeLines.file _ _
    (.targetFailed (.external "no space left on device") hleft)
  obtain ⟨-, -, -, hfront, -⟩ := hcut _ 1 hkept
  exact hfront

/-- The frames of `threeLines`, and a seek table that has five bytes in the second of them. -/
def misreported : File :=
  { threeLines.file with
    bytes := bodyOf threeLines.frames ++ serializeTable [(11, 2), (11, 5), (11, 2)] }

/-- Appends the second of its frames. -/
def misreportedAppend : Edit := .appendFrames misreported 1 (some 1) lineBoundary.find .firstFrame

theorem length_serializeTable (table : SeekTable) :
    (serializeTable table).length = 8 * table.length + 17 := by
  simp only [serializeTable, List.length_append, length_flatMap_serializeEntry, length_le32Bytes]
  simp only [skippableMagic, List.length_cons, List.length_nil]
  omega

/-- The append goes well, and the seek table of the target has the five bytes. -/
theorem misreported_sizes_are_copied :
    (misreportedAppend.run storedZeekstd threeLines.file).1 = .ok () ∧
      ¬ misreportedAppend.ListsTrueSizes storedZeekstd threeLines.file := by
  have hok : (misreportedAppend.run storedZeekstd threeLines.file).1 = .ok () := by
    decide +kernel
  have hkept : misreportedAppend.kept storedZeekstd threeLines.file =
      some (tableOf threeLines.frames, 3) := by decide +kernel
  have hparsed : storedZeekstd.fromSeekable
      (misreportedAppend.run storedZeekstd threeLines.file).2.bytes =
      .ok (tableOf threeLines.frames ++ [(11, 5)]) := by decide +kernel
  have hlength : (misreportedAppend.run storedZeekstd threeLines.file).2.bytes.length = 93 := by
    decide +kernel
  refine ⟨hok, fun hlists => ?_⟩
  obtain ⟨frames, hbytes⟩ := hlists _ 3 hkept hok
  have hcut : (threeLines.file.setLen ((tableOf threeLines.frames).frameStartComp 3)).bytes =
      bodyOf threeLines.frames := by decide +kernel
  -- the file is that of its frames, so the seek table is theirs
  have hfile : (misreportedAppend.run storedZeekstd threeLines.file).2.bytes =
      bytesOf (threeLines.frames ++ frames) := by
    rw [hbytes, hcut, bytesOf, bodyOf_append, tableOf_append, List.append_assoc]
    rfl
  have hfew : (threeLines.frames ++ frames).length ≤ storedZeekstd.maxFrames := by
    have hserialized :
        (storedZeekstd.serialize (tableOf (threeLines.frames ++ frames))).length = _ :=
      length_serializeTable (tableOf (threeLines.frames ++ frames))
    have hsum := congrArg List.length hfile
    rw [hlength, bytesOf, List.length_append, hserialized, length_tableOf] at hsum
    have hmost : 93 ≤ storedZeekstd.maxFrames := by decide
    omega
  rw [hfile, storedZeekstd.fromSeekable_bytesOf _ hfew, tableOf_append, Except.ok.injEq,
    List.append_cancel_left_eq] at hparsed
  obtain ⟨frame, rfl, hentry⟩ := List.map_eq_singleton_iff.mp hparsed
  obtain ⟨-, checksum, hstored⟩ := frame.isFrame
  have hlong := congrArg List.length hstored
  rw [length_storedBytes] at hlong
  simp only [Stored.entry, Prod.mk.injEq] at hentry
  omega

end SeekZstdSep
