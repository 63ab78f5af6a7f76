/-
Module: SeekZstdSep.Proofs.Regroup
Purpose: The table of a reader from a frame on: its logical frames are the frames of the file from
  there on in pieces of one size, none of which passes what a table can hold, wherever the size can
  be worked out.
Trusted boundary: the seek table holds both lengths of a frame as `u32`
Main exports: TableReader.groupLength, ReaderFrom.Regroups, Exec.openFromFrame_ends,
  Exec.openFromFrame_faults, Exec.regroups_iff
-/
import SeekZstdSep.Proofs.EditTotal
import SeekZstdSep.Proofs.ExecReader

namespace SeekZstdSep

open Lib

namespace Exec

variable {zeek : Zeekstd}

/-! ### One group after the other -/

theorem tryFrom_of_le {most a : Nat} (h : a ≤ most) : tryFrom most a = pure a := if_pos h

variable (mode : Arithmetic) {opened : TableReader} {startFrame size k : Nat}

/-- A group ends where the frame behind it starts. -/
theorem groupEndComp_eq (h : opened.OfTable zeek) {stop : Nat} (hstop : stop ≤ opened.table.length) :
    groupEndComp opened (opened.table.frameStartComp opened.table.length) stop =
      pure (opened.table.frameStartComp stop) := by
  have hcount := h.length_le
  rw [groupEndComp, h.length_frames]
  by_cases hend : stop = opened.table.length
  · rw [if_pos hend, hend]
  · rw [if_neg hend, tryFrom_of_le (by omega), Program.pure_andThen, startComp_of_lt (by omega)]

theorem groupEndDecomp_eq (h : opened.OfTable zeek) {stop : Nat}
    (hstop : stop ≤ opened.table.length) :
    groupEndDecomp mode opened stop = pure (opened.table.frameStartDecomp stop) := by
  rw [groupEndDecomp, h.length_frames]
  by_cases hend : stop = opened.table.length
  · rw [if_pos hend, h.last_end mode, hend]
  · rw [if_neg hend, h.start_at (by omega)]

/-- The loop stands at frame `k`, with the logical frames so far. -/
def regroupingAt (opened : TableReader) (k : Nat) (table : SeekTable) (frames : Spans) :
    Regrouping where
  atFrame := k
  compStart := opened.table.frameStartComp k
  decompStart := opened.table.frameStartDecomp k
  table := table
  frames := frames

theorem regroupRound_again (h : opened.OfTable zeek) (hk : k < opened.table.length)
    (hstart : startFrame ≤ k) {group : SeekTable} (hgroup : (opened.table.drop k).take size = group)
    (hfits : (SeekTable.total group).1 ≤ u32Max ∧ (SeekTable.total group).2 ≤ u32Max)
    {table : SeekTable} (hroom : table.length ≤ k) (frames : Spans) :
    regroupRound zeek mode opened startFrame size
        (opened.table.frameStartComp opened.table.length) (regroupingAt opened k table frames) =
      pure (.again (regroupingAt opened (min (k + size) opened.table.length)
        (table ++ [SeekTable.total group])
        (frames ++ [(opened.table.frameStartDecomp k - opened.table.frameStartDecomp startFrame,
          (SeekTable.total group).2)]))) := by
  have hcount := h.length_le
  have hsmall : u32Max ≤ usizeMax := by decide
  obtain ⟨hcompStop, hdecompStop⟩ := opened.table.starts_add k size
  rw [hgroup] at hcompStop hdecompStop
  have hstop : min (saturatingAdd k size) opened.table.length =
      min (k + size) opened.table.length := by
    rw [saturatingAdd]
    omega
  have hmono := opened.table.frameStartDecomp_mono hstart (Nat.le_of_lt hk)
  generalize hstopAt : min (k + size) opened.table.length = stop at *
  have hlog : logFrame zeek table (SeekTable.total group) =
      .ok (table ++ [SeekTable.total group]) := by
    have := h.count_le
    rw [logFrame, if_neg (by omega)]
  have hat : (regroupingAt opened k table frames).atFrame < opened.table.length := hk
  rw [regroupRound, h.length_frames, if_pos hat]
  simp only [regroupingAt, hstop]
  rw [groupEndComp_eq h (by omega), Program.pure_andThen, groupEndDecomp_eq mode h (by omega),
    Program.pure_andThen, hcompStop, hdecompStop, sub_of_le (Nat.le_add_right _ _),
    Program.pure_andThen, sub_of_le (Nat.le_add_right _ _), Program.pure_andThen,
    Nat.add_sub_cancel_left, Nat.add_sub_cancel_left, tryFrom_of_le hfits.1, Program.pure_andThen,
    tryFrom_of_le hfits.2, Program.pure_andThen, hlog, Program.ofExcept_ok, Program.pure_andThen,
    h.start_at (by omega), sub_of_le hmono, Program.pure_andThen]

/-- From frame `k` on the loop ends with the groups of the frames that are left. -/
def LoopGroups (zeek : Zeekstd) (mode : Arithmetic) (opened : TableReader) (startFrame size k : Nat)
    (table : SeekTable) (frames : Spans) : Prop :=
  ∃ groups, Pieces size (opened.table.drop k) groups ∧
    SeekTable.InU32 (groups.map SeekTable.total) ∧
    (Program.loop (regroupRound zeek mode opened startFrame size
      (opened.table.frameStartComp opened.table.length)) (regroupingAt opened k table frames)).Ends
      (.returned (table ++ groups.map SeekTable.total,
        frames ++ spansFrom
          (opened.table.frameStartDecomp k - opened.table.frameStartDecomp startFrame)
          (groups.map SeekTable.total)))

theorem loopGroups_length (h : opened.OfTable zeek) (table : SeekTable) (frames : Spans) :
    LoopGroups zeek mode opened startFrame size opened.table.length table frames := by
  have hat : ¬ (regroupingAt opened opened.table.length table frames).atFrame <
      opened.table.length := Nat.lt_irrefl _
  refine ⟨[], ?_, by simp [SeekTable.InU32], ?_⟩
  · rw [List.drop_length]
    exact Pieces.nil size
  · rw [List.map_nil, spansFrom, List.append_nil, List.append_nil]
    apply Program.Ends.loop_done
    rw [regroupRound, h.length_frames, if_neg hat]
    exact Program.ends_pure _

/-- A group in front of those behind it. -/
theorem LoopGroups.cons (h : opened.OfTable zeek) (hk : k < opened.table.length)
    (hstart : startFrame ≤ k) {group : SeekTable} (hgroup : (opened.table.drop k).take size = group)
    (hfits : (SeekTable.total group).1 ≤ u32Max ∧ (SeekTable.total group).2 ≤ u32Max)
    {table : SeekTable} (hroom : table.length ≤ k) {frames : Spans}
    (hrest : LoopGroups zeek mode opened startFrame size (min (k + size) opened.table.length)
      (table ++ [SeekTable.total group])
      (frames ++ [(opened.table.frameStartDecomp k - opened.table.frameStartDecomp startFrame,
        (SeekTable.total group).2)])) :
    LoopGroups zeek mode opened startFrame size k table frames := by
  obtain ⟨groups, hpieces, hin, hends⟩ := hrest
  have hround := regroupRound_again mode h hk hstart hgroup hfits hroom frames
  have hmono := opened.table.frameStartDecomp_mono hstart (Nat.le_of_lt hk)
  have hstop := (opened.table.starts_add k size).2
  rw [hgroup] at hstop
  refine ⟨group :: groups, ?_, ?_, ?_⟩
  · rw [← hgroup]
    exact hpieces.step_drop hk
  · intro entry hentry
    rw [List.map_cons] at hentry
    rcases List.mem_cons.mp hentry with rfl | hentry
    · exact hfits
    · exact hin entry hentry
  · have hnext : opened.table.frameStartDecomp (min (k + size) opened.table.length) -
        opened.table.frameStartDecomp startFrame =
          opened.table.frameStartDecomp k - opened.table.frameStartDecomp startFrame +
            (SeekTable.total group).2 := by omega
    rw [hnext, List.append_assoc, List.append_assoc] at hends
    apply Program.Ends.loop_again
    · rw [hround]
      exact Program.ends_pure _
    · exact hends

/-- The rounds cut off one group after the other. The induction is on the frames that are left. -/
theorem loopGroups (h : opened.OfTable zeek) (hsize : 0 < size)
    (hfits : ∀ k, (SeekTable.total ((opened.table.drop k).take size)).1 ≤ u32Max ∧
      (SeekTable.total ((opened.table.drop k).take size)).2 ≤ u32Max) (fuel : Nat) :
    ∀ k table frames, opened.table.length ≤ k + fuel → k ≤ opened.table.length → startFrame ≤ k →
      table.length ≤ k → LoopGroups zeek mode opened startFrame size k table frames := by
  induction fuel with
  | zero =>
      intro k table frames hfuel hk hstart hroom
      obtain rfl : k = opened.table.length := by omega
      exact loopGroups_length mode h table frames
  | succ fuel ih =>
      intro k table frames hfuel hk hstart hroom
      rcases Nat.lt_or_eq_of_le hk with hlt | rfl
      · apply LoopGroups.cons mode h hlt hstart rfl (hfits k) hroom
        apply ih
        · omega
        · exact Nat.min_le_right _ _
        · omega
        · rw [List.length_append, List.length_singleton]
          omega
      · exact loopGroups_length mode h table frames

end Exec

/-! ### How many frames a group has -/

namespace TableReader

/-- What the frames from one on take together. -/
def rest (opened : TableReader) (startFrame : Nat) : Nat × Nat :=
  SeekTable.total (opened.table.drop startFrame)

/-- Whether the frames from one on fit in an entry. -/
def RestFits (opened : TableReader) (startFrame : Nat) : Prop :=
  (opened.rest startFrame).1 ≤ u32Max ∧ (opened.rest startFrame).2 ≤ u32Max

instance (opened : TableReader) (startFrame : Nat) : Decidable (opened.RestFits startFrame) :=
  inferInstanceAs (Decidable (_ ∧ _))

/-- How many frames a group has, where both maxima can be divided by. -/
def groupLength (opened : TableReader) (startFrame : Nat) : Nat :=
  if opened.RestFits startFrame then opened.table.length - startFrame
  else max (min (u32Max / opened.maxFrameComp) (u32Max / opened.maxFrameDecomp)) 1

namespace OfTable

variable {zeek : Zeekstd} {opened : TableReader} {startFrame : Nat}

/-- The frames from one on are what the file has less what is in front of them. -/
theorem rest_eq (opened : TableReader) (startFrame : Nat) :
    opened.table.frameStartComp opened.table.length =
        opened.table.frameStartComp startFrame + (opened.rest startFrame).1 ∧
      opened.table.frameStartDecomp opened.table.length =
        opened.table.frameStartDecomp startFrame + (opened.rest startFrame).2 := by
  have htotal := SeekTable.total_append (opened.table.take startFrame)
    (opened.table.drop startFrame)
  rw [List.take_append_drop, SeekTable.total_take, SeekTable.total_eq opened.table,
    Prod.mk.injEq] at htotal
  exact htotal

/-- A file whose frames from one on do not fit has its maxima gathered. -/
theorem maxima_of_not_restFits (h : opened.OfTable zeek) (hrest : ¬ opened.RestFits startFrame)
    (most : Nat) :
    (opened.maxFrameComp ≤ most ↔ ∀ entry ∈ opened.table, entry.1 ≤ most) ∧
      (opened.maxFrameDecomp ≤ most ↔ ∀ entry ∈ opened.table, entry.2 ≤ most) := by
  apply h.maxima
  obtain ⟨hcomp, hdecomp⟩ := rest_eq opened startFrame
  rw [SeekTable.total_eq, hcomp, hdecomp]
  rw [RestFits] at hrest
  omega

/-- The longest frame is not empty: the first one holds a record. -/
theorem maxFrameDecomp_pos (h : opened.OfTable zeek) (hrest : ¬ opened.RestFits startFrame) :
    0 < opened.maxFrameDecomp := by
  by_contra hzero
  have hall := (h.maxima_of_not_restFits hrest 0).2.mp (Nat.le_of_not_lt hzero)
  have hpos := List.length_pos_iff.mpr h.ne_nil
  have hfirst := hall _ (List.getElem_mem hpos)
  rw [SeekTable.getElem_eq hpos] at hfirst
  exact Nat.not_lt.mpr hfirst h.first_pos

/-- The longest frame of the file is empty only where every one is: then it cannot be divided by. -/
theorem maxFrameComp_pos_iff (h : opened.OfTable zeek) (hrest : ¬ opened.RestFits startFrame) :
    0 < opened.maxFrameComp ↔ ∃ entry ∈ opened.table, entry.1 ≠ 0 := by
  have hzero := (h.maxima_of_not_restFits hrest 0).1
  constructor
  · intro hpos
    by_contra hnone
    have hall : ∀ entry ∈ opened.table, entry.1 ≤ 0 := by
      intro entry hentry
      by_contra hne
      exact hnone ⟨entry, hentry, fun heq => hne (Nat.le_of_eq heq)⟩
    exact Nat.not_lt.mpr (hzero.mpr hall) hpos
  · rintro ⟨entry, hentry, hne⟩
    by_contra hnot
    exact hne (Nat.eq_zero_of_le_zero (hzero.mp (Nat.le_of_not_lt hnot) entry hentry))

theorem groupLength_bounds (h : opened.OfTable zeek) (hstart : startFrame < opened.table.length) :
    0 < opened.groupLength startFrame ∧ opened.groupLength startFrame ≤ u32Max := by
  have hcount := h.length_le
  have hone : 1 ≤ u32Max := by decide
  have hdiv := Nat.div_le_self u32Max opened.maxFrameComp
  rw [groupLength]
  split
  · omega
  · omega

/-- A group that is not all of what is left fits: its size is divided out of the limit for the
longest frame of each kind. -/
theorem group_fits (h : opened.OfTable zeek) (hrest : ¬ opened.RestFits startFrame)
    (hpos : 0 < opened.maxFrameComp) {entries : SeekTable} (hsub : entries ⊆ opened.table)
    (hlength : entries.length ≤ opened.groupLength startFrame) :
    (SeekTable.total entries).1 ≤ u32Max ∧ (SeekTable.total entries).2 ≤ u32Max := by
  have hpos' := h.maxFrameDecomp_pos hrest
  have hlimit := h.maxima_of_not_restFits hrest
  have hcomp : opened.maxFrameComp ≤ u32Max :=
    (hlimit u32Max).1.mpr fun entry hentry => (h.inU32 entry hentry).1
  have hdecomp : opened.maxFrameDecomp ≤ u32Max :=
    (hlimit u32Max).2.mpr fun entry hentry => (h.inU32 entry hentry).2
  have hbyComp : 1 ≤ u32Max / opened.maxFrameComp := (Nat.one_le_div_iff hpos).mpr hcomp
  have hbyDecomp : 1 ≤ u32Max / opened.maxFrameDecomp := (Nat.one_le_div_iff hpos').mpr hdecomp
  rw [groupLength, if_neg hrest] at hlength
  constructor
  · calc (SeekTable.total entries).1
        ≤ entries.length * opened.maxFrameComp :=
          sum_map_le fun entry hentry => (hlimit _).1.mp (Nat.le_refl _) entry (hsub hentry)
      _ ≤ u32Max / opened.maxFrameComp * opened.maxFrameComp :=
          Nat.mul_le_mul_right _ (by omega)
      _ ≤ u32Max := Nat.div_mul_le_self u32Max opened.maxFrameComp
  · calc (SeekTable.total entries).2
        ≤ entries.length * opened.maxFrameDecomp :=
          sum_map_le fun entry hentry => (hlimit _).2.mp (Nat.le_refl _) entry (hsub hentry)
      _ ≤ u32Max / opened.maxFrameDecomp * opened.maxFrameDecomp :=
          Nat.mul_le_mul_right _ (by omega)
      _ ≤ u32Max := Nat.div_mul_le_self u32Max opened.maxFrameDecomp

end OfTable

end TableReader

/-! ### A reader from a frame on -/

/-- The logical frames of a reader are the frames of the file from one on, in pieces of `size`: in
order, none left out or taken twice, every piece full but the last one. An entry of the table holds
what a piece takes, a span where it stands, and the reader reads the bytes of all of them. -/
structure ReaderFrom.Regroups (opened : TableReader) (startFrame size : Nat)
    (groups : List SeekTable) (r : ReaderFrom) : Prop where
  size_pos : 1 ≤ size
  pieces : Pieces size (opened.table.drop startFrame) groups
  table_eq : r.table = groups.map SeekTable.total
  inU32 : r.table.InU32
  frames_eq : r.frames = spansFrom 0 r.table
  base_eq : r.source.base = opened.table.frameStartComp startFrame
  len_eq : r.source.len = (SeekTable.total r.table).1
  sepCnt_eq : r.sepCnt = opened.sepCnt * size

/-- The reader of the file `opened` reads, over some groups of its frames from one on. -/
def TableReader.readerFrom (opened : TableReader) (file : File) (startFrame : Nat)
    (groups : List SeekTable) : ReaderFrom where
  label := opened.label
  table := groups.map SeekTable.total
  frames := spansFrom 0 (groups.map SeekTable.total)
  boundary := opened.boundary
  sepCnt := opened.sepCnt * opened.groupLength startFrame
  originalFrameCount := some (opened.table.length - startFrame)
  originalRecordsPerFrame := some opened.recordsPerFrame
  source :=
    { file := file
      base := opened.table.frameStartComp startFrame
      len := (opened.rest startFrame).1
      firstFrameLen := some (opened.table.frameSizeComp startFrame) }
  frameEndBase := opened.table.frameStartDecomp startFrame
  nextFrameEnd := startFrame

/-- The pieces of a table take what it does. -/
theorem SeekTable.total_groups {size : Nat} {table : SeekTable} {groups : List SeekTable}
    (h : Pieces size table groups) :
    SeekTable.total (groups.map SeekTable.total) = SeekTable.total table := by
  have hcomp := h.sum_sums (f := Prod.fst)
  have hdecomp := h.sum_sums (f := Prod.snd)
  rw [SeekTable.total, SeekTable.total, List.map_map, List.map_map, ← hcomp, ← hdecomp]
  rfl

namespace Exec

variable {zeek : Zeekstd} (mode : Arithmetic) {opened : TableReader} {startFrame : Nat}

theorem groupSize_eq (h : opened.OfTable zeek)
    (hpos : opened.RestFits startFrame ∨ 0 < opened.maxFrameComp) :
    groupSize opened (opened.rest startFrame).1 (opened.rest startFrame).2
      (opened.table.length - startFrame) = pure (opened.groupLength startFrame) := by
  rw [groupSize, TableReader.groupLength]
  show (if opened.RestFits startFrame then _ else _) = _
  by_cases hrest : opened.RestFits startFrame
  · rw [if_pos hrest, if_pos hrest]
  · have hcomp := hpos.resolve_left hrest
    have hsmall : u32Max ≤ usizeMax := by decide
    have hdiv := Nat.div_le_self u32Max opened.maxFrameComp
    rw [if_neg hrest, if_neg hrest, div_of_pos hcomp, Program.pure_andThen,
      div_of_pos (h.maxFrameDecomp_pos hrest), Program.pure_andThen, tryFrom_of_le (by omega),
      Program.pure_andThen]

/-- The first division is by the longest frame of the file. -/
theorem groupSize_faults (hrest : ¬ opened.RestFits startFrame) (hzero : opened.maxFrameComp = 0) :
    groupSize opened (opened.rest startFrame).1 (opened.rest startFrame).2
      (opened.table.length - startFrame) = Program.fault .divisionByZero := by
  rw [groupSize]
  show (if opened.RestFits startFrame then _ else _) = _
  rw [if_neg hrest, hzero, div, if_pos rfl, Program.fault_andThen]

theorem regroup_ends (h : opened.OfTable zeek) (hstart : startFrame < opened.table.length)
    (hpos : opened.RestFits startFrame ∨ 0 < opened.maxFrameComp) :
    ∃ groups, Pieces (opened.groupLength startFrame) (opened.table.drop startFrame) groups ∧
      SeekTable.InU32 (groups.map SeekTable.total) ∧
      (regroup zeek mode opened startFrame (opened.groupLength startFrame)
        (opened.table.frameStartComp startFrame)
        (opened.table.frameStartComp opened.table.length) (opened.rest startFrame).1
        (opened.rest startFrame).2 (opened.table.length - startFrame)).Ends
        (.returned (groups.map SeekTable.total, spansFrom 0 (groups.map SeekTable.total))) := by
  have hlength : (opened.table.drop startFrame).length = opened.table.length - startFrame :=
    List.length_drop
  rw [regroup]
  by_cases hrest : opened.RestFits startFrame
  · -- all that is left is one logical frame
    have hsize : opened.groupLength startFrame = opened.table.length - startFrame := if_pos hrest
    have hroom : ¬ zeek.maxFrames ≤ ([] : SeekTable).length := by
      have := h.count_le
      rw [List.length_nil]
      omega
    refine ⟨[opened.table.drop startFrame], ?_, ?_, ?_⟩
    · rw [hsize]
      exact Pieces.single (by omega) (Nat.le_of_eq hlength)
    · intro entry hentry
      rw [List.mem_singleton.mp hentry]
      exact hrest
    · rw [if_pos hsize, tryFrom_of_le hrest.1, Program.pure_andThen, tryFrom_of_le hrest.2,
        Program.pure_andThen, logFrame, if_neg hroom, Program.ofExcept_ok, Program.pure_andThen]
      exact Program.ends_pure _
  · have hcomp := hpos.resolve_left hrest
    obtain ⟨hsize, -⟩ := h.groupLength_bounds hstart
    -- a group of all that is left would fit
    have hne : opened.groupLength startFrame ≠ opened.table.length - startFrame := by
      intro heq
      exact hrest (h.group_fits hrest hcomp (List.drop_subset _ _)
        (Nat.le_of_eq (hlength.trans heq.symm)))
    have hfits : ∀ k,
        (SeekTable.total ((opened.table.drop k).take (opened.groupLength startFrame))).1 ≤ u32Max ∧
        (SeekTable.total ((opened.table.drop k).take (opened.groupLength startFrame))).2 ≤ u32Max :=
      fun k => h.group_fits hrest hcomp
        (List.Subset.trans (List.take_subset _ _) (List.drop_subset _ _)) (List.length_take_le _ _)
    obtain ⟨groups, hpieces, hin, hends⟩ := loopGroups mode h hsize hfits opened.table.length
      startFrame [] [] (Nat.le_add_left _ _) (Nat.le_of_lt hstart) (Nat.le_refl startFrame)
      (Nat.zero_le _)
    rw [Nat.sub_self] at hends
    refine ⟨groups, hpieces, hin, ?_⟩
    rw [if_neg hne, divCeil, if_neg (Nat.pos_iff_ne_zero.mp hsize), Program.pure_andThen,
      h.start_at hstart]
    exact hends

/-- Everything in front of the groups is worked out without a refusal. -/
theorem openFromFrame_eq (h : opened.OfTable zeek) (hstart : startFrame < opened.table.length)
    {file : File} (hshared : opened.shared = some file) :
    openFromFrame zeek mode opened startFrame =
      readerFrom zeek mode opened file startFrame (opened.table.frameStartComp startFrame)
        (opened.table.frameStartComp opened.table.length) (opened.rest startFrame).1
        (opened.rest startFrame).2 (opened.table.length - startFrame) := by
  have hcount := h.length_le
  have hlast : opened.table.length - 1 < opened.table.length := by omega
  obtain ⟨hcomp, hdecomp⟩ := TableReader.OfTable.rest_eq opened startFrame
  have hend := (SeekTable.starts_succ hlast).1
  rw [Nat.sub_add_cancel (by omega)] at hend
  have hlt := (h.inU32.starts_lt hcount opened.table.length).1
  rw [openFromFrame, h.length_frames, if_neg (Nat.not_le.mpr hstart), hshared]
  simp only
  rw [tryFrom_of_le (by omega), Program.pure_andThen, startComp_of_lt hstart, Program.pure_andThen,
    sub_of_le (by omega), Program.pure_andThen, tryFrom_of_le (by omega), Program.pure_andThen,
    startComp_of_lt hlast, Program.pure_andThen, sizeComp_of_lt hlast, Program.pure_andThen,
    add_of_lt (by omega), Program.pure_andThen, ← hend, sub_of_le (by omega),
    Program.pure_andThen, h.last_end mode, Program.pure_andThen, h.start_at hstart,
    sub_of_le (by omega), Program.pure_andThen, sub_of_le (Nat.le_of_lt hstart),
    Program.pure_andThen, hcomp, hdecomp, Nat.add_sub_cancel_left, Nat.add_sub_cancel_left]

theorem openFromFrame_ends (h : opened.OfTable zeek) (hstart : startFrame < opened.table.length)
    {file : File} (hshared : opened.shared = some file)
    (hpos : opened.RestFits startFrame ∨ 0 < opened.maxFrameComp) :
    ∃ groups, (openFromFrame zeek mode opened startFrame).Ends
        (.returned (opened.readerFrom file startFrame groups)) ∧
      (opened.readerFrom file startFrame groups).Regroups opened startFrame
        (opened.groupLength startFrame) groups := by
  obtain ⟨groups, hpieces, hin, hends⟩ := regroup_ends mode h hstart hpos
  obtain ⟨hsize, hsmall⟩ := h.groupLength_bounds hstart
  have hrecords : opened.sepCnt * opened.groupLength startFrame ≤ usizeMax :=
    Nat.le_trans (Nat.mul_le_mul h.sepCnt_le hsmall) (by decide)
  refine ⟨groups, ?_, ?_⟩
  · rw [openFromFrame_eq mode h hstart hshared, readerFrom, groupSize_eq h hpos,
      Program.pure_andThen]
    apply hends.bind
    rw [sizeComp_of_lt hstart, Program.pure_andThen, if_neg (Nat.not_lt.mpr hrecords),
      h.start_at hstart]
    exact Program.ends_pure _
  · exact
      { size_pos := hsize
        pieces := hpieces
        table_eq := rfl
        inU32 := hin
        frames_eq := rfl
        base_eq := rfl
        len_eq := (congrArg Prod.fst (SeekTable.total_groups hpieces)).symm
        sepCnt_eq := rfl }

theorem openFromFrame_faults (h : opened.OfTable zeek) (hstart : startFrame < opened.table.length)
    {file : File} (hshared : opened.shared = some file) (hrest : ¬ opened.RestFits startFrame)
    (hzero : opened.maxFrameComp = 0) :
    (openFromFrame zeek mode opened startFrame).Ends (.faulted .divisionByZero) := by
  rw [openFromFrame_eq mode h hstart hshared, readerFrom, groupSize_faults hrest hzero,
    Program.fault_andThen]
  exact Program.ends_ofEnding _

/-- Of a file that opens, the frames from one on are regrouped exactly, in any arithmetic, unless
they pass what an entry holds decompressed while the table gives no frame of the file a compressed
length: that is divided by. -/
theorem regroups_iff (hzeek : zeek.ParsesU32) {f : File} {label : String} {boundary : Boundary}
    (hopen : (fromFile zeek f label boundary).Ends (.returned opened))
    (hstart : startFrame < opened.frames.length) :
    (∃ r size groups, (openFromFrame zeek mode opened startFrame).Ends (.returned r) ∧
        r.Regroups opened startFrame size groups) ↔
      (∃ entry ∈ opened.table, entry.1 ≠ 0) ∨
        ((opened.table.drop startFrame).map Prod.snd).sum ≤ u32Max := by
  obtain ⟨h, hshared⟩ := ofTable_of_fromFile hzeek hopen
  rw [h.length_frames] at hstart
  constructor
  · rintro ⟨r, size, groups, hends, -⟩
    by_contra hnot
    rw [not_or] at hnot
    obtain ⟨hnone, hover⟩ := hnot
    have hrest : ¬ opened.RestFits startFrame := fun hfits => hover hfits.2
    have hzero : opened.maxFrameComp = 0 :=
      Nat.eq_zero_of_not_pos (mt (h.maxFrameComp_pos_iff hrest).mp hnone)
    exact (openFromFrame_faults mode h hstart hshared hrest hzero).not_returned ⟨r, hends⟩
  · intro hcondition
    have hpos : opened.RestFits startFrame ∨ 0 < opened.maxFrameComp := by
      by_cases hrest : opened.RestFits startFrame
      · exact Or.inl hrest
      · rw [h.maxFrameComp_pos_iff hrest]
        by_cases hsome : ∃ entry ∈ opened.table, entry.1 ≠ 0
        · exact Or.inr hsome
        · -- what takes nothing fits
          have hcomp : (opened.rest startFrame).1 = 0 := by
            rw [TableReader.rest, SeekTable.total, List.sum_eq_zero_iff_forall_eq_nat]
            intro comp hin
            obtain ⟨entry, hentry, rfl⟩ := List.mem_map.mp hin
            by_contra hne
            exact hsome ⟨entry, List.mem_of_mem_drop hentry, hne⟩
          refine Or.inl ⟨?_, hcondition.resolve_left hsome⟩
          rw [hcomp]
          exact Nat.zero_le _
    obtain ⟨groups, hends, hgroups⟩ := openFromFrame_ends mode h hstart hshared hpos
    exact ⟨_, _, groups, hends, hgroups⟩

/-! ### A table without compressed lengths -/

/-- Frames that take nothing, of one line and of more than a table can add up. -/
def sizelessTable : SeekTable := [(0, 2), (0, 2 ^ 31), (0, 2 ^ 31)]

/-- The frame of a line, behind it such a table. -/
def sizelessFile : File where
  bytes := storedBytes true [97, 10] ++ serializeTable sizelessTable
  reads := fun _ => wholeWish
  schedule := fun _ => some wholeWish

theorem streamedZeekstd_parsesU32 : streamedZeekstd.ParsesU32 := storedZeekstd_parsesU32

/-- It opens: the decoder finds the line where the first frame starts. -/
theorem fromFile_sizelessFile : ∃ opened,
    (fromFile streamedZeekstd sizelessFile "sizeless.zst" lineBoundary).Ends (.returned opened) ∧
      opened.table = sizelessTable ∧ opened.frames.length = 3 := by
  have hparse : streamedZeekstd.fromSeekable sizelessFile.bytes = .ok sizelessTable := by
    decide +kernel
  have hcount : (SeekZstdSep.frameRecords lineBoundary.find
      (.new streamedZeekstd sizelessFile sizelessTable) 0).map Prod.fst = .ok 1 := by
    decide +kernel
  obtain ⟨maxima, -, hends⟩ := fromReader_ends "sizeless.zst" lineBoundary hparse
    (List.cons_ne_nil _ _)
  cases hrecords : SeekZstdSep.frameRecords lineBoundary.find
      (.new streamedZeekstd sizelessFile sizelessTable) 0 with
  | error e =>
      rw [hrecords] at hcount
      cases hcount
  | ok counted =>
      obtain ⟨count, reader⟩ := counted
      rw [hrecords] at hcount hends
      obtain rfl : count = 1 := Except.ok.inj hcount
      exact ⟨_, hends.bind (Program.ends_pure _), rfl, rfl⟩

/-- The frames that pass an entry are not regrouped, the last of them alone is. -/
theorem regroups_iff_sizelessFile : ∃ opened,
    (fromFile streamedZeekstd sizelessFile "sizeless.zst" lineBoundary).Ends (.returned opened) ∧
      (¬ ∃ r size groups, (openFromFrame streamedZeekstd .checked opened 0).Ends (.returned r) ∧
        r.Regroups opened 0 size groups) ∧
      ∃ r size groups, (openFromFrame streamedZeekstd .checked opened 2).Ends (.returned r) ∧
        r.Regroups opened 2 size groups := by
  obtain ⟨opened, hopen, htable, hlength⟩ := fromFile_sizelessFile
  refine ⟨opened, hopen, ?_, ?_⟩
  · rw [regroups_iff .checked streamedZeekstd_parsesU32 hopen (by omega), htable]
    decide
  · apply (regroups_iff .checked streamedZeekstd_parsesU32 hopen (by omega)).mpr
    rw [htable]
    decide

/-- The file opens and frame 0 is in range; from there on the group size is the limit divided by
the longest compressed frame, which is 0. -/
theorem not_regroups_sizelessFile : ∃ opened,
    (fromFile streamedZeekstd sizelessFile "sizeless.zst" lineBoundary).Ends (.returned opened) ∧
      0 < opened.frames.length ∧
      (openFromFrame streamedZeekstd .checked opened 0).Ends (.faulted .divisionByZero) ∧
      ¬ ∃ r size groups, (openFromFrame streamedZeekstd .checked opened 0).Ends (.returned r) ∧
        r.Regroups opened 0 size groups := by
  obtain ⟨opened, hopen, htable, hlength⟩ := fromFile_sizelessFile
  obtain ⟨h, hshared⟩ := ofTable_of_fromFile streamedZeekstd_parsesU32 hopen
  have hrest : ¬ opened.RestFits 0 := by
    rw [TableReader.RestFits, TableReader.rest, htable]
    decide
  have hzero : opened.maxFrameComp = 0 := by
    apply Nat.eq_zero_of_not_pos
    rw [h.maxFrameComp_pos_iff hrest, htable]
    decide
  have hfault := openFromFrame_faults .checked h (by rw [htable]; decide) hshared hrest hzero
  refine ⟨opened, hopen, by omega, hfault, ?_⟩
  rintro ⟨r, size, groups, hends, -⟩
  exact hfault.not_returned ⟨r, hends⟩

end Exec

end SeekZstdSep
