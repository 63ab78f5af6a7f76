/-
Module: SeekZstdSep.Proofs.Inspect
Purpose: What the inspection of a file reports: each frame with the records it holds, where they
  are counted, and with those of the first frame where they are not. Over a uniform file the fast
  mode reports what the full one does, except where the file has two frames: the bound on the
  frames to count is then below 0.
Trusted boundary: none
Main exports: layoutOf, inspectFrames_spec, fast_inspection_agrees_iff
-/
import SeekZstdSep.Core.Inspect
import SeekZstdSep.Proofs.Answers

namespace SeekZstdSep

open Lib

variable {overflowChecks : Bool} {file : SeekableFile} {label : String} {find : Finder UInt8}
variable {opts : InspectOptions} {sep : Bytes} {counts : Nat → Bool}

/-! ### What is reported -/

/-- How many records frame `i` holds. -/
def countOf (find : Finder UInt8) (frames : List Bytes) (i : Nat) : Nat :=
  (find.records (frames.getD i [])).length

/-- The count reported of frame `i`, where `counts` says of which frames the records are counted. -/
def reportedCount (find : Finder UInt8) (frames : List Bytes) (counts : Nat → Bool) (i : Nat) :
    Nat :=
  if counts i then countOf find frames i else countOf find frames 0

/-- The report on frame `i`. -/
def reportOf (file : SeekableFile) (find : Finder UInt8) (sep : Bytes) (counts : Nat → Bool)
    (i : Nat) : InspectResult :=
  inspectResult file.decoder.seekTable sep i (startOf file.contents i)
    (reportedCount find file.contents counts i)

/-- The report on every frame. -/
def layoutOf (file : SeekableFile) (find : Finder UInt8) (sep : Bytes) (counts : Nat → Bool) :
    List InspectResult :=
  (List.range file.contents.length).map (reportOf file find sep counts)

/-- The span a frame lies in holds the frame. -/
theorem take_drop_startOf (frames : List Bytes) {i : Nat} (hi : i < frames.length) :
    (frames.flatten.drop (startOf frames i)).take (frames.getD i []).length =
      frames.getD i [] := by
  have hregion := regionOf_eq frames i 1
  rw [regionOf_one hi] at hregion
  rw [List.getD_eq_getElem?_getD, List.getElem?_eq_getElem hi]
  exact hregion

theorem countsFrame_false {fastMode : Bool} {frameLen i : Nat}
    (h : countsFrame overflowChecks fastMode frameLen i = some false) :
    fastMode = true ∧ 0 < i := by
  unfold countsFrame at h
  split at h
  · simp at h
  · next hcond =>
      simp only [Bool.or_eq_true, Bool.not_eq_eq_eq_not, Bool.not_true, beq_iff_eq,
        not_or] at hcond
      exact ⟨by simpa using hcond.1, by omega⟩

/-- The walk reports the frames from number `i` on. A frame that is not counted is one after the
first in the fast mode, and by then the count of the first one is cached. -/
theorem inspectFramesFrom_spec (k : Nat) {i cache : Nat} {decoder : Decoder}
    (hend : i + k = file.contents.length) (hstream : decoder.stream = file.contents.flatten)
    (hcache : 0 < i → opts.fastMode = true → cache = countOf find file.contents 0)
    (hcounts : ∀ j, i ≤ j → j < file.contents.length →
      countsFrame overflowChecks opts.fastMode file.contents.length j = some (counts j)) :
    inspectFramesFrom overflowChecks find opts sep file.decoder.seekTable file.contents.length i
        ((List.range' i k).map fun j =>
          (startOf file.contents j, (file.contents.getD j []).length)) cache decoder =
      some (.ok ((List.range' i k).map (reportOf file find sep counts))) := by
  induction k generalizing i cache decoder with
  | zero => rfl
  | succ k ih =>
      have hi : i < file.contents.length := by omega
      have hcountsi := hcounts i (Nat.le_refl _) hi
      rw [List.range'_succ, List.map_cons, List.map_cons, inspectFramesFrom, hcountsi]
      have hlater : ∀ j, i + 1 ≤ j → j < file.contents.length →
          countsFrame overflowChecks opts.fastMode file.contents.length j = some (counts j) :=
        fun j hj => hcounts j (by omega)
      cases hcounted : counts i with
      | true =>
          obtain ⟨decoder', hcount, hsame⟩ := countRecordsInFrame_spec find decoder
            (startOf file.contents i) (file.contents.getD i []).length
          rw [hstream, take_drop_startOf _ hi] at hcount
          have hnext : 0 < i + 1 → opts.fastMode = true →
              (if opts.fastMode && i == 0 then countOf find file.contents i else cache) =
                countOf find file.contents 0 := by
            intro _ hfast
            rcases Nat.eq_zero_or_pos i with hzero | hpos
            · simp [hfast, hzero]
            · rw [if_neg (by simp; omega), hcache hpos hfast]
          have hrest := ih (by omega) (hsame.trans hstream) hnext hlater
          simp only [if_true, hcount]
          unfold countOf at hrest
          rw [hrest]
          simp [Except.map, reportOf, reportedCount, hcounted, countOf]
      | false =>
          obtain ⟨hfast, hpos⟩ := countsFrame_false (hcountsi.trans (by rw [hcounted]))
          have hcached := hcache hpos hfast
          have hrest := ih (by omega) hstream (fun _ _ => hcached) hlater
          simp only [Bool.false_eq_true, if_false]
          rw [if_neg (by simp; omega), hrest]
          simp [Except.map, reportOf, reportedCount, hcounted, hcached]

theorem inspectFrames_spec (hne : file.contents ≠ [])
    (hcounts : ∀ i, i < file.contents.length →
      countsFrame overflowChecks opts.fastMode file.contents.length i = some (counts i)) :
    inspectFrames overflowChecks file label find opts sep =
      some (.ok (layoutOf file find sep counts)) := by
  have hspans := RecordReader.seekTableDecompFrames_decoder file
  rw [if_neg hne] at hspans
  rw [inspectFrames, hspans]
  simp only [spansOf_length]
  rw [spansOf, List.range_eq_range', layoutOf, List.range_eq_range']
  exact inspectFramesFrom_spec _ (Nat.zero_add _) rfl (fun hpos => absurd hpos (Nat.lt_irrefl 0))
    fun j _ => hcounts j

/-! ### The two modes -/

variable {boundary : Boundary} {tail : Bool} {n : Nat}

/-- The inspection of a file for a boundary: one entry point for a separator, one for a finder. -/
def Boundary.inspect (boundary : Boundary) (overflowChecks : Bool) (file : SeekableFile)
    (label : String) (opts : InspectOptions) : Option (Except Error (List InspectResult)) :=
  match boundary with
  | .separator bytes ne => inspectWithOpts overflowChecks file label bytes ne opts
  | .finder find => inspectRecordsWithOpts overflowChecks file label find opts

theorem Boundary.inspect_eq (boundary : Boundary) (opts : InspectOptions) :
    boundary.inspect overflowChecks file label opts =
      inspectFrames overflowChecks file label boundary.find opts boundary.bytes := by
  cases boundary <;> rfl

/-- The full mode counts every frame, in any file. -/
theorem full_inspection (boundary : Boundary) (hne : file.contents ≠ []) :
    boundary.inspect overflowChecks file label { fastMode := false } =
      some (.ok (layoutOf file boundary.find boundary.bytes fun _ => true)) := by
  rw [Boundary.inspect_eq]
  exact inspectFrames_spec hne fun _ _ => rfl

/-- Every frame of a uniform file but the last holds as many records as the first. -/
theorem countOf_eq (h : Uniform find tail n file.contents) {i : Nat}
    (hi : i + 1 < file.contents.length) : countOf find file.contents i = n := by
  rw [countOf, List.getD_eq_getElem?_getD, List.getElem?_eq_getElem (by omega)]
  exact (h.full_getElem hi).1

/-- Two reports are the same when they give every frame the same count. -/
theorem layoutOf_congr {counts counts' : Nat → Bool}
    (h : ∀ i, i < file.contents.length →
      reportedCount find file.contents counts i = reportedCount find file.contents counts' i) :
    layoutOf file find sep counts = layoutOf file find sep counts' := by
  apply List.map_congr_left
  intro i hi
  rw [reportOf, reportOf, h i (List.mem_range.mp hi)]

/-- From three frames on the fast mode counts the first frame and the last two. -/
theorem countsFrame_of_three {m i : Nat} (hm : 3 ≤ m) :
    countsFrame overflowChecks true m i = some (i == 0 || decide (m - 3 < i)) := by
  unfold countsFrame subUsize
  rw [if_pos hm]
  cases hi : i == 0 <;> simp

theorem fast_inspection (h : Uniform boundary.find tail n file.contents)
    (htwo : file.contents.length ≠ 2) :
    boundary.inspect overflowChecks file label { fastMode := true } =
      some (.ok (layoutOf file boundary.find boundary.bytes fun _ => true)) := by
  rw [Boundary.inspect_eq]
  rcases Nat.lt_or_ge file.contents.length 3 with hfew | hmany
  · apply inspectFrames_spec h.ne_nil
    intro i hi
    obtain rfl : i = 0 := by omega
    rfl
  · rw [inspectFrames_spec h.ne_nil fun i _ => countsFrame_of_three hmany]
    congr 2
    apply layoutOf_congr
    intro i hi
    by_cases hcounted : (i == 0 || decide (file.contents.length - 3 < i)) = true
    · simp only [reportedCount, hcounted]
    · simp only [Bool.or_eq_true, beq_iff_eq, decide_eq_true_eq, not_or] at hcounted
      rw [reportedCount, reportedCount, if_neg (by simp; omega), if_pos rfl,
        countOf_eq h (by omega), countOf_eq h (by omega)]

/-- With two frames the bound is `2 - 3`: a build that checks panics on the second frame, and any
other takes the bound for one no frame is past. -/
theorem fast_inspection_two (h : Uniform boundary.find tail n file.contents)
    (htwo : file.contents.length = 2) :
    boundary.inspect true file label { fastMode := true } = none ∧
      boundary.inspect false file label { fastMode := true } =
        some (.ok (layoutOf file boundary.find boundary.bytes (· == 0))) := by
  constructor
  · have hspans := RecordReader.seekTableDecompFrames_decoder file
    rw [if_neg h.ne_nil] at hspans
    rw [Boundary.inspect_eq, inspectFrames, hspans]
    obtain ⟨first, second, hcontents⟩ := List.length_eq_two.mp htwo
    simp only [hcontents, spansOf_length]
    obtain ⟨decoder', hcount, -⟩ := countRecordsInFrame_spec boundary.find file.decoder
      (startOf [first, second] 0) first.length
    rw [startOf_zero] at hcount
    simp [spansOf, List.range_succ, inspectFramesFrom, countsFrame, subUsize, hcount]
  · rw [Boundary.inspect_eq]
    apply inspectFrames_spec h.ne_nil
    intro i hi
    rw [htwo] at hi ⊢
    rcases Nat.lt_or_ge i 1 with hzero | hone
    · obtain rfl : i = 0 := by omega
      rfl
    · obtain rfl : i = 1 := by omega
      rfl

/-- Of two frames the count of the first one is right for both exactly when the second is full. -/
theorem layoutOf_two_inj (h : Uniform find tail n file.contents)
    (htwo : file.contents.length = 2) :
    some (Except.ok (layoutOf file find sep (· == 0)) : Except Error (List InspectResult)) =
        some (.ok (layoutOf file find sep fun _ => true)) ↔
      countOf find file.contents 1 = n := by
  have hfirst : countOf find file.contents 0 = n := countOf_eq h (by omega)
  constructor
  · intro heq
    have hsecond := congrArg (fun report => report.getD 1 (reportOf file find sep (· == 0) 0))
      (Except.ok.inj (Option.some.inj heq))
    simp only [layoutOf, htwo, List.range_succ, List.range_zero] at hsecond
    have hcount := congrArg InspectResult.cntOfSep hsecond
    simpa [reportOf, inspectResult, reportedCount, hfirst] using hcount.symm
  · intro hcount
    congr 2
    apply layoutOf_congr
    intro i hi
    rcases Nat.eq_zero_or_pos i with hzero | hpos
    · subst hzero
      rfl
    · obtain rfl : i = 1 := by omega
      simp [reportedCount, hcount, hfirst]

/-- In either build both modes report every frame with the records it holds exactly when the file
does not have two frames. Where it has two, a build that does not check for overflow still reports
the same in both modes exactly when the second one is full. -/
theorem fast_inspection_agrees_iff (h : Uniform boundary.find tail n file.contents) :
    ((∀ overflowChecks fastMode,
        boundary.inspect overflowChecks file label { fastMode := fastMode } =
          some (.ok (layoutOf file boundary.find boundary.bytes fun _ => true))) ↔
      file.contents.length ≠ 2) ∧
    (boundary.inspect false file label { fastMode := true } =
        boundary.inspect false file label { fastMode := false } ↔
      (file.contents.length = 2 → countOf boundary.find file.contents 1 = n)) := by
  have hfull : ∀ overflowChecks, boundary.inspect overflowChecks file label
      { fastMode := false } =
        some (.ok (layoutOf file boundary.find boundary.bytes fun _ => true)) :=
    fun _ => full_inspection boundary h.ne_nil
  by_cases htwo : file.contents.length = 2
  · obtain ⟨hpanics, hwraps⟩ := @fast_inspection_two _ label _ _ _ h htwo
    constructor
    · constructor
      · intro hreports
        have hfast := hreports true true
        rw [hpanics] at hfast
        cases hfast
      · exact fun hne => absurd htwo hne
    · rw [hwraps, hfull, layoutOf_two_inj h htwo]
      exact ⟨fun hcount _ => hcount, fun hcount => hcount htwo⟩
  · have hfast : ∀ overflowChecks, boundary.inspect overflowChecks file label
        { fastMode := true } =
          some (.ok (layoutOf file boundary.find boundary.bytes fun _ => true)) :=
      fun _ => fast_inspection h htwo
    constructor
    · constructor
      · exact fun _ => htwo
      · intro _ overflowChecks fastMode
        cases fastMode with
        | false => exact hfull overflowChecks
        | true => exact hfast overflowChecks
    · constructor
      · exact fun _ htwo' => absurd htwo' htwo
      · intro _
        rw [hfull, hfast]

/-- A frame of two records and one of a single record. -/
def pairFile : SeekableFile where
  frames := [frameOf [112, 10, 113, 10], frameOf [114, 10]]
  reads := fun tick => tick
  count_le := by decide

theorem pairFile_uniform : Uniform lineBoundary.find true 2 pairFile.contents := by decide

theorem fast_inspection_agrees_lettersFile :
    lineBoundary.inspect true lettersFile "letters" { fastMode := true } =
      some (.ok (layoutOf lettersFile lineBoundary.find lineBoundary.bytes fun _ => true)) := by
  apply (fast_inspection_agrees_iff lettersFile_uniform.uniform).1.mpr
  decide

/-- The second frame of two holds one record. The fast mode panics on it, or gives it two. -/
theorem fast_inspection_differs_pairFile :
    Uniform lineBoundary.find true 2 pairFile.contents ∧
      lineBoundary.inspect true pairFile "pair" { fastMode := true } = none ∧
      lineBoundary.inspect false pairFile "pair" { fastMode := true } ≠
        lineBoundary.inspect false pairFile "pair" { fastMode := false } := by
  obtain ⟨hpanics, hwraps⟩ := @fast_inspection_two _ "pair" _ _ _ pairFile_uniform rfl
  refine ⟨pairFile_uniform, hpanics, ?_⟩
  rw [hwraps, full_inspection _ pairFile_uniform.ne_nil]
  intro hsame
  have hcount := (layoutOf_two_inj pairFile_uniform rfl).mp hsame
  revert hcount
  decide

end SeekZstdSep
