/-
Module: SeekZstdSep.Proofs.Judged
Purpose: What a watched walk over any frames vouches for. A frame the watch has reported and did
  not refuse holds the count it is held against and ends with a record; so a read that was not
  refused has got past no other frame, unless the last record it handed out is an unfinished one
  that runs over the end of one.
Trusted boundary: none
Main exports: reachOf, Sound, Straddles, FrameJudge.Judges, sound_iff
-/
import SeekZstdSep.Proofs.History

namespace SeekZstdSep

open Lib

variable {find : Finder UInt8} {tail : Bool} {n : Nat} {frames : List Bytes} {k j : Nat}

/-! ### What a read has got past -/

section Reads

variable (find : Finder UInt8) (tail : Bool) (n : Nat) (frames : List Bytes)
  (req : RecordsRequest) (count : Nat)

/-- What a read over `req` decodes. -/
def spanOf : Bytes := (frames.flatten.drop req.start).take req.len

/-- Where a read has got to that passed `count` records, an unfinished last one among them where
`tail` has it count. -/
def reachOf : Nat :=
  req.start + ((find.items tail (spanOf frames req)).take count).flatten.length

/-- Every frame but the last that a read began at or in front of, and got to the end of, holds `n`
records and nothing after them. -/
def Sound : Prop :=
  ∀ i (_ : i + 1 < frames.length), req.start ≤ startOf frames i →
    startOf frames (i + 1) ≤ reachOf find tail frames req count → find.Full n frames[i]

/-- A read of `count` records hands out the unfinished remainder of what it decodes, which runs
over the end of a frame that is not the last. -/
def Straddles : Prop :=
  tail = true ∧ (find.records (spanOf frames req)).length < count ∧
    ∃ i, i + 1 < frames.length ∧
      req.start + find.offset (spanOf frames req) (find.records (spanOf frames req)).length <
        startOf frames (i + 1) ∧
      startOf frames (i + 1) ≤ req.start + (spanOf frames req).length

end Reads

/-! ### What a judge vouches for -/

/-- The judge of a reader of `frames` that holds them against `n`. -/
structure FrameJudge.Judges (judge : FrameJudge) (n : Nat) (frames : List Bytes) : Prop where
  last : judge.last = frames.length - 1
  perFrame : judge.perFrame = n

theorem FrameJudge.Judges.of_ok {judge : FrameJudge} (h : judge.Judges n frames) {i held : Nat}
    {whole : Bool} (hi : i + 1 < frames.length) (hcount : judge.count i held = .ok ())
    (hwhole : judge.endsWhole i whole = .ok ()) : held = n ∧ whole = true := by
  simp only [FrameJudge.count, FrameJudge.endsWhole, verifyFrameCount, verifyFrameEndsWhole, h.last,
    h.perFrame] at hcount hwhole
  constructor
  · by_contra hne
    rw [if_pos ⟨hne, by omega⟩] at hcount
    simp at hcount
  · by_contra hne
    rw [if_pos ⟨by simpa using hne, by omega⟩] at hwhole
    simp at hwhole

/-- Where the judge passed the frames up to the `i`-th, that one is full and they end with a
record. -/
theorem full_of_passes {judge : FrameJudge} (h : judge.Judges n frames) {i : Nat} (hij : i < j)
    (hi : k + i + 1 < frames.length)
    (good : ∀ t ≤ i, (lookoutOf judge frames k j).Passes find (regionOf frames k j) t) :
    find.Full n frames[k + i] ∧ find.rest (regionOf frames k (i + 1)) = [] := by
  have hverdict : ∀ t ≤ i, (find.records (regionOf frames k (t + 1))).length -
      (lookoutOf judge frames k j).before find (regionOf frames k j) t = n ∧
      find.rest (regionOf frames k (t + 1)) = [] := by
    intro t ht
    have hpass := good t ht
    unfold Lookout.Passes Lookout.verdict at hpass
    rw [Lookout.before, lookoutOf_take (by omega), count_eq] at hpass
    cases hcount : (lookoutOf judge frames k j).judge.count
        ((lookoutOf judge frames k j).first + t)
        ((find.records (regionOf frames k (t + 1))).length -
          (lookoutOf judge frames k j).before find (regionOf frames k j) t) with
    | error e => simp [hcount] at hpass
    | ok _ =>
        rw [hcount] at hpass
        have hlt : k + t + 1 < frames.length := by omega
        obtain ⟨hheld, hends⟩ := h.of_ok hlt hcount hpass
        exact ⟨hheld, ((endsWhole_iff find _).mp hends).2⟩
  obtain ⟨hcount, hrest⟩ := hverdict i (Nat.le_refl i)
  have hbefore : (lookoutOf judge frames k j).before find (regionOf frames k j) i =
      (find.records (regionOf frames k i)).length ∧ find.rest (regionOf frames k i) = [] := by
    cases i with
    | zero => simp [Lookout.before, regionOf]
    | succ i =>
        rw [Lookout.before, lookoutOf_take (by omega), count_eq]
        exact ⟨rfl, (hverdict i (by omega)).2⟩
  rw [hbefore.1, regionOf_succ (by omega), find.records_append_of_rest hbefore.2,
    List.length_append, Nat.add_sub_cancel_left] at hcount
  refine ⟨⟨hcount, ?_⟩, hrest⟩
  rw [regionOf_succ (by omega), find.rest_append_of_rest hbefore.2] at hrest
  exact hrest

/-- A finder that needs no look-ahead finds every record that ends in front of a place in what is
in front of that place. -/
theorem length_le_records_take (hwhole : find.Whole) (d : Bytes) {e i : Nat}
    (hi : i ≤ (find.records d).length) (hle : find.offset d i ≤ e) :
    i ≤ (find.records (d.take e)).length := by
  have hsplit : d.take e =
      ((find.records d).take i).flatten ++ (d.take e).drop (find.offset d i) := by
    have htake : ((find.records d).take i).flatten = (d.take e).take (find.offset d i) := by
      rw [List.take_take, Nat.min_eq_left hle, find.take_offset]
    rw [htake, List.take_append_drop]
  rw [hsplit, (Finder.cut_take_append_of_whole hwhole d i _).1, List.length_append,
    List.length_take, Nat.min_eq_left hi]
  omega

theorem lookoutOf_fits_of_whole (hwhole : find.Whole) (judge : FrameJudge)
    (ne : ∀ g ∈ frames, g ≠ []) (hkj : k + j ≤ frames.length) :
    (lookoutOf judge frames k j).Fits find (regionOf frames k j) := by
  apply lookoutOf_fits ne hkj
  intro i hi c hc hle
  rw [Nat.add_assoc] at hle
  rw [← regionOf_take (Nat.succ_le_of_lt hi)]
  exact length_le_records_take hwhole _ hc hle

/-! ### What a watch vouches for -/

/-- The request for the `j` frames from frame `k` on. -/
def requestOf (frames : List Bytes) (k j skip : Nat) : RecordsRequest :=
  ⟨startOf frames k, (regionOf frames k j).length, skip⟩

@[simp] theorem spanOf_requestOf (frames : List Bytes) (k j skip : Nat) :
    spanOf frames (requestOf frames k j skip) = regionOf frames k j := regionOf_eq frames k j

/-- What watches a walk over the `j` frames from frame `k` on: a lookout over them, or nothing
where there is but the last frame to walk. -/
def WatchesOver (judge : FrameJudge) (frames : List Bytes) (k j : Nat)
    (post : Option Lookout) : Prop :=
  post = some (lookoutOf judge frames k j) ∨ (post = none ∧ k + 1 = frames.length)

/-- A frame whose end the walk has come to was passed, and so were those in front of it. -/
theorem passes_of_at {judge : FrameJudge} {watcher : Watcher} {c t : Nat}
    (hat : watcher.At find (regionOf frames k j) (some (lookoutOf judge frames k j)) c)
    (ht : t < j)
    (hend : startOf frames (k + t + 1) - startOf frames k ≤ find.offset (regionOf frames k j) c) :
    ∀ i ≤ t, (lookoutOf judge frames k j).Passes find (regionOf frames k j) i := by
  cases watcher with
  | unwatched => exact absurd hat (by simp [Watcher.At])
  | watched watch =>
      rcases hat with ⟨hnone, -⟩ | ⟨l, hl, hfits, hat⟩
      · simp at hnone
      · obtain rfl := Option.some.inj hl
        intro i hi
        have hlen : (lookoutOf judge frames k j).offsets.length = j := by simp [lookoutOf]
        have hlt : i < (lookoutOf judge frames k j).offsets.length := by omega
        apply hat.good
        rw [hat.reported i hlt, hat.seen]
        have hget : (lookoutOf judge frames k j).offsets[i] =
            startOf frames (k + i + 1) - startOf frames k := by simp [lookoutOf]
        have hmono := startOf_mono frames (k := k + i + 1) (j := k + t + 1) (by omega)
        rw [hget]
        omega

/-- The walk of a single frame that came to its end vouches for that frame once what is left of it
was judged too. -/
theorem full_of_spent {judge : FrameJudge} (h : judge.Judges n frames) (hk : k + 1 < frames.length)
    {post : Option Lookout} (hpost : WatchesOver judge frames k 1 post)
    {watcher watcher' : Watcher} {w : Window}
    (hat : watcher.At find (regionOf frames k 1) post
      (find.records (regionOf frames k 1)).length)
    (hremainder : w.remainder = find.rest (regionOf frames k 1))
    (hspent : watcher.spent w = .ok watcher') : find.Full n frames[k] := by
  rcases hpost with rfl | ⟨-, hlast⟩
  swap
  · omega
  have hend : startOf frames (k + 0 + 1) - startOf frames k = (regionOf frames k 1).length := by
    rw [Nat.add_zero, startOf_add, Nat.add_sub_cancel_left]
  have hsplit := find.offset_add_length_after (regionOf frames k 1)
    (find.records (regionOf frames k 1)).length
  rw [find.after_of_length_le (Nat.le_refl _)] at hsplit
  suffices hrest : find.rest (regionOf frames k 1) = [] by
    rw [hrest, List.length_nil, Nat.add_zero] at hsplit
    exact (full_of_passes h (j := 1) (i := 0) (by omega) hk
      (passes_of_at hat (by omega) (by omega))).1
  cases watcher with
  | unwatched => exact absurd hat (by simp [Watcher.At])
  | watched watch =>
      rcases hat with ⟨hnone, -⟩ | ⟨l, hl, -, hat⟩
      · simp at hnone
      · obtain rfl := Option.some.inj hl
        have hlen : (lookoutOf judge frames k 1).offsets.length = 1 := by simp [lookoutOf]
        have hreported := hat.reported 0 (by omega)
        have hget : (lookoutOf judge frames k 1).offsets[0] = (regionOf frames k 1).length := by
          rw [← hend]
          simp [lookoutOf]
        rw [hget, hat.seen] at hreported
        by_contra hrest
        have hpos := List.length_pos_iff.mpr hrest
        have hnext : watch.next = 0 := by omega
        rw [Watcher.spent, Watch.spent, hat.offsets, hlen, hnext, if_neg (by omega), Watch.call,
          hat.passed] at hspent
        simp only [Passed.call, hnext, Nat.add_zero] at hspent
        have hempty : w.remainder.isEmpty = false := by
          rw [hremainder, List.isEmpty_eq_false_iff]
          exact hrest
        rw [hempty] at hspent
        have hfirst : (lookoutOf judge frames k 1).first = k := rfl
        rw [hfirst] at hspent
        cases hcount : (lookoutOf judge frames k 1).judge.count k
            (w.walked - (lookoutOf judge frames k 1).before find (regionOf frames k 1) 0) with
        | error e => simp [hcount, Except.map] at hspent
        | ok _ =>
            rw [hcount] at hspent
            cases hwhole : (lookoutOf judge frames k 1).judge.endsWhole k false with
            | error e => simp [hwhole, Except.map] at hspent
            | ok _ => exact absurd (h.of_ok hk hcount hwhole).2 (by simp)

/-- The first `count` items of a region end where its first `count` records do, or with it. -/
theorem length_take_items (find : Finder UInt8) (tail : Bool) (region : Bytes) (count : Nat) :
    ((find.items tail region).take count).flatten.length =
      if tail = true ∧ (find.records region).length < count then region.length
      else find.offset region count := by
  have hsplit := congrArg List.length (find.flatten_records_append_rest region)
  rw [List.length_append] at hsplit
  by_cases hfinal : tail = true ∧ (find.records region).length < count
  · obtain ⟨htail, hlt⟩ := hfinal
    have hitems := find.length_items_le tail region
    rw [if_pos ⟨htail, hlt⟩, List.take_of_length_le (by omega)]
    by_cases hrest : find.rest region = []
    · rw [Finder.items_of_rest hrest, ← hsplit, hrest, List.length_nil, Nat.add_zero]
    · rw [Finder.items_of_tail htail hrest, List.flatten_append, List.length_append,
        List.flatten_singleton, hsplit]
  · rw [if_neg hfinal, Finder.offset]
    by_cases htail : tail = true
    · have hle : count ≤ (find.records region).length := by
        by_contra hlt
        exact hfinal ⟨htail, by omega⟩
      rw [Finder.items, List.take_append_of_le_length hle]
    · rw [Bool.not_eq_true] at htail
      rw [htail, find.items_false]

/-- A walk that was not refused vouches for the frames it got past, and fails to exactly where the
last record it handed out is an unfinished one over the end of a frame. -/
theorem sound_iff {judge : FrameJudge} (h : judge.Judges n frames) (ne : ∀ g ∈ frames, g ≠ [])
    (hkj : k + j ≤ frames.length) {post : Option Lookout}
    (hpost : WatchesOver judge frames k j post) {watcher : Watcher} {c count skip : Nat}
    (hat : watcher.At find (regionOf frames k j) post c)
    (hreach : min count (find.records (regionOf frames k j)).length ≤ c) :
    Sound find tail n frames (requestOf frames k j skip) count ↔
      ¬ Straddles find tail frames (requestOf frames k j skip) count := by
  have hstart : (requestOf frames k j skip).start = startOf frames k := rfl
  have hadd := startOf_add frames k j
  have hoffset := find.offset_le (regionOf frames k j)
  have hfirst : ∀ i, startOf frames k < startOf frames (i + 1) → k ≤ i := by
    intro i hlt
    by_contra hgt
    have := startOf_mono frames (k := i + 1) (j := k) (by omega)
    omega
  have hinside : ∀ i, i < frames.length →
      startOf frames (i + 1) ≤ startOf frames k + (regionOf frames k j).length → i < k + j := by
    intro i hi hle
    have := (startOf_le_iff ne (k := i + 1) (j := k + j) (by omega)).mp (by omega)
    omega
  constructor
  · rintro hsound ⟨htail, hmore, hex⟩
    simp only [spanOf_requestOf, hstart] at hmore hex
    -- The first frame the unfinished record runs over the end of.
    classical
    obtain ⟨hi, hlt, hle⟩ := Nat.find_spec hex
    have hmin : ∀ i < Nat.find hex, _ := fun i => Nat.find_min hex
    generalize Nat.find hex = i at hi hlt hle hmin
    have hki : k ≤ i := hfirst i (by omega)
    have hij := hinside i (by omega) hle
    have hbefore : startOf frames i ≤
        startOf frames k + find.offset (regionOf frames k j)
          (find.records (regionOf frames k j)).length := by
      by_contra hgt
      rcases Nat.lt_or_ge k i with hlt' | hge
      · have hpred : i - 1 + 1 = i := by omega
        refine hmin (i - 1) (by omega) ⟨by omega, ?_, ?_⟩
        · rw [hpred]
          omega
        · rw [hpred]
          have := startOf_mono frames (k := i) (j := i + 1) (by omega)
          omega
      · obtain rfl : i = k := by omega
        omega
    have hfull := hsound i hi (by rw [hstart]; exact startOf_mono frames hki) (by
      rw [reachOf, spanOf_requestOf, length_take_items, if_pos ⟨htail, hmore⟩]
      exact hle)
    -- The frames in front of it end with a record, and so does it.
    obtain ⟨t, rfl⟩ := Nat.exists_eq_add_of_le hki
    have hrest : find.rest (regionOf frames k t) = [] := by
      cases t with
      | zero => simp [regionOf]
      | succ t =>
          rcases hpost with rfl | ⟨-, hlast⟩
          · have hpasses := passes_of_at (t := t) hat (by omega) (by
              have hmono := find.offset_mono (regionOf frames k j)
                (i := (find.records (regionOf frames k j)).length) (j := c) (by omega)
              rw [Nat.add_assoc]
              omega)
            exact (full_of_passes h (by omega) (by omega) hpasses).2
          · omega
    have hwhole : find.rest (regionOf frames k (t + 1)) = [] := by
      rw [regionOf_succ (by omega), find.rest_append_of_rest hrest, hfull.2]
    have hgrown := startOf_add frames k (t + 1)
    have hcut : regionOf frames k (t + 1) ++
        (regionOf frames k j).drop (regionOf frames k (t + 1)).length = regionOf frames k j := by
      have htj : t + 1 ≤ j := by omega
      have htake : (regionOf frames k j).take (startOf frames (k + (t + 1)) - startOf frames k) =
          regionOf frames k (t + 1) := regionOf_take htj
      rw [hgrown, Nat.add_sub_cancel_left] at htake
      conv_lhs => rw [← htake]
      have hlen : ((regionOf frames k j).take (regionOf frames k (t + 1)).length).length =
          (regionOf frames k (t + 1)).length := by rw [htake]
      rw [hlen, List.take_append_drop]
    have hends : find.offset (regionOf frames k j)
        (find.records (regionOf frames k (t + 1))).length = (regionOf frames k (t + 1)).length := by
      rw [← hcut, find.offset_append _ _ (Nat.le_refl _)]
      have hsplit := find.offset_add_length_after (regionOf frames k (t + 1))
        (find.records (regionOf frames k (t + 1))).length
      rw [find.after_of_length_le (Nat.le_refl _), hwhole] at hsplit
      simpa using hsplit
    have hle' := find.length_records_le_append (regionOf frames k (t + 1))
      ((regionOf frames k j).drop (regionOf frames k (t + 1)).length)
    rw [hcut] at hle'
    have hmono := find.offset_mono (regionOf frames k j) hle'
    rw [Nat.add_assoc] at hlt
    omega
  · intro hplain i hi hfrom hto
    rw [hstart] at hfrom
    rw [reachOf, spanOf_requestOf, hstart, length_take_items] at hto
    have hki := (startOf_le_iff ne (k := k) (j := i) (by omega)).mp hfrom
    have hreached : startOf frames (i + 1) ≤
        startOf frames k + find.offset (regionOf frames k j) c := by
      by_cases hfinal : tail = true ∧ (find.records (regionOf frames k j)).length < count
      · rw [if_pos hfinal] at hto
        have hmono := find.offset_mono (regionOf frames k j)
          (i := (find.records (regionOf frames k j)).length) (j := c) (by omega)
        by_contra hgt
        refine hplain ⟨hfinal.1, ?_, i, hi, ?_, ?_⟩
        · rw [spanOf_requestOf]
          exact hfinal.2
        · rw [spanOf_requestOf, hstart]
          omega
        · rw [spanOf_requestOf, hstart]
          exact hto
      · rw [if_neg hfinal] at hto
        have hmono := find.offset_mono (regionOf frames k j) hreach
        by_cases hle : count ≤ (find.records (regionOf frames k j)).length
        · rw [Nat.min_eq_left hle] at hmono
          omega
        · have hall : find.offset (regionOf frames k j) count =
              find.offset (regionOf frames k j) (find.records (regionOf frames k j)).length := by
            rw [Finder.offset, Finder.offset, List.take_of_length_le (by omega),
              List.take_of_length_le (Nat.le_refl _)]
          rw [Nat.min_eq_right (by omega)] at hmono
          omega
    have hij := hinside i (by omega) (by have := hoffset c; omega)
    obtain ⟨t, rfl⟩ := Nat.exists_eq_add_of_le hki
    rcases hpost with rfl | ⟨-, hlast⟩
    · exact (full_of_passes h (by omega) hi
        (passes_of_at (t := t) hat (by omega) (by omega))).1
    · omega

end SeekZstdSep
