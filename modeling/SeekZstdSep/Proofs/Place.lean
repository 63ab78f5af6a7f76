/-
Module: SeekZstdSep.Proofs.Place
Purpose: Where a reader's arithmetic puts a read. The spans of a list of frames, the region a
  range of records is decoded from, and the frame ends a verifying read is watched against: on
  uniform frames the region holds the records asked for, and no watched frame is refused.
Trusted boundary: none
Main exports: startOf, spansOf, regionOf, recordsRequest_spec, lookoutOf, lookoutOf_fits,
  frameEndsFrom_eq, watchFrames_at
-/
import SeekZstdSep.Core.Reader
import SeekZstdSep.Proofs.Walk

namespace SeekZstdSep

open Lib

/-! ### Spans and regions -/

/-- The offset at which frame `k` starts. -/
def startOf (frames : List Bytes) (k : Nat) : Nat := (frames.take k).flatten.length

/-- Where each frame starts and how long it is. -/
def spansOf (frames : List Bytes) : Spans :=
  (List.range frames.length).map fun k => (startOf frames k, (frames.getD k []).length)

/-- The `j` frames from frame `k` on, joined. -/
def regionOf (frames : List Bytes) (k j : Nat) : Bytes := ((frames.drop k).take j).flatten

variable {frames : List Bytes} {k j : Nat}

@[simp] theorem spansOf_length (frames : List Bytes) : (spansOf frames).length = frames.length := by
  simp [spansOf]

theorem spansOf_at (hk : k < frames.length) :
    (spansOf frames).at k = (startOf frames k, frames[k].length) := by
  rw [Spans.at, spansOf, List.getD_eq_getElem?_getD, List.getElem?_map,
    List.getElem?_range hk, Option.map_some, Option.getD_some, List.getD_eq_getElem?_getD,
    List.getElem?_eq_getElem hk, Option.getD_some]

theorem startOf_succ (hk : k < frames.length) :
    startOf frames (k + 1) = startOf frames k + frames[k].length := by
  rw [startOf, startOf, List.take_succ_eq_append_getElem hk, List.flatten_append,
    List.length_append, List.flatten_singleton]

@[simp] theorem startOf_zero (frames : List Bytes) : startOf frames 0 = 0 := by simp [startOf]

theorem startOf_length (frames : List Bytes) :
    startOf frames frames.length = frames.flatten.length := by
  simp [startOf]

theorem startOf_add (frames : List Bytes) (k j : Nat) :
    startOf frames (k + j) = startOf frames k + (regionOf frames k j).length := by
  rw [startOf, startOf, regionOf, List.take_add, List.flatten_append, List.length_append]

theorem startOf_mono (frames : List Bytes) (h : k ≤ j) : startOf frames k ≤ startOf frames j := by
  obtain ⟨c, rfl⟩ := Nat.exists_eq_add_of_le h
  rw [startOf_add]
  omega

/-- Frames that hold something start one after the other. -/
theorem startOf_lt (ne : ∀ g ∈ frames, g ≠ []) (hj : j ≤ frames.length) (h : k < j) :
    startOf frames k < startOf frames j := by
  have hk : k < frames.length := by omega
  have hpos := List.length_pos_iff.mpr (ne _ (List.getElem_mem hk))
  have hsucc := startOf_succ hk
  have hmono := startOf_mono frames (k := k + 1) (j := j) h
  omega

theorem startOf_le_iff (ne : ∀ g ∈ frames, g ≠ []) (hk : k ≤ frames.length) :
    startOf frames k ≤ startOf frames j ↔ k ≤ j := by
  constructor
  · intro h
    by_contra hlt
    have := startOf_lt ne hk (Nat.lt_of_not_le hlt)
    omega
  · exact startOf_mono frames

theorem spansOf_last (hne : frames ≠ []) :
    (spansOf frames).last = (startOf frames (frames.length - 1), (frames.getLast hne).length) := by
  have hpos := List.length_pos_iff.mpr hne
  rw [Spans.last, spansOf_length, spansOf_at (by omega), List.getLast_eq_getElem]

theorem spansOf_last_end (hne : frames ≠ []) :
    (spansOf frames).last.1 + (spansOf frames).last.2 = frames.flatten.length := by
  have hpos := List.length_pos_iff.mpr hne
  have hlt : frames.length - 1 < frames.length := by omega
  have hsucc := startOf_succ hlt
  rw [spansOf_last hne, List.getLast_eq_getElem, ← startOf_length]
  rw [Nat.sub_add_cancel hpos] at hsucc
  exact hsucc.symm

/-- The decoder reads a region where its first frame starts. -/
theorem regionOf_eq (frames : List Bytes) (k j : Nat) :
    (frames.flatten.drop (startOf frames k)).take (regionOf frames k j).length =
      regionOf frames k j := by
  have hsplit : frames.flatten =
      (frames.take k).flatten ++ (regionOf frames k j ++ ((frames.drop k).drop j).flatten) := by
    rw [regionOf, ← List.flatten_append, List.take_append_drop, ← List.flatten_append,
      List.take_append_drop]
  rw [hsplit, startOf, List.drop_left' rfl, List.take_left' rfl]

theorem regionOf_one (hk : k < frames.length) : regionOf frames k 1 = frames[k] := by
  rw [regionOf, List.drop_eq_getElem_cons hk, List.take_succ_cons, List.take_zero,
    List.flatten_singleton]

/-- Regions grow by a frame. -/
theorem regionOf_succ (hkj : k + j < frames.length) :
    regionOf frames k (j + 1) = regionOf frames k j ++ frames[k + j] := by
  have hlt : j < (frames.drop k).length := by
    rw [List.length_drop]
    omega
  rw [regionOf, regionOf, List.take_succ_eq_append_getElem hlt, List.flatten_append,
    List.flatten_singleton, List.getElem_drop]

theorem regionOf_take {i : Nat} (hij : i ≤ j) :
    (regionOf frames k j).take (startOf frames (k + i) - startOf frames k) =
      regionOf frames k i := by
  obtain ⟨c, rfl⟩ := Nat.exists_eq_add_of_le hij
  have hsplit : regionOf frames k (i + c) = regionOf frames k i ++ regionOf frames (k + i) c := by
    rw [regionOf, regionOf, regionOf, List.take_add, List.flatten_append, List.drop_drop]
  rw [hsplit, startOf_add, Nat.add_sub_cancel_left, List.take_left' rfl]

/-- The spans the seek table gives are those of the frames. -/
theorem spansFrom_eq (start : Nat) (table : SeekTable) (frames : List Bytes)
    (h : table.map Prod.snd = frames.map List.length) :
    spansFrom start table = (spansOf frames).map fun span => (start + span.1, span.2) := by
  induction frames generalizing start table with
  | nil =>
      rw [List.map_nil, List.map_eq_nil_iff] at h
      subst h
      rfl
  | cons g frames ih =>
      cases table with
      | nil => simp at h
      | cons entry table =>
          rw [List.map_cons, List.map_cons, List.cons.injEq] at h
          obtain ⟨comp, len⟩ := entry
          have hspans : spansOf (g :: frames) =
              (0, g.length) :: (spansOf frames).map fun span => (g.length + span.1, span.2) := by
            simp only [spansOf, List.length_cons, List.range_succ_eq_map, List.map_cons,
              List.map_map, startOf_zero, List.getD_cons_zero]
            congr 1
            apply List.map_congr_left
            intro k _
            simp [startOf]
          rw [spansFrom, ih _ _ h.2, hspans, List.map_cons, List.map_map]
          simp only at h
          congr 1
          · simp [h.1]
          · apply List.map_congr_left
            intro span _
            simp only [Function.comp, Prod.mk.injEq, and_true]
            omega

/-! ### The request for a range of records -/

theorem mul_div_frames {m n x : Nat} (hm : 0 < m) : m * x / (n * m) = x / n := by
  rw [Nat.mul_comm n m, Nat.mul_div_mul_left _ _ hm]

/-- The last frame a request reaches: not before the one it begins in, and either the last of
all or one that ends past the records asked for. `top` is where the arithmetic saturates. -/
theorem endFrame_spec {m n k fromIdx cnt top : Nat} (hm : 0 < m) (hn : 0 < n)
    (small : n * m * m ≤ top) (hle : fromIdx ≤ n * m) (hk : k < m) (hkfrom : n * k ≤ fromIdx) :
    ∃ e, min (min (m * min (min (fromIdx + cnt) top + 1) top) top / (n * m)) (m - 1) = e ∧
      k ≤ e ∧ e < m ∧ (e + 1 = m ∨ fromIdx + cnt ≤ n * (e + 1)) := by
  have hnm : 0 < n * m := Nat.mul_pos hn hm
  have hcomm : m * (n * m) = n * m * m := by ring
  have hwide : n * m ≤ n * m * m := Nat.le_mul_of_pos_right _ hm
  generalize hstop : min (min (fromIdx + cnt) top + 1) top = stop
  have hfrom : fromIdx ≤ stop := by omega
  refine ⟨_, rfl, ?_, by omega, ?_⟩
  · rw [Nat.le_min]
    refine ⟨?_, by omega⟩
    rw [Nat.le_div_iff_mul_le hnm, Nat.le_min]
    have hk' : n * k ≤ n * m := Nat.mul_le_mul_left n (Nat.le_of_lt hk)
    have hmk := Nat.mul_le_mul_left m hk'
    have hmstop := Nat.mul_le_mul_left m (Nat.le_trans hkfrom hfrom)
    have hswap : k * (n * m) = m * (n * k) := by ring
    omega
  · by_cases hlast : min (m * stop) top / (n * m) < m - 1
    · right
      rw [Nat.min_eq_left (Nat.le_of_lt hlast)]
      have hlt := Nat.lt_div_mul_add hnm (a := min (m * stop) top)
      generalize min (m * stop) top / (n * m) = q at hlast hlt
      have hq : (q + 1) * (n * m) ≤ (m - 1) * (n * m) := Nat.mul_le_mul_right _ (by omega)
      have hm1 : (m - 1) * (n * m) ≤ m * (n * m) := Nat.mul_le_mul_right _ (by omega)
      have hsucc : (q + 1) * (n * m) = q * (n * m) + n * m := by ring
      have hswap : (q + 1) * (n * m) = m * (n * (q + 1)) := by ring
      have hstop := Nat.lt_of_mul_lt_mul_left (show m * stop < m * (n * (q + 1)) by omega)
      have hreach : n * (q + 1) ≤ n * m := Nat.mul_le_mul_left n (by omega)
      omega
    · left
      omega

/-- The quotient a request places its first record with is never past the frame that record is
in, and the one for its last record is not in front of it. `top` is where the arithmetic
saturates. -/
theorem frameQuotient_spec {m n : Nat} (fromIdx cnt top : Nat) (hm : 0 < m) (hn : 0 < n) :
    n * (min (m * fromIdx) top / (n * m)) ≤ fromIdx ∧
      min (m * fromIdx) top / (n * m) ≤
        min (m * min (min (fromIdx + cnt) top + 1) top) top / (n * m) := by
  have hnm : 0 < n * m := Nat.mul_pos hn hm
  constructor
  · have hle := Nat.div_mul_le_self (min (m * fromIdx) top) (n * m)
    generalize min (m * fromIdx) top / (n * m) = q at hle ⊢
    have hswap : q * (n * m) = m * (n * q) := by ring
    exact Nat.le_of_mul_le_mul_left (show m * (n * q) ≤ m * fromIdx by omega) hm
  · apply Nat.div_le_div_right
    by_cases htop : fromIdx ≤ top
    · have hstop := Nat.mul_le_mul_left m
        (show fromIdx ≤ min (min (fromIdx + cnt) top + 1) top by omega)
      omega
    · have hstop : min (min (fromIdx + cnt) top + 1) top = top := by omega
      have hwide := Nat.le_mul_of_pos_left top hm
      rw [hstop]
      omega

/-- A request is refused or comes to a region of whole frames, not one past the frame of its
first record. Where the index of that record does not saturate, the region begins with its frame,
or with the last frame for the slot past the full ones. -/
theorem recordsRequest_cases {n fromIdx cnt : Nat} {label : String} (hn : 0 < n)
    (hne : frames ≠ []) :
    (∃ e, recordsRequest (spansOf frames) n label fromIdx cnt = .error e) ∨
      ∃ k j, k + j ≤ frames.length ∧ 0 < j ∧ n * k ≤ fromIdx ∧
        (frames.length * fromIdx ≤ usizeMax →
          fromIdx / n = k ∨ (k + 1 = frames.length ∧ fromIdx = n * frames.length)) ∧
        recordsRequest (spansOf frames) n label fromIdx cnt =
          .ok ⟨startOf frames k, (regionOf frames k j).length, fromIdx - n * k⟩ := by
  have hm : 0 < frames.length := List.length_pos_iff.mpr hne
  have hplain : frames.length * fromIdx ≤ usizeMax →
      saturatingMul frames.length fromIdx / (n * frames.length) = fromIdx / n := by
    intro hsmall
    rw [saturatingMul, Nat.min_eq_left hsmall, mul_div_frames hm]
  obtain ⟨hfirst, hlast⟩ := frameQuotient_spec fromIdx cnt usizeMax hm hn
  rw [recordsRequest]
  simp only [spansOf_length]
  rw [← saturatingMul] at hfirst hlast
  rw [← saturatingAdd, ← saturatingAdd, ← saturatingMul] at hlast
  generalize saturatingMul frames.length fromIdx / (n * frames.length) = q at hfirst hlast hplain ⊢
  generalize saturatingMul frames.length (saturatingAdd (saturatingAdd fromIdx cnt) 1) /
    (n * frames.length) = q' at hlast ⊢
  obtain ⟨k, hk, hkq, hplace⟩ : ∃ k,
      (if q = frames.length ∧ fromIdx = n * frames.length then q - 1 else q) = k ∧ k ≤ q ∧
        (q = k ∨ (k + 1 = frames.length ∧ fromIdx = n * frames.length)) := by
    refine ⟨_, rfl, by split <;> omega, ?_⟩
    by_cases hslot : q = frames.length ∧ fromIdx = n * frames.length
    · rw [if_pos hslot]
      exact Or.inr ⟨by omega, hslot.2⟩
    · rw [if_neg hslot]
      exact Or.inl rfl
  rw [hk]
  by_cases hpast : k ≥ frames.length
  · rw [if_pos hpast]
    exact Or.inl ⟨_, rfl⟩
  · rw [if_neg hpast]
    obtain ⟨e, hend⟩ : ∃ e, min q' (frames.length - 1) = e := ⟨_, rfl⟩
    have hmul : n * k ≤ n * q := Nat.mul_le_mul_left n hkq
    refine Or.inr ⟨k, e + 1 - k, by omega, by omega, by omega, fun hsmall => ?_, ?_⟩
    · rw [← hplain hsmall]
      exact hplace
    have he : e < frames.length := by omega
    have hlen : startOf frames e + frames[e].length - startOf frames k =
        (regionOf frames k (e + 1 - k)).length := by
      have hadd := startOf_add frames k (e + 1 - k)
      rw [show k + (e + 1 - k) = e + 1 by omega, startOf_succ (by omega)] at hadd
      omega
    rw [hend, spansOf_at (by omega), spansOf_at (by omega), Nat.mul_comm k n]
    simp only [hlen]

/-- What a request comes to: refused past the last frame, and otherwise a region of whole frames
that begins with the frame of the first record and holds the range, or reaches to the end. -/
theorem recordsRequest_spec {n fromIdx cnt : Nat} {label : String} (hn : 0 < n)
    (hne : frames ≠ []) (small : n * frames.length * frames.length ≤ usizeMax) :
    (n * frames.length < fromIdx →
      recordsRequest (spansOf frames) n label fromIdx cnt =
        .error (.pastTheEnd fromIdx label)) ∧
      (fromIdx ≤ n * frames.length →
        ∃ k j, k + j ≤ frames.length ∧ 0 < j ∧ n * k ≤ fromIdx ∧
          (fromIdx / n = k ∨ (k + 1 = frames.length ∧ fromIdx = n * frames.length)) ∧
          (k + j = frames.length ∨ fromIdx + cnt ≤ n * (k + j)) ∧
          recordsRequest (spansOf frames) n label fromIdx cnt =
            .ok ⟨startOf frames k, (regionOf frames k j).length, fromIdx - n * k⟩) := by
  have hm : 0 < frames.length := List.length_pos_iff.mpr hne
  have hnm : 0 < n * frames.length := Nat.mul_pos hn hm
  have hcomm : frames.length * (n * frames.length) = n * frames.length * frames.length := by ring
  constructor
  · intro hpast
    have hq : frames.length ≤ saturatingMul frames.length fromIdx / (n * frames.length) := by
      rw [Nat.le_div_iff_mul_le hnm, saturatingMul]
      have hle := Nat.mul_le_mul_left frames.length (Nat.le_of_lt hpast)
      rw [Nat.le_min]
      omega
    rw [recordsRequest]
    simp only [spansOf_length]
    rw [if_neg (by omega : ¬ (_ ∧ fromIdx = n * frames.length)), if_pos hq]
  · intro hle
    have hq : saturatingMul frames.length fromIdx / (n * frames.length) = fromIdx / n := by
      have hbound := Nat.mul_le_mul_left frames.length hle
      rw [saturatingMul, Nat.min_eq_left (by omega), mul_div_frames hm]
    obtain ⟨k, hk, hkfrom, hplace, hidx⟩ : ∃ k, k < frames.length ∧ n * k ≤ fromIdx ∧
        (fromIdx / n = k ∨ (k + 1 = frames.length ∧ fromIdx = n * frames.length)) ∧
        (if fromIdx / n = frames.length ∧ fromIdx = n * frames.length then fromIdx / n - 1
          else fromIdx / n) = k := by
      by_cases heq : fromIdx = n * frames.length
      · have hdiv : fromIdx / n = frames.length := by rw [heq, Nat.mul_div_cancel_left _ hn]
        have hpred : n * (frames.length - 1) ≤ n * frames.length := Nat.mul_le_mul_left n (by omega)
        refine ⟨frames.length - 1, by omega, by omega, Or.inr ⟨by omega, heq⟩, ?_⟩
        rw [if_pos ⟨hdiv, heq⟩, hdiv]
      · have hdiv : fromIdx / n < frames.length :=
          (Nat.div_lt_iff_lt_mul hn).mpr (by rw [Nat.mul_comm]; omega)
        refine ⟨fromIdx / n, hdiv, Nat.mul_div_le fromIdx n, Or.inl rfl, ?_⟩
        rw [if_neg (by omega)]
    obtain ⟨e, hend, hke, he, hreach⟩ := endFrame_spec hm hn small hle hk hkfrom
    rw [← saturatingAdd, ← saturatingAdd, ← saturatingMul] at hend
    refine ⟨k, e + 1 - k, by omega, by omega, hkfrom, hplace, ?_, ?_⟩
    · rw [show k + (e + 1 - k) = e + 1 by omega]
      exact hreach
    · have hlen : startOf frames e + frames[e].length - startOf frames k =
          (regionOf frames k (e + 1 - k)).length := by
        have hadd := startOf_add frames k (e + 1 - k)
        rw [show k + (e + 1 - k) = e + 1 by omega, startOf_succ he] at hadd
        omega
      rw [recordsRequest]
      simp only [spansOf_length, hq, hidx, hend]
      rw [if_neg (by omega), spansOf_at hk, spansOf_at he, Nat.mul_comm k n]
      simp only [hlen]

/-! ### The frame ends a read is watched against -/

/-- What looks out over the `j` frames from frame `k` on. -/
def lookoutOf (judge : FrameJudge) (frames : List Bytes) (k j : Nat) : Lookout where
  judge := judge
  first := k
  offsets := (List.range j).map fun i => startOf frames (k + i + 1) - startOf frames k

theorem lookoutOf_getD {judge : FrameJudge} {i : Nat} (hi : i < j) :
    (lookoutOf judge frames k j).offsets.getD i 0 =
      startOf frames (k + i + 1) - startOf frames k := by
  rw [lookoutOf, List.getD_eq_getElem?_getD, List.getElem?_map, List.getElem?_range hi]
  rfl

theorem lookoutOf_take {judge : FrameJudge} {i : Nat} (hi : i < j) :
    (regionOf frames k j).take ((lookoutOf judge frames k j).offsets.getD i 0) =
      regionOf frames k (i + 1) := by
  rw [lookoutOf_getD hi, Nat.add_assoc, regionOf_take (Nat.succ_le_of_lt hi)]

/-- The offsets are in order and in the region, and no record straddles one without being part
of what comes before it. -/
theorem lookoutOf_fits {find : Finder UInt8} {judge : FrameJudge} (ne : ∀ g ∈ frames, g ≠ [])
    (hkj : k + j ≤ frames.length)
    (sharp : ∀ i < j, ∀ c ≤ (find.records (regionOf frames k j)).length,
      find.offset (regionOf frames k j) c ≤ startOf frames (k + i + 1) - startOf frames k →
      c ≤ (find.records (regionOf frames k (i + 1))).length) :
    (lookoutOf judge frames k j).Fits find (regionOf frames k j) where
  increasing := by
    rw [lookoutOf, List.pairwise_map]
    refine List.Pairwise.imp_of_mem ?_ List.pairwise_lt_range
    intro i i' hi hi' hlt
    rw [List.mem_range] at hi hi'
    have hmono := startOf_mono frames (k := k) (j := k + i + 1) (by omega)
    have hstrict := startOf_lt ne (k := k + i + 1) (j := k + i' + 1) (by omega) (by omega)
    omega
  pos := by
    intro e he
    obtain ⟨i, hi, rfl⟩ := List.mem_map.mp he
    rw [List.mem_range] at hi
    have := startOf_lt ne (k := k) (j := k + i + 1) (by omega) (by omega)
    omega
  le := by
    intro e he
    obtain ⟨i, hi, rfl⟩ := List.mem_map.mp he
    rw [List.mem_range] at hi
    have hadd := startOf_add frames k j
    have hmono := startOf_mono frames (k := k + i + 1) (j := k + j) (by omega)
    omega
  sharp := by
    intro e he c hc hle
    obtain ⟨i, hi, rfl⟩ := List.mem_map.mp he
    rw [List.mem_range] at hi
    rw [Nat.add_assoc, regionOf_take (by omega)]
    exact sharp i hi c hc hle

variable {find : Finder UInt8} {tail : Bool} {n : Nat}

/-- Frames before the last end where a record does. -/
theorem Lib.Uniform.rest_region (h : Uniform find tail n frames) (hkj : k + j < frames.length) :
    find.rest (regionOf frames k j) = [] := (h.records_region hkj).2

theorem Lib.Uniform.fits (h : Uniform find tail n frames) (judge : FrameJudge)
    (hkj : k + j ≤ frames.length) :
    (lookoutOf judge frames k j).Fits find (regionOf frames k j) := by
  apply lookoutOf_fits (fun g hg => h.ne_nil_of_mem hg) hkj
  intro i hi c hc hle
  by_cases hlast : k + (i + 1) < frames.length
  · have hrest := h.rest_region hlast
    rw [← regionOf_take (Nat.succ_le_of_lt hi)] at hrest ⊢
    exact find.length_le_of_offset_le hrest hc hle
  · rwa [show i + 1 = j by omega]

/-- How many records the frames `k`, …, `k + j` hold, the last of them by itself. -/
theorem Lib.Uniform.count_region_succ (h : Uniform find tail n frames)
    (hkj : k + j < frames.length) :
    count find (regionOf frames k (j + 1)) = n * j + count find frames[k + j] ∧
      endsWhole find (regionOf frames k (j + 1)) = endsWhole find frames[k + j] := by
  have hsplit := regionOf_succ hkj
  have hrest := h.rest_region hkj
  have hcount : (find.records (regionOf frames k j)).length = n * j := by
    have hdrop := (h.drop (k := k) (by omega)).records_take (k := j)
      (by rw [List.length_drop]; omega)
    exact hdrop.1
  have hne := h.ne_nil_of_mem (List.getElem_mem hkj)
  constructor
  · rw [count_eq, count_eq, hsplit, find.records_append_of_rest hrest, List.length_append, hcount]
  · rw [Bool.eq_iff_iff, endsWhole_iff, endsWhole_iff, hsplit, find.rest_append_of_rest hrest]
    simp [hne]

/-- On uniform frames nobody has anything to refuse. -/
theorem Lib.Uniform.not_blames (h : Uniform find tail n frames) {judge : FrameJudge}
    (hlast : judge.last = frames.length - 1) (hper : judge.perFrame = n)
    (hkj : k + j ≤ frames.length) :
    ¬ Blames find (regionOf frames k j) (some (lookoutOf judge frames k j)) := by
  rintro ⟨l, hl, i, hi, hpass⟩
  obtain rfl := Option.some.inj hl
  have hij : i < j := by simpa [lookoutOf] using hi
  have hki : k + i < frames.length := by omega
  have hbefore : (lookoutOf judge frames k j).before find (regionOf frames k j) i = n * i := by
    cases i with
    | zero => rfl
    | succ i =>
        rw [Lookout.before, lookoutOf_take (by omega), count_eq]
        exact ((h.drop (k := k) (by omega)).records_take (k := i + 1)
          (by rw [List.length_drop]; omega)).1
  obtain ⟨hcount, hends⟩ := h.count_region_succ hki
  apply hpass
  unfold Lookout.Passes Lookout.verdict
  rw [hbefore, Lookout.before, lookoutOf_take hij, hcount, hends, Nat.add_sub_cancel_left]
  have hframe := h.last_or_full hki
  have hcount' : (find.records frames[k + i]).length ≤ n := hframe.2.1
  simp only [lookoutOf, FrameJudge.count, FrameJudge.endsWhole, verifyFrameCount,
    verifyFrameEndsWhole, hlast, hper, count_eq]
  by_cases hfinal : k + i + 1 = frames.length
  · rw [if_neg (by omega)]
    simp only
    rw [if_neg (by omega)]
  · have hfull := h.full_getElem (k := k + i) (by omega)
    have hwhole : endsWhole find frames[k + i] = true :=
      (endsWhole_iff find _).mpr ⟨hframe.1, hfull.2⟩
    rw [if_neg (by rw [hfull.1]; simp), hwhole]
    simp

theorem takeWhile_map_range {β : Type} {g : Nat → β} {p : β → Bool} {n q : Nat} (hq : q ≤ n)
    (hpos : ∀ i < q, p (g i) = true) (hneg : q < n → p (g q) = false) :
    ((List.range n).map g).takeWhile p = (List.range q).map g := by
  obtain ⟨c, rfl⟩ := Nat.exists_eq_add_of_le hq
  rw [List.range_add, List.map_append, List.takeWhile_append_of_pos]
  · cases c with
    | zero => simp
    | succ c =>
        rw [List.range_succ_eq_map, List.map_cons, List.map_cons, List.takeWhile_cons_of_neg]
        · simp
        · simpa using hneg (by omega)
  · intro x hx
    obtain ⟨i, hi, rfl⟩ := List.mem_map.mp hx
    exact hpos i (List.mem_range.mp hi)

theorem spansOf_drop (frames : List Bytes) (k : Nat) :
    (spansOf frames).drop k =
      (List.range (frames.length - k)).map fun i =>
        (startOf frames (k + i), (frames.getD (k + i) []).length) := by
  apply List.ext_getElem?
  intro i
  rw [List.getElem?_drop, spansOf, List.getElem?_map, List.getElem?_map]
  by_cases hi : k + i < frames.length
  · rw [List.getElem?_range hi, List.getElem?_range (by omega)]
    rfl
  · rw [List.getElem?_eq_none (by simp; omega), List.getElem?_eq_none (by simp; omega)]
    rfl

/-- A read of whole frames is watched at every frame end it reaches. -/
theorem frameEndsFrom_eq (judge : FrameJudge) (ne : ∀ g ∈ frames, g ≠ [])
    (hkj : k + j ≤ frames.length) :
    frameEndsFrom (spansOf frames) k (startOf frames k) (regionOf frames k j).length =
      (lookoutOf judge frames k j).offsets := by
  have hend : ∀ i, k + i < frames.length →
      startOf frames (k + i) + (frames.getD (k + i) []).length = startOf frames (k + i + 1) := by
    intro i hi
    rw [startOf_succ hi, List.getD_eq_getElem?_getD, List.getElem?_eq_getElem hi, Option.getD_some]
  have hadd := startOf_add frames k j
  have hle : ∀ i, k + i < frames.length →
      (startOf frames (k + i + 1) - startOf frames k ≤ (regionOf frames k j).length ↔ i < j) := by
    intro i hi
    have hiff := startOf_le_iff (k := k + i + 1) (j := k + j) ne (by omega)
    have hmono := startOf_mono frames (k := k) (j := k + i + 1) (by omega)
    omega
  rw [frameEndsFrom, spansOf_drop, List.map_map, takeWhile_map_range (q := j)]
  · rw [lookoutOf]
    simp only
    rw [List.filterMap_map]
    apply List.filterMap_eq_map_iff_forall_eq_some.mpr
    intro i hi
    rw [List.mem_range] at hi
    have hmono := startOf_mono frames (k := k) (j := k + i + 1) (by omega)
    simp only [Function.comp, id, hend i (by omega), if_pos hmono]
  · omega
  · intro i hi
    have hmono := startOf_mono frames (k := k) (j := k + i + 1) (by omega)
    simp only [Function.comp, hend i (by omega), if_pos hmono, Option.any_some, decide_eq_true_eq]
    exact (hle i (by omega)).mpr hi
  · intro hj
    have hmono := startOf_mono frames (k := k) (j := k + j + 1) (by omega)
    simp only [Function.comp, hend j (by omega), if_pos hmono, Option.any_some,
      decide_eq_false_iff_not]
    exact (hle j (by omega)).not.mpr (Nat.lt_irrefl j)

/-- A watch that has reported nothing is in step with a walk that has not begun. -/
theorem watchFrames_at {find : Finder UInt8} {judge : FrameJudge} {region : Bytes} {l : Lookout}
    (hl : l.Fits find region) (hjudge : l.judge = judge) :
    (Watcher.watched (watchFrames judge l.first l.offsets)).At find region (some l) 0 := by
  refine Or.inr ⟨l, rfl, hl, rfl, ?_, ?_, Nat.zero_le _, ?_, ?_⟩
  · simp [watchFrames, Finder.offset]
  · rw [← hjudge]
    rfl
  · intro i hi
    have hpos := hl.pos _ (List.getElem_mem hi)
    have hseen : (watchFrames judge l.first l.offsets).seen = 0 := rfl
    have hnext : (watchFrames judge l.first l.offsets).next = 0 := rfl
    omega
  · intro i hi
    have hnext : (watchFrames judge l.first l.offsets).next = 0 := rfl
    omega

end SeekZstdSep
