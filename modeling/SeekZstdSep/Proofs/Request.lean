/-
Module: SeekZstdSep.Proofs.Request
Purpose: The arithmetic of a request for a range of records, up to the integer limits. A product
  that saturates is divided all the same, by which the request may come to another frame than the
  one its records are in.
Trusted boundary: none
Main exports: frameHolding, saturatedFrame, RequestExact, RequestFits, requestExact_iff
-/
import SeekZstdSep.Proofs.Place

namespace SeekZstdSep

open Lib

/-- The frame record `i` is in, or the last one where the record is past them all. -/
def frameHolding (frames : List Bytes) (n i : Nat) : Nat := min (i / n) (frames.length - 1)

/-- The frame a saturated product is divided to, if the file has as many. -/
def saturatedFrame (frames : List Bytes) (n : Nat) : Nat := usizeMax / (n * frames.length)

/-- A request is refused exactly where its first record is past the full frames, and otherwise
starts with the frame of that record, skips what of the frame comes before it, and reaches to the
end of the frame its last record is in. -/
structure RequestExact (frames : List Bytes) (n : Nat) (label : String) (fromIdx cnt : Nat) :
    Prop where
  refuses : n * frames.length < fromIdx →
    recordsRequest (spansOf frames) n label fromIdx cnt = .error (.pastTheEnd fromIdx label)
  serves : fromIdx ≤ n * frames.length →
    ∃ req, recordsRequest (spansOf frames) n label fromIdx cnt = .ok req ∧
      req.start = startOf frames (frameHolding frames n fromIdx) ∧
      req.skip = fromIdx - n * frameHolding frames n fromIdx ∧
      startOf frames (frameHolding frames n (fromIdx + cnt - 1) + 1) ≤ req.start + req.len

/-- Neither product saturates, or the saturated one is divided to the right frame: for the first
record, to the one it is in or, where it is to be refused, past them all; for the last one, to a
frame that ends where its own does or behind that. -/
structure RequestFits (frames : List Bytes) (n fromIdx cnt : Nat) : Prop where
  first : frames.length * fromIdx ≤ usizeMax ∨
    if n * frames.length < fromIdx then frames.length ≤ saturatedFrame frames n
    else min (saturatedFrame frames n) (frames.length - 1) = frameHolding frames n fromIdx
  last : fromIdx ≤ n * frames.length →
    frames.length * (fromIdx + cnt + 1) ≤ usizeMax ∨
      startOf frames (frameHolding frames n (fromIdx + cnt - 1) + 1) ≤
        startOf frames (min (saturatedFrame frames n) (frames.length - 1) + 1)

variable {frames : List Bytes} {n fromIdx cnt : Nat} {label : String}

/-! ### The quotients -/

theorem saturatingMul_div (hm : 0 < frames.length) (x : Nat) :
    saturatingMul frames.length x / (n * frames.length) =
      if frames.length * x ≤ usizeMax then x / n else saturatedFrame frames n := by
  rw [saturatingMul]
  split
  · next hsmall => rw [Nat.min_eq_left hsmall, mul_div_frames hm]
  · next hlarge => rw [Nat.min_eq_right (Nat.le_of_not_le hlarge), saturatedFrame]

/-- A saturated sum saturates the product with it. -/
theorem saturatingMul_saturatingAdd (hm : 0 < frames.length) (fromIdx cnt : Nat) :
    saturatingMul frames.length (saturatingAdd (saturatingAdd fromIdx cnt) 1) =
      saturatingMul frames.length (fromIdx + cnt + 1) := by
  simp only [saturatingMul, saturatingAdd]
  by_cases hsmall : fromIdx + cnt + 1 ≤ usizeMax
  · rw [Nat.min_eq_left (show fromIdx + cnt ≤ usizeMax by omega), Nat.min_eq_left hsmall]
  · have htop : min (min (fromIdx + cnt) usizeMax + 1) usizeMax = usizeMax := by omega
    have hwide := Nat.le_mul_of_pos_left usizeMax hm
    have hmore := Nat.mul_le_mul_left frames.length
      (show usizeMax ≤ fromIdx + cnt + 1 by omega)
    rw [htop, Nat.min_eq_right hwide, Nat.min_eq_right (by omega)]

/-- Where the product with an index saturates, the index is not in front of the frame that is
divided to. -/
theorem saturatedFrame_le (hm : 0 < frames.length)
    (hlarge : ¬ frames.length * fromIdx ≤ usizeMax) : saturatedFrame frames n ≤ fromIdx / n := by
  rw [saturatedFrame, ← mul_div_frames (n := n) hm]
  exact Nat.div_le_div_right (Nat.le_of_not_le hlarge)

/-! ### What a request comes to -/

/-- Past the full frames a request is refused where it sees that it is. -/
theorem recordsRequest_past (label : String) (cnt : Nat) (hm : 0 < frames.length) (hn : 0 < n)
    (hpast : n * frames.length < fromIdx) :
    recordsRequest (spansOf frames) n label fromIdx cnt = .error (.pastTheEnd fromIdx label) ↔
      frames.length * fromIdx ≤ usizeMax ∨ frames.length ≤ saturatedFrame frames n := by
  have hfar : frames.length ≤ fromIdx / n := by
    rw [Nat.le_div_iff_mul_le hn, Nat.mul_comm]
    exact Nat.le_of_lt hpast
  have hslot : ∀ q, ¬ (q = frames.length ∧ fromIdx = n * frames.length) := by
    rintro q ⟨-, heq⟩
    omega
  rw [recordsRequest]
  simp only [spansOf_length, saturatingMul_div hm, if_neg (hslot _)]
  by_cases hsmall : frames.length * fromIdx ≤ usizeMax
  · simp [hsmall, hfar]
  · simp only [hsmall, if_false, false_or]
    by_cases hq : frames.length ≤ saturatedFrame frames n
    · simp [hq]
    · simp [hq]

/-- The frame the product with an index is divided to, or the last one. -/
def requestFrame (frames : List Bytes) (n i : Nat) : Nat :=
  min (if frames.length * i ≤ usizeMax then i / n else saturatedFrame frames n)
    (frames.length - 1)

theorem requestFrame_mono (hm : 0 < frames.length) {i j : Nat} (h : i ≤ j) :
    requestFrame frames n i ≤ requestFrame frames n j := by
  have hmul := Nat.mul_le_mul_left frames.length h
  have hdiv : saturatingMul frames.length i / (n * frames.length) ≤
      saturatingMul frames.length j / (n * frames.length) := by
    apply Nat.div_le_div_right
    rw [saturatingMul, saturatingMul]
    omega
  rw [saturatingMul_div hm, saturatingMul_div hm] at hdiv
  rw [requestFrame, requestFrame]
  omega

theorem mul_requestFrame_le (hm : 0 < frames.length) (i : Nat) :
    n * requestFrame frames n i ≤ i := by
  have hquotient : requestFrame frames n i ≤ i / n := by
    apply Nat.le_trans (Nat.min_le_left _ _)
    split
    · exact Nat.le_refl _
    · next hlarge => exact saturatedFrame_le hm hlarge
  exact Nat.le_trans (Nat.mul_le_mul_left n hquotient) (Nat.mul_div_le i n)

/-- Up to the end of the full frames a request is for the bytes of whole frames. -/
theorem recordsRequest_within (label : String) (cnt : Nat) (hm : 0 < frames.length) (hn : 0 < n)
    (hle : fromIdx ≤ n * frames.length) :
    recordsRequest (spansOf frames) n label fromIdx cnt =
      .ok
        { start := startOf frames (requestFrame frames n fromIdx)
          len := startOf frames (requestFrame frames n (fromIdx + cnt + 1) + 1) -
            startOf frames (requestFrame frames n fromIdx)
          skip := fromIdx - n * requestFrame frames n fromIdx } := by
  have hfirst : (if frames.length * fromIdx ≤ usizeMax then fromIdx / n
      else saturatedFrame frames n) ≤ fromIdx / n := by
    split
    · exact Nat.le_refl _
    · next hlarge => exact saturatedFrame_le hm hlarge
  have hframes : fromIdx / n ≤ frames.length := Nat.div_le_of_le_mul hle
  have hmax : frames.length ≤ fromIdx / n → fromIdx = n * frames.length := by
    intro hge
    rw [Nat.le_div_iff_mul_le hn, Nat.mul_comm] at hge
    exact Nat.le_antisymm hle hge
  rw [recordsRequest]
  simp only [spansOf_length, saturatingMul_saturatingAdd hm, saturatingMul_div hm]
  obtain ⟨q, hq⟩ : ∃ q, (if frames.length * fromIdx ≤ usizeMax then fromIdx / n
    else saturatedFrame frames n) = q := ⟨_, rfl⟩
  have hplaced : (if q = frames.length ∧ fromIdx = n * frames.length then q - 1 else q) =
      requestFrame frames n fromIdx := by
    rw [requestFrame, hq]
    rw [hq] at hfirst
    by_cases hslot : q = frames.length
    · rw [if_pos ⟨hslot, hmax (by omega)⟩]
      omega
    · rw [if_neg fun h => hslot h.1]
      omega
  have hlast : requestFrame frames n (fromIdx + cnt + 1) < frames.length := by
    rw [requestFrame]
    omega
  have hbefore : requestFrame frames n fromIdx < frames.length := by
    rw [requestFrame]
    omega
  rw [hq, hplaced, ← requestFrame, if_neg (Nat.not_le_of_lt hbefore), spansOf_at hbefore,
    spansOf_at hlast, startOf_succ hlast, Nat.mul_comm _ n]

/-! ### When it is exact -/

theorem requestFrame_of_small {i : Nat} (h : frames.length * i ≤ usizeMax) :
    requestFrame frames n i = frameHolding frames n i := by
  rw [requestFrame, if_pos h, frameHolding]

theorem requestFrame_of_large {i : Nat} (h : ¬ frames.length * i ≤ usizeMax) :
    requestFrame frames n i = min (saturatedFrame frames n) (frames.length - 1) := by
  rw [requestFrame, if_neg h]

/-- A request is exact where its products do not saturate, or saturated are divided to the right
frames all the same, and nowhere else. -/
theorem requestExact_iff (hne : frames ≠ []) (hn : 0 < n) :
    RequestExact frames n label fromIdx cnt ↔ RequestFits frames n fromIdx cnt := by
  have hm := List.length_pos_iff.mpr hne
  rcases Nat.lt_or_ge (n * frames.length) fromIdx with hpast | hle
  · have hnot : ¬ fromIdx ≤ n * frames.length := Nat.not_le_of_lt hpast
    have hrefused := recordsRequest_past label cnt hm hn hpast
    constructor
    · intro h
      constructor
      · rw [if_pos hpast]
        exact hrefused.mp (h.refuses hpast)
      · exact fun hle => absurd hle hnot
    · intro h
      constructor
      · intro _
        have hfirst := h.first
        rw [if_pos hpast] at hfirst
        exact hrefused.mpr hfirst
      · exact fun hle => absurd hle hnot
  · have hnot : ¬ n * frames.length < fromIdx := Nat.not_lt_of_le hle
    have hok := recordsRequest_within label cnt hm hn hle
    have hplace := mul_requestFrame_le (n := n) hm fromIdx
    have hframe : n * frameHolding frames n fromIdx ≤ fromIdx :=
      Nat.le_trans (Nat.mul_le_mul_left n (Nat.min_le_left _ _)) (Nat.mul_div_le fromIdx n)
    have hspan : startOf frames (requestFrame frames n fromIdx) ≤
        startOf frames (requestFrame frames n (fromIdx + cnt + 1) + 1) := by
      apply startOf_mono
      exact Nat.le_succ_of_le (requestFrame_mono hm (by omega))
    constructor
    · intro h
      obtain ⟨req, hreq, -, hskip, hreach⟩ := h.serves hle
      rw [hok] at hreq
      cases hreq
      have hfirst : requestFrame frames n fromIdx = frameHolding frames n fromIdx := by
        apply Nat.eq_of_mul_eq_mul_left hn
        simp only at hskip
        omega
      constructor
      · by_cases hsmall : frames.length * fromIdx ≤ usizeMax
        · exact Or.inl hsmall
        · right
          rw [if_neg hnot, ← requestFrame_of_large hsmall]
          exact hfirst
      · intro _
        by_cases hsmall : frames.length * (fromIdx + cnt + 1) ≤ usizeMax
        · exact Or.inl hsmall
        · right
          rw [← requestFrame_of_large hsmall]
          simp only at hreach
          omega
    · intro h
      have hfirst : requestFrame frames n fromIdx = frameHolding frames n fromIdx := by
        rcases h.first with hsmall | hright
        · exact requestFrame_of_small hsmall
        · by_cases hsmall : frames.length * fromIdx ≤ usizeMax
          · exact requestFrame_of_small hsmall
          · rw [if_neg hnot] at hright
            rw [requestFrame_of_large hsmall, hright]
      have hlast : startOf frames (frameHolding frames n (fromIdx + cnt - 1) + 1) ≤
          startOf frames (requestFrame frames n (fromIdx + cnt + 1) + 1) := by
        by_cases hsmall : frames.length * (fromIdx + cnt + 1) ≤ usizeMax
        · rw [requestFrame_of_small hsmall]
          apply startOf_mono
          apply Nat.succ_le_succ
          apply min_le_min_right
          apply Nat.div_le_div_right
          omega
        · rcases h.last hle with hsmall' | hright
          · exact absurd hsmall' hsmall
          · rw [requestFrame_of_large hsmall]
            exact hright
      constructor
      · exact fun hpast => absurd hpast hnot
      · intro _
        refine ⟨_, hok, ?_, ?_, ?_⟩
        · rw [hfirst]
        · rw [hfirst]
        · simp only
          omega

/-- Two frames of two records each. -/
theorem requestExact_iff_two :
    RequestExact [[97, 10, 98, 10], [99, 10, 100, 10]] 2 "two" 3 usizeMax ↔
      RequestFits [[97, 10, 98, 10], [99, 10, 100, 10]] 2 3 usizeMax :=
  requestExact_iff (by decide) (by decide)

theorem not_requestExact_of_length (hlen : frames.length = 2 ^ 23) :
    ¬ RequestExact frames (2 ^ 20) label (2 ^ 42) 1 := by
  have hne : frames ≠ [] := by
    rintro rfl
    simp at hlen
  rw [requestExact_iff hne (by omega)]
  intro h
  have hfirst := h.first
  rw [hlen, saturatedFrame, frameHolding, hlen, usizeMax, if_neg (by omega)] at hfirst
  omega

/-- `2 ^ 23` frames, each of `2 ^ 20` records of two bytes. -/
def wideFile : List Bytes :=
  List.replicate (2 ^ 23) (List.replicate (2 ^ 20) ([97, 10] : Bytes)).flatten

/-- Its record `2 ^ 42` is in frame `2 ^ 22`; the request is for frame `2 ^ 21 - 1`. -/
theorem not_requestExact_wideFile :
    2 ^ 20 * wideFile.length ≤ usizeMax ∧ wideFile ≠ [] ∧
      ¬ RequestExact wideFile (2 ^ 20) "wide" (2 ^ 42) 1 := by
  have hlen : wideFile.length = 2 ^ 23 := List.length_replicate
  refine ⟨?_, ?_, not_requestExact_of_length hlen⟩
  · rw [hlen, usizeMax]
    omega
  · rw [← List.length_pos_iff, hlen]
    omega

end SeekZstdSep
