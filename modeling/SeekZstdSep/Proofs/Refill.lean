/-
Module: SeekZstdSep.Proofs.Refill
Purpose: What a refill may count on. Whatever was done to a window since it was pointed at a
  region, a refill of it subtracts nothing from less, and asks for no byte behind a frame end that
  is still ahead.
Trusted boundary: none
Main exports: Window.Sound, Window.Steps.sound, Window.Refills, Window.Sound.refills
-/
import SeekZstdSep.Proofs.Window

namespace SeekZstdSep.Window

open Lib

variable {find : Finder UInt8} {w w' : Window}

/-- What holds of a window at any time: what is consumed was read, what was read fits, and the frame
ends are passed exactly up to where the window is loaded. -/
structure Sound (w : Window) : Prop where
  pos_le : w.pos ≤ w.buf.length
  buf_le : w.buf.length ≤ w.cap
  sorted : w.frameEnds.Pairwise (· ≤ ·)
  passed : ∀ e ∈ w.frameEnds.take w.nextFrameEnd, e ≤ w.frameEndBase + (w.offset + w.buf.length)
  pending : ∀ e ∈ w.frameEnds.drop w.nextFrameEnd, w.frameEndBase + (w.offset + w.buf.length) ≤ e

/-- Where every subtraction of a refill of the window has enough to take from, and no byte behind a
frame end is asked for. -/
structure Refills (w : Window) : Prop where
  /-- `*end - self.frame_end_base`, for the frame ends that are looked at. -/
  based : ∀ e ∈ w.frameEnds.drop w.nextFrameEnd, w.frameEndBase ≤ e
  /-- `self.filled -= self.pos`. -/
  consumed : w.pos ≤ w.buf.length
  /-- `self.buf.len() - self.filled`. -/
  room : ∀ passed, w.passFrameEnds (w.offset + w.buf.length) (w.frameEnds.drop w.nextFrameEnd) =
    .ok passed → passed.slide.buf.length ≤ passed.slide.cap
  /-- `*end - self.frame_end_base - loaded_end`. -/
  ahead : ∀ passed, w.passFrameEnds (w.offset + w.buf.length) (w.frameEnds.drop w.nextFrameEnd) =
    .ok passed → ∀ e, passed.slide.frameEnds[passed.slide.nextFrameEnd]? = some e →
      w.frameEndBase + (w.offset + w.buf.length) ≤ e
  /-- The read asks for bytes up to the frame end and no further. -/
  within : ∀ passed, w.passFrameEnds (w.offset + w.buf.length) (w.frameEnds.drop w.nextFrameEnd) =
    .ok passed → ∀ e ∈ w.frameEnds, w.frameEndBase + (w.offset + w.buf.length) < e →
      w.frameEndBase + (w.offset + w.buf.length) +
        passed.slide.untilFrameEnd (w.offset + w.buf.length) ≤ e

theorem mem_take_takeWhile_le {ends : List Nat} {bound e : Nat}
    (he : e ∈ ends.take (ends.takeWhile fun e => decide (e ≤ bound)).length) : e ≤ bound := by
  rw [← List.prefix_iff_eq_take.mp (List.takeWhile_prefix _)] at he
  have hbound := List.mem_takeWhile_imp he
  exact of_decide_eq_true hbound

/-- A window that is pointed somewhere. -/
theorem seekTo_sound (hsorted : w.frameEnds.Pairwise (· ≤ ·)) (start len : Nat) :
    Sound (w.seekTo start len) := by
  have hloaded : (w.seekTo start len).frameEndBase +
      ((w.seekTo start len).offset + (w.seekTo start len).buf.length) =
        start + w.frameEndBase := Nat.add_comm _ _
  refine ⟨Nat.le_refl _, Nat.zero_le _, hsorted, ?_, ?_⟩
  · intro e he
    rw [hloaded]
    exact mem_take_takeWhile_le he
  · intro e he
    rw [hloaded]
    exact Nat.le_of_lt (mem_drop_takeWhile_lt hsorted he)

/-- The frame ends that are passed are where the window is loaded to. -/
theorem passFrameEnds_taken {passed : Window} {loadedEnd : Nat} {ends : List Nat}
    (h : w.passFrameEnds loadedEnd ends = .ok passed) :
    ∃ c, passed = { w with nextFrameEnd := w.nextFrameEnd + c } ∧
      ∀ e ∈ ends.take c, e - w.frameEndBase = loadedEnd := by
  induction ends generalizing w with
  | nil =>
      cases h
      exact ⟨0, rfl, by simp⟩
  | cons e ends ih =>
      rw [passFrameEnds] at h
      split_ifs at h with hend
      · obtain ⟨c, hc, htaken⟩ := ih h
        refine ⟨1 + c, ?_, ?_⟩
        · rw [hc, Nat.add_assoc]
        · intro x hx
          rw [Nat.add_comm, List.take_succ_cons] at hx
          rcases List.mem_cons.mp hx with rfl | hx
          · exact hend
          · exact htaken x hx
      · cases h
        exact ⟨0, rfl, by simp⟩

theorem Sound.passFrameEnds {passed : Window} (h : Sound w)
    (hpassed : w.passFrameEnds (w.offset + w.buf.length) (w.frameEnds.drop w.nextFrameEnd) =
      .ok passed) : Sound passed := by
  obtain ⟨c, rfl, htaken⟩ := passFrameEnds_taken hpassed
  refine ⟨h.pos_le, h.buf_le, h.sorted, ?_, ?_⟩
  · intro e he
    simp only at he ⊢
    rw [List.take_add] at he
    rcases List.mem_append.mp he with he | he
    · exact h.passed e he
    · have hend := htaken e he
      omega
  · intro e he
    rw [← List.drop_drop] at he
    exact h.pending e (List.mem_of_mem_drop he)

theorem Sound.slide (h : Sound w) : Sound w.slide ∧
    w.slide.offset + w.slide.buf.length = w.offset + w.buf.length := by
  have hpos := h.pos_le
  have hbuf := h.buf_le
  unfold Window.slide
  split
  · have hlen : (w.buf.drop w.pos).length = w.buf.length - w.pos := List.length_drop
    have hloaded : w.offset + w.pos + (w.buf.drop w.pos).length = w.offset + w.buf.length := by
      omega
    refine ⟨⟨Nat.zero_le _, ?_, h.sorted, ?_, ?_⟩, hloaded⟩
    · simp only
      omega
    · simp only [hloaded]
      exact h.passed
    · simp only [hloaded]
      exact h.pending
  · exact ⟨h, rfl⟩

theorem Sound.fill (h : Sound w) : Sound (w.fill (w.offset + w.buf.length)).2 := by
  obtain ⟨hroom, hends⟩ := untilFrameEnd_le h.sorted h.pending
  have hgot := (Take.read_spec w.source (w.untilFrameEnd (w.offset + w.buf.length))).2.1
  have hpos := h.pos_le
  have hbuf := h.buf_le
  unfold Window.fill
  simp only
  split
  · exact ⟨h.pos_le, h.buf_le, h.sorted, h.passed, h.pending⟩
  · refine ⟨?_, ?_, h.sorted, ?_, ?_⟩
    · simp only [List.length_append]
      omega
    · simp only [List.length_append]
      omega
    · intro e he
      have hle := h.passed e he
      simp only [List.length_append]
      omega
    · intro e he
      have hle := hends e he
      simp only [List.length_append]
      omega

theorem Sound.refill (h : Sound w) : Sound w.refill.2 := by
  unfold Window.refill
  split
  · exact h
  · simp only
    cases hpassed : w.passFrameEnds (w.offset + w.buf.length) (w.frameEnds.drop w.nextFrameEnd) with
    | error e => exact h
    | ok passed =>
        obtain ⟨hslid, hloaded⟩ := (h.passFrameEnds hpassed).slide
        obtain ⟨c, hc, -⟩ := passFrameEnds_taken hpassed
        have hsame : passed.offset + passed.buf.length = w.offset + w.buf.length := by rw [hc]
        have hfilled := hslid.fill
        rwa [hloaded, hsame] at hfilled

/-- Every step keeps the window sound. -/
theorem Step.sound (h : Step find w w') (hsound : Sound w) : Sound w' := by
  have hpos := hsound.pos_le
  cases h with
  | walk want =>
      obtain ⟨c, hwalk, -⟩ := walk_eq find w want
      have hoffset := find.offset_le w.remainder c
      have hremainder : w.remainder.length = w.buf.length - w.pos := List.length_drop
      rw [hwalk]
      refine ⟨?_, hsound.buf_le, hsound.sorted, hsound.passed, hsound.pending⟩
      simp only
      omega
  | grow =>
      unfold growIfFull
      split
      · refine ⟨hsound.pos_le, ?_, hsound.sorted, hsound.passed, hsound.pending⟩
        exact Nat.le_trans hsound.buf_le (Nat.le_mul_of_pos_right _ Nat.two_pos)
      · exact hsound
  | refill => exact hsound.refill
  | final =>
      unfold finalRecord
      split
      · exact hsound
      · exact ⟨Nat.le_refl _, hsound.buf_le, hsound.sorted, hsound.passed, hsound.pending⟩
  | back index =>
      unfold walkFrom
      split
      · exact hsound
      · split
        · exact hsound
        · split
          · exact hsound
          · exact ⟨Nat.zero_le _, hsound.buf_le, hsound.sorted, hsound.passed, hsound.pending⟩
  | seek start len => exact seekTo_sound hsound.sorted start len

theorem Steps.sound (h : Steps find w w') (hsound : Sound w) : Sound w' := by
  induction h with
  | refl => exact hsound
  | tail _ hstep ih => exact hstep.sound ih

/-- A refill of a sound window subtracts nothing from less. -/
theorem Sound.refills (h : Sound w) : Refills w := by
  have hslides : ∀ passed, w.passFrameEnds (w.offset + w.buf.length)
      (w.frameEnds.drop w.nextFrameEnd) = .ok passed →
        Sound passed.slide ∧ passed.slide.frameEnds = w.frameEnds ∧
          passed.slide.frameEndBase = w.frameEndBase ∧
          passed.slide.offset + passed.slide.buf.length = w.offset + w.buf.length := by
    intro passed hpassed
    obtain ⟨hslid, hloaded⟩ := (h.passFrameEnds hpassed).slide
    obtain ⟨c, hc, -⟩ := passFrameEnds_taken hpassed
    have hsame := slide_sameFile passed
    refine ⟨hslid, ?_, ?_, ?_⟩
    · rw [hsame.frameEnds, hc]
    · rw [hsame.frameEndBase, hc]
    · rw [hloaded, hc]
  refine ⟨?_, h.pos_le, ?_, ?_, ?_⟩
  · intro e he
    exact Nat.le_trans (Nat.le_add_right _ _) (h.pending e he)
  · intro passed hpassed
    exact (hslides passed hpassed).1.buf_le
  · intro passed hpassed e he
    obtain ⟨hslid, -, hbase, hloaded⟩ := hslides passed hpassed
    obtain ⟨hlt, hget⟩ := List.getElem?_eq_some_iff.mp he
    have hdrop := List.drop_eq_getElem_cons hlt
    have hpending := hslid.pending
    rw [hdrop, hget, hbase, hloaded] at hpending
    exact hpending e List.mem_cons_self
  · intro passed hpassed e he hahead
    obtain ⟨hslid, hends, hbase, hloaded⟩ := hslides passed hpassed
    rw [← hends, ← List.take_append_drop passed.slide.nextFrameEnd passed.slide.frameEnds] at he
    rcases List.mem_append.mp he with he | he
    · have hle := hslid.passed e he
      rw [hbase, hloaded] at hle
      omega
    · have hle := (untilFrameEnd_le hslid.sorted hslid.pending).2 e he
      rwa [hbase, hloaded] at hle

end SeekZstdSep.Window
