/-
Module: SeekZstdSep.Proofs.Window
Purpose: The window walk agrees with cutting in memory. Whatever the reads hand out, a window
  pointed at a region stands before some record `i` of it, a run handed out is the next records
  of the region, and the walk ends where they do. Frame ends inside the region are passed
  without a refusal as long as records end on them.
Trusted boundary: none
Main exports: ends_eq, count_eq, endsWhole_iff, Window.SameFile, Window.At, Window.seekTo_at,
  Window.walk_eq, Window.At.refill, Window.At.walkFrom
-/
import SeekZstdSep.Core.Record
import SeekZstdSep.Lib.Uniform
import Mathlib.Logic.Relation

namespace SeekZstdSep

open Lib

/-! ### Cutting in memory -/

theorem endsFrom_eq (find : Finder UInt8) (data : Bytes) :
    ∀ fuel i, (find.after data i).length ≤ fuel →
      endsFrom find data fuel (find.offset data i) =
        (List.range ((find.records data).length - i)).map fun j =>
          find.offset data (i + j + 1) := by
  intro fuel
  induction fuel with
  | zero =>
      intro i hfuel
      have hnil : find.after data i = [] := List.length_eq_zero_iff.mp (by omega)
      have hdone : (find.records data).drop i = [] := by
        rw [← find.records_after, hnil, find.records_nil]
      rw [List.drop_eq_nil_iff] at hdone
      rw [Nat.sub_eq_zero_of_le hdone]
      rfl
  | succ fuel ih =>
      intro i hfuel
      rw [endsFrom]
      cases hfind : find (data.drop (find.offset data i)) with
      | none =>
          rw [Nat.sub_eq_zero_of_le (find.length_le_of_find_after hfind)]
          rfl
      | some k =>
          obtain ⟨hlt, hk⟩ := find.offset_succ_of_find_after hfind
          have hless := find.length_after_lt hlt (Nat.lt_add_one i)
          simp only
          rw [← hk, ih (i + 1) (by omega)]
          obtain ⟨more, hmore⟩ : ∃ more, (find.records data).length - i = more + 1 :=
            ⟨(find.records data).length - i - 1, by omega⟩
          rw [show (find.records data).length - (i + 1) = more by omega, hmore,
            List.range_succ_eq_map, List.map_cons, List.map_map]
          congr 1
          apply List.map_congr_left
          intro j _
          simp only [Function.comp]
          congr 1
          omega

/-- The ends the walk reports are where the records of the data end. -/
theorem ends_eq (find : Finder UInt8) (data : Bytes) :
    ends find data =
      (List.range (find.records data).length).map fun j => find.offset data (j + 1) := by
  have h := endsFrom_eq find data data.length 0 (by simp)
  simpa [ends, Finder.offset] using h

theorem count_eq (find : Finder UInt8) (data : Bytes) :
    count find data = (find.records data).length := by
  simp [count, ends_eq]

theorem endsWhole_iff (find : Finder UInt8) (data : Bytes) :
    endsWhole find data = true ↔ data ≠ [] ∧ find.rest data = [] := by
  have hlen := congrArg List.length (find.flatten_records_append_rest data)
  rw [List.length_append] at hlen
  rw [endsWhole, ends_eq]
  cases hcount : (find.records data).length with
  | zero =>
      have hnone : find data = none :=
        find.records_eq_nil_iff.mp (List.length_eq_zero_iff.mp hcount)
      rw [find.rest_of_none hnone]
      simp
  | succ n =>
      have hoffset : find.offset data (n + 1) = (find.records data).flatten.length := by
        rw [Finder.offset, ← hcount, List.take_length]
      have hne : data ≠ [] := by
        rintro rfl
        simp at hcount
      rw [List.range_succ, List.map_append, List.map_singleton, List.getLast?_append]
      simp only [List.getLast?_singleton, Option.some_or, beq_iff_eq, Option.some.injEq, hoffset]
      constructor
      · intro heq
        exact ⟨hne, List.length_eq_zero_iff.mp (by omega)⟩
      · rintro ⟨-, hrest⟩
        rw [hrest] at hlen
        simpa using hlen

/-! ### What no walk changes -/

namespace Window

/-- Two states of one window: the same stream behind it and the same frame ends. -/
structure SameFile (w w' : Window) : Prop where
  stream : w'.source.inner.stream = w.source.inner.stream
  frameEnds : w'.frameEnds = w.frameEnds
  frameEndBase : w'.frameEndBase = w.frameEndBase
  cap_le : w.cap ≤ w'.cap

namespace SameFile

@[simp] theorem refl (w : Window) : SameFile w w := ⟨rfl, rfl, rfl, Nat.le_refl _⟩

theorem trans {w w' w'' : Window} (h : SameFile w w') (h' : SameFile w' w'') :
    SameFile w w'' :=
  ⟨h'.stream.trans h.stream, h'.frameEnds.trans h.frameEnds,
    h'.frameEndBase.trans h.frameEndBase, h.cap_le.trans h'.cap_le⟩

end SameFile

theorem seekTo_sameFile (w : Window) (start len : Nat) : SameFile w (w.seekTo start len) :=
  ⟨rfl, rfl, rfl, Nat.le_refl _⟩

theorem growIfFull_sameFile (w : Window) : SameFile w w.growIfFull := by
  unfold growIfFull
  split
  · exact ⟨rfl, rfl, rfl, by simp only; omega⟩
  · exact SameFile.refl w

theorem passFrameEnds_eq {w passed : Window} {loadedEnd : Nat} {ends : List Nat}
    (h : w.passFrameEnds loadedEnd ends = .ok passed) :
    ∃ c, passed = { w with nextFrameEnd := w.nextFrameEnd + c } := by
  induction ends generalizing w with
  | nil =>
      simp only [passFrameEnds, Except.ok.injEq] at h
      exact ⟨0, h ▸ rfl⟩
  | cons e ends ih =>
      rw [passFrameEnds] at h
      split at h
      · split at h
        · simp at h
        · obtain ⟨c, hc⟩ := ih h
          exact ⟨1 + c, by rw [hc, Nat.add_assoc]⟩
      · simp only [Except.ok.injEq] at h
        exact ⟨0, h ▸ rfl⟩

theorem slide_sameFile (w : Window) : SameFile w w.slide := by
  unfold slide
  split
  · exact ⟨rfl, rfl, rfl, Nat.le_refl _⟩
  · exact SameFile.refl w

theorem fill_sameFile (w : Window) (loadedEnd : Nat) : SameFile w (w.fill loadedEnd).2 := by
  have hread := (Take.read_spec w.source (w.untilFrameEnd loadedEnd)).2.2.2
  unfold fill
  simp only
  split <;> exact ⟨hread, rfl, rfl, Nat.le_refl _⟩

theorem refill_sameFile (w : Window) : SameFile w w.refill.2 := by
  unfold refill
  split
  · exact SameFile.refl w
  · simp only
    cases hpass : w.passFrameEnds (w.offset + w.buf.length) (w.frameEnds.drop w.nextFrameEnd) with
    | error e => exact SameFile.refl w
    | ok passed =>
        obtain ⟨c, rfl⟩ := passFrameEnds_eq hpass
        have hpassed : SameFile w { w with nextFrameEnd := w.nextFrameEnd + c } :=
          ⟨rfl, rfl, rfl, Nat.le_refl _⟩
        exact (hpassed.trans (slide_sameFile _)).trans (fill_sameFile _ _)

theorem finalRecord_sameFile (w : Window) : SameFile w w.finalRecord.2 := by
  unfold finalRecord
  split <;> exact ⟨rfl, rfl, rfl, Nat.le_refl _⟩

theorem walkFrom_sameFile (w : Window) (index : Nat) : SameFile w (w.walkFrom index).2 := by
  unfold walkFrom
  split
  · exact SameFile.refl w
  · split
    · exact SameFile.refl w
    · split <;> exact ⟨rfl, rfl, rfl, Nat.le_refl _⟩

/-! ### The steps of a window -/

/-- What is done to a window: a walk hands out what ends in it, it grows, reads on, gives away the
unfinished record at the end, goes back to a record it still holds, or is pointed elsewhere. -/
inductive Step (find : Finder UInt8) : Window → Window → Prop where
  | walk (w : Window) (want : Option Nat) :
      Step find w { w with
        pos := w.pos + (w.walk find want).1
        walked := w.walked + (w.walk find want).2
        onBoundary := true }
  | grow (w : Window) : Step find w w.growIfFull
  | refill (w : Window) : Step find w w.refill.2
  | final (w : Window) : Step find w w.finalRecord.2
  | back (w : Window) (index : Nat) : Step find w (w.walkFrom index).2
  | seek (w : Window) (start len : Nat) : Step find w (w.seekTo start len)

theorem Step.sameFile {find : Finder UInt8} {w w' : Window} (h : Step find w w') :
    SameFile w w' := by
  cases h with
  | walk want => exact ⟨rfl, rfl, rfl, Nat.le_refl _⟩
  | grow => exact growIfFull_sameFile w
  | refill => exact refill_sameFile w
  | final => exact finalRecord_sameFile w
  | back index => exact walkFrom_sameFile w index
  | seek start len => exact seekTo_sameFile w start len

/-- What any number of steps makes of a window. -/
abbrev Steps (find : Finder UInt8) : Window → Window → Prop := Relation.ReflTransGen (Step find)

theorem Steps.sameFile {find : Finder UInt8} {w w' : Window} (h : Steps find w w') :
    SameFile w w' := by
  induction h with
  | refl => exact SameFile.refl w
  | tail _ hstep ih => exact ih.trans hstep.sameFile

/-! ### Where a window stands -/

/-- The window reads the `region` that begins at `start` of the decoder's stream and stands
before record `i` of it. The frame ends that are still to come lie past what is loaded, and
where one lies in the region, a record of the region ends on it. -/
structure At (find : Finder UInt8) (region : Bytes) (start i : Nat) (w : Window) : Prop where
  index_le : i ≤ (find.records region).length
  walked : w.walked = i
  after : w.remainder ++ w.source.ahead = find.after region i
  eof : w.eof = true → w.source.ahead = []
  pos_le : w.pos ≤ w.buf.length
  buf_le : w.buf.length ≤ w.cap
  cap_pos : 0 < w.cap
  onBoundary : w.onBoundary = true
  front : ∀ k, w.front = some k →
    k ≤ (find.records region).length ∧ w.buf ++ w.source.ahead = find.after region k
  loaded : w.offset + w.buf.length + w.source.ahead.length = start + region.length
  sorted : w.frameEnds.Pairwise (· ≤ ·)
  pending : ∀ e ∈ w.frameEnds.drop w.nextFrameEnd, w.frameEndBase + (w.offset + w.buf.length) ≤ e
  cut : ∀ e ∈ w.frameEnds.drop w.nextFrameEnd, e ≤ w.frameEndBase + start + region.length →
    find.rest (region.take (e - w.frameEndBase - start)) = []

/-- Where the frame ends that `seekTo` keeps begin. -/
theorem mem_drop_takeWhile_lt {ends : List Nat} (sorted : ends.Pairwise (· ≤ ·)) {bound e : Nat}
    (he : e ∈ ends.drop (ends.takeWhile fun e => decide (e ≤ bound)).length) : bound < e := by
  induction ends with
  | nil => simp at he
  | cons a ends ih =>
      rw [List.pairwise_cons] at sorted
      by_cases ha : a ≤ bound
      · rw [List.takeWhile_cons_of_pos (by simpa using ha), List.length_cons,
          List.drop_succ_cons] at he
        exact ih sorted.2 he
      · rw [List.takeWhile_cons_of_neg (by simpa using ha)] at he
        rcases List.mem_cons.mp he with rfl | he
        · omega
        · have := sorted.1 e he
          omega

/-- Pointing a window at a region puts it before record 0. -/
theorem seekTo_at {find : Finder UInt8} {w : Window} {start len : Nat} {region : Bytes}
    (hregion : (w.source.inner.stream.drop start).take len = region)
    (cap_pos : 0 < w.cap) (sorted : w.frameEnds.Pairwise (· ≤ ·))
    (cut : ∀ e ∈ w.frameEnds, w.frameEndBase + start < e →
      e ≤ w.frameEndBase + start + region.length →
      find.rest (region.take (e - w.frameEndBase - start)) = []) :
    At find region start 0 (w.seekTo start len) := by
  have hahead : (w.seekTo start len).source.ahead = region := hregion
  have hpast : ∀ e ∈ (w.seekTo start len).frameEnds.drop (w.seekTo start len).nextFrameEnd,
      w.frameEndBase + start < e := by
    intro e he
    have hlt : start + w.frameEndBase < e := mem_drop_takeWhile_lt sorted he
    omega
  exact
    { index_le := Nat.zero_le _
      walked := rfl
      after := by rw [hahead]; simp [remainder, seekTo, clear]
      eof := by simp [seekTo, clear]
      pos_le := Nat.le_refl _
      buf_le := Nat.zero_le _
      cap_pos := cap_pos
      onBoundary := rfl
      front := by
        intro k hk
        obtain rfl : k = 0 := by simpa [seekTo, clear] using hk.symm
        rw [hahead]
        simp [seekTo, clear]
      loaded := by rw [hahead]; simp [seekTo, clear]
      sorted := sorted
      pending := fun e he => Nat.le_of_lt (hpast e he)
      cut := fun e he => cut e (List.mem_of_mem_drop he) (hpast e he) }

variable {find : Finder UInt8} {region : Bytes} {start i : Nat} {w : Window}

theorem walkFuel_eq (held : Bytes) (want : Option Nat) :
    ∀ fuel c, (find.after held c).length ≤ fuel → c ≤ (find.records held).length →
      (∀ n, want = some n → c ≤ n) →
      ∃ d, walkFuel find held want fuel (find.offset held c) c = (find.offset held d, d) ∧
        c ≤ d ∧ d ≤ (find.records held).length ∧ (∀ n, want = some n → d ≤ n) ∧
        (d = (find.records held).length ∨ want = some d) := by
  intro fuel
  induction fuel with
  | zero =>
      intro c hfuel hc hwant
      have hnil : find.after held c = [] := List.length_eq_zero_iff.mp (by omega)
      have hdone : (find.records held).drop c = [] := by
        rw [← find.records_after, hnil, find.records_nil]
      rw [List.drop_eq_nil_iff] at hdone
      exact ⟨c, rfl, Nat.le_refl c, hc, hwant, Or.inl (by omega)⟩
  | succ fuel ih =>
      intro c hfuel hc hwant
      rw [walkFuel]
      by_cases hmore : want.all fun want => decide (c < want)
      · rw [if_pos hmore]
        cases hfind : find (held.drop (find.offset held c)) with
        | none =>
            have hdone := find.length_le_of_find_after hfind
            exact ⟨c, rfl, Nat.le_refl c, hc, hwant, Or.inl (by omega)⟩
        | some k =>
            obtain ⟨hlt, hk⟩ := find.offset_succ_of_find_after hfind
            have hless := find.length_after_lt hlt (Nat.lt_add_one c)
            simp only
            rw [← hk]
            obtain ⟨d, hd, hcd, hrest⟩ := ih (c + 1) (by omega) hlt (by
              intro n hn
              simp [hn] at hmore
              omega)
            exact ⟨d, hd, by omega, hrest⟩
      · rw [if_neg hmore]
        refine ⟨c, rfl, Nat.le_refl c, hc, hwant, Or.inr ?_⟩
        cases want with
        | none => simp at hmore
        | some n =>
            have := hwant n rfl
            simp at hmore
            congr 1
            omega

/-- The walk takes the records that end in the window, up to what is wanted. -/
theorem walk_eq (find : Finder UInt8) (w : Window) (want : Option Nat) :
    ∃ c, w.walk find want = (find.offset w.remainder c, c) ∧
      c ≤ (find.records w.remainder).length ∧ (∀ n, want = some n → c ≤ n) ∧
      (c = (find.records w.remainder).length ∨ want = some c) := by
  obtain ⟨c, hc, -, hrest⟩ := walkFuel_eq w.remainder want w.remainder.length 0
    (by simp) (Nat.zero_le _) (fun n _ => Nat.zero_le n)
  exact ⟨c, by simpa [walk, Finder.offset] using hc, hrest⟩

/-- Handing out the next `c` records of the window moves it past them. -/
theorem At.hand_out (h : At find region start i w) {c : Nat}
    (hc : c ≤ (find.records w.remainder).length) :
    At find region start (i + c)
        { w with
          pos := w.pos + find.offset w.remainder c, walked := w.walked + c, onBoundary := true } ∧
      w.remainder.take (find.offset w.remainder c) =
        (((find.records region).drop i).take c).flatten := by
  have hrecs : (find.records (find.after region i)).take c = (find.records w.remainder).take c := by
    rw [← h.after, find.take_records_append _ _ hc]
  have hlen : (find.records w.remainder).length ≤ (find.records region).length - i := by
    rw [← List.length_drop, ← find.records_after, ← h.after]
    exact find.length_records_le_append _ _
  have hoffset := find.offset_le w.remainder c
  have hremainder : w.remainder.length = w.buf.length - w.pos := List.length_drop
  have hpos := h.pos_le
  have hindex := h.index_le
  constructor
  · exact
      { index_le := by omega
        walked := by rw [h.walked]
        after := by
          have hdrop : (w.buf.drop (w.pos + find.offset w.remainder c)) =
              find.after w.remainder c := by
            rw [Finder.after, remainder, List.drop_drop]
          show w.buf.drop (w.pos + find.offset w.remainder c) ++ w.source.ahead = _
          rw [hdrop, ← find.after_append _ _ hc, h.after, find.after_after]
        eof := h.eof
        pos_le := by simp only; omega
        buf_le := h.buf_le
        cap_pos := h.cap_pos
        onBoundary := rfl
        front := h.front
        loaded := h.loaded
        sorted := h.sorted
        pending := h.pending
        cut := h.cut }
  · rw [find.take_offset, ← hrecs, find.records_after]

theorem At.growIfFull (h : At find region start i w) :
    At find region start i w.growIfFull ∧ w.growIfFull.remainder = w.remainder ∧
      w.growIfFull.source = w.source ∧
      (w.growIfFull.eof = false → 0 < w.growIfFull.pos ∨
        w.growIfFull.buf.length < w.growIfFull.cap) := by
  unfold Window.growIfFull
  have hcap := h.cap_pos
  have hbuf := h.buf_le
  by_cases hfull : (!w.eof && w.pos == 0 && w.buf.length == w.cap) = true
  · rw [if_pos hfull]
    refine ⟨{ h with buf_le := ?_, cap_pos := ?_ }, rfl, rfl, fun _ => Or.inr ?_⟩
    all_goals
      simp only
      omega
  · rw [if_neg hfull]
    refine ⟨h, rfl, rfl, fun heof => ?_⟩
    rw [heof] at hfull
    simp at hfull
    omega

/-- Frame ends the window is loaded to are passed when nothing incomplete is in front of them. -/
theorem passFrameEnds_spec {loadedEnd : Nat} {ends : List Nat}
    (pending : ∀ e ∈ ends, w.frameEndBase + loadedEnd ≤ e) (sorted : ends.Pairwise (· ≤ ·))
    (whole : ∀ e ∈ ends, e = w.frameEndBase + loadedEnd → w.pos = w.buf.length) :
    ∃ c, w.passFrameEnds loadedEnd ends = .ok { w with nextFrameEnd := w.nextFrameEnd + c } ∧
      ∀ e ∈ ends.drop c, w.frameEndBase + loadedEnd < e := by
  induction ends generalizing w with
  | nil => exact ⟨0, rfl, by simp⟩
  | cons e ends ih =>
      rw [List.pairwise_cons] at sorted
      have hle := pending e (by simp)
      by_cases heq : e - w.frameEndBase = loadedEnd
      · have hpos := whole e (by simp) (by omega)
        obtain ⟨c, hc, hstrict⟩ := ih (w := { w with nextFrameEnd := w.nextFrameEnd + 1 })
          (fun x hx => pending x (by simp [hx])) sorted.2
          (fun x hx => whole x (by simp [hx]))
        refine ⟨1 + c, ?_, ?_⟩
        · rw [passFrameEnds, if_pos heq, if_neg (by simpa using hpos), hc]
          simp only [Nat.add_assoc]
        · rw [Nat.add_comm, List.drop_succ_cons]
          exact hstrict
      · refine ⟨0, by rw [passFrameEnds, if_neg heq]; rfl, ?_⟩
        intro x hx
        rcases List.mem_cons.mp hx with rfl | hx
        · omega
        · have := sorted.1 x hx
          omega

theorem At.slide (h : At find region start i w) :
    At find region start i w.slide ∧ w.slide.remainder = w.remainder ∧ w.slide.pos = 0 ∧
      w.slide.source = w.source ∧ w.slide.nextFrameEnd = w.nextFrameEnd ∧
      w.slide.offset + w.slide.buf.length = w.offset + w.buf.length ∧
      w.slide.eof = w.eof ∧ w.slide.cap = w.cap ∧
      w.slide.buf.length + w.pos = w.buf.length := by
  unfold Window.slide
  have hpos := h.pos_le
  have hbuf := h.buf_le
  by_cases hzero : w.pos > 0
  · rw [if_pos hzero, if_pos h.onBoundary]
    have hlen : (w.buf.drop w.pos).length = w.buf.length - w.pos := List.length_drop
    refine ⟨?_, ?_, rfl, rfl, rfl, ?_, rfl, rfl, ?_⟩
    · exact
        { index_le := h.index_le
          walked := h.walked
          after := h.after
          eof := h.eof
          pos_le := Nat.zero_le _
          buf_le := by simp only; omega
          cap_pos := h.cap_pos
          onBoundary := h.onBoundary
          front := by
            intro k hk
            obtain rfl : w.walked = k := by simpa using hk
            rw [h.walked]
            exact ⟨h.index_le, h.after⟩
          loaded := by
            have := h.loaded
            simp only
            omega
          sorted := h.sorted
          pending := by
            intro e he
            have := h.pending e he
            simp only
            omega
          cut := h.cut }
    · simp [remainder]
    all_goals
      simp only
      omega
  · rw [if_neg hzero]
    exact ⟨h, rfl, by omega, rfl, rfl, rfl, rfl, rfl, by omega⟩

/-- One read asks for no more than there is room for, and for no byte behind a frame end that is
ahead. -/
theorem untilFrameEnd_le {loadedEnd : Nat} (sorted : w.frameEnds.Pairwise (· ≤ ·))
    (pending : ∀ e ∈ w.frameEnds.drop w.nextFrameEnd, w.frameEndBase + loadedEnd ≤ e) :
    w.untilFrameEnd loadedEnd ≤ w.cap - w.buf.length ∧
      ∀ e ∈ w.frameEnds.drop w.nextFrameEnd,
        w.frameEndBase + loadedEnd + w.untilFrameEnd loadedEnd ≤ e := by
  unfold untilFrameEnd
  cases hnext : w.frameEnds[w.nextFrameEnd]? with
  | none =>
      rw [List.drop_eq_nil_of_le (List.getElem?_eq_none_iff.mp hnext)]
      exact ⟨Nat.le_refl _, by simp⟩
  | some e =>
      obtain ⟨hlt, he⟩ := List.getElem?_eq_some_iff.mp hnext
      have hdrop := List.drop_eq_getElem_cons hlt
      rw [he] at hdrop
      have hsorted := sorted.sublist (List.drop_sublist w.nextFrameEnd w.frameEnds)
      rw [hdrop] at hsorted pending ⊢
      rw [List.pairwise_cons] at hsorted
      have hfirst := pending e List.mem_cons_self
      refine ⟨Nat.min_le_right _ _, ?_⟩
      intro x hx
      simp only
      rcases List.mem_cons.mp hx with rfl | hx
      · omega
      · have hle := hsorted.1 x hx
        omega

/-- It asks for something where there is room and no frame ends where the window is loaded to. -/
theorem untilFrameEnd_pos {loadedEnd : Nat} (hroom : w.buf.length < w.cap)
    (strict : ∀ e ∈ w.frameEnds.drop w.nextFrameEnd, w.frameEndBase + loadedEnd < e) :
    0 < w.untilFrameEnd loadedEnd := by
  unfold untilFrameEnd
  cases hnext : w.frameEnds[w.nextFrameEnd]? with
  | none => exact Nat.sub_pos_of_lt hroom
  | some e =>
      obtain ⟨hlt, he⟩ := List.getElem?_eq_some_iff.mp hnext
      have hdrop := List.drop_eq_getElem_cons hlt
      rw [he] at hdrop
      rw [hdrop] at strict
      have hfirst := strict e List.mem_cons_self
      simp only
      omega

/-- Reading on keeps the window where it stands, and asks for no byte past a frame end. -/
theorem At.fill (h : At find region start i w) (hpos : w.pos = 0) (hroom : w.buf.length < w.cap)
    (strict : ∀ e ∈ w.frameEnds.drop w.nextFrameEnd,
      w.frameEndBase + (w.offset + w.buf.length) < e) :
    At find region start i (w.fill (w.offset + w.buf.length)).2 ∧
      ((w.fill (w.offset + w.buf.length)).1 = true →
        (w.fill (w.offset + w.buf.length)).2.source.ahead.length < w.source.ahead.length) ∧
      ((w.fill (w.offset + w.buf.length)).1 = false →
        (w.fill (w.offset + w.buf.length)).2.eof = true ∧
          (w.fill (w.offset + w.buf.length)).2.source.ahead = [] ∧
          (w.fill (w.offset + w.buf.length)).2.remainder = w.remainder) := by
  obtain ⟨hsplit, hlen, hnil, -⟩ :=
    Take.read_spec w.source (w.untilFrameEnd (w.offset + w.buf.length))
  obtain ⟨hwithin, hends⟩ := untilFrameEnd_le h.sorted h.pending
  have huntil := untilFrameEnd_pos hroom strict
  have hahead := congrArg List.length hsplit
  rw [List.length_append] at hahead
  have hloaded := h.loaded
  unfold Window.fill
  simp only
  by_cases hgot : (w.source.read (w.untilFrameEnd (w.offset + w.buf.length))).1.length = 0
  · rw [if_pos hgot]
    have hgotnil := List.length_eq_zero_iff.mp hgot
    have hspent : w.source.ahead = [] := by
      rcases hnil hgotnil with hzero | hspent
      · omega
      · exact hspent
    have hspent' : (w.source.read (w.untilFrameEnd (w.offset + w.buf.length))).2.ahead = [] := by
      rw [hgotnil, hspent] at hsplit
      simpa using hsplit
    refine ⟨?_, by simp, fun _ => ⟨rfl, hspent', rfl⟩⟩
    exact
      { index_le := h.index_le
        walked := h.walked
        after := by rw [← h.after, hspent, ← hspent']; rfl
        eof := fun _ => hspent'
        pos_le := h.pos_le
        buf_le := h.buf_le
        cap_pos := h.cap_pos
        onBoundary := h.onBoundary
        front := by
          intro k hk
          have := h.front k hk
          rw [hspent] at this
          rwa [hspent']
        loaded := by rw [hspent'] ; rw [hspent] at hloaded; exact hloaded
        sorted := h.sorted
        pending := h.pending
        cut := h.cut }
  · rw [if_neg hgot]
    refine ⟨?_, fun _ => by simp only; omega, by simp⟩
    exact
      { index_le := h.index_le
        walked := h.walked
        after := by
          rw [← h.after, ← hsplit, remainder, remainder, hpos, List.drop_zero, List.drop_zero,
            List.append_assoc]
        eof := by
          intro heof
          have := h.eof heof
          rw [this] at hahead
          simp at hahead
          exact absurd (congrArg List.length hahead.1) hgot
        pos_le := by rw [hpos]; exact Nat.zero_le _
        buf_le := by
          rw [List.length_append]
          simp only
          omega
        cap_pos := h.cap_pos
        onBoundary := h.onBoundary
        front := by
          intro k hk
          have := h.front k hk
          rw [List.append_assoc, hsplit]
          exact this
        loaded := by
          rw [List.length_append]
          simp only
          omega
        sorted := h.sorted
        pending := by
          intro e he
          have := hends e he
          rw [List.length_append]
          simp only
          omega
        cut := h.cut }

/-- A refill of a window that holds no record end: it reads on, or reports the source spent.
Nothing is refused, since a record ends on every frame end inside the region. -/
theorem At.refill (h : At find region start i w) (hnone : find w.remainder = none)
    (hroom : w.eof = false → 0 < w.pos ∨ w.buf.length < w.cap) :
    ∃ more w', w.refill = (.ok more, w') ∧ At find region start i w' ∧
      (more = true → w'.source.ahead.length < w.source.ahead.length) ∧
      (more = false → w'.eof = true ∧ w'.source.ahead = [] ∧ w'.remainder = w.remainder) := by
  unfold Window.refill
  cases heof : w.eof with
  | true => exact ⟨false, w, by simp, h, by simp, fun _ => ⟨heof, h.eof heof, rfl⟩⟩
  | false =>
      have hloaded := h.loaded
      have hwhole : ∀ e ∈ w.frameEnds.drop w.nextFrameEnd,
          e = w.frameEndBase + (w.offset + w.buf.length) → w.pos = w.buf.length := by
        intro e he heq
        have hcut := h.cut e he (by omega)
        have hprefix : region.take (e - w.frameEndBase - start) =
            ((find.records region).take i).flatten ++ w.remainder := by
          have hsplit := find.take_records_append_after region i
          rw [← h.after, ← List.append_assoc] at hsplit
          conv_lhs => rw [← hsplit]
          apply List.take_left'
          have hlen := congrArg List.length hsplit
          rw [List.length_append] at hlen
          omega
        have hregion : region.take (e - w.frameEndBase - start) ++
            region.drop (e - w.frameEndBase - start) = region := List.take_append_drop _ _
        have hnil := find.eq_nil_of_rest_prefix (i := i) (r := w.remainder) hcut
          (by rw [hregion, hprefix]) hnone
        have hlen : w.remainder.length = w.buf.length - w.pos := List.length_drop
        rw [hnil] at hlen
        have hpos := h.pos_le
        simp at hlen
        omega
      obtain ⟨c, hpass, hstrict⟩ := passFrameEnds_spec h.pending
        (h.sorted.sublist (List.drop_sublist _ _)) hwhole
      have hpassed : At find region start i { w with nextFrameEnd := w.nextFrameEnd + c } :=
        { h with
          pending := by
            intro e he
            rw [← List.drop_drop] at he
            exact h.pending e (List.mem_of_mem_drop he)
          cut := by
            intro e he
            rw [← List.drop_drop] at he
            exact h.cut e (List.mem_of_mem_drop he) }
      obtain ⟨hslide, hremainder, hpos, hsource, hnext, hend, -, hcap, hmoved⟩ := hpassed.slide
      have hsame := slide_sameFile { w with nextFrameEnd := w.nextFrameEnd + c }
      have hbuf := hslide.buf_le
      have hfill := hslide.fill hpos (by
          simp only at hcap hmoved hbuf
          have := h.buf_le
          rcases hroom heof with hroom | hroom <;> omega) (by
          intro e he
          rw [hsame.frameEnds, hnext, ← List.drop_drop] at he
          rw [hsame.frameEndBase, hend]
          exact hstrict e he)
      rw [hend, hsource, hremainder] at hfill
      simp only [Bool.false_eq_true, if_false, hpass]
      exact ⟨_, _, rfl, hfill.1, hfill.2.1, hfill.2.2⟩

/-! ### Going back, and the record the end of the file cuts short -/

/-- The window has handed out every record of the region and its remainder as well. -/
structure Past (find : Finder UInt8) (region : Bytes) (start : Nat) (w : Window) : Prop where
  before : At find region start (find.records region).length
    { w with pos := w.buf.length - (find.rest region).length }
  pos_eq : w.pos = w.buf.length
  eof : w.eof = true
  rest_le : (find.rest region).length ≤ w.buf.length

/-- The remainder of the region goes out once, when its end was reached. -/
theorem At.finalRecord (h : At find region start (find.records region).length w)
    (heof : w.eof = true) :
    (find.rest region = [] → w.finalRecord = (none, w)) ∧
      (find.rest region ≠ [] →
        ∃ run w', w.finalRecord = (some run, w') ∧ run.count = 1 ∧
          w'.bytes run = find.rest region ∧ Past find region start w') := by
  have hremainder : w.remainder = find.rest region := by
    have := h.after
    rwa [h.eof heof, List.append_nil, find.after_of_length_le (Nat.le_refl _)] at this
  have hlen : (find.rest region).length = w.buf.length - w.pos := by
    rw [← hremainder]
    exact List.length_drop
  have hpos := h.pos_le
  unfold Window.finalRecord
  constructor
  · intro hnil
    rw [hnil] at hlen
    have hfull : w.pos = w.buf.length := by
      simp at hlen
      omega
    simp [heof, hfull]
  · intro hne
    have hlt : 0 < (find.rest region).length := List.length_pos_iff.mpr hne
    rw [if_neg (by simp [heof]; omega)]
    refine ⟨_, _, rfl, rfl, ?_, ?_, rfl, heof, ?_⟩
    · show (w.buf.drop w.pos).take (w.buf.length - w.pos) = _
      rw [List.take_of_length_le (Nat.le_of_eq List.length_drop)]
      exact hremainder
    · have hback : w.buf.length - (find.rest region).length = w.pos := by omega
      show At find region start _ { w with pos := w.buf.length - (find.rest region).length }
      rw [hback]
      exact h
    · simp only
      omega

/-- What `walkFrom` answers for a window that stands in its region: records still to pass from
where it stands then, or that the region has to be read again. -/
theorem At.walkFrom (h : At find region start i w) (index : Nat) :
    (∃ skip w' j, w.walkFrom index = (some skip, w') ∧ At find region start j w' ∧
      j + skip = index) ∨ w.walkFrom index = (none, w) := by
  unfold Window.walkFrom
  by_cases hge : index ≥ w.walked
  · rw [if_pos hge]
    exact Or.inl ⟨_, w, i, rfl, h, by rw [h.walked] at hge ⊢; omega⟩
  · rw [if_neg hge]
    cases hfront : w.front with
    | none => exact Or.inr rfl
    | some k =>
        simp only
        by_cases hlt : index < k
        · rw [if_pos hlt]
          exact Or.inr rfl
        · rw [if_neg hlt]
          obtain ⟨hk, hafter⟩ := h.front k hfront
          refine Or.inl ⟨_, _, k, rfl, ?_, by omega⟩
          exact
            { h with
              index_le := hk
              walked := rfl
              after := hafter
              pos_le := Nat.zero_le _
              onBoundary := rfl
              front := by
                intro j hj
                exact h.front j (hfront ▸ hj) }

/-- So it does for one that has handed out the remainder too, as long as the record asked for
is a whole one. -/
theorem Past.walkFrom (h : Past find region start w) {index : Nat}
    (hlt : index < (find.records region).length) :
    (∃ skip w' j, w.walkFrom index = (some skip, w') ∧ At find region start j w' ∧
      j + skip = index) ∨ w.walkFrom index = (none, w) := by
  have hwalked := h.before.walked
  simp only at hwalked
  have hsame : ∀ pos, ({ w with pos := pos }.walkFrom index).1 = (w.walkFrom index).1 ∧
      ((w.walkFrom index).1 ≠ none →
        ({ w with pos := pos }.walkFrom index).2 = (w.walkFrom index).2) ∧
      ((w.walkFrom index).1 = none → (w.walkFrom index).2 = w) := by
    intro pos
    unfold Window.walkFrom
    rw [if_neg (by show ¬ index ≥ w.walked; omega), if_neg (by omega)]
    cases w.front with
    | none => simp
    | some k =>
        simp only
        by_cases hk : index < k
        · simp [hk]
        · simp [hk]
  obtain ⟨hfst, hsnd, hnone⟩ := hsame (w.buf.length - (find.rest region).length)
  rcases h.before.walkFrom index with ⟨skip, w', j, heq, hat, hj⟩ | heq
  · rw [heq] at hfst hsnd
    refine Or.inl ⟨skip, w', j, ?_, hat, hj⟩
    have hne : (w.walkFrom index).1 ≠ none := by
      rw [← hfst]
      simp
    exact Prod.ext hfst.symm (hsnd hne).symm
  · rw [heq] at hfst
    exact Or.inr (Prod.ext hfst.symm (hnone hfst.symm))

end Window

end SeekZstdSep
