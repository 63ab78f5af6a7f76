/-
Module: SeekZstdSep.Lib.Uniform
Purpose: Lists of frames that hold the same number of records. Every frame but the last holds
  exactly `n` whole records and ends on a record boundary; the last one holds at most `n` and,
  where that is allowed, an unfinished record. For such a list the place of a record is
  arithmetic: record `i` is in frame `i / n`.
Trusted boundary: none
Main exports: Finder.Full, Uniform, Uniform.flatten_eq, Uniform.after_flatten,
  Uniform.records_region, Finder.items
-/
import SeekZstdSep.Lib.Cut
import Mathlib.Tactic.Ring
import Mathlib.Data.List.DropRight
import Mathlib.Algebra.Order.BigOperators.Group.List

namespace SeekZstdSep.Lib

universe u

variable {α : Type u}

/-- A frame of exactly `n` whole records and nothing after them. -/
def Finder.Full (f : Finder α) (n : Nat) (g : List α) : Prop :=
  (f.records g).length = n ∧ f.rest g = []

/-- What the frame a file ends with may look like: not empty, at most `n` whole records, and an
unfinished one after them only where `tail` allows it. -/
def Finder.Last (f : Finder α) (tail : Bool) (n : Nat) (g : List α) : Prop :=
  g ≠ [] ∧ (f.records g).length ≤ n ∧ (tail = true ∨ f.rest g = [])

instance [DecidableEq α] (f : Finder α) (n : Nat) (g : List α) : Decidable (f.Full n g) :=
  inferInstanceAs (Decidable (_ ∧ _))

instance [DecidableEq α] (f : Finder α) (tail : Bool) (n : Nat) (g : List α) :
    Decidable (f.Last tail n g) :=
  inferInstanceAs (Decidable (_ ∧ _ ∧ _))

/-- A list of frames with `n` records to each, the last one excepted. -/
structure Uniform (f : Finder α) (tail : Bool) (n : Nat) (frames : List (List α)) : Prop where
  pos : 0 < n
  ne_nil : frames ≠ []
  full : ∀ g ∈ frames.dropLast, f.Full n g
  last : ∀ g ∈ frames.getLast?, f.Last tail n g

instance [DecidableEq α] (f : Finder α) (tail : Bool) (n : Nat) (frames : List (List α)) :
    Decidable (Uniform f tail n frames) :=
  decidable_of_iff
    (0 < n ∧ frames ≠ [] ∧ (∀ g ∈ frames.dropLast, f.Full n g) ∧
      ∀ g ∈ frames.getLast?, f.Last tail n g)
    ⟨fun ⟨pos, ne, full, last⟩ => ⟨pos, ne, full, last⟩,
      fun ⟨pos, ne, full, last⟩ => ⟨pos, ne, full, last⟩⟩

variable {f : Finder α} {tail : Bool} {n : Nat} {frames : List (List α)}

theorem uniform_concat_iff (init : List (List α)) (last : List α) :
    Uniform f tail n (init ++ [last]) ↔
      0 < n ∧ (∀ g ∈ init, f.Full n g) ∧ f.Last tail n last := by
  constructor
  · intro h
    refine ⟨h.pos, fun g hg => h.full g (by simpa using hg), h.last last (by simp)⟩
  · rintro ⟨pos, full, last⟩
    exact ⟨pos, by simp, by simpa using full, by simpa using last⟩

/-- A uniform list is the full frames and the frame it ends with. -/
theorem Uniform.exists_concat (h : Uniform f tail n frames) :
    ∃ init last, frames = init ++ [last] ∧ (∀ g ∈ init, f.Full n g) ∧ f.Last tail n last := by
  refine ⟨frames.dropLast, frames.getLast h.ne_nil, ?_, h.full, ?_⟩
  · exact (List.dropLast_append_getLast h.ne_nil).symm
  · exact h.last _ (by simp [List.getLast?_eq_getLast_of_ne_nil h.ne_nil])

theorem Finder.Full.ne_nil {g : List α} (hn : 0 < n) (h : f.Full n g) : g ≠ [] := by
  rintro rfl
  have hcount := h.1
  simp at hcount
  omega

theorem Finder.Full.last {g : List α} (hn : 0 < n) (h : f.Full n g) : f.Last tail n g :=
  ⟨h.ne_nil hn, Nat.le_of_eq h.1, Or.inr h.2⟩

/-- Full frames joined hold `n` records each, and no remainder. -/
theorem records_flatten_of_full {gs : List (List α)} (h : ∀ g ∈ gs, f.Full n g) :
    (f.records gs.flatten).length = n * gs.length ∧ f.rest gs.flatten = [] := by
  induction gs with
  | nil => simp
  | cons g gs ih =>
      have hg : f.Full n g := h g (by simp)
      obtain ⟨hcount, hrest⟩ := ih fun x hx => h x (by simp [hx])
      rw [List.flatten_cons, f.records_append_of_rest hg.2, f.rest_append_of_rest hg.2,
        List.length_append, hg.1, hcount, hrest, List.length_cons]
      exact ⟨by ring, rfl⟩

namespace Uniform

theorem length_pos (h : Uniform f tail n frames) : 0 < frames.length :=
  List.length_pos_iff.mpr h.ne_nil

theorem full_getElem (h : Uniform f tail n frames) {k : Nat} (hk : k + 1 < frames.length) :
    f.Full n frames[k] := by
  apply h.full
  rw [List.mem_iff_getElem]
  exact ⟨k, by simp; omega, by simp⟩

theorem last_getElem (h : Uniform f tail n frames) {k : Nat} (hk : k + 1 = frames.length) :
    f.Last tail n frames[k] := by
  apply h.last
  rw [Option.mem_def, List.getLast?_eq_getElem?, List.getElem?_eq_getElem (by omega)]
  simp [← hk]

theorem last_or_full (h : Uniform f tail n frames) {k : Nat} (hk : k < frames.length) :
    f.Last tail n frames[k] := by
  by_cases hlast : k + 1 = frames.length
  · exact h.last_getElem hlast
  · exact (h.full_getElem (by omega)).last h.pos

theorem ne_nil_of_mem (h : Uniform f tail n frames) {g : List α} (hg : g ∈ frames) :
    g ≠ [] := by
  obtain ⟨k, hk, rfl⟩ := List.mem_iff_getElem.mp hg
  exact (h.last_or_full hk).1

/-- The frames before frame `k` hold `n * k` records and end where one ends. -/
theorem records_take (h : Uniform f tail n frames) {k : Nat} (hk : k < frames.length) :
    (f.records (frames.take k).flatten).length = n * k ∧ f.rest (frames.take k).flatten = [] := by
  have hfull : ∀ g ∈ frames.take k, f.Full n g := by
    intro g hg
    obtain ⟨i, hi, rfl⟩ := List.mem_iff_getElem.mp hg
    rw [List.length_take] at hi
    rw [List.getElem_take]
    exact h.full_getElem (by omega)
  obtain ⟨hcount, hrest⟩ := records_flatten_of_full hfull
  rw [List.length_take, Nat.min_eq_left (Nat.le_of_lt hk)] at hcount
  exact ⟨hcount, hrest⟩

theorem flatten_take_append_drop (frames : List (List α)) (k : Nat) :
    (frames.take k).flatten ++ (frames.drop k).flatten = frames.flatten := by
  rw [← List.flatten_append, List.take_append_drop]

/-- Record `n * k` of the joined frames is where frame `k` starts. -/
theorem after_flatten (h : Uniform f tail n frames) {k : Nat} (hk : k < frames.length) :
    f.after frames.flatten (n * k) = (frames.drop k).flatten := by
  obtain ⟨hcount, hrest⟩ := h.records_take hk
  rw [← flatten_take_append_drop frames k, f.after_append _ _ (Nat.le_of_eq hcount.symm),
    f.after_of_length_le (Nat.le_of_eq hcount), hrest, List.nil_append]

theorem offset_flatten (h : Uniform f tail n frames) {k : Nat} (hk : k < frames.length) :
    f.offset frames.flatten (n * k) = (frames.take k).flatten.length := by
  have hsplit := f.offset_add_length_after frames.flatten (n * k)
  have hlen := congrArg List.length (flatten_take_append_drop frames k)
  rw [h.after_flatten hk] at hsplit
  rw [List.length_append] at hlen
  omega

/-- The count of the first frame serves as well as any other, where it is not 0. -/
theorem of_headD (h : Uniform f tail n frames) (hpos : 0 < (f.records (frames.headD [])).length) :
    Uniform f tail (f.records (frames.headD [])).length frames ∧
      (f.records (frames.headD [])).length ≤ n ∧
      (1 < frames.length → (f.records (frames.headD [])).length = n) := by
  obtain ⟨init, last, rfl, hfull, hlast⟩ := h.exists_concat
  cases init with
  | nil =>
      simp only [List.nil_append, List.headD_cons] at hpos ⊢
      refine ⟨?_, hlast.2.1, fun hlt => absurd hlt (by simp)⟩
      have hone : Uniform f tail (f.records last).length ([] ++ [last]) ↔ _ :=
        uniform_concat_iff [] last
      exact hone.mpr ⟨hpos, by simp, hlast.1, Nat.le_refl _, hlast.2.2⟩
  | cons g init =>
      have hcount : (f.records ((g :: init ++ [last]).headD [])).length = n :=
        (hfull g (by simp)).1
      rw [hcount]
      exact ⟨h, Nat.le_refl _, fun _ => rfl⟩

/-- A suffix of a uniform list is uniform. -/
theorem drop (h : Uniform f tail n frames) {k : Nat} (hk : k < frames.length) :
    Uniform f tail n (frames.drop k) := by
  obtain ⟨init, last, rfl, hfull, hlast⟩ := h.exists_concat
  have hinit : k ≤ init.length := by simp at hk; omega
  rw [List.drop_append_of_le_length hinit, uniform_concat_iff]
  exact ⟨h.pos, fun g hg => hfull g (List.mem_of_mem_drop hg), hlast⟩

/-- A full frame in front of a uniform list. -/
theorem cons (h : Uniform f tail n frames) {g : List α} (hg : f.Full n g) :
    Uniform f tail n (g :: frames) := by
  obtain ⟨init, last, rfl, hfull, hlast⟩ := h.exists_concat
  rw [← List.cons_append, uniform_concat_iff]
  refine ⟨h.pos, ?_, hlast⟩
  intro x hx
  rcases List.mem_cons.mp hx with rfl | hx
  · exact hg
  · exact hfull x hx

/-- Full frames in front of a uniform list. -/
theorem append_full (h : Uniform f tail n frames) {gs : List (List α)}
    (hgs : ∀ g ∈ gs, f.Full n g) : Uniform f tail n (gs ++ frames) := by
  induction gs with
  | nil => exact h
  | cons g gs ih =>
      rw [List.cons_append]
      apply (ih fun x hx => hgs x (List.mem_cons_of_mem g hx)).cons
      exact hgs g List.mem_cons_self

/-- A proper prefix of a uniform list is uniform, and leaves nothing unfinished. -/
theorem take (h : Uniform f tail n frames) {j : Nat} (hj : 0 < j) (hlt : j < frames.length) :
    Uniform f false n (frames.take j) := by
  obtain ⟨i, rfl⟩ : ∃ i, j = i + 1 := ⟨j - 1, by omega⟩
  rw [List.take_succ_eq_append_getElem (by omega), uniform_concat_iff]
  refine ⟨h.pos, ?_, (h.full_getElem hlt).last h.pos⟩
  intro g hg
  obtain ⟨k, hk, rfl⟩ := List.mem_iff_getElem.mp hg
  rw [List.length_take] at hk
  rw [List.getElem_take]
  exact h.full_getElem (by omega)

theorem length_records_headD_pos (h : Uniform f tail n frames)
    (hsome : f.records frames.flatten ≠ []) : 0 < (f.records (frames.headD [])).length := by
  obtain ⟨init, last, rfl, hfull, hlast⟩ := h.exists_concat
  cases init with
  | nil =>
      rw [List.nil_append, List.flatten_singleton] at hsome
      exact List.length_pos_iff.mpr hsome
  | cons g init =>
      have hcount : (f.records ((g :: init ++ [last]).headD [])).length = n :=
        (hfull g List.mem_cons_self).1
      rw [hcount]
      exact h.pos

/-- The first frame of a uniform list holds `n` records where all of it does. -/
theorem length_records_headD_iff (h : Uniform f tail n frames) :
    (f.records (frames.headD [])).length = n ↔ n ≤ (f.records frames.flatten).length := by
  obtain ⟨init, last, rfl, hfull, hlast⟩ := h.exists_concat
  cases init with
  | nil =>
      rw [List.nil_append, List.headD_cons, List.flatten_singleton]
      exact ⟨fun heq => Nat.le_of_eq heq.symm, fun hle => Nat.le_antisymm hlast.2.1 hle⟩
  | cons g init =>
      have hcount : (f.records ((g :: init ++ [last]).headD [])).length = n :=
        (hfull g List.mem_cons_self).1
      refine iff_of_true hcount ?_
      have hall := f.length_records_le_append g (init ++ [last]).flatten
      rw [(hfull g List.mem_cons_self).1] at hall
      exact hall

/-- A list that leaves nothing unfinished is one that may. -/
theorem of_ended (h : Uniform f false n frames) : Uniform f tail n frames :=
  ⟨h.pos, h.ne_nil, h.full, fun g hg =>
    ⟨(h.last g hg).1, (h.last g hg).2.1, Or.inr ((h.last g hg).2.2.resolve_left (by simp))⟩⟩

/-- A part of a uniform list is uniform, or there is nothing to it. -/
theorem slice (h : Uniform f tail n frames) {a b : Nat} (hne : (frames.drop a).take b ≠ []) :
    Uniform f tail n ((frames.drop a).take b) := by
  have ha : a < frames.length := by
    by_contra hge
    rw [List.drop_eq_nil_of_le (Nat.le_of_not_lt hge), List.take_nil] at hne
    exact hne rfl
  have hb : 0 < b := by
    apply Nat.pos_of_ne_zero
    rintro rfl
    rw [List.take_zero] at hne
    exact hne rfl
  rcases Nat.lt_or_ge b (frames.drop a).length with hlt | hge
  · exact ((h.drop ha).take hb hlt).of_ended
  · rw [List.take_of_length_le hge]
    exact h.drop ha

/-- What the records and the remainder of the joined frames come to, by the last frame. -/
theorem flatten_eq (h : Uniform f tail n frames) :
    (f.records frames.flatten).length =
        n * (frames.length - 1) + (f.records (frames.getLast h.ne_nil)).length ∧
      f.rest frames.flatten = f.rest (frames.getLast h.ne_nil) := by
  obtain ⟨init, last, rfl, hfull, hlast⟩ := h.exists_concat
  obtain ⟨hcount, hrest⟩ := records_flatten_of_full hfull
  rw [List.flatten_append, f.records_append_of_rest hrest, f.rest_append_of_rest hrest]
  simp [hcount]

theorem length_records_le (h : Uniform f tail n frames) :
    (f.records frames.flatten).length ≤ n * frames.length := by
  have hlast := (h.last _ (List.getLast?_eq_getLast_of_ne_nil h.ne_nil)).2.1
  have hpos := h.length_pos
  obtain ⟨m, hm⟩ : ∃ m, frames.length = m + 1 := ⟨frames.length - 1, by omega⟩
  rw [h.flatten_eq.1, hm, Nat.add_sub_cancel, Nat.mul_succ]
  omega

theorem le_length_records (h : Uniform f tail n frames) :
    n * (frames.length - 1) ≤ (f.records frames.flatten).length := by
  rw [h.flatten_eq.1]
  omega

theorem rest_flatten (h : Uniform f tail n frames) (htail : tail = false) :
    f.rest frames.flatten = [] := by
  have hlast := (h.last _ (List.getLast?_eq_getLast_of_ne_nil h.ne_nil)).2.2
  rw [h.flatten_eq.2]
  simpa [htail] using hlast

/-- The records of the frames `k`, …, `k + j - 1`, where these stop before the last frame. -/
theorem records_region (h : Uniform f tail n frames) {k j : Nat} (hkj : k + j < frames.length) :
    f.records ((frames.drop k).take j).flatten =
        ((f.records frames.flatten).drop (n * k)).take (n * j) ∧
      f.rest ((frames.drop k).take j).flatten = [] := by
  have hk : k < frames.length := by omega
  have hdrop := h.drop hk
  obtain ⟨hcount, hrest⟩ := hdrop.records_take (k := j) (by rw [List.length_drop]; omega)
  refine ⟨?_, hrest⟩
  rw [← f.records_after, h.after_flatten hk, ← flatten_take_append_drop (frames.drop k) j,
    f.records_append_of_rest hrest, List.take_left' hcount]

/-- The frames from `k` to the end of the list. -/
theorem region_to_end (h : Uniform f tail n frames) {k j : Nat} (hk : k < frames.length)
    (hkj : frames.length ≤ k + j) :
    ((frames.drop k).take j).flatten = f.after frames.flatten (n * k) := by
  rw [h.after_flatten hk, List.take_of_length_le (by rw [List.length_drop]; omega)]

/-- Joined, the frames can be the one a list ends with that holds as much to a frame. -/
theorem last_flatten (h : Uniform f tail n frames) {j : Nat} (hj : frames.length ≤ j) :
    f.Last tail (n * j) frames.flatten := by
  refine ⟨?_, ?_, ?_⟩
  · obtain ⟨g, hg⟩ := List.exists_mem_of_ne_nil _ h.ne_nil
    intro hnil
    exact h.ne_nil_of_mem hg (List.flatten_eq_nil_iff.mp hnil g hg)
  · exact Nat.le_trans h.length_records_le (Nat.mul_le_mul_left n hj)
  · cases htail : tail with
    | true => exact Or.inl rfl
    | false => exact Or.inr (h.rest_flatten htail)

end Uniform

/-! ### Records with the unfinished one -/

/-- The records of a list, an unfinished last one among them where `tail` says it counts. -/
def Finder.items (f : Finder α) (tail : Bool) (d : List α) : List (List α) :=
  f.records d ++ (if tail && !(f.rest d).isEmpty then [f.rest d] else [])

theorem Finder.items_of_rest {d : List α} (h : f.rest d = []) : f.items tail d = f.records d := by
  simp [items, h]

theorem Finder.items_false (f : Finder α) (d : List α) : f.items false d = f.records d := by
  simp [items]

theorem Finder.items_of_tail {d : List α} (htail : tail = true) (h : f.rest d ≠ []) :
    f.items tail d = f.records d ++ [f.rest d] := by
  simp [items, htail, h]

theorem Finder.items_after (f : Finder α) (tail : Bool) (d : List α) {i : Nat}
    (hi : i ≤ (f.records d).length) : f.items tail (f.after d i) = (f.items tail d).drop i := by
  rw [items, items, f.records_after, f.rest_after, List.drop_append_of_le_length hi]

theorem Finder.length_records_le_items (f : Finder α) (tail : Bool) (d : List α) :
    (f.records d).length ≤ (f.items tail d).length := by
  rw [items, List.length_append]
  omega

theorem Finder.length_items_le (f : Finder α) (tail : Bool) (d : List α) :
    (f.items tail d).length ≤ (f.records d).length + 1 := by
  rw [items, List.length_append]
  split <;> simp

/-- A list holds at least as many elements as records, the unfinished one included. -/
theorem Finder.length_items_le_length (f : Finder α) (tail : Bool) (d : List α) :
    (f.items tail d).length ≤ d.length := by
  have hsplit := f.offset_add_length_after d (f.records d).length
  have hoffset : (f.records d).length ≤ f.offset d (f.records d).length := by
    rw [Finder.offset, List.take_length, List.length_flatten]
    calc (f.records d).length = ((f.records d).map fun _ => 1).sum := by simp
      _ ≤ ((f.records d).map List.length).sum := by
          apply List.sum_le_sum
          intro r hr
          exact List.length_pos_iff.mpr (f.ne_nil_of_mem_records hr)
  rw [f.after_of_length_le (Nat.le_refl _)] at hsplit
  rw [Finder.items, List.length_append]
  by_cases hrest : f.rest d = []
  · simp [hrest]
    omega
  · have hpos := List.length_pos_iff.mpr hrest
    split
    · simp only [List.length_singleton]
      omega
    · simp only [List.length_nil]
      omega

end SeekZstdSep.Lib
