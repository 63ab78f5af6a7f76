/-
Module: SeekZstdSep.Lib.Gather
Purpose: Records gathered until something is due. What is due is told of how many records there
  are so far and how much they take; the first run of records it is due at is a record of a
  finder of its own, so runs of records are cut, appended and joined as records are.
Trusted boundary: none
Main exports: Finder.firstAt, Finder.gather, Finder.pieces, flatten_pieces, eq_pieces,
  groups_eq_pieces
-/
import SeekZstdSep.Lib.Groups

namespace SeekZstdSep.Lib

universe u

variable {α : Type u}

namespace Finder

/-! ### Where something is due -/

/-- How many records there are where `due` first holds, of the records so far and the elements
they take. -/
def firstAt (f : Finder α) (due : Nat → Nat → Bool) (d : List α) : Option Nat :=
  ((List.range (f.records d).length).find? fun i => due (i + 1) (f.offset d (i + 1))).map (· + 1)

variable {f : Finder α} {due : Nat → Nat → Bool}

theorem firstAt_eq_some_iff {d : List α} {k : Nat} :
    f.firstAt due d = some k ↔
      0 < k ∧ k ≤ (f.records d).length ∧ due k (f.offset d k) = true ∧
        ∀ j, 0 < j → j < k → due j (f.offset d j) = false := by
  rw [firstAt, Option.map_eq_some_iff]
  constructor
  · rintro ⟨i, hfind, rfl⟩
    obtain ⟨hdue, hrange, hbefore⟩ := List.find?_range_eq_some.mp hfind
    refine ⟨Nat.succ_pos i, List.mem_range.mp hrange, hdue, fun j hpos hlt => ?_⟩
    obtain ⟨j, rfl⟩ := Nat.exists_eq_succ_of_ne_zero (Nat.ne_of_gt hpos)
    simpa using hbefore j (Nat.lt_of_succ_lt_succ hlt)
  · rintro ⟨hpos, hle, hdue, hbefore⟩
    obtain ⟨i, rfl⟩ := Nat.exists_eq_succ_of_ne_zero (Nat.ne_of_gt hpos)
    refine ⟨i, List.find?_range_eq_some.mpr ⟨hdue, List.mem_range.mpr hle, fun j hlt => ?_⟩, rfl⟩
    simpa using hbefore (j + 1) (Nat.succ_pos j) (Nat.succ_lt_succ hlt)

theorem firstAt_eq_none_iff {d : List α} :
    f.firstAt due d = none ↔
      ∀ j, 0 < j → j ≤ (f.records d).length → due j (f.offset d j) = false := by
  rw [firstAt, Option.map_eq_none_iff, List.find?_range_eq_none]
  constructor
  · intro h j hpos hle
    obtain ⟨j, rfl⟩ := Nat.exists_eq_succ_of_ne_zero (Nat.ne_of_gt hpos)
    simpa using h j hle
  · intro h i hi
    simpa using h (i + 1) (Nat.succ_pos i) hi

/-- What was due stays due when the list grows. -/
theorem firstAt_append {d : List α} {k : Nat} (e : List α) (h : f.firstAt due d = some k) :
    f.firstAt due (d ++ e) = some k := by
  obtain ⟨hpos, hle, hdue, hbefore⟩ := firstAt_eq_some_iff.mp h
  apply firstAt_eq_some_iff.mpr
  refine ⟨hpos, Nat.le_trans hle (f.length_records_le_append d e), ?_, fun j hj hlt => ?_⟩
  · rw [f.offset_append d e hle]
    exact hdue
  · rw [f.offset_append d e (by omega)]
    exact hbefore j hj hlt

/-- What is due of the first records of a list is due of the list. -/
theorem firstAt_take (hw : f.Whole) {d : List α} {k : Nat} (h : f.firstAt due d = some k) :
    f.firstAt due (d.take (f.offset d k)) = some k := by
  obtain ⟨hpos, hle, hdue, hbefore⟩ := firstAt_eq_some_iff.mp h
  have hrecords : f.records (d.take (f.offset d k)) = (f.records d).take k := by
    rw [f.take_offset, records_take_of_whole hw]
  have hoffset : ∀ j, j ≤ k → f.offset (d.take (f.offset d k)) j = f.offset d j := by
    intro j hj
    rw [offset, hrecords, List.take_take, Nat.min_eq_left hj, offset]
  apply firstAt_eq_some_iff.mpr
  refine ⟨hpos, ?_, ?_, fun j hj hlt => ?_⟩
  · rw [hrecords, List.length_take, Nat.min_eq_left hle]
  · rw [hoffset k (Nat.le_refl k)]
    exact hdue
  · rw [hoffset j (Nat.le_of_lt hlt)]
    exact hbefore j hj hlt

/-- Nothing is asked of no records. -/
theorem firstAt_congr {due' : Nat → Nat → Bool} (h : ∀ i size, 0 < i → due i size = due' i size)
    (d : List α) : f.firstAt due d = f.firstAt due' d := by
  have hsame : (fun i => due (i + 1) (f.offset d (i + 1))) =
      fun i => due' (i + 1) (f.offset d (i + 1)) := by
    funext i
    exact h (i + 1) _ (Nat.succ_pos i)
  rw [firstAt, firstAt, hsame]

/-- The runs of records something is first due at, as a finder. -/
def gather (f : Finder α) (due : Nat → Nat → Bool) : Finder α where
  find d := (f.firstAt due d).map (f.offset d)
  pos {d k} h := by
    obtain ⟨i, hfirst, rfl⟩ := Option.map_eq_some_iff.mp h
    obtain ⟨hpos, hle, -⟩ := firstAt_eq_some_iff.mp hfirst
    have hlt := f.offset_lt (d := d) (i := 0) (j := i) (by omega) hpos
    omega
  le {d k} h := by
    obtain ⟨i, -, rfl⟩ := Option.map_eq_some_iff.mp h
    exact f.offset_le d i
  stable {d k} e h := by
    obtain ⟨i, hfirst, rfl⟩ := Option.map_eq_some_iff.mp h
    have hle := (firstAt_eq_some_iff.mp hfirst).2.1
    rw [firstAt_append e hfirst, Option.map_some, f.offset_append d e hle]

theorem gather_eq (d : List α) : f.gather due d = (f.firstAt due d).map (f.offset d) := rfl

theorem gather_congr {due' : Nat → Nat → Bool} (h : ∀ i size, 0 < i → due i size = due' i size) :
    f.gather due = f.gather due' := by
  have hsame : (f.gather due).find = (f.gather due').find := by
    funext d
    rw [gather_eq, gather_eq, firstAt_congr h]
  cases hleft : f.gather due
  cases hright : f.gather due'
  rw [hleft, hright] at hsame
  cases hsame
  rfl

theorem gather_eq_none_iff {d : List α} : f.gather due d = none ↔ f.firstAt due d = none :=
  Option.map_eq_none_iff

/-- Behind what is gathered the same records follow. -/
theorem rest_gather (d : List α) : f.rest ((f.gather due).rest d) = f.rest d := by
  induction d using (f.gather due).cut_induction with
  | none d hnone => rw [rest_of_none _ hnone]
  | some d k hsome ih =>
      rw [rest_of_some _ hsome, ih]
      rw [gather_eq, Option.map_eq_some_iff] at hsome
      obtain ⟨i, -, rfl⟩ := hsome
      exact (f.cut_after d i).2

theorem gather_whole (hw : f.Whole) : (f.gather due).Whole := by
  intro d k h
  obtain ⟨i, hfirst, rfl⟩ := Option.map_eq_some_iff.mp h
  have hle := (firstAt_eq_some_iff.mp hfirst).2.1
  rw [gather_eq, firstAt_take hw hfirst, Option.map_some, offset, f.take_offset,
    records_take_of_whole hw, List.take_take, Nat.min_self]
  rfl

/-- A run of records something is due at is one where it takes all there is. -/
theorem gather_eq_length_iff {g : List α} :
    f.gather due g = some g.length ↔
      f.rest g = [] ∧ f.firstAt due g = some (f.records g).length := by
  rw [gather_eq, Option.map_eq_some_iff]
  constructor
  · rintro ⟨i, hfirst, hoffset⟩
    have hle := (firstAt_eq_some_iff.mp hfirst).2.1
    have hsplit := f.offset_add_length_after g i
    have hafter : f.after g i = [] := List.length_eq_zero_iff.mp (by omega)
    have hlast : (f.records g).length ≤ i := by
      apply f.length_le_of_find_after (d := g)
      rw [hafter, find_nil]
    obtain rfl : i = (f.records g).length := Nat.le_antisymm hle hlast
    rw [f.after_of_length_le (Nat.le_refl _)] at hafter
    exact ⟨hafter, hfirst⟩
  · rintro ⟨hrest, hfirst⟩
    refine ⟨_, hfirst, ?_⟩
    have hsplit := f.offset_add_length_after g (f.records g).length
    rw [f.after_of_length_le (Nat.le_refl _), hrest, List.length_nil] at hsplit
    exact hsplit

/-! ### Records, and what is left of them -/

/-- The records of a list, and what follows them as a piece of its own. -/
def pieces (f : Finder α) (d : List α) : List (List α) :=
  f.records d ++ if (f.rest d).isEmpty then [] else [f.rest d]

theorem pieces_of_none {d : List α} (h : f d = none) (hne : d ≠ []) : f.pieces d = [d] := by
  rw [pieces, f.records_of_none h, f.rest_of_none h, if_neg (by simpa using hne), List.nil_append]

theorem pieces_of_some {d : List α} {k : Nat} (h : f d = some k) :
    f.pieces d = d.take k :: f.pieces (d.drop k) := by
  rw [pieces, f.records_of_some h, f.rest_of_some h, List.cons_append, pieces]

@[simp] theorem pieces_nil (f : Finder α) : f.pieces [] = [] := by
  rw [pieces, records_nil, rest_nil]
  rfl

theorem pieces_ne_nil {d : List α} (hne : d ≠ []) : f.pieces d ≠ [] := by
  cases h : f d with
  | none =>
      rw [pieces_of_none h hne]
      exact List.cons_ne_nil d []
  | some k =>
      rw [pieces_of_some h]
      exact List.cons_ne_nil _ _

theorem flatten_pieces (f : Finder α) (d : List α) : (f.pieces d).flatten = d := by
  have hsplit := f.flatten_records_append_rest d
  rw [pieces, List.flatten_append]
  split
  · next hrest =>
      rw [List.isEmpty_iff.mp hrest] at hsplit
      exact hsplit
  · rw [List.flatten_singleton]
    exact hsplit

theorem ne_nil_of_mem_pieces {d g : List α} (hg : g ∈ f.pieces d) : g ≠ [] := by
  rw [pieces, List.mem_append] at hg
  rcases hg with hrecord | hrest
  · exact f.ne_nil_of_mem_records hrecord
  · split at hrest
    · cases hrest
    · next hne =>
        rw [List.mem_singleton.mp hrest]
        simpa using hne

/-- Pieces that are each a record, but for the last, which need not hold one. -/
def Pieces (f : Finder α) (gs : List (List α)) : Prop :=
  (∀ g ∈ gs.dropLast, f g = some g.length) ∧
    ∀ g ∈ gs.getLast?, f g = some g.length ∨ f g = none

theorem pieces_concat_iff {init : List (List α)} {last : List α} :
    f.Pieces (init ++ [last]) ↔
      (∀ g ∈ init, f g = some g.length) ∧ (f last = some last.length ∨ f last = none) := by
  rw [Pieces, List.dropLast_concat, List.getLast?_concat]
  simp

theorem pieces_pieces (hw : f.Whole) (d : List α) : f.Pieces (f.pieces d) := by
  have hall : ∀ g ∈ f.records d, f g = some g.length := by
    induction d using f.cut_induction with
    | none d h =>
        rw [f.records_of_none h]
        exact fun g hg => absurd hg List.not_mem_nil
    | some d k h ih =>
        rw [f.records_of_some h]
        intro g hg
        rcases List.mem_cons.mp hg with rfl | hg
        · rw [hw d k h, List.length_take, Nat.min_eq_left (f.le h)]
        · exact ih g hg
  rw [pieces]
  split
  · rw [List.append_nil]
    refine ⟨fun g hg => hall g (List.dropLast_subset _ hg), fun g hg => Or.inl ?_⟩
    exact hall g (List.mem_of_getLast? hg)
  · exact pieces_concat_iff.mpr ⟨hall, Or.inr (f.find_rest d)⟩

/-- Pieces that are not empty are those of what they join to. -/
theorem eq_pieces {gs : List (List α)} (h : f.Pieces gs) (hne : ∀ g ∈ gs, g ≠ []) :
    gs = f.pieces gs.flatten := by
  induction gs with
  | nil => exact (pieces_nil f).symm
  | cons g gs ih =>
      by_cases hlast : gs = []
      · subst hlast
        rw [List.flatten_singleton]
        rcases h.2 g (by simp) with hrecord | hnone
        · rw [pieces_of_some hrecord, List.take_length, List.drop_length, pieces_nil]
        · rw [pieces_of_none hnone (hne g (by simp))]
      · have hfirst : f (g ++ gs.flatten) = some g.length := by
          apply f.stable
          apply h.1
          rw [List.dropLast_cons_of_ne_nil hlast]
          exact List.mem_cons_self
        have hrest : f.Pieces gs := by
          constructor
          · intro x hx
            apply h.1
            rw [List.dropLast_cons_of_ne_nil hlast]
            exact List.mem_cons_of_mem g hx
          · intro x hx
            apply h.2
            rw [List.getLast?_cons_of_ne_nil hlast]
            exact hx
        rw [List.flatten_cons, pieces_of_some hfirst, List.take_left, List.drop_left,
          ← ih hrest fun x hx => hne x (List.mem_cons_of_mem g hx)]

/-! ### Groups of as many records -/

theorem firstAt_count {n : Nat} (hn : 0 < n) (d : List α) :
    f.firstAt (fun i _ => decide (n ≤ i)) d =
      if n ≤ (f.records d).length then some n else none := by
  split_ifs with hle
  · apply firstAt_eq_some_iff.mpr
    refine ⟨hn, hle, by simp, fun j _ hlt => ?_⟩
    simpa using hlt
  · apply firstAt_eq_none_iff.mpr
    intro j _ hj
    simp only [decide_eq_false_iff_not]
    omega

/-- Groups of `n` records are what is gathered until there are `n`. -/
theorem groups_eq_pieces {n : Nat} (hn : 0 < n) (d : List α) :
    f.groups n d = (f.gather fun i _ => decide (n ≤ i)).pieces d := by
  induction d using groups_induction (f := f) hn with
  | few d h =>
      have hnone : f.gather (fun i _ => decide (n ≤ i)) d = none := by
        rw [gather_eq, firstAt_count hn, if_neg (by omega)]
        rfl
      by_cases hne : d = []
      · rw [hne, groups_nil hn, pieces_nil]
      · rw [groups_of_lt h hne, pieces_of_none hnone hne]
  | group d h ih =>
      have hsome : f.gather (fun i _ => decide (n ≤ i)) d = some (f.offset d n) := by
        rw [gather_eq, firstAt_count hn, if_pos h]
        rfl
      rw [groups_of_le hn h, pieces_of_some hsome, ih]
      rfl

/-- A frame is full where as many records are due and there is nothing else. -/
theorem gather_count_eq_length_iff {n : Nat} (hn : 0 < n) {g : List α} :
    f.gather (fun i _ => decide (n ≤ i)) g = some g.length ↔ f.Full n g := by
  rw [gather_eq_length_iff, firstAt_count hn, Full]
  constructor
  · rintro ⟨hrest, hcount⟩
    split_ifs at hcount
    exact ⟨(Option.some.inj hcount).symm, hrest⟩
  · rintro ⟨hcount, hrest⟩
    exact ⟨hrest, by rw [if_pos (Nat.le_of_eq hcount.symm), hcount]⟩

theorem gather_count_eq_none_iff {n : Nat} (hn : 0 < n) {g : List α} :
    f.gather (fun i _ => decide (n ≤ i)) g = none ↔ (f.records g).length < n := by
  rw [gather_eq_none_iff, firstAt_count hn]
  split_ifs with hle
  · simp only [false_iff]
    omega
  · simp only [true_iff]
    omega

end Finder

end SeekZstdSep.Lib
