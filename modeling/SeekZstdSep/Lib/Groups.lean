/-
Module: SeekZstdSep.Lib.Groups
Purpose: Lists cut into groups of so many records. Every group but the last holds exactly `n`
  records and nothing after them; what fills no group comes last. Growing a list at its end
  regroups its last group and nothing before it.
Trusted boundary: none
Main exports: Finder.fullGroups, Finder.groupRest, Finder.groups, groups_induction,
  flatten_groups, groups_append, uniform_groups
-/
import SeekZstdSep.Lib.Uniform

namespace SeekZstdSep.Lib

universe u

variable {α : Type u}

namespace Finder

variable (f : Finder α) (n : Nat)

/-- The groups a list fills. Each takes something off it, so its length bounds their number. -/
def fullGroupsFuel : Nat → List α → List (List α)
  | 0, _ => []
  | fuel + 1, d =>
      if n ≤ (f.records d).length then
        d.take (f.offset d n) :: fullGroupsFuel fuel (f.after d n)
      else []

def fullGroups (d : List α) : List (List α) := f.fullGroupsFuel n (d.length + 1) d

/-- What fills no group. -/
def groupRest (d : List α) : List α := f.after d (n * ((f.records d).length / n))

/-- A list cut into groups of `n` records, what fills no group last. -/
def groups (d : List α) : List (List α) :=
  f.fullGroups n d ++ if (f.groupRest n d).isEmpty then [] else [f.groupRest n d]

variable {f n}

theorem length_after_lt_of_le (hn : 0 < n) {d : List α} (h : n ≤ (f.records d).length) :
    (f.after d n).length < d.length := by
  have hlt := f.length_after_lt (d := d) (i := 0) (j := n) (by omega) hn
  rwa [f.after_zero] at hlt

/-- Induction along the groups of a list: either it fills no group, or the statement holds of what
follows its first one. -/
theorem groups_induction (hn : 0 < n) {motive : List α → Prop}
    (few : ∀ d, (f.records d).length < n → motive d)
    (group : ∀ d, n ≤ (f.records d).length → motive (f.after d n) → motive d) (d : List α) :
    motive d := by
  induction hlen : d.length using Nat.strongRecOn generalizing d with
  | ind len ih =>
      rcases Nat.lt_or_ge (f.records d).length n with hlt | hge
      · exact few d hlt
      · apply group d hge
        apply ih _ _ _ rfl
        rw [← hlen]
        exact length_after_lt_of_le hn hge

theorem fullGroupsFuel_eq (hn : 0 < n) (d : List α) :
    ∀ fuel, d.length < fuel → f.fullGroupsFuel n fuel d = f.fullGroups n d := by
  induction d using groups_induction (f := f) hn with
  | few d h =>
      intro fuel hfuel
      obtain ⟨fuel, rfl⟩ : ∃ more, fuel = more + 1 := ⟨fuel - 1, by omega⟩
      have hone : ∀ fuel, f.fullGroupsFuel n (fuel + 1) d = [] := by
        intro fuel
        rw [fullGroupsFuel, if_neg (by omega)]
      rw [fullGroups, hone, hone]
  | group d h ih =>
      intro fuel hfuel
      obtain ⟨fuel, rfl⟩ : ∃ more, fuel = more + 1 := ⟨fuel - 1, by omega⟩
      have hlt := length_after_lt_of_le hn h
      have hone : ∀ fuel, f.fullGroupsFuel n (fuel + 1) d =
          d.take (f.offset d n) :: f.fullGroupsFuel n fuel (f.after d n) := by
        intro fuel
        rw [fullGroupsFuel, if_pos h]
      rw [fullGroups, hone, hone, ih fuel (by omega), ih d.length hlt]

theorem fullGroups_of_le (hn : 0 < n) {d : List α} (h : n ≤ (f.records d).length) :
    f.fullGroups n d = d.take (f.offset d n) :: f.fullGroups n (f.after d n) := by
  conv_lhs => rw [fullGroups, fullGroupsFuel, if_pos h]
  rw [fullGroupsFuel_eq hn _ _ (length_after_lt_of_le hn h)]

theorem fullGroups_of_lt {d : List α} (h : (f.records d).length < n) : f.fullGroups n d = [] := by
  rw [fullGroups, fullGroupsFuel, if_neg (by omega)]

theorem groupRest_of_le (hn : 0 < n) {d : List α} (h : n ≤ (f.records d).length) :
    f.groupRest n d = f.groupRest n (f.after d n) := by
  obtain ⟨more, hmore⟩ : ∃ more, (f.records d).length = n + more :=
    ⟨(f.records d).length - n, by omega⟩
  rw [groupRest, groupRest, f.after_after, f.records_after, List.length_drop, hmore,
    Nat.add_sub_cancel_left, Nat.add_div_left _ hn, Nat.mul_succ, Nat.add_comm]

theorem groupRest_of_lt {d : List α} (h : (f.records d).length < n) : f.groupRest n d = d := by
  rw [groupRest, Nat.div_eq_of_lt h, Nat.mul_zero, f.after_zero]

theorem groups_of_le (hn : 0 < n) {d : List α} (h : n ≤ (f.records d).length) :
    f.groups n d = d.take (f.offset d n) :: f.groups n (f.after d n) := by
  rw [groups, groups, fullGroups_of_le hn h, groupRest_of_le hn h, List.cons_append]

theorem groups_of_lt {d : List α} (h : (f.records d).length < n) (hne : d ≠ []) :
    f.groups n d = [d] := by
  rw [groups, fullGroups_of_lt h, groupRest_of_lt h, List.nil_append,
    if_neg (by simpa using hne)]

@[simp] theorem groups_nil (hn : 0 < n) : f.groups n ([] : List α) = [] := by
  have hnone : (f.records ([] : List α)).length < n := by
    rw [f.records_nil]
    exact hn
  rw [groups, fullGroups_of_lt hnone, groupRest_of_lt hnone]
  rfl

/-- The first group takes something. -/
theorem take_offset_ne_nil (hn : 0 < n) {d : List α} (h : n ≤ (f.records d).length) :
    d.take (f.offset d n) ≠ [] := by
  intro hnil
  have hlt := length_after_lt_of_le hn h
  have hsplit := f.offset_add_length_after d n
  have hle := f.offset_le d n
  have hlen := congrArg List.length hnil
  rw [List.length_take, List.length_nil] at hlen
  omega

/-- Grouping loses nothing. -/
theorem flatten_groups (hn : 0 < n) (d : List α) : (f.groups n d).flatten = d := by
  induction d using groups_induction (f := f) hn with
  | few d h =>
      by_cases hne : d = []
      · rw [hne, groups_nil hn]
        rfl
      · rw [groups_of_lt h hne]
        simp
  | group d h ih =>
      rw [groups_of_le hn h, List.flatten_cons, ih]
      exact List.take_append_drop _ d

theorem groups_ne_nil (hn : 0 < n) {d : List α} (hne : d ≠ []) : f.groups n d ≠ [] := by
  intro hnil
  apply hne
  rw [← flatten_groups (f := f) hn d, hnil]
  rfl

theorem ne_nil_of_mem_groups (hn : 0 < n) {d g : List α} (hg : g ∈ f.groups n d) : g ≠ [] := by
  induction d using groups_induction (f := f) hn with
  | few d h =>
      by_cases hne : d = []
      · rw [hne, groups_nil hn] at hg
        cases hg
      · rw [groups_of_lt h hne] at hg
        rwa [List.mem_singleton.mp hg]
  | group d h ih =>
      rw [groups_of_le hn h] at hg
      rcases List.mem_cons.mp hg with rfl | hg
      · exact take_offset_ne_nil hn h
      · exact ih hg

/-- A first group stays when the list grows. -/
theorem groups_append_of_le (hn : 0 < n) {d : List α} (e : List α)
    (h : n ≤ (f.records d).length) :
    f.groups n (d ++ e) = d.take (f.offset d n) :: f.groups n (f.after d n ++ e) := by
  have hmore : n ≤ (f.records (d ++ e)).length :=
    Nat.le_trans h (f.length_records_le_append d e)
  rw [groups_of_le hn hmore, f.offset_append d e h, f.after_append d e h,
    List.take_append_of_le_length (f.offset_le d n)]

/-- A full frame in front of a list is its first group. -/
theorem groups_append_of_full (hn : 0 < n) {d : List α} (e : List α) (h : f.Full n d) :
    f.groups n (d ++ e) = d :: f.groups n e := by
  have hall : f.after d n = [] := by
    rw [f.after_of_length_le (Nat.le_of_eq h.1)]
    exact h.2
  have htake : d.take (f.offset d n) = d := by
    have hsplit := List.take_append_drop (f.offset d n) d
    rwa [show d.drop (f.offset d n) = [] from hall, List.append_nil] at hsplit
  rw [groups_append_of_le hn e (Nat.le_of_eq h.1.symm), htake, hall, List.nil_append]

/-- Growing a list regroups its last group. -/
theorem groups_append (hn : 0 < n) (d e : List α) :
    f.groups n (d ++ e) =
      (f.groups n d).dropLast ++ f.groups n ((f.groups n d).getLastD [] ++ e) := by
  induction d using groups_induction (f := f) hn with
  | few d h =>
      by_cases hne : d = []
      · rw [hne, groups_nil hn]
        rfl
      · rw [groups_of_lt h hne]
        rfl
  | group d h ih =>
      rw [groups_of_le hn h, groups_append_of_le hn e h]
      by_cases hnil : f.after d n = []
      · -- the first group is all there is, and a group of the longer list
        have hall : d.take (f.offset d n) = d := by
          have hsplit := List.take_append_drop (f.offset d n) d
          rwa [show d.drop (f.offset d n) = [] from hnil, List.append_nil] at hsplit
        rw [hnil, groups_nil hn, hall]
        show d :: f.groups n ([] ++ e) = [] ++ f.groups n (d ++ e)
        rw [List.nil_append, List.nil_append, groups_append_of_le hn e h, hnil, hall,
          List.nil_append]
      · have hmore := groups_ne_nil (f := f) hn hnil
        rw [ih, List.dropLast_cons_of_ne_nil hmore]
        obtain ⟨g, gs, hgs⟩ := List.exists_cons_of_ne_nil hmore
        rw [hgs]
        rfl

/-- A group that is filled is full. -/
theorem full_take_offset (hw : f.Whole) {d : List α} (h : n ≤ (f.records d).length) :
    f.Full n (d.take (f.offset d n)) := by
  rw [Full, f.take_offset, records_take_of_whole hw, rest_take_of_whole hw, List.length_take,
    Nat.min_eq_left h]
  exact ⟨rfl, rfl⟩

/-- The records of a list are grouped as they are; the last group has what fills no group. -/
theorem uniform_groups (hw : f.Whole) (hn : 0 < n) {tail : Bool} {d : List α} (hne : d ≠ [])
    (htail : tail = true ∨ f.rest d = []) : Uniform f tail n (f.groups n d) := by
  induction d using groups_induction (f := f) hn with
  | few d h =>
      rw [groups_of_lt h hne]
      exact (uniform_concat_iff [] d).mpr ⟨hn, by simp, hne, Nat.le_of_lt h, htail⟩
  | group d h ih =>
      have hfull := full_take_offset hw h
      rw [groups_of_le hn h]
      by_cases hnil : f.after d n = []
      · rw [hnil, groups_nil hn]
        exact (uniform_concat_iff [] _).mpr ⟨hn, by simp, hfull.last hn⟩
      · refine (ih hnil ?_).cons hfull
        rw [f.rest_after]
        exact htail

end Finder

end SeekZstdSep.Lib
