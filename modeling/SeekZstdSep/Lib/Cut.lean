/-
Module: SeekZstdSep.Lib.Cut
Purpose: Cutting a list into records with a prefix-stable finder. A finder answers how long
  the record at the head of a list is; everything else here (the whole records, the
  remainder, the position of record `i`) is read off that one question, together with the
  laws that say how the answers compose when lists are appended or cut short.
Trusted boundary: none
Main exports: Finder, Finder.Whole, Finder.records, Finder.rest, Finder.after,
  records_append, rest_append, records_after, records_take_of_whole
-/
import Mathlib.Data.List.Basic
import Mathlib.Data.List.TakeDrop

namespace SeekZstdSep.Lib

universe u

variable {α : Type u}

/-- A boundary finder: how long is the record that starts at the head of the list, or `none`
when no record ends in it yet. A record takes at least one element and lies inside the list,
and a record once found stays the same when the list grows at its end. -/
structure Finder (α : Type u) where
  find : List α → Option Nat
  pos : ∀ {d k}, find d = some k → 0 < k
  le : ∀ {d k}, find d = some k → k ≤ d.length
  stable : ∀ {d k} (e : List α), find d = some k → find (d ++ e) = some k

namespace Finder

instance : CoeFun (Finder α) (fun _ => List α → Option Nat) := ⟨Finder.find⟩

/-- The elements of a record are a whole record by themselves: the finder needs nothing of
what follows a record to recognise it. -/
def Whole (f : Finder α) : Prop :=
  ∀ d k, f d = some k → f (d.take k) = some k

variable (f : Finder α)

@[simp] theorem find_nil : f [] = none := by
  cases h : f [] with
  | none => rfl
  | some k =>
      have hpos := f.pos h
      have hle := f.le h
      simp at hle
      omega

theorem drop_length_lt {d : List α} {k : Nat} (h : f d = some k) :
    (d.drop k).length < d.length := by
  have hpos := f.pos h
  have hle := f.le h
  rw [List.length_drop]
  omega

/-- The records at the head of the list and what is left after them. The fuel is the length
of the list, which every record shortens. -/
def cutFuel : Nat → List α → List (List α) × List α
  | 0, d => ([], d)
  | fuel + 1, d =>
      match f d with
      | none => ([], d)
      | some k =>
          let tail := cutFuel fuel (d.drop k)
          (d.take k :: tail.1, tail.2)

/-- The whole records of a list, in order. -/
def records (d : List α) : List (List α) := (f.cutFuel d.length d).1

/-- What follows the last whole record. -/
def rest (d : List α) : List α := (f.cutFuel d.length d).2

/-- Induction along the cut of a list: either no record starts at its head, or one does and
the statement holds of what follows it. -/
theorem cut_induction {motive : List α → Prop}
    (none : ∀ d, f d = none → motive d)
    (some : ∀ d k, f d = some k → motive (d.drop k) → motive d) (d : List α) : motive d := by
  induction hlen : d.length using Nat.strongRecOn generalizing d with
  | ind len ih =>
      cases h : f d with
      | none => exact none d h
      | some k =>
          have hlt := f.drop_length_lt h
          exact some d k h (ih _ (hlen ▸ hlt) _ rfl)

theorem cutFuel_eq (d : List α) :
    ∀ fuel, d.length ≤ fuel → f.cutFuel fuel d = f.cutFuel d.length d := by
  induction d using f.cut_induction with
  | none d h =>
      intro fuel _
      have cut_none : ∀ fuel, f.cutFuel fuel d = ([], d) := by
        intro fuel
        cases fuel with
        | zero => rfl
        | succ fuel => simp [cutFuel, h]
      rw [cut_none, cut_none]
  | some d k h ih =>
      intro fuel hfuel
      have hlt := f.drop_length_lt h
      obtain ⟨len, hlen⟩ : ∃ len, d.length = len + 1 := ⟨d.length - 1, by omega⟩
      obtain ⟨more, rfl⟩ : ∃ more, fuel = more + 1 := ⟨fuel - 1, by omega⟩
      rw [hlen]
      simp only [cutFuel, h]
      rw [ih more (by omega), ih len (by omega)]

theorem records_of_none {d : List α} (h : f d = none) : f.records d = [] := by
  cases hd : d.length with
  | zero => simp [records, hd, cutFuel]
  | succ len => simp [records, hd, cutFuel, h]

theorem rest_of_none {d : List α} (h : f d = none) : f.rest d = d := by
  cases hd : d.length with
  | zero => simp [rest, hd, cutFuel]
  | succ len => simp [rest, hd, cutFuel, h]

theorem records_of_some {d : List α} {k : Nat} (h : f d = some k) :
    f.records d = d.take k :: f.records (d.drop k) := by
  have hlt := f.drop_length_lt h
  obtain ⟨len, hlen⟩ : ∃ len, d.length = len + 1 := ⟨d.length - 1, by omega⟩
  unfold records
  rw [hlen]
  simp only [cutFuel, h]
  rw [f.cutFuel_eq (d.drop k) len (by omega)]

theorem rest_of_some {d : List α} {k : Nat} (h : f d = some k) :
    f.rest d = f.rest (d.drop k) := by
  have hlt := f.drop_length_lt h
  obtain ⟨len, hlen⟩ : ∃ len, d.length = len + 1 := ⟨d.length - 1, by omega⟩
  unfold rest
  rw [hlen]
  simp only [cutFuel, h]
  rw [f.cutFuel_eq (d.drop k) len (by omega)]

@[simp] theorem records_nil : f.records [] = [] := f.records_of_none f.find_nil

@[simp] theorem rest_nil : f.rest [] = [] := f.rest_of_none f.find_nil

/-- Cutting loses nothing: the records followed by the remainder are the list. -/
@[simp] theorem flatten_records_append_rest (d : List α) :
    (f.records d).flatten ++ f.rest d = d := by
  induction d using f.cut_induction with
  | none d h => simp [f.records_of_none h, f.rest_of_none h]
  | some d k h ih =>
      rw [f.records_of_some h, f.rest_of_some h, List.flatten_cons, List.append_assoc, ih]
      exact List.take_append_drop k d

/-- No record starts at the head of the remainder. -/
@[simp] theorem find_rest (d : List α) : f (f.rest d) = none := by
  induction d using f.cut_induction with
  | none d h => rw [f.rest_of_none h, h]
  | some d k h ih => rw [f.rest_of_some h, ih]

@[simp] theorem records_rest (d : List α) : f.records (f.rest d) = [] :=
  f.records_of_none (f.find_rest d)

@[simp] theorem rest_rest (d : List α) : f.rest (f.rest d) = f.rest d :=
  f.rest_of_none (f.find_rest d)

theorem records_eq_nil_iff {d : List α} : f.records d = [] ↔ f d = none := by
  constructor
  · intro h
    cases hd : f d with
    | none => rfl
    | some k => simp [f.records_of_some hd] at h
  · exact f.records_of_none

theorem ne_nil_of_mem_records {d r : List α} (h : r ∈ f.records d) : r ≠ [] := by
  induction d using f.cut_induction with
  | none d hd => simp [f.records_of_none hd] at h
  | some d k hd ih =>
      rw [f.records_of_some hd] at h
      rcases List.mem_cons.mp h with rfl | h
      · intro hnil
        have hpos := f.pos hd
        have hle := f.le hd
        have hlen := congrArg List.length hnil
        simp at hlen
        rcases hlen with hlen | hlen
        · omega
        · simp [hlen] at hle
          omega
      · exact ih h

/-- A list holds at least as many elements as records. -/
theorem length_records_le (d : List α) : (f.records d).length ≤ d.length := by
  induction d using f.cut_induction with
  | none d h => simp [f.records_of_none h]
  | some d k h ih =>
      have hlt := f.drop_length_lt h
      rw [f.records_of_some h, List.length_cons]
      omega

theorem length_rest_le (d : List α) : (f.rest d).length ≤ d.length := by
  have h := congrArg List.length (f.flatten_records_append_rest d)
  rw [List.length_append] at h
  omega

/-! ### Appending -/

/-- The records of a list stay records when the list grows; the search goes on from the
remainder. -/
theorem records_append (a b : List α) :
    f.records (a ++ b) = f.records a ++ f.records (f.rest a ++ b) := by
  induction a using f.cut_induction with
  | none a h => rw [f.records_of_none h, f.rest_of_none h, List.nil_append]
  | some a k h ih =>
      have hle := f.le h
      rw [f.records_of_some (f.stable b h), f.records_of_some h, f.rest_of_some h,
        List.take_append_of_le_length hle, List.drop_append_of_le_length hle, ih,
        List.cons_append]

theorem rest_append (a b : List α) : f.rest (a ++ b) = f.rest (f.rest a ++ b) := by
  induction a using f.cut_induction with
  | none a h => rw [f.rest_of_none h]
  | some a k h ih =>
      have hle := f.le h
      rw [f.rest_of_some (f.stable b h), f.rest_of_some h,
        List.drop_append_of_le_length hle, ih]

theorem records_append_of_rest {a : List α} (h : f.rest a = []) (b : List α) :
    f.records (a ++ b) = f.records a ++ f.records b := by
  rw [records_append, h, List.nil_append]

theorem rest_append_of_rest {a : List α} (h : f.rest a = []) (b : List α) :
    f.rest (a ++ b) = f.rest b := by
  rw [rest_append, h, List.nil_append]

/-! ### Where record `i` starts -/

/-- How many elements the first `i` records take. -/
def offset (d : List α) (i : Nat) : Nat := ((f.records d).take i).flatten.length

/-- The list from where record `i` starts on, and the remainder past the last record. -/
def after (d : List α) (i : Nat) : List α := d.drop (f.offset d i)

theorem split_records (d : List α) (i : Nat) :
    ((f.records d).take i).flatten ++ (((f.records d).drop i).flatten ++ f.rest d) = d := by
  rw [← List.append_assoc, ← List.flatten_append, List.take_append_drop,
    flatten_records_append_rest]

theorem after_eq (d : List α) (i : Nat) :
    f.after d i = ((f.records d).drop i).flatten ++ f.rest d := by
  have h := congrArg (List.drop (f.offset d i)) (f.split_records d i)
  rw [offset, List.drop_left' rfl] at h
  exact h.symm

theorem take_records_append_after (d : List α) (i : Nat) :
    ((f.records d).take i).flatten ++ f.after d i = d := by
  rw [after_eq, split_records]

@[simp] theorem after_zero (d : List α) : f.after d 0 = d := by simp [after, offset]

theorem after_of_length_le {d : List α} {i : Nat} (h : (f.records d).length ≤ i) :
    f.after d i = f.rest d := by
  rw [after_eq, List.drop_eq_nil_of_le h]
  simp

theorem offset_add_length_after (d : List α) (i : Nat) :
    f.offset d i + (f.after d i).length = d.length := by
  have h := congrArg List.length (f.take_records_append_after d i)
  rwa [List.length_append] at h

theorem offset_le (d : List α) (i : Nat) : f.offset d i ≤ d.length := by
  have h := f.offset_add_length_after d i
  omega

theorem take_offset (d : List α) (i : Nat) :
    d.take (f.offset d i) = ((f.records d).take i).flatten := by
  have h := congrArg (List.take (f.offset d i)) (f.take_records_append_after d i)
  rw [offset, List.take_left' rfl] at h
  exact h.symm

theorem after_succ_of_some {d : List α} {k : Nat} (h : f d = some k) (i : Nat) :
    f.after d (i + 1) = f.after (d.drop k) i := by
  rw [after_eq, after_eq, f.records_of_some h, f.rest_of_some h, List.drop_succ_cons]

/-- Cutting from record `i` on gives the records from `i` on, and the same remainder. -/
theorem cut_after (d : List α) (i : Nat) :
    f.records (f.after d i) = (f.records d).drop i ∧ f.rest (f.after d i) = f.rest d := by
  induction d using f.cut_induction generalizing i with
  | none d h =>
      rw [f.after_of_length_le (by simp [f.records_of_none h]), records_rest, rest_rest,
        f.records_of_none h]
      simp
  | some d k h ih =>
      cases i with
      | zero => simp
      | succ i =>
          obtain ⟨hrecs, hrest⟩ := ih i
          rw [f.after_succ_of_some h, f.records_of_some h, f.rest_of_some h]
          exact ⟨by rw [hrecs, List.drop_succ_cons], hrest⟩

@[simp] theorem records_after (d : List α) (i : Nat) :
    f.records (f.after d i) = (f.records d).drop i := (f.cut_after d i).1

@[simp] theorem rest_after (d : List α) (i : Nat) : f.rest (f.after d i) = f.rest d :=
  (f.cut_after d i).2

@[simp] theorem after_after (d : List α) (i j : Nat) :
    f.after (f.after d i) j = f.after d (i + j) := by
  rw [f.after_eq (f.after d i), f.after_eq d (i + j), records_after, rest_after, List.drop_drop]

/-- The first `j` records that follow the first `i` end where the first `i + j` do. -/
theorem offset_add (d : List α) (i j : Nat) :
    f.offset d (i + j) = f.offset d i + f.offset (f.after d i) j := by
  rw [offset, offset, offset, records_after, List.take_add, List.flatten_append, List.length_append]

theorem offset_mono (d : List α) {i j : Nat} (h : i ≤ j) : f.offset d i ≤ f.offset d j := by
  obtain ⟨c, rfl⟩ := Nat.exists_eq_add_of_le h
  rw [offset_add]
  omega

/-- Every record takes something. -/
theorem offset_lt {d : List α} {i j : Nat} (hi : i < (f.records d).length) (h : i < j) :
    f.offset d i < f.offset d j := by
  refine Nat.lt_of_lt_of_le ?_ (f.offset_mono d (Nat.succ_le_of_lt h))
  have hne := f.ne_nil_of_mem_records (List.getElem_mem hi)
  have hpos := List.length_pos_iff.mpr hne
  rw [offset, offset, List.take_succ_eq_append_getElem hi, List.flatten_append, List.length_append,
    List.flatten_singleton]
  omega

theorem length_after_lt {d : List α} {i j : Nat} (hi : i < (f.records d).length) (h : i < j) :
    (f.after d j).length < (f.after d i).length := by
  have hlt := f.offset_lt hi h
  have hi := f.offset_add_length_after d i
  have hj := f.offset_add_length_after d j
  omega

/-- Past its last record a list has none. -/
theorem length_le_of_find_after {d : List α} {i : Nat} (h : f (f.after d i) = none) :
    (f.records d).length ≤ i := by
  rw [← List.drop_eq_nil_iff, ← f.records_after]
  exact f.records_of_none h

/-- A record found where record `i` starts is record `i`. -/
theorem offset_succ_of_find_after {d : List α} {i k : Nat} (h : f (f.after d i) = some k) :
    i < (f.records d).length ∧ f.offset d (i + 1) = f.offset d i + k := by
  have hhead : (f.records d).drop i =
      (f.after d i).take k :: f.records ((f.after d i).drop k) := by
    rw [← f.records_after]
    exact f.records_of_some h
  have hlt : i < (f.records d).length := by
    by_contra hge
    rw [List.drop_eq_nil_of_le (by omega)] at hhead
    simp at hhead
  refine ⟨hlt, ?_⟩
  have hle := f.le h
  rw [List.drop_eq_getElem_cons hlt] at hhead
  rw [offset, offset, List.take_succ_eq_append_getElem hlt, List.flatten_append,
    List.length_append, (List.cons.inj hhead).1]
  rw [List.flatten_singleton, List.length_take, Nat.min_eq_left hle]

/-! ### Reading a list through a prefix of it -/

/-- The first records of a list are among the records of whatever it grows to. -/
theorem take_records_append (a b : List α) {c : Nat} (h : c ≤ (f.records a).length) :
    (f.records (a ++ b)).take c = (f.records a).take c := by
  rw [records_append, List.take_append_of_le_length h]

theorem length_records_le_append (a b : List α) :
    (f.records a).length ≤ (f.records (a ++ b)).length := by
  rw [records_append, List.length_append]
  omega

theorem offset_append (a b : List α) {c : Nat} (h : c ≤ (f.records a).length) :
    f.offset (a ++ b) c = f.offset a c := by
  rw [offset, offset, f.take_records_append a b h]

theorem after_append (a b : List α) {c : Nat} (h : c ≤ (f.records a).length) :
    f.after (a ++ b) c = f.after a c ++ b := by
  rw [after, after, f.offset_append a b h, List.drop_append_of_le_length (f.offset_le a c)]

/-- A prefix that ends where a record does holds every record that starts in it. -/
theorem eq_nil_of_rest_prefix {a b r : List α} {i : Nat} (ha : f.rest a = [])
    (h : ((f.records (a ++ b)).take i).flatten ++ r = a) (hr : f r = none) : r = [] := by
  rcases Nat.lt_or_ge i (f.records a).length with hi | hi
  · have hafter : f.after a i = r := by
      rw [f.take_records_append a b (Nat.le_of_lt hi)] at h
      exact List.append_cancel_left ((f.take_records_append_after a i).trans h.symm)
    have := f.length_le_of_find_after (d := a) (i := i) (by rw [hafter, hr])
    omega
  · have hwhole : (f.records a).flatten = a := by
      have := f.flatten_records_append_rest a
      rwa [ha, List.append_nil] at this
    have hlen := congrArg List.length h
    have hpre : (f.records a).flatten.length ≤ ((f.records (a ++ b)).take i).flatten.length := by
      rw [records_append, List.take_append, List.flatten_append, List.length_append,
        List.take_of_length_le hi]
      omega
    rw [List.length_append] at hlen
    rw [hwhole] at hpre
    exact List.length_eq_zero_iff.mp (by omega)

/-- Where a prefix leaves no remainder, the records that end in it are records of it. -/
theorem length_le_of_offset_le {d : List α} {e i : Nat} (hrest : f.rest (d.take e) = [])
    (hi : i ≤ (f.records d).length) (hle : f.offset d i ≤ e) :
    i ≤ (f.records (d.take e)).length := by
  by_contra hgt
  have hsplit : d.take e ++ d.drop e = d := List.take_append_drop e d
  have hoffset := f.offset_append (d.take e) (d.drop e) (Nat.le_refl _)
  have hlen := f.offset_add_length_after (d.take e) (f.records (d.take e)).length
  rw [f.after_of_length_le (Nat.le_refl _), hrest, List.length_nil, List.length_take] at hlen
  rw [hsplit] at hoffset
  have hlt := f.offset_lt (d := d) (i := (f.records (d.take e)).length) (j := i) (by omega)
    (by omega)
  have hin := f.offset_le d i
  omega

/-! ### Finders that need no look-ahead -/

variable {f}

/-- Records put back in front of anything are cut off again. -/
theorem cut_take_append_of_whole (hw : f.Whole) (d : List α) (i : Nat) (e : List α) :
    f.records (((f.records d).take i).flatten ++ e) = (f.records d).take i ++ f.records e ∧
      f.rest (((f.records d).take i).flatten ++ e) = f.rest e := by
  induction d using f.cut_induction generalizing i with
  | none d h => simp [f.records_of_none h]
  | some d k h ih =>
      cases i with
      | zero => simp
      | succ i =>
          obtain ⟨hrecs, hrest⟩ := ih i
          have hlen : (d.take k).length = k := by
            rw [List.length_take]
            exact Nat.min_eq_left (f.le h)
          have hfind : f (d.take k ++ (((f.records (d.drop k)).take i).flatten ++ e)) = some k :=
            f.stable _ (hw d k h)
          rw [f.records_of_some h, List.take_succ_cons, List.flatten_cons, List.append_assoc,
            f.records_of_some hfind, f.rest_of_some hfind, List.take_left' hlen,
            List.drop_left' hlen, hrecs, hrest]
          exact ⟨rfl, rfl⟩

theorem records_take_of_whole (hw : f.Whole) (d : List α) (i : Nat) :
    f.records ((f.records d).take i).flatten = (f.records d).take i := by
  have h := (cut_take_append_of_whole hw d i []).1
  rwa [List.append_nil, records_nil, List.append_nil] at h

theorem rest_take_of_whole (hw : f.Whole) (d : List α) (i : Nat) :
    f.rest ((f.records d).take i).flatten = [] := by
  have h := (cut_take_append_of_whole hw d i []).2
  rwa [List.append_nil, rest_nil] at h

end Finder

end SeekZstdSep.Lib
