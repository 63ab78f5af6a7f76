/-
Module: SeekZstdSep.Lib.Concat
Purpose: A list of lists read as their concatenation: how many elements come before each of them,
  and in which one an index of the concatenation falls.
Trusted boundary: none
Main exports: before, sums, sums_succ, getElem?_flatten_of_before
-/
import Mathlib.Data.List.Basic

namespace SeekZstdSep.Lib

universe u

variable {α : Type u}

/-- How many elements come before list `i`. -/
def before (xss : List (List α)) (i : Nat) : Nat := (xss.take i).flatten.length

/-- How many elements the lists up to each of the first `k` hold. -/
def sums (xss : List (List α)) (k : Nat) : List Nat :=
  (List.range k).map fun i => before xss (i + 1)

variable {xss : List (List α)} {i k : Nat}

@[simp] theorem before_zero (xss : List (List α)) : before xss 0 = 0 := by simp [before]

theorem before_length (xss : List (List α)) : before xss xss.length = xss.flatten.length := by
  rw [before, List.take_length]

theorem before_succ (hi : i < xss.length) : before xss (i + 1) = before xss i + xss[i].length := by
  rw [before, before, List.take_succ_eq_append_getElem hi, List.flatten_append, List.length_append,
    List.flatten_singleton]

theorem getElem?_sums (hi : i < k) : (sums xss k)[i]? = some (before xss (i + 1)) := by
  rw [sums, List.getElem?_map, List.getElem?_range hi, Option.map_some]

/-- The last of the sums is what comes before the next list. -/
theorem getLast?_sums (xss : List (List α)) (k : Nat) :
    (sums xss k).getLast?.getD 0 = before xss k := by
  cases k with
  | zero => simp [sums]
  | succ k => simp [sums, List.range_succ]

theorem sums_succ (hk : k < xss.length) :
    sums xss (k + 1) = sums xss k ++ [before xss k + xss[k].length] := by
  rw [sums, List.range_succ, List.map_append, List.map_singleton, before_succ hk, sums]

/-- An index not in front of list `i` is looked up from there on. -/
theorem getElem?_flatten_drop {index : Nat} (h : before xss i ≤ index) :
    xss.flatten[index]? = ((xss.drop i).flatten)[index - before xss i]? := by
  rw [← List.take_append_drop i xss, List.flatten_append, List.getElem?_append_right h,
    List.take_append_drop]
  rfl

/-- An index that falls in a list, or past all the lists before the last one, is looked up in that
list. -/
theorem getElem?_flatten_of_before {index : Nat} (hi : i < xss.length) (h : before xss i ≤ index)
    (hin : i + 1 < xss.length → index < before xss (i + 1)) :
    xss.flatten[index]? = xss[i][index - before xss i]? := by
  rw [getElem?_flatten_drop h, List.drop_eq_getElem_cons hi, List.flatten_cons]
  rcases Nat.lt_or_ge (i + 1) xss.length with hmore | hlast
  · have hsucc := before_succ hi
    have hlt := hin hmore
    rw [List.getElem?_append_left (by omega)]
  · rw [List.drop_eq_nil_of_le hlast, List.flatten_nil, List.append_nil]

end SeekZstdSep.Lib
