/-
Module: SeekZstdSep.Lib.Ends
Purpose: Lists that are taken from at both ends. A schedule says which end each step takes from;
  whatever it says, every element comes out once, and nothing does once the list is empty.
Trusted boundary: none
Main exports: Side, popSide, popSides, taken, left, taken_append_left, popSides_of_nil
-/
import Mathlib.Data.List.Basic

namespace SeekZstdSep.Lib

universe u

variable {α : Type u}

/-- The end of a list a step takes from. -/
inductive Side where
  | front
  | back
deriving Repr, DecidableEq

/-- Takes the element at one end, if there is one. -/
def popSide : Side → List α → Option α × List α
  | .front, xs => (xs.head?, xs.tail)
  | .back, xs => (xs.getLast?, xs.dropLast)

/-- What the steps of a schedule take. -/
def popSides : List Side → List α → List (Option α)
  | [], _ => []
  | side :: sides, xs => (popSide side xs).1 :: popSides sides (popSide side xs).2

/-- What a schedule takes from one of the ends, in order. -/
def taken (which : Side) : List Side → List α → List α
  | [], _ => []
  | side :: sides, xs =>
      (if side = which then (popSide side xs).1.toList else []) ++
        taken which sides (popSide side xs).2

/-- What a schedule leaves. -/
def left : List Side → List α → List α
  | [], xs => xs
  | side :: sides, xs => left sides (popSide side xs).2

@[simp] theorem popSide_nil (side : Side) : popSide side ([] : List α) = (none, []) := by
  cases side <;> rfl

theorem toList_head?_append_tail (xs : List α) : xs.head?.toList ++ xs.tail = xs := by
  cases xs <;> rfl

theorem dropLast_append_toList_getLast? (xs : List α) :
    xs.dropLast ++ xs.getLast?.toList = xs := by
  rcases List.eq_nil_or_concat xs with rfl | ⟨init, x, rfl⟩
  · rfl
  · simp

/-- The elements taken in front, the ones left, and the ones taken at the back are the list: none
is taken twice, none is left out, and each end takes its own in order. -/
theorem taken_append_left (sides : List Side) (xs : List α) :
    taken .front sides xs ++ left sides xs ++ (taken .back sides xs).reverse = xs := by
  induction sides generalizing xs with
  | nil => simp [taken, left]
  | cons side sides ih =>
      cases side with
      | front =>
          have htail := ih xs.tail
          simp only [taken, left, popSide, if_true, reduceCtorEq, if_false, List.nil_append,
            List.append_assoc] at htail ⊢
          rw [htail, toList_head?_append_tail]
      | back =>
          have hinit := ih xs.dropLast
          simp only [taken, left, popSide, if_true, reduceCtorEq, if_false, List.nil_append,
            List.reverse_append, ← List.append_assoc] at hinit ⊢
          rw [hinit]
          have hlast : xs.getLast?.toList.reverse = xs.getLast?.toList := by
            cases xs.getLast? <;> rfl
          rw [hlast, dropLast_append_toList_getLast?]

/-- Nothing comes out of an empty list. -/
theorem popSides_of_nil (sides : List Side) :
    popSides sides ([] : List α) = List.replicate sides.length none := by
  induction sides with
  | nil => rfl
  | cons side sides ih =>
      rw [popSides, popSide_nil, ih]
      rfl

end SeekZstdSep.Lib
