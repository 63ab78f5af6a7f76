/-
Module: SeekZstdSep.Lib.Pieces
Purpose: A list cut into pieces of so many elements, the last of which may have fewer. There is one
  way to cut it, and the pieces add up to what the list does.
Trusted boundary: none
Main exports: sum_map_le, Pieces, Pieces.step_drop, Pieces.unique, Pieces.sum_sums
-/
import Mathlib.Algebra.Order.BigOperators.Group.List
import Mathlib.Tactic.Ring

namespace SeekZstdSep.Lib

universe u

variable {α : Type u} {size : Nat} {l : List α} {pieces pieces' : List (List α)}

/-- The pieces of a list, in order: every one has `size` elements, but for the last one, which has
at least one and no more. -/
structure Pieces (size : Nat) (l : List α) (pieces : List (List α)) : Prop where
  flatten : pieces.flatten = l
  full : ∀ piece ∈ pieces.dropLast, piece.length = size
  last : ∀ piece ∈ pieces.getLast?, 0 < piece.length ∧ piece.length ≤ size

theorem sum_map_le {f : α → Nat} {most : Nat} (h : ∀ x ∈ l, f x ≤ most) :
    (l.map f).sum ≤ l.length * most := by
  have hall : ∀ y ∈ l.map f, y ≤ most := by
    intro y hy
    obtain ⟨x, hx, rfl⟩ := List.mem_map.mp hy
    exact h x hx
  have hsum : (l.map f).sum ≤ (l.map f).length * most := List.sum_le_card_nsmul _ _ hall
  rwa [List.length_map] at hsum

theorem length_flatten_le {most : Nat} (h : ∀ piece ∈ pieces, piece.length ≤ most) :
    pieces.flatten.length ≤ pieces.length * most := by
  rw [List.length_flatten]
  exact sum_map_le h

namespace Pieces

theorem nil (size : Nat) : Pieces size ([] : List α) [] where
  flatten := rfl
  full := by simp
  last := by simp

theorem single (hpos : 0 < l.length) (hle : l.length ≤ size) : Pieces size l [l] where
  flatten := by simp
  full := by simp
  last := by
    intro piece hpiece
    obtain rfl : l = piece := Option.some.inj hpiece
    exact ⟨hpos, hle⟩

/-- What is cut into no pieces has no elements. -/
theorem eq_nil_iff (h : Pieces size l pieces) : pieces = [] ↔ l = [] := by
  constructor
  · rintro rfl
    exact h.flatten.symm
  · rintro rfl
    by_contra hne
    obtain ⟨hpos, -⟩ := h.last _ (List.getLast?_eq_some_getLast hne)
    have hnil := List.flatten_eq_nil_iff.mp h.flatten _ (List.getLast_mem hne)
    rw [hnil] at hpos
    exact Nat.lt_irrefl 0 hpos

/-- One piece, and the pieces of what is left. -/
theorem step (hne : l ≠ []) (h : Pieces size (l.drop size) pieces) :
    Pieces size l (l.take size :: pieces) := by
  have hpos := List.length_pos_iff.mpr hne
  by_cases hrest : l.drop size = []
  · obtain rfl := h.eq_nil_iff.mpr hrest
    have hle := List.drop_eq_nil_iff.mp hrest
    rw [List.take_of_length_le hle]
    exact single hpos hle
  · have hmore : pieces ≠ [] := fun hnil => hrest (h.eq_nil_iff.mp hnil)
    have hlt : size < l.length := by
      by_contra hge
      exact hrest (List.drop_eq_nil_of_le (Nat.le_of_not_lt hge))
    constructor
    · rw [List.flatten_cons, h.flatten, List.take_append_drop]
    · intro piece hpiece
      rw [List.dropLast_cons_of_ne_nil hmore] at hpiece
      rcases List.mem_cons.mp hpiece with rfl | hpiece
      · rw [List.length_take]
        omega
      · exact h.full piece hpiece
    · intro piece hpiece
      rw [List.getLast?_cons_of_ne_nil hmore] at hpiece
      exact h.last piece hpiece

/-- The piece from element `k` on, and the pieces of what is behind it. -/
theorem step_drop {k : Nat} (hk : k < l.length)
    (h : Pieces size (l.drop (min (k + size) l.length)) pieces) :
    Pieces size (l.drop k) ((l.drop k).take size :: pieces) := by
  have hrest : l.drop (min (k + size) l.length) = (l.drop k).drop size := by
    rw [List.drop_drop, List.drop_eq_drop_iff]
    omega
  have hne : l.drop k ≠ [] := by
    intro hnil
    rw [List.drop_eq_nil_iff] at hnil
    omega
  rw [hrest] at h
  exact h.step hne

/-- The first piece, and the pieces of what is left. -/
theorem uncons {piece : List α} (h : Pieces size l (piece :: pieces)) :
    piece = l.take size ∧ Pieces size (l.drop size) pieces := by
  by_cases hnil : pieces = []
  · subst hnil
    obtain ⟨-, hle⟩ := h.last piece rfl
    have hall : piece = l := by simpa using h.flatten
    subst hall
    rw [List.take_of_length_le hle, List.drop_eq_nil_of_le hle]
    exact ⟨rfl, nil size⟩
  · have hfull : piece.length = size := by
      apply h.full
      rw [List.dropLast_cons_of_ne_nil hnil]
      exact List.mem_cons_self
    have hsplit : piece ++ pieces.flatten = l := h.flatten
    rw [← hsplit, List.take_left' hfull, List.drop_left' hfull]
    refine ⟨rfl, rfl, ?_, ?_⟩
    · intro piece' hpiece
      apply h.full
      rw [List.dropLast_cons_of_ne_nil hnil]
      exact List.mem_cons_of_mem _ hpiece
    · intro piece' hpiece
      apply h.last
      rw [List.getLast?_cons_of_ne_nil hnil]
      exact hpiece

/-- There is one way to cut a list. -/
theorem unique (h : Pieces size l pieces) (h' : Pieces size l pieces') : pieces = pieces' := by
  induction pieces generalizing l pieces' with
  | nil => exact (h'.eq_nil_iff.mpr (h.eq_nil_iff.mp rfl)).symm
  | cons piece pieces ih =>
      cases pieces' with
      | nil =>
          have hnil := h.eq_nil_iff.mpr (h'.eq_nil_iff.mp rfl)
          cases hnil
      | cons piece' pieces' =>
          obtain ⟨rfl, hrest⟩ := h.uncons
          obtain ⟨rfl, hrest'⟩ := h'.uncons
          rw [ih hrest hrest']

/-- The pieces together add up to what the list does. -/
theorem sum_sums {f : α → Nat} (h : Pieces size l pieces) :
    (pieces.map fun piece => (piece.map f).sum).sum = (l.map f).sum := by
  rw [← h.flatten, List.map_flatten, List.sum_flatten, List.map_map]
  rfl

end Pieces

end SeekZstdSep.Lib
