/-
Module: SeekZstdSep.Lib.HeadFirst
Purpose: Trees written head first: a node, which says how many subtrees it has, and the subtrees
  after it. Such a text can be read with no stack, by counting the trees still owed; the count
  comes out at zero exactly at the end of a tree.
Trusted boundary: none
Main exports: HeadFirst, HeadFirst.Tree, HeadFirst.Owed, HeadFirst.owed_iff,
  HeadFirst.tree_iff_owed, HeadFirst.Owed.length_le
-/
import Mathlib.Data.List.Basic

namespace SeekZstdSep.Lib

universe u

variable {α : Type u}

/-- How a node is told from the text it starts: how long it is and how many subtrees follow it.
More text after a node changes neither, and the node is all that is needed to tell. -/
structure HeadFirst (α : Type u) where
  head : List α → Option (Nat × Nat)
  pos : ∀ {d len count}, head d = some (len, count) → 0 < len
  stable : ∀ {d node} e, head d = some node → head (d ++ e) = some node
  whole : ∀ {d len count}, head d = some (len, count) → len ≤ d.length →
    head (d.take len) = some (len, count)

namespace HeadFirst

variable {form : HeadFirst α} {n m : Nat} {d e : List α}

/-- A node and, one after the other, its subtrees. -/
inductive Tree (form : HeadFirst α) : List α → Prop where
  | node {node : List α} {subtrees : List (List α)}
      (head : form.head node = some (node.length, subtrees.length))
      (trees : ∀ tree ∈ subtrees, Tree form tree) : Tree form (node ++ subtrees.flatten)

/-- Text that pays for `n` trees: each node pays for one, and owes its subtrees. -/
inductive Owed (form : HeadFirst α) : Nat → List α → Prop where
  | none : Owed form 0 []
  | node {node rest : List α} {count n : Nat}
      (head : form.head node = some (node.length, count))
      (owed : Owed form (n + count) rest) : Owed form (n + 1) (node ++ rest)

theorem Owed.append (h : Owed form m d) (h' : Owed form n e) : Owed form (m + n) (d ++ e) := by
  induction h with
  | none => simpa using h'
  | @node node rest count k head _ ih =>
      rw [List.append_assoc, Nat.add_right_comm]
      apply Owed.node head
      rwa [Nat.add_right_comm]

/-- Trees in a row pay for as many. -/
theorem owed_flatten {trees : List (List α)} (h : ∀ tree ∈ trees, Owed form 1 tree) :
    Owed form trees.length trees.flatten := by
  induction trees with
  | nil => exact Owed.none
  | cons tree trees ih =>
      rw [List.flatten_cons, List.length_cons, Nat.add_comm]
      apply Owed.append
      · exact h tree (by simp)
      · exact ih fun tree' htree' => h tree' (by simp [htree'])

theorem Tree.owed (h : Tree form d) : Owed form 1 d := by
  induction h with
  | @node node subtrees head _ ih =>
      apply Owed.node head
      rw [Nat.zero_add]
      exact owed_flatten ih

/-- What pays for `n` trees is `n` trees: of those owed after a node the first ones are its
subtrees. -/
theorem Owed.exists_trees (h : Owed form n d) :
    ∃ trees : List (List α), trees.length = n ∧ trees.flatten = d ∧
      ∀ tree ∈ trees, Tree form tree := by
  induction h with
  | none => exact ⟨[], rfl, rfl, by simp⟩
  | @node node rest count n head _ ih =>
      obtain ⟨trees, hlength, rfl, htrees⟩ := ih
      have hcount : (trees.take count).length = count := by
        rw [List.length_take]
        omega
      refine ⟨(node ++ (trees.take count).flatten) :: trees.drop count, ?_, ?_, ?_⟩
      · rw [List.length_cons, List.length_drop]
        omega
      · rw [List.flatten_cons, List.append_assoc, ← List.flatten_append, List.take_append_drop]
      · intro tree htree
        rcases List.mem_cons.mp htree with rfl | hmem
        · apply Tree.node
          · rw [hcount, head]
          · exact fun tree' htree' => htrees tree' (List.mem_of_mem_take htree')
        · exact htrees tree (List.mem_of_mem_drop hmem)

/-- A text owes `n` trees where it is `n` trees one after the other. -/
theorem owed_iff :
    Owed form n d ↔
      ∃ trees : List (List α), trees.length = n ∧ trees.flatten = d ∧
        ∀ tree ∈ trees, Tree form tree := by
  constructor
  · exact Owed.exists_trees
  · rintro ⟨trees, rfl, rfl, htrees⟩
    exact owed_flatten fun tree htree => (htrees tree htree).owed

/-- The count of one tree is paid by one tree. -/
theorem tree_iff_owed : Tree form d ↔ Owed form 1 d := by
  constructor
  · exact Tree.owed
  · intro h
    obtain ⟨trees, hlength, rfl, htrees⟩ := owed_iff.mp h
    obtain ⟨tree, rfl⟩ := List.length_eq_one_iff.mp hlength
    simpa using htrees

theorem owed_zero_iff : Owed form 0 d ↔ d = [] := by
  constructor
  · intro h
    cases h
    rfl
  · rintro rfl
    exact .none

/-- Every tree takes at least one item. -/
theorem Owed.length_le (h : Owed form n d) : n ≤ d.length := by
  induction h with
  | none => exact Nat.le_refl 0
  | @node node rest count n head _ ih =>
      have hpos := form.pos head
      rw [List.length_append]
      omega

/-- What pays for a tree starts with a node. -/
theorem Owed.exists_node (h : Owed form (n + 1) d) :
    ∃ len count, form.head d = some (len, count) ∧ len ≤ d.length ∧
      Owed form (n + count) (d.drop len) := by
  cases h with
  | node hhead howed =>
      refine ⟨_, _, form.stable _ hhead, by simp, ?_⟩
      rwa [List.drop_left' rfl]

/-- Text that starts with no node pays for no tree. -/
theorem not_owed_of_head (h : form.head d = none) (k : Nat) : ¬ Owed form (n + 1) (d.take k) := by
  intro howed
  obtain ⟨len, count, hhead, -, -⟩ := howed.exists_node
  have hmore := form.stable (d.drop k) hhead
  rw [List.take_append_drop, h] at hmore
  cases hmore

/-- One step of reading: the node pays for a tree, the text behind it for the rest and for the
subtrees. -/
theorem owed_take_iff {len count k : Nat} (hhead : form.head d = some (len, count))
    (hk : k ≤ d.length) :
    Owed form (n + 1) (d.take k) ↔
      len ≤ k ∧ Owed form (n + count) ((d.drop len).take (k - len)) := by
  constructor
  · intro howed
    obtain ⟨len', count', hhead', hle, hrest⟩ := howed.exists_node
    have hmore := form.stable (d.drop k) hhead'
    rw [List.take_append_drop, hhead] at hmore
    obtain ⟨rfl, rfl⟩ := Prod.mk.inj (Option.some.inj hmore)
    rw [List.length_take] at hle
    rw [List.drop_take] at hrest
    exact ⟨by omega, hrest⟩
  · rintro ⟨hle, hrest⟩
    have hsplit : d.take k = d.take len ++ (d.drop len).take (k - len) := by
      rw [← List.drop_take, ← List.take_append_drop len (d.take k), List.take_take,
        Nat.min_eq_left hle, List.drop_left' (by rw [List.length_take]; omega)]
    rw [hsplit]
    apply Owed.node _ hrest
    rw [List.length_take, Nat.min_eq_left (Nat.le_trans hle hk)]
    exact form.whole hhead (Nat.le_trans hle hk)

end HeadFirst

end SeekZstdSep.Lib
