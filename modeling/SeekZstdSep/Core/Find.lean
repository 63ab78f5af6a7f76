/-
Module: SeekZstdSep.Core.Find
Purpose: The record finders of `find.rs` that the reader and the edits are opened with, each as
  the function the source defines and as a `Finder` carrying its contract.
Trusted boundary: the leftmost-match behaviour of the substring search.
Main exports: Bytes, memmem, bySeparator, byLe32Prefix, byFixed, separatorFinder,
  le32PrefixFinder, fixedFinder, Boundary
-/
import SeekZstdSep.Lib.Cut

namespace SeekZstdSep

open Lib

abbrev Bytes := List UInt8

/-- Leftmost occurrence of `needle`, as the substring search the crate uses reports it. -/
def memmem (needle : Bytes) : Bytes → Option Nat
  | [] => if needle.isEmpty then some 0 else none
  | byte :: data =>
      if needle.isPrefixOf (byte :: data) then some 0
      else (memmem needle data).map (· + 1)

/-- Records that end with `separator`. -/
def bySeparator (separator : Bytes) (data : Bytes) : Option Nat :=
  (memmem separator data).map (· + separator.length)

/-- The `u32` little-endian number in the first four bytes. -/
def le32 (data : Bytes) : Option Nat :=
  match data with
  | b0 :: b1 :: b2 :: b3 :: _ =>
      some (b0.toNat + 256 * b1.toNat + 65536 * b2.toNat + 16777216 * b3.toNat)
  | _ => none

/-- Records of a `u32` little-endian length not counting itself, then that many bytes. -/
def byLe32Prefix (data : Bytes) : Option Nat :=
  match le32 data with
  | none => none
  | some n => if data.length ≥ 4 + n then some (4 + n) else none

/-- Records of a constant length. A length of 0 ends no record. -/
def byFixed (len : Nat) (data : Bytes) : Option Nat :=
  if 0 < len ∧ data.length ≥ len then some len else none

/-! ### The separator finder meets the contract -/

theorem memmem_add_length_le {needle data : Bytes} {p : Nat} (h : memmem needle data = some p) :
    p + needle.length ≤ data.length := by
  induction data generalizing p with
  | nil =>
      cases needle with
      | nil => simp [memmem] at h; simp [← h]
      | cons b bs => simp [memmem] at h
  | cons byte data ih =>
      rw [memmem] at h
      split at h
      · next hprefix =>
          have hle := (List.isPrefixOf_iff_prefix.mp hprefix).length_le
          simp at h
          omega
      · rw [Option.map_eq_some_iff] at h
        obtain ⟨q, hq, rfl⟩ := h
        have := ih hq
        simp only [List.length_cons]
        omega

theorem isPrefixOf_append_of_le {needle data : Bytes} (rest : Bytes)
    (h : needle.length ≤ data.length) :
    needle.isPrefixOf (data ++ rest) = needle.isPrefixOf data := by
  rw [Bool.eq_iff_iff, List.isPrefixOf_iff_prefix, List.isPrefixOf_iff_prefix]
  constructor
  · intro hp
    exact List.prefix_of_prefix_length_le hp (List.prefix_append data rest) h
  · intro hp
    exact hp.trans (List.prefix_append data rest)

theorem memmem_append {needle data : Bytes} {p : Nat} (rest : Bytes)
    (h : memmem needle data = some p) : memmem needle (data ++ rest) = some p := by
  induction data generalizing p with
  | nil =>
      cases needle with
      | nil =>
          simp [memmem] at h
          subst h
          cases rest with
          | nil => rfl
          | cons b bs => simp [memmem]
      | cons b bs => simp [memmem] at h
  | cons byte data ih =>
      have hle := memmem_add_length_le h
      rw [memmem] at h
      rw [List.cons_append, memmem, ← List.cons_append,
        isPrefixOf_append_of_le rest (by omega)]
      split at h
      · next hprefix => rw [if_pos hprefix]; exact h
      · next hprefix =>
          rw [if_neg hprefix]
          rw [Option.map_eq_some_iff] at h ⊢
          obtain ⟨q, hq, rfl⟩ := h
          exact ⟨q, ih hq, rfl⟩

theorem memmem_take {needle data : Bytes} {p : Nat} (h : memmem needle data = some p) :
    memmem needle (data.take (p + needle.length)) = some p := by
  induction data generalizing p with
  | nil => simpa using h
  | cons byte data ih =>
      rw [memmem] at h
      split at h
      · next hprefix =>
          simp at h
          subst h
          obtain ⟨suffix, hsuffix⟩ := List.isPrefixOf_iff_prefix.mp hprefix
          rw [← hsuffix, Nat.zero_add, List.take_left' rfl]
          cases needle with
          | nil => rfl
          | cons b bs => simp [memmem]
      · next hprefix =>
          rw [Option.map_eq_some_iff] at h
          obtain ⟨q, hq, rfl⟩ := h
          rw [show q + 1 + needle.length = (q + needle.length) + 1 by omega, List.take_succ_cons,
            memmem, ← List.take_succ_cons, if_neg, ih hq]
          · rfl
          · intro htake
            apply hprefix
            rw [List.isPrefixOf_iff_prefix] at htake ⊢
            exact htake.trans (List.take_prefix _ _)

/-- A non-empty separator as a finder. -/
def separatorFinder (separator : Bytes) (ne : separator ≠ []) : Finder UInt8 where
  find := bySeparator separator
  pos := by
    intro d k h
    obtain ⟨p, _, rfl⟩ := Option.map_eq_some_iff.mp h
    have := List.length_pos_iff.mpr ne
    omega
  le := by
    intro d k h
    obtain ⟨p, hp, rfl⟩ := Option.map_eq_some_iff.mp h
    exact memmem_add_length_le hp
  stable := by
    intro d k e h
    obtain ⟨p, hp, rfl⟩ := Option.map_eq_some_iff.mp h
    simp [bySeparator, memmem_append e hp]

theorem separatorFinder_whole (separator : Bytes) (ne : separator ≠ []) :
    (separatorFinder separator ne).Whole := by
  intro d k h
  obtain ⟨p, hp, rfl⟩ := Option.map_eq_some_iff.mp h
  show bySeparator separator (d.take (p + separator.length)) = some (p + separator.length)
  simp [bySeparator, memmem_take hp]

/-! ### So do the length-prefixed and the fixed-size one -/

theorem le32_append {data : Bytes} {n : Nat} (rest : Bytes) (h : le32 data = some n) :
    le32 (data ++ rest) = some n := by
  match data, h with
  | _ :: _ :: _ :: _ :: _, h => exact h

theorem le32_take {data : Bytes} {n k : Nat} (hk : 4 ≤ k) (h : le32 data = some n) :
    le32 (data.take k) = some n := by
  obtain ⟨j, rfl⟩ : ∃ j, k = j + 4 := ⟨k - 4, by omega⟩
  match data, h with
  | _ :: _ :: _ :: _ :: _, h => exact h

theorem byLe32Prefix_eq_some {data : Bytes} {k : Nat} (h : byLe32Prefix data = some k) :
    ∃ n, le32 data = some n ∧ k = 4 + n ∧ 4 + n ≤ data.length := by
  unfold byLe32Prefix at h
  split at h
  · simp at h
  · next n hn =>
      split at h
      · next hle => exact ⟨n, hn, by simpa using h.symm, hle⟩
      · simp at h

def le32PrefixFinder : Finder UInt8 where
  find := byLe32Prefix
  pos := by
    intro d k h
    obtain ⟨n, -, rfl, -⟩ := byLe32Prefix_eq_some h
    omega
  le := by
    intro d k h
    obtain ⟨n, -, rfl, hle⟩ := byLe32Prefix_eq_some h
    exact hle
  stable := by
    intro d k e h
    obtain ⟨n, hn, rfl, hle⟩ := byLe32Prefix_eq_some h
    simp only [byLe32Prefix, le32_append e hn, List.length_append]
    rw [if_pos (by omega)]

theorem le32PrefixFinder_whole : le32PrefixFinder.Whole := by
  intro d k h
  obtain ⟨n, hn, rfl, hle⟩ := byLe32Prefix_eq_some h
  show byLe32Prefix (d.take (4 + n)) = some (4 + n)
  simp only [byLe32Prefix, le32_take (k := 4 + n) (by omega) hn, List.length_take]
  rw [if_pos (by omega)]

theorem byFixed_eq_some {len k : Nat} {data : Bytes} (h : byFixed len data = some k) :
    k = len ∧ 0 < len ∧ len ≤ data.length := by
  unfold byFixed at h
  split at h
  · next hlen => exact ⟨by simpa using h.symm, hlen.1, hlen.2⟩
  · simp at h

def fixedFinder (len : Nat) : Finder UInt8 where
  find := byFixed len
  pos := by
    intro d k h
    obtain ⟨rfl, hpos, -⟩ := byFixed_eq_some h
    exact hpos
  le := by
    intro d k h
    obtain ⟨rfl, -, hle⟩ := byFixed_eq_some h
    exact hle
  stable := by
    intro d k e h
    obtain ⟨rfl, hpos, hle⟩ := byFixed_eq_some h
    rw [byFixed, if_pos ⟨hpos, by rw [List.length_append]; omega⟩]

theorem fixedFinder_whole (len : Nat) : (fixedFinder len).Whole := by
  intro d k h
  obtain ⟨rfl, hpos, hle⟩ := byFixed_eq_some h
  show byFixed k (d.take k) = some k
  rw [byFixed, if_pos ⟨hpos, by rw [List.length_take]; omega⟩]

/-- Where records end: a separator, kept as its bytes, or a finder. -/
inductive Boundary where
  | separator (bytes : Bytes) (ne : bytes ≠ [])
  | finder (find : Finder UInt8)

namespace Boundary

/-- The finder a walk is made with. -/
def find : Boundary → Finder UInt8
  | .separator bytes ne => separatorFinder bytes ne
  | .finder find => find

/-- Whether a non-empty remainder of the file counts as its last record. -/
def tailIsRecord : Boundary → Bool
  | .separator _ _ => true
  | .finder _ => false

/-- The separator the boundary was built from, and nothing for a finder. -/
def bytes : Boundary → Bytes
  | .separator bytes _ => bytes
  | .finder _ => []

end Boundary

/-- Records that end with a line feed. -/
def lineBoundary : Boundary := .separator [10] (by decide)

end SeekZstdSep
