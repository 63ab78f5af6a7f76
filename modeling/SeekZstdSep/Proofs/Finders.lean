/-
Module: SeekZstdSep.Proofs.Finders
Purpose: The finders `find.rs` builds, taken together: what each answers lies in its data, stays
  when the data grows, and cuts bytes that follow a record boundary as it cuts them alone.
Trusted boundary: the leftmost-match behaviour of the substring search.
Main exports: BuiltIn, BuiltIn.find, BuiltIn.finder, onBoundary_iff, ends_append,
  built_in_finders_compose
-/
import SeekZstdSep.Proofs.Msgpack
import SeekZstdSep.Proofs.Window

namespace SeekZstdSep

open Lib

/-- The finders of `find.rs`. -/
inductive BuiltIn where
  | separator (needle : Bytes) (ne : needle ≠ [])
  | le32Prefix
  | fixed (len : Nat)
  | msgpack

namespace BuiltIn

/-- The function the source defines. -/
def find : BuiltIn → Bytes → Option Nat
  | .separator needle _ => bySeparator needle
  | .le32Prefix => byLe32Prefix
  | .fixed len => byFixed len
  | .msgpack => byMsgpack

/-- The same function with the contract of a finder. -/
def finder : BuiltIn → Finder UInt8
  | .separator needle ne => separatorFinder needle ne
  | .le32Prefix => le32PrefixFinder
  | .fixed len => fixedFinder len
  | .msgpack => msgpackFinder

theorem finder_find (which : BuiltIn) : which.finder.find = which.find := by
  cases which <;> rfl

end BuiltIn

/-- Whether `data` ends where a record does: behind its last one, or before any. -/
def OnBoundary (find : Finder UInt8) (data : Bytes) : Prop :=
  data = [] ∨ endsWhole find data = true

theorem onBoundary_iff (find : Finder UInt8) (data : Bytes) :
    OnBoundary find data ↔ find.rest data = [] := by
  rw [OnBoundary, endsWhole_iff]
  constructor
  · rintro (rfl | ⟨-, hrest⟩)
    · exact find.rest_nil
    · exact hrest
  · intro hrest
    by_cases hnil : data = []
    · exact Or.inl hnil
    · exact Or.inr ⟨hnil, hrest⟩

/-- What follows a record boundary is cut as it is alone. -/
theorem ends_append (find : Finder UInt8) {a : Bytes} (h : find.rest a = []) (b : Bytes) :
    ends find (a ++ b) = ends find a ++ (ends find b).map (· + a.length) := by
  have hall : find.offset a (find.records a).length = a.length := by
    have hlen := find.offset_add_length_after a (find.records a).length
    rw [find.after_of_length_le (Nat.le_refl _), h] at hlen
    exact hlen
  have hbehind : find.after (a ++ b) (find.records a).length = b := by
    rw [find.after_append a b (Nat.le_refl _), find.after_of_length_le (Nat.le_refl _), h]
    rfl
  rw [ends_eq, ends_eq, ends_eq, find.records_append_of_rest h, List.length_append,
    List.range_add, List.map_append, List.map_map, List.map_map]
  congr 1
  · apply List.map_congr_left
    intro j hj
    exact find.offset_append a b (List.mem_range.mp hj)
  · apply List.map_congr_left
    intro j _
    have hadd := find.offset_add (a ++ b) (find.records a).length (j + 1)
    rw [hbehind, find.offset_append a b (Nat.le_refl _), hall] at hadd
    simp only [Function.comp]
    rw [Nat.add_assoc, hadd, Nat.add_comm]

/-- The finders of `find.rs` compose. -/
theorem built_in_finders_compose (which : BuiltIn) (a b : Bytes) :
    (∀ k, which.find a = some k → 1 ≤ k ∧ k ≤ a.length ∧ which.find (a ++ b) = some k) ∧
      (OnBoundary which.finder a →
        ends which.finder (a ++ b) =
          ends which.finder a ++ (ends which.finder b).map (· + a.length)) := by
  constructor
  · intro k hk
    rw [← which.finder_find] at hk ⊢
    exact ⟨which.finder.pos hk, which.finder.le hk, which.finder.stable b hk⟩
  · intro hboundary
    exact ends_append which.finder ((onBoundary_iff which.finder a).mp hboundary) b

/-! ### The leftmost separator -/

theorem memmem_at_front {needle data : Bytes} {p : Nat} (h : memmem needle data = some p) :
    needle <+: data.drop p := by
  induction data generalizing p with
  | nil =>
      cases needle with
      | nil => exact List.nil_prefix
      | cons b bs => cases h
  | cons byte data ih =>
      rw [memmem] at h
      split at h
      · next hprefix =>
          cases h
          exact List.isPrefixOf_iff_prefix.mp hprefix
      · obtain ⟨q, hq, rfl⟩ := Option.map_eq_some_iff.mp h
        exact ih hq

/-- Where the needle lies somewhere, the search finds it there or before. -/
theorem exists_memmem_at_front {needle data : Bytes} {p : Nat} (hne : needle ≠ [])
    (h : needle <+: data.drop p) : ∃ q ≤ p, memmem needle data = some q := by
  induction data generalizing p with
  | nil =>
      rw [List.drop_nil] at h
      exact absurd (List.prefix_nil.mp h) hne
  | cons byte data ih =>
      rw [memmem]
      by_cases hprefix : needle.isPrefixOf (byte :: data) = true
      · exact ⟨0, Nat.zero_le _, if_pos hprefix⟩
      · rw [if_neg hprefix]
        cases p with
        | zero => exact absurd (List.isPrefixOf_iff_prefix.mpr h) hprefix
        | succ p =>
            obtain ⟨q, hle, hq⟩ := ih h
            exact ⟨q + 1, Nat.succ_le_succ hle, by rw [hq]; rfl⟩

end SeekZstdSep
