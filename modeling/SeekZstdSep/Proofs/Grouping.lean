/-
Module: SeekZstdSep.Proofs.Grouping
Purpose: The groups a cutter makes of a whole source, one call of `next_group` after the other, and
  what it leaves: a function of the bytes, whatever reads they came in.
Trusted boundary: none
Main exports: Grouping, Cutter.grouping, Grouping.Describes, grouping_spec, Input.splitBy,
  grouping_describes
-/
import SeekZstdSep.Proofs.Cutter
import SeekZstdSep.Proofs.Frames

namespace SeekZstdSep

open Lib

/-- The groups that were returned, and the cutter as the last call leaves it. -/
structure Grouping where
  groups : List Bytes
  remainder : Bytes
  found : Nat
  lastEnd : Nat
deriving Repr, DecidableEq

namespace Cutter

variable {R : Type} [Read R]

/-- Calls `next_group` until it returns no group. -/
def groupingFuel (find : Finder UInt8) : Nat → Cutter R → Except Error Grouping
  | 0, _ => .error .fuel
  | fuel + 1, cutter =>
      match cutter.nextGroup find with
      | .error e => .error e
      | .ok (none, cutter) =>
          .ok
            { groups := []
              remainder := cutter.takeRemainder.1
              found := cutter.found
              lastEnd := cutter.stream.lastEnd }
      | .ok (some ended, cutter) =>
          match groupingFuel find fuel cutter with
          | .error e => .error e
          | .ok grouping =>
              .ok { grouping with groups := cutter.stream.buf.take ended :: grouping.groups }

/-- Every group of a source. A group takes a byte at least. -/
def grouping (find : Finder UInt8) (n : Nat) (source : R) : Except Error Grouping :=
  groupingFuel find (Read.budget source + 1) (Cutter.new source n)

end Cutter

/-- The grouping of `data`: runs of `n` of its records, and the bytes behind the last of them, which
are what the cutter's count and last end are of. -/
structure Grouping.Describes (find : Finder UInt8) (n : Nat) (data : Bytes) (grouping : Grouping) :
    Prop where
  /-- Group `i` is the records of the data from `n * i` on, `n` of them. -/
  consecutive : ∀ i (h : i < grouping.groups.length), n * (i + 1) ≤ (find.records data).length ∧
    grouping.groups[i] = (((find.records data).drop (n * i)).take n).flatten
  /-- Where a record needs nothing of what follows it, that is what the group is cut into. -/
  whole : find.Whole → ∀ group ∈ grouping.groups, find.Full n group
  concat : grouping.groups.flatten ++ grouping.remainder = data
  found : grouping.found = (find.records grouping.remainder).length
  found_lt : grouping.found < n
  lastEnd : grouping.lastEnd = find.offset grouping.remainder grouping.found

/-! ### The groups of a list -/

section Groups

variable {find : Finder UInt8} {n : Nat}

/-- What a list is grouped into. -/
def groupingOf (find : Finder UInt8) (n : Nat) (data : Bytes) : Grouping :=
  { groups := find.fullGroups n data
    remainder := find.groupRest n data
    found := (find.records (find.groupRest n data)).length
    lastEnd := find.offset (find.groupRest n data)
      (find.records (find.groupRest n data)).length }

theorem groupingOf_of_lt {data : Bytes} (h : (find.records data).length < n) :
    groupingOf find n data =
      { groups := []
        remainder := data
        found := (find.records data).length
        lastEnd := find.offset data (find.records data).length } := by
  rw [groupingOf, Finder.fullGroups_of_lt h, Finder.groupRest_of_lt h]

theorem groupingOf_of_le (hn : 0 < n) {data : Bytes} (h : n ≤ (find.records data).length) :
    groupingOf find n data =
      { groupingOf find n (find.after data n) with
        groups := data.take (find.offset data n) ::
          (groupingOf find n (find.after data n)).groups } := by
  rw [groupingOf, Finder.fullGroups_of_le hn h, Finder.groupRest_of_le hn h]
  rfl

/-- A group goes in front of the grouping of what follows it. -/
theorem describes_cons {data : Bytes} (h : n ≤ (find.records data).length) {grouping : Grouping}
    (hafter : grouping.Describes find n (find.after data n)) :
    Grouping.Describes find n data
      { grouping with groups := data.take (find.offset data n) :: grouping.groups } where
  consecutive := by
    intro i hi
    cases i with
    | zero =>
        constructor
        · rw [Nat.zero_add, Nat.mul_one]
          exact h
        · rw [Nat.mul_zero, List.drop_zero]
          exact find.take_offset data n
    | succ i =>
        obtain ⟨hle, hgroup⟩ := hafter.consecutive i (Nat.lt_of_succ_lt_succ hi)
        rw [find.records_after, List.length_drop] at hle
        rw [find.records_after, List.drop_drop] at hgroup
        constructor
        · rw [Nat.mul_succ]
          omega
        · rw [List.getElem_cons_succ, hgroup, Nat.mul_succ, Nat.add_comm]
  whole := by
    intro hw group hgroup
    rcases List.mem_cons.mp hgroup with rfl | hgroup
    · exact Finder.full_take_offset hw h
    · exact hafter.whole hw group hgroup
  concat := by
    rw [List.flatten_cons, List.append_assoc, hafter.concat]
    exact List.take_append_drop _ data
  found := hafter.found
  found_lt := hafter.found_lt
  lastEnd := hafter.lastEnd

theorem groupingOf_describes (hn : 0 < n) (data : Bytes) :
    (groupingOf find n data).Describes find n data := by
  induction data using Finder.groups_induction (f := find) hn with
  | few data h =>
      rw [groupingOf_of_lt h]
      constructor
      · intro i hi
        exact absurd hi (Nat.not_lt_zero i)
      · intro _ group hgroup
        cases hgroup
      · rfl
      · rfl
      · exact h
      · rfl
  | group data h ih =>
      rw [groupingOf_of_le hn h]
      exact describes_cons h ih

end Groups

/-! ### The calls -/

namespace Cutter

variable {R : Type} [Read R] [LawfulRead R] {find : Finder UInt8} {n : Nat}

/-- Calls that come after what a cutter answers for `data` group `data`. -/
theorem groupingFuel_spec (hn : 0 < n) (data : Bytes) {fuel : Nat} (hfuel : data.length < fuel)
    {cutter : Cutter R} (h : Gathers find n data (.ok ()) (cutter.nextGroup find)) :
    groupingFuel find fuel cutter = .ok (groupingOf find n data) := by
  induction data using Finder.groups_induction (f := find) hn generalizing fuel cutter with
  | few data hfew =>
      obtain ⟨fuel, rfl⟩ : ∃ more, fuel = more + 1 := ⟨fuel - 1, by omega⟩
      obtain ⟨last, hnext, hbuf, hfound, hlast⟩ := h.rest hfew rfl
      rw [groupingFuel, hnext, groupingOf_of_lt hfew]
      simp only [takeRemainder, Stream.takeBuffered, hbuf, hfound, hlast]
  | group data hfull ih =>
      obtain ⟨more, rfl⟩ : ∃ more, fuel = more + 1 := ⟨fuel - 1, by omega⟩
      obtain ⟨next, hnext, hon, hfound, htake⟩ := h.group hfull
      have hlt := Finder.length_after_lt_of_le hn hfull
      have hrest : groupingFuel find more next = .ok (groupingOf find n (find.after data n)) :=
        ih (by omega) (nextGroup_next hn hon hfound)
      rw [groupingFuel, hnext, groupingOf_of_le hn hfull]
      simp only [hrest, htake]

/-- A source that ends without failing is grouped as the bytes it hands out. -/
theorem grouping_spec (hn : 0 < n) {source : R} {data : Bytes}
    (h : ioCopy source = (.ok (), data)) :
    grouping find n source = .ok (groupingOf find n data) := by
  have hfirst := nextGroup_new find hn source
  have hbudget := length_ioCopy_le source
  rw [h] at hfirst hbudget
  exact groupingFuel_spec hn data (Nat.lt_succ_of_le hbudget) hfirst

end Cutter

/-- The data split into reads: read `i` hands out what `sizes i` asks of it, between one byte and
all a read may hand out. -/
def Input.splitBy (data : Bytes) (sizes : Nat → Nat) : Input :=
  { data := data, schedule := fun i => some (sizes i) }

/-- However the bytes are split into reads, the calls return the same groups and leave the same
remainder, and both are what the records of the bytes make them. -/
theorem grouping_describes (find : Finder UInt8) {n : Nat} (hn : 0 < n) (data : Bytes)
    (sizes sizes' : Nat → Nat) :
    Cutter.grouping find n (Input.splitBy data sizes) =
        Cutter.grouping find n (Input.splitBy data sizes') ∧
      ∃ grouping, Cutter.grouping find n (Input.splitBy data sizes) = .ok grouping ∧
        grouping.Describes find n data := by
  have hspec : ∀ sizes, Cutter.grouping find n (Input.splitBy data sizes) =
      .ok (groupingOf find n data) := by
    intro sizes
    obtain ⟨-, hall, hgood⟩ := ioCopy_spec (Input.splitBy data sizes)
    have hok := hgood fun _ => Option.some_ne_none _
    exact Cutter.grouping_spec hn (Prod.ext hok (hall hok))
  exact ⟨(hspec sizes).trans (hspec sizes').symm, _, hspec sizes, groupingOf_describes hn data⟩

/-- The grouping of two records, one a group: the last call drops the second group before it finds
that nothing is left, and its count and last end are of that. -/
theorem grouping_after_last_group :
    ∃ grouping, Cutter.grouping (separatorFinder [10] (by decide)) 1
        (Input.splitBy [97, 10, 98, 10] fun _ => 0) = .ok grouping ∧
      grouping.groups = [[97, 10], [98, 10]] ∧ grouping.remainder = [] ∧
      ¬ (grouping.found = 1 ∧ grouping.lastEnd = 2) ∧
      grouping.found = 0 ∧ grouping.lastEnd = 0 := by
  refine ⟨{ groups := [[97, 10], [98, 10]], remainder := [], found := 0, lastEnd := 0 }, ?_⟩
  decide +kernel

theorem grouping_describes_two :
    Cutter.grouping (separatorFinder [10] (by decide)) 2 (Input.splitBy [97, 10, 98] fun i => i) =
        Cutter.grouping (separatorFinder [10] (by decide)) 2
          (Input.splitBy [97, 10, 98] fun _ => 2) ∧
      ∃ grouping, Cutter.grouping (separatorFinder [10] (by decide)) 2
          (Input.splitBy [97, 10, 98] fun i => i) = .ok grouping ∧
        grouping.Describes (separatorFinder [10] (by decide)) 2 [97, 10, 98] :=
  grouping_describes _ (by decide) _ _ _

end SeekZstdSep
