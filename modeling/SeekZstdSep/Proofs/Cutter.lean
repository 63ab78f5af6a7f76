/-
Module: SeekZstdSep.Proofs.Cutter
Purpose: What a data source hands out until it ends or fails, and the groups a cutter makes of it
  whatever the reads it comes in.
Trusted boundary: none
Main exports: LawfulRead, ioCopy_of_read, ioCopy_chain, Cutter.On, Cutter.Gathers,
  Cutter.nextGroup_new, Cutter.nextGroup_next
-/
import SeekZstdSep.Core.Append
import SeekZstdSep.Lib.Groups

namespace SeekZstdSep

open Lib

/-- A read takes what it hands out off the budget of its source. -/
class LawfulRead (R : Type) [Read R] : Prop where
  budget_read : ∀ {source : R} {want : Nat} {bytes : Bytes} {source' : R},
    Read.read source want = .ok (bytes, source') →
      Read.budget source' + bytes.length ≤ Read.budget source

/-- What a read of `Input` hands out is the head of its data. -/
theorem Input.read_eq_ok {source source' : Input} {want : Nat} {bytes : Bytes}
    (h : Read.read source want = .ok (bytes, source')) :
    bytes ++ source'.data = source.data ∧ bytes.length ≤ want ∧
      source'.schedule = source.schedule ∧ (bytes = [] → want = 0 ∨ source.data = []) := by
  simp only [Read.read] at h
  cases hwish : source.schedule source.tick with
  | none =>
      rw [hwish] at h
      cases h
  | some wish =>
      rw [hwish] at h
      cases h
      have hle := shortRead_le wish (min want source.data.length)
      refine ⟨List.take_append_drop _ _, ?_, rfl, ?_⟩
      · rw [List.length_take]
        omega
      · intro hnil
        rcases List.take_eq_nil_iff.mp hnil with hzero | hdata
        · rw [shortRead_eq_zero_iff] at hzero
          rcases Nat.min_eq_zero_iff.mp hzero with hwant | hlen
          · exact Or.inl hwant
          · exact Or.inr (List.length_eq_zero_iff.mp hlen)
        · exact Or.inr hdata

instance : LawfulRead Input where
  budget_read h := by
    obtain ⟨hsplit, -⟩ := Input.read_eq_ok h
    have hlen := congrArg List.length hsplit
    rw [List.length_append] at hlen
    simp only [Read.budget]
    omega

instance {R : Type} [Read R] [LawfulRead R] : LawfulRead (Chain R) where
  budget_read {source want bytes source'} h := by
    simp only [Read.read] at h
    split at h
    · cases h
      simp only [Read.budget, List.length_take, List.length_drop]
      omega
    · split at h
      · cases h
      · next hread =>
          cases h
          have hle := LawfulRead.budget_read hread
          simp only [Read.budget]
          omega

/-! ### What a source hands out -/

section Delivered

variable {R : Type} [Read R] [LawfulRead R]

theorem ioCopyFuel_eq {fuel : Nat} {source : R} (copied : Bytes)
    (hfuel : Read.budget source < fuel) :
    ioCopyFuel fuel source copied = ((ioCopy source).1, copied ++ (ioCopy source).2) := by
  induction hlen : Read.budget source using Nat.strongRecOn generalizing source copied fuel with
  | ind budget ih =>
      obtain ⟨fuel, rfl⟩ : ∃ more, fuel = more + 1 := ⟨fuel - 1, by omega⟩
      rw [ioCopy, ioCopyFuel, ioCopyFuel]
      cases hread : Read.read source readBufSize with
      | error e => simp
      | ok got =>
          obtain ⟨bytes, source'⟩ := got
          have hle := LawfulRead.budget_read hread
          by_cases hempty : bytes = []
          · simp [hempty]
          · have hpos := List.length_pos_iff.mpr hempty
            have hsome : bytes.isEmpty = false := List.isEmpty_eq_false_iff.mpr hempty
            simp only [hsome, Bool.false_eq_true, if_false, List.nil_append]
            rw [ih _ (by omega) _ (by omega) rfl, ih _ (by omega) bytes (by omega) rfl,
              List.append_assoc]

omit [LawfulRead R] in
theorem ioCopy_of_error {source : R} {e : Error}
    (h : Read.read source readBufSize = .error e) : ioCopy source = (.error e, []) := by
  rw [ioCopy, ioCopyFuel, h]

omit [LawfulRead R] in
theorem ioCopy_of_end {source source' : R}
    (h : Read.read source readBufSize = .ok ([], source')) : ioCopy source = (.ok (), []) := by
  rw [ioCopy, ioCopyFuel, h]
  rfl

theorem ioCopy_of_read {source source' : R} {bytes : Bytes}
    (h : Read.read source readBufSize = .ok (bytes, source')) (hne : bytes ≠ []) :
    ioCopy source = ((ioCopy source').1, bytes ++ (ioCopy source').2) := by
  have hle := LawfulRead.budget_read h
  have hpos := List.length_pos_iff.mpr hne
  rw [ioCopy, ioCopyFuel, h]
  simp only [List.isEmpty_eq_false_iff.mpr hne, Bool.false_eq_true, if_false, List.nil_append]
  exact ioCopyFuel_eq bytes (by omega)

/-- A source hands out no more than it has in its budget. -/
theorem length_ioCopy_le (source : R) : (ioCopy source).2.length ≤ Read.budget source := by
  induction hlen : Read.budget source using Nat.strongRecOn generalizing source with
  | ind budget ih =>
      cases hread : Read.read source readBufSize with
      | error e =>
          rw [ioCopy_of_error hread]
          exact Nat.zero_le _
      | ok got =>
          obtain ⟨bytes, source'⟩ := got
          by_cases hne : bytes = []
          · subst hne
            rw [ioCopy_of_end hread]
            exact Nat.zero_le _
          · have hle := LawfulRead.budget_read hread
            have hpos := List.length_pos_iff.mpr hne
            have hrest := ih _ (by omega) source' rfl
            rw [ioCopy_of_read hread hne, List.length_append]
            omega

omit [LawfulRead R] in
theorem read_chain_nil (second : R) (want : Nat) :
    Read.read ({ first := [], second := second } : Chain R) want =
      match Read.read second want with
      | .error e => .error e
      | .ok (bytes, second) => .ok (bytes, { first := [], second := second }) :=
  if_neg fun h => h.1 rfl

omit [LawfulRead R] in
theorem read_chain_cons {first : Bytes} (hfirst : first ≠ []) (second : R) :
    Read.read ({ first := first, second := second } : Chain R) readBufSize =
      .ok (first.take readBufSize, { first := first.drop readBufSize, second := second }) := by
  have hbuf : readBufSize ≠ 0 := by decide
  simp [Read.read, hfirst, hbuf]

theorem ioCopy_chain_nil (second : R) :
    ioCopy ({ first := [], second := second } : Chain R) = ioCopy second := by
  induction hlen : Read.budget second using Nat.strongRecOn generalizing second with
  | ind budget ih =>
      have hread := read_chain_nil second readBufSize
      cases hsecond : Read.read second readBufSize with
      | error e =>
          rw [hsecond] at hread
          rw [ioCopy_of_error hread, ioCopy_of_error hsecond]
      | ok got =>
          obtain ⟨bytes, second'⟩ := got
          rw [hsecond] at hread
          by_cases hne : bytes = []
          · subst hne
            rw [ioCopy_of_end hread, ioCopy_of_end hsecond]
          · have hle := LawfulRead.budget_read hsecond
            have hpos := List.length_pos_iff.mpr hne
            rw [ioCopy_of_read hread hne, ioCopy_of_read hsecond hne, ih _ (by omega) _ rfl]

/-- Bytes in front of a source are handed out before it. -/
theorem ioCopy_chain (first : Bytes) (second : R) :
    ioCopy ({ first := first, second := second } : Chain R) =
      ((ioCopy second).1, first ++ (ioCopy second).2) := by
  induction hlen : first.length using Nat.strongRecOn generalizing first with
  | ind len ih =>
      by_cases hfirst : first = []
      · rw [hfirst, ioCopy_chain_nil]
        rfl
      · have hbuf : readBufSize ≠ 0 := by decide
        have hne : first.take readBufSize ≠ [] := by
          rw [Ne, List.take_eq_nil_iff, not_or]
          exact ⟨hbuf, hfirst⟩
        have hpos := List.length_pos_iff.mpr hfirst
        rw [ioCopy_of_read (read_chain_cons hfirst second) hne,
          ih _ (by rw [List.length_drop]; omega) _ rfl, ← List.append_assoc,
          List.take_append_drop]

end Delivered

/-! ### Groups of records -/

namespace Cutter

variable {R : Type} [Read R] {find : Finder UInt8} {n : Nat}

/-- The cutter holds the head of `d` and its source hands out the rest of it, before it ends as
`ending` has it. Of the group it is on it found `cutter.found` records. -/
structure On (find : Finder UInt8) (n : Nat) (d : Bytes) (ending : Except Error Unit)
    (cutter : Cutter R) : Prop where
  records : cutter.records = n
  ahead : cutter.stream.buf ++ (ioCopy cutter.stream.source).2 = d
  ending : (ioCopy cutter.stream.source).1 = ending
  found_le : cutter.found ≤ n
  found_buf : cutter.found ≤ (find.records cutter.stream.buf).length
  lastEnd : cutter.stream.lastEnd = find.offset cutter.stream.buf cutter.found

theorem new_on (source : R) :
    On find n (ioCopy source).2 (ioCopy source).1 (Cutter.new source n) where
  records := rfl
  ahead := rfl
  ending := rfl
  found_le := Nat.zero_le _
  found_buf := Nat.zero_le _
  lastEnd := rfl

/-- The cutter where it has found the first `i` records of its buffer. -/
def foundTo (find : Finder UInt8) (cutter : Cutter R) (i : Nat) : Cutter R :=
  { cutter with
    stream := { cutter.stream with lastEnd := find.offset cutter.stream.buf i }
    found := i }

section Scan

omit [Read R]

/-- A scan finds the records of the buffer up to the one that fills the group. -/
theorem scanFuel_spec (find : Finder UInt8) (cutter : Cutter R) {fuel i : Nat}
    (hi : i < cutter.records) (hbuf : i ≤ (find.records cutter.stream.buf).length)
    (hfuel : (find.records cutter.stream.buf).length - i ≤ fuel) :
    scanFuel find fuel (cutter.foundTo find i) =
      if cutter.records ≤ (find.records cutter.stream.buf).length then
        (some (find.offset cutter.stream.buf cutter.records),
          cutter.foundTo find cutter.records)
      else (none, cutter.foundTo find (find.records cutter.stream.buf).length) := by
  induction fuel generalizing i with
  | zero =>
      obtain rfl : i = (find.records cutter.stream.buf).length := by omega
      rw [scanFuel, if_neg (by omega)]
  | succ fuel ih =>
      rw [scanFuel, Stream.nextEnd]
      cases hfind : find ((cutter.foundTo find i).stream.buf.drop
          (cutter.foundTo find i).stream.lastEnd) with
      | none =>
          have hall := find.length_le_of_find_after (d := cutter.stream.buf) (i := i) hfind
          obtain rfl : i = (find.records cutter.stream.buf).length := by omega
          exact (if_neg (by omega)).symm
      | some found =>
          obtain ⟨hlt, hoffset⟩ :=
            find.offset_succ_of_find_after (d := cutter.stream.buf) (i := i) hfind
          have hnext : ∀ stream : Stream R,
              stream = { (cutter.foundTo find i).stream with
                lastEnd := (cutter.foundTo find i).stream.lastEnd + found } →
              { cutter.foundTo find i with
                stream := stream, found := (cutter.foundTo find i).found + 1 } =
                cutter.foundTo find (i + 1) := by
            rintro stream rfl
            simp only [foundTo, hoffset]
          simp only [hnext _ rfl]
          by_cases hlast : i + 1 = cutter.records
          · rw [if_pos (show (cutter.foundTo find i).found + 1 =
              (cutter.foundTo find i).records from hlast), if_pos (by omega), ← hlast, hoffset]
            rfl
          · rw [if_neg (show ¬ (cutter.foundTo find i).found + 1 =
              (cutter.foundTo find i).records from hlast)]
            exact ih (by omega) (by omega) (by omega)

end Scan

namespace On

variable {d : Bytes} {ending : Except Error Unit} {cutter : Cutter R}

theorem foundTo_eq (h : On find n d ending cutter) : cutter.foundTo find cutter.found = cutter := by
  rw [foundTo, ← h.lastEnd]

theorem length_records_le (h : On find n d ending cutter) :
    (find.records cutter.stream.buf).length ≤ (find.records d).length := by
  rw [← h.ahead]
  exact find.length_records_le_append _ _

theorem take_offset (h : On find n d ending cutter)
    (hbuf : n ≤ (find.records cutter.stream.buf).length) :
    find.offset cutter.stream.buf n = find.offset d n ∧
      cutter.stream.buf.take (find.offset d n) = d.take (find.offset d n) := by
  have hoffset : find.offset cutter.stream.buf n = find.offset d n := by
    rw [← h.ahead, find.offset_append _ _ hbuf]
  refine ⟨hoffset, ?_⟩
  rw [← hoffset, ← h.ahead, List.take_append_of_le_length (find.offset_le _ _)]

/-- A scan of the buffer, by what it holds. -/
theorem scan_spec (h : On find n d ending cutter) (hlt : cutter.found < n) :
    cutter.scanFuel find cutter.stream.unscanned =
      if n ≤ (find.records cutter.stream.buf).length then
        (some (find.offset cutter.stream.buf n), cutter.foundTo find n)
      else (none, cutter.foundTo find (find.records cutter.stream.buf).length) := by
  have hfuel : (find.records cutter.stream.buf).length - cutter.found ≤
      cutter.stream.unscanned := by
    have hle := find.length_records_le (find.after cutter.stream.buf cutter.found)
    rw [find.records_after, List.length_drop, Finder.after, List.length_drop, ← h.lastEnd] at hle
    exact hle
  have hscan := scanFuel_spec find cutter (i := cutter.found) (h.records ▸ hlt)
    h.found_buf hfuel
  rwa [h.foundTo_eq, h.records] at hscan

theorem foundTo (h : On find n d ending cutter) {i : Nat} (hn : i ≤ n)
    (hi : i ≤ (find.records cutter.stream.buf).length) :
    On find n d ending (cutter.foundTo find i) where
  records := h.records
  ahead := h.ahead
  ending := h.ending
  found_le := hn
  found_buf := hi
  lastEnd := rfl

variable [LawfulRead R]

/-- A fill moves a read from the source to the buffer. -/
theorem filled (h : On find n d ending cutter) {bytes : Bytes} {source : R}
    (hread : Read.read cutter.stream.source readBufSize = .ok (bytes, source)) (hne : bytes ≠ []) :
    On find n d ending
      { cutter with
        stream := { cutter.stream with source := source, buf := cutter.stream.buf ++ bytes } } where
  records := h.records
  ahead := by
    rw [← h.ahead, ioCopy_of_read hread hne]
    exact List.append_assoc _ _ _
  ending := by rw [← h.ending, ioCopy_of_read hread hne]
  found_le := h.found_le
  found_buf := Nat.le_trans h.found_buf (find.length_records_le_append _ _)
  lastEnd := by
    rw [h.lastEnd]
    exact (find.offset_append _ _ h.found_buf).symm

omit [LawfulRead R] in
/-- A fill that hands out nothing comes at the end of the source. -/
theorem spent (h : On find n d ending cutter) {source : R}
    (hread : Read.read cutter.stream.source readBufSize = .ok ([], source)) :
    cutter.stream.buf = d ∧ ending = .ok () := by
  have hahead := h.ahead
  have hending := h.ending
  rw [ioCopy_of_end hread] at hahead hending
  exact ⟨by rw [← hahead, List.append_nil], hending.symm⟩

omit [LawfulRead R] in
theorem failed (h : On find n d ending cutter) {e : Error}
    (hread : Read.read cutter.stream.source readBufSize = .error e) :
    cutter.stream.buf = d ∧ ending = .error e := by
  have hahead := h.ahead
  have hending := h.ending
  rw [ioCopy_of_error hread] at hahead hending
  exact ⟨by rw [← hahead, List.append_nil], hending.symm⟩

end On

/-- What a cutter answers that is to cut a group off `d`: the group where `d` fills one, and
otherwise that there is none or what the source failed with. -/
structure Gathers (find : Finder UInt8) (n : Nat) (d : Bytes) (ending : Except Error Unit)
    (result : Except Error (Option Nat × Cutter R)) : Prop where
  group : n ≤ (find.records d).length → ∃ cutter,
    result = .ok (some (find.offset d n), cutter) ∧ On find n d ending cutter ∧
      cutter.found = n ∧ cutter.stream.buf.take (find.offset d n) = d.take (find.offset d n)
  rest : (find.records d).length < n → ending = .ok () → ∃ cutter,
    result = .ok (none, cutter) ∧ cutter.stream.buf = d ∧
      cutter.found = (find.records d).length ∧
      cutter.stream.lastEnd = find.offset d (find.records d).length
  fails : (find.records d).length < n → ∀ e, ending = .error e → result = .error e

variable [LawfulRead R]

theorem gatherFuel_spec {d : Bytes} {ending : Except Error Unit} (fuel : Nat)
    {cutter : Cutter R} (h : On find n d ending cutter) (hlt : cutter.found < n)
    (hfuel : Read.budget cutter.stream.source < fuel) :
    Gathers find n d ending (gatherFuel find fuel cutter) := by
  induction fuel generalizing cutter with
  | zero => omega
  | succ fuel ih =>
      rw [gatherFuel, h.scan_spec hlt]
      by_cases hbuf : n ≤ (find.records cutter.stream.buf).length
      · have hall : n ≤ (find.records d).length := Nat.le_trans hbuf h.length_records_le
        obtain ⟨hoffset, htake⟩ := h.take_offset hbuf
        rw [if_pos hbuf]
        constructor
        · intro _
          exact ⟨cutter.foundTo find n, by rw [hoffset], h.foundTo (Nat.le_refl n) hbuf, rfl,
            htake⟩
        · intro hless
          omega
        · intro hless
          omega
      · have hfew : (find.records cutter.stream.buf).length ≤ n := by omega
        have hon := h.foundTo hfew (Nat.le_refl _)
        rw [if_neg hbuf]
        simp only [Stream.fill]
        cases hread : Read.read (cutter.foundTo find
            (find.records cutter.stream.buf).length).stream.source readBufSize with
        | error e =>
            obtain ⟨hd, hending⟩ := hon.failed hread
            have hbufd : cutter.stream.buf = d := hd
            rw [hbufd] at hbuf
            constructor
            · exact fun hall => absurd hall hbuf
            · intro _ hok
              rw [hending] at hok
              cases hok
            · intro _ e' he'
              rw [hending] at he'
              cases he'
              rfl
        | ok got =>
            obtain ⟨bytes, source⟩ := got
            by_cases hne : bytes = []
            · subst hne
              obtain ⟨hd, hending⟩ := hon.spent hread
              have hbufd : cutter.stream.buf = d := hd
              rw [hbufd] at hbuf
              constructor
              · exact fun hall => absurd hall hbuf
              · intro _ _
                exact ⟨_, rfl, hd, congrArg (fun x => (find.records x).length) hbufd,
                  congrArg (fun x => find.offset x (find.records x).length) hbufd⟩
              · intro _ e he
                rw [hending] at he
                cases he
            · have hle := LawfulRead.budget_read hread
              have hpos := List.length_pos_iff.mpr hne
              simp only [if_neg (show ¬ bytes.length = 0 by omega)]
              apply ih (hon.filled hread hne)
              · exact Nat.lt_of_not_le hbuf
              · have hsame : Read.budget (cutter.foundTo find
                    (find.records cutter.stream.buf).length).stream.source =
                      Read.budget cutter.stream.source := rfl
                show Read.budget source < fuel
                omega

/-- The first group of a source. -/
theorem nextGroup_new (find : Finder UInt8) (hn : 0 < n) (source : R) :
    Gathers find n (ioCopy source).2 (ioCopy source).1 ((Cutter.new source n).nextGroup find) := by
  have hfresh : ¬ (Cutter.new source n).found = (Cutter.new source n).records :=
    Nat.ne_of_lt hn
  rw [nextGroup, if_neg hfresh]
  exact gatherFuel_spec _ (new_on source) hn (Nat.lt_succ_self _)

omit [LawfulRead R] in
/-- Behind a group the cutter is where a new one starts. -/
theorem On.dropped {d : Bytes} {ending : Except Error Unit} {cutter : Cutter R}
    (h : On find n d ending cutter) (hfound : cutter.found = n) :
    On find n (find.after d n) ending
      { cutter with stream := cutter.stream.dropToLastEnd, found := 0 } where
  records := h.records
  ahead := by
    have hlast := h.lastEnd
    have hbuf := h.found_buf
    rw [hfound] at hlast hbuf
    rw [← h.ahead, find.after_append _ _ hbuf, Finder.after, ← hlast]
    rfl
  ending := h.ending
  found_le := Nat.zero_le _
  found_buf := Nat.zero_le _
  lastEnd := rfl

/-- The group behind a group. -/
theorem nextGroup_next {d : Bytes} {ending : Except Error Unit} {cutter : Cutter R} (hn : 0 < n)
    (h : On find n d ending cutter) (hfound : cutter.found = n) :
    Gathers find n (find.after d n) ending (cutter.nextGroup find) := by
  rw [nextGroup, if_pos (hfound.trans h.records.symm)]
  exact gatherFuel_spec _ (h.dropped hfound) hn (Nat.lt_succ_self _)

end Cutter

end SeekZstdSep
