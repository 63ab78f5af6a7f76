/-
Module: SeekZstdSep.Proofs.PluginRecords
Purpose: When a list of items the plugin writes as records is cut into the same items again. A
  separator that overlaps itself may end a record before the one written behind the item does.
Trusted boundary: the leftmost-match behaviour of the substring search.
Main exports: written_eq, recordsOfEnds_eq, bySeparator_item_iff, RoundTrips,
  records_round_trip_iff
-/
import SeekZstdSep.Proofs.Finders
import SeekZstdSep.Proofs.PluginEncode

namespace SeekZstdSep

open Lib

/-! ### What the list is written as -/

/-- Items that do not end with the separator, each with the separator behind it. -/
def encoded (separator : Bytes) (items : List Bytes) : Bytes :=
  (items.map (· ++ separator)).flatten

theorem encoded_cons (separator item : Bytes) (items : List Bytes) :
    encoded separator (item :: items) = item ++ separator ++ encoded separator items := by
  rw [encoded, List.map_cons, List.flatten_cons]
  rfl

/-- What the sink holds behind a list none of whose items ends with the separator. -/
theorem written_eq {separator : Bytes} {items : List Bytes}
    (hplain : ∀ item ∈ items, ¬ separator <:+ item) {sink sink' : ByteSink}
    (hwrite : writeRecords separator sink items = .ok sink') :
    sink'.written = sink.written ++ encoded separator items := by
  induction items generalizing sink with
  | nil => exact ByteSink.took_flush (List.append_nil _).symm hwrite
  | cons item items ih =>
      rw [writeRecords, writeRecord] at hwrite
      have hends : ¬ separator.isSuffixOf item = true := by
        rw [List.isSuffixOf_iff_suffix]
        exact hplain item List.mem_cons_self
      cases hitem : writeAll sink item with
      | error e =>
          rw [hitem] at hwrite
          cases hwrite
      | ok next =>
          simp only [hitem, terminate, if_neg hends] at hwrite
          cases hsep : writeAll next separator with
          | error e =>
              rw [hsep] at hwrite
              cases hwrite
          | ok next' =>
              rw [hsep] at hwrite
              have hfirst := writeAll_rule (P := ByteSink.Took sink.written) ByteSink.took_step
                (List.append_nil _).symm hitem
              have hsecond := writeAll_rule ByteSink.took_step hfirst hsep
              have hrest := ih (fun item hmem => hplain item (List.mem_cons_of_mem _ hmem)) hwrite
              rw [hrest, show next'.written = _ from hsecond, List.nil_append, encoded_cons,
                List.append_assoc]

/-! ### What the walk cuts it into -/

theorem recordsOfEnds_endsFrom (find : Finder UInt8) (data : Bytes) (fuel : Nat) {start : Nat}
    (hfuel : data.length - start ≤ fuel) :
    recordsOfEnds data start (endsFrom find data fuel start) = find.records (data.drop start) := by
  induction fuel generalizing start with
  | zero =>
      rw [List.drop_eq_nil_of_le (by omega), find.records_nil]
      rfl
  | succ fuel ih =>
      rw [endsFrom]
      cases hfind : find (data.drop start) with
      | none =>
          rw [find.records_of_none hfind]
          rfl
      | some k =>
          have hpos := find.pos hfind
          rw [find.records_of_some hfind, List.drop_drop]
          simp only [recordsOfEnds]
          rw [ih (by omega), List.drop_take, Nat.add_sub_cancel_left]

/-- The records between the ends of the walk are the records of the data. -/
theorem recordsOfEnds_eq (find : Finder UInt8) (data : Bytes) :
    recordsOfEnds data 0 (ends find data) = find.records data :=
  recordsOfEnds_endsFrom find data data.length (Nat.sub_le _ _)

/-! ### Where the first separator behind an item lies -/

section Item

variable {separator : Bytes}

theorem infix_take_of_prefix_drop {needle data : Bytes} {q m : Nat} (h : needle <+: data.drop q)
    (hle : q + needle.length ≤ m) : needle <:+: data.take m := by
  have htake : needle = (data.take (q + needle.length)).drop q := by
    rw [List.drop_take, Nat.add_sub_cancel_left]
    exact List.prefix_iff_eq_take.mp h
  have hsuffix := List.drop_suffix q (data.take (q + needle.length))
  rw [← htake] at hsuffix
  exact hsuffix.isInfix.trans (List.take_prefix_take_left hle).isInfix

/-- A separator behind an item is found there or before. -/
theorem bySeparator_item_le (ne : separator ≠ []) (item more : Bytes) :
    ∃ q ≤ item.length,
      bySeparator separator (item ++ separator ++ more) = some (q + separator.length) := by
  have hthere : separator <+: (item ++ separator ++ more).drop item.length := by
    rw [List.append_assoc, List.drop_left' rfl]
    exact List.prefix_append separator more
  obtain ⟨q, hle, hq⟩ := exists_memmem_at_front ne hthere
  exact ⟨q, hle, by rw [bySeparator, hq]; rfl⟩

/-- It is found there exactly when it does not lie in the item and what of the separator is not its
last byte. -/
theorem bySeparator_item_iff (ne : separator ≠ []) (item more : Bytes) :
    bySeparator separator (item ++ separator ++ more) = some (item.length + separator.length) ↔
      ¬ separator <:+: item ++ separator.dropLast := by
  have hpos := List.length_pos_iff.mpr ne
  have hfront : (item ++ separator ++ more).take (item.length + separator.length - 1) =
      item ++ separator.dropLast := by
    rw [Nat.add_sub_assoc hpos, List.append_assoc, List.take_length_add_append,
      List.take_append_of_le_length (Nat.sub_le _ _), ← List.dropLast_eq_take]
  constructor
  · rintro hfind ⟨before, behind, hinfix⟩
    have hlen := congrArg List.length hinfix
    simp only [List.length_append, List.length_dropLast] at hlen
    have hthere : separator <+: (item ++ separator ++ more).drop before.length := by
      rw [← List.take_append_drop (item.length + separator.length - 1)
        (item ++ separator ++ more), hfront, ← hinfix, List.append_assoc, List.append_assoc,
        List.drop_left' rfl]
      exact List.prefix_append _ _
    obtain ⟨q, hle, hq⟩ := exists_memmem_at_front ne hthere
    rw [bySeparator, hq, Option.map_some, Option.some.injEq] at hfind
    omega
  · intro hinfix
    obtain ⟨q, hle, hq⟩ := bySeparator_item_le ne item more
    rw [hq]
    rcases Nat.lt_or_ge q item.length with hlt | hge
    · apply absurd _ hinfix
      obtain ⟨p, hp, hadd⟩ := Option.map_eq_some_iff.mp hq
      obtain rfl : p = q := Nat.add_right_cancel hadd
      rw [← hfront]
      exact infix_take_of_prefix_drop (memmem_at_front hp) (by omega)
    · rw [Nat.le_antisymm hle hge]

theorem take_of_memmem {data : Bytes} {p : Nat} (h : memmem separator data = some p) :
    data.take (p + separator.length) = data.take p ++ separator := by
  rw [List.take_add, ← List.prefix_iff_eq_take.mp (memmem_at_front h)]

/-- A record is what lies before its separator. -/
theorem stripSeparator_take {data : Bytes} {q : Nat}
    (h : bySeparator separator data = some (q + separator.length)) :
    stripSeparator (data.take (q + separator.length)) separator = data.take q := by
  obtain ⟨p, hp, hadd⟩ := Option.map_eq_some_iff.mp h
  obtain rfl : p = q := Nat.add_right_cancel hadd
  have hsplit := take_of_memmem hp
  have hsuffix : separator.isSuffixOf (data.take (p + separator.length)) = true := by
    rw [hsplit, List.isSuffixOf_iff_suffix]
    exact List.suffix_append _ _
  rw [stripSeparator, if_pos hsuffix, hsplit, List.length_append, Nat.add_sub_cancel,
    List.take_left' rfl]

end Item

/-! ### The round trip -/

/-- The bytes are cut into records that hold the items before their separators, and end on a record
boundary. -/
def RoundTrips (separator : Bytes) (ne : separator ≠ []) (items : List Bytes) (data : Bytes) :
    Prop :=
  (recordsOfEnds data 0 (ends (separatorFinder separator ne) data)).map
      (stripSeparator · separator) = items ∧
    OnBoundary (separatorFinder separator ne) data

theorem encoded_round_trip_iff {separator : Bytes} (ne : separator ≠ []) (items : List Bytes) :
    RoundTrips separator ne items (encoded separator items) ↔
      ∀ item ∈ items, ¬ separator <:+: item ++ separator.dropLast := by
  induction items with
  | nil =>
      simp [RoundTrips, encoded, OnBoundary, recordsOfEnds_eq]
  | cons item items ih =>
      rw [RoundTrips, recordsOfEnds_eq, onBoundary_iff] at ih ⊢
      obtain ⟨q, hle, hq⟩ := bySeparator_item_le ne item (encoded separator items)
      rw [← encoded_cons] at hq
      rw [List.forall_mem_cons, ← ih, ← bySeparator_item_iff ne item (encoded separator items),
        ← encoded_cons]
      have hfind : separatorFinder separator ne (encoded separator (item :: items)) =
          some (q + separator.length) := hq
      rw [Finder.records_of_some _ hfind, Finder.rest_of_some _ hfind, List.map_cons,
        stripSeparator_take hq, hq, Option.some.injEq, Nat.add_right_cancel_iff, List.cons.injEq]
      by_cases hall : q = item.length
      · have hitem : (encoded separator (item :: items)).take q = item := by
          rw [encoded_cons, List.append_assoc, hall, List.take_left' rfl]
        have hmore : (encoded separator (item :: items)).drop (q + separator.length) =
            encoded separator items := by
          rw [encoded_cons, List.drop_left' (by rw [List.length_append, hall])]
        rw [hitem, hmore]
        simp only [hall, true_and]
      · have hshort : ¬ (encoded separator (item :: items)).take q = item := by
          intro htake
          apply hall
          rw [← htake, encoded_cons, List.length_take, List.length_append, List.length_append]
          omega
        simp only [hall, hshort, false_and]

/-- Where no item contains the separator, the list written as records is cut into the same list, up
to a record boundary, exactly when no item makes a separator together with what of the one behind it
is not its last byte. -/
theorem records_round_trip_iff {separator : Bytes} (ne : separator ≠ []) {items : List Bytes}
    (hplain : ∀ item ∈ items, ¬ separator <:+: item) {sink sink' : ByteSink}
    (hempty : sink.written = []) (hwrite : writeRecords separator sink items = .ok sink') :
    RoundTrips separator ne items sink'.written ↔
      ∀ item ∈ items, ¬ separator <:+: item ++ separator.dropLast := by
  have hends : ∀ item ∈ items, ¬ separator <:+ item := by
    intro item hmem hsuffix
    exact hplain item hmem hsuffix.isInfix
  rw [written_eq hends hwrite, hempty, List.nil_append]
  exact encoded_round_trip_iff ne items

/-- A sink in memory. -/
def memory : ByteSink := { schedule := fun _ => some usizeMax }

theorem records_round_trip_iff_line :
    RoundTrips [10] (by decide) [[97], [], [98, 99]] [97, 10, 10, 98, 99, 10] ↔
      ∀ item ∈ [[97], [], [98, 99]], ¬ [10] <:+: item ++ ([10] : Bytes).dropLast := by
  have hwrite : writeRecords [10] memory [[97], [], [98, 99]] =
      .ok { memory with written := [97, 10, 10, 98, 99, 10], tick := 5 } := rfl
  exact records_round_trip_iff (by decide) (by decide) rfl hwrite

/-- The item `a` with the separator `aa`: the first two of the three bytes written are a record. -/
theorem not_round_trip_overlap :
    ∃ sink', writeRecords [97, 97] memory [[97]] = .ok sink' ∧
      (∀ item ∈ [[97]], ¬ [97, 97] <:+: item) ∧
      ¬ RoundTrips [97, 97] (by decide) [[97]] sink'.written := by
  refine ⟨{ memory with written := [97, 97, 97], tick := 2 }, rfl, by decide, ?_⟩
  rw [RoundTrips, not_and_or]
  left
  decide +kernel

end SeekZstdSep
