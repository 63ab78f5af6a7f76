/-
Module: SeekZstdSep.Proofs.Rewrite
Purpose: What an append writes behind the cut: the groups of the join and of everything the data
  source hands out, one frame each, and the state the last of them is in. When it succeeds, and
  that it does not otherwise.
Trusted boundary: the library, as `Zeekstd` has it
Main exports: lastStateOf, appendFirst_ok, appendRest_spec, appendRewrite_spec
-/
import SeekZstdSep.Proofs.Cutter
import SeekZstdSep.Proofs.Encode
import SeekZstdSep.Proofs.Frames

namespace SeekZstdSep

open Lib

variable {zeek : Zeekstd} {R : Type} [Read R] [LawfulRead R] {find : Finder UInt8} {n : Nat}

/-- The groups behind a group: those `d` fills are encoded one by one, and what fills none is
left in the cutter. Where the source fails so does the loop. -/
theorem appendGroupsFuel_spec (hn : 0 < n) (fuel : Nat) (encoder : Encoder zeek) (frames : Nat)
    {d : Bytes} {ending : Except Error Unit} {cutter : Cutter (Chain R)}
    (h : Cutter.On find n d ending cutter) (hfound : cutter.found = n)
    (hfuel : (find.after d n).length < fuel) :
    (∀ encoder', encoder.encodeAll (find.fullGroups n (find.after d n)) = .ok encoder' →
      ending = .ok () → ∃ cutter',
        appendGroupsFuel find fuel encoder frames cutter =
          (.ok (frames + (find.fullGroups n (find.after d n)).length, cutter'), encoder') ∧
        cutter'.stream.buf = find.groupRest n (find.after d n) ∧
        cutter'.found = (find.records (find.groupRest n (find.after d n))).length ∧
        cutter'.stream.lastEnd = find.offset (find.groupRest n (find.after d n))
          (find.records (find.groupRest n (find.after d n))).length) ∧
    ((∃ e, ending = .error e ∨
        encoder.encodeAll (find.fullGroups n (find.after d n)) = .error e) →
      ∃ e encoder', appendGroupsFuel find fuel encoder frames cutter = (.error e, encoder')) := by
  induction fuel generalizing encoder frames d cutter with
  | zero => omega
  | succ fuel ih =>
      have hnext := Cutter.nextGroup_next hn h hfound
      rw [appendGroupsFuel]
      rcases Nat.lt_or_ge (find.records (find.after d n)).length n with hlt | hge
      · rw [Finder.fullGroups_of_lt hlt, Finder.groupRest_of_lt hlt, Encoder.encodeAll]
        constructor
        · intro encoder' hall hending
          obtain ⟨cutter', hnone, hbuf, hcount, hlast⟩ := hnext.rest hlt hending
          cases hall
          rw [hnone]
          exact ⟨cutter', rfl, hbuf, hcount, hlast⟩
        · rintro ⟨e, hending | hall⟩
          · rw [hnext.fails hlt e hending]
            exact ⟨e, encoder, rfl⟩
          · cases hall
      · obtain ⟨cutter', hsome, hon, hfull, htake⟩ := hnext.group hge
        have hless := Finder.length_after_lt_of_le hn hge
        rw [hsome, Finder.fullGroups_of_le hn hge, Finder.groupRest_of_le hn hge,
          Encoder.encodeAll]
        simp only [htake]
        cases hend : (encoder.write ((find.after d n).take
            (find.offset (find.after d n) n))).endFrame with
        | error e =>
            constructor
            · intro encoder' hall
              cases hall
            · exact fun _ => ⟨e, encoder, rfl⟩
        | ok encoder₁ =>
            have hrest := ih encoder₁ (frames + 1) hon hfull (by omega)
            rw [List.length_cons, ← Nat.add_assoc, Nat.add_right_comm]
            exact hrest

/-- A scan that found all records ended where the bytes do, where nothing follows the last. -/
theorem offset_all_beq (find : Finder UInt8) (d : Bytes) :
    (find.offset d (find.records d).length == d.length) = (find.rest d).isEmpty := by
  have hsplit := find.offset_add_length_after d (find.records d).length
  rw [find.after_of_length_le (Nat.le_refl _)] at hsplit
  rw [Bool.eq_iff_iff, beq_iff_eq, List.isEmpty_iff, ← List.length_eq_zero_iff]
  omega

/-- The records of the last of the groups of `d`, and whether they are all of it. -/
def lastStateOf (find : Finder UInt8) (n : Nat) (d : Bytes) : Nat × Bool :=
  if (find.groupRest n d).isEmpty then (n, true)
  else ((find.records (find.groupRest n d)).length, (find.rest (find.groupRest n d)).isEmpty)

theorem lastStateOf_of_lt {d : Bytes} (h : (find.records d).length < n) (hne : d ≠ []) :
    lastStateOf find n d = ((find.records d).length, (find.rest d).isEmpty) := by
  rw [lastStateOf, Finder.groupRest_of_lt h, if_neg (by simpa using hne)]

theorem lastStateOf_of_le (hn : 0 < n) {d : Bytes} (h : n ≤ (find.records d).length) :
    lastStateOf find n d = lastStateOf find n (find.after d n) := by
  rw [lastStateOf, lastStateOf, Finder.groupRest_of_le hn h]

/-- What follows a first group is written as far as it could be read and encoded. -/
theorem appendRest_spec (zeek : Zeekstd) (hn : 0 < n) (checksum : Bool) (level : Int) {d : Bytes}
    {ending : Except Error Unit} {cutter : Cutter (Chain R)}
    (h : Cutter.On find n d ending cutter) (hfound : cutter.found = n) (state : Appended)
    (hstate : (state.lastRecords, state.lastWhole) = (n, true)) (f : File) :
    (∀ encoder' : Encoder zeek,
      Encoder.encodeAll { checksum := checksum, level := level }
          (find.groups n (find.after d n)) = .ok encoder' → ending = .ok () →
        appendRest zeek find n checksum level cutter state f =
          appendWritten n (find.groups n (find.after d n)).length encoder'
            { out := state.out
              lastRecords := (lastStateOf find n (find.after d n)).1
              lastWhole := (lastStateOf find n (find.after d n)).2 } f) ∧
    ((∃ e, ending = .error e ∨
        Encoder.encodeAll ({ checksum := checksum, level := level } : Encoder zeek)
          (find.groups n (find.after d n)) = .error e) →
      ∃ e more, appendRest zeek find n checksum level cutter state f =
        (.error e, f.writeAll more)) := by
  have hfuel : (find.after d n).length < cutter.stream.buf.length +
      Read.budget cutter.stream.source + 1 := by
    have hle := length_ioCopy_le cutter.stream.source
    have hsplit := find.offset_add_length_after d n
    have hlen := congrArg List.length h.ahead
    rw [List.length_append] at hlen
    omega
  have hgroups := appendGroupsFuel_spec hn (cutter.stream.buf.length +
    Read.budget cutter.stream.source + 1) ({ checksum := checksum, level := level } : Encoder zeek)
    0 h hfound hfuel
  rw [appendRest, Finder.groups, Encoder.encodeAll_append]
  cases hall : Encoder.encodeAll ({ checksum := checksum, level := level } : Encoder zeek)
      (find.fullGroups n (find.after d n)) with
  | error e =>
      constructor
      · intro encoder' hencode
        cases hencode
      · intro _
        obtain ⟨e', encoder', hfail⟩ := hgroups.2 ⟨e, Or.inr hall⟩
        simp only [hfail]
        exact ⟨e', _, rfl⟩
  | ok encoder₁ =>
      cases ending with
      | error e =>
          constructor
          · intro encoder' _ hending
            cases hending
          · intro _
            obtain ⟨e', encoder', hfail⟩ := hgroups.2 ⟨e, Or.inl rfl⟩
            simp only [hfail]
            exact ⟨e', _, rfl⟩
      | ok _ =>
          obtain ⟨cutter', hdone, hbuf, hcount, hlast⟩ := hgroups.1 encoder₁ hall rfl
          simp only [hdone, Cutter.takeRemainder, Stream.takeBuffered, hbuf, lastStateOf]
          cases hrest : (find.groupRest n (find.after d n)).isEmpty with
          | true =>
              simp only [if_true, List.append_nil, Encoder.encodeAll, Nat.zero_add]
              constructor
              · intro encoder' hencode _
                cases hencode
                obtain ⟨out, count, whole⟩ := state
                cases hstate
                rfl
              · rintro ⟨e, hending | hencode⟩
                · cases hending
                · cases hencode
          | false =>
              simp only [Bool.false_eq_true, if_false, Encoder.encodeAll, List.length_append,
                List.length_singleton, Nat.zero_add]
              cases hend : (encoder₁.write (find.groupRest n (find.after d n))).endFrame with
              | error e =>
                  constructor
                  · intro encoder' hencode
                    cases hencode
                  · exact fun _ => ⟨e, _, rfl⟩
              | ok encoder₂ =>
                  constructor
                  · intro encoder' hencode _
                    cases hencode
                    simp only [hcount, hlast, offset_all_beq]
                  · rintro ⟨e, hending | hencode⟩
                    · cases hending
                    · cases hencode

/-- Writing what the encoder made succeeds where it made one frame of each group and the table
has room for them. -/
theorem appendWritten_spec {checksum : Bool} {level : Int} {gs : List Bytes}
    {encoder : Encoder zeek}
    (h : Encoder.encodeAll { checksum := checksum, level := level } gs = .ok encoder)
    (state : Appended) (f : File) :
    (∀ frames, OneEach zeek checksum level gs frames →
      (gs = [] ∨ state.out.length + gs.length ≤ zeek.maxFrames) →
        appendWritten n gs.length encoder state f =
          (.ok { state with out := state.out ++ tableOf frames }, f.writeAll (bodyOf frames))) ∧
    ((¬ ∃ frames, OneEach zeek checksum level gs frames ∧
        (gs = [] ∨ state.out.length + gs.length ≤ zeek.maxFrames)) →
      ∃ e more, appendWritten n gs.length encoder state f = (.error e, f.writeAll more)) := by
  obtain ⟨made, hmade, -, rfl⟩ := (Encoder.encodeAll_eq_ok rfl).mp h
  simp only [List.nil_append]
  by_cases hnil : gs = []
  · subst hnil
    cases hmade
    constructor
    · intro frames hone _
      cases hone
      rw [List.length_nil, appendWritten, if_pos rfl]
      simp [tableOf, bodyOf, File.writeAll]
    · intro hnone
      exact absurd ⟨[], List.Forall₂.nil, Or.inl rfl⟩ hnone
  · have hsome : gs.length ≠ 0 := mt List.length_eq_zero_iff.mp hnil
    rw [appendWritten, if_neg hsome]
    simp only
    by_cases hlength : made.flatten.length = gs.length
    · have hone := oneEach_of_length hmade (Nat.le_of_eq hlength)
      rw [if_neg (not_not.mpr hlength)]
      by_cases hroom : state.out.length + gs.length ≤ zeek.maxFrames
      · rw [logFrames_of_le zeek (by rw [length_tableOf, hlength]; exact hroom)]
        constructor
        · intro frames hframes _
          rw [hframes.flatten_eq hmade]
        · exact fun hnone => absurd ⟨_, hone, Or.inr hroom⟩ hnone
      · constructor
        · intro frames _ hor
          exact absurd (hor.resolve_left hnil) hroom
        · intro _
          cases hlog : logFrames zeek state.out (tableOf made.flatten) with
          | error e => exact ⟨e, _, rfl⟩
          | ok out =>
              have hfits := ((logFrames_eq_ok_iff zeek _ _ _).mp hlog).2
              rw [length_tableOf, hlength] at hfits
              rcases hfits with htable | hfits
              · have := congrArg List.length htable
                rw [length_tableOf, hlength, List.length_nil] at this
                omega
              · omega
    · rw [if_pos hlength]
      constructor
      · intro frames hframes _
        rw [hframes.flatten_eq hmade] at hlength
        exact absurd hframes.length_eq hlength
      · exact fun _ => ⟨_, _, rfl⟩

/-! ### The first group -/

/-- What the first group of a stream leaves to the groups behind it. -/
inductive FirstOf (zeek : Zeekstd) (find : Finder UInt8) (n : Nat) (checksum : Bool) (level : Int)
    (d : Bytes) (ending : Except Error Unit) : FirstGroup zeek R → Prop where
  | whole {frame : Stored zeek.toFrameFormat} {cutter : Cutter (Chain R)}
      (fills : n ≤ (find.records d).length)
      (encoded : zeek.encode checksum level (d.take (find.offset d n)) = .ok [frame])
      (on : Cutter.On find n d ending cutter) (found : cutter.found = n) :
      FirstOf zeek find n checksum level d ending
        { frame := frame, whole := true, lastRecords := n, lastWhole := true, cutter := cutter }
  | short {frame : Stored zeek.toFrameFormat} {cutter : Cutter (Chain R)}
      (few : (find.records d).length < n) (ended : ending = .ok ())
      (encoded : zeek.encode checksum level d = .ok [frame]) :
      FirstOf zeek find n checksum level d ending
        { frame := frame, whole := false, lastRecords := (find.records d).length
          lastWhole := (find.rest d).isEmpty, cutter := cutter }

theorem appendFirst_ok (hn : 0 < n) {join : Join} {level : Int} {data : R}
    {first : FirstGroup zeek R} (h : appendFirst zeek find n join level data = .ok first) :
    FirstOf zeek find n join.checksum level (join.tail ++ (ioCopy data).2) (ioCopy data).1
      first := by
  have hnext := Cutter.nextGroup_new find hn
    ({ first := join.tail, second := data } : Chain R)
  rw [ioCopy_chain] at hnext
  generalize join.tail ++ (ioCopy data).2 = d at hnext ⊢
  generalize (ioCopy data).1 = ending at hnext ⊢
  rw [appendFirst] at h
  rcases Nat.lt_or_ge (find.records d).length n with hlt | hge
  · cases ending with
    | error e =>
        rw [hnext.fails hlt e rfl] at h
        cases h
    | ok _ =>
        obtain ⟨cutter, hnone, hbuf, hcount, hlast⟩ := hnext.rest hlt rfl
        rw [hnone] at h
        simp only [hbuf, hcount, hlast, offset_all_beq] at h
        cases hencode : encodeFrame zeek d join.checksum level with
        | error e =>
            rw [hencode] at h
            cases h
        | ok frame =>
            rw [hencode] at h
            cases h
            exact FirstOf.short hlt rfl (encodeFrame_eq_ok.mp hencode).1
  · obtain ⟨cutter, hsome, hon, hfull, htake⟩ := hnext.group hge
    rw [hsome] at h
    simp only [htake] at h
    cases hencode : encodeFrame zeek (d.take (find.offset d n)) join.checksum level with
    | error e =>
        rw [hencode] at h
        cases h
    | ok frame =>
        rw [hencode] at h
        cases h
        exact FirstOf.whole hge (encodeFrame_eq_ok.mp hencode).1 hon hfull

/-! ### Behind the cut -/

/-- Behind the cut an append succeeds where the source ends without a failure, each group makes
one frame, and the seek table has room for them. -/
def Writes (zeek : Zeekstd) (checksum : Bool) (level : Int) (kept : Nat) (gs : List Bytes)
    (ending : Except Error Unit) (frames : List (Stored zeek.toFrameFormat)) : Prop :=
  ending = .ok () ∧ OneEach zeek checksum level gs frames ∧ kept + gs.length ≤ zeek.maxFrames

/-- The state an append that wrote `frames` ends with. -/
def writtenState (find : Finder UInt8) (target : AppendTarget) (join : Join) (d : Bytes)
    (frames : List (Stored zeek.toFrameFormat)) : Appended :=
  { out := target.table.take (keptFrames target join) ++ tableOf frames
    lastRecords := (lastStateOf find target.n d).1
    lastWhole := (lastStateOf find target.n d).2 }

theorem appendRewrite_spec {target : AppendTarget} (hn : 0 < target.n) {join : Join} {level : Int}
    {d : Bytes} {ending : Except Error Unit} {first : FirstGroup zeek R}
    (hfirst : FirstOf zeek find target.n join.checksum level d ending first) (hd : d ≠ [])
    (hkept : keptFrames target join ≤ target.table.length)
    (hmost : target.table.length ≤ zeek.maxFrames) (f : File) :
    (∀ frames, Writes zeek join.checksum level (keptFrames target join)
        (find.groups target.n d) ending frames →
      appendRewrite find target join first level f =
        (.ok (appendedResult target join.checksum (writtenState find target join d frames)),
          ((f.setLen (cutOf target join)).writeAll (bodyOf frames)).writeAll
            (zeek.serialize (writtenState find target join d frames).out))) ∧
    ((¬ ∃ frames, Writes zeek join.checksum level (keptFrames target join)
        (find.groups target.n d) ending frames) →
      ∃ e more, appendRewrite find target join first level f =
        (.error e, (f.setLen (cutOf target join)).writeAll (first.frame.bytes ++ more))) := by
  have htake : (target.table.take (keptFrames target join)).length = keptFrames target join := by
    rw [List.length_take, Nat.min_eq_left hkept]
  have hlog : logFrames zeek [] (target.table.take (keptFrames target join)) =
      .ok (target.table.take (keptFrames target join)) := by
    apply logFrames_of_le
    rw [htake, List.length_nil]
    omega
  have hpos := List.length_pos_iff.mpr (Finder.groups_ne_nil (f := find) hn hd)
  rw [appendRewrite]
  simp only [hlog]
  cases hone : logFrame zeek (target.table.take (keptFrames target join)) first.frame.entry with
  | error e =>
      have hfull : zeek.maxFrames ≤ keptFrames target join := by
        rw [logFrame, htake] at hone
        by_contra hroom
        rw [if_neg hroom] at hone
        cases hone
      constructor
      · rintro frames ⟨-, -, hroom⟩
        omega
      · intro _
        exact ⟨e, [], by rw [List.append_nil]⟩
  | ok out =>
      have hout : out = target.table.take (keptFrames target join) ++ [first.frame.entry] ∧
          keptFrames target join < zeek.maxFrames := by
        rw [logFrame, htake] at hone
        split_ifs at hone
        cases hone
        exact ⟨rfl, by omega⟩
      obtain ⟨rfl, hroom₁⟩ := hout
      cases hfirst with
      | @short frame cutter few ended encoded =>
          -- the one group there is is written with the cut
          have hgroups := Finder.groups_of_lt few hd
          have hone₁ : OneEach zeek join.checksum level (find.groups target.n d) [frame] := by
            rw [hgroups]
            exact List.Forall₂.cons encoded List.Forall₂.nil
          constructor
          · rintro frames ⟨-, hframes, -⟩
            obtain rfl := hframes.unique hone₁
            simp only [Bool.false_eq_true, if_false, File.writeAll_writeAll, writtenState,
              lastStateOf_of_lt few hd]
            simp [tableOf, bodyOf]
          · intro hnone
            refine absurd ⟨[frame], ended, hone₁, ?_⟩ hnone
            rw [hgroups, List.length_singleton]
            omega
      | @whole frame cutter fills encoded on found =>
          have hgroups := Finder.groups_of_le hn fills
          have hrest := appendRest_spec zeek hn join.checksum level on found
            { out := target.table.take (keptFrames target join) ++ [frame.entry]
              lastRecords := target.n, lastWhole := true } rfl
            ((f.setLen (cutOf target join)).writeAll frame.bytes)
          rw [hgroups]
          simp only [if_true]
          constructor
          · rintro frames ⟨hending, hframes, hroom⟩
            obtain ⟨frame', rest, hframe, hone₁, rfl⟩ := List.forall₂_cons_left_iff.mp hframes
            rw [encoded] at hframe
            cases hframe
            have hrestLength := OneEach.length_eq hone₁
            rw [List.length_cons] at hroom
            have hpending : ({ checksum := join.checksum, level := level } :
                Encoder zeek).pending = [] := rfl
            have hall := Encoder.encodeAll_of_oneEach hpending hone₁
              (by simp only [List.length_nil]; omega)
            rw [hrest.1 _ hall hending, (appendWritten_spec hall _ _).1 rest hone₁
              (Or.inr (by rw [List.length_append, htake, List.length_singleton]; omega))]
            simp only [writtenState, lastStateOf_of_le hn fills, File.writeAll_writeAll]
            simp [tableOf, bodyOf]
          · intro hnone
            have hfail : ∃ e more, appendRest zeek find target.n join.checksum level cutter
                { out := target.table.take (keptFrames target join) ++ [frame.entry]
                  lastRecords := target.n, lastWhole := true }
                ((f.setLen (cutOf target join)).writeAll frame.bytes) =
                  (.error e, ((f.setLen (cutOf target join)).writeAll frame.bytes).writeAll
                    more) := by
              cases hall : Encoder.encodeAll
                  ({ checksum := join.checksum, level := level } : Encoder zeek)
                  (find.groups target.n (find.after d target.n)) with
              | error e => exact hrest.2 ⟨e, Or.inr hall⟩
              | ok encoder =>
                  cases ending with
                  | error e => exact hrest.2 ⟨e, Or.inl rfl⟩
                  | ok _ =>
                      rw [hrest.1 encoder hall rfl]
                      apply (appendWritten_spec hall _ _).2
                      rintro ⟨rest, hone₁, hroom⟩
                      refine hnone ⟨frame :: rest, rfl, List.Forall₂.cons encoded hone₁, ?_⟩
                      rw [List.length_cons]
                      rcases hroom with hnil | hroom
                      · rw [hnil, List.length_nil]
                        omega
                      · rw [List.length_append, htake, List.length_singleton] at hroom
                        omega
            obtain ⟨e, more, hfail⟩ := hfail
            rw [hfail]
            exact ⟨e, more, by rw [File.writeAll_writeAll]⟩

end SeekZstdSep
