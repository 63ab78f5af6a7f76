/-
Module: SeekZstdSep.Proofs.PluginEncode
Purpose: What the plugin's writers pass on to their sink, however little of a buffer each write
  takes: a list of items as records, and an input whose last record the writer ends.
Trusted boundary: none
Main exports: writeAll_rule, writeAll_ok, ByteSink.Took, Terminating.Watches,
  terminating_transparent
-/
import SeekZstdSep.Core.PluginEncode
import Mathlib.Data.List.DropRight

namespace SeekZstdSep

open Lib

/-! ### Writing all of a buffer -/

section WriteAll

variable {W : Type} [Write W]

theorem writeAllFuel_rule {P : Bytes → W → Prop}
    (step : ∀ {passed : Bytes} {sink : W} {buf : Bytes} {n : Nat} {sink' : W}, P passed sink →
      Write.write sink buf = .ok (n, sink') → P (passed ++ buf.take n) sink')
    (fuel : Nat) {passed : Bytes} {sink sink' : W} {buf : Bytes} (hfuel : buf.length ≤ fuel)
    (h : P passed sink) (hwrite : writeAllFuel fuel sink buf = .ok sink') :
    P (passed ++ buf) sink' := by
  induction fuel generalizing passed sink buf with
  | zero =>
      have hnil : buf = [] := List.length_eq_zero_iff.mp (by omega)
      cases hwrite
      rw [hnil, List.append_nil]
      exact h
  | succ fuel ih =>
      rw [writeAllFuel] at hwrite
      by_cases hnil : buf = []
      · rw [hnil] at hwrite ⊢
        cases hwrite
        rw [List.append_nil]
        exact h
      · rw [if_neg (by simpa using hnil)] at hwrite
        cases hone : Write.write sink buf with
        | error e =>
            rw [hone] at hwrite
            cases hwrite
        | ok result =>
            obtain ⟨n, next⟩ := result
            rw [hone] at hwrite
            by_cases hzero : n = 0
            · simp only [if_pos hzero] at hwrite
              cases hwrite
            · simp only [if_neg hzero] at hwrite
              have hrest := ih (by rw [List.length_drop]; omega) (step h hone) hwrite
              rwa [List.append_assoc, List.take_append_drop] at hrest

/-- What each write keeps of what was passed on, `write_all` keeps of all of the buffer. -/
theorem writeAll_rule {P : Bytes → W → Prop}
    (step : ∀ {passed : Bytes} {sink : W} {buf : Bytes} {n : Nat} {sink' : W}, P passed sink →
      Write.write sink buf = .ok (n, sink') → P (passed ++ buf.take n) sink')
    {passed : Bytes} {sink sink' : W} {buf : Bytes} (h : P passed sink)
    (hwrite : writeAll sink buf = .ok sink') : P (passed ++ buf) sink' :=
  writeAllFuel_rule step buf.length (Nat.le_refl _) h hwrite

theorem writePieces_rule {P : Bytes → W → Prop}
    (step : ∀ {passed : Bytes} {sink : W} {buf : Bytes} {n : Nat} {sink' : W}, P passed sink →
      Write.write sink buf = .ok (n, sink') → P (passed ++ buf.take n) sink')
    (input : List Bytes) {passed : Bytes} {sink sink' : W} (h : P passed sink)
    (hwrite : writePieces sink input = .ok sink') : P (passed ++ input.flatten) sink' := by
  induction input generalizing passed sink with
  | nil =>
      cases hwrite
      rw [List.flatten_nil, List.append_nil]
      exact h
  | cons piece pieces ih =>
      rw [writePieces] at hwrite
      cases hone : writeAll sink piece with
      | error e =>
          rw [hone] at hwrite
          cases hwrite
      | ok next =>
          rw [hone] at hwrite
          rw [List.flatten_cons, ← List.append_assoc]
          exact ih (writeAll_rule step h hone) hwrite

/-- Writes that each take something write all of a buffer. -/
theorem writeAll_ok {Q : W → Prop}
    (step : ∀ {sink : W} {buf : Bytes}, Q sink → buf ≠ [] →
      ∃ n sink', Write.write sink buf = .ok (n, sink') ∧ 0 < n ∧ Q sink')
    {sink : W} (buf : Bytes) (h : Q sink) : ∃ sink', writeAll sink buf = .ok sink' ∧ Q sink' := by
  rw [writeAll]
  generalize buf.length = fuel
  induction fuel generalizing sink buf with
  | zero => exact ⟨sink, rfl, h⟩
  | succ fuel ih =>
      rw [writeAllFuel]
      by_cases hnil : buf = []
      · rw [hnil]
        exact ⟨sink, rfl, h⟩
      · obtain ⟨n, next, hone, hpos, hnext⟩ := step h hnil
        rw [if_neg (by simpa using hnil), hone]
        simp only [if_neg (Nat.ne_of_gt hpos)]
        exact ih (buf.drop n) hnext

theorem writePieces_ok {Q : W → Prop}
    (step : ∀ {sink : W} {buf : Bytes}, Q sink → buf ≠ [] →
      ∃ n sink', Write.write sink buf = .ok (n, sink') ∧ 0 < n ∧ Q sink')
    (input : List Bytes) {sink : W} (h : Q sink) :
    ∃ sink', writePieces sink input = .ok sink' ∧ Q sink' := by
  induction input generalizing sink with
  | nil => exact ⟨sink, rfl, h⟩
  | cons piece pieces ih =>
      obtain ⟨next, hone, hnext⟩ := writeAll_ok step piece h
      rw [writePieces, hone]
      exact ih hnext

end WriteAll

/-! ### The sink -/

namespace ByteSink

/-- The sink holds what it held at first and what was passed on since. -/
def Took (first passed : Bytes) (sink : ByteSink) : Prop := sink.written = first ++ passed

theorem took_step {first passed : Bytes} {sink sink' : ByteSink} {buf : Bytes} {n : Nat}
    (h : Took first passed sink) (hwrite : Write.write sink buf = .ok (n, sink')) :
    Took first (passed ++ buf.take n) sink' := by
  simp only [Write.write] at hwrite
  cases hwish : sink.schedule sink.tick with
  | none =>
      rw [hwish] at hwrite
      cases hwrite
  | some wish =>
      rw [hwish] at hwrite
      cases hwrite
      rw [Took, ← List.append_assoc, ← show sink.written = first ++ passed from h]

theorem took_flush {first passed : Bytes} {sink sink' : ByteSink} (h : Took first passed sink)
    (hflush : Write.flush sink = .ok sink') : Took first passed sink' := by
  simp only [Write.flush] at hflush
  split at hflush
  · cases hflush
    exact h
  · cases hflush

/-- Every write takes something and the sink can be flushed. -/
def Willing (sink : ByteSink) : Prop :=
  sink.flushes = true ∧ ∀ tick, ∃ wish, sink.schedule tick = some (wish + 1)

theorem willing_step {sink : ByteSink} {buf : Bytes} (h : sink.Willing) (hne : buf ≠ []) :
    ∃ n sink', Write.write sink buf = .ok (n, sink') ∧ 0 < n ∧ Willing sink' := by
  obtain ⟨wish, hwish⟩ := h.2 sink.tick
  have hpos := List.length_pos_iff.mpr hne
  simp only [Write.write, hwish]
  exact ⟨_, _, rfl, Nat.lt_min.mpr ⟨Nat.succ_pos wish, hpos⟩, h⟩

theorem willing_flush {sink : ByteSink} (h : sink.Willing) : Write.flush sink = .ok sink :=
  if_pos h.1

end ByteSink

/-! ### The tail that decides -/

theorem suffix_rtake_iff {separator bytes : Bytes} :
    separator <:+ bytes.rtake separator.length ↔ separator <:+ bytes := by
  constructor
  · intro h
    exact h.trans (List.drop_suffix _ _)
  · intro h
    have hdrop := List.suffix_iff_eq_drop.mp h
    simp only [List.rtake, ← hdrop, List.suffix_refl]

/-- The last bytes of all that was passed on are the last ones of the tail and what followed it. -/
theorem remember_rtake (separator passed written : Bytes) :
    Terminating.remember separator (passed.rtake separator.length) written =
      (passed ++ written).rtake separator.length := by
  rw [Terminating.remember, List.rtake, List.rtake]
  split
  · next hlong =>
      rw [List.length_append, Nat.add_sub_assoc hlong, ← List.drop_drop, List.drop_left' rfl]
  · next hshort =>
      have hlen : (passed.drop (passed.length - separator.length)).length =
          min passed.length separator.length := by
        rw [List.length_drop]
        omega
      rw [← List.drop_append_of_le_length (Nat.sub_le _ _), List.drop_drop]
      congr 1
      rw [List.drop_append_of_le_length (Nat.sub_le _ _), List.length_append, hlen,
        List.length_append]
      omega

namespace Terminating

section Write

variable {W : Type} [Write W] {writer : Terminating W} {buf : Bytes}

theorem write_of_error {e : Error} (h : Write.write writer.sink buf = .error e) :
    Write.write writer buf = .error e := by
  simp only [Write.write] at h ⊢
  rw [h]

/-- A write passes on what the sink takes of it, and remembers that. -/
theorem write_of_ok {n : Nat} {sink : W} (h : Write.write writer.sink buf = .ok (n, sink)) :
    Write.write writer buf =
      .ok (n,
        { writer with
          sink := sink
          wrote := writer.wrote || !(buf.take n).isEmpty
          tail :=
            if (buf.take n).isEmpty then writer.tail
            else remember writer.separator writer.tail (buf.take n) }) := by
  simp only [Write.write] at h ⊢
  rw [h]
  cases hempty : (buf.take n).isEmpty with
  | true => simp [hempty]
  | false => simp [hempty]

end Write

/-- The writer passed `passed` on to its sink and remembers its last bytes. -/
structure Watches (first separator passed : Bytes) (writer : Terminating ByteSink) : Prop where
  took : writer.sink.Took first passed
  ends : writer.separator = separator
  tail : writer.tail = passed.rtake separator.length
  wrote : writer.wrote = true ↔ passed ≠ []

theorem watches_step {first separator passed : Bytes} {writer writer' : Terminating ByteSink}
    {buf : Bytes} {n : Nat} (h : Watches first separator passed writer)
    (hwrite : Write.write writer buf = .ok (n, writer')) :
    Watches first separator (passed ++ buf.take n) writer' := by
  cases hsink : Write.write writer.sink buf with
  | error e =>
      rw [write_of_error hsink] at hwrite
      cases hwrite
  | ok result =>
      obtain ⟨m, sink⟩ := result
      rw [write_of_ok hsink] at hwrite
      cases hwrite
      constructor
      · exact ByteSink.took_step h.took hsink
      · exact h.ends
      · by_cases hempty : buf.take n = []
        · simp only [hempty, List.isEmpty_nil, if_true, List.append_nil]
          exact h.tail
        · rw [if_neg (by simpa using hempty), h.ends, h.tail]
          exact remember_rtake separator passed (buf.take n)
      · by_cases hempty : buf.take n = []
        · simp only [hempty, List.isEmpty_nil, Bool.not_true, Bool.or_false, List.append_nil]
          exact h.wrote
        · simp [hempty]

/-- Every write of the writer takes something where the sink's do. -/
theorem willing_step {writer : Terminating ByteSink} {buf : Bytes} (h : writer.sink.Willing)
    (hne : buf ≠ []) : ∃ n writer', Write.write writer buf = .ok (n, writer') ∧ 0 < n ∧
      writer'.sink.Willing := by
  obtain ⟨n, sink, hsink, hpos, hnext⟩ := ByteSink.willing_step h hne
  exact ⟨n, _, write_of_ok hsink, hpos, hnext⟩

/-- The end of the record: the separator where the bytes passed on lack it. -/
theorem finish_spec {first separator passed : Bytes} {writer : Terminating ByteSink}
    {sink : ByteSink} (h : Watches first separator passed writer)
    (hfinish : writer.finish = .ok sink) :
    sink.written =
      first ++ passed ++ if passed ≠ [] ∧ ¬ separator <:+ passed then separator else [] := by
  have hended : separator.isSuffixOf writer.tail = true ↔ separator <:+ passed := by
    rw [List.isSuffixOf_iff_suffix, h.tail, suffix_rtake_iff]
  rw [finish] at hfinish
  by_cases hnil : passed = []
  · rw [if_neg (by rw [h.wrote]; exact not_not_intro hnil)] at hfinish
    rw [if_neg fun hne => hne.1 hnil, List.append_nil]
    exact ByteSink.took_flush h.took hfinish
  · rw [if_pos (h.wrote.mpr hnil), terminate, h.ends] at hfinish
    by_cases hends : separator <:+ passed
    · rw [if_pos (hended.mpr hends)] at hfinish
      rw [if_neg fun hne => hne.2 hends, List.append_nil]
      exact ByteSink.took_flush h.took hfinish
    · rw [if_neg (mt hended.mp hends)] at hfinish
      cases hwrite : writeAll writer.sink separator with
      | error e =>
          rw [hwrite] at hfinish
          cases hfinish
      | ok next =>
          rw [hwrite] at hfinish
          rw [if_pos ⟨hnil, hends⟩, List.append_assoc]
          exact ByteSink.took_flush (writeAll_rule ByteSink.took_step h.took hwrite) hfinish

theorem finish_ok {writer : Terminating ByteSink} (h : writer.sink.Willing) :
    ∃ sink, writer.finish = .ok sink := by
  rw [finish]
  by_cases hwrote : writer.wrote = true
  · rw [if_pos hwrote, terminate]
    by_cases hends : writer.separator.isSuffixOf writer.tail = true
    · rw [if_pos hends]
      exact ⟨_, ByteSink.willing_flush h⟩
    · obtain ⟨next, hwrite, hnext⟩ := writeAll_ok ByteSink.willing_step writer.separator h
      rw [if_neg hends, hwrite]
      exact ⟨_, ByteSink.willing_flush hnext⟩
  · rw [if_neg hwrote]
    exact ⟨_, ByteSink.willing_flush h⟩

end Terminating

/-- However the input comes in pieces and however little of each the sink takes at a time, the sink
ends up with the input, and with the separator behind it exactly where the input is not empty and
does not end with it. -/
theorem terminating_transparent (separator : Bytes) (input : List Bytes) (sink : ByteSink) :
    (∀ sink', text input separator sink = .ok sink' →
        sink'.written = sink.written ++ input.flatten ++
          if input.flatten ≠ [] ∧ ¬ separator <:+ input.flatten then separator else []) ∧
      (sink.Willing → ∃ sink', text input separator sink = .ok sink') := by
  have hstart : Terminating.Watches sink.written separator []
      { sink := sink, separator := separator } :=
    ⟨(List.append_nil _).symm, rfl, (List.rtake_nil _).symm, by simp⟩
  rw [text]
  constructor
  · intro sink' htext
    cases hpieces : writePieces
        ({ sink := sink, separator := separator } : Terminating ByteSink) input with
    | error e =>
        rw [hpieces] at htext
        cases htext
    | ok writer =>
        rw [hpieces] at htext
        have hwatches := writePieces_rule Terminating.watches_step input hstart hpieces
        rw [List.nil_append] at hwatches
        exact Terminating.finish_spec hwatches htext
  · intro hwilling
    have hfirst : (fun writer : Terminating ByteSink => writer.sink.Willing)
        { sink := sink, separator := separator } := hwilling
    obtain ⟨writer, hpieces, hnext⟩ := writePieces_ok Terminating.willing_step input hfirst
    rw [hpieces]
    exact Terminating.finish_ok hnext

end SeekZstdSep
