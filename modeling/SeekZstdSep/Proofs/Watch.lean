/-
Module: SeekZstdSep.Proofs.Watch
Purpose: What a watch has reported by the time a walk stands before record `i`. A lookout says
  where the frames of a region end and who judges them; a watch that is in step with the walk
  has reported exactly the frames that end at or before it, with the records each one really
  holds, and none of them was refused.
Trusted boundary: none
Main exports: Lookout, Lookout.Passes, Lookout.Fits, Watcher.At, Blames, Watcher.saw_spec,
  Watcher.spent_spec
-/
import SeekZstdSep.Proofs.Window

namespace SeekZstdSep

open Lib

/-- What the walk over a region is watched for: the judge, the frame the region begins with and
the offsets in the region at which its frames end. -/
structure Lookout where
  judge : FrameJudge
  first : Nat
  offsets : List Nat

namespace Lookout

/-- Whole records in front of the end of the `j`-th frame, counting from 1. -/
def before (find : Finder UInt8) (region : Bytes) (l : Lookout) : Nat → Nat
  | 0 => 0
  | j + 1 => count find (region.take (l.offsets.getD j 0))

/-- What the judge says of the `j`-th frame of the region. -/
def verdict (find : Finder UInt8) (region : Bytes) (l : Lookout) (j : Nat) : Except Error Unit :=
  match l.judge.count (l.first + j) (l.before find region (j + 1) - l.before find region j) with
  | .error e => .error e
  | .ok () => l.judge.endsWhole (l.first + j) (endsWhole find (region.take (l.offsets.getD j 0)))

def Passes (find : Finder UInt8) (region : Bytes) (l : Lookout) (j : Nat) : Prop :=
  l.verdict find region j = .ok ()

/-- The offsets are in order and in the region, and a record that ends at or before one of them
is a record of what comes before it. -/
structure Fits (find : Finder UInt8) (region : Bytes) (l : Lookout) : Prop where
  increasing : l.offsets.Pairwise (· < ·)
  pos : ∀ e ∈ l.offsets, 0 < e
  le : ∀ e ∈ l.offsets, e ≤ region.length
  sharp : ∀ e ∈ l.offsets, ∀ i ≤ (find.records region).length, find.offset region i ≤ e →
    i ≤ (find.records (region.take e)).length

end Lookout

/-- The watch has reported the frames that end at or before record `i`, and no other. -/
structure Watch.At (find : Finder UInt8) (region : Bytes) (l : Lookout) (i : Nat)
    (watch : Watch) : Prop where
  offsets : watch.offsets = l.offsets
  seen : watch.seen = find.offset region i
  passed : watch.passed = some ⟨l.judge, l.first, l.before find region watch.next⟩
  next_le : watch.next ≤ l.offsets.length
  reported : ∀ j (hj : j < l.offsets.length), j < watch.next ↔ l.offsets[j] ≤ watch.seen
  good : ∀ j < watch.next, l.Passes find region j

/-- The watcher of a walk that stands before record `i` of a region; `none` where nothing is
watched. -/
def Watcher.At (find : Finder UInt8) (region : Bytes) (post : Option Lookout) (i : Nat) :
    Watcher → Prop
  | .unwatched => post = none
  | .watched watch =>
      (post = none ∧ watch.offsets = []) ∨
        ∃ l, post = some l ∧ l.Fits find region ∧ watch.At find region l i

/-- Some frame of the region is refused by whoever looks out. -/
def Blames (find : Finder UInt8) (region : Bytes) (post : Option Lookout) : Prop :=
  ∃ l, post = some l ∧ ∃ j < l.offsets.length, ¬ l.Passes find region j

theorem not_blames_none {find : Finder UInt8} {region : Bytes} : ¬ Blames find region none := by
  rintro ⟨l, h, -⟩
  simp at h

variable {find : Finder UInt8} {region : Bytes} {l : Lookout} {post : Option Lookout} {i : Nat}

/-- What lies in front of a frame end is the first `i` records and the part of the next ones
that comes before it. -/
theorem count_take_of_sharp {e c : Nat} (hsharp : i ≤ (find.records (region.take e)).length)
    (hge : find.offset region i ≤ e) (hle : e ≤ find.offset region (i + c)) :
    count find (region.take e) = i +
        count find ((((find.records region).drop i).take c).flatten.take
          (e - find.offset region i)) ∧
      (find.offset region i < e →
        endsWhole find (region.take e) =
          endsWhole find ((((find.records region).drop i).take c).flatten.take
            (e - find.offset region i))) := by
  have hsplit : region.take e ++ region.drop e = region := List.take_append_drop e region
  have hoffset : find.offset (region.take e) i = find.offset region i := by
    rw [← find.offset_append _ (region.drop e) hsharp, hsplit]
  have hrun : (((find.records region).drop i).take c).flatten =
      (region.take (find.offset region (i + c))).drop (find.offset region i) := by
    rw [find.take_offset, List.take_add, List.flatten_append, Finder.offset, List.drop_left' rfl]
  have hafter : find.after (region.take e) i =
      (((find.records region).drop i).take c).flatten.take (e - find.offset region i) := by
    rw [hrun, Finder.after, hoffset, List.take_drop, List.take_take]
    congr 2
    omega
  constructor
  · rw [← hafter, count_eq, count_eq, find.records_after, List.length_drop]
    omega
  · intro hlt
    rw [← hafter, Bool.eq_iff_iff, endsWhole_iff, endsWhole_iff, find.rest_after]
    have hlen := find.offset_add_length_after (region.take e) i
    rw [hoffset, List.length_take] at hlen
    have hin : e ≤ region.length := Nat.le_trans hle (find.offset_le region (i + c))
    have hne : find.after (region.take e) i ≠ [] := by
      intro hnil
      rw [hnil, List.length_nil] at hlen
      omega
    have hne' : region.take e ≠ [] := by
      intro hnil
      have := congrArg List.length hnil
      rw [List.length_take, List.length_nil] at this
      omega
    simp [hne, hne']

/-- Past the whole records of a region, no more of them are in front of a frame end, and the
remainder is. -/
theorem count_take_of_past {e : Nat}
    (hsharp : (find.records region).length ≤ (find.records (region.take e)).length)
    (hlt : find.offset region (find.records region).length < e) (hle : e ≤ region.length) :
    count find (region.take e) = (find.records region).length ∧
      endsWhole find (region.take e) = false := by
  have hsplit : region.take e ++ region.drop e = region := List.take_append_drop e region
  have hcount := find.length_records_le_append (region.take e) (region.drop e)
  rw [hsplit] at hcount
  have hoffset : find.offset (region.take e) (find.records region).length =
      find.offset region (find.records region).length := by
    rw [← find.offset_append _ (region.drop e) hsharp, hsplit]
  refine ⟨by rw [count_eq]; omega, ?_⟩
  rw [Bool.eq_false_iff]
  intro hwhole
  have hrest := ((endsWhole_iff find _).mp hwhole).2
  have hlen := find.offset_add_length_after (region.take e) (find.records region).length
  rw [find.after_of_length_le (by omega), hrest, hoffset, List.length_take] at hlen
  simp at hlen
  omega

namespace Watch

/-- One report tells the judge what the frame really holds. -/
theorem call_spec {watch : Watch}
    (hpassed : watch.passed = some ⟨l.judge, l.first, l.before find region watch.next⟩) :
    (l.Passes find region watch.next ∧
        watch.call (l.before find region (watch.next + 1))
            (endsWhole find (region.take (l.offsets.getD watch.next 0))) =
          .ok { watch with
            passed := some ⟨l.judge, l.first, l.before find region (watch.next + 1)⟩
            next := watch.next + 1 }) ∨
      (¬ l.Passes find region watch.next ∧
        ∃ e, watch.call (l.before find region (watch.next + 1))
            (endsWhole find (region.take (l.offsets.getD watch.next 0))) = .error e) := by
  unfold Watch.call Passed.call Lookout.Passes Lookout.verdict
  rw [hpassed]
  simp only
  cases hcount : l.judge.count (l.first + watch.next)
      (l.before find region (watch.next + 1) - l.before find region watch.next) with
  | error e => exact Or.inr ⟨by simp, e, rfl⟩
  | ok _ =>
      simp only
      cases hends : l.judge.endsWhole (l.first + watch.next)
          (endsWhole find (region.take (l.offsets.getD watch.next 0))) with
      | error e => exact Or.inr ⟨by simp, e, rfl⟩
      | ok _ => exact Or.inl ⟨rfl, rfl⟩

/-- A frame that may hold bytes after its last record may also hold none. -/
theorem call_of_open {watch watch' : Watch} {before : Nat}
    (h : watch.call before false = .ok watch') :
    ∃ watch'', watch.call before true = .ok watch'' := by
  unfold Watch.call Passed.call at h ⊢
  cases hpassed : watch.passed with
  | none => exact ⟨_, rfl⟩
  | some passed =>
      rw [hpassed] at h
      simp only at h ⊢
      cases hcount : passed.judge.count (passed.first + watch.next) (before - passed.walked) with
      | error e => simp [hcount] at h
      | ok _ =>
          simp only [FrameJudge.endsWhole, verifyFrameEndsWhole, Bool.not_true, Bool.false_eq_true,
            false_and, if_false]
          exact ⟨_, rfl⟩

/-- A watch halfway through the reports of one run: what is left to report lies past where the
run began. -/
structure Midway (find : Finder UInt8) (region : Bytes) (l : Lookout) (began ended : Nat)
    (watch : Watch) : Prop where
  offsets : watch.offsets = l.offsets
  seen : watch.seen = ended
  passed : watch.passed = some ⟨l.judge, l.first, l.before find region watch.next⟩
  next_le : watch.next ≤ l.offsets.length
  done : ∀ j (hj : j < l.offsets.length), j < watch.next → l.offsets[j] ≤ ended
  later : ∀ j (hj : j < l.offsets.length), watch.next ≤ j → began < l.offsets[j]
  good : ∀ j < watch.next, l.Passes find region j

/-- A run is over once what is left to report lies past it. -/
theorem Midway.at {watch : Watch} {began : Nat}
    (h : Midway find region l began (find.offset region i) watch)
    (hpast : ∀ j (hj : j < l.offsets.length), watch.next ≤ j →
      find.offset region i < l.offsets[j]) : watch.At find region l i := by
  refine ⟨h.offsets, h.seen, h.passed, h.next_le, ?_, h.good⟩
  intro j hj
  have hdone := h.done j hj
  have hlater := hpast j hj
  rw [h.seen]
  omega

/-- Every frame end in a run is reported, with what the frame holds. -/
theorem sawFuel_spec (hl : l.Fits find region) {c : Nat}
    (hic : i + c ≤ (find.records region).length) :
    ∀ fuel (watch : Watch),
      Midway find region l (find.offset region i) (find.offset region (i + c)) watch →
      l.offsets.length ≤ watch.next + fuel →
      (∃ watch', sawFuel find (((find.records region).drop i).take c).flatten
            (find.offset region i) (find.offset region (i + c)) i fuel watch = .ok watch' ∧
          watch'.At find region l (i + c)) ∨
        ((∃ e, sawFuel find (((find.records region).drop i).take c).flatten
            (find.offset region i) (find.offset region (i + c)) i fuel watch = .error e) ∧
          Blames find region (some l)) := by
  intro fuel
  induction fuel with
  | zero =>
      intro watch h hfuel
      exact Or.inl ⟨watch, rfl, h.at fun j hj hnext => by omega⟩
  | succ fuel ih =>
      intro watch h hfuel
      rw [sawFuel, h.offsets]
      cases hnext : l.offsets[watch.next]? with
      | none =>
          rw [List.getElem?_eq_none_iff] at hnext
          exact Or.inl ⟨watch, rfl, h.at fun j hj hnext => by omega⟩
      | some e =>
          obtain ⟨hlt, he⟩ := List.getElem?_eq_some_iff.mp hnext
          have hmem : e ∈ l.offsets := he ▸ List.getElem_mem hlt
          have hgetD : l.offsets.getD watch.next 0 = e := by
            rw [List.getD_eq_getElem?_getD, hnext]
            rfl
          have hbegan : find.offset region i < e := he ▸ h.later watch.next hlt (Nat.le_refl _)
          simp only
          by_cases hle : e ≤ find.offset region (i + c)
          · rw [if_pos hle]
            obtain ⟨hcount, hwhole⟩ := count_take_of_sharp (c := c)
              (hl.sharp e hmem i (by omega) (Nat.le_of_lt hbegan)) (Nat.le_of_lt hbegan) hle
            rw [← hcount, ← hwhole hbegan]
            have hbefore : count find (region.take e) = l.before find region (watch.next + 1) := by
              rw [Lookout.before, hgetD]
            have hcall := call_spec h.passed
            rw [hgetD, ← hbefore] at hcall
            rcases hcall with ⟨hpasses, hcall⟩ | ⟨hpasses, error, hcall⟩
            · rw [hcall]
              refine ih _ ⟨h.offsets, h.seen, by rw [hbefore], hlt, ?_, ?_, ?_⟩
                (by simp only; omega)
              · intro j hj hjnext
                rcases Nat.lt_succ_iff_lt_or_eq.mp hjnext with hj' | rfl
                · exact h.done j hj hj'
                · exact he ▸ hle
              · intro j hj hjnext
                exact h.later j hj (Nat.le_of_succ_le hjnext)
              · intro j hjnext
                rcases Nat.lt_succ_iff_lt_or_eq.mp hjnext with hj' | rfl
                · exact h.good j hj'
                · exact hpasses
            · rw [hcall]
              exact Or.inr ⟨⟨error, rfl⟩, l, rfl, watch.next, hlt, hpasses⟩
          · rw [if_neg hle]
            refine Or.inl ⟨watch, rfl, h.at ?_⟩
            intro j hj hjnext
            rcases Nat.lt_or_eq_of_le hjnext with hlt' | rfl
            · have := List.pairwise_iff_getElem.mp hl.increasing watch.next j hlt hj hlt'
              omega
            · omega

end Watch

namespace Watcher

/-- A run of `c` records keeps the watcher in step with the walk, or the watcher refuses a
frame. -/
theorem saw_spec {watcher : Watcher} (h : watcher.At find region post i) {w : Window} (run : Run)
    (hic : i + run.count ≤ (find.records region).length) (hwalked : w.walked = i + run.count)
    (hlen : find.offset region i + run.len = find.offset region (i + run.count))
    (hbytes : w.bytes run = (((find.records region).drop i).take run.count).flatten) :
    (∃ watcher', watcher.saw find w run = .ok watcher' ∧
        watcher'.At find region post (i + run.count)) ∨
      ((∃ e, watcher.saw find w run = .error e) ∧ Blames find region post) := by
  cases watcher with
  | unwatched => exact Or.inl ⟨.unwatched, rfl, h⟩
  | watched watch =>
      have hwalked' : w.walked - run.count = i := by omega
      simp only [Watcher.saw, Watch.saw, hbytes, hwalked']
      rcases h with ⟨rfl, hnil⟩ | ⟨l, rfl, hl, hat⟩
      · refine Or.inl ⟨.watched { watch with seen := watch.seen + run.len }, ?_,
          Or.inl ⟨rfl, hnil⟩⟩
        rw [hnil]
        rfl
      · rw [hat.seen, hlen]
        have hmid : Watch.Midway find region l (find.offset region i)
            (find.offset region (i + run.count))
            { watch with seen := find.offset region (i + run.count) } := by
          have hmono : find.offset region i ≤ find.offset region (i + run.count) := by omega
          refine ⟨hat.offsets, rfl, hat.passed, hat.next_le, ?_, ?_, hat.good⟩
          · intro j hj hnext
            have := (hat.reported j hj).mp hnext
            rw [hat.seen] at this
            omega
          · intro j hj hnext
            have := (hat.reported j hj).not.mp (Nat.not_lt.mpr hnext)
            rw [hat.seen] at this
            omega
        have hfuel : l.offsets.length ≤ watch.next + watch.offsets.length := by
          rw [hat.offsets]
          omega
        rcases Watch.sawFuel_spec hl hic watch.offsets.length _ hmid hfuel with
          ⟨watch', heq, hat'⟩ | ⟨⟨e, heq⟩, hblame⟩
        · rw [heq]
          exact Or.inl ⟨_, rfl, Or.inr ⟨l, rfl, hl, hat'⟩⟩
        · rw [heq]
          exact Or.inr ⟨⟨e, rfl⟩, hblame⟩

/-- Where the whole records end, the frame the walk stops in is judged by what it holds. A walk
that handed out the unfinished record as well no longer knows of it. -/
theorem spent_spec {watcher : Watcher}
    (h : watcher.At find region post (find.records region).length) {w : Window}
    (hwalked : w.walked = (find.records region).length)
    (hremainder : w.remainder = find.rest region ∨ w.remainder = []) :
    (∃ watcher', watcher.spent w = .ok watcher' ∧ (post = none → watcher' = watcher)) ∨
      ((∃ e, watcher.spent w = .error e) ∧ Blames find region post) := by
  cases watcher with
  | unwatched => exact Or.inl ⟨.unwatched, rfl, fun _ => rfl⟩
  | watched watch =>
      simp only [Watcher.spent, Watch.spent]
      by_cases hnext : watch.next ≥ watch.offsets.length
      · rw [if_pos hnext]
        exact Or.inl ⟨_, rfl, fun _ => rfl⟩
      · rw [if_neg hnext]
        rcases h with ⟨rfl, hnil⟩ | ⟨l, rfl, hl, hat⟩
        · simp [hnil] at hnext
        · rw [hat.offsets] at hnext
          have hlt : watch.next < l.offsets.length := by omega
          have hmem : l.offsets[watch.next] ∈ l.offsets := List.getElem_mem hlt
          have hgetD : l.offsets.getD watch.next 0 = l.offsets[watch.next] := by
            rw [List.getD_eq_getElem?_getD, List.getElem?_eq_getElem hlt]
            rfl
          have hpast := (hat.reported _ hlt).not.mp (Nat.lt_irrefl _)
          rw [hat.seen] at hpast
          generalize l.offsets[watch.next] = e at hmem hgetD hpast
          obtain ⟨hbefore, hopen⟩ := count_take_of_past (hl.sharp e hmem _ (Nat.le_refl _)
            (by omega)) (by omega) (hl.le e hmem)
          have hbefore' : w.walked = l.before find region (watch.next + 1) := by
            rw [Lookout.before, hgetD, hwalked, hbefore]
          have hcall := Watch.call_spec hat.passed
          rw [hgetD, hopen, ← hbefore'] at hcall
          have hsplit := find.offset_add_length_after region (find.records region).length
          rw [find.after_of_length_le (Nat.le_refl _)] at hsplit
          have hle := hl.le e hmem
          rcases hcall with ⟨-, hcall⟩ | ⟨hpasses, error, hcall⟩
          · refine Or.inl ?_
            rcases hremainder with hremainder | hremainder
            · have hne : (find.rest region).isEmpty = false := by
                rw [List.isEmpty_eq_false_iff]
                intro hnil
                rw [hnil, List.length_nil] at hsplit
                omega
              rw [hremainder, hne, hcall]
              exact ⟨_, rfl, by simp⟩
            · obtain ⟨watch', hcall'⟩ := Watch.call_of_open hcall
              rw [hremainder, List.isEmpty_nil, hcall']
              exact ⟨_, rfl, by simp⟩
          · cases hspent : (watch.call w.walked w.remainder.isEmpty).map Watcher.watched with
            | ok watcher' => exact Or.inl ⟨watcher', rfl, by simp⟩
            | error error => exact Or.inr ⟨⟨error, rfl⟩, l, rfl, watch.next, hlt, hpasses⟩

end Watcher

end SeekZstdSep
