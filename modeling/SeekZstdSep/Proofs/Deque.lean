/-
Module: SeekZstdSep.Proofs.Deque
Purpose: Where the arithmetic of a reader does not saturate, the two ends of an iterator are those
  of one list: whichever end is asked, and wherever the two meet, it pops the records from where
  the iterator starts, or is refused.
Trusted boundary: none
Main exports: Deque, dequeFrom, RecordReader.run_intoRecordsFrom
-/
import SeekZstdSep.Proofs.TwoEnds

namespace SeekZstdSep

open Lib

variable {boundary : Boundary} {n : Nat} {frames : List Bytes}

/-- The records a double-ended read has left, and the refusal each end begins with, where the read
was asked to start past the last record. -/
structure Deque where
  us : List Bytes := []
  frontRefusal : Option Error := none
  backRefusal : Option Error := none

namespace Deque

def popFront (d : Deque) : Option (Except Error Bytes) × Deque :=
  match d.us with
  | u :: us => (some (.ok u), { us := us })
  | [] => (d.frontRefusal.map .error, {})

def popBack (d : Deque) : Option (Except Error Bytes) × Deque :=
  match d.us.getLast? with
  | some u => (some (.ok u), { us := d.us.dropLast })
  | none => (d.backRefusal.map .error, {})

end Deque

namespace Deque

def pop : Side → Deque → Option (Except Error Bytes) × Deque
  | .front => popFront
  | .back => popBack

def run : List Side → Deque → List (Option (Except Error Bytes))
  | [], _ => []
  | side :: sides, d => (d.pop side).1 :: run sides (d.pop side).2

/-- A read that is not refused takes the records from both ends. -/
theorem run_of_records (sides : List Side) (us : List Bytes) :
    ({ us := us } : Deque).run sides = (popSides sides us).map (Option.map .ok) := by
  induction sides generalizing us with
  | nil => rfl
  | cons side sides ih =>
      have hpop : ({ us := us } : Deque).pop side =
          ((popSide side us).1.map .ok, { us := (popSide side us).2 }) := by
        cases side with
        | front => cases us <;> rfl
        | back =>
            rcases List.eq_nil_or_concat us with rfl | ⟨init, u, rfl⟩
            · rfl
            · simp [pop, popBack, popSide]
      rw [run, popSides, List.map_cons, hpop, ih]

end Deque

/-- The records up to the end of frame `k`. -/
theorem mul_add_items_le (h : Uniform boundary.find boundary.tailIsRecord n frames) {k : Nat}
    (hk : k < frames.length) :
    n * k + (boundary.find.items boundary.tailIsRecord frames[k]).length ≤
        (itemsOf boundary frames).length ∧
      (k + 1 = frames.length →
        n * k + (boundary.find.items boundary.tailIsRecord frames[k]).length =
          (itemsOf boundary frames).length) := by
  have hlast : k + 1 = frames.length →
      n * k + (boundary.find.items boundary.tailIsRecord frames[k]).length =
        (itemsOf boundary frames).length := by
    intro heq
    have hget : frames.getLast h.ne_nil = frames[k] := by
      rw [List.getLast_eq_getElem]
      congr 1
      omega
    rw [itemsOf_length h, hget]
    congr 2
    omega
  refine ⟨?_, hlast⟩
  by_cases heq : k + 1 = frames.length
  · exact Nat.le_of_eq (hlast heq)
  · obtain ⟨hcount, hrest⟩ := h.full_getElem (k := k) (by omega)
    have hrecords := h.le_length_records
    have hitems := records_le_items boundary frames
    have hmul : n * (k + 1) ≤ n * (frames.length - 1) := Nat.mul_le_mul_left n (by omega)
    have hsucc : n * (k + 1) = n * k + n := Nat.mul_succ n k
    rw [Finder.items_of_rest hrest, hcount]
    omega

/-- Popping the front of the records a forward read has left. -/
theorem take_drop_of_cons {us vs : List Bytes} {u : Bytes} {front reach : Nat}
    (hcons : us.drop front = u :: vs) (hlt : front < reach) :
    (us.take reach).drop front = u :: (us.take reach).drop (front + 1) := by
  have hfront : front < us.length := by
    by_contra hge
    rw [List.drop_eq_nil_of_le (by omega)] at hcons
    simp at hcons
  rw [List.drop_eq_getElem_cons hfront] at hcons
  rw [List.drop_eq_getElem_cons (by rw [List.length_take]; omega), List.getElem_take,
    (List.cons.inj hcons).1]

/-- Popping the back of the records a reverse read has left. -/
theorem take_drop_succ {us : List Bytes} {front reach : Nat} (hreach : reach < us.length)
    (hfront : front ≤ reach) :
    (us.take (reach + 1)).drop front = (us.take reach).drop front ++ [us[reach]] := by
  rw [List.take_succ_eq_append_getElem hreach, List.drop_append_of_le_length]
  rw [List.length_take]
  omega

namespace TwoEnds

variable {s : TwoEnds}

/-- The records the two ends lie in. -/
def items (s : TwoEnds) : List Bytes := itemsOf s.boundary s.frames

/-- Where the records a reverse read has left end. -/
inductive Reach (s : TwoEnds) : Nat → Prop
  | uncounted (backLeft : s.backLeft = none) (last : s.backFrame + 1 = s.frames.length) :
      Reach s s.items.length
  | counted {left : Nat} (backLeft : s.backLeft = some left)
      (inside : s.backFrame < s.frames.length) (le : left ≤ s.held.length) :
      Reach s (s.perFrame * s.backFrame + left)

/-- Why the forward read is refused, where that was not asked yet. -/
def refusal (s : TwoEnds) : Option Error :=
  if s.fed.isSome || s.backLeft.isSome then none
  else rangeRefusal s.boundary s.perFrame s.frames s.label s.front

/-- The frames are uniform, and a forward read that was placed still yields the records left. -/
structure Reads (s : TwoEnds) : Prop where
  unspent : s.spent = false
  uniform : Uniform s.boundary.find s.boundary.tailIsRecord s.perFrame s.frames
  small : s.perFrame * s.frames.length * s.frames.length ≤ usizeMax
  feeding : ∀ us fin, s.fed = some (us, fin) →
    s.front ≤ s.items.length ∧ us = s.items.drop s.front ∧ fin = none

/-- What the two ends have left. -/
inductive Pops (s : TwoEnds) : Deque → Prop
  | spent (spent : s.spent = true) : Pops s {}
  | reads {reach : Nat} (reads : s.Reads) (reaches : s.Reach reach) :
      Pops s
        { us := (s.items.take reach).drop s.front
          frontRefusal := s.refusal
          backRefusal := if s.items.length < s.front then s.refusal else none }

theorem held_eq (hk : s.backFrame < s.frames.length) :
    s.held = s.boundary.find.items s.boundary.tailIsRecord s.frames[s.backFrame] := by
  simp [held, hk]

theorem Reach.le (h : Uniform s.boundary.find s.boundary.tailIsRecord s.perFrame s.frames)
    {reach : Nat} (hreach : s.Reach reach) : reach ≤ s.items.length := by
  cases hreach with
  | uncounted => exact Nat.le_refl _
  | counted backLeft inside le =>
      have := (mul_add_items_le h inside).1
      rw [held_eq inside] at le
      rw [items]
      omega

/-- A forward read that did not meet the reverse one is in front of what that handed out. -/
theorem Reach.front_lt {reach : Nat} (hreach : s.Reach reach) (hmet : s.met = false)
    (hfront : s.front < s.items.length) : s.front < reach := by
  cases hreach with
  | uncounted => exact hfront
  | counted backLeft inside le =>
      rw [met, backLeft] at hmet
      simp only [Option.any_some, decide_eq_false_iff_not] at hmet
      rw [Nat.mul_comm]
      omega

/-- Going forward pops the front. -/
theorem next_pops {d : Deque} (h : s.Pops d) :
    s.next.1 = d.popFront.1 ∧ s.next.2.Pops d.popFront.2 := by
  cases h with
  | spent spent =>
      rw [next, spent]
      exact ⟨rfl, Pops.spent spent⟩
  | @reads reach reads reaches =>
      have hreach := reaches.le reads.uniform
      rw [next, reads.unspent, Bool.false_or]
      cases hmet : s.met with
      | true =>
          rw [if_pos rfl]
          cases reaches with
          | uncounted backLeft last => simp [met, backLeft] at hmet
          | @counted left backLeft inside le =>
              rw [met, backLeft] at hmet
              simp only [Option.any_some, decide_eq_true_eq] at hmet
              have hrefusal : s.refusal = none := by simp [refusal, backLeft]
              have hnil : (s.items.take (s.perFrame * s.backFrame + left)).drop s.front = [] := by
                apply List.drop_eq_nil_of_le
                rw [List.length_take, Nat.mul_comm s.perFrame]
                omega
              have hpops := Pops.reads reads (Reach.counted backLeft inside le)
              rw [hnil, hrefusal, ite_self] at hpops ⊢
              exact ⟨rfl, hpops⟩
      | false =>
          rw [if_neg (by simp)]
          -- What the forward read yields, placed before or only now.
          obtain ⟨fin, hfeed, hfin, hrefusal⟩ : ∃ fin,
              s.fed.getD (forwardFeed s.boundary s.perFrame s.frames s.label s.front) =
                (s.items.drop s.front, fin) ∧
              (s.front < s.items.length → fin = none) ∧
              (s.front < reach ∨ s.refusal = fin) := by
            cases hfed : s.fed with
            | some feed =>
                obtain ⟨us, fin⟩ := feed
                obtain ⟨-, rfl, rfl⟩ := reads.feeding us fin hfed
                exact ⟨none, rfl, fun _ => rfl, Or.inr (by simp [refusal, hfed])⟩
            | none =>
                refine ⟨_, forwardFeed_eq reads.uniform reads.small s.label s.front,
                  rangeRefusal_none, ?_⟩
                cases reaches with
                | uncounted backLeft last => exact Or.inr (by simp [refusal, hfed, backLeft])
                | counted backLeft inside le =>
                    rw [met, backLeft] at hmet
                    simp only [Option.any_some, decide_eq_false_iff_not] at hmet
                    exact Or.inl (by rw [Nat.mul_comm]; omega)
          rw [hfeed]
          by_cases hfront : s.front < s.items.length
          · have hlt := reaches.front_lt hmet hfront
            obtain rfl := hfin hfront
            have hcons : s.items.drop s.front = s.items[s.front] :: s.items.drop (s.front + 1) :=
              List.drop_eq_getElem_cons hfront
            rw [hcons, takeFront, Deque.popFront, take_drop_of_cons hcons hlt]
            refine ⟨rfl, ?_⟩
            have hreads : Reads
                { s with front := s.front + 1, fed := some (s.items.drop (s.front + 1), none) } :=
              { unspent := reads.unspent
                uniform := reads.uniform
                small := reads.small
                feeding := by
                  intro us fin heq
                  obtain ⟨rfl, rfl⟩ := Prod.mk.inj (Option.some.inj heq)
                  exact ⟨hfront, rfl, rfl⟩ }
            have hreaches : Reach
                { s with front := s.front + 1, fed := some (s.items.drop (s.front + 1), none) }
                reach := by
              cases reaches with
              | uncounted backLeft last => exact Reach.uncounted backLeft last
              | counted backLeft inside le => exact Reach.counted backLeft inside le
            have hpops := Pops.reads hreads hreaches
            have hasked : refusal
                { s with front := s.front + 1, fed := some (s.items.drop (s.front + 1), none) } =
                  none := by simp [refusal]
            rw [hasked, ite_self] at hpops
            exact hpops
          · have hdrop : (s.items.take reach).drop s.front = [] := by
              apply List.drop_eq_nil_of_le
              rw [List.length_take]
              omega
            have hrefusal' : s.refusal = fin := hrefusal.resolve_left (by omega)
            rw [List.drop_eq_nil_of_le (by omega), takeFront, Deque.popFront, hdrop, hrefusal']
            exact ⟨rfl, Pops.spent rfl⟩

/-- Taking the last of the records left of a frame pops the back. -/
theorem takeBack_pops {index : Nat} (h : s.Reads) (hfed : s.fed = none)
    (hk : s.backFrame < s.frames.length) (hindex : index < s.held.length) {d : Deque}
    (hrefusal : d.backRefusal = none)
    (hus : d.us = (s.items.take (s.perFrame * s.backFrame + (index + 1))).drop s.front) :
    (s.takeBack index).1 = d.popBack.1 ∧ (s.takeBack index).2.Pops d.popBack.2 := by
  have hheld := held_eq hk
  have hmem := (mul_add_items_le h.uniform hk).1
  have hitem : s.items[s.perFrame * s.backFrame + index]? = s.held[index]? := by
    rw [hheld]
    apply itemsOf_getElem? h.uniform hk
    intro hlast
    obtain ⟨hcount, hrest⟩ := h.uniform.full_getElem hlast
    rw [hheld, Finder.items_of_rest hrest, hcount] at hindex
    exact hindex
  rw [← hheld, ← items] at hmem
  rw [takeBack]
  simp only
  by_cases hmet : s.backFrame * s.perFrame + index < s.front
  · have hnil : (s.items.take (s.perFrame * s.backFrame + (index + 1))).drop s.front = [] := by
      apply List.drop_eq_nil_of_le
      rw [List.length_take, Nat.mul_comm s.perFrame]
      omega
    rw [if_pos hmet, Deque.popBack, hus, hnil, hrefusal]
    exact ⟨rfl, Pops.spent rfl⟩
  · have hheldSame : ({ s with backLeft := some index } : TwoEnds).held = s.held := rfl
    rw [Nat.mul_comm] at hmet
    have hinside : s.perFrame * s.backFrame + index < s.items.length := by omega
    have hahead : s.front ≤ s.perFrame * s.backFrame + index := by omega
    have hpop := take_drop_succ hinside hahead
    rw [List.getElem?_eq_getElem (by omega), List.getElem?_eq_getElem hindex] at hitem
    rw [Nat.mul_comm, if_neg hmet, hheldSame, List.getElem?_eq_getElem hindex, Deque.popBack, hus,
      ← Nat.add_assoc, hpop, List.getLast?_concat, List.dropLast_concat, ← Option.some.inj hitem]
    refine ⟨rfl, ?_⟩
    have hreads : Reads { s with backLeft := some index } :=
      { unspent := h.unspent
        uniform := h.uniform
        small := h.small
        feeding := by simp [hfed] }
    have hpops := Pops.reads hreads (Reach.counted rfl hk (Nat.le_of_lt hindex))
    have hasked : refusal { s with backLeft := some index } = none := by simp [refusal]
    rw [hasked, ite_self] at hpops
    exact hpops

/-- Going back pops the back. -/
theorem nextBack_pops {d : Deque} (h : s.Pops d) :
    s.nextBack.1 = d.popBack.1 ∧ s.nextBack.2.Pops d.popBack.2 := by
  rw [nextBack, stepBack]
  cases h with
  | spent spent =>
      rw [if_pos (by simpa using spent)]
      exact ⟨rfl, Pops.spent spent⟩
  | @reads reach reads reaches =>
      have hreads : Reads { s with fed := none } :=
        { unspent := reads.unspent
          uniform := reads.uniform
          small := reads.small
          feeding := by simp }
      rw [if_neg (by simp [reads.unspent])]
      cases reaches with
      | uncounted backLeft last =>
          have hk : s.backFrame < s.frames.length := by omega
          have hend : s.perFrame * s.backFrame + s.held.length = s.items.length := by
            rw [held_eq hk]
            exact (mul_add_items_le reads.uniform hk).2 last
          have hpos := items_pos reads.uniform hk
          rw [← held_eq hk] at hpos
          simp only [backLeft]
          by_cases hbeyond : s.items.length < s.front
          · have hgt : s.front > s.backFrame * s.perFrame +
                ({ s with fed := none, backLeft := none } : TwoEnds).held.length := by
              rw [Nat.mul_comm]
              exact hend ▸ hbeyond
            have hunfed : s.fed = none := by
              cases hfed : s.fed with
              | none => rfl
              | some feed =>
                  have := (reads.feeding feed.1 feed.2 hfed).1
                  omega
            have hnil : (s.items.take s.items.length).drop s.front = [] := by
              rw [List.take_length, List.drop_eq_nil_of_le (Nat.le_of_lt hbeyond)]
            have hsame : ({ s with fed := none, backLeft := none } : TwoEnds) = s := by
              rw [← hunfed, ← backLeft]
            rw [if_pos hgt, hsame, if_pos hbeyond]
            have hnext := next_pops (Pops.reads reads (Reach.uncounted backLeft last))
            rw [Deque.popFront, hnil] at hnext
            rw [Deque.popBack, hnil]
            exact hnext
          · have hgt : ¬ s.front > s.backFrame * s.perFrame +
                ({ s with fed := none, backLeft := none } : TwoEnds).held.length := by
              rw [Nat.mul_comm]
              exact fun hlt => hbeyond (hend ▸ hlt)
            rw [if_neg hgt, if_neg hbeyond]
            have hsame : ({ s with fed := none, backLeft := none } : TwoEnds) =
                { s with fed := none } := by rw [← backLeft]
            rw [hsame]
            refine takeBack_pops hreads rfl hk ?_ rfl ?_
            · show s.held.length - 1 < s.held.length
              omega
            · show (s.items.take s.items.length).drop s.front =
                (s.items.take (s.perFrame * s.backFrame + (s.held.length - 1 + 1))).drop s.front
              rw [Nat.sub_add_cancel hpos, hend]
      | @counted left backLeft inside le =>
          have hrefusal : s.refusal = none := by simp [refusal, backLeft]
          rw [hrefusal, ite_self]
          simp only [backLeft]
          have hsame : ∀ left', s.backLeft = some left' →
              ({ s with fed := none, backLeft := some left' } : TwoEnds) =
                { s with fed := none } := fun left' hleft => by rw [← hleft]
          cases left with
          | succ left =>
              rw [hsame _ backLeft]
              exact takeBack_pops hreads rfl inside le rfl rfl
          | zero =>
              by_cases hfirst : s.backFrame = 0
              · rw [if_pos hfirst, hfirst, Nat.mul_zero, List.take_zero, List.drop_nil]
                exact ⟨rfl, Pops.spent rfl⟩
              · rw [if_neg hfirst]
                have hbefore : s.backFrame - 1 < s.frames.length := by omega
                obtain ⟨hcount, hrest⟩ := reads.uniform.full_getElem (k := s.backFrame - 1)
                  (by omega)
                have hheld : ({ s with
                    backFrame := s.backFrame - 1,
                    backLeft := none, fed := none } : TwoEnds).held.length = s.perFrame := by
                  rw [held_eq hbefore]
                  simp only
                  rw [Finder.items_of_rest hrest, hcount]
                have hmul := Nat.mul_succ s.perFrame (s.backFrame - 1)
                rw [show (s.backFrame - 1).succ = s.backFrame by omega] at hmul
                have hpos := reads.uniform.pos
                refine takeBack_pops
                  (s := { s with backFrame := s.backFrame - 1, backLeft := none, fed := none })
                  { unspent := reads.unspent
                    uniform := reads.uniform
                    small := reads.small
                    feeding := by simp } rfl hbefore ?_ rfl ?_
                · rw [hheld]
                  omega
                · rw [hheld, Nat.sub_add_cancel hpos, Nat.add_zero]
                  simp only
                  rw [← hmul]
                  rfl

theorem pull_pops {d : Deque} (h : s.Pops d) (side : Side) :
    (s.pull side).1 = (d.pop side).1 ∧ (s.pull side).2.Pops (d.pop side).2 := by
  cases side with
  | front => exact next_pops h
  | back => exact nextBack_pops h

/-- Whatever the schedule, the calls pop what is left. -/
theorem run_pops {d : Deque} (h : s.Pops d) (sides : List Side) : s.run sides = d.run sides := by
  induction sides generalizing s d with
  | nil => rfl
  | cons side sides ih =>
      obtain ⟨hanswer, hpops⟩ := pull_pops h side
      rw [run, Deque.run, hanswer, ih hpops]

end TwoEnds

/-- What an iterator from record `fromIdx` on starts with. -/
def dequeFrom (boundary : Boundary) (n : Nat) (frames : List Bytes) (label : String)
    (fromIdx : Nat) : Deque where
  us := (itemsOf boundary frames).drop fromIdx
  frontRefusal := rangeRefusal boundary n frames label fromIdx
  backRefusal :=
    if (itemsOf boundary frames).length < fromIdx then
      rangeRefusal boundary n frames label fromIdx
    else none

theorem dequeFrom_of_lt {label : String} {fromIdx : Nat}
    (h : fromIdx < (itemsOf boundary frames).length) :
    dequeFrom boundary n frames label fromIdx =
      { us := (itemsOf boundary frames).drop fromIdx } := by
  rw [dequeFrom, rangeRefusal_none h, ite_self]

theorem twoEndsFrom_pops (h : Uniform boundary.find boundary.tailIsRecord n frames)
    (small : n * frames.length * frames.length ≤ usizeMax) (label : String) (fromIdx : Nat) :
    (twoEndsFrom boundary n frames label fromIdx).Pops
      (dequeFrom boundary n frames label fromIdx) := by
  have hpos := h.length_pos
  have hpops := TwoEnds.Pops.reads (s := twoEndsFrom boundary n frames label fromIdx)
    { unspent := rfl
      uniform := h
      small := small
      feeding := by simp [twoEndsFrom] }
    (TwoEnds.Reach.uncounted rfl (by show frames.length - 1 + 1 = frames.length; omega))
  rw [List.take_length] at hpops
  exact hpops

/-- The iterator a reader turns into pops the records from where it starts. -/
theorem RecordReader.run_intoRecordsFrom {r : RecordReader} (h : r.Serves frames)
    (small : r.sepCnt * frames.length * frames.length ≤ usizeMax)
    (ready : r.lookup.frame = some (frames.length - 1) →
      Lookup.Reaches r.boundary.find frames (frames.length - 1) 0 r.lookup.window)
    (fromIdx : Nat) (sides : List Side) :
    (r.intoRecordsFrom fromIdx).run sides =
      (dequeFrom r.boundary r.sepCnt frames r.label fromIdx).run sides := by
  rw [RecordIter.run_follows (RecordReader.intoRecordsFrom_follows h ready fromIdx),
    TwoEnds.run_pops (twoEndsFrom_pops h.uniform small r.label fromIdx)]

end SeekZstdSep
