/-
Module: SeekZstdSep.Lib.Drain
Purpose: Asking for items until none comes. The items stand for groups of a list's elements, in
  order: where every answer takes a group off the front of what is left, or ends as the walk is to
  end, asking to the end hands out the list.
Trusted boundary: none
Main exports: HandedOut, drain, Answers, drain_spec
-/
import Mathlib.Data.List.Basic

namespace SeekZstdSep.Lib

universe u v w x

variable {α : Type u} {ι : Type v} {ε : Type w} {σ : Type x}

/-- `HandedOut item fits items us`: the items are those of groups that make up `us`, in order, each
of which fits. -/
inductive HandedOut (item : List α → ι) (fits : List α → Prop) : List ι → List α → Prop where
  | nothing : HandedOut item fits [] []
  | group {group us : List α} {items : List ι} (fit : fits group)
      (rest : HandedOut item fits items us) :
      HandedOut item fits (item group :: items) (group ++ us)

/-- The items that come until none does, the error where one ends them, and the state left behind.
`none` where the fuel is spent first. -/
def drain (next : σ → Option (Except ε ι) × σ) : Nat → σ → Option (List ι × Option ε × σ)
  | 0, _ => none
  | fuel + 1, s =>
      match next s with
      | (none, s) => some ([], none, s)
      | (some (.error e), s) => some ([], some e, s)
      | (some (.ok item), s) => (drain next fuel s).map fun rest => (item :: rest.1, rest.2)

/-- What the next answer is where `us` is left and the walk is to end as `fin` says: `Left` holds of
what the states before the end have left, `Over` of the states at the end. -/
inductive Answers (item : List α → ι) (fits : List α → Prop)
    (Left : List α → Option ε → σ → Prop) (Over : σ → Prop) :
    List α → Option ε → Option (Except ε ι) × σ → Prop where
  | handed {group us : List α} {fin : Option ε} {s : σ} (fit : fits group)
      (left : Left us fin s) :
      Answers item fits Left Over (group ++ us) fin (some (.ok (item group)), s)
  | ended {s : σ} (state : Over s) : Answers item fits Left Over [] none (none, s)
  | failed {e : ε} {s : σ} (state : Over s) :
      Answers item fits Left Over [] (some e) (some (.error e), s)

variable {item : List α → ι} {fits : List α → Prop} {Left : List α → Option ε → σ → Prop}
  {Over : σ → Prop} {next : σ → Option (Except ε ι) × σ}

/-- Asking to the end hands out what was left, and ends as it was to end. -/
theorem drain_spec (hfits : ∀ group, fits group → group ≠ [])
    (hnext : ∀ us fin s, Left us fin s → Answers item fits Left Over us fin (next s)) :
    ∀ fuel us fin s, us.length < fuel → Left us fin s →
      ∃ items s', drain next fuel s = some (items, fin, s') ∧ HandedOut item fits items us ∧
        Over s' := by
  intro fuel
  induction fuel with
  | zero =>
      intro us fin s hfuel
      exact absurd hfuel (Nat.not_lt_zero _)
  | succ fuel ih =>
      intro us fin s hfuel hleft
      have hanswer := hnext us fin s hleft
      rw [drain]
      generalize next s = answer at hanswer
      cases hanswer with
      | ended hover => exact ⟨[], _, rfl, HandedOut.nothing, hover⟩
      | failed hover => exact ⟨[], _, rfl, HandedOut.nothing, hover⟩
      | @handed group us fin s' hgroup left =>
          have hpos := List.length_pos_of_ne_nil (hfits group hgroup)
          rw [List.length_append] at hfuel
          obtain ⟨items, s'', hdrain, hitems, hover⟩ := ih us fin s' (by omega) left
          refine ⟨item group :: items, s'', ?_, HandedOut.group hgroup hitems, hover⟩
          simp only [hdrain, Option.map_some]

end SeekZstdSep.Lib
