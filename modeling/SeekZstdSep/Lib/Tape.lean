/-
Module: SeekZstdSep.Lib.Tape
Purpose: A list that is read in pieces from a position which a caller moves. Which answers to a
  sequence of calls are those of the list, and what reads in a row hand out of it.
Trusted boundary: none
Main exports: SeekFrom, TapeCall, TapeAnswer, AsTape, AsTape.handedOut_front,
  AsTape.handedOut_ended
-/
import Mathlib.Data.List.Basic

namespace SeekZstdSep.Lib

universe u v

/-- Where to read on from: a position, or one so far from where the tape is read or ends. -/
inductive SeekFrom where
  | start (pos : Nat)
  | current (delta : Int)
  | atEnd (delta : Int)
deriving Repr, DecidableEq

/-- The place that names, on a tape of `len` items that is read from `pos`. -/
def SeekFrom.target (len pos : Nat) : SeekFrom → Int
  | start pos => pos
  | current delta => pos + delta
  | atEnd delta => len + delta

inductive TapeCall where
  /-- Up to so many items, from where the tape is read. -/
  | read (want : Nat)
  | seek (place : SeekFrom)
deriving Repr, DecidableEq

inductive TapeAnswer (α : Type u) where
  | handed (items : List α)
  | isAt (pos : Nat)
deriving Repr, DecidableEq

variable {α : Type u} {ε : Type v}

/-- Calls and their answers. -/
abbrev Trace (α : Type u) (ε : Type v) := List (TapeCall × Except ε (TapeAnswer α))

/-- `AsTape faults stop most content pos trace`: the calls are answered as by `content`, which is
read from `pos` on. A read hands out what is there, in a piece that does not pass `stop pos`, and
nothing only where nothing is asked for or left. Positions go up to `most`. A call that fails moves
nothing, and a read fails with a fault only. -/
inductive AsTape (faults : ε → Prop) (stop : Nat → Nat) (most : Nat) (content : List α) :
    Nat → Trace α ε → Prop where
  | done (pos : Nat) : AsTape faults stop most content pos []
  | handed {pos want : Nat} {items : List α} {trace : Trace α ε}
      (there : items <+: content.drop pos) (asked : items.length ≤ want)
      (within : items ≠ [] → pos + items.length ≤ stop pos)
      (some : items = [] → want = 0 ∨ content.length ≤ pos)
      (rest : AsTape faults stop most content (pos + items.length) trace) :
      AsTape faults stop most content pos ((.read want, .ok (.handed items)) :: trace)
  | failed {pos want : Nat} {e : ε} {trace : Trace α ε} (fault : faults e)
      (rest : AsTape faults stop most content pos trace) :
      AsTape faults stop most content pos ((.read want, .error e) :: trace)
  | sought {pos target : Nat} {place : SeekFrom} {trace : Trace α ε}
      (there : place.target content.length pos = target) (reach : target ≤ most)
      (rest : AsTape faults stop most content target trace) :
      AsTape faults stop most content pos ((.seek place, .ok (.isAt target)) :: trace)
  | refused {pos : Nat} {place : SeekFrom} {e : ε} {trace : Trace α ε}
      (outside : place.target content.length pos < 0 ∨
        (most : Int) < place.target content.length pos)
      (rest : AsTape faults stop most content pos trace) :
      AsTape faults stop most content pos ((.seek place, .error e) :: trace)

namespace Trace

/-- All that the reads hand out. -/
def handedOut : Trace α ε → List α
  | [] => []
  | (_, .ok (.handed items)) :: trace => items ++ handedOut trace
  | _ :: trace => handedOut trace

/-- The tape is read and not moved. -/
def Forward (trace : Trace α ε) : Prop := ∀ call ∈ trace, ∃ want, call.1 = .read want

/-- A read that asked for something was handed nothing. -/
def Ended (trace : Trace α ε) : Prop :=
  ∃ want, 0 < want ∧ (.read want, .ok (.handed [])) ∈ trace

end Trace

namespace AsTape

variable {faults : ε → Prop} {stop : Nat → Nat} {most pos : Nat} {content : List α}
  {trace : Trace α ε}

/-- Reads in a row hand out what follows, whatever the pieces. -/
theorem handedOut_front (h : AsTape faults stop most content pos trace)
    (hforward : trace.Forward) : trace.handedOut <+: content.drop pos := by
  induction h with
  | done pos => exact List.nil_prefix
  | @handed pos want items trace there asked within some rest ih =>
      obtain ⟨after, hafter⟩ := there
      have hrest : content.drop (pos + items.length) = after := by
        rw [← List.drop_drop, ← hafter, List.drop_left]
      have hmore := ih fun call hin => hforward call (List.mem_cons_of_mem _ hin)
      rw [hrest] at hmore
      rw [← hafter]
      exact (List.prefix_append_right_inj items).mpr hmore
  | failed fault rest ih =>
      exact ih fun call hin => hforward call (List.mem_cons_of_mem _ hin)
  | sought there reach rest ih =>
      obtain ⟨want, hread⟩ := hforward _ List.mem_cons_self
      cases hread
  | refused outside rest ih =>
      obtain ⟨want, hread⟩ := hforward _ List.mem_cons_self
      cases hread

/-- Read to the end, the tape was handed out from where it was read. -/
theorem handedOut_ended (h : AsTape faults stop most content pos trace)
    (hforward : trace.Forward) (hended : trace.Ended) :
    trace.handedOut = content.drop pos := by
  obtain ⟨last, hlast, hin⟩ := hended
  induction h with
  | done pos => cases hin
  | @handed pos want items trace there asked within some rest ih =>
      have hforward' : Trace.Forward trace :=
        fun call hin => hforward call (List.mem_cons_of_mem _ hin)
      obtain ⟨after, hafter⟩ := there
      have hrest : content.drop (pos + items.length) = after := by
        rw [← List.drop_drop, ← hafter, List.drop_left]
      rw [Trace.handedOut, ← hafter, List.append_cancel_left_eq]
      rcases List.mem_cons.mp hin with hhere | hin
      · -- nothing is left here, so nothing is handed out behind it
        obtain ⟨⟨rfl⟩, rfl⟩ : last = want ∧ items = [] := by
          cases hhere
          exact ⟨rfl, rfl⟩
        have hspent : content.length ≤ pos := (some rfl).resolve_left (Nat.pos_iff_ne_zero.mp hlast)
        have hnil : after = [] := by
          rw [← hrest]
          exact List.drop_eq_nil_of_le hspent
        have hmore := rest.handedOut_front hforward'
        rw [hrest, hnil] at hmore
        rw [hnil, List.prefix_nil.mp hmore]
      · rw [ih hforward' hin, hrest]
  | failed fault rest ih =>
      have hin := (List.mem_cons.mp hin).resolve_left (fun heq => by cases heq)
      exact ih (fun call hin => hforward call (List.mem_cons_of_mem _ hin)) hin
  | sought there reach rest ih =>
      obtain ⟨want, hread⟩ := hforward _ List.mem_cons_self
      cases hread
  | refused outside rest ih =>
      obtain ⟨want, hread⟩ := hforward _ List.mem_cons_self
      cases hread

end AsTape

end SeekZstdSep.Lib
