/-
Module: SeekZstdSep.Lib.Known
Purpose: Runs of a machine, each state with what is known of it. What a call may do to a state is
  forgotten or recorded behind the call, so what every call preserves holds behind every run.
Trusted boundary: none
Main exports: Machine, Machine.run, Machine.run_keeps
-/
import Mathlib.Data.Option.Basic

namespace SeekZstdSep.Lib

universe u v w

/-- A machine that takes calls or gets stuck, and what is known behind a call: `behind state known
call next`, where the call led from `state` to `next`. -/
structure Machine (State : Type u) (Known : Type v) (Call : Type w) where
  step : State → Call → Option State
  behind : State → Known → Call → State → Known

namespace Machine

variable {State : Type u} {Known : Type v} {Call : Type w} (machine : Machine State Known Call)

/-- The state behind a sequence of calls, and what is known of it. -/
def run : State × Known → List Call → Option (State × Known)
  | now, [] => some now
  | (state, known), call :: calls =>
      match machine.step state call with
      | none => none
      | some next => run (next, machine.behind state known call next) calls

variable {machine} {state next : State} {known : Known} {call : Call} {calls : List Call}

theorem run_cons (h : machine.step state call = some next) :
    machine.run (state, known) (call :: calls) =
      machine.run (next, machine.behind state known call next) calls := by
  rw [run, h]

/-- What every call preserves. -/
theorem run_keeps (kept : State → Known → Prop)
    (hstep : ∀ {state next known call}, kept state known →
      machine.step state call = some next → kept next (machine.behind state known call next))
    {now last : State × Known} (h : kept now.1 now.2)
    (hrun : machine.run now calls = some last) : kept last.1 last.2 := by
  induction calls generalizing now with
  | nil =>
      cases hrun
      exact h
  | cons call calls ih =>
      rw [run] at hrun
      cases hnext : machine.step now.1 call with
      | none =>
          rw [hnext] at hrun
          cases hrun
      | some next =>
          rw [hnext] at hrun
          exact ih (hstep h hnext) hrun

end Machine

end SeekZstdSep.Lib
