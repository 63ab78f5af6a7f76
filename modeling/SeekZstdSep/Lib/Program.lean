/-
Module: SeekZstdSep.Lib.Program
Purpose: Programs that may go on for ever, may fault and may fail. A program is run under a budget
  of rounds for its loops, and what it ends with it ends with under every larger one; a loop that
  no budget is enough for diverges.
Trusted boundary: none (fully proved)
Main exports: Ending, Program, Program.loop, Program.Ends, Program.Ends.bind,
  Program.Ends.loop_stops, Program.Ends.loop_again, Program.Diverges, Program.loop_diverges,
  Program.Settles
-/
import Mathlib.Logic.Basic

namespace SeekZstdSep.Lib

/-- How a program ends: in a fault of the machine, in a failure it reports, or with a value. -/
inductive Ending (Fault Failure Value : Type) where
  | faulted (fault : Fault)
  | failed (failure : Failure)
  | returned (value : Value)
deriving DecidableEq, Repr

/-- What a round of a loop comes to: another one, or the end. -/
inductive Round (State Value : Type) where
  | again (state : State)
  | done (value : Value)

/-- A program: what it ends with under a budget, or `none` where the budget is too small. -/
structure Program (Fault Failure Value : Type) where
  run : Nat → Option (Ending Fault Failure Value)
  mono : ∀ {budget larger ending}, budget ≤ larger → run budget = some ending →
    run larger = some ending

namespace Program

variable {Fault Failure Value Value' State : Type}

/-- The program that ends at once. -/
def ofEnding (ending : Ending Fault Failure Value) : Program Fault Failure Value where
  run := fun _ => some ending
  mono := fun _ h => h

def fault (fault : Fault) : Program Fault Failure Value := ofEnding (.faulted fault)

def fail (failure : Failure) : Program Fault Failure Value := ofEnding (.failed failure)

/-- What a program without loops or faults comes to. -/
def endingOf : Except Failure Value → Ending Fault Failure Value
  | .error failure => .failed failure
  | .ok value => .returned value

def ofExcept (result : Except Failure Value) : Program Fault Failure Value :=
  ofEnding (endingOf result)

/-- What follows a program that ended. -/
def follow (budget : Nat) (next : Value → Program Fault Failure Value') :
    Ending Fault Failure Value → Option (Ending Fault Failure Value')
  | .faulted fault => some (.faulted fault)
  | .failed failure => some (.failed failure)
  | .returned value => (next value).run budget

theorem follow_mono {next : Value → Program Fault Failure Value'} {budget larger : Nat}
    (hle : budget ≤ larger) {ending : Ending Fault Failure Value}
    {last : Ending Fault Failure Value'} (h : follow budget next ending = some last) :
    follow larger next ending = some last := by
  cases ending with
  | faulted fault => exact h
  | failed failure => exact h
  | returned value => exact (next value).mono hle h

/-- One program, then the next. -/
def andThen (program : Program Fault Failure Value)
    (next : Value → Program Fault Failure Value') : Program Fault Failure Value' where
  run := fun budget => (program.run budget).bind (follow budget next)
  mono := by
    intro budget larger last hle h
    obtain ⟨ending, hrun, hfollow⟩ := Option.bind_eq_some_iff.mp h
    rw [program.mono hle hrun]
    exact follow_mono hle hfollow

instance : Monad (Program Fault Failure) where
  pure := fun value => ofEnding (.returned value)
  bind := andThen

/-- The failure of a program as a value. -/
def caught : Ending Fault Failure Value → Ending Fault Failure (Except Failure Value)
  | .faulted fault => .faulted fault
  | .failed failure => .returned (.error failure)
  | .returned value => .returned (.ok value)

/-- Runs a program and goes on where it fails. -/
def attempt (program : Program Fault Failure Value) :
    Program Fault Failure (Except Failure Value) where
  run := fun budget => (program.run budget).map caught
  mono := by
    intro budget larger last hle h
    obtain ⟨ending, hrun, rfl⟩ := Option.map_eq_some_iff.mp h
    rw [program.mono hle hrun]
    rfl

/-! ### Loops -/

section Loop

variable (body : State → Program Fault Failure (Round State Value))

/-- So many rounds of a loop, the loops inside a round under the same budget. -/
def rounds (budget : Nat) : Nat → State → Option (Ending Fault Failure Value)
  | 0, _ => none
  | count + 1, state =>
      match (body state).run budget with
      | none => none
      | some (.faulted fault) => some (.faulted fault)
      | some (.failed failure) => some (.failed failure)
      | some (.returned (.done value)) => some (.returned value)
      | some (.returned (.again next)) => rounds budget count next

variable {body}

theorem rounds_mono {budget larger : Nat} (hle : budget ≤ larger) :
    ∀ {count more : Nat} {state : State} {ending : Ending Fault Failure Value}, count ≤ more →
      rounds body budget count state = some ending →
        rounds body larger more state = some ending := by
  intro count
  induction count with
  | zero =>
      intro more state ending _ h
      cases h
  | succ count ih =>
      intro more state ending hmore h
      obtain ⟨more, rfl⟩ : ∃ fewer, more = fewer + 1 := ⟨more - 1, by omega⟩
      rw [rounds] at h ⊢
      cases hrun : (body state).run budget with
      | none =>
          rw [hrun] at h
          cases h
      | some turn =>
          rw [hrun] at h
          rw [(body state).mono hle hrun]
          cases turn with
          | faulted fault => exact h
          | failed failure => exact h
          | returned round =>
              cases round with
              | done value => exact h
              | again next => exact ih (Nat.le_of_succ_le_succ hmore) h

variable (body)

/-- Rounds until one is the last. -/
def loop (state : State) : Program Fault Failure Value where
  run := fun budget => rounds body budget budget state
  mono := fun hle h => rounds_mono hle hle h

end Loop

/-! ### What a program ends with -/

/-- The program ends so, under some budget. -/
def Ends (program : Program Fault Failure Value) (ending : Ending Fault Failure Value) : Prop :=
  ∃ budget, program.run budget = some ending

/-- No budget is enough. -/
def Diverges (program : Program Fault Failure Value) : Prop :=
  ∀ budget, program.run budget = none

variable {program : Program Fault Failure Value} {next : Value → Program Fault Failure Value'}
  {ending ending' : Ending Fault Failure Value}

/-- A program ends in one way. -/
theorem Ends.unique (h : program.Ends ending) (h' : program.Ends ending') : ending = ending' := by
  obtain ⟨budget, hrun⟩ := h
  obtain ⟨budget', hrun'⟩ := h'
  have hboth := program.mono (Nat.le_max_left budget budget') hrun
  rw [program.mono (Nat.le_max_right budget budget') hrun', Option.some.injEq] at hboth
  exact hboth.symm

theorem Diverges.not_ends (h : program.Diverges) : ¬ program.Ends ending := by
  rintro ⟨budget, hrun⟩
  rw [h budget] at hrun
  cases hrun

theorem ends_ofEnding (ending : Ending Fault Failure Value) : (ofEnding ending).Ends ending :=
  ⟨0, rfl⟩

theorem ends_pure (value : Value) :
    (pure value : Program Fault Failure Value).Ends (.returned value) := ends_ofEnding _

theorem ends_ofExcept (result : Except Failure Value) :
    (ofExcept result : Program Fault Failure Value).Ends (endingOf result) := ends_ofEnding _

theorem ok_of_ends {result : Except Failure Value} {value : Value}
    (h : (ofExcept result : Program Fault Failure Value).Ends (.returned value)) :
    result = .ok value := by
  have hsame := h.unique (ends_ofExcept result)
  cases result with
  | error failure => cases hsame
  | ok value' =>
      cases hsame
      rfl

@[simp] theorem pure_andThen (value : Value) (next : Value → Program Fault Failure Value') :
    (pure value >>= next) = next value := rfl

@[simp] theorem fault_andThen (cause : Fault) (next : Value → Program Fault Failure Value') :
    (fault cause >>= next) = fault cause := rfl

@[simp] theorem fail_andThen (failure : Failure) (next : Value → Program Fault Failure Value') :
    (fail failure >>= next) = fail failure := rfl

@[simp] theorem ofExcept_ok (value : Value) :
    (ofExcept (.ok value) : Program Fault Failure Value) = pure value := rfl

/-- What a program and the one behind it come to, under a budget that both end under. -/
theorem Ends.andThen {last : Ending Fault Failure Value'} (h : program.Ends ending)
    (hnext : ∃ budget, follow budget next ending = some last) : (program >>= next).Ends last := by
  obtain ⟨budget, hrun⟩ := h
  obtain ⟨budget', hfollow⟩ := hnext
  refine ⟨max budget budget', ?_⟩
  show (program.run _).bind _ = _
  rw [program.mono (Nat.le_max_left budget budget') hrun]
  exact follow_mono (Nat.le_max_right budget budget') hfollow

theorem Ends.bind {value : Value} {last : Ending Fault Failure Value'}
    (h : program.Ends (.returned value)) (hnext : (next value).Ends last) :
    (program >>= next).Ends last := h.andThen hnext

/-- A program that returns with another one behind it returns what that one is run on. -/
theorem Ends.of_bind {last : Value'} (h : (program >>= next).Ends (.returned last)) :
    ∃ value, program.Ends (.returned value) ∧ (next value).Ends (.returned last) := by
  obtain ⟨budget, hrun⟩ := h
  obtain ⟨ending, hending, hfollow⟩ := Option.bind_eq_some_iff.mp hrun
  cases ending with
  | faulted fault => cases hfollow
  | failed failure => cases hfollow
  | returned value => exact ⟨value, ⟨budget, hending⟩, budget, hfollow⟩

theorem Ends.bind_failed {failure : Failure} (h : program.Ends (.failed failure)) :
    (program >>= next).Ends (.failed failure) := h.andThen ⟨0, rfl⟩

theorem Ends.bind_faulted {cause : Fault} (h : program.Ends (.faulted cause)) :
    (program >>= next).Ends (.faulted cause) := h.andThen ⟨0, rfl⟩

/-- A program that never faults, and what is computed of its value. -/
theorem Ends.bind_ofExcept {result : Except Failure Value} (h : program.Ends (endingOf result))
    (compute : Value → Except Failure Value') :
    (program >>= fun value => ofExcept (compute value)).Ends
      (endingOf (result.bind compute)) := by
  cases result with
  | error failure => exact h.bind_failed
  | ok value => exact h.bind (ends_ofExcept _)

theorem Ends.attempt (h : program.Ends ending) : program.attempt.Ends (caught ending) := by
  obtain ⟨budget, hrun⟩ := h
  refine ⟨budget, ?_⟩
  show (program.run budget).map caught = _
  rw [hrun]
  rfl

theorem Ends.attempt_except {result : Except Failure Value} (h : program.Ends (endingOf result)) :
    program.attempt.Ends (.returned result) := by
  cases result with
  | error failure => exact h.attempt
  | ok value => exact h.attempt

theorem Diverges.bind (h : program.Diverges) : (program >>= next).Diverges := by
  intro budget
  show (program.run budget).bind _ = none
  rw [h budget]
  rfl

/-! ### Programs that come to a value or a failure -/

/-- The program ends, and not in a fault. -/
def Settles (program : Program Fault Failure Value) : Prop :=
  ∃ result, program.Ends (endingOf result)

theorem Ends.settles {result : Except Failure Value} (h : program.Ends (endingOf result)) :
    program.Settles := ⟨result, h⟩

theorem settles_pure (value : Value) : (pure value : Program Fault Failure Value).Settles :=
  ⟨.ok value, ends_pure value⟩

theorem settles_fail (failure : Failure) : (fail failure : Program Fault Failure Value).Settles :=
  ⟨.error failure, ends_ofEnding _⟩

theorem Settles.bind (h : program.Settles)
    (hnext : ∀ value, program.Ends (.returned value) → (next value).Settles) :
    (program >>= next).Settles := by
  obtain ⟨result, hends⟩ := h
  cases result with
  | error failure => exact ⟨.error failure, hends.bind_failed⟩
  | ok value =>
      obtain ⟨last, hlast⟩ := hnext value hends
      exact ⟨last, hends.bind hlast⟩

/-- A program settles that settles with another one behind it. -/
theorem Settles.of_bind_left (h : (program >>= next).Settles) : program.Settles := by
  obtain ⟨result, budget, hrun⟩ := h
  obtain ⟨ending, hending, hfollow⟩ := Option.bind_eq_some_iff.mp hrun
  cases ending with
  | faulted fault =>
      rw [follow, Option.some.injEq] at hfollow
      cases result <;> cases hfollow
  | failed failure => exact ⟨.error failure, budget, hending⟩
  | returned value => exact ⟨.ok value, budget, hending⟩

theorem settles_bind_iff
    (hnext : ∀ value, program.Ends (.returned value) → (next value).Settles) :
    (program >>= next).Settles ↔ program.Settles :=
  ⟨Settles.of_bind_left, fun h => h.bind hnext⟩

theorem Diverges.not_settles (h : program.Diverges) : ¬ program.Settles := by
  rintro ⟨result, hends⟩
  exact h.not_ends hends

/-- A program that faults does not return. -/
theorem Ends.not_returned {cause : Fault} (h : program.Ends (.faulted cause)) :
    ¬ ∃ value, program.Ends (.returned value) := by
  rintro ⟨value, hreturned⟩
  cases h.unique hreturned

theorem Ends.not_settles {cause : Fault} (h : program.Ends (.faulted cause)) :
    ¬ program.Settles := by
  rintro ⟨result, hends⟩
  cases result with
  | error failure => cases h.unique hends
  | ok value => cases h.unique hends

/-! ### Rules for loops -/

section Rules

variable {body : State → Program Fault Failure (Round State Value)} {state : State}

/-- What a loop comes to whose round is the last one. -/
def stopped : Ending Fault Failure (Round State Value) → Option (Ending Fault Failure Value)
  | .faulted fault => some (.faulted fault)
  | .failed failure => some (.failed failure)
  | .returned (.done value) => some (.returned value)
  | .returned (.again _) => none

theorem Ends.loop_stops {turn : Ending Fault Failure (Round State Value)}
    (h : (body state).Ends turn) (hstops : stopped turn = some ending) :
    (loop body state).Ends ending := by
  obtain ⟨budget, hrun⟩ := h
  refine ⟨budget + 1, ?_⟩
  show rounds body (budget + 1) (budget + 1) state = _
  rw [rounds, (body state).mono (Nat.le_succ budget) hrun, ← hstops]
  cases turn with
  | faulted fault => rfl
  | failed failure => rfl
  | returned round =>
      cases round with
      | done value => rfl
      | again next => cases hstops

theorem Ends.loop_done {value : Value} (h : (body state).Ends (.returned (.done value))) :
    (loop body state).Ends (.returned value) := h.loop_stops rfl

theorem Ends.loop_failed {failure : Failure} (h : (body state).Ends (.failed failure)) :
    (loop body state).Ends (.failed failure) := h.loop_stops rfl

theorem Ends.loop_faulted {cause : Fault} (h : (body state).Ends (.faulted cause)) :
    (loop body state).Ends (.faulted cause) := h.loop_stops rfl

theorem Ends.loop_again {state' : State} (h : (body state).Ends (.returned (.again state')))
    (hrest : (loop body state').Ends ending) : (loop body state).Ends ending := by
  obtain ⟨budget, hrun⟩ := h
  obtain ⟨budget', hrest⟩ := hrest
  refine ⟨max budget budget' + 1, ?_⟩
  show rounds body (max budget budget' + 1) (max budget budget' + 1) state = _
  have hle : budget ≤ max budget budget' + 1 := by omega
  rw [rounds, (body state).mono hle hrun]
  apply rounds_mono _ (Nat.le_max_right budget budget') hrest
  omega

/-- A loop that can always go on does. -/
theorem loop_diverges (Inv : State → Prop)
    (hstep : ∀ state, Inv state →
      ∃ next, Inv next ∧ (body state).Ends (.returned (.again next)))
    (hinv : Inv state) : (loop body state).Diverges := by
  intro budget
  show rounds body budget budget state = none
  have hnone : ∀ count state, Inv state → rounds body budget count state = none := by
    intro count
    induction count with
    | zero =>
        intro state _
        rfl
    | succ count ih =>
        intro state hinv
        obtain ⟨next, hnext, hagain⟩ := hstep state hinv
        rw [rounds]
        cases hrun : (body state).run budget with
        | none => rfl
        | some turn =>
            have hsame := Ends.unique ⟨budget, hrun⟩ hagain
            subst hsame
            exact ih next hnext
  exact hnone budget state hinv

end Rules

end Program

end SeekZstdSep.Lib
