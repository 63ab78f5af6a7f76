/-
Module: SeekZstdSep.Core.Exec
Purpose: The record loops of record.rs as the machine runs them: for any finder whatever, for as
  many rounds as it takes, and with numbers of so many bits.
Trusted boundary: none
Main exports: ArithFault, Arithmetic, Exec, Exec.add, Exec.sub, Exec.mul, Exec.cast, Exec.ends,
  Exec.walk, Exec.next, Exec.countRecords, Exec.nextGroup
-/
import SeekZstdSep.Core.Append
import SeekZstdSep.Lib.Program

namespace SeekZstdSep

open Lib

/-- What the machine stops for. -/
inductive ArithFault where
  | underflow
  | overflow
  /-- an `as` that loses bits -/
  | narrowing
  | divisionByZero
  /-- a buffer of more bytes than can be asked for -/
  | capacity
deriving DecidableEq, Repr

/-- What an operation does whose result leaves its type: it stops, which for `as` no build does, or
it keeps the bits there are. -/
inductive Arithmetic where
  | checked
  | wrapping
deriving DecidableEq, Repr

/-- A run of the code. -/
abbrev Exec := Program ArithFault Error

/-- What the code is handed as a finder. -/
abbrev RawFind := Bytes → Option Nat

namespace Exec

/-! ### Numbers -/

section Numbers

variable (mode : Arithmetic) (width : Nat)

/-- A result that leaves its type. -/
def leaves (cause : ArithFault) (wrapped : Nat) : Exec Nat :=
  match mode with
  | .checked => Program.fault cause
  | .wrapping => pure wrapped

def add (a b : Nat) : Exec Nat :=
  if a + b < 2 ^ width then pure (a + b) else leaves mode .overflow ((a + b) % 2 ^ width)

def sub (a b : Nat) : Exec Nat :=
  if b ≤ a then pure (a - b) else leaves mode .underflow (2 ^ width + a - b)

def mul (a b : Nat) : Exec Nat :=
  if a * b < 2 ^ width then pure (a * b) else leaves mode .overflow (a * b % 2 ^ width)

/-- `as`. -/
def cast (a : Nat) : Exec Nat :=
  if a < 2 ^ width then pure a else leaves mode .narrowing (a % 2 ^ width)

omit mode width

def div (a b : Nat) : Exec Nat :=
  if b = 0 then Program.fault .divisionByZero else pure (a / b)

def rem (a b : Nat) : Exec Nat :=
  if b = 0 then Program.fault .divisionByZero else pure (a % b)

variable {mode : Arithmetic} {width : Nat} {a b : Nat}

theorem add_of_lt (h : a + b < 2 ^ width) : add mode width a b = pure (a + b) := if_pos h

theorem sub_of_le (h : b ≤ a) : sub mode width a b = pure (a - b) := if_pos h

theorem mul_of_lt (h : a * b < 2 ^ width) : mul mode width a b = pure (a * b) := if_pos h

theorem cast_of_lt (h : a < 2 ^ width) : cast mode width a = pure a := if_pos h

theorem div_of_pos (h : 0 < b) : div a b = pure (a / b) := if_neg (Nat.pos_iff_ne_zero.mp h)

theorem rem_of_pos (h : 0 < b) : rem a b = pure (a % b) := if_neg (Nat.pos_iff_ne_zero.mp h)

end Numbers

/-! ### Where records end -/

def endsRound (find : RawFind) (data : Bytes) (found : List Nat × Nat) :
    Exec (Round (List Nat × Nat) (List Nat)) :=
  match find (data.drop found.2) with
  | none => pure (.done found.1)
  | some len => pure (.again (found.1 ++ [found.2 + len], found.2 + len))

/-- `record::ends`: where each record in `data` ends, in order. -/
def ends (find : RawFind) (data : Bytes) : Exec (List Nat) :=
  Program.loop (endsRound find data) ([], 0)

def count (find : RawFind) (data : Bytes) : Exec Nat := do
  let found ← ends find data
  pure found.length

def endsWhole (find : RawFind) (data : Bytes) : Exec Bool := do
  let found ← ends find data
  pure (found.getLast? == some data.length)

/-! ### The window -/

def walkRound (find : RawFind) (held : Bytes) (want : Option Nat) (walked : Nat × Nat) :
    Exec (Round (Nat × Nat) (Nat × Nat)) :=
  if want.all fun want => decide (walked.2 < want) then
    match find (held.drop walked.1) with
    | some found => pure (.again (walked.1 + found, walked.2 + 1))
    | none => pure (.done walked)
  else pure (.done walked)

/-- `Window::walk`. -/
def walk (find : RawFind) (w : Window) (want : Option Nat) : Exec (Nat × Nat) :=
  Program.loop (walkRound find w.remainder want) (0, 0)

def nextRound (find : RawFind) (w : Window) : Exec (Round Window (Option Run × Window)) := do
  let walked ← walk find w none
  if walked.2 > 0 then
    pure (.done
      (some { start := w.pos, len := walked.1, count := walked.2 },
        { w with pos := w.pos + walked.1, walked := w.walked + walked.2, onBoundary := true }))
  else
    match w.growIfFull.refill with
    | (.ok true, w) => pure (.again w)
    | (.ok false, w) => pure (.done (none, w))
    | (.error e, _) => Program.fail e

/-- `Records::next` of a walk to the end that nothing watches. -/
def next (find : RawFind) (w : Window) : Exec (Option Run × Window) :=
  Program.loop (nextRound find) w

def countRound (find : RawFind) (counted : Nat × Window) :
    Exec (Round (Nat × Window) (Nat × Window)) := do
  let handed ← next find counted.2
  match handed with
  | (none, w) => pure (.done (counted.1, w))
  | (some run, w) => pure (.again (counted.1 + run.count, w))

/-- `count_records` of such a walk. -/
def countRecords (find : RawFind) (w : Window) : Exec (Nat × Window) :=
  Program.loop (countRound find) (0, w)

/-! ### The stream -/

section Stream

variable {R : Type} [Read R]

omit [Read R] in
/-- `Stream::next_end`. -/
def nextEnd (find : RawFind) (stream : Stream R) : Option (Nat × Stream R) :=
  match find (stream.buf.drop stream.lastEnd) with
  | none => none
  | some found =>
      some (stream.lastEnd + found, { stream with lastEnd := stream.lastEnd + found })

omit [Read R] in
def scanRound (find : RawFind) (cutter : Cutter R) :
    Exec (Round (Cutter R) (Option Nat × Cutter R)) :=
  match nextEnd find cutter.stream with
  | none => pure (.done (none, cutter))
  | some (ended, stream) =>
      let cutter := { cutter with stream := stream, found := cutter.found + 1 }
      if cutter.found = cutter.records then pure (.done (some ended, cutter))
      else pure (.again cutter)

omit [Read R] in
/-- The inner loop of `next_group`: the records that end in the buffer, up to the one that fills
the group. -/
def scanGroup (find : RawFind) (cutter : Cutter R) : Exec (Option Nat × Cutter R) :=
  Program.loop (scanRound find) cutter

def groupRound (find : RawFind) (cutter : Cutter R) :
    Exec (Round (Cutter R) (Option Nat × Cutter R)) := do
  let scanned ← scanGroup find cutter
  match scanned with
  | (some ended, cutter) => pure (.done (some ended, cutter))
  | (none, cutter) =>
      match cutter.stream.fill with
      | .error e => Program.fail e
      | .ok (false, stream) => pure (.done (none, { cutter with stream := stream }))
      | .ok (true, stream) => pure (.again { cutter with stream := stream })

/-- `Cutter::next_group`. -/
def nextGroup (find : RawFind) (cutter : Cutter R) : Exec (Option Nat × Cutter R) :=
  Program.loop (groupRound find)
    (if cutter.found = cutter.records then
      { cutter with stream := cutter.stream.dropToLastEnd, found := 0 }
    else cutter)

end Stream

end Exec

end SeekZstdSep
