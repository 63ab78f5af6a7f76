/-
Module: SeekZstdSep.Core.FileLock
Purpose: `with_file_lock` of file_update.rs as the steps it takes, and writers of one target that go
  through it or through `copy_and_replace`, in any order of their steps. Each step may fail. An
  update writes to the file it is given in several steps, and may return an error behind them.
Trusted boundary: the file system, as `Directory` has it. A write that fails may have left anything
  in the file it writes to.
Main exports: Update, LockPc, lockStep, Place, Effect, Cooperation, Cooperation.step,
  Cooperation.run
-/
import SeekZstdSep.Core.FileUpdate

namespace SeekZstdSep

open Lib

/-- What an update does to the file it is given: what that holds after each of the writes, by what
it held before, and whether the update then returns `Ok`. -/
structure Update where
  writes : Bytes → List Bytes
  ok : Bytes → Bool

namespace Update

/-- What the file holds after all the writes. -/
def result (update : Update) (bytes : Bytes) : Bytes := (update.writes bytes).getLastD bytes

end Update

/-- Where a call of `with_file_lock` is. -/
inductive LockPc where
  /-- `create_sibling` of the lock -/
  | called
  /-- `open_current` -/
  | locked
  /-- `update`, that has made so many writes to the file it found to hold `before` -/
  | updating (original : Nat) (before : Bytes) (made : Nat)
  /-- `lock.close()`, with what the update returned -/
  | closing (ok : Bool)
  /-- what the call returned -/
  | done (ok : Bool)
deriving DecidableEq, Repr

section Step

variable {Writer : Type}

/-- One step of a call of `with_file_lock`. -/
def lockStep (update : Update) (writer : Writer) (outcome : Outcome) (disk : Disk Writer) :
    LockPc → Disk Writer × LockPc
  | .called =>
      match outcome with
      | .fail _ => (disk, .done false)
      | .ok _ =>
          match disk.createNew .lock writer [] with
          | none => (disk, .done false)
          | some (_, disk) => (disk, .locked)
  | .locked =>
      match outcome with
      | .fail _ => (disk, .closing false)
      | .ok _ =>
          match disk.entry .target with
          | none => (disk, .closing false)
          | some original => (disk, .updating original (disk.content original) 0)
  | .updating original before made =>
      match (update.writes before)[made]? with
      | none => (disk, .closing (update.ok before))
      | some bytes =>
          match outcome with
          | .fail left => (disk.write original left, .closing false)
          | .ok _ => (disk.write original bytes, .updating original before (made + 1))
  | .closing ok =>
      match outcome with
      | .fail _ => (disk, .done false)
      | .ok _ =>
          match disk.remove .lock with
          | none => (disk, .done false)
          | some disk => (disk, .done ok)
  | .done ok => (disk, .done ok)

/-- How the step of a `copy_and_replace` goes: the step that runs the update fails where the update
does, with what that has written in the copy. -/
def Update.outcome (update : Update) (disk : Disk Writer) : Pc → Outcome → Outcome
  | .copied temp, .ok count =>
      if update.ok (disk.content temp) then .ok count
      else .fail (update.result (disk.content temp))
  | _, outcome => outcome

/-- Where a writer is: in `copy_and_replace` or in `with_file_lock`. -/
inductive Place where
  | copying (pc : Pc)
  | inPlace (pc : LockPc)
deriving DecidableEq, Repr

/-- What has become of the target: the writes of an update, or what was left where one of them
failed. -/
inductive Effect (Writer : Type) where
  | ran (writer : Writer)
  | broke (writer : Writer) (left : Bytes)
deriving DecidableEq, Repr

/-- What a step of a `copy_and_replace` has made of the target, by where it leads. -/
def copyEffect (writer : Writer) (pc : Pc) : List (Effect Writer) :=
  if pc = .replaced then [.ran writer] else []

/-- What a step of a `with_file_lock` has made of the target where it is the last of its update. -/
def lockEffect (update : Update) (writer : Writer) (outcome : Outcome) :
    LockPc → List (Effect Writer)
  | .updating _ before made =>
      match (update.writes before)[made]? with
      | none => [.ran writer]
      | some _ =>
          match outcome with
          | .fail left => [.broke writer left]
          | .ok _ => []
  | _ => []

variable [DecidableEq Writer]

/-- The directory, where every writer is, and what has become of the target so far, in order. -/
structure Cooperation (Writer : Type) where
  disk : Disk Writer
  place : Writer → Place
  effects : List (Effect Writer)

namespace Cooperation

/-- Before anybody has called: who is going to call what. -/
def start (disk : Disk Writer) (copies : Writer → Bool) : Cooperation Writer :=
  { disk := disk
    place := fun writer => if copies writer then .copying .called else .inPlace .called
    effects := [] }

/-- A writer takes its next step. -/
def step (updates : Writer → Update) (s : Cooperation Writer) (turn : Writer × Outcome) :
    Cooperation Writer :=
  let update := updates turn.1
  match s.place turn.1 with
  | .copying pc =>
      let next := writerStep update.result turn.1 (update.outcome s.disk pc turn.2) s.disk pc
      { disk := next.1
        place := Function.update s.place turn.1 (.copying next.2)
        effects := s.effects ++ copyEffect turn.1 next.2 }
  | .inPlace pc =>
      let next := lockStep update turn.1 turn.2 s.disk pc
      { disk := next.1
        place := Function.update s.place turn.1 (.inPlace next.2)
        effects := s.effects ++ lockEffect update turn.1 turn.2 pc }

/-- The writers take turns. -/
def run (updates : Writer → Update) (s : Cooperation Writer) (turns : List (Writer × Outcome)) :
    Cooperation Writer :=
  turns.foldl (step updates) s

end Cooperation

end Step

end SeekZstdSep
