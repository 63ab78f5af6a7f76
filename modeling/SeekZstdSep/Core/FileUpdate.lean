/-
Module: SeekZstdSep.Core.FileUpdate
Purpose: `copy_and_replace` of file_update.rs as the steps it takes, for any number of writers of
  one target that take theirs in any order. Each step may fail.
Trusted boundary: the file system, as `Directory` has it. A name is created exclusively, a rename
  takes the place of what was there, and a call that fails has done nothing, but that one which
  writes may have written anything to the file it writes to.
Main exports: FileName, Pc, Outcome, writerStep, Writers, Writers.step, Writers.run
-/
import SeekZstdSep.Lib.Cut
import SeekZstdSep.Lib.Directory
import SeekZstdSep.Core.Source

namespace SeekZstdSep

open Lib

/-- The target and the two files that are created beside it: `.lock.` and `.tmp.` in front of its
name. -/
inductive FileName where
  | target
  | lock
  | temp
deriving DecidableEq, Repr

/-- What the parent directory of the target holds. -/
abbrev Disk (Writer : Type) := Directory FileName Writer Bytes

/-- Where a call of `copy_and_replace` is: what it does next, and the files it has open. -/
inductive Pc where
  /-- `create_sibling` of the lock -/
  | called
  /-- `open_current` -/
  | locked
  /-- `original.metadata()` -/
  | opened (original : Nat)
  /-- `ops.create_copy` -/
  | described (original : Nat)
  /-- `ops.reflink` -/
  | created (original temp : Nat)
  /-- `ordinary_copy`, before it empties the copy -/
  | unlinked (original temp : Nat)
  /-- `io::copy`, so far into the original -/
  | copying (original temp pos : Nat)
  /-- `update` -/
  | copied (temp : Nat)
  /-- `preserve_metadata` -/
  | updated (temp : Nat)
  /-- `ops.replace` -/
  | preserved (temp : Nat)
  /-- `temp.close()`, of a call that fails -/
  | refused
  /-- the drop of `temp`, whose file has its new name -/
  | replaced
  /-- `lock.close()`, with what the call is to return -/
  | closing (ok : Bool)
  /-- what the call returned -/
  | done (ok : Bool)
deriving DecidableEq, Repr

/-- How the step goes: it returns, having moved one byte more than `count` where it moves bytes,
or it fails and leaves `left` in what it was writing. -/
inductive Outcome where
  | ok (count : Nat)
  | fail (left : Bytes)
deriving DecidableEq, Repr

section Step

variable {Writer : Type}

/-- One step of a call. -/
def writerStep (update : Bytes → Bytes) (writer : Writer) (outcome : Outcome) (disk : Disk Writer) :
    Pc → Disk Writer × Pc
  | .called =>
      match outcome with
      | .fail _ => (disk, .done false)
      | .ok _ =>
          match disk.createNew .lock writer [] with
          | none => (disk, .done false)
          | some (_, disk) => (disk, .locked)
  | .locked =>
      match outcome with
      | .fail _ => (disk, .closing false)
      | .ok _ =>
          match disk.entry .target with
          | none => (disk, .closing false)
          | some original => (disk, .opened original)
  | .opened original =>
      match outcome with
      | .fail _ => (disk, .closing false)
      | .ok _ => (disk, .described original)
  | .described original =>
      match outcome with
      | .fail _ => (disk, .closing false)
      | .ok _ =>
          match disk.createNew .temp writer [] with
          | none => (disk, .closing false)
          | some (temp, disk) => (disk, .created original temp)
  | .created original temp =>
      match outcome with
      | .fail left => (disk.write temp left, .unlinked original temp)
      | .ok _ => (disk.write temp (disk.content original), .copied temp)
  | .unlinked original temp =>
      match outcome with
      | .fail left => (disk.write temp left, .refused)
      | .ok _ => (disk.write temp [], .copying original temp 0)
  | .copying original temp pos =>
      match outcome with
      | .fail left => (disk.write temp left, .refused)
      | .ok count =>
          let bytes := ((disk.content original).drop pos).take (count + 1)
          if bytes = [] then (disk, .copied temp)
          else (disk.write temp (disk.content temp ++ bytes),
            .copying original temp (pos + bytes.length))
  | .copied temp =>
      match outcome with
      | .fail left => (disk.write temp left, .refused)
      | .ok _ => (disk.write temp (update (disk.content temp)), .updated temp)
  | .updated temp =>
      match outcome with
      | .fail _ => (disk, .refused)
      | .ok _ => (disk, .preserved temp)
  | .preserved _ =>
      match outcome with
      | .fail _ => (disk, .refused)
      | .ok _ =>
          match disk.rename .temp .target with
          | none => (disk, .refused)
          | some disk => (disk, .replaced)
  | .refused =>
      match outcome with
      | .fail _ => (disk, .closing false)
      | .ok _ => ((disk.remove .temp).getD disk, .closing false)
  | .replaced =>
      -- by then there is no file of that name, and the drop ignores that
      match outcome with
      | .fail _ => (disk, .closing true)
      | .ok _ => ((disk.remove .temp).getD disk, .closing true)
  | .closing ok =>
      match outcome with
      | .fail _ => (disk, .done false)
      | .ok _ =>
          match disk.remove .lock with
          | none => (disk, .done false)
          | some disk => (disk, .done ok)
  | .done ok => (disk, .done ok)

variable [DecidableEq Writer]

/-- The directory, where every writer is, and who has renamed a copy over the target so far, in
that order. -/
structure Writers (Writer : Type) where
  disk : Disk Writer
  pc : Writer → Pc
  renames : List Writer

namespace Writers

/-- Before anybody has called. -/
def start (disk : Disk Writer) : Writers Writer :=
  { disk := disk, pc := fun _ => .called, renames := [] }

/-- A writer takes its next step. -/
def step (update : Writer → Bytes → Bytes) (s : Writers Writer) (turn : Writer × Outcome) :
    Writers Writer :=
  let next := writerStep (update turn.1) turn.1 turn.2 s.disk (s.pc turn.1)
  { disk := next.1
    pc := Function.update s.pc turn.1 next.2
    renames := if next.2 = .replaced then s.renames ++ [turn.1] else s.renames }

/-- The writers take turns. -/
def run (update : Writer → Bytes → Bytes) (s : Writers Writer) (turns : List (Writer × Outcome)) :
    Writers Writer :=
  turns.foldl (step update) s

end Writers

end Step

end SeekZstdSep
