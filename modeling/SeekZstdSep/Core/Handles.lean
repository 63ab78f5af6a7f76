/-
Module: SeekZstdSep.Core.Handles
Purpose: The plugin's `lib.rs` and `handle.rs`: the open files behind a handle, read as one sequence
  of records, and the table that keeps them between calls.
Trusted boundary: what opening a path comes to, given for every open as a parameter.
Main exports: ReadRecords, FinderSpec, OpenFiles, OpenFiles.record, OpenFiles.total, Handle, State,
  State.openCommand, State.withFiles, State.dropped, streamRecords
-/
import SeekZstdSep.Core.Reader

namespace SeekZstdSep

/-- What the plugin asks of a `RecordReader`. -/
class ReadRecords (R : Type) where
  record : R → Nat → Except Error (Option Bytes) × R
  totalRecords : R → Except Error Nat × R

instance : ReadRecords RecordReader where
  record := RecordReader.record
  totalRecords := RecordReader.totalRecords

/-- What an operation of the plugin fails with. The last two stand for panics. -/
inductive PluginError where
  /-- "cannot read {path}", or "--finder {} cannot be used" -/
  | cannotOpen (e : Error)
  /-- "cannot count the records" -/
  | cannotCount (e : Error)
  /-- "cannot read record {index}" -/
  | cannotReadRecord (index : Nat) (e : Error)
  | outOfBounds
  | underflow
deriving Repr, DecidableEq

/-- Where a record ends, as `--finder` and `--finder-arg` name it. -/
structure FinderSpec where
  finder : String
  arg : Option String
deriving Repr, DecidableEq

/-- The open files behind one handle, and which handle they belong to. -/
structure OpenFiles (P R : Type) where
  readers : List R
  paths : List P
  finder : FinderSpec
  /-- How many records the files up to each one hold, for as many as have been counted. -/
  counted : List Nat := []

namespace OpenFiles

variable {P R : Type} [ReadRecords R]

/-- The loop of `counted_upto`: counts so many more files. -/
def countFuel : Nat → OpenFiles P R → Except PluginError Unit × OpenFiles P R
  | 0, files => (.ok (), files)
  | fuel + 1, files =>
      let next := files.counted.length
      match files.readers[next]? with
      | none => (.error .outOfBounds, files)
      | some reader =>
          let total := ReadRecords.totalRecords reader
          let files := { files with readers := files.readers.set next total.2 }
          match total.1 with
          | .error e => (.error (.cannotCount e), files)
          | .ok records =>
              let before := files.counted.getLast?.getD 0
              countFuel fuel { files with counted := files.counted ++ [before + records] }

/-- How many records the files up to and including `i` hold, counting the ones not counted yet. -/
def countedUpto (files : OpenFiles P R) (i : Nat) : Except PluginError Nat × OpenFiles P R :=
  match files.countFuel (i + 1 - files.counted.length) with
  | (.error e, files) => (.error e, files)
  | (.ok (), files) =>
      match files.counted[i]? with
      | none => (.error .outOfBounds, files)
      | some upto => (.ok upto, files)

/-- The loop of `record` from file `i` on, which `before` records come before, with `left` files to
go before the last one: the file the record is in, and how many records come before that. -/
def placeFrom (index : Nat) :
    Nat → Nat → Nat → OpenFiles P R → Except PluginError (Nat × Nat) × OpenFiles P R
  | 0, i, before, files => (.ok (i, before), files)
  | left + 1, i, before, files =>
      match files.countedUpto i with
      | (.error e, files) => (.error e, files)
      | (.ok upto, files) =>
          if index < upto then (.ok (i, before), files)
          else placeFrom index left (i + 1) upto files

/-- The record at `index` of the files read as one sequence. -/
def record (files : OpenFiles P R) (index : Nat) :
    Except PluginError (Option Bytes) × OpenFiles P R :=
  match subUsize true files.readers.length 1 with
  | none => (.error .underflow, files)
  | some last =>
      match files.placeFrom index last 0 0 with
      | (.error e, files) => (.error e, files)
      | (.ok (file, before), files) =>
          match files.readers[file]?, subUsize true index before with
          | none, _ => (.error .outOfBounds, files)
          | _, none => (.error .underflow, files)
          | some reader, some inFile =>
              let answer := ReadRecords.record reader inFile
              let files := { files with readers := files.readers.set file answer.2 }
              match answer.1 with
              | .error e => (.error (.cannotReadRecord index e), files)
              | .ok found => (.ok found, files)

/-- How many records all of the files hold together. -/
def total (files : OpenFiles P R) : Except PluginError Nat × OpenFiles P R :=
  match subUsize true files.readers.length 1 with
  | none => (.error .underflow, files)
  | some last => files.countedUpto last

end OpenFiles

/-- Every record of some iterators in the order they were named: what `--no-partial` returns. -/
def streamRecords : Nat → List RecordIter → List (Except Error Bytes)
  | 0, _ => []
  | _ + 1, [] => []
  | fuel + 1, it :: its =>
      match it.next with
      | (none, _) => streamRecords fuel its
      | (some record, it) => record :: streamRecords fuel (it :: its)

/-! ### The table -/

/-- The value `zstdsep open` hands back: an index into the table, and everything needed to rebuild
that entry. -/
structure Handle (P : Type) where
  id : Nat
  paths : List P
  finder : FinderSpec
  format : Option String := none

/-- Whether the handle was made for `paths` read with `finder`. -/
def Handle.refersTo {P : Type} [DecidableEq P] (handle : Handle P) (paths : List P)
    (finder : FinderSpec) : Bool :=
  handle.paths = paths ∧ handle.finder = finder

/-- What each open of a path comes to, counted over all of them: the files, and whether they can be
read, change as they like. -/
abbrev Opener (P R : Type) := Nat → P → FinderSpec → Except Error R

/-- The open files, keyed by the id their handles carry. -/
structure State (P R : Type) where
  nextId : Nat
  readers : Nat → Option (OpenFiles P R) := fun _ => none
  /-- How many paths were opened. -/
  tick : Nat := 0

namespace State

variable {P R : Type} (opener : Opener P R)

/-- Opens each path in order, up to the first that cannot be. -/
def openAll (finder : FinderSpec) : Nat → List P → Except PluginError (List R) × Nat
  | tick, [] => (.ok [], tick)
  | tick, path :: paths =>
      match opener tick path finder with
      | .error e => (.error (.cannotOpen e), tick + 1)
      | .ok reader =>
          match openAll finder (tick + 1) paths with
          | (.error e, tick) => (.error e, tick)
          | (.ok readers, tick) => (.ok (reader :: readers), tick)

/-- The table with `files` under `id`. -/
def insert (state : State P R) (id : Nat) (files : OpenFiles P R) : State P R :=
  { state with readers := fun i => if i = id then some files else state.readers i }

/-- Takes the open files into the table and returns the id their handle will carry. -/
def register (state : State P R) (paths : List P) (finder : FinderSpec) (readers : List R) :
    Nat × State P R :=
  (state.nextId,
    { state.insert state.nextId { readers := readers, paths := paths, finder := finder } with
      nextId := (state.nextId + 1) % 2 ^ 64 })

/-- `zstdsep open`: the sources are built with one finder and opened before they are registered. -/
def openCommand (state : State P R) (paths : List P) (finder : FinderSpec)
    (format : Option String) : Except PluginError (Handle P) × State P R :=
  match openAll opener finder state.tick paths with
  | (.error e, tick) => (.error e, { state with tick := tick })
  | (.ok readers, tick) =>
      let registered := { state with tick := tick }.register paths finder readers
      (.ok { id := registered.1, paths := paths, finder := finder, format := format },
        registered.2)

/-- Opens what `handle` refers to, ready to go into the table under its id. -/
def openFor (tick : Nat) (handle : Handle P) : Except PluginError (OpenFiles P R) × Nat :=
  match openAll opener handle.finder tick handle.paths with
  | (.error e, tick) => (.error e, tick)
  | (.ok readers, tick) =>
      (.ok { readers := readers, paths := handle.paths, finder := handle.finder }, tick)

/-- The entry under the handle's id, where it is one of the handle. -/
def entryOf [DecidableEq P] (state : State P R) (handle : Handle P) : Option (OpenFiles P R) :=
  (state.readers handle.id).filter fun files => handle.refersTo files.paths files.finder

/-- Runs `f` against the open files behind `handle`, opening them first if the table has none, or
others under its id. -/
def withFiles [DecidableEq P] {α : Type} (state : State P R) (handle : Handle P)
    (f : OpenFiles P R → Except PluginError α × OpenFiles P R) :
    Except PluginError α × State P R :=
  match state.entryOf handle with
  | some files =>
      let result := f files
      (result.1, state.insert handle.id result.2)
  | none =>
      match openFor opener state.tick handle with
      | (.error e, tick) => (.error e, { state with tick := tick })
      | (.ok files, tick) =>
          let result := f files
          (result.1, { state with tick := tick }.insert handle.id result.2)

/-- The handle went out of scope: its entry is removed, whatever handle it is of. -/
def dropped (state : State P R) (handle : Handle P) : State P R :=
  { state with readers := fun i => if i = handle.id then none else state.readers i }

end State

end SeekZstdSep
