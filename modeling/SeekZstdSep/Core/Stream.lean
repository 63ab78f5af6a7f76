/-
Module: SeekZstdSep.Core.Stream
Purpose: The buffered record scan of `record.rs` that every grouping of a stream is made of, and
  the cutter of `edit.rs` that groups one into exactly so many records at a time.
Trusted boundary: none
Main exports: Stream, Cutter, Cutter.nextGroup
-/
import SeekZstdSep.Core.Record

namespace SeekZstdSep

open Lib

/-- The buffer a record scan walks, and the source it is filled from. -/
structure Stream (R : Type) where
  source : R
  buf : Bytes := []
  /-- Where the last record found ends, which is where the next scan starts. -/
  lastEnd : Nat := 0

namespace Stream

variable {R : Type} [Read R]

/-- Reads once into the buffer. `false` once the source is spent. -/
def fill (stream : Stream R) : Except Error (Bool × Stream R) :=
  match Read.read stream.source readBufSize with
  | .error e => .error e
  | .ok (bytes, source) =>
      if bytes.length = 0 then .ok (false, { stream with source := source })
      else .ok (true, { stream with source := source, buf := stream.buf ++ bytes })

omit [Read R]

/-- Where the next record ends, counted from the start of the buffer. -/
def nextEnd (find : Finder UInt8) (stream : Stream R) : Option (Nat × Stream R) :=
  match find (stream.buf.drop stream.lastEnd) with
  | none => none
  | some found =>
      some (stream.lastEnd + found, { stream with lastEnd := stream.lastEnd + found })

/-- How much has been read past the last record end. -/
def unscanned (stream : Stream R) : Nat := stream.buf.length - stream.lastEnd

/-- Drops everything up to the last record end. -/
def dropToLastEnd (stream : Stream R) : Stream R :=
  { stream with buf := stream.buf.drop stream.lastEnd, lastEnd := 0 }

/-- Everything buffered, leaving the stream empty. -/
def takeBuffered (stream : Stream R) : Bytes × Stream R :=
  (stream.buf, { stream with buf := [], lastEnd := 0 })

/-- Drops the first `upto` bytes, moving the last record end back with them. -/
def dropFront (stream : Stream R) (upto : Nat) : Stream R :=
  { stream with buf := stream.buf.drop upto, lastEnd := stream.lastEnd - upto }

end Stream

/-- Cuts a stream into groups of exactly `records` records. -/
structure Cutter (R : Type) where
  stream : Stream R
  records : Nat
  found : Nat := 0

namespace Cutter

variable {R : Type} [Read R]

/-- A cutter over a source. -/
def new (source : R) (records : Nat) : Cutter R :=
  { stream := { source := source }, records := records }

omit [Read R] in
/-- The records that end in the buffer, up to the one that fills the group. -/
def scanFuel (find : Finder UInt8) : Nat → Cutter R → Option Nat × Cutter R
  | 0, cutter => (none, cutter)
  | fuel + 1, cutter =>
      match cutter.stream.nextEnd find with
      | none => (none, cutter)
      | some (ended, stream) =>
          let cutter := { cutter with stream := stream, found := cutter.found + 1 }
          if cutter.found = cutter.records then (some ended, cutter)
          else scanFuel find fuel cutter

def gatherFuel (find : Finder UInt8) : Nat → Cutter R → Except Error (Option Nat × Cutter R)
  | 0, _ => .error .fuel
  | fuel + 1, cutter =>
      match cutter.scanFuel find cutter.stream.unscanned with
      | (some ended, cutter) => .ok (some ended, cutter)
      | (none, cutter) =>
          match cutter.stream.fill with
          | .error e => .error e
          | .ok (false, stream) => .ok (none, { cutter with stream := stream })
          | .ok (true, stream) => gatherFuel find fuel { cutter with stream := stream }

/-- The next group, or `none` once what is left cannot fill one. -/
def nextGroup (find : Finder UInt8) (cutter : Cutter R) : Except Error (Option Nat × Cutter R) :=
  let cutter :=
    if cutter.found = cutter.records then
      { cutter with stream := cutter.stream.dropToLastEnd, found := 0 }
    else cutter
  gatherFuel find (Read.budget cutter.stream.source + 1) cutter

omit [Read R] in
/-- The bytes that fill no group, leaving the cutter empty. -/
def takeRemainder (cutter : Cutter R) : Bytes × Cutter R :=
  (cutter.stream.takeBuffered.1, { cutter with stream := cutter.stream.takeBuffered.2 })

end Cutter

end SeekZstdSep
