/-
Module: SeekZstdSep.Core.PluginEncode
Purpose: The plugin's `encode.rs` and the end of its `decode.rs`: writing records that end with the
  separator, one item at a time or through a writer that watches the tail, and taking the separator
  off again.
Trusted boundary: none
Main exports: Write, writeAll, ByteSink, terminate, writeRecord, writeRecords, Terminating, text,
  stripSeparator, recordsOfEnds
-/
import SeekZstdSep.Core.Record

namespace SeekZstdSep

open Lib

/-- `std::io::Write`: how much of the buffer a write takes, and the writer that is left. -/
class Write (W : Type) where
  write : W → Bytes → Except Error (Nat × W)
  flush : W → Except Error W

/-- The loop of `write_all`. The fuel is the length of the buffer. -/
def writeAllFuel {W : Type} [Write W] : Nat → W → Bytes → Except Error W
  | 0, sink, _ => .ok sink
  | fuel + 1, sink, buf =>
      if buf.isEmpty then .ok sink
      else
        match Write.write sink buf with
        | .error e => .error e
        | .ok (n, sink) =>
            if n = 0 then .error (.external "failed to write whole buffer")
            else writeAllFuel fuel sink (buf.drop n)

/-- `Write::write_all`: writes until nothing of the buffer is left. -/
def writeAll {W : Type} [Write W] (sink : W) (buf : Bytes) : Except Error W :=
  writeAllFuel buf.length sink buf

/-- A byte sink: what it took, for every write how much of the buffer it takes, or that it fails,
and whether it can be flushed. -/
structure ByteSink where
  schedule : Nat → Option Nat
  flushes : Bool := true
  written : Bytes := []
  tick : Nat := 0

instance : Write ByteSink where
  write sink buf :=
    match sink.schedule sink.tick with
    | none => .error (.external "write failed")
    | some wish =>
        let n := min wish buf.length
        .ok (n, { sink with written := sink.written ++ buf.take n, tick := sink.tick + 1 })
  flush sink := if sink.flushes then .ok sink else .error (.external "flush failed")

/-- Ends a record: writes `separator` unless `written` already ends with it. -/
def terminate {W : Type} [Write W] (sink : W) (written separator : Bytes) : Except Error W :=
  if separator.isSuffixOf written then .ok sink else writeAll sink separator

/-- Writes one record and the separator that ends it. -/
def writeRecord {W : Type} [Write W] (sink : W) (bytes separator : Bytes) : Except Error W :=
  match writeAll sink bytes with
  | .error e => .error e
  | .ok sink => terminate sink bytes separator

/-- The items of a list, one record each. -/
def writeRecords {W : Type} [Write W] (separator : Bytes) : W → List Bytes → Except Error W
  | sink, [] => Write.flush sink
  | sink, item :: items =>
      match writeRecord sink item separator with
      | .error e => .error e
      | .ok sink => writeRecords separator sink items

/-- A sink whose bytes end with `separator`, keeping only the tail that decides whether they do. -/
structure Terminating (W : Type) where
  sink : W
  separator : Bytes
  tail : Bytes := []
  wrote : Bool := false

namespace Terminating

variable {W : Type} [Write W]

/-- What a write that passed `written` on leaves of the tail. -/
def remember (separator tail written : Bytes) : Bytes :=
  if separator.length ≤ written.length then written.drop (written.length - separator.length)
  else (tail ++ written).drop ((tail ++ written).length - separator.length)

instance : Write (Terminating W) where
  write writer buf :=
    match Write.write writer.sink buf with
    | .error e => .error e
    | .ok (n, sink) =>
        let written := buf.take n
        if written.isEmpty then .ok (n, { writer with sink := sink })
        else
          .ok (n,
            { writer with
              sink := sink
              wrote := true
              tail := remember writer.separator writer.tail written })
  flush writer :=
    match Write.flush writer.sink with
    | .error e => .error e
    | .ok sink => .ok { writer with sink := sink }

/-- Ends the last record. An input that wrote nothing gets no separator. -/
def finish (writer : Terminating W) : Except Error W :=
  if writer.wrote then
    match terminate writer.sink writer.tail writer.separator with
    | .error e => .error e
    | .ok sink => Write.flush sink
  else Write.flush writer.sink

end Terminating

/-- An input that comes in pieces, each written whole. -/
def writePieces {W : Type} [Write W] : W → List Bytes → Except Error W
  | sink, [] => .ok sink
  | sink, piece :: pieces =>
      match writeAll sink piece with
      | .error e => .error e
      | .ok sink => writePieces sink pieces

/-- Writes the bytes of the input through, ending them with `separator`. -/
def text {W : Type} [Write W] (input : List Bytes) (separator : Bytes) (sink : W) :
    Except Error W :=
  match writePieces ({ sink := sink, separator := separator } : Terminating W) input with
  | .error e => .error e
  | .ok writer => writer.finish

/-- The record without the separator that ends it. -/
def stripSeparator (bytes separator : Bytes) : Bytes :=
  if separator.isSuffixOf bytes then bytes.take (bytes.length - separator.length) else bytes

/-- The records that end at `ends`, the first of which starts at `start`. -/
def recordsOfEnds (data : Bytes) : Nat → List Nat → List Bytes
  | _, [] => []
  | start, ended :: ends => (data.take ended).drop start :: recordsOfEnds data ended ends

end SeekZstdSep
