/-
Module: SeekZstdSep.Core.SharedFile
Purpose: What readers of one open file share. The readers that are reused read it at an offset, each
  through a source with a position of its own; the reader they were made of reads it where its
  handle stands. Others may edit the file in place meanwhile.
Trusted boundary: what the system does when a file is read and sought. A read hands out between one
  byte and the bytes asked for, and nothing only at the end; on Windows a read at an offset moves
  the handle as well.
Main exports: Platform, OpenFile, OpenSource, SharedEvent, SharedReaders.traceOf
-/
import SeekZstdSep.Core.ExecReader
import SeekZstdSep.Lib.Tape

namespace SeekZstdSep

open Lib

/-- Which of the two `#[cfg]` bodies is compiled. -/
inductive Platform where
  | unix
  | windows
deriving Repr, DecidableEq

/-- `i64::MAX`, which no position of a file is behind. -/
def i64Max : Nat := 2 ^ 63 - 1

/-- A file that is open: what it holds, and where its handles read on. A clone of a handle stands
where the handle does. -/
structure OpenFile where
  bytes : Bytes
  cursor : Nat := 0
deriving Repr, DecidableEq

namespace OpenFile

/-- Up to `want` bytes from where the handle stands. `none` is a read that fails. -/
def read (file : OpenFile) (want : Nat) (wish : Option Nat) : Except Error Bytes × OpenFile :=
  match wish with
  | none => (.error (.external "read failed"), file)
  | some wish =>
      let n := shortRead wish (min want (file.bytes.length - file.cursor))
      (.ok ((file.bytes.drop file.cursor).take n), { file with cursor := file.cursor + n })

def seek (file : OpenFile) (place : SeekFrom) : Except Error Nat × OpenFile :=
  let target := place.target file.bytes.length file.cursor
  if target < 0 ∨ (i64Max : Int) < target then (.error (.external "invalid argument"), file)
  else (.ok target.toNat, { file with cursor := target.toNat })

/-- `read_at` on Unix, `seek_read` on Windows. -/
def readAt (platform : Platform) (file : OpenFile) (offset want : Nat) (wish : Option Nat) :
    Except Error Bytes × OpenFile :=
  match wish with
  | none => (.error (.external "read failed"), file)
  | some wish =>
      let n := shortRead wish (min want (file.bytes.length - offset))
      (.ok ((file.bytes.drop offset).take n),
        match platform with
        | .unix => file
        | .windows => { file with cursor := offset + n })

end OpenFile

/-- A `FrameSource` that is read: its file is the one all share, and was that of `file` when it was
opened. -/
structure OpenSource extends FrameSource where
  pos : Nat := 0

namespace OpenSource

/-- Where a read from `pos` stops: at the end of the first frame in front of that. -/
def stopAt (source : FrameSource) (pos : Nat) : Nat :=
  (source.firstFrameLen.filter fun stop => pos < stop).getD source.len

def read (platform : Platform) (source : OpenSource) (file : OpenFile) (want : Nat)
    (wish : Option Nat) : Except Error Bytes × OpenSource × OpenFile :=
  let available := min (stopAt source.toFrameSource source.pos - source.pos) want
  if available = 0 then (.ok [], source, file)
  else if usizeMax < source.base + source.pos then
    (.error (.external "file position overflow"), source, file)
  else
    match file.readAt platform (source.base + source.pos) available wish with
    | (.error e, file) => (.error e, source, file)
    | (.ok bytes, file) => (.ok bytes, { source with pos := source.pos + bytes.length }, file)

def seek (source : OpenSource) (place : SeekFrom) : Except Error Nat × OpenSource :=
  let target := place.target source.len source.pos
  if target < 0 ∨ (usizeMax : Int) < target then
    (.error (.external "invalid file position"), source)
  else (.ok target.toNat, { source with pos := target.toNat })

end OpenSource

/-- What happens around an open file: a source is read or sought, its handle is, or an edit in place
comes to leave the file as it says. `wish` is what the system has a read hand out. -/
inductive SharedEvent (Index : Type) where
  | source (i : Index) (call : TapeCall) (wish : Option Nat)
  | handle (call : TapeCall) (wish : Option Nat)
  | edited (bytes : Bytes)

/-- The open file and the sources over it. -/
structure SharedReaders (Index : Type) where
  file : OpenFile
  sources : Index → OpenSource

namespace SharedReaders

variable {Index : Type}

/-- The answer of the handle. -/
def callHandle (file : OpenFile) (call : TapeCall) (wish : Option Nat) :
    Except Error (TapeAnswer UInt8) × OpenFile :=
  match call with
  | .read want => ((file.read want wish).1.map .handed, (file.read want wish).2)
  | .seek place => ((file.seek place).1.map .isAt, (file.seek place).2)

/-- The answer of a source. -/
def callSource (platform : Platform) (source : OpenSource) (file : OpenFile) (call : TapeCall)
    (wish : Option Nat) : Except Error (TapeAnswer UInt8) × OpenSource × OpenFile :=
  match call with
  | .read want =>
      let read := source.read platform file want wish
      (read.1.map .handed, read.2)
  | .seek place => ((source.seek place).1.map .isAt, (source.seek place).2, file)

variable [DecidableEq Index]

/-- What an event leaves, with who was called and how that was answered; `none` is the handle. -/
def step (platform : Platform) (shared : SharedReaders Index) :
    SharedEvent Index →
      Option (Option Index × TapeCall × Except Error (TapeAnswer UInt8)) × SharedReaders Index
  | .source i call wish =>
      let called := callSource platform (shared.sources i) shared.file call wish
      (some (some i, call, called.1),
        { file := called.2.2, sources := Function.update shared.sources i called.2.1 })
  | .handle call wish =>
      let called := callHandle shared.file call wish
      (some (none, call, called.1), { shared with file := called.2 })
  | .edited bytes => (none, { shared with file := { shared.file with bytes := bytes } })

/-- The calls of one of them over some events, with their answers. -/
def traceOf (platform : Platform) (who : Option Index) :
    SharedReaders Index → List (SharedEvent Index) → Trace UInt8 Error
  | _, [] => []
  | shared, event :: events =>
      let stepped := shared.step platform event
      let rest := traceOf platform who stepped.2 events
      match stepped.1 with
      | some (caller, call, answer) => if caller = who then (call, answer) :: rest else rest
      | none => rest

end SharedReaders

end SeekZstdSep
