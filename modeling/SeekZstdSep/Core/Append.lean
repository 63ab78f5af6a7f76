/-
Module: SeekZstdSep.Core.Append
Purpose: `edit.rs`: appending records. What is established before the target is cut, the first
  group, which holds the records the target has nowhere else, and the rewrite behind the cut.
Trusted boundary: none
Main exports: AppendResult, AppendOptions, appendRecordsInner, appendRecordsWithOpts
-/
import SeekZstdSep.Core.Edit
import SeekZstdSep.Core.Stream

namespace SeekZstdSep

open Lib

/-- What to do with a file that ends in a fragment rather than in a record. -/
inductive OnMissingSeparator where
  | refuse
  | insert
deriving Repr, DecidableEq

/-- State returned by an append for a subsequent one to the same unchanged file. -/
structure AppendResult where
  recordsPerFrame : Nat
  countValidated : Bool
  frameCount : Nat
  lastFrame : Nat
  lastComp : Nat
  lastDecomp : Nat
  lastRecords : Option Nat
  lastWhole : Bool
  checksum : Bool
deriving Repr, DecidableEq

namespace AppendResult

def lastFrameRecords (result : AppendResult) : Option Nat := result.lastRecords

def «matches» (result : AppendResult) (table : SeekTable) (last : Nat) : Bool :=
  result.frameCount == table.length && result.lastFrame == last &&
    result.lastComp == table.frameSizeComp last &&
    result.lastDecomp == table.frameSizeDecomp last

/-- The count and the wholeness of the last frame, where the result knows them. -/
def lastState (result : AppendResult) : Option (Nat × Bool) :=
  result.lastRecords.map fun count => (count, result.lastWhole)

end AppendResult

/-- Controls append behaviour. When no finder is set, the supplied separator is used. -/
structure AppendOptions where
  previous : Option AppendResult := none
  finder : Option (Finder UInt8) := none
  trustRecordsPerFrame : Bool := false

/-- Confirms that each of some frames holds `n` whole records and no fragment. -/
def mustContain (find : Finder UInt8) (n : Nat) :
    FrameReader → List Nat → Except Error FrameReader
  | reader, [] => .ok reader
  | reader, index :: indices =>
      match walkFrame find reader index with
      | .error e => .error e
      | .ok ((count, whole), reader) =>
          if count ≠ n ∨ !whole then .error (.mustContain index n count whole)
          else mustContain find n reader indices

/-- Checks a supplied count against frame 0 and the last frame not allowed to be short. -/
def validateRecordsPerFrame (find : Finder UInt8) (reader : FrameReader) (last n : Nat) :
    Except Error FrameReader :=
  mustContain find n reader ([0, last - 1].take (if 1 < last then 2 else last))

/-- What an append knows of the target before it reads any data. -/
structure AppendTarget where
  table : SeekTable
  last : Nat
  reader : FrameReader
  previous : Option AppendResult
  countValidated : Bool
  n : Nat

/-- The previous result, where it describes the target and has the count asked for. -/
def fittingResult (table : SeekTable) (last : Nat) (records : Option Nat)
    (previous : Option AppendResult) : Option AppendResult :=
  previous.filter fun result =>
    result.matches table last && records.all (· == result.recordsPerFrame)

/-- Opens the target, takes the previous result where it still fits, and settles the records per
frame. -/
def appendTarget (zeek : Zeekstd) (f : File) (find : Finder UInt8) (records : Option Nat)
    (trust : Bool) (previous : Option AppendResult) : Except Error AppendTarget :=
  if trust ∧ records = none then .error .trustWithoutCount
  else if records = some 0 then .error .zeroRecordsPerFrame
  else
    match zeek.fromSeekable f.bytes with
    | .error e => .error e
    | .ok table =>
        if table.length = 0 then .error .noDataFrames
        else
          match lastDataFrame table with
          | .error e => .error e
          | .ok last =>
              let reader := FrameReader.new zeek f table
              let previous := fittingResult table last records previous
              let target : AppendTarget :=
                { table := table, last := last, reader := reader, previous := previous, n := 0
                  countValidated := !trust || previous.any (·.countValidated) }
              match records with
              | some n =>
                  if table.frameSizeDecomp last = 0 then .error .noDataFrames
                  else if !trust && !previous.any (·.countValidated) then
                    match validateRecordsPerFrame find reader last n with
                    | .error e => .error e
                    | .ok reader => .ok { target with reader := reader, n := n }
                  else .ok { target with n := n }
              | none =>
                  match previous.filter (·.countValidated) with
                  | some result => .ok { target with n := result.recordsPerFrame }
                  | none =>
                      match validateSeparator find reader with
                      | .error e => .error e
                      | .ok (n, reader) => .ok { target with reader := reader, n := n }

/-- Gathers the first bytes of the data until a magic number could be told. -/
def readHeadFuel {R : Type} [Read R] : Nat → Bytes → R → Except Error (Bytes × R)
  | 0, _, _ => .error .fuel
  | fuel + 1, head, data =>
      if head.length < zstdMagic.length then
        match Read.read data (readBufSize - head.length) with
        | .error e => .error e
        | .ok (bytes, data) =>
            if bytes.length = 0 then .ok (head, data) else readHeadFuel fuel (head ++ bytes) data
      else .ok (head, data)

def readHead {R : Type} [Read R] (data : R) : Except Error (Bytes × R) :=
  readHeadFuel (zstdMagic.length + 1) [] data

/-- What an append of nothing returns. -/
def AppendTarget.nothing (target : AppendTarget) : AppendResult :=
  match target.previous with
  | some result =>
      { result with recordsPerFrame := target.n, countValidated := target.countValidated }
  | none =>
      { recordsPerFrame := target.n
        countValidated := target.countValidated
        frameCount := target.table.length
        lastFrame := target.last
        lastComp := target.table.frameSizeComp target.last
        lastDecomp := target.table.frameSizeDecomp target.last
        lastRecords := none
        lastWhole := false
        checksum := false }

/-! ### The join -/

/-- Whether a frame ends with a content checksum, read from its header. -/
def frameHasChecksum (f : File) (table : SeekTable) (index : Nat) : Except Error Bool :=
  let head := (f.bytes.drop (table.frameStartComp index)).take 5
  if head.length < 5 then .error (.external "failed to fill whole buffer")
  else if head.take 4 ≠ zstdMagic then .error (.noMagic index)
  else .ok (headerChecksum head)

namespace AppendTarget

/-- The state of the last frame, where the previous append left it. -/
def known (target : AppendTarget) : Option (Nat × Bool) :=
  target.previous.bind AppendResult.lastState

def checksum (target : AppendTarget) (f : File) : Except Error Bool :=
  match target.previous.bind fun result => result.lastRecords.map fun _ => result.checksum with
  | some checksum => .ok checksum
  | none => frameHasChecksum f target.table target.last

/-- Whether the previous append left the last frame full, which then is not read. -/
def previouslyFull (target : AppendTarget) : Bool :=
  target.known.any fun state => state.1 == target.n && state.2

/-- The bytes of the last frame, and nothing where they are not needed. -/
def tail (target : AppendTarget) : Except Error Bytes :=
  if target.previouslyFull then .ok []
  else
    match target.reader.readFrame target.last with
    | .error e => .error e
    | .ok (tail, _) => .ok tail

/-- How many whole records the last frame holds, and whether it ends with one. -/
def oldState (target : AppendTarget) (find : Finder UInt8) (tail : Bytes) : Nat × Bool :=
  match target.known with
  | some state => state
  | none => (count find tail, (ends find tail).getLastD 0 == tail.length)

end AppendTarget

/-- Ends the fragment the file ends with, or refuses to. An `insert` without a separator does not
come here: it is refused first. -/
def endFragment (find : Finder UInt8) (separator : Option Bytes) (onMissing : OnMissingSeparator)
    (tail : Bytes) (oldWhole : Bool) : Except Error (Bytes × Bool) :=
  if oldWhole then .ok (tail, false)
  else
    match onMissing with
    | .refuse => .error .endsInFragment
    | .insert =>
        let tail := tail ++ separator.getD []
        if !endsWhole find tail then .error .separatorOverlapsItself else .ok (tail, true)

/-- The bytes that go in front of the rest of the data, and where they go. -/
structure Join where
  tail : Bytes
  checksum : Bool
  preserveLast : Bool
deriving Repr, DecidableEq

/-- Everything an append establishes from the first bytes of its data on, up to the groups. -/
def appendJoin (target : AppendTarget) (f : File) (find : Finder UInt8)
    (separator : Option Bytes) (onMissing : OnMissingSeparator) (trust : Bool) (head : Bytes) :
    Except Error Join :=
  if head.take 4 = zstdMagic then .error .zstdAsRecords
  else
    match target.checksum f with
    | .error e => .error e
    | .ok checksum =>
        match target.tail with
        | .error e => .error e
        | .ok tail =>
            let old := target.oldState find tail
            match endFragment find separator onMissing tail old.2 with
            | .error e => .error e
            | .ok (tail, inserted) =>
                let count := if inserted then count find tail else old.1
                if trust ∧ !target.previouslyFull ∧ target.n < count then
                  .error (.lastFrameExceeds count target.n)
                else
                  let preserveLast := old.2 && old.1 == target.n
                  .ok {
                    tail := (if preserveLast then [] else tail) ++ head
                    checksum := checksum
                    preserveLast := preserveLast }

/-! ### The rewrite -/

/-- Compresses `data` as a single frame. -/
def encodeFrame (zeek : Zeekstd) (data : Bytes) (checksum : Bool) (level : Int) :
    Except Error (Stored zeek.toFrameFormat) :=
  let encoder : Encoder zeek := { checksum := checksum, level := level }
  match (encoder.write data).endFrame with
  | .error e => .error e
  | .ok encoder =>
      match encoder.ended with
      | [frame] => .ok frame
      | frames => .error (.reencodedFrames data.length frames.length)

/-- The first frame that replaces something, whether it is a whole group, and the state it leaves
the last frame in. -/
structure FirstGroup (zeek : Zeekstd) (R : Type) where
  frame : Stored zeek.toFrameFormat
  whole : Bool
  lastRecords : Nat
  lastWhole : Bool
  cutter : Cutter (Chain R)

variable {R : Type} [Read R]

/-- Compresses the first group before anything is cut. -/
def appendFirst (zeek : Zeekstd) (find : Finder UInt8) (n : Nat) (join : Join) (level : Int)
    (data : R) : Except Error (FirstGroup zeek R) :=
  match (Cutter.new ({ first := join.tail, second := data } : Chain R) n).nextGroup find with
  | .error e => .error e
  | .ok (some ended, cutter) =>
      match encodeFrame zeek (cutter.stream.buf.take ended) join.checksum level with
      | .error e => .error e
      | .ok frame =>
          .ok { frame := frame, whole := true, lastRecords := n, lastWhole := true,
                cutter := cutter }
  | .ok (none, cutter) =>
      match encodeFrame zeek cutter.stream.buf join.checksum level with
      | .error e => .error e
      | .ok frame =>
          .ok { frame := frame, whole := false, lastRecords := cutter.found,
                lastWhole := cutter.stream.lastEnd == cutter.stream.buf.length,
                cutter := cutter }

/-- The groups that follow, each written as a frame of its own. -/
def appendGroupsFuel {zeek : Zeekstd} (find : Finder UInt8) :
    Nat → Encoder zeek → Nat → Cutter (Chain R) →
      Except Error (Nat × Cutter (Chain R)) × Encoder zeek
  | 0, encoder, _, _ => (.error .fuel, encoder)
  | fuel + 1, encoder, frames, cutter =>
      match cutter.nextGroup find with
      | .error e => (.error e, encoder)
      | .ok (none, cutter) => (.ok (frames, cutter), encoder)
      | .ok (some ended, cutter) =>
          match (encoder.write (cutter.stream.buf.take ended)).endFrame with
          | .error e => (.error e, encoder)
          | .ok encoder => appendGroupsFuel find fuel encoder (frames + 1) cutter

/-- What the frames behind the first come to: the table, and the state of the last one. -/
structure Appended where
  out : SeekTable
  lastRecords : Nat
  lastWhole : Bool

/-- Logs the frames the encoder wrote, where each group made one. -/
def appendWritten {zeek : Zeekstd} (n frames : Nat) (encoder : Encoder zeek) (state : Appended)
    (f : File) : Except Error Appended × File :=
  if frames = 0 then (.ok state, f)
  else
    let f := f.writeAll (bodyOf encoder.ended)
    if encoder.ended.length ≠ frames then
      (.error (.oversizedFrames frames n encoder.ended.length), f)
    else
      match logFrames zeek state.out (tableOf encoder.ended) with
      | .error e => (.error e, f)
      | .ok out => (.ok { state with out := out }, f)

/-- Writes the groups and the remainder that follow a whole first group. -/
def appendRest (zeek : Zeekstd) (find : Finder UInt8) (n : Nat) (checksum : Bool) (level : Int)
    (cutter : Cutter (Chain R)) (state : Appended) (f : File) : Except Error Appended × File :=
  let fuel := cutter.stream.buf.length + Read.budget cutter.stream.source + 1
  let encoder : Encoder zeek := { checksum := checksum, level := level }
  match appendGroupsFuel find fuel encoder 0 cutter with
  | (.error e, encoder) => (.error e, f.writeAll (zeek.passedOn encoder.ended))
  | (.ok (frames, cutter), encoder) =>
      let remainder := cutter.takeRemainder.1
      if remainder.isEmpty then appendWritten n frames encoder state f
      else
        match (encoder.write remainder).endFrame with
        | .error e => (.error e, f.writeAll (zeek.passedOn encoder.ended))
        | .ok encoder =>
            appendWritten n (frames + 1) encoder
              { state with
                lastRecords := cutter.found
                lastWhole := cutter.stream.lastEnd == cutter.stream.buf.length } f

/-- How many frames an append keeps. -/
def keptFrames (target : AppendTarget) (join : Join) : Nat :=
  target.last + if join.preserveLast then 1 else 0

/-- Where an append cuts its target. -/
def cutOf (target : AppendTarget) (join : Join) : Nat :=
  if join.preserveLast then target.table.frameEndComp target.last
  else target.table.frameStartComp target.last

/-- What an append returns that left `state.out` as the seek table. -/
def appendedResult (target : AppendTarget) (checksum : Bool) (state : Appended) : AppendResult :=
  let newLast := state.out.length - 1
  { recordsPerFrame := target.n
    countValidated := target.countValidated
    frameCount := state.out.length
    lastFrame := newLast
    lastComp := state.out.frameSizeComp newLast
    lastDecomp := state.out.frameSizeDecomp newLast
    lastRecords := some state.lastRecords
    lastWhole := state.lastWhole
    checksum := checksum }

/-- Cuts the target and writes behind the cut. -/
def appendRewrite {zeek : Zeekstd} (find : Finder UInt8) (target : AppendTarget) (join : Join)
    (first : FirstGroup zeek R) (level : Int) (f : File) : Except Error AppendResult × File :=
  let f := (f.setLen (cutOf target join)).writeAll first.frame.bytes
  match logFrames zeek [] (target.table.take (keptFrames target join)) with
  | .error e => (.error e, f)
  | .ok out =>
      match logFrame zeek out first.frame.entry with
      | .error e => (.error e, f)
      | .ok out =>
          let state : Appended :=
            { out := out, lastRecords := first.lastRecords, lastWhole := first.lastWhole }
          let appended :=
            if first.whole then
              appendRest zeek find target.n join.checksum level first.cutter state f
            else (.ok state, f)
          match appended with
          | (.error e, f) => (.error e, f)
          | (.ok state, f) =>
              (.ok (appendedResult target join.checksum state),
                f.writeAll (zeek.serialize state.out))

/-- What an append settles before it cuts the target: that there is nothing to append, or the
join and the first group. -/
def appendChecks (zeek : Zeekstd) (f : File) (data : R) (find : Finder UInt8)
    (separator : Option Bytes) (onMissing : OnMissingSeparator) (level : Int)
    (records : Option Nat) (trust : Bool) (previous : Option AppendResult) :
    Except Error (AppendTarget × Option (Join × FirstGroup zeek R)) :=
  match appendTarget zeek f find records trust previous with
  | .error e => .error e
  | .ok target =>
      match readHead data with
      | .error e => .error e
      | .ok (head, data) =>
          if head.length = 0 then .ok (target, none)
          else
            match appendJoin target f find separator onMissing trust head with
            | .error e => .error e
            | .ok join =>
                match appendFirst zeek find target.n join level data with
                | .error e => .error e
                | .ok first => .ok (target, some (join, first))

/-- The append both entry points make. -/
def appendRecordsInner (zeek : Zeekstd) (f : File) (data : R) (find : Finder UInt8)
    (separator : Option Bytes) (onMissing : OnMissingSeparator) (level : Int)
    (records : Option Nat) (trust : Bool) (previous : Option AppendResult) :
    Except Error AppendResult × File :=
  match appendChecks zeek f data find separator onMissing level records trust previous with
  | .error e => (.error e, f)
  | .ok (target, none) => (.ok target.nothing, f)
  | .ok (target, some (join, first)) => appendRewrite find target join first level f

/-- Appends records, by the separator or by the finder of the options. -/
def appendRecordsWithOpts (zeek : Zeekstd) (f : File) (data : R) (separator : Bytes)
    (onMissing : OnMissingSeparator) (level : Int) (records : Option Nat)
    (options : AppendOptions) : Except Error AppendResult × File :=
  match options.finder with
  | none =>
      if h : separator = [] then (.error .emptySeparator, f)
      else
        appendRecordsInner zeek f data (separatorFinder separator h) (some separator) onMissing
          level records options.trustRecordsPerFrame options.previous
  | some find =>
      if onMissing = .insert then (.error .insertWithoutSeparator, f)
      else
        appendRecordsInner zeek f data find none onMissing level records
          options.trustRecordsPerFrame options.previous

end SeekZstdSep
