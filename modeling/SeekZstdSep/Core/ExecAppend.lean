/-
Module: SeekZstdSep.Core.ExecAppend
Purpose: Appending records as the machine runs it: what is established before the target is cut,
  and the groups that are cut and written behind the cut.
Trusted boundary: the library, as `Zeekstd` has it. It opens a decoder over every table it parses.
Main exports: Exec.appendTarget, Exec.appendJoin, Exec.appendRest, Exec.appendRecordsWithOpts,
  EditCall
-/
import SeekZstdSep.Core.ExecEdit

namespace SeekZstdSep

open Lib

namespace Exec

variable (mode : Arithmetic) (zeek : Zeekstd)

/-! ### The target -/

/-- The loop of `validate_records_per_frame`. -/
def mustContain (find : RawFind) (n : Nat) : FrameReader → List Nat → Exec FrameReader
  | reader, [] => pure reader
  | reader, index :: indices => do
      let walked ← walkFrame find reader index
      if walked.1.1 ≠ n ∨ !walked.1.2 then
        Program.fail (.mustContain index n walked.1.1 walked.1.2)
      else mustContain find n walked.2 indices

def validateRecordsPerFrame (find : RawFind) (reader : FrameReader) (last n : Nat) :
    Exec FrameReader :=
  -- `saturating_sub`
  mustContain find n reader ([0, last - 1].take (if 1 < last then 2 else last))

/-- Opens the target, takes the previous result where it still fits, and settles the records per
frame. -/
def appendTarget (f : File) (find : RawFind) (records : Option Nat) (trust : Bool)
    (previous : Option AppendResult) : Exec AppendTarget :=
  if trust ∧ records = none then Program.fail .trustWithoutCount
  else if records = some 0 then Program.fail .zeroRecordsPerFrame
  else do
    let table ← Program.ofExcept (zeek.fromSeekable f.bytes)
    if table.length = 0 then Program.fail .noDataFrames
    else do
      let last ← lastDataFrame mode table
      let reader := FrameReader.new zeek f table
      let previous := fittingResult table last records previous
      let target : AppendTarget :=
        { table := table, last := last, reader := reader, previous := previous, n := 0
          countValidated := !trust || previous.any (·.countValidated) }
      match records with
      | some n => do
          let entry ← entryAt table last
          if entry.2 = 0 then Program.fail .noDataFrames
          else if !trust && !previous.any (·.countValidated) then do
            let reader ← validateRecordsPerFrame find reader last n
            pure { target with reader := reader, n := n }
          else pure { target with n := n }
      | none =>
          match previous.filter (·.countValidated) with
          | some result => pure { target with n := result.recordsPerFrame }
          | none => do
              let validated ← validateSeparator mode find reader
              let n ← cast mode 64 validated.1
              pure { target with reader := validated.2, n := n }

/-! ### The join -/

/-- How many whole records the last frame holds, and whether it ends with one. -/
def oldState (target : AppendTarget) (find : RawFind) (tail : Bytes) : Exec (Nat × Bool) :=
  match target.known with
  | some state => pure state
  | none => do
      let found ← ends find tail
      pure (found.length, found.getLastD 0 == tail.length)

/-- Ends the fragment the file ends with, or refuses to. -/
def endFragment (find : RawFind) (separator : Option Bytes) (onMissing : OnMissingSeparator)
    (tail : Bytes) (oldWhole : Bool) : Exec (Bytes × Bool) :=
  if oldWhole then pure (tail, false)
  else
    match onMissing with
    | .refuse => Program.fail .endsInFragment
    | .insert => do
        let tail := tail ++ separator.getD []
        let whole ← endsWhole find tail
        if !whole then Program.fail .separatorOverlapsItself else pure (tail, true)

/-- Everything an append establishes from the first bytes of its data on, up to the groups. -/
def appendJoin (target : AppendTarget) (f : File) (find : RawFind) (separator : Option Bytes)
    (onMissing : OnMissingSeparator) (trust : Bool) (head : Bytes) : Exec Join :=
  if head.take 4 = zstdMagic then Program.fail .zstdAsRecords
  else do
    let checksum ← Program.ofExcept (target.checksum f)
    let tail ← Program.ofExcept target.tail
    let old ← oldState target find tail
    let ended ← endFragment find separator onMissing tail old.2
    let counted ←
      if ended.2 ∧ trust ∧ !target.previouslyFull then count find ended.1 else pure old.1
    if trust ∧ !target.previouslyFull ∧ target.n < counted then
      Program.fail (.lastFrameExceeds counted target.n)
    else
      let preserveLast := old.2 && old.1 == target.n
      pure {
        tail := (if preserveLast then [] else ended.1) ++ head
        checksum := checksum
        preserveLast := preserveLast }

/-! ### The rewrite -/

variable {R : Type} [Read R]

/-- Compresses the first group before anything is cut. -/
def appendFirst (find : RawFind) (n : Nat) (join : Join) (level : Int) (data : R) :
    Exec (FirstGroup zeek R) := do
  let group ← nextGroup find (Cutter.new ({ first := join.tail, second := data } : Chain R) n)
  match group with
  | (some ended, cutter) => do
      let frame ← Program.ofExcept
        (encodeFrame zeek (cutter.stream.buf.take ended) join.checksum level)
      pure { frame := frame, whole := true, lastRecords := n, lastWhole := true, cutter := cutter }
  | (none, cutter) => do
      let frame ← Program.ofExcept (encodeFrame zeek cutter.stream.buf join.checksum level)
      pure
        { frame := frame, whole := false, lastRecords := cutter.found
          lastWhole := cutter.stream.lastEnd == cutter.stream.buf.length
          cutter := cutter }

def groupsRound {zeek : Zeekstd} (find : RawFind)
    (state : Encoder zeek × Nat × Cutter (Chain R)) :
    Exec (Round (Encoder zeek × Nat × Cutter (Chain R))
      (Except Error (Nat × Cutter (Chain R)) × Encoder zeek)) := do
  let group ← (nextGroup find state.2.2).attempt
  match group with
  | .error e => pure (.done (.error e, state.1))
  | .ok (none, cutter) => pure (.done (.ok (state.2.1, cutter), state.1))
  | .ok (some ended, cutter) =>
      match (state.1.write (cutter.stream.buf.take ended)).endFrame with
      | .error e => pure (.done (.error e, state.1))
      | .ok encoder => pure (.again (encoder, state.2.1 + 1, cutter))

/-- The groups that follow, each written as a frame of its own. -/
def appendGroups {zeek : Zeekstd} (find : RawFind) (encoder : Encoder zeek)
    (cutter : Cutter (Chain R)) :
    Exec (Except Error (Nat × Cutter (Chain R)) × Encoder zeek) :=
  Program.loop (groupsRound find) (encoder, 0, cutter)

/-- Logs the frames the encoder wrote, where each group made one. -/
def appendWritten {zeek : Zeekstd} (n frames : Nat) (encoder : Encoder zeek) (state : Appended)
    (f : File) : Exec (Except Error Appended × File) :=
  if frames = 0 then pure (.ok state, f)
  else do
    let f := f.writeAll (bodyOf encoder.ended)
    if encoder.ended.length ≠ frames then
      pure (.error (.oversizedFrames frames n encoder.ended.length), f)
    else do
      let written := tableOf encoder.ended
      let logged ←
        (logFramesRange mode zeek written state.out (List.range' 0 written.length)).attempt
      match logged with
      | .error e => pure (.error e, f)
      | .ok out => pure (.ok { state with out := out }, f)

/-- Writes the groups and the remainder that follow a whole first group. -/
def appendRest (find : RawFind) (n : Nat) (checksum : Bool) (level : Int)
    (cutter : Cutter (Chain R)) (state : Appended) (f : File) :
    Exec (Except Error Appended × File) := do
  let encoder : Encoder zeek := { checksum := checksum, level := level }
  let groups ← appendGroups find encoder cutter
  match groups with
  | (.error e, encoder) => pure (.error e, f.writeAll (zeek.passedOn encoder.ended))
  | (.ok (frames, cutter), encoder) =>
      let remainder := cutter.takeRemainder.1
      if remainder.isEmpty then appendWritten mode n frames encoder state f
      else
        match (encoder.write remainder).endFrame with
        | .error e => pure (.error e, f.writeAll (zeek.passedOn encoder.ended))
        | .ok encoder =>
            appendWritten mode n (frames + 1) encoder
              { state with
                lastRecords := cutter.found
                lastWhole := cutter.stream.lastEnd == cutter.stream.buf.length } f

/-- What an append returns that left `state.out` as the seek table. -/
def appendedResult (target : AppendTarget) (checksum : Bool) (state : Appended) :
    Exec AppendResult := do
  let newLast ← sub mode 32 state.out.length 1
  let entry ← entryAt state.out newLast
  pure
    { recordsPerFrame := target.n
      countValidated := target.countValidated
      frameCount := state.out.length
      lastFrame := newLast
      lastComp := entry.1
      lastDecomp := entry.2
      lastRecords := some state.lastRecords
      lastWhole := state.lastWhole
      checksum := checksum }

/-- Cuts the target and writes behind the cut. -/
def appendRewrite {zeek : Zeekstd} (find : RawFind) (target : AppendTarget) (join : Join)
    (first : FirstGroup zeek R) (level : Int) (f : File) :
    Exec (Except Error AppendResult × File) := do
  let kept ← add mode 32 target.last (if join.preserveLast then 1 else 0)
  let cut ← (if join.preserveLast then endComp target.table target.last
    else startComp target.table target.last).attempt
  match cut with
  | .error e => pure (.error e, f)
  | .ok cut => do
      let f := (f.setLen cut).writeAll first.frame.bytes
      let logged ← (do
        let out ← logFramesRange mode zeek target.table [] (List.range' 0 kept)
        Program.ofExcept (logFrame zeek out first.frame.entry)).attempt
      match logged with
      | .error e => pure (.error e, f)
      | .ok out => do
          let state : Appended :=
            { out := out, lastRecords := first.lastRecords, lastWhole := first.lastWhole }
          let appended ←
            if first.whole then
              appendRest mode zeek find target.n join.checksum level first.cutter state f
            else pure (.ok state, f)
          match appended with
          | (.error e, f) => pure (.error e, f)
          | (.ok state, f) => do
              let result ← (appendedResult mode target join.checksum state).attempt
              match result with
              | .error e => pure (.error e, f)
              | .ok result => pure (.ok result, f.writeAll (zeek.serialize state.out))

/-- What an append settles before it cuts the target: that there is nothing to append, or the
join and the first group. -/
def appendChecks (f : File) (data : R) (find : RawFind) (separator : Option Bytes)
    (onMissing : OnMissingSeparator) (level : Int) (records : Option Nat) (trust : Bool)
    (previous : Option AppendResult) :
    Exec (AppendTarget × Option (Join × FirstGroup zeek R)) := do
  let target ← appendTarget mode zeek f find records trust previous
  let read ← Program.ofExcept (readHead data)
  if read.1.length = 0 then pure (target, none)
  else do
    let join ← appendJoin target f find separator onMissing trust read.1
    let first ← appendFirst zeek find target.n join level read.2
    pure (target, some (join, first))

/-- The append both entry points make. -/
def appendRecordsInner (f : File) (data : R) (find : RawFind) (separator : Option Bytes)
    (onMissing : OnMissingSeparator) (level : Int) (records : Option Nat) (trust : Bool)
    (previous : Option AppendResult) : Exec (Except Error AppendResult × File) := do
  let checked ←
    (appendChecks mode zeek f data find separator onMissing level records trust previous).attempt
  match checked with
  | .error e => pure (.error e, f)
  | .ok (target, none) => pure (.ok target.nothing, f)
  | .ok (target, some (join, first)) => appendRewrite mode find target join first level f

/-- `append_records_with_opts`. -/
def appendRecordsWithOpts (f : File) (data : R) (separator : Bytes)
    (onMissing : OnMissingSeparator) (level : Int) (records : Option Nat)
    (options : AppendOptions) : Exec (Except Error AppendResult × File) :=
  match options.finder with
  | none =>
      if separator = [] then pure (.error .emptySeparator, f)
      else
        appendRecordsInner mode zeek f data (bySeparator separator) (some separator) onMissing
          level records options.trustRecordsPerFrame options.previous
  | some find =>
      if onMissing = .insert then pure (.error .insertWithoutSeparator, f)
      else
        appendRecordsInner mode zeek f data find.find none onMissing level records
          options.trustRecordsPerFrame options.previous

end Exec

/-! ### The edits -/

/-- A call of an edit that is handed a finder. -/
inductive EditCall where
  | truncate (f : File) (recordLen : Nat) (find : Finder UInt8)
  | append (f : File) (data : Input) (separator : Bytes) (onMissing : OnMissingSeparator)
      (level : Int) (records : Option Nat) (options : AppendOptions)
  | appendFrames (f input : File) (fromIdx : Nat) (cnt : Option Nat) (find : Finder UInt8)
      (check : RangeCheck)
  | copyRange (input : File) (output : Sink) (fromIdx : Nat) (cnt : Option Nat)
      (find : Finder UInt8) (align : Alignment) (check : SeparatorCheck)

/-- Runs an edit. What an append returns is not looked at. -/
def EditCall.run (mode : Arithmetic) (zeek : Zeekstd) : EditCall → Exec (Except Error Unit)
  | .truncate f recordLen find => do
      let done ← Exec.truncateRecords mode zeek f recordLen find.find
      pure done.1
  | .append f data separator onMissing level records options => do
      let done ← Exec.appendRecordsWithOpts mode zeek f data separator onMissing level records
        options
      pure (done.1.map fun _ => ())
  | .appendFrames f input fromIdx cnt find check => do
      let done ← Exec.appendFramesWith mode zeek f input fromIdx cnt find.find check
      pure done.1
  | .copyRange input output fromIdx cnt find align check => do
      let done ← Exec.copyRangeWith mode zeek input output fromIdx cnt find.find align check
      pure done.1

end SeekZstdSep
