/-
Module: SeekZstdSep.Core.Record
Purpose: `record.rs`: where records end, the window they are read through, the runs and the
  record units of a walk, and what watches it.
Trusted boundary: none
Main exports: ends, count, endsWhole, Window, Records, Watch, Watcher, RecordUnitCursor
-/
import SeekZstdSep.Core.Judge

namespace SeekZstdSep

open Lib

/-- `ends` from position `at` on. The fuel is the length of the data. -/
def endsFrom (find : Finder UInt8) (data : Bytes) : Nat → Nat → List Nat
  | 0, _ => []
  | fuel + 1, start =>
      match find (data.drop start) with
      | none => []
      | some found => (start + found) :: endsFrom find data fuel (start + found)

/-- Where each record in `data` ends, in order. -/
def ends (find : Finder UInt8) (data : Bytes) : List Nat :=
  endsFrom find data data.length 0

/-- How many whole records `data` holds. -/
def count (find : Finder UInt8) (data : Bytes) : Nat := (ends find data).length

/-- Whether `data` ends with a whole record rather than with a fragment of one. -/
def endsWhole (find : Finder UInt8) (data : Bytes) : Bool :=
  (ends find data).getLast? == some data.length

/-- Records that lie next to each other in the window. -/
structure Run where
  start : Nat
  len : Nat
  count : Nat
deriving Repr, DecidableEq

/-- The window records are read through. `buf` holds the filled part of the buffer, which is
`cap` bytes long. -/
structure Window where
  source : Take
  /-- Absolute decompressed position of the first byte in `buf`. -/
  offset : Nat := 0
  /-- Nonfinal frame ends. An unfinished record must not cross one. -/
  frameEnds : List Nat := []
  frameEndBase : Nat := 0
  nextFrameEnd : Nat := 0
  buf : Bytes := []
  cap : Nat := readFrameBufSize
  /-- How much of `buf` the caller has consumed. -/
  pos : Nat := 0
  /-- Whether the source has returned 0. -/
  eof : Bool := false
  /-- Records that ended before `pos`, counted from where the window was last pointed. -/
  walked : Nat := 0
  /-- The record that starts at the front of the buffer, when one does. -/
  front : Option Nat := some 0
  onBoundary : Bool := true

namespace Window

/-- Forgets what is buffered, for reading a region after the source moved. -/
def clear (w : Window) : Window :=
  { w with buf := [], pos := 0, eof := false, walked := 0, front := some 0, onBoundary := true }

/-- Points the window at the decompressed bytes in `[start, start + len)`. -/
def seekTo (w : Window) (start len : Nat) : Window :=
  let source : Take := { inner := w.source.inner.seek start, limit := len }
  let w := { w with source := source }.clear
  { w with
    offset := start
    nextFrameEnd := (w.frameEnds.takeWhile fun e => decide (e ≤ start + w.frameEndBase)).length }

/-- The bytes of `run`, in the window the source read them into. -/
def bytes (w : Window) (run : Run) : Bytes := (w.buf.drop run.start).take run.len

/-- Everything read and not handed out. -/
def remainder (w : Window) : Bytes := w.buf.drop w.pos

def walkFuel (find : Finder UInt8) (held : Bytes) (want : Option Nat) : Nat → Nat → Nat → Nat × Nat
  | 0, used, count => (used, count)
  | fuel + 1, used, count =>
      if want.all fun want => decide (count < want) then
        match find (held.drop used) with
        | some found => walkFuel find held want fuel (used + found) (count + 1)
        | none => (used, count)
      else (used, count)

/-- How many bytes the records that end in the window take, and how many records that is, up to
`want` of them. -/
def walk (find : Finder UInt8) (w : Window) (want : Option Nat) : Nat × Nat :=
  walkFuel find w.remainder want w.remainder.length 0 0

/-- Doubles the window where it is full and holds no record end. -/
def growIfFull (w : Window) : Window :=
  if !w.eof && w.pos == 0 && w.buf.length == w.cap then { w with cap := w.cap * 2 } else w

/-- Passes the frame ends that are where the window is loaded to, refusing one that has an
incomplete record in front of it. -/
def passFrameEnds (w : Window) (loadedEnd : Nat) : List Nat → Except Error Window
  | [] => .ok w
  | e :: ends =>
      if e - w.frameEndBase = loadedEnd then
        if w.pos ≠ w.buf.length then .error .incompleteRecord
        else passFrameEnds { w with nextFrameEnd := w.nextFrameEnd + 1 } loadedEnd ends
      else .ok w

/-- Slides what is not consumed to the front. The record now at the front is the one the walk is
on, unless the slide cut one in two. -/
def slide (w : Window) : Window :=
  if w.pos > 0 then
    { w with
      buf := w.buf.drop w.pos
      offset := w.offset + w.pos
      pos := 0
      front := if w.onBoundary then some w.walked else none }
  else w

/-- How much one read may ask for: what the buffer has room for, up to the next frame end. -/
def untilFrameEnd (w : Window) (loadedEnd : Nat) : Nat :=
  let available := w.cap - w.buf.length
  match w.frameEnds[w.nextFrameEnd]? with
  | none => available
  | some e => min (e - w.frameEndBase - loadedEnd) available

/-- Reads on behind what is buffered. -/
def fill (w : Window) (loadedEnd : Nat) : Bool × Window :=
  let got := w.source.read (w.untilFrameEnd loadedEnd)
  if got.1.length = 0 then (false, { w with source := got.2, eof := true })
  else (true, { w with source := got.2, buf := w.buf ++ got.1 })

/-- Slides what is not consumed to the front and reads on behind it. `false` once the source is
spent. -/
def refill (w : Window) : Except Error Bool × Window :=
  if w.eof then (.ok false, w)
  else
    let loadedEnd := w.offset + w.buf.length
    match w.passFrameEnds loadedEnd (w.frameEnds.drop w.nextFrameEnd) with
    | .error e => (.error e, w)
    | .ok passed =>
        let filled := passed.slide.fill loadedEnd
        (.ok filled.1, filled.2)

/-- Consumes a nonempty unterminated record, only after the span reached its end. -/
def finalRecord (w : Window) : Option Run × Window :=
  if !w.eof || w.pos == w.buf.length then (none, w)
  else
    (some { start := w.pos, len := w.buf.length - w.pos, count := 1 },
      { w with pos := w.buf.length })

/-- Puts the walk on record `index` and returns how many records it still has to pass to reach
it, or `none` where the window has to be pointed at the region again. -/
def walkFrom (w : Window) (index : Nat) : Option Nat × Window :=
  if index ≥ w.walked then (some (index - w.walked), w)
  else
    match w.front with
    | none => (none, w)
    | some front =>
        if index < front then (none, w)
        else (some (index - front), { w with walked := front, pos := 0, onBoundary := true })

/-- The bytes a walk can still come to, which bounds its steps. -/
def ahead (w : Window) : Nat := w.remainder.length + w.source.ahead.length

end Window

/-- Byte offsets a walk is watched against, counted from where the window was pointed and in
order, and what to call with each. `Watch::nothing` has no offset and calls nothing. -/
structure Watch where
  offsets : List Nat := []
  next : Nat := 0
  /-- Bytes the runs reported so far came to. -/
  seen : Nat := 0
  passed : Option Passed := none
deriving Repr, DecidableEq

namespace Watch

def call (watch : Watch) (before : Nat) (whole : Bool) : Except Error Watch :=
  match watch.passed with
  | none => .ok { watch with next := watch.next + 1 }
  | some passed =>
      match passed.call watch.next before whole with
      | .error e => .error e
      | .ok passed => .ok { watch with passed := some passed, next := watch.next + 1 }

/-- The offsets that lie in the run just handed out, each reported. -/
def sawFuel (find : Finder UInt8) (bytes : Bytes) (began ended walked : Nat) :
    Nat → Watch → Except Error Watch
  | 0, watch => .ok watch
  | fuel + 1, watch =>
      match watch.offsets[watch.next]? with
      | none => .ok watch
      | some offset =>
          if offset ≤ ended then
            let upto := bytes.take (offset - began)
            match watch.call (walked + count find upto) (endsWhole find upto) with
            | .error e => .error e
            | .ok watch => sawFuel find bytes began ended walked fuel watch
          else .ok watch

/-- Reports every offset the run just handed out reached. -/
def saw (find : Finder UInt8) (w : Window) (run : Run) (watch : Watch) : Except Error Watch :=
  let began := watch.seen
  let ended := began + run.len
  let watch := { watch with seen := ended }
  sawFuel find (w.bytes run) began ended (w.walked - run.count) watch.offsets.length watch

/-- Reports the stretch the walk stopped in as if the offset it never reached were where it
stopped. -/
def spent (w : Window) (watch : Watch) : Except Error Watch :=
  if watch.next ≥ watch.offsets.length then .ok watch
  else watch.call w.walked w.remainder.isEmpty

end Watch

/-- What a walk tells as it hands out runs. -/
inductive Watcher where
  | unwatched
  | watched (watch : Watch)
deriving Repr, DecidableEq

namespace Watcher

def saw (find : Finder UInt8) (w : Window) (run : Run) : Watcher → Except Error Watcher
  | .unwatched => .ok .unwatched
  | .watched watch => (watch.saw find w run).map .watched

def spent (w : Window) : Watcher → Except Error Watcher
  | .unwatched => .ok .unwatched
  | .watched watch => (watch.spent w).map .watched

end Watcher

/-- The runs of a window, each the records that end in one filling of it. -/
structure Records where
  /-- Records still wanted, or `none` for all of them. -/
  left : Option Nat := none
  skip : Nat := 0
  /-- Whether the source ending inside that skip is an error. -/
  skipWhole : Bool := false
  watch : Watcher := .unwatched
deriving Repr, DecidableEq

namespace Records

def nextFuel (find : Finder UInt8) :
    Nat → Records → Window → Option (Except Error Run) × Records × Window
  | 0, records, w => (some (.error .fuel), records, w)
  | fuel + 1, records, w =>
      let (used, count) := w.walk find records.left
      if count > 0 then
        let run : Run := { start := w.pos, len := used, count := count }
        let w :=
          { w with pos := w.pos + used, walked := w.walked + count, onBoundary := true }
        let records := { records with left := records.left.map (· - count) }
        match records.watch.saw find w run with
        | .error e => (some (.error e), records, w)
        | .ok watch => (some (.ok run), { records with watch := watch }, w)
      else
        match w.growIfFull.refill with
        | (.ok true, w) => nextFuel find fuel records w
        | (.ok false, w) => (none, records, w)
        | (.error e, w) => (some (.error e), records, w)

/-- The next run, refilling the window until one turns up. `none` once the source is spent or
the count asked for is reached. -/
def next (find : Finder UInt8) (records : Records) (w : Window) :
    Option (Except Error Run) × Records × Window :=
  if records.left = some 0 then (none, records, w)
  else nextFuel find (w.ahead + 1) records w

/-- The records of the runs that are left, added up. -/
def sumRuns (find : Finder UInt8) :
    Nat → Nat → Records → Window → Except Error Nat × Records × Window
  | 0, _, records, w => (.error .fuel, records, w)
  | fuel + 1, total, records, w =>
      match records.next find w with
      | (none, records, w) => (.ok total, records, w)
      | (some (.error e), records, w) => (.error e, records, w)
      | (some (.ok run), records, w) => sumRuns find fuel (total + run.count) records w

/-- Walks past the records the chain was told to skip, `false` saying the source ended inside
them. -/
def passSkip (find : Finder UInt8) (records : Records) (w : Window) :
    Except Error Bool × Records × Window :=
  let n := records.skip
  if n = 0 then (.ok true, records, w)
  else
    let wanted := records.left
    match sumRuns find (w.ahead + 1) 0 { records with skip := 0, left := some n } w with
    | (.error e, records, w) => (.error e, { records with left := wanted }, w)
    | (.ok walked, records, w) =>
        let records := { records with left := wanted }
        if walked < n then
          match records.watch.spent w with
          | .error e => (.error e, records, w)
          | .ok watch =>
              let records := { records with watch := watch }
              if records.skipWhole then (.error .noSeparatorInFrame, records, w)
              else (.ok false, records, w)
        else (.ok true, records, w)

/-- How many records there are. -/
def countRecords (find : Finder UInt8) (records : Records) (w : Window) :
    Except Error Nat × Window :=
  match records.passSkip find w with
  | (.error e, _, w) => (.error e, w)
  | (.ok false, _, w) => (.ok 0, w)
  | (.ok true, records, w) =>
      let counted := sumRuns find (w.ahead + 1) 0 records w
      (counted.1, counted.2.2)

end Records

/-- State of the one record-unit walk, independent of who owns its window. -/
structure RecordUnitCursor where
  watch : Watcher := .unwatched
  skip : Nat := 0
  skipWhole : Bool := false
  spent : Bool := false
  emitted : Nat := 0
  includeFinalRecord : Bool := false
  rejectFinalFragment : Bool := false
deriving Repr, DecidableEq

namespace RecordUnitCursor

def new (watch : Watcher) (skip : Nat) : RecordUnitCursor :=
  { watch := watch, skip := skip, skipWhole := true }

/-- `Records::into_units`. -/
def ofRecords (records : Records) : RecordUnitCursor :=
  { watch := records.watch, skip := records.skip, skipWhole := records.skipWhole }

def includingFinalRecord (c : RecordUnitCursor) : RecordUnitCursor :=
  { c with includeFinalRecord := true }

def rejectingFinalFragment (c : RecordUnitCursor) : RecordUnitCursor :=
  { c with rejectFinalFragment := true }

def prepare (find : Finder UInt8) (c : RecordUnitCursor) (w : Window) :
    Except Error Unit × RecordUnitCursor × Window :=
  if c.skip = 0 then (.ok (), c, w)
  else
    let records : Records :=
      { left := none, skip := c.skip, skipWhole := c.skipWhole, watch := c.watch }
    match records.passSkip find w with
    | (.error e, records, w) => (.error e, { c with skip := 0, watch := records.watch }, w)
    | (.ok passed, records, w) =>
        (.ok (), { c with skip := 0, watch := records.watch, spent := c.spent || !passed }, w)

def finish (c : RecordUnitCursor) (w : Window) (requested : Nat) :
    Except Error Unit × RecordUnitCursor :=
  if c.emitted < requested then
    match c.watch.spent w with
    | .error e => (.error e, c)
    | .ok watch => (.ok (), { c with watch := watch })
  else (.ok (), c)

/-- What the walk hands out once no whole record is left in the span. -/
def takeFinal (c : RecordUnitCursor) (w : Window) :
    Option (Except Error Run) × RecordUnitCursor × Window :=
  if c.rejectFinalFragment && !w.remainder.isEmpty then
    (some (.error .incompleteFinalRecord), c, w)
  else if c.includeFinalRecord then
    match w.finalRecord with
    | (none, w) => (none, c, w)
    | (some run, w) => (some (.ok run), { c with emitted := c.emitted + 1 }, w)
  else (none, c, w)

def nextRun (find : Finder UInt8) (c : RecordUnitCursor) (w : Window) (limit : Nat) :
    Option (Except Error Run) × RecordUnitCursor × Window :=
  if c.spent || limit == 0 then (none, c, w)
  else
    match c.prepare find w with
    | (.error e, c, w) => (some (.error e), { c with spent := true }, w)
    | (.ok (), c, w) =>
        if c.spent then (none, c, w)
        else
          let records : Records :=
            { left := some limit, skip := 0, skipWhole := true, watch := c.watch }
          match records.next find w with
          | (some (.ok run), records, w) =>
              (some (.ok run),
                { c with watch := records.watch, emitted := c.emitted + run.count }, w)
          | (some (.error e), records, w) =>
              (some (.error e), { c with watch := records.watch, spent := true }, w)
          | (none, records, w) =>
              { c with watch := records.watch, spent := true }.takeFinal w

/-- The next record, one to an item. -/
def next (find : Finder UInt8) (c : RecordUnitCursor) (w : Window) :
    Option (Except Error Run) × RecordUnitCursor × Window :=
  c.nextRun find w 1

/-- The next record as bytes of its own. -/
def nextOwned (find : Finder UInt8) (c : RecordUnitCursor) (w : Window) :
    Except Error (Option Bytes) × RecordUnitCursor × Window :=
  match c.next find w with
  | (none, c, w) => (.ok none, c, w)
  | (some (.ok run), c, w) => (.ok (some (w.bytes run)), c, w)
  | (some (.error e), c, w) => (.error e, c, w)

end RecordUnitCursor

/-- Where records are written to: what it has taken so far, and whether it takes one more
byte. -/
structure Sink where
  written : Bytes := []
  accepts : Bytes → UInt8 → Bool := fun _ _ => true

/-- Writes byte after byte until one is refused. -/
def Sink.writeAll (sink : Sink) : Bytes → Except Error Unit × Sink
  | [] => (.ok (), sink)
  | byte :: bytes =>
      if sink.accepts sink.written byte then
        { sink with written := sink.written ++ [byte] }.writeAll bytes
      else (.error (.external "write refused"), sink)

namespace RecordUnitCursor

/-- Writes up to `requested` records, adjacent ones in a single write. -/
def writeTo (find : Finder UInt8) (requested : Nat) :
    Nat → RecordUnitCursor → Window → Sink →
      Except Error Unit × RecordUnitCursor × Window × Sink
  | 0, c, w, sink => (.error .fuel, c, w, sink)
  | fuel + 1, c, w, sink =>
      if c.emitted < requested then
        match c.nextRun find w (requested - c.emitted) with
        | (none, c, w) => (.ok (), c, w, sink)
        | (some (.error e), c, w) => (.error e, c, w, sink)
        | (some (.ok run), c, w) =>
            match sink.writeAll (w.bytes run) with
            | (.error e, sink) => (.error e, c, w, sink)
            | (.ok (), sink) => writeTo find requested fuel c w sink
      else (.ok (), c, w, sink)

/-- Folds at most `limit` records, `none` for all there are. -/
def tryFold {β : Type} (find : Finder UInt8) (step : β → Bytes → Except Error β) :
    Nat → Option Nat → β → RecordUnitCursor → Window →
      Except Error β × RecordUnitCursor × Window
  | 0, _, _, c, w => (.error .fuel, c, w)
  | fuel + 1, limit, acc, c, w =>
      if limit = some 0 then (.ok acc, c, w)
      else
        match c.nextOwned find w with
        | (.ok none, c, w) => (.ok acc, c, w)
        | (.error e, c, w) => (.error e, c, w)
        | (.ok (some record), c, w) =>
            match step acc record with
            | .error e => (.error e, c, w)
            | .ok acc => tryFold find step fuel (limit.map (· - 1)) acc c w

end RecordUnitCursor

end SeekZstdSep
