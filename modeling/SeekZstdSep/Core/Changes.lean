/-
Module: SeekZstdSep.Core.Changes
Purpose: What the edits do to their target, one change after the other, and what they leave of it
  where the target itself fails. Everything they read of it is read before the first change.
Trusted boundary: a `set_len` that fails leaves the file as it was; a write that fails leaves the
  head of what it was to write.
Main exports: Change, File.changes, Leaves, truncateChanges, appendFramesChanges,
  appendRecordsChanges
-/
import SeekZstdSep.Core.Append

namespace SeekZstdSep

open Lib

/-- A change to the target of an edit: `cut_at`, or writes behind each other. -/
inductive Change where
  | cutAt (cut : Nat)
  | writeAll (data : Bytes)
deriving Repr, DecidableEq

namespace File

def change (f : File) : Change → File
  | .cutAt cut => f.setLen cut
  | .writeAll data => f.writeAll data

def changes (f : File) (changes : List Change) : File := changes.foldl change f

end File

/-- `Leaves f changes f'`: `f'` is what is left where the changes to `f` are made in order and
the target may fail at any of them. -/
inductive Leaves : File → List Change → File → Prop where
  | stopped (f : File) (changes : List Change) : Leaves f changes f
  | partly (f : File) {written data : Bytes} (changes : List Change) (head : written <+: data) :
      Leaves f (.writeAll data :: changes) (f.writeAll written)
  | made {f f' : File} {change : Change} {changes : List Change}
      (rest : Leaves (f.change change) changes f') : Leaves f (change :: changes) f'

/-! ### Truncating and appending frames -/

def truncateChanges (zeek : Zeekstd) (f : File) (recordLen : Nat) (find : Finder UInt8) :
    List Change :=
  match truncateChecks zeek f recordLen find with
  | .error _ => []
  | .ok (table, k) =>
      .cutAt (table.frameEndComp (k - 1)) ::
        match logFrames zeek [] (table.take k) with
        | .error _ => []
        | .ok out => [.writeAll (zeek.serialize out)]

def appendFramesChanges (zeek : Zeekstd) (f input : File) (fromIdx : Nat) (cnt : Option Nat)
    (find : Finder UInt8) (check : RangeCheck) : List Change :=
  match appendFramesChecks zeek f input fromIdx cnt find check with
  | .error _ => []
  | .ok (table, last, inTable, k, j) =>
      if k = j then []
      else
        let source := input.part (inTable.frameStartComp k) (inTable.frameEndComp (j - 1))
        let copied := ioCopy source
        .cutAt (table.frameEndComp last) :: .writeAll copied.2 ::
          match copied.1 with
          | .error _ => []
          | .ok () =>
              match logFrames zeek [] (table.take (last + 1)) with
              | .error _ => []
              | .ok out =>
                  match logFrames zeek out (inTable.range k j) with
                  | .error _ => []
                  | .ok out => [.writeAll (zeek.serialize out)]

/-! ### Appending records -/

/-- What `appendWritten` finds written. -/
def writtenChanges {zeek : Zeekstd} (frames : Nat) (encoder : Encoder zeek) : List Change :=
  if frames = 0 then [] else [.writeAll (bodyOf encoder.ended)]

section Records

variable {R : Type} [Read R]

/-- What the groups and the remainder behind a whole first group write. -/
def restChanges (zeek : Zeekstd) (find : Finder UInt8) (checksum : Bool) (level : Int)
    (cutter : Cutter (Chain R)) : List Change :=
  let fuel := cutter.stream.buf.length + Read.budget cutter.stream.source + 1
  let encoder : Encoder zeek := { checksum := checksum, level := level }
  match appendGroupsFuel find fuel encoder 0 cutter with
  | (.error _, encoder) => [.writeAll (zeek.passedOn encoder.ended)]
  | (.ok (frames, cutter), encoder) =>
      let remainder := cutter.takeRemainder.1
      if remainder.isEmpty then writtenChanges frames encoder
      else
        match (encoder.write remainder).endFrame with
        | .error _ => [.writeAll (zeek.passedOn encoder.ended)]
        | .ok encoder => writtenChanges (frames + 1) encoder

def rewriteChanges {zeek : Zeekstd} (find : Finder UInt8) (target : AppendTarget) (join : Join)
    (first : FirstGroup zeek R) (level : Int) (f : File) : List Change :=
  .cutAt (cutOf target join) :: .writeAll first.frame.bytes ::
    match logFrames zeek [] (target.table.take (keptFrames target join)) with
    | .error _ => []
    | .ok out =>
        match logFrame zeek out first.frame.entry with
        | .error _ => []
        | .ok out =>
            let state : Appended :=
              { out := out, lastRecords := first.lastRecords, lastWhole := first.lastWhole }
            let appended :=
              if first.whole then
                appendRest zeek find target.n join.checksum level first.cutter state
                  ((f.setLen (cutOf target join)).writeAll first.frame.bytes)
              else (.ok state, f)
            (if first.whole then restChanges zeek find join.checksum level first.cutter
              else []) ++
              match appended.1 with
              | .error _ => []
              | .ok state => [.writeAll (zeek.serialize state.out)]

def appendInnerChanges (zeek : Zeekstd) (f : File) (data : R) (find : Finder UInt8)
    (separator : Option Bytes) (onMissing : OnMissingSeparator) (level : Int)
    (records : Option Nat) (trust : Bool) (previous : Option AppendResult) : List Change :=
  match appendChecks zeek f data find separator onMissing level records trust previous with
  | .error _ => []
  | .ok (_, none) => []
  | .ok (target, some (join, first)) => rewriteChanges find target join first level f

def appendRecordsChanges (zeek : Zeekstd) (f : File) (data : R) (separator : Bytes)
    (onMissing : OnMissingSeparator) (level : Int) (records : Option Nat)
    (options : AppendOptions) : List Change :=
  match options.finder with
  | none =>
      if h : separator = [] then []
      else
        appendInnerChanges zeek f data (separatorFinder separator h) (some separator) onMissing
          level records options.trustRecordsPerFrame options.previous
  | some find =>
      if onMissing = .insert then []
      else
        appendInnerChanges zeek f data find none onMissing level records
          options.trustRecordsPerFrame options.previous

end Records

end SeekZstdSep
