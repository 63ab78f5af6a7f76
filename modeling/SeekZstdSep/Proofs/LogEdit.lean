/-
Module: SeekZstdSep.Proofs.LogEdit
Purpose: What an edit of a file of a uniform layout does to the log it holds where it succeeds, and
  that it leaves the file as it was where it fails, unless it does so behind its cut.
Trusted boundary: the library, as `Zeekstd` has it
Main exports: Access, LogEdit, LogEdit.run, LogEdit.apply, LogEdit.does, LogEdit.keeps
-/
import SeekZstdSep.Proofs.FailedEdits
import SeekZstdSep.Proofs.Log

namespace SeekZstdSep

open Lib

variable {zeek : Zeekstd} {boundary : Boundary} {n : Nat}

/-- How a file answers while a call has it open: how much each read of a decoder over it hands out,
and what each read of the file itself does. -/
structure Access where
  reads : Nat → Nat
  schedule : Nat → Option Nat

/-- A file that is opened. -/
def Access.file (access : Access) (bytes : Bytes) : File :=
  { bytes := bytes, reads := access.reads, schedule := access.schedule }

/-- A file whose every read takes all it can. -/
def wholeAccess : Access where
  reads := fun _ => wholeWish
  schedule := fun _ => some wholeWish

/-- An edit by the boundary, with the log of the file it takes frames from. -/
inductive LogEdit where
  | truncate (recordLen : Nat)
  | append (call : AppendCall)
  | appendFrames (input : File) (more : RecordLog UInt8) (fromIdx : Nat) (cnt : Option Nat)
      (check : RangeCheck)

namespace LogEdit

/-- The edit itself. -/
def edit (boundary : Boundary) : LogEdit → Edit
  | truncate recordLen => .truncateRecords recordLen boundary.find
  | append call =>
      .appendRecords call.data call.separator call.onMissing call.level call.records
        (call.options none)
  | appendFrames input _ fromIdx cnt check =>
      .appendFrames input fromIdx cnt boundary.find check

/-- Whether the edit fails, and the file it leaves. -/
def run (zeek : Zeekstd) (boundary : Boundary) (edit : LogEdit) (f : File) :
    Except Error Unit × File :=
  (edit.edit boundary).run zeek f

/-- What the edit is for. -/
def apply (boundary : Boundary) (log : RecordLog UInt8) : LogEdit → RecordLog UInt8
  | truncate recordLen => log.truncate recordLen
  | append call => log.append boundary.find (boundary.separator?.getD []) call.data.data
  | appendFrames _ more fromIdx cnt _ => log.join (more.range fromIdx cnt)

/-- The records an edit appends go by the boundary. -/
def Gives (boundary : Boundary) : LogEdit → Prop
  | append call => call.Gives boundary
  | _ => True

/-- What an edit of a file of `n` records a frame keeps to. Records go by the boundary, end where
one does and come with no other count, and a decoder hands out a frame in one read; frames come
from a file of a uniform layout. -/
def Fits (zeek : Zeekstd) (boundary : Boundary) (n : Nat) (f : File) : LogEdit → Prop
  | truncate _ => True
  | append call =>
      call.Gives boundary ∧ boundary.Ends call.data.data ∧
        (call.records = none ∨ call.records = some n) ∧ f.Fills zeek
  | appendFrames input more _ _ _ =>
      ∃ source : Archive zeek, input = source.file ∧
        source.IsUniform boundary more.perFrame ∧ source.log boundary more.perFrame = more

/-- An edit fails behind the point where it begins to write. -/
def FailsLate (zeek : Zeekstd) (boundary : Boundary) (f : File) : LogEdit → Prop
  | truncate _ => False
  | append call =>
      RecordsFailLate zeek f call.data boundary.find boundary.separator? call.onMissing call.level
        call.records call.trust none
  | appendFrames input _ fromIdx cnt check =>
      FramesFailLate zeek f input fromIdx cnt boundary.find check

@[simp] theorem perFrame_apply (edit : LogEdit) (log : RecordLog UInt8) :
    (edit.apply boundary log).perFrame = log.perFrame := by
  cases edit with
  | truncate recordLen => rfl
  | append call =>
      rw [apply, RecordLog.append]
      split <;> rfl
  | appendFrames input more fromIdx cnt check => rfl

theorem Fits.gives {f : File} {edit : LogEdit} (h : edit.Fits zeek boundary n f) :
    edit.Gives boundary := by
  cases edit with
  | append call => exact h.1
  | _ => trivial

/-- An edit that succeeds does to the log what it is for. -/
theorem does {archive : Archive zeek} (h : archive.Counted boundary n)
    (hwhole : boundary.find.Whole) {edit : LogEdit} (hfits : edit.Fits zeek boundary n archive.file)
    (hok : (edit.run zeek boundary archive.file).1 = .ok ()) :
    ∃ archive' : Archive zeek, (edit.run zeek boundary archive.file).2 = archive'.file ∧
      archive'.Counted boundary n ∧
      archive'.log boundary n = edit.apply boundary (archive.log boundary n) := by
  cases edit with
  | truncate recordLen => exact h.truncate_log (Prod.ext hok rfl)
  | append call =>
      obtain ⟨hgives, hends, hrecords, hfills⟩ := hfits
      change (call.run zeek archive.file none).1.map _ = .ok () at hok
      have hresult : ∃ result, call.run zeek archive.file none =
          (.ok result, (call.run zeek archive.file none).2) := by
        cases hran : (call.run zeek archive.file none).1 with
        | error e =>
            rw [hran] at hok
            cases hok
        | ok result => exact ⟨result, Prod.ext hran rfl⟩
      obtain ⟨result, hresult⟩ := hresult
      exact h.append_log hwhole hfills hgives hrecords hends hresult
  | appendFrames input more fromIdx cnt check =>
      obtain ⟨source, rfl, huniform, hmore⟩ := hfits
      obtain ⟨⟨archive', hfile, hcounted, hlog⟩, -⟩ :=
        h.appendFrames_log huniform (Prod.ext hok rfl)
      rw [hmore] at hlog
      exact ⟨archive', hfile, hcounted, hlog⟩

/-- An edit that fails has changed nothing, unless it fails late. -/
theorem keeps {f : File} {edit : LogEdit} (hgives : edit.Gives boundary)
    (hnot : ¬ edit.FailsLate zeek boundary f) {e : Error}
    (herror : (edit.run zeek boundary f).1 = .error e) :
    (edit.run zeek boundary f).2.bytes = f.bytes := by
  cases edit with
  | truncate recordLen => exact congrArg (fun ran => ran.2.bytes) (truncateRecords_error herror)
  | append call =>
      change (call.run zeek f none).1.map _ = .error e at herror
      show (call.run zeek f none).2.bytes = f.bytes
      have hfail : ∃ e, (call.run zeek f none).1 = .error e := by
        cases hran : (call.run zeek f none).1 with
        | error e => exact ⟨e, rfl⟩
        | ok result =>
            rw [hran] at herror
            cases herror
      obtain ⟨e, hfail⟩ := hfail
      rw [AppendCall.run_eq hgives] at hfail ⊢
      split_ifs at hfail ⊢ with hinsert
      · rfl
      · rw [appendRecordsInner_late.2 hnot e hfail]
  | appendFrames input more fromIdx cnt check =>
      exact congrArg (fun ran => ran.2.bytes) (appendFramesWith_error hnot herror)

end LogEdit

end SeekZstdSep
