/-
Module: SeekZstdSep.Proofs.EditTotal
Purpose: Which edits reach an end of their own over every seek table: all but the two that ask an
  input of no frames for its last one.
Trusted boundary: the seek table holds both lengths of a frame as `u32`, and a decoder opens over
  every table that is parsed
Main exports: EditCall.FindsFrames, EditCall.total_iff
-/
import SeekZstdSep.Core.StoredFrames
import SeekZstdSep.Proofs.ExecAppend

namespace SeekZstdSep

open Lib

theorem le32_le {data : Bytes} {x : Nat} (h : le32 data = some x) : x ≤ u32Max := by
  have hmax : u32Max = 4294967295 := by decide
  unfold le32 at h
  split at h
  · next b0 b1 b2 b3 _ =>
      cases h
      have h0 := b0.toNat_lt
      have h1 := b1.toNat_lt
      have h2 := b2.toNat_lt
      have h3 := b3.toNat_lt
      omega
  · cases h

/-- The entries of a table are read off four bytes each. -/
theorem parseEntries_inU32 {count : Nat} {bytes : Bytes} {table : SeekTable}
    (h : parseEntries count bytes = some table) : table.InU32 := by
  induction count generalizing bytes table with
  | zero =>
      cases h
      intro entry hin
      exact absurd hin List.not_mem_nil
  | succ count ih =>
      rw [parseEntries] at h
      split at h
      · next hcomp hdecomp hrest =>
          cases h
          intro entry hin
          rcases List.mem_cons.mp hin with rfl | hin
          · exact ⟨le32_le hcomp, le32_le hdecomp⟩
          · exact ih hrest entry hin
      · cases h

theorem storedZeekstd_parsesU32 : storedZeekstd.ParsesU32 := by
  intro bytes table h
  have hparsed : parseTable bytes = .ok table := h
  rw [parseTable] at hparsed
  split at hparsed
  · cases hparsed
  split_ifs at hparsed
  split at hparsed
  · cases hparsed
  · next hentries =>
      cases hparsed
      exact parseEntries_inU32 hentries

namespace EditCall

variable {zeek : Zeekstd}

/-- An input that is asked for its last data frame has one. An append of frames asks once the
target has passed. -/
def FindsFrames (zeek : Zeekstd) : EditCall → Prop
  | .truncate .. => True
  | .append .. => True
  | .appendFrames f input _ _ find _ =>
      (∃ target, framesTarget zeek f find = .ok target) → zeek.fromSeekable input.bytes ≠ .ok []
  | .copyRange input .. => zeek.fromSeekable input.bytes ≠ .ok []

/-- An edit ends with its outcome, whatever the tables, if and only if an input that is asked for
its last data frame has one. -/
theorem total_iff (hzeek : zeek.ParsesU32) (call : EditCall) :
    (∃ result, (call.run .checked zeek).Ends (.returned result)) ↔ call.FindsFrames zeek := by
  cases call with
  | truncate f recordLen find =>
      apply iff_of_true _ trivial
      exact ⟨_, (Exec.truncateRecords_ends .checked find hzeek f recordLen).bind
        (Program.ends_pure _)⟩
  | append f data separator onMissing level records options =>
      apply iff_of_true _ trivial
      exact ⟨_, (Exec.appendRecordsWithOpts_ends .checked level f hzeek data separator onMissing
        records options).bind (Program.ends_pure _)⟩
  | appendFrames f input fromIdx cnt find check =>
      constructor
      · rintro hreturns ⟨target, htarget⟩ hnil
        exact (Exec.appendFramesWith_nil find htarget hnil check).bind_faulted.not_returned hreturns
      · intro hframes
        exact ⟨_, (Exec.appendFramesWith_ends .checked find hzeek check fun target htarget =>
          hframes ⟨target, htarget⟩).bind (Program.ends_pure _)⟩
  | copyRange input output fromIdx cnt find align check =>
      constructor
      · intro hreturns hnil
        exact (Exec.copyRangeWith_nil hnil output find.find align
          check).bind_faulted.not_returned hreturns
      · intro hframes
        exact ⟨_, (Exec.copyRangeWith_ends .checked find hzeek output align check hframes).bind
          (Program.ends_pure _)⟩

/-- A range of the file whose seek table has no frames. -/
def copyOfNoFrames : EditCall :=
  .copyRange (storedArchive []).file {} 0 none (separatorFinder [10] (List.cons_ne_nil 10 []))
    .required .firstFrame

theorem total_iff_copyOfNoFrames :
    ¬ ∃ result, (copyOfNoFrames.run .checked storedZeekstd).Ends (.returned result) :=
  fun hreturns => (total_iff storedZeekstd_parsesU32 copyOfNoFrames).mp hreturns rfl

/-- Copying a range of it stops at the index below 0. -/
theorem not_total_copyOfNoFrames :
    ¬ ∀ call : EditCall, ∃ result,
      (call.run .checked storedZeekstd).Ends (.returned result) := by
  intro htotal
  have hnil : storedZeekstd.fromSeekable (storedArchive []).file.bytes = .ok [] := rfl
  have hfault : (copyOfNoFrames.run .checked storedZeekstd).Ends (.faulted .underflow) :=
    (Exec.copyRangeWith_nil hnil {} _ .required .firstFrame).bind_faulted
  exact hfault.not_returned (htotal copyOfNoFrames)

end EditCall

end SeekZstdSep
