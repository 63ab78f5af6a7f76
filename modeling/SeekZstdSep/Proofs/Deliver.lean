/-
Module: SeekZstdSep.Proofs.Deliver
Purpose: Where the output of a compression is once the call returned, after every combination of
  steps of the file system that fail.
Trusted boundary: the library, as `Zeekstd` has it, and the file system, as `Core.Deliver` has it
Main exports: FileSteps.Arrives, deliver_named, compressOnto_named, CompressCall,
  output_named_iff
-/
import SeekZstdSep.Core.Deliver
import SeekZstdSep.Proofs.Retry

namespace SeekZstdSep

open Lib

variable {zeek : Zeekstd} {overflowChecks : Bool} {steps : FileSteps} {files files' : Files}
  {path : String} {handle : Nat} {dest : Destination} {made : Bytes}

/-! ### The open output -/

/-- The output is open: its path stands for the file of the handle, which is empty. -/
structure OutputAt (files : Files) (path : String) (handle : Nat) : Prop where
  entry : files.entry path = some handle
  empty : files.content handle = []
  lt_next : handle < files.next

/-- `File::create` empties the file there is or creates one. -/
theorem openOutput_opened (hlt : ∀ {name file}, files.entry name = some file → file < files.next)
    (h : openOutput steps files (some path) = .ok (dest, files')) :
    ∃ handle, dest = .file path handle ∧ OutputAt files' path handle := by
  rw [openOutput] at h
  split at h
  · cases h
    refine ⟨_, rfl, files.entry_put _ _ _, files.content_put _ _ _, ?_⟩
    cases hentry : files.entry path with
    | none =>
        rw [Directory.put_fst_of_free hentry, Directory.put, hentry]
        exact Nat.lt_succ_self _
    | some file =>
        rw [Directory.put_of_entry hentry]
        exact hlt hentry
  · cases h

/-- A write that is taken whole, over no more than the beginning of the same bytes, leaves them. -/
theorem write_over {kept : Nat} (hcontent : files.content handle = made.take kept)
    (h : (Destination.file path handle).write steps.takes made files = (true, files')) :
    files' = files.write handle made := by
  rw [Destination.write] at h
  cases htakes : steps.takes with
  | some most =>
      rw [htakes] at h
      cases h
  | none =>
      rw [htakes] at h
      simp only [Option.map_none, Option.getD_none, Option.isNone_none, Prod.mk.injEq, true_and]
        at h
      rw [← h, hcontent, List.drop_eq_nil_of_le (List.length_take_le' _ _), List.append_nil]

/-! ### The delivery -/

/-- A delivery leaves the whole output under its path: the clone succeeds, or the old output is
still the file of the path when the open one is written, or the clone fails with nothing missing. -/
def FileSteps.Arrives (steps : FileSteps) : Prop :=
  steps.clone = .done ∨ steps.removes = false ∨ steps.clone = .failed (some 0)

theorem take_sub_eq_self {data : Bytes} (hne : data ≠ []) {missing : Nat} :
    data.take (data.length - missing) = data ↔ missing = 0 := by
  have hpos := List.length_pos_iff.mpr hne
  rw [List.take_eq_self_iff]
  omega

/-- Where the old output could not be removed its file is the one that is written, whichever way. -/
theorem deliver_kept (hopen : OutputAt files path handle) (hkept : steps.removes = false)
    (h : deliver steps made (.file path handle) files = (true, files')) :
    files'.read path = some made := by
  rw [deliver, hkept] at h
  simp only [Bool.false_eq_true, if_false] at h
  have hempty : files.content handle = made.take 0 := hopen.empty
  cases hclone : steps.clone with
  | done =>
      rw [hclone] at h
      cases h
      exact files.read_put _ _ _
  | failed left =>
      cases left with
      | none =>
          rw [hclone] at h
          rw [write_over hempty h]
          exact Directory.read_write_self hopen.entry _
      | some missing =>
          rw [hclone] at h
          simp only [Directory.put_of_entry hopen.entry] at h
          rw [write_over (Directory.write_content_self _ _) h]
          apply Directory.read_write_self
          exact hopen.entry

/-- Where it was removed the path stands for what the clone left, if anything. -/
theorem deliver_removed (hne : made ≠ []) (hopen : OutputAt files path handle)
    (hremoved : steps.removes = true)
    (h : deliver steps made (.file path handle) files = (true, files')) :
    files'.read path = some made ↔ steps.clone = .done ∨ steps.clone = .failed (some 0) := by
  obtain ⟨bare, hbare⟩ := Directory.remove_of_entry hopen.entry
  have hfree : bare.entry path = none := Directory.entry_remove_self hbare
  have hcontent : bare.content = files.content := by rw [Directory.remove_eq_some hbare]
  have hnext : bare.next = files.next := by rw [Directory.remove_eq_some hbare]
  rw [deliver, hremoved] at h
  simp only [if_true, hbare, Option.getD_some] at h
  cases hclone : steps.clone with
  | done =>
      rw [hclone] at h
      cases h
      exact iff_of_true (bare.read_put _ _ _) (Or.inl rfl)
  | failed left =>
      cases left with
      | none =>
          rw [hclone] at h
          have hempty : bare.content handle = made.take 0 := by
            rw [hcontent, hopen.empty, List.take_zero]
          rw [write_over hempty h]
          apply iff_of_false
          · rw [Directory.read, Directory.write_entry, hfree]
            exact Option.some_ne_none _ ∘ Eq.symm
          · rintro (hdone | hall)
            · cases hdone
            · cases hall
      | some missing =>
          rw [hclone] at h
          simp only at h
          -- what the clone left is in a file of its own
          have hnew := Directory.put_fst_of_free hfree () (made.take (made.length - missing))
          have hapart : (bare.put path () (made.take (made.length - missing))).1 ≠ handle := by
            rw [hnew, hnext]
            exact (Nat.ne_of_lt hopen.lt_next).symm
          have hold : (bare.put path () (made.take (made.length - missing))).2.content handle =
              made.take 0 := by
            rw [Directory.put, hfree]
            simp only
            rw [Function.update_of_ne, hcontent, hopen.empty, List.take_zero]
            rw [hnext]
            exact Nat.ne_of_lt hopen.lt_next
          rw [write_over hold h, Directory.read_write_of_entry (bare.entry_put _ _ _) hapart,
            Directory.content_put, Option.some.injEq, take_sub_eq_self hne]
          simp

theorem deliver_named (hne : made ≠ []) (hopen : OutputAt files path handle)
    (h : deliver steps made (.file path handle) files = (true, files')) :
    files'.read path = some made ↔ steps.Arrives := by
  rw [FileSteps.Arrives]
  cases hremoves : steps.removes with
  | false => exact iff_of_true (deliver_kept hopen hremoves h) (Or.inr (Or.inl rfl))
  | true =>
      rw [deliver_removed hne hopen hremoves h]
      simp

/-! ### The compression -/

section Compress

variable {reader : RetryReader} {frameSize : Nat} {opts : CompressOptions} {isSame : Bool}
  {limitMultiplier : Option Nat} {boundary : NamedBoundary} {converts : Bool} {fuel : Nat}

theorem Decompresses.ne_nil {bytes data : Bytes} (h : Decompresses zeek bytes data) :
    bytes ≠ [] := by
  obtain ⟨archive, rfl, -⟩ := h
  intro hnil
  have hmagic := zeek.serialize_magic (tableOf archive.frames)
  rw [(List.append_eq_nil_iff.mp hnil).2] at hmagic
  cases hmagic

/-- A compression is settled once it is written. -/
theorem settled_ok {wrote : Bool × Files} {made' : Bytes}
    (h : settled made' wrote = (.ok made, files')) : made' = made ∧ wrote = (true, files') := by
  obtain ⟨ok, files⟩ := wrote
  cases ok with
  | false => cases h
  | true =>
      cases h
      exact ⟨rfl, rfl⟩

/-- One conversion of a whole reader. -/
theorem NamedBoundary.decompresses {input : Input} {opts : Option CompressOptions}
    (h : boundary.convert zeek overflowChecks isSame limitMultiplier input frameSize opts =
      some (.ok made)) : Decompresses zeek made input.data := by
  cases boundary with
  | finder find => exact decompresses_of_convert (convert_of_buffered h)
  | separator bytes =>
      rw [NamedBoundary.convert] at h
      split at h
      · cases h
      · exact decompresses_of_convert (convert_of_buffered h)

/-- The retried conversions of a whole reader. -/
theorem NamedBoundary.retry_decompresses {staging : Staging} {opts : Option CompressOptions}
    (hpos : reader.pos = 0)
    (h : compressWithRetry overflowChecks reader staging frameSize opts
      (boundary.convert zeek overflowChecks isSame limitMultiplier) fuel =
        some (.returned (.ok made))) : Decompresses zeek made reader.data := by
  obtain ⟨last, hretries, -, hconvert⟩ := exists_of_retried h
  have hstart : last.pos = 0 := by
    rcases hretries.fresh with rfl | ⟨hstart, -, -⟩
    · exact hpos
    · exact hstart
  have hmade := boundary.decompresses hconvert
  rw [RetryReader.input, hstart, List.drop_zero] at hmade
  exact hmade

/-- What a compression returns decompresses to what its reader held, and its path names it unless
the delivery lost it. -/
theorem compressOnto_named (hpos : reader.pos = 0) (hopen : OutputAt files path handle)
    (h : compressOnto overflowChecks steps reader frameSize opts
      (boundary.convert zeek overflowChecks isSame limitMultiplier) converts (.file path handle)
      files fuel = some (.ok made, files')) :
    Decompresses zeek made reader.data ∧
      (files'.read path = some made ↔ converts = true ∨ steps.Arrives) := by
  rw [compressOnto] at h
  cases converts with
  | true =>
      simp only [if_true] at h
      split at h
      · cases h
      · cases h
      · next made' hconvert =>
          obtain ⟨rfl, hwrote⟩ := settled_ok (Option.some.inj h)
          constructor
          · have hmade := boundary.decompresses hconvert
            rwa [RetryReader.input, hpos, List.drop_zero] at hmade
          · apply iff_of_true
            · have hempty : files.content handle = made'.take 0 := hopen.empty
              rw [write_over hempty hwrote]
              exact Directory.read_write_self hopen.entry _
            · exact Or.inl rfl
  | false =>
      simp only [Bool.false_eq_true, if_false] at h
      split at h
      · next staged hretry =>
          obtain ⟨rfl, hwrote⟩ := settled_ok (Option.some.inj h)
          have hmade := boundary.retry_decompresses hpos hretry
          refine ⟨hmade, ?_⟩
          rw [deliver_named hmade.ne_nil hopen hwrote]
          simp
      · cases h
      · cases h

end Compress

/-! ### The calls -/

/-- A call that compresses records into a file. -/
inductive CompressCall where
  /-- `run_compress`, with what the standard input holds -/
  | cli (args : ConvertArgs) (stdin : Bytes)
  /-- `compress` of the plugin's `save` -/
  | save (args : SaveArgs) (path : String) (records : Bytes)

namespace CompressCall

def run (zeek : Zeekstd) (overflowChecks : Bool) (steps : FileSteps) (files : Files) (fuel : Nat) :
    CompressCall → Option Finished
  | .cli args stdin => runCompress zeek overflowChecks args stdin steps files fuel
  | .save args path records => saveCompress zeek overflowChecks args path records steps files fuel

def outputPath : CompressCall → Option String
  | .cli args _ => args.outputPath
  | .save _ path _ => some path

/-- Whether the framing is given, so that one conversion writes to the open output. -/
def converts : CompressCall → Bool
  | .cli args _ => args.cntOfSeparatorPerFrame.isSome
  | .save args _ _ => args.recordsPerFrame.isSome

/-- The call is told to remove the file of a path once it is done. -/
def Removes (path : String) : CompressCall → Prop
  | .cli args _ => args.rm = true ∧ args.input = some path
  | .save _ _ _ => False

/-- The files once the output is open. -/
def opened (files : Files) (call : CompressCall) : Files :=
  match call.outputPath with
  | none => files
  | some path => (files.put path () []).2

/-- What the call reads: its input file is read once the output is open. -/
def data (files : Files) (call : CompressCall) : Bytes :=
  match call with
  | .cli args stdin =>
      match args.input with
      | none => stdin
      | some path => ((files.entry path).map (call.opened files).content).getD []
  | .save _ _ records => records

end CompressCall

/-- The path names a file that holds the output, once the call returned and, where that removed its
input, when it did. -/
def Finished.Names (finished : Finished) (path : String) (made : Bytes) : Prop :=
  finished.files.read path = some made ∧
    ∀ before, finished.removedFrom = some before → before.read path = some made

/-- Removing the input takes the output away where the two are one path, and else leaves it. -/
theorem removeInput_names {args : ConvertArgs} {written : Bytes}
    (hok : (removeInput steps args written files).result = .ok made) :
    written = made ∧ ((removeInput steps args written files).Names path made ↔
      files.read path = some made ∧ ¬ (args.rm = true ∧ args.input = some path)) := by
  rw [removeInput] at hok ⊢
  cases hrm : args.rm with
  | false =>
      rw [hrm] at hok
      cases hok
      simp [Finished.Names]
  | true =>
      rw [hrm] at hok
      simp only [Bool.not_true, Bool.false_eq_true, if_false] at hok ⊢
      cases hinput : args.input with
      | none =>
          rw [hinput] at hok
          cases hok
      | some input =>
          rw [hinput] at hok
          simp only at hok ⊢
          cases hremoved : if steps.removesInput then files.remove input else none with
          | none =>
              rw [hremoved] at hok
              cases hok
          | some removed =>
              rw [hremoved] at hok
              cases hok
              refine ⟨rfl, ?_⟩
              have hremove : files.remove input = some removed := by
                split at hremoved
                · exact hremoved
                · cases hremoved
              simp only [Finished.Names, Option.some.injEq, true_and, forall_eq']
              by_cases hsame : input = path
              · subst hsame
                have hgone : removed.read input = none := by
                  rw [Directory.read, Directory.entry_remove_self hremove]
                  rfl
                simp [hgone]
              · rw [Directory.read_remove_of_ne hremove (Ne.symm hsame)]
                simp [hsame]

section Call

variable {call : CompressCall} {fuel : Nat} {finished : Finished}

/-- What an input that was opened hands out once the output is open. -/
theorem openInput_data {args : ConvertArgs} {stdin : Bytes} {input : OpenInput}
    (h : openInput steps files stdin args.input = .ok input) :
    input.data ((CompressCall.cli args stdin).opened files) =
      (CompressCall.cli args stdin).data files := by
  rw [CompressCall.data]
  cases hinput : args.input with
  | none =>
      rw [hinput, openInput] at h
      split at h
      · cases h
        rfl
      · cases h
  | some path =>
      rw [hinput, openInput] at h
      cases hentry : files.entry path with
      | none =>
          rw [hentry] at h
          cases h
      | some handle =>
          rw [hentry] at h
          simp only at h
          split at h
          · cases h
            simp only [hentry, OpenInput.data, Option.map_some, Option.getD_some]
          · cases h

/-- The files an output is opened in. -/
theorem openOutput_files (h : openOutput steps files call.outputPath = .ok (dest, files')) :
    files' = call.opened files := by
  rw [CompressCall.opened]
  cases hpath : call.outputPath with
  | none =>
      rw [hpath] at h
      cases h
      rfl
  | some path =>
      rw [hpath, openOutput] at h
      split at h
      · cases h
        rfl
      · cases h

theorem runCompress_named {args : ConvertArgs} {stdin : Bytes}
    (hlt : ∀ {name file}, files.entry name = some file → file < files.next)
    (hrun : runCompress zeek overflowChecks args stdin steps files fuel = some finished)
    (hok : finished.result = .ok made) (hpath : args.outputPath = some path) :
    Decompresses zeek made ((CompressCall.cli args stdin).data files) ∧
      (finished.Names path made ↔
        (args.cntOfSeparatorPerFrame.isSome = true ∨ steps.Arrives) ∧
          ¬ (args.rm = true ∧ args.input = some path)) := by
  rw [runCompress] at hrun
  simp only at hrun
  split at hrun
  · cases hrun
    cases hok
  · split at hrun
    · cases hrun
      cases hok
    · next input hinput =>
        split at hrun
        · cases hrun
          cases hok
        · next dest files₁ houtput =>
            have hfiles : files₁ = (CompressCall.cli args stdin).opened files :=
              openOutput_files houtput
            have hdata := openInput_data hinput
            rw [← hfiles] at hdata
            rw [hpath] at houtput
            obtain ⟨handle, rfl, hopen⟩ := openOutput_opened hlt houtput
            split at hrun
            · cases hrun
            · cases hrun
              cases hok
            · next made' files₂ hcompress =>
                cases hrun
                obtain ⟨rfl, hnames⟩ := removeInput_names hok
                obtain ⟨hmade, hread⟩ := compressOnto_named rfl hopen hcompress
                rw [hdata] at hmade
                exact ⟨hmade, hnames.trans (and_congr_left' hread)⟩

theorem saveCompress_named {args : SaveArgs} {records : Bytes}
    (hlt : ∀ {name file}, files.entry name = some file → file < files.next)
    (hrun : saveCompress zeek overflowChecks args path records steps files fuel = some finished)
    (hok : finished.result = .ok made) :
    Decompresses zeek made records ∧
      (finished.Names path made ↔ args.recordsPerFrame.isSome = true ∨ steps.Arrives) := by
  rw [saveCompress] at hrun
  simp only at hrun
  split at hrun
  · cases hrun
    cases hok
  · next dest files₁ houtput =>
      obtain ⟨handle, rfl, hopen⟩ := openOutput_opened hlt houtput
      split at hrun
      · cases hrun
        cases hok
      · split at hrun
        · cases hrun
        · next result files₂ hcompress =>
            cases hrun
            simp only at hok
            subst hok
            obtain ⟨hmade, hread⟩ := compressOnto_named rfl hopen hcompress
            refine ⟨hmade, ?_⟩
            rw [← hread]
            simp [Finished.Names]

/-- The output of a call that returns `Ok` is all of what it read, compressed; and its path names a
file that holds it, also when the input is removed, exactly where the delivery did not lose it and
the path is not the one that is removed. -/
theorem output_named_iff
    (hlt : ∀ {name file}, files.entry name = some file → file < files.next)
    (hrun : call.run zeek overflowChecks steps files fuel = some finished)
    (hok : finished.result = .ok made) (hpath : call.outputPath = some path) :
    Decompresses zeek made (call.data files) ∧
      (finished.Names path made ↔
        (call.converts = true ∨ steps.Arrives) ∧ ¬ call.Removes path) := by
  cases call with
  | cli args stdin => exact runCompress_named hlt hrun hok hpath
  | save args path' records =>
      cases hpath
      obtain ⟨hmade, hnames⟩ := saveCompress_named hlt hrun hok
      refine ⟨hmade, hnames.trans ?_⟩
      simp [CompressCall.converts, CompressCall.Removes]

end Call

/-! ### A line that is saved -/

/-- Saving one line as `records`. -/
def saveLine : CompressCall :=
  .save
    { frameSize := 8, limitMultiplier := 4, recordsPerFrame := none, noCheck := false
      boundary := .ok (.separator [10]) } "records" [97, 10]

/-- Nothing fails but the clone, as `clone` has it. -/
def stepsOf (clone : Clone) : FileSteps :=
  { opens := true
    creates := true
    schedule := fun _ _ => some wholeWish
    rewinds := fun _ => true
    staging := goodStaging
    removes := true
    clone := clone
    takes := none
    removesInput := true }

def noFiles : Files :=
  { entry := fun _ => none, content := fun _ => [], creator := fun _ => none, next := 0 }

theorem noFiles_wellFormed : noFiles.WellFormed where
  lt_next hentry := by cases hentry
  one_name hentry := by cases hentry

/-- The file of the line. -/
def lineFile : Bytes := (storedArchive [[97, 10]]).file.bytes

theorem output_named_iff_saveLine :
    ∃ finished, saveLine.run storedZeekstd false (stepsOf .done) noFiles 1 = some finished ∧
      finished.result = .ok lineFile ∧ finished.Names "records" lineFile := by
  have hrun : (saveLine.run storedZeekstd false (stepsOf .done) noFiles 1).map Finished.result =
      some (.ok lineFile) := by decide +kernel
  obtain ⟨finished, hfinished, hok⟩ := Option.map_eq_some_iff.mp hrun
  refine ⟨finished, hfinished, hok, ?_⟩
  apply (output_named_iff (fun hentry => by cases hentry) hfinished hok rfl).2.mpr
  exact ⟨Or.inr (Or.inl rfl), id⟩

/-- The clone fails behind the removal: the fallback fills the file that has no name any more, and
the call returns `Ok`. -/
theorem not_output_named_saveLine :
    ∃ finished, saveLine.run storedZeekstd false (stepsOf (.failed none)) noFiles 1 =
        some finished ∧
      finished.result = .ok lineFile ∧ finished.files.read "records" = none := by
  have hrun : (saveLine.run storedZeekstd false (stepsOf (.failed none)) noFiles 1).map
      (fun finished => (finished.result, finished.files.read "records")) =
        some (.ok lineFile, none) := by decide +kernel
  obtain ⟨finished, hfinished, hends⟩ := Option.map_eq_some_iff.mp hrun
  obtain ⟨hok, hread⟩ := Prod.mk.inj hends
  exact ⟨finished, hfinished, hok, hread⟩

end SeekZstdSep
