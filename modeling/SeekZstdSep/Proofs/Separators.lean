/-
Module: SeekZstdSep.Proofs.Separators
Purpose: Which entry points come to an end of their own, whatever the separator: all that look at
  it before they look for it, as far as their buffers, limits and tables let them. The inspection
  does not look at it, and goes on for ever over a frame that it looks for an empty one in.
Trusted boundary: the seek table holds both lengths of a frame as `u32`, and a decoder opens over
  every table that is parsed
Main exports: EntryPoint.Handles, EntryPoint.InMemory, EntryPoint.edit_settles_iff,
  EntryPoint.handled_iff
-/
import SeekZstdSep.Proofs.EditTotal
import SeekZstdSep.Proofs.ExecCompress
import SeekZstdSep.Proofs.ExecInspect

namespace SeekZstdSep

open Lib

namespace Exec

variable {zeek : Zeekstd}

/-! ### The compressors -/

section Compressors

variable {frameSize : Nat} {isSame : Bool} {separator : Bytes} {limitMultiplier : Option Nat}
  {opts : Option CompressOptions}

theorem buffer_of_fits (mode : Arithmetic)
    (h : frameSize * limitMultiplier.getD limitSepBufMultiplier ≤ isizeMax) :
    buffer mode frameSize limitMultiplier = pure () := by
  have hlt : frameSize * limitMultiplier.getD limitSepBufMultiplier < 2 ^ 64 :=
    Nat.lt_of_le_of_lt h (by decide)
  rw [buffer, mul_of_lt hlt, Program.pure_andThen, if_neg (Nat.not_lt_of_le h)]

theorem buffer_of_over
    (h : isizeMax < frameSize * limitMultiplier.getD limitSepBufMultiplier) :
    ∃ fault, buffer .checked frameSize limitMultiplier = Program.fault fault := by
  by_cases hlt : frameSize * limitMultiplier.getD limitSepBufMultiplier < 2 ^ 64
  · refine ⟨.capacity, ?_⟩
    rw [buffer, mul_of_lt hlt, Program.pure_andThen, if_pos h]
  · refine ⟨.overflow, ?_⟩
    rw [buffer, mul, if_neg hlt, leaves, Program.fault_andThen]

theorem newConvert_settles_iff (reader : Input) :
    (∀ mode, (newConvert mode zeek reader frameSize isSame separator limitMultiplier
      opts).Settles) ↔
      (separator ≠ [] → frameSize * limitMultiplier.getD limitSepBufMultiplier ≤ isizeMax) := by
  by_cases hsep : separator = []
  · apply iff_of_true
    · intro mode
      rw [newConvert, if_pos hsep]
      exact Program.settles_fail _
    · intro hne
      exact absurd hsep hne
  · constructor
    · intro h _
      by_contra hover
      obtain ⟨fault, hbuffer⟩ := buffer_of_over (Nat.lt_of_not_le hover)
      have hchecked := h .checked
      rw [newConvert, if_neg hsep, convertRecords, hbuffer] at hchecked
      exact Program.Ends.not_settles (Program.ends_ofEnding _) hchecked
    · intro hfits mode
      rw [newConvert, if_neg hsep]
      exact (convertRecords_ends (separatorFinder separator hsep) isSame frameSize zeek reader opts
        (buffer_of_fits mode (hfits hsep))).settles

theorem oldConvert_settles_iff (reader : Input) :
    (∀ mode, (oldConvert mode zeek reader frameSize isSame separator limitMultiplier
      opts).Settles) ↔
      frameSize * limitMultiplier.getD limitSepBufMultiplier ≤ isizeMax := by
  constructor
  · intro h
    by_contra hover
    obtain ⟨fault, hbuffer⟩ := buffer_of_over (Nat.lt_of_not_le hover)
    have hchecked := h .checked
    rw [oldConvert, hbuffer] at hchecked
    exact Program.Ends.not_settles (Program.ends_ofEnding _) hchecked
  · intro hfits mode
    exact (oldConvert_ends isSame frameSize zeek reader opts (buffer_of_fits mode hfits)).settles

theorem newConvert_converts (mode : Arithmetic) (hsep : separator ≠ []) :
    Converts
      (fun input frameSize opts =>
        newConvert mode zeek input frameSize isSame separator limitMultiplier opts)
      (convertBuffered zeek mode.checks isSame (separatorFinder separator hsep)
        limitMultiplier) where
  ends := newConvert_of_some isSame _ hsep
  faults := newConvert_of_none isSame _ hsep

/-- The first attempt at an empty separator is the last one. -/
theorem compressWithRetry_nil_settles (mode : Arithmetic) (reader : RetryReader)
    (staging : Staging) (frameSize : Nat) (isSame : Bool) (limitMultiplier : Option Nat)
    (opts : Option CompressOptions) :
    (compressWithRetry mode reader staging frameSize opts fun input frameSize opts =>
      newConvert mode zeek input frameSize isSame [] limitMultiplier opts).Settles := by
  have hconverts : Converts
      (fun input frameSize opts =>
        newConvert mode zeek input frameSize isSame [] limitMultiplier opts)
      (fun _ _ _ => some (.error .emptySeparator)) := by
    constructor
    · rintro input size opts result ⟨⟩
      exact Program.ends_ofEnding _
    · rintro input size opts ⟨⟩
  apply (compressWithRetry_settles_iff frameSize hconverts).mpr
  by_cases hcreated : staging.created = true
  · refine ⟨1, .error .emptySeparator, ?_⟩
    rw [SeekZstdSep.compressWithRetry, if_neg (not_not_intro hcreated)]
    rfl
  · refine ⟨0, .error (.external "failed to make the staging file"), ?_⟩
    rw [SeekZstdSep.compressWithRetry, if_pos hcreated]

end Compressors

end Exec

namespace EntryPoint

variable {zeek : Zeekstd} {separator : Bytes}

/-- What has to hold of a call, whatever its environment, for it to come to an end of its own with
a separator. -/
def Handles (zeek : Zeekstd) (separator : Bytes) : EntryPoint → Prop
  | .compress data pos frameSize isSame limitMultiplier _ =>
      separator ≠ [] →
        frameSize * limitMultiplier.getD limitSepBufMultiplier ≤ isizeMax ∧
          (isSame = true → frameSize * limitMultiplier.getD limitSepBufMultiplier = 0 →
            data.drop pos = [])
  | .convert _ frameSize _ limitMultiplier _ =>
      separator ≠ [] → frameSize * limitMultiplier.getD limitSepBufMultiplier ≤ isizeMax
  | .oldConvert _ frameSize _ limitMultiplier _ =>
      frameSize * limitMultiplier.getD limitSepBufMultiplier ≤ isizeMax
  | .openReader .. => True
  | .truncate .. => True
  | .append .. => True
  | .appendFrames f input _ _ _ =>
      ∀ hsep : separator ≠ [],
        (∃ target, framesTarget zeek f (separatorFinder separator hsep) = .ok target) →
          zeek.fromSeekable input.bytes ≠ .ok []
  | .copyRange input .. => separator ≠ [] → zeek.fromSeekable input.bytes ≠ .ok []
  | .countFrames .. => True
  | .inspect opened _ opts =>
      ∀ f table, opened = .ok f → zeek.fromSeekable f.bytes = .ok table →
        Inspectable zeek opts separator f table

/-- What a call buffers at once is not more than a memory holds. -/
def InMemory : EntryPoint → Prop
  | .compress data .. => data.length ≤ 2 ^ 62
  | _ => True

/-- An edit that is not refused comes to an end where its operation does. -/
theorem edit_settles_iff {α : Type} {operation : RawFind → Exec (Except Error α)} :
    (edit separator operation).Settles ↔
      (separator ≠ [] → (operation (bySeparator separator)).Settles) := by
  rw [edit]
  by_cases hsep : separator = []
  · rw [if_pos hsep]
    apply iff_of_true
    · exact Program.settles_fail _
    · intro hne
      exact absurd hsep hne
  · have hafter : ∀ result : Except Error α,
        (Program.ofExcept result >>= fun _ => pure () : Exec Unit).Settles := by
      intro result
      apply (Program.ends_ofExcept result).settles.bind
      intro value _
      exact Program.settles_pure ()
    rw [if_neg hsep, Program.settles_bind_iff fun result _ => hafter result]
    exact ⟨fun h _ => h, fun h => h hsep⟩

/-- Overflow is checked for, and nothing that a call does of its own fails. -/
def goodEnvironment : Environment where
  mode := .checked
  schedule := fun _ _ => some 0
  rewinds := fun _ => true
  staging := goodStaging

section Compress

variable {pos frameSize : Nat} {isSame : Bool} {limitMultiplier : Option Nat}
  {opts : Option CompressOptions}

/-- The retries come to an end where the call returns in the model of them. -/
theorem compress_settles_iff (hsep : separator ≠ []) (data : Bytes) (env : Environment) :
    (run zeek env separator (.compress data pos frameSize isSame limitMultiplier opts)).Settles ↔
      Returns zeek env.mode.checks
        { data := data, pos := pos, schedule := env.schedule, rewinds := env.rewinds } env.staging
        frameSize isSame (separatorFinder separator hsep) limitMultiplier opts := by
  rw [run, Program.settles_bind_iff fun _ _ => Program.settles_pure ()]
  exact Exec.compressWithRetry_settles_iff frameSize (Exec.newConvert_converts env.mode hsep)

theorem compress_handled (hown : zeek.OwnErrors) (data : Bytes) :
    ((∀ env, (run zeek env separator
        (.compress data pos frameSize isSame limitMultiplier opts)).Settles) →
      Handles zeek separator (.compress data pos frameSize isSame limitMultiplier opts)) ∧
    (data.length ≤ 2 ^ 62 →
      Handles zeek separator (.compress data pos frameSize isSame limitMultiplier opts) →
      ∀ env, (run zeek env separator
        (.compress data pos frameSize isSame limitMultiplier opts)).Settles) := by
  constructor
  · intro h hsep
    apply fits_of_returns rfl _ (fun _ => ⟨rfl, rfl, rfl⟩)
      ((compress_settles_iff hsep data goodEnvironment).mp (h goodEnvironment))
    rintro attempt tick ⟨⟩
  · intro hlen h env
    by_cases hsep : separator = []
    · subst hsep
      rw [run, Program.settles_bind_iff fun _ _ => Program.settles_pure ()]
      exact Exec.compressWithRetry_nil_settles _ _ _ _ _ _ _
    · obtain ⟨hfits, hzero⟩ := h hsep
      exact (compress_settles_iff hsep data env).mpr (returns_of_fits hown hlen hfits hzero)

end Compress

/-! ### The entry points that look at the separator first -/

theorem openReader_settles (env : Environment) (opened : Except Error File) (label : String) :
    (run zeek env separator (.openReader opened label)).Settles := by
  rw [run, Program.settles_bind_iff fun _ _ => Program.settles_pure ()]
  apply (Program.ends_ofExcept opened).settles.bind
  intro f _
  by_cases hsep : separator = []
  · rw [if_pos hsep]
    exact Program.settles_fail _
  · rw [if_neg hsep]
    cases hparse : zeek.fromSeekable f.bytes with
    | error e =>
        rw [Exec.openTable, Program.ofExcept_ok, Program.pure_andThen, hparse]
        exact Program.settles_fail e
    | ok table =>
        rw [Exec.openTable, Program.ofExcept_ok, Program.pure_andThen, hparse,
          Program.ofExcept_ok, Program.pure_andThen, Program.pure_andThen]
        split
        · exact Program.settles_fail _
        · have hcounts := Exec.counts_of_finder (separatorFinder separator hsep)
            (FrameReader.new_ready zeek f table) 0
          apply hcounts.settles.bind
          intro counted _
          split
          · exact Program.settles_fail _
          · exact Program.settles_pure _

theorem countFrames_settles (env : Environment) (f : File) (table : SeekTable)
    (start stop : Nat) : (run zeek env separator (.countFrames f table start stop)).Settles := by
  rw [run, edit_settles_iff]
  intro hsep
  apply (Exec.frameCounts_settles (separatorFinder separator hsep) _
    (FrameReader.new_ready zeek f table)).bind
  intro counts _
  exact Program.settles_pure _

theorem truncate_settles (hzeek : zeek.ParsesU32) (env : Environment) (f : File)
    (recordLen : Nat) : (run zeek env separator (.truncate f recordLen)).Settles := by
  rw [run, edit_settles_iff]
  intro hsep
  have hends := Exec.truncateRecords_ends env.mode (separatorFinder separator hsep) hzeek f
    recordLen
  exact ⟨.ok _, hends.bind (Program.ends_pure _)⟩

theorem append_settles (hzeek : zeek.ParsesU32) (env : Environment) (f : File) (data : Input)
    (onMissing : OnMissingSeparator) (level : Int) (records : Option Nat) (trust : Bool)
    (previous : Option AppendResult) :
    (run zeek env separator
      (.append f data onMissing level records trust previous)).Settles := by
  rw [run, edit_settles_iff]
  intro hsep
  have hends := Exec.appendRecordsInner_ends env.mode (separatorFinder separator hsep) level f
    hzeek data (some separator) onMissing records trust previous
  exact ⟨.ok _, hends.bind (Program.ends_pure _)⟩

/-! ### The entry points that ask an input for its last data frame -/

section Frames

variable {f input : File} {fromIdx : Nat} {cnt : Option Nat}

theorem appendFrames_settles_iff (hzeek : zeek.ParsesU32) (check : RangeCheck) :
    (∀ env, (run zeek env separator (.appendFrames f input fromIdx cnt check)).Settles) ↔
      Handles zeek separator (.appendFrames f input fromIdx cnt check) := by
  constructor
  · rintro h hsep ⟨target, htarget⟩ hnil
    have hsettles := edit_settles_iff.mp (h goodEnvironment) hsep
    exact (Exec.appendFramesWith_nil (separatorFinder separator hsep) htarget hnil
      check).bind_faulted.not_settles hsettles
  · intro h env
    rw [run, edit_settles_iff]
    intro hsep
    have hinput := fun target htarget => h hsep ⟨target, htarget⟩
    exact ⟨.ok _, (Exec.appendFramesWith_ends env.mode (separatorFinder separator hsep) hzeek check
      hinput).bind (Program.ends_pure _)⟩

theorem copyRange_settles_iff (hzeek : zeek.ParsesU32) (output : Sink) (align : Alignment)
    (check : SeparatorCheck) :
    (∀ env, (run zeek env separator
      (.copyRange input output fromIdx cnt align check)).Settles) ↔
      Handles zeek separator (.copyRange input output fromIdx cnt align check) := by
  constructor
  · intro h hsep hnil
    have hsettles := edit_settles_iff.mp (h goodEnvironment) hsep
    exact (Exec.copyRangeWith_nil hnil output (bySeparator separator) align
      check).bind_faulted.not_settles hsettles
  · intro h env
    rw [run, edit_settles_iff]
    intro hsep
    exact ⟨.ok _, (Exec.copyRangeWith_ends env.mode (separatorFinder separator hsep) hzeek output
      align check (h hsep)).bind (Program.ends_pure _)⟩

end Frames

/-! ### The entry points whose build alone matters -/

/-- What depends on the build of an environment alone. -/
theorem forall_env_iff {P : Environment → Prop} {Q : Arithmetic → Prop}
    (h : ∀ env, P env ↔ Q env.mode) : (∀ env, P env) ↔ ∀ mode, Q mode := by
  constructor
  · intro henv mode
    exact (h { goodEnvironment with mode := mode }).mp (henv _)
  · intro hmode env
    exact (h env).mpr (hmode env.mode)

section Mode

variable {frameSize : Nat} {isSame : Bool} {limitMultiplier : Option Nat}
  {opts : Option CompressOptions}

theorem convert_settles_iff (reader : Input) :
    (∀ env, (run zeek env separator
      (.convert reader frameSize isSame limitMultiplier opts)).Settles) ↔
      Handles zeek separator (.convert reader frameSize isSame limitMultiplier opts) := by
  apply Iff.trans _ (@Exec.newConvert_settles_iff zeek frameSize isSame separator limitMultiplier
    opts reader)
  apply forall_env_iff
  intro env
  exact Program.settles_bind_iff fun _ _ => Program.settles_pure ()

theorem oldConvert_settles_iff (reader : Input) :
    (∀ env, (run zeek env separator
      (.oldConvert reader frameSize isSame limitMultiplier opts)).Settles) ↔
      Handles zeek separator (.oldConvert reader frameSize isSame limitMultiplier opts) := by
  apply Iff.trans _ (@Exec.oldConvert_settles_iff zeek frameSize isSame separator limitMultiplier
    opts reader)
  apply forall_env_iff
  intro env
  exact Program.settles_bind_iff fun _ _ => Program.settles_pure ()

theorem inspect_settles_iff (opened : Except Error File) (label : String)
    (opts : InspectOptions) :
    (∀ env, (run zeek env separator (.inspect opened label opts)).Settles) ↔
      Handles zeek separator (.inspect opened label opts) := by
  apply Iff.trans _ (Exec.inspectWithOpts_settles_iff opened label)
  apply forall_env_iff
  intro env
  exact Program.settles_bind_iff fun _ _ => Program.settles_pure ()

end Mode

/-- An entry point comes to an end of its own, whatever the file, the input and the separator, if
and only if its buffer can be asked for, its limit is not nothing, an input that is asked for its
last data frame has one, and an inspection is not of an empty separator in a frame that is not
empty, nor in the fast mode of two frames. -/
theorem handled_iff (hzeek : zeek.ParsesU32) (hown : zeek.OwnErrors) (entry : EntryPoint)
    (separator : Bytes) :
    ((∀ env, (entry.run zeek env separator).Settles) → entry.Handles zeek separator) ∧
      (entry.InMemory → entry.Handles zeek separator →
        ∀ env, (entry.run zeek env separator).Settles) := by
  cases entry with
  | compress data pos frameSize isSame limitMultiplier opts => exact compress_handled hown data
  | convert reader frameSize isSame limitMultiplier opts =>
      have hiff := @convert_settles_iff zeek separator frameSize isSame limitMultiplier opts reader
      exact ⟨hiff.mp, fun _ => hiff.mpr⟩
  | oldConvert reader frameSize isSame limitMultiplier opts =>
      have hiff := @oldConvert_settles_iff zeek separator frameSize isSame limitMultiplier opts
        reader
      exact ⟨hiff.mp, fun _ => hiff.mpr⟩
  | openReader opened label => exact ⟨fun _ => trivial, fun _ _ env => openReader_settles env _ _⟩
  | truncate f recordLen => exact ⟨fun _ => trivial, fun _ _ env => truncate_settles hzeek env _ _⟩
  | append f data onMissing level records trust previous =>
      exact ⟨fun _ => trivial, fun _ _ env => append_settles hzeek env _ _ _ _ _ _ _⟩
  | appendFrames f input fromIdx cnt check =>
      have hiff := @appendFrames_settles_iff zeek separator f input fromIdx cnt hzeek check
      exact ⟨hiff.mp, fun _ => hiff.mpr⟩
  | copyRange input output fromIdx cnt align check =>
      have hiff := @copyRange_settles_iff zeek separator input fromIdx cnt hzeek output align check
      exact ⟨hiff.mp, fun _ => hiff.mpr⟩
  | countFrames f table start stop =>
      exact ⟨fun _ => trivial, fun _ _ env => countFrames_settles env _ _ _ _⟩
  | inspect opened label opts =>
      have hiff := @inspect_settles_iff zeek separator opened label opts
      exact ⟨hiff.mp, fun _ => hiff.mpr⟩

/-- The inspection of a file of one line. -/
def inspectionOfLine : EntryPoint :=
  .inspect (.ok (storedArchive [[97, 10]]).file) "line.zst" { fastMode := false }

theorem fromSeekable_line :
    storedZeekstd.fromSeekable (storedArchive [[97, 10]]).file.bytes = .ok [(11, 2)] := rfl

theorem handled_iff_inspectionOfLine :
    (¬ ∀ env, (inspectionOfLine.run storedZeekstd env []).Settles) ∧
      ∀ env, (inspectionOfLine.run storedZeekstd env [10]).Settles := by
  constructor
  · intro h
    have hhandles :=
      (handled_iff storedZeekstd_parsesU32 storedZeekstd_ownErrors inspectionOfLine []).1 h
    have hempty := (hhandles _ _ rfl fromSeekable_line).unseparated rfl 0 Nat.one_pos rfl
    cases hempty
  · apply (handled_iff storedZeekstd_parsesU32 storedZeekstd_ownErrors inspectionOfLine [10]).2
      trivial
    rintro f table ⟨⟩ htable
    rw [fromSeekable_line] at htable
    cases htable
    constructor
    · rintro ⟨⟩
    · rintro ⟨⟩

/-- With an empty separator it goes on for ever. -/
theorem not_handled_inspectionOfLine :
    ¬ ∀ (entry : EntryPoint) (separator : Bytes) (env : Environment),
      (entry.run storedZeekstd env separator).Settles := by
  intro h
  have hdiverges : (inspectionOfLine.run storedZeekstd goodEnvironment []).Diverges :=
    (Exec.inspectWithOpts_nil_diverges .checked fromSeekable_line (by decide) "line.zst").bind
  exact hdiverges.not_settles (h inspectionOfLine [] goodEnvironment)

end EntryPoint

end SeekZstdSep
