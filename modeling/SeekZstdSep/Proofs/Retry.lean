/-
Module: SeekZstdSep.Proofs.Retry
Purpose: What a compression that retries delivers, when it ends, and the framing it settles on.
Trusted boundary: the library, as `Zeekstd` has it, and that its errors are its own
Main exports: Decompresses, Retry.step_attempt, Retries, retried_bytes_iff,
  compress_returns_iff, settles_on_frame_size
-/
import SeekZstdSep.Core.Retry
import SeekZstdSep.Proofs.Framing

namespace SeekZstdSep

open Lib

variable {zeek : Zeekstd} {find : Finder UInt8}

/-- `bytes` are a file that decompresses to `data`. -/
def Decompresses (zeek : Zeekstd) (bytes data : Bytes) : Prop :=
  ∃ archive : Archive zeek, archive.file.bytes = bytes ∧ archive.data = data

theorem Decompresses.unique {bytes data data' : Bytes} (h : Decompresses zeek bytes data)
    (h' : Decompresses zeek bytes data') : data = data' := by
  obtain ⟨archive, rfl, rfl⟩ := h
  obtain ⟨archive', hbytes, rfl⟩ := h'
  rw [Archive.data, Archive.data, Archive.contents_eq_of_bytes hbytes]

/-- The reads of an input fail with their own error. -/
theorem Input.ioCopy_error {input : Input} {e : Error} (h : (ioCopy input).1 = .error e) :
    e = .external "read failed" := by
  induction hlen : Read.budget input using Nat.strongRecOn generalizing input with
  | ind budget ih =>
      cases hread : Read.read input readBufSize with
      | error e' =>
          rw [ioCopy_of_error hread] at h
          cases h
          simp only [Read.read] at hread
          split at hread <;> cases hread
          rfl
      | ok got =>
          obtain ⟨bytes, input'⟩ := got
          by_cases hne : bytes = []
          · subst hne
            rw [ioCopy_of_end hread] at h
            cases h
          · have hle := LawfulRead.budget_read hread
            have hpos := List.length_pos_iff.mpr hne
            rw [ioCopy_of_read hread hne] at h
            exact ih _ (by omega) h rfl

theorem Input.ioCopy_own (input : Input) (perFrame : Int) :
    (ioCopy input).1 ≠ .error (.compressErrorData perFrame) := by
  intro h
  cases Input.ioCopy_error h

/-- Where no record ends in the input it is all past the last record end. -/
theorem overruns_of_none {limit : Nat} {reads : List Bytes} (hnone : find reads.flatten = none)
    (hlimit : limit < reads.flatten.length) : Overruns find limit [] reads := by
  rcases List.eq_nil_or_concat reads with rfl | ⟨before, last, rfl⟩
  · exact absurd hlimit (Nat.not_lt_zero _)
  · rw [List.concat_eq_append] at hnone hlimit ⊢
    rw [List.flatten_append, List.flatten_cons, List.flatten_nil, List.append_nil] at hnone hlimit
    have hbefore : find before.flatten = none := by
      cases hsome : find before.flatten with
      | none => rfl
      | some k =>
          rw [find.stable _ hsome] at hnone
          cases hnone
    refine ⟨before, last, [], rfl, ?_⟩
    rw [List.nil_append, Finder.rest_of_none _ hbefore, ← List.length_append]
    exact hlimit

/-! ### One attempt -/

theorem asUsize_lt (v : Int) : asUsize v < 2 ^ 64 := (BitVec.ofInt 64 v).isLt

theorem asUsize_natCast {n : Nat} (h : n < 2 ^ 64) : asUsize n = n := by
  rw [asUsize, BitVec.ofInt_natCast, BitVec.toNat_ofNat, Nat.mod_eq_of_lt h]

theorem mulUsize_of_le {overflowChecks : Bool} {a b : Nat} (h : a * b ≤ usizeMax) :
    mulUsize overflowChecks a b = some (a * b) := if_pos h

namespace Retry

variable {overflowChecks : Bool} {reader : RetryReader} {staging : Staging}
  {convert : Input → Nat → Option CompressOptions → Option (Except Error Bytes)}
  {pOpts : Option CompressOptions} {state next : Retry}

/-- The options of a retry: those of the call, with another count. -/
def retryOpts (pOpts : Option CompressOptions) (count : Nat) : CompressOptions :=
  { pOpts.getD {} with maxOfSeparator := some count }

/-- What is set for the attempt behind one that passed its limit with `count` records a frame. -/
structure Again (overflowChecks : Bool) (pOpts : Option CompressOptions) (count : Nat)
    (state next : Retry) : Prop where
  attempt : next.attempt = state.attempt + 1
  pos : next.pos = 0
  file : next.file = {}
  halves : count < 2 ∧ mulUsize overflowChecks state.frameSize 2 = some next.frameSize ∧
      next.opts = some (retryOpts pOpts count) ∨
    2 ≤ count ∧ next.frameSize = state.frameSize ∧
      next.opts = some (retryOpts pOpts (count / 2))

/-- What comes of an attempt, and why. -/
inductive Attempt (overflowChecks : Bool) (reader : RetryReader)
    (convert : Input → Nat → Option CompressOptions → Option (Except Error Bytes))
    (pOpts : Option CompressOptions) (state : Retry) : RetryStep → Prop where
  | unbuffered
      (converts : convert (reader.input state.attempt state.pos) state.frameSize state.opts =
        none) : Attempt overflowChecks reader convert pOpts state .panicked
  | undoubled {perFrame : Int}
      (refused : convert (reader.input state.attempt state.pos) state.frameSize state.opts =
        some (.error (.compressErrorData perFrame)))
      (overflows : mulUsize overflowChecks state.frameSize 2 = none) :
      Attempt overflowChecks reader convert pOpts state .panicked
  | failed (e : Error) : Attempt overflowChecks reader convert pOpts state (.returned (.error e))
  | delivered {bytes : Bytes}
      (converts : convert (reader.input state.attempt state.pos) state.frameSize state.opts =
        some (.ok bytes)) :
      Attempt overflowChecks reader convert pOpts state
        (.returned (.ok (state.file.write bytes).rewind.ahead))
  | again {perFrame : Int} {next : Retry}
      (refused : convert (reader.input state.attempt state.pos) state.frameSize state.opts =
        some (.error (.compressErrorData perFrame)))
      (sets : Again overflowChecks pOpts (asUsize perFrame) state next) :
      Attempt overflowChecks reader convert pOpts state (.again next)

theorem step_attempt (overflowChecks : Bool) (reader : RetryReader) (staging : Staging)
    (convert : Input → Nat → Option CompressOptions → Option (Except Error Bytes))
    (pOpts : Option CompressOptions) (state : Retry) :
    Attempt overflowChecks reader convert pOpts state
      (state.step overflowChecks reader staging convert pOpts) := by
  rw [step.eq_def]
  split
  · next hconvert => exact .unbuffered hconvert
  · next bytes hconvert =>
      split
      · exact .delivered hconvert
      · exact .failed _
  · next perFrame hconvert =>
      by_cases hcount : asUsize perFrame < 2
      · simp only [if_pos hcount]
        cases hdouble : mulUsize overflowChecks state.frameSize 2 with
        | none => exact .undoubled hconvert hdouble
        | some frameSize =>
            simp only
            split_ifs
            · exact .again hconvert ⟨rfl, rfl, rfl, Or.inl ⟨hcount, hdouble, rfl⟩⟩
            · exact .failed _
            · exact .failed _
            · exact .failed _
      · simp only [if_neg hcount]
        split_ifs
        · exact .again hconvert ⟨rfl, rfl, rfl, Or.inr ⟨Nat.le_of_not_lt hcount, rfl, rfl⟩⟩
        · exact .failed _
        · exact .failed _
        · exact .failed _
  · exact .failed _

/-- An attempt that passed its limit is tried again, where all can be rewound. -/
theorem step_of_refused {perFrame : Int} {frameSize : Nat}
    (hrefused : convert (reader.input state.attempt state.pos) state.frameSize state.opts =
      some (.error (.compressErrorData perFrame)))
    (hsize : (if asUsize perFrame < 2 then mulUsize overflowChecks state.frameSize 2
      else some state.frameSize) = some frameSize)
    (hrewinds : reader.rewinds state.attempt = true ∧ staging.rewinds state.attempt = true ∧
      staging.empties state.attempt = true) :
    state.step overflowChecks reader staging convert pOpts =
      .again {
        attempt := state.attempt + 1
        pos := 0
        frameSize := frameSize
        opts := some (retryOpts pOpts
          (if asUsize perFrame < 2 then asUsize perFrame else asUsize perFrame / 2))
        file := {} } := by
  obtain ⟨hreader, hstaging, hempties⟩ := hrewinds
  rw [step, hrefused]
  simp only [hsize, hreader, hstaging, hempties, not_true_eq_false, if_false]
  rfl

/-- The states the loop comes to. -/
inductive Retries (overflowChecks : Bool) (reader : RetryReader) (staging : Staging)
    (convert : Input → Nat → Option CompressOptions → Option (Except Error Bytes))
    (pOpts : Option CompressOptions) (start : Retry) : Retry → Prop where
  | start : Retries overflowChecks reader staging convert pOpts start start
  | again {state next : Retry}
      (before : Retries overflowChecks reader staging convert pOpts start state)
      (again : state.step overflowChecks reader staging convert pOpts = .again next) :
      Retries overflowChecks reader staging convert pOpts start next

theorem Retries.head {start : Retry}
    (hagain : state.step overflowChecks reader staging convert pOpts = .again start)
    (h : Retries overflowChecks reader staging convert pOpts start next) :
    Retries overflowChecks reader staging convert pOpts state next := by
  induction h with
  | start => exact .again .start hagain
  | again _ hstep ih => exact .again ih hstep

/-- Behind the first attempt there is another only if that one is tried again. -/
theorem Retries.tail {start : Retry}
    (h : Retries overflowChecks reader staging convert pOpts start state) :
    state = start ∨
      ∃ next, start.step overflowChecks reader staging convert pOpts = .again next := by
  induction h with
  | start => exact Or.inl rfl
  | again _ hstep ih =>
      rcases ih with rfl | hfirst
      · exact Or.inr ⟨_, hstep⟩
      · exact Or.inr hfirst

/-- A run that returns comes to the attempt that returns it. -/
theorem exists_of_runFuel {fuel : Nat} {result : Except Error Bytes}
    (h : runFuel overflowChecks reader staging convert pOpts fuel state =
      some (.returned result)) :
    ∃ last, Retries overflowChecks reader staging convert pOpts state last ∧
      last.step overflowChecks reader staging convert pOpts = .returned result := by
  induction fuel generalizing state with
  | zero => cases h
  | succ fuel ih =>
      rw [runFuel] at h
      cases hstep : state.step overflowChecks reader staging convert pOpts with
      | returned result' =>
          rw [hstep] at h
          cases h
          exact ⟨state, .start, hstep⟩
      | panicked =>
          rw [hstep] at h
          cases h
      | again next =>
          rw [hstep] at h
          obtain ⟨last, hretries, hlast⟩ := ih h
          exact ⟨last, hretries.head hstep, hlast⟩

/-- Behind the first attempt the reader stands at its start, the staging file is empty, and a
count is set that an `i64` holds. -/
theorem Retries.fresh {start : Retry}
    (h : Retries overflowChecks reader staging convert pOpts start state) :
    state = start ∨ state.pos = 0 ∧ state.file = {} ∧
      ∃ count < 2 ^ 63, state.opts = some (retryOpts pOpts count) := by
  cases h with
  | start => exact Or.inl rfl
  | @again state' _ _ hagain =>
      right
      have hattempt := step_attempt overflowChecks reader staging convert pOpts state'
      rw [hagain] at hattempt
      cases hattempt with
      | @again perFrame _ _ sets =>
          have hlt := asUsize_lt perFrame
          refine ⟨sets.pos, sets.file, ?_⟩
          rcases sets.halves with ⟨hcount, -, hopts⟩ | ⟨-, -, hopts⟩
          · exact ⟨_, by omega, hopts⟩
          · exact ⟨_, by omega, hopts⟩

end Retry

/-! ### What is delivered -/

section Records

variable {overflowChecks : Bool} {reader : RetryReader} {staging : Staging} {frameSize : Nat}
  {isSame : Bool} {limitMultiplier : Option Nat} {opts : Option CompressOptions} {fuel : Nat}
  {input : Input}

theorem convert_of_buffered {result : Except Error Bytes}
    (h : convertBuffered zeek overflowChecks isSame find limitMultiplier input frameSize opts =
      some result) :
    convertRecordsToSeekableZst zeek input frameSize isSame find limitMultiplier opts =
      result := by
  rw [convertBuffered] at h
  split at h
  · cases h
  · split at h
    · cases h
    · exact Option.some.inj h

/-- An attempt is tried again where a read of it overran the limit. -/
theorem overruns_of_refused (hown : zeek.OwnErrors) {perFrame : Int}
    (h : convertBuffered zeek overflowChecks isSame find limitMultiplier input frameSize opts =
      some (.error (.compressErrorData perFrame))) :
    isSame = true ∧
      Overruns find (saturatingMul frameSize (limitMultiplier.getD limitSepBufMultiplier)) []
        (chunks input) ∧
      ((Compression.start zeek opts input).maxOfSeparator ≠ -1 →
        perFrame = (Compression.start zeek opts input).maxOfSeparator) :=
  convert_refuses hown input.ioCopy_own (convert_of_buffered h)

theorem decompresses_of_convert {bytes : Bytes}
    (h : convertRecordsToSeekableZst zeek input frameSize isSame find limitMultiplier opts =
      .ok bytes) : Decompresses zeek bytes input.data := by
  obtain ⟨made, hmade, hroom, rfl⟩ := convert_made h
  refine ⟨⟨made.flatten, hroom, fun _ => 0, fun _ => none⟩, rfl, ?_⟩
  rw [Archive.data, Archive.contents, flatten_contents_of_made hmade, flatten_frames]

/-- The entry point for separators is that for finders. -/
theorem compressToSeekableZst_eq {separator : Bytes} (hne : separator ≠ []) :
    compressToSeekableZst zeek overflowChecks reader staging frameSize isSame separator
        limitMultiplier opts fuel =
      compressRecordsToSeekableZst zeek overflowChecks reader staging frameSize isSame
        (separatorFinder separator hne) limitMultiplier opts fuel := by
  rw [compressToSeekableZst, dif_neg hne, compressRecordsToSeekableZst]

/-- What a call hands to the loop. -/
def retryStart (reader : RetryReader) (frameSize : Nat) (opts : Option CompressOptions) : Retry :=
  { pos := reader.pos, frameSize := frameSize, opts := opts }

/-- Retries that return a file come to an attempt that makes it, and what that one makes is all
there is in the staging file. -/
theorem exists_of_retried
    {convert : Input → Nat → Option CompressOptions → Option (Except Error Bytes)}
    {delivered : Bytes}
    (h : compressWithRetry overflowChecks reader staging frameSize opts convert fuel =
      some (.returned (.ok delivered))) :
    ∃ last, Retry.Retries overflowChecks reader staging convert opts
        (retryStart reader frameSize opts) last ∧
      last.step overflowChecks reader staging convert opts = .returned (.ok delivered) ∧
      convert (reader.input last.attempt last.pos) last.frameSize last.opts =
        some (.ok delivered) := by
  rw [compressWithRetry] at h
  split at h
  · cases h
  · obtain ⟨last, hretries, hlast⟩ := Retry.exists_of_runFuel h
    refine ⟨last, hretries, hlast, ?_⟩
    have hattempt := Retry.step_attempt overflowChecks reader staging convert opts last
    rw [hlast] at hattempt
    have hfile : last.file = {} := by
      rcases hretries.fresh with rfl | ⟨-, hfile, -⟩
      · rfl
      · exact hfile
    generalize hout : Except.ok delivered = out at hattempt
    cases hattempt with
    | failed => cases hout
    | @delivered bytes converts =>
        cases hout
        rw [converts, hfile]
        simp [StagingFile.write, StagingFile.rewind, StagingFile.ahead]

theorem exists_of_compress {delivered : Bytes}
    (h : compressRecordsToSeekableZst zeek overflowChecks reader staging frameSize isSame find
      limitMultiplier opts fuel = some (.returned (.ok delivered))) :
    ∃ last, Retry.Retries overflowChecks reader staging
        (convertBuffered zeek overflowChecks isSame find limitMultiplier) opts
        (retryStart reader frameSize opts) last ∧
      last.step overflowChecks reader staging
        (convertBuffered zeek overflowChecks isSame find limitMultiplier) opts =
          .returned (.ok delivered) ∧
      convertRecordsToSeekableZst zeek (reader.input last.attempt last.pos) last.frameSize isSame
        find limitMultiplier last.opts = .ok delivered := by
  rw [compressRecordsToSeekableZst] at h
  obtain ⟨last, hretries, hlast, hconvert⟩ := exists_of_retried h
  exact ⟨last, hretries, hlast, convert_of_buffered hconvert⟩

/-- What a call delivers decompresses to what its reader held from where it stood, unless it stood
somewhere past the start and the first attempt overran its limit: every other attempt starts at the
start. -/
theorem retried_bytes_iff (hown : zeek.OwnErrors) {delivered : Bytes}
    (h : compressRecordsToSeekableZst zeek overflowChecks reader staging frameSize isSame find
      limitMultiplier opts fuel = some (.returned (.ok delivered))) :
    Decompresses zeek delivered (reader.data.drop reader.pos) ↔
      reader.pos = 0 ∨ ¬ (isSame = true ∧
        Overruns find (saturatingMul frameSize (limitMultiplier.getD limitSepBufMultiplier)) []
          (chunks (reader.input 0 reader.pos))) := by
  obtain ⟨last, hretries, hlast, hconvert⟩ := exists_of_compress h
  have hmade : Decompresses zeek delivered (reader.data.drop last.pos) :=
    decompresses_of_convert hconvert
  constructor
  · intro hheld
    rcases Nat.eq_zero_or_pos reader.pos with hzero | hpos
    · exact Or.inl hzero
    · right
      rintro ⟨-, hover⟩
      have hlong := hover.lt_length
      rw [List.nil_append, flatten_chunks] at hlong
      have hfront : (ioCopy (reader.input 0 reader.pos)).2.length ≤
          (reader.data.drop reader.pos).length :=
        (ioCopy_spec (reader.input 0 reader.pos)).1.length_le
      rcases hretries.fresh with rfl | ⟨hstart, -, -⟩
      · exact (convert_returns hconvert).2.1 hover
      · rw [hstart] at hmade
        have hsame := congrArg List.length (hmade.unique hheld)
        rw [List.drop_zero, List.length_drop] at hsame
        rw [List.length_drop] at hfront
        omega
  · intro hwhere
    have hpos : last.pos = reader.pos := by
      rcases hretries.fresh with rfl | ⟨hstart, -, -⟩
      · rfl
      · rcases hwhere with hzero | hin
        · rw [hstart, hzero]
        · -- behind a first attempt that did not overrun its limit there is no other
          cases hretries.tail with
          | inl hfirst => rw [hfirst]; rfl
          | inr hagain =>
              obtain ⟨next, hnext⟩ := hagain
              have hattempt := Retry.step_attempt overflowChecks reader staging
                (convertBuffered zeek overflowChecks isSame find limitMultiplier) opts
                (retryStart reader frameSize opts)
              rw [hnext] at hattempt
              cases hattempt with
              | again refused _ =>
                  obtain ⟨hsame, hover, -⟩ := overruns_of_refused hown refused
                  exact absurd ⟨hsame, hover⟩ hin
    rw [← hpos]
    exact hmade

/-! ### Whether it returns -/

/-- The limit of an attempt, where it can be bought a buffer. -/
theorem saturatingMul_of_le {a b : Nat} (h : a * b ≤ isizeMax) : saturatingMul a b = a * b := by
  apply Nat.min_eq_left
  rw [isizeMax] at h
  rw [usizeMax]
  omega

theorem convertBuffered_of_le (input : Input)
    (h : frameSize * limitMultiplier.getD limitSepBufMultiplier ≤ isizeMax) :
    convertBuffered zeek overflowChecks isSame find limitMultiplier input frameSize opts =
      some (convertRecordsToSeekableZst zeek input frameSize isSame find limitMultiplier
        opts) := by
  have husize : frameSize * limitMultiplier.getD limitSepBufMultiplier ≤ usizeMax := by
    rw [isizeMax] at h
    rw [usizeMax]
    omega
  rw [convertBuffered, mulUsize_of_le husize]
  exact if_neg (Nat.not_lt.mpr h)

variable {state : Retry}

/-- What an attempt comes to whose buffer can be asked for: it is tried again only with a limit
below the length of the input, and then neither the size doubled nor the next buffer overflows. -/
theorem step_of_fits (hown : zeek.OwnErrors) (hlen : reader.data.length ≤ 2 ^ 62)
    (hfits : state.frameSize * limitMultiplier.getD limitSepBufMultiplier ≤ isizeMax)
    (hzero : isSame = true → state.frameSize * limitMultiplier.getD limitSepBufMultiplier = 0 →
      reader.data.drop state.pos = []) :
    (∃ result, state.step overflowChecks reader staging
      (convertBuffered zeek overflowChecks isSame find limitMultiplier) opts =
        .returned result) ∨
    ∃ next perFrame, state.step overflowChecks reader staging
        (convertBuffered zeek overflowChecks isSame find limitMultiplier) opts = .again next ∧
      Retry.Again overflowChecks opts (asUsize perFrame) state next ∧
      0 < state.frameSize * limitMultiplier.getD limitSepBufMultiplier ∧
      state.frameSize * limitMultiplier.getD limitSepBufMultiplier < reader.data.length ∧
      ((Compression.start zeek state.opts (reader.input state.attempt state.pos)).maxOfSeparator
          ≠ -1 →
        perFrame =
          (Compression.start zeek state.opts
            (reader.input state.attempt state.pos)).maxOfSeparator) := by
  -- an attempt that is refused has read more than its limit
  have hrefused : ∀ perFrame, convertBuffered zeek overflowChecks isSame find limitMultiplier
      (reader.input state.attempt state.pos) state.frameSize state.opts =
        some (.error (.compressErrorData perFrame)) →
      0 < state.frameSize * limitMultiplier.getD limitSepBufMultiplier ∧
        state.frameSize * limitMultiplier.getD limitSepBufMultiplier < reader.data.length := by
    intro perFrame hrefused
    obtain ⟨hsame, hover, -⟩ := overruns_of_refused hown hrefused
    have hlong := hover.lt_length
    have hfront : (ioCopy (reader.input state.attempt state.pos)).2.length ≤
        (reader.data.drop state.pos).length :=
      (ioCopy_spec (reader.input state.attempt state.pos)).1.length_le
    rw [List.nil_append, flatten_chunks, saturatingMul_of_le hfits] at hlong
    constructor
    · apply Nat.pos_of_ne_zero
      intro hnone
      rw [hzero hsame hnone] at hfront
      exact Nat.not_lt_zero _ (Nat.lt_of_lt_of_le hlong hfront)
    · rw [List.length_drop] at hfront
      omega
  have hattempt := Retry.step_attempt overflowChecks reader staging
    (convertBuffered zeek overflowChecks isSame find limitMultiplier) opts state
  generalize state.step overflowChecks reader staging
    (convertBuffered zeek overflowChecks isSame find limitMultiplier) opts = out at hattempt ⊢
  cases hattempt with
  | unbuffered converts =>
      rw [convertBuffered_of_le _ hfits] at converts
      cases converts
  | undoubled refused overflows =>
      obtain ⟨hpos, hless⟩ := hrefused _ refused
      have hsize := Nat.le_mul_of_pos_right state.frameSize (Nat.pos_of_mul_pos_left hpos)
      have hdouble : state.frameSize * 2 ≤ usizeMax := by
        rw [usizeMax]
        omega
      rw [mulUsize_of_le hdouble] at overflows
      cases overflows
  | failed e => exact Or.inl ⟨_, rfl⟩
  | delivered converts => exact Or.inl ⟨_, rfl⟩
  | again refused sets =>
      obtain ⟨hpos, hless⟩ := hrefused _ refused
      exact Or.inr ⟨_, _, rfl, sets, hpos, hless, (overruns_of_refused hown refused).2.2⟩

/-- A product that was passed can be doubled. -/
theorem fits_double {a b len : Nat} (hlen : len ≤ 2 ^ 62) (hpos : 0 < a * b) (hless : a * b < len) :
    a * 2 ≤ usizeMax ∧ 0 < a * 2 * b ∧ a * 2 * b ≤ isizeMax ∧ len - a * 2 < len - a := by
  have ha : 0 < a := Nat.pos_of_mul_pos_right hpos
  have hsize := Nat.le_mul_of_pos_right a (Nat.pos_of_mul_pos_left hpos)
  have hdouble : a * 2 * b = 2 * (a * b) := by ring
  rw [hdouble, usizeMax, isizeMax]
  omega

theorem runFuel_of_step {next : Retry} {fuel : Nat}
    {convert : Input → Nat → Option CompressOptions → Option (Except Error Bytes)}
    (h : state.step overflowChecks reader staging convert opts = .again next) :
    Retry.runFuel overflowChecks reader staging convert opts (fuel + 1) state =
      Retry.runFuel overflowChecks reader staging convert opts fuel next := by
  rw [Retry.runFuel, h]

/-- With a count set, a loop returns. The frame size is doubled only below the length of the
input, and between two doublings the count is halved. -/
theorem runFuel_returns (hown : zeek.OwnErrors) (hlen : reader.data.length ≤ 2 ^ 62)
    (hpos : 0 < state.frameSize * limitMultiplier.getD limitSepBufMultiplier)
    (hfits : state.frameSize * limitMultiplier.getD limitSepBufMultiplier ≤ isizeMax)
    {count : Nat} (hcount : count < 2 ^ 63)
    (hopts : state.opts = some (Retry.retryOpts opts count)) :
    ∃ fuel result, Retry.runFuel overflowChecks reader staging
      (convertBuffered zeek overflowChecks isSame find limitMultiplier) opts fuel state =
        some (.returned result) := by
  induction hroom : reader.data.length - state.frameSize using Nat.strongRecOn
    generalizing state count with
  | ind room ihSize =>
      induction count using Nat.strongRecOn generalizing state with
      | ind count ihCount =>
          rcases @step_of_fits zeek find overflowChecks reader staging isSame limitMultiplier opts
              state hown hlen hfits (fun _ hzero => absurd hzero (Nat.ne_of_gt hpos)) with
            ⟨result, hreturns⟩ | ⟨next, perFrame, hagain, sets, -, hless, hheld⟩
          · refine ⟨1, result, ?_⟩
            rw [Retry.runFuel, hreturns]
          · -- the count the attempt passed its limit with is the one that is set
            have hset : (Compression.start zeek state.opts
                (reader.input state.attempt state.pos)).maxOfSeparator = count := by
              rw [hopts]
              exact asI64_of_lt hcount
            have hperFrame : asUsize perFrame = count := by
              rw [hheld (by rw [hset]; omega), hset, asUsize_natCast (by omega)]
            rw [hperFrame] at sets
            have hlater : ∃ fuel result, Retry.runFuel overflowChecks reader staging
                (convertBuffered zeek overflowChecks isSame find limitMultiplier) opts fuel next =
                  some (.returned result) := by
              rcases sets.halves with ⟨-, hdouble, hopts'⟩ | ⟨hmore, hsize, hopts'⟩
              · obtain ⟨husize, hpos', hfits', hroom'⟩ := fits_double hlen hpos hless
                rw [mulUsize_of_le husize, Option.some.injEq] at hdouble
                rw [hdouble] at hpos' hfits' hroom'
                exact ihSize _ (hroom ▸ hroom') hpos' hfits' hcount hopts' rfl
              · rw [← hsize] at hpos hfits hroom
                exact ihCount (count / 2) (by omega) hpos hfits (by omega) hopts' hroom
            obtain ⟨fuel, result, hrun⟩ := hlater
            exact ⟨fuel + 1, result, (runFuel_of_step hagain).trans hrun⟩

/-- The call returns, with a file or with an error. -/
def Returns (zeek : Zeekstd) (overflowChecks : Bool) (reader : RetryReader) (staging : Staging)
    (frameSize : Nat) (isSame : Bool) (find : Finder UInt8) (limitMultiplier : Option Nat)
    (opts : Option CompressOptions) : Prop :=
  ∃ fuel result, compressRecordsToSeekableZst zeek overflowChecks reader staging frameSize isSame
    find limitMultiplier opts fuel = some (.returned result)

theorem returns_of_fits (hown : zeek.OwnErrors) (hlen : reader.data.length ≤ 2 ^ 62)
    (hfits : frameSize * limitMultiplier.getD limitSepBufMultiplier ≤ isizeMax)
    (hzero : isSame = true → frameSize * limitMultiplier.getD limitSepBufMultiplier = 0 →
      reader.data.drop reader.pos = []) :
    Returns zeek overflowChecks reader staging frameSize isSame find limitMultiplier opts := by
  by_cases hcreated : staging.created = true
  · have hrun : ∃ fuel result, Retry.runFuel overflowChecks reader staging
        (convertBuffered zeek overflowChecks isSame find limitMultiplier) opts fuel
        (retryStart reader frameSize opts) = some (.returned result) := by
      rcases @step_of_fits zeek find overflowChecks reader staging isSame limitMultiplier opts
          (retryStart reader frameSize opts) hown hlen hfits hzero with
        ⟨result, hreturns⟩ | ⟨next, perFrame, hagain, sets, hpos, hless, -⟩
      · refine ⟨1, result, ?_⟩
        rw [Retry.runFuel, hreturns]
      · have hlt := asUsize_lt perFrame
        have hlater : ∃ fuel result, Retry.runFuel overflowChecks reader staging
            (convertBuffered zeek overflowChecks isSame find limitMultiplier) opts fuel next =
              some (.returned result) := by
          rcases sets.halves with ⟨hcount, hdouble, hopts⟩ | ⟨hmore, hsize, hopts⟩
          · obtain ⟨husize, hpos', hfits', -⟩ := fits_double hlen hpos hless
            rw [mulUsize_of_le husize, Option.some.injEq] at hdouble
            rw [hdouble] at hpos' hfits'
            exact runFuel_returns hown hlen hpos' hfits' (by omega) hopts
          · rw [← hsize] at hpos
            have hfits' : next.frameSize * limitMultiplier.getD limitSepBufMultiplier ≤
                isizeMax := by
              rw [hsize]
              exact hfits
            exact runFuel_returns hown hlen hpos hfits' (by omega) hopts
        obtain ⟨fuel, result, hrun⟩ := hlater
        exact ⟨fuel + 1, result, (runFuel_of_step hagain).trans hrun⟩
    obtain ⟨fuel, result, hrun⟩ := hrun
    refine ⟨fuel, result, ?_⟩
    rw [compressRecordsToSeekableZst, compressWithRetry, if_neg (not_not_intro hcreated)]
    exact hrun
  · refine ⟨0, .error (.external "failed to make the staging file"), ?_⟩
    rw [compressRecordsToSeekableZst, compressWithRetry, if_pos hcreated]

/-- A buffer that cannot be asked for is a panic, in a build that checks for overflow. -/
theorem not_returns_of_over (hcreated : staging.created = true)
    (hover : isizeMax < frameSize * limitMultiplier.getD limitSepBufMultiplier) :
    ¬ Returns zeek true reader staging frameSize isSame find limitMultiplier opts := by
  have hbuffer : ∀ input, convertBuffered zeek true isSame find limitMultiplier input frameSize
      opts = none := by
    intro input
    rw [convertBuffered, mulUsize]
    by_cases hfits : frameSize * limitMultiplier.getD limitSepBufMultiplier ≤ usizeMax
    · rw [if_pos hfits]
      exact if_pos hover
    · rw [if_neg hfits, if_pos rfl]
  rintro ⟨fuel, result, hrun⟩
  rw [compressRecordsToSeekableZst, compressWithRetry, if_neg (not_not_intro hcreated)] at hrun
  cases fuel with
  | zero => cases hrun
  | succ fuel =>
      rw [Retry.runFuel, Retry.step, hbuffer] at hrun
      cases hrun

/-- A limit of nothing is overrun by the first read. -/
theorem convert_of_zero (hsame : isSame = true)
    (hzero : frameSize * limitMultiplier.getD limitSepBufMultiplier = 0)
    (hreads : ∀ tick, input.schedule tick ≠ none) (hdata : input.data ≠ []) :
    ∃ perFrame, convertBuffered zeek overflowChecks isSame find limitMultiplier input frameSize
      opts = some (.error (.compressErrorData perFrame)) := by
  have hfits : frameSize * limitMultiplier.getD limitSepBufMultiplier ≤ isizeMax := by
    rw [hzero]
    exact Nat.zero_le _
  have hlimit : saturatingMul frameSize (limitMultiplier.getD limitSepBufMultiplier) = 0 := by
    rw [saturatingMul_of_le hfits, hzero]
  rw [convertBuffered_of_le _ hfits]
  have hending := (ioCopy_spec input).2.2 hreads
  have hall := (ioCopy_spec input).2.1 hending
  cases hread : Read.read input readBufSize with
  | error e =>
      rw [ioCopy_of_error hread] at hending
      cases hending
  | ok got =>
      obtain ⟨bytes, source⟩ := got
      by_cases hne : bytes = []
      · subst hne
        rw [ioCopy_of_end hread] at hall
        exact absurd hall.symm hdata
      · have hover : saturatingMul frameSize (limitMultiplier.getD limitSepBufMultiplier) <
            (find.rest []).length + bytes.length := by
          have hpos := List.length_pos_iff.mpr hne
          omega
        have hloop : (Compression.start zeek opts input).loopFuel find isSame frameSize
            (limitMultiplier.getD limitSepBufMultiplier) (Read.budget input + 1) =
              .error (.compressErrorData (Compression.start zeek opts input).maxOfSeparator) := by
          rw [(Compression.reading_start input opts).loop_over hread hne hover, if_pos hsame]
        exact ⟨_, congrArg some (convert_of_error hloop)⟩

theorem mulUsize_mul_eq_zero {a b c : Nat} (h : mulUsize overflowChecks a 2 = some c)
    (hzero : a * b = 0) : c * b = 0 := by
  rcases Nat.mul_eq_zero.mp hzero with rfl | rfl
  · cases h
    exact Nat.zero_mul _
  · exact Nat.mul_zero _

/-- Such a limit stays as it is, however often it is doubled. -/
theorem not_returns_of_zero (hcreated : staging.created = true) (hsame : isSame = true)
    (hzero : frameSize * limitMultiplier.getD limitSepBufMultiplier = 0)
    (hreads : ∀ attempt tick, reader.schedule attempt tick ≠ none)
    (hrewinds : ∀ attempt, reader.rewinds attempt = true ∧ staging.rewinds attempt = true ∧
      staging.empties attempt = true)
    (hdata : reader.data.drop reader.pos ≠ []) :
    ¬ Returns zeek overflowChecks reader staging frameSize isSame find limitMultiplier opts := by
  have hstuck : ∀ fuel (state : Retry),
      state.frameSize * limitMultiplier.getD limitSepBufMultiplier = 0 →
      reader.data.drop state.pos ≠ [] → ∀ result,
      Retry.runFuel overflowChecks reader staging
        (convertBuffered zeek overflowChecks isSame find limitMultiplier) opts fuel state ≠
          some (.returned result) := by
    intro fuel
    induction fuel with
    | zero =>
        rintro state - - result ⟨⟩
    | succ fuel ih =>
        intro state hzero hdata result hrun
        obtain ⟨perFrame, hrefused⟩ := @convert_of_zero zeek find overflowChecks state.frameSize
          isSame limitMultiplier state.opts (reader.input state.attempt state.pos) hsame hzero
          (hreads state.attempt) hdata
        cases hsize : if asUsize perFrame < 2 then mulUsize overflowChecks state.frameSize 2
            else some state.frameSize with
        | none =>
            rw [Retry.runFuel, Retry.step, hrefused] at hrun
            simp only [hsize] at hrun
            cases hrun
        | some frameSize' =>
            rw [runFuel_of_step (Retry.step_of_refused hrefused hsize (hrewinds _))] at hrun
            refine ih _ ?_ ?_ result hrun
            · split at hsize
              · exact mulUsize_mul_eq_zero hsize hzero
              · cases hsize
                exact hzero
            · intro hnil
              rw [List.drop_zero] at hnil
              exact hdata (by rw [hnil, List.drop_nil])
  rintro ⟨fuel, result, hrun⟩
  rw [compressRecordsToSeekableZst, compressWithRetry, if_neg (not_not_intro hcreated)] at hrun
  exact hstuck fuel _ hzero hdata result hrun

/-- What a call that returns where nothing else fails needs. -/
theorem fits_of_returns (hcreated : staging.created = true)
    (hreads : ∀ attempt tick, reader.schedule attempt tick ≠ none)
    (hrewinds : ∀ attempt, reader.rewinds attempt = true ∧ staging.rewinds attempt = true ∧
      staging.empties attempt = true)
    (h : Returns zeek true reader staging frameSize isSame find limitMultiplier opts) :
    frameSize * limitMultiplier.getD limitSepBufMultiplier ≤ isizeMax ∧
      (isSame = true → frameSize * limitMultiplier.getD limitSepBufMultiplier = 0 →
        reader.data.drop reader.pos = []) := by
  constructor
  · by_contra hover
    exact not_returns_of_over hcreated (Nat.lt_of_not_le hover) h
  · intro hsame hzero
    by_contra hdata
    exact not_returns_of_zero hcreated hsame hzero hreads hrewinds hdata h

/-- A call returns whatever fails, and overflows nowhere, only where its buffer can be asked for
and its limit is not nothing while there is something to read; and for an input of at most `2 ^ 62`
bytes it does there. -/
theorem compress_returns_iff (hown : zeek.OwnErrors) (data : Bytes) (pos : Nat) :
    ((∀ overflowChecks schedule rewinds staging,
        Returns zeek overflowChecks
          { data := data, pos := pos, schedule := schedule, rewinds := rewinds } staging frameSize
          isSame find limitMultiplier opts) →
      frameSize * limitMultiplier.getD limitSepBufMultiplier ≤ isizeMax ∧
        (isSame = true → frameSize * limitMultiplier.getD limitSepBufMultiplier = 0 →
          data.drop pos = [])) ∧
    (data.length ≤ 2 ^ 62 →
      frameSize * limitMultiplier.getD limitSepBufMultiplier ≤ isizeMax ∧
        (isSame = true → frameSize * limitMultiplier.getD limitSepBufMultiplier = 0 →
          data.drop pos = []) →
      ∀ overflowChecks schedule rewinds staging,
        Returns zeek overflowChecks
          { data := data, pos := pos, schedule := schedule, rewinds := rewinds } staging frameSize
          isSame find limitMultiplier opts) := by
  constructor
  · intro hreturns
    apply fits_of_returns rfl _ (fun _ => ⟨rfl, rfl, rfl⟩) (hreturns true (fun _ _ => some 0)
      (fun _ => true) ⟨true, fun _ => [], fun _ => true, fun _ => true, true⟩)
    rintro attempt tick ⟨⟩
  · rintro hlen ⟨hfits, hzero⟩ overflowChecks schedule rewinds staging
    exact returns_of_fits hown hlen hfits hzero

/-! ### What it settles on -/

/-- A call that returns a file behind a first attempt that passed its limit. The attempt it settles
on would not have passed its limit with any other count either, nor would one before it that passed
its limit have kept to it: the count has no part in it. So where both were read alike it is the
frame size that was doubled, with one record to a frame or none. -/
theorem settles_on_frame_size (hown : zeek.OwnErrors) {delivered : Bytes}
    (h : compressRecordsToSeekableZst zeek overflowChecks reader staging frameSize isSame find
      limitMultiplier opts fuel = some (.returned (.ok delivered)))
    (hretried : compressRecordsToSeekableZst zeek overflowChecks reader staging frameSize isSame
      find limitMultiplier opts 1 = none) :
    ∃ before settled : Retry,
      Retry.Retries overflowChecks reader staging
        (convertBuffered zeek overflowChecks isSame find limitMultiplier) opts
        (retryStart reader frameSize opts) before ∧
      before.step overflowChecks reader staging
        (convertBuffered zeek overflowChecks isSame find limitMultiplier) opts =
          .again settled ∧
      settled.step overflowChecks reader staging
        (convertBuffered zeek overflowChecks isSame find limitMultiplier) opts =
          .returned (.ok delivered) ∧
      (∀ otherOpts perFrame, convertRecordsToSeekableZst zeek
        (reader.input settled.attempt settled.pos) settled.frameSize isSame find limitMultiplier
        otherOpts ≠ .error (.compressErrorData perFrame)) ∧
      (∀ otherOpts bytes, convertRecordsToSeekableZst zeek
        (reader.input before.attempt before.pos) before.frameSize isSame find limitMultiplier
        otherOpts ≠ .ok bytes) ∧
      (chunks (reader.input before.attempt before.pos) =
          chunks (reader.input settled.attempt settled.pos) →
        mulUsize overflowChecks before.frameSize 2 = some settled.frameSize ∧
          ∃ count < 2, settled.opts = some (Retry.retryOpts opts count)) := by
  obtain ⟨settled, hretries, hsettled, hconvert⟩ := exists_of_compress h
  have hin := (convert_returns hconvert).2.1
  cases hretries with
  | start =>
      -- the first attempt would have returned
      rw [compressRecordsToSeekableZst, compressWithRetry] at hretried
      split at hretried
      · cases hretried
      · have hstep : (retryStart reader frameSize opts).step overflowChecks reader staging
            (convertBuffered zeek overflowChecks isSame find limitMultiplier) opts =
              .returned (.ok delivered) := hsettled
        rw [retryStart] at hstep
        rw [Retry.runFuel, hstep] at hretried
        cases hretried
  | @again before _ hbefore hagain =>
      have hattempt := Retry.step_attempt overflowChecks reader staging
        (convertBuffered zeek overflowChecks isSame find limitMultiplier) opts before
      rw [hagain] at hattempt
      cases hattempt with
      | @again perFrame _ refused sets =>
          obtain ⟨-, hover, -⟩ := overruns_of_refused hown refused
          refine ⟨before, settled, hbefore, hagain, hsettled, ?_, ?_, ?_⟩
          · intro otherOpts perFrame' hrefused
            exact hin (convert_refuses hown (Input.ioCopy_own _) hrefused).2.1
          · intro otherOpts bytes hok
            exact (convert_returns hok).2.1 hover
          · intro halike
            rcases sets.halves with ⟨hcount, hdouble, hopts⟩ | ⟨-, hsize, -⟩
            · exact ⟨hdouble, _, hcount, hopts⟩
            · rw [halike, ← hsize] at hover
              exact absurd hover hin

end Records

theorem storedZeekstd_ownErrors : storedZeekstd.OwnErrors := by
  rintro checksum level data perFrame ⟨⟩

/-- Two lines, read from `pos` on in as few reads as can be. -/
def twoLines (pos : Nat) : RetryReader :=
  { data := [97, 10, 98, 99, 100, 10]
    pos := pos
    schedule := fun _ _ => some wholeWish
    rewinds := fun _ => true }

/-- A staging file that nothing fails on. -/
def goodStaging : Staging :=
  { created := true
    left := fun _ => [1, 2, 3]
    rewinds := fun _ => true
    empties := fun _ => true
    delivers := true }

/-- The compression of two lines, one to a frame, under a limit of one byte. -/
def twoLinesCompressed (pos : Nat) : Option RetryOutcome :=
  compressRecordsToSeekableZst storedZeekstd true (twoLines pos) goodStaging 1 true
    lineBoundary.find (some 1) (some { maxOfSeparator := some 1 }) 4

/-- The file of the two lines. -/
def twoLinesArchive : Archive storedZeekstd := storedArchive [[97, 10], [98, 99, 100, 10]]

theorem compress_returns_iff_twoLines :
    Returns storedZeekstd true (twoLines 2) goodStaging 1 true lineBoundary.find (some 1) none := by
  have hfits : 1 * (some 1).getD limitSepBufMultiplier ≤ isizeMax := by decide
  exact (compress_returns_iff storedZeekstd_ownErrors (twoLines 2).data 2).2 (by decide)
    ⟨hfits, fun _ hzero => by cases hzero⟩ true (twoLines 2).schedule (twoLines 2).rewinds
    goodStaging

/-- With frames of no bytes there is no end of attempts. -/
theorem compress_never_returns_twoLines :
    ¬ Returns storedZeekstd true (twoLines 0) goodStaging 0 true lineBoundary.find none none := by
  apply not_returns_of_zero rfl rfl (Nat.zero_mul _)
  · rintro attempt tick ⟨⟩
  · exact fun _ => ⟨rfl, rfl, rfl⟩
  · decide

theorem retried_bytes_iff_twoLines :
    ∃ delivered, twoLinesCompressed 0 = some (.returned (.ok delivered)) ∧
      Decompresses storedZeekstd delivered (twoLines 0).data := by
  have hrun : twoLinesCompressed 0 =
      some (.returned (.ok twoLinesArchive.file.bytes)) := by decide +kernel
  exact ⟨_, hrun, (retried_bytes_iff storedZeekstd_ownErrors hrun).mpr (Or.inl rfl)⟩

/-- From the second line on, three attempts pass the limit, and the fourth delivers both. -/
theorem retried_bytes_differ_twoLines :
    ∃ delivered, twoLinesCompressed 2 = some (.returned (.ok delivered)) ∧
      ¬ Decompresses storedZeekstd delivered ((twoLines 2).data.drop 2) := by
  have hrun : twoLinesCompressed 2 =
      some (.returned (.ok twoLinesArchive.file.bytes)) := by decide +kernel
  have hboth : Decompresses storedZeekstd twoLinesArchive.file.bytes (twoLines 2).data :=
    ⟨twoLinesArchive, rfl, by decide +kernel⟩
  refine ⟨_, hrun, fun hsecond => ?_⟩
  have hsame := hboth.unique hsecond
  revert hsame
  decide

theorem settles_on_frame_size_twoLines :
    ∃ before settled : Retry,
      before.step true (twoLines 0) goodStaging
        (convertBuffered storedZeekstd true true lineBoundary.find (some 1))
        (some { maxOfSeparator := some 1 }) = .again settled ∧
      settled.step true (twoLines 0) goodStaging
        (convertBuffered storedZeekstd true true lineBoundary.find (some 1))
        (some { maxOfSeparator := some 1 }) = .returned (.ok twoLinesArchive.file.bytes) ∧
      ∀ otherOpts bytes, convertRecordsToSeekableZst storedZeekstd
        ((twoLines 0).input before.attempt before.pos) before.frameSize true lineBoundary.find
        (some 1) otherOpts ≠ .ok bytes := by
  have hrun : twoLinesCompressed 0 =
      some (.returned (.ok twoLinesArchive.file.bytes)) := by decide +kernel
  have hretried : compressRecordsToSeekableZst storedZeekstd true (twoLines 0) goodStaging 1 true
      lineBoundary.find (some 1) (some { maxOfSeparator := some 1 }) 1 = none := by decide +kernel
  obtain ⟨before, settled, -, hagain, hsettled, -, hnone, -⟩ :=
    settles_on_frame_size storedZeekstd_ownErrors hrun hretried
  exact ⟨before, settled, hagain, hsettled, hnone⟩

/-! ### A record that is too long -/

section Oversized

variable {data : Bytes} {frameSize count attempt : Nat}

/-- Something longer than a read of a file. -/
def oversized (data : Bytes) : RetryReader :=
  { data := data, schedule := fun _ _ => some 0, rewinds := fun _ => true }

/-- Its attempts, with so many records to a frame, of forty thousand bytes each. -/
def oversizedAttempt (data : Bytes) (attempt frameSize count : Nat) : Except Error Bytes :=
  convertRecordsToSeekableZst storedZeekstd ((oversized data).input attempt 0) frameSize true
    (fixedFinder 40000) (some 4) (some { maxOfSeparator := some count })

theorem oversized_ioCopy (data : Bytes) (attempt : Nat) :
    ioCopy ((oversized data).input attempt 0) = (.ok (), data) := by
  have hspec := ioCopy_spec ((oversized data).input attempt 0)
  have hending := hspec.2.2 fun tick h => by cases h
  exact Prod.ext hending (hspec.2.1 hending)

theorem fixedFinder_none (hdata : data.length < 40000) : fixedFinder 40000 data = none :=
  if_neg fun h => Nat.not_le.mpr hdata h.2

theorem gather_fixedFinder_none (hdata : data.length < 40000) (due : Nat → Nat → Bool) :
    (fixedFinder 40000).gather due data = none := by
  rw [Finder.gather_eq_none_iff]
  refine Finder.firstAt_eq_none_iff.mpr fun i hpos hle => ?_
  rw [Finder.records_of_none _ (fixedFinder_none hdata)] at hle
  exact absurd hpos (Nat.not_lt.mpr hle)

theorem oversizedAttempt_refused (hdata : data.length < 40000) (hcount : count < 2 ^ 63)
    (hlimit : saturatingMul frameSize 4 < data.length) :
    oversizedAttempt data attempt frameSize count = .error (.compressErrorData count) := by
  have hflatten : (chunks ((oversized data).input attempt 0)).flatten = data := by
    rw [flatten_chunks, oversized_ioCopy]
  have hover : Overruns (fixedFinder 40000) (saturatingMul frameSize 4) []
      (chunks ((oversized data).input attempt 0)) := by
    apply overruns_of_none
    · rw [hflatten]
      exact fixedFinder_none hdata
    · rwa [hflatten]
  obtain ⟨perFrame, hrefused⟩ := @convert_overruns storedZeekstd Input (fixedFinder 40000) _ _
    ((oversized data).input attempt 0) frameSize true (some 4)
    (some { maxOfSeparator := some count }) rfl hover
    ({ checksum := true, level := 0 }, 0) (by
      rw [oversized_ioCopy, Finder.records_of_none _ (gather_fixedFinder_none hdata _)]
      rfl)
  have hheld := (convert_refuses storedZeekstd_ownErrors (Input.ioCopy_own _) hrefused).2.2
  have hstart : (Compression.start storedZeekstd (some { maxOfSeparator := some count })
      ((oversized data).input attempt 0)).maxOfSeparator = count := asI64_of_lt hcount
  rw [hstart] at hheld
  rw [oversizedAttempt, hrefused, hheld (by omega)]

theorem oversizedAttempt_returns (hne : data ≠ []) (hdata : data.length < 40000)
    (hlimit : data.length ≤ saturatingMul frameSize 4) :
    oversizedAttempt data attempt frameSize count = .ok (bytesOf [storedFrame data]) := by
  have hin : ¬ Overruns (fixedFinder 40000) (saturatingMul frameSize 4) []
      (chunks ((oversized data).input attempt 0)) := by
    intro hover
    have hlt := hover.lt_length
    rw [List.nil_append, flatten_chunks, oversized_ioCopy] at hlt
    exact Nat.not_lt.mpr hlimit hlt
  have hmost : 1 ≤ storedZeekstd.maxFrames := by decide
  have hwhole : data.length ≤ storedLimit := by
    have : 40000 ≤ storedLimit := by decide
    omega
  have hencode : storedZeekstd.encode true 0 data = .ok [storedFrame data] := by
    have hchunks : storedChunks (data.length + 1) data = [data] := if_pos hwhole
    exact congrArg (fun chunks => Except.ok (chunks.map (storedFrameOf true))) hchunks
  let encoder : Encoder storedZeekstd :=
    { checksum := true, level := 0, ended := [storedFrame data] }
  refine @convert_succeeds _ _ _ _ _ _ _ _ _ _ ?_ hin encoder ?_
  · rw [oversized_ioCopy]
  · rw [oversized_ioCopy, CutRule.frames,
      Finder.pieces_of_none (gather_fixedFinder_none hdata _) hne]
    exact (Encoder.encodeAll_eq_ok rfl).mpr
      ⟨[[storedFrame data]], .cons hencode .nil, Or.inr hmost, rfl⟩

/-- Its compression, with two records asked for in each frame. -/
def oversizedCompressed (data : Bytes) (fuel : Nat) : Option RetryOutcome :=
  compressRecordsToSeekableZst storedZeekstd true (oversized data) goodStaging 8192 true
    (fixedFinder 40000) (some 4) (some { maxOfSeparator := some 2 }) fuel

/-- What the loop carries to an attempt. -/
def oversizedState (attempt frameSize count : Nat) : Retry :=
  { attempt := attempt
    pos := 0
    frameSize := frameSize
    opts := some { maxOfSeparator := some count } }

theorem oversizedState_again (hdata : data.length < 40000) (hcount : count < 2 ^ 63)
    (hfits : frameSize * 4 ≤ isizeMax) (hlimit : saturatingMul frameSize 4 < data.length)
    {frameSize' count' : Nat}
    (hsize : (if count < 2 then mulUsize true frameSize 2 else some frameSize) = some frameSize')
    (hcount' : (if count < 2 then count else count / 2) = count') :
    (oversizedState attempt frameSize count).step true (oversized data) goodStaging
      (convertBuffered storedZeekstd true true (fixedFinder 40000) (some 4))
      (some { maxOfSeparator := some 2 }) =
        .again (oversizedState (attempt + 1) frameSize' count') := by
  have hrefused : convertBuffered storedZeekstd true true (fixedFinder 40000) (some 4)
      ((oversized data).input attempt 0) frameSize (some { maxOfSeparator := some count }) =
        some (.error (.compressErrorData count)) := by
    rw [convertBuffered_of_le _ hfits]
    exact congrArg some (oversizedAttempt_refused hdata hcount hlimit)
  have husize : asUsize count = count := asUsize_natCast (by omega)
  rw [← husize] at hsize
  have hstep := @Retry.step_of_refused true (oversized data) goodStaging
    (convertBuffered storedZeekstd true true (fixedFinder 40000) (some 4))
    (some { maxOfSeparator := some 2 }) (oversizedState attempt frameSize count) _ _ hrefused
    hsize ⟨rfl, rfl, rfl⟩
  rw [husize, hcount'] at hstep
  exact hstep

theorem oversizedState_returns (hne : data ≠ []) (hdata : data.length < 40000)
    (hfits : frameSize * 4 ≤ isizeMax) (hlimit : data.length ≤ saturatingMul frameSize 4) :
    (oversizedState attempt frameSize count).step true (oversized data) goodStaging
      (convertBuffered storedZeekstd true true (fixedFinder 40000) (some 4))
      (some { maxOfSeparator := some 2 }) = .returned (.ok (bytesOf [storedFrame data])) := by
  have hconvert : convertBuffered storedZeekstd true true (fixedFinder 40000) (some 4)
      ((oversized data).input attempt 0) frameSize (some { maxOfSeparator := some count }) =
        some (.ok (bytesOf [storedFrame data])) := by
    rw [convertBuffered_of_le _ hfits]
    exact congrArg some (oversizedAttempt_returns hne hdata hlimit)
  have hconvert' : convertBuffered storedZeekstd true true (fixedFinder 40000) (some 4)
      ((oversized data).input (oversizedState attempt frameSize count).attempt
        (oversizedState attempt frameSize count).pos)
      (oversizedState attempt frameSize count).frameSize
      (oversizedState attempt frameSize count).opts =
        some (.ok (bytesOf [storedFrame data])) := hconvert
  rw [Retry.step, hconvert']
  simp [goodStaging, oversizedState, StagingFile.write, StagingFile.rewind, StagingFile.ahead]

/-- A record of one byte more than a limit, with two records asked for in each frame: the call
settles on one in frames of twice the size, where two would have done. -/
theorem oversizedCompressed_settles :
    ∃ data, oversizedCompressed data 1 = none ∧
      (∃ delivered, oversizedCompressed data 3 = some (.returned (.ok delivered)) ∧
        oversizedAttempt data 2 16384 1 = .ok delivered) ∧
      ∃ bytes, oversizedAttempt data 2 16384 2 = .ok bytes := by
  obtain ⟨data, hlength⟩ : ∃ data : Bytes, data.length = 32769 :=
    ⟨List.replicate 32769 0, List.length_replicate⟩
  have hne : data ≠ [] := by
    rintro rfl
    cases hlength
  have hdata : data.length < 40000 := by omega
  have hsmall : saturatingMul 8192 4 < data.length := by
    rw [hlength]
    decide
  have hlarge : data.length ≤ saturatingMul 16384 4 := by
    rw [hlength]
    decide
  -- two records to a frame, then one, then one in a frame of twice the size
  have htwo := @oversizedState_again data 8192 2 0 hdata (by decide) (by decide) hsmall 8192 1
    rfl rfl
  have hone := @oversizedState_again data 8192 1 1 hdata (by decide) (by decide) hsmall 16384 1
    rfl rfl
  have hdouble := @oversizedState_returns data 16384 1 2 hne hdata (by decide) hlarge
  have hrun : ∀ fuel, oversizedCompressed data (fuel + 1) =
      Retry.runFuel true (oversized data) goodStaging
        (convertBuffered storedZeekstd true true (fixedFinder 40000) (some 4))
        (some { maxOfSeparator := some 2 }) fuel (oversizedState 1 8192 1) := by
    intro fuel
    have hstart : ({
        pos := (oversized data).pos
        frameSize := 8192
        opts := some { maxOfSeparator := some 2 } } : Retry) = oversizedState 0 8192 2 := rfl
    rw [oversizedCompressed, compressRecordsToSeekableZst, compressWithRetry, if_neg (by decide),
      hstart, runFuel_of_step htwo]
  refine ⟨data, hrun 0, ⟨_, ?_, oversizedAttempt_returns hne hdata hlarge⟩, _,
    oversizedAttempt_returns hne hdata hlarge⟩
  rw [hrun 2, runFuel_of_step hone, Retry.runFuel, hdouble]

end Oversized

end SeekZstdSep
