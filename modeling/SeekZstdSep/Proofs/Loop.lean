/-
Module: SeekZstdSep.Proofs.Loop
Purpose: What the compressor makes of a data source: whatever the reads it comes in, the frames
  its rule has of the whole, unless a read of it overruns the limit.
Trusted boundary: the library, as `Zeekstd` has it
Main exports: CutRule, ruleOf, chunks, Overruns, Reading, Verdict, convert_returns,
  convert_succeeds, convert_refuses
-/
import SeekZstdSep.Proofs.Compress

namespace SeekZstdSep

open Lib

variable {zeek : Zeekstd} {R : Type} {find : Finder UInt8}

/-! ### The reads of a source -/

section Chunks

variable [Read R] {source source' : R}

def chunksFuel : Nat → R → List Bytes
  | 0, _ => []
  | fuel + 1, source =>
      match Read.read source readBufSize with
      | .error _ => []
      | .ok (bytes, source) => if bytes = [] then [] else bytes :: chunksFuel fuel source

/-- What each read of a source hands out, up to its end or to the read that fails. -/
def chunks (source : R) : List Bytes := chunksFuel (Read.budget source + 1) source

theorem chunks_of_error {e : Error} (h : Read.read source readBufSize = .error e) :
    chunks source = [] := by
  rw [chunks, chunksFuel, h]

theorem chunks_of_end (h : Read.read source readBufSize = .ok ([], source')) :
    chunks source = [] := by
  rw [chunks, chunksFuel, h]
  rfl

variable [LawfulRead R]

theorem chunksFuel_eq {fuel : Nat} (hfuel : Read.budget source < fuel) :
    chunksFuel fuel source = chunks source := by
  induction hlen : Read.budget source using Nat.strongRecOn generalizing source fuel with
  | ind budget ih =>
      obtain ⟨fuel, rfl⟩ : ∃ more, fuel = more + 1 := ⟨fuel - 1, by omega⟩
      rw [chunks, chunksFuel, chunksFuel]
      cases hread : Read.read source readBufSize with
      | error e => rfl
      | ok got =>
          obtain ⟨bytes, source'⟩ := got
          have hle := LawfulRead.budget_read hread
          by_cases hempty : bytes = []
          · simp [hempty]
          · have hpos := List.length_pos_iff.mpr hempty
            simp only [hempty, if_false]
            rw [ih _ (by omega) (by omega) rfl, ih _ (by omega) (by omega) rfl]

theorem chunks_of_read {bytes : Bytes}
    (h : Read.read source readBufSize = .ok (bytes, source')) (hne : bytes ≠ []) :
    chunks source = bytes :: chunks source' := by
  have hle := LawfulRead.budget_read h
  have hpos := List.length_pos_iff.mpr hne
  rw [chunks, chunksFuel, h]
  simp only [hne, if_false]
  rw [chunksFuel_eq (by omega)]

theorem chunks_eq_cons {bytes : Bytes} {reads : List Bytes} (h : chunks source = bytes :: reads) :
    ∃ source', Read.read source readBufSize = .ok (bytes, source') ∧ bytes ≠ [] ∧
      chunks source' = reads := by
  cases hread : Read.read source readBufSize with
  | error e =>
      rw [chunks_of_error hread] at h
      cases h
  | ok got =>
      obtain ⟨bytes', source'⟩ := got
      by_cases hne : bytes' = []
      · subst hne
        rw [chunks_of_end hread] at h
        cases h
      · rw [chunks_of_read hread hne] at h
        cases h
        exact ⟨source', rfl, hne, rfl⟩

theorem flatten_chunks (source : R) : (chunks source).flatten = (ioCopy source).2 := by
  induction hlen : Read.budget source using Nat.strongRecOn generalizing source with
  | ind budget ih =>
      cases hread : Read.read source readBufSize with
      | error e => rw [chunks_of_error hread, ioCopy_of_error hread, List.flatten_nil]
      | ok got =>
          obtain ⟨bytes, source'⟩ := got
          by_cases hne : bytes = []
          · subst hne
            rw [chunks_of_end hread, ioCopy_of_end hread, List.flatten_nil]
          · have hle := LawfulRead.budget_read hread
            have hpos := List.length_pos_iff.mpr hne
            rw [chunks_of_read hread hne, ioCopy_of_read hread hne, List.flatten_cons,
              ih _ (by omega) source' rfl]

end Chunks

/-- A read finds more past the last record end than the limit, of those that follow `p`. -/
def Overruns (find : Finder UInt8) (limit : Nat) (p : Bytes) (reads : List Bytes) : Prop :=
  ∃ before chunk after, reads = before ++ chunk :: after ∧
    limit < (find.rest (p ++ before.flatten)).length + chunk.length

section Overruns

variable {limit : Nat} {p chunk : Bytes} {reads : List Bytes}

theorem not_overruns_nil : ¬ Overruns find limit p [] := by
  rintro ⟨before, chunk, after, hsplit, -⟩
  cases before <;> cases hsplit

theorem overruns_cons_iff :
    Overruns find limit p (chunk :: reads) ↔
      limit < (find.rest p).length + chunk.length ∨ Overruns find limit (p ++ chunk) reads := by
  constructor
  · rintro ⟨before, read, after, hsplit, hover⟩
    cases before with
    | nil =>
        cases hsplit
        rw [List.flatten_nil, List.append_nil] at hover
        exact Or.inl hover
    | cons first before =>
        cases hsplit
        rw [List.flatten_cons, ← List.append_assoc] at hover
        exact Or.inr ⟨before, read, after, rfl, hover⟩
  · rintro (hover | ⟨before, read, after, rfl, hover⟩)
    · refine ⟨[], chunk, reads, rfl, ?_⟩
      rwa [List.flatten_nil, List.append_nil]
    · refine ⟨chunk :: before, read, after, rfl, ?_⟩
      rwa [List.flatten_cons, ← List.append_assoc]

theorem overruns_append_iff {reads' : List Bytes} :
    Overruns find limit p (reads ++ reads') ↔
      Overruns find limit p reads ∨ Overruns find limit (p ++ reads.flatten) reads' := by
  induction reads generalizing p with
  | nil =>
      rw [List.nil_append, List.flatten_nil, List.append_nil]
      exact ⟨Or.inr, fun h => h.resolve_left not_overruns_nil⟩
  | cons chunk reads ih =>
      rw [List.cons_append, overruns_cons_iff, overruns_cons_iff, ih, List.flatten_cons,
        ← List.append_assoc, or_assoc]

/-- What overruns a limit is more than the limit itself. -/
theorem Overruns.lt_length (h : Overruns find limit p reads) :
    limit < (p ++ reads.flatten).length := by
  obtain ⟨before, chunk, after, rfl, hover⟩ := h
  have hle := find.length_rest_le (p ++ before.flatten)
  simp only [List.length_append, List.flatten_append, List.flatten_cons] at hle ⊢
  omega

end Overruns

/-! ### What the library fails with -/

/-- The errors of the library are its own: none of them is that a limit was passed. -/
def Zeekstd.OwnErrors (zeek : Zeekstd) : Prop :=
  ∀ checksum level data perFrame,
    zeek.encode checksum level data ≠ .error (.compressErrorData perFrame)

namespace Encoder

variable {encoder encoder' : Encoder zeek} {perFrame : Int}

theorem endFrame_own (hown : zeek.OwnErrors) :
    encoder.endFrame ≠ .error (.compressErrorData perFrame) := by
  rw [endFrame]
  intro h
  cases hencode : zeek.encode encoder.checksum encoder.level encoder.pending with
  | error e =>
      rw [hencode] at h
      cases h
      exact hown _ _ _ _ hencode
  | ok frames =>
      rw [hencode] at h
      simp only at h
      split at h <;> cases h

theorem compressNext_own (hown : zeek.OwnErrors) (written : Nat) (data : Bytes) :
    encoder.compressNext written data ≠ .error (.compressErrorData perFrame) := by
  rw [compressNext]
  split
  · cases hend : encoder.endFrame with
    | error e =>
        rintro ⟨⟩
        exact endFrame_own hown hend
    | ok encoder => rintro ⟨⟩
  · rintro ⟨⟩

theorem feedAll_own (hown : zeek.OwnErrors) (written : Nat) (gs : List Bytes) :
    encoder.feedAll written gs ≠ .error (.compressErrorData perFrame) := by
  induction gs generalizing encoder written with
  | nil => rintro ⟨⟩
  | cons g gs ih =>
      rw [feedAll]
      cases hnext : encoder.compressNext written g with
      | error e =>
          rintro ⟨⟩
          exact compressNext_own hown _ _ hnext
      | ok encoder => exact ih (written + 1)

theorem encodeAll_own (hown : zeek.OwnErrors) (gs : List Bytes) :
    encoder.encodeAll gs ≠ .error (.compressErrorData perFrame) := by
  induction gs generalizing encoder with
  | nil => rintro ⟨⟩
  | cons g gs ih =>
      rw [encodeAll]
      cases hend : (encoder.write g).endFrame with
      | error e =>
          rintro ⟨⟩
          exact endFrame_own hown hend
      | ok encoder => exact ih

end Encoder

/-! ### When a frame is due -/

/-- How a compression cuts its input: after so many records, at the first record end at or past
so many bytes, or not at all. -/
inductive CutRule where
  | records (n : Nat)
  | bytes (size : Nat)
  | all
deriving Repr, DecidableEq

/-- Whether a frame is due of so many records that take so many bytes. -/
def CutRule.due : CutRule → Nat → Nat → Bool
  | .records n => fun i _ => decide (n ≤ i)
  | .bytes size => fun _ taken => decide (size ≤ taken)
  | .all => fun _ _ => false

/-- How a compression cuts `input` with these options. -/
def ruleOf (find : Finder UInt8) (isSame : Bool) (maxOfSeparator : Option Nat) (frameSize : Nat)
    (input : Bytes) : CutRule :=
  if isSame then
    match maxOfSeparator with
    | some v => .records (max v 1)
    | none =>
        match find.firstAt (fun _ size => decide (frameSize ≤ size)) input with
        | some n => .records n
        | none => .all
  else .bytes frameSize

/-- The frames a rule makes of `input`. -/
def CutRule.frames (rule : CutRule) (find : Finder UInt8) (input : Bytes) : List Bytes :=
  orEmpty ((find.gather rule.due).pieces input)

theorem asI64_of_lt {v : Nat} (h : v < 2 ^ 63) : asI64 v = v := by
  rw [asI64, BitVec.toInt_eq_toNat_of_lt]
  · rw [BitVec.toNat_ofNat, Nat.mod_eq_of_lt (by omega)]
  · rw [BitVec.toNat_ofNat, Nat.mod_eq_of_lt (by omega)]
    omega

/-- The count a conversion holds to of the one it is given: minus one stands for none, and a
negative count is reached at once, as none is. -/
def heldCount (maxOfSeparator : Option Nat) : Option Nat :=
  maxOfSeparator.bind fun v => if asI64 v = -1 then none else some (asI64 v).toNat

theorem heldCount_of_lt {maxOfSeparator : Option Nat} (h : ∀ v ∈ maxOfSeparator, v < 2 ^ 63) :
    heldCount maxOfSeparator = maxOfSeparator := by
  cases maxOfSeparator with
  | none => rfl
  | some v =>
      have hset : asI64 v ≠ -1 := by
        rw [asI64_of_lt (h v rfl)]
        omega
      rw [heldCount, Option.bind_some, if_neg hset, asI64_of_lt (h v rfl)]
      rfl

namespace Compression

variable {isSame : Bool} {frameSize : Nat}

/-- What a compression starts from. -/
def start (zeek : Zeekstd) (opts : Option CompressOptions) (reader : R) :
    Compression zeek R :=
  { encoder := { checksum := (opts.getD {}).checksum, level := (opts.getD {}).level }
    stream := { source := reader }
    maxOfSeparator := ((opts.getD {}).maxOfSeparator.map asI64).getD (-1) }

/-- When a frame is due of `d`, where as many records are to be in each as are first due by their
bytes. -/
def dueOf (find : Finder UInt8) (frameSize : Nat) (d : Bytes) : Nat → Nat → Bool :=
  match find.firstAt (fun _ size => decide (frameSize ≤ size)) d with
  | some n => fun i _ => decide (n ≤ i)
  | none => fun _ size => decide (frameSize ≤ size)

theorem dueOf_of_some {d : Bytes} {n : Nat}
    (h : find.firstAt (fun _ size => decide (frameSize ≤ size)) d = some n) :
    dueOf find frameSize d = fun i _ => decide (n ≤ i) := by
  rw [dueOf, h]

/-- Where nothing is due by its bytes yet, nothing will have been due by its number. -/
theorem firstAt_dueOf_none {buf : Bytes} (more : Bytes)
    (h : find.firstAt (fun _ size => decide (frameSize ≤ size)) buf = none) :
    find.firstAt (dueOf find frameSize (buf ++ more)) buf = none := by
  cases hall : find.firstAt (fun _ size => decide (frameSize ≤ size)) (buf ++ more) with
  | none =>
      rw [dueOf, hall]
      exact h
  | some n =>
      obtain ⟨hpos, -, hdue, -⟩ := Finder.firstAt_eq_some_iff.mp hall
      rw [dueOf_of_some hall, Finder.firstAt_count hpos]
      apply if_neg
      intro hle
      rw [find.offset_append _ _ hle, Finder.firstAt_eq_none_iff.mp h n hpos hle] at hdue
      cases hdue

end Compression

/-! ### One read after the other -/

namespace Compression

variable [Read R] [LawfulRead R] {isSame : Bool} {frameSize limitMultiplier fuel : Nat}
  {due : Nat → Nat → Bool} {start state : Compression zeek R} {p bytes : Bytes} {source : R}

/-- The state with what a read handed out behind its buffer. -/
def filled (state : Compression zeek R) (source : R) (bytes : Bytes) : Compression zeek R :=
  { state with
    stream := { state.stream with source := source, buf := state.stream.buf ++ bytes } }

/-- The loop has read `p`, and is in front of its next read. -/
structure Reading (find : Finder UInt8) (isSame : Bool) (frameSize : Nat)
    (due : Nat → Nat → Bool) (start : Compression zeek R) (p : Bytes)
    (state : Compression zeek R) : Prop where
  scanned : ScannedTo find isSame (state.due isSame frameSize)
    (find.records state.stream.buf).length state
  buf : state.stream.buf = (find.gather due).rest p
  fed : start.encoder.feedAll start.writtenFrame ((find.gather due).records p) =
    .ok (state.encoder, state.writtenFrame)
  /-- A count that is set stays. -/
  kept : start.maxOfSeparator ≠ -1 → state.maxOfSeparator = start.maxOfSeparator
  settled : (isSame = false ∨ state.maxOfSeparator ≠ -1) ∧ state.due isSame frameSize = due ∨
    isSame = true ∧ state.maxOfSeparator = -1 ∧ state.stream.buf = p ∧
      due = dueOf find frameSize (p ++ (ioCopy state.stream.source).2)

namespace Reading

/-- The buffer is filled and scanned, and the frames are written that are then due. -/
theorem scan (h : Reading find isSame frameSize due start p state)
    (hread : Read.read state.stream.source readBufSize = .ok (bytes, source)) (hne : bytes ≠ []) :
    (∀ e, start.encoder.feedAll start.writtenFrame ((find.gather due).records (p ++ bytes)) =
        .error e →
      scanFuel find isSame frameSize ((state.stream.buf ++ bytes).length - state.stream.lastEnd)
        (state.filled source bytes) = .error e) ∧
      ∀ fed, start.encoder.feedAll start.writtenFrame
          ((find.gather due).records (p ++ bytes)) = .ok fed →
        ∃ state', scanFuel find isSame frameSize
            ((state.stream.buf ++ bytes).length - state.stream.lastEnd)
            (state.filled source bytes) = .ok state' ∧
          Reading find isSame frameSize due start (p ++ bytes) state' ∧
          state'.stream.source = source := by
  have hsplit := find.offset_add_length_after (state.stream.buf ++ bytes)
    (find.records state.stream.buf).length
  have hto := h.scanned.filled source bytes
  have hlast := hto.lastEnd
  simp only at hlast
  have hfuel : (find.after (state.filled source bytes).stream.buf
      (find.records state.stream.buf).length).length ≤
        (state.stream.buf ++ bytes).length - state.stream.lastEnd := by
    simp only [filled]
    omega
  -- what is fed of all that was read is fed of the buffer
  have hfeed : start.encoder.feedAll start.writtenFrame
      ((find.gather due).records (p ++ bytes)) =
        state.encoder.feedAll state.writtenFrame
          ((find.gather due).records (state.stream.buf ++ bytes)) := by
    rw [Finder.records_append, Encoder.feedAll_append, h.fed, h.buf]
    rfl
  have hrest : (find.gather due).rest (p ++ bytes) =
      (find.gather due).rest (state.stream.buf ++ bytes) := by
    rw [Finder.rest_append, h.buf]
  rcases h.settled with ⟨hsettled, hdue⟩ | ⟨rfl, hmax, hbuf, hdue⟩
  · have hscan := @scan_settled zeek R find isSame frameSize _ due (state.filled source bytes)
      ((state.stream.buf ++ bytes).length - state.stream.lastEnd) hsettled hdue (hdue ▸ hto) hfuel
    have hnone : find.firstAt due ((find.gather due).rest (state.stream.buf ++ bytes)) = none :=
      Finder.gather_eq_none_iff.mp (Finder.find_rest _ _)
    constructor
    · intro e herror
      rw [hfeed] at herror
      rw [hscan]
      simp only [filled, herror]
    · intro fed hok
      have hfed := hfeed.symm.trans hok
      refine ⟨(state.filled source bytes).scanned find isSame fed.1 fed.2 state.maxOfSeparator
        ((find.gather due).rest (state.stream.buf ++ bytes)), ?_, ?_, rfl⟩
      · rw [hscan]
        simp only [filled, hfed]
      · have hdue' : ((state.filled source bytes).scanned find isSame fed.1 fed.2
            state.maxOfSeparator ((find.gather due).rest (state.stream.buf ++ bytes))).due
              isSame frameSize = due := hdue
        exact {
          scanned := by
            rw [hdue']
            exact scanned_scannedTo hnone
          buf := hrest.symm
          fed := hok
          kept := h.kept
          settled := Or.inl ⟨hsettled, hdue'⟩ }
  · have hrule : state.due true frameSize = fun _ size => decide (frameSize ≤ size) := by
      rw [Compression.due, if_neg fun hset => hset.2 hmax]
    have hscan := @scan_first zeek R find frameSize _ (state.filled source bytes)
      ((state.stream.buf ++ bytes).length - state.stream.lastEnd) hmax (hrule ▸ hto) hfuel
    have hahead : p ++ (ioCopy state.stream.source).2 = p ++ bytes ++ (ioCopy source).2 := by
      rw [ioCopy_of_read hread hne, List.append_assoc]
    rw [hahead] at hdue
    cases hfirst : find.firstAt (fun _ size => decide (frameSize ≤ size))
        (state.stream.buf ++ bytes) with
    | none =>
        -- nothing is due yet, and nothing is written
        have hnone := firstAt_dueOf_none (ioCopy source).2 hfirst
        rw [hbuf, ← hdue] at hnone
        have hgather := Finder.gather_eq_none_iff.mpr hnone
        have hstate : scanFuel find true frameSize
            ((state.stream.buf ++ bytes).length - state.stream.lastEnd)
            (state.filled source bytes) =
              .ok ((state.filled source bytes).scanned find true state.encoder state.writtenFrame
                (-1) (state.stream.buf ++ bytes)) := by
          rw [hscan]
          simp only [filled, hfirst]
        have hnil : (find.gather due).records (state.stream.buf ++ bytes) = [] := by
          rw [hbuf, Finder.records_of_none _ hgather]
        rw [hfeed, hnil]
        constructor
        · rintro e ⟨⟩
        · rintro fed ⟨⟩
          have hmax' : ((state.filled source bytes).scanned find true state.encoder
              state.writtenFrame (-1) (state.stream.buf ++ bytes)).due true frameSize =
                fun _ size => decide (frameSize ≤ size) := rfl
          refine ⟨_, hstate, ?_, rfl⟩
          exact {
            scanned := by
              rw [hmax']
              exact scanned_scannedTo hfirst
            buf := by
              rw [Finder.rest_of_none _ hgather, ← hbuf]
              rfl
            fed := by
              rw [hfeed, hnil]
              rfl
            kept := fun hset => absurd (h.kept hset ▸ hmax) hset
            settled := Or.inr ⟨rfl, rfl, by rw [← hbuf]; rfl, hdue⟩ }
    | some n =>
        rw [hbuf] at hfirst
        rw [dueOf_of_some (Finder.firstAt_append _ hfirst)] at hdue
        rw [← hbuf] at hfirst
        subst hdue
        have hset : (n : Int) ≠ -1 := by omega
        have hnone : find.firstAt (fun i _ => decide (n ≤ i))
            ((find.gather fun i _ => decide (n ≤ i)).rest (state.stream.buf ++ bytes)) = none :=
          Finder.gather_eq_none_iff.mp (Finder.find_rest _ _)
        constructor
        · intro e herror
          rw [hfeed] at herror
          rw [hscan]
          simp only [filled, hfirst, herror]
        · intro fed hok
          have hfed := hfeed.symm.trans hok
          refine ⟨(state.filled source bytes).scanned find true fed.1 fed.2 n
            ((find.gather fun i _ => decide (n ≤ i)).rest (state.stream.buf ++ bytes)), ?_, ?_, rfl⟩
          · rw [hscan]
            simp only [filled, hfirst, hfed]
          · have hdue' : ((state.filled source bytes).scanned find true fed.1 fed.2 n
                ((find.gather fun i _ => decide (n ≤ i)).rest (state.stream.buf ++ bytes))).due
                  true frameSize = fun i _ => decide (n ≤ i) := by
              rw [Compression.due, if_pos ⟨rfl, hset⟩]
              funext i _
              exact decide_eq_decide.mpr Int.ofNat_le
            exact {
              scanned := by
                rw [hdue']
                exact scanned_scannedTo hnone
              buf := hrest.symm
              fed := hok
              kept := fun hset => absurd (h.kept hset ▸ hmax) hset
              settled := Or.inl ⟨Or.inr hset, hdue'⟩ }

omit [LawfulRead R] in
/-- What is past the last record end does not depend on where frames end. -/
theorem unscanned_eq (h : Reading find isSame frameSize due start p state) (bytes : Bytes) :
    (state.stream.buf ++ bytes).length - state.stream.lastEnd =
      (find.rest p).length + bytes.length := by
  have hsplit := find.offset_add_length_after state.stream.buf
    (find.records state.stream.buf).length
  have hafter := find.after_of_length_le (Nat.le_refl (find.records state.stream.buf).length)
  have hrest : find.rest state.stream.buf = find.rest p := by
    rw [h.buf, Finder.rest_gather]
  rw [hafter, hrest] at hsplit
  rw [h.scanned.lastEnd, List.length_append]
  omega

omit [LawfulRead R] in
/-- A read that is past the limit ends the loop. -/
theorem loop_over (h : Reading find isSame frameSize due start p state)
    (hread : Read.read state.stream.source readBufSize = .ok (bytes, source)) (hne : bytes ≠ [])
    (hover : saturatingMul frameSize limitMultiplier < (find.rest p).length + bytes.length) :
    loopFuel find isSame frameSize limitMultiplier (fuel + 1) state =
      .error (if isSame then .compressErrorData state.maxOfSeparator
        else .noSeparatorBeforeLimit ((find.rest p).length + bytes.length)
          (saturatingMul frameSize limitMultiplier) limitMultiplier) := by
  have hempty : ¬ bytes.length = 0 := mt List.length_eq_zero_iff.mp hne
  rw [loopFuel, Stream.fill, hread]
  simp only [if_neg hempty, Stream.unscanned, h.unscanned_eq]
  cases isSame with
  | true => rw [if_pos ⟨rfl, hover⟩, if_pos rfl]
  | false =>
      rw [if_neg fun hsame => Bool.false_ne_true hsame.1, if_pos hover,
        if_neg Bool.false_ne_true]

omit [LawfulRead R] in
/-- Any other is scanned. -/
theorem loop_within (h : Reading find isSame frameSize due start p state)
    (hread : Read.read state.stream.source readBufSize = .ok (bytes, source)) (hne : bytes ≠ [])
    (hin : ¬ saturatingMul frameSize limitMultiplier < (find.rest p).length + bytes.length) :
    loopFuel find isSame frameSize limitMultiplier (fuel + 1) state =
      match scanFuel find isSame frameSize
          ((state.stream.buf ++ bytes).length - state.stream.lastEnd)
          (state.filled source bytes) with
      | .error e => .error e
      | .ok state' =>
          loopFuel find isSame frameSize limitMultiplier fuel
            (state'.dropProcessed isSame frameSize) := by
  have hempty : ¬ bytes.length = 0 := mt List.length_eq_zero_iff.mp hne
  rw [loopFuel, Stream.fill, hread]
  simp only [if_neg hempty, Stream.unscanned, h.unscanned_eq, if_neg hin,
    if_neg fun hsame : isSame = true ∧ _ => hin hsame.2]
  rfl

omit [LawfulRead R] in
theorem dropProcessed (h : Reading find isSame frameSize due start p state) :
    state.dropProcessed isSame frameSize = state := dropProcessed_eq rfl h.scanned

/-- The loop behind a read that it goes on after. -/
theorem loop_fed (h : Reading find isSame frameSize due start p state)
    (hread : Read.read state.stream.source readBufSize = .ok (bytes, source)) (hne : bytes ≠ [])
    (hin : ¬ saturatingMul frameSize limitMultiplier < (find.rest p).length + bytes.length)
    {fed : Encoder zeek × Nat}
    (hfed : start.encoder.feedAll start.writtenFrame ((find.gather due).records (p ++ bytes)) =
      .ok fed) :
    ∃ state', Reading find isSame frameSize due start (p ++ bytes) state' ∧
      state'.stream.source = source ∧
      loopFuel find isSame frameSize limitMultiplier (fuel + 1) state =
        loopFuel find isSame frameSize limitMultiplier fuel state' := by
  obtain ⟨state', hscan, hreading, hsource⟩ := (h.scan hread hne).2 fed hfed
  refine ⟨state', hreading, hsource, ?_⟩
  rw [h.loop_within hread hne hin, hscan]
  simp only [hreading.dropProcessed]

/-- The loop behind a read whose frames cannot be written. -/
theorem loop_not_fed (h : Reading find isSame frameSize due start p state)
    (hread : Read.read state.stream.source readBufSize = .ok (bytes, source)) (hne : bytes ≠ [])
    (hin : ¬ saturatingMul frameSize limitMultiplier < (find.rest p).length + bytes.length)
    {e : Error}
    (hfed : start.encoder.feedAll start.writtenFrame ((find.gather due).records (p ++ bytes)) =
      .error e) :
    loopFuel find isSame frameSize limitMultiplier (fuel + 1) state = .error e := by
  rw [h.loop_within hread hne hin, (h.scan hread hne).1 e hfed]

end Reading

/-- When a frame is due in a loop that starts in `start`. -/
def startDue (find : Finder UInt8) (isSame : Bool) (frameSize : Nat) (start : Compression zeek R) :
    Nat → Nat → Bool :=
  if isSame = true ∧ start.maxOfSeparator = -1 then
    dueOf find frameSize (ioCopy start.stream.source).2
  else start.due isSame frameSize

omit [LawfulRead R] in
theorem reading_start (reader : R) (opts : Option CompressOptions) :
    Reading find isSame frameSize (startDue find isSame frameSize (.start zeek opts reader))
      (.start zeek opts reader) [] (.start zeek opts reader) where
  scanned := by
    have hnil : (Compression.start zeek opts reader).stream.buf = [] := rfl
    rw [hnil, Finder.records_nil]
    exact scannedTo_zero rfl rfl rfl
  buf := by
    rw [Finder.rest_nil]
    rfl
  fed := by
    rw [Finder.records_nil]
    rfl
  kept _ := rfl
  settled := by
    rw [startDue]
    by_cases hfirst : isSame = true ∧ (Compression.start zeek opts reader).maxOfSeparator = -1
    · rw [if_pos hfirst]
      exact Or.inr ⟨hfirst.1, hfirst.2, rfl, rfl⟩
    · rw [if_neg hfirst]
      refine Or.inl ⟨?_, rfl⟩
      cases isSame with
      | false => exact Or.inl rfl
      | true => exact Or.inr fun hmax => hfirst ⟨rfl, hmax⟩

/-- What comes of a loop that has read `p` and is in front of `reads`, of which `ending` is how
they end. -/
structure Verdict (find : Finder UInt8) (isSame : Bool) (limit : Nat) (due : Nat → Nat → Bool)
    (start : Compression zeek R) (p : Bytes) (reads : List Bytes) (ending : Except Error Unit)
    (result : Except Error (Compression zeek R)) : Prop where
  returns : ∀ {state'}, result = .ok state' →
    ending = .ok () ∧ ¬ Overruns find limit p reads ∧
      start.encoder.feedAll start.writtenFrame
        ((find.gather due).records (p ++ reads.flatten)) =
          .ok (state'.encoder, state'.writtenFrame) ∧
      state'.stream.buf = (find.gather due).rest (p ++ reads.flatten)
  succeeds : ending = .ok () → ¬ Overruns find limit p reads → ∀ {fed},
    start.encoder.feedAll start.writtenFrame
      ((find.gather due).records (p ++ reads.flatten)) = .ok fed →
    ∃ state', result = .ok state'
  refuses : zeek.OwnErrors → (∀ perFrame, ending ≠ .error (.compressErrorData perFrame)) →
    ∀ {perFrame}, result = .error (.compressErrorData perFrame) →
      isSame = true ∧ Overruns find limit p reads ∧
        (start.maxOfSeparator ≠ -1 → perFrame = start.maxOfSeparator)
  overruns : isSame = true → Overruns find limit p reads → ∀ {fed},
    start.encoder.feedAll start.writtenFrame
      ((find.gather due).records (p ++ reads.flatten)) = .ok fed →
    ∃ perFrame, result = .error (.compressErrorData perFrame)

/-- A loop writes the frames that are due of all it reads, and is refused where a read of it
overruns the limit, wherever its frames end. -/
theorem Reading.verdict (h : Reading find isSame frameSize due start p state)
    (hfuel : Read.budget state.stream.source < fuel) :
    Verdict find isSame (saturatingMul frameSize limitMultiplier) due start p
      (chunks state.stream.source) (ioCopy state.stream.source).1
      (loopFuel find isSame frameSize limitMultiplier fuel state) := by
  induction fuel generalizing state p with
  | zero => omega
  | succ fuel ih =>
      cases hread : Read.read state.stream.source readBufSize with
      | error e =>
          rw [chunks_of_error hread, ioCopy_of_error hread, loopFuel, Stream.fill, hread]
          exact {
            returns := fun hok => by cases hok
            succeeds := fun hending => by cases hending
            refuses := by
              rintro _ hother perFrame ⟨⟩
              exact absurd rfl (hother perFrame)
            overruns := fun _ hover => absurd hover not_overruns_nil }
      | ok got =>
          obtain ⟨bytes, source⟩ := got
          by_cases hne : bytes = []
          · subst hne
            rw [chunks_of_end hread, ioCopy_of_end hread, loopFuel, Stream.fill, hread]
            exact {
              returns := by
                rintro state' ⟨⟩
                rw [List.flatten_nil, List.append_nil]
                exact ⟨rfl, not_overruns_nil, h.fed, h.buf⟩
              succeeds := fun _ _ _ _ => ⟨_, rfl⟩
              refuses := fun _ _ _ hrefused => by cases hrefused
              overruns := fun _ hover => absurd hover not_overruns_nil }
          · rw [chunks_of_read hread hne, ioCopy_of_read hread hne]
            by_cases hover : saturatingMul frameSize limitMultiplier <
                (find.rest p).length + bytes.length
            · rw [h.loop_over hread hne hover]
              have hoverruns : Overruns find (saturatingMul frameSize limitMultiplier) p
                  (bytes :: chunks source) := overruns_cons_iff.mpr (Or.inl hover)
              exact {
                returns := fun hok => by cases hok
                succeeds := fun _ hin => absurd hoverruns hin
                refuses := by
                  intro _ _ perFrame hrefused
                  cases isSame with
                  | false => cases hrefused
                  | true =>
                      cases hrefused
                      exact ⟨rfl, hoverruns, h.kept⟩
                overruns := by
                  intro hsame _ _ _
                  rw [if_pos hsame]
                  exact ⟨_, rfl⟩ }
            · have hless : Read.budget source < fuel := by
                have hle := LawfulRead.budget_read hread
                have hpos := List.length_pos_iff.mpr hne
                omega
              have hall : p ++ (bytes :: chunks source).flatten =
                  p ++ bytes ++ (chunks source).flatten := by
                rw [List.flatten_cons, List.append_assoc]
              cases hfed : start.encoder.feedAll start.writtenFrame
                  ((find.gather due).records (p ++ bytes)) with
              | error e =>
                  -- what cannot be written of this much cannot be written of more
                  have hnone : ∀ fed, start.encoder.feedAll start.writtenFrame
                      ((find.gather due).records (p ++ (bytes :: chunks source).flatten)) ≠
                        .ok fed := by
                    intro fed hmore
                    rw [hall, Finder.records_append, Encoder.feedAll_append, hfed] at hmore
                    cases hmore
                  rw [h.loop_not_fed hread hne hover hfed]
                  exact {
                    returns := fun hok => by cases hok
                    succeeds := fun _ _ fed hmore => absurd hmore (hnone fed)
                    refuses := by
                      rintro hown _ perFrame ⟨⟩
                      exact absurd hfed (Encoder.feedAll_own hown _ _)
                    overruns := fun _ _ fed hmore => absurd hmore (hnone fed) }
              | ok fed =>
                  obtain ⟨state', hreading, rfl, hloop⟩ := h.loop_fed hread hne hover hfed
                  rw [hloop]
                  have hlater := ih hreading hless
                  have hiff : Overruns find (saturatingMul frameSize limitMultiplier) p
                      (bytes :: chunks state'.stream.source) ↔
                        Overruns find (saturatingMul frameSize limitMultiplier) (p ++ bytes)
                          (chunks state'.stream.source) :=
                    overruns_cons_iff.trans (or_iff_right hover)
                  exact {
                    returns := by
                      intro state'' hok
                      rw [hall, hiff]
                      exact hlater.returns hok
                    succeeds := by
                      intro hending hin fed hmore
                      rw [hall] at hmore
                      exact hlater.succeeds hending (mt hiff.mpr hin) hmore
                    refuses := by
                      intro hown hother perFrame hrefused
                      rw [hiff]
                      exact hlater.refuses hown hother hrefused
                    overruns := by
                      intro hsame hoverruns fed hmore
                      rw [hall] at hmore
                      exact hlater.overruns hsame (hiff.mp hoverruns) hmore }

end Compression

/-! ### The conversion -/

section Convert

variable [Read R] [LawfulRead R] {reader : R} {frameSize : Nat} {isSame : Bool}
  {limitMultiplier : Option Nat} {opts : Option CompressOptions} {bytes : Bytes}

omit [LawfulRead R] in
/-- Of what was read so far, the loop writes the frames the rule has of the whole. -/
theorem gather_startDue {p more : Bytes} (hwhole : (ioCopy reader).2 = p ++ more) :
    (find.gather (Compression.startDue find isSame frameSize (.start zeek opts reader))).records p =
        (find.gather (ruleOf find isSame (heldCount (opts.getD {}).maxOfSeparator) frameSize
          (ioCopy reader).2).due).records p ∧
      (find.gather (Compression.startDue find isSame frameSize (.start zeek opts reader))).rest p =
        (find.gather (ruleOf find isSame (heldCount (opts.getD {}).maxOfSeparator) frameSize
          (ioCopy reader).2).due).rest p := by
  have hmax : (Compression.start zeek opts reader).maxOfSeparator =
      ((opts.getD {}).maxOfSeparator.map asI64).getD (-1) := rfl
  cases isSame with
  | false => exact ⟨rfl, rfl⟩
  | true =>
      cases hheld : heldCount (opts.getD {}).maxOfSeparator with
      | some v =>
          obtain ⟨set, hopt, hif⟩ := Option.bind_eq_some_iff.mp hheld
          have hset : asI64 set ≠ -1 := by
            intro hnone
            rw [if_pos hnone] at hif
            cases hif
          rw [if_neg hset, Option.some.injEq] at hif
          rw [hopt, Option.map_some, Option.getD_some] at hmax
          have hdue : Compression.startDue find true frameSize (.start zeek opts reader) =
              fun (i : Nat) _ => decide (asI64 set ≤ i) := by
            rw [Compression.startDue, if_neg fun hnone => hset (hmax ▸ hnone.2), Compression.due,
              if_pos ⟨rfl, hmax ▸ hset⟩, hmax]
          -- a count of none is reached at the first record, as a count of one is
          have hone : find.gather (fun (i : Nat) _ => decide (asI64 set ≤ i)) =
              find.gather (CutRule.records (max v 1)).due := by
            apply Finder.gather_congr
            intro i _ hpos
            rw [CutRule.due, decide_eq_decide]
            omega
          rw [hdue, hone]
          exact ⟨rfl, rfl⟩
      | none =>
          have hnone : (Compression.start zeek opts reader).maxOfSeparator = -1 := by
            rw [hmax]
            cases hopt : (opts.getD {}).maxOfSeparator with
            | none => rfl
            | some set =>
                rw [hopt, heldCount, Option.bind_some] at hheld
                rw [Option.map_some, Option.getD_some]
                by_contra hset
                rw [if_neg hset] at hheld
                cases hheld
          have hdue : Compression.startDue find true frameSize (.start zeek opts reader) =
              Compression.dueOf find frameSize (ioCopy reader).2 := by
            rw [Compression.startDue, if_pos ⟨rfl, hnone⟩]
            rfl
          rw [hdue, ruleOf]
          simp only [if_true]
          cases hfirst : find.firstAt (fun _ size => decide (frameSize ≤ size))
              (ioCopy reader).2 with
          | some n =>
              rw [Compression.dueOf_of_some hfirst]
              exact ⟨rfl, rfl⟩
          | none =>
              -- no frame is ever due, and there is one of everything
              have hp : find.firstAt (fun _ size => decide (frameSize ≤ size)) p = none := by
                cases hsome : find.firstAt (fun _ size => decide (frameSize ≤ size)) p with
                | none => rfl
                | some n =>
                    rw [hwhole, Finder.firstAt_append _ hsome] at hfirst
                    cases hfirst
              have hleft : find.gather (Compression.dueOf find frameSize (ioCopy reader).2) p =
                  none := by
                rw [Finder.gather_eq_none_iff, Compression.dueOf, hfirst]
                exact hp
              have hright : find.gather CutRule.all.due p = none := by
                rw [Finder.gather_eq_none_iff]
                exact Finder.firstAt_eq_none_iff.mpr fun _ _ _ => rfl
              rw [Finder.records_of_none _ hleft, Finder.rest_of_none _ hleft,
                Finder.records_of_none _ hright, Finder.rest_of_none _ hright]
              exact ⟨rfl, rfl⟩

/-- What a whole compression comes to, by what its loop does. -/
theorem loop_verdict :
    Compression.Verdict find isSame
      (saturatingMul frameSize (limitMultiplier.getD limitSepBufMultiplier))
      (Compression.startDue find isSame frameSize (.start zeek opts reader))
      (.start zeek opts reader) [] (chunks reader) (ioCopy reader).1
      ((Compression.start zeek opts reader).loopFuel find isSame frameSize
        (limitMultiplier.getD limitSepBufMultiplier) (Read.budget reader + 1)) :=
  (Compression.reading_start reader opts).verdict (Nat.lt_succ_self _)

omit [LawfulRead R] in
theorem convert_of_error {e : Error}
    (hloop : (Compression.start zeek opts reader).loopFuel find isSame frameSize
      (limitMultiplier.getD limitSepBufMultiplier) (Read.budget reader + 1) = .error e) :
    convertRecordsToSeekableZst zeek reader frameSize isSame find limitMultiplier opts =
      .error e := by
  rw [Compression.start] at hloop
  rw [convertRecordsToSeekableZst]
  simp only [hloop]

/-- What is left behind the last frame that was due is the last frame. -/
theorem convert_of_ok {state : Compression zeek R}
    (hloop : (Compression.start zeek opts reader).loopFuel find isSame frameSize
      (limitMultiplier.getD limitSepBufMultiplier) (Read.budget reader + 1) = .ok state) :
    convertRecordsToSeekableZst zeek reader frameSize isSame find limitMultiplier opts =
      ((Compression.start zeek opts reader).encoder.encodeAll
        ((ruleOf find isSame (heldCount (opts.getD {}).maxOfSeparator) frameSize
          (ioCopy reader).2).frames find (ioCopy reader).2)).map fun encoder =>
            bytesOf encoder.ended := by
  obtain ⟨-, -, hfed, hleft⟩ := loop_verdict.returns hloop
  rw [List.nil_append, flatten_chunks] at hfed hleft
  obtain ⟨hrecords, hrest⟩ := @gather_startDue zeek R find _ reader frameSize isSame opts
    (ioCopy reader).2 [] (List.append_nil _).symm
  rw [hrecords] at hfed
  rw [hrest] at hleft
  have hfresh := Encoder.finish_feedAll_new (Compression.start zeek opts reader).encoder rfl
    ((find.gather (ruleOf find isSame (heldCount (opts.getD {}).maxOfSeparator) frameSize
      (ioCopy reader).2).due).pieces (ioCopy reader).2)
  have hfed' : (Compression.start zeek opts reader).encoder.feedAll 0
      ((find.gather (ruleOf find isSame (heldCount (opts.getD {}).maxOfSeparator) frameSize
        (ioCopy reader).2).due).records (ioCopy reader).2) =
          .ok (state.encoder, state.writtenFrame) := hfed
  rw [Finder.pieces, Encoder.feedAll_append, hfed', ← hleft] at hfresh
  rw [CutRule.frames, Finder.pieces, ← hleft, ← hfresh]
  rw [Compression.start] at hloop
  rw [convertRecordsToSeekableZst]
  simp only [hloop]
  exact Encoder.finish_rest _ _ _

/-- A compression that returns has encoded the frames of all that its source holds. -/
theorem convert_returns
    (h : convertRecordsToSeekableZst zeek reader frameSize isSame find limitMultiplier opts =
      .ok bytes) :
    (ioCopy reader).1 = .ok () ∧
      ¬ Overruns find (saturatingMul frameSize (limitMultiplier.getD limitSepBufMultiplier)) []
        (chunks reader) ∧
      ∃ encoder : Encoder zeek,
        Encoder.encodeAll { checksum := (opts.getD {}).checksum, level := (opts.getD {}).level }
          ((ruleOf find isSame (heldCount (opts.getD {}).maxOfSeparator) frameSize
            (ioCopy reader).2).frames find (ioCopy reader).2) = .ok encoder ∧
        bytes = bytesOf encoder.ended := by
  cases hloop : (Compression.start zeek opts reader).loopFuel find isSame frameSize
      (limitMultiplier.getD limitSepBufMultiplier) (Read.budget reader + 1) with
  | error e =>
      rw [convert_of_error hloop] at h
      cases h
  | ok state =>
      obtain ⟨hending, hin, -, -⟩ := loop_verdict.returns hloop
      rw [convert_of_ok hloop] at h
      refine ⟨hending, hin, ?_⟩
      cases hencode : (Compression.start zeek opts reader).encoder.encodeAll
          ((ruleOf find isSame (heldCount (opts.getD {}).maxOfSeparator) frameSize
            (ioCopy reader).2).frames find (ioCopy reader).2) with
      | error e =>
          rw [hencode] at h
          cases h
      | ok encoder =>
          rw [hencode] at h
          cases h
          exact ⟨encoder, hencode, rfl⟩

/-- What is due of the whole input is what is due of its reads at the start. -/
theorem feedAll_startDue {fed : Encoder zeek × Nat}
    (hfed : (Compression.start zeek opts reader).encoder.feedAll 0
      ((find.gather (ruleOf find isSame (heldCount (opts.getD {}).maxOfSeparator) frameSize
        (ioCopy reader).2).due).records (ioCopy reader).2) = .ok fed) :
    (Compression.start zeek opts reader).encoder.feedAll
      (Compression.start zeek opts reader).writtenFrame
      ((find.gather (Compression.startDue find isSame frameSize
        (.start zeek opts reader))).records ([] ++ (chunks reader).flatten)) = .ok fed := by
  have hrecords := (@gather_startDue zeek R find _ reader frameSize isSame opts
    (ioCopy reader).2 [] (List.append_nil _).symm).1
  rw [List.nil_append, flatten_chunks, hrecords]
  exact hfed

/-- It does return where no read fails or overruns the limit and the frames can be encoded. -/
theorem convert_succeeds (hending : (ioCopy reader).1 = .ok ())
    (hin : ¬ Overruns find (saturatingMul frameSize
      (limitMultiplier.getD limitSepBufMultiplier)) [] (chunks reader))
    {encoder : Encoder zeek}
    (hencode : Encoder.encodeAll
      { checksum := (opts.getD {}).checksum, level := (opts.getD {}).level }
      ((ruleOf find isSame (heldCount (opts.getD {}).maxOfSeparator) frameSize
        (ioCopy reader).2).frames find (ioCopy reader).2) = .ok encoder) :
    convertRecordsToSeekableZst zeek reader frameSize isSame find limitMultiplier opts =
      .ok (bytesOf encoder.ended) := by
  have hstart : (Compression.start zeek opts reader).encoder.encodeAll
      ((ruleOf find isSame (heldCount (opts.getD {}).maxOfSeparator) frameSize
        (ioCopy reader).2).frames find (ioCopy reader).2) = .ok encoder := hencode
  have hfresh := Encoder.finish_feedAll_new (Compression.start zeek opts reader).encoder rfl
    ((find.gather (ruleOf find isSame (heldCount (opts.getD {}).maxOfSeparator) frameSize
      (ioCopy reader).2).due).pieces (ioCopy reader).2)
  rw [← CutRule.frames, hstart, Finder.pieces, Encoder.feedAll_append] at hfresh
  cases hfed : (Compression.start zeek opts reader).encoder.feedAll 0
      ((find.gather (ruleOf find isSame (heldCount (opts.getD {}).maxOfSeparator) frameSize
        (ioCopy reader).2).due).records (ioCopy reader).2) with
  | error e =>
      rw [hfed] at hfresh
      cases hfresh
  | ok fed =>
      obtain ⟨state, hloop⟩ := loop_verdict.succeeds hending hin (feedAll_startDue hfed)
      rw [convert_of_ok hloop, hstart]
      rfl

/-- A compression that passes its limit has overrun it, with the count it was given. -/
theorem convert_refuses (hown : zeek.OwnErrors)
    (hother : ∀ perFrame, (ioCopy reader).1 ≠ .error (.compressErrorData perFrame))
    {perFrame : Int}
    (h : convertRecordsToSeekableZst zeek reader frameSize isSame find limitMultiplier opts =
      .error (.compressErrorData perFrame)) :
    isSame = true ∧
      Overruns find (saturatingMul frameSize (limitMultiplier.getD limitSepBufMultiplier)) []
        (chunks reader) ∧
      ((Compression.start zeek opts reader).maxOfSeparator ≠ -1 →
        perFrame = (Compression.start zeek opts reader).maxOfSeparator) := by
  cases hloop : (Compression.start zeek opts reader).loopFuel find isSame frameSize
      (limitMultiplier.getD limitSepBufMultiplier) (Read.budget reader + 1) with
  | error e =>
      rw [convert_of_error hloop] at h
      cases h
      exact loop_verdict.refuses hown hother hloop
  | ok state =>
      rw [convert_of_ok hloop] at h
      cases hencode : (Compression.start zeek opts reader).encoder.encodeAll
          ((ruleOf find isSame (heldCount (opts.getD {}).maxOfSeparator) frameSize
            (ioCopy reader).2).frames find (ioCopy reader).2) with
      | error e =>
          rw [hencode] at h
          cases h
          exact absurd hencode (Encoder.encodeAll_own hown _)
      | ok encoder =>
          rw [hencode] at h
          cases h

/-- Where it overruns its limit it is refused, if what is due before can be written. -/
theorem convert_overruns (hsame : isSame = true)
    (hover : Overruns find (saturatingMul frameSize
      (limitMultiplier.getD limitSepBufMultiplier)) [] (chunks reader))
    {fed : Encoder zeek × Nat}
    (hfed : (Compression.start zeek opts reader).encoder.feedAll 0
      ((find.gather (ruleOf find isSame (heldCount (opts.getD {}).maxOfSeparator) frameSize
        (ioCopy reader).2).due).records (ioCopy reader).2) = .ok fed) :
    ∃ perFrame,
      convertRecordsToSeekableZst zeek reader frameSize isSame find limitMultiplier opts =
        .error (.compressErrorData perFrame) := by
  obtain ⟨perFrame, hloop⟩ := loop_verdict.overruns hsame hover (feedAll_startDue hfed)
  exact ⟨perFrame, convert_of_error hloop⟩

end Convert

end SeekZstdSep
