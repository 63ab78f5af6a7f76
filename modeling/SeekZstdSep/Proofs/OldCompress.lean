/-
Module: SeekZstdSep.Proofs.OldCompress
Purpose: The compressor that was and the one in use write the same frames. The old one at a frame
  size runs in step with the new one at that size and the separator, whose frame ends have it in.
Trusted boundary: the library, as `Zeekstd` and `FrameSizePolicy` have it
Main exports: OldCompression.toNew, OldCompression.scan_toNew, old_new_frames_eq
-/
import SeekZstdSep.Core.OldCompress
import SeekZstdSep.Proofs.Buffering
import SeekZstdSep.Proofs.Recompress

namespace SeekZstdSep

open Lib

variable {zeek : Zeekstd} {R : Type} {separator : Bytes}

namespace OldCompression

/-- The state the new compressor is in where the old one is in `state`. -/
def toNew (state : OldCompression zeek R) : Compression zeek R :=
  { encoder := state.encoder
    stream := {
      source := state.reader
      buf := state.buf
      lastEnd := state.searchStart }
    frameEnd := state.searchStart
    maxOfSeparator := state.maxOfSeparator
    cntOfSeparator := state.cntOfSeparator
    writtenFrame := state.writtenFrame }

/-- The frame end is in front of the separator the search is behind, and no further than the frame
size where the loop would drop what is past it. -/
structure InStep (separator : Bytes) (isSame : Bool) (frameSize : Nat)
    (state : OldCompression zeek R) : Prop where
  ends : state.frameEnd + separator.length = state.searchStart ∨
    state.frameEnd = 0 ∧ state.searchStart = 0
  short : (isSame = true →
      state.maxOfSeparator ≠ -1 ∧ (state.cntOfSeparator : Int) = state.maxOfSeparator) →
    state.frameEnd ≤ frameSize

variable {isSame : Bool} {frameSize : Nat} {state : OldCompression zeek R}

/-! ### Frame after frame -/

theorem encodeFrameNotSame_toNew (hsize : separator.length < frameSize)
    (hends : state.frameEnd + separator.length = state.searchStart) :
    state.toNew.encodeFrameNotSameSeparatorCnt (frameSize + separator.length) =
      (state.oldEncodeFrameNotSameSeparatorCnt frameSize separator).map fun result =>
        (result.1, result.2.toNew) := by
  have hnew : state.toNew.frameEnd = state.frameEnd + separator.length := hends.symm
  rw [Compression.encodeFrameNotSameSeparatorCnt, oldEncodeFrameNotSameSeparatorCnt, hnew]
  by_cases hskip : state.frameEnd < frameSize
  · rw [if_pos hskip, if_pos (by omega)]
    rfl
  · have hpos : 0 < state.frameEnd + separator.length := by omega
    have hlong : separator.length < state.frameEnd := by omega
    rw [if_neg hskip, if_neg (by omega), if_pos hpos, if_pos hlong]
    simp only [toNew]
    cases state.encoder.compressNext state.writtenFrame
        (state.buf.take (state.frameEnd + separator.length)) with
    | error e => rfl
    | ok encoder => rfl

theorem encodeFrameOnSame_toNew (hsize : separator.length < frameSize)
    (hends : state.frameEnd + separator.length = state.searchStart) :
    state.toNew.encodeFrameOnSameSeparatorCnt (frameSize + separator.length) =
      (state.oldEncodeFrameOnSameSeparatorCnt frameSize separator).map fun result =>
        (result.1, result.2.toNew) := by
  rw [Compression.encodeFrameOnSameSeparatorCnt, oldEncodeFrameOnSameSeparatorCnt,
    encodeFrameNotSame_toNew hsize hends]
  have hmax : state.toNew.maxOfSeparator = state.maxOfSeparator := rfl
  have hcnt : state.toNew.cntOfSeparator = state.cntOfSeparator := rfl
  rw [hmax, hcnt]
  by_cases hfirst : state.maxOfSeparator = -1
  · rw [if_pos hfirst, if_pos hfirst]
    cases state.oldEncodeFrameNotSameSeparatorCnt frameSize separator with
    | error e => rfl
    | ok result =>
        obtain ⟨_ | _, after⟩ := result
        · rfl
        · rfl
  · rw [if_neg hfirst, if_neg hfirst]
    by_cases hskip : (state.cntOfSeparator : Int) < state.maxOfSeparator
    · rw [if_pos hskip, if_pos hskip]
      rfl
    · rw [if_neg hskip, if_neg hskip]
      have hends' : state.toNew.frameEnd = state.frameEnd + separator.length := hends.symm
      rw [hends']
      simp only [toNew]
      cases state.encoder.compressNext state.writtenFrame
          (state.buf.take (state.frameEnd + separator.length)) with
      | error e => rfl
      | ok encoder => rfl

/-- Behind a frame that was due nothing is in front of the frame end. -/
theorem oldEncodeFrameNotSame_ok {result : FrameEncodeResult} {after : OldCompression zeek R}
    (h : state.oldEncodeFrameNotSameSeparatorCnt frameSize separator = .ok (result, after)) :
    result = .skipped ∧ after = state ∧ state.frameEnd < frameSize ∨
      result = .encoded ∧ after.frameEnd = 0 ∧ after.searchStart = 0 := by
  rw [oldEncodeFrameNotSameSeparatorCnt] at h
  split at h
  · next hskip =>
      cases h
      exact Or.inl ⟨rfl, rfl, hskip⟩
  · right
    simp only at h
    split at h
    · cases h
    · cases h
      exact ⟨rfl, rfl, rfl⟩

theorem oldEncodeFrameOnSame_ok {result : FrameEncodeResult} {after : OldCompression zeek R}
    (h : state.oldEncodeFrameOnSameSeparatorCnt frameSize separator = .ok (result, after)) :
    after = state ∧ (state.maxOfSeparator = -1 ∨ state.cntOfSeparator < state.maxOfSeparator) ∨
      after.frameEnd = 0 ∧ after.searchStart = 0 := by
  rw [oldEncodeFrameOnSameSeparatorCnt] at h
  split at h
  · next hfirst =>
      cases hencode : state.oldEncodeFrameNotSameSeparatorCnt frameSize separator with
      | error e =>
          rw [hencode] at h
          cases h
      | ok encoded =>
          rw [hencode] at h
          obtain ⟨result', after'⟩ := encoded
          rcases oldEncodeFrameNotSame_ok hencode with ⟨rfl, rfl, -⟩ | ⟨rfl, hend, hsearch⟩
          · cases h
            exact Or.inl ⟨rfl, Or.inl hfirst⟩
          · cases h
            exact Or.inr ⟨hend, hsearch⟩
  · split at h
    · next hskip =>
        cases h
        exact Or.inl ⟨rfl, Or.inr hskip⟩
    · split at h
      · cases h
      · cases h
        exact Or.inr ⟨rfl, rfl⟩

/-- Both ways to end a frame keep in step. -/
theorem encodeFrame_inStep {result : FrameEncodeResult} {after : OldCompression zeek R}
    (hends : state.frameEnd + separator.length = state.searchStart)
    (h : (if isSame then state.oldEncodeFrameOnSameSeparatorCnt frameSize separator
      else state.oldEncodeFrameNotSameSeparatorCnt frameSize separator) = .ok (result, after)) :
    InStep separator isSame frameSize after := by
  cases isSame with
  | false =>
      rcases oldEncodeFrameNotSame_ok h with ⟨-, rfl, hskip⟩ | ⟨-, hend, hsearch⟩
      · exact ⟨Or.inl hends, fun _ => Nat.le_of_lt hskip⟩
      · exact ⟨Or.inr ⟨hend, hsearch⟩, fun _ => hend ▸ Nat.zero_le _⟩
  | true =>
      rcases oldEncodeFrameOnSame_ok h with ⟨rfl, hskip⟩ | ⟨hend, hsearch⟩
      · refine ⟨Or.inl hends, fun hfull => ?_⟩
        obtain ⟨hset, hcount⟩ := hfull rfl
        rcases hskip with hfirst | hless
        · exact absurd hfirst hset
        · exact absurd hcount (Int.ne_of_lt hless)
      · exact ⟨Or.inr ⟨hend, hsearch⟩, fun _ => hend ▸ Nat.zero_le _⟩

/-! ### The scan -/

/-- The new scan goes where the old one does. -/
theorem scan_toNew (hne : separator ≠ []) (hsize : separator.length < frameSize) (fuel : Nat)
    (h : InStep separator isSame frameSize state) :
    Compression.scanFuel (separatorFinder separator hne) isSame (frameSize + separator.length)
        fuel state.toNew =
      (scanFuel separator isSame frameSize fuel state).map toNew ∧
    ∀ after, scanFuel separator isSame frameSize fuel state = .ok after →
      InStep separator isSame frameSize after := by
  induction fuel generalizing state with
  | zero =>
      refine ⟨rfl, ?_⟩
      rintro after ⟨⟩
      exact h
  | succ fuel ih =>
      rw [Compression.scanFuel, scanFuel]
      have hnext : state.toNew.stream.nextEnd (separatorFinder separator hne) =
          ((memmem separator (state.buf.drop state.searchStart)).map
            (· + separator.length)).map fun posAfter =>
              (state.searchStart + posAfter,
                { state.toNew.stream with lastEnd := state.searchStart + posAfter }) := by
        have hfind : separatorFinder separator hne (state.buf.drop state.searchStart) =
            (memmem separator (state.buf.drop state.searchStart)).map (· + separator.length) := rfl
        rw [Stream.nextEnd, ← hfind]
        simp only [toNew]
        cases separatorFinder separator hne (state.buf.drop state.searchStart) <;> rfl
      rw [hnext]
      cases hpos : memmem separator (state.buf.drop state.searchStart) with
      | none =>
          refine ⟨rfl, ?_⟩
          rintro after ⟨⟩
          exact h
      | some pos =>
          simp only [Option.map_some]
          generalize hfound : ({ state with
            cntOfSeparator := state.cntOfSeparator + if isSame then 1 else 0
            frameEnd := state.searchStart + (pos + separator.length) - separator.length
            searchStart := state.searchStart + (pos + separator.length) } :
              OldCompression zeek R) = found
          have hends : found.frameEnd + separator.length = found.searchStart := by
            rw [← hfound]
            simp only
            omega
          have hnew : ({ state.toNew with
              stream := { state.toNew.stream with
                lastEnd := state.searchStart + (pos + separator.length) }
              frameEnd := state.searchStart + (pos + separator.length)
              cntOfSeparator := state.toNew.cntOfSeparator + if isSame then 1 else 0 } :
                Compression zeek R) = found.toNew := by
            rw [← hfound]
            rfl
          rw [hnew]
          have hencode : (if isSame then
                found.toNew.encodeFrameOnSameSeparatorCnt (frameSize + separator.length)
              else found.toNew.encodeFrameNotSameSeparatorCnt (frameSize + separator.length)) =
              (if isSame then found.oldEncodeFrameOnSameSeparatorCnt frameSize separator
                else found.oldEncodeFrameNotSameSeparatorCnt frameSize separator).map
                  fun result => (result.1, result.2.toNew) := by
            cases isSame with
            | false => exact encodeFrameNotSame_toNew hsize hends
            | true => exact encodeFrameOnSame_toNew hsize hends
          rw [hencode]
          cases hold : (if isSame then
              found.oldEncodeFrameOnSameSeparatorCnt frameSize separator
            else found.oldEncodeFrameNotSameSeparatorCnt frameSize separator) with
          | error e =>
              refine ⟨rfl, ?_⟩
              rintro after ⟨⟩
          | ok encoded => exact ih (encodeFrame_inStep hends hold)

/-! ### The loop -/

theorem dropProcessed_eq (h : InStep separator isSame frameSize state) :
    state.dropProcessed isSame frameSize = state := by
  rw [dropProcessed]
  split_ifs with hfirst hcount hlong
  · rfl
  · rfl
  · have hle := h.short fun hsame =>
      ⟨fun hmax => hfirst ⟨hsame, hmax⟩, by_contra fun hne => hcount ⟨hsame, hne⟩⟩
    omega
  · rfl

theorem dropProcessed_toNew (h : InStep separator isSame frameSize state) :
    state.toNew.dropProcessed isSame (frameSize + separator.length) = state.toNew := by
  rw [Compression.dropProcessed]
  split_ifs with hfirst hcount hlong
  · rfl
  · rfl
  · have hle := h.short fun hsame =>
      ⟨fun hmax => hfirst ⟨hsame, hmax⟩, by_contra fun hne => hcount ⟨hsame, hne⟩⟩
    have hends := h.ends
    simp only [toNew] at hlong
    omega
  · rfl

theorem saturatingMul_mono {a b : Nat} (h : a ≤ b) (c : Nat) :
    saturatingMul a c ≤ saturatingMul b c := by
  have hle := Nat.mul_le_mul_right c h
  rw [saturatingMul, saturatingMul]
  omega

variable [Read R] {limitMultiplier : Nat}

/-- Where the old loop ends, so does the new one: its limit is no smaller. -/
theorem loop_toNew (hne : separator ≠ []) (hsize : separator.length < frameSize) (fuel : Nat)
    (h : InStep separator isSame frameSize state) {after : OldCompression zeek R}
    (hok : loopFuel separator isSame frameSize limitMultiplier fuel state = .ok after) :
    Compression.loopFuel (separatorFinder separator hne) isSame (frameSize + separator.length)
      limitMultiplier fuel state.toNew = .ok after.toNew := by
  induction fuel generalizing state with
  | zero => cases hok
  | succ fuel ih =>
      rw [loopFuel] at hok
      cases hread : Read.read state.reader readBufSize with
      | error e =>
          rw [hread] at hok
          cases hok
      | ok got =>
          obtain ⟨bytes, reader⟩ := got
          rw [hread] at hok
          simp only at hok
          by_cases hend : bytes.length = 0
          · rw [if_pos hend] at hok
            cases hok
            have hread' : Read.read state.toNew.stream.source readBufSize =
                .ok (bytes, reader) := hread
            rw [Compression.loopFuel, Stream.fill, hread']
            simp only [if_pos hend]
            rfl
          · rw [if_neg hend] at hok
            by_cases hover : saturatingMul frameSize limitMultiplier <
                (state.buf ++ bytes).length - state.searchStart
            · split_ifs at hok
            · rw [if_neg fun hlimit => hover hlimit.2, if_neg hover] at hok
              have hfill := @Compression.fill_of_read zeek R _ state.toNew bytes reader hread
                (mt List.length_eq_zero_iff.mpr hend)
              have hmono := saturatingMul_mono (Nat.le_add_right frameSize separator.length)
                limitMultiplier
              have hwithin : (state.buf ++ bytes).length - state.searchStart ≤
                  saturatingMul (frameSize + separator.length) limitMultiplier := by omega
              have hfilled : InStep separator isSame frameSize
                  { state with reader := reader, buf := state.buf ++ bytes } := ⟨h.ends, h.short⟩
              obtain ⟨hscan, hinStep⟩ := scan_toNew hne hsize
                ((state.buf ++ bytes).length - state.searchStart) hfilled
              cases hscanned : scanFuel separator isSame frameSize
                  ((state.buf ++ bytes).length - state.searchStart)
                  { state with reader := reader, buf := state.buf ++ bytes } with
              | error e =>
                  rw [hscanned] at hok
                  cases hok
              | ok next =>
                  rw [hscanned] at hok hscan
                  have hnext := hinStep next hscanned
                  simp only [dropProcessed_eq hnext] at hok
                  apply (Compression.loopFuel_pass hfill hwithin hscan).trans
                  rw [dropProcessed_toNew hnext]
                  exact ih hnext hok

end OldCompression

section Convert

variable [Read R] {reader : R} {frameSize : Nat} {isSame : Bool} {limitMultiplier : Option Nat}
  {opts : Option CompressOptions} {bytes : Bytes}

/-- What the old compressor writes at a frame size, the new one writes at that size and the
separator, at the default level. -/
theorem newConvert_of_old (hsize : separator.length < frameSize)
    (h : oldConvertToSeekableZst zeek reader frameSize isSame separator limitMultiplier opts =
      .ok bytes) :
    newConvertToSeekableZst zeek reader (frameSize + separator.length) isSame separator
      limitMultiplier (some { opts.getD {} with level := ({} : CompressOptions).level }) =
        .ok bytes := by
  rw [oldConvertToSeekableZst] at h
  simp only at h
  split at h
  · cases h
  · next hne =>
      rw [newConvertToSeekableZst, dif_neg hne]
      generalize hstart : ({
        encoder := {
          checksum := (opts.getD {}).checksum
          level := ({} : CompressOptions).level }
        reader := reader
        maxOfSeparator := ((opts.getD {}).maxOfSeparator.map asI64).getD (-1) } :
          OldCompression zeek R) = start at h
      have hinStep : OldCompression.InStep separator isSame frameSize start := by
        rw [← hstart]
        exact ⟨Or.inr ⟨rfl, rfl⟩, fun _ => Nat.zero_le _⟩
      cases hloop : start.loopFuel separator isSame frameSize
          (limitMultiplier.getD limitSepBufMultiplier) (Read.budget reader + 1) with
      | error e =>
          rw [hloop] at h
          cases h
      | ok state =>
          rw [hloop] at h
          have hnew := OldCompression.loop_toNew hne hsize _ hinStep hloop
          rw [← hstart] at hnew
          rw [convertRecordsToSeekableZst]
          simp only [Option.getD_some]
          simp only [OldCompression.toNew] at hnew
          rw [hnew]
          exact h

end Convert

section Frames

variable {find : Finder UInt8} {frameSize : Nat} {isSame : Bool} {limitMultiplier : Option Nat}
  {opts : Option CompressOptions} {bytes : Bytes}

/-- A file whose groups fit a frame each holds one frame of each. -/
theorem frameContents_of_convert {reader : Input}
    (h : convertRecordsToSeekableZst zeek reader frameSize isSame find limitMultiplier opts =
      .ok bytes)
    (hfits : ∀ g ∈ (ruleOf find isSame (heldCount (opts.getD {}).maxOfSeparator) frameSize
      reader.data).frames find reader.data, g.length ≤ zeek.frameLimit) :
    ∃ archive : Archive zeek, bytes = archive.file.bytes ∧
      archive.contents = (ruleOf find isSame (heldCount (opts.getD {}).maxOfSeparator) frameSize
        reader.data).frames find reader.data := by
  obtain ⟨made, hmade, hroom, rfl⟩ := convert_made h
  exact ⟨⟨made.flatten, hroom, fun _ => 0, fun _ => none⟩, rfl,
    (oneEach_of_le hmade hfits).contents⟩

/-- The old compressor at a frame size and the new one at that size and the separator leave the
same frames, whatever the reads each has its input in, where no frame is more than the old one's
encoder holds. -/
theorem old_new_frames_eq (policy : FrameSizePolicy zeek.toFrameFormat)
    (hlimits : policy.frameLimit ≤ zeek.frameLimit) (hne : separator ≠ [])
    (hsize : separator.length < frameSize) {oldReader newReader : Input}
    (hdata : oldReader.data = newReader.data) {oldBytes newBytes : Bytes}
    (hold : oldConvertToSeekableZst (zeek.under policy) oldReader frameSize isSame separator
      limitMultiplier opts = .ok oldBytes)
    (hnew : newConvertToSeekableZst zeek newReader (frameSize + separator.length) isSame separator
      limitMultiplier opts = .ok newBytes)
    (hgroups : ∀ g ∈ (ruleOf (separatorFinder separator hne) isSame
      (heldCount (opts.getD {}).maxOfSeparator) (frameSize + separator.length)
      newReader.data).frames (separatorFinder separator hne) newReader.data,
      g.length ≤ policy.frameLimit) :
    ∃ contents, frameContents zeek oldBytes = .ok contents ∧
      frameContents zeek newBytes = .ok contents := by
  have hsame := newConvert_of_old hsize hold
  rw [newConvertToSeekableZst, dif_neg hne] at hsame hnew
  have hgroups' := hgroups
  rw [← hdata] at hgroups'
  obtain ⟨oldArchive, rfl, hcontents⟩ := frameContents_of_convert hsame hgroups'
  obtain ⟨newArchive, rfl, hcontents'⟩ := frameContents_of_convert hnew fun g hg =>
    Nat.le_trans (hgroups g hg) hlimits
  -- both read back under either policy
  let readBack : Archive zeek :=
    ⟨oldArchive.frames, oldArchive.count_le, oldArchive.reads, oldArchive.schedule⟩
  refine ⟨newArchive.contents, ?_, newArchive.frameContents_eq⟩
  have hback : readBack.contents = newArchive.contents := by
    rw [hcontents', ← hdata]
    exact hcontents
  rw [← hback]
  exact readBack.frameContents_eq

end Frames

/-- The policy a library has its encoders under. -/
def Zeekstd.policy (zeek : Zeekstd) : FrameSizePolicy zeek.toFrameFormat where
  encode := zeek.encode
  encode_content := zeek.encode_content
  encode_ne_nil := zeek.encode_ne_nil
  encode_checksum := zeek.encode_checksum
  frameLimit := zeek.frameLimit
  encode_one := zeek.encode_one
  encode_split := zeek.encode_split

/-- Lines that end in two bytes, and what is behind them. -/
def crlfInput (wish : Nat) : Input :=
  { data := [97, 13, 10, 98, 99, 13, 10, 13, 10, 100], schedule := fun _ => some wish }

theorem old_new_frames_eq_crlf :
    ∃ oldBytes newBytes contents,
      oldConvertToSeekableZst (storedZeekstd.under storedZeekstd.policy) (crlfInput 0) 3 true
        [13, 10] (some 4) none = .ok oldBytes ∧
      newConvertToSeekableZst storedZeekstd (crlfInput wholeWish) 5 true [13, 10] (some 4) none =
        .ok newBytes ∧
      frameContents storedZeekstd oldBytes = .ok contents ∧
      frameContents storedZeekstd newBytes = .ok contents := by
  have hold : ∃ oldBytes, oldConvertToSeekableZst (storedZeekstd.under storedZeekstd.policy)
      (crlfInput 0) 3 true [13, 10] (some 4) none = .ok oldBytes := ⟨_, rfl⟩
  have hnew : ∃ newBytes, newConvertToSeekableZst storedZeekstd (crlfInput wholeWish) 5 true
      [13, 10] (some 4) none = .ok newBytes := ⟨_, rfl⟩
  obtain ⟨oldBytes, hold⟩ := hold
  obtain ⟨newBytes, hnew⟩ := hnew
  have hgroups : ∀ g ∈ (ruleOf (separatorFinder [13, 10] (by decide)) true (heldCount none) 5
      (crlfInput wholeWish).data).frames (separatorFinder [13, 10] (by decide))
      (crlfInput wholeWish).data, g.length ≤ storedZeekstd.policy.frameLimit := by
    decide +kernel
  obtain ⟨contents, hcontents⟩ := old_new_frames_eq storedZeekstd.policy (Nat.le_refl _)
    (by decide) (by decide) rfl hold hnew hgroups
  exact ⟨oldBytes, newBytes, contents, hold, hnew, hcontents⟩

end SeekZstdSep
