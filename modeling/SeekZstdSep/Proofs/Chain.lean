/-
Module: SeekZstdSep.Proofs.Chain
Purpose: Appends chained by what each returned: what the one before knew saves the next its
  reads and changes nothing else. The same bytes are written, what is returned stays true, and a
  count that was only trusted is checked by the first append that does not trust it.
Trusted boundary: the library, as `Zeekstd` has it
Main exports: AppendCall, Chained, Chained.reached, append_chain_transparent
-/
import SeekZstdSep.Proofs.Append

namespace SeekZstdSep

open Lib

variable {zeek : Zeekstd} {boundary : Boundary} {find : Finder UInt8} {n : Nat}

/-- One append of a chain: everything but what the append before it returned. -/
structure AppendCall where
  data : Input
  separator : Bytes
  onMissing : OnMissingSeparator
  level : Int
  records : Option Nat
  finder : Option (Finder UInt8)
  trust : Bool

namespace AppendCall

def options (call : AppendCall) (previous : Option AppendResult) : AppendOptions :=
  { previous := previous, finder := call.finder, trustRecordsPerFrame := call.trust }

/-- The append, with what the one before it returned. -/
def run (call : AppendCall) (zeek : Zeekstd) (f : File) (previous : Option AppendResult) :
    Except Error AppendResult × File :=
  appendRecordsWithOpts zeek f call.data call.separator call.onMissing call.level call.records
    (call.options previous)

/-- The same append without its shortcuts. -/
def plain (call : AppendCall) (zeek : Zeekstd) (f : File) : Except Error AppendResult × File :=
  ({ call with trust := false } : AppendCall).run zeek f none

/-- The append goes by the boundary. -/
def Gives (call : AppendCall) (boundary : Boundary) : Prop :=
  (call.options none).Gives call.separator boundary

theorem run_eq {call : AppendCall} (hgives : call.Gives boundary) (f : File)
    (previous : Option AppendResult) :
    call.run zeek f previous =
      if call.finder.isSome ∧ call.onMissing = .insert then (.error .insertWithoutSeparator, f)
      else
        appendRecordsInner zeek f call.data boundary.find boundary.separator? call.onMissing
          call.level call.records call.trust previous := by
  have hoptions : (call.options previous).Gives call.separator boundary := hgives
  exact appendRecordsWithOpts_eq hoptions

theorem run_ok {call : AppendCall} (hgives : call.Gives boundary) {f f' : File}
    {previous : Option AppendResult} {result : AppendResult}
    (hok : call.run zeek f previous = (.ok result, f')) :
    appendRecordsInner zeek f call.data boundary.find boundary.separator? call.onMissing
      call.level call.records call.trust previous = (.ok result, f') := by
  have hoptions : (call.options previous).Gives call.separator boundary := hgives
  exact appendRecordsWithOpts_ok hoptions hok

/-- An append to a file of `n` records per frame: it states that count or none, and trusts no
count it does not state. -/
structure Fits (call : AppendCall) (boundary : Boundary) (n : Nat) : Prop where
  gives : call.Gives boundary
  records : call.records = none ∨ call.records = some n
  trust : call.trust = true → call.records = some n

/-- A call that states `n` or nothing states no other count. -/
theorem eq_of_records {records : Option Nat} (h : records = none ∨ records = some n) :
    ∀ count ∈ records, count = n := by
  intro count hcount
  rcases h with rfl | rfl
  · cases hcount
  · cases hcount
    rfl

theorem Fits.eq_of_mem {call : AppendCall} (h : call.Fits boundary n) :
    ∀ count ∈ call.records, count = n := eq_of_records h.records

end AppendCall

/-- What a chain of appends to a file comes to: the file it leaves, what the last of them
returned, and whether one of them did not trust its count. -/
inductive Chained (zeek : Zeekstd) (allowed : File → AppendCall → Prop) (f₀ : File) :
    File → Option AppendResult → Bool → Prop where
  | start : Chained zeek allowed f₀ f₀ none false
  | append {f f' : File} {previous : Option AppendResult} {checked : Bool} {call : AppendCall}
      {result : AppendResult} (chain : Chained zeek allowed f₀ f previous checked)
      (fits : allowed f call) (ran : call.run zeek f previous = (.ok result, f')) :
      Chained zeek allowed f₀ f' (some result) (checked || !call.trust)

/-- A decoder over the file fills a buffer as large as a frame in one read. -/
def File.Fills (zeek : Zeekstd) (f : File) : Prop :=
  ∀ table, zeek.fromSeekable f.bytes = .ok table → ∀ tick, ∀ entry ∈ table,
    shortRead (f.reads tick) entry.2 = entry.2

theorem Archive.fills_of_file {now : Archive zeek} (h : now.file.Fills zeek) : now.Fills := by
  intro tick content hcontent
  obtain ⟨frame, hframe, rfl⟩ := List.mem_map.mp hcontent
  exact h _ now.fromSeekable tick frame.entry (List.mem_map_of_mem hframe)

/-- What an append of a chain over a uniform file keeps to. -/
def ChainCall (zeek : Zeekstd) (boundary : Boundary) (n : Nat) (f : File) (call : AppendCall) :
    Prop :=
  f.Fills zeek ∧ call.Fits boundary n

/-! ### What is passed on describes the file -/

/-- A result that describes a file matches its seek table. -/
theorem AppendResult.Describes.fitting {now : Archive zeek} {result : AppendResult}
    (h : result.Describes find now) (hne : now.frames ≠ []) {records : Option Nat}
    (hrecords : ∀ count ∈ records, count = result.recordsPerFrame) :
    now.fitting records (some result) = some result := by
  have hi : now.frames.length - 1 < now.frames.length :=
    Nat.sub_lt (List.length_pos_iff.mpr hne) Nat.one_pos
  have hlast : now.frames[now.frames.length - 1] ∈ now.frames.getLast? := by
    rw [List.getLast?_eq_getElem?, List.getElem?_eq_getElem hi]
    rfl
  obtain ⟨hcomp, hdecomp⟩ := h.sizes _ hlast
  have hmatches : result.matches (tableOf now.frames) (now.frames.length - 1) = true := by
    rw [AppendResult.matches, h.frameCount, h.lastFrame, length_tableOf,
      frameSizeComp_tableOf _ hi, frameSizeDecomp_tableOf _ hi, hcomp, hdecomp]
    simp
  have hall : records.all (· == result.recordsPerFrame) = true := by
    rw [Option.all_eq_true]
    intro count hcount
    exact beq_iff_eq.mpr (hrecords count hcount)
  rw [Archive.fitting, fittingResult, Option.filter_some, hmatches, hall]
  rfl

/-- What is known of a file a chain reached: it is still uniform, but that it may end in a
fragment, and what the last append returned is true of it. -/
structure Reached (boundary : Boundary) (n : Nat) (now : Archive zeek)
    (previous : Option AppendResult) : Prop where
  uniform : Uniform boundary.find true n now.contents
  describes : ∀ result ∈ previous, result.Describes boundary.find now
  count : ∀ result ∈ previous, result.recordsPerFrame = n

theorem uniform_ragged {ragged : Bool} {contents : List Bytes}
    (h : Uniform find ragged n contents) : Uniform find true n contents where
  pos := h.pos
  ne_nil := h.ne_nil
  full := h.full
  last g hg := ⟨(h.last g hg).1, (h.last g hg).2.1, Or.inl rfl⟩

namespace Reached

variable {now : Archive zeek} {previous : Option AppendResult} {call : AppendCall}

theorem frames_ne_nil (h : Reached boundary n now previous) : now.frames ≠ [] := by
  intro hnil
  apply h.uniform.ne_nil
  rw [Archive.contents, hnil]
  rfl

/-- The previous result always fits. -/
theorem fitting (h : Reached boundary n now previous) (hcall : call.Fits boundary n) :
    now.fitting call.records previous = previous := by
  cases hprevious : previous with
  | none => rfl
  | some result =>
      apply (h.describes result hprevious).fitting h.frames_ne_nil
      intro count hcount
      rw [hcall.eq_of_mem count hcount, h.count result hprevious]

/-- What an append of nothing returns is what was known. -/
theorem nothing_describes (h : Reached boundary n now previous) {target : AppendTarget}
    (hover : target.Over now n) (hprevious : target.previous = previous) :
    target.nothing.Describes boundary.find now ∧ target.nothing.recordsPerFrame = n := by
  rw [AppendTarget.nothing, hprevious]
  cases hcase : previous with
  | some result =>
      have hdescribes := h.describes result hcase
      exact ⟨⟨hdescribes.frameCount, hdescribes.lastFrame, hdescribes.sizes, hdescribes.state⟩,
        hover.n⟩
  | none =>
      refine ⟨⟨?_, hover.last, ?_, ?_⟩, hover.n⟩
      · simp only [hover.table, length_tableOf]
      · intro frame hframe
        obtain ⟨hi, hget⟩ := List.getElem?_eq_some_iff.mp
          (List.getLast?_eq_getElem? (l := now.frames) ▸ hframe)
        simp only [hover.table, hover.last, frameSizeComp_tableOf _ hi,
          frameSizeDecomp_tableOf _ hi, hget, and_self]
      · intro frame _ count hcount
        cases hcount

/-- An append that succeeds leaves a file the chain can go on from. -/
theorem step (h : Reached boundary n now previous) (hwhole : boundary.find.Whole)
    (hfills : now.file.Fills zeek) (hcall : call.Fits boundary n) {result : AppendResult}
    {f' : File} (hok : call.run zeek now.file previous = (.ok result, f')) :
    ∃ now' : Archive zeek, f' = now'.file ∧ Reached boundary n now' (some result) := by
  have hinner := AppendCall.run_ok hcall.gives hok
  obtain ⟨target, htarget, hcase⟩ := appendRecordsInner_ok h.uniform.pos
    (Archive.lastContent_ne_nil h.uniform) (fun _ => ⟨_, h.uniform⟩)
    (Archive.fills_of_file hfills) hcall.eq_of_mem (fun result hin _ => h.count result hin)
    h.describes hinner
  rcases hcase with ⟨-, rfl, rfl⟩ | ⟨-, now', rfl, -, hcontents, -, hdescribes, hcount, -⟩
  · obtain ⟨hover, hfitting, -⟩ := appendTarget_ok (Archive.lastContent_ne_nil h.uniform)
        (fun _ => ⟨_, h.uniform⟩) hcall.eq_of_mem
      (fun result hin _ => h.count result hin) htarget
    rw [h.fitting hcall] at hfitting
    obtain ⟨hdescribes, hcount⟩ := h.nothing_describes hover hfitting
    refine ⟨now, rfl, h.uniform, ?_, ?_⟩
    · rintro _ ⟨⟩
      exact hdescribes
    · rintro _ ⟨⟩
      exact hcount
  · refine ⟨now', rfl, ?_, ?_, ?_⟩
    · rw [hcontents]
      exact appendedContents_uniform hwhole h.uniform _ (Or.inl rfl)
    · rintro _ ⟨⟩
      exact hdescribes hwhole
    · rintro _ ⟨⟩
      exact hcount

end Reached

/-- Every file a chain reaches is uniform, and what was returned last is true of it. -/
theorem Chained.reached {archive : Archive zeek} {f : File} {previous : Option AppendResult}
    {checked : Bool} (huniform : archive.IsUniform boundary n) (hwhole : boundary.find.Whole)
    (h : Chained zeek (ChainCall zeek boundary n) archive.file f previous checked) :
    ∃ now : Archive zeek, f = now.file ∧ Reached boundary n now previous := by
  induction h with
  | start =>
      refine ⟨archive, rfl, uniform_ragged huniform, ?_, ?_⟩
      · rintro _ ⟨⟩
      · rintro _ ⟨⟩
  | append chain fits ran ih =>
      obtain ⟨now, rfl, hreached⟩ := ih
      exact hreached.step hwhole fits.1 fits.2 ran

/-! ### The same append without its shortcuts -/

section Shortcuts

variable {f : File} {records : Option Nat} {trust : Bool} {previous : Option AppendResult}

/-- What a first append establishes of a file is enough for one that knows or trusts more. -/
theorem appendTarget_of_plain (htrust : trust = true → records ≠ none) {plain : AppendTarget}
    (hplain : appendTarget zeek f find records false none = .ok plain) :
    ∃ target, appendTarget zeek f find records trust previous = .ok target := by
  rw [appendTarget] at hplain ⊢
  have hstated : ¬ (trust = true ∧ records = none) := fun h => htrust h.1 h.2
  rw [if_neg (by simp)] at hplain
  rw [if_neg hstated]
  by_cases hzero : records = some 0
  · rw [if_pos hzero] at hplain
    cases hplain
  rw [if_neg hzero] at hplain ⊢
  cases htable : zeek.fromSeekable f.bytes with
  | error e =>
      rw [htable] at hplain
      cases hplain
  | ok table =>
      rw [htable] at hplain
      simp only at hplain ⊢
      by_cases hnone : table.length = 0
      · rw [if_pos hnone] at hplain
        cases hplain
      rw [if_neg hnone] at hplain ⊢
      cases hlast : lastDataFrame table with
      | error e =>
          rw [hlast] at hplain
          cases hplain
      | ok last =>
          rw [hlast] at hplain
          cases records with
          | some count =>
              simp only at hplain ⊢
              by_cases hempty : table.frameSizeDecomp last = 0
              · rw [if_pos hempty] at hplain
                cases hplain
              rw [if_neg hempty] at hplain ⊢
              cases hvalidate : validateRecordsPerFrame find (FrameReader.new zeek f table) last
                  count with
              | error e =>
                  rw [hvalidate] at hplain
                  cases hplain
              | ok reader =>
                  split <;> exact ⟨_, rfl⟩
          | none =>
              cases hvalidate : validateSeparator find (FrameReader.new zeek f table) with
              | error e =>
                  rw [hvalidate] at hplain
                  cases hplain
              | ok got =>
                  simp only
                  split <;> exact ⟨_, rfl⟩

/-- Trust refuses nothing of a join but a last frame of too many records. -/
theorem joinOf_of_plain {separator : Option Bytes} {onMissing : OnMissingSeparator}
    {old head : Bytes} {checksum : Bool} {join : Join}
    (hplain : joinOf find n separator onMissing false old checksum head = .ok join) :
    joinOf find n separator onMissing trust old checksum head =
      if trust = true ∧ n < (find.records (old ++ glueOf find separator old)).length then
        .error (.lastFrameExceeds (find.records (old ++ glueOf find separator old)).length n)
      else .ok join := by
  rw [joinOf] at hplain ⊢
  by_cases hmagic : head.take 4 = zstdMagic
  · rw [if_pos hmagic] at hplain
    cases hplain
  rw [if_neg hmagic] at hplain ⊢
  cases hend : endFragment find separator onMissing old (find.rest old).isEmpty with
  | error e =>
      rw [hend] at hplain
      cases hplain
  | ok got =>
      obtain ⟨tail, inserted⟩ := got
      rw [hend] at hplain
      have htail := endFragment_tail hend
      simp only [Bool.false_eq_true, false_and, if_false] at hplain
      cases hplain
      simp only [htail]

end Shortcuts

/-- The rewrite goes by the table, the last frame and the records per frame of its target. -/
theorem appendRewrite_congr {R : Type} [Read R] {target target' : AppendTarget}
    (htable : target'.table = target.table) (hlast : target'.last = target.last)
    (hn : target'.n = target.n) (join : Join) (first : FirstGroup zeek R) (level : Int)
    (f : File) :
    appendRewrite find target' join first level f =
      ((appendRewrite find target join first level f).1.map fun result =>
          { result with countValidated := target'.countValidated },
        (appendRewrite find target join first level f).2) := by
  have hcut : cutOf target' join = cutOf target join := by
    rw [cutOf, cutOf, htable, hlast]
  have hkept : keptFrames target' join = keptFrames target join := by
    rw [keptFrames, keptFrames, hlast]
  have hresult : ∀ state, appendedResult target' join.checksum state =
      { appendedResult target join.checksum state with
        countValidated := target'.countValidated } := by
    intro state
    rw [appendedResult, appendedResult, hn]
  rw [appendRewrite, appendRewrite, hcut, hkept, htable, hn]
  simp only [hresult]
  cases hlog : logFrames zeek [] (target.table.take (keptFrames target join)) with
  | error e => rfl
  | ok out =>
      simp only
      cases hone : logFrame zeek out first.frame.entry with
      | error e => rfl
      | ok out' =>
          simp only
          split <;> rfl

namespace Reached

variable {now : Archive zeek} {previous : Option AppendResult} {call : AppendCall}

/-- The last frame of a file the chain reached ends in a fragment, and with the separator behind
it would hold too many records. -/
def Overfull (boundary : Boundary) (n : Nat) (now : Archive zeek) (count : Nat) : Prop :=
  boundary.find.rest now.lastContent ≠ [] ∧
    count = (boundary.find.records (now.lastContent ++ boundary.separator?.getD [])).length ∧
    n < count

/-- What a first append would do a chained one does too, unless it is to trust a count that
does not hold any more once the separator is inserted. -/
theorem of_plain (h : Reached boundary n now previous) (hfills : now.file.Fills zeek)
    (hcall : call.Fits boundary n) {result : AppendResult} {f' : File}
    (hplain : call.plain zeek now.file = (.ok result, f')) :
    (∃ result', call.run zeek now.file previous = (.ok result', f')) ∨
      (call.trust = true ∧ ∃ count, Overfull boundary n now count ∧
        call.run zeek now.file previous = (.error (.lastFrameExceeds count n), now.file)) := by
  have hgives : ({ call with trust := false } : AppendCall).Gives boundary := hcall.gives
  have hseparator : ¬ (call.finder.isSome ∧ call.onMissing = .insert) := by
    intro hrefused
    rw [AppendCall.plain, AppendCall.run_eq hgives, if_pos hrefused] at hplain
    cases hplain
  have hinner := AppendCall.run_ok hgives hplain
  rw [AppendCall.run_eq hcall.gives, if_neg hseparator]
  simp only [appendRecordsInner] at hinner ⊢
  cases hchecks : appendChecks zeek now.file call.data boundary.find boundary.separator?
      call.onMissing call.level call.records false none with
  | error e =>
      rw [hchecks] at hinner
      cases hinner
  | ok got =>
      obtain ⟨plain, rest⟩ := got
      rw [hchecks] at hinner
      obtain ⟨hplainTarget, head, data', hhead, hcase⟩ := appendChecks_ok hchecks
      have htrust : call.trust = true → call.records ≠ none := by
        intro htrue hnone
        rw [hcall.trust htrue] at hnone
        cases hnone
      obtain ⟨target, htarget⟩ : ∃ target, appendTarget zeek now.file boundary.find call.records
          call.trust previous = .ok target :=
        appendTarget_of_plain htrust hplainTarget
      obtain ⟨hover, hfitting, -⟩ := appendTarget_ok (Archive.lastContent_ne_nil h.uniform)
        (fun _ => ⟨_, h.uniform⟩) hcall.eq_of_mem
        (fun result hin _ => h.count result hin) htarget
      obtain ⟨hoverPlain, hfittingPlain, -⟩ := appendTarget_ok
        (Archive.lastContent_ne_nil h.uniform) (fun _ => ⟨_, h.uniform⟩) hcall.eq_of_mem
        (fun _ hin => by cases hin) hplainTarget
      rw [h.fitting hcall] at hfitting
      rw [appendChecks, htarget, hhead]
      rcases hcase with ⟨hnil, rfl⟩ | ⟨hne, join, first, rfl, hjoin, hfirst⟩
      · cases hinner
        left
        rw [hnil]
        exact ⟨_, rfl⟩
      · have hsome : ¬ head.length = 0 := mt List.length_eq_zero_iff.mp hne
        obtain ⟨init, frame, hframes, hold⟩ :=
          Archive.exists_concat (Archive.lastContent_ne_nil h.uniform)
        have hlast : boundary.find.Last true n frame.content := by
          apply h.uniform.last
          rw [Archive.contents, hframes, List.map_append, List.map_singleton,
            List.getLast?_concat]
          rfl
        have hframe : frame ∈ now.frames.getLast? := by
          rw [hframes, List.getLast?_concat]
          rfl
        have hdescribes : ∀ result ∈ target.previous, result.Describes boundary.find now := by
          rw [hfitting]
          exact h.describes
        have hdescribesPlain : ∀ result ∈ plain.previous, result.Describes boundary.find now := by
          rw [hfittingPlain]
          rintro _ ⟨⟩
        rw [appendJoin_eq (Archive.fills_of_file hfills) hoverPlain hdescribesPlain hframe] at hjoin
        simp only [if_neg hsome,
          appendJoin_eq (Archive.fills_of_file hfills) hover hdescribes hframe,
          joinOf_of_plain hjoin]
        by_cases hexceeds : call.trust = true ∧ n < (boundary.find.records
            (frame.content ++ glueOf boundary.find boundary.separator? frame.content)).length
        · right
          have hrest : boundary.find.rest frame.content ≠ [] := by
            intro hnone
            have hmany := hexceeds.2
            rw [glueOf, hnone, List.isEmpty_nil, if_pos rfl, List.append_nil] at hmany
            exact Nat.not_lt.mpr hlast.2.1 hmany
          have hglue : glueOf boundary.find boundary.separator? frame.content =
              boundary.separator?.getD [] := by
            rw [glueOf, if_neg (by simpa using hrest)]
          rw [if_pos hexceeds]
          refine ⟨hexceeds.1, _, ⟨?_, rfl, ?_⟩, ?_⟩
          · rw [hold]
            exact hrest
          · rw [hold, ← hglue]
            exact hexceeds.2
          · rw [hold, ← hglue]
        · left
          rw [if_neg hexceeds]
          rw [hoverPlain.n] at hfirst
          simp only [hover.n, hfirst]
          have hsame := @appendRewrite_congr zeek boundary.find _ _ _ _
            (hover.table.trans hoverPlain.table.symm) (hover.last.trans hoverPlain.last.symm)
            (hover.n.trans hoverPlain.n.symm) join first call.level now.file
          simp only at hinner
          rw [hsame, hinner]
          exact ⟨_, rfl⟩

end Reached

/-! ### Counts that were only trusted -/

/-- The records per frame were checked against the frames of the file: the count that was stated,
or the one two frames of it agree on. -/
def CountValidated (zeek : Zeekstd) (f : File) (find : Finder UInt8) (records : Option Nat)
    (n : Nat) : Prop :=
  ∃ table last, zeek.fromSeekable f.bytes = .ok table ∧ lastDataFrame table = .ok last ∧
    if records.isSome then
      ∃ reader, validateRecordsPerFrame find (FrameReader.new zeek f table) last n = .ok reader
    else ∃ reader, validateSeparator find (FrameReader.new zeek f table) = .ok (n, reader)

section Validated

variable {f f' : File} {records : Option Nat} {trust : Bool} {previous : Option AppendResult}
  {target : AppendTarget} {result : AppendResult}

/-- A count is taken for validated where it is not trusted or the append before validated it, and
where it is neither it is validated now. -/
theorem appendTarget_countValidated
    (hok : appendTarget zeek f find records trust previous = .ok target) :
    (∀ result ∈ target.previous, result ∈ previous) ∧
      target.countValidated = (!trust || target.previous.any (·.countValidated)) ∧
      (trust = false → target.previous.any (·.countValidated) = false →
        CountValidated zeek f find records target.n) := by
  rw [appendTarget] at hok
  by_cases hstated : trust = true ∧ records = none
  · rw [if_pos hstated] at hok
    cases hok
  rw [if_neg hstated] at hok
  by_cases hzero : records = some 0
  · rw [if_pos hzero] at hok
    cases hok
  rw [if_neg hzero] at hok
  split at hok
  · cases hok
  · next table htable =>
      by_cases hnone : table.length = 0
      · rw [if_pos hnone] at hok
        cases hok
      rw [if_neg hnone] at hok
      split at hok
      · cases hok
      · next last hlast =>
          have hfit : ∀ result ∈ fittingResult table last records previous,
              result ∈ previous := fun result hin => (Option.filter_eq_some_iff.mp hin).1
          cases records with
          | some count =>
              simp only at hok
              by_cases hempty : table.frameSizeDecomp last = 0
              · rw [if_pos hempty] at hok
                cases hok
              rw [if_neg hempty] at hok
              split at hok
              · split at hok
                · cases hok
                · next reader hvalidate =>
                    cases hok
                    exact ⟨hfit, rfl, fun _ _ => ⟨table, last, htable, hlast, reader, hvalidate⟩⟩
              · next hskip =>
                  cases hok
                  refine ⟨hfit, rfl, fun htrust hany => absurd ?_ hskip⟩
                  rw [htrust]
                  simp only at hany
                  rw [hany]
                  rfl
          | none =>
              simp only at hok
              split at hok
              · next result hresult =>
                  cases hok
                  obtain ⟨hin, hvalidated⟩ := Option.filter_eq_some_iff.mp hresult
                  refine ⟨hfit, rfl, fun _ hany => absurd ?_ (Bool.eq_false_iff.mp hany)⟩
                  exact (Option.any_eq_true _ _).mpr ⟨result, hin, hvalidated⟩
              · split at hok
                · cases hok
                · next count reader hvalidate =>
                    cases hok
                    exact ⟨hfit, rfl, fun _ _ => ⟨table, last, htable, hlast, reader, hvalidate⟩⟩

/-- What an append returns of the count is what it settled before it read any data. -/
theorem appendRecordsInner_count {R : Type} [Read R] {data : R} {separator : Option Bytes}
    {onMissing : OnMissingSeparator} {level : Int}
    (hok : appendRecordsInner zeek f data find separator onMissing level records trust previous =
      (.ok result, f')) :
    ∃ target, appendTarget zeek f find records trust previous = .ok target ∧
      result.countValidated = target.countValidated ∧ result.recordsPerFrame = target.n := by
  rw [appendRecordsInner] at hok
  split at hok
  · cases hok
  · next target hchecks =>
      refine ⟨target, (appendChecks_ok hchecks).1, ?_⟩
      cases hok
      rw [AppendTarget.nothing]
      split <;> exact ⟨rfl, rfl⟩
  · next target join first hchecks =>
      refine ⟨target, (appendChecks_ok hchecks).1, ?_⟩
      rw [appendRewrite] at hok
      split at hok
      · cases hok
      · split at hok
        · cases hok
        · simp only at hok
          split at hok
          · cases hok
          · cases hok
            exact ⟨rfl, rfl⟩

end Validated

/-- An append that runs has a boundary. -/
theorem AppendCall.exists_gives {call : AppendCall} {f f' : File}
    {previous : Option AppendResult} {result : AppendResult}
    (hok : call.run zeek f previous = (.ok result, f')) : ∃ boundary, call.Gives boundary := by
  rw [AppendCall.run, appendRecordsWithOpts] at hok
  cases hfinder : call.finder with
  | some find =>
      refine ⟨.finder find, ?_⟩
      rw [AppendCall.Gives, AppendOptions.Gives, AppendCall.options, hfinder]
  | none =>
      rw [AppendCall.options, hfinder] at hok
      simp only at hok
      split_ifs at hok with hempty
      · cases hok
      · refine ⟨.separator call.separator hempty, ?_⟩
        rw [AppendCall.Gives, AppendOptions.Gives, AppendCall.options, hfinder]
        exact ⟨hempty, rfl⟩

/-- A chain that trusted every count has validated none, whatever the file. -/
theorem Chained.countValidated {allowed : File → AppendCall → Prop} {f₀ f : File}
    {previous : Option AppendResult} {checked : Bool}
    (h : Chained zeek allowed f₀ f previous checked) (hchecked : checked = false) :
    ∀ result ∈ previous, result.countValidated = false := by
  induction h with
  | start =>
      rintro _ ⟨⟩
  | @append f f' previous checked call result chain fits ran ih =>
      rintro _ ⟨⟩
      obtain ⟨hbefore, htrust⟩ := Bool.or_eq_false_iff.mp hchecked
      obtain ⟨boundary, hgives⟩ := AppendCall.exists_gives ran
      obtain ⟨target, htarget, hvalidated, -⟩ :=
        appendRecordsInner_count (AppendCall.run_ok hgives ran)
      obtain ⟨hfrom, hcount, -⟩ := appendTarget_countValidated htarget
      rw [hvalidated, hcount, htrust, Bool.false_or, Bool.eq_false_iff]
      intro hany
      obtain ⟨result', hin, hyes⟩ := (Option.any_eq_true _ _).mp hany
      rw [ih hbefore result' (hfrom result' hin)] at hyes
      cases hyes

/-- The first append of a chain that does not trust its count validates it, whatever the file. -/
theorem Chained.validates {allowed : File → AppendCall → Prop} {f₀ f f' : File}
    {previous : Option AppendResult} (h : Chained zeek allowed f₀ f previous false)
    {call : AppendCall} (hgives : call.Gives boundary) (htrust : call.trust = false)
    {result : AppendResult} (hok : call.run zeek f previous = (.ok result, f')) :
    CountValidated zeek f boundary.find call.records result.recordsPerFrame := by
  obtain ⟨target, htarget, -, hn⟩ := appendRecordsInner_count (AppendCall.run_ok hgives hok)
  obtain ⟨hfrom, -, hvalidates⟩ := appendTarget_countValidated htarget
  rw [hn]
  apply hvalidates htrust
  rw [Bool.eq_false_iff]
  intro hany
  obtain ⟨result', hin, hyes⟩ := (Option.any_eq_true _ _).mp hany
  rw [h.countValidated rfl result' (hfrom result' hin)] at hyes
  cases hyes

/-! ### The chain -/

/-- Appends to a uniform file, each passed what the one before returned. Each does what it would
do without, but that one that trusts its count may refuse a last frame which the separator it
inserts makes too full; what it returns is true of the file it leaves. And over any file, a count
that no append of the chain validated is validated by the next that does not trust it. -/
theorem append_chain_transparent {archive : Archive zeek} {f : File}
    {previous : Option AppendResult} {checked : Bool} {call : AppendCall}
    (hwhole : boundary.find.Whole) (huniform : archive.IsUniform boundary n)
    (hchain : Chained zeek (ChainCall zeek boundary n) archive.file f previous checked)
    (hfills : f.Fills zeek) (hcall : call.Fits boundary n) :
    (∀ result f', call.plain zeek f = (.ok result, f') →
      (∃ result', call.run zeek f previous = (.ok result', f')) ∨
        (call.trust = true ∧ ∃ now : Archive zeek, f = now.file ∧
          ∃ count, Reached.Overfull boundary n now count ∧
            call.run zeek f previous = (.error (.lastFrameExceeds count n), f))) ∧
    (∀ result f', call.run zeek f previous = (.ok result, f') →
      ∃ now : Archive zeek, f' = now.file ∧ result.Describes boundary.find now ∧
        result.recordsPerFrame = n) ∧
    (∀ {g₀ g g' : File} {previous' : Option AppendResult} {call' : AppendCall}
        {boundary' : Boundary} {result : AppendResult},
      Chained zeek (fun _ _ => True) g₀ g previous' false → call'.Gives boundary' →
      call'.trust = false → call'.run zeek g previous' = (.ok result, g') →
        CountValidated zeek g boundary'.find call'.records result.recordsPerFrame) := by
  obtain ⟨now, rfl, hreached⟩ := hchain.reached huniform hwhole
  refine ⟨fun result f' hplain => ?_, fun result f' hok => ?_, fun hany hgives htrust hok => ?_⟩
  · rcases hreached.of_plain hfills hcall hplain with hsame | ⟨htrust, count, hover, hrefused⟩
    · exact Or.inl hsame
    · exact Or.inr ⟨htrust, now, rfl, count, hover, hrefused⟩
  · obtain ⟨now', rfl, hnext⟩ := hreached.step hwhole hfills hcall hok
    exact ⟨now', rfl, hnext.describes result rfl, hnext.count result rfl⟩
  · exact hany.validates hgives htrust hok

theorem fills_of_wholeWish {f : File} (hreads : ∀ tick, f.reads tick = wholeWish)
    (hall : ∀ table ∈ (storedZeekstd.fromSeekable f.bytes).toOption, ∀ entry ∈ table,
      shortRead wholeWish entry.2 = entry.2) : f.Fills storedZeekstd := by
  intro table htable tick entry hentry
  rw [hreads]
  exact hall table (by rw [htable]; rfl) entry hentry

/-- `d` for the file that ends in a fragment, trusted to hold one record to a frame. -/
def trustedAppend : AppendCall where
  data := { data := [100, 10], schedule := fun _ => some 0 }
  separator := [10]
  onMissing := .insert
  level := 3
  records := some 1
  finder := none
  trust := true

/-- `e` and the start of a record, behind it, with the count left to be read. -/
def nextAppend : AppendCall :=
  { trustedAppend with
    data := { data := [101, 10, 102], schedule := fun _ => some 1 }, records := none
    trust := false }

/-- The file the trusted append leaves. -/
def trustedAppended : Except Error AppendResult × File :=
  trustedAppend.run storedZeekstd fragmentArchive.file none

/-- What it returns: a count that was not validated. -/
def trustedResult : AppendResult where
  recordsPerFrame := 1
  countValidated := false
  frameCount := 4
  lastFrame := 3
  lastComp := 11
  lastDecomp := 2
  lastRecords := some 1
  lastWhole := true
  checksum := true

theorem append_chain_transparent_fragmentArchive :
    ∃ result, nextAppend.run storedZeekstd trustedAppended.2 (some trustedResult) =
      (.ok result, (nextAppend.plain storedZeekstd trustedAppended.2).2) := by
  have hwhole : lineBoundary.find.Whole := separatorFinder_whole [10] (by decide)
  have huniform : fragmentArchive.IsUniform lineBoundary 1 := by
    rw [Archive.IsUniform]
    decide +kernel
  have hfirst : fragmentArchive.file.Fills storedZeekstd :=
    fills_of_wholeWish (fun _ => rfl) (by decide +kernel)
  have hfills : trustedAppended.2.Fills storedZeekstd :=
    fills_of_wholeWish (fun _ => rfl) (by decide +kernel)
  have htrusted : trustedAppend.Fits lineBoundary 1 :=
    ⟨⟨by decide, rfl⟩, Or.inr rfl, fun _ => rfl⟩
  have hnext : nextAppend.Fits lineBoundary 1 :=
    ⟨⟨by decide, rfl⟩, Or.inl rfl, fun h => by cases h⟩
  have hrun : trustedAppended.1 = .ok trustedResult := by rfl
  have hchain : Chained storedZeekstd (ChainCall storedZeekstd lineBoundary 1)
      fragmentArchive.file trustedAppended.2 (some trustedResult) false :=
    Chained.append Chained.start ⟨hfirst, htrusted⟩ (Prod.ext hrun rfl)
  have hplain : ∃ result, (nextAppend.plain storedZeekstd trustedAppended.2).1 = .ok result :=
    ⟨_, rfl⟩
  obtain ⟨result, hplain⟩ := hplain
  rcases (append_chain_transparent hwhole huniform hchain hfills hnext).1 result _
    (Prod.ext hplain rfl) with hsame | ⟨htrust, -⟩
  · exact hsame
  · cases htrust

end SeekZstdSep
