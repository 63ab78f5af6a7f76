/-
Module: SeekZstdSep.Proofs.Append
Purpose: `append_records_with_opts` on a uniform file: the file it leaves holds the old bytes, a
  separator where a fragment is ended, and the data, in frames of as many records as before.
Trusted boundary: the library, as `Zeekstd` has it
Main exports: appendedContents, appendRecordsInner_ok, appendRecordsInner_writes,
  append_records_correct
-/
import SeekZstdSep.Proofs.Target

namespace SeekZstdSep

open Lib

variable {zeek : Zeekstd} {find : Finder UInt8} {ragged : Bool} {n : Nat}
  {archive : Archive zeek} {records : Option Nat} {trust : Bool}
  {previous : Option AppendResult} {target : AppendTarget}

/-! ### The file an append leaves -/

/-- What the frames hold after an append: the last frame is grouped anew, with what ends its
fragment and the data. -/
def appendedContents (find : Finder UInt8) (n : Nat) (separator : Option Bytes)
    (contents : List Bytes) (data : Bytes) : List Bytes :=
  if data = [] then contents
  else
    let last := contents.getLastD []
    contents.dropLast ++ find.groups n (last ++ glueOf find separator last ++ data)

section Checks

variable {R : Type} [Read R] {f : File} {data : R} {separator : Option Bytes}
  {onMissing : OnMissingSeparator} {level : Int} {rest : Option (Join × FirstGroup zeek R)}

/-- What the checks establish, in the order they are made. -/
theorem appendChecks_ok
    (hok : appendChecks zeek f data find separator onMissing level records trust previous =
      .ok (target, rest)) :
    appendTarget zeek f find records trust previous = .ok target ∧
      ∃ head data', readHead data = .ok (head, data') ∧
        ((head = [] ∧ rest = none) ∨
          (head ≠ [] ∧ ∃ join first, rest = some (join, first) ∧
            appendJoin target f find separator onMissing trust head = .ok join ∧
            appendFirst zeek find target.n join level data' = .ok first)) := by
  rw [appendChecks] at hok
  cases htarget : appendTarget zeek f find records trust previous with
  | error e =>
      rw [htarget] at hok
      cases hok
  | ok target' =>
      rw [htarget] at hok
      cases hhead : readHead data with
      | error e =>
          rw [hhead] at hok
          cases hok
      | ok got =>
          obtain ⟨head, data'⟩ := got
          rw [hhead] at hok
          simp only at hok
          by_cases hnone : head.length = 0
          · rw [if_pos hnone] at hok
            cases hok
            exact ⟨rfl, head, data', rfl, Or.inl ⟨List.length_eq_zero_iff.mp hnone, rfl⟩⟩
          · rw [if_neg hnone] at hok
            cases hjoin : appendJoin target' f find separator onMissing trust head with
            | error e =>
                rw [hjoin] at hok
                cases hok
            | ok join =>
                simp only [hjoin] at hok
                cases hfirst : appendFirst zeek find target'.n join level data' with
                | error e =>
                    rw [hfirst] at hok
                    cases hok
                | ok first =>
                    rw [hfirst] at hok
                    cases hok
                    exact ⟨rfl, head, data', rfl, Or.inr ⟨mt List.length_eq_zero_iff.mpr hnone,
                      join, first, rfl, hjoin, hfirst⟩⟩

end Checks

/-- The groups an append writes, and what it keeps, come to the frames of the file grouped anew
from the last one on. -/
theorem appendedContents_eq (hn : 0 < n) {init : List Bytes} {last head data : Bytes}
    {separator : Option Bytes} {preserve : Bool} (hpreserve : preserve = true ↔ find.Full n last)
    (hne : head ++ data ≠ []) :
    appendedContents find n separator (init ++ [last]) (head ++ data) =
      (if preserve = true then init ++ [last] else init) ++
        find.groups n ((if preserve then [] else last ++ glueOf find separator last) ++ head ++
          data) := by
  rw [appendedContents, if_neg hne]
  simp only [List.getLastD_concat, List.dropLast_concat]
  cases hcase : preserve with
  | true =>
      have hfull := hpreserve.mp hcase
      have hglue : glueOf find separator last = [] := by
        rw [glueOf, if_pos (List.isEmpty_iff.mpr hfull.2)]
      rw [hglue, List.append_nil, Finder.groups_append_of_full hn _ hfull]
      simp
  | false => simp [List.append_assoc]

variable {data : Input} {separator : Option Bytes} {onMissing : OnMissingSeparator} {level : Int}
  {result : AppendResult} {f' : File}

/-- The state of the last group is that of the frame it is written as. -/
theorem lastStateOf_groups (hw : find.Whole) (hn : 0 < n) {d g : Bytes} (hne : d ≠ [])
    (hg : g ∈ (find.groups n d).getLast?) :
    lastStateOf find n d = ((find.records g).length, (find.rest g).isEmpty) := by
  induction d using Finder.groups_induction (f := find) hn with
  | few d h =>
      rw [Finder.groups_of_lt h hne] at hg
      cases hg
      exact lastStateOf_of_lt h hne
  | group d h ih =>
      rw [Finder.groups_of_le hn h] at hg
      rw [lastStateOf_of_le hn h]
      by_cases hnil : find.after d n = []
      · have hfull := Finder.full_take_offset hw h
        rw [hnil, Finder.groups_nil hn, List.getLast?_singleton, Option.mem_def,
          Option.some.injEq] at hg
        subst hg
        rw [hnil, lastStateOf, Finder.groupRest_of_lt (by simpa using hn), hfull.1, hfull.2]
        rfl
      · have hmore := Finder.groups_ne_nil (f := find) hn hnil
        rw [List.getLast?_cons_of_ne_nil hmore] at hg
        exact ih hnil hg

/-- What an append returns of the frames it wrote is true of them. -/
theorem appendedResult_describes {target : AppendTarget} {checksum : Bool}
    {archive' : Archive zeek} {state : Appended} (hout : state.out = tableOf archive'.frames)
    (hlast : ∀ frame ∈ archive'.frames.getLast?, headerChecksum frame.bytes = checksum ∧
      (state.lastRecords, state.lastWhole) =
        ((find.records frame.content).length, (find.rest frame.content).isEmpty)) :
    (appendedResult target checksum state).Describes find archive' where
  frameCount := by rw [appendedResult, hout, length_tableOf]
  lastFrame := by rw [appendedResult, hout, length_tableOf]
  sizes frame hframe := by
    obtain ⟨hi, hget⟩ := List.getElem?_eq_some_iff.mp
      (List.getLast?_eq_getElem? (l := archive'.frames) ▸ hframe)
    rw [appendedResult, hout, length_tableOf, frameSizeComp_tableOf _ hi,
      frameSizeDecomp_tableOf _ hi, hget]
    exact ⟨rfl, rfl⟩
  state frame hframe count hcount := by
    obtain ⟨hchecksum, hstate⟩ := hlast frame hframe
    cases hcount
    exact ⟨congrArg Prod.fst hstate, congrArg Prod.snd hstate, hchecksum.symm⟩

/-- What an append that succeeds behind the cut leaves: the frames it keeps and the groups. -/
theorem appendRewrite_ok (hn : 0 < n) (h : target.Over archive n)
    {init : List (Stored zeek.toFrameFormat)} {frame : Stored zeek.toFrameFormat}
    (hframes : archive.frames = init ++ [frame]) {join : Join} {d : Bytes} (hd : d ≠ [])
    {ending : Except Error Unit} {R : Type} [Read R] [LawfulRead R] {first : FirstGroup zeek R}
    (hfirst : FirstOf zeek find target.n join.checksum level d ending first)
    (hok : appendRewrite find target join first level archive.file = (.ok result, f')) :
    ending = .ok () ∧ ∃ archive' : Archive zeek, f' = archive'.file ∧
      archive'.reads = archive.reads ∧
      archive'.contents =
        (if join.preserveLast = true then init ++ [frame] else init).map Stored.content ++
          find.groups n d ∧
      (find.Whole → result.Describes find archive') ∧ result.recordsPerFrame = n ∧
      result.countValidated = target.countValidated ∧ result.lastRecords ≠ none ∧
      ∀ g ∈ find.groups n d, g.length ≤ zeek.frameLimit := by
  have hlength : archive.frames.length = init.length + 1 := by
    rw [hframes, List.length_append, List.length_singleton]
  have hkept : keptFrames target join = init.length + if join.preserveLast then 1 else 0 := by
    rw [keptFrames, h.last, hlength, Nat.add_sub_cancel]
  have hkeptLe : keptFrames target join ≤ archive.frames.length := by
    rw [hkept, hlength]
    split <;> omega
  have htake : archive.frames.take (keptFrames target join) =
      if join.preserveLast = true then init ++ [frame] else init := by
    rw [hkept, hframes]
    split
    · exact List.take_of_length_le (by simp)
    · exact List.take_left' rfl
  have hcut : cutOf target join =
      (bodyOf (archive.frames.take (keptFrames target join))).length := by
    rw [cutOf, keptFrames, h.table]
    split
    · exact frameEndComp_tableOf _ _
    · exact frameStartComp_tableOf _ _
  have hspec := appendRewrite_spec (h.n ▸ hn) hfirst hd
    (by rw [h.table, length_tableOf]; exact hkeptLe)
    (by rw [h.table, length_tableOf]; exact archive.count_le) archive.file
  by_cases hwrites : ∃ frames, Writes zeek join.checksum level (keptFrames target join)
      (find.groups target.n d) ending frames
  · obtain ⟨frames, hwritten⟩ := hwrites
    obtain ⟨hending, hone, hroom⟩ := hwritten
    rw [hspec.1 frames ⟨hending, hone, hroom⟩] at hok
    cases hok
    rw [h.n] at hone hroom
    have hcount : (archive.frames.take (keptFrames target join) ++ frames).length ≤
        zeek.maxFrames := by
      rw [List.length_append, List.length_take, Nat.min_eq_left hkeptLe, hone.length_eq]
      exact hroom
    have hout : (writtenState find target join d frames).out =
        tableOf (archive.withFrames _ hcount).frames := by
      rw [writtenState, h.table, tableOf_take]
      exact (tableOf_append _ _).symm
    refine ⟨hending, archive.withFrames _ hcount, ?_, rfl, ?_, ?_, h.n, rfl,
      by simp [appendedResult], hone.length_le⟩
    · rw [← Archive.cut_write, ← hcut, hout]
      rw [Archive.withFrames, tableOf_append]
    · rw [Archive.contents_withFrames, List.map_append, hone.contents, htake]
    · intro hw
      apply appendedResult_describes hout
      intro last hlast
      have hgroups := Finder.groups_ne_nil (f := find) hn hd
      have hne : frames ≠ [] := by
        rintro rfl
        rw [← hone.contents] at hgroups
        exact hgroups rfl
      have hin : last ∈ frames.getLast? := by
        rw [Archive.withFrames, List.getLast?_append_of_ne_nil _ hne] at hlast
        exact hlast
      refine ⟨hone.checksums last (List.mem_of_getLast? hin), ?_⟩
      have hgroup : last.content ∈ (find.groups n d).getLast? := by
        rw [← hone.contents, List.getLast?_map, Option.mem_def, hin]
        rfl
      rw [← lastStateOf_groups hw hn hd hgroup, writtenState, h.n]
  · obtain ⟨e, more, hfail⟩ := hspec.2 hwrites
    rw [hfail] at hok
    cases hok

/-- An append that succeeds leaves the frames it is to leave, and says of the last one what is
true of it. -/
theorem appendRecordsInner_ok (hn : 0 < n) (hlast : archive.lastContent ≠ [])
    (hcount : records = none → ∃ ragged, Uniform find ragged n archive.contents)
    (hfills : archive.Fills) (hrecords : ∀ count ∈ records, count = n)
    (hprevious : ∀ result ∈ previous, result.countValidated = true → result.recordsPerFrame = n)
    (hdesc : ∀ result ∈ previous, result.Describes find archive)
    (hok : appendRecordsInner zeek archive.file data find separator onMissing level
      records trust previous = (.ok result, f')) :
    ∃ target, appendTarget zeek archive.file find records trust previous = .ok target ∧
      ((data.data = [] ∧ f' = archive.file ∧ result = target.nothing) ∨
        (data.data ≠ [] ∧ ∃ archive' : Archive zeek, f' = archive'.file ∧
          archive'.reads = archive.reads ∧
          archive'.contents =
            appendedContents find n separator archive.contents data.data ∧
          (find.rest archive.lastContent ≠ [] → onMissing = .insert ∧
            find.rest (archive.lastContent ++
              glueOf find separator archive.lastContent) = []) ∧
          (find.Whole → result.Describes find archive') ∧ result.recordsPerFrame = n ∧
          result.countValidated = target.countValidated ∧ result.lastRecords ≠ none ∧
          (archive.lastContent.length ≤ zeek.frameLimit →
            ∀ g ∈ find.groups n (archive.lastContent ++
              glueOf find separator archive.lastContent ++ data.data),
              g.length ≤ zeek.frameLimit))) := by
  rw [appendRecordsInner] at hok
  cases hchecks : appendChecks zeek archive.file data find separator onMissing level
      records trust previous with
  | error e =>
      rw [hchecks] at hok
      cases hok
  | ok got =>
      obtain ⟨target, rest⟩ := got
      rw [hchecks] at hok
      obtain ⟨htarget, head, data', hhead, hcase⟩ := appendChecks_ok hchecks
      obtain ⟨hsplit, -, hempty⟩ := readHead_ok hhead
      refine ⟨target, htarget, ?_⟩
      rcases hcase with ⟨hnil, rfl⟩ | ⟨hne, join, first, rfl, hjoin, hfirst⟩
      · cases hok
        exact Or.inl ⟨hempty hnil, rfl, rfl⟩
      · right
        have hdata : data.data ≠ [] := by
          rw [← hsplit]
          exact List.append_ne_nil_of_left_ne_nil hne _
        refine ⟨hdata, ?_⟩
        obtain ⟨hover, hfitting, -⟩ :=
          appendTarget_ok hlast hcount hrecords hprevious htarget
        obtain ⟨init, frame, hframes, hold⟩ := Archive.exists_concat hlast
        have hframe : frame ∈ archive.frames.getLast? := by
          rw [hframes, List.getLast?_concat]
          rfl
        have hdescTarget : ∀ result ∈ target.previous,
            result.Describes find archive := by
          intro result hresult
          rw [hfitting] at hresult
          exact hdesc result (Option.filter_eq_some_iff.mp hresult).1
        rw [appendJoin_eq hfills hover hdescTarget hframe] at hjoin
        obtain ⟨-, hpreserve, htail, hglue⟩ := joinOf_ok hjoin
        have hd : join.tail ++ (ioCopy data').2 ≠ [] := by
          rw [htail]
          simp [hne]
        obtain ⟨hending, archive', hfile, hreads, hcontents, hdescribes, hsame, hcounted, hsome,
          hfits⟩ := appendRewrite_ok hn hover hframes hd
            (appendFirst_ok (by rw [hover.n]; exact hn) hfirst) hok
        have hall := (ioCopy_spec data').2.1 hending
        refine ⟨archive', hfile, hreads, ?_, ?_, hdescribes, hsame, hcounted, hsome, ?_⟩
        · have hold' : archive.contents = init.map Stored.content ++ [frame.content] := by
            rw [Archive.contents, hframes, List.map_append]
            rfl
          have heq : appendedContents find n separator
              (init.map Stored.content ++ [frame.content]) (head ++ data'.data) = _ :=
            appendedContents_eq hn hpreserve (by rw [hsplit]; exact hdata)
          rw [hcontents, hall, htail, hold', ← hsplit, heq]
          cases join.preserveLast <;> simp
        · rw [hold]
          exact hglue
        · intro hle g hg
          rw [hall, htail] at hfits
          rw [hold] at hle hg
          cases hcase : join.preserveLast with
          | false =>
              rw [hcase, if_neg Bool.false_ne_true, List.append_assoc _ head, hsplit] at hfits
              exact hfits g hg
          | true =>
              -- a last frame that is full stays as it is, in front of the groups that are written
              have hfull := hpreserve.mp hcase
              rw [glueOf, if_pos (List.isEmpty_iff.mpr hfull.2), List.append_nil,
                Finder.groups_append_of_full hn _ hfull] at hg
              rw [hcase, if_pos rfl, List.nil_append, hsplit] at hfits
              rcases List.mem_cons.mp hg with rfl | hg
              · exact hle
              · exact hfits g hg

/-! ### An append that follows no other -/

section Fresh

variable {f : File} {target : AppendTarget}

/-- Such an append reads the last frame, leaves it as it is where what it read is full, and takes it
back to write it again where not. -/
theorem appendJoin_fresh {head : Bytes} {join : Join} (hprevious : target.previous = none)
    (hok : appendJoin target f find separator onMissing trust head = .ok join) :
    ∃ old reader', target.reader.readFrame target.last = .ok (old, reader') ∧
      (join.preserveLast = true ↔ find.Full target.n old) ∧
      join.tail = (if join.preserveLast then [] else old ++ glueOf find separator old) ++ head := by
  have hknown : target.known = none := by
    rw [AppendTarget.known, hprevious]
    rfl
  have hread : target.tail = (target.reader.readFrame target.last).map Prod.fst := by
    rw [AppendTarget.tail, AppendTarget.previouslyFull, hknown]
    simp only [Option.any_none, Bool.false_eq_true, if_false]
    cases target.reader.readFrame target.last <;> rfl
  rw [appendJoin, hread] at hok
  split at hok
  · cases hok
  split at hok
  · cases hok
  cases hframe : target.reader.readFrame target.last with
  | error e =>
      rw [hframe] at hok
      cases hok
  | ok got =>
      obtain ⟨old, reader'⟩ := got
      simp only [hframe, Except.map, AppendTarget.Over.oldState_none hknown] at hok
      split at hok
      · cases hok
      · next tail inserted hended =>
          obtain rfl := endFragment_tail hended
          refine ⟨old, reader', rfl, ?_⟩
          generalize (if inserted = true then _ else _) = count at hok
          split at hok
          · cases hok
          · cases hok
            exact ⟨by simp [Finder.Full, and_comm], rfl⟩

/-- What it writes behind the frames it keeps is the groups of what it read of the last frame, what
ends a fragment of that, and the data. -/
theorem appendRecordsInner_writes (hdata : data.data ≠ [])
    (hok : appendRecordsInner zeek f data find separator onMissing level records trust none =
      (.ok result, f')) :
    ∃ target old reader', ∃ frames : List (Stored zeek.toFrameFormat),
      appendTarget zeek f find records trust none = .ok target ∧
      target.reader.readFrame target.last = .ok (old, reader') ∧
      frames.map Stored.content = find.groups target.n
        ((if find.Full target.n old then [] else old ++ glueOf find separator old) ++ data.data) ∧
      (target.table.take (if find.Full target.n old then target.last + 1 else target.last) ++
        tableOf frames).length ≤ zeek.maxFrames ∧
      f' = ((f.setLen (if find.Full target.n old then target.table.frameEndComp target.last
          else target.table.frameStartComp target.last)).writeAll (bodyOf frames)).writeAll
        (zeek.serialize (target.table.take (if find.Full target.n old then target.last + 1
          else target.last) ++ tableOf frames)) := by
  rw [appendRecordsInner] at hok
  cases hchecks : appendChecks zeek f data find separator onMissing level records trust none with
  | error e =>
      rw [hchecks] at hok
      cases hok
  | ok plan =>
      obtain ⟨target, rest⟩ := plan
      rw [hchecks] at hok
      obtain ⟨htarget, head, data', hhead, hcase⟩ := appendChecks_ok hchecks
      obtain ⟨hsplit, -, hempty⟩ := readHead_ok hhead
      obtain ⟨hne, join, first, rfl, hjoin, hfirst⟩ :=
        hcase.resolve_left fun hnone => hdata (hempty hnone.1)
      obtain ⟨hseek, hlast⟩ := appendTarget_table htarget
      obtain ⟨hprevious, hn⟩ := appendTarget_fresh htarget
      obtain ⟨old, reader', hread, hpreserve, htail⟩ := appendJoin_fresh hprevious hjoin
      have hd : join.tail ++ (ioCopy data').2 ≠ [] :=
        List.append_ne_nil_of_left_ne_nil (appendJoin_tail_ne_nil hne hjoin) _
      have hkept : keptFrames target join ≤ target.table.length := by
        rw [keptFrames]
        split <;> omega
      have hspec := appendRewrite_spec hn (appendFirst_ok hn hfirst) hd hkept
        (zeek.fromSeekable_length hseek) f
      simp only at hok
      by_cases hwrites : ∃ frames, Writes zeek join.checksum level (keptFrames target join)
          (find.groups target.n (join.tail ++ (ioCopy data').2)) (ioCopy data').1 frames
      · obtain ⟨frames, hending, hone, hroom⟩ := hwrites
        rw [hspec.1 frames ⟨hending, hone, hroom⟩] at hok
        cases hok
        have hall := (ioCopy_spec data').2.1 hending
        have hcontents : frames.map Stored.content =
            find.groups target.n (join.tail ++ data'.data) := by
          rw [hone.contents, hall]
        rw [htail, List.append_assoc, hsplit] at hcontents
        refine ⟨target, old, reader', frames, htarget, hread, ?_, ?_, ?_⟩
        · simpa only [hpreserve] using hcontents
        · rw [← hone.length_eq] at hroom
          simp only [keptFrames, hpreserve] at hroom
          rw [List.length_append, length_tableOf, List.length_take]
          split_ifs at hroom ⊢ <;> omega
        · simp only [cutOf, writtenState, keptFrames, hpreserve]
          by_cases hfull : find.Full target.n old
          · simp only [if_pos hfull]
          · simp only [if_neg hfull, Nat.add_zero]
      · obtain ⟨e, more, hfail⟩ := hspec.2 hwrites
        rw [hfail] at hok
        cases hok

end Fresh

/-! ### The whole operation -/

variable {boundary : Boundary}

/-- The separator of a boundary, where it has one. -/
def Boundary.separator? : Boundary → Option Bytes
  | .separator bytes _ => some bytes
  | .finder _ => none

/-- The separator and the options of an append say where records end. -/
def AppendOptions.Gives (options : AppendOptions) (separator : Bytes) (boundary : Boundary) :
    Prop :=
  match options.finder with
  | none => ∃ h, boundary = .separator separator h
  | some find => boundary = .finder find

/-- What a fragment and the data behind it are grouped to ends where the data does. -/
theorem appendedContents_uniform (hw : find.Whole) {contents : List Bytes}
    (huniform : Uniform find ragged n contents) (separator : Option Bytes) {data : Bytes}
    (hdata : ragged = true ∨ find.rest data = []) :
    Uniform find ragged n (appendedContents find n separator contents data) := by
  rw [appendedContents]
  split_ifs with hnone
  · exact huniform
  · obtain ⟨init, last, rfl, hinit, hlast⟩ := huniform.exists_concat
    simp only [List.getLastD_concat, List.dropLast_concat]
    apply Uniform.append_full _ hinit
    apply Finder.uniform_groups hw huniform.pos
    · simp [hnone]
    · rcases hdata with htail | hdata
      · exact Or.inl htail
      · refine hlast.2.2.imp_right fun hrest => ?_
        rw [glueOf, if_pos (List.isEmpty_iff.mpr hrest), List.append_nil,
          find.rest_append_of_rest hrest, hdata]

theorem appendedContents_flatten (hn : 0 < n) {contents : List Bytes} (hne : contents ≠ [])
    (separator : Option Bytes) (data : Bytes) :
    (appendedContents find n separator contents data).flatten = contents.flatten ++
      if data = [] then [] else glueOf find separator (contents.getLastD []) ++ data := by
  rw [appendedContents]
  split_ifs with hnone
  · rw [List.append_nil]
  · have hsplit := List.dropLast_append_getLast hne
    have hlast : contents.getLastD [] = contents.getLast hne := by
      rw [List.getLastD_eq_getLast?, List.getLast?_eq_getLast_of_ne_nil hne]
      rfl
    calc _ = contents.dropLast.flatten ++ (contents.getLastD [] ++
          glueOf find separator (contents.getLastD []) ++ data) := by
          rw [List.flatten_append, Finder.flatten_groups hn]
      _ = (contents.dropLast ++ [contents.getLastD []]).flatten ++
          (glueOf find separator (contents.getLastD []) ++ data) := by
          simp [List.append_assoc]
      _ = _ := by rw [hlast, hsplit]

theorem separatorFinder_length_le {separator : Bytes} {ne : separator ≠ []} {d : Bytes} {k : Nat}
    (h : separatorFinder separator ne d = some k) : separator.length ≤ k := by
  obtain ⟨p, -, rfl⟩ := Option.map_eq_some_iff.mp h
  exact Nat.le_add_left _ _

/-- A separator behind a fragment that leaves nothing unfinished makes one record of it. -/
theorem records_append_separator {separator : Bytes} {ne : separator ≠ []} {d : Bytes}
    (hfragment : (separatorFinder separator ne).rest d ≠ [])
    (hrest : (separatorFinder separator ne).rest (d ++ separator) = []) :
    (separatorFinder separator ne).records (d ++ separator) =
      (separatorFinder separator ne).records d ++
        [(separatorFinder separator ne).rest d ++ separator] := by
  generalize hr : (separatorFinder separator ne).rest d = r at hfragment ⊢
  have hnone : separatorFinder separator ne r = none := by
    rw [← hr]
    exact Finder.find_rest _ d
  rw [Finder.rest_append, hr] at hrest
  rw [Finder.records_append, hr]
  congr 1
  cases hfind : separatorFinder separator ne (r ++ separator) with
  | none =>
      rw [Finder.rest_of_none _ hfind] at hrest
      exact absurd hrest (List.append_ne_nil_of_left_ne_nil hfragment _)
  | some k =>
      have hle := (separatorFinder separator ne).le hfind
      rw [List.length_append] at hle
      -- the record found runs past the fragment, so less than a separator is left behind it
      have hpast : r.length < k := by
        by_contra hin
        have hwhole := separatorFinder_whole separator ne _ k hfind
        rw [List.take_append_of_le_length (by omega)] at hwhole
        have hstable := (separatorFinder separator ne).stable (r.drop k) hwhole
        rw [List.take_append_drop] at hstable
        rw [hstable] at hnone
        cases hnone
      have hend : separatorFinder separator ne ((r ++ separator).drop k) = none := by
        cases hmore : separatorFinder separator ne ((r ++ separator).drop k) with
        | none => rfl
        | some k' =>
            have hlong := separatorFinder_length_le hmore
            have hshort := (separatorFinder separator ne).le hmore
            rw [List.length_drop, List.length_append] at hshort
            omega
      rw [Finder.rest_of_some _ hfind, Finder.rest_of_none _ hend] at hrest
      rw [Finder.records_of_some _ hfind, Finder.records_of_none _ hend]
      have hall := List.take_append_drop k (r ++ separator)
      rw [hrest, List.append_nil] at hall
      rw [hall]

/-- Both entry points make the same append, but that a finder has no separator to insert. -/
theorem appendRecordsWithOpts_eq {f : File} {separator : Bytes} {options : AppendOptions}
    (hgives : options.Gives separator boundary) :
    appendRecordsWithOpts zeek f data separator onMissing level records options =
      if options.finder.isSome ∧ onMissing = .insert then (.error .insertWithoutSeparator, f)
      else
        appendRecordsInner zeek f data boundary.find boundary.separator? onMissing level records
          options.trustRecordsPerFrame options.previous := by
  rw [appendRecordsWithOpts]
  rw [AppendOptions.Gives] at hgives
  cases hfinder : options.finder with
  | none =>
      rw [hfinder] at hgives
      obtain ⟨hne, rfl⟩ := hgives
      rw [if_neg (by simp)]
      exact dif_neg hne
  | some find =>
      rw [hfinder] at hgives
      simp only at hgives
      subst hgives
      simp only [Option.isSome_some, true_and]
      rfl

theorem appendRecordsWithOpts_ok {f : File} {separator : Bytes} {options : AppendOptions}
    (hgives : options.Gives separator boundary)
    (hok : appendRecordsWithOpts zeek f data separator onMissing level records options =
      (.ok result, f')) :
    appendRecordsInner zeek f data boundary.find boundary.separator? onMissing level records
      options.trustRecordsPerFrame options.previous = (.ok result, f') := by
  rw [appendRecordsWithOpts_eq hgives] at hok
  split_ifs at hok
  · cases hok
  · exact hok

/-- Only a file of records that a separator ends can end in a fragment. -/
theorem AppendOptions.Gives.of_fragment {separator : Bytes} {options : AppendOptions}
    (hgives : options.Gives separator boundary) (huniform : archive.IsUniform boundary n)
    (hfragment : boundary.find.rest archive.data ≠ []) :
    ∃ h, boundary = .separator separator h := by
  rw [AppendOptions.Gives] at hgives
  cases hfinder : options.finder with
  | none =>
      rw [hfinder] at hgives
      exact hgives
  | some find =>
      rw [hfinder] at hgives
      simp only at hgives
      subst hgives
      exact absurd (Uniform.rest_flatten huniform rfl) hfragment

/-- An append ends a fragment of the file with the separator. -/
def Inserts (archive : Archive zeek) (boundary : Boundary) (onMissing : OnMissingSeparator)
    (data : Bytes) : Prop :=
  boundary.find.rest archive.data ≠ [] ∧ data ≠ [] ∧ onMissing = .insert

instance (archive : Archive zeek) (boundary : Boundary) (onMissing : OnMissingSeparator)
    (data : Bytes) : Decidable (Inserts archive boundary onMissing data) :=
  inferInstanceAs (Decidable (_ ∧ _ ∧ _))

/-- Appending records to a uniform file, whatever the reads the data comes in. Where it succeeds
the file holds the old bytes, a separator where a fragment had to be ended, and the data; it has
as many records to a frame as before, and what is returned of its last frame is true. -/
theorem append_records_correct {separator : Bytes} {options : AppendOptions}
    (hwhole : boundary.find.Whole) (huniform : archive.IsUniform boundary n)
    (hfills : archive.Fills) (hgives : options.Gives separator boundary)
    (hprevious : options.previous = none) (hrecords : records = none ∨ records = some n)
    (hdata : boundary.tailIsRecord = true ∨ boundary.find.rest data.data = [])
    (hok : appendRecordsWithOpts zeek archive.file data separator onMissing level records options =
      (.ok result, f')) :
    ∃ archive' : Archive zeek, f' = archive'.file ∧ archive'.IsUniform boundary n ∧
      [] ∉ archive'.contents ∧
      archive'.data = archive.data ++
        (if Inserts archive boundary onMissing data.data then separator else []) ++ data.data ∧
      (Inserts archive boundary onMissing data.data →
        boundary.find.records (archive.data ++ separator) =
          boundary.find.records archive.data ++ [boundary.find.rest archive.data ++ separator]) ∧
      (∀ last ∈ archive'.contents.getLast?, ∀ count ∈ result.lastRecords,
        count = (boundary.find.records last).length ∧
          result.lastWhole = (boundary.find.rest last).isEmpty) := by
  have hinner := appendRecordsWithOpts_ok hgives hok
  rw [hprevious] at hinner
  have hcount : ∀ count ∈ records, count = n := by
    rintro count hin
    rcases hrecords with rfl | rfl
    · cases hin
    · cases hin
      rfl
  have hrest : boundary.find.rest archive.data = boundary.find.rest archive.lastContent := by
    rw [archive.lastContent_eq (Uniform.ne_nil huniform)]
    exact (Uniform.flatten_eq huniform).2
  obtain ⟨target, htarget, hcase⟩ := appendRecordsInner_ok huniform.pos
    (Archive.lastContent_ne_nil huniform) (fun _ => ⟨_, huniform⟩) hfills hcount
    (fun _ hin => by cases hin) (fun _ hin => by cases hin) hinner
  rcases hcase with ⟨hnone, rfl, rfl⟩ | ⟨hsome, archive', rfl, -, hcontents, hglue, hdescribes, -⟩
  · have hnot : ¬ Inserts archive boundary onMissing data.data := fun hin => hin.2.1 hnone
    refine ⟨archive, rfl, huniform, fun hin => Uniform.ne_nil_of_mem huniform hin rfl, ?_,
      fun hin => absurd hin hnot, ?_⟩
    · rw [if_neg hnot, hnone, List.append_nil, List.append_nil]
    · obtain ⟨-, hfitting, -⟩ := appendTarget_ok (Archive.lastContent_ne_nil huniform)
        (fun _ => ⟨_, huniform⟩) hcount (fun _ hin => by cases hin) htarget
      intro last _ count hin
      rw [AppendTarget.nothing, hfitting] at hin
      cases hin
  · have huniform' : archive'.IsUniform boundary n := by
      rw [Archive.IsUniform, hcontents]
      exact appendedContents_uniform hwhole huniform _ hdata
    refine ⟨archive', rfl, huniform', fun hin => Uniform.ne_nil_of_mem huniform' hin rfl, ?_, ?_,
      ?_⟩
    · rw [Archive.data, hcontents, appendedContents_flatten huniform.pos huniform.ne_nil,
        if_neg hsome, List.append_assoc]
      congr 2
      by_cases hlast : boundary.find.rest archive.lastContent = []
      · have hnot : ¬ Inserts archive boundary onMissing data.data := fun hin =>
          hin.1 (hrest.trans hlast)
        rw [if_neg hnot, ← Archive.lastContent, glueOf, if_pos (List.isEmpty_iff.mpr hlast)]
      · obtain ⟨hne, rfl⟩ := hgives.of_fragment huniform (hrest ▸ hlast)
        rw [if_pos ⟨hrest ▸ hlast, hsome, (hglue hlast).1⟩, ← Archive.lastContent, glueOf,
          if_neg (by simpa using hlast)]
        rfl
    · rintro ⟨hfragment, -, -⟩
      obtain ⟨hne, rfl⟩ := hgives.of_fragment huniform hfragment
      have hlast : (Boundary.separator separator hne).find.rest archive.lastContent ≠ [] := by
        rwa [← hrest]
      have hended := (hglue hlast).2
      rw [glueOf, if_neg (by simpa using hlast), Finder.rest_append] at hended
      have hone : (separatorFinder separator hne).records (archive.data ++ separator) = _ :=
        records_append_separator hfragment (by
          rw [Finder.rest_append]
          exact hrest ▸ hended)
      exact hone
    · intro last hlast count hin
      rw [Archive.contents, List.getLast?_map] at hlast
      obtain ⟨frame, hframe, rfl⟩ := Option.map_eq_some_iff.mp hlast
      obtain ⟨hrecords, hended, -⟩ := (hdescribes hwhole).state frame hframe count hin
      exact ⟨hrecords, hended⟩

/-- A file that ends in a fragment: `a`, `b` and the start of a record, one record to a frame. -/
def fragmentArchive : Archive storedZeekstd := storedArchive [[97, 10], [98, 10], [99]]

/-- `d` and `e`, read a byte at a time. -/
def byteByByte : Input := { data := [100, 10, 101, 10], schedule := fun _ => some 0 }

/-- The two appended to the file, with what ends its fragment. -/
def fragmentAppended : Except Error AppendResult × File :=
  appendRecordsWithOpts storedZeekstd fragmentArchive.file byteByByte [10] .insert 3 (some 1) {}

theorem append_records_correct_fragmentArchive :
    ∃ archive' : Archive storedZeekstd, fragmentAppended.2 = archive'.file ∧
      archive'.IsUniform lineBoundary 1 ∧
      archive'.data = [97, 10, 98, 10, 99, 10, 100, 10, 101, 10] := by
  have hwhole : lineBoundary.find.Whole := separatorFinder_whole [10] (by decide)
  have huniform : fragmentArchive.IsUniform lineBoundary 1 := by
    rw [Archive.IsUniform]
    decide +kernel
  have hfills : fragmentArchive.Fills := by
    intro tick
    change ∀ content ∈ fragmentArchive.contents,
      shortRead wholeWish content.length = content.length
    decide +kernel
  have hgives : AppendOptions.Gives {} [10] lineBoundary := ⟨by decide, rfl⟩
  have hrun : fragmentAppended.1 = .ok {
      recordsPerFrame := 1, countValidated := true, frameCount := 5, lastFrame := 4
      lastComp := 11, lastDecomp := 2, lastRecords := some 1, lastWhole := true
      checksum := true } := by rfl
  obtain ⟨archive', hfile, huniform', -, hdata, -⟩ :=
    append_records_correct hwhole huniform hfills hgives rfl (Or.inr rfl) (Or.inl rfl)
      (Prod.ext hrun rfl)
  exact ⟨archive', hfile, huniform', hdata⟩

end SeekZstdSep
