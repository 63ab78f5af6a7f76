/-
Module: SeekZstdSep.Proofs.Cli
Purpose: What a copy of a range leaves of the files: nothing but its output is touched, that neither
  where the copy is refused, and it holds the frames of the range unless it is the input itself.
Trusted boundary: the library, as `Zeekstd` has it, and the file system, as `Core.Cli` has it
Main exports: LazyFile.At, LazyFile.writeAll_spec, copyFuel_apart, copyFuel_onto_itself,
  copyRangeOnto_sameBut, copyRangeOnto_ok, copy_range_output_iff
-/
import SeekZstdSep.Core.Cli
import SeekZstdSep.Proofs.CopyRange
import SeekZstdSep.Proofs.Deliver

namespace SeekZstdSep

open Lib

variable {zeek : Zeekstd} {steps : CliSteps} {files files' : Files} {path : String}
  {result : Except Error Unit}

/-! ### The output -/

/-- The output is not created yet, or it is the file of its path and holds what was written. -/
def LazyFile.At (out : LazyFile) (files : Files) : Prop :=
  match out.file with
  | none => out.written = []
  | some handle => files.entry out.path = some handle ∧ files.content handle = out.written

theorem LazyFile.at_start (path : String) (files : Files) :
    ({ path := path } : LazyFile).At files := rfl

/-- An output that something was written to is there. -/
theorem LazyFile.At.read {out : LazyFile} (hat : out.At files) (hne : out.written ≠ []) :
    files.read out.path = some out.written := by
  cases hfile : out.file with
  | none =>
      rw [LazyFile.At, hfile] at hat
      exact absurd hat hne
  | some handle =>
      rw [LazyFile.At, hfile] at hat
      rw [Directory.read_of_entry hat.1, hat.2]

/-- A write touches no file but the output, and all that was written is there behind it. -/
theorem LazyFile.writeAll_spec {out out' : LazyFile} (hwell : files.WellFormed)
    (hat : out.At files) {data : Bytes}
    (h : out.writeAll steps.toFileSteps data files = (result, out', files')) :
    out'.path = out.path ∧ out'.At files' ∧ files.SameBut out.path files' ∧
      (result = .ok () → out'.written = out.written ++ data) := by
  rw [writeAll] at h
  by_cases hempty : data = []
  · rw [if_pos hempty] at h
    cases h
    refine ⟨rfl, hat, .refl hwell _, fun _ => ?_⟩
    rw [hempty, List.append_nil]
  rw [if_neg hempty] at h
  simp only at h
  have hopened : ∀ {handle : Nat} {files₁ : Files}, files.SameBut out.path files₁ →
      files₁.entry out.path = some handle →
      (let all := out.written ++ data
        let taken := (steps.takes.map all.take).getD all
        ((if taken = all then .ok () else .error (.external "failed to write the output") :
            Except Error Unit),
          { out with file := some handle, written := taken }, files₁.write handle taken)) =
        (result, out', files') →
      out'.path = out.path ∧ out'.At files' ∧ files.SameBut out.path files' ∧
        (result = .ok () → out'.written = out.written ++ data) := by
    intro handle files₁ hsame hentry heq
    obtain ⟨rfl, hwritten⟩ := Prod.mk.inj heq
    obtain ⟨rfl, rfl⟩ := Prod.mk.inj hwritten
    refine ⟨rfl, ⟨hentry, Directory.write_content_self _ _⟩,
      hsame.trans (.write_of_entry hsame.wellFormed hentry _), fun hok => ?_⟩
    split_ifs at hok with htaken
    exact htaken
  cases hfile : out.file with
  | some handle =>
      rw [LazyFile.At, hfile] at hat
      rw [hfile] at h
      exact hopened (.refl hwell _) hat.1 h
  | none =>
      rw [hfile] at h
      simp only at h
      by_cases hcreates : steps.creates = true
      · rw [if_pos hcreates] at h
        exact hopened (.put hwell out.path () []) (files.entry_put out.path () []) h
      · rw [if_neg hcreates] at h
        cases h
        exact ⟨rfl, hat, .refl hwell _, nofun⟩

/-! ### The copy -/

/-- What a read of a copy hands out of some bytes, or that it fails. -/
def CliSteps.readAt (steps : CliSteps) (tick : Nat) (data : Bytes) : Option Bytes :=
  (steps.fileSchedule tick).map fun wish =>
    data.take (shortRead wish (min steps.copyBuffer data.length))

theorem CliSteps.readAt_spec {tick : Nat} {data bytes : Bytes}
    (h : steps.readAt tick data = some bytes) :
    bytes ++ data.drop bytes.length = data ∧ (bytes = [] → data = []) := by
  obtain ⟨wish, -, rfl⟩ := Option.map_eq_some_iff.mp h
  have hle := shortRead_le wish (min steps.copyBuffer data.length)
  have hlength : (data.take (shortRead wish (min steps.copyBuffer data.length))).length =
      shortRead wish (min steps.copyBuffer data.length) := by
    rw [List.length_take]
    omega
  refine ⟨by rw [hlength, List.take_append_drop], fun hnil => ?_⟩
  have hzero : shortRead wish (min steps.copyBuffer data.length) = 0 := by
    rw [← hlength, hnil, List.length_nil]
  have hmost := shortRead_eq_zero_iff.mp hzero
  have hbuf := steps.copyBuffer_pos
  exact List.length_eq_zero_iff.mp (by omega)

/-- What the first read of a copy hands out. -/
def CliSteps.firstRead (steps : CliSteps) (data : Bytes) : Bytes := (steps.readAt 0 data).getD []

/-- What an open file holds between two places. -/
def stretch (files : Files) (handle pos stop : Nat) : Bytes :=
  ((files.content handle).drop pos).take (stop - pos)

theorem stretch_drop (files : Files) (handle pos stop n : Nat) :
    (stretch files handle pos stop).drop n = stretch files handle (pos + n) stop := by
  rw [stretch, stretch, List.drop_take, List.drop_drop, Nat.sub_add_eq]

/-- One step of a copy: it is over, or it writes what it reads and goes on behind that. -/
theorem copyFuel_step {handle stop fuel tick pos : Nat} {out out' : CopyOutput}
    (h : copyFuel steps handle stop (fuel + 1) tick pos out files = (result, out', files')) :
    (out' = out ∧ files' = files ∧ (result = .ok () → stretch files handle pos stop = [])) ∨
      ∃ bytes, steps.readAt tick (stretch files handle pos stop) = some bytes ∧ bytes ≠ [] ∧
        ∃ (answer : Except Error Unit) (out₁ : CopyOutput) (files₁ : Files),
          out.writeAll steps.toFileSteps bytes files = (answer, out₁, files₁) ∧
          ((∃ e, answer = .error e ∧ result = .error e ∧ out' = out₁ ∧ files' = files₁) ∨
            (answer = .ok () ∧ copyFuel steps handle stop fuel (tick + 1) (pos + bytes.length) out₁
              files₁ = (result, out', files'))) := by
  rw [copyFuel] at h
  simp only [Read.read] at h
  cases hread : steps.fileSchedule tick with
  | none =>
      rw [hread] at h
      cases h
      exact Or.inl ⟨rfl, rfl, nofun⟩
  | some wish =>
      simp only [hread] at h
      have hat : steps.readAt tick (stretch files handle pos stop) =
          some ((stretch files handle pos stop).take
            (shortRead wish (min steps.copyBuffer (stretch files handle pos stop).length))) := by
        rw [CliSteps.readAt, hread, Option.map_some]
      rw [← stretch] at h
      generalize (stretch files handle pos stop).take
        (shortRead wish (min steps.copyBuffer (stretch files handle pos stop).length)) = bytes
        at h hat
      by_cases hend : bytes = []
      · rw [hend] at h
        cases h
        exact Or.inl ⟨rfl, rfl, fun _ => (CliSteps.readAt_spec hat).2 hend⟩
      · rw [List.isEmpty_eq_false_iff.mpr hend] at h
        simp only [Bool.false_eq_true, if_false] at h
        refine Or.inr ⟨bytes, hat, hend, ?_⟩
        cases hwrite : out.writeAll steps.toFileSteps bytes files with
        | mk answer wrote =>
            obtain ⟨out₁, files₁⟩ := wrote
            rw [hwrite] at h
            refine ⟨answer, out₁, files₁, rfl, ?_⟩
            cases answer with
            | error e =>
                cases h
                exact Or.inl ⟨e, rfl, rfl, rfl, rfl⟩
            | ok u => exact Or.inr ⟨rfl, h⟩

theorem CopyOutput.writeAll_file {out : LazyFile} {out' : CopyOutput} {data : Bytes}
    (h : CopyOutput.writeAll steps.toFileSteps data files (.file out) = (result, out', files')) :
    ∃ last, out' = .file last ∧
      out.writeAll steps.toFileSteps data files = (result, last, files') := by
  cases h
  exact ⟨_, rfl, rfl⟩

/-- A copy to a file touches no other. -/
theorem copyFuel_keeps {handle stop fuel tick pos : Nat} {out : LazyFile} {out' : CopyOutput}
    (hwell : files.WellFormed) (hat : out.At files)
    (h : copyFuel steps handle stop fuel tick pos (.file out) files = (result, out', files')) :
    ∃ last : LazyFile, out' = .file last ∧ last.path = out.path ∧ last.At files' ∧
      files.SameBut out.path files' := by
  induction fuel generalizing files out tick pos with
  | zero =>
      cases h
      exact ⟨out, rfl, rfl, hat, .refl hwell _⟩
  | succ fuel ih =>
      rcases copyFuel_step h with ⟨rfl, rfl, -⟩ | ⟨bytes, -, -, answer, out₁, files₁, hwrite, hrest⟩
      · exact ⟨out, rfl, rfl, hat, .refl hwell _⟩
      · obtain ⟨out₁, rfl, hfile⟩ := CopyOutput.writeAll_file hwrite
        obtain ⟨hpath, hat₁, hsame, -⟩ := LazyFile.writeAll_spec hwell hat hfile
        rcases hrest with ⟨e, -, -, rfl, rfl⟩ | ⟨-, hrest⟩
        · exact ⟨out₁, rfl, hpath, hat₁, hsame⟩
        · obtain ⟨last, rfl, hlast, hatLast, hsameLast⟩ := ih hsame.wellFormed hat₁ hrest
          rw [hpath] at hlast hsameLast
          exact ⟨last, rfl, hlast, hatLast, hsame.trans hsameLast⟩

/-- A copy to the standard output touches no file. -/
theorem copyFuel_stdout {handle stop fuel tick pos : Nat} {sink : Sink} {out' : CopyOutput}
    (h : copyFuel steps handle stop fuel tick pos (.stdout sink) files = (result, out', files')) :
    files' = files ∧ ∃ sink', out' = .stdout sink' := by
  induction fuel generalizing sink tick pos with
  | zero =>
      cases h
      exact ⟨rfl, sink, rfl⟩
  | succ fuel ih =>
      rcases copyFuel_step h with ⟨rfl, rfl, -⟩ | ⟨bytes, -, -, answer, out₁, files₁, hwrite, hrest⟩
      · exact ⟨rfl, sink, rfl⟩
      · cases hwrite
        rcases hrest with ⟨e, -, -, rfl, rfl⟩ | ⟨-, hrest⟩
        · exact ⟨rfl, _, rfl⟩
        · exact ih hrest

/-- A copy that ends without an error into another file wrote all it was to copy. -/
theorem copyFuel_apart {input : String} {handle stop fuel tick pos : Nat} {out last : LazyFile}
    (hwell : files.WellFormed) (hat : out.At files) (hentry : files.entry input = some handle)
    (hne : input ≠ out.path)
    (h : copyFuel steps handle stop fuel tick pos (.file out) files =
      (.ok (), .file last, files')) :
    last.written = out.written ++ stretch files handle pos stop := by
  induction fuel generalizing files out tick pos with
  | zero => cases h
  | succ fuel ih =>
      rcases copyFuel_step h with ⟨hout, -, hnone⟩ |
        ⟨bytes, hread, -, answer, out₁, files₁, hwrite, hrest⟩
      · cases hout
        rw [hnone rfl, List.append_nil]
      · obtain ⟨out₁, rfl, hfile⟩ := CopyOutput.writeAll_file hwrite
        obtain ⟨hpath, hat₁, hsame, hall⟩ := LazyFile.writeAll_spec hwell hat hfile
        rcases hrest with ⟨e, -, he, -⟩ | ⟨rfl, hrest⟩
        · cases he
        · have hentry₁ : files₁.entry input = some handle :=
            (hsame.entry input hne).trans hentry
          have hcontent : stretch files₁ handle (pos + bytes.length) stop =
              stretch files handle (pos + bytes.length) stop := by
            rw [stretch, stretch, hsame.content input hne handle hentry]
          have hdone := ih hsame.wellFormed hat₁ hentry₁ (by rw [hpath]; exact hne) hrest
          rw [hdone, hall rfl, hcontent, ← stretch_drop, List.append_assoc,
            (CliSteps.readAt_spec hread).1]

/-- The first write to a file that is there replaces what it held. -/
theorem LazyFile.writeAll_onto {handle : Nat} {last : LazyFile} {data : Bytes}
    (hentry : files.entry path = some handle) (hdata : data ≠ [])
    (h : LazyFile.writeAll steps.toFileSteps { path := path } data files =
      (.ok (), last, files')) :
    last.written = data ∧ files'.content handle = data := by
  rw [writeAll, if_neg hdata] at h
  simp only [Directory.put_of_entry hentry, List.nil_append] at h
  by_cases hcreates : steps.creates = true
  · rw [if_pos hcreates] at h
    obtain ⟨hall, hwritten⟩ := Prod.mk.inj h
    obtain ⟨rfl, rfl⟩ := Prod.mk.inj hwritten
    have htaken : (steps.takes.map data.take).getD data = data := by
      by_contra hne
      rw [if_neg hne] at hall
      cases hall
    exact ⟨htaken, by rw [Directory.write_content_self, htaken]⟩
  · rw [if_neg hcreates] at h
    cases h

/-- A copy onto the file it reads is over with the first read: its first write empties the file,
and there is nothing more to read behind what it wrote. -/
theorem copyFuel_onto_itself {handle stop fuel pos : Nat} {last : LazyFile}
    (hentry : files.entry path = some handle)
    (h : copyFuel steps handle stop fuel 0 pos (.file { path := path }) files =
      (.ok (), .file last, files')) :
    last.written = steps.firstRead (stretch files handle pos stop) := by
  rw [CliSteps.firstRead]
  cases fuel with
  | zero => cases h
  | succ fuel =>
      rcases copyFuel_step h with ⟨hout, -, hnone⟩ |
        ⟨bytes, hread, hbytes, answer, out₁, files₁, hwrite, hrest⟩
      · cases hout
        rw [hnone rfl, CliSteps.readAt]
        cases steps.fileSchedule 0 with
        | none => rfl
        | some wish => rw [Option.map_some, Option.getD_some, List.take_nil]
      · obtain ⟨out₁, rfl, hfile⟩ := CopyOutput.writeAll_file hwrite
        rcases hrest with ⟨e, -, he, -⟩ | ⟨rfl, hrest⟩
        · cases he
        obtain ⟨hwritten, hcontent⟩ := LazyFile.writeAll_onto hentry hbytes hfile
        have hbehind : stretch files₁ handle (pos + bytes.length) stop = [] := by
          rw [stretch, hcontent, List.drop_eq_nil_of_le (Nat.le_add_left _ _), List.take_nil]
        rw [hread, Option.getD_some, ← hwritten]
        cases fuel with
        | zero => cases hrest
        | succ fuel =>
            rcases copyFuel_step hrest with ⟨hout, -, -⟩ | ⟨more, hmore, hne, -⟩
            · cases hout
              rfl
            · have hall := (CliSteps.readAt_spec hmore).1
              rw [hbehind] at hall
              exact absurd (List.append_eq_nil_iff.mp hall).1 hne

/-! ### A range -/

variable {archive : Archive zeek} {find : Finder UInt8} {fromIdx : Nat} {cnt : Option Nat}
  {align : Alignment} {check : SeparatorCheck}

/-- An accepted range is not empty, and lies in the file. -/
theorem copyRangeChecks_range {table : SeekTable} {k j : Nat}
    (hok : copyRangeChecks zeek archive.file fromIdx cnt find align check = .ok (table, k, j)) :
    k < j ∧ j ≤ archive.frames.length := by
  obtain ⟨-, hnothing, n, tail, reader, hover, hn, -, ⟨last, hlast, -⟩, hrange, -⟩ :=
    copyRangeChecks_ok hok
  have hlt : last < archive.contents.length := by
    have hne : archive.contents ≠ [] := by
      intro hnil
      rw [lastDataFrame, if_pos (by rw [hover.length, hnil, List.length_nil])] at hlast
      cases hlast
    obtain ⟨last', hlast', hlt, -⟩ := hover.lastDataFrame_spec hne
    rw [hlast] at hlast'
    cases hlast'
    exact hlt
  have hlength := archive.length_contents
  obtain ⟨hmod, rfl, hk, ⟨c, rfl, -, hmod', rfl, hj, -⟩ | ⟨rfl, -⟩⟩ :=
    hover.frameRange_ok hlast hlt hrange
  · have hc : c ≠ 0 := fun hzero => hnothing (by rw [hzero])
    have hfrom := Nat.mul_div_cancel' (Nat.dvd_of_mod_eq_zero hmod)
    have hend := Nat.mul_div_cancel' (Nat.dvd_of_mod_eq_zero hmod')
    exact ⟨Nat.lt_of_mul_lt_mul_left (a := n) (by omega), by omega⟩
  · exact ⟨by omega, by omega⟩

/-- A copy from an open file touches no file but its output, that neither where it is refused. -/
theorem copyRangeOnto_sameBut {handle : Nat} {out' : CopyOutput} (hwell : files.WellFormed)
    (h : copyRangeOnto zeek steps handle fromIdx cnt find align check (.file { path := path })
      files = (result, out', files')) :
    files.SameBut path files' ∧
      ((∀ range, copyRangeChecks zeek (steps.file files handle) fromIdx cnt find align check ≠
        .ok range) → (∃ e, result = .error e) ∧ files' = files) := by
  rw [copyRangeOnto] at h
  cases hchecks : copyRangeChecks zeek (steps.file files handle) fromIdx cnt find align check with
  | error e =>
      rw [hchecks] at h
      cases h
      exact ⟨.refl hwell _, fun _ => ⟨⟨e, rfl⟩, rfl⟩⟩
  | ok range =>
      refine ⟨?_, fun hnone => absurd rfl (hnone range)⟩
      obtain ⟨table, k, j⟩ := range
      simp only [hchecks] at h
      cases hcopy : copyFuel steps handle (table.frameEndComp (j - 1))
          (table.frameEndComp (j - 1) - table.frameStartComp k + 1) 0 (table.frameStartComp k)
          (.file { path := path }) files with
      | mk answer copied =>
          obtain ⟨out₁, files₁⟩ := copied
          obtain ⟨last, rfl, hpath, hat, hsame⟩ :=
            copyFuel_keeps hwell (LazyFile.at_start path files) hcopy
          rw [hcopy] at h
          cases answer with
          | error e =>
              cases h
              exact hsame
          | ok u =>
              simp only at h
              cases hlog : logFrames zeek [] (table.range k j) with
              | error e =>
                  rw [hlog] at h
                  cases h
                  exact hsame
              | ok logged =>
                  rw [hlog] at h
                  obtain ⟨ended, rfl, hwrite⟩ := CopyOutput.writeAll_file h
                  obtain ⟨-, -, hsame', -⟩ :=
                    LazyFile.writeAll_spec hsame.wellFormed hat hwrite
                  rw [hpath] at hsame'
                  exact hsame.trans hsame'

theorem copyRangeOnto_stdout {handle : Nat} {sink : Sink} {out' : CopyOutput}
    (h : copyRangeOnto zeek steps handle fromIdx cnt find align check (.stdout sink) files =
      (result, out', files')) : files' = files := by
  rw [copyRangeOnto] at h
  cases hchecks : copyRangeChecks zeek (steps.file files handle) fromIdx cnt find align check with
  | error e =>
      rw [hchecks] at h
      cases h
      rfl
  | ok range =>
      obtain ⟨table, k, j⟩ := range
      simp only [hchecks] at h
      cases hcopy : copyFuel steps handle (table.frameEndComp (j - 1))
          (table.frameEndComp (j - 1) - table.frameStartComp k + 1) 0 (table.frameStartComp k)
          (.stdout sink) files with
      | mk answer copied =>
          obtain ⟨out₁, files₁⟩ := copied
          obtain ⟨rfl, sink', rfl⟩ := copyFuel_stdout hcopy
          rw [hcopy] at h
          cases answer with
          | error e =>
              cases h
              rfl
          | ok u =>
              simp only at h
              split at h
              · cases h
                rfl
              · cases h
                rfl

theorem runCopyRange_stdout {args : CopyRangeArgs} {stdout : Sink} {out : CopyOutput}
    (hout : args.output = "-")
    (h : runCopyRange zeek args steps stdout files = (result, out, files')) : files' = files := by
  rw [runCopyRange, if_pos hout] at h
  split at h
  · cases h
    rfl
  · split at h
    · cases h
      rfl
    · split at h
      · cases h
        rfl
      · exact copyRangeOnto_stdout h

/-- A copy that ends without an error wrote the frames of its range, unless it read them off what it
wrote. -/
theorem copyRangeOnto_ok {input : String} {handle : Nat} {out' : CopyOutput}
    (hwell : files.WellFormed) (hentry : files.entry input = some handle)
    (hfile : steps.file files handle = archive.file)
    (h : copyRangeOnto zeek steps handle fromIdx cnt find align check (.file { path := path })
      files = (.ok (), out', files')) :
    ∃ k j, copyRangeChecks zeek archive.file fromIdx cnt find align check =
        .ok (tableOf archive.frames, k, j) ∧
      (files'.read path = some (archive.range k j).file.bytes ↔
        path ≠ input ∨ steps.firstRead (bodyOf (archive.range k j).frames) =
          bodyOf (archive.range k j).frames) := by
  rw [copyRangeOnto, hfile] at h
  cases hchecks : copyRangeChecks zeek archive.file fromIdx cnt find align check with
  | error e =>
      rw [hchecks] at h
      cases h
  | ok range =>
      obtain ⟨table, k, j⟩ := range
      obtain ⟨rfl, -⟩ := copyRangeChecks_ok hchecks
      obtain ⟨hkj, hj⟩ := copyRangeChecks_range hchecks
      refine ⟨k, j, rfl, ?_⟩
      have hbody : stretch files handle ((tableOf archive.frames).frameStartComp k)
          ((tableOf archive.frames).frameEndComp (j - 1)) = bodyOf (archive.range k j).frames := by
        rw [Archive.range, Archive.withFrames, ← archive.part_frames hkj, ← hfile]
        rfl
      have hlog : logFrames zeek [] ((tableOf archive.frames).range k j) =
          .ok (tableOf (archive.range k j).frames) := by
        rw [tableOf_range, logFrames_of_le, List.nil_append, Archive.range, Archive.withFrames]
        have := archive.count_le
        simp only [List.length_nil, length_tableOf, List.length_take, List.length_drop]
        omega
      rw [hchecks] at h
      simp only [hlog] at h
      cases hcopy : copyFuel steps handle ((tableOf archive.frames).frameEndComp (j - 1))
          ((tableOf archive.frames).frameEndComp (j - 1) -
            (tableOf archive.frames).frameStartComp k + 1) 0
          ((tableOf archive.frames).frameStartComp k) (.file { path := path }) files with
      | mk answer copied =>
          obtain ⟨out₁, files₁⟩ := copied
          obtain ⟨last, rfl, hpath, hat, hsame⟩ :=
            copyFuel_keeps hwell (LazyFile.at_start path files) hcopy
          rw [hcopy] at h
          cases answer with
          | error e => cases h
          | ok u =>
              obtain ⟨ended, rfl, hwrite⟩ := CopyOutput.writeAll_file h
              obtain ⟨hended, hatEnded, -, hall⟩ :=
                LazyFile.writeAll_spec hsame.wellFormed hat hwrite
              rw [hpath] at hended
              have hwritten : files'.read path = some (last.written ++
                  zeek.serialize (tableOf (archive.range k j).frames)) := by
                have hmagic := zeek.serialize_magic (tableOf (archive.range k j).frames)
                have hread := hatEnded.read (by
                  rw [hall rfl]
                  intro hnil
                  rw [(List.append_eq_nil_iff.mp hnil).2] at hmagic
                  cases hmagic)
                rwa [hended, hall rfl] at hread
              have hiff : some (last.written ++
                  zeek.serialize (tableOf (archive.range k j).frames)) =
                    some (archive.range k j).file.bytes ↔
                  last.written = bodyOf (archive.range k j).frames := by
                rw [Option.some.injEq]
                exact List.append_left_inj _
              rw [hwritten, hiff]
              by_cases hne : path = input
              · subst hne
                rw [copyFuel_onto_itself hentry hcopy, hbody]
                simp
              · rw [copyFuel_apart hwell (LazyFile.at_start path files) hentry (Ne.symm hne) hcopy,
                  hbody, List.nil_append]
                simp [hne]

/-- A copy of a range to a file touches no other file, and a range that lies outside of its input is
refused before any file changes. Where it succeeds its output holds the frames of the range, unless
it is the input and the first read does not take them all: the first write empties it. -/
theorem copy_range_output_iff {boundary : Boundary} {n : Nat} {args : CopyRangeArgs}
    {named : NamedBoundary} {stdout : Sink} {out : CopyOutput}
    (hwell : files.WellFormed) (hread : files.read args.input = some archive.file.bytes)
    (huniform : archive.IsUniform boundary n) (hnamed : args.boundary.boundary = .ok named)
    (hchecked : named.checked = .ok boundary) (hopens : steps.opens = true)
    (hout : args.output ≠ "-")
    (h : runCopyRange zeek args steps stdout files = (result, out, files')) :
    files.SameBut args.output files' ∧
      (RangeOutside archive boundary n args.fromIdx args.cnt →
        (∃ e, result = .error e) ∧ files' = files) ∧
      (result = .ok () → ∃ k j, args.fromIdx = n * k ∧ k < j ∧ j ≤ archive.contents.length ∧
        (HoldsRange boundary.find archive.data (archive.range k j).data args.fromIdx args.cnt ↔
          ¬ StopsBeforeRemainder archive boundary.find n args.fromIdx args.cnt) ∧
        (files'.read args.output = some (archive.range k j).file.bytes ↔
          args.output ≠ args.input ∨ steps.firstRead (bodyOf (archive.range k j).frames) =
            bodyOf (archive.range k j).frames)) := by
  obtain ⟨handle, hentry, hcontent⟩ : ∃ handle, files.entry args.input = some handle ∧
      files.content handle = archive.file.bytes := Option.map_eq_some_iff.mp hread
  -- the same frames, under the reads of this run
  let opened : Archive zeek :=
    { archive with reads := steps.reads, schedule := steps.fileSchedule }
  have hfile : steps.file files handle = opened.file := File.ext hcontent rfl rfl
  rw [runCopyRange, if_neg hout, openFile, if_pos hopens, hentry] at h
  simp only [hnamed, hchecked] at h
  obtain ⟨hsame, hrefused⟩ := copyRangeOnto_sameBut hwell h
  have huniform' : opened.IsUniform boundary n := huniform
  refine ⟨hsame, fun houtside => hrefused fun range hchecks => ?_, ?_⟩
  · rw [hfile] at hchecks
    obtain ⟨table, k, j⟩ := range
    obtain ⟨rfl, -⟩ := copyRangeChecks_ok hchecks
    exact not_outside_of_accepted huniform' hchecks houtside
  rintro rfl
  obtain ⟨k, j, hchecks, hiff⟩ := copyRangeOnto_ok hwell hentry hfile h
  obtain ⟨hfrom, hkj, hj, -⟩ := copyRange_frames huniform' hchecks
  exact ⟨k, j, hfrom, hkj, hj, range_holds_iff huniform' hchecks, hiff⟩

/-- Nothing fails, and every read hands out as many bytes as `wish` has it. -/
def readingSteps (wish : Nat) : CliSteps :=
  { stepsOf .done with
    reads := fun _ => wholeWish
    fileSchedule := fun _ => some wish
    inputReads := fun _ => wholeWish
    inputSchedule := fun _ => some wholeWish }

/-- A log of three records and what was begun behind them. -/
def overfullLog : Files := (noFiles.put "log.zst" () overfullArchive.file.bytes).2

theorem overfullLog_wellFormed : overfullLog.WellFormed :=
  (Directory.SameBut.put noFiles_wellFormed _ _ _).wellFormed

/-- The first two records, a byte at a time. -/
def firstTwo : CopyRangeArgs :=
  { input := "log.zst", output := "part.zst", fromIdx := 0, cnt := some 2 }

theorem copy_range_output_firstTwo :
    ∃ out files', runCopyRange storedZeekstd firstTwo (readingSteps 0) {} overfullLog =
        (.ok (), out, files') ∧
      files'.read "log.zst" = some overfullArchive.file.bytes ∧
      ∃ copy : Archive storedZeekstd, files'.read "part.zst" = some copy.file.bytes ∧
        HoldsRange lineBoundary.find overfullArchive.data copy.data 0 (some 2) := by
  obtain ⟨result, out, files', hrun⟩ : ∃ result out files',
      runCopyRange storedZeekstd firstTwo (readingSteps 0) {} overfullLog =
        (result, out, files') := ⟨_, _, _, rfl⟩
  have hresult : result = .ok () := by
    have : (runCopyRange storedZeekstd firstTwo (readingSteps 0) {} overfullLog).1 = .ok () := by
      decide +kernel
    rwa [hrun] at this
  have hread : overfullLog.read firstTwo.input = some overfullArchive.file.bytes :=
    Directory.read_put _ _ _ _
  have hnamed : firstTwo.boundary.boundary = .ok (.separator [10]) := by rfl
  obtain ⟨hsame, -, hcopies⟩ := copy_range_output_iff overfullLog_wellFormed hread
    overfullArchive_uniform hnamed rfl rfl (by decide) hrun
  obtain ⟨k, j, -, -, -, hholds, hiff⟩ := hcopies hresult
  refine ⟨out, files', by rw [hrun, hresult], ?_, overfullArchive.range k j,
    hiff.mpr (Or.inl (by decide)), hholds.mpr ?_⟩
  · exact (hsame.read (by decide)).trans hread
  · rintro ⟨c, hc, hend, -⟩
    cases hc
    exact absurd hend (by decide)

/-- The same copy onto the log: one byte of it is left in front of the table. -/
example :
    let ran := runCopyRange storedZeekstd { firstTwo with output := "log.zst" } (readingSteps 0) {}
      overfullLog
    ran.1 = .ok () ∧
      ran.2.2.read "log.zst" ≠ some (storedArchive [[97, 10], [98, 10]]).file.bytes := by
  decide +kernel

end SeekZstdSep
