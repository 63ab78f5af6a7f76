/-
Module: SeekZstdSep.Proofs.Save
Purpose: What a `zstdsep save` makes of the file it names: its items are written or added, one that
  is refused changes nothing, and one that fails once it writes loses that file and no other.
Trusted boundary: the library, as `Zeekstd` has it; the engine and the file system, as `Core.Save`
  has them
Main exports: HoldsItems, Save.run_cases, Shelf, Shelf.Kept, Shelf.after, SaveCall.Sound,
  Shelf.Kept.save
-/
import SeekZstdSep.Proofs.Deliver
import SeekZstdSep.Proofs.Stage
import SeekZstdSep.Proofs.Store

namespace SeekZstdSep

open Lib

variable {V : Type} {engine : Engine V} {zeek : Zeekstd} {boundary : Boundary} {n : Nat}
  {items : List Bytes}

/-! ### A file of items -/

/-- The bytes are those of a file with `n` records to a frame. -/
def HoldsPerFrame (zeek : Zeekstd) (boundary : Boundary) (n : Nat) (bytes : Bytes) : Prop :=
  ∃ archive : Archive zeek, bytes = archive.file.bytes ∧ archive.Counted boundary n

/-- The bytes are those of a file whose records are the items, with nothing behind the last. -/
def HoldsItems (zeek : Zeekstd) (boundary : Boundary) (items : List Bytes) (bytes : Bytes) :
    Prop :=
  ∃ archive : Archive zeek, ∃ n, bytes = archive.file.bytes ∧ archive.Counted boundary n ∧
    (archive.log boundary n).records = items.map (· ++ boundary.bytes) ∧
    (archive.log boundary n).rest = []

theorem length_le_of_mem_flatten {g : Bytes} {frames : List Bytes} (h : g ∈ frames) :
    g.length ≤ frames.flatten.length := by
  obtain ⟨before, behind, rfl⟩ := List.append_of_mem h
  rw [List.flatten_append, List.flatten_cons, List.length_append, List.length_append]
  omega

/-- A compression of items makes a file of them. -/
theorem compress_holds (hwhole : boundary.find.Whole) (hne : items ≠ [])
    (hfits : ∀ item ∈ items, boundary.Fits item) {reader : Input}
    (hdata : reader.data = encoded boundary.bytes items)
    (hlength : reader.data.length ≤ zeek.frameLimit) {frameSize : Nat}
    {limitMultiplier : Option Nat} {opts : Option CompressOptions} {made : Bytes}
    (hok : convertRecordsToSeekableZst zeek reader frameSize true boundary.find limitMultiplier
      opts = .ok made) : HoldsItems zeek boundary items made := by
  obtain ⟨hrecords, hrest⟩ := Boundary.Fits.records hfits
  rw [← hdata] at hrecords hrest
  have hsome : boundary.find.records reader.data ≠ [] := by
    rw [hrecords]
    exact fun hnil => hne (List.map_eq_nil_iff.mp hnil)
  have hgroups : ∀ g ∈ (ruleOf boundary.find true (heldCount (opts.getD {}).maxOfSeparator)
      frameSize reader.data).frames boundary.find reader.data, g.length ≤ zeek.frameLimit := by
    intro g hg
    have hle := length_le_of_mem_flatten hg
    rw [flatten_frames] at hle
    exact Nat.le_trans hle hlength
  obtain ⟨archive, rfl, hcounted, hlog⟩ :=
    compress_log hwhole hsome (Or.inr hrest) hgroups hok
  refine ⟨archive, _, rfl, hcounted, ?_, ?_⟩
  · rw [hlog, compressedLog, Finder.log, flatten_frames, hrecords]
  · rw [hlog, compressedLog, Finder.log, flatten_frames, hrest]

/-- Items put behind the items of a log. -/
theorem log_append_items (hfits : ∀ item ∈ items, boundary.Fits item) {log : RecordLog UInt8}
    {before : List Bytes} (hrecords : log.records = before.map (· ++ boundary.bytes))
    (hrest : log.rest = []) (separator : Bytes) :
    (log.append boundary.find separator (encoded boundary.bytes items)).records =
        (before ++ items).map (· ++ boundary.bytes) ∧
      (log.append boundary.find separator (encoded boundary.bytes items)).rest = [] := by
  obtain ⟨hmore, hnothing⟩ := Boundary.Fits.records hfits
  rw [RecordLog.append]
  split_ifs with hempty
  · rw [hempty, boundary.find.records_nil] at hmore
    rw [hrecords, hrest, List.map_append, ← hmore, List.append_nil]
    exact ⟨rfl, rfl⟩
  · simp only [hrecords, hmore, hnothing, List.append_nil, List.map_append, and_self]

/-- An append of items to a file of items makes a file of both. -/
theorem append_holds (hwhole : boundary.find.Whole) (hfits : ∀ item ∈ items, boundary.Fits item)
    {before : List Bytes} {bytes : Bytes} (hholds : HoldsItems zeek boundary before bytes)
    {call : AppendCall} (hgives : call.Gives boundary)
    (hdata : call.data.data = encoded boundary.bytes items)
    (hcount : ∀ n, HoldsPerFrame zeek boundary n bytes →
      call.records = none ∨ call.records = some n)
    {access : Access} (hfills : (access.file bytes).Fills zeek)
    (hok : ((LogEdit.append call).run zeek boundary (access.file bytes)).1 = .ok ()) :
    HoldsItems zeek boundary (before ++ items)
      ((LogEdit.append call).run zeek boundary (access.file bytes)).2.bytes := by
  obtain ⟨archive, n, harchive, hcounted, hrecords, hrest⟩ := hholds
  obtain ⟨now, hnow, hcontents⟩ :=
    Archive.exists_of_bytes (f := access.file bytes) harchive.symm
  rw [hnow] at hok hfills ⊢
  have hends : boundary.Ends call.data.data := by
    rw [hdata]
    exact Or.inr (Boundary.Fits.records hfits).2
  have hfitsCall : (LogEdit.append call).Fits zeek boundary n now.file :=
    ⟨hgives, hends, hcount n ⟨archive, harchive, hcounted⟩, hfills⟩
  obtain ⟨after, hafter, hcountedAfter, hlog⟩ :=
    LogEdit.does (hcounted.of_contents hcontents) hwhole hfitsCall hok
  refine ⟨after, n, congrArg File.bytes hafter, hcountedAfter, ?_⟩
  rw [hlog, Archive.log_congr hcontents, LogEdit.apply, hdata]
  exact log_append_items hfits hrecords hrest _

/-! ### What a call writes to -/

section Files

variable {overflowChecks : Bool} {steps : FileSteps} {files files' : Files} {path : String}
  {handle : Nat} {data : Bytes}

theorem Destination.write_sameBut (hwell : files.WellFormed)
    (hown : ∀ name ≠ path, files.entry name ≠ some handle) (takes : Option Nat) :
    files.SameBut path ((Destination.file path handle).write takes data files).2 :=
  Directory.SameBut.write hwell hown _

/-- A delivery touches no file but that of its path. -/
theorem deliver_sameBut (hwell : files.WellFormed)
    (hown : ∀ name ≠ path, files.entry name ≠ some handle) :
    files.SameBut path (deliver steps data (.file path handle) files).2 := by
  -- the open output stays a file no other name stands for
  have hkeeps : ∀ {between : Files}, files.SameBut path between →
      ∀ name ≠ path, between.entry name ≠ some handle := by
    intro between hsame name hne
    rw [hsame.entry name hne]
    exact hown name hne
  have hbare : files.SameBut path
      (if steps.removes then (files.remove path).getD files else files) := by
    split_ifs
    · cases hremove : files.remove path with
      | none => exact .refl hwell path
      | some bare => exact .remove hwell hremove
    · exact .refl hwell path
  rw [deliver]
  generalize (if steps.removes then (files.remove path).getD files else files) = bare at hbare ⊢
  cases steps.clone with
  | done => exact hbare.trans (.put hbare.wellFormed path () data)
  | failed left =>
      cases left with
      | none =>
          exact hbare.trans (Destination.write_sameBut hbare.wellFormed (hkeeps hbare) _)
      | some missing =>
          have hput := hbare.trans
            (.put hbare.wellFormed path () (data.take (data.length - missing)))
          exact hput.trans (Destination.write_sameBut hput.wellFormed (hkeeps hput) _)

theorem settled_snd (made : Bytes) (wrote : Bool × Files) : (settled made wrote).2 = wrote.2 := by
  rw [settled]

theorem compressOnto_sameBut (hwell : files.WellFormed)
    (hown : ∀ name ≠ path, files.entry name ≠ some handle) {reader : RetryReader}
    {frameSize : Nat} {opts : CompressOptions}
    {convert : Input → Nat → Option CompressOptions → Option (Except Error Bytes)}
    {converts : Bool} {fuel : Nat} {result : Except Error Bytes}
    (h : compressOnto overflowChecks steps reader frameSize opts convert converts
      (.file path handle) files fuel = some (result, files')) : files.SameBut path files' := by
  rw [compressOnto] at h
  split at h
  · split at h
    · cases h
    · cases h
      exact .refl hwell path
    · have hfiles := congrArg Prod.snd (Option.some.inj h)
      rw [settled_snd] at hfiles
      rw [← show _ = files' from hfiles]
      exact Destination.write_sameBut hwell hown _
  · split at h
    · have hfiles := congrArg Prod.snd (Option.some.inj h)
      rw [settled_snd] at hfiles
      rw [← show _ = files' from hfiles]
      exact deliver_sameBut hwell hown
    · cases h
      exact .refl hwell path
    · cases h

/-- What a compression onto an open output made it made of all its reader held, in one of the
conversions it tried. -/
theorem compressOnto_made {reader : RetryReader} (hpos : reader.pos = 0) {frameSize : Nat}
    {opts : CompressOptions}
    {convert : Input → Nat → Option CompressOptions → Option (Except Error Bytes)}
    {converts : Bool} {dest : Destination} {fuel : Nat} {made : Bytes}
    (h : compressOnto overflowChecks steps reader frameSize opts convert converts dest files fuel =
      some (.ok made, files')) :
    ∃ input frameSize opts, input.data = reader.data ∧
      convert input frameSize opts = some (.ok made) := by
  rw [compressOnto] at h
  split at h
  · split at h
    · cases h
    · cases h
    · next made' hconvert =>
        obtain ⟨rfl, -⟩ := settled_ok (Option.some.inj h)
        refine ⟨_, _, _, ?_, hconvert⟩
        rw [RetryReader.input, hpos, List.drop_zero]
  · split at h
    · next staged hretry =>
        obtain ⟨rfl, -⟩ := settled_ok (Option.some.inj h)
        obtain ⟨last, hretries, -, hconvert⟩ := exists_of_retried hretry
        have hstart : last.pos = 0 := by
          rcases hretries.fresh with rfl | ⟨hstart, -, -⟩
          · exact hpos
          · exact hstart
        refine ⟨_, _, _, ?_, hconvert⟩
        rw [RetryReader.input, hstart, List.drop_zero]
    · cases h
    · cases h

/-- A boundary that was checked is converted with. -/
theorem NamedBoundary.convert_checked {named : NamedBoundary} (h : named.checked = .ok boundary)
    {isSame : Bool} {limitMultiplier : Option Nat} {input : Input} {frameSize : Nat}
    {opts : Option CompressOptions} {result : Except Error Bytes}
    (hconvert : named.convert zeek overflowChecks isSame limitMultiplier input frameSize opts =
      some result) :
    convertRecordsToSeekableZst zeek input frameSize isSame boundary.find limitMultiplier opts =
      result := by
  cases named with
  | finder find =>
      cases h
      exact convert_of_buffered hconvert
  | separator bytes =>
      rw [NamedBoundary.checked] at h
      rw [NamedBoundary.convert] at hconvert
      split at h
      · cases h
      · next hne =>
          cases h
          rw [dif_neg hne] at hconvert
          exact convert_of_buffered hconvert

/-- A compression by the plugin touches no file but that of its path, and none where it cannot
create that. -/
theorem saveCompress_sameBut {args : SaveArgs} {fuel : Nat} {finished : Finished}
    (hwell : files.WellFormed)
    (hrun : saveCompress zeek overflowChecks args path data steps files fuel = some finished) :
    files.SameBut path finished.files ∧
      (steps.creates = false → finished.files = files ∧ ∃ e, finished.result = .error e) := by
  rw [saveCompress] at hrun
  simp only at hrun
  split at hrun
  · next e houtput =>
      cases hrun
      exact ⟨.refl hwell path, fun _ => ⟨rfl, e, rfl⟩⟩
  · next dest files₁ houtput =>
      have hcreates : steps.creates = true := by
        rw [openOutput] at houtput
        split_ifs at houtput with hcreates
        exact hcreates
      obtain ⟨handle, rfl, hopen⟩ := openOutput_opened hwell.lt_next houtput
      have hput : files.SameBut path files₁ := by
        rw [openOutput, if_pos hcreates] at houtput
        cases houtput
        exact .put hwell path () []
      have hown : ∀ name ≠ path, files₁.entry name ≠ some handle :=
        fun name hne hother => hne (hput.wellFormed.one_name hother hopen.entry)
      refine ⟨?_, fun hnot => absurd hcreates (by rw [hnot]; decide)⟩
      split at hrun
      · cases hrun
        exact hput
      · split at hrun
        · cases hrun
        · next result files₂ hcompress =>
            cases hrun
            exact hput.trans (compressOnto_sameBut hput.wellFormed hown hcompress)

/-- Without a boundary a compression fails. -/
theorem saveCompress_refused {args : SaveArgs} {e : Error} (hargs : args.boundary = .error e)
    {fuel : Nat} {finished : Finished}
    (hrun : saveCompress zeek overflowChecks args path data steps files fuel = some finished) :
    ∃ e, finished.result = .error e := by
  rw [saveCompress] at hrun
  simp only [hargs] at hrun
  split at hrun
  · cases hrun
    exact ⟨_, rfl⟩
  · cases hrun
    exact ⟨_, rfl⟩

/-- A compression of items by the plugin that returns `Ok` leaves a file of them under its path,
unless the delivery loses it. -/
theorem saveCompress_holds {named : NamedBoundary} (hchecked : named.checked = .ok boundary)
    (hwhole : boundary.find.Whole) (hne : items ≠ [])
    (hfits : ∀ item ∈ items, boundary.Fits item)
    (hlength : (encoded boundary.bytes items).length ≤ zeek.frameLimit) {args : SaveArgs}
    (hargs : args.boundary = .ok named)
    (harrives : args.recordsPerFrame.isSome = true ∨ steps.Arrives) {fuel : Nat}
    {finished : Finished} (hwell : files.WellFormed)
    (hrun : saveCompress zeek overflowChecks args path (encoded boundary.bytes items) steps files
      fuel = some finished) {made : Bytes} (hok : finished.result = .ok made) :
    finished.files.read path = some made ∧ HoldsItems zeek boundary items made := by
  refine ⟨((saveCompress_named hwell.lt_next hrun hok).2.mpr harrives).1, ?_⟩
  rw [saveCompress] at hrun
  simp only [hargs] at hrun
  split at hrun
  · cases hrun
    cases hok
  · split at hrun
    · cases hrun
    · next result files₂ hcompress =>
        cases hrun
        simp only at hok
        subst hok
        obtain ⟨input, frameSize, opts, hinput, hconvert⟩ := compressOnto_made rfl hcompress
        apply compress_holds hwhole hne hfits hinput (by rw [hinput]; exact hlength)
        exact NamedBoundary.convert_checked hchecked hconvert

end Files

/-! ### An append -/

/-- The append that the library is asked for by a boundary. -/
def Boundary.appendCall (boundary : Boundary) (data : Input) (onMissing : OnMissingSeparator)
    (level : Int) (recordsPerFrame : Option Nat) (trust : Bool) : AppendCall where
  data := data
  separator := boundary.bytes
  onMissing := onMissing
  level := level
  records := recordsPerFrame
  finder :=
    match boundary with
    | .separator _ _ => none
    | .finder find => some find
  trust := trust

section

variable {data : Input} {onMissing : OnMissingSeparator} {level : Int}
  {recordsPerFrame : Option Nat} {trust : Bool}

theorem Boundary.appendCall_gives :
    (boundary.appendCall data onMissing level recordsPerFrame trust).Gives boundary := by
  cases boundary with
  | separator bytes ne => exact ⟨ne, rfl⟩
  | finder find => rfl

theorem NamedBoundary.append_checked {named : NamedBoundary} (h : named.checked = .ok boundary)
    (f : File) :
    named.append zeek f data onMissing level recordsPerFrame trust =
      (boundary.appendCall data onMissing level recordsPerFrame trust).run zeek f none := by
  cases named with
  | finder find =>
      cases h
      rfl
  | separator bytes =>
      rw [NamedBoundary.checked] at h
      split at h
      · cases h
      · cases h
        rfl

end

/-- How the file answers while the call has it open. -/
def SaveSteps.access (steps : SaveSteps) : Access where
  reads := steps.reads
  schedule := steps.fileSchedule

namespace Save

/-- The append that a call asks the library for. -/
def appendCall (boundary : Boundary) (flags : SaveFlags) (records : Bytes) (steps : SaveSteps)
    (recordsPerFrame : Option Nat) (trust : Bool) : AppendCall :=
  boundary.appendCall { data := records, schedule := steps.schedule 0 }
    (if flags.insertSeparator then .insert else .refuse) 0 recordsPerFrame trust

section

variable {flags : SaveFlags} {records : Bytes} {steps : SaveSteps}
  {spec : FinderSpec} {path : String} {files files' : Files} {result : Except ShellError Unit}

/-- An append is refused before it reads the file, or is the library's, made in place. -/
theorem append_cases (hwell : files.WellFormed)
    (hspec : ∀ named, fromSpec spec.finder spec.arg = .ok named →
      ∃ boundary, named.checked = .ok boundary ∧ spec.Names boundary)
    (h : append zeek spec flags path records steps files = (result, files')) :
    (files' = files ∧ ∃ e, result = .error e) ∨
      files.SameBut path files' ∧ ∃ boundary bytes recordsPerFrame trust,
        spec.Names boundary ∧
        files.read path = some bytes ∧ appendCount flags = .ok (recordsPerFrame, trust) ∧
        let ran := (LogEdit.append (appendCall boundary flags records steps recordsPerFrame
          trust)).run zeek boundary (steps.access.file bytes)
        result = ran.1.mapError (failed path) ∧ files'.read path = some ran.2.bytes := by
  have hrefused : ∀ {e : ShellError}, (Except.error e, files) = (result, files') →
      files' = files ∧ ∃ e, result = .error e := by
    intro e heq
    cases heq
    exact ⟨rfl, e, rfl⟩
  rw [append, FinderSpec.boundary] at h
  cases hnamed : fromSpec spec.finder spec.arg with
  | error e =>
      rw [hnamed] at h
      exact Or.inl (hrefused h)
  | ok named =>
      simp only [hnamed] at h
      by_cases hinsert : flags.insertSeparator ∧ hasSeparator named = false
      · rw [if_pos hinsert] at h
        exact Or.inl (hrefused h)
      · rw [if_neg hinsert] at h
        obtain ⟨boundary, hchecked, hnames⟩ := hspec named hnamed
        cases hentry : files.entry path with
        | none =>
            rw [hentry] at h
            exact Or.inl (hrefused h)
        | some handle =>
            simp only [hentry] at h
            cases hopens : steps.opens with
            | false =>
                rw [hopens] at h
                exact Or.inl (hrefused h)
            | true =>
                simp only [hopens, if_true] at h
                cases hcount : appendCount flags with
                | error e =>
                    rw [hcount] at h
                    exact Or.inl (hrefused h)
                | ok count =>
                    obtain ⟨recordsPerFrame, trust⟩ := count
                    simp only [hcount, NamedBoundary.append_checked hchecked] at h
                    obtain ⟨rfl, rfl⟩ := Prod.mk.inj h
                    exact Or.inr ⟨.write_of_entry hwell hentry _, boundary, files.content handle,
                      recordsPerFrame, trust, hnames, Directory.read_of_entry hentry, rfl, rfl,
                      Directory.read_write_self hentry _⟩

end

end Save

/-! ### The shelf -/

/-- What was saved under a path: where its records end, and the items. -/
structure Saved where
  spec : FinderSpec
  items : List Bytes
deriving DecidableEq

/-- What was saved, by path, as far as that is known. -/
abbrev Shelf := String → Option Saved

/-- The files hold what was saved. -/
structure Shelf.Kept (zeek : Zeekstd) (shelf : Shelf) (files : Files) : Prop where
  wellFormed : files.WellFormed
  holds : ∀ path saved, shelf path = some saved → ∃ boundary bytes,
    saved.spec.Names boundary ∧ files.read path = some bytes ∧
      HoldsItems zeek boundary saved.items bytes

namespace Shelf.Kept

variable {shelf : Shelf} {files files' : Files} {path : String}

/-- Nothing is known to be saved. -/
theorem nothing (hwell : files.WellFormed) : Shelf.Kept zeek (fun _ => none) files where
  wellFormed := hwell
  holds path saved hsaved := by cases hsaved

/-- One file is written, and holds what is then known to be saved in it. -/
theorem update (h : shelf.Kept zeek files) (hsame : files.SameBut path files')
    {entry : Option Saved}
    (hentry : ∀ saved, entry = some saved → ∃ boundary bytes, saved.spec.Names boundary ∧
      files'.read path = some bytes ∧ HoldsItems zeek boundary saved.items bytes) :
    Shelf.Kept zeek (Function.update shelf path entry) files' where
  wellFormed := hsame.wellFormed
  holds := by
    intro path' saved hsaved
    by_cases hpath : path' = path
    · subst hpath
      rw [Function.update_self] at hsaved
      exact hentry saved hsaved
    · rw [Function.update_of_ne hpath] at hsaved
      rw [hsame.read hpath]
      exact h.holds path' saved hsaved

theorem forget (h : shelf.Kept zeek files) (hsame : files.SameBut path files') :
    Shelf.Kept zeek (Function.update shelf path none) files' :=
  h.update hsame nofun

/-- The file is written with what it held. -/
theorem of_read (h : shelf.Kept zeek files) (hsame : files.SameBut path files')
    (hread : files'.read path = files.read path) : shelf.Kept zeek files' where
  wellFormed := hsame.wellFormed
  holds := by
    intro path' saved hsaved
    have hread' : files'.read path' = files.read path' := by
      by_cases hpath : path' = path
      · rw [hpath, hread]
      · exact hsame.read hpath
    rw [hread']
    exact h.holds path' saved hsaved

end Shelf.Kept

/-! ### One call -/

/-- An append that fails behind its cut, or a compression that fails once its output was created. -/
def SaveCall.FailsLate (engine : Engine V) (zeek : Zeekstd) (call : SaveCall V)
    (files : Files) : Prop :=
  ∃ path spec records, Save.checks call files = .ok (path, spec) ∧
    Save.stage engine call path spec = .ok records ∧
    if call.flags.append then
      ∃ boundary bytes recordsPerFrame trust, spec.Names boundary ∧
        files.read path = some bytes ∧
        Save.appendCount call.flags = .ok (recordsPerFrame, trust) ∧
        (LogEdit.append (Save.appendCall boundary call.flags records call.steps recordsPerFrame
          trust)).FailsLate zeek boundary (call.steps.access.file bytes)
    else call.steps.creates = true

open Classical in
/-- How a call ends that returns `result`. -/
noncomputable def SaveCall.ended (engine : Engine V) (zeek : Zeekstd) (call : SaveCall V)
    (files : Files) : Except ShellError Unit → Ended
  | .ok _ => .done
  | .error _ => if call.FailsLate engine zeek files then .broken else .refused

/-- What a call keeps to that saves the items under `path`. Each item is one record. An append is by
the boundary of the file, states no other count than the file's, and a decoder hands out a frame in
one read. What is compressed is not more than a frame holds, and the delivery does not lose it. -/
structure SaveCall.Fits (engine : Engine V) (zeek : Zeekstd) (call : SaveCall V) (files : Files)
    (shelf : Shelf) (items : List Bytes) (path : String) (spec : FinderSpec)
    (boundary : Boundary) : Prop where
  holds : Encode.Holds engine (Save.formatOf path call.flags) spec.separator items call.input
  fits : ∀ item ∈ items, boundary.Fits item
  append : call.flags.append = true →
    (∀ saved, shelf path = some saved → saved.spec = spec) ∧
      ∀ bytes, files.read path = some bytes → (call.steps.access.file bytes).Fills zeek ∧
        ∀ n, HoldsPerFrame zeek boundary n bytes →
          ∀ count ∈ call.flags.recordsPerFrame, asUsize count = n
  compress : call.flags.append = false →
    (encoded boundary.bytes items).length ≤ zeek.frameLimit ∧
      (call.flags.recordsPerFrame.isSome = true ∨ call.steps.Arrives)

/-- A call keeps to what it has to, where its flags name a path and a boundary. -/
def SaveCall.Sound (engine : Engine V) (zeek : Zeekstd) (call : SaveCall V) (files : Files)
    (shelf : Shelf) (items : List Bytes) : Prop :=
  ∀ path spec boundary, Save.checks call files = .ok (path, spec) → spec.Names boundary →
    call.Fits engine zeek files shelf items path spec boundary

/-- What is saved under a path once the items of a call are: they replace what there was, or follow
it. A file of no items cannot be opened. -/
def SaveCall.entry (call : SaveCall V) (shelf : Shelf) (items : List Bytes) (path : String)
    (spec : FinderSpec) : Option Saved :=
  if call.flags.append then
    (shelf path).map fun saved => { saved with items := saved.items ++ items }
  else if items = [] then none
  else some { spec := spec, items := items }

open Classical in
/-- What is known to be saved once a call ended that is said to save the items. Where it does not
keep to what it has to, nothing is known of what it wrote. -/
noncomputable def Shelf.after (engine : Engine V) (zeek : Zeekstd) (shelf : Shelf)
    (call : SaveCall V) (files : Files) (items : List Bytes) (ended : Ended) : Shelf :=
  match ended, Save.checks call files with
  | .done, .ok (path, spec) =>
      Function.update shelf path <|
        if call.Sound engine zeek files shelf items then call.entry shelf items path spec else none
  | .broken, .ok (path, _) => Function.update shelf path none
  | _, _ => shelf

section Call

variable {call : SaveCall V} {files files' : Files} {shelf : Shelf} {overflowChecks : Bool}
  {fuel : Nat} {result : Except ShellError Unit} {path : String} {spec : FinderSpec}
  {records : Bytes}

theorem Save.checks_finder (h : Save.checks call files = .ok (path, spec)) :
    finder call.flags.finder = .ok spec := by
  rw [checks] at h
  split at h
  · cases h
  · split at h
    · cases h
    · next hfinder =>
        split_ifs at h
        cases hdest : checkDestination _ call.flags files with
        | error e =>
            rw [hdest] at h
            cases h
        | ok u =>
            rw [hdest] at h
            cases h
            exact hfinder

/-- A call that stops before its records are staged changes nothing. -/
theorem Save.run_cases
    (hrun : Save.run engine zeek overflowChecks call files fuel = some (result, files')) :
    (files' = files ∧ (∃ e, result = .error e) ∧ ¬ call.FailsLate engine zeek files) ∨
      ∃ path spec records, checks call files = .ok (path, spec) ∧
        stage engine call path spec = .ok records ∧
        deliverTo zeek overflowChecks spec call.flags path records call.steps files fuel =
          some (result, files') := by
  rw [run] at hrun
  cases hchecks : checks call files with
  | error e =>
      rw [hchecks] at hrun
      cases hrun
      refine Or.inl ⟨rfl, ⟨e, rfl⟩, ?_⟩
      rintro ⟨path, spec, records, hok, -⟩
      rw [hchecks] at hok
      cases hok
  | ok checked =>
      obtain ⟨path, spec⟩ := checked
      simp only [hchecks] at hrun
      cases hstage : stage engine call path spec with
      | error e =>
          rw [hstage] at hrun
          cases hrun
          refine Or.inl ⟨rfl, ⟨e, rfl⟩, ?_⟩
          rintro ⟨path', spec', records, hok, hstaged, -⟩
          rw [hchecks] at hok
          cases hok
          rw [hstage] at hstaged
          cases hstaged
      | ok records =>
          rw [hstage] at hrun
          exact Or.inr ⟨path, spec, records, rfl, hstage, hrun⟩

/-- What is staged is the items. -/
theorem Save.stage_ok (hstage : Save.stage engine call path spec = .ok records)
    (hnames : spec.Names boundary)
    (hholds : Encode.Holds engine (Save.formatOf path call.flags) spec.separator items call.input)
    (hfits : ∀ item ∈ items, boundary.Fits item) :
    records = encoded boundary.bytes items := by
  rw [stage] at hstage
  rw [hnames.separator] at hstage hholds
  split at hstage
  · cases hstage
  · next spool hrecords =>
      split_ifs at hstage
      cases hstage
      exact Encode.records_written (fun item hmem => (hfits item hmem).terminated) rfl hholds
        hrecords

theorem Save.appendCount_ok {flags : SaveFlags} {recordsPerFrame : Option Nat} {trust : Bool}
    (h : Save.appendCount flags = .ok (recordsPerFrame, trust)) :
    recordsPerFrame = flags.recordsPerFrame.map asUsize := by
  rw [appendCount] at h
  cases hcount : flags.recordsPerFrame with
  | none =>
      simp only [hcount] at h
      split_ifs at h
      cases h
      rfl
  | some n =>
      simp only [hcount] at h
      split_ifs at h
      cases h
      rfl

namespace Shelf.Kept

/-- A call that fails leaves its file what it was, or unknown. -/
theorem failed (h : shelf.Kept zeek files) (hchecks : Save.checks call files = .ok (path, spec))
    (hsame : files.SameBut path files')
    (hkeeps : ¬ call.FailsLate engine zeek files → files'.read path = files.read path)
    (e : ShellError) :
    (shelf.after engine zeek call files items (call.ended engine zeek files (.error e))).Kept zeek
      files' := by
  rw [SaveCall.ended]
  split_ifs with hlate
  · simp only [Shelf.after, hchecks]
    exact h.forget hsame
  · exact h.of_read hsame (hkeeps hlate)

/-- An append to a file that holds what was saved. -/
theorem append (h : shelf.Kept zeek files) (hchecks : Save.checks call files = .ok (path, spec))
    (hstage : Save.stage engine call path spec = .ok records)
    (happend : call.flags.append = true)
    (hrun : Save.append zeek spec call.flags path records call.steps files = (result, files')) :
    (shelf.after engine zeek call files items (call.ended engine zeek files result)).Kept zeek
      files' := by
  rcases Save.append_cases h.wellFormed
    (fun named => finder_names (Save.checks_finder hchecks)) hrun with ⟨rfl, e, rfl⟩ |
    ⟨hsame, boundary, bytes, recordsPerFrame, trust, hnames, hread, hcount, hran, hread'⟩
  · exact h.failed hchecks (.refl h.wellFormed path) (fun _ => rfl) e
  cases hedit : ((LogEdit.append (Save.appendCall boundary call.flags records call.steps
      recordsPerFrame trust)).run zeek boundary (call.steps.access.file bytes)).1 with
  | error e =>
      rw [hedit] at hran
      rw [hran]
      refine h.failed hchecks hsame (fun hnot => ?_) _
      have hnotLate : ¬ (LogEdit.append (Save.appendCall boundary call.flags records call.steps
          recordsPerFrame trust)).FailsLate zeek boundary (call.steps.access.file bytes) := by
        intro hlate
        apply hnot
        refine ⟨path, spec, _, hchecks, hstage, ?_⟩
        rw [if_pos happend]
        exact ⟨boundary, bytes, recordsPerFrame, trust, hnames, hread, hcount, hlate⟩
      have hgives : (LogEdit.append (Save.appendCall boundary call.flags records call.steps
          recordsPerFrame trust)).Gives boundary := Boundary.appendCall_gives
      rw [hread', LogEdit.keeps hgives hnotLate hedit, hread]
      rfl
  | ok done =>
      rw [hedit] at hran
      rw [hran]
      simp only [SaveCall.ended, Shelf.after, hchecks, Except.mapError]
      refine h.update hsame fun saved' hsaved' => ?_
      split_ifs at hsaved' with hsound
      rw [SaveCall.entry, if_pos happend] at hsaved'
      obtain ⟨saved, hsaved, rfl⟩ := Option.map_eq_some_iff.mp hsaved'
      obtain ⟨hholds, hfits, hto, -⟩ := hsound path spec boundary hchecks hnames
      obtain rfl := Save.stage_ok hstage hnames hholds hfits
      obtain ⟨hspec, hfile⟩ := hto happend
      obtain ⟨boundary', bytes', hnames', hread'', hbefore⟩ := h.holds path saved hsaved
      obtain rfl := hspec saved hsaved
      obtain rfl := hnames.unique hnames'
      rw [hread, Option.some.injEq] at hread''
      subst hread''
      obtain ⟨hfills, hper⟩ := hfile bytes hread
      have hstated : ∀ n, HoldsPerFrame zeek boundary n bytes →
          recordsPerFrame = none ∨ recordsPerFrame = some n := by
        intro n hn
        rw [Save.appendCount_ok hcount]
        cases hgiven : call.flags.recordsPerFrame with
        | none => exact Or.inl rfl
        | some count => exact Or.inr (congrArg some (hper n hn count hgiven))
      exact ⟨boundary, _, hnames, hread', append_holds hnames.whole hfits hbefore
        Boundary.appendCall_gives rfl hstated hfills hedit⟩

/-- A compression under a path that holds something else or nothing. -/
theorem compress (h : shelf.Kept zeek files) (hchecks : Save.checks call files = .ok (path, spec))
    (hstage : Save.stage engine call path spec = .ok records)
    (happend : call.flags.append = false) {finished : Finished}
    (hrun : saveCompress zeek overflowChecks (Save.compressArgs spec call.flags) path records
      call.steps.toFileSteps files fuel = some finished) :
    (shelf.after engine zeek call files items (call.ended engine zeek files
      ((finished.result.map fun _ => ()).mapError (Save.compressFailed spec path call.steps)))).Kept
        zeek finished.files := by
  obtain ⟨hsame, hcreates⟩ := saveCompress_sameBut h.wellFormed hrun
  cases hresult : finished.result with
  | error e =>
      refine h.failed hchecks hsame (fun hnot => ?_) _
      have hclosed : call.steps.creates = false := by
        by_contra hopen
        apply hnot
        refine ⟨path, spec, records, hchecks, hstage, ?_⟩
        rw [happend]
        simpa using hopen
      rw [(hcreates hclosed).1]
  | ok made =>
      simp only [Except.map, Except.mapError, SaveCall.ended, Shelf.after, hchecks]
      refine h.update hsame fun saved hsaved => ?_
      split_ifs at hsaved with hsound
      rw [SaveCall.entry, if_neg (by rw [happend]; decide)] at hsaved
      split_ifs at hsaved with hempty
      cases hsaved
      obtain ⟨named, hnamed⟩ : ∃ named, fromSpec spec.finder spec.arg = .ok named := by
        cases hspec : fromSpec spec.finder spec.arg with
        | ok named => exact ⟨named, rfl⟩
        | error e =>
            have hargs : (Save.compressArgs spec call.flags).boundary = .error e := hspec
            obtain ⟨e', he'⟩ := saveCompress_refused hargs hrun
            rw [hresult] at he'
            cases he'
      obtain ⟨boundary, hchecked, hnames⟩ := finder_names (Save.checks_finder hchecks) hnamed
      obtain ⟨hholds, hfits, -, hto⟩ := hsound path spec boundary hchecks hnames
      obtain rfl := Save.stage_ok hstage hnames hholds hfits
      obtain ⟨hlength, harrives⟩ := hto happend
      have harrives' : (Save.compressArgs spec call.flags).recordsPerFrame.isSome = true ∨
          call.steps.Arrives := by
        rw [Save.compressArgs, Option.isSome_map]
        exact harrives
      obtain ⟨hread, hitems⟩ := saveCompress_holds hchecked hnames.whole hempty hfits hlength
        hnamed harrives' h.wellFormed hrun hresult
      exact ⟨boundary, made, hnames, hread, hitems⟩

/-- Every call leaves files that hold what is known to be saved behind it. -/
theorem save (h : shelf.Kept zeek files) (items : List Bytes)
    (hrun : Save.run engine zeek overflowChecks call files fuel = some (result, files')) :
    (shelf.after engine zeek call files items (call.ended engine zeek files result)).Kept zeek
      files' := by
  rcases Save.run_cases hrun with ⟨rfl, ⟨e, rfl⟩, hnot⟩ |
    ⟨path, spec, records, hchecks, hstage, hdeliver⟩
  · rw [SaveCall.ended, if_neg hnot]
    exact h
  · rw [Save.deliverTo] at hdeliver
    cases happend : call.flags.append with
    | true =>
        rw [happend] at hdeliver
        exact h.append hchecks hstage happend (Option.some.inj hdeliver)
    | false =>
        rw [happend] at hdeliver
        simp only [Bool.false_eq_true, if_false] at hdeliver
        obtain ⟨finished, hfinished, hends⟩ := Option.map_eq_some_iff.mp hdeliver
        obtain ⟨rfl, rfl⟩ := Prod.mk.inj hends
        exact h.compress hchecks hstage happend hfinished

end Shelf.Kept

end Call

end SeekZstdSep
