/-
Module: SeekZstdSep.Proofs.Commands
Purpose: What a command of the tool makes of files that something was saved in: a truncation keeps
  the first items, an append puts its own or a range of another file's behind them, a copy of a
  range holds that range. One that is refused changes nothing, and one that fails once it writes
  loses what it writes and no other file.
Trusted boundary: the library, as `Zeekstd` has it, and the file system, as `Core.Cli` has it
Main exports: HoldsItems.truncate, HoldsItems.appendFrames, HoldsItems.range, updateFile_cases,
  Command.FailsLate, Command.Sound, Shelf.Kept.command
-/
import SeekZstdSep.Proofs.Cli
import SeekZstdSep.Proofs.Save

namespace SeekZstdSep

open Lib

variable {zeek : Zeekstd} {boundary : Boundary} {n : Nat} {items before : List Bytes}

/-! ### Files of items -/

namespace HoldsItems

variable {bytes : Bytes} {access : Access}

/-- The file while a call has it open. -/
theorem archive (h : HoldsItems zeek boundary items bytes) (access : Access) :
    ∃ (now : Archive zeek) (n : Nat), access.file bytes = now.file ∧ now.Counted boundary n ∧
      (now.log boundary n).records = items.map (· ++ boundary.bytes) ∧
      (now.log boundary n).rest = [] := by
  obtain ⟨archive, n, harchive, hcounted, hrecords, hrest⟩ := h
  obtain ⟨now, hnow, hcontents⟩ :=
    Archive.exists_of_bytes (f := access.file bytes) harchive.symm
  rw [← Archive.log_congr hcontents] at hrecords hrest
  exact ⟨now, n, hnow, hcounted.of_contents hcontents, hrecords, hrest⟩

/-- The records of a range are its items. -/
theorem records_upTo {records : List Bytes} (hrecords : records = items.map (· ++ boundary.bytes))
    (fromIdx : Nat) (cnt : Option Nat) :
    RecordLog.upTo cnt (records.drop fromIdx) =
      (RecordLog.upTo cnt (items.drop fromIdx)).map (· ++ boundary.bytes) := by
  rw [hrecords]
  cases cnt with
  | none => rw [RecordLog.upTo, RecordLog.upTo, List.map_drop]
  | some c => rw [RecordLog.upTo, RecordLog.upTo, List.map_take, List.map_drop]

/-- A truncation keeps the first items. -/
theorem truncate (h : HoldsItems zeek boundary items bytes) {recordLen : Nat} {f' : File}
    (hok : truncateRecords zeek (access.file bytes) recordLen boundary.find = (.ok (), f')) :
    HoldsItems zeek boundary (items.take recordLen) f'.bytes := by
  obtain ⟨now, n, hnow, hcounted, hrecords, hrest⟩ := h.archive access
  rw [hnow] at hok
  obtain ⟨after, rfl, hafter, hlog⟩ := hcounted.truncate_log hok
  obtain ⟨-, -, hwhole⟩ := hcounted.truncate_within hok
  refine ⟨after, n, rfl, hafter, ?_, ?_⟩
  · rw [hlog, RecordLog.truncate, RecordLog.slice, Archive.log_perFrame]
    simp only [Nat.mul_zero, List.drop_zero, Nat.sub_zero, Nat.mul_div_cancel' hwhole, hrecords,
      List.map_take]
  · rw [hlog, RecordLog.truncate, RecordLog.slice]
    simp only [hrest, ite_self]

/-- An append of frames puts the items of the range behind the items. -/
theorem appendFrames (h : HoldsItems zeek boundary before bytes) {more : Bytes}
    (hmore : HoldsItems zeek boundary items more) {access inAccess : Access} {fromIdx : Nat}
    {cnt : Option Nat} {check : RangeCheck} {f' : File}
    (hok : appendFramesWith zeek (access.file bytes) (inAccess.file more) fromIdx cnt boundary.find
      check = (.ok (), f')) :
    HoldsItems zeek boundary (before ++ RecordLog.upTo cnt (items.drop fromIdx)) f'.bytes := by
  obtain ⟨now, n, hnow, hcounted, hrecords, hrest⟩ := h.archive access
  obtain ⟨source, m, hsource, huniform, hinRecords, hinRest⟩ := hmore.archive inAccess
  rw [hnow, hsource] at hok
  obtain ⟨⟨after, rfl, hafter, hlog⟩, hrange⟩ := hcounted.appendFrames_log huniform.uniform hok
  refine ⟨after, n, rfl, hafter, ?_, ?_⟩
  · rw [hlog, RecordLog.join, List.map_append]
    simp only [hrecords, hrange]
    exact congrArg _ (records_upTo hinRecords fromIdx cnt)
  · rw [hlog, RecordLog.join]
    exact RecordLog.rest_range hinRest fromIdx cnt

/-- A range that is accepted is a file of its items. -/
theorem range {archive : Archive zeek} (hcounted : archive.Counted boundary n)
    (hrecords : (archive.log boundary n).records = items.map (· ++ boundary.bytes))
    (hrest : (archive.log boundary n).rest = []) {fromIdx k j : Nat} {cnt : Option Nat}
    {check : SeparatorCheck}
    (hok : copyRangeChecks zeek archive.file fromIdx cnt boundary.find .required check =
      .ok (tableOf archive.frames, k, j)) :
    HoldsItems zeek boundary (RecordLog.upTo cnt (items.drop fromIdx))
      (archive.range k j).file.bytes := by
  obtain ⟨hafter, hlog, hrange⟩ := hcounted.range_log hok
  refine ⟨_, n, rfl, hafter, ?_, ?_⟩
  · rw [hlog, hrange]
    exact records_upTo hrecords fromIdx cnt
  · rw [hlog]
    exact RecordLog.rest_range hrest fromIdx cnt

end HoldsItems

/-! ### An update of a file -/

/-- How the file that is edited or copied answers. -/
def CliSteps.access (steps : CliSteps) : Access where
  reads := steps.reads
  schedule := steps.fileSchedule

section Files

variable {steps : CliSteps} {files files' : Files} {path : String} {copy : Bool}
  {update : File → Except Error Unit × File} {result : Except Error Unit}

theorem CliSteps.file_eq {handle : Nat} :
    steps.file files handle = steps.access.file (files.content handle) := rfl

/-- A copy took the place of the file, and the lock could not be removed behind that. -/
def ReplacedLate (steps : CliSteps) (path : String) (update : File → Except Error Unit × File)
    (files : Files) : Prop :=
  steps.copy.closes = false ∧ ∃ bytes, files.read path = some bytes ∧
    (update (steps.access.file bytes)).1 = .ok ()

/-- The file of the path is what the update made of it, for an `Ok` and in place of what it was. -/
structure Updated (steps : CliSteps) (path : String) (copy : Bool)
    (update : File → Except Error Unit × File) (files : Files) (result : Except Error Unit)
    (files' : Files) : Prop where
  sameBut : files.SameBut path files'
  made : ∃ bytes, files.read path = some bytes ∧
    files'.read path = some (update (steps.access.file bytes)).2.bytes ∧
    (copy = false → result = (update (steps.access.file bytes)).1) ∧
    (copy = true → (update (steps.access.file bytes)).1 = .ok () ∧
      (steps.copy.closes = true → result = .ok ()))

/-- An update is refused and changes nothing, or it is made. A copy that is updated takes the place
of the file where that succeeds. -/
theorem updateFile_cases (hwell : files.WellFormed)
    (h : updateFile steps copy path update files = (result, files')) :
    (files' = files ∧ ∃ e, result = .error e) ∨
      Updated steps path copy update files result files' := by
  have hrefused : ∀ {e : Error}, (Except.error e, files) = (result, files') →
      files' = files ∧ ∃ e, result = .error e := by
    intro e heq
    cases heq
    exact ⟨rfl, e, rfl⟩
  rw [updateFile] at h
  cases copy with
  | false =>
      simp only [Bool.false_eq_true, if_false, openFile] at h
      cases hentry : if steps.opens then files.entry path else none with
      | none =>
          rw [hentry] at h
          exact Or.inl (hrefused h)
      | some handle =>
          rw [hentry] at h
          have hentry' : files.entry path = some handle := by
            split_ifs at hentry
            exact hentry
          obtain ⟨rfl, rfl⟩ := Prod.mk.inj h
          exact Or.inr ⟨.write_of_entry hwell hentry' _, files.content handle,
            Directory.read_of_entry hentry', Directory.read_write_self hentry' _, fun _ => rfl,
            fun hcopy => by cases hcopy⟩
  | true =>
      simp only [if_true] at h
      cases hentry : files.entry path with
      | none =>
          rw [hentry] at h
          exact Or.inl (hrefused h)
      | some handle =>
          simp only [hentry, CliSteps.file_eq] at h
          cases hcopies : steps.copy.copies with
          | false =>
              rw [hcopies] at h
              exact Or.inl (hrefused h)
          | true =>
              simp only [hcopies, if_true] at h
              generalize hupdate : update (steps.access.file (files.content handle)) = updated at h
              obtain ⟨answer, f⟩ := updated
              cases answer with
              | error e => exact Or.inl (hrefused h)
              | ok u =>
                  simp only at h
                  cases hreplaces : steps.copy.replaces with
                  | false =>
                      rw [hreplaces] at h
                      exact Or.inl (hrefused h)
                  | true =>
                      simp only [hreplaces, if_true] at h
                      obtain ⟨rfl, rfl⟩ := Prod.mk.inj h
                      obtain ⟨bare, hbare⟩ := Directory.remove_of_entry hentry
                      have hsame := Directory.SameBut.remove hwell hbare
                      rw [hbare, Option.getD_some]
                      refine Or.inr ⟨hsame.trans (.put hsame.wellFormed path () f.bytes),
                        files.content handle, Directory.read_of_entry hentry, ?_,
                        fun hcopy => (by cases hcopy), fun _ => ?_⟩
                      · rw [hupdate]
                        exact Directory.read_put _ _ _ _
                      · rw [hupdate]
                        exact ⟨rfl, fun hcloses => if_pos hcloses⟩

end Files

/-! ### What a command asks for -/

/-- The flags name the boundary. -/
def BoundaryArgs.Names (args : BoundaryArgs) (boundary : Boundary) : Prop :=
  ∃ named, args.boundary = .ok named ∧ named.checked = .ok boundary

/-- How the input of an append answers. -/
def CliSteps.inputAccess (steps : CliSteps) : Access where
  reads := steps.inputReads
  schedule := steps.inputSchedule

namespace AppendArgs

variable {args : AppendArgs} {steps : CliSteps} {files : Files} {f : File}

/-- The append of records that the library is asked for. -/
def call (args : AppendArgs) (boundary : Boundary) (steps : CliSteps) (opened : Option Bytes) :
    AppendCall :=
  boundary.appendCall (recordsInput steps opened)
    (if args.insertSeparator then .insert else .refuse) (args.level.getD 0) args.recordsPerFrame
    args.trustRecordsPerFrame

/-- How much of a seekable input is looked through first. -/
def inputCheck (args : AppendArgs) : RangeCheck :=
  if args.checkInputFrames then .everyFrame else .firstFrame

/-- The append fails behind the point where it begins to write. -/
def FailsLate (zeek : Zeekstd) (args : AppendArgs) (steps : CliSteps) (files : Files) (f : File) :
    Prop :=
  ∃ boundary opened, args.boundary.Names boundary ∧ args.opened steps files = .ok opened ∧
    match args.inputSeekable, opened with
    | true, some bytes =>
        FramesFailLate zeek f (steps.inputAccess.file bytes) (args.inputFrom.getD 0) args.inputCnt
          boundary.find args.inputCheck
    | _, _ => (LogEdit.append (args.call boundary steps opened)).FailsLate zeek boundary f

/-- An append is refused before it reads the file, or is one of frames or of records. -/
theorem update_cases (zeek : Zeekstd) (args : AppendArgs) (steps : CliSteps) (files : Files)
    (f : File) :
    (∃ e, args.update zeek steps files f = (.error e, f)) ∨
      ∃ boundary opened, args.boundary.Names boundary ∧ args.opened steps files = .ok opened ∧
        ((∃ bytes, args.inputSeekable = true ∧ opened = some bytes ∧
            args.update zeek steps files f = appendFramesWith zeek f
              (steps.inputAccess.file bytes) (args.inputFrom.getD 0) args.inputCnt boundary.find
              args.inputCheck) ∨
          (args.inputSeekable = false ∧ args.update zeek steps files f =
            (LogEdit.append (args.call boundary steps opened)).run zeek boundary f)) := by
  rw [update]
  cases hopened : args.opened steps files with
  | error e => exact Or.inl ⟨e, rfl⟩
  | ok opened =>
      simp only
      by_cases hinsert : args.insertSeparator ∧ args.boundary.isSeparator = false
      · rw [if_pos hinsert]
        exact Or.inl ⟨_, rfl⟩
      rw [if_neg hinsert]
      cases hnamed : args.boundary.boundary with
      | error e => exact Or.inl ⟨e, rfl⟩
      | ok named =>
          simp only
          cases hseekable : args.inputSeekable with
          | true =>
              have hinput := args.seekable_input hseekable
              obtain ⟨bytes, rfl⟩ : ∃ bytes, opened = some bytes := by
                rw [AppendArgs.opened] at hopened
                cases hnone : args.input with
                | none => exact absurd hnone hinput
                | some path =>
                    rw [hnone] at hopened
                    simp only at hopened
                    split at hopened
                    · cases hopened
                    · cases hopened
                      exact ⟨_, rfl⟩
              simp only
              cases hchecked : named.checked with
              | error e => exact Or.inl ⟨e, rfl⟩
              | ok boundary =>
                  exact Or.inr ⟨boundary, some bytes, ⟨named, hnamed, hchecked⟩, rfl,
                    Or.inl ⟨bytes, trivial, rfl, rfl⟩⟩
          | false =>
              simp only
              cases hchecked : named.checked with
              | error e =>
                  left
                  cases named with
                  | finder find => cases hchecked
                  | separator bytes =>
                      rw [NamedBoundary.checked] at hchecked
                      split at hchecked
                      · next hempty =>
                          subst hempty
                          exact ⟨.emptySeparator, rfl⟩
                      · cases hchecked
              | ok boundary =>
                  refine Or.inr ⟨boundary, opened, ⟨named, hnamed, hchecked⟩, rfl,
                    Or.inr ⟨trivial, ?_⟩⟩
                  rw [NamedBoundary.append_checked hchecked]
                  rfl

/-- An append that fails leaves the file what it was, unless it fails late. -/
theorem update_keeps {e : Error} (herror : (args.update zeek steps files f).1 = .error e)
    (hlate : ¬ args.FailsLate zeek steps files f) :
    (args.update zeek steps files f).2.bytes = f.bytes := by
  rcases args.update_cases zeek steps files f with ⟨e', hrefused⟩ |
    ⟨boundary, opened, hnames, hopened, ⟨bytes, hseekable, rfl, hframes⟩ | ⟨hraw, hrecords⟩⟩
  · rw [hrefused]
  · rw [hframes] at herror ⊢
    rw [appendFramesWith_error (fun hfails => hlate ⟨boundary, some bytes, hnames, hopened, by
      simpa only [hseekable] using hfails⟩) herror]
  · rw [hrecords] at herror ⊢
    refine LogEdit.keeps (boundary.appendCall_gives) (fun hfails => hlate ⟨boundary, opened,
      hnames, hopened, ?_⟩) herror
    simpa only [hraw] using hfails

end AppendArgs

/-! ### What is saved behind a command -/

open Classical in
/-- How a command ends that fails `late`, if it fails. -/
noncomputable def endedAs (late : Prop) : Except Error Unit → Ended
  | .ok _ => .done
  | .error _ => if late then .broken else .refused

namespace Command

variable (steps : CliSteps) (files : Files)

/-- The path a command writes to. -/
def target : Command → Option String
  | .compress _ args => args.outputPath
  | .truncate args => some args.zstfile
  | .append args => some args.zstfile
  | .copyRange args => if args.output = "-" then none else some args.output

/-- The path a command is told to remove. -/
def removes : Command → Option String
  | .compress _ args => if args.rm then args.input else none
  | _ => none

/-- What is saved in what a command wrote, where `given` is what it was given to write. -/
def entry (shelf : Shelf) (given : Saved) : Command → Option Saved
  | .compress _ _ => if given.items = [] then none else some given
  | .truncate args =>
      (shelf args.zstfile).map fun saved => { saved with items := saved.items.take args.records }
  | .append args =>
      (shelf args.zstfile).bind fun saved =>
        if args.inputSeekable then
          (args.input.bind shelf).map fun more =>
            { saved with
              items := saved.items ++
                RecordLog.upTo args.inputCnt (more.items.drop (args.inputFrom.getD 0)) }
        else some { saved with items := saved.items ++ given.items }
  | .copyRange args =>
      (shelf args.input).map fun saved =>
        { saved with items := RecordLog.upTo args.cnt (saved.items.drop args.fromIdx) }

/-- A command fails behind the point where it begins to write. -/
def FailsLate (zeek : Zeekstd) : Command → Prop
  | .compress boundary args =>
      (∃ named, boundary.boundary = .ok named) ∧
        (∃ input, openInput steps.toFileSteps files steps.stdin args.input = .ok input) ∧
        steps.creates = true
  | .truncate args => args.copy = true ∧ ReplacedLate steps args.zstfile (args.update zeek) files
  | .append args =>
      if args.copy then ReplacedLate steps args.zstfile (args.update zeek steps files) files
      else ∃ bytes, files.read args.zstfile = some bytes ∧
        args.FailsLate zeek steps files (steps.access.file bytes)
  | .copyRange args =>
      ∃ bytes boundary range, files.read args.input = some bytes ∧ args.boundary.Names boundary ∧
        copyRangeChecks zeek (steps.access.file bytes) args.fromIdx args.cnt boundary.find
          (if args.noAlign then .notRequired else .required)
          (if args.checkUniform then .twoFrames else .firstFrame) = .ok range

/-- What a command keeps to that is given some items to write. A file is read by the boundary that
it was saved by, and is not written by what reads it. What is written is one record an item; an
append states no other count than the file's, and a decoder hands out a frame in one read. What is
compressed is not more than a frame holds, and the delivery does not lose it. A copy of a range is
of whole frames. -/
def Sound (zeek : Zeekstd) (shelf : Shelf) (given : Saved) : Command → Prop
  | .compress names args =>
      (∀ path, args.outputPath = some path → args.input ≠ some path) ∧
        args.keepCntOfSeparatorsInFrame = true ∧
        (args.cntOfSeparatorPerFrame.isSome = true ∨ steps.Arrives) ∧
        ∀ boundary, names.Names boundary →
          given.spec.Names boundary ∧ (∀ item ∈ given.items, boundary.Fits item) ∧
            (match args.input with
              | none => steps.stdin
              | some path => (files.read path).getD []) = encoded boundary.bytes given.items ∧
            (encoded boundary.bytes given.items).length ≤ zeek.frameLimit
  | .truncate args =>
      ∀ boundary, args.boundary.Names boundary → ∀ saved, shelf args.zstfile = some saved →
        saved.spec.Names boundary
  | .append args =>
      args.input ≠ some args.zstfile ∧ ∀ boundary, args.boundary.Names boundary →
        (∀ saved, shelf args.zstfile = some saved → saved.spec.Names boundary) ∧
          if args.inputSeekable then
            ∀ more, args.input.bind shelf = some more → more.spec.Names boundary
          else
            (∀ item ∈ given.items, boundary.Fits item) ∧
              (∀ opened, args.opened steps files = .ok opened →
                opened.getD steps.stdin = encoded boundary.bytes given.items) ∧
              ∀ bytes, files.read args.zstfile = some bytes →
                (steps.access.file bytes).Fills zeek ∧
                  ∀ n, HoldsPerFrame zeek boundary n bytes →
                    args.recordsPerFrame = none ∨ args.recordsPerFrame = some n
  | .copyRange args =>
      args.noAlign = false ∧ args.input ≠ args.output ∧
        ∀ boundary, args.boundary.Names boundary → ∀ saved, shelf args.input = some saved →
          saved.spec.Names boundary

open Classical in
/-- What is known to be saved in what a command wrote that is said to write what is given. Where it
does not keep to what it has to, that is nothing. -/
noncomputable def wrote (zeek : Zeekstd) (shelf : Shelf) (given : Saved) (command : Command) :
    Option Saved :=
  if command.Sound steps files zeek shelf given then command.entry shelf given else none

variable {steps files}

theorem wrote_eq_some {zeek : Zeekstd} {shelf : Shelf} {given saved : Saved} {command : Command}
    (h : command.wrote steps files zeek shelf given = some saved) :
    command.Sound steps files zeek shelf given ∧ command.entry shelf given = some saved := by
  rw [wrote] at h
  split_ifs at h with hsound
  exact ⟨hsound, h⟩

theorem wrote_of_sound {zeek : Zeekstd} {shelf : Shelf} {given : Saved} {command : Command}
    (h : command.Sound steps files zeek shelf given) :
    command.wrote steps files zeek shelf given = command.entry shelf given := if_pos h

end Command

/-- What is known once a command ended that writes to a path. -/
def Shelf.settled (shelf : Shelf) (path : String) (entry : Option Saved) : Ended → Shelf
  | .done => Function.update shelf path entry
  | .refused => shelf
  | .broken => Function.update shelf path none

/-- What is known once a command ended, where `entry` is what is then known to be saved in what it
wrote. What it removed is gone. -/
def Shelf.behindCommand (shelf : Shelf) (command : Command) (entry : Option Saved)
    (ended : Ended) : Shelf :=
  let written :=
    match command.target with
    | none => shelf
    | some path => shelf.settled path entry ended
  match command.removes, ended with
  | some path, .done => Function.update written path none
  | _, _ => written

namespace Shelf.Kept

variable {shelf : Shelf} {files files' : Files} {path : String} {steps : CliSteps} {given : Saved}
  {result : Except Error Unit}

/-- A command that is refused, or fails and was to write to a path. -/
theorem refused (h : shelf.Kept zeek files) (path : String) (entry : Option Saved) (late : Prop)
    (e : Error) : (shelf.settled path entry (endedAs late (.error e))).Kept zeek files := by
  rw [endedAs]
  split_ifs
  · exact h.forget (.refl h.wellFormed path)
  · exact h

/-- An update of a file leaves it what is known, or loses what was known of it. -/
theorem edited (h : shelf.Kept zeek files) {copy : Bool}
    {update : File → Except Error Unit × File} {entry : Option Saved} {late : Prop}
    (hrun : updateFile steps copy path update files = (result, files'))
    (hlate : ¬ late → ¬ (copy = true ∧ ReplacedLate steps path update files) ∧
      ∀ bytes e, files.read path = some bytes → copy = false →
        (update (steps.access.file bytes)).1 = .error e →
          (update (steps.access.file bytes)).2.bytes = bytes)
    (hentry : ∀ bytes, files.read path = some bytes →
      (update (steps.access.file bytes)).1 = .ok () → ∀ saved, entry = some saved →
        ∃ boundary, saved.spec.Names boundary ∧ HoldsItems zeek boundary saved.items
          (update (steps.access.file bytes)).2.bytes) :
    (shelf.settled path entry (endedAs late result)).Kept zeek files' := by
  rcases updateFile_cases h.wellFormed hrun with ⟨rfl, e, rfl⟩ |
    ⟨hsame, bytes, hread, hread', hplace, hcopy⟩
  · exact h.refused path entry late e
  cases result with
  | ok u =>
      refine h.update hsame fun saved hsaved => ?_
      have hok : (update (steps.access.file bytes)).1 = .ok () := by
        cases copy with
        | false => exact (hplace rfl).symm
        | true => exact (hcopy rfl).1
      obtain ⟨boundary, hnames, hholds⟩ := hentry bytes hread hok saved hsaved
      exact ⟨boundary, _, hnames, hread', hholds⟩
  | error e =>
      rw [endedAs]
      split_ifs with hfails
      · exact h.forget hsame
      · obtain ⟨hreplaced, hkeeps⟩ := hlate hfails
        cases copy with
        | false =>
            apply h.of_read hsame
            rw [hread', hread, hkeeps bytes e hread rfl (hplace rfl).symm]
        | true =>
            obtain ⟨hok, hcloses⟩ := hcopy rfl
            exfalso
            apply hreplaced
            refine ⟨rfl, ?_, bytes, hread, hok⟩
            by_contra hopen
            cases hcloses (by simpa using hopen)

/-- A truncation of a file. -/
theorem truncate (h : shelf.Kept zeek files) {args : TruncateArgs}
    (hrun : runTruncate zeek args steps files = (result, files')) :
    (shelf.settled args.zstfile ((Command.truncate args).wrote steps files zeek shelf given)
      (endedAs ((Command.truncate args).FailsLate steps files zeek) result)).Kept zeek files' := by
  -- a truncation goes by the boundary, or is refused
  have hcases : ∀ f, (∃ e, args.update zeek f = (.error e, f)) ∨ ∃ boundary,
      args.boundary.Names boundary ∧
        args.update zeek f = truncateRecords zeek f args.records boundary.find := by
    intro f
    rw [TruncateArgs.update]
    cases hnamed : args.boundary.boundary with
    | error e => exact Or.inl ⟨e, rfl⟩
    | ok named =>
        cases hchecked : named.checked with
        | error e =>
            simp only [hchecked]
            exact Or.inl ⟨e, rfl⟩
        | ok boundary =>
            simp only [hchecked]
            exact Or.inr ⟨boundary, ⟨named, hnamed, hchecked⟩, rfl⟩
  refine h.edited hrun (fun hlate => ⟨hlate, ?_⟩) ?_
  · intro bytes e hread hplace herror
    rcases hcases (steps.access.file bytes) with ⟨e', hrefused⟩ | ⟨boundary, -, hedit⟩
    · rw [hrefused]
      rfl
    · rw [hedit] at herror ⊢
      rw [truncateRecords_error herror]
      rfl
  · intro bytes hread hok saved hsaved
    rcases hcases (steps.access.file bytes) with ⟨e', hrefused⟩ | ⟨boundary, hnames, hedit⟩
    · rw [hrefused] at hok
      cases hok
    · obtain ⟨hsound, hentry⟩ := Command.wrote_eq_some hsaved
      obtain ⟨old, hold, rfl⟩ := Option.map_eq_some_iff.mp hentry
      obtain ⟨boundary', bytes', hnames', hread', hholds⟩ := h.holds _ old hold
      obtain rfl := hnames'.unique (hsound boundary hnames old hold)
      rw [hread, Option.some.injEq] at hread'
      subst hread'
      rw [hedit] at hok ⊢
      exact ⟨boundary', hnames', hholds.truncate (Prod.ext hok rfl)⟩

/-- An append to a file, of records or of the frames of another one. -/
theorem appendCommand (h : shelf.Kept zeek files) {args : AppendArgs}
    (hrun : runAppend zeek args steps files = (result, files')) :
    (shelf.settled args.zstfile ((Command.append args).wrote steps files zeek shelf given)
      (endedAs ((Command.append args).FailsLate steps files zeek) result)).Kept zeek files' := by
  refine h.edited hrun (fun hlate => ⟨?_, ?_⟩) ?_
  · rintro ⟨hcopy, hreplaced⟩
    apply hlate
    rw [Command.FailsLate, if_pos hcopy]
    exact hreplaced
  · intro bytes e hread hplace herror
    refine AppendArgs.update_keeps herror fun hfails => hlate ?_
    rw [Command.FailsLate, if_neg (by rw [hplace]; decide)]
    exact ⟨bytes, hread, hfails⟩
  · intro bytes hread hok saved hsaved
    obtain ⟨⟨-, hsound⟩, hwritten⟩ := Command.wrote_eq_some hsaved
    obtain ⟨old, hold, hentry⟩ := Option.bind_eq_some_iff.mp hwritten
    rcases args.update_cases zeek steps files (steps.access.file bytes) with
      ⟨e, hrefused⟩ | ⟨boundary, opened, hnames, hopened, hedit⟩
    · rw [hrefused] at hok
      cases hok
    obtain ⟨hspec, hgiven⟩ := hsound boundary hnames
    obtain ⟨boundary', bytes', hnames', hread', hbefore⟩ := h.holds _ old hold
    obtain rfl := hnames'.unique (hspec old hold)
    rw [hread, Option.some.injEq] at hread'
    subst hread'
    refine ⟨boundary', ?_⟩
    rcases hedit with ⟨more, hseekable, rfl, hframes⟩ | ⟨hraw, hrecords⟩
    · rw [if_pos hseekable] at hentry hgiven
      obtain ⟨other, hother, rfl⟩ := Option.map_eq_some_iff.mp hentry
      have hotherNames := hgiven other hother
      obtain ⟨input, hinput, hother⟩ := Option.bind_eq_some_iff.mp hother
      obtain ⟨boundary', inBytes, hinNames, hinRead, hinHolds⟩ := h.holds _ other hother
      obtain rfl := hinNames.unique hotherNames
      -- the input that was opened is the file that is known
      have hsame : inBytes = more := by
        rw [AppendArgs.opened, hinput] at hopened
        simp only at hopened
        split at hopened
        · cases hopened
        · next found hfound =>
            cases hopened
            split_ifs at hfound
            rw [hinRead] at hfound
            exact Option.some.inj hfound
      subst hsame
      rw [hframes] at hok ⊢
      exact ⟨hnames', hbefore.appendFrames hinHolds (Prod.ext hok rfl)⟩
    · rw [if_neg (by rw [hraw]; decide)] at hentry hgiven
      obtain rfl := Option.some.inj hentry
      obtain ⟨hfits, hdata, hfile⟩ := hgiven
      obtain ⟨hfills, hcount⟩ := hfile bytes hread
      have hgives : (args.call boundary' steps opened).Gives boundary' :=
        Boundary.appendCall_gives
      have hdata' : (args.call boundary' steps opened).data.data =
          encoded boundary'.bytes given.items := hdata opened hopened
      rw [hrecords] at hok ⊢
      exact ⟨hnames', append_holds hnames'.whole hfits hbefore hgives hdata' hcount hfills hok⟩

/-- A copy of a range to another file. -/
theorem copyRange (h : shelf.Kept zeek files) {args : CopyRangeArgs} {stdout : Sink}
    {out : CopyOutput} (hout : args.output ≠ "-")
    (hrun : runCopyRange zeek args steps stdout files = (result, out, files')) :
    (shelf.settled args.output ((Command.copyRange args).wrote steps files zeek shelf given)
      (endedAs ((Command.copyRange args).FailsLate steps files zeek) result)).Kept zeek files' := by
  have hrefused : ∀ {e : Error}, (Except.error e, CopyOutput.file { path := args.output }, files) =
        (result, out, files') →
      (shelf.settled args.output ((Command.copyRange args).wrote steps files zeek shelf given)
        (endedAs ((Command.copyRange args).FailsLate steps files zeek) result)).Kept
          zeek files' := by
    intro e heq
    cases heq
    exact h.refused _ _ _ e
  rw [runCopyRange, if_neg hout, openFile] at hrun
  cases hentry : if steps.opens then files.entry args.input else none with
  | none =>
      rw [hentry] at hrun
      exact hrefused hrun
  | some handle =>
      rw [hentry] at hrun
      have hentry' : files.entry args.input = some handle := by
        split_ifs at hentry
        exact hentry
      have hread := Directory.read_of_entry hentry'
      cases hnamed : args.boundary.boundary with
      | error e =>
          rw [hnamed] at hrun
          exact hrefused hrun
      | ok named =>
          cases hchecked : named.checked with
          | error e =>
              simp only [hnamed, hchecked] at hrun
              exact hrefused hrun
          | ok boundary =>
              simp only [hnamed, hchecked] at hrun
              obtain ⟨hsame, hunaccepted⟩ := copyRangeOnto_sameBut h.wellFormed hrun
              cases result with
              | error e =>
                  rw [endedAs]
                  split_ifs with hlate
                  · exact h.forget hsame
                  · obtain ⟨-, rfl⟩ := hunaccepted fun range hchecks => hlate
                      ⟨files.content handle, boundary, range, hread, ⟨named, hnamed, hchecked⟩,
                        hchecks⟩
                    exact h
              | ok u =>
                  refine h.update hsame fun saved hsaved => ?_
                  obtain ⟨⟨halign, happart, hspec⟩, hentry⟩ := Command.wrote_eq_some hsaved
                  obtain ⟨old, hold, rfl⟩ := Option.map_eq_some_iff.mp hentry
                  obtain ⟨boundary', bytes, hnames, hread', hholds⟩ := h.holds _ old hold
                  obtain rfl := hnames.unique
                    (hspec boundary ⟨named, hnamed, hchecked⟩ old hold)
                  rw [hread, Option.some.injEq] at hread'
                  subst hread'
                  obtain ⟨now, n, hnow, hcounted, hrecords, hrest⟩ := hholds.archive steps.access
                  obtain ⟨k, j, hchecks, hiff⟩ :=
                    copyRangeOnto_ok h.wellFormed hentry' hnow hrun
                  rw [halign] at hchecks
                  exact ⟨boundary', _, hnames, hiff.mpr (Or.inl (Ne.symm happart)),
                    HoldsItems.range hcounted hrecords hrest hchecks⟩

end Shelf.Kept

section Compress

variable {steps : FileSteps} {files files' : Files} {overflowChecks : Bool} {fuel : Nat}
  {args : ConvertArgs} {stdin : Bytes} {finished : Finished} {path : String}

theorem compressOnto_stdout {reader : RetryReader} {frameSize : Nat} {opts : CompressOptions}
    {convert : Input → Nat → Option CompressOptions → Option (Except Error Bytes)}
    {converts : Bool} {result : Except Error Bytes}
    (h : compressOnto overflowChecks steps reader frameSize opts convert converts .stdout files
      fuel = some (result, files')) : files' = files := by
  rw [compressOnto] at h
  split at h
  · split at h
    · cases h
    · cases h
      rfl
    · have hfiles := congrArg Prod.snd (Option.some.inj h)
      rw [settled_snd] at hfiles
      exact hfiles.symm
  · split at h
    · have hfiles := congrArg Prod.snd (Option.some.inj h)
      rw [settled_snd] at hfiles
      exact hfiles.symm
    · cases h
      rfl
    · cases h

/-- A compression is refused before it opens its output, or compresses onto it. -/
theorem runCompress_cases
    (hrun : runCompress zeek overflowChecks args stdin steps files fuel = some finished) :
    (finished.files = files ∧ ∃ e, finished.result = .error e) ∨
      ∃ named input dest files₁, args.boundary = .ok named ∧
        openInput steps files stdin args.input = .ok input ∧
        openOutput steps files args.outputPath = .ok (dest, files₁) ∧
        ∃ result files₂,
          compressOnto overflowChecks steps
            { data := input.data files₁, schedule := steps.schedule, rewinds := steps.rewinds }
            args.frameSize
            { checksum := !args.noCheck, level := args.level.getD 0
              maxOfSeparator := args.cntOfSeparatorPerFrame }
            (named.convert zeek overflowChecks args.keepCntOfSeparatorsInFrame args.limitMultiplier)
            args.cntOfSeparatorPerFrame.isSome dest files₁ fuel = some (result, files₂) ∧
          ((∃ e, result = .error e ∧ finished.result = .error e ∧ finished.files = files₂) ∨
            ∃ made, result = .ok made ∧ finished = removeInput steps args made files₂) := by
  rw [runCompress] at hrun
  simp only at hrun
  split at hrun
  · cases hrun
    exact Or.inl ⟨rfl, _, rfl⟩
  · next named hnamed =>
      split at hrun
      · cases hrun
        exact Or.inl ⟨rfl, _, rfl⟩
      · next input hinput =>
          split at hrun
          · cases hrun
            exact Or.inl ⟨rfl, _, rfl⟩
          · next dest files₁ houtput =>
              refine Or.inr ⟨named, input, dest, files₁, hnamed, hinput, houtput, ?_⟩
              split at hrun
              · cases hrun
              · next e files₂ hcompress =>
                  cases hrun
                  exact ⟨_, files₂, hcompress, Or.inl ⟨e, rfl, rfl, rfl⟩⟩
              · next made files₂ hcompress =>
                  cases hrun
                  exact ⟨_, files₂, hcompress, Or.inr ⟨made, rfl, rfl⟩⟩

/-- What is left of an output once its input was to be removed. -/
theorem removeInput_cases {made : Bytes} (h : finished = removeInput steps args made files) :
    (finished.files = files ∧
      ((args.rm = false ∧ finished.result = .ok made) ∨ ∃ e, finished.result = .error e)) ∨
      ∃ input, args.rm = true ∧ args.input = some input ∧ finished.result = .ok made ∧
        files.remove input = some finished.files := by
  rw [h, removeInput]
  cases hrm : args.rm with
  | false => exact Or.inl ⟨rfl, Or.inl ⟨rfl, rfl⟩⟩
  | true =>
      simp only [Bool.not_true, Bool.false_eq_true, if_false]
      cases hinput : args.input with
      | none => exact Or.inl ⟨rfl, Or.inr ⟨_, rfl⟩⟩
      | some input =>
          simp only
          cases hremoved : if steps.removesInput then files.remove input else none with
          | none => exact Or.inl ⟨rfl, Or.inr ⟨_, rfl⟩⟩
          | some removed =>
              split_ifs at hremoved
              exact Or.inr ⟨input, trivial, rfl, rfl, hremoved⟩

/-- What a compression reads is what its input held, where that is not its output. -/
theorem openInput_apart {input : OpenInput}
    (hopen : openInput steps files stdin args.input = .ok input)
    (happart : args.input ≠ some path) (hsame : files.SameBut path files') :
    input.data files' =
      match args.input with
      | none => stdin
      | some path => (files.read path).getD [] := by
  cases hinput : args.input with
  | none =>
      rw [hinput, openInput] at hopen
      split_ifs at hopen
      cases hopen
      rfl
  | some name =>
      have hne : name ≠ path := by
        rintro rfl
        exact happart hinput
      rw [hinput, openInput] at hopen
      cases hentry : files.entry name with
      | none =>
          rw [hentry] at hopen
          cases hopen
      | some handle =>
          rw [hentry] at hopen
          simp only at hopen
          split_ifs at hopen
          cases hopen
          simp only [OpenInput.data, Directory.read_of_entry hentry, Option.getD_some]
          exact hsame.content name hne handle hentry

/-- A compression to the standard output leaves the files what they were. -/
theorem runCompress_stdout (hpath : args.outputPath = none)
    (hrun : runCompress zeek overflowChecks args stdin steps files fuel = some finished) :
    args.input = none ∧ finished.files = files := by
  have hinput : args.input = none := by
    cases hinput : args.input with
    | none => rfl
    | some input =>
        rw [ConvertArgs.outputPath, hinput] at hpath
        cases houtput : args.output with
        | none =>
            rw [houtput] at hpath
            cases hpath
        | some output =>
            rw [houtput] at hpath
            cases hpath
  refine ⟨hinput, ?_⟩
  rcases runCompress_cases hrun with ⟨hfiles, -⟩ |
    ⟨named, input, dest, files₁, -, -, houtput, result, files₂, hcompress, hends⟩
  · exact hfiles
  · rw [hpath] at houtput
    cases houtput
    obtain rfl := compressOnto_stdout hcompress
    rcases hends with ⟨e, -, -, hfiles⟩ | ⟨made, -, hfinished⟩
    · exact hfiles
    · rcases removeInput_cases hfinished with ⟨hfiles, -⟩ | ⟨name, -, hname, -⟩
      · exact hfiles
      · rw [hinput] at hname
        cases hname

/-- What converts has a boundary. -/
theorem NamedBoundary.checked_of_convert {named : NamedBoundary} {isSame : Bool}
    {limitMultiplier : Option Nat} {input : Input} {frameSize : Nat} {opts : Option CompressOptions}
    {made : Bytes}
    (h : named.convert zeek overflowChecks isSame limitMultiplier input frameSize opts =
      some (.ok made)) : ∃ boundary, named.checked = .ok boundary := by
  cases named with
  | finder find => exact ⟨_, rfl⟩
  | separator bytes =>
      rw [NamedBoundary.convert] at h
      split at h
      · cases h
      · next hne => exact ⟨.separator bytes hne, dif_neg hne⟩

/-- A compression of items that is over leaves a file of them under its path. -/
theorem compressOnto_holds {handle : Nat} {named : NamedBoundary}
    (hopen : OutputAt files path handle) {reader : RetryReader} (hpos : reader.pos = 0)
    (hwhole : boundary.find.Whole) (hchecked : named.checked = .ok boundary) (hne : items ≠ [])
    (hfits : ∀ item ∈ items, boundary.Fits item)
    (hdata : reader.data = encoded boundary.bytes items)
    (hlength : (encoded boundary.bytes items).length ≤ zeek.frameLimit) {frameSize : Nat}
    {opts : CompressOptions} {limitMultiplier : Option Nat} {converts : Bool}
    (harrives : converts = true ∨ steps.Arrives) {made : Bytes}
    (h : compressOnto overflowChecks steps reader frameSize opts
      (named.convert zeek overflowChecks true limitMultiplier) converts (.file path handle) files
      fuel = some (.ok made, files')) :
    files'.read path = some made ∧ HoldsItems zeek boundary items made := by
  refine ⟨(compressOnto_named hpos hopen h).2.mpr harrives, ?_⟩
  obtain ⟨input, frameSize, opts, hinput, hconvert⟩ := compressOnto_made hpos h
  have hinput' : input.data = encoded boundary.bytes items := hinput.trans hdata
  exact compress_holds hwhole hne hfits hinput' (by rw [hinput']; exact hlength)
    (NamedBoundary.convert_checked hchecked hconvert)

end Compress

namespace Shelf.Kept

variable {shelf : Shelf} {files files' : Files} {steps : CliSteps} {given : Saved}
  {overflowChecks : Bool} {fuel : Nat}

/-- A compression of items under a path. -/
theorem compressCommand (h : shelf.Kept zeek files) {names : BoundaryArgs} {args : ConvertArgs}
    {path : String} (hpath : args.outputPath = some path) {finished : Finished}
    (hrun : runCompress zeek overflowChecks { args with boundary := names.boundary } steps.stdin
      steps.toFileSteps files fuel = some finished) :
    (shelf.behindCommand (.compress names args)
      ((Command.compress names args).wrote steps files zeek shelf given)
      (endedAs ((Command.compress names args).FailsLate steps files zeek)
        (finished.result.map fun _ => ()))).Kept zeek finished.files := by
  generalize hwrote : (Command.compress names args).wrote steps files zeek shelf given = entry
  have hbehind : ∀ ended, ended ≠ .done → shelf.behindCommand (.compress names args) entry ended =
      shelf.settled path entry ended := by
    intro ended hnot
    simp only [Shelf.behindCommand, Command.target, hpath]
    split
    · exact absurd rfl hnot
    · rfl
  rcases runCompress_cases hrun with ⟨hfiles, e, hresult⟩ |
    ⟨named, input, dest, files₁, hnamed, hinput, houtput, result, files₂, hcompress, hends⟩
  · rw [hfiles, hresult]
    have hkept := h.refused path entry ((Command.compress names args).FailsLate steps files zeek) e
    rwa [← hbehind _ (by rw [endedAs]; split_ifs <;> decide)] at hkept
  have houtput' : openOutput steps.toFileSteps files (some path) = .ok (dest, files₁) := by
    rw [← hpath]
    exact houtput
  obtain ⟨handle, rfl, hopen⟩ := openOutput_opened h.wellFormed.lt_next houtput'
  obtain ⟨hcreates, hput⟩ : steps.creates = true ∧ files.SameBut path files₁ := by
    rw [openOutput] at houtput'
    split_ifs at houtput' with hcreates
    cases houtput'
    exact ⟨hcreates, .put h.wellFormed path () []⟩
  have hown : ∀ name ≠ path, files₁.entry name ≠ some handle :=
    fun name hne hother => hne (hput.wellFormed.one_name hother hopen.entry)
  have hsame := hput.trans (compressOnto_sameBut hput.wellFormed hown hcompress)
  have hlate : (Command.compress names args).FailsLate steps files zeek :=
    ⟨⟨named, hnamed⟩, ⟨input, hinput⟩, hcreates⟩
  have hfailed : ∀ {e : Error}, finished.result = .error e → finished.files = files₂ →
      (shelf.behindCommand (.compress names args) entry
        (endedAs ((Command.compress names args).FailsLate steps files zeek)
          (finished.result.map fun _ => ()))).Kept zeek finished.files := by
    intro e hresult hfiles
    rw [hresult, hfiles]
    simp only [Except.map, endedAs, if_pos hlate]
    rw [hbehind _ (by decide)]
    exact h.forget hsame
  rcases hends with ⟨e, -, hresult, hfiles⟩ | ⟨made, rfl, hfinished⟩
  · exact hfailed hresult hfiles
  have hsaved : Shelf.Kept zeek (Function.update shelf path entry) files₂ := by
    refine h.update hsame fun saved hsome => ?_
    rw [← hwrote] at hsome
    obtain ⟨⟨happart, hkeep, harrives, hgiven⟩, hentry⟩ := Command.wrote_eq_some hsome
    rw [Command.entry] at hentry
    split_ifs at hentry with hnone
    obtain rfl := Option.some.inj hentry
    obtain ⟨tried, size, opts, -, hconvert⟩ := compressOnto_made rfl hcompress
    obtain ⟨boundary, hchecked⟩ := NamedBoundary.checked_of_convert hconvert
    obtain ⟨hnames, hfits, hdata, hlength⟩ := hgiven boundary ⟨named, hnamed, hchecked⟩
    have hreads := openInput_apart hinput (happart path hpath) hput
    have hkeep' : ConvertArgs.keepCntOfSeparatorsInFrame
        { args with boundary := names.boundary } = true := hkeep
    rw [hkeep'] at hcompress
    exact ⟨boundary, made, hnames, compressOnto_holds hopen rfl hnames.whole hchecked hnone hfits
      (hreads.trans hdata) hlength harrives hcompress⟩
  rcases removeInput_cases hfinished with
    ⟨hfiles, ⟨hrm, hresult⟩ | ⟨e, hresult⟩⟩ | ⟨name, hrm, hname, hresult, hremove⟩
  · rw [hfiles, hresult]
    have hrm' : args.rm = false := hrm
    simp only [Except.map, endedAs, Shelf.behindCommand, Command.target, Command.removes, hpath,
      hrm', Bool.false_eq_true, if_false, Shelf.settled]
    exact hsaved
  · exact hfailed hresult hfiles
  · rw [hresult]
    have hrm' : args.rm = true := hrm
    have hname' : args.input = some name := hname
    simp only [Except.map, endedAs, Shelf.behindCommand, Command.target, Command.removes, hpath,
      hrm', hname', if_true, Shelf.settled]
    exact hsaved.forget (.remove hsaved.wellFormed hremove)

/-- Every command leaves files that hold what is known to be saved behind it. -/
theorem command (h : shelf.Kept zeek files) {command : Command} (given : Saved)
    {result : Except Error Unit}
    (hrun : command.run zeek overflowChecks steps files fuel = some (result, files')) :
    (shelf.behindCommand command (command.wrote steps files zeek shelf given)
      (endedAs (command.FailsLate steps files zeek) result)).Kept zeek files' := by
  cases command with
  | compress names args =>
      obtain ⟨finished, hfinished, hends⟩ := Option.map_eq_some_iff.mp hrun
      obtain ⟨rfl, rfl⟩ := Prod.mk.inj hends
      cases hpath : args.outputPath with
      | some path => exact h.compressCommand hpath hfinished
      | none =>
          have hpath' : ConvertArgs.outputPath { args with boundary := names.boundary } = none :=
            hpath
          obtain ⟨hinput, hfiles⟩ := runCompress_stdout hpath' hfinished
          have hinput' : args.input = none := hinput
          rw [hfiles]
          simp only [Shelf.behindCommand, Command.target, Command.removes, hpath, hinput',
            ite_self]
          exact h
  | truncate args =>
      exact h.truncate (Option.some.inj hrun)
  | append args =>
      exact h.appendCommand (Option.some.inj hrun)
  | copyRange args =>
      cases hran : runCopyRange zeek args steps {} files with
      | mk answer ran =>
          obtain ⟨out, left⟩ := ran
          rw [Command.run, hran] at hrun
          cases hrun
          by_cases hout : args.output = "-"
          · rw [runCopyRange_stdout hout hran]
            simp only [Shelf.behindCommand, Command.target, Command.removes, if_pos hout]
            exact h
          · simp only [Shelf.behindCommand, Command.target, Command.removes, if_neg hout]
            exact h.copyRange hout hran

end Shelf.Kept

end SeekZstdSep
