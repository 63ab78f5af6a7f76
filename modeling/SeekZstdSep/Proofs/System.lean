/-
Module: SeekZstdSep.Proofs.System
Purpose: Whatever is done with the plugin and the tool, in any order: what is read of a file, by a
  handle, as a stream or by `cat`, is what was written to it, each item once and in order.
Trusted boundary: the library, as `Zeekstd` has it; the engine, the file system and the files that
  readers find, as `Core.Cli` has them
Main exports: Known.behindCall, system, Shelf.Prints, system_answers_from_shelf
-/
import SeekZstdSep.Proofs.Commands
import SeekZstdSep.Proofs.Session

namespace SeekZstdSep

open Lib

variable {V : Type} {engine : Engine V} {zeek : Zeekstd}
  {view : Bytes → Except Error SeekableFile}

/-! ### Calls of either -/

section System

variable (engine zeek) (overflowChecks : Bool) (view : Bytes → Except Error SeekableFile)
  (fuel : Nat)

/-- What is known behind a call that led to `next`, where `given` is what it is said to write. -/
noncomputable def Known.behindCall (session : Session) (known : Known) :
    SystemCall V → Saved → Session → Known
  | .plugin call, given, next =>
      known.behind engine zeek overflowChecks fuel session call given.items next
  | .tool command steps, given, next =>
      match command.run zeek overflowChecks steps session.files fuel with
      | none => known
      | some ran =>
          known.written session next
            (known.shelf.behindCommand command
              (command.wrote steps session.files zeek known.shelf given)
              (endedAs (command.FailsLate steps session.files zeek) ran.1))

/-- The plugin and the tool over the same files, where a call comes with what it is said to
write. -/
noncomputable def system : Machine Session Known (SystemCall V × Saved) where
  step session call := session.callStep engine zeek overflowChecks view fuel call.1
  behind session known call next :=
    known.behindCall engine zeek overflowChecks fuel session call.1 call.2 next

end System

theorem Session.Kept.call {session next : Session} {known : Known} {overflowChecks : Bool}
    {fuel : Nat} (h : session.Kept zeek known) (hviews : Views zeek view) {call : SystemCall V}
    (given : Saved)
    (hstep : session.callStep engine zeek overflowChecks view fuel call = some next) :
    next.Kept zeek
      (known.behindCall engine zeek overflowChecks fuel session call given next) := by
  cases call with
  | plugin call => exact h.step hviews given.items hstep
  | tool command steps =>
      obtain ⟨⟨result, files'⟩, hrun, rfl⟩ := Option.map_eq_some_iff.mp hstep
      simp only [Known.behindCall, hrun]
      exact ⟨h.files.command given hrun, h.table.written _ _⟩

/-! ### Answers -/

/-- What `cat` writes of a file: the items of the range, as far as there are any, or nothing where
the file system refuses to open it. -/
def Shelf.Prints (shelf : Shelf) (view : Bytes → Except Error SeekableFile) (files : Files) :
    Prop :=
  ∀ (args : CatArgs) (spec : FinderSpec) (opens : Bool) (written : Bytes),
    args.boundary.boundary = fromSpec spec.finder spec.arg → shelf.Names spec [args.input] →
      let ran := runCat view args opens { written := written } files
      let range := ((shelf.itemsAt args.input).drop args.fromIdx).take args.cnt
      (opens = false ∧ (∃ e, ran.1 = .error e) ∧ ran.2 = { written := written }) ∨
        (ran.2 = { written := written ++ encoded spec.separator range } ∧
          (args.fromIdx < (shelf.itemsAt args.input).length → ran.1 = .ok ()))

theorem Shelf.Kept.prints {shelf : Shelf} {files : Files} (h : shelf.Kept zeek files)
    (hviews : Views zeek view) : shelf.Prints view files := by
  intro args spec opens written hargs hnames ran range
  obtain ⟨items, hitems, hsmall⟩ := hnames.2 args.input (List.mem_singleton_self _)
  obtain ⟨boundary, bytes, hspec, -, -⟩ := h.holds _ _ hitems
  obtain ⟨named, hnamed, -⟩ := hspec.boundary
  have hat : shelf.itemsAt args.input = items := by
    rw [Shelf.itemsAt, hitems]
    rfl
  have hrange : range = (items.drop args.fromIdx).take args.cnt := by simp only [range, hat]
  rcases openPath_shelved h hviews hitems hsmall hnamed opens with ⟨hopens, e, hopen⟩ |
    ⟨reader, hopen, hreader⟩
  · have hfails : ran = (.error e, { written := written }) := by
      simp only [ran, runCat, hargs, hnamed, hopen]
    exact Or.inl ⟨hopens, ⟨e, congrArg Prod.fst hfails⟩, congrArg Prod.snd hfails⟩
  · right
    simp only [ran, runCat, hargs, hnamed, hopen, hrange, hat]
    exact hreader.range args.fromIdx args.cnt written

/-- After any run of calls of the plugin and commands of the tool, whichever fail or are refused:
cell paths, counts and streams of files that are known to hold what was written to them answer with
that, and so does `cat`. What a call leaves that does not keep to what it has to is not known, nor
what a handle says whose files were written to since. -/
theorem system_answers_from_shelf (hviews : Views zeek view) {overflowChecks : Bool} {fuel : Nat}
    {files : Files} (hwell : files.WellFormed) (nextId : Nat)
    {calls : List (SystemCall V × Saved)} {session : Session} {known : Known}
    (hrun : (system engine zeek overflowChecks view fuel).run
      ({ files := files, table := { nextId := nextId } }, .nothing) calls = some (session, known))
    (opens : Nat → Bool) :
    session.Answers engine view known opens ∧ known.shelf.Prints view session.files := by
  have hkept : session.Kept zeek known :=
    Machine.run_keeps (fun session known => session.Kept zeek known)
      (fun h hstep => h.call hviews _ hstep) (Session.Kept.start hwell nextId) hrun
  exact ⟨hkept.answers hviews opens, hkept.files.prints hviews⟩

/-! ### Lines that are compressed and cut -/

/-- Three lines are compressed, a record to a frame. -/
def threeToFile : Command :=
  .compress .lines
    { input := none, output := some "/a", boundary := .ok (.separator [10]), frameSize := 8
      limitMultiplier := some 4, cntOfSeparatorPerFrame := some 1, rm := false
      keepCntOfSeparatorsInFrame := true, noCheck := false, level := none }

/-- The last of them is cut off. -/
def thirdCut : Command := .truncate { zstfile := "/a", records := 2 }

def lineSteps : CliSteps :=
  { readingSteps wholeWish with stdin := encoded [10] (["w", "x", "y"].map utf8) }

def savedLines (lines : List String) : Saved := { spec := lineSpec, items := lines.map utf8 }

/-- The file is cut while the plugin has it open. -/
def lineCalls : List (SystemCall Unit × Saved) :=
  [(.tool threeToFile lineSteps, savedLines ["w", "x", "y"]),
    (.plugin (.openFiles (fun _ => true) (.ok "/") ["a"] {}), savedLines []),
    (.tool thirdCut lineSteps, savedLines [])]

def commandFiles (command : Command) (files : Files) : Files :=
  ((command.run storedZeekstd true lineSteps files 5).map Prod.snd).getD files

theorem commandFiles_eq {command : Command} {files : Files}
    (h : (command.run storedZeekstd true lineSteps files 5).map (·.1.isOk) = some true) :
    command.run storedZeekstd true lineSteps files 5 =
      some (.ok (), commandFiles command files) := by
  obtain ⟨⟨result, files'⟩, hran, hok⟩ := Option.map_eq_some_iff.mp h
  rw [commandFiles, hran]
  cases result with
  | error e => cases hok
  | ok _ => rfl

theorem names_lineBoundary {boundary : Boundary} (h : BoundaryArgs.lines.Names boundary) :
    lineSpec.Names boundary := by
  obtain ⟨named, hnamed, hchecked⟩ := h
  cases hnamed
  cases hchecked
  exact lineSpec_names

/-- A command that succeeds and keeps to what it has to does to what was saved what it is for. -/
theorem system_run_command {overflowChecks : Bool} {fuel : Nat} {session : Session}
    {known : Known} {command : Command} {steps : CliSteps} {given : Saved}
    {calls : List (SystemCall V × Saved)} {files : Files}
    (hrun : command.run zeek overflowChecks steps session.files fuel = some (.ok (), files))
    (hsound : command.Sound steps session.files zeek known.shelf given) :
    (system engine zeek overflowChecks view fuel).run (session, known)
        ((.tool command steps, given) :: calls) =
      (system engine zeek overflowChecks view fuel).run
        ({ session with files := files },
          known.written session { session with files := files }
            (known.shelf.behindCommand command (command.entry known.shelf given) .done)) calls := by
  have hstep : (system engine zeek overflowChecks view fuel).step session
      (.tool command steps, given) = some { session with files := files } := by
    simp only [system, Session.callStep, hrun, Option.map_some]
  rw [Machine.run_cons hstep]
  simp only [system, Known.behindCall, hrun, endedAs, Command.wrote_of_sound hsound]

theorem lineCalls_run :
    ∃ session known, (system bareEngine storedZeekstd true storedView 5).run fourLineStart
        lineCalls = some (session, known) ∧
      known.shelf = Function.update (fun _ => none) "/a" (some (savedLines ["w", "x"])) := by
  have hcompressed : threeToFile.run storedZeekstd true lineSteps noFiles 5 =
      some (.ok (), commandFiles threeToFile noFiles) := commandFiles_eq (by decide +kernel)
  generalize hfiles : commandFiles threeToFile noFiles = files at hcompressed
  have hcut : thirdCut.run storedZeekstd true lineSteps files 5 =
      some (.ok (), commandFiles thirdCut files) := by
    rw [← hfiles]
    exact commandFiles_eq (by decide +kernel)
  have hsmall : threeToFile.Sound lineSteps noFiles storedZeekstd (fun _ => none)
      (savedLines ["w", "x", "y"]) := by
    refine ⟨fun _ _ hinput => (by cases hinput), rfl, Or.inl rfl, fun boundary hnames => ?_⟩
    have hspec := names_lineBoundary hnames
    obtain rfl := hspec.unique lineSpec_names
    refine ⟨lineSpec_names, ?_, rfl, by decide +kernel⟩
    unfold Boundary.Fits
    decide +kernel
  have hfew : thirdCut.Sound lineSteps files storedZeekstd (Function.update (fun _ => none) "/a"
      (some (savedLines ["w", "x", "y"]))) (savedLines []) := by
    intro boundary hnames saved hsaved
    cases hsaved
    exact names_lineBoundary hnames
  rw [lineCalls, fourLineStart, system_run_command hcompressed hsmall, Machine.run_cons rfl,
    system_run_command hcut hfew]
  refine ⟨_, _, rfl, ?_⟩
  exact Function.update_idem _ _ _

/-- The second of the lines that are left, by a handle and by `cat`. -/
theorem system_answers_from_shelf_lines :
    ∃ session known, (system bareEngine storedZeekstd true storedView 5).run fourLineStart
        lineCalls = some (session, known) ∧
      session.Answers bareEngine storedView known (fun _ => true) ∧
      known.shelf.Prints storedView session.files ∧
      known.shelf.itemsAt "/a" = ["w", "x"].map utf8 := by
  obtain ⟨session, known, hrun, hshelf⟩ := lineCalls_run
  obtain ⟨hanswers, hprints⟩ := system_answers_from_shelf (viewOf_views _ _) noFiles_wellFormed 0
    hrun (fun _ => true)
  refine ⟨session, known, hrun, hanswers, hprints, ?_⟩
  rw [hshelf]
  rfl

end SeekZstdSep
