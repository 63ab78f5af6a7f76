/-
Module: SeekZstdSep.Proofs.Concurrent
Purpose: Edits of one record file by any number of writers, in place under its lock or through a
  copy, are serial: whatever the order of their steps and whichever of these fail, between two
  updates the file holds the log that the edits which succeeded make one behind the other.
Trusted boundary: the library, as `Zeekstd` has it, and the file system, as `Directory` has it
Main exports: Update.Runs, LogEdit.update, committed, Unbroken, FitsFound,
  concurrent_edits_are_serial
-/
import SeekZstdSep.Proofs.FileLock
import SeekZstdSep.Proofs.Front
import SeekZstdSep.Proofs.Join
import SeekZstdSep.Proofs.LogEdit

namespace SeekZstdSep

open Lib

variable {zeek : Zeekstd} {boundary : Boundary} {n : Nat}

/-! ### Edits as updates -/

/-- An update that runs an edit, whatever the pieces it writes in. -/
structure Update.Runs (update : Update) (zeek : Zeekstd) (boundary : Boundary) (access : Access)
    (edit : LogEdit) : Prop where
  result : ∀ bytes,
    update.result bytes = (edit.run zeek boundary (access.file bytes)).2.bytes
  ok : ∀ bytes,
    update.ok bytes = true ↔ (edit.run zeek boundary (access.file bytes)).1 = .ok ()

/-- What a file holds behind each of some changes. -/
def File.contentsBehind : File → List Change → List Bytes
  | _, [] => []
  | f, change :: changes => (f.change change).bytes :: (f.change change).contentsBehind changes

theorem File.getLastD_contentsBehind (f : File) (changes : List Change) :
    (f.contentsBehind changes).getLastD f.bytes = (f.changes changes).bytes := by
  induction changes generalizing f with
  | nil => rfl
  | cons change changes ih =>
      rw [File.contentsBehind, List.getLastD_cons, ih]
      rfl

/-- The update that makes each change of an edit in one write. -/
def LogEdit.update (zeek : Zeekstd) (boundary : Boundary) (access : Access) (edit : LogEdit) :
    Update where
  writes bytes :=
    (access.file bytes).contentsBehind ((edit.edit boundary).changes zeek (access.file bytes))
  ok bytes := (edit.run zeek boundary (access.file bytes)).1.isOk

theorem LogEdit.runs_update (zeek : Zeekstd) (boundary : Boundary) (access : Access)
    (edit : LogEdit) : (edit.update zeek boundary access).Runs zeek boundary access edit where
  result bytes := by
    rw [LogEdit.run, Edit.makes]
    exact File.getLastD_contentsBehind (access.file bytes) _
  ok bytes := by
    show (edit.run zeek boundary (access.file bytes)).1.isOk = true ↔ _
    cases (edit.run zeek boundary (access.file bytes)).1 with
    | error e => exact ⟨fun h => (by cases h), fun h => (by cases h)⟩
    | ok u => exact ⟨fun _ => rfl, fun _ => rfl⟩

/-! ### What the effects come to -/

section Effects

variable {Writer : Type} {updates : Writer → Update} {edits : Writer → LogEdit}
  {access : Writer → Access}

/-- The writers whose updates have succeeded, in that order. -/
def committed (updates : Writer → Update) : Bytes → List (Effect Writer) → List Writer
  | _, [] => []
  | content, .ran writer :: effects =>
      let later := committed updates ((updates writer).result content) effects
      if (updates writer).ok content then writer :: later else later
  | _, .broke _ left :: effects => committed updates left effects

/-- No write to the target has failed, and no edit in place has failed behind its cut. -/
def Unbroken (zeek : Zeekstd) (boundary : Boundary) (edits : Writer → LogEdit)
    (access : Writer → Access) (updates : Writer → Update) (content : Bytes)
    (effects : List (Effect Writer)) : Prop :=
  ∀ front effect back, effects = front ++ effect :: back →
    ∃ writer, effect = .ran writer ∧
      ((updates writer).ok (composed updates content front) = true ∨
        ¬ (edits writer).FailsLate zeek boundary
          ((access writer).file (composed updates content front)))

theorem Unbroken.head {content : Bytes} {effect : Effect Writer} {effects : List (Effect Writer)}
    (h : Unbroken zeek boundary edits access updates content (effect :: effects)) :
    ∃ writer, effect = .ran writer ∧
      ((updates writer).ok content = true ∨
        ¬ (edits writer).FailsLate zeek boundary ((access writer).file content)) :=
  h [] effect effects rfl

theorem Unbroken.tail {content : Bytes} {effect : Effect Writer} {effects : List (Effect Writer)}
    (h : Unbroken zeek boundary edits access updates content (effect :: effects)) :
    Unbroken zeek boundary edits access updates (effect.apply updates content) effects := by
  intro front effect' back hsplit
  exact h (effect :: front) effect' back (by rw [hsplit, List.cons_append])

/-- Every edit fits the file as it finds it. -/
def FitsFound (zeek : Zeekstd) (boundary : Boundary) (n : Nat) (edits : Writer → LogEdit)
    (access : Writer → Access) (updates : Writer → Update) (content : Bytes)
    (effects : List (Effect Writer)) : Prop :=
  ∀ front writer back, effects = front ++ .ran writer :: back →
    (edits writer).Fits zeek boundary n ((access writer).file (composed updates content front))

theorem FitsFound.head {content : Bytes} {writer : Writer} {effects : List (Effect Writer)}
    (h : FitsFound zeek boundary n edits access updates content (.ran writer :: effects)) :
    (edits writer).Fits zeek boundary n ((access writer).file content) :=
  h [] writer effects rfl

theorem FitsFound.tail {content : Bytes} {effect : Effect Writer} {effects : List (Effect Writer)}
    (h : FitsFound zeek boundary n edits access updates content (effect :: effects)) :
    FitsFound zeek boundary n edits access updates (effect.apply updates content) effects := by
  intro front writer back hsplit
  exact h (effect :: front) writer back (by rw [hsplit, List.cons_append])

theorem committed_sublist (content : Bytes) (effects : List (Effect Writer)) :
    (committed updates content effects).Sublist (effects.map Effect.owner) := by
  induction effects generalizing content with
  | nil => exact List.Sublist.slnil
  | cons effect effects ih =>
      rw [List.map_cons]
      cases effect with
      | broke writer left => exact (ih left).cons _
      | ran writer =>
          rw [committed]
          split
          · exact (ih _).cons_cons _
          · exact (ih _).cons _

/-- An update that has succeeded on what it found is among them. -/
theorem RanWell.mem_committed {content : Bytes} {effects : List (Effect Writer)} {writer : Writer}
    (h : RanWell updates content effects writer) :
    writer ∈ committed updates content effects := by
  obtain ⟨front, back, rfl, hok⟩ := h
  induction front generalizing content with
  | nil =>
      have hnow : (updates writer).ok content = true := hok
      rw [List.nil_append, committed, if_pos hnow]
      exact List.mem_cons_self
  | cons effect front ih =>
      rw [List.cons_append]
      cases effect with
      | broke writer' left => exact ih hok
      | ran writer' =>
          have hlater : writer ∈ committed updates ((updates writer').result content)
              (front ++ .ran writer :: back) := ih hok
          rw [committed]
          split
          · exact List.mem_cons_of_mem _ hlater
          · exact hlater

/-- The log that the edits of some writers make of another, one behind the other. -/
def serial (boundary : Boundary) (edits : Writer → LogEdit) (log : RecordLog UInt8)
    (writers : List Writer) : RecordLog UInt8 :=
  writers.foldl (fun log writer => (edits writer).apply boundary log) log

/-- What unbroken effects leave holds the log of those that succeeded. -/
theorem Unbroken.holds (hwhole : boundary.find.Whole)
    (hruns : ∀ writer, (updates writer).Runs zeek boundary (access writer) (edits writer))
    {effects : List (Effect Writer)} {archive : Archive zeek}
    (hcounted : archive.Counted boundary n)
    (hfits : FitsFound zeek boundary n edits access updates archive.file.bytes effects)
    (h : Unbroken zeek boundary edits access updates archive.file.bytes effects) :
    ∃ archive' : Archive zeek,
      composed updates archive.file.bytes effects = archive'.file.bytes ∧
        archive'.Counted boundary n ∧
        archive'.log boundary n =
          serial boundary edits (archive.log boundary n)
            (committed updates archive.file.bytes effects) := by
  induction effects generalizing archive with
  | nil => exact ⟨archive, rfl, hcounted, rfl⟩
  | cons effect effects ih =>
      obtain ⟨writer, rfl, hcase⟩ := h.head
      have htail : Unbroken zeek boundary edits access updates
          ((updates writer).result archive.file.bytes) effects := h.tail
      have hfitsTail : FitsFound zeek boundary n edits access updates
          ((updates writer).result archive.file.bytes) effects := hfits.tail
      have hcomposed : composed updates archive.file.bytes (.ran writer :: effects) =
          composed updates ((updates writer).result archive.file.bytes) effects := rfl
      have hresult : (updates writer).result archive.file.bytes =
          ((edits writer).run zeek boundary ((access writer).file archive.file.bytes)).2.bytes :=
        (hruns writer).result _
      -- the bytes as the writer has them open
      obtain ⟨now, hnow, hcontents⟩ :=
        Archive.exists_of_bytes (f := (access writer).file archive.file.bytes) rfl
      rw [committed]
      by_cases hok : (updates writer).ok archive.file.bytes = true
      · rw [if_pos hok]
        rw [(hruns writer).ok, hnow] at hok
        obtain ⟨after, hafter, hcounted', hlog⟩ := LogEdit.does
          (hcounted.of_contents hcontents) hwhole (hnow ▸ hfits.head) hok
        rw [hnow, hafter] at hresult
        rw [hresult] at htail hfitsTail
        obtain ⟨last, hlast, hcounted'', hlog'⟩ := ih hcounted' hfitsTail htail
        refine ⟨last, ?_, hcounted'', ?_⟩
        · rw [← hlast, hcomposed, hresult]
        · rw [hlog', hlog, Archive.log_congr hcontents, hresult]
          rfl
      · rw [if_neg hok]
        have hnot := hcase.resolve_left hok
        rw [(hruns writer).ok] at hok
        have herror : ∃ e, ((edits writer).run zeek boundary
            ((access writer).file archive.file.bytes)).1 = .error e := by
          cases hran : ((edits writer).run zeek boundary
              ((access writer).file archive.file.bytes)).1 with
          | error e => exact ⟨e, rfl⟩
          | ok u => exact absurd hran hok
        obtain ⟨e, herror⟩ := herror
        have hkept := LogEdit.keeps hfits.head.gives hnot herror
        rw [hkept] at hresult
        change (updates writer).result archive.file.bytes = archive.file.bytes at hresult
        rw [hresult] at htail hfitsTail
        obtain ⟨last, hlast, hcounted', hlog⟩ := ih hcounted hfitsTail htail
        refine ⟨last, ?_, hcounted', ?_⟩
        · rw [← hlast, hcomposed, hresult]
        · rw [hlog, hresult]

/-- Where every writer makes its copy nothing breaks. -/
theorem unbroken_of_copies {content : Bytes} {effects : List (Effect Writer)}
    (h : ∀ front effect back, effects = front ++ effect :: back →
      effect = .ran effect.owner ∧
        (updates effect.owner).ok (composed updates content front) = true) :
    Unbroken zeek boundary edits access updates content effects := by
  intro front effect back hsplit
  obtain ⟨hran, hok⟩ := h front effect back hsplit
  exact ⟨effect.owner, hran, Or.inl hok⟩

variable [DecidableEq Writer]

/-- Any number of writers edit one record file, some in place under its lock and some through a
copy, in any order of their steps, whichever of these fail, by edits that fit the file as they find
it. Unless a write to the file itself fails or an edit of it in place does so behind its cut, then
at any time when no edit in place is writing a reader that is opened answers with the records of
the log that the edits which have succeeded make, each of them once and one behind the other; and
an edit whose call returned `Ok` is one of them. -/
theorem concurrent_edits_are_serial (hwhole : boundary.find.Whole) {disk : Disk Writer}
    (hwell : disk.WellFormed) {archive : Archive zeek} (hcounted : archive.Counted boundary n)
    (htarget : disk.read .target = some archive.file.bytes)
    (hruns : ∀ writer, (updates writer).Runs zeek boundary (access writer) (edits writer))
    (copies : Writer → Bool) (turns : List (Writer × Outcome))
    (hfits : FitsFound zeek boundary n edits access updates archive.file.bytes
      ((Cooperation.start disk copies).run updates turns).effects) :
    let s := (Cooperation.start disk copies).run updates turns
    let writers := committed updates archive.file.bytes s.effects
    let log := serial boundary edits (archive.log boundary n) writers
    writers.Nodup ∧
    (∀ writer, s.place writer = .copying (.done true) ∨ s.place writer = .inPlace (.done true) →
      writer ∈ writers) ∧
    ((∀ writer, copies writer = true) ∨
        Unbroken zeek boundary edits access updates archive.file.bytes s.effects ∧
          (∀ writer, ¬ (s.place writer).Updating) →
      ∃ bytes, s.disk.read .target = some bytes ∧
        (∃ file : SeekableFile, file.Of zeek bytes) ∧
        ∀ file : SeekableFile, file.Of zeek bytes → file.contents.flatten = log.data ∧
          (n * log.frames * log.frames < 2 ^ 64 → ∀ label,
            ∃ r, RecordReader.fromReader file label boundary = .ok r ∧
              r.AnswersAs (log.items boundary.tailIsRecord))) := by
  intro s writers log
  have hstart : Cooperates updates archive.file.bytes (Cooperation.start disk copies) :=
    cooperates_start hwell htarget copies
  have hcooperates : Cooperates updates archive.file.bytes s := hstart.run turns
  have haccounted : Accounted updates archive.file.bytes copies s :=
    (accounted_start disk copies).run hstart turns
  refine ⟨(committed_sublist _ _).nodup haccounted.nodup,
    fun writer hdone => (haccounted.published writer ?_).mem_committed, ?_⟩
  · rcases hdone with hdone | hdone <;> rw [hdone] <;> rfl
  · intro hcase
    have hready : Unbroken zeek boundary edits access updates archive.file.bytes s.effects ∧
        ∀ writer, ¬ (s.place writer).Updating := by
      refine hcase.elim (fun hcopies => ⟨?_, fun writer hupdating => ?_⟩) id
      · apply unbroken_of_copies
        intro front effect back hsplit
        exact haccounted.whole front effect back hsplit (hcopies _)
      · have hkind := haccounted.kind writer
        rw [hcopies] at hkind
        cases hplace : s.place writer with
        | copying pc =>
            rw [hplace] at hupdating
            exact hupdating
        | inPlace pc =>
            rw [hplace] at hkind
            cases hkind
    obtain ⟨hunbroken, hidle⟩ := hready
    obtain ⟨now, hnow, hcounted', hlog⟩ := hunbroken.holds hwhole hruns hcounted hfits
    refine ⟨now.file.bytes, ?_, ⟨_, now.seekable_of⟩,
      fun file hfile => ⟨?_, fun hsmall label => ?_⟩⟩
    · rw [hcooperates.idle hidle, hnow]
    · have hdata : log.data = now.data := by
        show (serial boundary edits _ _).data = _
        rw [← hlog, Archive.log, Finder.data_log]
        rfl
      rw [hfile.contents_eq, hdata]
      rfl
    · have hlog' : now.log boundary n = log := hlog
      have hframes : now.contents.length = log.frames := congrArg RecordLog.frames hlog'
      rw [← hlog']
      apply hcounted'.answers _ hfile
      rw [hframes]
      exact hsmall

end Effects

/-- The directory of a file of five lines, one to a frame. -/
def fiveDisk : Disk Nat where
  entry
    | .target => some 0
    | _ => none
  content _ := fiveArchive.file.bytes
  creator _ := none
  next := 1

theorem fiveDisk_wellFormed : fiveDisk.WellFormed where
  lt_next {name file} h := by
    cases name <;> cases h
    decide
  one_name {name name' file} h h' := by
    cases name <;> cases h
    cases name' <;> cases h'
    rfl

/-- The last two of the five lines, as records. -/
def lastTwo : AppendCall where
  data := { data := [100, 10, 101, 10], schedule := fun _ => some 1 }
  separator := [10]
  onMissing := .refuse
  level := 3
  records := some 1
  finder := none
  trust := false

/-- Writer 1 keeps the first three lines, writer 3 adds the last two as records and any other takes
them from the five. -/
def keepAndAdd : Nat → LogEdit
  | 1 => .truncate 3
  | 3 => .append lastTwo
  | _ => .appendFrames fiveArchive.file (fiveArchive.log lineBoundary 1) 3 none .firstFrame

/-- Writer 1 makes its copy and turns writer 2 away; then writer 3 writes to the file itself. -/
def keepThenAdd : List (Nat × Outcome) :=
  (List.replicate 5 (1, .ok 0)) ++ (2, .ok 0) :: (List.replicate 6 (1, .ok 0)) ++
    (List.replicate 12 (3, .ok 0))

def keepAndAddUpdates (writer : Nat) : Update :=
  (keepAndAdd writer).update storedZeekstd lineBoundary wholeAccess

/-- What the turns come to, where all but writer 3 make copies. -/
def keptAndAdded : Cooperation Nat :=
  (Cooperation.start fiveDisk (fun writer => writer ≠ 3)).run keepAndAddUpdates keepThenAdd

theorem keptAndAdded_effects : keptAndAdded.effects = [.ran 1, .ran 3] := by decide +kernel

/-- What holds of the first of two and of the second behind it holds of each where it stands. -/
theorem forall_split_two {α : Type} {P : List α → α → Prop} {first second : α}
    (hfirst : P [] first) (hsecond : P [first] second) :
    ∀ front now back, [first, second] = front ++ now :: back → P front now := by
  intro front now back hsplit
  match front, hsplit with
  | [], hsplit =>
      cases hsplit
      exact hfirst
  | [only], hsplit =>
      cases hsplit
      exact hsecond
  | _ :: _ :: _, hsplit => simp at hsplit

theorem keptAndAdded_fits : FitsFound storedZeekstd lineBoundary 1 keepAndAdd
    (fun _ => wholeAccess) keepAndAddUpdates fiveArchive.file.bytes keptAndAdded.effects := by
  rw [keptAndAdded_effects]
  have hall : ∀ front effect back, [Effect.ran 1, Effect.ran 3] = front ++ effect :: back →
      ∀ writer, effect = .ran writer → (keepAndAdd writer).Fits storedZeekstd lineBoundary 1
        (wholeAccess.file (composed keepAndAddUpdates fiveArchive.file.bytes front)) := by
    apply forall_split_two
    · intro writer hwriter
      cases hwriter
      trivial
    · intro writer hwriter
      cases hwriter
      exact ⟨⟨by decide, rfl⟩, Or.inl rfl, Or.inr rfl,
        fills_of_wholeWish (fun _ => rfl) (by decide +kernel)⟩
  exact fun front writer back hsplit => hall front _ back hsplit writer rfl

theorem keptAndAdded_unbroken : Unbroken storedZeekstd lineBoundary keepAndAdd
    (fun _ => wholeAccess) keepAndAddUpdates fiveArchive.file.bytes keptAndAdded.effects := by
  rw [keptAndAdded_effects]
  apply forall_split_two
  · exact ⟨1, rfl, Or.inl (by decide +kernel)⟩
  · exact ⟨3, rfl, Or.inl (by decide +kernel)⟩

/-- Writer 3 is the only one that writes to the file itself, and has returned. -/
theorem keptAndAdded_idle (writer : Nat) : ¬ (keptAndAdded.place writer).Updating := by
  have haccounted : Accounted keepAndAddUpdates fiveArchive.file.bytes
      (fun writer => writer ≠ 3) keptAndAdded :=
    (accounted_start fiveDisk _).run (cooperates_start fiveDisk_wellFormed rfl _) keepThenAdd
  by_cases hwriter : writer = 3
  · have hplace : keptAndAdded.place 3 = .inPlace (.done true) := by decide +kernel
    rw [hwriter, hplace]
    exact id
  · have hkind := haccounted.kind writer
    rw [decide_eq_true hwriter] at hkind
    cases hplace : keptAndAdded.place writer with
    | copying pc => exact id
    | inPlace pc =>
        rw [hplace] at hkind
        cases hkind

/-- Both edits are among those that have succeeded, and what is opened then holds the log that
these make. -/
theorem concurrent_edits_are_serial_fiveLines :
    let writers := committed keepAndAddUpdates fiveArchive.file.bytes keptAndAdded.effects
    (1 ∈ writers ∧ 3 ∈ writers) ∧
      ∃ bytes, keptAndAdded.disk.read .target = some bytes ∧
        ∀ file : SeekableFile, file.Of storedZeekstd bytes →
          file.contents.flatten =
            (serial lineBoundary keepAndAdd (fiveArchive.log lineBoundary 1) writers).data := by
  intro writers
  have hwhole : lineBoundary.find.Whole := separatorFinder_whole [10] (by decide)
  have hcounted : fiveArchive.Counted lineBoundary 1 :=
    ⟨fiveArchive_uniform, by decide +kernel⟩
  obtain ⟨-, hdone, hheld⟩ := concurrent_edits_are_serial hwhole fiveDisk_wellFormed hcounted rfl
    (fun writer => (keepAndAdd writer).runs_update storedZeekstd lineBoundary wholeAccess)
    (fun writer => writer ≠ 3) keepThenAdd keptAndAdded_fits
  obtain ⟨bytes, hread, -, hanswers⟩ := hheld (Or.inr ⟨keptAndAdded_unbroken, keptAndAdded_idle⟩)
  exact ⟨⟨hdone 1 (Or.inl (by decide +kernel)), hdone 3 (Or.inr (by decide +kernel))⟩, bytes,
    hread, fun file hfile => (hanswers file hfile).1⟩

end SeekZstdSep
