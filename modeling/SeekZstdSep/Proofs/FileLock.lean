/-
Module: SeekZstdSep.Proofs.FileLock
Purpose: Writers that update one target, some in place under its lock and some through a copy they
  rename over it, lose nothing of each other's, in whatever order they take their steps and
  whichever of these fail.
Trusted boundary: the file system, as `Directory` has it
Main exports: Place.Holds, Place.Updating, composed, Cooperates, Accounted,
  cooperating_writers_lose_nothing
-/
import SeekZstdSep.Core.FileLock
import SeekZstdSep.Proofs.FileUpdate

namespace SeekZstdSep

open Lib

variable {Writer : Type} {disk : Disk Writer} {writer : Writer}

/-- Between the creation of the lock and its removal. -/
def LockPc.Holds : LockPc → Prop
  | .called => False
  | .done _ => False
  | _ => True

/-- Between the creation of the lock and its removal. -/
def Place.Holds : Place → Prop
  | .copying pc => pc.Holds
  | .inPlace pc => pc.Holds

/-- An update is writing to the target itself. -/
def Place.Updating : Place → Prop
  | .inPlace (.updating _ _ _) => True
  | _ => False

theorem Place.Updating.holds {place : Place} (h : place.Updating) : place.Holds := by
  cases place with
  | copying pc => exact h.elim
  | inPlace pc =>
      cases pc with
      | updating original before made => trivial
      | _ => exact h.elim

/-- What an effect makes of the content of the target. -/
def Effect.apply (updates : Writer → Update) (content : Bytes) : Effect Writer → Bytes
  | .ran writer => (updates writer).result content
  | .broke _ left => left

/-- What effects make of a content, one behind the other. -/
def composed (updates : Writer → Update) (content : Bytes) (effects : List (Effect Writer)) :
    Bytes := effects.foldl (Effect.apply updates) content

theorem composed_append (updates : Writer → Update) (content : Bytes)
    (effects effects' : List (Effect Writer)) :
    composed updates content (effects ++ effects') =
      composed updates (composed updates content effects) effects' :=
  List.foldl_append

/-- A copy behind an update that succeeded, before it is renamed. -/
def Pc.Ready : Pc → Prop
  | .updated _ => True
  | .preserved _ => True
  | _ => False

/-- What a writer may rely on where it is, `base` being what the effects so far come to. -/
def Place.Knows (update : Update) (writer : Writer) (disk : Disk Writer) (base : Bytes) :
    Place → Prop
  | .copying pc =>
      SeekZstdSep.Knows update.result writer disk pc ∧ (pc.Ready → update.ok base = true)
  | .inPlace (.updating original before made) =>
      disk.entry .target = some original ∧ before = base ∧
        (before :: update.writes before)[made]? = some (disk.content original)
  | .inPlace _ => True

theorem Place.knows_of_not_holds {update : Update} {base : Bytes} {place : Place}
    (h : ¬ place.Holds) : place.Knows update writer disk base := by
  cases place with
  | copying pc =>
      refine ⟨SeekZstdSep.knows_of_not_holds h, fun hready => ?_⟩
      cases pc with
      | updated temp => exact absurd trivial h
      | preserved temp => exact absurd trivial h
      | _ => exact hready.elim
  | inPlace pc =>
      cases pc with
      | updating original before made => exact absurd trivial h
      | _ => trivial

/-- While another has the lock, a call that does not changes nothing and gets nowhere. -/
theorem lockStep_of_locked {owner : Writer} {update : Update} (outcome : Outcome) {pc : LockPc}
    (hlock : HasLock disk owner) (hout : ¬ pc.Holds) :
    (lockStep update writer outcome disk pc).1 = disk ∧
      (∃ ok, (lockStep update writer outcome disk pc).2 = .done ok) ∧
      lockEffect update writer outcome pc = [] := by
  obtain ⟨file, hentry, -⟩ := hlock
  cases pc with
  | called =>
      cases outcome with
      | fail left => exact ⟨rfl, ⟨false, rfl⟩, rfl⟩
      | ok count =>
          rw [lockStep, Directory.createNew_of_taken hentry]
          exact ⟨rfl, ⟨false, rfl⟩, rfl⟩
  | done ok => exact ⟨rfl, ⟨ok, rfl⟩, rfl⟩
  | locked => exact absurd trivial hout
  | updating => exact absurd trivial hout
  | closing => exact absurd trivial hout

/-! ### What a step makes of the target -/

/-- What holds behind a step that leads to `place`, with `base` what the target came to before it
and `next` what it comes to. -/
structure Turned (update : Update) (writer : Writer) (disk : Disk Writer) (place : Place)
    (next : Bytes) : Prop where
  wellFormed : disk.WellFormed
  lock : place.Holds → HasLock disk writer
  knows : place.Knows update writer disk next
  idle : ¬ place.Updating → disk.read .target = some next

/-- An update with no write left has written what it comes to. -/
theorem Update.result_of_written {update : Update} {before content : Bytes} {made : Nat}
    (hcontent : (before :: update.writes before)[made]? = some content)
    (hend : (update.writes before)[made]? = none) : update.result before = content := by
  have hle : (update.writes before).length ≤ made := List.getElem?_eq_none_iff.mp hend
  have hlt : made < (before :: update.writes before).length := by
    rw [List.getElem?_eq_some_iff] at hcontent
    exact hcontent.1
  have hmade : made = (update.writes before).length := by
    rw [List.length_cons] at hlt
    omega
  subst hmade
  have hlast : (before :: update.writes before).getLast? = some content := by
    rw [List.getLast?_eq_getElem?]
    exact hcontent
  rw [List.getLast?_cons, Option.some.injEq] at hlast
  rw [Update.result, List.getLastD_eq_getLast?]
  exact hlast

/-- A step of a call of `with_file_lock`. -/
theorem lockStep_turned {updates : Writer → Update} (outcome : Outcome) {pc : LockPc}
    {base : Bytes} (h : Turned (updates writer) writer disk (.inPlace pc) base) :
    Turned (updates writer) writer (lockStep (updates writer) writer outcome disk pc).1
      (.inPlace (lockStep (updates writer) writer outcome disk pc).2)
      (composed updates base (lockEffect (updates writer) writer outcome pc)) := by
  cases pc with
  | called =>
      have hread := h.idle (fun hupdating => hupdating)
      cases outcome with
      | fail left => exact ⟨h.wellFormed, fun hholds => hholds.elim, trivial, fun _ => hread⟩
      | ok count =>
          rw [lockStep]
          cases hcreate : disk.createNew .lock writer [] with
          | none => exact ⟨h.wellFormed, fun hholds => hholds.elim, trivial, fun _ => hread⟩
          | some got =>
              have created := Directory.created_of_createNew hcreate
              refine ⟨created.wellFormed h.wellFormed,
                fun _ => ⟨_, created.entry_self, created.creator_self⟩, trivial, fun _ => ?_⟩
              rw [created.read_of_ne h.wellFormed (by decide)]
              exact hread
  | locked =>
      have hlock := h.lock trivial
      have hread := h.idle (fun hupdating => hupdating)
      cases outcome with
      | fail left => exact ⟨h.wellFormed, fun _ => hlock, trivial, fun _ => hread⟩
      | ok count =>
          rw [lockStep]
          cases htarget : disk.entry .target with
          | none => exact ⟨h.wellFormed, fun _ => hlock, trivial, fun _ => hread⟩
          | some original =>
              have hbase : disk.content original = base := by
                rw [Directory.read_of_entry htarget, Option.some.injEq] at hread
                exact hread
              exact ⟨h.wellFormed, fun _ => hlock, ⟨htarget, hbase, rfl⟩,
                fun hnot => absurd trivial hnot⟩
  | updating original before made =>
      have hlock := h.lock trivial
      obtain ⟨htarget, rfl, hcontent⟩ := h.knows
      simp only [lockStep, lockEffect]
      cases hwrite : ((updates writer).writes before)[made]? with
      | none =>
          refine ⟨h.wellFormed, fun _ => hlock, trivial, fun _ => ?_⟩
          have hresult : composed updates before [Effect.ran writer] = disk.content original :=
            Update.result_of_written hcontent hwrite
          rw [hresult]
          exact Directory.read_of_entry htarget
      | some bytes =>
          cases outcome with
          | fail left =>
              exact ⟨h.wellFormed.write _ _, fun _ => hlock, trivial,
                fun _ => Directory.read_write_self htarget left⟩
          | ok count =>
              refine ⟨h.wellFormed.write _ _, fun _ => hlock, ⟨htarget, rfl, ?_⟩,
                fun hnot => absurd trivial hnot⟩
              rw [List.getElem?_cons_succ, hwrite, Directory.write_content_self]
  | closing ok =>
      have hlock := h.lock trivial
      have hread := h.idle (fun hupdating => hupdating)
      cases outcome with
      | fail left => exact ⟨h.wellFormed, fun hholds => hholds.elim, trivial, fun _ => hread⟩
      | ok count =>
          rw [lockStep]
          cases hremove : disk.remove .lock with
          | none => exact ⟨h.wellFormed, fun hholds => hholds.elim, trivial, fun _ => hread⟩
          | some disk' =>
              refine ⟨h.wellFormed.remove hremove, fun hholds => hholds.elim, trivial,
                fun _ => ?_⟩
              rw [Directory.read_remove_of_ne hremove (by decide)]
              exact hread
  | done ok => exact ⟨h.wellFormed, fun hholds => hholds.elim, trivial, h.idle⟩

/-- A copy is ready behind an update that succeeded on what the target holds. -/
theorem ready_of_step {update : Update} {outcome : Outcome} {pc : Pc} {base : Bytes}
    (hknows : SeekZstdSep.Knows update.result writer disk pc)
    (hready : pc.Ready → update.ok base = true) (hread : disk.read .target = some base)
    (h : (writerStep update.result writer (update.outcome disk pc outcome) disk pc).2.Ready) :
    update.ok base = true := by
  cases pc with
  | copied temp =>
      obtain ⟨-, hsame⟩ := hknows
      rw [hread, Option.some.injEq] at hsame
      cases outcome with
      | fail left => exact h.elim
      | ok count =>
          cases hok : update.ok (disk.content temp) with
          | true =>
              rw [hsame]
              exact hok
          | false =>
              rw [Update.outcome, hok] at h
              exact h.elim
  | updated temp => exact hready trivial
  | preserved temp => exact hready trivial
  | _ =>
      -- no other step leads to a copy that is ready
      exfalso
      cases outcome <;> rw [Update.outcome, writerStep] at h <;> (try split at h) <;>
        first | exact h | (intro _ _ hpc; cases hpc)

/-- Only a copy that is ready is renamed. -/
theorem ready_of_replaced {update : Bytes → Bytes} {outcome : Outcome} {pc : Pc}
    (h : (writerStep update writer outcome disk pc).2 = .replaced) : pc.Ready := by
  cases pc with
  | updated temp => trivial
  | preserved temp => trivial
  | _ =>
      exfalso
      cases outcome <;> rw [writerStep] at h <;> (try split at h) <;> cases h

/-- A step of a `copy_and_replace`. -/
theorem writerStep_turned {updates : Writer → Update} (outcome : Outcome) {pc : Pc} {base : Bytes}
    (h : Turned (updates writer) writer disk (.copying pc) base) :
    let next := writerStep (updates writer).result writer
      ((updates writer).outcome disk pc outcome) disk pc
    Turned (updates writer) writer next.1 (.copying next.2)
      (composed updates base (copyEffect writer next.2)) := by
  intro next
  obtain ⟨hknows, hready⟩ := h.knows
  have hread := h.idle (fun hupdating => hupdating)
  have hafter : After (updates writer).result writer disk next.1 next.2 :=
    writerStep_after _ h.wellFormed h.lock hknows
  have hmove : Move writer disk next.1 := writerStep_move _ h.lock hknows
  refine ⟨hmove.wellFormed h.wellFormed, hafter.lock, ⟨hafter.knows, fun hready' => ?_⟩,
    fun _ => ?_⟩
  · have hkept : next.2 ≠ .replaced := by
      intro hreplaced
      rw [hreplaced] at hready'
      exact hready'
    rw [copyEffect, if_neg hkept]
    exact ready_of_step hknows hready hread hready'
  · have htarget := hafter.target
    split at htarget
    · next hreplaced =>
        obtain ⟨content, hcontent, hwritten⟩ := htarget
        rw [hread, Option.some.injEq] at hcontent
        rw [copyEffect, if_pos hreplaced, hwritten, ← hcontent]
        rfl
    · next hreplaced =>
        rw [copyEffect, if_neg hreplaced, htarget.2]
        exact hread

/-! ### Who has changed the target -/

/-- Whose effect it is. -/
def Effect.owner : Effect Writer → Writer
  | .ran writer => writer
  | .broke writer _ => writer

/-- A call of `copy_and_replace`. -/
def Place.copies : Place → Bool
  | .copying _ => true
  | .inPlace _ => false

/-- Behind what a call does to the target. -/
def Place.Past : Place → Prop
  | .copying pc => pc.Past
  | .inPlace (.closing _) => True
  | .inPlace (.done _) => True
  | .inPlace _ => False

/-- A call whose update has succeeded on the target and that has not failed since. -/
def Place.Published : Place → Prop
  | .copying pc => pc.Published
  | .inPlace (.closing ok) => ok = true
  | .inPlace (.done ok) => ok = true
  | .inPlace _ => False

/-- What a step of a writer adds to the effects: one at most, where the writer has had none. -/
structure Adds (update : Update) (writer : Writer) (base : Bytes) (place place' : Place)
    (added : List (Effect Writer)) : Prop where
  kind : place'.copies = place.copies
  past : place.Past → place'.Past ∧ added = []
  one : added = [] ∨ ∃ effect, added = [effect] ∧ effect.owner = writer ∧ place'.Past ∧
    (place.copies = true → effect = .ran writer ∧ update.ok base = true)
  published : place'.Published →
    place.Published ∨ (added = [.ran writer] ∧ update.ok base = true)

theorem writerStep_adds {update : Update} (outcome : Outcome) {pc : Pc} {base : Bytes}
    (hready : pc.Ready → update.ok base = true) :
    let next := writerStep update.result writer (update.outcome disk pc outcome) disk pc
    Adds update writer base (.copying pc) (.copying next.2) (copyEffect writer next.2) := by
  intro next
  have hok : next.2 = .replaced → update.ok base = true := fun hreplaced =>
    hready (ready_of_replaced hreplaced)
  refine ⟨rfl, fun hpast => ?_, ?_, fun hpublished => ?_⟩
  · have hpast' : next.2.Past ∧ next.2 ≠ .replaced := past_of_step _ hpast
    exact ⟨hpast'.1, if_neg hpast'.2⟩
  · by_cases hreplaced : next.2 = .replaced
    · refine Or.inr ⟨.ran writer, if_pos hreplaced, rfl, ?_, fun _ => ⟨rfl, hok hreplaced⟩⟩
      rw [hreplaced]
      trivial
    · exact Or.inl (if_neg hreplaced)
  · have hpublished' : next.2 = .replaced ∨ pc.Published := published_of_step hpublished
    rcases hpublished' with hreplaced | hpublished'
    · exact Or.inr ⟨if_pos hreplaced, hok hreplaced⟩
    · exact Or.inl hpublished'

theorem lockStep_adds {update : Update} (outcome : Outcome) {pc : LockPc} {base : Bytes}
    (hknows : (Place.inPlace pc).Knows update writer disk base) :
    Adds update writer base (.inPlace pc) (.inPlace (lockStep update writer outcome disk pc).2)
      (lockEffect update writer outcome pc) := by
  cases pc with
  | called =>
      refine ⟨rfl, fun hpast => hpast.elim, Or.inl rfl, fun hpublished => Or.inl ?_⟩
      cases outcome with
      | fail left => cases hpublished
      | ok count =>
          rw [lockStep] at hpublished
          split at hpublished <;> cases hpublished
  | locked =>
      refine ⟨rfl, fun hpast => hpast.elim, Or.inl rfl, fun hpublished => Or.inl ?_⟩
      cases outcome with
      | fail left => cases hpublished
      | ok count =>
          rw [lockStep] at hpublished
          split at hpublished <;> cases hpublished
  | updating original before made =>
      obtain ⟨-, rfl, -⟩ := hknows
      simp only [lockStep, lockEffect]
      cases hwrite : (update.writes before)[made]? with
      | none =>
          exact ⟨rfl, fun hpast => hpast.elim,
            Or.inr ⟨.ran writer, rfl, rfl, trivial, fun hcopies => by cases hcopies⟩,
            fun hpublished => Or.inr ⟨rfl, hpublished⟩⟩
      | some bytes =>
          cases outcome with
          | fail left =>
              exact ⟨rfl, fun hpast => hpast.elim,
                Or.inr ⟨.broke writer left, rfl, rfl, trivial, fun hcopies => by cases hcopies⟩,
                fun hpublished => by cases hpublished⟩
          | ok count =>
              exact ⟨rfl, fun hpast => hpast.elim, Or.inl rfl, fun hpublished => hpublished.elim⟩
  | closing ok =>
      refine ⟨rfl, fun _ => ⟨?_, rfl⟩, Or.inl rfl, fun hpublished => Or.inl ?_⟩
      · cases outcome with
        | fail left => trivial
        | ok count =>
            rw [lockStep]
            split <;> trivial
      · cases outcome with
        | fail left => cases hpublished
        | ok count =>
            rw [lockStep] at hpublished
            split at hpublished
            · cases hpublished
            · exact hpublished
  | done ok => exact ⟨rfl, fun _ => ⟨trivial, rfl⟩, Or.inl rfl, Or.inl⟩

section Cooperation

variable [DecidableEq Writer] {updates : Writer → Update} {content : Bytes}
  {s : Cooperation Writer}

namespace Cooperation

theorem step_copying {turn : Writer × Outcome} {pc : Pc} (h : s.place turn.1 = .copying pc) :
    s.step updates turn =
      let next := writerStep (updates turn.1).result turn.1
        ((updates turn.1).outcome s.disk pc turn.2) s.disk pc
      { disk := next.1
        place := Function.update s.place turn.1 (.copying next.2)
        effects := s.effects ++ copyEffect turn.1 next.2 } := by
  rw [step]
  simp only [h]

theorem step_inPlace {turn : Writer × Outcome} {pc : LockPc} (h : s.place turn.1 = .inPlace pc) :
    s.step updates turn =
      let next := lockStep (updates turn.1) turn.1 turn.2 s.disk pc
      { disk := next.1
        place := Function.update s.place turn.1 (.inPlace next.2)
        effects := s.effects ++ lockEffect (updates turn.1) turn.1 turn.2 pc } := by
  rw [step]
  simp only [h]

theorem place_step_of_ne {turn : Writer × Outcome} {writer : Writer} (hne : writer ≠ turn.1) :
    (s.step updates turn).place writer = s.place writer := by
  cases hplace : s.place turn.1 with
  | copying pc =>
      rw [step_copying hplace]
      exact Function.update_of_ne hne _ _
  | inPlace pc =>
      rw [step_inPlace hplace]
      exact Function.update_of_ne hne _ _

end Cooperation

/-- What holds of the writers at any time: each that is between lock and release has the lock and
knows what it may rely on, and where no update is writing to the target it holds what the effects
so far come to. -/
structure Cooperates (updates : Writer → Update) (content : Bytes) (s : Cooperation Writer) :
    Prop where
  wellFormed : s.disk.WellFormed
  lock : ∀ writer, (s.place writer).Holds → HasLock s.disk writer
  knows : ∀ writer, (s.place writer).Knows (updates writer) writer s.disk
    (composed updates content s.effects)
  idle : (∀ writer, ¬ (s.place writer).Updating) →
    s.disk.read .target = some (composed updates content s.effects)

namespace Cooperates

/-- A step of a writer while another holds the lock. -/
theorem step_of_locked (h : Cooperates updates content s) {turn : Writer × Outcome}
    {owner : Writer} (hne : owner ≠ turn.1) (hholds : (s.place owner).Holds) :
    (s.step updates turn).disk = s.disk ∧ (s.step updates turn).effects = s.effects ∧
      ¬ ((s.step updates turn).place turn.1).Holds := by
  have hlock := h.lock owner hholds
  have hout : ¬ (s.place turn.1).Holds := fun hself =>
    hne (hlock.unique (h.lock turn.1 hself))
  cases hplace : s.place turn.1 with
  | copying pc =>
      rw [hplace] at hout
      rw [Cooperation.step_copying hplace]
      have hstep : (writerStep (updates turn.1).result turn.1
          ((updates turn.1).outcome s.disk pc turn.2) s.disk pc).1 = s.disk ∧
          ∃ ok, (writerStep (updates turn.1).result turn.1
            ((updates turn.1).outcome s.disk pc turn.2) s.disk pc).2 = .done ok :=
        writerStep_of_locked _ hlock hout
      obtain ⟨hdisk, ok, hpc⟩ := hstep
      refine ⟨hdisk, ?_, ?_⟩
      · simp only [hpc]
        exact List.append_nil _
      · simp only [Function.update_self, hpc]
        exact fun hself => hself
  | inPlace pc =>
      rw [hplace] at hout
      rw [Cooperation.step_inPlace hplace]
      have hstep : (lockStep (updates turn.1) turn.1 turn.2 s.disk pc).1 = s.disk ∧
          (∃ ok, (lockStep (updates turn.1) turn.1 turn.2 s.disk pc).2 = .done ok) ∧
          lockEffect (updates turn.1) turn.1 turn.2 pc = [] :=
        lockStep_of_locked turn.2 hlock hout
      obtain ⟨hdisk, ⟨ok, hpc⟩, heffect⟩ := hstep
      refine ⟨hdisk, ?_, ?_⟩
      · simp only [heffect, List.append_nil]
      · simp only [Function.update_self, hpc]
        exact fun hself => hself

/-- What a step of the turn's own writer comes to, where nobody else holds the lock. -/
theorem turned (h : Cooperates updates content s) {turn : Writer × Outcome}
    (hfree : ∀ writer, writer ≠ turn.1 → ¬ (s.place writer).Holds) :
    Turned (updates turn.1) turn.1 (s.step updates turn).disk
      ((s.step updates turn).place turn.1)
      (composed updates content (s.step updates turn).effects) := by
  have hnow : Turned (updates turn.1) turn.1 s.disk (s.place turn.1)
      (composed updates content s.effects) := by
    refine ⟨h.wellFormed, h.lock turn.1, h.knows turn.1, fun hnot => h.idle fun writer => ?_⟩
    by_cases hne : writer = turn.1
    · rw [hne]
      exact hnot
    · exact fun hupdating => hfree writer hne hupdating.holds
  cases hplace : s.place turn.1 with
  | copying pc =>
      rw [hplace] at hnow
      have hturned := writerStep_turned turn.2 hnow
      rw [Cooperation.step_copying hplace]
      simp only [Function.update_self, composed_append]
      exact hturned
  | inPlace pc =>
      rw [hplace] at hnow
      have hturned := lockStep_turned turn.2 hnow
      rw [Cooperation.step_inPlace hplace]
      simp only [Function.update_self, composed_append]
      exact hturned

/-- Every step of a writer keeps it. -/
theorem step (h : Cooperates updates content s) (turn : Writer × Outcome) :
    Cooperates updates content (s.step updates turn) := by
  by_cases hheld : ∃ owner, owner ≠ turn.1 ∧ (s.place owner).Holds
  · obtain ⟨owner, hne, hholds⟩ := hheld
    obtain ⟨hdisk, heffects, hself⟩ := h.step_of_locked hne hholds
    refine ⟨hdisk ▸ h.wellFormed, fun writer hin => ?_, fun writer => ?_, fun hnot => ?_⟩
    · by_cases hwriter : writer = turn.1
      · rw [hwriter] at hin
        exact absurd hin hself
      · rw [Cooperation.place_step_of_ne hwriter] at hin
        rw [hdisk]
        exact h.lock writer hin
    · by_cases hwriter : writer = turn.1
      · rw [hwriter]
        exact Place.knows_of_not_holds hself
      · rw [Cooperation.place_step_of_ne hwriter, hdisk, heffects]
        exact h.knows writer
    · rw [hdisk, heffects]
      apply h.idle
      intro writer hupdating
      by_cases hwriter : writer = turn.1
      · -- it would hold the lock that the other holds
        rw [hwriter] at hupdating
        exact hne ((h.lock owner hholds).unique (h.lock turn.1 hupdating.holds))
      · apply hnot writer
        rw [Cooperation.place_step_of_ne hwriter]
        exact hupdating
  · have hfree : ∀ writer, writer ≠ turn.1 → ¬ (s.place writer).Holds :=
      fun writer hne hholds => hheld ⟨writer, hne, hholds⟩
    have hturned := h.turned hfree
    refine ⟨hturned.wellFormed, fun writer hin => ?_, fun writer => ?_,
      fun hnot => hturned.idle (hnot turn.1)⟩
    · by_cases hwriter : writer = turn.1
      · rw [hwriter] at hin ⊢
        exact hturned.lock hin
      · rw [Cooperation.place_step_of_ne hwriter] at hin
        exact absurd hin (hfree writer hwriter)
    · by_cases hwriter : writer = turn.1
      · rw [hwriter]
        exact hturned.knows
      · rw [Cooperation.place_step_of_ne hwriter]
        exact Place.knows_of_not_holds (hfree writer hwriter)

theorem run (h : Cooperates updates content s) (turns : List (Writer × Outcome)) :
    Cooperates updates content (s.run updates turns) := by
  induction turns generalizing s with
  | nil => exact h
  | cons turn turns ih => exact ih (h.step turn)

end Cooperates

omit [DecidableEq Writer] in
theorem cooperates_start {disk : Disk Writer} (hwell : disk.WellFormed)
    (htarget : disk.read .target = some content) (copies : Writer → Bool) :
    Cooperates updates content (Cooperation.start disk copies) where
  wellFormed := hwell
  lock writer hin := by
    exfalso
    simp only [Cooperation.start] at hin
    split at hin <;> exact hin
  knows writer := by
    apply Place.knows_of_not_holds
    intro hin
    simp only [Cooperation.start] at hin
    split at hin <;> exact hin
  idle _ := htarget

/-- The update of a writer is among the effects, and has succeeded on what it found. -/
def RanWell (updates : Writer → Update) (content : Bytes) (effects : List (Effect Writer))
    (writer : Writer) : Prop :=
  ∃ front back, effects = front ++ .ran writer :: back ∧
    (updates writer).ok (composed updates content front) = true

/-- Who is among the effects, by where the writers are. -/
structure Accounted (updates : Writer → Update) (content : Bytes) (copies : Writer → Bool)
    (s : Cooperation Writer) : Prop where
  kind : ∀ writer, (s.place writer).copies = copies writer
  nodup : (s.effects.map Effect.owner).Nodup
  past : ∀ effect ∈ s.effects, (s.place effect.owner).Past
  published : ∀ writer, (s.place writer).Published → RanWell updates content s.effects writer
  /-- of a copy, all or nothing -/
  whole : ∀ front effect back, s.effects = front ++ effect :: back →
    copies effect.owner = true →
    effect = .ran effect.owner ∧
      (updates effect.owner).ok (composed updates content front) = true

/-- What a step adds. -/
theorem Cooperates.adds (h : Cooperates updates content s) (turn : Writer × Outcome) :
    ∃ added, (s.step updates turn).effects = s.effects ++ added ∧
      Adds (updates turn.1) turn.1 (composed updates content s.effects) (s.place turn.1)
        ((s.step updates turn).place turn.1) added := by
  have hknows := h.knows turn.1
  cases hplace : s.place turn.1 with
  | copying pc =>
      rw [hplace] at hknows
      rw [Cooperation.step_copying hplace]
      refine ⟨_, rfl, ?_⟩
      simp only [Function.update_self]
      exact writerStep_adds turn.2 hknows.2
  | inPlace pc =>
      rw [hplace] at hknows
      rw [Cooperation.step_inPlace hplace]
      refine ⟨_, rfl, ?_⟩
      simp only [Function.update_self]
      exact lockStep_adds turn.2 hknows

omit [DecidableEq Writer] in
theorem RanWell.append {effects : List (Effect Writer)} {writer : Writer}
    (h : RanWell updates content effects writer) (added : List (Effect Writer)) :
    RanWell updates content (effects ++ added) writer := by
  obtain ⟨front, back, rfl, hok⟩ := h
  exact ⟨front, back ++ added, by rw [List.append_assoc, List.cons_append], hok⟩

/-- Every step of a writer keeps it. -/
theorem Accounted.step {copies : Writer → Bool} (h : Accounted updates content copies s)
    (hcooperates : Cooperates updates content s) (turn : Writer × Outcome) :
    Accounted updates content copies (s.step updates turn) := by
  obtain ⟨added, heffects, hadds⟩ := hcooperates.adds turn
  have hcopies : ∀ writer, ((s.step updates turn).place writer).copies = copies writer := by
    intro writer
    by_cases hwriter : writer = turn.1
    · rw [hwriter, hadds.kind, h.kind]
    · rw [Cooperation.place_step_of_ne hwriter, h.kind]
  have hpast : ∀ effect ∈ s.effects, ((s.step updates turn).place effect.owner).Past := by
    intro effect hin
    by_cases hwriter : effect.owner = turn.1
    · rw [hwriter]
      exact (hadds.past (hwriter ▸ h.past effect hin)).1
    · rw [Cooperation.place_step_of_ne hwriter]
      exact h.past effect hin
  have hpublished : ∀ writer, ((s.step updates turn).place writer).Published →
      RanWell updates content (s.step updates turn).effects writer := by
    intro writer hpub
    rw [heffects]
    by_cases hwriter : writer = turn.1
    · rw [hwriter] at hpub ⊢
      rcases hadds.published hpub with hbefore | ⟨hran, hok⟩
      · exact (h.published turn.1 hbefore).append added
      · exact ⟨s.effects, [], by rw [hran], hok⟩
    · rw [Cooperation.place_step_of_ne hwriter] at hpub
      exact (h.published writer hpub).append added
  rcases hadds.one with hnone | ⟨effect, hone, hwriter, hthere, hwhole⟩
  · rw [hnone, List.append_nil] at heffects
    refine ⟨hcopies, heffects ▸ h.nodup, heffects ▸ hpast, hpublished, ?_⟩
    rw [heffects]
    exact h.whole
  · rw [hone] at heffects
    have hnew : ∀ old ∈ s.effects, old.owner ≠ effect.owner := by
      intro old hin hsame
      have hnil := (hadds.past (by rw [← hwriter, ← hsame]; exact h.past old hin)).2
      rw [hone] at hnil
      cases hnil
    refine ⟨hcopies, ?_, ?_, hpublished, ?_⟩
    · rw [heffects, List.map_append, List.nodup_append]
      refine ⟨h.nodup, List.pairwise_singleton _ _, ?_⟩
      rintro writer hold _ hsingle rfl
      obtain ⟨old, hin, rfl⟩ := List.mem_map.mp hold
      exact hnew old hin (List.mem_singleton.mp hsingle)
    · intro effect' hin
      rw [heffects] at hin
      rcases List.mem_append.mp hin with hin | hin
      · exact hpast effect' hin
      · rw [List.mem_singleton.mp hin, hwriter]
        exact hthere
    · intro front effect' back hsplit hcopying
      rw [heffects] at hsplit
      rcases List.eq_nil_or_concat back with rfl | ⟨back, last, rfl⟩
      · obtain ⟨rfl, hlast⟩ := List.append_inj' hsplit rfl
        obtain rfl : effect = effect' := List.singleton_inj.mp hlast
        rw [hwriter] at hcopying ⊢
        exact hwhole ((h.kind turn.1).trans hcopying)
      · rw [List.concat_eq_append, ← List.cons_append, ← List.append_assoc] at hsplit
        exact h.whole front effect' back (List.append_inj' hsplit rfl).1 hcopying

theorem Accounted.run {copies : Writer → Bool} (h : Accounted updates content copies s)
    (hcooperates : Cooperates updates content s) (turns : List (Writer × Outcome)) :
    Accounted updates content copies (s.run updates turns) := by
  induction turns generalizing s with
  | nil => exact h
  | cons turn turns ih => exact ih (h.step hcooperates turn) (hcooperates.step turn)

omit [DecidableEq Writer] in
theorem accounted_start (disk : Disk Writer) (copies : Writer → Bool) :
    Accounted updates content copies (Cooperation.start disk copies) where
  kind writer := by
    simp only [Cooperation.start]
    cases copies writer <;> rfl
  nodup := List.nodup_nil
  past _ hin := absurd hin List.not_mem_nil
  published writer hpublished := by
    exfalso
    simp only [Cooperation.start] at hpublished
    split at hpublished <;> exact hpublished
  whole front effect back hsplit := by
    exfalso
    have hlength := congrArg List.length hsplit
    rw [List.length_append] at hlength
    simp [Cooperation.start] at hlength

/-! ### Whose files a step touches -/

omit [DecidableEq Writer] in
/-- A call of `with_file_lock` writes to the target; else it moves as any writer may. -/
theorem lockStep_move {update : Update} (outcome : Outcome) {pc : LockPc} {base : Bytes}
    (hlock : pc.Holds → HasLock disk writer)
    (hknows : (Place.inPlace pc).Knows update writer disk base) :
    Move writer disk (lockStep update writer outcome disk pc).1 ∨
      (Place.inPlace pc).Updating ∧ ∃ original content, disk.entry .target = some original ∧
        (lockStep update writer outcome disk pc).1 = disk.write original content := by
  cases pc with
  | called =>
      refine Or.inl ?_
      cases outcome with
      | fail left => exact Move.stays
      | ok count =>
          rw [lockStep]
          cases hcreate : disk.createNew .lock writer [] with
          | none => exact Move.stays
          | some got =>
              exact Move.creates (by decide) (Directory.created_of_createNew hcreate)
  | locked =>
      refine Or.inl ?_
      cases outcome with
      | fail left => exact Move.stays
      | ok count =>
          rw [lockStep]
          cases disk.entry .target <;> exact Move.stays
  | updating original before made =>
      rw [lockStep]
      cases (update.writes before)[made]? with
      | none => exact Or.inl Move.stays
      | some bytes =>
          cases outcome with
          | fail left => exact Or.inr ⟨trivial, original, left, hknows.1, rfl⟩
          | ok count => exact Or.inr ⟨trivial, original, bytes, hknows.1, rfl⟩
  | closing ok =>
      refine Or.inl ?_
      cases outcome with
      | fail left => exact Move.stays
      | ok count =>
          obtain ⟨file, hentry, hcreator⟩ := hlock trivial
          rw [lockStep]
          cases hremove : disk.remove .lock with
          | none => exact Move.stays
          | some disk' => exact Move.removes (by decide) hentry hcreator hremove
  | done ok => exact Or.inl Move.stays

omit [DecidableEq Writer] in
/-- Outside its update a call of `with_file_lock` leaves the target as it is. -/
theorem lockStep_read_target {update : Update} (outcome : Outcome) {pc : LockPc}
    (hwell : disk.WellFormed) (hnot : ¬ (Place.inPlace pc).Updating) :
    (lockStep update writer outcome disk pc).1.read .target = disk.read .target := by
  cases pc with
  | called =>
      cases outcome with
      | fail left => rfl
      | ok count =>
          rw [lockStep]
          cases hcreate : disk.createNew .lock writer [] with
          | none => rfl
          | some got =>
              exact (Directory.created_of_createNew hcreate).read_of_ne hwell (by decide)
  | locked =>
      cases outcome with
      | fail left => rfl
      | ok count =>
          rw [lockStep]
          cases disk.entry .target <;> rfl
  | updating original before made => exact absurd trivial hnot
  | closing ok =>
      cases outcome with
      | fail left => rfl
      | ok count =>
          rw [lockStep]
          cases hremove : disk.remove .lock with
          | none => rfl
          | some disk' => exact Directory.read_remove_of_ne hremove (by decide)
  | done ok => rfl

/-- A lock or a copy that a step takes away or writes over is the writer's own. -/
theorem Cooperates.owns (h : Cooperates updates content s) {turn : Writer × Outcome}
    {name : FileName} {file : Nat} (hname : name ≠ .target)
    (hentry : s.disk.entry name = some file)
    (hchanged : (s.step updates turn).disk.entry name ≠ some file ∨
      (s.step updates turn).disk.content file ≠ s.disk.content file) :
    s.disk.creator file = some turn.1 := by
  have hlock := h.lock turn.1
  have hknows := h.knows turn.1
  cases hplace : s.place turn.1 with
  | copying pc =>
      rw [hplace] at hlock hknows
      rw [Cooperation.step_copying hplace] at hchanged
      exact (writerStep_move _ hlock hknows.1).owns h.wellFormed hname hentry hchanged
  | inPlace pc =>
      rw [hplace] at hlock hknows
      rw [Cooperation.step_inPlace hplace] at hchanged
      rcases lockStep_move turn.2 hlock hknows with hmove | ⟨-, original, bytes, htarget, hdisk⟩
      · exact hmove.owns h.wellFormed hname hentry hchanged
      · -- the target has no second name
        have hother : file ≠ original := by
          rintro rfl
          exact hname (h.wellFormed.one_name hentry htarget)
        simp only [hdisk] at hchanged
        rw [Directory.write_entry, Directory.write_content_of_ne hother] at hchanged
        exact absurd hchanged (by simp [hentry])

/-- The target changes where an update writes to it, and where a copy is renamed over it. -/
theorem Cooperates.target_changes (h : Cooperates updates content s) {turn : Writer × Outcome}
    (hchanged : (s.step updates turn).disk.read .target ≠ s.disk.read .target) :
    (s.place turn.1).Updating ∨
      (s.place turn.1).copies = true ∧
        (s.step updates turn).effects = s.effects ++ [.ran turn.1] := by
  have hlock := h.lock turn.1
  have hknows := h.knows turn.1
  cases hplace : s.place turn.1 with
  | copying pc =>
      rw [hplace] at hlock hknows
      rw [Cooperation.step_copying hplace] at hchanged ⊢
      refine Or.inr ⟨rfl, ?_⟩
      have hafter := (writerStep_after ((updates turn.1).outcome s.disk pc turn.2)
        h.wellFormed hlock hknows.1).target
      split at hafter
      · next hreplaced =>
          simp only [copyEffect, hreplaced, if_true]
      · exact absurd hafter.2 hchanged
  | inPlace pc =>
      rw [hplace] at hlock hknows
      rw [Cooperation.step_inPlace hplace] at hchanged
      by_contra hnot
      push Not at hnot
      exact hchanged (lockStep_read_target turn.2 h.wellFormed hnot.1)

/-- In whatever order the writers of one target take their steps, some in place under its lock and
some through a copy, and whichever of these steps fail. One at most is between lock and release.
None removes or writes over a lock or a copy of another, and the target changes only where an
update in place writes to it or a copy is renamed over it. While no update is writing, it holds
what the updates so far, each of them once, make of each other's results; while one is, what that
has written so far of its own on top of that. What went through a copy was all there and had
succeeded, and a call that returned `Ok` is in it. -/
theorem cooperating_writers_lose_nothing {disk : Disk Writer} (hwell : disk.WellFormed)
    (htarget : disk.read .target = some content) (copies : Writer → Bool)
    (turns : List (Writer × Outcome)) :
    let s := (Cooperation.start disk copies).run updates turns
    (∀ writer writer', (s.place writer).Holds → (s.place writer').Holds → writer = writer') ∧
    (∀ turn,
      (∀ name file, name ≠ .target → s.disk.entry name = some file →
        ((s.step updates turn).disk.entry name ≠ some file ∨
          (s.step updates turn).disk.content file ≠ s.disk.content file) →
        s.disk.creator file = some turn.1) ∧
      ((s.step updates turn).disk.read .target ≠ s.disk.read .target →
        (s.place turn.1).Updating ∨
          copies turn.1 = true ∧ (s.step updates turn).effects = s.effects ++ [.ran turn.1])) ∧
    ((∀ writer, ¬ (s.place writer).Updating) →
      s.disk.read .target = some (composed updates content s.effects)) ∧
    (∀ writer original before made,
      s.place writer = .inPlace (.updating original before made) →
      before = composed updates content s.effects ∧
        s.disk.read .target = (before :: (updates writer).writes before)[made]?) ∧
    (s.effects.map Effect.owner).Nodup ∧
    (∀ front effect back, s.effects = front ++ effect :: back → copies effect.owner = true →
      effect = .ran effect.owner ∧
        (updates effect.owner).ok (composed updates content front) = true) ∧
    ∀ writer, s.place writer = .copying (.done true) ∨ s.place writer = .inPlace (.done true) →
      RanWell updates content s.effects writer := by
  intro s
  have hstart : Cooperates updates content (Cooperation.start disk copies) :=
    cooperates_start hwell htarget copies
  have hcooperates : Cooperates updates content s := hstart.run turns
  have haccounted : Accounted updates content copies s :=
    (accounted_start disk copies).run hstart turns
  refine ⟨fun writer writer' h h' =>
      (hcooperates.lock writer h).unique (hcooperates.lock writer' h'),
    fun turn => ⟨fun name file hname hentry hchanged => hcooperates.owns hname hentry hchanged,
      fun hchanged => ?_⟩,
    hcooperates.idle, fun writer original before made hplace => ?_, haccounted.nodup,
    haccounted.whole, fun writer hdone => haccounted.published writer ?_⟩
  · rcases hcooperates.target_changes hchanged with hupdating | ⟨hcopies, hran⟩
    · exact Or.inl hupdating
    · rw [haccounted.kind] at hcopies
      exact Or.inr ⟨hcopies, hran⟩
  · have hknows := hcooperates.knows writer
    rw [hplace] at hknows
    obtain ⟨hentry, hbefore, hwritten⟩ := hknows
    rw [Directory.read_of_entry hentry]
    exact ⟨hbefore, hwritten.symm⟩
  · rcases hdone with hdone | hdone <;> rw [hdone] <;> rfl

end Cooperation

/-- Writers of even number write their number twice into the target, those of odd number into a
copy. -/
def twice (writer : Nat) : Update where
  writes bytes := [bytes ++ [UInt8.ofNat writer], bytes ++ [UInt8.ofNat writer, UInt8.ofNat writer]]
  ok _ := true

/-- Writer 1 is turned away while writer 2 writes to the target; then writer 3 makes its copy. -/
def mixedWriters : List (Nat × Outcome) :=
  List.replicate 3 (2, .ok 0) ++ (1, .ok 0) :: List.replicate 3 (2, .ok 0) ++
    List.replicate 12 (3, .ok 0)

/-- Both that returned `Ok` are in the target. -/
theorem cooperating_writers_lose_nothing_oneByteDisk :
    let s := (Cooperation.start oneByteDisk (fun writer => writer % 2 = 1)).run twice mixedWriters
    RanWell twice [7] s.effects 2 ∧ RanWell twice [7] s.effects 3 := by
  have hall := @cooperating_writers_lose_nothing Nat _ twice [7] oneByteDisk
    oneByteDisk_wellFormed rfl (fun writer => writer % 2 = 1) mixedWriters
  have hdone := hall.2.2.2.2.2.2
  exact ⟨hdone 2 (Or.inr (by decide)), hdone 3 (Or.inl (by decide))⟩

end SeekZstdSep
