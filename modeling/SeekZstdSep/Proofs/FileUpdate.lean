/-
Module: SeekZstdSep.Proofs.FileUpdate
Purpose: Writers that update one target through `copy_and_replace` lose nothing, in whatever order
  they take their steps and whichever of these fail: the target is what the updates that were
  renamed over it make of each other's results.
Trusted boundary: the file system, as `Directory` has it
Main exports: Pc.Holds, Move, writerStep_move, Consistent, copy_and_replace_loses_nothing
-/
import SeekZstdSep.Core.FileUpdate

namespace SeekZstdSep

open Lib

variable {Writer : Type} {disk disk' : Disk Writer} {writer : Writer} {update : Bytes → Bytes}
  {temp file : Nat}

/-- Between the creation of the lock and its removal. -/
def Pc.Holds : Pc → Prop
  | .called => False
  | .done _ => False
  | _ => True

/-- The copy beside the target is this file, and the writer created it. -/
structure HasTemp (disk : Disk Writer) (writer : Writer) (temp : Nat) : Prop where
  entry : disk.entry .temp = some temp
  creator : disk.creator temp = some writer

/-- The lock is the writer's. -/
def HasLock (disk : Disk Writer) (writer : Writer) : Prop :=
  ∃ file, disk.entry .lock = some file ∧ disk.creator file = some writer

/-- What a writer may rely on where it is. -/
def Knows (update : Bytes → Bytes) (writer : Writer) (disk : Disk Writer) : Pc → Prop
  | .called => True
  | .locked => True
  | .opened original => disk.entry .target = some original
  | .described original => disk.entry .target = some original
  | .created original temp => disk.entry .target = some original ∧ HasTemp disk writer temp
  | .unlinked original temp => disk.entry .target = some original ∧ HasTemp disk writer temp
  | .copying original temp pos =>
      (disk.entry .target = some original ∧ HasTemp disk writer temp) ∧
        disk.content temp = (disk.content original).take pos
  | .copied temp => HasTemp disk writer temp ∧ disk.read .target = some (disk.content temp)
  | .updated temp =>
      HasTemp disk writer temp ∧
        ∃ content, disk.read .target = some content ∧ disk.content temp = update content
  | .preserved temp =>
      HasTemp disk writer temp ∧
        ∃ content, disk.read .target = some content ∧ disk.content temp = update content
  | .refused => ∃ temp, HasTemp disk writer temp
  | .replaced => disk.entry .temp = none
  | .closing _ => True
  | .done _ => True

/-! ### What a step does to the directory -/

/-- A writer creates the lock or the copy, writes to its copy, removes what it created, and renames
its copy over the target. -/
inductive Move (writer : Writer) (disk : Disk Writer) : Disk Writer → Prop where
  | stays : Move writer disk disk
  | creates {name : FileName} {file : Nat} {disk' : Disk Writer} (own : name ≠ .target)
      (created : disk.Created name writer [] file disk') : Move writer disk disk'
  | writes {temp : Nat} (has : HasTemp disk writer temp) (content : Bytes) :
      Move writer disk (disk.write temp content)
  | removes {name : FileName} {file : Nat} {disk' : Disk Writer} (own : name ≠ .target)
      (entry : disk.entry name = some file) (creator : disk.creator file = some writer)
      (removed : disk.remove name = some disk') : Move writer disk disk'
  | renames {temp : Nat} {disk' : Disk Writer} (has : HasTemp disk writer temp)
      (renamed : disk.rename .temp .target = some disk') : Move writer disk disk'

theorem move_getD_remove {name : FileName} (own : name ≠ .target)
    (hentry : disk.entry name = some file) (hcreator : disk.creator file = some writer) :
    Move writer disk ((disk.remove name).getD disk) := by
  cases hremove : disk.remove name with
  | none => exact Move.stays
  | some disk' => exact Move.removes own hentry hcreator hremove

/-- Every step of a writer is one of these. -/
theorem writerStep_move (outcome : Outcome) {pc : Pc} (hlock : pc.Holds → HasLock disk writer)
    (hknows : Knows update writer disk pc) :
    Move writer disk (writerStep update writer outcome disk pc).1 := by
  cases pc with
  | called =>
      cases outcome with
      | fail left => exact Move.stays
      | ok count =>
          rw [writerStep]
          cases hcreate : disk.createNew .lock writer [] with
          | none => exact Move.stays
          | some got =>
              exact Move.creates (by decide) (Directory.created_of_createNew hcreate)
  | locked =>
      cases outcome with
      | fail left => exact Move.stays
      | ok count =>
          rw [writerStep]
          cases disk.entry .target <;> exact Move.stays
  | opened original => cases outcome <;> exact Move.stays
  | described original =>
      cases outcome with
      | fail left => exact Move.stays
      | ok count =>
          rw [writerStep]
          cases hcreate : disk.createNew .temp writer [] with
          | none => exact Move.stays
          | some got =>
              exact Move.creates (by decide) (Directory.created_of_createNew hcreate)
  | created original temp => cases outcome <;> exact Move.writes hknows.2 _
  | unlinked original temp => cases outcome <;> exact Move.writes hknows.2 _
  | copying original temp pos =>
      cases outcome with
      | fail left => exact Move.writes hknows.1.2 _
      | ok count =>
          rw [writerStep]
          split
          · exact Move.stays
          · exact Move.writes hknows.1.2 _
  | copied temp => cases outcome <;> exact Move.writes hknows.1 _
  | updated temp => cases outcome <;> exact Move.stays
  | preserved temp =>
      cases outcome with
      | fail left => exact Move.stays
      | ok count =>
          rw [writerStep]
          cases hrename : disk.rename .temp .target with
          | none => exact Move.stays
          | some disk' => exact Move.renames hknows.1 hrename
  | refused =>
      cases outcome with
      | fail left => exact Move.stays
      | ok count =>
          obtain ⟨temp, has⟩ := hknows
          exact move_getD_remove (by decide) has.entry has.creator
  | replaced =>
      cases outcome with
      | fail left => exact Move.stays
      | ok count =>
          have hnone : disk.remove .temp = none := by
            rw [Directory.remove, hknows]
          rw [writerStep, hnone]
          exact Move.stays
  | closing ok =>
      cases outcome with
      | fail left => exact Move.stays
      | ok count =>
          obtain ⟨file, hentry, hcreator⟩ := hlock trivial
          rw [writerStep]
          cases hremove : disk.remove .lock with
          | none => exact Move.stays
          | some disk' => exact Move.removes (by decide) hentry hcreator hremove
  | done ok => exact Move.stays

namespace Move

theorem wellFormed (h : Move writer disk disk') (hwell : disk.WellFormed) : disk'.WellFormed := by
  cases h with
  | stays => exact hwell
  | creates own created => exact created.wellFormed hwell
  | writes has content => exact hwell.write _ _
  | removes own entry creator removed => exact hwell.remove removed
  | renames has renamed => exact hwell.rename has.entry renamed

/-- A lock or a copy that a step takes away or writes over is the writer's own. -/
theorem owns (h : Move writer disk disk') (hwell : disk.WellFormed) {name : FileName}
    (hname : name ≠ .target) (hentry : disk.entry name = some file)
    (hchanged : disk'.entry name ≠ some file ∨ disk'.content file ≠ disk.content file) :
    disk.creator file = some writer := by
  cases h with
  | stays => exact absurd hchanged (by simp [hentry])
  | @creates name' file' _ own created =>
      have hfile := created.ne_of_entry hwell hentry
      have hother : name ≠ name' := by
        rintro rfl
        rw [created.free] at hentry
        cases hentry
      rw [created.entry_of_ne hother, created.content, Function.update_of_ne hfile] at hchanged
      exact absurd hchanged (by simp [hentry])
  | @writes temp has content =>
      by_cases hfile : file = temp
      · rw [hfile]
        exact has.creator
      · rw [Directory.write_entry, Directory.write_content_of_ne hfile] at hchanged
        exact absurd hchanged (by simp [hentry])
  | @removes name' file' _ own entry creator removed =>
      by_cases hother : name = name'
      · subst hother
        rw [entry, Option.some.injEq] at hentry
        rw [← hentry]
        exact creator
      · rw [Directory.entry_remove_of_ne removed hother, Directory.remove_eq_some removed]
          at hchanged
        exact absurd hchanged (by simp [hentry])
  | @renames temp _ has renamed =>
      by_cases hother : name = .temp
      · subst hother
        rw [has.entry, Option.some.injEq] at hentry
        rw [← hentry]
        exact has.creator
      · rw [Directory.entry_rename has.entry renamed hname hother,
          (Directory.files_rename has.entry renamed).1] at hchanged
        exact absurd hchanged (by simp [hentry])

end Move

/-! ### What a writer knows behind a step -/

/-- What holds behind a step that leads to `pc`. -/
structure After (update : Bytes → Bytes) (writer : Writer) (disk disk' : Disk Writer) (pc : Pc) :
    Prop where
  lock : pc.Holds → HasLock disk' writer
  knows : Knows update writer disk' pc
  target : if pc = .replaced then
      ∃ content, disk.read .target = some content ∧ disk'.read .target = some (update content)
    else disk'.entry .target = disk.entry .target ∧ disk'.read .target = disk.read .target

namespace After

theorem stays {pc : Pc} (hlock : pc.Holds → HasLock disk writer)
    (hknows : Knows update writer disk pc) (hne : pc ≠ .replaced) :
    After update writer disk disk pc where
  lock := hlock
  knows := hknows
  target := by
    rw [if_neg hne]
    exact ⟨rfl, rfl⟩

/-- The copy is not the target, so writing to it leaves that alone. -/
theorem writes {pc : Pc} {content : Bytes} (hwell : disk.WellFormed)
    (hlock : HasLock disk writer) (has : HasTemp disk writer temp)
    (hknows : Knows update writer (disk.write temp content) pc) (hne : pc ≠ .replaced) :
    After update writer disk (disk.write temp content) pc where
  lock _ := hlock
  knows := hknows
  target := by
    rw [if_neg hne]
    exact ⟨rfl, hwell.read_write has.entry (by decide) content⟩

end After

theorem HasTemp.write (h : HasTemp disk writer temp) (content : Bytes) :
    HasTemp (disk.write temp content) writer temp := ⟨h.entry, h.creator⟩

theorem content_write_target {original : Nat} (hwell : disk.WellFormed)
    (horiginal : disk.entry .target = some original) (has : HasTemp disk writer temp)
    (content : Bytes) : (disk.write temp content).content original = disk.content original := by
  apply Directory.write_content_of_ne
  rintro rfl
  have hsame := hwell.one_name horiginal has.entry
  cases hsame

theorem After.closes {ok : Bool} (hlock : HasLock disk writer) :
    After update writer disk disk (.closing ok) :=
  After.stays (fun _ => hlock) trivial (fun h => by cases h)

theorem After.ends {ok : Bool} : After update writer disk disk (.done ok) :=
  After.stays (fun h => h.elim) trivial (fun h => by cases h)

theorem After.refuses {content : Bytes} (hwell : disk.WellFormed) (hlock : HasLock disk writer)
    (has : HasTemp disk writer temp) :
    After update writer disk (disk.write temp content) .refused :=
  After.writes hwell hlock has ⟨temp, has.write content⟩ (fun h => by cases h)

/-- A prefix and a piece of what follows it are a longer prefix. -/
theorem take_append_take (bytes : Bytes) (pos count : Nat) :
    bytes.take pos ++ (bytes.drop pos).take count =
      bytes.take (pos + ((bytes.drop pos).take count).length) := by
  rw [List.take_add, List.length_take, ← List.take_take, List.take_length]

/-- Behind each step a writer knows what it may rely on next, and the target is as it was, unless
the step renamed the copy over it. -/
theorem writerStep_after (outcome : Outcome) {pc : Pc} (hwell : disk.WellFormed)
    (hlock : pc.Holds → HasLock disk writer) (hknows : Knows update writer disk pc) :
    After update writer disk (writerStep update writer outcome disk pc).1
      (writerStep update writer outcome disk pc).2 := by
  cases pc with
  | called =>
      cases outcome with
      | fail left => exact After.ends
      | ok count =>
          rw [writerStep]
          cases hcreate : disk.createNew .lock writer [] with
          | none => exact After.ends
          | some got =>
              have created := Directory.created_of_createNew hcreate
              refine ⟨fun _ => ⟨_, created.entry_self, created.creator_self⟩, trivial, ?_⟩
              rw [if_neg (fun h => by cases h)]
              exact ⟨created.entry_of_ne (by decide), created.read_of_ne hwell (by decide)⟩
  | locked =>
      cases outcome with
      | fail left => exact After.closes (hlock trivial)
      | ok count =>
          rw [writerStep]
          cases htarget : disk.entry .target with
          | none => exact After.closes (hlock trivial)
          | some original =>
              have hknows' : Knows update writer disk (.opened original) := htarget
              exact After.stays (fun _ => hlock trivial) hknows' (fun h => by cases h)
  | opened original =>
      cases outcome with
      | fail left => exact After.closes (hlock trivial)
      | ok count =>
          have hknows' : Knows update writer disk (.described original) := hknows
          exact After.stays (fun _ => hlock trivial) hknows' (fun h => by cases h)
  | described original =>
      cases outcome with
      | fail left => exact After.closes (hlock trivial)
      | ok count =>
          rw [writerStep]
          cases hcreate : disk.createNew .temp writer [] with
          | none => exact After.closes (hlock trivial)
          | some got =>
              have created := Directory.created_of_createNew hcreate
              obtain ⟨file, hentry, hcreator⟩ := hlock trivial
              have htarget : disk.entry .target = some original := hknows
              refine ⟨fun _ => ⟨file, ?_, ?_⟩, ⟨?_, created.entry_self, created.creator_self⟩, ?_⟩
              · rw [created.entry_of_ne (by decide)]
                exact hentry
              · rw [created.creator_of_entry hwell hentry]
                exact hcreator
              · rw [created.entry_of_ne (by decide)]
                exact htarget
              · rw [if_neg (fun h => by cases h)]
                exact ⟨created.entry_of_ne (by decide), created.read_of_ne hwell (by decide)⟩
  | created original temp =>
      obtain ⟨htarget, has⟩ := hknows
      cases outcome with
      | fail left =>
          have hknows' : Knows update writer (disk.write temp left) (.unlinked original temp) :=
            ⟨htarget, has.write left⟩
          exact After.writes hwell (hlock trivial) has hknows' (fun h => by cases h)
      | ok count =>
          have hknows' : Knows update writer (disk.write temp (disk.content original))
              (.copied temp) := by
            refine ⟨has.write _, ?_⟩
            rw [hwell.read_write has.entry (by decide), Directory.read_of_entry htarget,
              Directory.write_content_self]
          exact After.writes hwell (hlock trivial) has hknows' (fun h => by cases h)
  | unlinked original temp =>
      obtain ⟨htarget, has⟩ := hknows
      cases outcome with
      | fail left => exact After.refuses hwell (hlock trivial) has
      | ok count =>
          have hknows' : Knows update writer (disk.write temp []) (.copying original temp 0) := by
            refine ⟨⟨htarget, has.write _⟩, ?_⟩
            rw [Directory.write_content_self, List.take_zero]
          exact After.writes hwell (hlock trivial) has hknows' (fun h => by cases h)
  | copying original temp pos =>
      obtain ⟨⟨htarget, has⟩, hcopied⟩ := hknows
      cases outcome with
      | fail left => exact After.refuses hwell (hlock trivial) has
      | ok count =>
          rw [writerStep]
          split
          · next hend =>
              -- nothing is left of the original, so all of it was copied
              have hall : (disk.content original).drop pos = [] := by
                rcases List.take_eq_nil_iff.mp hend with hzero | hnil
                · cases hzero
                · exact hnil
              have hknows' : Knows update writer disk (.copied temp) := by
                refine ⟨has, ?_⟩
                rw [Directory.read_of_entry htarget, hcopied,
                  List.take_of_length_le (List.drop_eq_nil_iff.mp hall)]
              exact After.stays (fun _ => hlock trivial) hknows' (fun h => by cases h)
          · have hchunk := take_append_take (disk.content original) pos (count + 1)
            generalize hbytes : ((disk.content original).drop pos).take (count + 1) = bytes
              at hchunk
            have hknows' : Knows update writer (disk.write temp (disk.content temp ++ bytes))
                (.copying original temp (pos + bytes.length)) := by
              refine ⟨⟨htarget, has.write _⟩, ?_⟩
              rw [Directory.write_content_self, content_write_target hwell htarget has, hcopied]
              exact hchunk
            exact After.writes hwell (hlock trivial) has hknows' (fun h => by cases h)
  | copied temp =>
      obtain ⟨has, hsame⟩ := hknows
      cases outcome with
      | fail left => exact After.refuses hwell (hlock trivial) has
      | ok count =>
          have hknows' : Knows update writer (disk.write temp (update (disk.content temp)))
              (.updated temp) := by
            refine ⟨has.write _, disk.content temp, ?_, Directory.write_content_self _ _⟩
            rw [hwell.read_write has.entry (by decide)]
            exact hsame
          exact After.writes hwell (hlock trivial) has hknows' (fun h => by cases h)
  | updated temp =>
      cases outcome with
      | fail left =>
          have hknows' : Knows update writer disk .refused := ⟨temp, hknows.1⟩
          exact After.stays (fun _ => hlock trivial) hknows' (fun h => by cases h)
      | ok count =>
          have hknows' : Knows update writer disk (.preserved temp) := hknows
          exact After.stays (fun _ => hlock trivial) hknows' (fun h => by cases h)
  | preserved temp =>
      obtain ⟨has, content, hread, hupdated⟩ := hknows
      have hrefused : Knows update writer disk .refused := ⟨temp, has⟩
      cases outcome with
      | fail left => exact After.stays (fun _ => hlock trivial) hrefused (fun h => by cases h)
      | ok count =>
          rw [writerStep]
          cases hrename : disk.rename .temp .target with
          | none => exact After.stays (fun _ => hlock trivial) hrefused (fun h => by cases h)
          | some disk' =>
              obtain ⟨file, hentry, hcreator⟩ := hlock trivial
              refine ⟨fun _ => ⟨file, ?_, ?_⟩, ?_, ?_⟩
              · rw [Directory.entry_rename has.entry hrename (by decide) (by decide)]
                exact hentry
              · rw [(Directory.files_rename has.entry hrename).2]
                exact hcreator
              · exact Directory.entry_rename_src has.entry hrename (by decide)
              · rw [if_pos rfl]
                refine ⟨content, hread, ?_⟩
                rw [Directory.read_rename_dst has.entry hrename, hupdated]
  | refused =>
      cases outcome with
      | fail left => exact After.closes (hlock trivial)
      | ok count =>
          rw [writerStep]
          cases hremove : disk.remove .temp with
          | none => exact After.closes (hlock trivial)
          | some disk' =>
              obtain ⟨file, hentry, hcreator⟩ := hlock trivial
              refine ⟨fun _ => ⟨file, ?_, ?_⟩, trivial, ?_⟩
              · rw [Option.getD_some, Directory.entry_remove_of_ne hremove (by decide)]
                exact hentry
              · rw [Option.getD_some, Directory.remove_eq_some hremove]
                exact hcreator
              · rw [if_neg (fun h => by cases h)]
                exact ⟨Directory.entry_remove_of_ne hremove (by decide),
                  Directory.read_remove_of_ne hremove (by decide)⟩
  | replaced =>
      cases outcome with
      | fail left => exact After.closes (hlock trivial)
      | ok count =>
          have hnone : disk.remove .temp = none := by
            rw [Directory.remove, hknows]
          rw [writerStep, hnone]
          exact After.closes (hlock trivial)
  | closing ok =>
      cases outcome with
      | fail left => exact After.ends
      | ok count =>
          rw [writerStep]
          cases hremove : disk.remove .lock with
          | none => exact After.ends
          | some disk' =>
              refine ⟨fun h => h.elim, trivial, ?_⟩
              rw [if_neg (fun h => by cases h)]
              exact ⟨Directory.entry_remove_of_ne hremove (by decide),
                Directory.read_remove_of_ne hremove (by decide)⟩
  | done ok => exact After.ends

/-! ### Any number of writers -/

/-- There is one lock. -/
theorem HasLock.unique {writer' : Writer} (h : HasLock disk writer) (h' : HasLock disk writer') :
    writer = writer' := by
  obtain ⟨file, hentry, hcreator⟩ := h
  obtain ⟨file', hentry', hcreator'⟩ := h'
  rw [hentry, Option.some.injEq] at hentry'
  rw [← hentry', hcreator, Option.some.injEq] at hcreator'
  exact hcreator'

/-- While another has the lock, a writer that does not changes nothing and gets nowhere. -/
theorem writerStep_of_locked {owner : Writer} (outcome : Outcome) {pc : Pc}
    (hlock : HasLock disk owner) (hout : ¬ pc.Holds) :
    (writerStep update writer outcome disk pc).1 = disk ∧
      ∃ ok, (writerStep update writer outcome disk pc).2 = .done ok := by
  obtain ⟨file, hentry, -⟩ := hlock
  cases pc with
  | called =>
      cases outcome with
      | fail left => exact ⟨rfl, false, rfl⟩
      | ok count =>
          rw [writerStep, Directory.createNew_of_taken hentry]
          exact ⟨rfl, false, rfl⟩
  | done ok => exact ⟨rfl, ok, rfl⟩
  | locked => exact absurd trivial hout
  | opened => exact absurd trivial hout
  | described => exact absurd trivial hout
  | created => exact absurd trivial hout
  | unlinked => exact absurd trivial hout
  | copying => exact absurd trivial hout
  | copied => exact absurd trivial hout
  | updated => exact absurd trivial hout
  | preserved => exact absurd trivial hout
  | refused => exact absurd trivial hout
  | replaced => exact absurd trivial hout
  | closing => exact absurd trivial hout

theorem knows_of_not_holds {pc : Pc} (h : ¬ pc.Holds) : Knows update writer disk pc := by
  cases pc with
  | called => trivial
  | done ok => trivial
  | _ => exact absurd trivial h

section Writers

variable [DecidableEq Writer] {updates : Writer → Bytes → Bytes} {s : Writers Writer}
  {content : Bytes}

/-- What the updates of some writers make of a content, one behind the other. -/
def applied (updates : Writer → Bytes → Bytes) (content : Bytes) (writers : List Writer) : Bytes :=
  writers.foldl (fun content writer => updates writer content) content

/-- What holds of the writers at any time: each that is between lock and release has the lock and
knows what it may rely on, and the target is what the updates renamed over it come to. -/
structure Consistent (updates : Writer → Bytes → Bytes) (content : Bytes) (s : Writers Writer) :
    Prop where
  wellFormed : s.disk.WellFormed
  lock : ∀ writer, (s.pc writer).Holds → HasLock s.disk writer
  knows : ∀ writer, Knows (updates writer) writer s.disk (s.pc writer)
  target : s.disk.read .target = some (applied updates content s.renames)

namespace Consistent

omit [DecidableEq Writer] in
theorem after (h : Consistent updates content s) (turn : Writer × Outcome) :
    After (updates turn.1) turn.1 s.disk
      (writerStep (updates turn.1) turn.1 turn.2 s.disk (s.pc turn.1)).1
      (writerStep (updates turn.1) turn.1 turn.2 s.disk (s.pc turn.1)).2 :=
  writerStep_after turn.2 h.wellFormed (h.lock turn.1) (h.knows turn.1)

theorem move (h : Consistent updates content s) (turn : Writer × Outcome) :
    Move turn.1 s.disk (s.step updates turn).disk :=
  writerStep_move turn.2 (h.lock turn.1) (h.knows turn.1)

/-- Every step of a writer keeps it. -/
theorem step (h : Consistent updates content s) (turn : Writer × Outcome) :
    Consistent updates content (s.step updates turn) := by
  have hafter := h.after turn
  have hothers : ∀ writer, writer ≠ turn.1 → (s.pc writer).Holds →
      (s.step updates turn).disk = s.disk := by
    intro writer hne hholds
    apply (writerStep_of_locked turn.2 (h.lock writer hholds) _).1
    intro hholds'
    exact hne ((h.lock writer hholds).unique (h.lock turn.1 hholds'))
  have hpc : ∀ writer, writer ≠ turn.1 → (s.step updates turn).pc writer = s.pc writer :=
    fun writer hne => Function.update_of_ne hne _ _
  have hself : (s.step updates turn).pc turn.1 =
      (writerStep (updates turn.1) turn.1 turn.2 s.disk (s.pc turn.1)).2 :=
    Function.update_self _ _ _
  refine ⟨(h.move turn).wellFormed h.wellFormed, ?_, ?_, ?_⟩
  · intro writer hholds
    by_cases hne : writer = turn.1
    · subst hne
      rw [hself] at hholds
      exact hafter.lock hholds
    · rw [hpc writer hne] at hholds
      rw [hothers writer hne hholds]
      exact h.lock writer hholds
  · intro writer
    by_cases hne : writer = turn.1
    · subst hne
      rw [hself]
      exact hafter.knows
    · rw [hpc writer hne]
      by_cases hholds : (s.pc writer).Holds
      · rw [hothers writer hne hholds]
        exact h.knows writer
      · exact knows_of_not_holds hholds
  · have htarget := hafter.target
    rw [Writers.step]
    simp only
    split at htarget
    · next hreplaced =>
        obtain ⟨before, hbefore, hread⟩ := htarget
        rw [h.target, Option.some.injEq] at hbefore
        rw [if_pos hreplaced, hread, ← hbefore, applied, applied, List.foldl_append]
        rfl
    · next hreplaced =>
        rw [if_neg hreplaced, htarget.2]
        exact h.target

theorem run (h : Consistent updates content s) (turns : List (Writer × Outcome)) :
    Consistent updates content (s.run updates turns) := by
  induction turns generalizing s with
  | nil => exact h
  | cons turn turns ih => exact ih (h.step turn)

end Consistent

omit [DecidableEq Writer] in
theorem consistent_start {disk : Disk Writer} (hwell : disk.WellFormed)
    (htarget : disk.read .target = some content) :
    Consistent updates content (Writers.start disk) :=
  ⟨hwell, fun _ h => h.elim, fun _ => trivial, htarget⟩

/-! ### Who has renamed -/

/-- A call that has renamed its copy over the target and has not failed since. -/
def Pc.Published : Pc → Prop
  | .replaced => True
  | .closing ok => ok = true
  | .done ok => ok = true
  | _ => False

/-- A call that may have renamed its copy over the target. -/
def Pc.Past : Pc → Prop
  | .replaced => True
  | .closing ok => ok = true
  | .done _ => True
  | _ => False

omit [DecidableEq Writer] in
theorem published_of_step {outcome : Outcome} {pc : Pc}
    (h : (writerStep update writer outcome disk pc).2.Published) :
    (writerStep update writer outcome disk pc).2 = .replaced ∨ pc.Published := by
  cases pc with
  | replaced => exact Or.inr trivial
  | done ok => exact Or.inr h
  | closing ok =>
      cases outcome with
      | fail left => cases h
      | ok count =>
          rw [writerStep] at h
          cases hremove : disk.remove .lock with
          | none =>
              rw [hremove] at h
              cases h
          | some disk' =>
              rw [hremove] at h
              exact Or.inr h
  | preserved temp =>
      cases outcome with
      | fail left => cases h
      | ok count =>
          rw [writerStep] at h ⊢
          cases hrename : disk.rename .temp .target with
          | none =>
              rw [hrename] at h
              cases h
          | some disk' => exact Or.inl rfl
  | _ =>
      -- no other step leads past the rename
      cases outcome <;> rw [writerStep] at h <;> (try split at h) <;> cases h

omit [DecidableEq Writer] in
theorem past_of_step (outcome : Outcome) {pc : Pc} (h : pc.Past) :
    (writerStep update writer outcome disk pc).2.Past ∧
      (writerStep update writer outcome disk pc).2 ≠ .replaced := by
  cases pc with
  | replaced => cases outcome <;> exact ⟨rfl, fun h => by cases h⟩
  | closing ok =>
      cases outcome with
      | fail left => exact ⟨trivial, fun h => by cases h⟩
      | ok count =>
          rw [writerStep]
          cases disk.remove .lock <;> exact ⟨trivial, fun h => by cases h⟩
  | done ok => exact ⟨trivial, fun h => by cases h⟩
  | _ => cases h

/-- Who has renamed, by where the writers are. -/
structure Logged (s : Writers Writer) : Prop where
  nodup : s.renames.Nodup
  past : ∀ writer ∈ s.renames, (s.pc writer).Past
  mem : ∀ writer, (s.pc writer).Published → writer ∈ s.renames

theorem Logged.step (h : Logged s) (turn : Writer × Outcome) : Logged (s.step updates turn) := by
  have hpc : ∀ writer, writer ≠ turn.1 → (s.step updates turn).pc writer = s.pc writer :=
    fun writer hne => Function.update_of_ne hne _ _
  have hself : (s.step updates turn).pc turn.1 =
      (writerStep (updates turn.1) turn.1 turn.2 s.disk (s.pc turn.1)).2 :=
    Function.update_self _ _ _
  have hkept : ∀ writer ∈ s.renames, ((s.step updates turn).pc writer).Past := by
    intro writer hin
    by_cases hne : writer = turn.1
    · subst hne
      rw [hself]
      exact (past_of_step turn.2 (h.past _ hin)).1
    · rw [hpc writer hne]
      exact h.past writer hin
  by_cases hreplaced :
      (writerStep (updates turn.1) turn.1 turn.2 s.disk (s.pc turn.1)).2 = .replaced
  · have hrenames : (s.step updates turn).renames = s.renames ++ [turn.1] := if_pos hreplaced
    have hnew : turn.1 ∉ s.renames := fun hin =>
      (past_of_step turn.2 (h.past _ hin)).2 hreplaced
    refine ⟨?_, ?_, ?_⟩
    · rw [hrenames]
      refine List.nodup_append.mpr ⟨h.nodup, List.pairwise_singleton _ _, ?_⟩
      rintro writer hin _ hsingle rfl
      exact hnew (List.mem_singleton.mp hsingle ▸ hin)
    · intro writer hin
      rw [hrenames] at hin
      rcases List.mem_append.mp hin with hin | hin
      · exact hkept writer hin
      · rw [List.mem_singleton.mp hin, hself, hreplaced]
        trivial
    · intro writer hpublished
      rw [hrenames]
      by_cases hne : writer = turn.1
      · rw [hne]
        exact List.mem_append_right _ List.mem_cons_self
      · rw [hpc writer hne] at hpublished
        exact List.mem_append_left _ (h.mem writer hpublished)
  · have hrenames : (s.step updates turn).renames = s.renames := if_neg hreplaced
    refine ⟨hrenames ▸ h.nodup, hrenames ▸ hkept, ?_⟩
    intro writer hpublished
    rw [hrenames]
    by_cases hne : writer = turn.1
    · subst hne
      rw [hself] at hpublished
      exact h.mem _ ((published_of_step hpublished).resolve_left hreplaced)
    · rw [hpc writer hne] at hpublished
      exact h.mem writer hpublished

theorem Logged.run (h : Logged s) (turns : List (Writer × Outcome)) :
    Logged (s.run updates turns) := by
  induction turns generalizing s with
  | nil => exact h
  | cons turn turns ih => exact ih (h.step turn)

theorem Writers.run_append (s : Writers Writer) (turns turns' : List (Writer × Outcome)) :
    s.run updates (turns ++ turns') = (s.run updates turns).run updates turns' :=
  List.foldl_append

theorem Writers.renames_step_subset (s : Writers Writer) (turn : Writer × Outcome) :
    s.renames ⊆ (s.step updates turn).renames := by
  intro writer hin
  rw [Writers.step]
  simp only
  split
  · exact List.mem_append_left _ hin
  · exact hin

theorem Writers.renames_run_subset (s : Writers Writer) (turns : List (Writer × Outcome)) :
    s.renames ⊆ (s.run updates turns).renames := by
  induction turns generalizing s with
  | nil => exact fun _ hin => hin
  | cons turn turns ih => exact fun _ hin => ih _ (s.renames_step_subset turn hin)

/-- In whatever order writers of one target take their steps, and whichever of these fail: at most
one is between lock and release; none removes or writes over a lock or a copy of another; one that
has not renamed its copy has left the target as it was at every step; and the target is what the
updates that were renamed over it, each of them once, make of each other's results. -/
theorem copy_and_replace_loses_nothing {disk : Disk Writer} (hwell : disk.WellFormed)
    (htarget : disk.read .target = some content) (turns : List (Writer × Outcome)) :
    let s := (Writers.start disk).run updates turns
    (∀ writer writer', (s.pc writer).Holds → (s.pc writer').Holds → writer = writer') ∧
    (∀ turn name file, name ≠ .target → s.disk.entry name = some file →
      ((s.step updates turn).disk.entry name ≠ some file ∨
        (s.step updates turn).disk.content file ≠ s.disk.content file) →
      s.disk.creator file = some turn.1) ∧
    (∀ before turn after, turns = before ++ turn :: after → turn.1 ∉ s.renames →
      (((Writers.start disk).run updates before).step updates turn).disk.read .target =
        ((Writers.start disk).run updates before).disk.read .target) ∧
    s.disk.read .target = some (applied updates content s.renames) ∧
    s.renames.Nodup ∧ ∀ writer, s.pc writer = .done true → writer ∈ s.renames := by
  intro s
  have hconsistent : Consistent updates content s := (consistent_start hwell htarget).run turns
  have hlogged : Logged s :=
    Logged.run ⟨List.nodup_nil, fun _ hin => absurd hin List.not_mem_nil,
      fun _ h => by cases h⟩ turns
  refine ⟨fun writer writer' h h' =>
      (hconsistent.lock writer h).unique (hconsistent.lock writer' h'),
    fun turn name file hname hentry hchanged =>
      (hconsistent.move turn).owns hconsistent.wellFormed hname hentry hchanged, ?_,
    hconsistent.target, hlogged.nodup, fun writer hdone => hlogged.mem writer (by rw [hdone]; rfl)⟩
  intro before turn after hturns hnot
  have hbefore : Consistent updates content ((Writers.start disk).run updates before) :=
    (consistent_start hwell htarget).run before
  have hafter := (hbefore.after turn).target
  rw [if_neg] at hafter
  · exact hafter.2
  · intro hreplaced
    apply hnot
    have hrun : s = (((Writers.start disk).run updates before).step updates turn).run updates
        after := by
      have hall : s = (Writers.start disk).run updates (before ++ turn :: after) := by
        rw [← hturns]
      rw [hall, Writers.run_append]
      rfl
    rw [hrun]
    apply Writers.renames_run_subset
    rw [Writers.step]
    simp only
    rw [if_pos hreplaced]
    exact List.mem_append_right _ List.mem_cons_self

end Writers

/-- A target that holds one byte, with nothing beside it. -/
def oneByteDisk : Disk Nat where
  entry
    | .target => some 0
    | _ => none
  content _ := [7]
  creator _ := none
  next := 1

theorem oneByteDisk_wellFormed : oneByteDisk.WellFormed where
  lt_next {name file} h := by
    cases name <;> cases h
    decide
  one_name {name name' file} h h' := by
    cases name <;> cases h
    cases name' <;> cases h'
    rfl

/-- Writer 1 appends a byte while writer 2 is turned away; then writer 3 appends one, whose clone
of the target fails. -/
def threeWriters : List (Nat × Outcome) :=
  (List.replicate 5 (1, .ok 0)) ++ (2, .ok 0) :: (List.replicate 6 (1, .ok 0)) ++
    (List.replicate 4 (3, .ok 0)) ++ (3, .fail []) :: (List.replicate 11 (3, .ok 0))

/-- The two updates that were renamed over the target are in it, in that order. -/
theorem copy_and_replace_loses_nothing_oneByteDisk :
    ((Writers.start oneByteDisk).run (fun writer bytes => bytes ++ [UInt8.ofNat writer])
      threeWriters).disk.read .target = some [7, 1, 3] := by
  have hall := @copy_and_replace_loses_nothing Nat _
    (fun writer bytes => bytes ++ [UInt8.ofNat writer]) [7] oneByteDisk oneByteDisk_wellFormed rfl
    threeWriters
  have hrenames : ((Writers.start oneByteDisk).run
      (fun writer bytes => bytes ++ [UInt8.ofNat writer]) threeWriters).renames = [1, 3] := by
    decide
  have htarget := hall.2.2.2.1
  rw [hrenames] at htarget
  exact htarget

end SeekZstdSep
