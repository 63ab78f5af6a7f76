/-
Module: SeekZstdSep.Lib.Directory
Purpose: A directory that several parties work in: names, the files they stand for, and who
  created each file. A file is not its name: one that is renamed or removed holds what it held.
Trusted boundary: none (fully proved)
Main exports: Directory, Directory.WellFormed, Directory.createNew, Directory.put,
  Directory.rename, Directory.SameBut
-/
import Mathlib.Logic.Function.Basic

namespace SeekZstdSep.Lib

/-- The names of a directory, what the files hold and who created them. -/
structure Directory (Name Owner Content : Type) where
  entry : Name → Option Nat
  content : Nat → Content
  creator : Nat → Option Owner
  /-- The file that is created next. -/
  next : Nat

namespace Directory

variable {Name Owner Content : Type} {d d' : Directory Name Owner Content} {name : Name}
  {owner : Owner} {file : Nat} {content : Content}

/-- What the file of a name holds. -/
def read (d : Directory Name Owner Content) (name : Name) : Option Content :=
  (d.entry name).map d.content

/-- Gives a file, whatever its name is by now, other content. -/
def write (d : Directory Name Owner Content) (file : Nat) (content : Content) :
    Directory Name Owner Content :=
  { d with content := Function.update d.content file content }

/-- Every file there is a name for was created, and has one name. -/
structure WellFormed (d : Directory Name Owner Content) : Prop where
  lt_next : ∀ {name file}, d.entry name = some file → file < d.next
  one_name : ∀ {name name' file}, d.entry name = some file → d.entry name' = some file →
    name = name'

theorem read_of_entry (h : d.entry name = some file) : d.read name = some (d.content file) := by
  rw [read, h]
  rfl

@[simp] theorem write_entry (file : Nat) (content : Content) :
    (d.write file content).entry = d.entry := rfl

@[simp] theorem write_content_self (file : Nat) (content : Content) :
    (d.write file content).content file = content := Function.update_self _ _ _

theorem write_content_of_ne {file' : Nat} (h : file' ≠ file) (content : Content) :
    (d.write file content).content file' = d.content file' := Function.update_of_ne h _ _

theorem read_write_self (h : d.entry name = some file) (content : Content) :
    (d.write file content).read name = some content := by
  have hentry : (d.write file content).entry name = some file := h
  rw [read_of_entry hentry, write_content_self]

theorem read_write_of_entry {file' : Nat} (h : d.entry name = some file') (hne : file' ≠ file)
    (content : Content) : (d.write file content).read name = some (d.content file') := by
  have hentry : (d.write file content).entry name = some file' := h
  rw [read_of_entry hentry, write_content_of_ne hne]

theorem WellFormed.write (h : d.WellFormed) (file : Nat) (content : Content) :
    (d.write file content).WellFormed :=
  ⟨h.lt_next, h.one_name⟩

/-- Writing to the file of one name changes what no other name stands for. -/
theorem WellFormed.read_write (h : d.WellFormed) {name' : Name} (hentry : d.entry name = some file)
    (hne : name' ≠ name) (content : Content) :
    (d.write file content).read name' = d.read name' := by
  rw [read, read, write_entry]
  cases hother : d.entry name' with
  | none => rfl
  | some file' =>
      have hapart : file' ≠ file := by
        rintro rfl
        exact hne (h.one_name hother hentry)
      simp only [Option.map_some, write_content_of_ne hapart]

section Names

variable [DecidableEq Name]

/-- Creates a file, unless the name is taken. -/
def createNew (d : Directory Name Owner Content) (name : Name) (owner : Owner)
    (content : Content) : Option (Nat × Directory Name Owner Content) :=
  match d.entry name with
  | some _ => none
  | none =>
      some (d.next, {
        entry := Function.update d.entry name (some d.next)
        content := Function.update d.content d.next content
        creator := Function.update d.creator d.next (some owner)
        next := d.next + 1 })

/-- Gives the file of a name other content, creating one where the name stands for none. -/
def put (d : Directory Name Owner Content) (name : Name) (owner : Owner) (content : Content) :
    Nat × Directory Name Owner Content :=
  match d.entry name with
  | some file => (file, d.write file content)
  | none =>
      (d.next, {
        entry := Function.update d.entry name (some d.next)
        content := Function.update d.content d.next content
        creator := Function.update d.creator d.next (some owner)
        next := d.next + 1 })

/-- Takes a name away. -/
def remove (d : Directory Name Owner Content) (name : Name) :
    Option (Directory Name Owner Content) :=
  match d.entry name with
  | none => none
  | some _ => some { d with entry := Function.update d.entry name none }

/-- Lets `dst` stand for what `src` stood for. -/
def rename (d : Directory Name Owner Content) (src dst : Name) :
    Option (Directory Name Owner Content) :=
  match d.entry src with
  | none => none
  | some file =>
      some { d with entry := Function.update (Function.update d.entry src none) dst (some file) }

theorem createNew_of_taken (h : d.entry name = some file) (owner : Owner) (content : Content) :
    d.createNew name owner content = none := by
  rw [createNew, h]

/-- What a directory is after a file was created in it. -/
structure Created (d : Directory Name Owner Content) (name : Name) (owner : Owner)
    (content : Content) (file : Nat) (d' : Directory Name Owner Content) : Prop where
  free : d.entry name = none
  file_eq : file = d.next
  entry : d'.entry = Function.update d.entry name (some file)
  content : d'.content = Function.update d.content file content
  creator : d'.creator = Function.update d.creator file (some owner)
  next : d'.next = d.next + 1

theorem created_of_createNew (h : d.createNew name owner content = some (file, d')) :
    d.Created name owner content file d' := by
  rw [createNew] at h
  cases hentry : d.entry name with
  | some taken =>
      rw [hentry] at h
      cases h
  | none =>
      rw [hentry] at h
      cases h
      exact ⟨hentry, rfl, rfl, rfl, rfl, rfl⟩

namespace Created

theorem entry_self (h : d.Created name owner content file d') : d'.entry name = some file := by
  rw [h.entry, Function.update_self]

theorem entry_of_ne (h : d.Created name owner content file d') {name' : Name} (hne : name' ≠ name) :
    d'.entry name' = d.entry name' := by
  rw [h.entry, Function.update_of_ne hne]

theorem creator_self (h : d.Created name owner content file d') :
    d'.creator file = some owner := by
  rw [h.creator, Function.update_self]

theorem ne_of_entry (h : d.Created name owner content file d') (hwell : d.WellFormed)
    {name' : Name} {file' : Nat} (hentry : d.entry name' = some file') : file' ≠ file := by
  rintro rfl
  have hlt := hwell.lt_next hentry
  rw [h.file_eq] at hlt
  exact Nat.lt_irrefl _ hlt

theorem creator_of_entry (h : d.Created name owner content file d') (hwell : d.WellFormed)
    {name' : Name} {file' : Nat} (hentry : d.entry name' = some file') :
    d'.creator file' = d.creator file' := by
  rw [h.creator, Function.update_of_ne (h.ne_of_entry hwell hentry)]

theorem read_of_ne (h : d.Created name owner content file d') (hwell : d.WellFormed)
    {name' : Name} (hne : name' ≠ name) : d'.read name' = d.read name' := by
  rw [read, read, h.entry_of_ne hne]
  cases hentry : d.entry name' with
  | none => rfl
  | some file' =>
      simp only [Option.map_some, h.content,
        Function.update_of_ne (h.ne_of_entry hwell hentry)]

theorem wellFormed (h : d.Created name owner content file d') (hwell : d.WellFormed) :
    d'.WellFormed := by
  have hnew : ∀ {name' file'}, d'.entry name' = some file' →
      (name' = name ∧ file' = file) ∨ (name' ≠ name ∧ d.entry name' = some file') := by
    intro name' file' hentry
    by_cases hname : name' = name
    · subst hname
      rw [h.entry_self] at hentry
      cases hentry
      exact Or.inl ⟨rfl, rfl⟩
    · rw [h.entry_of_ne hname] at hentry
      exact Or.inr ⟨hname, hentry⟩
  constructor
  · intro name' file' hentry
    rw [h.next]
    rcases hnew hentry with ⟨-, rfl⟩ | ⟨-, hold⟩
    · rw [h.file_eq]
      exact Nat.lt_succ_self _
    · exact Nat.lt_succ_of_lt (hwell.lt_next hold)
  · intro name' name'' file' hentry hentry'
    rcases hnew hentry with ⟨rfl, rfl⟩ | ⟨-, hold⟩
    · rcases hnew hentry' with ⟨rfl, -⟩ | ⟨-, hold'⟩
      · rfl
      · exact absurd rfl (h.ne_of_entry hwell hold')
    · rcases hnew hentry' with ⟨rfl, rfl⟩ | ⟨-, hold'⟩
      · exact absurd rfl (h.ne_of_entry hwell hold)
      · exact hwell.one_name hold hold'

end Created

/-! ### Putting content under a name -/

theorem entry_put (d : Directory Name Owner Content) (name : Name) (owner : Owner)
    (content : Content) :
    (d.put name owner content).2.entry name = some (d.put name owner content).1 := by
  rw [put]
  split
  · next file hentry => exact hentry
  · exact Function.update_self _ _ _

theorem content_put (d : Directory Name Owner Content) (name : Name) (owner : Owner)
    (content : Content) :
    (d.put name owner content).2.content (d.put name owner content).1 = content := by
  rw [put]
  split
  · exact write_content_self _ _
  · exact Function.update_self _ _ _

@[simp] theorem read_put (d : Directory Name Owner Content) (name : Name) (owner : Owner)
    (content : Content) : (d.put name owner content).2.read name = some content := by
  rw [read_of_entry (d.entry_put name owner content), content_put]

theorem put_of_entry (h : d.entry name = some file) (owner : Owner) (content : Content) :
    d.put name owner content = (file, d.write file content) := by
  rw [put, h]

theorem put_fst_of_free (h : d.entry name = none) (owner : Owner) (content : Content) :
    (d.put name owner content).1 = d.next := by
  rw [put, h]

/-- What a directory is after a name was taken away. -/
theorem remove_eq_some (h : d.remove name = some d') :
    d' = { d with entry := Function.update d.entry name none } := by
  rw [remove] at h
  cases hentry : d.entry name with
  | none =>
      rw [hentry] at h
      cases h
  | some file =>
      rw [hentry] at h
      cases h
      rfl

theorem entry_remove_self (h : d.remove name = some d') : d'.entry name = none := by
  rw [remove_eq_some h]
  exact Function.update_self _ _ _

theorem remove_of_entry (h : d.entry name = some file) : ∃ d', d.remove name = some d' :=
  ⟨_, by rw [remove, h]⟩

theorem WellFormed.remove (hwell : d.WellFormed) (h : d.remove name = some d') :
    d'.WellFormed := by
  rw [remove_eq_some h]
  have hold : ∀ {name' file'}, Function.update d.entry name none name' = some file' →
      d.entry name' = some file' := by
    intro name' file' hentry
    by_cases hname : name' = name
    · rw [hname, Function.update_self] at hentry
      cases hentry
    · rwa [Function.update_of_ne hname] at hentry
  exact ⟨fun hentry => hwell.lt_next (hold hentry),
    fun hentry hentry' => hwell.one_name (hold hentry) (hold hentry')⟩

theorem entry_remove_of_ne (h : d.remove name = some d') {name' : Name} (hne : name' ≠ name) :
    d'.entry name' = d.entry name' := by
  rw [remove_eq_some h]
  exact Function.update_of_ne hne _ _

theorem read_remove_of_ne (h : d.remove name = some d') {name' : Name} (hne : name' ≠ name) :
    d'.read name' = d.read name' := by
  rw [read, entry_remove_of_ne h hne, remove_eq_some h]
  rfl

/-- What a directory is after a name was given to another file. -/
theorem rename_of_entry {src dst : Name} (h : d.entry src = some file) :
    d.rename src dst = some
      { d with entry := Function.update (Function.update d.entry src none) dst (some file) } := by
  rw [rename, h]

theorem WellFormed.rename (hwell : d.WellFormed) {src dst : Name} (hentry : d.entry src = some file)
    (h : d.rename src dst = some d') : d'.WellFormed := by
  rw [rename_of_entry hentry, Option.some.injEq] at h
  subst h
  have hold : ∀ {name' file'},
      Function.update (Function.update d.entry src none) dst (some file) name' = some file' →
      (name' = dst ∧ file' = file) ∨ (name' ≠ dst ∧ name' ≠ src ∧ d.entry name' = some file') := by
    intro name' file' hnew
    by_cases hdst : name' = dst
    · rw [hdst, Function.update_self, Option.some.injEq] at hnew
      exact Or.inl ⟨hdst, hnew.symm⟩
    · rw [Function.update_of_ne hdst] at hnew
      by_cases hsrc : name' = src
      · rw [hsrc, Function.update_self] at hnew
        cases hnew
      · rw [Function.update_of_ne hsrc] at hnew
        exact Or.inr ⟨hdst, hsrc, hnew⟩
  constructor
  · intro name' file' hnew
    rcases hold hnew with ⟨-, rfl⟩ | ⟨-, -, hbefore⟩
    · exact hwell.lt_next hentry
    · exact hwell.lt_next hbefore
  · intro name' name'' file' hnew hnew'
    rcases hold hnew with ⟨rfl, rfl⟩ | ⟨-, hsrc, hbefore⟩
    · rcases hold hnew' with ⟨rfl, -⟩ | ⟨-, hsrc', hbefore'⟩
      · rfl
      · exact absurd (hwell.one_name hbefore' hentry) hsrc'
    · rcases hold hnew' with ⟨-, rfl⟩ | ⟨-, -, hbefore'⟩
      · exact absurd (hwell.one_name hbefore hentry) hsrc
      · exact hwell.one_name hbefore hbefore'

theorem entry_rename {src dst name' : Name} (hentry : d.entry src = some file)
    (h : d.rename src dst = some d') (hdst : name' ≠ dst) (hsrc : name' ≠ src) :
    d'.entry name' = d.entry name' := by
  rw [rename_of_entry hentry, Option.some.injEq] at h
  subst h
  simp only [Function.update_of_ne hdst, Function.update_of_ne hsrc]

theorem entry_rename_src {src dst : Name} (hentry : d.entry src = some file)
    (h : d.rename src dst = some d') (hne : src ≠ dst) : d'.entry src = none := by
  rw [rename_of_entry hentry, Option.some.injEq] at h
  subst h
  simp only [Function.update_of_ne hne, Function.update_self]

theorem read_rename_dst {src dst : Name} (hentry : d.entry src = some file)
    (h : d.rename src dst = some d') : d'.read dst = some (d.content file) := by
  rw [rename_of_entry hentry, Option.some.injEq] at h
  subst h
  rw [read]
  simp only [Function.update_self, Option.map_some]

theorem files_rename {src dst : Name} (hentry : d.entry src = some file)
    (h : d.rename src dst = some d') : d'.content = d.content ∧ d'.creator = d.creator := by
  rw [rename_of_entry hentry, Option.some.injEq] at h
  subst h
  exact ⟨rfl, rfl⟩

/-! ### All names but one -/

/-- Every other name stands for the file it did, and that holds what it did. -/
structure SameBut (d : Directory Name Owner Content) (name : Name)
    (d' : Directory Name Owner Content) : Prop where
  wellFormed : d'.WellFormed
  entry : ∀ name' ≠ name, d'.entry name' = d.entry name'
  content : ∀ name' ≠ name, ∀ file, d.entry name' = some file → d'.content file = d.content file

namespace SameBut

omit [DecidableEq Name] in
theorem refl (h : d.WellFormed) (name : Name) : d.SameBut name d :=
  ⟨h, fun _ _ => rfl, fun _ _ _ _ => rfl⟩

omit [DecidableEq Name] in
theorem trans {d'' : Directory Name Owner Content} (h : d.SameBut name d')
    (h' : d'.SameBut name d'') : d.SameBut name d'' where
  wellFormed := h'.wellFormed
  entry name' hne := (h'.entry name' hne).trans (h.entry name' hne)
  content name' hne file hentry := by
    have hentry' := (h.entry name' hne).trans hentry
    rw [h'.content name' hne file hentry', h.content name' hne file hentry]

omit [DecidableEq Name] in
theorem read (h : d.SameBut name d') {name' : Name} (hne : name' ≠ name) :
    d'.read name' = d.read name' := by
  rw [Directory.read, Directory.read, h.entry name' hne]
  cases hentry : d.entry name' with
  | none => rfl
  | some file => rw [Option.map_some, Option.map_some, h.content name' hne file hentry]

omit [DecidableEq Name] in
/-- A write to a file that no other name stands for. -/
theorem write (h : d.WellFormed) (hown : ∀ name' ≠ name, d.entry name' ≠ some file)
    (content : Content) : d.SameBut name (d.write file content) where
  wellFormed := h.write file content
  entry _ _ := rfl
  content name' hne file' hentry := by
    apply write_content_of_ne
    rintro rfl
    exact hown name' hne hentry

omit [DecidableEq Name] in
theorem write_of_entry (h : d.WellFormed) (hentry : d.entry name = some file)
    (content : Content) : d.SameBut name (d.write file content) :=
  write h (fun _ hne hother => hne (h.one_name hother hentry)) content

theorem put (h : d.WellFormed) (name : Name) (owner : Owner) (content : Content) :
    d.SameBut name (d.put name owner content).2 := by
  cases hentry : d.entry name with
  | some file =>
      rw [put_of_entry hentry]
      exact write_of_entry h hentry content
  | none =>
      have hcreate : d.createNew name owner content = some (d.put name owner content) := by
        rw [createNew, Directory.put, hentry]
      generalize d.put name owner content = made at hcreate ⊢
      obtain ⟨file, d'⟩ := made
      have hcreated := created_of_createNew hcreate
      refine ⟨hcreated.wellFormed h, fun name' hne => hcreated.entry_of_ne hne, ?_⟩
      intro name' hne file' hentry'
      rw [hcreated.content, Function.update_of_ne (hcreated.ne_of_entry h hentry')]

theorem remove (h : d.WellFormed) (hremove : d.remove name = some d') : d.SameBut name d' where
  wellFormed := h.remove hremove
  entry _ hne := entry_remove_of_ne hremove hne
  content _ _ _ _ := by rw [remove_eq_some hremove]

end SameBut

end Names

end Directory

end SeekZstdSep.Lib
