/-
Module: SeekZstdSep.Proofs.Handles
Purpose: The plugin's table over runs of opens, uses and drops in any order, over handles whose ids
  coincide as they like: what a use runs on was opened for its handle, and a failure touches no
  other entry.
Trusted boundary: none
Main exports: OpenedOn, OpenFiles.Opened, FilesOp, recordOp, totalOp, PluginCall, State.Sound,
  State.sound_runs, uses_own_files
-/
import SeekZstdSep.Core.Handles
import Mathlib.Data.List.Forall2

namespace SeekZstdSep

variable {P R : Type} [ReadRecords R]

/-! ### Where a reader comes from -/

/-- The reader is `first` after some lookups and counts. -/
inductive AskedFrom (first : R) : R → Prop where
  | refl : AskedFrom first first
  | record {reader : R} (i : Nat) : AskedFrom first reader →
      AskedFrom first (ReadRecords.record reader i).2
  | totalRecords {reader : R} : AskedFrom first reader →
      AskedFrom first (ReadRecords.totalRecords reader).2

theorem AskedFrom.trans {first reader reader' : R} (h : AskedFrom first reader)
    (h' : AskedFrom reader reader') : AskedFrom first reader' := by
  induction h' with
  | refl => exact h
  | record i _ ih => exact .record i ih
  | totalRecords _ ih => exact .totalRecords ih

/-- The reader was opened on `path` with the finder. -/
def OpenedOn (opener : Opener P R) (finder : FinderSpec) (path : P) (reader : R) : Prop :=
  ∃ tick first, opener tick path finder = .ok first ∧ AskedFrom first reader

/-- Lists related place by place to a third one. -/
theorem forall₂_comp {α β γ : Type} {r : α → β → Prop} {s : β → γ → Prop} {t : α → γ → Prop}
    (comp : ∀ x y z, r x y → s y z → t x z) {xs : List α} {ys : List β} {zs : List γ}
    (h : List.Forall₂ r xs ys) (h' : List.Forall₂ s ys zs) : List.Forall₂ t xs zs := by
  induction h generalizing zs with
  | nil =>
      cases h'
      exact .nil
  | cons hone _ ih =>
      cases h' with
      | cons hone' hrest => exact .cons (comp _ _ _ hone hone') (ih hrest)

namespace OpenFiles

/-- The readers were opened in order on the paths that are recorded, with the finder that is. -/
def Opened (opener : Opener P R) (files : OpenFiles P R) : Prop :=
  List.Forall₂ (OpenedOn opener files.finder) files.paths files.readers

/-- What is asked of the readers leaves them those of the same handle. -/
structure Asked (files files' : OpenFiles P R) : Prop where
  paths : files'.paths = files.paths
  finder : files'.finder = files.finder
  readers : List.Forall₂ AskedFrom files.readers files'.readers

theorem Asked.refl (files : OpenFiles P R) : Asked files files where
  paths := rfl
  finder := rfl
  readers := List.forall₂_same.mpr fun _ _ => .refl

theorem Asked.trans {files files' files'' : OpenFiles P R} (h : Asked files files')
    (h' : Asked files' files'') : Asked files files'' where
  paths := h'.paths.trans h.paths
  finder := h'.finder.trans h.finder
  readers :=
    forall₂_comp (r := AskedFrom) (s := AskedFrom) (fun _ _ _ => AskedFrom.trans) h.readers
      h'.readers

/-- Readers that were opened stay so when they are asked. -/
theorem Opened.asked {opener : Opener P R} {files files' : OpenFiles P R}
    (h : files.Opened opener) (hasked : Asked files files') : files'.Opened opener := by
  rw [Opened, hasked.paths, hasked.finder]
  apply forall₂_comp _ h hasked.readers
  rintro path reader reader' ⟨tick, first, hopen, hafter⟩ hmore
  exact ⟨tick, first, hopen, hafter.trans hmore⟩

/-- One reader is asked something. -/
theorem asked_set {files : OpenFiles P R} {i : Nat} {reader reader' : R}
    (hreader : files.readers[i]? = some reader) (hafter : AskedFrom reader reader') :
    Asked files { files with readers := files.readers.set i reader' } where
  paths := rfl
  finder := rfl
  readers := by
    simp only
    generalize files.readers = readers at hreader
    induction readers generalizing i with
    | nil => cases hreader
    | cons first readers ih =>
        cases i with
        | zero =>
            cases hreader
            exact .cons hafter (List.forall₂_same.mpr fun _ _ => .refl)
        | succ i =>
            rw [List.getElem?_cons_succ] at hreader
            exact .cons .refl (ih hreader)

theorem asked_counted {files : OpenFiles P R} (counted : List Nat) :
    Asked files { files with counted := counted } where
  paths := rfl
  finder := rfl
  readers := List.forall₂_same.mpr fun _ _ => .refl

/-! ### What lookups and counts leave -/

theorem countFuel_asked (fuel : Nat) (files : OpenFiles P R) :
    Asked files (files.countFuel fuel).2 := by
  induction fuel generalizing files with
  | zero => exact .refl files
  | succ fuel ih =>
      rw [countFuel]
      cases hreader : files.readers[files.counted.length]? with
      | none => exact .refl files
      | some reader =>
          have hset := asked_set hreader (.totalRecords .refl)
          simp only
          cases (ReadRecords.totalRecords reader).1 with
          | error e => exact hset
          | ok records => exact hset.trans ((asked_counted _).trans (ih _))

theorem countedUpto_asked (files : OpenFiles P R) (i : Nat) :
    Asked files (files.countedUpto i).2 := by
  have hcount := countFuel_asked (i + 1 - files.counted.length) files
  rw [countedUpto]
  cases hresult : files.countFuel (i + 1 - files.counted.length) with
  | mk result files' =>
      rw [hresult] at hcount
      cases result with
      | error e => exact hcount
      | ok done =>
          simp only
          cases files'.counted[i]? with
          | none => exact hcount
          | some upto => exact hcount

theorem placeFrom_asked (index left i before : Nat) (files : OpenFiles P R) :
    Asked files (files.placeFrom index left i before).2 := by
  induction left generalizing files i before with
  | zero => exact .refl files
  | succ left ih =>
      have hcount := countedUpto_asked files i
      rw [placeFrom]
      cases hresult : files.countedUpto i with
      | mk result files' =>
          rw [hresult] at hcount
          cases result with
          | error e => exact hcount
          | ok upto =>
              by_cases hin : index < upto
              · simp only [if_pos hin]
                exact hcount
              · simp only [if_neg hin]
                exact hcount.trans (ih _ _ _)

theorem record_asked (files : OpenFiles P R) (index : Nat) :
    Asked files (files.record index).2 := by
  rw [record]
  cases subUsize true files.readers.length 1 with
  | none => exact .refl files
  | some last =>
      have hplace := placeFrom_asked index last 0 0 files
      simp only
      cases hresult : files.placeFrom index last 0 0 with
      | mk result files' =>
          rw [hresult] at hplace
          cases result with
          | error e => exact hplace
          | ok place =>
              obtain ⟨file, before⟩ := place
              simp only
              cases hreader : files'.readers[file]? with
              | none => exact hplace
              | some reader =>
                  cases subUsize true index before with
                  | none => exact hplace
                  | some inFile =>
                      have hset := asked_set hreader (.record inFile .refl)
                      simp only
                      cases (ReadRecords.record reader inFile).1 with
                      | error e => exact hplace.trans hset
                      | ok found => exact hplace.trans hset

theorem total_asked (files : OpenFiles P R) : Asked files files.total.2 := by
  rw [total]
  cases subUsize true files.readers.length 1 with
  | none => exact .refl files
  | some last => exact countedUpto_asked files last

end OpenFiles

/-! ### Runs of calls -/

/-- What a use of a handle runs on its open files: it asks the readers and keeps the rest. -/
structure FilesOp (P R α : Type) [ReadRecords R] where
  run : OpenFiles P R → Except PluginError α × OpenFiles P R
  asked : ∀ files, OpenFiles.Asked files (run files).2

/-- `$h.10`. -/
def recordOp (P R : Type) [ReadRecords R] (index : Nat) : FilesOp P R (Option Bytes) where
  run files := files.record index
  asked files := OpenFiles.record_asked files index

/-- `$h.records`. -/
def totalOp (P R : Type) [ReadRecords R] : FilesOp P R Nat where
  run files := files.total
  asked := OpenFiles.total_asked

/-- What the engine calls. A restart loses the table and begins to count ids anew. -/
inductive PluginCall (P R : Type) [ReadRecords R] : Type 1 where
  | openFiles (paths : List P) (finder : FinderSpec) (format : Option String)
  | withFiles {α : Type} (handle : Handle P) (op : FilesOp P R α)
  | drop (handle : Handle P)
  | restart (nextId : Nat)

namespace State

variable [DecidableEq P] (opener : Opener P R)

/-- The table behind a call. -/
def behind (state : State P R) : PluginCall P R → State P R
  | .openFiles paths finder format => (state.openCommand opener paths finder format).2
  | .withFiles handle op => (state.withFiles opener handle op.run).2
  | .drop handle => state.dropped handle
  | .restart nextId => { nextId := nextId, tick := state.tick }

/-- The table behind a sequence of calls. -/
def runs (state : State P R) (calls : List (PluginCall P R)) : State P R :=
  calls.foldl (behind opener) state

/-- Every entry was opened on what is recorded in it. -/
def Sound (state : State P R) : Prop :=
  ∀ id files, state.readers id = some files → files.Opened opener

omit [DecidableEq P] in
theorem openAll_spec (finder : FinderSpec) (paths : List P) (tick : Nat) :
    ∀ readers, (openAll opener finder tick paths).1 = .ok readers →
      List.Forall₂ (OpenedOn opener finder) paths readers := by
  induction paths generalizing tick with
  | nil =>
      intro readers h
      cases h
      exact .nil
  | cons path paths ih =>
      intro readers h
      rw [openAll] at h
      cases hopen : opener tick path finder with
      | error e =>
          rw [hopen] at h
          cases h
      | ok reader =>
          rw [hopen] at h
          have hrest := ih (tick + 1)
          simp only at h
          cases hall : openAll opener finder (tick + 1) paths with
          | mk result tick' =>
              rw [hall] at h hrest
              cases result with
              | error e => cases h
              | ok more =>
                  cases h
                  exact .cons ⟨tick, reader, hopen, .refl⟩ (hrest more rfl)

omit [ReadRecords R] [DecidableEq P] in
@[simp] theorem insert_self (state : State P R) (id : Nat) (files : OpenFiles P R) :
    (state.insert id files).readers id = some files := if_pos rfl

omit [ReadRecords R] [DecidableEq P] in
theorem insert_ne (state : State P R) {id other : Nat} (h : other ≠ id) (files : OpenFiles P R) :
    (state.insert id files).readers other = state.readers other := if_neg h

variable {opener}

omit [DecidableEq P] in
theorem Sound.insert {state : State P R} (h : state.Sound opener) {id : Nat}
    {files : OpenFiles P R} (hfiles : files.Opened opener) :
    (state.insert id files).Sound opener := by
  intro other files' hother
  by_cases hid : other = id
  · subst hid
    rw [insert_self] at hother
    cases hother
    exact hfiles
  · rw [insert_ne state hid] at hother
    exact h other files' hother

omit [ReadRecords R] in
/-- The entry of a handle records what the handle refers to. -/
theorem entryOf_eq_some {state : State P R} {handle : Handle P} {files : OpenFiles P R}
    (h : state.entryOf handle = some files) :
    state.readers handle.id = some files ∧ files.paths = handle.paths ∧
      files.finder = handle.finder := by
  rw [entryOf, Option.filter_eq_some_iff] at h
  obtain ⟨hentry, hrefers⟩ := h
  obtain ⟨hpaths, hfinder⟩ := of_decide_eq_true hrefers
  exact ⟨hentry, hpaths.symm, hfinder.symm⟩

omit [ReadRecords R] in
/-- Whether an entry is one of the handle is told from the entry alone. -/
theorem entryOf_congr {state state' : State P R} {handle : Handle P}
    (h : state'.readers handle.id = state.readers handle.id) :
    state'.entryOf handle = state.entryOf handle := by
  rw [entryOf, entryOf, h]

/-- A use of a handle fails to open its files and leaves the table, or runs on files that were
opened for the handle, and leaves every entry but its own. -/
theorem withFiles_spec {state : State P R} (h : state.Sound opener) {α : Type}
    (handle : Handle P) (op : FilesOp P R α) :
    (∃ e tick, state.withFiles opener handle op.run = (.error e, { state with tick := tick })) ∨
      ∃ files tick, files.paths = handle.paths ∧ files.finder = handle.finder ∧
        files.Opened opener ∧ state.withFiles opener handle op.run =
          ((op.run files).1,
            State.insert { state with tick := tick } handle.id (op.run files).2) := by
  rw [withFiles]
  cases hentry : state.entryOf handle with
  | some files =>
      obtain ⟨hreaders, hpaths, hfinder⟩ := entryOf_eq_some hentry
      exact Or.inr ⟨files, state.tick, hpaths, hfinder, h _ _ hreaders, rfl⟩
  | none =>
      have hspec := openAll_spec opener handle.finder handle.paths state.tick
      simp only [openFor]
      cases hall : openAll opener handle.finder state.tick handle.paths with
      | mk result tick =>
          rw [hall] at hspec
          cases result with
          | error e => exact Or.inl ⟨e, tick, rfl⟩
          | ok readers =>
              exact Or.inr ⟨{ readers := readers, paths := handle.paths, finder := handle.finder },
                tick, rfl, rfl, hspec readers rfl, rfl⟩

omit [DecidableEq P] in
/-- So does `zstdsep open`: it fails and leaves the table, or adds an entry. -/
theorem openCommand_spec (opener : Opener P R) (state : State P R) (paths : List P)
    (finder : FinderSpec) (format : Option String) :
    (∃ e tick, state.openCommand opener paths finder format =
        (.error e, { state with tick := tick })) ∨
      ∃ files tick handle, files.Opened opener ∧
        state.openCommand opener paths finder format =
          (.ok handle,
            { State.insert { state with tick := tick } state.nextId files with
              nextId := (state.nextId + 1) % 2 ^ 64 }) := by
  have hspec := openAll_spec opener finder paths state.tick
  rw [openCommand]
  cases hall : openAll opener finder state.tick paths with
  | mk result tick =>
      rw [hall] at hspec
      cases result with
      | error e => exact Or.inl ⟨e, tick, rfl⟩
      | ok readers =>
          exact Or.inr ⟨{ readers := readers, paths := paths, finder := finder }, tick, _,
            hspec readers rfl, rfl⟩

/-- A call keeps the table sound. -/
theorem sound_behind {state : State P R} (h : state.Sound opener) (call : PluginCall P R) :
    (state.behind opener call).Sound opener := by
  cases call with
  | openFiles paths finder format =>
      rw [behind]
      rcases openCommand_spec opener state paths finder format with
        ⟨e, tick, hfailed⟩ | ⟨files, tick, handle, hopened, hok⟩
      · rw [hfailed]
        exact h
      · rw [hok]
        exact Sound.insert h hopened
  | withFiles handle op =>
      rw [behind]
      rcases withFiles_spec h handle op with
        ⟨e, tick, hfailed⟩ | ⟨files, tick, -, -, hopened, hok⟩
      · rw [hfailed]
        exact h
      · rw [hok]
        exact Sound.insert h
          (hopened.asked (op.asked files))
  | drop handle =>
      intro id files hfiles
      by_cases hid : id = handle.id
      · simp only [behind, dropped, if_pos hid] at hfiles
        cases hfiles
      · simp only [behind, dropped, if_neg hid] at hfiles
        exact h id files hfiles
  | restart nextId =>
      intro id files hfiles
      cases hfiles

/-- So does any run of calls. -/
theorem sound_runs {state : State P R} (h : state.Sound opener) (calls : List (PluginCall P R)) :
    (state.runs opener calls).Sound opener := by
  induction calls generalizing state with
  | nil => exact h
  | cons call calls ih => exact ih (sound_behind h call)

end State

/-- The call returned an error. -/
def PluginCall.Fails [DecidableEq P] (opener : Opener P R) (state : State P R) :
    PluginCall P R → Prop
  | .openFiles paths finder format =>
      ∃ e, (state.openCommand opener paths finder format).1 = .error e
  | .withFiles handle op => ∃ e, (state.withFiles opener handle op.run).1 = .error e
  | _ => False

/-- The handle the call is a use of. -/
def PluginCall.handle : PluginCall P R → Option (Handle P)
  | .withFiles handle _ => some handle
  | _ => none

/-- After any run of calls a use of a handle fails to open its files, in which case the table is as
it was, or runs on readers opened in order on the handle's own paths with its own finder. Every
handle under another id that has its entry before a call that fails has it after the call, and is
used with what it holds. -/
theorem uses_own_files [DecidableEq P] (opener : Opener P R) (nextId : Nat)
    (calls : List (PluginCall P R)) :
    let state := State.runs opener { nextId := nextId } calls
    (∀ {α : Type} (handle : Handle P) (op : FilesOp P R α),
      (∃ e tick, state.withFiles opener handle op.run =
          (.error e, { state with tick := tick })) ∨
        ∃ files tick, files.paths = handle.paths ∧ files.finder = handle.finder ∧
          files.Opened opener ∧ state.withFiles opener handle op.run =
            ((op.run files).1,
              State.insert { state with tick := tick } handle.id (op.run files).2)) ∧
      ∀ call : PluginCall P R, call.Fails opener state →
        ∀ (other : Handle P) (files : OpenFiles P R),
          (∀ handle ∈ call.handle, handle.id ≠ other.id) → state.entryOf other = some files →
            (state.behind opener call).entryOf other = some files ∧
              ∀ {α : Type} (op : FilesOp P R α),
                ((state.behind opener call).withFiles opener other op.run).1 =
                  (op.run files).1 := by
  intro state
  have hsound : state.Sound opener := State.sound_runs (fun _ _ h => by cases h) calls
  refine ⟨fun handle op => State.withFiles_spec hsound handle op, ?_⟩
  intro call hfails other files hother hentry
  have hkept : (state.behind opener call).readers other.id = state.readers other.id := by
    cases call with
    | openFiles paths finder format =>
        rw [State.behind]
        rcases State.openCommand_spec opener state paths finder format with
          ⟨e, tick, hfailed⟩ | ⟨files', tick, handle, -, hok⟩
        · rw [hfailed]
        · obtain ⟨e, he⟩ := hfails
          rw [hok] at he
          cases he
    | withFiles handle op =>
        rw [State.behind]
        rcases State.withFiles_spec hsound handle op with
          ⟨e, tick, hfailed⟩ | ⟨files', tick, -, -, -, hok⟩
        · rw [hfailed]
        · rw [hok]
          exact State.insert_ne _ (hother handle rfl).symm _
    | drop handle => exact absurd hfails not_false
    | restart nextId => exact absurd hfails not_false
  have hsame := (State.entryOf_congr hkept).trans hentry
  refine ⟨hsame, ?_⟩
  intro α op
  rw [State.withFiles, hsame]

end SeekZstdSep
