/-
Module: SeekZstdSep.Proofs.Session
Purpose: Whatever is done with the plugin, in any order: a handle, and the stream of its files,
  answer with the items that were saved in these, each once and in order, through saves, opens,
  drops and restarts. What is known is kept beside the session: a save that does not keep to what
  it has to makes its file unknown, and one that writes to an open file makes that entry outdated.
Trusted boundary: the library, as `Zeekstd` has it; the engine, the file system and the files that
  readers find, as `Core.Session` has them
Main exports: Views, Decode.item, Shelf.Names, Known, TableKept, Known.behind, plugin,
  session_answers_from_shelf
-/
import SeekZstdSep.Lib.Known
import SeekZstdSep.Proofs.Handles
import SeekZstdSep.Proofs.Ready
import SeekZstdSep.Proofs.Save

namespace SeekZstdSep

open Lib

variable {V : Type} {engine : Engine V} {zeek : Zeekstd} {boundary : Boundary}
  {items : List Bytes} {view : Bytes → Except Error SeekableFile}

/-! ### Opening a file of items -/

/-- A reader finds the files that the library lays out. -/
def Views (zeek : Zeekstd) (view : Bytes → Except Error SeekableFile) : Prop :=
  ∀ archive : Archive zeek,
    ∃ file, view archive.file.bytes = .ok file ∧ file.Of zeek archive.file.bytes

/-- So many items are numbered without an overflow, whatever frames they are in. -/
def itemLimit : Nat := 2 ^ 31

/-- A reader that was opened on a file of items: it is ready to answer with them, and hands them out
as a stream and in ranges too. -/
structure RecordReader.OpenedOnItems (items : List Bytes) (separator : Bytes) (r : RecordReader) :
    Prop where
  ready : r.Ready (items.map (· ++ separator))
  yields : r.intoRecords.Yields (items.map (· ++ separator))
  bytes : r.intoBytes = encoded separator items
  range : ∀ (fromIdx cnt : Nat) (written : Bytes),
    (r.recordsTo fromIdx cnt { written := written }).2.2 =
        { written := written ++ encoded separator ((items.drop fromIdx).take cnt) } ∧
      (fromIdx < items.length → (r.recordsTo fromIdx cnt { written := written }).1 = .ok ())

theorem HoldsItems.opened {bytes : Bytes} (h : HoldsItems zeek boundary items bytes)
    (hsmall : items.length < itemLimit) (hviews : Views zeek view) (label : String) :
    ∃ file r, view bytes = .ok file ∧ RecordReader.fromReader file label boundary = .ok r ∧
      r.OpenedOnItems items boundary.bytes := by
  obtain ⟨archive, n, rfl, hcounted, hrecords, hrest⟩ := h
  obtain ⟨file, hview, hof⟩ := hviews archive
  have hcontents := hof.contents_eq
  have huniform : Uniform boundary.find boundary.tailIsRecord n file.contents := by
    rw [hcontents]
    exact hcounted.uniform
  have hrecords' : boundary.find.records file.contents.flatten =
      items.map (· ++ boundary.bytes) := by
    rw [hcontents]
    exact hrecords
  have hrest' : boundary.find.rest file.contents.flatten = [] := by
    rw [hcontents]
    exact hrest
  have hfirst : n ≤ (boundary.find.records file.contents.flatten).length := by
    rw [hcontents]
    exact hcounted.le_length_records
  -- as many records as there are before the last frame, and those of the first again
  have hslots : n * file.contents.length ≤ 2 * items.length := by
    have hbefore := huniform.le_length_records
    rw [hrecords', List.length_map] at hbefore hfirst
    have hpos := huniform.length_pos
    obtain ⟨m, hm⟩ : ∃ m, file.contents.length = m + 1 := ⟨file.contents.length - 1, by omega⟩
    rw [hm, Nat.add_sub_cancel] at hbefore
    rw [hm, Nat.mul_succ]
    omega
  have hframes : file.contents.length ≤ u32Max := by
    rw [SeekableFile.contents, List.length_map]
    exact file.count_le
  have hfile : UniformFile boundary n file := by
    refine ⟨huniform, ?_⟩
    calc n * file.contents.length * file.contents.length
        ≤ 2 * items.length * u32Max := Nat.mul_le_mul hslots hframes
      _ ≤ 2 * itemLimit * u32Max :=
          Nat.mul_le_mul_right _ (Nat.mul_le_mul_left _ (Nat.le_of_lt hsmall))
      _ < 2 ^ 64 := by decide
  have hhead : 0 < (boundary.find.records (file.contents.headD [])).length := by
    have hcount : (boundary.find.records (archive.contents.headD [])).length = n := hcounted.first
    rw [hcontents, hcount]
    exact huniform.pos
  obtain ⟨r, hopen, hopened⟩ :=
    RecordReader.fromReader_isOk file label boundary huniform.ne_nil hhead
  have hitems : itemsOf boundary file.contents = items.map (· ++ boundary.bytes) := by
    rw [itemsOf, Finder.items_of_rest hrest', hrecords']
  have hserves := hopened.serves huniform
  refine ⟨file, r, hview, hopen, ⟨file.contents, hserves, ?_, ?_, ?_⟩, ?_, ?_, ?_⟩
  · rw [hopened.boundary_eq, hrest']
  · rw [hopened.boundary_eq, hitems]
  · intro k hk
    rw [hopened.frame] at hk
    cases hk
  · have hon : FreshOrFailing.On boundary file ⟨r, fun _ => none, 0⟩ := ⟨⟨n, hfile⟩, label, hopen⟩
    have hyields := hon.yields
    rw [recordsOf, hitems] at hyields
    exact hyields
  · have hall := boundary.find.flatten_records_append_rest file.contents.flatten
    rw [hrecords', hrest', List.append_nil] at hall
    rw [RecordReader.intoBytes, hopened.stream, ← hall, encoded]
  · intro fromIdx cnt written
    have hwhole := hserves.recordsTo_whole (hopened.small huniform hfile.le_usizeMax) fromIdx cnt
      written
    have hrange : (((itemsOf r.boundary file.contents).drop fromIdx).take cnt).flatten =
        encoded boundary.bytes ((items.drop fromIdx).take cnt) := by
      rw [hopened.boundary_eq, hitems, ← List.map_drop, ← List.map_take, encoded]
    rw [hrange, hopened.boundary_eq, hitems, List.length_map] at hwhole
    exact hwhole

/-! ### Opening what was saved -/

namespace Shelf

/-- What was saved under a path. -/
def itemsAt (shelf : Shelf) (path : String) : List Bytes :=
  ((shelf path).map Saved.items).getD []

/-- There are paths, and something was saved under each, to be read by the spec. -/
def Names (shelf : Shelf) (spec : FinderSpec) (paths : List String) : Prop :=
  paths ≠ [] ∧ ∀ path ∈ paths, ∃ items,
    shelf path = some { spec := spec, items := items } ∧ items.length < itemLimit

/-- The records of the files, file by file. -/
def recordsOn (shelf : Shelf) (spec : FinderSpec) (paths : List String) : List (List Bytes) :=
  paths.map fun path => (shelf.itemsAt path).map (· ++ spec.separator)

theorem flatten_recordsOn (shelf : Shelf) (spec : FinderSpec) (paths : List String) :
    (shelf.recordsOn spec paths).flatten =
      (paths.flatMap shelf.itemsAt).map (· ++ spec.separator) := by
  rw [recordsOn, List.map_flatMap, List.flatMap_def]

end Shelf

section Opening

variable {shelf : Shelf} {files : Files} {opens : Nat → Bool} {spec : FinderSpec}
  {path : String} {paths : List String}

/-- A file that something was saved in opens, unless the file system refuses that. -/
theorem openPath_shelved (hkept : shelf.Kept zeek files) (hviews : Views zeek view)
    (hshelf : shelf path = some { spec := spec, items := items })
    (hsmall : items.length < itemLimit) {named : NamedBoundary}
    (hnamed : fromSpec spec.finder spec.arg = .ok named) (opens : Bool) :
    (opens = false ∧ ∃ e, openPath view opens files path named = .error e) ∨
      ∃ r, openPath view opens files path named = .ok r ∧
        r.OpenedOnItems items spec.separator := by
  obtain ⟨boundary, bytes, hnames, hread, hholds⟩ := hkept.holds path _ hshelf
  obtain ⟨named', hnamed', hchecked⟩ := hnames.boundary
  obtain rfl : named = named' := Except.ok.inj (hnamed.symm.trans hnamed')
  obtain ⟨file, r, hview, hopen, hitems⟩ := hholds.opened hsmall hviews path
  cases opens with
  | false => exact Or.inl ⟨rfl, _, rfl⟩
  | true =>
      right
      simp only [openPath, if_true, hread, hchecked, hview]
      refine ⟨r, hopen, ?_⟩
      rw [hnames.separator]
      exact hitems

theorem openSource_shelved (hkept : shelf.Kept zeek files) (hviews : Views zeek view)
    (opens : Nat → Bool)
    (hshelf : shelf path = some { spec := spec, items := items })
    (hsmall : items.length < itemLimit) (tick : Nat) :
    (opens tick = false ∧ ∃ e, openSource view opens files tick path spec = .error e) ∨
      ∃ r, openSource view opens files tick path spec = .ok r ∧
        r.OpenedOnItems items spec.separator := by
  obtain ⟨boundary, bytes, hnames, -, -⟩ := hkept.holds path _ hshelf
  obtain ⟨named, hnamed, -⟩ := hnames.boundary
  simp only [openSource, hnamed]
  exact openPath_shelved hkept hviews hshelf hsmall hnamed (opens tick)

theorem openAll_shelved (hkept : shelf.Kept zeek files) (hviews : Views zeek view)
    (opens : Nat → Bool) (hshelf : ∀ path ∈ paths, ∃ items,
      shelf path = some { spec := spec, items := items } ∧ items.length < itemLimit)
    (tick : Nat) :
    (∃ refused e tick', opens refused = false ∧
      State.openAll (openSource view opens files) spec tick paths =
        (.error (.cannotOpen e), tick')) ∨
      ∃ readers tick', State.openAll (openSource view opens files) spec tick paths =
          (.ok readers, tick') ∧
        List.Forall₂ (fun path r => RecordReader.OpenedOnItems (shelf.itemsAt path)
          spec.separator r) paths readers := by
  induction paths generalizing tick with
  | nil => exact Or.inr ⟨[], tick, rfl, .nil⟩
  | cons path paths ih =>
      obtain ⟨hone, hrest⟩ := List.forall_mem_cons.mp hshelf
      obtain ⟨items, hitems, hsmall⟩ := hone
      rw [State.openAll]
      rcases openSource_shelved hkept hviews opens hitems hsmall tick with ⟨hopens, e, hopen⟩ |
        ⟨r, hopen, hr⟩
      · rw [hopen]
        exact Or.inl ⟨tick, e, tick + 1, hopens, rfl⟩
      · have hr' : r.OpenedOnItems (shelf.itemsAt path) spec.separator := by
          rw [Shelf.itemsAt, hitems]
          exact hr
        simp only [hopen]
        rcases ih hrest (tick + 1) with ⟨refused, e, tick', hopens, hall⟩ |
          ⟨readers, tick', hall, hreaders⟩
        · rw [hall]
          exact Or.inl ⟨refused, e, tick', hopens, rfl⟩
        · rw [hall]
          exact Or.inr ⟨r :: readers, tick', rfl, .cons hr' hreaders⟩

/-- Readers that were just opened are sound. -/
theorem sound_of_opened {readers : List RecordReader}
    (h : List.Forall₂ (fun path r => RecordReader.OpenedOnItems (shelf.itemsAt path)
      spec.separator r) paths readers) :
    OpenFiles.Sound (shelf.recordsOn spec paths)
      ({ readers := readers, paths := paths, finder := spec } : OpenFiles String RecordReader)
    where
  length_eq := by
    rw [Shelf.recordsOn, List.length_map]
    exact h.length_eq.symm
  holds := by
    intro i hi reader hreader
    obtain ⟨hlt, rfl⟩ := List.getElem?_eq_some_iff.mp hreader
    have hpaths : i < paths.length := by rwa [Shelf.recordsOn, List.length_map] at hi
    have hopened := (List.forall₂_iff_get.mp h).2 i hpaths hlt
    simp only [Shelf.recordsOn, List.getElem_map]
    exact hopened.ready
  counted_le := Nat.zero_le _
  counted := rfl

end Opening

/-! ### What is known -/

/-- What is known of a session: what was saved, by path, and which ids of the table hold files open
that were written to since. -/
structure Known where
  shelf : Shelf
  outdated : Nat → Prop

namespace Known

/-- Nothing was saved yet, and no file was opened. -/
def nothing : Known where
  shelf := fun _ => none
  outdated := fun _ => False

/-- Other files are open under some ids, or none. -/
def renew (known : Known) (ids : Nat → Prop) : Known :=
  { known with outdated := fun id => known.outdated id ∧ ¬ ids id }

/-- Behind a call that writes, with what is then known to be saved: an entry is outdated that holds
a path open whose file was changed, or of which something else is known. -/
def written (known : Known) (session next : Session) (shelf : Shelf) : Known where
  shelf := shelf
  outdated id := known.outdated id ∨ ∃ entry path, session.table.readers id = some entry ∧
    path ∈ entry.paths ∧
      (next.files.read path ≠ session.files.read path ∨ shelf path ≠ known.shelf path)

/-- The entry of the handle is not outdated, where it has one. -/
def Current (known : Known) (table : State String RecordReader) (handle : Handle String) : Prop :=
  ∀ entry, table.entryOf handle = some entry → ¬ known.outdated handle.id

end Known

/-- A use of the handle opened its files anew. -/
def Renewed (handle : Handle String) (table table' : State String RecordReader) (id : Nat) : Prop :=
  id = handle.id ∧ table.entryOf handle = none ∧ table'.entryOf handle ≠ none

/-! ### The table -/

/-- Every entry over files that something was saved in holds the records of these, unless it is
outdated. -/
def TableKept (known : Known) (table : State String RecordReader) : Prop :=
  ∀ id files, table.readers id = some files → ¬ known.outdated id →
    known.shelf.Names files.finder files.paths →
      OpenFiles.Sound (known.shelf.recordsOn files.finder files.paths) files

section Table

variable {known known' : Known} {shelf : Shelf} {files : Files} {opens : Nat → Bool}
  {table table' : State String RecordReader} {ids : Nat → Prop} {α : Type}

/-- More entries may be taken to be outdated, and the table may count what it opens. -/
theorem TableKept.weaken (h : TableKept known table) (hshelf : known'.shelf = known.shelf)
    (hmore : ∀ id, known.outdated id → known'.outdated id)
    (hreaders : table'.readers = table.readers) : TableKept known' table' := by
  rw [TableKept, hshelf, hreaders]
  exact fun id files hentry hcurrent => h id files hentry fun hold => hcurrent (hmore id hold)

theorem TableKept.renew_none (h : TableKept known table) (hids : ∀ id, ¬ ids id)
    (hreaders : table'.readers = table.readers) : TableKept (known.renew ids) table' :=
  h.weaken rfl (fun id hold => ⟨hold, hids id⟩) hreaders

theorem TableKept.insert (h : TableKept known table) {id tick : Nat}
    {entry : OpenFiles String RecordReader} (hothers : ∀ other ≠ id, ¬ ids other)
    (hentry : (known.outdated id → ids id) → known.shelf.Names entry.finder entry.paths →
      OpenFiles.Sound (known.shelf.recordsOn entry.finder entry.paths) entry) :
    TableKept (known.renew ids) (State.insert { table with tick := tick } id entry) := by
  intro other files hother hcurrent
  by_cases hid : other = id
  · subst hid
    rw [State.insert_self] at hother
    cases hother
    exact hentry (not_and_not_right.mp hcurrent)
  · rw [State.insert_ne _ hid] at hother
    exact h other files hother fun hold => hcurrent ⟨hold, hothers other hid⟩

/-- A use of a handle fails to open its files, or runs on those of its entry, or on those it
opened. -/
theorem withFiles_cases (opener : Opener String RecordReader) (table : State String RecordReader)
    (handle : Handle String)
    (f : OpenFiles String RecordReader → Except PluginError α × OpenFiles String RecordReader) :
    (∃ e tick, table.entryOf handle = none ∧
        State.openAll opener handle.finder table.tick handle.paths = (.error e, tick) ∧
        table.withFiles opener handle f = (.error e, { table with tick := tick })) ∨
      ∃ files tick, files.paths = handle.paths ∧ files.finder = handle.finder ∧
        (table.entryOf handle = some files ∨
          ∃ readers, State.openAll opener handle.finder table.tick handle.paths =
              (.ok readers, tick) ∧
            files = { readers := readers, paths := handle.paths, finder := handle.finder }) ∧
        table.withFiles opener handle f =
          ((f files).1, State.insert { table with tick := tick } handle.id (f files).2) := by
  rw [State.withFiles]
  cases hentry : table.entryOf handle with
  | some files =>
      obtain ⟨-, hpaths, hfinder⟩ := State.entryOf_eq_some hentry
      exact Or.inr ⟨files, table.tick, hpaths, hfinder, Or.inl rfl, rfl⟩
  | none =>
      simp only [State.openFor]
      cases hall : State.openAll opener handle.finder table.tick handle.paths with
      | mk result tick =>
          cases result with
          | error e => exact Or.inl ⟨e, tick, trivial, rfl, rfl⟩
          | ok readers =>
              exact Or.inr ⟨_, tick, rfl, rfl, Or.inr ⟨readers, rfl, rfl⟩, rfl⟩

/-- What is asked of the files of a handle leaves them sound. -/
def FilesOp.Keeps (op : FilesOp String RecordReader α) : Prop :=
  ∀ contents files, contents ≠ [] → OpenFiles.Sound contents files →
    OpenFiles.Sound contents (op.run files).2

theorem recordOp_keeps (index : Nat) : (recordOp String RecordReader index).Keeps :=
  fun _ _ hne h => (OpenFiles.record_sure h hne index).1

theorem totalOp_keeps : (totalOp String RecordReader).Keeps :=
  fun _ _ hne h => (OpenFiles.total_sure h hne).1

theorem Shelf.Names.recordsOn_ne_nil {spec : FinderSpec} {paths : List String}
    (h : shelf.Names spec paths) : shelf.recordsOn spec paths ≠ [] :=
  fun hnil => h.1 (List.map_eq_nil_iff.mp hnil)

/-- The files that a use of a handle runs on hold the records of what was saved in them, unless they
are those of an outdated entry. -/
theorem TableKept.sound (h : TableKept known table) (hkept : known.shelf.Kept zeek files)
    (hviews : Views zeek view) (opens : Nat → Bool) {handle : Handle String}
    (hcurrent : known.Current table handle)
    (hnames : known.shelf.Names handle.finder handle.paths)
    {entry : OpenFiles String RecordReader} {tick : Nat}
    (hentry : table.entryOf handle = some entry ∨
      ∃ readers, State.openAll (openSource view opens files) handle.finder table.tick
          handle.paths = (.ok readers, tick) ∧
        entry = { readers := readers, paths := handle.paths, finder := handle.finder }) :
    OpenFiles.Sound (known.shelf.recordsOn handle.finder handle.paths) entry := by
  rcases hentry with hentry | ⟨readers, hall, rfl⟩
  · obtain ⟨hreaders, hpaths, hfinder⟩ := State.entryOf_eq_some hentry
    have hsound := h handle.id entry hreaders (hcurrent entry hentry)
    rw [hpaths, hfinder] at hsound
    exact hsound hnames
  · rcases openAll_shelved hkept hviews opens hnames.2 table.tick with
      ⟨refused, e, tick', -, herror⟩ | ⟨readers', tick', hok, hreaders⟩
    · rw [hall] at herror
      cases herror
    · rw [hall] at hok
      cases hok
      exact sound_of_opened hreaders

/-- A use of a handle over files that something was saved in runs on files that hold the records of
these, unless the file system refuses to open one. -/
theorem TableKept.withFiles_shelved (h : TableKept known table)
    (hkept : known.shelf.Kept zeek files) (hviews : Views zeek view) (opens : Nat → Bool)
    {handle : Handle String} (hcurrent : known.Current table handle)
    (hnames : known.shelf.Names handle.finder handle.paths)
    (f : OpenFiles String RecordReader → Except PluginError α × OpenFiles String RecordReader) :
    (∃ refused e tick, opens refused = false ∧
        table.withFiles (openSource view opens files) handle f =
          (.error (.cannotOpen e), { table with tick := tick })) ∨
      ∃ entry tick, entry.paths = handle.paths ∧ entry.finder = handle.finder ∧
        OpenFiles.Sound (known.shelf.recordsOn handle.finder handle.paths) entry ∧
        table.withFiles (openSource view opens files) handle f =
          ((f entry).1, State.insert { table with tick := tick } handle.id (f entry).2) := by
  rcases withFiles_cases (openSource view opens files) table handle f with
    ⟨e, tick, -, hall, hfails⟩ | ⟨entry, tick, hpaths, hfinder, hentry, hruns⟩
  · rcases openAll_shelved hkept hviews opens hnames.2 table.tick with
      ⟨refused, e', tick', hrefused, herror⟩ | ⟨readers, tick', hok, -⟩
    · rw [hall] at herror
      cases herror
      exact Or.inl ⟨refused, e', tick, hrefused, hfails⟩
    · rw [hall] at hok
      cases hok
  · exact Or.inr ⟨entry, tick, hpaths, hfinder,
      h.sound hkept hviews opens hcurrent hnames hentry, hruns⟩

/-- It leaves every entry what it is to be. -/
theorem TableKept.withFiles (h : TableKept known table) (hkept : known.shelf.Kept zeek files)
    (hviews : Views zeek view) (opens : Nat → Bool) (handle : Handle String)
    {op : FilesOp String RecordReader α}
    (hop : op.Keeps) :
    let behind := (table.withFiles (openSource view opens files) handle op.run).2
    TableKept (known.renew (Renewed handle table behind)) behind := by
  intro behind
  rcases withFiles_cases (openSource view opens files) table handle op.run with
    ⟨e, tick, hnone, -, hfails⟩ | ⟨entry, tick, hpaths, hfinder, hentry, hruns⟩
  · have hbehind : behind = { table with tick := tick } := congrArg Prod.snd hfails
    rw [hbehind]
    exact h.renew_none (fun id hid => hid.2.2 hnone) rfl
  · have hbehind : behind = State.insert { table with tick := tick } handle.id (op.run entry).2 :=
      congrArg Prod.snd hruns
    generalize behind = after at hbehind ⊢
    nth_rewrite 2 [hbehind]
    apply h.insert (fun other hne hid => hne hid.1)
    rw [(op.asked entry).paths, (op.asked entry).finder, hpaths, hfinder]
    intro hrenewed hnames
    have hcurrent : known.Current table handle := by
      intro found hfound hold
      rw [(hrenewed hold).2.1] at hfound
      cases hfound
    exact hop _ _ hnames.recordsOn_ne_nil (h.sound hkept hviews opens hcurrent hnames hentry)

/-- What the summary of a handle asks of its files. -/
def summaryOp (handle : Handle String) (withRecords : Bool) :
    FilesOp String RecordReader Summary where
  run := summaryOf handle withRecords
  asked files := by
    cases withRecords with
    | false => exact .refl files
    | true => exact OpenFiles.total_asked files

theorem summaryOp_keeps (handle : Handle String) (withRecords : Bool) :
    (summaryOp handle withRecords).Keeps := by
  intro contents files hne h
  cases withRecords with
  | false => exact h
  | true => exact (OpenFiles.total_sure h hne).1

theorem TableKept.summary (h : TableKept known table) (hkept : known.shelf.Kept zeek files)
    (hviews : Views zeek view) (handle : Handle String) (withRecords : Bool) :
    let behind := (SeekZstdSep.summary (openSource view opens files) table handle withRecords).2
    TableKept (known.renew (Renewed handle table behind)) behind :=
  h.withFiles hkept hviews opens handle (summaryOp_keeps handle withRecords)

/-- Two uses of a handle opened its files anew where they are open behind the second. -/
theorem TableKept.renew_twice {handle : Handle String} {table'' : State String RecordReader}
    (h : TableKept ((known.renew (Renewed handle table table')).renew
      (Renewed handle table' table'')) table'') :
    TableKept (known.renew (Renewed handle table table'')) table'' := by
  refine h.weaken rfl (fun id hold => ⟨hold.1.1, fun hrenewed => ?_⟩) rfl
  obtain ⟨hid, hnone, hsome⟩ := hrenewed
  by_cases hbetween : table'.entryOf handle = none
  · exact hold.2 ⟨hid, hbetween, hsome⟩
  · exact hold.1.2 ⟨hid, hnone, hbetween⟩

theorem TableKept.followPathInt (h : TableKept known table) (hkept : known.shelf.Kept zeek files)
    (hviews : Views zeek view) (handle : Handle String) (index : Nat) (optional : Bool) :
    let behind := (SeekZstdSep.followPathInt engine (openSource view opens files) table handle
      index optional).2
    TableKept (known.renew (Renewed handle table behind)) behind := by
  intro behind
  have hlooked := h.withFiles hkept hviews opens handle (recordOp_keeps index)
  cases hrecord : table.withFiles (openSource view opens files) handle
      (OpenFiles.record · index) with
  | mk result table' =>
      have htable : TableKept (known.renew (Renewed handle table table')) table' := by
        simp only [recordOp, hrecord] at hlooked
        exact hlooked
      have hcounted := (htable.withFiles hkept hviews opens handle totalOp_keeps).renew_twice
      have hends : behind = table' ∨
          behind = (table'.withFiles (openSource view opens files) handle OpenFiles.total).2 := by
        simp only [behind, SeekZstdSep.followPathInt, hrecord]
        cases result with
        | error e => exact Or.inl rfl
        | ok found =>
            cases found with
            | some bytes => exact Or.inl rfl
            | none =>
                cases optional with
                | true => exact Or.inl rfl
                | false =>
                    right
                    simp only [Bool.false_eq_true, if_false]
                    cases table'.withFiles (openSource view opens files) handle
                        OpenFiles.total with
                    | mk result table'' => cases result <;> rfl
      rcases hends with hends | hends
      · rw [hends]
        exact htable
      · rw [hends]
        exact hcounted

/-- The files of a new handle are registered under the next id. -/
def Registered (table table' : State String RecordReader) (id : Nat) : Prop :=
  id = table.nextId ∧ table'.nextId ≠ table.nextId

theorem TableKept.openCommand (h : TableKept known table) (hkept : known.shelf.Kept zeek files)
    (hviews : Views zeek view) (opens : Nat → Bool) (paths : List String) (spec : FinderSpec)
    (format : Option String) :
    let behind := (table.openCommand (openSource view opens files) paths spec format).2
    TableKept (known.renew (Registered table behind)) behind := by
  rw [State.openCommand]
  cases hall : State.openAll (openSource view opens files) spec table.tick paths with
  | mk result tick =>
      cases result with
      | error e => exact h.renew_none (fun id hid => hid.2 rfl) rfl
      | ok readers =>
          have hinsert : TableKept (known.renew (· = table.nextId))
              (State.insert { table with tick := tick } table.nextId
                { readers := readers, paths := paths, finder := spec }) := by
            apply h.insert (fun other hne => hne)
            intro _ hnames
            rcases openAll_shelved hkept hviews opens hnames.2 table.tick with
              ⟨refused, e, tick', -, herror⟩ | ⟨readers', tick', hok, hreaders⟩
            · rw [hall] at herror
              cases herror
            · rw [hall] at hok
              cases hok
              exact sound_of_opened hreaders
          exact hinsert.weaken rfl (fun id hold => ⟨hold.1, fun hid => hold.2 hid.1⟩) rfl

theorem TableKept.openRun (h : TableKept known table) (hkept : known.shelf.Kept zeek files)
    (hviews : Views zeek view) (currentDir : Except ShellError String) (named : List String)
    (flags : OpenFlags) (fuel : Nat) :
    let behind := (SeekZstdSep.openRun engine (openSource view opens files) currentDir table
      named flags fuel).2
    TableKept (known.renew (Registered table behind)) behind := by
  have hsame : TableKept (known.renew (Registered table table)) table :=
    h.renew_none (fun id hid => hid.2 rfl) rfl
  rw [SeekZstdSep.openRun]
  by_cases hnamed : named = []
  · rw [if_pos hnamed]
    exact hsame
  rw [if_neg hnamed]
  cases resolveAll currentDir named with
  | error e => exact hsame
  | ok paths =>
      cases finder flags.finder with
      | error e => exact hsame
      | ok spec =>
          simp only
          cases flags.noPartial with
          | true =>
              simp only [if_true]
              cases State.openAll (openSource view opens files) spec table.tick paths with
              | mk result tick =>
                  cases result with
                  | error e => exact h.renew_none (fun id hid => hid.2 rfl) rfl
                  | ok readers => exact h.renew_none (fun id hid => hid.2 rfl) rfl
          | false =>
              simp only [Bool.false_eq_true, if_false]
              have hopened := h.openCommand hkept hviews opens paths spec
                (flags.formatOf (paths.headD "")).name
              cases hopen : table.openCommand (openSource view opens files) paths spec
                  (flags.formatOf (paths.headD "")).name with
              | mk result table' =>
                  rw [hopen] at hopened
                  cases result with
                  | error e => exact hopened
                  | ok handle => exact hopened

theorem TableKept.dropped (h : TableKept known table) (handle : Handle String) :
    TableKept (known.renew (· = handle.id)) (table.dropped handle) := by
  intro id files hentry hcurrent
  rw [State.dropped] at hentry
  simp only at hentry
  split_ifs at hentry with hid
  exact h id files hentry fun hold => hcurrent ⟨hold, hid⟩

/-- What is known of files that the table does not hold open has no say in it. -/
theorem TableKept.written {session : Session} (h : TableKept known session.table) (next : Session)
    (shelf : Shelf) : TableKept (known.written session next shelf) session.table := by
  intro id files hentry hcurrent hnames
  have heq : ∀ path ∈ files.paths, shelf path = known.shelf path := by
    intro path hpath
    by_contra hne
    exact hcurrent (Or.inr ⟨files, path, hentry, hpath, Or.inr hne⟩)
  have hrecords : shelf.recordsOn files.finder files.paths =
      known.shelf.recordsOn files.finder files.paths := by
    apply List.map_congr_left
    intro path hpath
    rw [Shelf.itemsAt, Shelf.itemsAt, heq path hpath]
  show OpenFiles.Sound (shelf.recordsOn files.finder files.paths) files
  rw [hrecords]
  refine h id files hentry (fun hold => hcurrent (Or.inl hold)) ⟨hnames.1, fun path hpath => ?_⟩
  rw [← heq path hpath]
  exact hnames.2 path hpath

end Table

/-! ### Runs -/

section Runs

variable (engine zeek) (overflowChecks : Bool) (view : Bytes → Except Error SeekableFile)
  (fuel : Nat)

/-- What is known behind a call that led to `next`, where a save is said to be of the items. -/
noncomputable def Known.behind (session : Session) (known : Known) :
    SessionCall V → List Bytes → Session → Known
  | .save call, items, next =>
      match Save.run engine zeek overflowChecks call session.files fuel with
      | none => known
      | some ran =>
          known.written session next
            (known.shelf.after engine zeek call session.files items
              (call.ended engine zeek session.files ran.1))
  | .openFiles _ _ _ _, _, next => known.renew (Registered session.table next.table)
  | .follow _ handle _ _, _, next => known.renew (Renewed handle session.table next.table)
  | .summary _ handle _, _, next => known.renew (Renewed handle session.table next.table)
  | .drop handle, _, _ => known.renew (· = handle.id)
  | .restart _, _, _ => known.renew fun _ => True

/-- The plugin, where a call comes with the items it is said to save. -/
noncomputable def plugin : Machine Session Known (SessionCall V × List Bytes) where
  step session call := session.step engine zeek overflowChecks view fuel call.1
  behind session known call next :=
    known.behind engine zeek overflowChecks fuel session call.1 call.2 next

end Runs

/-- The files hold what was saved, and the table holds those of them it has open. -/
structure Session.Kept (zeek : Zeekstd) (known : Known) (session : Session) : Prop where
  files : known.shelf.Kept zeek session.files
  table : TableKept known session.table

namespace Session.Kept

variable {session next : Session} {known : Known} {overflowChecks : Bool} {fuel : Nat}

/-- Nothing is known at the start. -/
theorem start {files : Files} (hwell : files.WellFormed) (nextId : Nat) :
    Session.Kept zeek .nothing { files := files, table := { nextId := nextId } } :=
  ⟨.nothing hwell, nofun⟩

theorem step (h : session.Kept zeek known) (hviews : Views zeek view) {call : SessionCall V}
    (items : List Bytes)
    (hstep : session.step engine zeek overflowChecks view fuel call = some next) :
    next.Kept zeek (known.behind engine zeek overflowChecks fuel session call items next) := by
  cases call with
  | save call =>
      obtain ⟨⟨result, files'⟩, hrun, rfl⟩ := Option.map_eq_some_iff.mp hstep
      simp only [Known.behind, hrun]
      exact ⟨h.files.save items hrun, h.table.written _ _⟩
  | openFiles opens currentDir named flags =>
      cases hstep
      exact ⟨h.files, h.table.openRun h.files hviews currentDir named flags fuel⟩
  | follow opens handle index optional =>
      cases hstep
      exact ⟨h.files, h.table.followPathInt h.files hviews handle index optional⟩
  | summary opens handle withRecords =>
      cases hstep
      exact ⟨h.files, h.table.summary h.files hviews handle withRecords⟩
  | drop handle =>
      cases hstep
      exact ⟨h.files, h.table.dropped handle⟩
  | restart nextId =>
      cases hstep
      exact ⟨h.files, nofun⟩

end Session.Kept

/-! ### Answers -/

namespace Decode

variable (engine)

/-- An item as a value: what a cell path into its record returns. -/
def item (format : Format) (item : Bytes) : Except ShellError (NuValue V) :=
  match format, fromUtf8 item with
  | .json, some text => engine.jsonParse text
  | _, _ => .ok (rawValue item)

/-- The item where it is one of a stream. -/
def shown (format : Format) (bytes : Bytes) : NuValue V :=
  match item engine format bytes with
  | .ok value => value
  | .error e => .error e

theorem record_item (spec : FinderSpec) (format : Format) (bytes : Bytes) :
    record engine spec format (bytes ++ spec.separator) = item engine format bytes := by
  have hrecord : record engine spec format (bytes ++ spec.separator) =
      item engine format (stripSeparator (bytes ++ spec.separator) spec.separator) := rfl
  rw [hrecord, Boundary.Fits.stripped]

theorem streamed_item (spec : FinderSpec) (format : Format) (bytes : Bytes) :
    streamed engine spec format (.ok (bytes ++ spec.separator)) = shown engine format bytes := by
  cases hitem : item engine format bytes with
  | ok value => simp only [streamed, shown, record_item, hitem]
  | error e => simp only [streamed, shown, record_item, hitem]

end Decode

namespace Shelf

variable (engine)

/-- What a cell path is to return: the item at its index of all that was saved in the files, or that
there is none. -/
def follows (shelf : Shelf) (handle : Handle String) (index : Nat) (optional : Bool) :
    Except CallError (NuValue V) :=
  let items := handle.paths.flatMap shelf.itemsAt
  match items[index]? with
  | some item => (Decode.item engine handle.formatOf item).mapError .shell
  | none => if optional then .ok .nothing else .error (.accessBeyondEnd (items.length - 1))

/-- What a stream of the files is to be: every item in order, or what a `from` command makes of
them, each with what ends it. -/
def streams (shelf : Shelf) (spec : FinderSpec) (format : Format) (paths : List String) :
    Except ShellError (OpenOutcome V) :=
  match format with
  | .from name =>
      let pieces := paths.map fun path => encoded spec.separator (shelf.itemsAt path)
      (callFrom engine name { pieces := pieces }).map .parsed
  | _ => .ok (.values ((paths.flatMap shelf.itemsAt).map (Decode.shown engine format)))

end Shelf

/-- The files cannot be opened, as the file system refuses one of the opens. -/
def Refused {α : Type} (opens : Nat → Bool) (answer : Except CallError α) : Prop :=
  ∃ refused e, opens refused = false ∧ answer = .error (.files (.cannotOpen e))

/-- A use of a handle whose entry is in the table runs on that. -/
theorem State.withFiles_of_entry {opener : Opener String RecordReader}
    {table : State String RecordReader} {handle : Handle String}
    {entry : OpenFiles String RecordReader} {α : Type}
    (hentry : table.readers handle.id = some entry) (hpaths : entry.paths = handle.paths)
    (hfinder : entry.finder = handle.finder)
    (f : OpenFiles String RecordReader → Except PluginError α × OpenFiles String RecordReader) :
    table.withFiles opener handle f = ((f entry).1, table.insert handle.id (f entry).2) := by
  have hrefers : handle.refersTo entry.paths entry.finder = true :=
    decide_eq_true ⟨hpaths.symm, hfinder.symm⟩
  have hof : table.entryOf handle = some entry := by
    rw [State.entryOf, hentry, Option.filter_some, if_pos hrefers]
  rw [State.withFiles, hof]

/-- What is answered of a session: what was saved, unless the file system refuses to open a file. A
handle is answered so unless its entry is outdated. -/
structure Session.Answers (engine : Engine V) (view : Bytes → Except Error SeekableFile)
    (known : Known) (session : Session) (opens : Nat → Bool) : Prop where
  follows : ∀ (handle : Handle String) (index : Nat) (optional : Bool),
    known.Current session.table handle → known.shelf.Names handle.finder handle.paths →
      let answer := (followPathInt engine (openSource view opens session.files) session.table
        handle index optional).1
      answer = known.shelf.follows engine handle index optional ∨ Refused opens answer
  counts : ∀ handle : Handle String, known.Current session.table handle →
    known.shelf.Names handle.finder handle.paths →
    let answer := (summary (openSource view opens session.files) session.table handle true).1
    (∃ said, answer = .ok said ∧ said.path = handle.paths ∧
        said.records = some (handle.paths.flatMap known.shelf.itemsAt).length) ∨
      Refused opens (answer.mapError .files)
  streams : ∀ (currentDir : Except ShellError String) (named paths : List String)
    (flags : OpenFlags) (spec : FinderSpec) (fuel : Nat),
    resolveAll currentDir named = .ok paths → finder flags.finder = .ok spec →
    flags.noPartial = true → known.shelf.Names spec paths →
    (paths.flatMap known.shelf.itemsAt).length + paths.length ≤ fuel →
      let answer := (openRun engine (openSource view opens session.files) currentDir session.table
        named flags fuel).1
      answer = (known.shelf.streams engine spec (flags.formatOf (paths.headD "")) paths).mapError
        .shell ∨ Refused opens answer

/-- A cell path that is looked up in files that hold the records of what was saved. -/
theorem followPathInt_of_sound {opener : Opener String RecordReader}
    {table table' : State String RecordReader} {shelf : Shelf} {handle : Handle String}
    (hnames : shelf.Names handle.finder handle.paths) {entry : OpenFiles String RecordReader}
    (hpaths : entry.paths = handle.paths) (hfinder : entry.finder = handle.finder)
    (hsound : OpenFiles.Sound (shelf.recordsOn handle.finder handle.paths) entry) {index : Nat}
    (hruns : table.withFiles opener handle (OpenFiles.record · index) =
      ((entry.record index).1, table'.insert handle.id (entry.record index).2))
    (optional : Bool) :
    (followPathInt engine opener table handle index optional).1 =
      shelf.follows engine handle index optional := by
  have hne := hnames.recordsOn_ne_nil
  obtain ⟨hafter, hrecord⟩ := OpenFiles.record_sure hsound hne index
  rw [Shelf.flatten_recordsOn, List.getElem?_map] at hrecord
  rw [hrecord] at hruns
  simp only [followPathInt, hruns, Shelf.follows]
  cases hitem : (handle.paths.flatMap shelf.itemsAt)[index]? with
  | some item => simp only [Option.map_some, Decode.record_item]
  | none =>
      simp only [Option.map_none]
      cases optional with
      | true => rfl
      | false =>
          -- the entry is in the table now, and is counted without being opened again
          have hasked := OpenFiles.record_asked entry index
          have htotal := (OpenFiles.total_sure hafter hne).2
          rw [Shelf.flatten_recordsOn, List.length_map] at htotal
          simp only [Bool.false_eq_true, if_false]
          rw [State.withFiles_of_entry (State.insert_self _ _ _) (hasked.paths.trans hpaths)
            (hasked.finder.trans hfinder), htotal]

namespace Session.Kept

variable {session : Session} {known : Known} {opens : Nat → Bool} {handle : Handle String}

theorem follows (h : session.Kept zeek known) (hviews : Views zeek view)
    (hcurrent : known.Current session.table handle)
    (hnames : known.shelf.Names handle.finder handle.paths) (index : Nat) (optional : Bool) :
    let answer := (followPathInt engine (openSource view opens session.files) session.table
      handle index optional).1
    answer = known.shelf.follows engine handle index optional ∨ Refused opens answer := by
  intro answer
  rcases h.table.withFiles_shelved h.files hviews opens hcurrent hnames
      (OpenFiles.record · index) with
    ⟨refused, e, tick, hrefused, hfails⟩ | ⟨entry, tick, hpaths, hfinder, hsound, hruns⟩
  · right
    refine ⟨refused, e, hrefused, ?_⟩
    simp only [answer, followPathInt, hfails]
  · exact Or.inl (followPathInt_of_sound hnames hpaths hfinder hsound hruns optional)

theorem counts (h : session.Kept zeek known) (hviews : Views zeek view)
    (hcurrent : known.Current session.table handle)
    (hnames : known.shelf.Names handle.finder handle.paths) :
    let answer := (summary (openSource view opens session.files) session.table handle true).1
    (∃ said, answer = .ok said ∧ said.path = handle.paths ∧
        said.records = some (handle.paths.flatMap known.shelf.itemsAt).length) ∨
      Refused opens (answer.mapError .files) := by
  intro answer
  rcases h.table.withFiles_shelved h.files hviews opens hcurrent hnames
      (summaryOf handle true) with
    ⟨refused, e, tick, hrefused, hfails⟩ | ⟨entry, tick, hpaths, hfinder, hsound, hruns⟩
  · right
    refine ⟨refused, e, hrefused, ?_⟩
    simp only [answer, summary, hfails]
    rfl
  · left
    have htotal := (OpenFiles.total_sure hsound hnames.recordsOn_ne_nil).2
    rw [Shelf.flatten_recordsOn, List.length_map] at htotal
    simp only [answer, summary, hruns, summaryOf, if_true, htotal, Except.map]
    exact ⟨_, rfl, rfl, rfl⟩

end Session.Kept

/-- What is made of readers that were opened on what was saved. -/
theorem streamOf_shelved {shelf : Shelf} {spec : FinderSpec} {paths : List String}
    {readers : List RecordReader}
    (h : List.Forall₂ (fun path r => RecordReader.OpenedOnItems (shelf.itemsAt path)
      spec.separator r) paths readers) (format : Format) {fuel : Nat}
    (hfuel : (paths.flatMap shelf.itemsAt).length + paths.length ≤ fuel) :
    streamOf engine spec format readers fuel = shelf.streams engine spec format paths := by
  have hbytes : readers.map RecordReader.intoBytes =
      paths.map fun path => encoded spec.separator (shelf.itemsAt path) := by
    clear hfuel
    induction h with
    | nil => rfl
    | cons hone _ ih => rw [List.map_cons, List.map_cons, hone.bytes, ih]
  have hyields : List.Forall₂ RecordIter.Yields (readers.map RecordReader.intoRecords)
      (shelf.recordsOn spec paths) := by
    rw [Shelf.recordsOn, List.forall₂_map_left_iff, List.forall₂_map_right_iff]
    exact (h.imp fun _ _ hone => hone.yields).flip
  have hstream : (streamRecords fuel (readers.map RecordReader.intoRecords)).map
      (Decode.streamed engine spec format) =
        (paths.flatMap shelf.itemsAt).map (Decode.shown engine format) := by
    have hlength : (shelf.recordsOn spec paths).flatten.length +
        (shelf.recordsOn spec paths).length ≤ fuel := by
      rw [Shelf.flatten_recordsOn, List.length_map, Shelf.recordsOn, List.length_map]
      exact hfuel
    rw [streamRecords_eq hyields hlength, Shelf.flatten_recordsOn, List.map_map, List.map_map]
    exact List.map_congr_left fun item _ => Decode.streamed_item engine spec format item
  cases format with
  | raw => simp only [streamOf, Shelf.streams, hstream]
  | json => simp only [streamOf, Shelf.streams, hstream]
  | «from» name => simp only [streamOf, Shelf.streams, hbytes]

theorem Shelf.Kept.streams {shelf : Shelf} {files : Files} {opens : Nat → Bool}
    (h : shelf.Kept zeek files) (hviews : Views zeek view) {table : State String RecordReader}
    {currentDir : Except ShellError String} {named paths : List String} {flags : OpenFlags}
    {spec : FinderSpec} {fuel : Nat} (hresolved : resolveAll currentDir named = .ok paths)
    (hfinder : finder flags.finder = .ok spec) (hall : flags.noPartial = true)
    (hnames : shelf.Names spec paths)
    (hfuel : (paths.flatMap shelf.itemsAt).length + paths.length ≤ fuel) :
    let answer := (openRun engine (openSource view opens files) currentDir table named flags
      fuel).1
    answer = (shelf.streams engine spec (flags.formatOf (paths.headD "")) paths).mapError
      .shell ∨ Refused opens answer := by
  intro answer
  have hnamed : named ≠ [] := by
    rintro rfl
    cases hresolved
    exact hnames.1 rfl
  simp only [answer, openRun, if_neg hnamed, hresolved, hfinder, hall, if_true]
  rcases openAll_shelved h hviews opens hnames.2 table.tick with
    ⟨refused, e, tick, hrefused, herror⟩ | ⟨readers, tick, hok, hreaders⟩
  · right
    refine ⟨refused, e, hrefused, ?_⟩
    rw [herror]
  · left
    simp only [hok, streamOf_shelved hreaders _ hfuel]

theorem Session.Kept.answers {session : Session} {known : Known} (h : session.Kept zeek known)
    (hviews : Views zeek view) (opens : Nat → Bool) :
    session.Answers engine view known opens where
  follows _ index optional hcurrent hnames := h.follows hviews hcurrent hnames index optional
  counts _ hcurrent hnames := h.counts hviews hcurrent hnames
  streams _ _ _ _ _ _ hresolved hfinder hall hnames hfuel :=
    h.files.streams hviews hresolved hfinder hall hnames hfuel

/-- After any run of calls, whichever fail, are refused an open or lose the table: a cell path into
a handle over files that are known to hold what was saved returns the item at its index, a summary
counts the items, and a stream hands out all of them in order. What a save leaves that does not
keep to what it has to is not known, nor what a handle says whose files were written to since. -/
theorem session_answers_from_shelf (hviews : Views zeek view) {overflowChecks : Bool} {fuel : Nat}
    {files : Files} (hwell : files.WellFormed) (nextId : Nat)
    {calls : List (SessionCall V × List Bytes)} {session : Session} {known : Known}
    (hrun : (plugin engine zeek overflowChecks view fuel).run
      ({ files := files, table := { nextId := nextId } }, .nothing) calls = some (session, known))
    (opens : Nat → Bool) : session.Answers engine view known opens := by
  have hkept : session.Kept zeek known :=
    Machine.run_keeps (fun session known => session.Kept zeek known)
      (fun h hstep => h.step hviews _ hstep) (Session.Kept.start hwell nextId) hrun
  exact hkept.answers hviews opens

/-! ### Lines that are saved and added to -/

/-- The frame at an index of a table, as a decoder hands it out. -/
def frameAt (zeek : Zeekstd) (bytes : Bytes) (table : SeekTable) (i : Nat) : Except Error Frame :=
  match zeek.decodeFrame bytes table i with
  | .error e => .error e
  | .ok content =>
      let comp := table.frameSizeComp i
      if h : 0 < comp ∧ comp ≤ u32Max ∧ content.length ≤ u32Max then
        .ok { comp, content, comp_pos := h.1, comp_le := h.2.1, content_le := h.2.2 }
      else .error (.external "the file is corrupted")

/-- So many frames from an index on. -/
def framesAt (zeek : Zeekstd) (bytes : Bytes) (table : SeekTable) :
    Nat → Nat → Except Error (List Frame)
  | 0, _ => .ok []
  | left + 1, i =>
      match frameAt zeek bytes table i with
      | .error e => .error e
      | .ok frame => (framesAt zeek bytes table left (i + 1)).map (frame :: ·)

/-- A reader that looks through all of a file when it is opened. -/
def viewOf (zeek : Zeekstd) (reads : Nat → Nat) (bytes : Bytes) : Except Error SeekableFile :=
  match zeek.fromSeekable bytes with
  | .error e => .error e
  | .ok table =>
      match framesAt zeek bytes table table.length 0 with
      | .error e => .error e
      | .ok frames =>
          if h : frames.length ≤ u32Max then .ok { frames, reads, count_le := h }
          else .error (.external "the file is corrupted")

theorem viewOf_views (zeek : Zeekstd) (reads : Nat → Nat) : Views zeek (viewOf zeek reads) := by
  intro archive
  have hone : ∀ i (hi : i < archive.frames.length),
      frameAt zeek archive.file.bytes (tableOf archive.frames) i =
        .ok archive.frames[i].frame := by
    intro i hi
    have hcomp : (tableOf archive.frames).frameSizeComp i = archive.frames[i].frame.comp := by
      rw [SeekTable.frameSizeComp, tableOf, List.getD_eq_getElem?_getD, List.getElem?_map,
        List.getElem?_eq_getElem hi]
      rfl
    have hdecode : zeek.decodeFrame archive.file.bytes (tableOf archive.frames) i =
        .ok archive.frames[i].content :=
      zeek.decodeFrame_bytesOf archive.frames hi archive.count_le
    rw [frameAt]
    simp only [hdecode, hcomp]
    exact dif_pos ⟨archive.frames[i].frame.comp_pos, archive.frames[i].frame.comp_le,
      archive.frames[i].frame.content_le⟩
  have hall : ∀ left i, i + left = archive.frames.length →
      framesAt zeek archive.file.bytes (tableOf archive.frames) left i =
        .ok ((archive.frames.drop i).map Stored.frame) := by
    intro left
    induction left with
    | zero =>
        intro i hi
        rw [framesAt, List.drop_eq_nil_of_le (by omega), List.map_nil]
    | succ left ih =>
        intro i hi
        have hlt : i < archive.frames.length := by omega
        rw [framesAt]
        simp only [hone i hlt, ih (i + 1) (by omega), Except.map]
        rw [List.drop_eq_getElem_cons hlt, List.map_cons]
  have hlength : (tableOf archive.frames).length = archive.frames.length := by
    rw [tableOf, List.length_map]
  have hframes := hall (tableOf archive.frames).length 0 (by omega)
  have hof := archive.seekable_of
  refine ⟨{ archive.seekable with reads := reads }, ?_, hof.table, hof.frame⟩
  rw [viewOf, archive.fromSeekable]
  simp only [hframes]
  exact dif_pos archive.seekable.count_le

/-- A save that succeeds and keeps to what it has to does to what was saved what it is for. -/
theorem plugin_run_save {overflowChecks : Bool} {fuel : Nat} {session : Session} {known : Known}
    {call : SaveCall V} {calls : List (SessionCall V × List Bytes)} {files : Files} {path : String}
    {spec : FinderSpec}
    (hrun : Save.run engine zeek overflowChecks call session.files fuel = some (.ok (), files))
    (hchecks : Save.checks call session.files = .ok (path, spec))
    (hsound : call.Sound engine zeek session.files known.shelf items) :
    (plugin engine zeek overflowChecks view fuel).run (session, known)
        ((.save call, items) :: calls) =
      (plugin engine zeek overflowChecks view fuel).run
        ({ session with files := files },
          known.written session { session with files := files }
            (Function.update known.shelf path (call.entry known.shelf items path spec))) calls := by
  have hstep : (plugin engine zeek overflowChecks view fuel).step session (.save call, items) =
      some { session with files := files } := by
    simp only [plugin, Session.step, hrun, Option.map_some]
  rw [Machine.run_cons hstep]
  simp only [plugin, Known.behind, hrun, SaveCall.ended, Shelf.after, hchecks, if_pos hsound]

/-- An engine that has no command in scope and no JSON. -/
def bareEngine : Engine Unit where
  typeName _ := "record"
  jsonText _ := .error { error := "no JSON", msg := .text "" }
  jsonParse _ := .error { error := "no JSON", msg := .text "" }
  findDecl _ := .ok false
  callDecl _ input := .ok input
  writeTo _ := { pieces := [] }
  writeFailed e := { error := "cannot write", msg := .library e }

/-- Nothing fails, and whatever is read is read at once. -/
def goodSteps : SaveSteps :=
  { stepsOf .done with
    currentDir := .ok "/"
    spool := fun _ => some 5
    flushes := true
    rewound := true
    reads := fun _ => wholeWish
    fileSchedule := fun _ => some wholeWish }

/-- Saving a list of strings as `/a`, one to a frame. -/
def saveLines (append : Bool) (lines : List String) : SaveCall Unit where
  path := "/a"
  flags := { append := append, recordsPerFrame := if append then none else some 1 }
  input := .list (lines.map .string)
  steps := goodSteps

def lineSpec : FinderSpec := { finder := "sep", arg := some "\n" }

theorem lineSpec_names : lineSpec.Names lineBoundary where
  filled _ := Option.some_ne_none _
  boundary := ⟨.separator [10], rfl, rfl⟩

/-- Strings without a newline keep to what they have to. -/
theorem saveLines_fits {append : Bool} {lines : List String} {files : Files} {shelf : Shelf}
    (hlines : ∀ line ∈ lines, lineBoundary.Fits (utf8 line))
    (hlength : (encoded lineBoundary.bytes (lines.map utf8)).length ≤ storedLimit)
    (hshelf : ∀ saved, shelf "/a" = some saved → saved.spec = lineSpec)
    (hfills : ∀ bytes, files.read "/a" = some bytes →
      (goodSteps.access.file bytes).Fills storedZeekstd)
    (hchecks : Save.checks (saveLines append lines) files = .ok ("/a", lineSpec)) :
    (saveLines append lines).Sound bareEngine storedZeekstd files shelf (lines.map utf8) := by
  intro path spec boundary hok hnames
  rw [hchecks] at hok
  cases hok
  obtain rfl := hnames.unique lineSpec_names
  refine ⟨?_, List.forall_mem_map.mpr hlines, ?_, fun _ => ⟨hlength, Or.inr (Or.inl rfl)⟩⟩
  swap
  · intro happend
    obtain rfl : append = true := happend
    exact ⟨hshelf, fun bytes hread => ⟨hfills bytes hread, fun _ _ => nofun⟩⟩
  have hraw : Encode.isJson (Save.formatOf "/a" (saveLines append lines).flags) = false := by
    rfl
  apply Encode.ValuesHold.holds
  rw [hraw]
  exact .of_strings lines

/-- Three lines are saved. -/
def threeSaved : SaveCall Unit := saveLines false ["w", "x", "y"]

/-- A fourth is added. -/
def fourthAdded : SaveCall Unit := saveLines true ["z"]

/-- The files behind a save. -/
def savedFiles (call : SaveCall Unit) (files : Files) : Files :=
  ((Save.run bareEngine storedZeekstd true call files 5).map Prod.snd).getD files

theorem savedFiles_eq {call : SaveCall Unit} {files : Files}
    (h : (Save.run bareEngine storedZeekstd true call files 5).map (·.1.isOk) = some true) :
    Save.run bareEngine storedZeekstd true call files 5 =
      some (.ok (), savedFiles call files) := by
  obtain ⟨⟨result, files'⟩, hran, hok⟩ := Option.map_eq_some_iff.mp h
  rw [savedFiles, hran]
  cases result with
  | error e => cases hok
  | ok _ => rfl

/-- The fourth line is added while the first three are open, and the table is lost. -/
def fourLineCalls : List (SessionCall Unit × List Bytes) :=
  [(.save threeSaved, ["w", "x", "y"].map utf8),
    (.openFiles (fun _ => true) (.ok "/") ["a"] {}, []),
    (.save fourthAdded, ["z"].map utf8), (.restart 9, [])]

def fourLineStart : Session × Known :=
  ({ files := noFiles, table := { nextId := 0 } }, .nothing)

def fourLines : Saved := { spec := lineSpec, items := ["w", "x", "y", "z"].map utf8 }

/-- What a reader finds in a file of stored frames. -/
def storedView : Bytes → Except Error SeekableFile := viewOf storedZeekstd fun _ => wholeWish

theorem fourLines_run :
    ∃ session known, (plugin bareEngine storedZeekstd true storedView 5).run fourLineStart
        fourLineCalls = some (session, known) ∧
      known.shelf = Function.update (fun _ => none) "/a" (some fourLines) ∧
      session.table.readers = fun _ => none := by
  have hsaved : Save.run bareEngine storedZeekstd true threeSaved noFiles 5 =
      some (.ok (), savedFiles threeSaved noFiles) := savedFiles_eq (by decide +kernel)
  generalize hfiles : savedFiles threeSaved noFiles = files at hsaved
  have hbytes : files.read "/a" =
      some (storedArchive [[119, 10], [120, 10], [121, 10]]).file.bytes := by
    rw [← hfiles]
    decide +kernel
  have hadded : Save.run bareEngine storedZeekstd true fourthAdded files 5 =
      some (.ok (), savedFiles fourthAdded files) := by
    rw [← hfiles]
    exact savedFiles_eq (by decide +kernel)
  have hchecks : Save.checks threeSaved noFiles = .ok ("/a", lineSpec) := by rfl
  have hchecks' : Save.checks fourthAdded files = .ok ("/a", lineSpec) := by
    rw [← hfiles]
    rfl
  have hfits : ∀ line ∈ ["w", "x", "y", "z"], lineBoundary.Fits (utf8 line) := by
    unfold Boundary.Fits
    decide +kernel
  have hsmall : threeSaved.Sound bareEngine storedZeekstd noFiles (fun _ => none)
      (["w", "x", "y"].map utf8) := by
    refine saveLines_fits ?_ (by decide +kernel) ?_ ?_ hchecks
    · exact fun line hmem => hfits line (List.mem_append_left ["z"] hmem)
    · intro saved hsaved
      cases hsaved
    · intro bytes hread
      cases hread
  have hmore : fourthAdded.Sound bareEngine storedZeekstd files (Function.update (fun _ => none)
      "/a" (some { spec := lineSpec, items := ["w", "x", "y"].map utf8 })) (["z"].map utf8) := by
    refine saveLines_fits ?_ (by decide +kernel) ?_ ?_ hchecks'
    · exact fun line hmem => hfits line (List.mem_append_right ["w", "x", "y"] hmem)
    · intro saved hsaved
      rw [Function.update_self] at hsaved
      cases hsaved
      rfl
    · intro bytes hread
      rw [hbytes] at hread
      cases hread
      exact fills_of_wholeWish (fun _ => rfl) (by decide +kernel)
  rw [fourLineCalls, fourLineStart, plugin_run_save hsaved hchecks hsmall]
  rw [Machine.run_cons rfl, plugin_run_save hadded hchecks' hmore, Machine.run_cons rfl]
  exact ⟨_, _, rfl, Function.update_idem _ _ _, rfl⟩

/-- The fourth of the lines that were saved, by a handle that outlived its table. -/
theorem session_answers_from_shelf_fourLines :
    ∃ session known, (plugin bareEngine storedZeekstd true storedView 5).run fourLineStart
        fourLineCalls = some (session, known) ∧
      session.Answers bareEngine storedView known (fun _ => true) ∧
      known.Current session.table { id := 0, paths := ["/a"], finder := lineSpec } ∧
      known.shelf.follows bareEngine { id := 0, paths := ["/a"], finder := lineSpec } 3 false =
        .ok (.string "z") := by
  obtain ⟨session, known, hrun, hshelf, htable⟩ := fourLines_run
  refine ⟨session, known, hrun,
    session_answers_from_shelf (viewOf_views _ _) noFiles_wellFormed 0 hrun _, ?_, ?_⟩
  · intro entry hentry
    rw [State.entryOf, htable] at hentry
    cases hentry
  · rw [hshelf]
    decide +kernel

end SeekZstdSep
