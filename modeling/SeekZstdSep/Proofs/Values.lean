/-
Module: SeekZstdSep.Proofs.Values
Purpose: A list that was saved is the list that is opened again, as a stream or value by value
  through a handle: the format is drawn from the path and the flags alike on both sides.
Trusted boundary: the library, as `Zeekstd` has it; the engine and the files that readers find, as
  `Core.Session` has them
Main exports: OpenFlags.formatOf_eq, Handle.formatOf_name, saved_values_come_back
-/
import SeekZstdSep.Proofs.Session

namespace SeekZstdSep

open Lib

variable {V : Type} {engine : Engine V} {zeek : Zeekstd}
  {view : Bytes → Except Error SeekableFile}

/-! ### The format -/

/-- The flags name a file alike to the two commands. -/
structure OpenFlags.Like (flags : OpenFlags) (saved : SaveFlags) : Prop where
  finder : flags.finder = saved.finder
  format : flags.format = saved.format
  raw : flags.raw = saved.raw

/-- What is opened is parsed by what it was written with. -/
theorem OpenFlags.formatOf_eq {flags : OpenFlags} {saved : SaveFlags} (h : flags.Like saved)
    (path : String) :
    flags.formatOf path = ((Save.formatOf path saved).map Format.named).getD .raw := by
  rw [formatOf, Save.formatOf, h.raw, h.format]
  cases saved.raw with
  | true => rfl
  | false =>
      cases saved.format with
      | some name => rfl
      | none =>
          simp only [Bool.false_eq_true, if_false, Format.ofPath]
          cases innerExtension path <;> rfl

theorem OpenFlags.isJson_iff {flags : OpenFlags} {saved : SaveFlags} (h : flags.Like saved)
    (path : String) :
    Encode.isJson (Save.formatOf path saved) = true ↔ flags.formatOf path = .json := by
  rw [formatOf_eq h, Encode.isJson, decide_eq_true_iff]
  cases (Save.formatOf path saved).map Format.named with
  | none => simp
  | some format => simp

/-- A handle takes the format with it, by its name. -/
theorem Handle.formatOf_name {flags : OpenFlags} {saved : SaveFlags} (h : flags.Like saved)
    {path : String} {handle : Handle String}
    (hname : handle.format = (flags.formatOf path).name) :
    handle.formatOf = flags.formatOf path := by
  rw [formatOf, hname, OpenFlags.formatOf_eq h]
  cases Save.formatOf path saved with
  | none => rfl
  | some name =>
      simp only [Option.map_some, Option.getD_some]
      by_cases hjson : name ∈ ["json", "jsonl", "ndjson"]
      · rw [Format.named, if_pos hjson]
        rfl
      · rw [Format.named, if_neg hjson]
        simp only [Format.name, Format.named, if_neg hjson]

/-! ### The values -/

namespace Encode

variable {json : Bool} {format : Format} {value : NuValue V} {values : List (NuValue V)}
  {item : Bytes} {items : List Bytes}

theorem RoundTrips.decoded (h : RoundTrips engine json value item)
    (hformat : json = true ↔ format = .json) : Decode.item engine format item = .ok value := by
  cases json with
  | true =>
      obtain rfl := hformat.mp rfl
      obtain ⟨text, -, rfl, hparse⟩ := h
      unfold Decode.item
      simp only [Decode.fromUtf8_utf8]
      exact hparse
  | false =>
      obtain ⟨-, hraw⟩ := h
      cases format with
      | json => exact absurd (hformat.mpr rfl) Bool.false_ne_true
      | raw => exact congrArg Except.ok hraw
      | «from» name => exact congrArg Except.ok hraw

theorem ValuesHold.decoded (h : ValuesHold engine json values items)
    (hformat : json = true ↔ format = .json) :
    items.map (Decode.item engine format) = values.map .ok := by
  have hvalues := h.1
  clear h
  induction hvalues with
  | nil => rfl
  | cons hone _ ih => rw [List.map_cons, List.map_cons, hone.decoded hformat, ih]

theorem ValuesHold.shown (h : ValuesHold engine json values items)
    (hformat : json = true ↔ format = .json) :
    items.map (Decode.shown engine format) = values := by
  have hvalues := h.1
  clear h
  induction hvalues with
  | nil => rfl
  | cons hone _ ih => rw [List.map_cons, Decode.shown, hone.decoded hformat, ih]

end Encode

/-! ### The list -/

theorem Save.checks_path {call : SaveCall V} {files : Files} {path : String} {spec : FinderSpec}
    (h : Save.checks call files = .ok (path, spec)) :
    resolve call.steps.currentDir call.path = .ok path := by
  rw [checks] at h
  cases hresolve : resolve call.steps.currentDir call.path with
  | error e =>
      rw [hresolve] at h
      cases h
  | ok path' =>
      simp only [hresolve] at h
      cases hfinder : finder call.flags.finder with
      | error e =>
          rw [hfinder] at h
          cases h
      | ok spec' =>
          simp only [hfinder] at h
          split_ifs at h
          cases hdest : checkDestination path' call.flags files with
          | error e =>
              rw [hdest] at h
              cases h
          | ok u =>
              rw [hdest] at h
              cases h
              rfl

section

variable {call : SaveCall V} {files files' : Files} {overflowChecks : Bool} {fuel : Nat}
  {values : List (NuValue V)} {items : List Bytes} {path : String} {spec : FinderSpec}

/-- A list that is saved as a new file is on the shelf. -/
theorem Save.run_values (hwell : files.WellFormed)
    (hinput : call.input = .list values ∨ call.input = .listStream values)
    (happend : call.flags.append = false) (hchecks : Save.checks call files = .ok (path, spec))
    (hvalues : Encode.ValuesHold engine (Encode.isJson (Save.formatOf path call.flags)) values
      items)
    (hfits : ∀ boundary : Boundary, spec.Names boundary →
      (∀ item ∈ items, boundary.Fits item) ∧
        (encoded boundary.bytes items).length ≤ zeek.frameLimit)
    (harrives : call.flags.recordsPerFrame.isSome = true ∨ call.steps.Arrives)
    (hne : items ≠ [])
    (hrun : Save.run engine zeek overflowChecks call files fuel = some (.ok (), files')) :
    ∃ shelf : Shelf, shelf.Kept zeek files' ∧
      shelf path = some { spec := spec, items := items } := by
  have hsound : call.Sound engine zeek files (fun _ => none) items := by
    intro path' spec' boundary hok hnames
    rw [hchecks] at hok
    cases hok
    obtain ⟨hitems, hlength⟩ := hfits boundary hnames
    refine ⟨?_, hitems, fun hother => ?_, fun _ => ⟨hlength, harrives⟩⟩
    · rcases hinput with hinput | hinput
      · rw [hinput]
        exact hvalues.holds
      · rw [hinput]
        exact hvalues.holds
    · rw [happend] at hother
      cases hother
  have hkept := (Shelf.Kept.nothing hwell).save items hrun
  simp only [SaveCall.ended, Shelf.after, hchecks, if_pos hsound, SaveCall.entry, happend,
    Bool.false_eq_true, if_false, if_neg hne] at hkept
  exact ⟨_, hkept, Function.update_self _ _ _⟩

end

/-- What a cell path into a list is to return. -/
def valueAt (values : List (NuValue V)) (index : Nat) (optional : Bool) :
    Except CallError (NuValue V) :=
  match values[index]? with
  | some value => .ok value
  | none => if optional then .ok .nothing else .error (.accessBeyondEnd (values.length - 1))

section

variable {shelf : Shelf} {files : Files} {path : String} {spec : FinderSpec} {items : List Bytes}
  {values : List (NuValue V)} {opens : Nat → Bool} {table : State String RecordReader}
  {currentDir : Except ShellError String} {named : String} {flags : OpenFlags} {fuel : Nat}

theorem Shelf.follows_values {handle : Handle String} (hpaths : handle.paths = [path])
    (hshelf : shelf path = some { spec := spec, items := items })
    (hitems : items.map (Decode.item engine handle.formatOf) = values.map .ok) (index : Nat)
    (optional : Bool) :
    shelf.follows engine handle index optional = valueAt values index optional := by
  have hat : handle.paths.flatMap shelf.itemsAt = items := by
    rw [hpaths, List.flatMap_singleton, itemsAt, hshelf]
    rfl
  have hlength : items.length = values.length := by
    simpa using congrArg List.length hitems
  have hone := congrArg (·[index]?) hitems
  simp only [List.getElem?_map] at hone
  simp only [follows, valueAt, hat, hlength]
  cases hitem : items[index]? with
  | none =>
      rw [hitem] at hone
      cases hvalue : values[index]? with
      | none => rfl
      | some value =>
          rw [hvalue] at hone
          cases hone
  | some item =>
      rw [hitem] at hone
      cases hvalue : values[index]? with
      | none =>
          rw [hvalue] at hone
          cases hone
      | some value =>
          rw [hvalue] at hone
          simp only [Option.map_some, Option.some.injEq] at hone
          simp only [hone]
          rfl

/-- A file that something was saved in is opened as a handle, which answers with the items. -/
theorem Shelf.Kept.handle (h : shelf.Kept zeek files) (hviews : Views zeek view)
    (hresolve : resolveAll currentDir [named] = .ok [path])
    (hfinder : finder flags.finder = .ok spec) (hpart : flags.noPartial = false)
    (hshelf : shelf path = some { spec := spec, items := items })
    (hsmall : items.length < itemLimit) :
    let opened := openRun engine (openSource view opens files) currentDir table [named] flags fuel
    Refused opens opened.1 ∨
      ∃ handle, opened.1 = .ok (.handle handle) ∧ handle.paths = [path] ∧
        handle.format = (flags.formatOf path).name ∧
        ∀ opens' index optional,
          (followPathInt engine (openSource view opens' files) opened.2 handle index optional).1 =
            shelf.follows engine handle index optional := by
  intro opened
  have hnames : shelf.Names spec [path] :=
    ⟨List.cons_ne_nil _ _, fun other hmem => by
      obtain rfl := List.mem_singleton.mp hmem
      exact ⟨items, hshelf, hsmall⟩⟩
  simp only [opened, openRun, if_neg (List.cons_ne_nil named []), hresolve, hfinder, hpart,
    Bool.false_eq_true, if_false, State.openCommand]
  rcases openAll_shelved h hviews opens hnames.2 table.tick with
    ⟨refused, e, tick, hrefused, herror⟩ | ⟨readers, tick, hok, hreaders⟩
  · left
    rw [herror]
    exact ⟨refused, e, hrefused, rfl⟩
  · right
    rw [hok]
    refine ⟨_, rfl, rfl, rfl, fun opens' index optional => ?_⟩
    apply followPathInt_of_sound hnames rfl rfl (sound_of_opened hreaders)
    exact State.withFiles_of_entry (if_pos rfl) rfl rfl _

end

/-- A list of text or JSON that is saved as a new file comes back: opened with the same flags, the
stream of the file is the list, and a cell path into its handle returns the value at its index. -/
theorem saved_values_come_back (hviews : Views zeek view) {call : SaveCall V} {files files' : Files}
    {overflowChecks : Bool} {fuel : Nat} {values : List (NuValue V)} {items : List Bytes}
    {path : String} {spec : FinderSpec} (hwell : files.WellFormed)
    (hinput : call.input = .list values ∨ call.input = .listStream values) (hne : values ≠ [])
    (hsmall : values.length < itemLimit) (happend : call.flags.append = false)
    (hchecks : Save.checks call files = .ok (path, spec))
    (hvalues : Encode.ValuesHold engine (Encode.isJson (Save.formatOf path call.flags)) values
      items)
    (hfits : ∀ boundary : Boundary, spec.Names boundary →
      (∀ item ∈ items, boundary.Fits item) ∧
        (encoded boundary.bytes items).length ≤ zeek.frameLimit)
    (harrives : call.flags.recordsPerFrame.isSome = true ∨ call.steps.Arrives)
    (hrun : Save.run engine zeek overflowChecks call files fuel = some (.ok (), files'))
    {flags : OpenFlags} (hflags : flags.Like call.flags) (opens : Nat → Bool)
    (table : State String RecordReader) {steps : Nat} (hsteps : values.length + 1 ≤ steps) :
    let opened := openRun engine (openSource view opens files') call.steps.currentDir table
      [call.path] flags steps
    Refused opens opened.1 ∨
      if flags.noPartial then
        (∀ name, flags.formatOf path ≠ .from name) → opened.1 = .ok (.values values)
      else
        ∃ handle, opened.1 = .ok (.handle handle) ∧ ∀ opens' index optional,
          (followPathInt engine (openSource view opens' files') opened.2 handle index
            optional).1 = valueAt values index optional := by
  intro opened
  have hlength : values.length = items.length := hvalues.1.length_eq
  have hitems : items ≠ [] := by
    rintro rfl
    exact hne (List.length_eq_zero_iff.mp hlength)
  obtain ⟨shelf, hkept, hat⟩ :=
    Save.run_values hwell hinput happend hchecks hvalues hfits harrives hitems hrun
  have hresolve : resolveAll call.steps.currentDir [call.path] = .ok [path] := by
    rw [resolveAll, Save.checks_path hchecks]
    rfl
  have hfinder : finder flags.finder = .ok spec := by
    rw [hflags.finder]
    exact Save.checks_finder hchecks
  have hjson := OpenFlags.isJson_iff hflags path
  cases hpart : flags.noPartial with
  | true =>
      have hnames : shelf.Names spec [path] :=
        ⟨List.cons_ne_nil _ _, fun other hmem => by
          obtain rfl := List.mem_singleton.mp hmem
          exact ⟨items, hat, hlength ▸ hsmall⟩⟩
      have hflat : [path].flatMap shelf.itemsAt = items := by
        rw [List.flatMap_singleton, Shelf.itemsAt, hat]
        rfl
      have hfuel : ([path].flatMap shelf.itemsAt).length + [path].length ≤ steps := by
        rw [hflat, ← hlength]
        exact hsteps
      rcases hkept.streams hviews hresolve hfinder hpart hnames hfuel with hanswer | hrefused
      · right
        intro hfrom
        have hstream : shelf.streams engine spec (flags.formatOf path) [path] =
            .ok (.values values) := by
          unfold Shelf.streams
          split
          · next name hname => exact absurd hname (hfrom name)
          · rw [hflat, hvalues.shown hjson]
        exact hanswer.trans (congrArg (Except.mapError CallError.shell) hstream)
      · exact Or.inl hrefused
  | false =>
      rcases hkept.handle hviews hresolve hfinder hpart hat (hlength ▸ hsmall) with
        hrefused | ⟨handle, hopen, hpaths, hformat, hfollows⟩
      · exact Or.inl hrefused
      · right
        refine ⟨handle, hopen, fun opens' index optional => ?_⟩
        rw [hfollows]
        apply Shelf.follows_values hpaths hat
        rw [Handle.formatOf_name hflags hformat]
        exact hvalues.decoded hjson

theorem saved_values_come_back_threeLines :
    let opened := openRun bareEngine (openSource storedView (fun _ => true)
      (savedFiles threeSaved noFiles)) (.ok "/") { nextId := 5 } ["/a"] {} 4
    ∃ handle, opened.1 = .ok (.handle handle) ∧ ∀ opens' index optional,
      (followPathInt bareEngine (openSource storedView opens' (savedFiles threeSaved noFiles))
        opened.2 handle index optional).1 =
          valueAt (["w", "x", "y"].map .string) index optional := by
  intro opened
  have hfits : (∀ item ∈ ["w", "x", "y"].map utf8, lineBoundary.Fits item) ∧
      (encoded lineBoundary.bytes (["w", "x", "y"].map utf8)).length ≤ storedLimit := by
    unfold Boundary.Fits
    decide +kernel
  have hrun : Save.run bareEngine storedZeekstd true threeSaved noFiles 5 =
      some (.ok (), savedFiles threeSaved noFiles) := savedFiles_eq (by decide +kernel)
  have hlike : ({} : OpenFlags).Like threeSaved.flags := ⟨rfl, rfl, rfl⟩
  have hsteps : (["w", "x", "y"].map NuValue.string : List (NuValue Unit)).length + 1 ≤ 4 := by
    decide
  have hcomes := saved_values_come_back (viewOf_views storedZeekstd fun _ => wholeWish)
    noFiles_wellFormed (Or.inl rfl) (List.cons_ne_nil _ _) (by decide) rfl rfl
    (Encode.ValuesHold.of_strings ["w", "x", "y"])
    (fun boundary hnames => hnames.unique lineSpec_names ▸ hfits) (Or.inl rfl) hrun hlike
    (fun _ => true) { nextId := 5 } hsteps
  rcases hcomes with ⟨refused, e, hrefused, -⟩ | hcomes
  · cases hrefused
  · exact hcomes

end SeekZstdSep
