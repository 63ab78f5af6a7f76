/-
Module: SeekZstdSep.Proofs.Stage
Purpose: What `zstdsep save` stages of its input: the items that this stands for, each with what
  ends it, which are cut into these items again by the boundary that the flags name.
Trusted boundary: the engine, as `Core.Save` has it
Main exports: Encode.Holds, Encode.records_written, FinderSpec.Names, Boundary.Fits,
  Boundary.Fits.records
-/
import SeekZstdSep.Core.Session
import SeekZstdSep.Proofs.Append
import SeekZstdSep.Proofs.PluginRecords

namespace SeekZstdSep

open Lib

variable {V : Type} {engine : Engine V}

/-! ### What is staged -/

namespace Encode

/-- An item and what ends it. -/
def terminated (separator item : Bytes) : Bytes :=
  item ++ if separator <:+ item then [] else separator

/-- Data that comes in pieces, and what ends its last record. -/
def ended (separator data : Bytes) : Bytes :=
  data ++ if data ≠ [] ∧ ¬ separator <:+ data then separator else []

/-- Whatever is written of a stream is the items. -/
def TextHolds (separator : Bytes) (items : List Bytes) (stream : ByteStream) : Prop :=
  stream.fails = none → ended separator stream.pieces.flatten = encoded separator items

variable (engine : Engine V) (format : Option String) (separator : Bytes) (items : List Bytes)

/-- Whatever is written of values that are not text is the items. -/
def StructuredHolds (values : List (NuValue V)) (input : PipelineData V) : Prop :=
  if isJson format then
    ∀ texts : List String, values.map engine.jsonText = texts.map .ok → items = texts.map utf8
  else
    ∀ output, serialise engine input format = .ok output →
      TextHolds separator items (output.written engine)

/-- Whatever is written of a list is the items. -/
def ListHolds : List (NuValue V) → Prop
  | [] => items = []
  | first :: values =>
      match textBytes first with
      | .ok _ =>
          ∀ texts : List Bytes, (first :: values).map textBytes = texts.map .ok → items = texts
      | .error _ =>
          StructuredHolds engine format separator items (first :: values)
            (.listStream (first :: values))

/-- Whatever is written of an input is the items. -/
def Holds : PipelineData V → Prop
  | .empty => items = []
  | .list vals => ListHolds engine format separator items vals
  | .listStream vals => ListHolds engine format separator items vals
  | .value value =>
      match textBytes value with
      | .ok bytes => items = [bytes]
      | .error value => StructuredHolds engine format separator items [value] (.value value)
  | .byteStream stream => TextHolds separator items stream

variable {engine format separator items} {first passed : Bytes} {sink sink' : ByteSink}

theorem writeRecord_took {bytes : Bytes} (h : sink.Took first passed)
    (hwrite : writeRecord sink bytes separator = .ok sink') :
    sink'.Took first (passed ++ terminated separator bytes) := by
  rw [writeRecord] at hwrite
  cases hitem : writeAll sink bytes with
  | error e =>
      rw [hitem] at hwrite
      cases hwrite
  | ok next =>
      have hnext := writeAll_rule ByteSink.took_step h hitem
      simp only [hitem, terminate, List.isSuffixOf_iff_suffix] at hwrite
      rw [terminated]
      by_cases hends : separator <:+ bytes
      · rw [if_pos hends] at hwrite ⊢
        cases hwrite
        rw [List.append_nil]
        exact hnext
      · rw [if_neg hends] at hwrite ⊢
        rw [← List.append_assoc]
        exact writeAll_rule ByteSink.took_step hnext hwrite

theorem mapError_ok {ε ε' α : Type} {f : ε → ε'} {x : Except ε α} {a : α}
    (h : x.mapError f = .ok a) : x = .ok a := by
  cases x with
  | error e => cases h
  | ok b =>
      cases h
      rfl

/-- A list of texts that is written is written as these, each with what ends it. -/
theorem textRecords_took {values : List (NuValue V)} (h : sink.Took first passed)
    (hwrite : textRecords engine separator sink values = .ok sink') :
    ∃ texts : List Bytes, values.map textBytes = texts.map .ok ∧
      sink'.Took first (passed ++ (texts.map (terminated separator)).flatten) := by
  induction values generalizing sink passed with
  | nil =>
      refine ⟨[], rfl, ?_⟩
      rw [List.map_nil, List.flatten_nil, List.append_nil]
      exact ByteSink.took_flush h (mapError_ok hwrite)
  | cons value values ih =>
      rw [textRecords] at hwrite
      cases htext : textBytes value with
      | error value =>
          rw [htext] at hwrite
          cases hwrite
      | ok bytes =>
          simp only [htext] at hwrite
          cases hone : writeRecord sink bytes separator with
          | error e =>
              rw [hone] at hwrite
              cases hwrite
          | ok next =>
              rw [hone] at hwrite
              obtain ⟨texts, htexts, htook⟩ := ih (writeRecord_took h hone) hwrite
              refine ⟨bytes :: texts, by rw [List.map_cons, htext, htexts, List.map_cons], ?_⟩
              rw [List.map_cons, List.flatten_cons, ← List.append_assoc]
              exact htook

theorem jsonRecords_took {values : List (NuValue V)} (h : sink.Took first passed)
    (hwrite : jsonRecords engine separator sink values = .ok sink') :
    ∃ texts : List String, values.map engine.jsonText = texts.map .ok ∧
      sink'.Took first (passed ++ ((texts.map utf8).map (terminated separator)).flatten) := by
  induction values generalizing sink passed with
  | nil =>
      refine ⟨[], rfl, ?_⟩
      rw [List.map_nil, List.map_nil, List.flatten_nil, List.append_nil]
      exact ByteSink.took_flush h (mapError_ok hwrite)
  | cons value values ih =>
      rw [jsonRecords] at hwrite
      cases htext : engine.jsonText value with
      | error e =>
          rw [htext] at hwrite
          cases hwrite
      | ok record =>
          simp only [htext] at hwrite
          cases hone : writeRecord sink (utf8 record) separator with
          | error e =>
              rw [hone] at hwrite
              cases hwrite
          | ok next =>
              rw [hone] at hwrite
              obtain ⟨texts, htexts, htook⟩ := ih (writeRecord_took h hone) hwrite
              refine ⟨record :: texts, by rw [List.map_cons, htext, htexts, List.map_cons], ?_⟩
              rw [List.map_cons, List.map_cons, List.flatten_cons, ← List.append_assoc]
              exact htook

/-- A stream that is written is written whole, with what ends its last record. -/
theorem text_written {input : PipelineData V} (hempty : sink.written = [])
    (hwrite : text engine separator sink input = .ok sink') :
    (input.written engine).fails = none ∧
      sink'.written = ended separator (input.written engine).pieces.flatten := by
  have hstart : Terminating.Watches [] separator []
      { sink := sink, separator := separator } :=
    ⟨hempty, rfl, (List.rtake_nil _).symm, by simp⟩
  rw [text] at hwrite
  cases hpieces : writePieces ({ sink := sink, separator := separator } : Terminating ByteSink)
      (input.written engine).pieces with
  | error e =>
      rw [hpieces] at hwrite
      cases hwrite
  | ok writer =>
      simp only [hpieces] at hwrite
      cases hfails : (input.written engine).fails with
      | some e =>
          rw [hfails] at hwrite
          cases hwrite
      | none =>
          rw [hfails] at hwrite
          have hwatches := writePieces_rule Terminating.watches_step
            (input.written engine).pieces hstart hpieces
          rw [List.nil_append] at hwatches
          exact ⟨rfl, Terminating.finish_spec hwatches (mapError_ok hwrite)⟩

/-- Items none of which ends with the separator are written with it behind each. -/
theorem flatten_terminated
    (hplain : ∀ item ∈ items, terminated separator item = item ++ separator) :
    (items.map (terminated separator)).flatten = encoded separator items := by
  rw [encoded, List.map_congr_left hplain]

theorem map_ok_inj {ε α : Type} {xs ys : List α}
    (h : xs.map (.ok : α → Except ε α) = ys.map .ok) : xs = ys :=
  List.map_injective_iff.mpr (fun _ _ heq => Except.ok.inj heq) h

variable (hplain : ∀ item ∈ items, terminated separator item = item ++ separator)
include hplain

theorem structured_written {values : List (NuValue V)} {input : PipelineData V}
    (hempty : sink.written = [])
    (hholds : StructuredHolds engine format separator items values input)
    (hwrite : structured engine format separator sink values input = .ok sink') :
    sink'.written = encoded separator items := by
  rw [structured] at hwrite
  rw [StructuredHolds] at hholds
  cases hjson : isJson format with
  | true =>
      rw [hjson] at hwrite hholds
      have hstart : sink.Took [] [] := hempty
      obtain ⟨texts, htexts, htook⟩ := jsonRecords_took hstart hwrite
      obtain rfl : items = texts.map utf8 := hholds texts htexts
      rw [flatten_terminated hplain] at htook
      exact htook
  | false =>
      rw [hjson] at hwrite hholds
      simp only [Bool.false_eq_true, if_false] at hwrite hholds
      cases hserialise : serialise engine input format with
      | error e =>
          rw [hserialise] at hwrite
          cases hwrite
      | ok output =>
          rw [hserialise] at hwrite
          obtain ⟨hfails, hwritten⟩ := text_written hempty hwrite
          rw [hwritten]
          exact hholds output hserialise hfails

theorem listRecords_written {vals : List (NuValue V)} (hempty : sink.written = [])
    (hholds : ListHolds engine format separator items vals)
    (hwrite : listRecords engine format separator sink vals = .ok sink') :
    sink'.written = encoded separator items := by
  cases vals with
  | nil =>
      obtain rfl : items = [] := hholds
      cases hwrite
      exact hempty
  | cons first values =>
      rw [listRecords] at hwrite
      rw [ListHolds] at hholds
      cases htext : textBytes first with
      | ok bytes =>
          simp only [htext] at hwrite hholds
          have hstart : sink.Took [] [] := hempty
          obtain ⟨texts, htexts, htook⟩ := textRecords_took hstart hwrite
          obtain rfl : items = texts := hholds texts htexts
          rw [flatten_terminated hplain] at htook
          exact htook
      | error value =>
          simp only [htext] at hwrite hholds
          exact structured_written hplain hempty hholds hwrite

/-- What is written of an input is its items, each with the separator behind it. -/
theorem records_written {input : PipelineData V} (hempty : sink.written = [])
    (hholds : Holds engine format separator items input)
    (hwrite : records engine format separator sink input = .ok sink') :
    sink'.written = encoded separator items := by
  cases input with
  | empty =>
      obtain rfl : items = [] := hholds
      cases hwrite
      exact hempty
  | list vals => exact listRecords_written hplain hempty hholds hwrite
  | listStream vals => exact listRecords_written hplain hempty hholds hwrite
  | byteStream stream =>
      obtain ⟨hfails, hwritten⟩ := text_written hempty hwrite
      rw [hwritten]
      exact hholds hfails
  | value value =>
      have htext : ∀ bytes, textBytes value = .ok bytes →
          textRecords engine separator sink [value] = .ok sink' →
          sink'.written = encoded separator items := by
        intro bytes hbytes hwritten
        simp only [Holds, hbytes] at hholds
        subst hholds
        have hstart : sink.Took [] [] := hempty
        obtain ⟨texts, htexts, htook⟩ := textRecords_took hstart hwritten
        rw [List.map_singleton, hbytes, ← List.map_singleton] at htexts
        obtain rfl := map_ok_inj htexts
        rw [flatten_terminated hplain] at htook
        exact htook
      cases value with
      | string val => exact htext _ rfl hwrite
      | binary val => exact htext _ rfl hwrite
      | error e => cases hwrite
      | nothing => exact structured_written hplain hempty hholds hwrite
      | other value => exact structured_written hplain hempty hholds hwrite

end Encode

/-! ### What is named -/

theorem takesNone_ok {format : String} {param : Option String} {find : Finder UInt8}
    {named : NamedBoundary} (h : takesNone format param find = .ok named) :
    named = .finder find := by
  rw [takesNone] at h
  split_ifs at h
  exact (Except.ok.inj h).symm

theorem fromSpec_cases {name : String} {param : Option String} {named : NamedBoundary}
    (h : fromSpec name param = .ok named) :
    (name = "sep" ∧ named = .separator (utf8 (param.getD "\n"))) ∨
      (name ≠ "sep" ∧ ∃ find, named = .finder find ∧ find.Whole) := by
  unfold fromSpec at h
  split at h
  · cases h
    exact Or.inl ⟨rfl, rfl⟩
  · refine Or.inr ⟨by decide, ?_⟩
    split at h
    · cases h
    · split at h
      · cases h
      · split_ifs at h
        cases h
        exact ⟨_, rfl, fixedFinder_whole _⟩
  · exact Or.inr ⟨by decide, _, takesNone_ok h, le32PrefixFinder_whole⟩
  · exact Or.inr ⟨by decide, _, takesNone_ok h, msgpackFinder_whole⟩
  · cases h

/-- The boundary that a spec stands for, with the separator filled in where there is one. -/
structure FinderSpec.Names (spec : FinderSpec) (boundary : Boundary) : Prop where
  filled : spec.finder = "sep" → spec.arg ≠ none
  boundary : ∃ named, fromSpec spec.finder spec.arg = .ok named ∧ named.checked = .ok boundary

namespace FinderSpec.Names

variable {spec : FinderSpec} {boundary boundary' : Boundary}

theorem unique (h : spec.Names boundary) (h' : spec.Names boundary') : boundary = boundary' := by
  obtain ⟨named, hnamed, hchecked⟩ := h.boundary
  obtain ⟨named', hnamed', hchecked'⟩ := h'.boundary
  rw [hnamed, Except.ok.injEq] at hnamed'
  rw [← hnamed', hchecked] at hchecked'
  exact Except.ok.inj hchecked'

theorem whole (h : spec.Names boundary) : boundary.find.Whole := by
  obtain ⟨named, hnamed, hchecked⟩ := h.boundary
  rcases fromSpec_cases hnamed with ⟨-, rfl⟩ | ⟨-, find, rfl, hwhole⟩
  · rw [NamedBoundary.checked] at hchecked
    split at hchecked
    · cases hchecked
    · next hne =>
        cases hchecked
        exact separatorFinder_whole _ hne
  · cases hchecked
    exact hwhole

/-- What the plugin writes behind a record and takes off it again is what the boundary looks
for. -/
theorem separator (h : spec.Names boundary) : spec.separator = boundary.bytes := by
  obtain ⟨named, hnamed, hchecked⟩ := h.boundary
  obtain ⟨name, arg⟩ := spec
  rcases fromSpec_cases hnamed with ⟨hsep, rfl⟩ | ⟨hsep, find, rfl, -⟩
  · obtain rfl : name = "sep" := hsep
    cases arg with
    | none => exact absurd rfl (h.filled rfl)
    | some arg =>
        rw [NamedBoundary.checked] at hchecked
        split at hchecked
        · cases hchecked
        · cases hchecked
          rfl
  · cases hchecked
    rw [FinderSpec.separator]
    split
    · next hname _ => exact absurd hname hsep
    · rfl

end FinderSpec.Names

theorem utf8_ne_nil {text : String} (h : text ≠ "") : utf8 text ≠ [] := by
  intro hnil
  apply h
  rw [← String.toByteArray_inj]
  apply ByteArray.ext
  exact Array.toList_inj.mp (hnil.trans rfl)

/-- The flags name a boundary, where they name a finder. -/
theorem finder_names {flags : FinderFlags} {spec : FinderSpec} (h : finder flags = .ok spec)
    {named : NamedBoundary} (hnamed : fromSpec spec.finder spec.arg = .ok named) :
    ∃ boundary, named.checked = .ok boundary ∧ spec.Names boundary := by
  have hspec : spec.finder = "sep" → ∃ arg, spec.arg = some arg ∧ arg ≠ "" := by
    intro hsep
    rw [finder] at h
    simp only at h
    split_ifs at h with hseparator hboth hname hempty
    · cases h
      refine ⟨_, rfl, ?_⟩
      intro hnone
      cases harg : flags.finderArg <|> flags.separator with
      | none =>
          rw [harg] at hnone
          exact absurd hnone (by decide)
      | some arg =>
          rw [harg] at hnone hempty
          exact hempty (congrArg some hnone)
    · cases h
      exact absurd hsep hname
  have hfilled : spec.finder = "sep" → spec.arg ≠ none := by
    intro hsep
    obtain ⟨arg, harg, -⟩ := hspec hsep
    rw [harg]
    exact Option.some_ne_none arg
  rcases fromSpec_cases hnamed with ⟨hsep, rfl⟩ | ⟨-, find, rfl, -⟩
  · obtain ⟨arg, harg, hne⟩ := hspec hsep
    have hbytes : utf8 (spec.arg.getD "\n") ≠ [] := by
      rw [harg]
      exact utf8_ne_nil hne
    exact ⟨_, dif_neg hbytes, hfilled, _, hnamed, dif_neg hbytes⟩
  · exact ⟨_, rfl, hfilled, _, hnamed, rfl⟩

/-! ### What is cut into items again -/

/-- The item with what ends it is one record. -/
def Boundary.Fits (boundary : Boundary) (item : Bytes) : Prop :=
  boundary.find (item ++ boundary.bytes) = some (item ++ boundary.bytes).length

namespace Boundary.Fits

variable {boundary : Boundary} {item : Bytes} {items : List Bytes}

/-- It does not end with the separator itself. -/
theorem terminated (h : boundary.Fits item) :
    Encode.terminated boundary.bytes item = item ++ boundary.bytes := by
  rw [Encode.terminated]
  cases boundary with
  | finder find => rw [Boundary.bytes, ite_self]
  | separator bytes ne =>
      rw [Boundary.bytes, if_neg]
      have hfind : bySeparator bytes (item ++ bytes ++ []) =
          some (item.length + bytes.length) := by
        rw [List.append_nil, ← List.length_append]
        exact h
      intro hends
      apply (bySeparator_item_iff ne item []).mp hfind
      exact hends.isInfix.trans (List.prefix_append item bytes.dropLast).isInfix

/-- Items that fit are the records of what they are written as, and nothing is left. -/
theorem records (h : ∀ item ∈ items, boundary.Fits item) :
    boundary.find.records (encoded boundary.bytes items) = items.map (· ++ boundary.bytes) ∧
      boundary.find.rest (encoded boundary.bytes items) = [] := by
  induction items with
  | nil => exact ⟨boundary.find.records_nil, boundary.find.rest_nil⟩
  | cons item items ih =>
      obtain ⟨hitem, hitems⟩ := List.forall_mem_cons.mp h
      obtain ⟨hrecords, hrest⟩ := ih hitems
      have hfind : boundary.find (encoded boundary.bytes (item :: items)) =
          some (item ++ boundary.bytes).length := by
        rw [encoded_cons]
        exact boundary.find.stable _ hitem
      rw [boundary.find.records_of_some hfind, boundary.find.rest_of_some hfind, encoded_cons,
        List.take_left' rfl, List.drop_left' rfl, hrecords, hrest]
      exact ⟨rfl, rfl⟩

/-- What was written behind an item is taken off it. -/
theorem stripped (separator item : Bytes) :
    stripSeparator (item ++ separator) separator = item := by
  rw [stripSeparator, if_pos (List.isSuffixOf_iff_suffix.mpr (List.suffix_append _ _)),
    List.length_append, Nat.add_sub_cancel, List.take_left' rfl]

end Boundary.Fits

/-! ### Values that come back -/

theorem Decode.fromUtf8_utf8 (text : String) : fromUtf8 (utf8 text) = some text := by
  have hbytes : (⟨(utf8 text).toArray⟩ : ByteArray) = text.toByteArray := rfl
  rw [fromUtf8, hbytes, String.fromUTF8?, dif_pos text.isValidUTF8]
  rfl

namespace Encode

variable (engine)

/-- The value is written as the item, as the text it is or as JSON, and read as itself again. -/
def RoundTrips (json : Bool) (value : NuValue V) (item : Bytes) : Prop :=
  if json then
    ∃ text, engine.jsonText value = .ok text ∧ item = utf8 text ∧
      engine.jsonParse text = .ok value
  else textBytes value = .ok item ∧ Decode.rawValue item = value

/-- Each value is written as its item. A list is written as JSON only where its first value is not
text. -/
def ValuesHold (json : Bool) (values : List (NuValue V)) (items : List Bytes) : Prop :=
  List.Forall₂ (RoundTrips engine json) values items ∧
    (json = true → ∀ first ∈ values.head?, ∃ value, textBytes first = .error value)

variable {engine}

theorem ValuesHold.holds {format : Option String} {separator : Bytes}
    {values : List (NuValue V)} {items : List Bytes}
    (h : ValuesHold engine (isJson format) values items) :
    ListHolds engine format separator items values := by
  obtain ⟨hvalues, hfirst⟩ := h
  cases hjson : isJson format with
  | false =>
      rw [hjson] at hvalues
      have htexts : values.map textBytes = items.map .ok := by
        clear hfirst
        induction hvalues with
        | nil => rfl
        | cons hone _ ih => rw [List.map_cons, List.map_cons, hone.1, ih]
      cases hvalues with
      | nil => rfl
      | cons hone hrest =>
          rw [ListHolds, hone.1]
          intro texts hmap
          exact map_ok_inj (htexts.symm.trans hmap)
  | true =>
      rw [hjson] at hvalues
      have htexts : ∀ texts : List String, values.map engine.jsonText = texts.map .ok →
          items = texts.map utf8 := by
        clear hfirst
        induction hvalues with
        | nil =>
            intro texts hmap
            rw [List.map_eq_nil_iff.mp hmap.symm, List.map_nil]
        | @cons value item values items hone _ ih =>
            obtain ⟨text, htext, rfl, -⟩ := hone
            intro texts hmap
            cases texts with
            | nil => cases hmap
            | cons first texts =>
                obtain ⟨hhead, htail⟩ := List.cons.inj hmap
                rw [htext, Except.ok.injEq] at hhead
                rw [List.map_cons, hhead, ih texts htail]
      cases hvalues with
      | nil => rfl
      | cons hone hrest =>
          obtain ⟨value, hvalue⟩ := hfirst hjson _ rfl
          rw [ListHolds, hvalue, StructuredHolds, if_pos hjson]
          exact htexts

theorem ValuesHold.of_strings (texts : List String) :
    ValuesHold engine false (texts.map .string) (texts.map utf8) := by
  refine ⟨?_, nofun⟩
  rw [List.forall₂_map_left_iff, List.forall₂_map_right_iff, List.forall₂_same]
  intro text _
  refine ⟨rfl, ?_⟩
  rw [Decode.rawValue, Decode.fromUtf8_utf8]

end Encode

end SeekZstdSep
