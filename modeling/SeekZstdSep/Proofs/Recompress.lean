/-
Module: SeekZstdSep.Proofs.Recompress
Purpose: Appending to a compressed file against compressing all of it at once: the compressor and
  the append cut at the same places, and so do an append and two that make it up.
Trusted boundary: the library, as `Zeekstd` has it
Main exports: frameContents, splitOf, appendedContents_append, append_recompresses
-/
import SeekZstdSep.Proofs.Chain
import SeekZstdSep.Proofs.Framing

namespace SeekZstdSep

open Lib

variable {zeek : Zeekstd} {boundary : Boundary} {find : Finder UInt8} {n : Nat}

/-! ### The contents of frames -/

/-- What each frame of a file decompresses to. -/
def frameContents (zeek : Zeekstd) (bytes : Bytes) : Except Error (List Bytes) :=
  match zeek.fromSeekable bytes with
  | .error e => .error e
  | .ok table => (List.range table.length).mapM (zeek.decodeFrame bytes table)

theorem mapM_eq_ok {ι α : Type} {get : ι → Except Error α} {value : ι → α} {is : List ι}
    (h : ∀ i ∈ is, get i = .ok (value i)) : is.mapM get = .ok (is.map value) := by
  induction is with
  | nil => rfl
  | cons i is ih =>
      rw [List.mapM_cons, h i List.mem_cons_self, ih fun j hj => h j (List.mem_cons_of_mem _ hj)]
      rfl

theorem Archive.frameContents_eq (archive : Archive zeek) :
    frameContents zeek archive.file.bytes = .ok archive.contents := by
  have hmap : (List.range archive.frames.length).map (archive.contents.getD · []) =
      archive.contents := by
    apply List.ext_getElem
    · rw [List.length_map, List.length_range, contents, List.length_map]
    · intro i hi hi'
      rw [List.getElem_map, List.getElem_range, List.getD_eq_getElem?_getD,
        List.getElem?_eq_getElem hi', Option.getD_some]
  have hget : ∀ i ∈ List.range archive.frames.length,
      zeek.decodeFrame archive.file.bytes (tableOf archive.frames) i =
        .ok (archive.contents.getD i []) := by
    intro i hin
    have hi : i < archive.frames.length := List.mem_range.mp hin
    have hi' : i < archive.contents.length := by rwa [contents, List.length_map]
    rw [List.getD_eq_getElem?_getD, List.getElem?_eq_getElem hi', Option.getD_some]
    simp only [contents, List.getElem_map]
    exact zeek.decodeFrame_bytesOf archive.frames hi archive.count_le
  rw [frameContents, archive.fromSeekable]
  simp only [length_tableOf]
  rw [mapM_eq_ok hget, hmap]

/-! ### What an encoder splits -/

/-- What the frames hold that are made of one group. -/
def splitOf (zeek : Zeekstd) (checksum : Bool) (level : Int) (g : Bytes) : List Bytes :=
  match zeek.encode checksum level g with
  | .error _ => []
  | .ok frames => frames.map Stored.content

section Split

variable {checksum : Bool} {level : Int} {gs : List Bytes}
  {made : List (List (Stored zeek.toFrameFormat))}

theorem contents_of_made
    (h : List.Forall₂ (fun g frames => zeek.encode checksum level g = .ok frames) gs made) :
    made.flatten.map Stored.content = gs.flatMap (splitOf zeek checksum level) := by
  induction h with
  | nil => rfl
  | cons hone _ ih =>
      rw [List.flatten_cons, List.map_append, ih, List.flatMap_cons, splitOf, hone]

/-- Groups that fit a frame are not split. -/
theorem flatMap_splitOf
    (h : List.Forall₂ (fun g frames => zeek.encode checksum level g = .ok frames) gs made)
    (hfits : ∀ g ∈ gs, g.length ≤ zeek.frameLimit) :
    gs.flatMap (splitOf zeek checksum level) = gs := by
  rw [← contents_of_made h]
  exact (oneEach_of_le h hfits).contents

theorem made_of_append {hs : List Bytes}
    (h : List.Forall₂ (fun g frames => zeek.encode checksum level g = .ok frames) (gs ++ hs) made) :
    ∃ madeOf,
      List.Forall₂ (fun g frames => zeek.encode checksum level g = .ok frames) hs madeOf := by
  have hdrop := List.forall₂_drop gs.length h
  rw [List.drop_left] at hdrop
  exact ⟨_, hdrop⟩

end Split

/-! ### What appends add up to -/

/-- Nothing is put behind what ends on a record boundary. -/
theorem glueOf_of_rest {g : Bytes}
    (hrest : boundary.tailIsRecord = true → boundary.find.rest g = []) :
    glueOf boundary.find boundary.separator? g = [] := by
  cases boundary with
  | finder find =>
      rw [glueOf]
      split <;> rfl
  | separator bytes ne => rw [glueOf, if_pos (List.isEmpty_iff.mpr (hrest rfl))]

/-- The last group ends on a record boundary where all of it does. -/
theorem rest_last (hn : 0 < n) {d : Bytes} (hrest : boundary.find.rest d = [])
    (htail : boundary.tailIsRecord = true) :
    boundary.find.rest ((boundary.find.groups n d).getLastD []) = [] := by
  cases boundary with
  | finder find => cases htail
  | separator bytes ne =>
      by_cases hne : d = []
      · rw [hne, Finder.groups_nil hn]
        exact Finder.rest_nil _
      · have huniform : Uniform (separatorFinder bytes ne) false n
            ((separatorFinder bytes ne).groups n d) :=
          Finder.uniform_groups (separatorFinder_whole bytes ne) hn hne (Or.inr hrest)
        obtain ⟨init, last, hgroups, -, hlast⟩ := huniform.exists_concat
        have hsame : (Boundary.separator bytes ne).find.groups n d = init ++ [last] := hgroups
        rw [hsame, List.getLastD_concat]
        exact hlast.2.2.resolve_left Bool.false_ne_true

theorem getLastD_groups_mem (hn : 0 < n) {d : Bytes} (hne : d ≠ []) :
    (find.groups n d).getLastD [] ∈ find.groups n d := by
  have hgroups := Finder.groups_ne_nil (f := find) hn hne
  rw [List.getLastD_eq_getLast?, List.getLast?_eq_getLast_of_ne_nil hgroups, Option.getD_some]
  exact List.getLast_mem hgroups

/-- The last frame an append leaves is the last group it writes. -/
theorem getLastD_appendedContents (hn : 0 < n) {separator : Option Bytes} {contents : List Bytes}
    {a : Bytes} (ha : a ≠ []) :
    (appendedContents find n separator contents a).getLastD [] =
      (find.groups n (contents.getLastD [] ++ glueOf find separator (contents.getLastD []) ++
        a)).getLastD [] := by
  have hgroups := Finder.groups_ne_nil (f := find) hn
    (List.append_ne_nil_of_right_ne_nil
      (contents.getLastD [] ++ glueOf find separator (contents.getLastD [])) ha)
  rw [appendedContents, if_neg ha, List.getLastD_eq_getLast?,
    List.getLast?_append_of_ne_nil _ hgroups, ← List.getLastD_eq_getLast?]

/-- Two appends leave what one of all the data leaves, where nothing is put between the two. -/
theorem appendedContents_append (hn : 0 < n) {separator : Option Bytes} {contents : List Bytes}
    {a : Bytes} (b : Bytes)
    (hglue : a ≠ [] → glueOf find separator
      ((appendedContents find n separator contents a).getLastD []) = []) :
    appendedContents find n separator (appendedContents find n separator contents a) b =
      appendedContents find n separator contents (a ++ b) := by
  by_cases ha : a = []
  · have hsame : appendedContents find n separator contents a = contents := if_pos ha
    rw [hsame, ha, List.nil_append]
  · by_cases hb : b = []
    · rw [hb, List.append_nil, appendedContents, if_pos rfl]
    · have hnone := hglue ha
      have hgroups := Finder.groups_ne_nil (f := find) hn
        (List.append_ne_nil_of_right_ne_nil
          (contents.getLastD [] ++ glueOf find separator (contents.getLastD [])) ha)
      have hlast : (appendedContents find n separator contents a).getLastD [] =
          (find.groups n (contents.getLastD [] ++ glueOf find separator (contents.getLastD []) ++
            a)).getLastD [] := getLastD_appendedContents hn ha
      rw [hlast] at hnone
      rw [appendedContents, if_neg hb]
      simp only [hlast, hnone, List.append_nil]
      rw [appendedContents, if_neg ha, appendedContents,
        if_neg (List.append_ne_nil_of_left_ne_nil ha b)]
      simp only
      rw [List.dropLast_append_of_ne_nil hgroups, List.append_assoc,
        ← Finder.groups_append hn, List.append_assoc _ a b]

/-! ### The two ways to a file -/

section Recompress

variable {opts : CompressOptions} {frameSize : Nat} {limitMultiplier : Option Nat}

/-- A file compressed with `n` records per frame is what was encoded of the groups. -/
theorem compressed_made {reader : Input} {bytes : Bytes} (hn : 0 < n) (hlt : n < 2 ^ 63)
    (hopts : opts.maxOfSeparator = some n) (hne : reader.data ≠ [])
    (hok : convertRecordsToSeekableZst zeek reader frameSize true find limitMultiplier
      (some opts) = .ok bytes) :
    ∃ made : List (List (Stored zeek.toFrameFormat)),
      List.Forall₂ (fun g frames => zeek.encode opts.checksum opts.level g = .ok frames)
        (find.groups n reader.data) made ∧
      made.flatten.length ≤ zeek.maxFrames ∧ bytes = bytesOf made.flatten := by
  have hmax : ∀ v ∈ ((some opts).getD {}).maxOfSeparator, v < 2 ^ 63 := by
    intro v hv
    rw [Option.getD_some, hopts] at hv
    cases hv
    exact hlt
  have hmade := convert_made hok
  rw [heldCount_of_lt hmax] at hmade
  have hrule : ruleOf find true ((some opts).getD {}).maxOfSeparator frameSize reader.data =
      .records n := by
    rw [Option.getD_some, hopts, ruleOf, if_pos rfl]
    simp only [Nat.max_eq_left hn]
  rw [hrule, CutRule.frames_records hn hne] at hmade
  exact hmade

/-- A compressed file whose last group fits a frame ends in that group, and holds in front of it
what the other groups are split to. -/
theorem compressed_archive {reader : Input} {f : File} (hn : 0 < n) (hlt : n < 2 ^ 63)
    (hopts : opts.maxOfSeparator = some n) (hne : reader.data ≠ [])
    (hlast : ((find.groups n reader.data).getLastD []).length ≤ zeek.frameLimit)
    (hok : convertRecordsToSeekableZst zeek reader frameSize true find limitMultiplier
      (some opts) = .ok f.bytes) :
    ∃ archive : Archive zeek, f = archive.file ∧
      archive.contents =
        (find.groups n reader.data).dropLast.flatMap (splitOf zeek opts.checksum opts.level) ++
          [(find.groups n reader.data).getLastD []] := by
  obtain ⟨made, hmade, hroom, hbytes⟩ := compressed_made hn hlt hopts hne hok
  refine ⟨⟨made.flatten, hroom, f.reads, f.schedule⟩, File.ext hbytes rfl rfl, ?_⟩
  have hgroups := Finder.groups_ne_nil (f := find) hn hne
  have hconcat : find.groups n reader.data =
      (find.groups n reader.data).dropLast ++ [(find.groups n reader.data).getLastD []] := by
    rw [List.getLastD_eq_getLast?, List.getLast?_eq_getLast_of_ne_nil hgroups, Option.getD_some,
      List.dropLast_append_getLast hgroups]
  rw [hconcat] at hmade
  obtain ⟨last, hone⟩ := made_of_append hmade
  rw [Archive.contents, contents_of_made hmade, List.flatMap_append,
    flatMap_splitOf hone fun g hg => by rwa [List.mem_singleton.mp hg]]

/-- An append of a stated count, by what the frames hold before and after it. -/
theorem AppendCall.appends {call : AppendCall} {archive : Archive zeek} (hn : 0 < n)
    (hlast : archive.lastContent ≠ []) (hfills : archive.file.Fills zeek)
    (hgives : call.Gives boundary) (hrecords : call.records = some n)
    {result : AppendResult} {f' : File}
    (hok : call.run zeek archive.file none = (.ok result, f')) :
    ∃ archive' : Archive zeek, f' = archive'.file ∧
      archive'.contents = appendedContents boundary.find n boundary.separator? archive.contents
        call.data.data ∧
      (call.data.data ≠ [] → archive.lastContent.length ≤ zeek.frameLimit →
        ∀ g ∈ boundary.find.groups n (archive.lastContent ++
          glueOf boundary.find boundary.separator? archive.lastContent ++ call.data.data),
          g.length ≤ zeek.frameLimit) := by
  have hcount : ∀ count ∈ call.records, count = n := by
    intro count hin
    rw [hrecords] at hin
    cases hin
    rfl
  obtain ⟨target, -, hcase⟩ := appendRecordsInner_ok hn hlast
    (fun hnone => by rw [hrecords] at hnone; cases hnone) (Archive.fills_of_file hfills) hcount
    (fun _ hin => by cases hin) (fun _ hin => by cases hin) (AppendCall.run_ok hgives hok)
  rcases hcase with ⟨hnone, rfl, -⟩ | ⟨-, archive', rfl, -, hcontents, -, -, -, -, -, hfits⟩
  · exact ⟨archive, rfl, by rw [appendedContents, if_pos hnone], fun hsome => absurd hnone hsome⟩
  · exact ⟨archive', rfl, hcontents, fun _ => hfits⟩

/-- Where the count is one the compressor can hold and the last group fits a frame, appending to
a compressed file leaves the frames of compressing all of it at once; and two appends leave the
frames that one append of their data leaves. -/
theorem append_recompresses {x : Input} {f : File} (hn : 0 < n) (hlt : n < 2 ^ 63)
    (hopts : opts.maxOfSeparator = some n) (hne : x.data ≠ [])
    (hrest : boundary.find.rest x.data = [])
    (hlast : ((boundary.find.groups n x.data).getLastD []).length ≤ zeek.frameLimit)
    (hcompress : convertRecordsToSeekableZst zeek x frameSize true boundary.find limitMultiplier
      (some opts) = .ok f.bytes) (hfills : f.Fills zeek) :
    (∀ (y : AppendCall) (xy : Input) (frameSize' : Nat) (limitMultiplier' : Option Nat)
        (result : AppendResult) (f' : File) (bytes : Bytes),
      y.Gives boundary → y.records = some n → y.data.data ≠ [] →
      y.run zeek f none = (.ok result, f') → xy.data = x.data ++ y.data.data →
      convertRecordsToSeekableZst zeek xy frameSize' true boundary.find limitMultiplier'
        (some opts) = .ok bytes →
      ∃ contents, frameContents zeek f'.bytes = .ok contents ∧
        frameContents zeek bytes = .ok contents) ∧
    (∀ (a b ab : AppendCall) (resultA resultB resultAB : AppendResult) (fA fB fAB : File),
      a.Gives boundary → b.Gives boundary → ab.Gives boundary →
      a.records = some n → b.records = some n → ab.records = some n →
      boundary.find.rest a.data.data = [] → ab.data.data = a.data.data ++ b.data.data →
      a.run zeek f none = (.ok resultA, fA) → fA.Fills zeek →
      b.run zeek fA none = (.ok resultB, fB) → ab.run zeek f none = (.ok resultAB, fAB) →
      ∃ contents, frameContents zeek fB.bytes = .ok contents ∧
        frameContents zeek fAB.bytes = .ok contents) := by
  obtain ⟨archive, rfl, hcontents⟩ := compressed_archive hn hlt hopts hne hlast hcompress
  have hend : archive.lastContent = (boundary.find.groups n x.data).getLastD [] := by
    rw [Archive.lastContent, hcontents, List.getLastD_concat]
  have hsome : archive.lastContent ≠ [] := by
    rw [hend]
    exact Finder.ne_nil_of_mem_groups hn (getLastD_groups_mem hn hne)
  have hended : boundary.tailIsRecord = true → boundary.find.rest archive.lastContent = [] := by
    rw [hend]
    exact rest_last hn hrest
  have hglue := glueOf_of_rest hended
  constructor
  · intro y xy frameSize' limitMultiplier' result f' bytes hgives hrecords hmore hrun hall hwhole
    obtain ⟨archive', rfl, happended, hfits⟩ :=
      AppendCall.appends hn hsome hfills hgives hrecords hrun
    have hne' : xy.data ≠ [] := by
      rw [hall]
      exact List.append_ne_nil_of_left_ne_nil hne _
    obtain ⟨made, hmade, hroom, rfl⟩ := compressed_made hn hlt hopts hne' hwhole
    refine ⟨archive'.contents, archive'.frameContents_eq, ?_⟩
    have hother := Archive.frameContents_eq
      (⟨made.flatten, hroom, fun _ => 0, fun _ => none⟩ : Archive zeek)
    rw [hall, Finder.groups_append hn] at hmade
    obtain ⟨rest, hones⟩ := made_of_append hmade
    have hfit := hfits hmore (hend ▸ hlast)
    rw [hglue, List.append_nil, hend] at hfit
    have hsplit : (⟨made.flatten, hroom, fun _ => 0, fun _ => none⟩ : Archive zeek).contents =
        (boundary.find.groups n x.data).dropLast.flatMap
            (splitOf zeek opts.checksum opts.level) ++
          boundary.find.groups n ((boundary.find.groups n x.data).getLastD [] ++ y.data.data) := by
      rw [Archive.contents, contents_of_made hmade, List.flatMap_append,
        flatMap_splitOf hones hfit]
    rw [happended, appendedContents, if_neg hmore]
    simp only
    rw [← Archive.lastContent, hglue, List.append_nil, hend, hcontents, List.dropLast_concat,
      ← hsplit]
    exact hother
  · intro a b ab resultA resultB resultAB fA fB fAB hgivesA hgivesB hgivesAB hrecordsA hrecordsB
      hrecordsAB hrestA hboth hrunA hfillsA hrunB hrunAB
    obtain ⟨archiveA, rfl, hA, -⟩ := AppendCall.appends hn hsome hfills hgivesA hrecordsA hrunA
    obtain ⟨archiveAB, rfl, hAB, -⟩ :=
      AppendCall.appends hn hsome hfills hgivesAB hrecordsAB hrunAB
    have hA' : a.data.data ≠ [] → archiveA.lastContent =
        (boundary.find.groups n (archive.lastContent ++ a.data.data)).getLastD [] := by
      intro ha
      rw [Archive.lastContent, hA, getLastD_appendedContents hn ha, ← Archive.lastContent, hglue,
        List.append_nil]
    have hsomeA : archiveA.lastContent ≠ [] := by
      by_cases ha : a.data.data = []
      · rw [Archive.lastContent, hA, appendedContents, if_pos ha]
        exact hsome
      · rw [hA' ha]
        exact Finder.ne_nil_of_mem_groups hn
          (getLastD_groups_mem hn (List.append_ne_nil_of_right_ne_nil _ ha))
    obtain ⟨archiveB, rfl, hB, -⟩ := AppendCall.appends hn hsomeA hfillsA hgivesB hrecordsB hrunB
    refine ⟨archiveB.contents, archiveB.frameContents_eq, ?_⟩
    rw [archiveAB.frameContents_eq, hAB, hB, hA, hboth]
    rw [appendedContents_append hn]
    intro ha
    rw [← hA, ← Archive.lastContent, hA' ha]
    apply glueOf_of_rest
    intro htail
    apply rest_last hn _ htail
    rw [Finder.rest_append_of_rest _ (hended htail)]
    exact hrestA

end Recompress

/-- Lines compressed with so many of them per frame. -/
def linesCompressedBy (n : Nat) (data : Bytes) : Except Error Bytes :=
  convertRecordsToSeekableZst storedZeekstd
    ({ data := data, schedule := fun tick => some tick } : Input) 3 true lineBoundary.find none
    (some { maxOfSeparator := some n })

/-- A line that is appended with so many of them per frame. -/
def lineAppend (n : Nat) (data : Bytes) : AppendCall where
  data := { data := data, schedule := fun _ => some 0 }
  separator := [10]
  onMissing := .refuse
  level := 3
  records := some n
  finder := none
  trust := false

/-- A file that was compressed of the line `a`. -/
def lineArchive : Archive storedZeekstd := storedArchive [[97, 10]]

/-- Two lines to a frame: `b` behind `a` joins its frame, as it does where both are compressed. -/
theorem append_recompresses_lineArchive :
    ∃ result f' bytes,
      (lineAppend 2 [98, 10]).run storedZeekstd lineArchive.file none = (.ok result, f') ∧
      linesCompressedBy 2 [97, 10, 98, 10] = .ok bytes ∧
      ∃ contents, frameContents storedZeekstd f'.bytes = .ok contents ∧
        frameContents storedZeekstd bytes = .ok contents := by
  have hcompress : linesCompressedBy 2 [97, 10] = .ok lineArchive.file.bytes := by rfl
  have hfills : lineArchive.file.Fills storedZeekstd :=
    fills_of_wholeWish (fun _ => rfl) (by decide +kernel)
  have hok : ∃ result, ((lineAppend 2 [98, 10]).run storedZeekstd lineArchive.file none).1 =
      .ok result := ⟨_, rfl⟩
  have hall : ∃ bytes, linesCompressedBy 2 [97, 10, 98, 10] = .ok bytes := ⟨_, rfl⟩
  obtain ⟨result, hok⟩ := hok
  obtain ⟨bytes, hall⟩ := hall
  have hrun : (lineAppend 2 [98, 10]).run storedZeekstd lineArchive.file none =
      (.ok result, ((lineAppend 2 [98, 10]).run storedZeekstd lineArchive.file none).2) :=
    Prod.ext hok rfl
  refine ⟨result, _, bytes, hrun, hall, ?_⟩
  exact (append_recompresses (by decide) (by decide) rfl (List.cons_ne_nil _ _) (by decide)
    (by decide +kernel) hcompress hfills).1 (lineAppend 2 [98, 10]) _ 3 none result _ bytes
    ⟨by decide, rfl⟩ rfl (List.cons_ne_nil _ _) hrun rfl hall

/-- A count the compressor holds as a negative number: it puts each line in a frame of its own,
and the append goes on filling one frame. -/
theorem append_recompresses_not_lineArchive :
    ∃ result f' bytes,
      linesCompressedBy (2 ^ 63) [97, 10] = .ok lineArchive.file.bytes ∧
      (lineAppend (2 ^ 63) [98, 10]).run storedZeekstd lineArchive.file none =
        (.ok result, f') ∧
      linesCompressedBy (2 ^ 63) [97, 10, 98, 10] = .ok bytes ∧
      frameContents storedZeekstd f'.bytes = .ok [[97, 10, 98, 10]] ∧
      frameContents storedZeekstd bytes = .ok [[97, 10], [98, 10]] :=
  ⟨_, _, _, by rfl, by rfl, by rfl, by rfl, by rfl⟩

end SeekZstdSep
