/-
Module: SeekZstdSep.Proofs.SharedFile
Purpose: The readers of one open file read it as if they were alone. Each of those that are reused
  reads the frames from its own on, whatever the others do and whatever is edited behind the frames;
  on Unix the reader they were made of is not moved by them.
Trusted boundary: the library, as `Zeekstd` has it, and the system, as `OpenFile` has it
Main exports: FrameSource.Within, FrameSource.Shows, SharedReaders.traceOf_source,
  SharedReaders.traceOf_handle, EditedBehind, shared_readers_read_alone
-/
import SeekZstdSep.Core.SharedFile
import SeekZstdSep.Proofs.EditTotal
import SeekZstdSep.Proofs.Front
import SeekZstdSep.Proofs.Regroup

namespace SeekZstdSep

open Lib

/-- What a file that cannot be read fails with. -/
def ReadFails (e : Error) : Prop := e = .external "read failed"

/-! ### A source -/

namespace FrameSource

/-- What a source reads of the file as it was opened. -/
def content (source : FrameSource) : Bytes := (source.file.bytes.drop source.base).take source.len

/-- A source lies in the file it was opened over. -/
structure Within (source : FrameSource) : Prop where
  inFile : source.base + source.len ≤ source.file.bytes.length
  inU64 : source.base + source.len ≤ usizeMax
  first_le : ∀ stop ∈ source.firstFrameLen, stop ≤ source.len

/-- A file still holds what a source was opened over. -/
def Shows (source : FrameSource) (bytes : Bytes) : Prop :=
  bytes.take (source.base + source.len) = source.file.bytes.take (source.base + source.len)

variable {source : FrameSource} {bytes : Bytes}

theorem Within.length_content (h : source.Within) : source.content.length = source.len := by
  have := h.inFile
  rw [content, List.length_take, List.length_drop]
  omega

theorem Shows.content_eq (h : source.Shows bytes) :
    (bytes.drop source.base).take source.len = source.content := by
  have hsame := congrArg (List.drop source.base) h
  rwa [List.drop_take, List.drop_take, Nat.add_sub_cancel_left] at hsame

theorem Shows.length_le (h : source.Shows bytes) (hwithin : source.Within) :
    source.base + source.len ≤ bytes.length := by
  have hsame := congrArg List.length h
  rw [List.length_take, List.length_take, Nat.min_eq_left hwithin.inFile] at hsame
  omega

end FrameSource

namespace OpenSource

variable {platform : Platform} {source : OpenSource} {file : OpenFile} {want : Nat}
  {wish : Option Nat}

/-- Where a read stops is in the source, and behind where it starts if there is more. -/
theorem stopAt_spec (h : source.Within) (pos : Nat) :
    stopAt source.toFrameSource pos ≤ source.len ∧
      (stopAt source.toFrameSource pos ≤ pos → source.len ≤ pos) := by
  rw [stopAt]
  cases hfirst : source.firstFrameLen with
  | none => exact ⟨Nat.le_refl _, id⟩
  | some stop =>
      have hle := h.first_le stop hfirst
      by_cases hin : pos < stop
      · rw [Option.filter_some, if_pos (decide_eq_true hin), Option.getD_some]
        exact ⟨hle, fun hstop => absurd hin (Nat.not_lt.mpr hstop)⟩
      · rw [Option.filter_some, if_neg (by simpa using hin), Option.getD_none]
        exact ⟨Nat.le_refl _, id⟩

/-- What a read at an offset answers, and that it leaves the file. -/
theorem readAt_spec (platform : Platform) (file : OpenFile) (offset want : Nat)
    (wish : Option Nat) :
    (file.readAt platform offset want wish).2.bytes = file.bytes ∧
      (platform = .unix → (file.readAt platform offset want wish).2 = file) ∧
      ((file.readAt platform offset want wish).1 = .error (.external "read failed") ∨
        ∃ n ≤ min want (file.bytes.length - offset),
          (n = 0 → min want (file.bytes.length - offset) = 0) ∧
          (file.readAt platform offset want wish).1 = .ok ((file.bytes.drop offset).take n)) := by
  cases wish with
  | none => exact ⟨rfl, fun _ => rfl, Or.inl rfl⟩
  | some wish =>
      refine ⟨?_, ?_, Or.inr ⟨_, shortRead_le _ _, shortRead_eq_zero_iff.mp, rfl⟩⟩
      · cases platform with
        | unix => rfl
        | windows => rfl
      · rintro rfl
        rfl

/-- A read of a source is one of what it was opened over. -/
theorem read_spec (hwithin : source.Within) (hshows : source.Shows file.bytes) :
    ((source.read platform file want wish).1 = .error (.external "read failed") ∧
        (source.read platform file want wish).2.1.pos = source.pos) ∨
      ∃ items, (source.read platform file want wish).1 = .ok items ∧
        items <+: source.content.drop source.pos ∧ items.length ≤ want ∧
        (items ≠ [] → source.pos + items.length ≤ stopAt source.toFrameSource source.pos) ∧
        (items = [] → want = 0 ∨ source.len ≤ source.pos) ∧
        (source.read platform file want wish).2.1.pos = source.pos + items.length := by
  obtain ⟨hstop, hspent⟩ := stopAt_spec hwithin source.pos
  have hlength := hshows.length_le hwithin
  have hin := hwithin.inU64
  rw [read]
  split_ifs with hnone hover
  · refine Or.inr ⟨[], rfl, List.nil_prefix, Nat.zero_le _, fun hne => absurd rfl hne, ?_, rfl⟩
    intro _
    rcases Nat.eq_zero_or_pos want with hzero | hwant
    · exact Or.inl hzero
    · exact Or.inr (hspent (by omega))
  · omega
  · obtain ⟨-, -, hanswer⟩ := readAt_spec platform file (source.base + source.pos)
      (min (stopAt source.toFrameSource source.pos - source.pos) want) wish
    generalize OpenFile.readAt _ _ _ _ _ = answered at hanswer
    obtain ⟨answer, file'⟩ := answered
    rcases hanswer with rfl | ⟨n, hn, hsome, rfl⟩
    · exact Or.inl ⟨rfl, rfl⟩
    · have hitems : ((file.bytes.drop (source.base + source.pos)).take n).length = n := by
        rw [List.length_take, List.length_drop]
        omega
      have hpiece : (file.bytes.drop (source.base + source.pos)).take n =
          (source.content.drop source.pos).take n := by
        rw [← hshows.content_eq, ← List.drop_drop, List.drop_take, List.take_take]
        congr 1
        omega
      refine Or.inr ⟨_, rfl, ?_, ?_, ?_, ?_, rfl⟩
      · rw [hpiece]
        exact List.take_prefix _ _
      · omega
      · intro _
        omega
      · intro hempty
        rw [hempty] at hitems
        have := hsome hitems.symm
        omega

end OpenSource

/-! ### Sources and handle over one file -/

namespace SharedReaders

variable {platform : Platform} {source : OpenSource} {file : OpenFile} {call : TapeCall}
  {wish : Option Nat}

/-- A call of a source is one of a tape of what it was opened over. -/
theorem callSource_asTape (hwithin : source.Within) (hshows : source.Shows file.bytes)
    {trace : Trace UInt8 Error}
    (hrest : AsTape ReadFails (OpenSource.stopAt source.toFrameSource) usizeMax source.content
      (callSource platform source file call wish).2.1.pos trace) :
    AsTape ReadFails (OpenSource.stopAt source.toFrameSource) usizeMax source.content source.pos
      ((call, (callSource platform source file call wish).1) :: trace) := by
  cases call with
  | read want =>
      rcases @OpenSource.read_spec platform source file want wish hwithin hshows with
        ⟨hanswer, hstays⟩ | ⟨items, hanswer, hthere, hasked, hstop, hsome, hpos⟩
      · rw [callSource, hstays] at hrest
        rw [callSource, hanswer]
        exact AsTape.failed rfl hrest
      · rw [callSource, hpos] at hrest
        rw [callSource, hanswer]
        rw [← hwithin.length_content] at hsome
        exact AsTape.handed hthere hasked hstop hsome hrest
  | seek place =>
      have hlength := hwithin.length_content
      rw [callSource, OpenSource.seek] at hrest ⊢
      simp only at hrest ⊢
      split_ifs at hrest ⊢ with houtside
      · rw [← hlength] at houtside
        exact AsTape.refused houtside hrest
      · obtain ⟨hlow, hhigh⟩ := not_or.mp houtside
        refine AsTape.sought ?_ ?_ hrest
        · rw [hlength]
          omega
        · omega

/-- A call of the handle is one of a tape of the file. -/
theorem callHandle_asTape {trace : Trace UInt8 Error}
    (hrest : AsTape ReadFails (fun _ => file.bytes.length) i64Max file.bytes
      (callHandle file call wish).2.cursor trace) :
    AsTape ReadFails (fun _ => file.bytes.length) i64Max file.bytes file.cursor
      ((call, (callHandle file call wish).1) :: trace) := by
  cases call with
  | read want =>
      cases wish with
      | none => exact AsTape.failed rfl hrest
      | some wish =>
          have hle := shortRead_le wish (min want (file.bytes.length - file.cursor))
          have hzero := @shortRead_eq_zero_iff wish (min want (file.bytes.length - file.cursor))
          rw [callHandle, OpenFile.read] at hrest ⊢
          simp only at hrest ⊢
          generalize shortRead wish (min want (file.bytes.length - file.cursor)) = n
            at hle hzero hrest ⊢
          have hitems : ((file.bytes.drop file.cursor).take n).length = n := by
            rw [List.length_take, List.length_drop]
            omega
          refine AsTape.handed (List.take_prefix _ _) (by omega) ?_ ?_ (by rwa [hitems])
          · intro hne
            have := List.length_pos_iff.mpr hne
            omega
          · intro hempty
            rw [hempty] at hitems
            have := hzero.mp hitems.symm
            omega
  | seek place =>
      rw [callHandle, OpenFile.seek] at hrest ⊢
      simp only at hrest ⊢
      split_ifs at hrest ⊢ with houtside
      · exact AsTape.refused houtside hrest
      · obtain ⟨hlow, hhigh⟩ := not_or.mp houtside
        exact AsTape.sought (by omega) (by omega) hrest

/-- The handle reads and moves, and leaves what the file holds. -/
theorem callHandle_bytes : (callHandle file call wish).2.bytes = file.bytes := by
  cases call with
  | read want =>
      cases wish with
      | none => rfl
      | some wish => rfl
  | seek place =>
      rw [callHandle, OpenFile.seek]
      simp only
      split_ifs
      · rfl
      · rfl

/-- A call of a source leaves what the file holds, and on Unix where its handle stands. -/
theorem callSource_keeps (platform : Platform) (source : OpenSource) (file : OpenFile)
    (call : TapeCall) (wish : Option Nat) :
    (callSource platform source file call wish).2.1.toFrameSource = source.toFrameSource ∧
      (callSource platform source file call wish).2.2.bytes = file.bytes ∧
      (platform = .unix → (callSource platform source file call wish).2.2 = file) := by
  cases call with
  | read want =>
      rw [callSource, OpenSource.read]
      simp only
      split_ifs
      · exact ⟨rfl, rfl, fun _ => rfl⟩
      · exact ⟨rfl, rfl, fun _ => rfl⟩
      · obtain ⟨hbytes, hunix, -⟩ := OpenSource.readAt_spec platform file
          (source.base + source.pos)
          (min (OpenSource.stopAt source.toFrameSource source.pos - source.pos) want) wish
        generalize OpenFile.readAt _ _ _ _ _ = answered at hbytes hunix
        obtain ⟨answer, file'⟩ := answered
        cases answer with
        | error e => exact ⟨rfl, hbytes, hunix⟩
        | ok bytes => exact ⟨rfl, hbytes, hunix⟩
  | seek place =>
      rw [callSource, OpenSource.seek]
      split_ifs
      · exact ⟨rfl, rfl, fun _ => rfl⟩
      · exact ⟨rfl, rfl, fun _ => rfl⟩

/-! ### Runs -/

variable {Index : Type} [DecidableEq Index]

/-- A source is answered as by what it was opened over, whatever the others do, where the edits
leave that. -/
theorem traceOf_source (platform : Platform) (i : Index) {source : FrameSource}
    (hwithin : source.Within) (events : List (SharedEvent Index)) (shared : SharedReaders Index)
    (hsource : (shared.sources i).toFrameSource = source) (hshows : source.Shows shared.file.bytes)
    (hedits : ∀ bytes, .edited bytes ∈ events → source.Shows bytes) :
    AsTape ReadFails (OpenSource.stopAt source) usizeMax source.content (shared.sources i).pos
      (traceOf platform (some i) shared events) := by
  induction events generalizing shared with
  | nil => exact AsTape.done _
  | cons event events ih =>
      have hrest : ∀ bytes, .edited bytes ∈ events → source.Shows bytes :=
        fun bytes hin => hedits bytes (List.mem_cons_of_mem _ hin)
      cases event with
      | source j call wish =>
          obtain ⟨hkept, hbytes, -⟩ :=
            callSource_keeps platform (shared.sources j) shared.file call wish
          by_cases hsame : j = i
          · subst hsame
            have htrace := ih (shared.step platform (.source j call wish)).2
              (by simpa [step] using hkept.trans hsource) (by simpa [step, hbytes] using hshows)
              hrest
            rw [traceOf]
            simp only [step, if_true, Function.update_self] at htrace ⊢
            subst hsource
            exact callSource_asTape hwithin hshows htrace
          · have htrace := ih (shared.step platform (.source j call wish)).2
              (by simpa [step, Function.update_of_ne (Ne.symm hsame)] using hsource)
              (by simpa [step, hbytes] using hshows) hrest
            rw [traceOf]
            simpa [step, hsame, Function.update_of_ne (Ne.symm hsame)] using htrace
      | handle call wish =>
          have htrace := ih (shared.step platform (.handle call wish)).2 hsource
            (by simpa [step, callHandle_bytes] using hshows) hrest
          rw [traceOf]
          simpa [step] using htrace
      | edited bytes =>
          exact ih (shared.step platform (.edited bytes)).2 hsource
            (hedits bytes List.mem_cons_self) hrest

/-- On Unix the handle is answered as by the file, whatever the sources read, where nothing is
edited. -/
theorem traceOf_handle (events : List (SharedEvent Index)) (shared : SharedReaders Index)
    (hedits : ∀ bytes, .edited bytes ∉ events) :
    AsTape ReadFails (fun _ => shared.file.bytes.length) i64Max shared.file.bytes
      shared.file.cursor (traceOf .unix none shared events) := by
  induction events generalizing shared with
  | nil => exact AsTape.done _
  | cons event events ih =>
      have hrest : ∀ bytes, .edited bytes ∉ events :=
        fun bytes hin => hedits bytes (List.mem_cons_of_mem _ hin)
      have htrace := ih (shared.step .unix event).2 hrest
      cases event with
      | source j call wish =>
          obtain ⟨-, -, hunix⟩ := callSource_keeps .unix (shared.sources j) shared.file call wish
          rw [traceOf]
          simpa [step, hunix rfl] using htrace
      | handle call wish =>
          have hbytes : (shared.step .unix (.handle call wish)).2.file.bytes =
              shared.file.bytes := callHandle_bytes
          rw [hbytes] at htrace
          exact callHandle_asTape htrace
      | edited bytes => exact absurd List.mem_cons_self (hedits bytes)

end SharedReaders

/-! ### The readers of a file from a frame on -/

section Readers

variable {zeek : Zeekstd} {archive : Archive zeek} {label : String} {boundary : Boundary}
  {opened : TableReader} {startFrame : Nat} {reader : ReaderFrom}

theorem table_of_fromFile {f : File}
    (h : (Exec.fromFile zeek f label boundary).Ends (.returned opened)) :
    zeek.fromSeekable f.bytes = .ok opened.table := by
  rw [Exec.fromFile] at h
  obtain ⟨read, hread, h⟩ := h.of_bind
  cases h.unique (Program.ends_pure _)
  have hends := hread
  rw [Exec.fromReader] at hends
  obtain ⟨table, hparse, hends⟩ := hends.of_bind
  have hparsed := Program.ok_of_ends hparse
  by_cases hempty : table.length = 0
  · rw [if_pos hempty] at hends
    cases hends.unique (Program.ends_ofEnding _)
  · have hne : table ≠ [] := fun hnil => hempty (by rw [hnil]; rfl)
    obtain ⟨maxima, -, hmodel⟩ := Exec.fromReader_ends label boundary hparsed hne
    have hsame := hread.unique hmodel
    cases hrecords : frameRecords boundary.find (.new zeek f table) 0 with
    | error e =>
        rw [hrecords] at hsame
        cases hsame
    | ok counted =>
        rw [hrecords] at hsame
        have hsame : .returned read =
            Program.endingOf (Exec.readerOf label boundary table maxima counted.1) := hsame
        rw [Exec.readerOf] at hsame
        split_ifs at hsame
        · cases hsame
        · cases hsame
        · cases hsame
          exact hparsed

/-- The source of the frames of an archive from one on. -/
def Archive.sourceFrom (archive : Archive zeek) (startFrame : Nat) : FrameSource where
  file := archive.file
  base := (bodyOf (archive.frames.take startFrame)).length
  len := (bodyOf (archive.frames.drop startFrame)).length
  firstFrameLen := archive.frames[startFrame]?.map fun frame => frame.bytes.length

namespace Archive

theorem body_split (archive : Archive zeek) (startFrame : Nat) :
    bodyOf archive.frames =
      bodyOf (archive.frames.take startFrame) ++ bodyOf (archive.frames.drop startFrame) := by
  rw [← bodyOf_append, List.take_append_drop]

theorem sourceFrom_end (archive : Archive zeek) (startFrame : Nat) :
    (archive.sourceFrom startFrame).base + (archive.sourceFrom startFrame).len =
      (bodyOf archive.frames).length := by
  rw [archive.body_split startFrame, List.length_append]
  rfl

/-- A source reads the frames from its own on. -/
theorem sourceFrom_content (archive : Archive zeek) (startFrame : Nat) :
    (archive.sourceFrom startFrame).content = bodyOf (archive.frames.drop startFrame) := by
  have hfile : (archive.sourceFrom startFrame).file.bytes =
      bodyOf archive.frames ++ zeek.serialize (tableOf archive.frames) := rfl
  rw [FrameSource.content, hfile, archive.body_split startFrame, List.append_assoc]
  exact (congrArg (List.take _) (List.drop_left' rfl)).trans (List.take_left' rfl)

theorem sourceFrom_within (hzeek : zeek.ParsesU32) (archive : Archive zeek) (startFrame : Nat) :
    (archive.sourceFrom startFrame).Within := by
  have hend := archive.sourceFrom_end startFrame
  constructor
  case inFile =>
    have hfile : (archive.sourceFrom startFrame).file.bytes =
        bodyOf archive.frames ++ zeek.serialize (tableOf archive.frames) := rfl
    rw [hend, hfile, List.length_append]
    exact Nat.le_add_right _ _
  case inU64 =>
    have hin := hzeek _ _ archive.fromSeekable
    have hcount : (tableOf archive.frames).length ≤ u32Max := by
      rw [length_tableOf]
      exact Nat.le_trans archive.count_le zeek.maxFrames_le
    have hlt := (hin.starts_lt hcount archive.frames.length).1
    rw [frameStartComp_tableOf, List.take_length] at hlt
    rw [hend]
    exact Nat.le_pred_of_lt hlt
  case first_le =>
    intro stop hstop
    obtain ⟨frame, hframe, rfl⟩ := Option.map_eq_some_iff.mp hstop
    obtain ⟨hstart, rfl⟩ := List.getElem?_eq_some_iff.mp hframe
    show _ ≤ (bodyOf (archive.frames.drop startFrame)).length
    rw [List.drop_eq_getElem_cons hstart, bodyOf, List.map_cons, List.flatten_cons,
      List.length_append]
    exact Nat.le_add_right _ _

/-- A file with the frames of the archive first shows what a source of them was opened over. -/
theorem sourceFrom_shows (archive : Archive zeek) (startFrame : Nat) {bytes : Bytes}
    (hfront : bodyOf archive.frames <+: bytes) :
    (archive.sourceFrom startFrame).Shows bytes := by
  obtain ⟨rest, rfl⟩ := hfront
  rw [FrameSource.Shows, archive.sourceFrom_end, List.take_left' rfl]
  exact (List.take_left' rfl).symm

end Archive

/-- A reader is opened from every frame of an archive on, over its source. -/
theorem openFromFrame_archive (hzeek : zeek.ParsesU32) (mode : Arithmetic)
    (hopened : (Exec.fromFile zeek archive.file label boundary).Ends (.returned opened))
    (hstart : startFrame < archive.frames.length) :
    ∃ reader, (Exec.openFromFrame zeek mode opened startFrame).Ends (.returned reader) ∧
      reader.source = archive.sourceFrom startFrame := by
  obtain ⟨htable, hshared⟩ := Exec.ofTable_of_fromFile hzeek hopened
  have hparsed := table_of_fromFile hopened
  rw [archive.fromSeekable, Except.ok.injEq] at hparsed
  have hlength : opened.table.length = archive.frames.length := by
    rw [← hparsed, length_tableOf]
  have hpos : opened.RestFits startFrame ∨ 0 < opened.maxFrameComp := by
    by_cases hrest : opened.RestFits startFrame
    · exact Or.inl hrest
    · -- no frame is without bytes
      refine Or.inr ((htable.maxFrameComp_pos_iff hrest).mpr ?_)
      refine ⟨archive.frames[startFrame].entry, ?_, ?_⟩
      · rw [← hparsed]
        exact List.mem_map_of_mem (List.getElem_mem hstart)
      · have := (zeek.magic archive.frames[startFrame].isFrame).2
        show archive.frames[startFrame].bytes.length ≠ 0
        omega
  obtain ⟨groups, hends, -⟩ :=
    Exec.openFromFrame_ends mode htable (by rwa [hlength]) hshared hpos
  refine ⟨_, hends, ?_⟩
  have hbase : opened.table.frameStartComp startFrame =
      (bodyOf (archive.frames.take startFrame)).length := by
    rw [← hparsed, frameStartComp_tableOf]
  have hlen : (opened.rest startFrame).1 =
      (bodyOf (archive.frames.drop startFrame)).length := by
    rw [TableReader.rest, ← hparsed, tableOf, ← List.map_drop]
    exact sum_fst_tableOf _
  have hfirst : some (opened.table.frameSizeComp startFrame) =
      archive.frames[startFrame]?.map fun frame => frame.bytes.length := by
    rw [← hparsed, frameSizeComp_tableOf archive.frames hstart, List.getElem?_eq_getElem hstart]
    rfl
  rw [TableReader.readerFrom, Archive.sourceFrom, hbase, hlen, hfirst]

theorem source_of_openFromFrame (hzeek : zeek.ParsesU32) (mode : Arithmetic)
    (hopened : (Exec.fromFile zeek archive.file label boundary).Ends (.returned opened))
    (hreader : (Exec.openFromFrame zeek mode opened startFrame).Ends (.returned reader)) :
    reader.source = archive.sourceFrom startFrame := by
  have hstart : startFrame < archive.frames.length := by
    obtain ⟨htable, -⟩ := Exec.ofTable_of_fromFile hzeek hopened
    have hparsed := table_of_fromFile hopened
    rw [archive.fromSeekable, Except.ok.injEq] at hparsed
    have hlength := congrArg List.length hparsed
    rw [length_tableOf] at hlength
    by_contra hnot
    rw [Exec.openFromFrame, htable.length_frames, if_pos (by omega)] at hreader
    cases hreader.unique (Program.ends_ofEnding _)
  obtain ⟨reader', hends, hsource⟩ := openFromFrame_archive hzeek mode hopened hstart
  cases hreader.unique hends
  exact hsource

/-! ### Edits behind the frames -/

/-- What an edit in place leaves where it is done, where it stands or where it stopped: of a file
that has these frames first and all of which the edit keeps. -/
def EditedBehind (zeek : Zeekstd) (frames : List (Stored zeek.toFrameFormat)) (bytes : Bytes) :
    Prop :=
  ∃ (archive : Archive zeek) (edit : Edit) (f : File), frames <+: archive.frames ∧
    (∀ table k, edit.kept zeek archive.file = some (table, k) → frames.length ≤ k) ∧
    Leaves archive.file (edit.changes zeek archive.file) f ∧ f.bytes = bytes

theorem bodyOf_front {format : FrameFormat} {frames more : List (Stored format)}
    (h : frames <+: more) : bodyOf frames <+: bodyOf more := by
  obtain ⟨rest, rfl⟩ := h
  rw [bodyOf_append]
  exact List.prefix_append _ _

/-- The frames are still there. -/
theorem EditedBehind.front {frames : List (Stored zeek.toFrameFormat)} {bytes : Bytes}
    (h : EditedBehind zeek frames bytes) : bodyOf frames <+: bytes := by
  obtain ⟨archive, edit, f, hframes, hkept, hleft, rfl⟩ := h
  have hfile : bodyOf frames <+: archive.file.bytes :=
    (bodyOf_front hframes).trans (List.prefix_append _ _)
  have hrewrites := @Edit.rewrites zeek archive.file edit
  cases hk : edit.kept zeek archive.file with
  | none =>
      rw [hk] at hrewrites
      rw [Rewrites] at hrewrites
      rw [hrewrites] at hleft
      cases hleft
      exact hfile
  | some kept =>
      obtain ⟨table, k⟩ := kept
      rw [hk] at hrewrites
      obtain ⟨hseek, -, ⟨writes, hchanges, honly⟩, -⟩ := hrewrites
      rw [archive.fromSeekable, Except.ok.injEq] at hseek
      rw [hchanges] at hleft
      rcases hleft.behind_cut honly with rfl | hfront
      · exact hfile
      · rw [← hseek, frameStartComp_tableOf, setLen_bytesOf archive.frames rfl] at hfront
        apply (bodyOf_front _).trans hfront
        exact List.prefix_take_iff.mpr ⟨hframes, hkept table k hk⟩

theorem appendFramesChecks_last {f input : File} {fromIdx : Nat} {cnt : Option Nat}
    {find : Finder UInt8} {check : RangeCheck} {table inTable : SeekTable} {last k j : Nat}
    (hok : appendFramesChecks zeek f input fromIdx cnt find check =
      .ok (table, last, inTable, k, j)) : lastDataFrame table = .ok last := by
  rw [appendFramesChecks] at hok
  split at hok
  · cases hok
  split at hok
  · cases hok
  split at hok
  · cases hok
  next hlast =>
    split at hok
    · cases hok
    split_ifs at hok
    split at hok
    · cases hok
    split at hok
    · cases hok
    split_ifs at hok
    split at hok
    · cases hok
    split_ifs at hok
    · split at hok
      · cases hok
      · cases hok
        exact hlast
    · cases hok
      exact hlast

/-- An append of frames edits behind the frames there are, unless the last of them is empty. -/
theorem EditedBehind.appendFrames {frames : List (Stored zeek.toFrameFormat)}
    (hframes : frames <+: archive.frames) (hlast : archive.lastContent ≠ []) (input : File)
    (fromIdx : Nat) (cnt : Option Nat) (find : Finder UInt8) (check : RangeCheck) {f : File}
    (hleft : Leaves archive.file
      (appendFramesChanges zeek archive.file input fromIdx cnt find check) f) :
    EditedBehind zeek frames f.bytes := by
  refine ⟨archive, .appendFrames input fromIdx cnt find check, f, hframes, ?_, hleft, rfl⟩
  intro table k hkept
  rw [Edit.kept, framesKept] at hkept
  split at hkept
  · cases hkept
  · next table' last inTable k' j hchecks =>
      split_ifs at hkept
      cases hkept
      have hlength := hframes.length_le
      have hseek := (appendFramesChecks_tables hchecks).1
      rw [archive.fromSeekable, Except.ok.injEq] at hseek
      have hdata := appendFramesChecks_last hchecks
      rw [← hseek, archive.lastDataFrame_eq hlast, Except.ok.injEq] at hdata
      omega

end Readers

/-- Any number of readers that are reused read one open file through sources of their own, in any
order of their reads and seeks. Each is answered as by the frames from its own on alone, in pieces
that do not pass the end of its first frame, whatever the platform, the handle and the edits behind
the frames do; read on to the end, it has them all. On Unix the reader they were made of is answered
as by the file alone, as long as that is not edited. -/
theorem shared_readers_read_alone {zeek : Zeekstd} (hzeek : zeek.ParsesU32) (mode : Arithmetic)
    {archive : Archive zeek} {label : String} {boundary : Boundary} {opened : TableReader}
    (hopened : (Exec.fromFile zeek archive.file label boundary).Ends (.returned opened))
    {Index : Type} [DecidableEq Index] {startFrame : Index → Nat} {readers : Index → ReaderFrom}
    (hreaders : ∀ i,
      (Exec.openFromFrame zeek mode opened (startFrame i)).Ends (.returned (readers i)))
    (platform : Platform) (cursor : Nat) (events : List (SharedEvent Index))
    (hedits : ∀ bytes, .edited bytes ∈ events → EditedBehind zeek archive.frames bytes) :
    (∀ i,
      let source := (readers i).source
      let frames := bodyOf (archive.frames.drop (startFrame i))
      let trace := SharedReaders.traceOf platform (some i)
        { file := { bytes := archive.file.bytes, cursor := cursor }
          sources := fun i => { toFrameSource := (readers i).source } } events
      AsTape ReadFails (OpenSource.stopAt source) usizeMax frames 0 trace ∧
        (trace.Forward → trace.Ended → trace.handedOut = frames)) ∧
    ((∀ bytes, .edited bytes ∉ events) →
      AsTape ReadFails (fun _ => archive.file.bytes.length) i64Max archive.file.bytes cursor
        (SharedReaders.traceOf .unix none
          { file := { bytes := archive.file.bytes, cursor := cursor }
            sources := fun i => { toFrameSource := (readers i).source } } events)) := by
  constructor
  · intro i
    have hsource := source_of_openFromFrame hzeek mode hopened (hreaders i)
    have htrace := SharedReaders.traceOf_source platform i
      (archive.sourceFrom_within hzeek (startFrame i)) events
      { file := { bytes := archive.file.bytes, cursor := cursor }
        sources := fun i => { toFrameSource := (readers i).source } } hsource
      (archive.sourceFrom_shows _ (List.prefix_append _ _)) fun bytes hin =>
        archive.sourceFrom_shows _ (hedits bytes hin).front
    rw [archive.sourceFrom_content, ← hsource] at htrace
    exact ⟨htrace, htrace.handedOut_ended⟩
  · intro hnone
    exact SharedReaders.traceOf_handle events
      { file := { bytes := archive.file.bytes, cursor := cursor }
        sources := fun i => { toFrameSource := (readers i).source } } hnone

/-- The frames of `threeLines` and three bytes more: an append of the second one to them is on its
way. -/
def threeLinesUnderway : File := (threeLines.file.setLen 33).writeAll [0x28, 0xb5, 0x2f]

/-- Two readers of `threeLines`, of the last two lines and of the last one, are read by turns. -/
def byTurns : List (SharedEvent Bool) :=
  [.source false (.read 100) (some 4), .handle (.read 9) (some 8), .source true (.read 5) (some 2),
    .edited threeLinesUnderway.bytes, .source false (.read 100) none,
    .source false (.read 100) (some 5), .source true (.seek (.atEnd (-3))) none,
    .source false (.read 100) (some 10), .source false (.read 1) (some 0)]

/-- The frame each is opened from. -/
def firstFrames (last : Bool) : Nat := if last then 2 else 1

/-- A reader of `threeLines` whose handle stands in front of it, and those made of it. -/
def readersByTurns : SharedReaders Bool where
  file := { bytes := threeLines.file.bytes }
  sources := fun last => { toFrameSource := threeLines.sourceFrom (firstFrames last) }

/-- Where a read at an offset moves the handle, what that reads next is not what follows. -/
example : ((readersByTurns.traceOf .windows none
      [.handle (.read 2) (some 1), .source true (.read 3) (some 2), .handle (.read 2) (some 1)]),
    (readersByTurns.traceOf .unix none
      [.handle (.read 2) (some 1), .source true (.read 3) (some 2), .handle (.read 2) (some 1)])) =
    ([(.read 2, .ok (.handed [0x28, 0xb5])), (.read 2, .ok (.handed [0xfd, 4]))],
      [(.read 2, .ok (.handed [0x28, 0xb5])), (.read 2, .ok (.handed [0x2f, 0xfd]))]) := by
  decide +kernel

theorem fromFile_threeLines : ∃ opened,
    (Exec.fromFile storedZeekstd threeLines.file "three.zst" lineBoundary).Ends
      (.returned opened) := by
  have hparse : storedZeekstd.fromSeekable threeLines.file.bytes =
      .ok (tableOf threeLines.frames) := threeLines.fromSeekable
  have hcount : (frameRecords lineBoundary.find
      (.new storedZeekstd threeLines.file (tableOf threeLines.frames)) 0).map Prod.fst = .ok 1 := by
    decide +kernel
  obtain ⟨maxima, -, hends⟩ := Exec.fromReader_ends "three.zst" lineBoundary hparse
    (by decide +kernel)
  cases hrecords : frameRecords lineBoundary.find
      (.new storedZeekstd threeLines.file (tableOf threeLines.frames)) 0 with
  | error e =>
      rw [hrecords] at hcount
      cases hcount
  | ok counted =>
      obtain ⟨count, reader⟩ := counted
      rw [hrecords] at hcount hends
      obtain rfl : count = 1 := Except.ok.inj hcount
      exact ⟨_, hends.bind (Program.ends_pure _)⟩

theorem threeLinesUnderway_editedBehind :
    EditedBehind storedZeekstd threeLines.frames threeLinesUnderway.bytes := by
  have hchanges : appendFramesChanges storedZeekstd threeLines.file threeLines.file 1 (some 1)
      lineBoundary.find .firstFrame = [.cutAt 33, .writeAll (storedBytes true [98, 10]),
        .writeAll (serializeTable (tableOf threeLines.frames ++ [(11, 2)]))] := by
    decide +kernel
  apply EditedBehind.appendFrames List.prefix_rfl (by decide +kernel) threeLines.file 1 (some 1)
    lineBoundary.find .firstFrame
  rw [hchanges]
  exact .made (.partly _ _ (by decide +kernel))

theorem shared_readers_read_alone_threeLines : ∃ opened, ∃ readers : Bool → ReaderFrom,
    (Exec.fromFile storedZeekstd threeLines.file "three.zst" lineBoundary).Ends
        (.returned opened) ∧
      (∀ last, (Exec.openFromFrame storedZeekstd .checked opened (firstFrames last)).Ends
        (.returned (readers last))) ∧
      (SharedReaders.traceOf .windows (some false)
        { file := { bytes := threeLines.file.bytes, cursor := 0 }
          sources := fun last => { toFrameSource := (readers last).source } } byTurns).handedOut =
        bodyOf (threeLines.frames.drop 1) := by
  obtain ⟨opened, hopened⟩ := fromFile_threeLines
  have hopens : ∀ last, ∃ reader,
      (Exec.openFromFrame storedZeekstd .checked opened (firstFrames last)).Ends
          (.returned reader) ∧ reader.source = threeLines.sourceFrom (firstFrames last) :=
    fun last => openFromFrame_archive storedZeekstd_parsesU32 .checked hopened
      (by cases last <;> decide +kernel)
  choose readers hreaders hsources using hopens
  have hedits : ∀ bytes, .edited bytes ∈ byTurns →
      EditedBehind storedZeekstd threeLines.frames bytes := by
    intro bytes hin
    obtain rfl : bytes = threeLinesUnderway.bytes := by simpa [byTurns] using hin
    exact threeLinesUnderway_editedBehind
  have htrace : SharedReaders.traceOf .windows (some false)
      { file := { bytes := threeLines.file.bytes, cursor := 0 }
        sources := fun last => { toFrameSource := (readers last).source } } byTurns =
      [(.read 100, .ok (.handed ((storedBytes true [98, 10]).take 5))),
        (.read 100, .error (.external "read failed")),
        (.read 100, .ok (.handed ((storedBytes true [98, 10]).drop 5))),
        (.read 100, .ok (.handed (storedBytes true [99, 10]))), (.read 1, .ok (.handed []))] := by
    simp only [hsources]
    decide +kernel
  refine ⟨opened, readers, hopened, hreaders, ?_⟩
  obtain ⟨-, hall⟩ := (shared_readers_read_alone storedZeekstd_parsesU32 .checked hopened hreaders
    .windows 0 byTurns hedits).1 false
  apply hall
  · rw [htrace]
    simp [Trace.Forward]
  · rw [htrace]
    exact ⟨1, by decide, by simp⟩

end SeekZstdSep
