/-
Module: SeekZstdSep.Proofs.Frames
Purpose: What the edits read of a file the library laid out: its seek table, the count and the
  wholeness of each frame, and the table that logging some of its frames again comes to.
Trusted boundary: none
Main exports: FrameReader.Over, walkFrame_spec, frameCounts_spec, lastDataFrame_spec,
  logFrames_eq_ok_iff, ioCopy_spec
-/
import SeekZstdSep.Core.Append
import SeekZstdSep.Proofs.Walk

namespace SeekZstdSep

open Lib

/-! ### Seek tables -/

section Tables

variable {format : FrameFormat} (frames : List (Stored format))

@[simp] theorem length_tableOf : (tableOf frames).length = frames.length := by
  rw [tableOf, List.length_map]

theorem tableOf_append (frames' : List (Stored format)) :
    tableOf (frames ++ frames') = tableOf frames ++ tableOf frames' := by
  rw [tableOf, List.map_append]
  rfl

theorem bodyOf_append (frames' : List (Stored format)) :
    bodyOf (frames ++ frames') = bodyOf frames ++ bodyOf frames' := by
  rw [bodyOf, List.map_append, List.flatten_append]
  rfl

theorem tableOf_take (k : Nat) : (tableOf frames).take k = tableOf (frames.take k) := by
  rw [tableOf, ← List.map_take]
  rfl

theorem tableOf_range (k j : Nat) :
    (tableOf frames).range k j = tableOf ((frames.drop k).take (j - k)) := by
  rw [SeekTable.range, tableOf, ← List.map_drop, ← List.map_take]
  rfl

theorem sum_fst_tableOf : ((tableOf frames).map Prod.fst).sum = (bodyOf frames).length := by
  rw [tableOf, bodyOf, List.map_map, List.length_flatten, List.map_map]
  rfl

/-- A frame starts where the frames before it end. -/
theorem frameStartComp_tableOf (k : Nat) :
    (tableOf frames).frameStartComp k = (bodyOf (frames.take k)).length := by
  rw [SeekTable.frameStartComp, tableOf_take, sum_fst_tableOf]

theorem frameEndComp_tableOf (k : Nat) :
    (tableOf frames).frameEndComp k = (bodyOf (frames.take (k + 1))).length := by
  rw [SeekTable.frameEndComp, frameStartComp_tableOf]

theorem frameSizeDecomp_tableOf {i : Nat} (hi : i < frames.length) :
    (tableOf frames).frameSizeDecomp i = frames[i].content.length := by
  rw [SeekTable.frameSizeDecomp, tableOf, List.getD_eq_getElem?_getD, List.getElem?_map,
    List.getElem?_eq_getElem hi]
  rfl

theorem frameSizeComp_tableOf {i : Nat} (hi : i < frames.length) :
    (tableOf frames).frameSizeComp i = frames[i].bytes.length := by
  rw [SeekTable.frameSizeComp, tableOf, List.getD_eq_getElem?_getD, List.getElem?_map,
    List.getElem?_eq_getElem hi]
  rfl

/-- The bytes of the first frames are a prefix of the file. -/
theorem take_bytesOf (k : Nat) :
    (bytesOf frames).take (bodyOf (frames.take k)).length = bodyOf (frames.take k) := by
  have hsplit : bytesOf frames =
      bodyOf (frames.take k) ++
        (bodyOf (frames.drop k) ++ format.serialize (tableOf frames)) := by
    rw [bytesOf, ← List.append_assoc, ← bodyOf_append, List.take_append_drop]
  rw [hsplit, List.take_left' rfl]

theorem length_bodyOf_take_le (k : Nat) :
    (bodyOf (frames.take k)).length ≤ (bytesOf frames).length := by
  rw [← take_bytesOf frames k, List.length_take]
  exact Nat.min_le_right _ _

/-- Cutting a file where a frame starts leaves the frames before it. -/
theorem setLen_bytesOf {f : File} (hf : f.bytes = bytesOf frames) (k : Nat) :
    (f.setLen (bodyOf (frames.take k)).length).bytes = bodyOf (frames.take k) := by
  rw [File.setLen_bytes (hf ▸ length_bodyOf_take_le frames k), hf, take_bytesOf]

/-- The bytes of a file between two frame starts are those of the frames between. -/
theorem part_bytesOf {k j : Nat} (hkj : k ≤ j) :
    ((bytesOf frames).drop (bodyOf (frames.take k)).length).take
        ((bodyOf (frames.take j)).length - (bodyOf (frames.take k)).length) =
      bodyOf ((frames.drop k).take (j - k)) := by
  have hj : frames.take j = frames.take k ++ (frames.drop k).take (j - k) := by
    rw [← List.take_add, Nat.add_sub_cancel' hkj]
  have hbody : bodyOf (frames.take j) =
      bodyOf (frames.take k) ++ bodyOf ((frames.drop k).take (j - k)) := by
    rw [hj, bodyOf_append]
  have hsplit : bytesOf frames =
      bodyOf (frames.take k) ++ (bodyOf ((frames.drop k).take (j - k)) ++
        (bodyOf (frames.drop j) ++ format.serialize (tableOf frames))) := by
    rw [bytesOf, ← List.append_assoc, ← hbody, ← List.append_assoc, ← bodyOf_append,
      List.take_append_drop]
  rw [hsplit, List.drop_left' rfl, hbody, List.length_append, Nat.add_sub_cancel_left,
    List.take_left' rfl]

end Tables

/-- Logging entries puts them behind the others, as long as the table has room. -/
theorem logFrames_eq_ok_iff (zeek : Zeekstd) (entries : List (Nat × Nat)) (out res : SeekTable) :
    logFrames zeek out entries = .ok res ↔
      res = out ++ entries ∧ (entries = [] ∨ out.length + entries.length ≤ zeek.maxFrames) := by
  induction entries generalizing out with
  | nil => simp [logFrames, eq_comm]
  | cons entry entries ih =>
      rw [logFrames, logFrame]
      by_cases hroom : zeek.maxFrames ≤ out.length
      · rw [if_pos hroom]
        simp only [reduceCtorEq, List.cons_ne_nil, List.length_cons, false_or, false_iff, not_and]
        intro _
        omega
      · rw [if_neg hroom]
        simp only [ih, List.append_assoc, List.singleton_append, List.length_append,
          List.length_cons, List.cons_ne_nil, false_or, and_congr_right_iff]
        intro _
        cases entries with
        | nil => simp; omega
        | cons entry' entries => simp; omega

theorem logFrames_of_le (zeek : Zeekstd) {out entries : SeekTable}
    (h : out.length + entries.length ≤ zeek.maxFrames) :
    logFrames zeek out entries = .ok (out ++ entries) :=
  (logFrames_eq_ok_iff zeek entries out _).mpr ⟨rfl, Or.inr h⟩

/-! ### Reading the frames of a file -/

/-- The reader hands out `contents`, frame by frame. -/
structure FrameReader.Over (contents : List Bytes) (reader : FrameReader) : Prop where
  length : reader.table.length = contents.length
  size : ∀ i (hi : i < contents.length),
    reader.table.frameSizeDecomp i = contents[i].length
  frame : ∀ i (hi : i < contents.length), reader.frame i = .ok contents[i]
  frameEnds : reader.window.frameEnds = []
  cap_pos : 0 < reader.window.cap

namespace FrameReader.Over

variable {find : Finder UInt8} {contents : List Bytes} {reader : FrameReader}

/-- What the window does in a frame leaves the reader over the file. -/
theorem of_sameFile (h : reader.Over contents) {content : Bytes} {window : Window}
    (hsame : Window.SameFile (reader.frameWindow content) window) :
    FrameReader.Over contents { reader with window := window } where
  length := h.length
  size := h.size
  frame := h.frame
  frameEnds := hsame.frameEnds.trans h.frameEnds
  cap_pos := Nat.lt_of_lt_of_le h.cap_pos hsame.cap_le

/-- A walk gives the count of a frame and whether it ends whole, and can be made again. -/
theorem walkFrame_spec (h : reader.Over contents) (find : Finder UInt8) {i : Nat}
    (hi : i < contents.length) :
    ∃ reader', walkFrame find reader i =
        .ok ((count find contents[i], endsWhole find contents[i]), reader') ∧
      reader'.Over contents := by
  rw [walkFrame, h.size i hi, h.frame i hi]
  by_cases hempty : contents[i] = []
  · rw [hempty, List.length_nil, if_pos rfl]
    exact ⟨reader, by simp [count_eq, endsWhole, ends, endsFrom], h⟩
  · rw [if_neg (mt List.length_eq_zero_iff.mp hempty)]
    have hat : Window.At find contents[i] 0 0
        ((reader.frameWindow contents[i]).seekTo 0 contents[i].length) := by
      apply Window.seekTo_at
      · rw [List.drop_zero]
        exact List.take_length
      · exact h.cap_pos
      · rw [frameWindow, h.frameEnds]
        exact List.Pairwise.nil
      · intro e he
        rw [frameWindow, h.frameEnds] at he
        exact absurd he List.not_mem_nil
    obtain ⟨w', hcount, hat', heof⟩ := Records.countRecords_spec hat
    have hsame := Records.countRecords_sameFile find {}
      ((reader.frameWindow contents[i]).seekTo 0 contents[i].length)
    rw [hcount] at hsame
    have hwhole : w'.remainder.isEmpty = endsWhole find contents[i] := by
      rw [hat'.remainder_of_eof heof, Bool.eq_iff_iff, List.isEmpty_iff, endsWhole_iff]
      exact ⟨fun hrest => ⟨hempty, hrest⟩, And.right⟩
    refine ⟨{ reader with window := w' }, ?_,
      h.of_sameFile ((Window.seekTo_sameFile (reader.frameWindow contents[i]) 0 _).trans hsame)⟩
    simp only [hcount, hwhole, count_eq, Nat.sub_zero]

theorem frameRecords_spec (h : reader.Over contents) (find : Finder UInt8) {i : Nat}
    (hi : i < contents.length) :
    ∃ reader', frameRecords find reader i = .ok (count find contents[i], reader') ∧
      reader'.Over contents := by
  obtain ⟨reader', hwalk, hover⟩ := h.walkFrame_spec find hi
  refine ⟨reader', ?_, hover⟩
  rw [frameRecords, hwalk]

/-- The counts of some frames, in order. -/
theorem frameCounts_spec (h : reader.Over contents) (find : Finder UInt8) (indices : List Nat)
    (hin : ∀ i ∈ indices, i < contents.length) :
    ∃ reader', frameCounts find reader indices =
        .ok (indices.map fun i => count find (contents.getD i []), reader') ∧
      reader'.Over contents := by
  induction indices generalizing reader with
  | nil => exact ⟨reader, rfl, h⟩
  | cons i indices ih =>
      have hi := hin i List.mem_cons_self
      obtain ⟨reader₁, hone, hover₁⟩ := h.frameRecords_spec find hi
      obtain ⟨reader₂, hrest, hover₂⟩ :=
        ih hover₁ fun j hj => hin j (List.mem_cons_of_mem i hj)
      refine ⟨reader₂, ?_, hover₂⟩
      rw [frameCounts, hone]
      simp only [hrest, List.map_cons, List.getD_eq_getElem?_getD, List.getElem?_eq_getElem hi,
        Option.getD_some]

theorem lastDataFrameFrom_spec (h : reader.Over contents) {last : Nat}
    (hlast : last < contents.length) :
    lastDataFrameFrom reader.table last ≤ last ∧
      (∀ i (hi : i < contents.length), lastDataFrameFrom reader.table last < i → i ≤ last →
        contents[i] = []) ∧
      (lastDataFrameFrom reader.table last = 0 ∨
        contents.getD (lastDataFrameFrom reader.table last) [] ≠ []) := by
  induction last with
  | zero => exact ⟨Nat.le_refl _, fun i _ hpos hle => by rw [lastDataFrameFrom] at hpos; omega,
      Or.inl rfl⟩
  | succ last ih =>
      rw [lastDataFrameFrom, h.size (last + 1) hlast]
      by_cases hempty : contents[last + 1] = []
      · obtain ⟨hle, hpast, hdata⟩ := ih (by omega)
        rw [if_pos (List.length_eq_zero_iff.mpr hempty)]
        refine ⟨by omega, fun i hi hlt hile => ?_, hdata⟩
        rcases Nat.lt_or_ge last i with hcase | hcase
        · obtain rfl : i = last + 1 := by omega
          exact hempty
        · exact hpast i hi hlt hcase
      · rw [if_neg (mt List.length_eq_zero_iff.mp hempty)]
        refine ⟨Nat.le_refl _, fun i _ hlt hle => by omega, Or.inr ?_⟩
        rw [List.getD_eq_getElem?_getD, List.getElem?_eq_getElem hlast]
        exact hempty

/-- The last data frame: those behind it are empty, and it is not, unless it is the first. -/
theorem lastDataFrame_spec (h : reader.Over contents) (hne : contents ≠ []) :
    ∃ last, lastDataFrame reader.table = .ok last ∧ last < contents.length ∧
      (∀ i (hi : i < contents.length), last < i → contents[i] = []) ∧
      (last = 0 ∨ contents.getD last [] ≠ []) := by
  have hpos := List.length_pos_iff.mpr hne
  have hlast : contents.length - 1 < contents.length := by omega
  obtain ⟨hle, hpast, hdata⟩ := h.lastDataFrameFrom_spec hlast
  rw [lastDataFrame, h.length, if_neg (by omega)]
  exact ⟨_, rfl, by omega, fun i hi hlt => hpast i hi hlt (by omega), hdata⟩

/-- Where the last frame carries data it is the one. -/
theorem lastDataFrame_of_last (h : reader.Over contents) (hne : contents ≠ [])
    (hlast : contents.getLast hne ≠ []) :
    lastDataFrame reader.table = .ok (contents.length - 1) := by
  obtain ⟨last, hok, hlt, hpast, -⟩ := h.lastDataFrame_spec hne
  rcases Nat.lt_or_ge last (contents.length - 1) with hcase | hcase
  · have hnil := hpast (contents.length - 1) (by omega) hcase
    rw [List.getLast_eq_getElem] at hlast
    exact absurd hnil hlast
  · rw [hok]
    congr 1
    omega

end FrameReader.Over

/-- The reader an edit makes of a file the library laid out. -/
theorem Archive.stands {zeek : Zeekstd} (archive : Archive zeek) :
    (FrameReader.new zeek archive.file (tableOf archive.frames)).Over archive.contents where
  length := by rw [contents, List.length_map]; exact length_tableOf archive.frames
  size i hi := by
    have hi' : i < archive.frames.length := by simpa [contents] using hi
    simp only [contents, List.getElem_map]
    exact frameSizeDecomp_tableOf archive.frames hi'
  frame i hi := by
    have hi' : i < archive.frames.length := by simpa [contents] using hi
    simp only [contents, List.getElem_map]
    exact zeek.decodeFrame_bytesOf archive.frames hi' archive.count_le
  frameEnds := rfl
  cap_pos := show 0 < readFrameBufSize by decide

@[simp] theorem Archive.length_contents {zeek : Zeekstd} (archive : Archive zeek) :
    archive.contents.length = archive.frames.length := by
  rw [contents, List.length_map]

theorem Archive.fromSeekable {zeek : Zeekstd} (archive : Archive zeek) :
    zeek.fromSeekable archive.file.bytes = .ok (tableOf archive.frames) :=
  zeek.fromSeekable_bytesOf archive.frames archive.count_le

/-- Other frames in place of those of a file. -/
def Archive.withFrames {zeek : Zeekstd} (archive : Archive zeek)
    (frames : List (Stored zeek.toFrameFormat)) (count_le : frames.length ≤ zeek.maxFrames) :
    Archive zeek :=
  { archive with frames := frames, count_le := count_le }

@[simp] theorem Archive.contents_withFrames {zeek : Zeekstd} (archive : Archive zeek)
    (frames : List (Stored zeek.toFrameFormat)) (count_le : frames.length ≤ zeek.maxFrames) :
    (archive.withFrames frames count_le).contents = frames.map Stored.content := rfl

/-- Cutting a file where a frame starts and writing more frames and their table behind the cut
gives the file of the frames before it and those. -/
theorem Archive.cut_write {zeek : Zeekstd} (archive : Archive zeek) (k : Nat)
    (more : List (Stored zeek.toFrameFormat))
    (count_le : (archive.frames.take k ++ more).length ≤ zeek.maxFrames) :
    ((archive.file.setLen (bodyOf (archive.frames.take k)).length).writeAll (bodyOf more)).writeAll
        (zeek.serialize (tableOf (archive.frames.take k) ++ tableOf more)) =
      (archive.withFrames (archive.frames.take k ++ more) count_le).file := by
  have hcut := setLen_bytesOf archive.frames (f := archive.file) rfl k
  apply File.ext
  · rw [File.writeAll_bytes, File.writeAll_bytes, hcut]
    show _ = bytesOf (archive.frames.take k ++ more)
    rw [bytesOf, bodyOf_append, tableOf_append]
  · rfl
  · rfl

/-- What a file decompresses to is settled by its bytes. -/
theorem Archive.contents_eq_of_bytes {zeek : Zeekstd} {archive archive' : Archive zeek}
    (h : archive.file.bytes = archive'.file.bytes) : archive.contents = archive'.contents := by
  have htable : tableOf archive.frames = tableOf archive'.frames := by
    have hseek := archive.fromSeekable
    rw [h, archive'.fromSeekable] at hseek
    exact (Except.ok.inj hseek).symm
  have hlength : archive.contents.length = archive'.contents.length := by
    have := congrArg List.length htable
    simpa using this
  apply List.ext_getElem hlength
  intro i hi hi'
  have hleft := archive.stands.frame i hi
  have hright := archive'.stands.frame i hi'
  simp only [FrameReader.new] at hleft hright
  rw [h, htable, hright] at hleft
  exact (Except.ok.inj hleft).symm

/-! ### Copying bytes -/

/-- A copy passes on the head of what the source holds, and all of it where nothing fails. -/
theorem ioCopyFuel_spec (fuel : Nat) (source : Input) (copied : Bytes)
    (hfuel : source.data.length < fuel) :
    ∃ taken, (ioCopyFuel fuel source copied).2 = copied ++ taken ∧ taken <+: source.data ∧
      ((ioCopyFuel fuel source copied).1 = .ok () → taken = source.data) ∧
      ((∀ tick, source.schedule tick ≠ none) → (ioCopyFuel fuel source copied).1 = .ok ()) := by
  induction fuel generalizing source copied with
  | zero => omega
  | succ fuel ih =>
      rw [ioCopyFuel]
      cases hwish : source.schedule source.tick with
      | none =>
          have hread : Read.read source readBufSize = .error (.external "read failed") := by
            simp only [Read.read, hwish]
          rw [hread]
          exact ⟨[], by simp, by simp, by simp, fun hgood => absurd hwish (hgood _)⟩
      | some wish =>
          generalize hn : shortRead wish (min readBufSize source.data.length) = n
          have hread : Read.read source readBufSize =
              .ok (source.data.take n,
                { source with data := source.data.drop n, tick := source.tick + 1 }) := by
            simp only [Read.read, hwish, hn]
          have hle := shortRead_le wish (min readBufSize source.data.length)
          rw [hread]
          by_cases hempty : source.data = []
          · simp only [hempty, List.take_nil, List.isEmpty_nil, if_true]
            exact ⟨[], by simp, by simp, by simp, by simp⟩
          · have hpos := List.length_pos_iff.mpr hempty
            have hn0 : n ≠ 0 := by
              rw [← hn, Ne, shortRead_eq_zero_iff]
              have : 0 < readBufSize := by decide
              omega
            have hsome : (source.data.take n).isEmpty = false := by
              rw [List.isEmpty_eq_false_iff, Ne, List.take_eq_nil_iff, not_or]
              exact ⟨hn0, hempty⟩
            simp only [hsome, Bool.false_eq_true, if_false]
            obtain ⟨taken, htaken, hfront, hall, hgood⟩ :=
              ih { source with data := source.data.drop n, tick := source.tick + 1 }
                (copied ++ source.data.take n) (by simp only [List.length_drop]; omega)
            refine ⟨source.data.take n ++ taken, ?_, ?_, ?_, fun hnone => hgood hnone⟩
            · rw [htaken, List.append_assoc]
            · obtain ⟨left, hleft⟩ := hfront
              refine ⟨left, ?_⟩
              rw [List.append_assoc, hleft, List.take_append_drop]
            · intro hok
              rw [hall hok, List.take_append_drop]

theorem ioCopy_spec (source : Input) :
    (ioCopy source).2 <+: source.data ∧
      ((ioCopy source).1 = .ok () → (ioCopy source).2 = source.data) ∧
      ((∀ tick, source.schedule tick ≠ none) → (ioCopy source).1 = .ok ()) := by
  obtain ⟨taken, htaken, hfront, hall, hgood⟩ :=
    ioCopyFuel_spec (Read.budget source + 1) source [] (Nat.lt_succ_self _)
  rw [List.nil_append] at htaken
  rw [ioCopy, htaken]
  exact ⟨hfront, hall, hgood⟩

end SeekZstdSep
