/-
Module: SeekZstdSep.Proofs.Open
Purpose: What the readers of a uniform file serve: the reader of a whole file its frames, one
  opened at a frame the frames from there on, grouped as its own table groups them, and a
  verifying one the same as the reader it was made of.
Trusted boundary: none
Main exports: Opened, opened_of_fromReader, fromReader_isOk, Opened.serves, groupsFrom,
  OpenedAt, openedAt_of_openFromFrame, OpenedAt.serves, OpenedAt.verifying_serves
-/
import SeekZstdSep.Lib.Pieces
import SeekZstdSep.Proofs.Iterate

namespace SeekZstdSep

open Lib

variable {boundary : Boundary} {n : Nat}

/-! ### Counting a region of a decoder -/

/-- A window nobody has read through stands at the front of what its source hands out. -/
theorem Window.fresh_at (find : Finder UInt8) (source : Take) :
    Window.At find source.ahead 0 0 { source := source } where
  index_le := Nat.zero_le _
  walked := rfl
  after := by simp [Window.remainder]
  eof := by simp
  pos_le := Nat.le_refl _
  buf_le := Nat.zero_le _
  cap_pos := by
    show 0 < readFrameBufSize
    decide
  onBoundary := rfl
  front := by
    intro k hk
    obtain rfl : k = 0 := by simpa using hk.symm
    simp
  loaded := by simp
  sorted := List.Pairwise.nil
  pending := by simp
  cut := by simp

/-- A frame is counted by the records it holds. -/
theorem countRecordsInFrame_spec (find : Finder UInt8) (decoder : Decoder) (start len : Nat) :
    ∃ decoder', countRecordsInFrame find decoder start len =
        (.ok (find.records ((decoder.stream.drop start).take len)).length, decoder') ∧
      decoder'.stream = decoder.stream := by
  rw [countRecordsInFrame]
  by_cases hlen : len = 0
  · rw [if_pos hlen, hlen, List.take_zero, find.records_nil]
    exact ⟨decoder, rfl, rfl⟩
  · rw [if_neg hlen]
    have hat := Window.fresh_at find { inner := decoder.seek start, limit := len }
    obtain ⟨w', hcount, -, -⟩ := Records.countRecords_spec hat
    have hsame := Records.countRecords_sameFile find {}
      ({ source := { inner := decoder.seek start, limit := len } } : Window)
    rw [hcount] at hsame
    simp only [hcount]
    exact ⟨_, rfl, hsame.stream⟩

/-! ### The reader of a whole file -/

/-- Where the frames but the last end. -/
def endsOf (frames : List Bytes) : List Nat :=
  (List.range (frames.length - 1)).map fun i => startOf frames (i + 1)

theorem endsOf_getD {frames : List Bytes} {i : Nat} (hi : i < frames.length - 1) :
    (endsOf frames).getD i 0 = startOf frames (i + 1) := by
  rw [endsOf, List.getD_eq_getElem?_getD, List.getElem?_map, List.getElem?_range hi]
  rfl

@[simp] theorem endsOf_length (frames : List Bytes) :
    (endsOf frames).length = frames.length - 1 := by
  simp [endsOf]

theorem endsOf_sorted (frames : List Bytes) : (endsOf frames).Pairwise (· ≤ ·) := by
  rw [endsOf, List.pairwise_map]
  exact List.Pairwise.imp (fun hlt => startOf_mono frames (by omega)) List.pairwise_lt_range

/-- The frame ends a reader guards are those of its spans. -/
theorem frameEnds_spansOf (frames : List Bytes) :
    ((spansOf frames).take ((spansOf frames).length - 1)).map (fun span => span.1 + span.2) =
      endsOf frames := by
  rw [spansOf_length, spansOf, ← List.map_take, List.take_range, Nat.min_eq_left (Nat.sub_le _ _),
    List.map_map, endsOf]
  apply List.map_congr_left
  intro i hi
  rw [List.mem_range] at hi
  have hi' : i < frames.length := by omega
  rw [startOf_succ hi']
  simp [hi']

/-- The reader is one of the whole file that has not read yet. -/
structure Opened (file : SeekableFile) (label : String) (boundary : Boundary)
    (r : RecordReader) : Prop where
  ne_nil : file.contents ≠ []
  label_eq : r.label = label
  boundary_eq : r.boundary = boundary
  frames_eq : r.frames = spansOf file.contents
  sepCnt_eq : r.sepCnt = (boundary.find.records (file.contents.headD [])).length
  sepCnt_pos : 0 < r.sepCnt
  stream : r.lookup.window.source.inner.stream = file.contents.flatten
  cap_pos : 0 < r.lookup.window.cap
  frameEnds : r.lookup.window.frameEnds = endsOf file.contents
  frameEndBase : r.lookup.window.frameEndBase = 0
  frame : r.lookup.frame = none
  judge : r.judge = none
  originalFrameCount : r.originalFrameCount = none
  originalRecordsPerFrame : r.originalRecordsPerFrame = none

namespace RecordReader

theorem seekTableDecompFrames_decoder (file : SeekableFile) :
    seekTableDecompFrames file.decoder.seekTable =
      if file.contents = [] then none else some (spansOf file.contents) := by
  have hspans := spansFrom_eq 0 file.decoder.seekTable file.contents
    (by simp [SeekableFile.decoder, SeekableFile.contents])
  have hshift : (fun span : Nat × Nat => (0 + span.1, span.2)) = id := by
    funext span
    simp
  rw [hshift, List.map_id] at hspans
  rw [seekTableDecompFrames, hspans]
  have hempty : file.decoder.seekTable.isEmpty = true ↔ file.contents = [] := by
    simp [SeekableFile.decoder, SeekableFile.contents]
  by_cases hnil : file.contents = []
  · rw [if_pos hnil, if_pos (hempty.mpr hnil)]
  · rw [if_neg hnil, if_neg fun htrue => hnil (hempty.mp htrue)]

/-- Opening a file whose first frame holds a record. -/
theorem fromReader_spec (file : SeekableFile) (label : String) (boundary : Boundary) :
    (file.contents ≠ [] ∧ boundary.find.records (file.contents.headD []) ≠ [] ∧
        ∃ r, fromReader file label boundary = .ok r ∧ Opened file label boundary r) ∨
      ((file.contents = [] ∨ boundary.find.records (file.contents.headD []) = []) ∧
        ∃ e, fromReader file label boundary = .error e) := by
  unfold fromReader
  simp only [seekTableDecompFrames_decoder]
  by_cases hnil : file.contents = []
  · rw [if_pos hnil]
    exact Or.inr ⟨Or.inl hnil, _, rfl⟩
  · rw [if_neg hnil]
    have hpos := List.length_pos_iff.mpr hnil
    have hhead : file.contents.headD [] = file.contents[0] := by
      rw [List.headD_eq_head?_getD, List.head?_eq_getElem?, List.getElem?_eq_getElem hpos]
      rfl
    have hregion : (file.contents.flatten.drop 0).take file.contents[0].length =
        file.contents[0] := by
      have heq := regionOf_eq file.contents 0 1
      rwa [regionOf_one hpos, startOf_zero] at heq
    simp only [spansOf_at hpos, startOf_zero, Lookup.loadDecoder]
    obtain ⟨decoder', hcount, hstream⟩ := countRecordsInFrame_spec boundary.find file.decoder 0
      file.contents[0].length
    have hdecoder : file.decoder.stream = file.contents.flatten := rfl
    rw [hdecoder] at hcount hstream
    rw [hregion] at hcount
    have hwindow : (Window.withFrameEnds { source := { inner := file.decoder, limit := 0 } }
        (spansOf file.contents)).source.inner = file.decoder := rfl
    rw [hwindow, hcount]
    simp only
    by_cases hzero : (boundary.find.records file.contents[0]).length = 0
    · rw [if_pos hzero]
      refine Or.inr ⟨Or.inr (by rw [hhead]; exact List.length_eq_zero_iff.mp hzero), ?_⟩
      split <;> exact ⟨_, rfl⟩
    · rw [if_neg hzero]
      refine Or.inl ⟨hnil, ?_, _, rfl, ?_⟩
      · rw [hhead]
        exact fun h => hzero (List.length_eq_zero_iff.mpr h)
      · exact
          { ne_nil := hnil
            label_eq := rfl
            boundary_eq := rfl
            frames_eq := rfl
            sepCnt_eq := by rw [hhead]
            sepCnt_pos := Nat.pos_of_ne_zero hzero
            stream := hstream
            cap_pos := by show 0 < readFrameBufSize; decide
            frameEnds := frameEnds_spansOf file.contents
            frameEndBase := rfl
            frame := rfl
            judge := rfl
            originalFrameCount := rfl
            originalRecordsPerFrame := rfl }

theorem opened_of_fromReader {file : SeekableFile} {label : String} {r : RecordReader}
    (h : fromReader file label boundary = .ok r) : Opened file label boundary r := by
  rcases fromReader_spec file label boundary with ⟨-, -, r', hr, hopened⟩ | ⟨-, e, hr⟩
  · rw [h] at hr
    exact Except.ok.inj hr ▸ hopened
  · rw [h] at hr
    simp at hr

/-- A uniform file opens where its first frame holds a whole record. -/
theorem fromReader_isOk (file : SeekableFile) (label : String) (boundary : Boundary)
    (hne : file.contents ≠ [])
    (hpos : 0 < (boundary.find.records (file.contents.headD [])).length) :
    ∃ r, fromReader file label boundary = .ok r ∧ Opened file label boundary r := by
  rcases fromReader_spec file label boundary with ⟨-, -, hr⟩ | ⟨hnil | hnone, -⟩
  · exact hr
  · exact absurd hnil hne
  · rw [hnone] at hpos
    simp at hpos

end RecordReader

namespace Opened

variable {file : SeekableFile} {label : String} {r : RecordReader}

theorem uniform (h : Opened file label boundary r)
    (huniform : Uniform boundary.find boundary.tailIsRecord n file.contents) :
    Uniform boundary.find boundary.tailIsRecord r.sepCnt file.contents ∧ r.sepCnt ≤ n ∧
      (1 < file.contents.length → r.sepCnt = n) := by
  rw [h.sepCnt_eq]
  exact huniform.of_headD (h.sepCnt_eq ▸ h.sepCnt_pos)

theorem small (h : Opened file label boundary r)
    (huniform : Uniform boundary.find boundary.tailIsRecord n file.contents)
    (hsmall : n * file.contents.length * file.contents.length ≤ usizeMax) :
    r.sepCnt * file.contents.length * file.contents.length ≤ usizeMax := by
  have hle := (h.uniform huniform).2.1
  exact Nat.le_trans (Nat.mul_le_mul_right _ (Nat.mul_le_mul_right _ hle)) hsmall

/-- Where the records of the first frames end, records end. -/
theorem rest_take_endsOf {frames : List Bytes} {tail : Bool} {find : Finder UInt8}
    (h : Uniform find tail n frames) {e : Nat} (he : e ∈ endsOf frames) :
    find.rest (frames.flatten.take e) = [] := by
  rw [endsOf] at he
  obtain ⟨i, hi, rfl⟩ := List.mem_map.mp he
  rw [List.mem_range] at hi
  have hrest := (h.records_take (k := i + 1) (by omega)).2
  have hsplit := Uniform.flatten_take_append_drop frames (i + 1)
  rw [← hsplit, startOf, List.take_left' rfl]
  exact hrest

/-- The reader serves the frames of its file. -/
theorem serves (h : Opened file label boundary r)
    (huniform : Uniform boundary.find boundary.tailIsRecord n file.contents) :
    r.Serves file.contents := by
  have hown := (h.uniform huniform).1
  unfold RecordReader.Serves
  rw [h.boundary_eq]
  exact
    { spans_eq := h.frames_eq
      uniform := hown
      stream := h.stream
      cap_pos := h.cap_pos
      sorted := by
        rw [h.frameEnds]
        exact endsOf_sorted _
      cut := by
        intro e he _ _
        rw [h.frameEnds] at he
        rw [h.frameEndBase, Nat.sub_zero]
        exact rest_take_endsOf hown he
      quiet := Or.inl h.judge }

end Opened

/-! ### Frames in groups -/

/-- The groups of `size` frames each, from frame `start` on. The fuel is the number of frames. -/
def groupsFrom (frames : List Bytes) (size : Nat) : Nat → Nat → List Bytes
  | 0, _ => []
  | fuel + 1, start =>
      if start < frames.length then
        regionOf frames start size :: groupsFrom frames size fuel (start + size)
      else []

theorem regionOf_append (frames : List Bytes) (k i j : Nat) :
    regionOf frames k (i + j) = regionOf frames k i ++ regionOf frames (k + i) j := by
  rw [regionOf, regionOf, regionOf, List.take_add, List.flatten_append, List.drop_drop]

theorem regionOf_past {frames : List Bytes} {k : Nat} (hk : frames.length ≤ k) (j : Nat) :
    regionOf frames k j = [] := by
  rw [regionOf, List.drop_eq_nil_of_le hk]
  simp

variable {frames : List Bytes} {size : Nat}

/-- The first groups hold what their frames do. -/
theorem flatten_take_groupsFrom (hsize : 0 < size) :
    ∀ fuel start j, frames.length ≤ start + fuel →
      ((groupsFrom frames size fuel start).take j).flatten = regionOf frames start (size * j) := by
  intro fuel
  induction fuel with
  | zero =>
      intro start j hfuel
      rw [groupsFrom, List.take_nil, regionOf_past (by omega)]
      rfl
  | succ fuel ih =>
      intro start j hfuel
      rw [groupsFrom]
      by_cases hstart : start < frames.length
      · rw [if_pos hstart]
        cases j with
        | zero => simp [regionOf]
        | succ j =>
            rw [List.take_succ_cons, List.flatten_cons, ih (start + size) j (by omega),
              Nat.mul_succ, Nat.add_comm (size * j), regionOf_append]
      · rw [if_neg hstart, List.take_nil, regionOf_past (by omega)]
        rfl

theorem length_groupsFrom (frames : List Bytes) (hsize : 0 < size) :
    ∀ fuel start, frames.length ≤ start + fuel →
      (start < frames.length → start + ((groupsFrom frames size fuel start).length - 1) * size <
        frames.length ∧ 0 < (groupsFrom frames size fuel start).length) ∧
      frames.length ≤ start + (groupsFrom frames size fuel start).length * size := by
  intro fuel
  induction fuel with
  | zero =>
      intro start hfuel
      exact ⟨fun hlt => by omega, by omega⟩
  | succ fuel ih =>
      intro start hfuel
      rw [groupsFrom]
      by_cases hstart : start < frames.length
      · rw [if_pos hstart, List.length_cons, Nat.add_sub_cancel, Nat.succ_mul]
        obtain ⟨hmore, hend⟩ := ih (start + size) (by omega)
        refine ⟨fun _ => ⟨?_, by omega⟩, by omega⟩
        by_cases hnext : start + size < frames.length
        · obtain ⟨hlt, hpos⟩ := hmore hnext
          have hsplit : (groupsFrom frames size fuel (start + size)).length * size =
              ((groupsFrom frames size fuel (start + size)).length - 1) * size + size := by
            rw [← Nat.succ_mul]
            congr 1
            omega
          omega
        · have hnone : groupsFrom frames size fuel (start + size) = [] := by
            cases fuel with
            | zero => rfl
            | succ fuel => rw [groupsFrom, if_neg hnext]
          rw [hnone]
          simpa using hstart
      · rw [if_neg hstart]
        exact ⟨fun hlt => absurd hlt hstart, by simp; omega⟩

/-- Groups of uniform frames are uniform. -/
theorem uniform_groupsFrom {find : Finder UInt8} {tail : Bool} (h : Uniform find tail n frames)
    (hsize : 0 < size) :
    ∀ fuel start, frames.length ≤ start + fuel → start < frames.length →
      Uniform find tail (n * size) (groupsFrom frames size fuel start) := by
  intro fuel
  induction fuel with
  | zero =>
      intro start hfuel hstart
      omega
  | succ fuel ih =>
      intro start hfuel hstart
      have hdrop := h.drop hstart
      rw [groupsFrom, if_pos hstart]
      by_cases hnext : start + size < frames.length
      · have hfull : find.Full (n * size) (regionOf frames start size) :=
          hdrop.records_take (k := size) (by rw [List.length_drop]; omega)
        exact (ih (start + size) (by omega) hnext).cons hfull
      · have hnone : groupsFrom frames size fuel (start + size) = [] := by
          cases fuel with
          | zero => rfl
          | succ fuel => rw [groupsFrom, if_neg hnext]
        have hregion : regionOf frames start size = (frames.drop start).flatten := by
          rw [regionOf, List.take_of_length_le (by rw [List.length_drop]; omega)]
        rw [hnone, hregion]
        refine (uniform_concat_iff [] _).mpr ⟨Nat.mul_pos h.pos hsize, by simp, ?_⟩
        exact hdrop.last_flatten (by rw [List.length_drop]; omega)

section Groups

variable {fuel start : Nat}

theorem flatten_groupsFrom (hsize : 0 < size) (hfuel : frames.length ≤ start + fuel) :
    (groupsFrom frames size fuel start).flatten = (frames.drop start).flatten := by
  have htake := flatten_take_groupsFrom hsize fuel start
    (groupsFrom frames size fuel start).length hfuel
  have hend := (length_groupsFrom frames hsize fuel start hfuel).2
  rw [List.take_length] at htake
  rw [htake, regionOf, List.take_of_length_le]
  rw [List.length_drop, Nat.mul_comm]
  omega

theorem startOf_groupsFrom (frames : List Bytes) (start fuel : Nat) (hsize : 0 < size)
    (hfuel : frames.length ≤ start + fuel) (k : Nat) :
    startOf frames start + startOf (groupsFrom frames size fuel start) k =
      startOf frames (start + size * k) := by
  rw [startOf_add, ← flatten_take_groupsFrom hsize fuel start k hfuel]
  rfl

theorem regionOf_groupsFrom (frames : List Bytes) (start fuel : Nat) (hsize : 0 < size)
    (hfuel : frames.length ≤ start + fuel) (k j : Nat) :
    regionOf (groupsFrom frames size fuel start) k j =
      regionOf frames (start + size * k) (size * j) := by
  have hjoin := flatten_take_groupsFrom hsize fuel start (k + j) hfuel
  rw [List.take_add, List.flatten_append, flatten_take_groupsFrom hsize fuel start k hfuel,
    Nat.mul_add, regionOf_append] at hjoin
  exact List.append_cancel_left hjoin

end Groups

namespace RecordReader

/-- A logical frame is placed by the frames in front of it, and as long as the ones it covers. -/
theorem logicalFrames_spec {opened : RecordReader} {contents : List Bytes}
    (hframes : opened.frames = spansOf contents) {startFrame : Nat} (hsize : 0 < size) :
    ∀ fuel start, contents.length ≤ start + fuel → startFrame ≤ start →
      start ≤ contents.length →
      (opened.logicalFrames startFrame size fuel start).map Prod.snd =
        spansFrom (startOf contents start - startOf contents startFrame)
          ((opened.logicalFrames startFrame size fuel start).map Prod.fst) ∧
      ((opened.logicalFrames startFrame size fuel start).map Prod.fst).map Prod.snd =
        (groupsFrom contents size fuel start).map List.length := by
  intro fuel
  induction fuel with
  | zero => exact fun start _ _ _ => ⟨rfl, rfl⟩
  | succ fuel ih =>
      intro start hfuel hle hlen
      rw [logicalFrames, groupsFrom, hframes, spansOf_length]
      by_cases hstart : start < contents.length
      · rw [if_pos hstart, if_pos hstart]
        simp only
        generalize hstop : min (start + size) contents.length = stop
        have hends : ∀ k, k < contents.length → ((spansOf contents).at k).1 = startOf contents k :=
          fun k hk => by rw [spansOf_at hk]
        have hlogical : opened.logicalFrame startFrame start stop =
            ((opened.logicalFrame startFrame start stop).1,
              (startOf contents start - startOf contents startFrame,
                startOf contents stop - startOf contents start)) ∧
            (opened.logicalFrame startFrame start stop).1.2 =
              startOf contents stop - startOf contents start := by
          have hend : (if stop = opened.frames.length then
              opened.frames.last.1 + opened.frames.last.2 else (opened.frames.at stop).1) =
              startOf contents stop := by
            rw [hframes, spansOf_length]
            split
            · next heq => rw [spansOf_last_end (by
                intro hnil
                simp [hnil] at hstart), heq, startOf_length]
            · exact hends stop (by omega)
          unfold logicalFrame
          simp only [hend]
          rw [hframes, hends start hstart, hends startFrame (by omega)]
          exact ⟨rfl, rfl⟩
        obtain ⟨hspan, hlen'⟩ := hlogical
        obtain ⟨hspans, hlens⟩ := ih stop (by omega) (by omega) (by omega)
        have hmono := startOf_mono contents (k := start) (j := stop) (by omega)
        have hbase := startOf_mono contents hle
        have hregion : (regionOf contents start size).length =
            startOf contents stop - startOf contents start := by
          have hadd := startOf_add contents start size
          by_cases hin : start + size ≤ contents.length
          · rw [show start + size = stop by omega] at hadd
            omega
          · have hall : startOf contents (start + size) = startOf contents stop := by
              rw [startOf, startOf, List.take_of_length_le (by omega),
                List.take_of_length_le (by omega)]
            omega
        have hgroups : groupsFrom contents size fuel stop =
            groupsFrom contents size fuel (start + size) := by
          by_cases hin : start + size ≤ contents.length
          · rw [← hstop, Nat.min_eq_left hin]
          · cases fuel with
            | zero => rfl
            | succ fuel =>
                rw [groupsFrom, groupsFrom, if_neg (by omega), if_neg (by omega)]
        have hnext : startOf contents start - startOf contents startFrame +
            (startOf contents stop - startOf contents start) =
            startOf contents stop - startOf contents startFrame := by omega
        rw [List.map_cons, List.map_cons, List.map_cons, List.map_cons, hlens, hspans, hspan,
          hgroups, hregion, ← hlen']
        refine ⟨?_, rfl⟩
        generalize (opened.logicalFrame startFrame start stop).1 = entry at hlen' ⊢
        obtain ⟨comp, len⟩ := entry
        simp only at hlen'
        rw [spansFrom, hlen', hnext]
      · rw [if_neg hstart, if_neg hstart]
        exact ⟨rfl, rfl⟩

end RecordReader

/-- The reader is one of a file from frame `startFrame` on that has not read yet; `size` frames are
one to its table. -/
structure OpenedAt (file : SeekableFile) (label : String) (boundary : Boundary) (perFrame : Nat)
    (startFrame size : Nat) (r : RecordReader) : Prop where
  inside : startFrame < file.contents.length
  size_pos : 0 < size
  label_eq : r.label = label
  boundary_eq : r.boundary = boundary
  frames_eq : r.frames = spansOf
    (groupsFrom file.contents size (file.contents.length - startFrame) startFrame)
  sepCnt_eq : r.sepCnt = perFrame * size
  sepCnt_le : r.sepCnt ≤ usizeMax
  stream : r.lookup.window.source.inner.stream = (file.contents.drop startFrame).flatten
  cap_pos : 0 < r.lookup.window.cap
  frameEnds : r.lookup.window.frameEnds = endsOf file.contents
  frameEndBase : r.lookup.window.frameEndBase = startOf file.contents startFrame
  frame : r.lookup.frame = none
  judge : r.judge = none
  originalFrameCount : r.originalFrameCount = some (file.contents.length - startFrame)
  originalRecordsPerFrame : r.originalRecordsPerFrame = some perFrame

namespace RecordReader

theorem groupSize_pos {opened : RecordReader} {startFrame : Nat}
    (h : startFrame < opened.frames.length) : 0 < opened.groupSize startFrame := by
  unfold groupSize
  simp only
  split
  · omega
  · omega

/-- A reader opened at a frame of the file another one reads. -/
theorem openedAt_of_openFromFrame {file : SeekableFile} {label : String} {opened r : RecordReader}
    {startFrame : Nat} (hopened : Opened file label boundary opened)
    (hshared : opened.shared = some file) (h : opened.openFromFrame startFrame = .ok r) :
    OpenedAt file label boundary opened.sepCnt startFrame (opened.groupSize startFrame) r := by
  have hlength : opened.frames.length = file.contents.length := by
    rw [hopened.frames_eq, spansOf_length]
  unfold openFromFrame at h
  rw [hshared] at h
  simp only [hlength] at h
  split at h
  · simp at h
  · next hstart =>
      have hstart : startFrame < file.contents.length := Nat.lt_of_not_le hstart
      have hsize := groupSize_pos (by rw [hlength]; exact hstart)
      obtain ⟨hspans, hlens⟩ := logicalFrames_spec hopened.frames_eq hsize
        (file.contents.length - startFrame) startFrame (by omega) (Nat.le_refl _)
        (Nat.le_of_lt hstart)
      rw [Nat.sub_self, spansFrom_eq 0 _ _ hlens] at hspans
      split at h
      · simp at h
      · split at h
        · simp at h
        · next hcount =>
            rw [← Except.ok.inj h]
            have hshift : (fun span : Nat × Nat => (0 + span.1, span.2)) = id := by
              funext span
              simp
            rw [hshift, List.map_id] at hspans
            exact
              { inside := hstart
                size_pos := hsize
                label_eq := hopened.label_eq
                boundary_eq := hopened.boundary_eq
                frames_eq := hspans
                sepCnt_eq := rfl
                sepCnt_le := Nat.le_of_not_lt hcount
                stream := rfl
                cap_pos := by
                  show 0 < readFrameBufSize
                  decide
                frameEnds := hopened.frameEnds
                frameEndBase := by
                  show (opened.frames.at startFrame).1 = _
                  rw [hopened.frames_eq, spansOf_at hstart]
                frame := rfl
                judge := rfl
                originalFrameCount := rfl
                originalRecordsPerFrame := by
                  show some opened.recordsPerFrame = _
                  rw [recordsPerFrame, hopened.originalRecordsPerFrame]
                  rfl }

end RecordReader

namespace OpenedAt

variable {file : SeekableFile} {label : String} {perFrame startFrame : Nat} {r : RecordReader}

/-- The frames of the table of a reader opened at a frame. -/
def groups (file : SeekableFile) (startFrame size : Nat) : List Bytes :=
  groupsFrom file.contents size (file.contents.length - startFrame) startFrame

theorem flatten_groups (h : OpenedAt file label boundary perFrame startFrame size r) :
    (groups file startFrame size).flatten = (file.contents.drop startFrame).flatten :=
  flatten_groupsFrom h.size_pos (by omega)

theorem uniform (h : OpenedAt file label boundary perFrame startFrame size r)
    (huniform : Uniform boundary.find boundary.tailIsRecord perFrame file.contents) :
    Uniform boundary.find boundary.tailIsRecord r.sepCnt (groups file startFrame size) := by
  rw [h.sepCnt_eq]
  exact uniform_groupsFrom huniform h.size_pos _ _ (by omega) h.inside

/-- The reader serves the groups. -/
theorem serves (h : OpenedAt file label boundary perFrame startFrame size r)
    (huniform : Uniform boundary.find boundary.tailIsRecord perFrame file.contents) :
    r.Serves (groups file startFrame size) := by
  have hown := h.uniform huniform
  unfold RecordReader.Serves
  rw [h.boundary_eq]
  exact
    { spans_eq := h.frames_eq
      uniform := hown
      stream := by rw [h.stream, h.flatten_groups]
      cap_pos := h.cap_pos
      sorted := by
        rw [h.frameEnds]
        exact endsOf_sorted _
      cut := by
        intro e he hlt _
        rw [h.frameEndBase] at hlt ⊢
        rw [h.frameEnds, endsOf] at he
        obtain ⟨i, hi, rfl⟩ := List.mem_map.mp he
        rw [List.mem_range] at hi
        rw [h.flatten_groups]
        have hi' : startFrame < i + 1 := by
          by_contra hge
          have := startOf_mono file.contents (k := i + 1) (j := startFrame) (by omega)
          omega
        have hregion := regionOf_eq file.contents startFrame (i + 1 - startFrame)
        have hadd := startOf_add file.contents startFrame (i + 1 - startFrame)
        rw [show startFrame + (i + 1 - startFrame) = i + 1 by omega] at hadd
        have hdrop : (file.contents.drop startFrame).flatten =
            file.contents.flatten.drop (startOf file.contents startFrame) := by
          rw [← Uniform.flatten_take_append_drop file.contents startFrame, startOf,
            List.drop_left' rfl]
        rw [hdrop, show startOf file.contents (i + 1) - startOf file.contents startFrame =
          (regionOf file.contents startFrame (i + 1 - startFrame)).length by omega, hregion]
        exact huniform.rest_region (by omega)
      quiet := Or.inl h.judge }

/-- Where the arithmetic of the whole file does not saturate, that of the groups does not. -/
theorem small (h : OpenedAt file label boundary perFrame startFrame size r)
    (hsmall : perFrame * file.contents.length * file.contents.length ≤ usizeMax) :
    r.sepCnt * (groups file startFrame size).length * (groups file startFrame size).length ≤
      usizeMax := by
  obtain ⟨hmore, -⟩ := length_groupsFrom file.contents h.size_pos
    (file.contents.length - startFrame) startFrame (by omega)
  obtain ⟨hlt, hpos⟩ := hmore h.inside
  rw [groups]
  generalize (groupsFrom file.contents size (file.contents.length - startFrame) startFrame).length =
    m at hlt hpos ⊢
  obtain ⟨a, rfl⟩ : ∃ a, m = a + 1 := ⟨m - 1, by omega⟩
  rw [Nat.add_sub_cancel] at hlt
  cases a with
  | zero =>
      rw [Nat.zero_add, Nat.mul_one, Nat.mul_one]
      exact h.sepCnt_le
  | succ a =>
      have hsize := h.size_pos
      obtain ⟨b, rfl⟩ : ∃ b, size = b + 1 := ⟨size - 1, by omega⟩
      have hframes : (a + 1) * (b + 1) + 1 ≤ file.contents.length := by omega
      have hgroups : (b + 1) * (a + 1 + 1) * (a + 1 + 1) ≤
          ((a + 1) * (b + 1) + 1) * ((a + 1) * (b + 1) + 1) := by
        have hsquare : ((a + 1) * (b + 1) + 1) * ((a + 1) * (b + 1) + 1) =
            (b + 1) * (a + 1 + 1) * (a + 1 + 1) + b * ((a * a + 2 * a) * (b + 1) + b) := by ring
        omega
      calc r.sepCnt * (a + 1 + 1) * (a + 1 + 1)
          = perFrame * ((b + 1) * (a + 1 + 1) * (a + 1 + 1)) := by rw [h.sepCnt_eq]; ring
        _ ≤ perFrame * (((a + 1) * (b + 1) + 1) * ((a + 1) * (b + 1) + 1)) :=
            Nat.mul_le_mul_left _ hgroups
        _ ≤ perFrame * (file.contents.length * file.contents.length) :=
            Nat.mul_le_mul_left _ (Nat.mul_le_mul hframes hframes)
        _ = perFrame * file.contents.length * file.contents.length := by ring
        _ ≤ usizeMax := hsmall

/-- The reader holds the records of the file from its first frame on. -/
theorem items_groups (h : OpenedAt file label boundary perFrame startFrame size r)
    (huniform : Uniform boundary.find boundary.tailIsRecord perFrame file.contents) :
    itemsOf boundary (groups file startFrame size) =
      (itemsOf boundary file.contents).drop (perFrame * startFrame) := by
  rw [itemsOf, itemsOf, h.flatten_groups, ← huniform.after_flatten h.inside,
    boundary.find.items_after]
  have hmono := boundary.find.length_records_le_append (file.contents.take startFrame).flatten
    (file.contents.drop startFrame).flatten
  rwa [Uniform.flatten_take_append_drop, (huniform.records_take h.inside).1] at hmono

end OpenedAt

/-! ### Verifying readers -/

/-- A judge of whole frames has nothing to refuse in uniform ones. -/
theorem watchSpan_quiet {judge : FrameJudge}
    (h : Uniform boundary.find boundary.tailIsRecord n frames)
    (hlast : judge.last = frames.length - 1) (hper : judge.perFrame = n) {k j fromIdx : Nat}
    (hkj : k + j ≤ frames.length)
    (hplace : fromIdx / n = k ∨ (k + 1 = frames.length ∧ fromIdx = n * frames.length)) :
    ∃ post, (Watcher.watched (watchSpan judge (spansOf frames) n fromIdx (startOf frames k)
        (regionOf frames k j).length)).At boundary.find (regionOf frames k j) post 0 ∧
      ¬ Blames boundary.find (regionOf frames k j) post := by
  have hn := h.pos
  rw [watchSpan, if_neg (by omega), spansOf_length]
  simp only
  by_cases hpast : fromIdx / n ≥ frames.length
  · rw [if_pos hpast]
    exact ⟨none, Or.inl ⟨rfl, rfl⟩, not_blames_none⟩
  · rw [if_neg hpast]
    have hk : fromIdx / n = k := by
      rcases hplace with hk | ⟨-, heq⟩
      · exact hk
      · rw [heq, Nat.mul_div_cancel_left _ hn] at hpast
        omega
    rw [hk, frameEndsFrom_eq judge (fun g hg => h.ne_nil_of_mem hg) hkj]
    exact ⟨_, watchFrames_at (h.fits judge hkj) rfl, h.not_blames hlast hper hkj⟩

namespace Opened

variable {file : SeekableFile} {label : String} {r : RecordReader}

/-- Verifying, the reader serves the same frames. -/
theorem verifying_serves (h : Opened file label boundary r)
    (huniform : Uniform boundary.find boundary.tailIsRecord n file.contents)
    (hsmall : n * file.contents.length * file.contents.length ≤ usizeMax) :
    r.verifying.Serves file.contents := by
  have hown := (h.uniform huniform).1
  have hlength : r.frames.length = file.contents.length := by rw [h.frames_eq, spansOf_length]
  unfold RecordReader.Serves RecordReader.verifying
  simp only [h.originalFrameCount, Option.map_none, Option.isNone_none, if_true, Option.getD_none,
    RecordReader.recordsPerFrame, h.originalRecordsPerFrame, h.boundary_eq]
  exact
    { spans_eq := h.frames_eq
      uniform := hown
      stream := h.stream
      cap_pos := h.cap_pos
      sorted := List.Pairwise.nil
      cut := by simp [Window.withoutFrameEnds, Window.useFrameEnds]
      quiet := by
        refine Or.inr ⟨h.small huniform hsmall, ?_⟩
        intro k j fromIdx _ hkj hplace
        rw [h.frames_eq, spansOf_length]
        exact watchSpan_quiet hown rfl rfl hkj hplace }

end Opened

/-- No file is longer than its positions can say. -/
theorem SeekableFile.length_le (file : SeekableFile) :
    file.contents.flatten.length ≤ usizeMax := by
  have hsum : file.contents.flatten.length ≤ file.contents.length * u32Max := by
    apply length_flatten_le
    intro content hcontent
    obtain ⟨frame, -, rfl⟩ := List.mem_map.mp hcontent
    exact frame.content_le
  have hcount : file.contents.length ≤ u32Max := by
    rw [SeekableFile.contents, List.length_map]
    exact file.count_le
  have hwide : u32Max * u32Max ≤ usizeMax := by decide
  exact Nat.le_trans hsum (Nat.le_trans (Nat.mul_le_mul_right _ hcount) hwide)

/-- The frame ends past frame `k`, the end of the file among them. -/
theorem endsOf_drop (frames : List Bytes) {k : Nat} (hk : k < frames.length) :
    (endsOf frames).drop k ++ [frames.flatten.length] =
      (List.range (frames.length - k)).map fun i => startOf frames (k + i + 1) := by
  obtain ⟨c, hc⟩ : ∃ c, frames.length - k = c + 1 := ⟨frames.length - k - 1, by omega⟩
  have hlast : startOf frames (k + c + 1) = frames.flatten.length := by
    rw [show k + c + 1 = frames.length by omega, startOf_length]
  rw [hc, List.range_succ, List.map_append, List.map_singleton, hlast]
  congr 1
  apply List.ext_getElem?
  intro i
  rw [List.getElem?_drop, endsOf, List.getElem?_map, List.getElem?_map]
  by_cases hi : i < c
  · rw [List.getElem?_range hi, List.getElem?_range (by omega)]
    simp [Nat.add_assoc]
  · rw [List.getElem?_eq_none (by simp; omega), List.getElem?_eq_none (by simp; omega)]
    rfl

theorem length_takeWhile_endsOf (ne : ∀ g ∈ frames, g ≠ []) {k : Nat} (hk : k < frames.length) :
    ((endsOf frames).takeWhile fun e => decide (e ≤ startOf frames k)).length = k := by
  rw [endsOf, takeWhile_map_range (q := k) (by omega)]
  · simp
  · intro i hi
    simpa using startOf_mono frames (k := i + 1) (j := k) (by omega)
  · intro hlt
    have hstrict := startOf_lt ne (k := k) (j := k + 1) (by omega) (by omega)
    simpa using hstrict

namespace OpenedAt

variable {file : SeekableFile} {label : String} {perFrame startFrame : Nat} {r : RecordReader}

/-- What a verifying reader opened at a frame looks out over: the frames of the file its groups
cover, counted from that frame. -/
theorem watchVerifiedSpan_eq (ne : ∀ g ∈ file.contents, g ≠ []) (hsize : 0 < size)
    (hstart : startFrame < file.contents.length) {judge : FrameJudge}
    (hphysical : judge.physical = some
      { ends := endsOf file.contents, first := startFrame,
        base := startOf file.contents startFrame, finalEnd := file.contents.flatten.length })
    {k j : Nat} (hk : startFrame + size * k < file.contents.length) (spans : Spans)
    (n fromIdx : Nat) :
    watchVerifiedSpan judge spans n fromIdx (startOf (groups file startFrame size) k)
        (regionOf (groups file startFrame size) k j).length =
      watchFrames judge (lookoutOf judge (file.contents.drop startFrame) (size * k)
          (min (size * j) (file.contents.length - (startFrame + size * k)))).first
        (lookoutOf judge (file.contents.drop startFrame) (size * k)
          (min (size * j) (file.contents.length - (startFrame + size * k)))).offsets := by
  have hplace := startOf_groupsFrom file.contents startFrame (file.contents.length - startFrame)
    hsize (by omega) k
  have hregion := regionOf_groupsFrom file.contents startFrame
    (file.contents.length - startFrame) hsize (by omega) k j
  have hend := startOf_add file.contents (startFrame + size * k) (size * j)
  have hle : startOf file.contents (startFrame + size * k + size * j) ≤ usizeMax := by
    have hmono : startOf file.contents (startFrame + size * k + size * j) ≤
        file.contents.flatten.length := by
      rcases Nat.le_total (startFrame + size * k + size * j) file.contents.length with hin | hin
      · rw [← startOf_length]
        exact startOf_mono _ hin
      · rw [startOf, List.take_of_length_le hin]
    exact Nat.le_trans hmono file.length_le
  rw [watchVerifiedSpan, hphysical]
  simp only
  rw [groups, hplace, hregion, length_takeWhile_endsOf ne hk, endsOf_drop _ hk, saturatingAdd,
    Nat.min_eq_left (by omega), ← hend,
    takeWhile_map_range
      (q := min (size * j) (file.contents.length - (startFrame + size * k))) (by omega)]
  · rw [lookoutOf, List.map_map]
    simp only
    congr 1
    · omega
    · apply List.map_congr_left
      intro i hi
      rw [List.mem_range] at hi
      have hshift : ∀ c, startOf (file.contents.drop startFrame) c =
          startOf file.contents (startFrame + c) - startOf file.contents startFrame := by
        intro c
        have hadd := startOf_add file.contents startFrame c
        rw [startOf, ← regionOf]
        omega
      have hbase := startOf_mono file.contents (k := startFrame) (j := startFrame + size * k)
        (by omega)
      have hmono := startOf_mono file.contents (k := startFrame + size * k)
        (j := startFrame + size * k + i + 1) (by omega)
      simp only [Function.comp, hshift, ← Nat.add_assoc]
      omega
  · intro i hi
    simpa using startOf_mono file.contents (k := startFrame + size * k + i + 1)
      (j := startFrame + size * k + size * j) (by omega)
  · intro hlt
    have hstrict := startOf_lt ne (k := startFrame + size * k + size * j)
      (j := startFrame + size * k + size * j + 1) (by omega) (by omega)
    rw [Nat.min_eq_left (by omega)]
    simpa using hstrict

/-- The first frame of the reader, as it is found again from the ends and the count of frames. -/
theorem firstFrame_eq (h : OpenedAt file label boundary perFrame startFrame size r) :
    (endsOf file.contents).length + 1 - (file.contents.length - startFrame) = startFrame := by
  have hinside := h.inside
  rw [endsOf_length]
  omega

/-- Where that frame starts in the file. -/
theorem base_eq (h : OpenedAt file label boundary perFrame startFrame size r) :
    (if startFrame = 0 then 0 else (endsOf file.contents).getD (startFrame - 1) 0) =
      startOf file.contents startFrame := by
  have hinside := h.inside
  by_cases hzero : startFrame = 0
  · rw [if_pos hzero, hzero, startOf_zero]
  · rw [if_neg hzero, endsOf_getD (by omega), Nat.sub_add_cancel (Nat.pos_of_ne_zero hzero)]

/-- Its last frame ends where the file does. -/
theorem finalEnd_eq (h : OpenedAt file label boundary perFrame startFrame size r)
    (huniform : Uniform boundary.find boundary.tailIsRecord perFrame file.contents) :
    startOf file.contents startFrame + r.frames.last.1 + r.frames.last.2 =
      file.contents.flatten.length := by
  have hlast := spansOf_last_end (h.uniform huniform).ne_nil
  rw [h.frames_eq, ← groups, Nat.add_assoc, hlast, h.flatten_groups, startOf,
    ← List.length_append, Uniform.flatten_take_append_drop]

/-- The judge of a verifying reader opened at a frame knows the frames of the file. -/
theorem physical_eq (h : OpenedAt file label boundary perFrame startFrame size r)
    (huniform : Uniform boundary.find boundary.tailIsRecord perFrame file.contents) :
    ∃ judge, r.verifying.judge = some judge ∧
      judge.last = (file.contents.drop startFrame).length - 1 ∧ judge.perFrame = perFrame ∧
      judge.physical = some
        { ends := endsOf file.contents, first := startFrame,
          base := startOf file.contents startFrame, finalEnd := file.contents.flatten.length } := by
  refine ⟨_, rfl, ?_, ?_, ?_⟩
  · rw [h.originalFrameCount, List.length_drop]
    rfl
  · simp [RecordReader.recordsPerFrame, h.originalRecordsPerFrame]
  · rw [h.originalFrameCount, h.frameEnds]
    simp only [Option.map_some, h.firstFrame_eq, h.base_eq, h.finalEnd_eq huniform]

/-- Verifying, the reader serves the same groups. -/
theorem verifying_serves (h : OpenedAt file label boundary perFrame startFrame size r)
    (huniform : Uniform boundary.find boundary.tailIsRecord perFrame file.contents)
    (hsmall : perFrame * file.contents.length * file.contents.length ≤ usizeMax) :
    r.verifying.Serves (groups file startFrame size) := by
  obtain ⟨judge, hjudge, hlast, hper, hphysical⟩ := h.physical_eq huniform
  have hplain := h.serves huniform
  have hwindow : r.verifying.lookup.window = r.lookup.window := by
    simp [RecordReader.verifying, h.originalFrameCount]
  unfold RecordReader.Serves at hplain ⊢
  rw [hwindow, hjudge]
  exact
    { hplain with
      quiet := by
        refine Or.inr ⟨h.small hsmall, ?_⟩
        intro k j fromIdx hj hkj _
        have hdrop := huniform.drop h.inside
        have hcover : startFrame + size * k < file.contents.length := by
          obtain ⟨hmore, -⟩ := length_groupsFrom file.contents h.size_pos
            (file.contents.length - startFrame) startFrame (by omega)
          obtain ⟨hlt, -⟩ := hmore h.inside
          have hk : k ≤ (groups file startFrame size).length - 1 := by omega
          have hmul := Nat.mul_le_mul_right size hk
          rw [groups] at hmul
          rw [Nat.mul_comm]
          omega
        have hne : ∀ g ∈ file.contents, g ≠ [] := fun g hg => huniform.ne_nil_of_mem hg
        have hspan := watchVerifiedSpan_eq (j := j) hne h.size_pos h.inside hphysical
          hcover r.frames r.sepCnt fromIdx
        generalize hcount : min (size * j) (file.contents.length - (startFrame + size * k)) = i
          at hspan
        have hinside : size * k + i ≤ (file.contents.drop startFrame).length := by
          rw [List.length_drop]
          omega
        have hregion : regionOf (groups file startFrame size) k j =
            regionOf (file.contents.drop startFrame) (size * k) i := by
          rw [groups, regionOf_groupsFrom _ _ _ h.size_pos (by omega), regionOf, regionOf,
            List.drop_drop, ← hcount]
          by_cases hfit : size * j ≤ file.contents.length - (startFrame + size * k)
          · rw [Nat.min_eq_left hfit]
          · rw [Nat.min_eq_right (by omega),
              List.take_of_length_le (by rw [List.length_drop]; omega),
              List.take_of_length_le (by rw [List.length_drop])]
        refine ⟨some (lookoutOf judge (file.contents.drop startFrame) (size * k) i), ?_, ?_⟩
        · have hboundary : r.verifying.boundary = boundary := h.boundary_eq
          have hframes : r.verifying.frames = r.frames := rfl
          have hsep : r.verifying.sepCnt = r.sepCnt := rfl
          rw [watchOf, hboundary, hframes, hsep, hspan, hregion]
          exact watchFrames_at (hdrop.fits judge hinside) rfl
        · rw [show r.verifying.boundary = boundary from h.boundary_eq, hregion]
          exact hdrop.not_blames hlast hper hinside }

end OpenedAt

end SeekZstdSep
