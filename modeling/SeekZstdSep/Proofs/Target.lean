/-
Module: SeekZstdSep.Proofs.Target
Purpose: What an append establishes of a uniform file before it cuts it: the records per frame,
  the state of the last frame, known from the append before or read, and the bytes that go in
  front of the data.
Trusted boundary: the library, as `Zeekstd` has it
Main exports: Archive.Fills, AppendResult.Describes, appendTarget_ok, readHead_ok, joinOf,
  appendJoin_eq
-/
import SeekZstdSep.Proofs.Rewrite
import SeekZstdSep.Proofs.Truncate

namespace SeekZstdSep

open Lib

variable {zeek : Zeekstd} {find : Finder UInt8} {ragged : Bool} {n : Nat}

/-! ### What is read of the target -/

/-- A decoder over the file hands out every frame in one read. -/
def Archive.Fills (archive : Archive zeek) : Prop :=
  ∀ tick, ∀ content ∈ archive.contents,
    shortRead (archive.reads tick) content.length = content.length

theorem walkFrame_reads {reader reader' : FrameReader} {i : Nat} {state : Nat × Bool}
    (h : walkFrame find reader i = .ok (state, reader')) : reader'.reads = reader.reads := by
  rw [walkFrame] at h
  split at h
  · cases h
    rfl
  · split at h
    · cases h
    · split at h
      · cases h
      · cases h
        rfl

theorem frameRecords_reads {reader reader' : FrameReader} {i count : Nat}
    (h : frameRecords find reader i = .ok (count, reader')) : reader'.reads = reader.reads := by
  rw [frameRecords] at h
  split at h
  · cases h
  · next hwalk =>
      cases h
      exact walkFrame_reads hwalk

theorem validateSeparator_reads {reader reader' : FrameReader}
    (h : validateSeparator find reader = .ok (n, reader')) : reader'.reads = reader.reads := by
  rw [validateSeparator] at h
  split at h
  · cases h
  · split at h
    · cases h
    · next hfirst =>
        split at h
        · cases h
        · simp only at h
          split at h
          · cases h
          · next hsecond =>
              split at h
              · cases h
              · cases h
                exact (frameRecords_reads hsecond).trans (frameRecords_reads hfirst)

namespace FrameReader.Over

variable {contents : List Bytes} {reader reader' : FrameReader}

/-- Frames that are confirmed leave the reader over the file. -/
theorem mustContain_spec (h : reader.Over contents) {indices : List Nat}
    (hin : ∀ i ∈ indices, i < contents.length)
    (hok : mustContain find n reader indices = .ok reader') :
    reader'.Over contents ∧ reader'.reads = reader.reads := by
  induction indices generalizing reader with
  | nil =>
      cases hok
      exact ⟨h, rfl⟩
  | cons i indices ih =>
      obtain ⟨reader₁, hwalk, hover₁⟩ := h.walkFrame_spec find (hin i List.mem_cons_self)
      rw [mustContain, hwalk] at hok
      simp only at hok
      split_ifs at hok
      obtain ⟨hover, hreads⟩ := ih hover₁ (fun j hj => hin j (List.mem_cons_of_mem i hj)) hok
      exact ⟨hover, hreads.trans (walkFrame_reads hwalk)⟩

theorem validateRecordsPerFrame_spec (h : reader.Over contents) {last : Nat}
    (hlast : last < contents.length)
    (hok : validateRecordsPerFrame find reader last n = .ok reader') :
    reader'.Over contents ∧ reader'.reads = reader.reads := by
  refine h.mustContain_spec (fun i hi => ?_) hok
  have hmem := List.mem_of_mem_take hi
  simp only [List.mem_cons, List.not_mem_nil, or_false] at hmem
  omega

/-- A frame read whole is its content. -/
theorem readFrame_spec (h : reader.Over contents) {i : Nat} (hi : i < contents.length)
    (hfill : ∀ tick, shortRead (reader.reads tick) contents[i].length = contents[i].length) :
    ∃ reader', reader.readFrame i = .ok (contents[i], reader') := by
  rw [readFrame, h.size i hi]
  by_cases hempty : contents[i].length = 0
  · rw [if_pos hempty]
    exact ⟨reader, by rw [List.length_eq_zero_iff.mp hempty]⟩
  · simp only [if_neg hempty, h.frame i hi, frameWindow, Decoder.seek, Decoder.read, Nat.sub_zero,
      Nat.min_self, hfill, List.drop_zero, List.take_length, Nat.sub_self, List.replicate_zero,
      List.append_nil]
    exact ⟨_, rfl⟩

end FrameReader.Over

/-- What an append knows of a uniform file. -/
structure AppendTarget.Over (archive : Archive zeek) (n : Nat) (target : AppendTarget) :
    Prop where
  table : target.table = tableOf archive.frames
  last : target.last = archive.frames.length - 1
  reader : target.reader.Over archive.contents
  reads : target.reader.reads = archive.reads
  n : target.n = n

variable {archive : Archive zeek} {records : Option Nat} {trust : Bool}
  {previous : Option AppendResult} {target : AppendTarget}

/-- The previous result an append to the file goes by. -/
def Archive.fitting (archive : Archive zeek) (records : Option Nat)
    (previous : Option AppendResult) : Option AppendResult :=
  fittingResult (tableOf archive.frames) (archive.frames.length - 1) records previous

/-- What the last frame of a file decompresses to. -/
def Archive.lastContent (archive : Archive zeek) : Bytes := archive.contents.getLastD []

theorem Archive.lastContent_eq (archive : Archive zeek) (hne : archive.contents ≠ []) :
    archive.lastContent = archive.contents.getLast hne := by
  rw [lastContent, List.getLastD_eq_getLast?, List.getLast?_eq_getLast_of_ne_nil hne]
  rfl

theorem Archive.lastContent_ne_nil {archive : Archive zeek}
    (huniform : Uniform find ragged n archive.contents) : archive.lastContent ≠ [] := by
  rw [archive.lastContent_eq huniform.ne_nil]
  exact huniform.ne_nil_of_mem (List.getLast_mem huniform.ne_nil)

/-- A file whose last frame is not empty is the frames before it and that one. -/
theorem Archive.exists_concat {archive : Archive zeek} (hlast : archive.lastContent ≠ []) :
    ∃ init frame, archive.frames = init ++ [frame] ∧ archive.lastContent = frame.content := by
  have hne : archive.frames ≠ [] := by
    intro hnil
    apply hlast
    rw [lastContent, contents, hnil]
    rfl
  refine ⟨_, _, (List.dropLast_append_getLast hne).symm, ?_⟩
  rw [lastContent, contents]
  conv_lhs => rw [← List.dropLast_append_getLast hne]
  rw [List.map_append, List.map_singleton, List.getLastD_concat]

/-- A last frame that is not empty is the last data frame. -/
theorem Archive.lastDataFrame_eq {archive : Archive zeek} (hlast : archive.lastContent ≠ []) :
    lastDataFrame (tableOf archive.frames) = .ok (archive.frames.length - 1) := by
  have hne : archive.contents ≠ [] := by
    intro hnil
    apply hlast
    rw [lastContent, hnil]
    rfl
  rw [archive.lastContent_eq hne] at hlast
  rw [← archive.length_contents]
  exact archive.stands.lastDataFrame_of_last hne hlast

theorem appendTarget_ok (hlast : archive.lastContent ≠ [])
    (hcount : records = none → ∃ ragged, Uniform find ragged n archive.contents)
    (hrecords : ∀ count ∈ records, count = n)
    (hprevious : ∀ result ∈ previous, result.countValidated = true → result.recordsPerFrame = n)
    (hok : appendTarget zeek archive.file find records trust previous = .ok target) :
    target.Over archive n ∧ target.previous = archive.fitting records previous ∧
      target.countValidated =
        (!trust || (archive.fitting records previous).any (·.countValidated)) := by
  have hpos : 0 < archive.frames.length := by
    obtain ⟨init, frame, hframes, -⟩ := Archive.exists_concat hlast
    rw [hframes, List.length_append]
    exact Nat.succ_pos _
  have hin : archive.frames.length - 1 < archive.contents.length := by
    rw [archive.length_contents]
    omega
  rw [appendTarget, archive.fromSeekable] at hok
  simp only [Archive.lastDataFrame_eq hlast, length_tableOf, if_neg (Nat.ne_of_gt hpos)] at hok
  rw [← Archive.fitting] at hok
  cases records with
  | some count =>
      have hcount : count = n := hrecords count rfl
      subst hcount
      rw [if_neg fun h => Option.some_ne_none count h.2] at hok
      simp only at hok
      split_ifs at hok
      · cases hvalidate : validateRecordsPerFrame find
            (FrameReader.new zeek archive.file (tableOf archive.frames))
            (archive.frames.length - 1) count with
        | error e =>
            rw [hvalidate] at hok
            cases hok
        | ok reader =>
            rw [hvalidate] at hok
            cases hok
            obtain ⟨hover, hreads⟩ := archive.stands.validateRecordsPerFrame_spec hin hvalidate
            exact ⟨⟨rfl, rfl, hover, hreads, rfl⟩, rfl, rfl⟩
      · cases hok
        exact ⟨⟨rfl, rfl, archive.stands, rfl, rfl⟩, rfl, rfl⟩
  | none =>
      simp only at hok
      split_ifs at hok
      cases hfit : (archive.fitting none previous).filter (·.countValidated) with
      | some result =>
          rw [hfit] at hok
          cases hok
          obtain ⟨hresult, hvalidated⟩ := Option.filter_eq_some_iff.mp hfit
          have hin := (Option.filter_eq_some_iff.mp hresult).1
          exact ⟨⟨rfl, rfl, archive.stands, rfl, hprevious result hin hvalidated⟩, rfl, rfl⟩
      | none =>
          rw [hfit] at hok
          cases hvalidate : validateSeparator find
              (FrameReader.new zeek archive.file (tableOf archive.frames)) with
          | error e =>
              rw [hvalidate] at hok
              cases hok
          | ok got =>
              obtain ⟨count, reader⟩ := got
              obtain ⟨ragged, huniform⟩ := hcount rfl
              have hthree := archive.stands.three_le_of_validateSeparator hvalidate
              obtain ⟨reader', hvalidate', hover⟩ :=
                archive.stands.validateSeparator_of_uniform huniform hthree
              rw [hvalidate'] at hvalidate
              cases hvalidate
              rw [hvalidate'] at hok
              cases hok
              exact ⟨⟨rfl, rfl, hover, validateSeparator_reads hvalidate', rfl⟩, rfl, rfl⟩

/-! ### Any target -/

theorem lastDataFrameFrom_le (table : SeekTable) (last : Nat) :
    lastDataFrameFrom table last ≤ last := by
  induction last with
  | zero => exact Nat.le_refl _
  | succ last ih =>
      rw [lastDataFrameFrom]
      split
      · exact Nat.le_succ_of_le ih
      · exact Nat.le_refl _

/-- The last data frame an append goes by is a frame of the table. -/
theorem appendTarget_table {f : File}
    (hok : appendTarget zeek f find records trust previous = .ok target) :
    zeek.fromSeekable f.bytes = .ok target.table ∧ target.last < target.table.length := by
  rw [appendTarget] at hok
  split at hok
  · cases hok
  split at hok
  · cases hok
  cases hseek : zeek.fromSeekable f.bytes with
  | error e =>
      rw [hseek] at hok
      cases hok
  | ok table =>
      rw [hseek] at hok
      simp only at hok
      by_cases hnone : table.length = 0
      · rw [if_pos hnone] at hok
        cases hok
      · have hle := lastDataFrameFrom_le table (table.length - 1)
        have hlt : lastDataFrameFrom table (table.length - 1) < table.length := by omega
        rw [if_neg hnone, lastDataFrame, if_neg hnone] at hok
        simp only at hok
        repeat' split at hok
        all_goals cases hok
        all_goals exact ⟨rfl, hlt⟩

theorem validateSeparator_pos {reader reader' : FrameReader}
    (h : validateSeparator find reader = .ok (n, reader')) : 0 < n := by
  rw [validateSeparator] at h
  split at h
  · cases h
  · split at h
    · cases h
    · split at h
      · cases h
      · next hpos =>
          simp only at h
          split at h
          · cases h
          · split at h
            · cases h
            · cases h
              exact Nat.pos_of_ne_zero hpos

/-- An append that follows no other knows nothing of the last frame, and goes by a count that is
not 0. -/
theorem appendTarget_fresh {f : File}
    (hok : appendTarget zeek f find records trust none = .ok target) :
    target.previous = none ∧ 0 < target.n := by
  rw [appendTarget] at hok
  split at hok
  · cases hok
  by_cases hzero : records = some 0
  · rw [if_pos hzero] at hok
    cases hok
  rw [if_neg hzero] at hok
  split at hok
  · cases hok
  split at hok
  · cases hok
  split at hok
  · cases hok
  cases records with
  | some count =>
      have hpos : 0 < count := Nat.pos_of_ne_zero fun h => hzero (by rw [h])
      simp only at hok
      split at hok
      · cases hok
      · split at hok
        · split at hok
          · cases hok
          · cases hok
            exact ⟨rfl, hpos⟩
        · cases hok
          exact ⟨rfl, hpos⟩
  | none =>
      simp only [fittingResult, Option.filter_none] at hok
      split at hok
      · cases hok
      · next hvalidate =>
          cases hok
          exact ⟨rfl, validateSeparator_pos hvalidate⟩

/-! ### The first bytes of the data -/

theorem readHeadFuel_ok {fuel : Nat} {head got : Bytes} {data data' : Input}
    (hok : readHeadFuel fuel head data = .ok (got, data')) :
    got ++ data'.data = head ++ data.data ∧ data'.schedule = data.schedule ∧
      (got.length < zstdMagic.length → data'.data = []) := by
  induction fuel generalizing head data with
  | zero => cases hok
  | succ fuel ih =>
      rw [readHeadFuel] at hok
      split_ifs at hok with hshort
      · cases hread : Read.read data (readBufSize - head.length) with
        | error e =>
            rw [hread] at hok
            cases hok
        | ok got₁ =>
            obtain ⟨bytes, data₁⟩ := got₁
            rw [hread] at hok
            obtain ⟨hsplit, -, hschedule, hend⟩ := Input.read_eq_ok hread
            simp only at hok
            split_ifs at hok with hnone
            · have hroom : readBufSize - head.length ≠ 0 := by
                have hmagic : zstdMagic.length < readBufSize := by decide
                omega
              cases hok
              rw [List.length_eq_zero_iff] at hnone
              subst hnone
              have hdata := (hend rfl).resolve_left hroom
              rw [List.nil_append] at hsplit
              exact ⟨by rw [hsplit], hschedule, fun _ => hsplit.trans hdata⟩
            · obtain ⟨hmore, hsame, hall⟩ := ih hok
              rw [List.append_assoc, hsplit] at hmore
              exact ⟨hmore, hsame.trans hschedule, hall⟩
      · cases hok
        exact ⟨rfl, rfl, fun hless => absurd hless hshort⟩

/-- The head that is read is the head of the data, and empty only where the data is. -/
theorem readHead_ok {head : Bytes} {data data' : Input} (hok : readHead data = .ok (head, data')) :
    head ++ data'.data = data.data ∧ data'.schedule = data.schedule ∧
      (head = [] → data.data = []) := by
  obtain ⟨hsplit, hschedule, hall⟩ := readHeadFuel_ok hok
  rw [List.nil_append] at hsplit
  refine ⟨hsplit, hschedule, ?_⟩
  rintro rfl
  rw [← hsplit, hall (by decide), List.append_nil]

/-! ### The join -/

/-- What an append returned is true of the file. -/
structure AppendResult.Describes (find : Finder UInt8) (archive : Archive zeek)
    (result : AppendResult) : Prop where
  frameCount : result.frameCount = archive.frames.length
  lastFrame : result.lastFrame = archive.frames.length - 1
  sizes : ∀ frame ∈ archive.frames.getLast?,
    result.lastComp = frame.bytes.length ∧ result.lastDecomp = frame.content.length
  state : ∀ frame ∈ archive.frames.getLast?, ∀ count ∈ result.lastRecords,
    count = (find.records frame.content).length ∧
      result.lastWhole = (find.rest frame.content).isEmpty ∧
      result.checksum = headerChecksum frame.bytes

/-- The header of a frame says whether it ends with a checksum. -/
theorem Archive.frameHasChecksum_spec (archive : Archive zeek) {i : Nat}
    (hi : i < archive.frames.length) :
    frameHasChecksum archive.file (tableOf archive.frames) i =
      .ok (headerChecksum archive.frames[i].bytes) := by
  obtain ⟨hmagic, hlength⟩ := zeek.magic archive.frames[i].isFrame
  have hhead : (archive.file.bytes.drop ((tableOf archive.frames).frameStartComp i)).take 5 =
      archive.frames[i].bytes.take 5 := by
    have hsplit : archive.file.bytes = bodyOf (archive.frames.take i) ++
        (archive.frames[i].bytes ++ (bodyOf (archive.frames.drop (i + 1)) ++
          zeek.serialize (tableOf archive.frames))) := by
      have hframes : archive.frames =
          archive.frames.take i ++ ([archive.frames[i]] ++ archive.frames.drop (i + 1)) := by
        rw [List.singleton_append, ← List.drop_eq_getElem_cons hi, List.take_append_drop]
      have hbody := congrArg bodyOf hframes
      rw [bodyOf_append, bodyOf_append] at hbody
      rw [file, bytesOf]
      simp only
      rw [hbody]
      simp [bodyOf]
    rw [frameStartComp_tableOf, hsplit, List.drop_left' rfl,
      List.take_append_of_le_length hlength]
  have hfour : (archive.frames[i].bytes.take 5).take 4 = zstdMagic := by
    rw [List.take_take]
    exact hmagic
  have hbit : headerChecksum (archive.frames[i].bytes.take 5) =
      headerChecksum archive.frames[i].bytes := by
    rw [headerChecksum, headerChecksum, List.getD_eq_getElem?_getD, List.getD_eq_getElem?_getD,
      List.getElem?_take_of_lt (by omega)]
  rw [frameHasChecksum, hhead]
  simp only [List.length_take, Nat.min_eq_left hlength, Nat.lt_irrefl, if_false, hfour, ne_eq,
    not_true_eq_false, hbit]

namespace AppendTarget.Over

variable {tail : Bytes} {frame : Stored zeek.toFrameFormat}

/-- The bytes of the last frame, unless the previous append left it full. -/
theorem tail_eq (h : target.Over archive n) (hfills : archive.Fills)
    (hframe : frame ∈ archive.frames.getLast?) :
    target.tail = .ok (if target.previouslyFull then [] else frame.content) := by
  have hlast : archive.contents[target.last]? = some frame.content := by
    rw [h.last, ← archive.length_contents, ← List.getLast?_eq_getElem?, Archive.contents,
      List.getLast?_map, Option.mem_def.mp hframe]
    rfl
  obtain ⟨hi, hget⟩ := List.getElem?_eq_some_iff.mp hlast
  rw [AppendTarget.tail]
  split_ifs with hfull
  · rfl
  · obtain ⟨reader', hread⟩ := h.reader.readFrame_spec hi fun tick => by
      rw [h.reads]
      exact hfills tick _ (List.getElem_mem hi)
    rw [hread, hget]

/-- What is counted of the last frame. -/
theorem oldState_none (hknown : target.known = none) (find : Finder UInt8) (tail : Bytes) :
    target.oldState find tail = ((find.records tail).length, (find.rest tail).isEmpty) := by
  have hends : (ends find tail).getLastD 0 = find.offset tail (find.records tail).length := by
    rw [ends_eq, List.getLastD_eq_getLast?, List.getLast?_map, List.getLast?_range]
    cases hcount : (find.records tail).length with
    | zero => rfl
    | succ count => rfl
  rw [AppendTarget.oldState, hknown]
  simp only [count_eq, hends, offset_all_beq]

/-- What the previous append returned of the last frame is so. -/
theorem known_ok (hdesc : ∀ result ∈ target.previous, result.Describes find archive)
    (hframe : frame ∈ archive.frames.getLast?) {state : Nat × Bool}
    (hknown : target.known = some state) :
    state = ((find.records frame.content).length, (find.rest frame.content).isEmpty) := by
  obtain ⟨result, hresult, hstate⟩ := Option.bind_eq_some_iff.mp hknown
  obtain ⟨count, hcount, rfl⟩ := Option.map_eq_some_iff.mp hstate
  obtain ⟨hrecords, hwhole, -⟩ := (hdesc result hresult).state frame hframe count hcount
  rw [hrecords, hwhole]

theorem checksum_eq (h : target.Over archive n)
    (hdesc : ∀ result ∈ target.previous, result.Describes find archive)
    (hframe : frame ∈ archive.frames.getLast?) :
    target.checksum archive.file = .ok (headerChecksum frame.bytes) := by
  rw [AppendTarget.checksum]
  split
  · next previous hprevious =>
      obtain ⟨result, hresult, hmap⟩ := Option.bind_eq_some_iff.mp hprevious
      obtain ⟨count, hcount, rfl⟩ := Option.map_eq_some_iff.mp hmap
      rw [((hdesc result hresult).state frame hframe count hcount).2.2]
  · have hget : archive.frames[archive.frames.length - 1]? = some frame := by
      rw [← List.getLast?_eq_getElem?]
      exact hframe
    obtain ⟨hi, hframe⟩ := List.getElem?_eq_some_iff.mp hget
    rw [h.table, h.last, archive.frameHasChecksum_spec hi, hframe]

/-- The count and the wholeness of the last frame, however they are known. -/
theorem oldState_eq (hdesc : ∀ result ∈ target.previous, result.Describes find archive)
    (hframe : frame ∈ archive.frames.getLast?)
    (htail : target.previouslyFull = false → tail = frame.content) :
    target.oldState find tail =
      ((find.records frame.content).length, (find.rest frame.content).isEmpty) := by
  cases hknown : target.known with
  | none =>
      rw [oldState_none hknown, htail (by rw [AppendTarget.previouslyFull, hknown]; rfl)]
  | some state =>
      rw [AppendTarget.oldState, hknown]
      exact known_ok hdesc hframe hknown

/-- A last frame the previous append left full is full. -/
theorem full_of_previouslyFull (h : target.Over archive n)
    (hdesc : ∀ result ∈ target.previous, result.Describes find archive)
    (hframe : frame ∈ archive.frames.getLast?) (hfull : target.previouslyFull = true) :
    find.Full n frame.content := by
  rw [AppendTarget.previouslyFull, Option.any_eq_true] at hfull
  obtain ⟨state, hknown, hstate⟩ := hfull
  rw [known_ok hdesc hframe hknown, Bool.and_eq_true, beq_iff_eq, h.n, List.isEmpty_iff] at hstate
  exact hstate

end AppendTarget.Over

/-- What is written behind a fragment to end it. -/
def glueOf (find : Finder UInt8) (separator : Option Bytes) (old : Bytes) : Bytes :=
  if (find.rest old).isEmpty then [] else separator.getD []

section Fragment

variable {separator : Option Bytes} {onMissing : OnMissingSeparator}

theorem endFragment_ok {tail tail' : Bytes} {oldWhole inserted : Bool}
    (hok : endFragment find separator onMissing tail oldWhole = .ok (tail', inserted)) :
    (oldWhole = true ∧ tail' = tail ∧ inserted = false) ∨
      (oldWhole = false ∧ onMissing = .insert ∧ tail' = tail ++ separator.getD [] ∧
        endsWhole find tail' = true ∧ inserted = true) := by
  rw [endFragment.eq_def] at hok
  split_ifs at hok with hwhole
  · cases hok
    exact Or.inl ⟨hwhole, rfl, rfl⟩
  · cases onMissing with
    | refuse => cases hok
    | insert =>
        simp only at hok
        split_ifs at hok with hends
        cases hok
        exact Or.inr ⟨by simpa using hwhole, rfl, rfl, by simpa using hends, rfl⟩

/-- A fragment that is ended is followed by the separator, and nothing else is. -/
theorem endFragment_tail {old tail : Bytes} {inserted : Bool}
    (hok : endFragment find separator onMissing old (find.rest old).isEmpty =
      .ok (tail, inserted)) :
    tail = old ++ glueOf find separator old := by
  rcases endFragment_ok hok with ⟨hwhole, rfl, -⟩ | ⟨hwhole, -, rfl, -, -⟩
  · rw [glueOf, if_pos hwhole, List.append_nil]
  · rw [glueOf, if_neg (by simp [hwhole])]

/-- The join starts with what the file ends with, and is never empty. -/
theorem appendJoin_tail_ne_nil {f : File} {join : Join} {head : Bytes} (hhead : head ≠ [])
    (hok : appendJoin target f find separator onMissing trust head = .ok join) :
    join.tail ≠ [] := by
  rw [appendJoin] at hok
  split at hok
  · cases hok
  split at hok
  · cases hok
  split at hok
  · cases hok
  simp only at hok
  split at hok
  · cases hok
  · split_ifs at hok
    all_goals cases hok
    all_goals exact List.append_ne_nil_of_right_ne_nil _ hhead

/-- The join of data that starts with `head` to a last frame that holds `old`, as it is
established of that frame alone. -/
def joinOf (find : Finder UInt8) (n : Nat) (separator : Option Bytes)
    (onMissing : OnMissingSeparator) (trust : Bool) (old : Bytes) (checksum : Bool)
    (head : Bytes) : Except Error Join :=
  if head.take 4 = zstdMagic then .error .zstdAsRecords
  else
    match endFragment find separator onMissing old (find.rest old).isEmpty with
    | .error e => .error e
    | .ok (tail, _) =>
        if trust ∧ n < (find.records tail).length then
          .error (.lastFrameExceeds (find.records tail).length n)
        else
          .ok {
            tail := (if find.Full n old then [] else tail) ++ head
            checksum := checksum
            preserveLast := find.Full n old }

/-- What was known of the last frame before changes nothing about the join. -/
theorem appendJoin_eq (hfills : archive.Fills) (h : target.Over archive n)
    (hdesc : ∀ result ∈ target.previous, result.Describes find archive)
    {frame : Stored zeek.toFrameFormat} (hframe : frame ∈ archive.frames.getLast?)
    (head : Bytes) :
    appendJoin target archive.file find separator onMissing trust head =
      joinOf find n separator onMissing trust frame.content (headerChecksum frame.bytes)
        head := by
  rw [appendJoin, joinOf]
  by_cases hmagic : head.take 4 = zstdMagic
  · rw [if_pos hmagic, if_pos hmagic]
  rw [if_neg hmagic, if_neg hmagic, h.checksum_eq hdesc hframe, h.tail_eq hfills hframe]
  have hread : target.previouslyFull = false →
      (if target.previouslyFull = true then [] else frame.content) = frame.content := by
    intro hnot
    rw [hnot]
    rfl
  have hpreserve : ((find.rest frame.content).isEmpty &&
      (find.records frame.content).length == n) = decide (find.Full n frame.content) := by
    rw [Bool.eq_iff_iff, Bool.and_eq_true, beq_iff_eq, List.isEmpty_iff, decide_eq_true_eq,
      Finder.Full, and_comm]
  simp only [AppendTarget.Over.oldState_eq hdesc hframe hread, h.n, hpreserve, decide_eq_true_eq]
  cases hprevious : target.previouslyFull with
  | true =>
      -- a frame that is known to be full is neither read nor counted
      have hfull := h.full_of_previouslyFull hdesc hframe hprevious
      simp [endFragment, hfull.1, hfull.2, hfull]
  | false =>
      simp only [Bool.false_eq_true, if_false]
      cases hend : endFragment find separator onMissing frame.content
          (find.rest frame.content).isEmpty with
      | error e => rfl
      | ok got =>
          obtain ⟨tail, inserted⟩ := got
          have hcount : (if inserted = true then count find tail
              else (find.records frame.content).length) = (find.records tail).length := by
            rcases endFragment_ok hend with ⟨-, rfl, rfl⟩ | ⟨-, -, -, -, rfl⟩
            · rfl
            · exact count_eq find tail
          simp only [hcount, Bool.not_false, true_and]

/-- What a join that is not refused consists of. -/
theorem joinOf_ok {old head : Bytes} {checksum : Bool} {join : Join}
    (hok : joinOf find n separator onMissing trust old checksum head = .ok join) :
    join.checksum = checksum ∧ (join.preserveLast = true ↔ find.Full n old) ∧
      join.tail = (if join.preserveLast then [] else old ++ glueOf find separator old) ++ head ∧
      (find.rest old ≠ [] → onMissing = .insert ∧
        find.rest (old ++ glueOf find separator old) = []) := by
  rw [joinOf] at hok
  by_cases hmagic : head.take 4 = zstdMagic
  · rw [if_pos hmagic] at hok
    cases hok
  rw [if_neg hmagic] at hok
  cases hend : endFragment find separator onMissing old (find.rest old).isEmpty with
  | error e =>
      rw [hend] at hok
      cases hok
  | ok got =>
      obtain ⟨tail, inserted⟩ := got
      rw [hend] at hok
      simp only at hok
      by_cases htrust : trust = true ∧ n < (find.records tail).length
      · rw [if_pos htrust] at hok
        cases hok
      · rw [if_neg htrust] at hok
        cases hok
        have htail := endFragment_tail hend
        refine ⟨rfl, decide_eq_true_iff, ?_, ?_⟩
        · simp only [decide_eq_true_eq, htail]
        · intro hrest
          rcases endFragment_ok hend with ⟨hwhole, -, -⟩ | ⟨-, honMissing, -, hends, -⟩
          · exact absurd (List.isEmpty_iff.mp hwhole) hrest
          · rw [← htail]
            exact ⟨honMissing, ((endsWhole_iff find tail).mp hends).2⟩

end Fragment

end SeekZstdSep
