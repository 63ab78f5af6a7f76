/-
Module: SeekZstdSep.Core.StoredFrames
Purpose: A library that stores what it is given: every frame is its header, the length of its
  content and the content, and the seek table is laid out as the seekable format has it. It
  meets everything the crate relies on.
Trusted boundary: none
Main exports: storedFormat, storedLimit, storedZeekstd, streamedZeekstd, storedArchive
-/
import SeekZstdSep.Core.Zeekstd

namespace SeekZstdSep

/-- A number below `2 ^ 32` as four bytes, little-endian. -/
def le32Bytes (x : Nat) : Bytes :=
  [UInt8.ofNat x, UInt8.ofNat (x / 256), UInt8.ofNat (x / 65536), UInt8.ofNat (x / 16777216)]

theorem le32_le32Bytes {x : Nat} (h : x ≤ u32Max) (rest : Bytes) :
    le32 (le32Bytes x ++ rest) = some x := by
  have hx : x < 4294967296 := by
    have : u32Max = 4294967295 := by decide
    omega
  simp only [le32Bytes, List.cons_append, List.nil_append, le32, UInt8.toNat_ofNat',
    Option.some.injEq]
  omega

@[simp] theorem length_le32Bytes (x : Nat) : (le32Bytes x).length = 4 := rfl

/-- The bytes of a frame. -/
def storedBytes (checksum : Bool) (content : Bytes) : Bytes :=
  zstdMagic ++ [if checksum then 4 else 0] ++ le32Bytes content.length ++ content

def serializeEntry (entry : Nat × Nat) : Bytes := le32Bytes entry.1 ++ le32Bytes entry.2

/-- A seek table: the header of a skippable frame, the entries, and the footer. -/
def serializeTable (table : SeekTable) : Bytes :=
  skippableMagic ++ le32Bytes (8 * table.length + 9) ++ table.flatMap serializeEntry ++
    (le32Bytes table.length ++ [0, 0xb1, 0xea, 0x92, 0x8f])

def storedFormat : FrameFormat where
  IsFrame bytes content :=
    content.length ≤ u32Max ∧ ∃ checksum, bytes = storedBytes checksum content
  magic := by
    rintro bytes content ⟨-, checksum, rfl⟩
    exact ⟨rfl, by simp [storedBytes, zstdMagic]⟩
  frame_unique := by
    rintro bytes content bytes' content' more more' ⟨hle, checksum, rfl⟩ ⟨hle', checksum', rfl⟩
      heq
    have hbody : le32Bytes content.length ++ (content ++ more) =
        le32Bytes content'.length ++ (content' ++ more') := by
      have := congrArg (List.drop 5) heq
      simpa [storedBytes, zstdMagic] using this
    have hlength := congrArg le32 hbody
    rw [le32_le32Bytes hle, le32_le32Bytes hle', Option.some.injEq] at hlength
    apply List.append_inj_left heq
    simp [storedBytes, hlength]
  serialize := serializeTable
  serialize_magic := fun table => rfl
  maxFrames := 0x8000000
  maxFrames_le := by decide

@[simp] theorem length_storedBytes (checksum : Bool) (content : Bytes) :
    (storedBytes checksum content).length = content.length + 9 := by
  simp only [storedBytes, zstdMagic, List.length_append, List.length_cons, List.length_nil,
    length_le32Bytes]
  omega

theorem take_storedBytes (checksum : Bool) (content : Bytes) :
    (storedBytes checksum content).take 4 = zstdMagic := rfl

theorem drop_storedBytes (checksum : Bool) (content : Bytes) :
    (storedBytes checksum content).drop 9 = content := rfl

theorem headerChecksum_storedBytes (checksum : Bool) (content : Bytes) :
    headerChecksum (storedBytes checksum content) = checksum := by
  have hbyte : (storedBytes checksum content).getD 4 0 = if checksum then 4 else 0 := rfl
  rw [headerChecksum, hbyte]
  cases checksum <;> decide

/-- The frame of some content. -/
def storedOf (checksum : Bool) (content : Bytes) (h : content.length + 9 ≤ u32Max) :
    Stored storedFormat where
  bytes := storedBytes checksum content
  content := content
  isFrame := ⟨Nat.le_of_add_right_le h, checksum, rfl⟩
  bytes_le := by rwa [length_storedBytes]
  content_le := Nat.le_of_add_right_le h

/-! ### The seek table reads back -/

/-- The entries of a table, one after the other. -/
def parseEntries : Nat → Bytes → Option SeekTable
  | 0, _ => some []
  | n + 1, bytes =>
      match le32 bytes, le32 (bytes.drop 4), parseEntries n (bytes.drop 8) with
      | some comp, some decomp, some table => some ((comp, decomp) :: table)
      | _, _, _ => none

theorem parseEntries_flatMap {table : SeekTable} (rest : Bytes)
    (h : ∀ entry ∈ table, entry.1 ≤ u32Max ∧ entry.2 ≤ u32Max) :
    parseEntries table.length (table.flatMap serializeEntry ++ rest) = some table := by
  induction table with
  | nil => rfl
  | cons entry table ih =>
      obtain ⟨hcomp, hdecomp⟩ := h entry List.mem_cons_self
      have hrest := ih fun entry' hin => h entry' (List.mem_cons_of_mem _ hin)
      have hbytes : (entry :: table).flatMap serializeEntry ++ rest =
          le32Bytes entry.1 ++ (le32Bytes entry.2 ++ (table.flatMap serializeEntry ++ rest)) := by
        simp [serializeEntry]
      have hskip : (le32Bytes entry.1 ++ (le32Bytes entry.2 ++
          (table.flatMap serializeEntry ++ rest))).drop 8 =
            table.flatMap serializeEntry ++ rest := by
        rw [← List.append_assoc, List.drop_left' (by simp)]
      rw [hbytes, List.length_cons, parseEntries, le32_le32Bytes hcomp,
        List.drop_left' (length_le32Bytes entry.1), le32_le32Bytes hdecomp, hskip, hrest]

/-- `SeekTable::from_seekable`: the footer says how many entries there are in front of it. -/
def parseTable (bytes : Bytes) : Except Error SeekTable :=
  match le32 (bytes.drop (bytes.length - 9)) with
  | none => .error (.external "no seek table footer")
  | some count =>
      if storedFormat.maxFrames < count then .error .frameIndexTooLarge
      else
        match parseEntries count (bytes.drop (bytes.length - 9 - 8 * count)) with
        | none => .error (.external "seek table is cut short")
        | some table => .ok table

theorem length_flatMap_serializeEntry (table : SeekTable) :
    (table.flatMap serializeEntry).length = 8 * table.length := by
  induction table with
  | nil => rfl
  | cons entry table ih =>
      simp only [List.flatMap_cons, List.length_append, ih, serializeEntry, length_le32Bytes,
        List.length_cons]
      omega

theorem parseTable_bytesOf (frames : List (Stored storedFormat))
    (hcount : frames.length ≤ storedFormat.maxFrames) :
    parseTable (bytesOf frames) = .ok (tableOf frames) := by
  generalize hhead : bodyOf frames ++
    (skippableMagic ++ le32Bytes (8 * (tableOf frames).length + 9)) = head
  generalize hfoot : le32Bytes (tableOf frames).length ++ [0, 0xb1, 0xea, 0x92, 0x8f] = foot
  have hbytes : bytesOf frames = head ++ ((tableOf frames).flatMap serializeEntry ++ foot) := by
    rw [← hhead, ← hfoot, bytesOf]
    simp [storedFormat, serializeTable]
  have hfootLen : foot.length = 9 := by rw [← hfoot]; rfl
  have hentries := length_flatMap_serializeEntry (tableOf frames)
  have hlength : (bytesOf frames).length = head.length + 8 * (tableOf frames).length + 9 := by
    rw [hbytes, List.length_append, List.length_append, hentries, hfootLen]
    omega
  have htable : (tableOf frames).length = frames.length := by rw [tableOf, List.length_map]
  have hmost : (tableOf frames).length ≤ u32Max := by
    rw [htable]
    exact Nat.le_trans hcount storedFormat.maxFrames_le
  have hfooter : (bytesOf frames).drop ((bytesOf frames).length - 9) = foot := by
    rw [hlength, hbytes, ← List.append_assoc, List.drop_left' (by simp [hentries])]
  have hbehind : (bytesOf frames).drop
      ((bytesOf frames).length - 9 - 8 * (tableOf frames).length) =
        (tableOf frames).flatMap serializeEntry ++ foot := by
    rw [hlength, hbytes, List.drop_left' (by omega)]
  have hsmall : ∀ entry ∈ tableOf frames, entry.1 ≤ u32Max ∧ entry.2 ≤ u32Max := by
    intro entry hin
    obtain ⟨frame, -, rfl⟩ := List.mem_map.mp hin
    exact ⟨frame.bytes_le, frame.content_le⟩
  rw [parseTable, hfooter, ← hfoot, le32_le32Bytes hmost]
  simp only [hbehind, parseEntries_flatMap foot hsmall]
  rw [if_neg (by omega)]

theorem length_le_of_parseEntries {count : Nat} {bytes : Bytes} {table : SeekTable}
    (h : parseEntries count bytes = some table) : table.length = count := by
  induction count generalizing bytes table with
  | zero =>
      cases h
      rfl
  | succ count ih =>
      rw [parseEntries] at h
      split at h
      · next htable =>
          cases h
          rw [List.length_cons, ih htable]
      · cases h

theorem length_le_of_parseTable {bytes : Bytes} {table : SeekTable}
    (h : parseTable bytes = .ok table) : table.length ≤ storedFormat.maxFrames := by
  rw [parseTable] at h
  split at h
  · cases h
  · split_ifs at h with hmost
    split at h
    · cases h
    · next htable =>
        cases h
        rw [length_le_of_parseEntries htable]
        exact Nat.le_of_not_lt hmost

/-! ### Frames read back -/

/-- What a decoder hands out of a frame. -/
def decodeStored (bytes : Bytes) (table : SeekTable) (index : Nat) : Except Error Bytes :=
  let frame := (bytes.drop (table.frameStartComp index)).take (table.frameSizeComp index)
  if frame.take 4 = zstdMagic then .ok (frame.drop 9) else .error (.external "unknown frame")

/-- A frame stands where its table says. -/
theorem drop_bytesOf (frames : List (Stored storedFormat)) {i : Nat} (hi : i < frames.length) :
    ∃ more, (bytesOf frames).drop ((tableOf frames).frameStartComp i) = frames[i].bytes ++ more := by
  have hstart : (tableOf frames).frameStartComp i = (bodyOf (frames.take i)).length := by
    rw [SeekTable.frameStartComp, tableOf, bodyOf, ← List.map_take, List.map_map,
      List.length_flatten, List.map_map]
    rfl
  have hsplit : bytesOf frames = bodyOf (frames.take i) ++ (frames[i].bytes ++
      (bodyOf (frames.drop (i + 1)) ++ storedFormat.serialize (tableOf frames))) := by
    have hframes : frames = frames.take i ++ frames[i] :: frames.drop (i + 1) := by
      rw [← List.drop_eq_getElem_cons hi, List.take_append_drop]
    have hbody : bodyOf frames =
        bodyOf (frames.take i) ++ (frames[i].bytes ++ bodyOf (frames.drop (i + 1))) := by
      calc bodyOf frames = bodyOf (frames.take i ++ frames[i] :: frames.drop (i + 1)) :=
            congrArg bodyOf hframes
        _ = _ := by rw [bodyOf, List.map_append, List.flatten_append]; rfl
    rw [bytesOf, hbody, List.append_assoc, List.append_assoc]
  rw [hstart, hsplit, List.drop_left' rfl]
  exact ⟨_, rfl⟩

theorem decodeStored_bytesOf (frames : List (Stored storedFormat)) {i : Nat}
    (hi : i < frames.length) :
    decodeStored (bytesOf frames) (tableOf frames) i = .ok frames[i].content := by
  obtain ⟨-, checksum, hbytes⟩ := frames[i].isFrame
  obtain ⟨more, hdrop⟩ := drop_bytesOf frames hi
  have hsize : (tableOf frames).frameSizeComp i = frames[i].bytes.length := by
    rw [SeekTable.frameSizeComp, tableOf, List.getD_eq_getElem?_getD, List.getElem?_map,
      List.getElem?_eq_getElem hi]
    rfl
  rw [decodeStored, hdrop, hsize, List.take_left' rfl, hbytes]
  simp only [take_storedBytes, drop_storedBytes, if_true]

/-- What a decoder hands out that goes by the table only for where a frame starts, and reads on
until the frame ends. -/
def decodeStreamed (bytes : Bytes) (table : SeekTable) (index : Nat) : Except Error Bytes :=
  let frame := bytes.drop (table.frameStartComp index)
  if frame.take 4 = zstdMagic then
    match le32 (frame.drop 5) with
    | some len => .ok ((frame.drop 9).take len)
    | none => .error (.external "frame is cut short")
  else .error (.external "unknown frame")

theorem decodeStreamed_bytesOf (frames : List (Stored storedFormat)) {i : Nat}
    (hi : i < frames.length) :
    decodeStreamed (bytesOf frames) (tableOf frames) i = .ok frames[i].content := by
  obtain ⟨hle, checksum, hbytes⟩ := frames[i].isFrame
  obtain ⟨more, hdrop⟩ := drop_bytesOf frames hi
  have hlen : (storedBytes checksum frames[i].content ++ more).drop 5 =
      le32Bytes frames[i].content.length ++ (frames[i].content ++ more) := by
    simp [storedBytes, zstdMagic]
  have hbody : (storedBytes checksum frames[i].content ++ more).drop 9 =
      frames[i].content ++ more := rfl
  have hhead : (storedBytes checksum frames[i].content ++ more).take 4 = zstdMagic := rfl
  rw [decodeStreamed, hdrop, hbytes]
  simp only [hhead, if_true, hlen, le32_le32Bytes hle, hbody, List.take_left' rfl]

/-! ### The library -/

/-- `SEEKABLE_MAX_FRAME_SIZE`. -/
def storedLimit : Nat := 0x40000000

/-- The frame of some content, or of none where that is too large for a frame. -/
def storedFrameOf (checksum : Bool) (content : Bytes) : Stored storedFormat :=
  if h : content.length + 9 ≤ u32Max then storedOf checksum content h
  else storedOf checksum [] (show 9 ≤ u32Max by decide)

/-- Data cut where a frame is full. -/
def storedChunks : Nat → Bytes → List Bytes
  | 0, _ => []
  | fuel + 1, data =>
      if data.length ≤ storedLimit then [data]
      else data.take storedLimit :: storedChunks fuel (data.drop storedLimit)

theorem flatten_storedChunks {fuel : Nat} {data : Bytes} (hfuel : data.length < fuel) :
    (storedChunks fuel data).flatten = data ∧
      ∀ chunk ∈ storedChunks fuel data, chunk.length ≤ storedLimit := by
  induction fuel generalizing data with
  | zero => omega
  | succ fuel ih =>
      have hlimit : 0 < storedLimit := by decide
      rw [storedChunks]
      split_ifs with hfits
      · exact ⟨by simp, by simpa using hfits⟩
      · have hless : (data.drop storedLimit).length < fuel := by
          rw [List.length_drop]
          omega
        obtain ⟨hflatten, hchunks⟩ := ih hless
        rw [List.flatten_cons, hflatten, List.take_append_drop]
        refine ⟨rfl, fun chunk hin => ?_⟩
        rcases List.mem_cons.mp hin with rfl | hin
        · exact List.length_take_le _ _
        · exact hchunks chunk hin

theorem storedChunks_ne_nil {fuel : Nat} {data : Bytes} (hfuel : data.length < fuel) :
    storedChunks fuel data ≠ [] := by
  obtain ⟨fuel, rfl⟩ : ∃ more, fuel = more + 1 := ⟨fuel - 1, by omega⟩
  rw [storedChunks]
  split_ifs
  · exact List.cons_ne_nil _ _
  · exact List.cons_ne_nil _ _

/-- What is too large for a frame by less than another takes two. -/
theorem storedChunks_two {data : Bytes} (hover : storedLimit < data.length)
    (hrest : data.length ≤ storedLimit + storedLimit) :
    storedChunks (data.length + 1) data = [data.take storedLimit, data.drop storedLimit] := by
  obtain ⟨fuel, hfuel⟩ : ∃ fuel, data.length = fuel + 1 := ⟨data.length - 1, by omega⟩
  rw [storedChunks, if_neg (Nat.not_le.mpr hover), hfuel, storedChunks,
    if_pos (by rw [List.length_drop]; omega)]

/-- A frame holds whatever it is given, up to the limit. -/
def encodeStored (checksum : Bool) (data : Bytes) : Except Error (List (Stored storedFormat)) :=
  .ok ((storedChunks (data.length + 1) data).map (storedFrameOf checksum))

theorem storedFrameOf_content {checksum : Bool} {content : Bytes}
    (h : content.length ≤ storedLimit) : (storedFrameOf checksum content).content = content := by
  have hsmall : content.length + 9 ≤ u32Max := by
    have : storedLimit + 9 ≤ u32Max := by decide
    omega
  rw [storedFrameOf, dif_pos hsmall]
  rfl

theorem headerChecksum_storedFrameOf (checksum : Bool) (content : Bytes) :
    headerChecksum (storedFrameOf checksum content).bytes = checksum := by
  rw [storedFrameOf]
  split_ifs
  · exact headerChecksum_storedBytes checksum content
  · exact headerChecksum_storedBytes checksum []

def storedZeekstd : Zeekstd where
  toFrameFormat := storedFormat
  fromSeekable := parseTable
  fromSeekable_bytesOf := parseTable_bytesOf
  fromSeekable_length := length_le_of_parseTable
  decodeFrame := decodeStored
  decodeFrame_bytesOf frames _ hi _ := decodeStored_bytesOf frames hi
  encode checksum _ data := encodeStored checksum data
  encode_content {checksum level data frames} h := by
    cases h
    obtain ⟨hflatten, hchunks⟩ := flatten_storedChunks (Nat.lt_succ_self data.length)
    rw [List.map_map, List.map_congr_left fun chunk hin => ?_, List.map_id, hflatten]
    exact storedFrameOf_content (hchunks chunk hin)
  encode_ne_nil {checksum level data frames} h := by
    cases h
    exact mt List.map_eq_nil_iff.mp (storedChunks_ne_nil (Nat.lt_succ_self data.length))
  encode_checksum {checksum level data frames} h frame hin := by
    cases h
    obtain ⟨content, -, rfl⟩ := List.mem_map.mp hin
    exact headerChecksum_storedFrameOf checksum content
  frameLimit := storedLimit
  encode_one {checksum level data frames} h hfits := by
    cases h
    rw [List.length_map, storedChunks, if_pos hfits]
    rfl
  encode_split {checksum level data frames} h hover := by
    cases h
    have hlimit : 0 < storedLimit := by decide
    have hless : (data.drop storedLimit).length < data.length := by
      rw [List.length_drop]
      omega
    have hmore := storedChunks_ne_nil hless
    have hpos := List.length_pos_iff.mpr hmore
    rw [List.length_map, storedChunks, if_neg (by omega), List.length_cons]
    omega
  passedOn _ := []
  passedOn_prefix _ := List.nil_prefix

/-- The same library, with the decoder that reads on until a frame ends. -/
def streamedZeekstd : Zeekstd :=
  { storedZeekstd with
    decodeFrame := decodeStreamed
    decodeFrame_bytesOf := fun frames _ hi _ => decodeStreamed_bytesOf frames hi }

/-! ### Files of stored frames -/

/-- The frame of some content, with a checksum. -/
def storedFrame (content : Bytes) : Stored storedFormat := storedFrameOf true content

/-- One short of a multiple of every length up to 20: a read that wishes for as much takes all of
what so short a frame holds. -/
def wholeWish : Nat := 232792559

/-- The file of some frames. -/
def storedArchive (contents : List Bytes) : Archive storedZeekstd where
  frames := if contents.length ≤ storedFormat.maxFrames then contents.map storedFrame else []
  count_le := by
    split
    · next h => exact Nat.le_trans (Nat.le_of_eq (List.length_map storedFrame)) h
    · exact Nat.zero_le _
  reads := fun _ => wholeWish
  schedule := fun _ => some wholeWish

end SeekZstdSep
