/-
Module: SeekZstdSep.Lib.RecordLog
Purpose: What a list of frames with `n` records to each is there for: records in order, and what
  is left behind the last of them. A run of the frames is a part of the log, frames behind full
  ones are one log behind another, and the log says which frames it is held in.
Trusted boundary: none
Main exports: RecordLog, RecordLog.slice, RecordLog.records_range, RecordLog.join,
  RecordLog.append, Finder.log, Uniform.log_slice, log_append_full, Uniform.log_append,
  Uniform.eq_of_log
-/
import SeekZstdSep.Lib.Groups

namespace SeekZstdSep.Lib

universe u

variable {α : Type u}

/-- Records in order, what is left behind the last of them, how many there are to a frame and how
many frames they are held in. -/
@[ext]
structure RecordLog (α : Type u) where
  perFrame : Nat
  frames : Nat
  records : List (List α)
  rest : List α

namespace RecordLog

/-- All of it in order. -/
def data (log : RecordLog α) : List α := log.records.flatten ++ log.rest

/-- The records, with what is left behind them where `tail` says it counts as one. -/
def items (log : RecordLog α) (tail : Bool) : List (List α) :=
  log.records ++ (if tail && !log.rest.isEmpty then [log.rest] else [])

/-- The frames from `k` on that are before frame `j`. -/
def slice (log : RecordLog α) (k j : Nat) : RecordLog α where
  perFrame := log.perFrame
  frames := j - k
  records := (log.records.drop (log.perFrame * k)).take (log.perFrame * (j - k))
  rest := if j < log.frames then [] else log.rest

/-- The frames that a range of records covers: from the one its first record starts to the one it
ends in front of, or to the last where it ends in front of none. -/
def cover (log : RecordLog α) (fromIdx : Nat) (cnt : Option Nat) : Nat × Nat :=
  (fromIdx / log.perFrame,
    match cnt with
    | none => log.frames
    | some c =>
        if (fromIdx + c) % log.perFrame = 0 ∧ (fromIdx + c) / log.perFrame < log.frames then
          (fromIdx + c) / log.perFrame
        else log.frames)

theorem cover_of_inside {log : RecordLog α} {fromIdx c : Nat}
    (h : (fromIdx + c) % log.perFrame = 0 ∧ (fromIdx + c) / log.perFrame < log.frames) :
    log.cover fromIdx (some c) = (fromIdx / log.perFrame, (fromIdx + c) / log.perFrame) := by
  simp only [cover, if_pos h]

theorem cover_of_not_inside {log : RecordLog α} {fromIdx c : Nat}
    (h : ¬ ((fromIdx + c) % log.perFrame = 0 ∧ (fromIdx + c) / log.perFrame < log.frames)) :
    log.cover fromIdx (some c) = (fromIdx / log.perFrame, log.frames) := by
  simp only [cover, if_neg h]

/-- The frames that a range of records covers, as a log of their own. -/
def range (log : RecordLog α) (fromIdx : Nat) (cnt : Option Nat) : RecordLog α :=
  log.slice (log.cover fromIdx cnt).1 (log.cover fromIdx cnt).2

/-- So many of some things, or all of them. -/
def upTo {β : Type u} (cnt : Option Nat) (l : List β) : List β :=
  match cnt with
  | none => l
  | some c => l.take c

/-- A range from the start of a frame on holds the records asked for, where it ends in front of a
frame or with the last record. -/
theorem records_range (log : RecordLog α) {fromIdx : Nat} {cnt : Option Nat}
    (hfrom : fromIdx % log.perFrame = 0) (hmost : log.records.length ≤ log.perFrame * log.frames)
    (hends : ∀ c, cnt = some c →
      ((fromIdx + c) % log.perFrame = 0 ∧ (fromIdx + c) / log.perFrame < log.frames) ∨
        fromIdx + c = log.records.length) :
    (log.range fromIdx cnt).records = upTo cnt (log.records.drop fromIdx) := by
  have hstart : log.perFrame * (fromIdx / log.perFrame) = fromIdx :=
    Nat.mul_div_cancel' (Nat.dvd_of_mod_eq_zero hfrom)
  have hall : ((log.slice (fromIdx / log.perFrame) log.frames)).records =
      log.records.drop fromIdx := by
    simp only [slice, hstart, Nat.mul_sub]
    apply List.take_of_length_le
    rw [List.length_drop]
    omega
  cases cnt with
  | none => exact hall
  | some c =>
      rw [range, upTo]
      by_cases hinside : (fromIdx + c) % log.perFrame = 0 ∧
          (fromIdx + c) / log.perFrame < log.frames
      · have hend : log.perFrame * ((fromIdx + c) / log.perFrame) = fromIdx + c :=
          Nat.mul_div_cancel' (Nat.dvd_of_mod_eq_zero hinside.1)
        simp only [cover_of_inside hinside, slice, hstart, Nat.mul_sub, hend]
        rw [Nat.add_sub_cancel_left]
      · have htotal := (hends c rfl).resolve_left hinside
        rw [cover_of_not_inside hinside, hall, List.take_of_length_le]
        rw [List.length_drop]
        omega

/-- Nothing is left behind a range of records that nothing is left behind. -/
theorem rest_range {log : RecordLog α} (hrest : log.rest = []) (fromIdx : Nat)
    (cnt : Option Nat) : (log.range fromIdx cnt).rest = [] := by
  simp only [range, slice, hrest, ite_self]

/-- The first records, as many as fill whole frames. -/
def truncate (log : RecordLog α) (records : Nat) : RecordLog α :=
  log.slice 0 (records / log.perFrame)

/-- Another log behind this one. -/
def join (log more : RecordLog α) : RecordLog α where
  perFrame := log.perFrame
  frames := log.frames + more.frames
  records := log.records ++ more.records
  rest := more.rest

/-- How many frames hold so many records and what is left behind them: what is left has a frame
to itself where the one before is full. -/
def frameCount (perFrame records : Nat) (rest : List α) : Nat :=
  records / perFrame + if records % perFrame = 0 ∧ rest = [] then 0 else 1

/-- Data behind the log. What was left unfinished is ended with the separator first. -/
def append (f : Finder α) (log : RecordLog α) (separator data : List α) : RecordLog α :=
  if data = [] then log
  else
    let ended := if log.rest = [] then [] else [log.rest ++ separator]
    let records := log.records ++ ended ++ f.records data
    { perFrame := log.perFrame
      frames := frameCount log.perFrame records.length (f.rest data)
      records := records
      rest := f.rest data }

end RecordLog

/-- The log that some frames hold. -/
def Finder.log (f : Finder α) (n : Nat) (frames : List (List α)) : RecordLog α where
  perFrame := n
  frames := frames.length
  records := f.records frames.flatten
  rest := f.rest frames.flatten

variable {f : Finder α} {tail : Bool} {n : Nat} {frames : List (List α)}

@[simp] theorem Finder.perFrame_log (f : Finder α) (n : Nat) (frames : List (List α)) :
    (f.log n frames).perFrame = n := rfl

@[simp] theorem Finder.frames_log (f : Finder α) (n : Nat) (frames : List (List α)) :
    (f.log n frames).frames = frames.length := rfl

@[simp] theorem Finder.data_log (f : Finder α) (n : Nat) (frames : List (List α)) :
    (f.log n frames).data = frames.flatten := f.flatten_records_append_rest frames.flatten

@[simp] theorem Finder.items_log (f : Finder α) (tail : Bool) (n : Nat)
    (frames : List (List α)) : (f.log n frames).items tail = f.items tail frames.flatten := rfl

/-! ### Parts of a log -/

/-- A run of the frames holds its part of the log. -/
theorem Uniform.log_slice (h : Uniform f tail n frames) {k j : Nat} (hkj : k ≤ j)
    (hk : k < frames.length) (hj : j ≤ frames.length) :
    f.log n ((frames.drop k).take (j - k)) = (f.log n frames).slice k j := by
  have hlength : ((frames.drop k).take (j - k)).length = j - k := by
    rw [List.length_take, List.length_drop]
    omega
  rcases Nat.lt_or_eq_of_le hj with hlt | rfl
  · obtain ⟨hrecords, hrest⟩ := h.records_region (k := k) (j := j - k) (by omega)
    ext1
    · rfl
    · exact hlength
    · exact hrecords
    · exact hrest.trans (if_pos hlt).symm
  · have hafter := h.region_to_end (k := k) (j := frames.length - k) hk (by omega)
    have hmost : ((f.records frames.flatten).drop (n * k)).length ≤
        n * (frames.length - k) := by
      rw [List.length_drop, Nat.mul_sub]
      exact Nat.sub_le_sub_right h.length_records_le _
    ext1
    · rfl
    · exact hlength
    · calc f.records ((frames.drop k).take (frames.length - k)).flatten
          = (f.records frames.flatten).drop (n * k) := by rw [hafter, f.records_after]
        _ = _ := (List.take_of_length_le hmost).symm
    · calc f.rest ((frames.drop k).take (frames.length - k)).flatten
          = f.rest frames.flatten := by rw [hafter, f.rest_after]
        _ = _ := (if_neg (Nat.lt_irrefl _)).symm

/-- Frames behind full ones hold one log behind another. -/
theorem log_append_full (hfull : ∀ g ∈ frames, f.Full n g) (more : List (List α)) :
    f.log n (frames ++ more) = (f.log n frames).join (f.log n more) := by
  have hrest := (records_flatten_of_full hfull).2
  ext1
  · rfl
  · exact List.length_append
  · show f.records (frames ++ more).flatten = _
    rw [List.flatten_append, f.records_append_of_rest hrest]
    rfl
  · show f.rest (frames ++ more).flatten = _
    rw [List.flatten_append, f.rest_append_of_rest hrest]
    rfl

/-! ### Data behind a log -/

theorem RecordLog.frameCount_add (hn : 0 < n) (k records : Nat) (rest : List α) :
    frameCount n (n * k + records) rest = k + frameCount n records rest := by
  rw [frameCount, frameCount, Nat.mul_add_div hn, Nat.mul_add_mod, Nat.add_assoc]

/-- What a list is cut into takes as many frames as its records and its remainder do. -/
theorem Finder.length_groups (hn : 0 < n) (d : List α) :
    (f.groups n d).length = RecordLog.frameCount n (f.records d).length (f.rest d) := by
  induction d using groups_induction (f := f) hn with
  | few d hlt =>
      rw [RecordLog.frameCount, Nat.div_eq_of_lt hlt, Nat.mod_eq_of_lt hlt, Nat.zero_add]
      by_cases hne : d = []
      · simp [hne, groups_nil hn]
      · rw [groups_of_lt hlt hne, if_neg, List.length_singleton]
        rintro ⟨hnone, hrest⟩
        have hall := f.flatten_records_append_rest d
        rw [hrest, List.length_eq_zero_iff.mp hnone] at hall
        exact hne hall.symm
  | group d hle ih =>
      have hcount := RecordLog.frameCount_add hn 1 ((f.records d).length - n) (f.rest d)
      rw [Nat.mul_one, Nat.add_sub_cancel' hle] at hcount
      rw [groups_of_le hn hle, List.length_cons, ih, f.records_after, f.rest_after,
        List.length_drop, hcount, Nat.add_comm]

/-- The last frame cut anew, with the separator behind its unfinished record and the data behind
that, is the data behind the log. -/
theorem Uniform.log_append (h : Uniform f tail n frames) {separator data : List α}
    (hdata : data ≠ [])
    (hended : f.rest frames.flatten ≠ [] →
      f.records (f.rest frames.flatten ++ separator) = [f.rest frames.flatten ++ separator] ∧
        f.rest (f.rest frames.flatten ++ separator) = []) :
    f.log n (frames.dropLast ++ f.groups n (frames.getLastD [] ++
        (if f.rest (frames.getLastD []) = [] then [] else separator) ++ data)) =
      (f.log n frames).append f separator data := by
  obtain ⟨init, last, rfl, hinit, -⟩ := h.exists_concat
  obtain ⟨hcount, hrest⟩ := records_flatten_of_full hinit
  have hflatten : (init ++ [last]).flatten = init.flatten ++ last := by simp
  have hlast : f.rest (init ++ [last]).flatten = f.rest last := by
    rw [hflatten, f.rest_append_of_rest hrest]
  have hrecords : f.records (init ++ [last]).flatten =
      f.records init.flatten ++ f.records last := by
    rw [hflatten, f.records_append_of_rest hrest]
  rw [hlast] at hended
  rw [List.dropLast_concat, List.getLastD_concat]
  generalize hglue : (if f.rest last = [] then [] else separator) = glue
  -- up to the data everything is whole records
  have hwhole : f.records (last ++ glue) =
        f.records last ++ (if f.rest last = [] then [] else [f.rest last ++ separator]) ∧
      f.rest (last ++ glue) = [] := by
    rw [f.records_append, f.rest_append, ← hglue]
    by_cases hnone : f.rest last = []
    · simp [hnone]
    · obtain ⟨hone, hnothing⟩ := hended hnone
      simp only [if_neg hnone, hone, hnothing, and_self]
  have hgroups : f.records (last ++ glue ++ data) =
        f.records last ++ (if f.rest last = [] then [] else [f.rest last ++ separator]) ++
          f.records data ∧
      f.rest (last ++ glue ++ data) = f.rest data := by
    rw [f.records_append_of_rest hwhole.2, f.rest_append_of_rest hwhole.2, hwhole.1]
    exact ⟨rfl, rfl⟩
  generalize last ++ glue ++ data = regrouped at hgroups ⊢
  have hall : f.records (init ++ [last]).flatten ++
      (if f.rest last = [] then [] else [f.rest last ++ separator]) ++ f.records data =
        f.records init.flatten ++ f.records regrouped := by
    rw [hrecords, hgroups.1, List.append_assoc, List.append_assoc, List.append_assoc]
  rw [log_append_full hinit, RecordLog.append, if_neg hdata]
  simp only [Finder.log, RecordLog.join, Finder.flatten_groups h.pos, hlast, hall, hgroups.2,
    Finder.length_groups h.pos, RecordLog.mk.injEq, true_and, and_true]
  rw [← RecordLog.frameCount_add h.pos, ← hcount, ← List.length_append]

/-! ### The frames of a log -/

/-- Two lists of as many frames that join to the same are the same. -/
theorem Uniform.eq_of_flatten (h : Uniform f tail n frames) {tail' : Bool}
    {frames' : List (List α)} (h' : Uniform f tail' n frames')
    (hlength : frames.length = frames'.length) (hflatten : frames.flatten = frames'.flatten) :
    frames = frames' := by
  apply List.ext_getElem hlength
  intro k hk hk'
  have hdrop : (frames.drop k).flatten = (frames'.drop k).flatten := by
    rw [← h.after_flatten hk, ← h'.after_flatten hk', hflatten]
  rw [List.drop_eq_getElem_cons hk, List.drop_eq_getElem_cons hk', List.flatten_cons,
    List.flatten_cons] at hdrop
  by_cases hlast : k + 1 = frames.length
  · simpa [List.drop_of_length_le (Nat.le_of_eq hlast.symm),
      List.drop_of_length_le (Nat.le_of_eq (hlength ▸ hlast.symm))] using hdrop
  · have hnext : (frames.drop (k + 1)).flatten = (frames'.drop (k + 1)).flatten := by
      rw [← h.after_flatten (by omega), ← h'.after_flatten (by omega), hflatten]
    rw [hnext] at hdrop
    exact List.append_cancel_right hdrop

/-- The log says which frames it is held in. -/
theorem Uniform.eq_of_log (h : Uniform f tail n frames) {tail' : Bool} {frames' : List (List α)}
    (h' : Uniform f tail' n frames') (hlog : f.log n frames = f.log n frames') :
    frames = frames' := by
  apply h.eq_of_flatten h' (congrArg RecordLog.frames hlog)
  rw [← f.data_log n frames, hlog, f.data_log]

end SeekZstdSep.Lib
