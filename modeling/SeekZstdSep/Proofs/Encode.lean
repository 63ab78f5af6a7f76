/-
Module: SeekZstdSep.Proofs.Encode
Purpose: What an encoder makes of groups of records, each written and ended before the next: one
  frame of every group it does not have to split.
Trusted boundary: the library, as `Zeekstd` has it
Main exports: Encoder.encodeAll, OneEach, encodeAll_eq_ok, encodeAll_of_oneEach,
  encodeFrame_eq_ok
-/
import SeekZstdSep.Core.Append
import Mathlib.Data.List.Forall2

namespace SeekZstdSep

variable {zeek : Zeekstd}

/-- Writes the groups, ending a frame behind each. -/
def Encoder.encodeAll : Encoder zeek → List Bytes → Except Error (Encoder zeek)
  | encoder, [] => .ok encoder
  | encoder, g :: gs =>
      match (encoder.write g).endFrame with
      | .error e => .error e
      | .ok encoder => encodeAll encoder gs

/-- Each group makes the one frame. -/
def OneEach (zeek : Zeekstd) (checksum : Bool) (level : Int) (gs : List Bytes)
    (frames : List (Stored zeek.toFrameFormat)) : Prop :=
  List.Forall₂ (fun g frame => zeek.encode checksum level g = .ok [frame]) gs frames

/-- What is encoded as one frame is its content. -/
theorem Zeekstd.content_of_encode {checksum : Bool} {level : Int} {data : Bytes}
    {frame : Stored zeek.toFrameFormat} (h : zeek.encode checksum level data = .ok [frame]) :
    frame.content = data := by
  have hcontent := zeek.encode_content h
  simpa using hcontent

namespace OneEach

variable {checksum : Bool} {level : Int} {gs : List Bytes}
  {frames : List (Stored zeek.toFrameFormat)}

theorem contents (h : OneEach zeek checksum level gs frames) :
    frames.map Stored.content = gs := by
  induction h with
  | nil => rfl
  | cons hone _ ih => rw [List.map_cons, ih, zeek.content_of_encode hone]

theorem length_eq (h : OneEach zeek checksum level gs frames) : frames.length = gs.length :=
  (List.Forall₂.length_eq h).symm

theorem checksums (h : OneEach zeek checksum level gs frames) :
    ∀ frame ∈ frames, headerChecksum frame.bytes = checksum := by
  induction h with
  | nil => exact fun frame hin => absurd hin List.not_mem_nil
  | cons hone _ ih =>
      intro frame hin
      rcases List.mem_cons.mp hin with rfl | hin
      · exact zeek.encode_checksum hone _ List.mem_cons_self
      · exact ih frame hin

end OneEach

theorem OneEach.unique {checksum : Bool} {level : Int} {gs : List Bytes}
    {frames frames' : List (Stored zeek.toFrameFormat)}
    (h : OneEach zeek checksum level gs frames) (h' : OneEach zeek checksum level gs frames') :
    frames = frames' := by
  induction h generalizing frames' with
  | nil =>
      cases h'
      rfl
  | cons hone _ ih =>
      obtain ⟨frame', rest, hfirst, hrest, rfl⟩ := List.forall₂_cons_left_iff.mp h'
      rw [hone] at hfirst
      cases hfirst
      rw [ih hrest]

/-- Whatever else says what the groups make says the same. -/
theorem OneEach.flatten_eq {checksum : Bool} {level : Int} {gs : List Bytes}
    {frames : List (Stored zeek.toFrameFormat)} (h : OneEach zeek checksum level gs frames)
    {made : List (List (Stored zeek.toFrameFormat))}
    (hmade : List.Forall₂ (fun g frames => zeek.encode checksum level g = .ok frames) gs made) :
    made.flatten = frames := by
  induction h generalizing made with
  | nil =>
      cases hmade
      rfl
  | cons hone _ ih =>
      obtain ⟨first, rest, hfirst, hrest, rfl⟩ := List.forall₂_cons_left_iff.mp hmade
      rw [hone] at hfirst
      cases hfirst
      rw [List.flatten_cons, ih hrest, List.singleton_append]

/-! ### Ending a frame -/

namespace Encoder

variable {encoder encoder' : Encoder zeek}

/-- A frame that is ended was encoded, and there is room for it. -/
theorem endFrame_eq_ok {g : Bytes} (hpending : encoder.pending = []) :
    (encoder.write g).endFrame = .ok encoder' ↔
      ∃ made, zeek.encode encoder.checksum encoder.level g = .ok made ∧
        (encoder.ended ++ made).length ≤ zeek.maxFrames ∧
        encoder' = { encoder with ended := encoder.ended ++ made } := by
  have hwritten : (encoder.write g).pending = g := by
    rw [write, hpending]
    rfl
  rw [endFrame, hwritten]
  cases hencode : zeek.encode (encoder.write g).checksum (encoder.write g).level g with
  | error e =>
      have hsame : zeek.encode encoder.checksum encoder.level g = .error e := hencode
      simp [hsame]
  | ok made =>
      have hsame : zeek.encode encoder.checksum encoder.level g = .ok made := hencode
      have hended : (encoder.write g).ended = encoder.ended := rfl
      simp only [hsame, hended, Except.ok.injEq, exists_eq_left']
      by_cases hroom : (encoder.ended ++ made).length ≤ zeek.maxFrames
      · rw [if_neg (by omega)]
        simp only [Except.ok.injEq, hroom, true_and]
        rw [eq_comm]
        have hsame' : ({ encoder.write g with pending := [], ended := encoder.ended ++ made } :
            Encoder zeek) = { encoder with ended := encoder.ended ++ made } := by
          rw [← hpending]
          rfl
        rw [hsame']
      · rw [if_pos (by omega)]
        constructor
        · intro hfalse
          cases hfalse
        · rintro ⟨hle, -⟩
          exact absurd hle hroom

/-- The frames of all groups, where they could be encoded. -/
theorem encodeAll_eq_ok {gs : List Bytes} (hpending : encoder.pending = []) :
    encoder.encodeAll gs = .ok encoder' ↔
      ∃ made : List (List (Stored zeek.toFrameFormat)),
        List.Forall₂ (fun g frames => zeek.encode encoder.checksum encoder.level g = .ok frames)
          gs made ∧
        (gs = [] ∨ (encoder.ended ++ made.flatten).length ≤ zeek.maxFrames) ∧
        encoder' = { encoder with ended := encoder.ended ++ made.flatten } := by
  induction gs generalizing encoder with
  | nil =>
      rw [encodeAll, Except.ok.injEq]
      constructor
      · rintro rfl
        exact ⟨[], List.Forall₂.nil, Or.inl rfl, by simp⟩
      · rintro ⟨made, hmade, -, rfl⟩
        cases hmade
        simp
  | cons g gs ih =>
      rw [encodeAll]
      constructor
      · intro hok
        cases hend : (encoder.write g).endFrame with
        | error e =>
            rw [hend] at hok
            cases hok
        | ok encoder₁ =>
            rw [hend] at hok
            obtain ⟨first, hfirst, hroom, rfl⟩ := (endFrame_eq_ok hpending).mp hend
            obtain ⟨made, hmade, hall, rfl⟩ := (ih (by exact hpending)).mp hok
            refine ⟨first :: made, List.Forall₂.cons hfirst hmade, Or.inr ?_, ?_⟩
            · rcases hall with rfl | hall
              · cases hmade
                simpa using hroom
              · rw [List.flatten_cons, ← List.append_assoc]
                exact hall
            · rw [List.flatten_cons, ← List.append_assoc]
      · rintro ⟨made, hmade, hroom, rfl⟩
        obtain ⟨first, rest, hfirst, hrest, rfl⟩ := List.forall₂_cons_left_iff.mp hmade
        have hall : (encoder.ended ++ (first ++ rest.flatten)).length ≤ zeek.maxFrames := by
          rcases hroom with hnil | hroom
          · exact absurd hnil (List.cons_ne_nil g gs)
          · exact hroom
        have hend := (endFrame_eq_ok (g := g) hpending).mpr ⟨first, hfirst, by
          rw [← List.append_assoc, List.length_append] at hall
          omega, rfl⟩
        rw [hend]
        exact (ih (by exact hpending)).mpr ⟨rest, hrest, Or.inr (by
          rw [List.append_assoc]
          exact hall), by rw [List.flatten_cons, List.append_assoc]⟩

/-- Groups that make one frame each, where there is room for them. -/
theorem encodeAll_of_oneEach {gs : List Bytes} {frames : List (Stored zeek.toFrameFormat)}
    (hpending : encoder.pending = [])
    (hone : OneEach zeek encoder.checksum encoder.level gs frames)
    (hroom : encoder.ended.length + frames.length ≤ zeek.maxFrames) :
    encoder.encodeAll gs = .ok { encoder with ended := encoder.ended ++ frames } := by
  have hflatten : (frames.map fun frame => [frame]).flatten = frames := by
    rw [← List.flatMap_def]
    exact List.flatMap_singleton' frames
  refine (encodeAll_eq_ok hpending).mpr ⟨frames.map fun frame => [frame], ?_, Or.inr ?_, ?_⟩
  · exact List.forall₂_map_right_iff.mpr hone
  · rw [hflatten, List.length_append]
    exact hroom
  · rw [hflatten]

theorem encodeAll_append (encoder : Encoder zeek) (gs hs : List Bytes) :
    encoder.encodeAll (gs ++ hs) =
      match encoder.encodeAll gs with
      | .error e => .error e
      | .ok encoder => encoder.encodeAll hs := by
  induction gs generalizing encoder with
  | nil => rfl
  | cons g gs ih =>
      rw [List.cons_append, encodeAll, encodeAll]
      cases (encoder.write g).endFrame with
      | error e => rfl
      | ok encoder => exact ih encoder

end Encoder

/-- Where as many frames come out as groups went in, each made one. -/
theorem oneEach_of_length {checksum : Bool} {level : Int} {gs : List Bytes}
    {made : List (List (Stored zeek.toFrameFormat))}
    (h : List.Forall₂ (fun g frames => zeek.encode checksum level g = .ok frames) gs made)
    (hlength : made.flatten.length ≤ gs.length) : OneEach zeek checksum level gs made.flatten := by
  have hleast : ∀ {gs : List Bytes} {made : List (List (Stored zeek.toFrameFormat))},
      List.Forall₂ (fun g frames => zeek.encode checksum level g = .ok frames) gs made →
        gs.length ≤ made.flatten.length := by
    intro gs made h
    induction h with
    | nil => exact Nat.le_refl _
    | cons hone _ ih =>
        have hpos := List.length_pos_iff.mpr (zeek.encode_ne_nil hone)
        rw [List.flatten_cons, List.length_append, List.length_cons]
        omega
  induction h with
  | nil => exact List.Forall₂.nil
  | @cons g frames gs made hone hrest ih =>
      have hpos := List.length_pos_iff.mpr (zeek.encode_ne_nil hone)
      have hmore := hleast hrest
      rw [List.flatten_cons, List.length_append, List.length_cons] at hlength
      obtain ⟨frame, rfl⟩ := List.length_eq_one_iff.mp (show frames.length = 1 by omega)
      rw [List.flatten_cons, List.singleton_append]
      exact List.Forall₂.cons hone (ih (by omega))

section Made

variable {checksum : Bool} {level : Int} {gs : List Bytes}
  {made : List (List (Stored zeek.toFrameFormat))}

/-- However groups are split, they are what the frames hold. -/
theorem flatten_contents_of_made
    (h : List.Forall₂ (fun g frames => zeek.encode checksum level g = .ok frames) gs made) :
    (made.flatten.map Stored.content).flatten = gs.flatten := by
  induction h with
  | nil => rfl
  | cons hone _ ih =>
      rw [List.flatten_cons, List.map_append, List.flatten_append, ih, zeek.encode_content hone,
        List.flatten_cons]

/-- Groups that fit a frame make one each. -/
theorem oneEach_of_le
    (h : List.Forall₂ (fun g frames => zeek.encode checksum level g = .ok frames) gs made)
    (hfits : ∀ g ∈ gs, g.length ≤ zeek.frameLimit) :
    OneEach zeek checksum level gs made.flatten := by
  induction h with
  | nil => exact List.Forall₂.nil
  | @cons g frames gs made hone hrest ih =>
      have hlength := zeek.encode_one hone (hfits g List.mem_cons_self)
      obtain ⟨frame, rfl⟩ := List.length_eq_one_iff.mp hlength
      rw [List.flatten_cons, List.singleton_append]
      exact List.Forall₂.cons hone (ih fun g hg => hfits g (List.mem_cons_of_mem _ hg))

/-- Groups that make one frame each fit it. -/
theorem OneEach.length_le {frames : List (Stored zeek.toFrameFormat)}
    (h : OneEach zeek checksum level gs frames) : ∀ g ∈ gs, g.length ≤ zeek.frameLimit := by
  induction h with
  | nil => exact fun g hg => absurd hg List.not_mem_nil
  | @cons g frame gs frames hone _ ih =>
      intro g' hg
      rcases List.mem_cons.mp hg with rfl | hg
      · by_contra hover
        have hsplit := zeek.encode_split hone (Nat.lt_of_not_le hover)
        exact Nat.lt_irrefl 1 hsplit
      · exact ih g' hg

end Made

/-- A frame of its own. -/
theorem encodeFrame_eq_ok {data : Bytes} {checksum : Bool} {level : Int}
    {frame : Stored zeek.toFrameFormat} :
    encodeFrame zeek data checksum level = .ok frame ↔
      zeek.encode checksum level data = .ok [frame] ∧ 1 ≤ zeek.maxFrames := by
  rw [encodeFrame]
  constructor
  · intro hok
    split at hok
    · cases hok
    · next encoder hend =>
        obtain ⟨made, hmade, hroom, rfl⟩ := (Encoder.endFrame_eq_ok rfl).mp hend
        simp only [List.nil_append] at hok hroom
        match made, hok, hmade, hroom with
        | [only], hok, hmade, hroom =>
            cases hok
            exact ⟨hmade, hroom⟩
  · rintro ⟨hencode, hroom⟩
    have hpending : ({ checksum := checksum, level := level } : Encoder zeek).pending = [] := rfl
    have hend := (Encoder.endFrame_eq_ok (g := data) hpending).mpr ⟨[frame], hencode, hroom, rfl⟩
    simp only [hend]
    rfl

end SeekZstdSep
