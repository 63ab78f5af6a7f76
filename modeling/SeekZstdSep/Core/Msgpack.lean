/-
Module: SeekZstdSep.Core.Msgpack
Purpose: The finder of `find.rs` for records of one MessagePack value. It counts the values a
  container still owes instead of recursing into them.
Trusted boundary: none
Main exports: msgpackLen, HeadForm, headForm, msgpackHead, byMsgpack
-/
import SeekZstdSep.Core.Source

namespace SeekZstdSep

/-- The `width`-byte big-endian number that follows a MessagePack type byte. -/
def msgpackLen (rest : Bytes) (width : Nat) : Option Nat :=
  if 1 + width ≤ rest.length then
    some (((rest.drop 1).take width).foldl (fun n byte => n <<< 8 ||| byte.toNat) 0)
  else none

/-- What a type byte says of the value it starts. -/
inductive HeadForm where
  /-- the value takes `len` bytes and `children` values follow -/
  | constant (len children : Nat)
  /-- a number of `width` bytes follows and says what the value takes beyond `base` bytes -/
  | sized (base width : Nat)
  /-- a number of `width` bytes follows; the value takes `base` bytes, and `factor` times that
  many values follow -/
  | container (base width factor : Nat)
  | never
deriving Repr, DecidableEq

/-- The arms of `msgpack_head`, for the type byte `byte`. -/
def headForm (byte : Nat) : HeadForm :=
  -- positive fixint, negative fixint, nil, false, true
  if byte ≤ 0x7f ∨ byte = 0xc0 ∨ byte = 0xc2 ∨ byte = 0xc3 ∨ 0xe0 ≤ byte then .constant 1 0
  -- fixmap, fixarray, fixstr
  else if byte ≤ 0x8f then .constant 1 (2 * (byte &&& 0x0f))
  else if byte ≤ 0x9f then .constant 1 (byte &&& 0x0f)
  else if byte ≤ 0xbf then .constant (1 + (byte &&& 0x1f)) 0
  -- never used
  else if byte = 0xc1 then .never
  -- bin 8/16/32
  else if byte = 0xc4 then .sized 2 1
  else if byte = 0xc5 then .sized 3 2
  else if byte = 0xc6 then .sized 5 4
  -- ext 8/16/32, which carry a type byte after the length
  else if byte = 0xc7 then .sized 3 1
  else if byte = 0xc8 then .sized 4 2
  else if byte = 0xc9 then .sized 6 4
  -- float 32/64
  else if byte = 0xca then .constant 5 0
  else if byte = 0xcb then .constant 9 0
  -- uint and int of 8, 16, 32 and 64 bits
  else if byte = 0xcc ∨ byte = 0xd0 then .constant 2 0
  else if byte = 0xcd ∨ byte = 0xd1 then .constant 3 0
  else if byte = 0xce ∨ byte = 0xd2 then .constant 5 0
  else if byte = 0xcf ∨ byte = 0xd3 then .constant 9 0
  -- fixext 1/2/4/8/16, each a type byte and its payload
  else if byte = 0xd4 then .constant 3 0
  else if byte = 0xd5 then .constant 4 0
  else if byte = 0xd6 then .constant 6 0
  else if byte = 0xd7 then .constant 10 0
  else if byte = 0xd8 then .constant 18 0
  -- str 8/16/32
  else if byte = 0xd9 then .sized 2 1
  else if byte = 0xda then .sized 3 2
  else if byte = 0xdb then .sized 5 4
  -- array 16/32, map 16/32
  else if byte = 0xdc then .container 3 2 1
  else if byte = 0xdd then .container 5 4 1
  else if byte = 0xde then .container 3 2 2
  else .container 5 4 2

/-- The bytes one MessagePack value takes before its children, and how many children follow it. -/
def msgpackHead (rest : Bytes) : Option (Nat × Nat) :=
  match rest with
  | [] => none
  | byte :: _ =>
      match headForm byte.toNat with
      | .constant len children => some (len, children)
      | .sized base width => (msgpackLen rest width).map fun len => (base + len, 0)
      | .container base width factor =>
          (msgpackLen rest width).map fun len => (base, factor * len)
      | .never => none

theorem msgpackLen_append {rest : Bytes} {width n : Nat} (e : Bytes)
    (h : msgpackLen rest width = some n) : msgpackLen (rest ++ e) width = some n := by
  unfold msgpackLen at h ⊢
  split at h
  · next hwidth =>
      rw [if_pos (by rw [List.length_append]; omega), List.drop_append_of_le_length (by omega),
        List.take_append_of_le_length (by rw [List.length_drop]; omega)]
      exact h
  · cases h

/-- The type byte and the length after it are all a head is told from. -/
theorem msgpackHead_append {rest : Bytes} {head : Nat × Nat} (e : Bytes)
    (h : msgpackHead rest = some head) : msgpackHead (rest ++ e) = some head := by
  cases rest with
  | nil => cases h
  | cons byte rest =>
      have hlen : ∀ {width : Nat} {f : Nat → Nat × Nat},
          (msgpackLen (byte :: rest) width).map f = some head →
            (msgpackLen (byte :: (rest ++ e)) width).map f = some head := by
        intro width f hsome
        obtain ⟨n, hn, rfl⟩ := Option.map_eq_some_iff.mp hsome
        rw [← List.cons_append, msgpackLen_append e hn]
        rfl
      simp only [List.cons_append, msgpackHead] at h ⊢
      cases hform : headForm byte.toNat with
      | constant len children =>
          rw [hform] at h
          exact h
      | sized base width =>
          rw [hform] at h
          exact hlen h
      | container base width factor =>
          rw [hform] at h
          exact hlen h
      | never =>
          rw [hform] at h
          cases h

/-- What a value takes beyond its declared length. -/
def HeadForm.least : HeadForm → Nat
  | .constant len _ => len
  | .sized base _ => base
  | .container base _ _ => base
  | .never => 1

theorem headForm_least : ∀ byte < 256, 0 < (headForm byte).least := by
  decide +kernel

/-- A value takes at least its type byte. -/
theorem msgpackHead_pos {rest : Bytes} {len children : Nat}
    (h : msgpackHead rest = some (len, children)) : 0 < len := by
  cases rest with
  | nil => cases h
  | cons byte rest =>
      have hleast := headForm_least byte.toNat byte.toNat_lt
      simp only [msgpackHead] at h
      cases hform : headForm byte.toNat with
      | constant len children =>
          rw [hform, HeadForm.least] at hleast
          simp only [hform, Option.some.injEq, Prod.mk.injEq] at h
          omega
      | sized base width =>
          rw [hform, HeadForm.least] at hleast
          simp only [hform, Option.map_eq_some_iff, Prod.mk.injEq] at h
          omega
      | container base width factor =>
          rw [hform, HeadForm.least] at hleast
          simp only [hform, Option.map_eq_some_iff, Prod.mk.injEq] at h
          obtain ⟨n, -, hlen, -⟩ := h
          omega
      | never => simp [hform] at h

/-- The loop of `by_msgpack`: `pos` is where the next value starts, `pending` the values still
owed. The sums are checked `u64` additions. -/
def byMsgpackFrom (data : Bytes) (pos pending : Nat) : Option Nat :=
  if pending = 0 then some pos
  else
    match hhead : msgpackHead (data.drop pos) with
    | none => none
    | some (len, children) =>
        if usizeMax < pos + len then none
        else if hend : data.length < pos + len then none
        else if usizeMax < pending - 1 + children then none
        else byMsgpackFrom data (pos + len) (pending - 1 + children)
termination_by data.length - pos
decreasing_by
  have hpos := msgpackHead_pos hhead
  omega

/-- Records of one MessagePack value, whose length comes from walking its type bytes. -/
def byMsgpack (data : Bytes) : Option Nat := byMsgpackFrom data 0 1

end SeekZstdSep
