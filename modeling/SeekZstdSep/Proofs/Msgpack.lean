/-
Module: SeekZstdSep.Proofs.Msgpack
Purpose: The finder for MessagePack records takes exactly one value: the grammar of the format,
  with arrays and maps that hold values, and the counting loop that accepts what it generates.
Trusted boundary: the grammar below, which states the published format
Main exports: Value, msgpackForm, tree_iff_value, byMsgpackFrom_iff, by_msgpack_accepts_grammar,
  msgpackFinder
-/
import SeekZstdSep.Core.Msgpack
import SeekZstdSep.Lib.HeadFirst

namespace SeekZstdSep

open Lib

/-! ### The format -/

/-- The number some bytes write, the highest one first. -/
def bigEndian (bytes : Bytes) : Nat := bytes.foldl (fun n byte => 256 * n + byte.toNat) 0

/-- The formats of a constant size: the type byte, and how many bytes follow it. -/
def constantForms : List (Nat × Nat) :=
  -- nil, false, true
  [(0xc0, 0), (0xc2, 0), (0xc3, 0),
  -- float 32, float 64
    (0xca, 4), (0xcb, 8),
  -- uint 8, 16, 32 and 64, int 8, 16, 32 and 64
    (0xcc, 1), (0xcd, 2), (0xce, 4), (0xcf, 8), (0xd0, 1), (0xd1, 2), (0xd2, 4), (0xd3, 8),
  -- fixext 1, 2, 4, 8 and 16, with the type of the extension
    (0xd4, 2), (0xd5, 3), (0xd6, 5), (0xd7, 9), (0xd8, 17)]

/-- The formats that carry their length: the type byte, the width of the length, and how many
bytes that it does not count stand before the payload. -/
def sizedForms : List (Nat × Nat × Nat) :=
  -- bin 8, 16 and 32
  [(0xc4, 1, 0), (0xc5, 2, 0), (0xc6, 4, 0),
  -- ext 8, 16 and 32, with the type of the extension
    (0xc7, 1, 1), (0xc8, 2, 1), (0xc9, 4, 1),
  -- str 8, 16 and 32
    (0xd9, 1, 0), (0xda, 2, 0), (0xdb, 4, 0)]

/-- A value that holds no other. -/
inductive Scalar : Bytes → Prop where
  | positiveFixint {tag : UInt8} (lt : tag.toNat < 0x80) : Scalar [tag]
  | negativeFixint {tag : UInt8} (le : 0xe0 ≤ tag.toNat) : Scalar [tag]
  | fixstr {tag : UInt8} {payload : Bytes} (le : 0xa0 ≤ tag.toNat) (lt : tag.toNat < 0xc0)
      (length : payload.length = tag.toNat - 0xa0) : Scalar (tag :: payload)
  | constant {tag : UInt8} {payload : Bytes}
      (form : (tag.toNat, payload.length) ∈ constantForms) : Scalar (tag :: payload)
  | sized {tag : UInt8} {len payload : Bytes} {extra : Nat}
      (form : (tag.toNat, len.length, extra) ∈ sizedForms)
      (length : payload.length = extra + bigEndian len) : Scalar (tag :: (len ++ payload))

/-- The head of a container that says how many elements it has: in its type byte where there are
fewer than 16, in the two or four bytes after it else. -/
inductive ContainerHead (fix tag16 tag32 : Nat) : Nat → Bytes → Prop where
  | fix {tag : UInt8} (le : fix ≤ tag.toNat) (lt : tag.toNat < fix + 16) :
      ContainerHead fix tag16 tag32 (tag.toNat - fix) [tag]
  | len16 {tag : UInt8} {len : Bytes} (form : tag.toNat = tag16) (width : len.length = 2) :
      ContainerHead fix tag16 tag32 (bigEndian len) (tag :: len)
  | len32 {tag : UInt8} {len : Bytes} (form : tag.toNat = tag32) (width : len.length = 4) :
      ContainerHead fix tag16 tag32 (bigEndian len) (tag :: len)

abbrev ArrayHead : Nat → Bytes → Prop := ContainerHead 0x90 0xdc 0xdd

abbrev MapHead : Nat → Bytes → Prop := ContainerHead 0x80 0xde 0xdf

/-- One complete value. -/
inductive Value : Bytes → Prop where
  | scalar {bytes : Bytes} (scalar : Scalar bytes) : Value bytes
  | array {head : Bytes} {elements : List Bytes} (length : ArrayHead elements.length head)
      (values : ∀ element ∈ elements, Value element) : Value (head ++ elements.flatten)
  | map {head : Bytes} {entries : List (Bytes × Bytes)} (length : MapHead entries.length head)
      (keys : ∀ entry ∈ entries, Value entry.1) (values : ∀ entry ∈ entries, Value entry.2) :
      Value (head ++ (entries.map fun entry => entry.1 ++ entry.2).flatten)

/-! ### The heads -/

/-- The head of a value, and how many values it is followed by. -/
def IsHead (head : Bytes) (children : Nat) : Prop :=
  (Scalar head ∧ children = 0) ∨ ArrayHead children head ∨
    ∃ entries, children = 2 * entries ∧ MapHead entries head

theorem shift_or_byte (n : Nat) (byte : UInt8) : n <<< 8 ||| byte.toNat = 256 * n + byte.toNat := by
  rw [← Nat.shiftLeft_add_eq_or_of_lt byte.toNat_lt, Nat.shiftLeft_eq]
  omega

/-- The number behind a type byte. -/
theorem msgpackLen_cons (tag : UInt8) (len more : Bytes) :
    msgpackLen (tag :: (len ++ more)) len.length = some (bigEndian len) := by
  rw [msgpackLen, if_pos (by simp; omega)]
  simp only [shift_or_byte, List.drop_succ_cons, List.drop_zero, List.take_left]
  rfl

theorem exists_of_msgpackLen {tag : UInt8} {more : Bytes} {width n : Nat}
    (h : msgpackLen (tag :: more) width = some n) :
    ∃ len payload, more = len ++ payload ∧ len.length = width ∧ bigEndian len = n := by
  have hwidth : 1 + width ≤ (tag :: more).length := by
    unfold msgpackLen at h
    split at h
    · assumption
    · cases h
  have hlength : (more.take width).length = width := by
    rw [List.length_cons] at hwidth
    rw [List.length_take]
    omega
  have hlen := msgpackLen_cons tag (more.take width) (more.drop width)
  rw [List.take_append_drop, hlength, h] at hlen
  exact ⟨_, _, (List.take_append_drop width more).symm, hlength, (Option.some.inj hlen).symm⟩

/-- The arms of `msgpack_head` are the formats. -/
def HeadForm.Means : HeadForm → Nat → Prop
  | .constant len children, byte =>
      (len = 1 ∧ children = 0 ∧ (byte < 0x80 ∨ 0xe0 ≤ byte)) ∨
        (len = 1 + (byte - 0xa0) ∧ children = 0 ∧ 0xa0 ≤ byte ∧ byte < 0xc0) ∨
        (0 < len ∧ children = 0 ∧ (byte, len - 1) ∈ constantForms) ∨
        (len = 1 ∧ children = byte - 0x90 ∧ 0x90 ≤ byte ∧ byte < 0x90 + 16) ∨
        (len = 1 ∧ children = 2 * (byte - 0x80) ∧ 0x80 ≤ byte ∧ byte < 0x80 + 16)
  | .sized base width, byte => 1 + width ≤ base ∧ (byte, width, base - 1 - width) ∈ sizedForms
  | .container base width factor, byte =>
      base = 1 + width ∧
        ((factor = 1 ∧ ((byte = 0xdc ∧ width = 2) ∨ (byte = 0xdd ∧ width = 4))) ∨
          (factor = 2 ∧ ((byte = 0xde ∧ width = 2) ∨ (byte = 0xdf ∧ width = 4))))
  | .never, _ => True

instance : (form : HeadForm) → (byte : Nat) → Decidable (form.Means byte)
  | .constant _ _, _ => inferInstanceAs (Decidable (_ ∨ _ ∨ _ ∨ _ ∨ _))
  | .sized _ _, _ => inferInstanceAs (Decidable (_ ∧ _))
  | .container _ _ _, _ => inferInstanceAs (Decidable (_ ∧ _))
  | .never, _ => inferInstanceAs (Decidable True)

theorem headForm_means : ∀ byte < 256, (headForm byte).Means byte := by
  decide +kernel

theorem headForm_constantForms :
    ∀ form ∈ constantForms, headForm form.1 = .constant (1 + form.2) 0 := by
  decide

theorem headForm_sizedForms :
    ∀ form ∈ sizedForms, headForm form.1 = .sized (1 + form.2.1 + form.2.2) form.2.1 := by
  decide

/-- The ranges of type bytes: the fixints, then the fixstr, fixarray and fixmap formats, each of
which counts from the lowest byte of its range. -/
theorem headForm_fixForms : ∀ byte < 256,
    (byte < 0x80 ∨ 0xe0 ≤ byte → headForm byte = .constant 1 0) ∧
      (0xa0 ≤ byte → byte < 0xc0 → headForm byte = .constant (1 + (byte - 0xa0)) 0) ∧
      (0x90 ≤ byte → byte < 0x90 + 16 → headForm byte = .constant 1 (byte - 0x90)) ∧
      (0x80 ≤ byte → byte < 0x80 + 16 → headForm byte = .constant 1 (2 * (byte - 0x80))) := by
  decide +kernel

theorem headForm_fixint {byte : Nat} (hbyte : byte < 256) (h : byte < 0x80 ∨ 0xe0 ≤ byte) :
    headForm byte = .constant 1 0 :=
  (headForm_fixForms byte hbyte).1 h

theorem headForm_fixstr {byte : Nat} (hlt : byte < 0xc0) (hle : 0xa0 ≤ byte) :
    headForm byte = .constant (1 + (byte - 0xa0)) 0 :=
  (headForm_fixForms byte (by omega)).2.1 hle hlt

theorem headForm_fixarray :
    ∀ byte < 0x90 + 16, 0x90 ≤ byte → headForm byte = .constant 1 (byte - 0x90) :=
  fun byte hlt hle => (headForm_fixForms byte (by omega)).2.2.1 hle hlt

theorem headForm_fixmap :
    ∀ byte < 0x80 + 16, 0x80 ≤ byte → headForm byte = .constant 1 (2 * (byte - 0x80)) :=
  fun byte hlt hle => (headForm_fixForms byte (by omega)).2.2.2 hle hlt

theorem headForm_containers :
    headForm 0xdc = .container 3 2 1 ∧ headForm 0xdd = .container 5 4 1 ∧
      headForm 0xde = .container 3 2 2 ∧ headForm 0xdf = .container 5 4 2 := by
  decide

/-! ### Heads and formats -/

theorem msgpackHead_scalar {bytes : Bytes} (h : Scalar bytes) :
    msgpackHead bytes = some (bytes.length, 0) := by
  cases h with
  | @positiveFixint tag lt => simp [msgpackHead, headForm_fixint tag.toNat_lt (Or.inl lt)]
  | @negativeFixint tag le => simp [msgpackHead, headForm_fixint tag.toNat_lt (Or.inr le)]
  | @fixstr tag payload le lt length =>
      simp only [msgpackHead, headForm_fixstr lt le, List.length_cons, length]
      rw [Nat.add_comm]
  | @constant tag payload form =>
      simp only [msgpackHead, headForm_constantForms _ form, List.length_cons]
      rw [Nat.add_comm]
  | @sized tag len payload extra form length =>
      simp only [msgpackHead, headForm_sizedForms _ form, msgpackLen_cons, Option.map_some,
        List.length_cons, List.length_append, length]
      congr 2
      omega

/-- The header of a container, where the type byte says `factor` times as many values follow. -/
theorem msgpackHead_container {fix tag16 tag32 factor entries : Nat} {head : Bytes}
    (hfix : ∀ byte < fix + 16, fix ≤ byte → headForm byte = .constant 1 (factor * (byte - fix)))
    (h16 : headForm tag16 = .container 3 2 factor) (h32 : headForm tag32 = .container 5 4 factor)
    (h : ContainerHead fix tag16 tag32 entries head) :
    msgpackHead head = some (head.length, factor * entries) := by
  cases h with
  | fix le lt => simp [msgpackHead, hfix _ lt le]
  | @len16 tag len form width =>
      have hlen := msgpackLen_cons tag len []
      rw [List.append_nil, width] at hlen
      simp [msgpackHead, form, h16, hlen, width]
  | @len32 tag len form width =>
      have hlen := msgpackLen_cons tag len []
      rw [List.append_nil, width] at hlen
      simp [msgpackHead, form, h32, hlen, width]

theorem msgpackHead_of_isHead {head : Bytes} {children : Nat} (h : IsHead head children) :
    msgpackHead head = some (head.length, children) := by
  obtain ⟨harray16, harray32, hmap16, hmap32⟩ := headForm_containers
  rcases h with ⟨hscalar, rfl⟩ | harray | ⟨entries, rfl, hmap⟩
  · exact msgpackHead_scalar hscalar
  · rw [← Nat.one_mul children]
    apply msgpackHead_container _ harray16 harray32 harray
    intro byte hlt hle
    rw [Nat.one_mul]
    exact headForm_fixarray byte hlt hle
  · exact msgpackHead_container headForm_fixmap hmap16 hmap32 hmap

theorem isHead_of_msgpackHead {head : Bytes} {children : Nat}
    (h : msgpackHead head = some (head.length, children)) : IsHead head children := by
  cases head with
  | nil => cases h
  | cons tag more =>
      have hmeans := headForm_means tag.toNat tag.toNat_lt
      simp only [msgpackHead] at h
      cases hform : headForm tag.toNat with
      | constant len children' =>
          rw [hform] at hmeans
          simp only [hform, Option.some.injEq, Prod.mk.injEq, List.length_cons] at h
          obtain ⟨rfl, rfl⟩ := h
          have hnil : more.length + 1 = 1 → more = [] := fun hlen =>
            List.eq_nil_of_length_eq_zero (by omega)
          rcases hmeans with ⟨hlen, rfl, hfix⟩ | ⟨hlen, rfl, hle, hlt⟩ | ⟨-, rfl, hmem⟩ |
            ⟨hlen, hcount, hle, hlt⟩ | ⟨hlen, hcount, hle, hlt⟩
          · obtain rfl := hnil hlen
            rcases hfix with hlt | hle
            · exact Or.inl ⟨.positiveFixint hlt, rfl⟩
            · exact Or.inl ⟨.negativeFixint hle, rfl⟩
          · exact Or.inl ⟨.fixstr hle hlt (by omega), rfl⟩
          · rw [Nat.add_sub_cancel] at hmem
            exact Or.inl ⟨.constant hmem, rfl⟩
          · obtain rfl := hnil hlen
            rw [hcount]
            exact Or.inr (Or.inl (.fix hle hlt))
          · obtain rfl := hnil hlen
            exact Or.inr (Or.inr ⟨_, hcount, .fix hle hlt⟩)
      | sized base width =>
          rw [hform] at hmeans
          obtain ⟨hbase, hmem⟩ := hmeans
          simp only [hform, Option.map_eq_some_iff, Prod.mk.injEq] at h
          obtain ⟨n, hn, hlen, rfl⟩ := h
          obtain ⟨len, payload, rfl, rfl, rfl⟩ := exists_of_msgpackLen hn
          refine Or.inl ⟨.sized hmem ?_, rfl⟩
          rw [List.length_cons, List.length_append] at hlen
          omega
      | container base width factor =>
          rw [hform] at hmeans
          obtain ⟨rfl, hmeans⟩ := hmeans
          simp only [hform, Option.map_eq_some_iff, Prod.mk.injEq] at h
          obtain ⟨n, hn, hlen, rfl⟩ := h
          obtain ⟨len, payload, rfl, hwidth, rfl⟩ := exists_of_msgpackLen hn
          have hpayload : payload = [] := by
            rw [List.length_cons, List.length_append] at hlen
            exact List.eq_nil_of_length_eq_zero (by omega)
          rw [hpayload, List.append_nil]
          rcases hmeans with ⟨rfl, htag⟩ | ⟨rfl, htag⟩
          · rw [Nat.one_mul]
            rcases htag with ⟨htag, rfl⟩ | ⟨htag, rfl⟩
            · exact Or.inr (Or.inl (.len16 htag hwidth))
            · exact Or.inr (Or.inl (.len32 htag hwidth))
          · rcases htag with ⟨htag, rfl⟩ | ⟨htag, rfl⟩
            · exact Or.inr (Or.inr ⟨_, rfl, .len16 htag hwidth⟩)
            · exact Or.inr (Or.inr ⟨_, rfl, .len32 htag hwidth⟩)
      | never => simp [hform] at h

/-- MessagePack is written head first. -/
def msgpackForm : HeadFirst UInt8 where
  head := msgpackHead
  pos := msgpackHead_pos
  stable := msgpackHead_append
  whole := by
    intro d len count hhead hle
    cases d with
    | nil => cases hhead
    | cons tag more =>
        obtain ⟨len, rfl⟩ : ∃ len', len = len' + 1 :=
          ⟨len - 1, by have := msgpackHead_pos hhead; omega⟩
        have hmeans := headForm_means tag.toNat tag.toNat_lt
        rw [List.take_succ_cons]
        simp only [msgpackHead] at hhead ⊢
        -- the length stands in the bytes that are kept
        have hkept : ∀ {width n : Nat}, width ≤ len → msgpackLen (tag :: more) width = some n →
            msgpackLen (tag :: more.take len) width = some n := by
          intro width n hwidth hn
          obtain ⟨bytes, payload, rfl, rfl, rfl⟩ := exists_of_msgpackLen hn
          obtain ⟨rest, rfl⟩ := Nat.exists_eq_add_of_le hwidth
          rw [List.take_length_add_append]
          exact msgpackLen_cons tag bytes _
        cases hform : headForm tag.toNat with
        | constant len' children => rwa [hform] at hhead
        | sized base width =>
            rw [hform] at hmeans
            have hbase : 1 + width ≤ base := hmeans.1
            simp only [hform, Option.map_eq_some_iff, Prod.mk.injEq] at hhead ⊢
            obtain ⟨n, hn, hlen, hcount⟩ := hhead
            exact ⟨n, hkept (by omega) hn, hlen, hcount⟩
        | container base width factor =>
            rw [hform] at hmeans
            have hbase : base = 1 + width := hmeans.1
            simp only [hform, Option.map_eq_some_iff, Prod.mk.injEq] at hhead ⊢
            obtain ⟨n, hn, hlen, hcount⟩ := hhead
            exact ⟨n, hkept (by omega) hn, hlen, hcount⟩
        | never => simp [hform] at hhead

/-! ### Trees and values -/

/-- Twice as many values as there are entries are the keys and values of the entries. -/
theorem exists_pairs {α : Type} (entries : Nat) {parts : List (List α)}
    (h : parts.length = 2 * entries) :
    ∃ pairs : List (List α × List α), pairs.length = entries ∧
      (pairs.map fun pair => pair.1 ++ pair.2).flatten = parts.flatten ∧
      ∀ pair ∈ pairs, pair.1 ∈ parts ∧ pair.2 ∈ parts := by
  induction entries generalizing parts with
  | zero =>
      obtain rfl : parts = [] := List.eq_nil_of_length_eq_zero h
      exact ⟨[], rfl, rfl, by simp⟩
  | succ entries ih =>
      match parts, h with
      | key :: value :: parts, h =>
          have hlength : parts.length = 2 * entries := by
            simp only [List.length_cons] at h
            omega
          obtain ⟨pairs, hpairs, hflatten, hmem⟩ := ih hlength
          refine ⟨(key, value) :: pairs, by rw [List.length_cons, hpairs], ?_, ?_⟩
          · simp [hflatten]
          · intro pair hpair
            rcases List.mem_cons.mp hpair with rfl | hpair
            · simp
            · simp [hmem pair hpair]

theorem value_of_tree {bytes : Bytes} (h : msgpackForm.Tree bytes) : Value bytes := by
  induction h with
  | @node node subtrees head _ values =>
      rcases isHead_of_msgpackHead head with ⟨hscalar, hnone⟩ | harray | ⟨entries, hlength, hmap⟩
      · obtain rfl := List.eq_nil_of_length_eq_zero hnone
        rw [List.flatten_nil, List.append_nil]
        exact .scalar hscalar
      · exact .array harray values
      · obtain ⟨pairs, rfl, hflatten, hmem⟩ := exists_pairs entries hlength
        rw [← hflatten]
        apply Value.map hmap
        · exact fun entry hentry => values _ (hmem entry hentry).1
        · exact fun entry hentry => values _ (hmem entry hentry).2

theorem tree_of_value {bytes : Bytes} (h : Value bytes) : msgpackForm.Tree bytes := by
  induction h with
  | @scalar bytes hscalar =>
      have hnode : msgpackForm.Tree (bytes ++ ([] : List Bytes).flatten) :=
        .node (msgpackHead_of_isHead (Or.inl ⟨hscalar, rfl⟩)) (by simp)
      rwa [List.flatten_nil, List.append_nil] at hnode
  | array length _ values =>
      exact .node (msgpackHead_of_isHead (Or.inr (Or.inl length))) values
  | @map head entries length _ _ keys values =>
      have hflatten : (entries.map fun entry => entry.1 ++ entry.2).flatten =
          (entries.flatMap fun entry => [entry.1, entry.2]).flatten := by
        rw [List.flatMap_def, List.flatten_flatten, List.map_map]
        congr 1
        apply List.map_congr_left
        simp
      rw [hflatten]
      apply HeadFirst.Tree.node
      · apply msgpackHead_of_isHead
        refine Or.inr (Or.inr ⟨entries.length, ?_, length⟩)
        simp [List.length_flatMap, Nat.mul_comm]
      · intro tree htree
        obtain ⟨entry, hentry, hmem⟩ := List.mem_flatMap.mp htree
        rcases List.mem_pair.mp hmem with rfl | rfl
        · exact keys entry hentry
        · exact values entry hentry

/-- The values of the format are the trees of its heads. -/
theorem tree_iff_value {bytes : Bytes} : msgpackForm.Tree bytes ↔ Value bytes :=
  ⟨value_of_tree, tree_of_value⟩

/-! ### The loop -/

variable {data : Bytes} {pos pending k : Nat}

/-- One turn of the loop: the value at `pos` pays for one of those owed, and owes its children. -/
theorem owed_from_iff {len children : Nat} (hpending : ¬ pending = 0)
    (hhead : msgpackHead (data.drop pos) = some (len, children)) (hpos : pos ≤ k)
    (hk : k ≤ data.length) :
    msgpackForm.Owed pending ((data.drop pos).take (k - pos)) ↔
      pos + len ≤ k ∧ msgpackForm.Owed (pending - 1 + children)
        ((data.drop (pos + len)).take (k - (pos + len))) := by
  obtain ⟨more, rfl⟩ : ∃ more, pending = more + 1 := ⟨pending - 1, by omega⟩
  have hle : k - pos ≤ (data.drop pos).length := by
    rw [List.length_drop]
    omega
  rw [HeadFirst.owed_take_iff hhead hle, List.drop_drop, Nat.add_sub_cancel, Nat.sub_sub]
  constructor
  · rintro ⟨hle, howed⟩
    exact ⟨by omega, howed⟩
  · rintro ⟨hle, howed⟩
    exact ⟨by omega, howed⟩

/-- The loop accepts what pays for the values still owed. What the checked sums refuse is more
than the data holds: of bytes, or of values, each of which takes a byte at least. -/
theorem byMsgpackFrom_iff (hlen : data.length ≤ usizeMax) (hpos : pos ≤ data.length) :
    byMsgpackFrom data pos pending = some k ↔
      pos ≤ k ∧ k ≤ data.length ∧ msgpackForm.Owed pending ((data.drop pos).take (k - pos)) := by
  fun_induction byMsgpackFrom data pos pending with
  | case1 pos =>
      rw [Option.some.injEq]
      constructor
      · rintro rfl
        rw [Nat.sub_self, List.take_zero]
        exact ⟨Nat.le_refl _, hpos, .none⟩
      · rintro ⟨hle, hk, howed⟩
        have hempty := HeadFirst.owed_zero_iff.mp howed
        rw [List.take_eq_nil_iff, List.drop_eq_nil_iff] at hempty
        omega
  | case2 pos pending hpending hhead =>
      obtain ⟨more, rfl⟩ : ∃ more, pending = more + 1 := ⟨pending - 1, by omega⟩
      constructor
      · intro hnone
        cases hnone
      · rintro ⟨-, -, howed⟩
        exact absurd howed (HeadFirst.not_owed_of_head hhead _)
  | case3 pos pending hpending len children hhead hover =>
      constructor
      · intro hnone
        cases hnone
      · rintro ⟨hle, hk, howed⟩
        have hend := ((owed_from_iff hpending hhead hle hk).mp howed).1
        omega
  | case4 pos pending hpending len children hhead hfits hover =>
      constructor
      · intro hnone
        cases hnone
      · rintro ⟨hle, hk, howed⟩
        have hend := ((owed_from_iff hpending hhead hle hk).mp howed).1
        omega
  | case5 pos pending hpending len children hhead hfits hend hover =>
      constructor
      · intro hnone
        cases hnone
      · rintro ⟨hle, hk, howed⟩
        have hcount := ((owed_from_iff hpending hhead hle hk).mp howed).2.length_le
        rw [List.length_take, List.length_drop] at hcount
        omega
  | case6 pos pending hpending len children hhead hfits hend hfew ih =>
      rw [ih (by omega)]
      constructor
      · rintro ⟨hle, hk, howed⟩
        exact ⟨by omega, hk, (owed_from_iff hpending hhead (by omega) hk).mpr ⟨hle, howed⟩⟩
      · rintro ⟨hle, hk, howed⟩
        obtain ⟨hend', howed'⟩ := (owed_from_iff hpending hhead hle hk).mp howed
        exact ⟨hend', hk, howed'⟩

theorem byMsgpackFrom_le (hpos : pos ≤ data.length) (h : byMsgpackFrom data pos pending = some k) :
    pos ≤ k ∧ k ≤ data.length := by
  fun_induction byMsgpackFrom data pos pending with
  | case1 pos =>
      obtain rfl := Option.some.inj h
      exact ⟨Nat.le_refl _, hpos⟩
  | case2 => cases h
  | case3 => cases h
  | case4 => cases h
  | case5 => cases h
  | case6 pos pending hpending len children hhead hfits hend hfew ih =>
      obtain ⟨hle, hk⟩ := ih (by omega) h
      exact ⟨by omega, hk⟩

/-- The loop reads nothing of what follows the values it accepts. -/
theorem byMsgpackFrom_congr {data' : Bytes} (hpos : pos ≤ data.length)
    (h : byMsgpackFrom data pos pending = some k) (hsame : data'.take k = data.take k) :
    byMsgpackFrom data' pos pending = some k := by
  fun_induction byMsgpackFrom data pos pending with
  | case1 pos =>
      rw [byMsgpackFrom, if_pos rfl]
      exact h
  | case2 => cases h
  | case3 => cases h
  | case4 => cases h
  | case5 => cases h
  | case6 pos pending hpending len children hhead hfits hend hfew ih =>
      obtain ⟨hle, hk⟩ := byMsgpackFrom_le (by omega) h
      have hlength : k ≤ data'.length := by
        have hlengths := congrArg List.length hsame
        rw [List.length_take, List.length_take] at hlengths
        omega
      have hnode : (data'.drop pos).take len = (data.drop pos).take len := by
        have htake : ∀ bytes : Bytes, bytes.take (pos + len) = (bytes.take k).take (pos + len) := by
          intro bytes
          rw [List.take_take, Nat.min_eq_left hle]
        rw [List.take_drop, List.take_drop, htake data', hsame, ← htake data]
      have hhead' : msgpackHead (data'.drop pos) = some (len, children) := by
        have hwhole := msgpackForm.whole hhead (by rw [List.length_drop]; omega)
        have hstable := msgpackForm.stable ((data'.drop pos).drop len) hwhole
        rw [← hnode, List.take_append_drop] at hstable
        exact hstable
      rw [byMsgpackFrom, if_neg hpending]
      split
      · next hnone => rw [hhead'] at hnone; cases hnone
      · next len' children' hhead'' =>
          obtain ⟨rfl, rfl⟩ := Prod.mk.inj (Option.some.inj (hhead'.symm.trans hhead''))
          rw [if_neg hfits, dif_neg (by omega), if_neg hfew]
          exact ih (by omega) h

/-! ### The finder -/

/-- A call takes the first `k` bytes of the data exactly when these are one complete value, and
nothing when no number of bytes is. What follows the value does not change the answer. The loop
returns on every input: it is a total function. -/
theorem by_msgpack_accepts_grammar (hlen : data.length ≤ usizeMax) :
    (∀ k, byMsgpack data = some k ↔ k ≤ data.length ∧ Value (data.take k)) ∧
      (byMsgpack data = none ↔ ∀ k ≤ data.length, ¬ Value (data.take k)) ∧
      ∀ k, byMsgpack data = some k → ∀ data' : Bytes, data'.take k = data.take k →
        byMsgpack data' = some k := by
  have haccepts : ∀ k, byMsgpack data = some k ↔ k ≤ data.length ∧ Value (data.take k) := by
    intro k
    rw [byMsgpack, byMsgpackFrom_iff hlen (Nat.zero_le _), ← tree_iff_value,
      HeadFirst.tree_iff_owed]
    simp
  refine ⟨haccepts, ?_, ?_⟩
  · rw [Option.eq_none_iff_forall_not_mem]
    constructor
    · exact fun hnone k hk hvalue => hnone k ((haccepts k).mpr ⟨hk, hvalue⟩)
    · exact fun hnone k hsome => hnone k ((haccepts k).mp hsome).1 ((haccepts k).mp hsome).2
  · exact fun k hsome data' hsame => byMsgpackFrom_congr (Nat.zero_le _) hsome hsame

/-- `[1, {"a": nil}]`, and the first byte of what follows it. -/
def mapInArray : Bytes := [0x92, 0x01, 0x81, 0xa1, 0x61, 0xc0, 0xc1]

theorem by_msgpack_accepts_grammar_mapInArray :
    (∀ k, byMsgpack mapInArray = some k ↔ k ≤ mapInArray.length ∧ Value (mapInArray.take k)) ∧
      (byMsgpack mapInArray = none ↔ ∀ k ≤ mapInArray.length, ¬ Value (mapInArray.take k)) ∧
      ∀ k, byMsgpack mapInArray = some k → ∀ data' : Bytes, data'.take k = mapInArray.take k →
        byMsgpack data' = some k :=
  by_msgpack_accepts_grammar (by decide)

theorem byMsgpack_pos {d : Bytes} {k : Nat} (h : byMsgpack d = some k) : 0 < k := by
  rw [byMsgpack, byMsgpackFrom, if_neg Nat.one_ne_zero] at h
  split at h
  · cases h
  · next len children hhead =>
      have hpos := msgpackHead_pos hhead
      split_ifs at h with hover hend hmany
      obtain ⟨hle, -⟩ := byMsgpackFrom_le (by omega) h
      omega

theorem byMsgpack_le {d : Bytes} {k : Nat} (h : byMsgpack d = some k) : k ≤ d.length :=
  (byMsgpackFrom_le (Nat.zero_le _) h).2

theorem byMsgpack_append {d : Bytes} {k : Nat} (e : Bytes) (h : byMsgpack d = some k) :
    byMsgpack (d ++ e) = some k := by
  apply byMsgpackFrom_congr (Nat.zero_le _) h
  rw [List.take_append_of_le_length (byMsgpack_le h)]

/-- Records of one MessagePack value meet the contract of a finder. -/
def msgpackFinder : Finder UInt8 where
  find := byMsgpack
  pos := @byMsgpack_pos
  le := @byMsgpack_le
  stable := @byMsgpack_append

theorem msgpackFinder_whole : msgpackFinder.Whole := by
  intro d k h
  apply byMsgpackFrom_congr (Nat.zero_le _) h
  rw [List.take_take, Nat.min_self]

end SeekZstdSep
