import Mathlib.Data.List.Basic
import Mathlib.Data.String.Basic

/-!
# UTF-8 texts

A text is the list of its characters, an offset counts bytes. A slice off a char boundary does
not exist: there the source panics.
-/

namespace LawNexus.Utf8

def byteLen : List Char → Nat
  | [] => 0
  | c :: text => c.utf8Size + byteLen text

def bytes (text : List Char) : List UInt8 := text.flatMap String.utf8EncodeChar

/-- `text[start..]`. -/
def sliceFrom : List Char → Nat → Option (List Char)
  | text, 0 => some text
  | [], _ + 1 => none
  | c :: text, n + 1 =>
    if c.utf8Size ≤ n + 1 then sliceFrom text (n + 1 - c.utf8Size) else none

/-- `text[..stop]`. -/
def sliceTo : List Char → Nat → Option (List Char)
  | _, 0 => some []
  | [], _ + 1 => none
  | c :: text, n + 1 =>
    if c.utf8Size ≤ n + 1 then (sliceTo text (n + 1 - c.utf8Size)).map (c :: ·) else none

/-- `text[start..stop]`. -/
def slice (text : List Char) (start stop : Nat) : Option (List Char) :=
  if start ≤ stop then (sliceFrom text start).bind (sliceTo · (stop - start)) else none

def isCharBoundary (text : List Char) (n : Nat) : Bool := (sliceFrom text n).isSome

/-- `String::from_utf8`. -/
def decode (b : List UInt8) : Option (List Char) :=
  (ByteArray.mk b.toArray).utf8Decode?.map Array.toList

theorem decode_bytes (text : List Char) : decode (bytes text) = some text := by
  have hencode : ByteArray.mk (bytes text).toArray = text.utf8Encode := by
    apply ByteArray.ext
    rw [List.utf8Encode, List.data_toByteArray, bytes]
  rw [decode, hencode, List.utf8Decode?_utf8Encode, Option.map_some]

/-! ## Lengths -/

@[simp] theorem byteLen_nil : byteLen [] = 0 := rfl

@[simp] theorem byteLen_cons (c : Char) (text : List Char) :
    byteLen (c :: text) = c.utf8Size + byteLen text := rfl

@[simp] theorem byteLen_append (a b : List Char) : byteLen (a ++ b) = byteLen a + byteLen b := by
  induction a with
  | nil => simp
  | cons c a ih => rw [List.cons_append, byteLen_cons, byteLen_cons, ih, Nat.add_assoc]

theorem byteLen_pos {text : List Char} (h : text ≠ []) : 0 < byteLen text := by
  cases text with
  | nil => exact absurd rfl h
  | cons c text => exact Nat.add_pos_left c.utf8Size_pos _

@[simp] theorem bytes_append (a b : List Char) : bytes (a ++ b) = bytes a ++ bytes b :=
  List.flatMap_append

@[simp] theorem length_bytes (text : List Char) : (bytes text).length = byteLen text := by
  induction text with
  | nil => rfl
  | cons c text ih =>
    rw [bytes, List.flatMap_cons, List.length_append, String.length_utf8EncodeChar, byteLen_cons,
      ← ih, bytes]

theorem byteLen_toList (s : String) : byteLen s.toList = s.utf8ByteSize := by
  rw [← String.size_toByteArray, ← length_bytes, bytes]
  conv_rhs => rw [← String.ofList_toList (s := s), String.toByteArray_ofList, List.utf8Encode]
  simp

/-! ## Slices -/

theorem sliceFrom_append (a b : List Char) : sliceFrom (a ++ b) (byteLen a) = some b := by
  induction a with
  | nil => cases b <;> rfl
  | cons c a ih =>
    obtain ⟨n, hn⟩ := Nat.exists_eq_add_of_lt c.utf8Size_pos
    have hlen : byteLen (c :: a) = (n + byteLen a) + 1 := by rw [byteLen_cons]; omega
    rw [hlen, List.cons_append, sliceFrom, if_pos (by omega)]
    rwa [show n + byteLen a + 1 - c.utf8Size = byteLen a by omega]

theorem sliceTo_append (a b : List Char) : sliceTo (a ++ b) (byteLen a) = some a := by
  induction a with
  | nil => cases b <;> rfl
  | cons c a ih =>
    obtain ⟨n, hn⟩ := Nat.exists_eq_add_of_lt c.utf8Size_pos
    have hlen : byteLen (c :: a) = (n + byteLen a) + 1 := by rw [byteLen_cons]; omega
    rw [hlen, List.cons_append, sliceTo, if_pos (by omega)]
    rw [show n + byteLen a + 1 - c.utf8Size = byteLen a by omega, ih, Option.map_some]

theorem slice_append (a b c : List Char) :
    slice (a ++ (b ++ c)) (byteLen a) (byteLen a + byteLen b) = some b := by
  rw [slice, if_pos (Nat.le_add_right _ _), sliceFrom_append, Option.bind_some,
    Nat.add_sub_cancel_left, sliceTo_append]

theorem sliceFrom_eq_some {text rest : List Char} {n : Nat} (h : sliceFrom text n = some rest) :
    ∃ before, text = before ++ rest ∧ byteLen before = n := by
  induction text generalizing n with
  | nil =>
    cases n with
    | zero => exact ⟨[], by simpa [sliceFrom] using h, rfl⟩
    | succ n => exact nomatch h
  | cons c text ih =>
    cases n with
    | zero => exact ⟨[], by simpa [sliceFrom] using h, rfl⟩
    | succ n =>
      rw [sliceFrom] at h
      split_ifs at h with hc
      obtain ⟨before, rfl, hbefore⟩ := ih h
      exact ⟨c :: before, rfl, by rw [byteLen_cons]; omega⟩

theorem sliceTo_eq_some {text before : List Char} {n : Nat} (h : sliceTo text n = some before) :
    ∃ after, text = before ++ after ∧ byteLen before = n := by
  induction text generalizing n before with
  | nil =>
    cases n with
    | zero => exact ⟨[], by simp_all [sliceTo]⟩
    | succ n => exact nomatch h
  | cons c text ih =>
    cases n with
    | zero =>
      obtain rfl : [] = before := by simpa [sliceTo] using h
      exact ⟨c :: text, rfl, rfl⟩
    | succ n =>
      rw [sliceTo] at h
      split_ifs at h with hc
      obtain ⟨tail, htail, rfl⟩ := Option.map_eq_some_iff.mp h
      obtain ⟨after, rfl, hlen⟩ := ih htail
      exact ⟨after, rfl, by rw [byteLen_cons]; omega⟩

theorem slice_eq_some_iff {text mid : List Char} {start stop : Nat} :
    slice text start stop = some mid ↔
      ∃ before after, text = before ++ (mid ++ after) ∧ byteLen before = start ∧
        start + byteLen mid = stop := by
  constructor
  · intro h
    rw [slice] at h
    split_ifs at h with hle
    obtain ⟨rest, hrest, hmid⟩ := Option.bind_eq_some_iff.mp h
    obtain ⟨before, rfl, hbefore⟩ := sliceFrom_eq_some hrest
    obtain ⟨after, rfl, hlen⟩ := sliceTo_eq_some hmid
    exact ⟨before, after, rfl, hbefore, by omega⟩
  · rintro ⟨before, after, rfl, rfl, rfl⟩
    exact slice_append before mid after

/-- An offset cuts a text in one way. -/
theorem append_inj_of_byteLen {a a' b b' : List Char} (h : a ++ b = a' ++ b')
    (hlen : byteLen a = byteLen a') : a = a' ∧ b = b' := by
  have ha := sliceTo_append a b
  rw [h, hlen, sliceTo_append] at ha
  obtain rfl := Option.some.inj ha
  exact ⟨rfl, List.append_cancel_left h⟩

/-- Two slices that meet are one slice. -/
theorem slice_trans {text x y : List Char} {start mid stop : Nat}
    (hx : slice text start mid = some x) (hy : slice text mid stop = some y) :
    slice text start stop = some (x ++ y) := by
  obtain ⟨before, after, htext, rfl, rfl⟩ := slice_eq_some_iff.mp hx
  obtain ⟨before', after', htext', hlen, rfl⟩ := slice_eq_some_iff.mp hy
  rw [htext, ← List.append_assoc] at htext'
  obtain ⟨-, rfl⟩ := append_inj_of_byteLen htext' (by rw [byteLen_append, hlen])
  exact slice_eq_some_iff.mpr
    ⟨before, after', by rw [htext, List.append_assoc], rfl, by rw [byteLen_append, Nat.add_assoc]⟩

/-- Of two cuts of a text, the first one lies in the front of the second one. -/
theorem exists_of_append_eq {a b c d : List Char} (h : a ++ b = c ++ d)
    (hlen : byteLen a ≤ byteLen c) : ∃ x, c = a ++ x ∧ b = x ++ d := by
  obtain ⟨x, hx, hb⟩ | ⟨x, rfl, hd⟩ := List.append_eq_append_iff.mp h
  · exact ⟨x, hx, hb⟩
  · have hempty : x = [] := by
      by_contra hne
      have hpos := byteLen_pos hne
      rw [byteLen_append] at hlen
      omega
    subst hempty
    exact ⟨[], by simp, hd.symm⟩

/-- A slice of a slice is one of the text. -/
theorem slice_within {text part mid : List Char} {start stop lo hi : Nat}
    (h : slice text start stop = some part) (hmid : slice text lo hi = some mid)
    (hlo : start ≤ lo) (hhi : hi ≤ stop) : slice part (lo - start) (hi - start) = some mid := by
  obtain ⟨before, after, htext, rfl, rfl⟩ := slice_eq_some_iff.mp h
  obtain ⟨front, back, htext', rfl, rfl⟩ := slice_eq_some_iff.mp hmid
  obtain ⟨x, rfl, hpart⟩ := exists_of_append_eq (htext.symm.trans htext') hlo
  rw [byteLen_append] at hhi
  rw [← List.append_assoc] at hpart
  obtain ⟨y, rfl, -⟩ := exists_of_append_eq hpart.symm (by rw [byteLen_append]; omega)
  refine slice_eq_some_iff.mpr ⟨x, y, List.append_assoc x mid y, ?_, ?_⟩
  · rw [byteLen_append, Nat.add_sub_cancel_left]
  · rw [byteLen_append]
    omega

theorem slice_all (text : List Char) : slice text 0 (byteLen text) = some text :=
  slice_eq_some_iff.mpr ⟨[], [], by simp, rfl, Nat.zero_add _⟩

/-! ## Boundaries -/

/-- The offset is one between two characters, or at an end. -/
def IsBoundary (text : List Char) (n : Nat) : Prop :=
  ∃ before after, text = before ++ after ∧ byteLen before = n

theorem isCharBoundary_iff {text : List Char} {n : Nat} :
    isCharBoundary text n = true ↔ IsBoundary text n := by
  rw [isCharBoundary, Option.isSome_iff_exists]
  constructor
  · rintro ⟨rest, h⟩
    obtain ⟨before, htext, hn⟩ := sliceFrom_eq_some h
    exact ⟨before, rest, htext, hn⟩
  · rintro ⟨before, after, rfl, rfl⟩
    exact ⟨after, sliceFrom_append before after⟩

theorem isBoundary_zero (text : List Char) : IsBoundary text 0 := ⟨[], text, rfl, rfl⟩

theorem isBoundary_of_eq {text before after : List Char} {n : Nat} (h : text = before ++ after)
    (hn : byteLen before = n) : IsBoundary text n := ⟨before, after, h, hn⟩

theorem IsBoundary.le {text : List Char} {n : Nat} (h : IsBoundary text n) : n ≤ byteLen text := by
  obtain ⟨before, after, rfl, rfl⟩ := h
  rw [byteLen_append]
  omega

/-- Two boundaries cut a text in three. -/
theorem IsBoundary.exists_mid {text : List Char} {n m : Nat} (hn : IsBoundary text n)
    (hm : IsBoundary text m) (h : n ≤ m) :
    ∃ a b c, text = a ++ (b ++ c) ∧ byteLen a = n ∧ n + byteLen b = m := by
  obtain ⟨a, rest, htext, rfl⟩ := hn
  obtain ⟨ab, c, htext', rfl⟩ := hm
  obtain ⟨b, rfl, rfl⟩ := exists_of_append_eq (htext.symm.trans htext') h
  exact ⟨a, b, c, htext, rfl, (byteLen_append a b).symm⟩

theorem IsBoundary.exists_slice {text : List Char} {n m : Nat} (hn : IsBoundary text n)
    (hm : IsBoundary text m) (h : n ≤ m) : ∃ part, slice text n m = some part := by
  obtain ⟨a, b, c, htext, ha, hb⟩ := hn.exists_mid hm h
  exact ⟨b, slice_eq_some_iff.mpr ⟨a, c, htext, ha, hb⟩⟩

theorem isBoundary_of_slice {text part : List Char} {start stop : Nat}
    (h : slice text start stop = some part) : IsBoundary text start ∧ IsBoundary text stop := by
  obtain ⟨before, after, rfl, rfl, rfl⟩ := slice_eq_some_iff.mp h
  refine ⟨isBoundary_of_eq rfl rfl, isBoundary_of_eq (List.append_assoc _ _ _).symm ?_⟩
  rw [byteLen_append]

theorem slice_self {text : List Char} {n : Nat} (h : IsBoundary text n) :
    slice text n n = some [] := by
  obtain ⟨before, after, rfl, rfl⟩ := h
  exact slice_eq_some_iff.mpr ⟨before, after, rfl, rfl, rfl⟩

theorem slice_length {text part : List Char} {start stop : Nat}
    (h : slice text start stop = some part) : stop = start + byteLen part := by
  obtain ⟨before, after, -, -, hstop⟩ := slice_eq_some_iff.mp h
  exact hstop.symm

/-! ## Bytes -/

theorem getElem?_bytes_append (a b : List Char) (k : Nat) :
    (bytes (a ++ b))[byteLen a + k]? = (bytes b)[k]? := by
  rw [bytes_append, ← length_bytes a, List.getElem?_append_right (Nat.le_add_right _ _),
    Nat.add_sub_cancel_left]

theorem le_toNat_or (a b : UInt8) : b.toNat ≤ (a ||| b).toNat := by
  rw [UInt8.toNat_or]
  exact Nat.right_le_or

/-- The first byte of a character of more than one byte is no ASCII byte. -/
theorem utf8Size_eq_one_of_ascii {c : Char} {b : UInt8} {rest : List UInt8}
    (h : String.utf8EncodeChar c = b :: rest) (hb : b.toNat < 128) : c.utf8Size = 1 := by
  have hlead (x y : UInt8) (hy : 128 ≤ y.toNat) (heq : x ||| y = b) : False := by
    have := le_toNat_or x y
    rw [heq] at this
    omega
  have hpos := c.utf8Size_pos
  have hmax := c.utf8Size_le_four
  by_contra hone
  have hsize : c.utf8Size = 2 ∨ c.utf8Size = 3 ∨ c.utf8Size = 4 := by omega
  rcases hsize with h2 | h3 | h4
  · rw [String.utf8EncodeChar_eq_cons_cons h2] at h
    exact hlead _ _ (by decide) (List.cons.inj h).1
  · rw [String.utf8EncodeChar_eq_cons_cons_cons h3] at h
    exact hlead _ _ (by decide) (List.cons.inj h).1
  · rw [String.utf8EncodeChar_eq_cons_cons_cons_cons h4] at h
    exact hlead _ _ (by decide) (List.cons.inj h).1

/-- An ASCII byte stands in no other character than its own. -/
theorem ascii_notMem_bytes {text : List Char} {a : Char} {b : UInt8}
    (hab : a.val.toNat = b.toNat) (hb : b.toNat < 128) (h : a ∉ text) : b ∉ bytes text := by
  intro hmem
  obtain ⟨c, hc, hbyte⟩ := List.mem_flatMap.mp hmem
  have hne (x y : UInt8) (hy : 128 ≤ y.toNat) (heq : b = x ||| y) : False := by
    have := le_toNat_or x y
    rw [← heq] at this
    omega
  have hpos := c.utf8Size_pos
  have hmax := c.utf8Size_le_four
  have hsize : c.utf8Size = 1 ∨ c.utf8Size = 2 ∨ c.utf8Size = 3 ∨ c.utf8Size = 4 := by omega
  rcases hsize with h1 | h2 | h3 | h4
  · rw [String.utf8EncodeChar_eq_singleton h1, List.mem_singleton] at hbyte
    have hle : c.val.toNat ≤ 127 := UInt32.le_iff_toNat_le.mp (Char.utf8Size_eq_one_iff.mp h1)
    have hval : c.val.toNat = b.toNat := by
      have hbyte := congrArg UInt8.toNat hbyte
      rw [UInt32.toNat_toUInt8, Nat.mod_eq_of_lt (by omega)] at hbyte
      exact hbyte.symm
    have hca : c = a := Char.ext (UInt32.toNat_inj.mp (hval.trans hab.symm))
    exact h (hca ▸ hc)
  · rw [String.utf8EncodeChar_eq_cons_cons h2] at hbyte
    simp only [List.mem_cons, List.not_mem_nil, or_false] at hbyte
    rcases hbyte with hbyte | hbyte <;> exact hne _ _ (by decide) hbyte
  · rw [String.utf8EncodeChar_eq_cons_cons_cons h3] at hbyte
    simp only [List.mem_cons, List.not_mem_nil, or_false] at hbyte
    rcases hbyte with hbyte | hbyte | hbyte <;> exact hne _ _ (by decide) hbyte
  · rw [String.utf8EncodeChar_eq_cons_cons_cons_cons h4] at hbyte
    simp only [List.mem_cons, List.not_mem_nil, or_false] at hbyte
    rcases hbyte with hbyte | hbyte | hbyte | hbyte <;> exact hne _ _ (by decide) hbyte

theorem newline_notMem_bytes {text : List Char} (h : '\n' ∉ text) : (10 : UInt8) ∉ bytes text :=
  ascii_notMem_bytes rfl (by decide) h

/-- An ASCII byte at a boundary is a character of its own. -/
theorem IsBoundary.succ {text : List Char} {n : Nat} {b : UInt8} (hn : IsBoundary text n)
    (hb : (bytes text)[n]? = some b) (hascii : b.toNat < 128) : IsBoundary text (n + 1) := by
  obtain ⟨before, after, rfl, rfl⟩ := hn
  have hfirst := getElem?_bytes_append before after 0
  rw [Nat.add_zero, hb] at hfirst
  cases after with
  | nil => exact nomatch hfirst
  | cons c after =>
    cases hc : String.utf8EncodeChar c with
    | nil => exact absurd hc String.utf8EncodeChar_ne_nil
    | cons b' rest =>
      have hb' : b = b' := by simpa [bytes, hc] using hfirst
      have hone := utf8Size_eq_one_of_ascii hc (hb' ▸ hascii)
      exact isBoundary_of_eq (List.append_cons before c after) (by simp [hone])

theorem IsBoundary.add {text : List Char} {n : Nat} (hn : IsBoundary text n) (m : Nat)
    (hascii : ∀ k < m, ∃ b, (bytes text)[n + k]? = some b ∧ b.toNat < 128) :
    IsBoundary text (n + m) := by
  induction m with
  | zero => exact hn
  | succ m ih =>
    obtain ⟨b, hb, hlt⟩ := hascii m (Nat.lt_succ_self m)
    exact (ih fun k hk => hascii k (Nat.lt_succ_of_lt hk)).succ hb hlt

/-! ## Bytes as characters -/

/-- `byte as char` for each byte of a text. -/
def byteChars (text : List Char) : List Char := (bytes text).map fun b => Char.ofNat b.toNat

@[simp] theorem byteChars_append (a b : List Char) :
    byteChars (a ++ b) = byteChars a ++ byteChars b := by
  rw [byteChars, bytes_append, List.map_append]
  rfl

@[simp] theorem length_byteChars (text : List Char) : (byteChars text).length = byteLen text := by
  rw [byteChars, List.length_map, length_bytes]

theorem drop_byteChars (a b : List Char) : (byteChars (a ++ b)).drop (byteLen a) = byteChars b := by
  rw [byteChars_append, ← length_byteChars a, List.drop_left]

theorem getElem?_byteChars (a b : List Char) :
    (byteChars (a ++ b))[byteLen a]? = (byteChars b).head? := by
  rw [← drop_byteChars a b, List.head?_drop]

theorem toNat_ofNat_byte (b : UInt8) : (Char.ofNat b.toNat).toNat = b.toNat := by
  have hvalid : b.toNat.isValidChar := Or.inl (Nat.lt_trans b.toNat_lt (by decide))
  rw [Char.ofNat, dif_pos hvalid]
  rfl

/-- An ASCII character is its own byte. -/
theorem byteChars_cons_ascii {c : Char} (h : c.toNat < 128) (text : List Char) :
    byteChars (c :: text) = c :: byteChars text := by
  have hsize : c.utf8Size = 1 := Char.utf8Size_eq_one_iff.mpr (UInt32.le_iff_toNat_le.mpr
    (Nat.le_of_lt_succ h))
  have hbyte : c.val.toUInt8.toNat = c.toNat := by
    rw [UInt32.toNat_toUInt8]
    exact Nat.mod_eq_of_lt (Nat.lt_trans h (by decide))
  rw [byteChars, bytes, List.flatMap_cons, String.utf8EncodeChar_eq_singleton hsize,
    List.singleton_append, List.map_cons, hbyte, Char.ofNat_toNat]
  rfl

/-- The first byte of another character is not ASCII. -/
theorem byteChars_cons_other {c : Char} (h : 128 ≤ c.toNat) (text : List Char) :
    ∃ d rest, byteChars (c :: text) = d :: rest ∧ 128 ≤ d.toNat := by
  cases hc : String.utf8EncodeChar c with
  | nil => exact absurd hc String.utf8EncodeChar_ne_nil
  | cons b rest =>
    refine ⟨Char.ofNat b.toNat, _, by rw [byteChars, bytes, List.flatMap_cons, hc]; rfl, ?_⟩
    rw [toNat_ofNat_byte]
    by_contra hlt
    have hone := utf8Size_eq_one_of_ascii hc (Nat.not_le.mp hlt)
    have hle : c.toNat ≤ 127 := UInt32.le_iff_toNat_le.mp (Char.utf8Size_eq_one_iff.mp hone)
    omega

/-- An ASCII byte at the start of a text is the first character. -/
theorem head?_byteChars {text : List Char} {c : Char} (h : c.toNat < 128) :
    (byteChars text).head? = some c ↔ text.head? = some c := by
  cases text with
  | nil => rfl
  | cons d text =>
    rcases Nat.lt_or_ge d.toNat 128 with hd | hd
    · rw [byteChars_cons_ascii hd]
      rfl
    · obtain ⟨e, rest, heq, he⟩ := byteChars_cons_other hd text
      rw [heq, List.head?_cons, List.head?_cons, Option.some.injEq, Option.some.injEq]
      constructor
      · rintro rfl
        omega
      · rintro rfl
        omega

/-- A text of ASCII characters has one byte for each. -/
theorem byteLen_of_ascii {text : List Char} (h : ∀ c ∈ text, c.toNat < 128) :
    byteLen text = text.length := by
  induction text with
  | nil => rfl
  | cons c text ih =>
    obtain ⟨hc, hrest⟩ := List.forall_mem_cons.mp h
    have hsize : c.utf8Size = 1 := Char.utf8Size_eq_one_iff.mpr (UInt32.le_iff_toNat_le.mpr
      (Nat.le_of_lt_succ hc))
    rw [byteLen_cons, hsize, ih hrest, List.length_cons, Nat.add_comm]

/-- A run of ASCII characters is the same in the bytes and in the characters. -/
theorem takeWhile_byteChars {p : Char → Bool} (hp : ∀ c, p c = true → c.toNat < 128)
    (text : List Char) : (byteChars text).takeWhile p = text.takeWhile p := by
  induction text with
  | nil => rfl
  | cons c text ih =>
    rcases Nat.lt_or_ge c.toNat 128 with hc | hc
    · rw [byteChars_cons_ascii hc, List.takeWhile_cons, List.takeWhile_cons, ih]
    · obtain ⟨d, rest, heq, hd⟩ := byteChars_cons_other hc text
      have hnot : ∀ e : Char, 128 ≤ e.toNat → ¬ p e = true := fun e he hpe =>
        Nat.not_lt.mpr he (hp e hpe)
      rw [heq, List.takeWhile_cons_of_neg (hnot d hd), List.takeWhile_cons_of_neg (hnot c hc)]

end LawNexus.Utf8
