import LawNexus.CleanedWire.Line

/-!
# From bytes to characters

Every byte that the scanners look for is ASCII, so over the bytes of a text they do what they do
over its characters, and each slice lies between two characters.
-/

namespace LawNexus.CleanedWire

open Loops Utf8

/-! ## Texts and their bytes -/

/-- A text begins with an ASCII character, or its bytes begin with a byte that is none. -/
theorem byteChars_cases (text : List Char) : text = [] ∨
    (∃ c t, c.toNat < 128 ∧ text = c :: t ∧ byteChars text = c :: byteChars t) ∨
    ∃ c t d u, 128 ≤ c.toNat ∧ 128 ≤ d.toNat ∧ text = c :: t ∧ byteChars text = d :: u := by
  cases text with
  | nil => exact Or.inl rfl
  | cons c t =>
    rcases Nat.lt_or_ge c.toNat 128 with hc | hc
    · exact Or.inr (Or.inl ⟨c, t, hc, rfl, byteChars_cons_ascii hc t⟩)
    · obtain ⟨d, u, heq, hd⟩ := byteChars_cons_other hc t
      exact Or.inr (Or.inr ⟨c, t, d, u, hc, hd, rfl, heq⟩)

section

variable {p : Char → Bool} (hp : ∀ c, p c = true → c.toNat < 128)

include hp

theorem of_other {c : Char} (h : 128 ≤ c.toNat) : p c = false := by
  rw [← Bool.not_eq_true]
  exact fun hpc => Nat.not_lt.mpr h (hp c hpc)

theorem any_head?_byteChars (text : List Char) :
    (byteChars text).head?.any p = text.head?.any p := by
  rcases byteChars_cases text with rfl | ⟨c, t, -, rfl, heq⟩ | ⟨c, t, d, u, hc, hd, rfl, heq⟩
  · rfl
  · rw [heq]
    rfl
  · rw [heq, List.head?_cons, List.head?_cons, Option.any_some, Option.any_some, of_other hp hc,
      of_other hp hd]

theorem dropWhile_byteChars (text : List Char) :
    (byteChars text).dropWhile p = byteChars (text.dropWhile p) := by
  induction text with
  | nil => rfl
  | cons c text ih =>
    rcases Nat.lt_or_ge c.toNat 128 with hc | hc
    · rw [byteChars_cons_ascii hc, List.dropWhile_cons, List.dropWhile_cons, ih]
      split_ifs
      · rfl
      · rw [byteChars_cons_ascii hc]
    · obtain ⟨d, u, heq, hd⟩ := byteChars_cons_other hc text
      rw [List.dropWhile_cons_of_neg (by rw [of_other hp hc]; decide), heq,
        List.dropWhile_cons_of_neg (by rw [of_other hp hd]; decide)]

end

theorem tail_byteChars {p : Char → Bool} (hp : ∀ c, p c = true → c.toNat < 128) {text : List Char}
    (h : text.head?.any p = true) : (byteChars text).tail = byteChars text.tail := by
  cases text with
  | nil => rfl
  | cons c text => rw [byteChars_cons_ascii (hp c h), List.tail_cons, List.tail_cons]

/-- All bytes of another character are no ASCII bytes. -/
theorem other_of_mem_byteChars {c : Char} (h : 128 ≤ c.toNat) :
    ∀ d ∈ byteChars [c], 128 ≤ d.toNat := by
  intro d hd
  obtain ⟨b, hb, rfl⟩ := List.mem_map.mp hd
  rw [toNat_ofNat_byte]
  by_contra hlt
  refine ascii_notMem_bytes (a := Char.ofNat b.toNat) (toNat_ofNat_byte b) (not_le.mp hlt) ?_ hb
  intro hmem
  have heq := congrArg Char.toNat (List.mem_singleton.mp hmem)
  rw [toNat_ofNat_byte] at heq
  omega

theorem length_le_byteLen (text : List Char) : text.length ≤ byteLen text := by
  induction text with
  | nil => exact le_rfl
  | cons c text ih =>
    have hpos := c.utf8Size_pos
    rw [List.length_cons, byteLen_cons]
    omega

theorem lt_of_isJsonWs (c : Char) (h : isJsonWs c = true) : c.toNat < 128 := by
  simp only [isJsonWs, Bool.or_eq_true, decide_eq_true_eq] at h
  rcases h with ((rfl | rfl) | rfl) | rfl <;> decide

theorem lt_of_isDigit (c : Char) (h : c.isDigit = true) : c.toNat < 128 := by
  simp only [Char.isDigit, Bool.and_eq_true, decide_eq_true_eq] at h
  exact Nat.lt_of_le_of_lt (UInt32.le_iff_toNat_le.mp h.2) (by decide)

theorem lt_of_isAsciiHexdigit (c : Char) (h : isAsciiHexdigit c = true) : c.toNat < 128 := by
  simp only [isAsciiHexdigit, Bool.or_eq_true, Bool.and_eq_true, decide_eq_true_eq] at h
  rcases h with (h | h) | h <;>
    exact Nat.lt_of_le_of_lt (UInt32.le_iff_toNat_le.mp h.2) (by decide)

theorem lt_of_isShortEscape (c : Char) (h : isShortEscape c = true) : c.toNat < 128 := by
  simp only [isShortEscape, Bool.or_eq_true, decide_eq_true_eq] at h
  rcases h with ((((((rfl | rfl) | rfl) | rfl) | rfl) | rfl) | rfl) | rfl <;> decide

theorem skipWs_byteChars (text : List Char) : skipWs (byteChars text) = byteChars (skipWs text) :=
  dropWhile_byteChars lt_of_isJsonWs text

theorem tail_of_head? {text : List Char} {c : Char} (h : text.head? = some c)
    (hc : c.toNat < 128) : (byteChars text).tail = byteChars text.tail := by
  rw [eq_cons_of_head? h, byteChars_cons_ascii hc, List.tail_cons, List.tail_cons]

/-! ## Strings -/

theorem stringLoop_other {other : List Char} (h : ∀ d ∈ other, 128 ≤ d.toNat) (rest : List Char) :
    stringLoop .body (other ++ rest) = stringLoop .body rest := by
  induction other with
  | nil => rfl
  | cons d other ih =>
    obtain ⟨hd, hother⟩ := List.forall_mem_cons.mp h
    have hne : ∀ c : Char, c.toNat < 128 → d ≠ c := by
      rintro c hc rfl
      omega
    rw [List.cons_append, stringLoop, if_neg (hne _ (by decide)), if_neg (hne _ (by decide)),
      if_neg (by omega), ih hother]

theorem stringLoop_byteChars (state : StringState) (text : List Char) :
    stringLoop state (byteChars text) = (stringLoop state text).map byteChars := by
  induction text generalizing state with
  | nil => cases state <;> rfl
  | cons c text ih =>
    rcases Nat.lt_or_ge c.toNat 128 with hc | hc
    · rw [byteChars_cons_ascii hc]
      cases state with
      | body | escape | digit =>
        rw [stringLoop, stringLoop]
        split_ifs <;> first | exact ih _ | rfl
    · cases state with
      | body =>
        rw [← List.singleton_append, byteChars_append,
          stringLoop_other (other_of_mem_byteChars hc), ih, stringLoop_other]
        exact List.forall_mem_singleton.mpr hc
      | escape =>
        obtain ⟨d, u, heq, hd⟩ := byteChars_cons_other hc text
        have hne : ∀ e : Char, 128 ≤ e.toNat → e ≠ 'u' := by
          rintro e he rfl
          exact absurd he (by decide)
        rw [heq, stringLoop, stringLoop, of_other lt_of_isShortEscape hc,
          of_other lt_of_isShortEscape hd, if_neg (hne d hd), if_neg (hne c hc)]
        rfl
      | digit =>
        obtain ⟨d, u, heq, hd⟩ := byteChars_cons_other hc text
        rw [heq, stringLoop, stringLoop, of_other lt_of_isAsciiHexdigit hc,
          of_other lt_of_isAsciiHexdigit hd]
        rfl

theorem scanJsonString_byteChars {text : List Char} (h : text.head? = some '\x22') :
    scanJsonString (byteChars text) = (scanJsonString text).map byteChars := by
  rw [scanJsonString, tail_of_head? h (by decide), stringLoop_byteChars, scanJsonString]

/-! ## Literals and numbers -/

theorem take_byteChars {literal : List Char} (h : ∀ c ∈ literal, c.toNat < 128)
    (text : List Char) :
    (byteChars text).take literal.length = literal ↔ text.take literal.length = literal := by
  induction literal generalizing text with
  | nil => simp
  | cons l literal ih =>
    obtain ⟨hl, hliteral⟩ := List.forall_mem_cons.mp h
    rw [List.length_cons]
    rcases byteChars_cases text with rfl | ⟨c, t, -, rfl, heq⟩ | ⟨c, t, d, u, hc, hd, rfl, heq⟩
    · rfl
    · rw [heq, List.take_succ_cons, List.take_succ_cons, List.cons.injEq, List.cons.injEq,
        ih hliteral]
    · rw [heq, List.take_succ_cons, List.take_succ_cons, List.cons.injEq, List.cons.injEq]
      constructor
      · rintro ⟨rfl, -⟩
        omega
      · rintro ⟨rfl, -⟩
        omega

theorem byteChars_of_ascii {text : List Char} (h : ∀ c ∈ text, c.toNat < 128) :
    byteChars text = text := by
  induction text with
  | nil => rfl
  | cons c text ih =>
    obtain ⟨hc, htext⟩ := List.forall_mem_cons.mp h
    rw [byteChars_cons_ascii hc, ih htext]

theorem scanJsonLiteral_byteChars {literal : List Char} (h : ∀ c ∈ literal, c.toNat < 128)
    (text : List Char) :
    scanJsonLiteral literal (byteChars text) = (scanJsonLiteral literal text).map byteChars := by
  rw [scanJsonLiteral, scanJsonLiteral]
  simp only [take_byteChars h]
  split_ifs with htake
  · have hsplit : byteChars text = literal ++ byteChars (text.drop literal.length) := by
      conv_lhs => rw [← List.take_append_drop literal.length text, htake, byteChars_append,
        byteChars_of_ascii h]
    rw [hsplit, List.drop_left]
    rfl
  · rfl

theorem atDigit_byteChars (text : List Char) : atDigit (byteChars text) = atDigit text :=
  any_head?_byteChars lt_of_isDigit text

theorem skipDigits_byteChars (text : List Char) :
    skipDigits (byteChars text) = byteChars (skipDigits text) :=
  dropWhile_byteChars lt_of_isDigit text

theorem skipOne_byteChars {signs : List Char} (h : ∀ c ∈ signs, c.toNat < 128)
    (text : List Char) : skipOne signs (byteChars text) = byteChars (skipOne signs text) := by
  have hsigns : ∀ c, signs.contains c = true → c.toNat < 128 := fun c hc =>
    h c (List.contains_iff_mem.mp hc)
  rw [skipOne, skipOne, any_head?_byteChars hsigns]
  split_ifs with hsign
  · exact tail_byteChars hsigns hsign
  · rfl

theorem scanInt_byteChars (text : List Char) :
    scanInt (byteChars text) = (scanInt text).map byteChars := by
  rw [scanInt, scanInt, atDigit_byteChars, skipDigits_byteChars]
  simp only [head?_byteChars (show '0'.toNat < 128 by decide)]
  by_cases hzero : text.head? = some '0'
  · rw [tail_of_head? hzero (by decide), atDigit_byteChars]
    split_ifs <;> rfl
  · rw [if_neg hzero, if_neg hzero]
    split_ifs <;> rfl

theorem scanFraction_byteChars (text : List Char) :
    scanFraction (byteChars text) = (scanFraction text).map byteChars := by
  rw [scanFraction, scanFraction]
  simp only [head?_byteChars (show '.'.toNat < 128 by decide)]
  by_cases hpoint : text.head? = some '.'
  · rw [tail_of_head? hpoint (by decide), atDigit_byteChars, skipDigits_byteChars]
    split_ifs <;> rfl
  · rw [if_neg hpoint, if_neg hpoint]
    rfl

theorem scanExponent_byteChars (text : List Char) :
    scanExponent (byteChars text) = (scanExponent text).map byteChars := by
  rw [scanExponent, scanExponent]
  simp only [head?_byteChars (show 'e'.toNat < 128 by decide),
    head?_byteChars (show 'E'.toNat < 128 by decide)]
  by_cases he : text.head? = some 'e' ∨ text.head? = some 'E'
  · have htail : (byteChars text).tail = byteChars text.tail :=
      he.elim (fun h => tail_of_head? h (by decide)) fun h => tail_of_head? h (by decide)
    rw [if_pos he, if_pos he, htail, skipOne_byteChars (by simp), atDigit_byteChars,
      skipDigits_byteChars]
    split_ifs <;> rfl
  · rw [if_neg he, if_neg he]
    rfl

theorem scanJsonNumber_byteChars (text : List Char) :
    scanJsonNumber (byteChars text) = (scanJsonNumber text).map byteChars := by
  rw [scanJsonNumber, scanJsonNumber, skipOne_byteChars (by simp), scanInt_byteChars]
  cases scanInt (skipOne ['-'] text) with
  | error e => rfl
  | ok rest =>
    rw [ok_bind, Except.map, ok_bind, scanFraction_byteChars]
    cases scanFraction rest with
    | error e => rfl
    | ok rest => rw [ok_bind, Except.map, ok_bind, scanExponent_byteChars]

/-! ## Slices -/

theorem slice_byteChars {raw start stop : List Char} (hstart : start <:+ raw)
    (hstop : stop <:+ start) (turns : Nat) :
    (Source.ofRaw raw).slice (byteChars start) (byteChars stop) =
      (Source.ofText turns).slice start stop := by
  obtain ⟨front, rfl⟩ := hstop
  obtain ⟨before, rfl⟩ := hstart
  have hlen : byteLen (before ++ (front ++ stop)) - byteLen (front ++ stop) = byteLen before ∧
      byteLen (before ++ (front ++ stop)) - byteLen stop = byteLen before + byteLen front := by
    simp only [byteLen_append]
    omega
  have hcut : (Source.ofRaw (before ++ (front ++ stop))).cut (byteChars (front ++ stop))
      (byteChars stop) = some front := by
    change slice _ _ _ = _
    rw [length_byteChars, length_byteChars, hlen.1, hlen.2, slice_append]
  rw [Source.slice_ofText, Source.slice, hcut]

theorem scanKey_byteChars {raw text : List Char} (hraw : text <:+ raw)
    (h : text.head? = some '\x22') (turns : Nat) :
    scanKey (.ofRaw raw) (byteChars text) =
      (scanKey (.ofText turns) text).map (Prod.map id byteChars) := by
  rw [scanKey, scanKey, scanJsonString_byteChars h]
  obtain ⟨e, he⟩ | ⟨_, rest, ⟨body, hbody, rfl⟩, rfl, hr⟩ := reads_scanJsonString h
  · rw [he]
    rfl
  · have hquote : '\x22' :: byteChars rest = byteChars ('\x22' :: rest) :=
      (byteChars_cons_ascii (by decide) rest).symm
    have htail : '\x22' :: (body ++ ['\x22']) ++ rest = '\x22' :: (body ++ '\x22' :: rest) := by
      simp
    rw [hr, Except.map, ok_bind, ok_bind, tail_of_head? h (by decide), hquote, htail,
      List.tail_cons, slice_byteChars ((List.suffix_cons _ _).trans (htail ▸ hraw))
        (List.suffix_append _ _) turns, Source.slice_ofText]
    rfl

end LawNexus.CleanedWire
