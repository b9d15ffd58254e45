import LawNexus.CleanedWire.JsonFields
import LawNexus.JsonText
import LawNexus.Loops

/-!
# What the scanners take

Over the characters of a line, each scanner takes exactly what the grammar says, and refuses
everything else.
-/

namespace LawNexus.CleanedWire

open JsonText Loops

/-- The scan refuses, or takes a front of the text. -/
def Reads (P : List Char → Prop) (text : List Char) (r : Scan (List Char)) : Prop :=
  (∃ e, r = .error (.refused e)) ∨ ∃ front rest, P front ∧ text = front ++ rest ∧ r = .ok rest

section

variable {P Q : List Char → Prop} {text rest : List Char}

theorem reads_error (detail : String) : Reads P text (jsonValueError detail) := Or.inl ⟨_, rfl⟩

theorem reads_ok {front : List Char} (hfront : P front) (htext : text = front ++ rest) :
    Reads P text (.ok rest) :=
  Or.inr ⟨front, rest, hfront, htext, rfl⟩

theorem Reads.mono {r : Scan (List Char)} (h : Reads P text r) (hPQ : ∀ front, P front → Q front) :
    Reads Q text r :=
  h.imp_right fun ⟨front, rest, hfront, htext, hr⟩ => ⟨front, rest, hPQ front hfront, htext, hr⟩

theorem Reads.of_ok (h : Reads P text (.ok rest)) : ∃ front, P front ∧ text = front ++ rest := by
  obtain ⟨e, he⟩ | ⟨front, rest', hfront, htext, hr⟩ := h
  · cases he
  · cases hr
    exact ⟨front, hfront, htext⟩

end

/-- What may follow on a value. -/
def Closed (rest : List Char) : Prop :=
  ∀ c ∈ rest.head?, isBlank c = true ∨ c = ',' ∨ c = ']' ∨ c = '\x7d'

theorem closed_cons {c : Char} {rest : List Char}
    (h : isBlank c = true ∨ c = ',' ∨ c = ']' ∨ c = '\x7d') : Closed (c :: rest) := by
  rintro d hd
  obtain rfl := Option.some.inj hd
  exact h

/-- A blank stretch in front of something closed is closed. -/
theorem closed_append {w rest : List Char} (hw : Blank w) (hrest : Closed rest) :
    Closed (w ++ rest) := by
  cases w with
  | nil => exact hrest
  | cons c w => exact closed_cons (Or.inl (hw c List.mem_cons_self))

theorem eq_cons_of_head? {text : List Char} {c : Char} (h : text.head? = some c) :
    text = c :: text.tail := by
  cases text with
  | nil => cases h
  | cons d text =>
    obtain rfl := Option.some.inj h
    rfl

/-! ## Strings -/

theorem isShortEscape_iff {c : Char} : isShortEscape c = true ↔ c ∈ shortEscapes := by
  simp [isShortEscape, shortEscapes, or_assoc]

/-- What the loop still takes of a string from where it stands. -/
def StringState.Takes : StringState → List Char → Prop
  | .body, t => IsStringBody t
  | .escape, t => IsStringBody ('\x5c' :: t)
  | .digit left, t => ∃ digits t', digits.length = left + 1 ∧ (∀ c ∈ digits, isHex c = true) ∧
      IsStringBody t' ∧ t = digits ++ t'

theorem takes_behindDigit {left : Nat} {t : List Char} :
    (StringState.behindDigit left).Takes t ↔ ∃ digits t', digits.length = left ∧
      (∀ c ∈ digits, isHex c = true) ∧ IsStringBody t' ∧ t = digits ++ t' := by
  cases left with
  | zero =>
    constructor
    · exact fun h => ⟨[], t, rfl, nofun, h, rfl⟩
    · rintro ⟨digits, t', hlength, -, h, rfl⟩
      obtain rfl := List.length_eq_zero_iff.mp hlength
      exact h
  | succ left => exact Iff.rfl

/-- The loop refuses, or takes the rest of the string and its closing quote. -/
theorem reads_stringLoop (state : StringState) (text : List Char) :
    Reads (fun front => ∃ t, state.Takes t ∧ front = t ++ ['\x22']) text
      (stringLoop state text) := by
  induction text generalizing state with
  | nil => cases state <;> exact reads_error _
  | cons c text ih =>
    have step : ∀ {next : StringState}, (∀ t, next.Takes t → state.Takes (c :: t)) →
        Reads (fun front => ∃ t, state.Takes t ∧ front = t ++ ['\x22']) (c :: text)
          (stringLoop next text) := by
      intro next hnext
      obtain he | ⟨front, rest, ⟨t, ht, rfl⟩, htext, hr⟩ := ih next
      · exact Or.inl he
      · exact Or.inr ⟨_, rest, ⟨c :: t, hnext t ht, rfl⟩, congrArg (c :: ·) htext, hr⟩
    cases state with
    | body =>
      rw [stringLoop]
      split_ifs with hquote hback hcontrol
      · exact reads_ok ⟨[], .nil, rfl⟩ (by rw [hquote]; rfl)
      · exact step fun t ht => hback ▸ ht
      · exact reads_error _
      · exact step fun t ht => .plain (not_lt.mp hcontrol) hquote hback ht
    | escape =>
      rw [stringLoop]
      split_ifs with hshort hu
      · exact step fun t ht => .short (isShortEscape_iff.mp hshort) ht
      · refine step fun t ht => ?_
        obtain ⟨digits, t', hlength, hdigits, ht', rfl⟩ := ht
        exact hu ▸ .unicode hlength hdigits ht'
      · exact reads_error _
    | digit left =>
      rw [stringLoop]
      split_ifs with hdigit
      · refine step fun t ht => ?_
        obtain ⟨digits, t', hlength, hdigits, ht', rfl⟩ := takes_behindDigit.mp ht
        exact ⟨c :: digits, t', congrArg (· + 1) hlength,
          List.forall_mem_cons.mpr ⟨hdigit, hdigits⟩, ht', rfl⟩
      · exact reads_error _

theorem stringLoop_digits {digits : List Char} (h : ∀ c ∈ digits, isHex c = true)
    (rest : List Char) :
    stringLoop (.behindDigit digits.length) (digits ++ rest) = stringLoop .body rest := by
  induction digits with
  | nil => rfl
  | cons digit digits ih =>
    obtain ⟨hdigit, hdigits⟩ := List.forall_mem_cons.mp h
    rw [List.length_cons, List.cons_append, StringState.behindDigit, stringLoop]
    exact (if_pos hdigit).trans (ih hdigits)

theorem stringLoop_body {body : List Char} (h : IsStringBody body) (rest : List Char) :
    stringLoop .body (body ++ '\x22' :: rest) = .ok rest := by
  induction h with
  | nil =>
    rw [List.nil_append, stringLoop]
    exact if_pos rfl
  | @plain c t hcontrol hquote hback _ ih =>
    rw [List.cons_append, stringLoop, if_neg hquote, if_neg hback, if_neg (not_lt.mpr hcontrol), ih]
  | @short c t hc _ ih =>
    rw [List.cons_append, List.cons_append, stringLoop, if_neg (by decide), if_pos rfl, stringLoop,
      if_pos (isShortEscape_iff.mpr hc), ih]
  | @unicode digits t hlength hdigits _ ih =>
    have hloop := stringLoop_digits hdigits (t ++ '\x22' :: rest)
    rw [hlength] at hloop
    rw [List.cons_append, List.cons_append, List.append_assoc, stringLoop, if_neg (by decide),
      if_pos rfl, stringLoop, if_neg (by decide), if_pos rfl]
    exact hloop.trans ih

/-- A string between its quotes. -/
def IsString (t : List Char) : Prop := ∃ body, IsStringBody body ∧ t = '\x22' :: (body ++ ['\x22'])

theorem reads_scanJsonString {text : List Char} (h : text.head? = some '\x22') :
    Reads IsString text (scanJsonString text) := by
  rw [eq_cons_of_head? h, scanJsonString, List.tail_cons]
  obtain he | ⟨front, rest, ⟨body, hbody, rfl⟩, hrest, hr⟩ := reads_stringLoop .body text.tail
  · exact Or.inl he
  · exact Or.inr ⟨_, rest, ⟨body, hbody, rfl⟩, congrArg ('\x22' :: ·) hrest, hr⟩

theorem scanJsonString_string {body : List Char} (h : IsStringBody body) (rest : List Char) :
    scanJsonString ('\x22' :: (body ++ '\x22' :: rest)) = .ok rest :=
  stringLoop_body h rest

/-! ## Literals -/

theorem reads_scanJsonLiteral (literal text : List Char) :
    Reads (· = literal) text (scanJsonLiteral literal text) := by
  rw [scanJsonLiteral]
  split_ifs with h
  · exact reads_ok h (List.take_append_drop _ _).symm
  · exact reads_error _

theorem scanJsonLiteral_append (literal rest : List Char) :
    scanJsonLiteral literal (literal ++ rest) = .ok rest := by
  rw [scanJsonLiteral, List.take_left, if_pos rfl, List.drop_left]

/-! ## Numbers -/

theorem atDigit_cons (c : Char) (rest : List Char) : atDigit (c :: rest) = c.isDigit := rfl

theorem digits_of_atDigit {text : List Char} (h : atDigit text = true) :
    Digits (text.takeWhile Char.isDigit) := by
  refine ⟨?_, List.all_eq_true.mp List.all_takeWhile⟩
  cases text with
  | nil => cases h
  | cons c text =>
    rw [List.takeWhile_cons_of_pos (p := Char.isDigit) h]
    exact List.cons_ne_nil _ _

theorem atDigit_digits {digits : List Char} (h : Digits digits) (rest : List Char) :
    atDigit (digits ++ rest) = true := by
  obtain ⟨c, more, rfl⟩ := List.exists_cons_of_ne_nil h.1
  exact h.2 c List.mem_cons_self

theorem skipDigits_digits {digits rest : List Char} (h : Digits digits)
    (hrest : atDigit rest = false) : skipDigits (digits ++ rest) = rest := by
  rw [skipDigits, List.dropWhile_append_of_pos h.2]
  cases rest with
  | nil => rfl
  | cons c rest => exact List.dropWhile_cons_of_neg (by rwa [Bool.not_eq_true])

theorem skipDigits_eq (text : List Char) :
    text = text.takeWhile Char.isDigit ++ skipDigits text := List.takeWhile_append_dropWhile.symm

theorem reads_scanInt (text : List Char) : Reads IsInt text (scanInt text) := by
  rw [scanInt]
  split_ifs with hdigit hzero hmore
  · exact reads_error _
  · exact reads_error _
  · exact reads_ok (Or.inl rfl) (eq_cons_of_head? hzero)
  · have hdigits := digits_of_atDigit (by simpa using hdigit)
    refine reads_ok (Or.inr ⟨hdigits, fun hhead => hzero ?_⟩) (skipDigits_eq text)
    rw [skipDigits_eq text, List.head?_append, hhead]
    rfl

theorem reads_scanFraction (text : List Char) : Reads IsFraction text (scanFraction text) := by
  rw [scanFraction]
  split_ifs with hpoint hdigit
  · exact reads_error _
  · have hdigits := digits_of_atDigit (by simpa using hdigit)
    refine reads_ok (Or.inr ⟨_, hdigits, rfl⟩) ?_
    rw [List.cons_append, ← skipDigits_eq]
    exact eq_cons_of_head? hpoint
  · exact reads_ok (Or.inl rfl) rfl

theorem skipOne_eq (signs text : List Char) :
    ∃ sign, (sign = [] ∨ ∃ c ∈ signs, sign = [c]) ∧ text = sign ++ skipOne signs text := by
  unfold skipOne
  split_ifs with h
  · cases text with
    | nil => cases h
    | cons c text => exact ⟨[c], Or.inr ⟨c, by simpa using h, rfl⟩, rfl⟩
  · exact ⟨[], Or.inl rfl, rfl⟩

theorem reads_scanExponent (text : List Char) : Reads IsExponent text (scanExponent text) := by
  rw [scanExponent]
  dsimp only
  split_ifs with he hdigit
  · exact reads_error _
  · have hdigits := digits_of_atDigit (by simpa using hdigit)
    obtain ⟨sign, hsign, htail⟩ := skipOne_eq ['+', '-'] text.tail
    have hhead : ∃ e, (e = 'e' ∨ e = 'E') ∧ text = e :: text.tail := by
      rcases he with he | he
      · exact ⟨'e', Or.inl rfl, eq_cons_of_head? he⟩
      · exact ⟨'E', Or.inr rfl, eq_cons_of_head? he⟩
    obtain ⟨e, he, htext⟩ := hhead
    refine reads_ok (Or.inr ⟨e, sign, _, he, by simpa using hsign, hdigits, rfl⟩) ?_
    rw [List.cons_append, List.append_assoc, ← skipDigits_eq, ← htail]
    exact htext
  · exact reads_ok (Or.inl rfl) rfl

theorem reads_scanJsonNumber (text : List Char) :
    Reads IsNumber text (scanJsonNumber text) := by
  obtain ⟨sign, hsign, htext⟩ := skipOne_eq ['-'] text
  rw [scanJsonNumber]
  obtain ⟨e, he⟩ | ⟨int, rest, hint, hrest, hr⟩ := reads_scanInt (skipOne ['-'] text)
  · exact Or.inl ⟨e, by rw [he]; rfl⟩
  rw [hr, ok_bind]
  obtain ⟨e, he⟩ | ⟨fraction, rest', hfraction, hrest', hr⟩ := reads_scanFraction rest
  · exact Or.inl ⟨e, by rw [he]; rfl⟩
  rw [hr, ok_bind]
  obtain he | ⟨exponent, rest'', hexponent, hrest'', hr⟩ := reads_scanExponent rest'
  · exact Or.inl he
  rw [hr]
  refine reads_ok ⟨sign, int, fraction, exponent, by simpa using hsign, hint, hfraction, hexponent,
    rfl⟩ ?_
  rw [htext, hrest, hrest', hrest'']
  simp

/-- What follows on a number continues no part of it. -/
structure Ends (rest : List Char) : Prop where
  digit : atDigit rest = false
  point : rest.head? ≠ some '.'
  lower : rest.head? ≠ some 'e'
  upper : rest.head? ≠ some 'E'

theorem Closed.ends {rest : List Char} (h : Closed rest) : Ends rest := by
  cases rest with
  | nil => exact ⟨rfl, nofun, nofun, nofun⟩
  | cons c rest =>
    have hc := h c rfl
    rw [isBlank] at hc
    simp only [Bool.or_eq_true, decide_eq_true_eq] at hc
    constructor <;> rcases hc with (((rfl | rfl) | rfl) | rfl) | rfl | rfl | rfl <;> simp [atDigit]

theorem scanExponent_append {exponent rest : List Char} (h : IsExponent exponent)
    (hrest : Ends rest) : scanExponent (exponent ++ rest) = .ok rest := by
  rw [scanExponent]
  rcases h with rfl | ⟨e, sign, digits, he, hsign, hdigits, rfl⟩
  · rw [List.nil_append, if_neg (by simp [hrest.lower, hrest.upper])]
  · have hhead : (e :: (sign ++ digits) ++ rest).head? = some 'e' ∨
        (e :: (sign ++ digits) ++ rest).head? = some 'E' := by
      rcases he with rfl | rfl
      · exact Or.inl rfl
      · exact Or.inr rfl
    have hskip : skipOne ['+', '-'] (sign ++ (digits ++ rest)) = digits ++ rest := by
      rcases hsign with rfl | rfl | rfl
      · obtain ⟨c, more, rfl⟩ := List.exists_cons_of_ne_nil hdigits.1
        have hc := hdigits.2 c List.mem_cons_self
        rw [skipOne, if_neg]
        · rfl
        · rw [List.nil_append, List.cons_append, List.head?_cons, Option.any_some]
          rintro hmem
          rcases List.mem_pair.mp (List.contains_iff_mem.mp hmem) with rfl | rfl <;> cases hc
      · rfl
      · rfl
    rw [if_pos hhead, List.cons_append, List.tail_cons, List.append_assoc, hskip]
    dsimp only
    rw [atDigit_digits hdigits, skipDigits_digits hdigits hrest.digit]
    rfl

theorem scanFraction_append {fraction rest : List Char} (h : IsFraction fraction)
    (hdigit : atDigit rest = false) (hpoint : rest.head? ≠ some '.') :
    scanFraction (fraction ++ rest) = .ok rest := by
  rw [scanFraction]
  rcases h with rfl | ⟨digits, hdigits, rfl⟩
  · rw [List.nil_append, if_neg hpoint]
  · rw [List.cons_append, List.head?_cons, if_pos rfl, List.tail_cons, atDigit_digits hdigits,
      skipDigits_digits hdigits hdigit]
    rfl

theorem scanInt_append {int rest : List Char} (h : IsInt int) (hdigit : atDigit rest = false) :
    scanInt (int ++ rest) = .ok rest := by
  rw [scanInt]
  rcases h with rfl | ⟨hdigits, hzero⟩
  · rw [List.singleton_append, atDigit_cons, if_neg (by decide), List.head?_cons, if_pos rfl,
      List.tail_cons, hdigit]
    rfl
  · have hhead : (int ++ rest).head? ≠ some '0' := by
      obtain ⟨c, more, rfl⟩ := List.exists_cons_of_ne_nil hdigits.1
      exact hzero
    rw [atDigit_digits hdigits, if_neg (by decide), if_neg hhead, skipDigits_digits hdigits hdigit]

theorem scanJsonNumber_append {number rest : List Char} (h : IsNumber number) (hrest : Ends rest) :
    scanJsonNumber (number ++ rest) = .ok rest := by
  obtain ⟨sign, int, fraction, exponent, hsign, hint, hfraction, hexponent, rfl⟩ := h
  have hexp := scanExponent_append hexponent hrest
  have hends : atDigit (exponent ++ rest) = false ∧ (exponent ++ rest).head? ≠ some '.' := by
    rcases hexponent with rfl | ⟨e, sign, digits, rfl | rfl, -, -, rfl⟩
    · exact ⟨hrest.digit, hrest.point⟩
    · exact ⟨rfl, by simp⟩
    · exact ⟨rfl, by simp⟩
  have hfrac := scanFraction_append hfraction hends.1 hends.2
  have hdigit : atDigit (fraction ++ (exponent ++ rest)) = false := by
    rcases hfraction with rfl | ⟨digits, -, rfl⟩
    · exact hends.1
    · rfl
  have hskip : skipOne ['-'] (sign ++ (int ++ (fraction ++ (exponent ++ rest)))) =
      int ++ (fraction ++ (exponent ++ rest)) := by
    rcases hsign with rfl | rfl
    · rw [List.nil_append, skipOne, if_neg]
      have hne : int ≠ [] ∧ int.head? ≠ some '-' := by
        rcases hint with rfl | ⟨hdigits, -⟩
        · exact ⟨by simp, by simp⟩
        · refine ⟨hdigits.1, fun hhead => ?_⟩
          have hbad := hdigits.2 '-' (List.mem_of_mem_head? hhead)
          cases hbad
      obtain ⟨c, more, rfl⟩ := List.exists_cons_of_ne_nil hne.1
      simpa using hne.2
    · rfl
  rw [scanJsonNumber, List.append_assoc, List.append_assoc, List.append_assoc, hskip,
    scanInt_append hint hdigit, ok_bind, hfrac, ok_bind, hexp]

end LawNexus.CleanedWire
