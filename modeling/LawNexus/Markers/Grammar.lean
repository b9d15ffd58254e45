import LawNexus.Markers.Hierarchy

/-!
# The grammar of markers

What `extract_hierarchy` accepts, and what the catalog declares.
-/

namespace LawNexus.Markers

open Utf8 Chars Loops
open Texts (isWhitespace)
open Groups (DecodeLevel NumberStyle SpacePolicy PrefixRule)

/-! ## Grammars -/

def Blank (text : List Char) : Prop := ∀ c ∈ text, isWhitespace c = true

/-- Nothing follows, or a blank. -/
def FollowedByBlank (suffix : List Char) : Prop := ∀ c ∈ suffix.head?, isWhitespace c = true

/-- A number in the style of a level. -/
def IsNumber (level : DecodeLevel) (number : List Char) : Prop :=
  IsCompound number ∨
    numberStyle level = some .romanOrDigit ∧ number ≠ [] ∧ ∀ c ∈ number, isRoman c = true

/-- A marker with a prefix of the catalog. -/
inductive Prefixed : DecodeLevel → List Char → List Char → Prop where
  | intro {rule : PrefixRule} {gap number : List Char} {c : Char} (hrule : rule ∈ prefixes)
      (hgap : Blank gap) (hspace : rule.space = .required → gap ≠ [])
      (hnumber : IsNumber rule.level number) (hc : isPunctuation c = true) :
      Prefixed rule.level number (rule.marker ++ gap ++ number ++ [c])

/-- The markers that the catalog declares: level, number and text. -/
inductive Declared : DecodeLevel → List Char → List Char → Prop where
  | prefixed {level : DecodeLevel} {number marker : List Char} (h : Prefixed level number marker) :
      Declared level number marker
  | chast {number : List Char} (h : IsCompound number) : Declared .chast number (number ++ ['.'])
  | punkt {number : List Char} (h : IsCompound number) : Declared .punkt number (number ++ [')'])
  | podpunkt {c : Char} (h : 'а' ≤ c ∧ c ≤ 'я') : Declared .podpunkt [c] [c, ')']

/-- The markers that are accepted: none with a letter, and a compound number before a colon. -/
inductive Accepted : DecodeLevel → List Char → List Char → Prop where
  | prefixed {level : DecodeLevel} {number marker : List Char} (h : Prefixed level number marker) :
      Accepted level number marker
  | chast {number : List Char} (h : IsCompound number) : Accepted .chast number (number ++ ['.'])
  | punkt {number : List Char} (h : IsCompound number) : Accepted .punkt number (number ++ [')'])
  | paragraph {number : List Char} (h : IsCompound number) (hdot : '.' ∈ number) :
      Accepted .paragraph number (number ++ [':'])

/-- The node has the span of the marker and what stands behind it as its title. -/
structure NodeOf (text lead marker suffix : List Char) (node : HierarchyNode) : Prop where
  start : node.markerSpan.start = byteLen lead
  stop : node.markerSpan.stop = byteLen lead + byteLen marker
  title : node.title = if (trim suffix).isEmpty then none else some (trim suffix)
  text : node.text = text

/-- The text starts with a marker of the grammar behind its blanks, and the node is the one of this
marker. -/
def ReadsAs (marks : DecodeLevel → List Char → List Char → Prop) (text : List Char)
    (node : HierarchyNode) : Prop :=
  ∃ lead marker suffix, text = lead ++ (marker ++ suffix) ∧ Blank lead ∧ FollowedByBlank suffix ∧
    marks node.level node.number marker ∧ NodeOf text lead marker suffix node

/-! ## Numbers -/

theorem ascii_of_mem_numberAt {style : NumberStyle} {text : List Char} :
    ∀ c ∈ numberAt style text, c.toNat < 128 := by
  unfold numberAt
  split_ifs
  · exact ascii_of_mem_numberRun
  · exact fun c hc => ascii_of_isRoman (List.mem_takeWhile_imp hc)
  · exact fun _ h => by cases h

theorem numberAt_byteChars (style : NumberStyle) (text : List Char) :
    numberAt style (byteChars text) = numberAt style text := by
  unfold numberAt
  rw [head?_any_byteChars fun _ => ascii_of_isDigit, numberRun_byteChars,
    takeWhile_byteChars fun _ => ascii_of_isRoman]

/-- The end of a number in the bytes of a text is that of the number in its characters. -/
theorem numberEnd_append {level : DecodeLevel} {style : NumberStyle}
    (hstyle : numberStyle level = some style) (front text : List Char) :
    numberEnd (front ++ text) (byteLen front) level = if numberAt style text = [] then none
      else some (byteLen front + byteLen (numberAt style text)) := by
  unfold numberEnd
  rw [hstyle, drop_byteChars, Option.bind_eq_bind, Option.bind_some, numberAt_byteChars,
    byteLen_of_ascii ascii_of_mem_numberAt]
  simp only [List.isEmpty_iff]

theorem exists_numberStyle (level : DecodeLevel) : ∃ style, numberStyle level = some style := by
  cases level <;> exact ⟨_, rfl⟩

/-- What is found is a number of the level. -/
theorem isNumber_numberAt {level : DecodeLevel} {style : NumberStyle} {text : List Char}
    (hstyle : numberStyle level = some style) (hne : numberAt style text ≠ []) :
    IsNumber level (numberAt style text) := by
  unfold numberAt at hne ⊢
  split_ifs at hne ⊢ with hdigit hroman
  · obtain ⟨d, hd, hdigit⟩ := (Option.any_eq_true _ _).mp hdigit
    exact Or.inl (isCompound_numberRun hd hdigit)
  · exact Or.inr ⟨hroman ▸ hstyle, hne, fun c hc => List.mem_takeWhile_imp hc⟩
  · exact absurd rfl hne

theorem numberAt_prefix (style : NumberStyle) (text : List Char) :
    ∃ rest, text = numberAt style text ++ rest := by
  unfold numberAt
  split_ifs
  · obtain ⟨rest, heq, -⟩ := numberRun_prefix true text
    exact ⟨rest, heq⟩
  · exact ⟨_, List.takeWhile_append_dropWhile.symm⟩
  · exact ⟨text, rfl⟩

/-! ## What stands behind a number -/

theorem punctuation_not {c : Char} (h : isPunctuation c = true) :
    c.isDigit = false ∧ isRoman c = false ∧ isWhitespace c = false ∧ c.toNat < 128 := by
  have hall : (['.', ':', ')'].all fun d => d.isDigit = false ∧ isRoman d = false ∧
      isWhitespace d = false ∧ d.toNat < 128) = true := by decide
  exact of_decide_eq_true (List.all_eq_true.mp hall c (List.contains_iff_mem.mp h))

theorem toNat_of_isDigit {c : Char} (h : c.isDigit = true) : 48 ≤ c.toNat ∧ c.toNat ≤ 57 := by
  obtain ⟨hlow, hhigh⟩ := Bool.and_eq_true_iff.mp h
  exact ⟨UInt32.le_iff_toNat_le.mp (of_decide_eq_true hlow),
    UInt32.le_iff_toNat_le.mp (of_decide_eq_true hhigh)⟩

theorem toNat_of_isRoman {c : Char} (h : isRoman c = true) : 65 ≤ c.toNat ∧ c.toNat ≤ 122 := by
  unfold isRoman Char.toUpper at h
  split_ifs at h with hlower
  · obtain ⟨hlow, hhigh⟩ := hlower
    have hlow : 97 ≤ c.toNat := UInt32.le_iff_toNat_le.mp hlow
    exact ⟨by omega, UInt32.le_iff_toNat_le.mp hhigh⟩
  · have hall : (['I', 'V', 'X', 'L', 'C', 'D', 'M'].all fun d =>
        65 ≤ d.toNat ∧ d.toNat ≤ 122) = true := by decide
    exact of_decide_eq_true (List.all_eq_true.mp hall c (List.contains_iff_mem.mp h))

/-- No digit and no letter of a Roman number is a blank. -/
theorem isWhitespace_of_range {c : Char} (hlow : 33 ≤ c.toNat) (hhigh : c.toNat ≤ 122) :
    isWhitespace c = false := by
  simp [isWhitespace]
  omega

theorem blank_not_digit {c : Char} (h : isWhitespace c = true) : c.isDigit = false := by
  by_contra hdigit
  obtain ⟨hlow, hhigh⟩ := toNat_of_isDigit (Bool.eq_true_of_not_eq_false hdigit)
  rw [isWhitespace_of_range (by omega) (by omega)] at h
  cases h

theorem roman_not_digit {c : Char} (h : isRoman c = true) : c.isDigit = false := by
  by_contra hdigit
  obtain ⟨-, hhigh⟩ := toNat_of_isDigit (Bool.eq_true_of_not_eq_false hdigit)
  obtain ⟨hlow, -⟩ := toNat_of_isRoman h
  omega

/-- Behind a number with its punctuation no number goes on. -/
theorem ends_of_punctuation {c : Char} {suffix : List Char} (hc : isPunctuation c = true)
    (hsuffix : FollowedByBlank suffix) : Ends true (c :: suffix) := by
  unfold Ends numberRun
  rw [if_neg]
  intro h
  rw [(punctuation_not hc).1, Bool.false_or] at h
  obtain ⟨d, hd, hdigit⟩ := (Option.any_eq_true _ _).mp (Bool.and_eq_true_iff.mp h).2
  rw [blank_not_digit (hsuffix d hd)] at hdigit
  cases hdigit

/-- A number of the level is found up to its punctuation. -/
theorem numberAt_of_isNumber {level : DecodeLevel} {style : NumberStyle} {number suffix : List Char}
    {c : Char} (hstyle : numberStyle level = some style) (h : IsNumber level number)
    (hc : isPunctuation c = true) (hsuffix : FollowedByBlank suffix) :
    numberAt style (number ++ c :: suffix) = number := by
  unfold numberAt
  rcases h with h | ⟨hroman, hne, hall⟩
  · obtain ⟨d, hd, hdigit⟩ := h.first
    rw [if_pos, numberRun_append h.dotted (ends_of_punctuation hc hsuffix)]
    rw [List.head?_append_of_ne_nil _ h.ne_nil, Option.any_eq_true]
    exact ⟨d, hd, hdigit⟩
  · have hdigit : ¬ (number ++ c :: suffix).head?.any Char.isDigit = true := by
      rw [List.head?_append_of_ne_nil _ hne, Option.any_eq_true]
      rintro ⟨d, hd, hdigit⟩
      rw [roman_not_digit (hall d (List.mem_of_mem_head? hd))] at hdigit
      cases hdigit
    rw [if_neg hdigit, if_pos (Option.some.inj (hstyle.symm.trans hroman)),
      List.takeWhile_append_of_pos hall, List.takeWhile_cons_of_neg, List.append_nil]
    rw [(punctuation_not hc).2.1]
    exact Bool.false_ne_true

/-- A number starts with no blank. -/
theorem IsNumber.first {level : DecodeLevel} {number : List Char} (h : IsNumber level number) :
    ∃ c ∈ number.head?, isWhitespace c = false := by
  rcases h with h | ⟨-, hne, hall⟩
  · obtain ⟨d, hd, hdigit⟩ := h.first
    obtain ⟨hlow, hhigh⟩ := toNat_of_isDigit hdigit
    exact ⟨d, hd, isWhitespace_of_range (by omega) (by omega)⟩
  · obtain ⟨c, number, rfl⟩ := List.exists_cons_of_ne_nil hne
    obtain ⟨hlow, hhigh⟩ := toNat_of_isRoman (hall c List.mem_cons_self)
    exact ⟨c, rfl, isWhitespace_of_range (by omega) (by omega)⟩

/-! ## Prefixes -/

/-- No marker of the catalog starts another one. -/
theorem prefixes_apart : ∀ a ∈ prefixes, ∀ b ∈ prefixes, a.marker <+: b.marker → a = b := by
  decide

theorem prefixRuleMatch_eq_some {candidate : List Char} {rule : PrefixRule} {level : DecodeLevel}
    {n : Nat} (h : prefixRuleMatch candidate rule = some (level, n)) :
    ∃ gap rest, candidate = rule.marker ++ gap ++ rest ∧ Blank gap ∧
      (rule.space = .required → gap ≠ []) ∧ rule.level = level ∧
      n = byteLen (rule.marker ++ gap) := by
  obtain ⟨rest, hrest, hrule⟩ := Option.bind_eq_some_iff.mp h
  dsimp only at hrule
  split_ifs at hrule with hspace
  cases hrule
  rw [List.isPrefixOf?_eq_some_iff_append_eq] at hrest
  refine ⟨rest.takeWhile isWhitespace, rest.dropWhile isWhitespace, ?_,
    fun c hc => List.mem_takeWhile_imp hc, fun hrequired hnil => ?_, rfl, (byteLen_append ..).symm⟩
  · rw [List.append_assoc, List.takeWhile_append_dropWhile, hrest]
  · exact hspace ⟨hrequired, by rw [hnil]; rfl⟩

theorem takeWhile_gap {gap rest : List Char} (hgap : Blank gap)
    (hrest : ∃ c ∈ rest.head?, isWhitespace c = false) :
    (gap ++ rest).takeWhile isWhitespace = gap := by
  obtain ⟨c, hc, hblank⟩ := hrest
  cases rest with
  | nil => cases hc
  | cons d rest =>
    cases hc
    rw [List.takeWhile_append_of_pos hgap, List.takeWhile_cons_of_neg (by simp [hblank]),
      List.append_nil]

theorem prefixRuleMatch_of_rule {rule : PrefixRule} {gap rest : List Char} (hgap : Blank gap)
    (hspace : rule.space = .required → gap ≠ [])
    (hrest : ∃ c ∈ rest.head?, isWhitespace c = false) :
    prefixRuleMatch (rule.marker ++ gap ++ rest) rule =
      some (rule.level, byteLen (rule.marker ++ gap)) := by
  have hstripped : rule.marker.isPrefixOf? (rule.marker ++ gap ++ rest) = some (gap ++ rest) := by
    rw [List.isPrefixOf?_eq_some_iff_append_eq, List.append_assoc]
  unfold prefixRuleMatch
  rw [hstripped, Option.bind_eq_bind, Option.bind_some, takeWhile_gap hgap hrest, byteLen_append]
  refine if_neg ?_
  rintro ⟨hrequired, hzero⟩
  exact Nat.ne_of_gt (byteLen_pos (hspace hrequired)) hzero

theorem markerPrefix_eq_some {candidate : List Char} {level : DecodeLevel} {n : Nat}
    (h : markerPrefix candidate = some (level, n)) :
    ∃ rule ∈ prefixes, prefixRuleMatch candidate rule = some (level, n) := by
  obtain ⟨rule, hrule, hmatch⟩ := List.exists_of_findSome?_eq_some h
  exact ⟨rule, hrule, hmatch⟩

theorem markerPrefix_of_rule {rule : PrefixRule} {gap rest : List Char} (hrule : rule ∈ prefixes)
    (hgap : Blank gap) (hspace : rule.space = .required → gap ≠ [])
    (hrest : ∃ c ∈ rest.head?, isWhitespace c = false) :
    markerPrefix (rule.marker ++ gap ++ rest) =
      some (rule.level, byteLen (rule.marker ++ gap)) := by
  have hmatch := prefixRuleMatch_of_rule hgap hspace hrest
  cases hfound : markerPrefix (rule.marker ++ gap ++ rest) with
  | none =>
    rw [markerPrefix, List.findSome?_eq_none_iff] at hfound
    rw [hfound rule hrule] at hmatch
    cases hmatch
  | some found =>
    obtain ⟨other, hother, hfirst⟩ := markerPrefix_eq_some hfound
    obtain ⟨gap', rest', heq, -⟩ := prefixRuleMatch_eq_some hfirst
    -- Both markers start the text, so that one of them starts the other.
    have hstarts : rule.marker <+: rule.marker ++ gap ++ rest := by
      rw [List.append_assoc]
      exact List.prefix_append _ _
    have hstarts' : other.marker <+: rule.marker ++ gap ++ rest := by
      rw [heq, List.append_assoc]
      exact List.prefix_append _ _
    have hsame : other = rule := by
      rcases List.prefix_or_prefix_of_prefix hstarts hstarts' with hshort | hshort
      · exact (prefixes_apart rule hrule other hother hshort).symm
      · exact prefixes_apart other hother rule hrule hshort
    rw [← hfirst, hsame, hmatch]

/-! ## Numbered markers -/

def StartsWithDigit (text : List Char) : Prop := ∃ d ∈ text.head?, d.isDigit = true

theorem any_isDigit_iff {text : List Char} :
    text.head?.any Char.isDigit = true ↔ StartsWithDigit text := Option.any_eq_true _ _

/-- A rule for digits, on a text that starts with a number. -/
theorem numberedRuleMatch_digit {level : DecodeLevel} {suffix : Char} {compound : Bool}
    {candidate rest : List Char} (hascii : suffix.toNat < 128) (hstart : StartsWithDigit candidate)
    (hrest : candidate = numberRun compound candidate ++ rest) :
    numberedRuleMatch candidate ⟨level, .digit, suffix, compound⟩ =
      if rest.head? = some suffix then some (level, 0) else none := by
  obtain ⟨d, hd, hdigit⟩ := hstart
  have hstyled : (byteChars candidate).head?.any Char.isDigit = true := by
    rw [head?_any_byteChars fun _ => ascii_of_isDigit]
    exact any_isDigit_iff.mpr ⟨d, hd, hdigit⟩
  have hne : (numberRun compound candidate).length ≠ 0 := fun hzero => by
    have hhead : d ∈ (numberRun compound candidate).head? := head?_numberRun hd hdigit
    rw [List.length_eq_zero_iff.mp hzero] at hhead
    cases hhead
  have hat : (byteChars candidate)[(numberRun compound candidate).length]? =
      (byteChars rest).head? := by
    have hbyte := getElem?_byteChars (numberRun compound candidate) rest
    rwa [← hrest, byteLen_numberRun] at hbyte
  unfold numberedRuleMatch
  simp only [hstyled, numberRun_byteChars, Bool.not_true, Bool.false_eq_true, if_false, hne, hat,
    head?_byteChars hascii]

theorem toNat_of_letter {c : Char} (h : 'а' ≤ c ∧ c ≤ 'я') : 128 ≤ c.toNat :=
  Nat.le_trans (by decide) (UInt32.le_iff_toNat_le.mp h.1)

/-- The rule for a letter looks for digits, and so it never matches. -/
theorem numberedRuleMatch_letter {level : DecodeLevel} {suffix : Char} {compound : Bool}
    (candidate : List Char) :
    numberedRuleMatch candidate ⟨level, .letterCyrillic, suffix, compound⟩ = none := by
  unfold numberedRuleMatch
  dsimp only
  rw [numberRun_byteChars]
  cases candidate with
  | nil => rfl
  | cons c rest =>
    cases hstyled : (List.head? (c :: rest)).any fun c => decide ('а' ≤ c ∧ c ≤ 'я') with
    | false => rfl
    | true =>
      rw [numberRun_of_other (toNat_of_letter (of_decide_eq_true hstyled))]
      rfl

/-- On a text that starts with no digit no rule matches. -/
theorem numberedMarkerPrefix_other {candidate : List Char} (h : ¬ StartsWithDigit candidate) :
    numberedMarkerPrefix candidate = none := by
  have hdigit : ∀ level suffix compound,
      numberedRuleMatch candidate ⟨level, .digit, suffix, compound⟩ = none := by
    intro level suffix compound
    have hstyled : (byteChars candidate).head?.any Char.isDigit = false := by
      rw [head?_any_byteChars fun _ => ascii_of_isDigit]
      exact Bool.eq_false_iff.mpr fun hany => h (any_isDigit_iff.mp hany)
    unfold numberedRuleMatch
    simp only [hstyled, Bool.not_false, if_true]
  rw [numberedMarkerPrefix, List.findSome?_eq_none_iff]
  rintro ⟨level, style, suffix, compound⟩ -
  cases style with
  | digit => exact hdigit level suffix compound
  | letterCyrillic => exact numberedRuleMatch_letter candidate

/-- A number before a dot, before a bracket, and one whose digits a dot follows. -/
theorem numberedMarkerPrefix_digit {candidate rest rest' : List Char}
    (hstart : StartsWithDigit candidate) (hrest : candidate = numberRun true candidate ++ rest)
    (hrest' : candidate = numberRun false candidate ++ rest') :
    numberedMarkerPrefix candidate =
      if rest.head? = some '.' then some (.chast, 0)
      else if rest.head? = some ')' then some (.punkt, 0)
      else if rest'.head? = some '.' then some (.paragraph, 0)
      else none := by
  unfold numberedMarkerPrefix numberedMarkers
  simp only [List.findSome?_cons, List.findSome?_nil, numberedRuleMatch_letter,
    numberedRuleMatch_digit (show '.'.toNat < 128 by decide) hstart hrest,
    numberedRuleMatch_digit (show ')'.toNat < 128 by decide) hstart hrest,
    numberedRuleMatch_digit (show '.'.toNat < 128 by decide) hstart hrest']
  split_ifs <;> rfl

end LawNexus.Markers
