import LawNexus.Chars
import LawNexus.Utf8

/-!
# The numbers of markers

The scans of `hierarchy.rs` and `structural_profile.rs` over the digits and dots of a number, in
the bytes of a text and in its characters.
-/

namespace LawNexus.Markers

open Utf8 Chars

/-- The digits at the start and, in a compound number, the dots before a digit. -/
def numberRun (compound : Bool) : List Char → List Char
  | [] => []
  | c :: rest =>
    if c.isDigit || compound && c = '.' && rest.head?.any Char.isDigit then
      c :: numberRun compound rest
    else []

def isRoman (c : Char) : Bool := ['I', 'V', 'X', 'L', 'C', 'D', 'M'].contains c.toUpper

/-! ## Bytes and characters -/

theorem ascii_of_isDigit {c : Char} (h : c.isDigit = true) : c.toNat < 128 := by
  have hle := (Bool.and_eq_true_iff.mp h).2
  exact Nat.lt_of_le_of_lt (UInt32.le_iff_toNat_le.mp (of_decide_eq_true hle)) (by decide)

theorem ascii_of_isRoman {c : Char} (h : isRoman c = true) : c.toNat < 128 := by
  unfold isRoman Char.toUpper at h
  by_contra hge
  split_ifs at h with hlower
  · exact hge (Nat.lt_of_le_of_lt (UInt32.le_iff_toNat_le.mp hlower.2) (by decide))
  · have hall : (['I', 'V', 'X', 'L', 'C', 'D', 'M'].all fun d => d.toNat < 128) = true := by
      decide
    exact hge (of_decide_eq_true (List.all_eq_true.mp hall c (List.contains_iff_mem.mp h)))

theorem head?_any_byteChars {p : Char → Bool} (hp : ∀ c, p c = true → c.toNat < 128)
    (text : List Char) : (byteChars text).head?.any p = text.head?.any p := by
  rw [Bool.eq_iff_iff, Option.any_eq_true, Option.any_eq_true]
  refine exists_congr fun c => and_congr_left fun hc => ?_
  rw [head?_byteChars (hp c hc)]

/-- No number starts with a character that is not ASCII. -/
theorem numberRun_of_other {compound : Bool} {c : Char} (h : 128 ≤ c.toNat) (rest : List Char) :
    numberRun compound (c :: rest) = [] := by
  have hdigit : c.isDigit = false := Bool.eq_false_iff.mpr fun hdigit =>
    Nat.not_lt.mpr h (ascii_of_isDigit hdigit)
  have hdot : c ≠ '.' := by
    rintro rfl
    exact absurd h (by decide)
  simp [numberRun, hdigit, hdot]

/-- A number is the same in the bytes and in the characters. -/
theorem numberRun_byteChars (compound : Bool) (text : List Char) :
    numberRun compound (byteChars text) = numberRun compound text := by
  induction text with
  | nil => rfl
  | cons c text ih =>
    rcases Nat.lt_or_ge c.toNat 128 with hc | hc
    · rw [byteChars_cons_ascii hc, numberRun, numberRun, ih,
        head?_any_byteChars fun _ => ascii_of_isDigit]
    · obtain ⟨d, rest, heq, hd⟩ := byteChars_cons_other hc text
      rw [heq, numberRun_of_other hd, numberRun_of_other hc]

theorem ascii_of_mem_numberRun {compound : Bool} {text : List Char} :
    ∀ c ∈ numberRun compound text, c.toNat < 128 := by
  induction text with
  | nil => exact fun _ h => by cases h
  | cons c text ih =>
    rw [numberRun]
    split_ifs with hc
    · refine List.forall_mem_cons.mpr ⟨?_, ih⟩
      rcases Bool.or_eq_true_iff.mp hc with hdigit | hdot
      · exact ascii_of_isDigit hdigit
      · have hdot := (Bool.and_eq_true_iff.mp (Bool.and_eq_true_iff.mp hdot).1).2
        rw [of_decide_eq_true hdot]
        decide
    · exact fun _ h => by cases h

theorem byteLen_numberRun (compound : Bool) (text : List Char) :
    byteLen (numberRun compound text) = (numberRun compound text).length :=
  byteLen_of_ascii ascii_of_mem_numberRun

/-! ## Compound numbers -/

/-- Digits, and dots that a digit follows. -/
def Dotted : List Char → Prop
  | [] => True
  | c :: rest => (c.isDigit = true ∨ c = '.' ∧ ∃ d ∈ rest.head?, d.isDigit = true) ∧ Dotted rest

/-- A digit, then digits and inner dots. -/
structure IsCompound (number : List Char) : Prop where
  first : ∃ d ∈ number.head?, d.isDigit = true
  dotted : Dotted number

/-- A run that ends: no digit follows, and no dot before a digit. -/
def Ends (compound : Bool) (rest : List Char) : Prop := numberRun compound rest = []

theorem numberRun_prefix (compound : Bool) (text : List Char) :
    ∃ rest, text = numberRun compound text ++ rest ∧ Ends compound rest := by
  induction text with
  | nil => exact ⟨[], rfl, rfl⟩
  | cons c text ih =>
    unfold numberRun
    split_ifs with hc
    · obtain ⟨rest, heq, hends⟩ := ih
      exact ⟨rest, congrArg (c :: ·) heq, hends⟩
    · refine ⟨c :: text, rfl, ?_⟩
      rw [Ends, numberRun, if_neg hc]

theorem head?_numberRun {compound : Bool} {text : List Char} {d : Char}
    (h : d ∈ text.head?) (hd : d.isDigit = true) : d ∈ (numberRun compound text).head? := by
  cases text with
  | nil => cases h
  | cons c text =>
    cases h
    rw [numberRun, if_pos (by rw [hd, Bool.true_or])]
    rfl

theorem dotted_numberRun (compound : Bool) (text : List Char) :
    Dotted (numberRun compound text) := by
  induction text with
  | nil => trivial
  | cons c text ih =>
    rw [numberRun]
    split_ifs with hc
    · refine ⟨?_, ih⟩
      rcases Bool.or_eq_true_iff.mp hc with hdigit | hdot
      · exact Or.inl hdigit
      · obtain ⟨hdot, hnext⟩ := Bool.and_eq_true_iff.mp hdot
        obtain ⟨d, hd, hdigit⟩ := (Option.any_eq_true _ _).mp hnext
        exact Or.inr ⟨of_decide_eq_true (Bool.and_eq_true_iff.mp hdot).2, d,
          head?_numberRun hd hdigit, hdigit⟩
    · trivial

/-- A compound number is read up to its end. -/
theorem numberRun_append {number rest : List Char} (h : Dotted number) (hends : Ends true rest) :
    numberRun true (number ++ rest) = number := by
  induction number with
  | nil => exact hends
  | cons c number ih =>
    obtain ⟨hc, hrest⟩ := h
    rw [List.cons_append, numberRun, ih hrest, if_pos]
    rcases hc with hdigit | ⟨rfl, d, hd, hdigit⟩
    · rw [hdigit, Bool.true_or]
    · cases number with
      | nil => cases hd
      | cons e number =>
        cases hd
        simp [hdigit]

theorem isCompound_numberRun {compound : Bool} {text : List Char} {d : Char}
    (h : d ∈ text.head?) (hd : d.isDigit = true) : IsCompound (numberRun compound text) :=
  ⟨⟨d, head?_numberRun h hd, hd⟩, dotted_numberRun compound text⟩

theorem IsCompound.ne_nil {number : List Char} (h : IsCompound number) : number ≠ [] := by
  rintro rfl
  obtain ⟨d, hd, -⟩ := h.first
  cases hd

theorem digit_or_dot {number : List Char} (h : Dotted number) :
    ∀ c ∈ number, c.isDigit = true ∨ c = '.' := by
  induction number with
  | nil => exact fun _ h => by cases h
  | cons c number ih => exact List.forall_mem_cons.mpr ⟨h.1.imp_right And.left, ih h.2⟩

theorem Ends.plain {rest : List Char} (h : Ends true rest) : Ends false rest := by
  cases rest with
  | nil => rfl
  | cons c rest =>
    unfold Ends numberRun at h ⊢
    split_ifs at h with hc
    rw [if_neg]
    intro hdigit
    rw [Bool.false_and, Bool.false_and, Bool.or_false] at hdigit
    exact hc (by rw [hdigit, Bool.true_or])

theorem numberRun_digits {number : List Char} (h : ∀ c ∈ number, c.isDigit = true)
    (rest : List Char) : numberRun false (number ++ rest) = number ++ numberRun false rest := by
  induction number with
  | nil => rfl
  | cons c number ih =>
    obtain ⟨hc, hrest⟩ := List.forall_mem_cons.mp h
    rw [List.cons_append, numberRun, if_pos (by rw [hc, Bool.true_or]), ih hrest]
    rfl

/-- The digits of a number with an inner dot end at a dot. -/
theorem dot_behind_digits {number : List Char} (h : Dotted number) (hdot : '.' ∈ number)
    (tail : List Char) : ∃ rest, number ++ tail = numberRun false (number ++ tail) ++ rest ∧
      rest.head? = some '.' := by
  induction number with
  | nil => cases hdot
  | cons c number ih =>
    obtain ⟨hc, hrest⟩ := h
    rw [List.cons_append, numberRun]
    rcases hc with hdigit | ⟨rfl, -⟩
    · have hne : c ≠ '.' := by
        rintro rfl
        cases hdigit
      obtain ⟨rest, heq, hhead⟩ := ih hrest ((List.mem_cons.mp hdot).resolve_left hne.symm)
      rw [if_pos (by rw [hdigit, Bool.true_or])]
      exact ⟨rest, congrArg (c :: ·) heq, hhead⟩
    · rw [Bool.false_and, Bool.false_and, Bool.or_false, if_neg (by decide)]
      exact ⟨'.' :: (number ++ tail), rfl, rfl⟩

/-- Digits that a dot follows are only a part of a number, or the dot is behind the number. -/
theorem dot_mem_numberRun {text rest rest' : List Char}
    (hrest : text = numberRun true text ++ rest) (hrest' : text = numberRun false text ++ rest')
    (hdot : rest'.head? = some '.') (hnot : rest.head? ≠ some '.') : '.' ∈ numberRun true text := by
  by_contra hmem
  have hdigits : ∀ c ∈ numberRun true text, c.isDigit = true := fun c hc =>
    (digit_or_dot (dotted_numberRun true text) c hc).resolve_right fun heq => hmem (heq ▸ hc)
  obtain ⟨after, hafter, hends⟩ := numberRun_prefix true text
  obtain rfl : rest = after := List.append_cancel_left (hrest.symm.trans hafter)
  have hsame : numberRun false text = numberRun true text := by
    conv_lhs => rw [hrest]
    rw [numberRun_digits hdigits, hends.plain, List.append_nil]
  rw [hsame] at hrest'
  exact hnot (List.append_cancel_left (hrest.symm.trans hrest') ▸ hdot)

end LawNexus.Markers
