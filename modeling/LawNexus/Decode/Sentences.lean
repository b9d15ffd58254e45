import LawNexus.Chars
import LawNexus.Decode.Lexer

/-!
# Sentences

`split_legal_sentences` of `ln-decode/src/sentence.rs`: one scan over the characters that cuts
behind a terminal mark, with the closing punctuation behind it.
-/

namespace LawNexus.Decode

open Utf8
open Texts (isWhitespace)

def TextSpan.tryNew (start stop : Nat) : Option TextSpan :=
  if h : start < stop then some ⟨start, stop, h⟩ else none

theorem TextSpan.tryNew_eq_some {start stop : Nat} {span : TextSpan} :
    TextSpan.tryNew start stop = some span ↔ span.start = start ∧ span.stop = stop := by
  unfold TextSpan.tryNew
  constructor
  · intro h
    split_ifs at h
    obtain rfl := Option.some.inj h
    exact ⟨rfl, rfl⟩
  · rintro ⟨rfl, rfl⟩
    exact dif_pos span.nonempty

theorem TextSpan.tryNew_isSome {start stop : Nat} :
    (TextSpan.tryNew start stop).isSome ↔ start < stop := by
  unfold TextSpan.tryNew
  split_ifs with h <;> simp [h]

def LEGAL_ABBREVIATIONS : List String := ["ст", "п", "ч", "ред", "г"]

def CLOSING_PUNCTUATION : List Char := ['»', '”', '"', '\x27', ')', ']', '\x7d']

/-! ## A terminal mark -/

section

variable (tables : CharTables)

/-- The letters at the end of a text. -/
def wordBefore (before : List Char) : List Char := before.rtakeWhile tables.isAlphabetic

def isDecimalPoint (before after : List Char) : Bool :=
  before.getLast?.any Char.isDigit && after.head?.any Char.isDigit

def isLegalAbbreviation (before : List Char) : Bool :=
  LEGAL_ABBREVIATIONS.any (·.toList = tables.strToLowercase (wordBefore tables before))

def isNumericListMarker (segment after : List Char) : Bool :=
  let candidate := Chars.trim segment
  !candidate.isEmpty && candidate.all Char.isDigit && after.head?.any isWhitespace

/-- Whether a sentence ends at the character `c` between the two texts: `seen` is the text in
front of the segment. -/
def isTerminal (seen segment : List Char) (c : Char) (after : List Char) : Bool :=
  if c = '!' || c = '?' then true
  else if c = '.' then
    !isDecimalPoint (seen ++ segment) after && !isLegalAbbreviation tables (seen ++ segment) &&
      !isNumericListMarker segment after
  else false

/-- More marks behind a terminal one, and the closing punctuation behind them. -/
def sentenceTail (after : List Char) : List Char :=
  let marks := after.takeWhile fun c => c = '.' || c = '!' || c = '?'
  marks ++ (after.drop marks.length).takeWhile fun c => CLOSING_PUNCTUATION.any (· = c)

/-- The span of a part without the blanks around it. -/
def trimmedSpan (seen candidate : List Char) : Option TextSpan :=
  TextSpan.tryNew (byteLen seen + byteLen (candidate.takeWhile isWhitespace))
    (byteLen seen + byteLen (Chars.trimEnd candidate))

/-! ## The scan -/

/-- The loop over the characters, with the text in front of the open segment, the segment, and
the number of characters that are consumed already. -/
def splitFrom (seen segment : List Char) (consumed : Nat) : List Char → List TextSpan
  | [] => (trimmedSpan seen segment).toList
  | c :: rest =>
    if 0 < consumed then splitFrom seen segment (consumed - 1) rest
    else if isTerminal tables seen segment c rest then
      let sentence := segment ++ c :: sentenceTail rest
      (trimmedSpan seen sentence).toList ++
        splitFrom (seen ++ sentence) [] (sentenceTail rest).length rest
    else splitFrom seen (segment ++ [c]) 0 rest

def splitLegalSentences (src : List Char) : List TextSpan := splitFrom tables [] [] 0 src

/-! ## Sentences follow each other -/

theorem trimmedSpan_bounds {seen candidate : List Char} {span : TextSpan}
    (h : trimmedSpan seen candidate = some span) :
    byteLen seen ≤ span.start ∧ span.stop ≤ byteLen (seen ++ candidate) := by
  obtain ⟨hstart, hstop⟩ := TextSpan.tryNew_eq_some.mp h
  have hle : byteLen (Chars.trimEnd candidate) ≤ byteLen candidate := by
    obtain ⟨rest, hrest⟩ := List.rdropWhile_prefix isWhitespace candidate
    conv_rhs => rw [← hrest]
    rw [byteLen_append]
    exact Nat.le_add_right _ _
  rw [hstart, hstop, byteLen_append]
  exact ⟨Nat.le_add_right _ _, Nat.add_le_add_left hle _⟩

variable {tables}

theorem splitFrom_start {seen segment rest : List Char} {consumed : Nat} {span : TextSpan}
    (h : span ∈ splitFrom tables seen segment consumed rest) : byteLen seen ≤ span.start := by
  induction rest generalizing seen segment consumed with
  | nil => exact (trimmedSpan_bounds (Option.mem_toList.mp h)).1
  | cons c rest ih =>
    rw [splitFrom] at h
    split_ifs at h
    · exact ih h
    · rcases List.mem_append.mp h with h | h
      · exact (trimmedSpan_bounds (Option.mem_toList.mp h)).1
      · have hle := ih h
        rw [byteLen_append] at hle
        exact (Nat.le_add_right _ _).trans hle
    · exact ih h

theorem pairwise_splitFrom (seen segment rest : List Char) (consumed : Nat) :
    (splitFrom tables seen segment consumed rest).Pairwise fun a b => a.stop ≤ b.start := by
  induction rest generalizing seen segment consumed with
  | nil =>
    rw [splitFrom]
    cases trimmedSpan seen segment <;> simp
  | cons c rest ih =>
    rw [splitFrom]
    split_ifs
    · exact ih _ _ _
    · refine List.pairwise_append.mpr ⟨?_, ih _ _ _, fun a ha b hb => ?_⟩
      · cases trimmedSpan seen (segment ++ c :: sentenceTail rest) <;> simp
      · exact (trimmedSpan_bounds (Option.mem_toList.mp ha)).2.trans (splitFrom_start hb)
    · exact ih _ _ _

/-- No two sentences of a text overlap, and they stand in the order of the text. -/
theorem pairwise_splitLegalSentences (src : List Char) :
    (splitLegalSentences tables src).Pairwise fun a b => a.stop ≤ b.start :=
  pairwise_splitFrom [] [] src 0

end

end LawNexus.Decode
