import LawNexus.Decode.Containment
import LawNexus.Decode.Sentences

/-!
# Sentences are a stable partition

What is cut off at the two ends of a sentence are blanks, terminal marks and closing punctuation. No
rule of the splitter looks past them, so a sentence that is split again is left whole.
-/

namespace LawNexus.Decode

open Utf8
open Texts (isWhitespace)

/-! ## Trimmed texts -/

structure Trimmed (text : List Char) : Prop where
  nonempty : text ≠ []
  head : ∀ c ∈ text.head?, isWhitespace c = false
  last : ∀ c ∈ text.getLast?, isWhitespace c = false

def Blank (text : List Char) : Prop := ∀ c ∈ text, isWhitespace c = true

theorem Trimmed.not_blank {text : List Char} (h : Trimmed text) : ¬ Blank text := by
  intro hblank
  obtain ⟨c, rest, rfl⟩ := List.exists_cons_of_ne_nil h.nonempty
  have hc := hblank c List.mem_cons_self
  rw [h.head c rfl] at hc
  cases hc

theorem rdropWhile_append_of_pos {α : Type*} {p : α → Bool} {xs back : List α}
    (h : ∀ c ∈ back, p c = true) : (xs ++ back).rdropWhile p = xs.rdropWhile p := by
  rw [List.rdropWhile, List.reverse_append, List.dropWhile_append_of_pos (by simpa using h)]
  rfl

theorem rtakeWhile_append_of_last {α : Type*} {p : α → Bool} {xs ys : List α}
    (h : ∀ c ∈ xs.getLast?, p c = false) : (xs ++ ys).rtakeWhile p = ys.rtakeWhile p := by
  have hnone : xs.reverse.takeWhile p = [] := by
    rcases List.eq_nil_or_concat xs with rfl | ⟨front, c, rfl⟩
    · rfl
    · rw [List.concat_eq_append] at h ⊢
      rw [List.reverse_append, List.reverse_singleton, List.singleton_append,
        List.takeWhile_cons_of_neg (by simp [h c (by simp)])]
  rw [List.rtakeWhile, List.rtakeWhile, List.reverse_append, List.takeWhile_append, hnone]
  split_ifs with hall
  · rw [List.append_nil, (List.takeWhile_prefix p).eq_of_length hall]
  · rfl

/-- Every text is blank, or a trimmed text between blanks. -/
theorem blank_or_trimmed (text : List Char) : Blank text ∨ ∃ pad body back,
    text = pad ++ body ++ back ∧ Blank pad ∧ Blank back ∧ Trimmed body := by
  have hfront := List.takeWhile_append_dropWhile (p := isWhitespace) (l := text)
  have hback := List.rdropWhile_append_rtakeWhile (p := isWhitespace)
    (l := text.dropWhile isWhitespace)
  by_cases hnil : (text.dropWhile isWhitespace).rdropWhile isWhitespace = []
  · exact .inl (Chars.trim_eq_nil_iff.mp hnil)
  refine .inr ⟨_, _, _, by rw [List.append_assoc, hback, hfront],
    fun c hc => List.mem_takeWhile_imp hc, fun c hc => List.mem_rtakeWhile_imp hc, hnil, ?_, ?_⟩
  · intro c hc
    have hhead := List.head?_dropWhile_not isWhitespace text
    rw [← hback, List.head?_append_of_ne_nil _ hnil, Option.mem_def.mp hc] at hhead
    simpa using hhead
  · intro c hc
    have hlast := List.rdropWhile_last_not isWhitespace _ hnil
    rw [List.getLast?_eq_some_getLast hnil, Option.mem_def, Option.some.injEq] at hc
    simpa [hc] using hlast

theorem trimmedSpan_blank {seen text : List Char} (h : Blank text) : trimmedSpan seen text = none := by
  have htake : text.takeWhile isWhitespace = text := List.takeWhile_eq_self_iff.mpr h
  have htrim : Chars.trimEnd text = [] := List.rdropWhile_eq_nil_iff.mpr h
  rw [trimmedSpan, htake, htrim, ← Option.not_isSome_iff_eq_none, TextSpan.tryNew_isSome, byteLen_nil]
  omega

theorem trimmedSpan_trimmed {seen pad body back : List Char} (hpad : Blank pad) (hback : Blank back)
    (h : Trimmed body) : ∃ span, trimmedSpan seen (pad ++ body ++ back) = some span ∧
      span.start = byteLen (seen ++ pad) ∧ span.stop = byteLen (seen ++ pad ++ body) := by
  obtain ⟨c, rest, rfl⟩ := List.exists_cons_of_ne_nil h.nonempty
  have htake : (pad ++ c :: rest ++ back).takeWhile isWhitespace = pad := by
    rw [List.append_assoc, List.takeWhile_append_of_pos hpad, List.cons_append,
      List.takeWhile_cons_of_neg (by simp [h.head c rfl]), List.append_nil]
  have htrim : Chars.trimEnd (pad ++ c :: rest ++ back) = pad ++ c :: rest := by
    rw [Chars.trimEnd, rdropWhile_append_of_pos hback, List.rdropWhile_eq_self_iff]
    intro hne
    rw [List.getLast_append_of_ne_nil _ h.nonempty]
    simp [h.last _ (List.getLast_mem_getLast? h.nonempty)]
  have hlt : byteLen seen + byteLen pad < byteLen seen + byteLen (pad ++ c :: rest) := by
    have := byteLen_pos h.nonempty
    rw [byteLen_append]
    omega
  obtain ⟨span, hspan⟩ := Option.isSome_iff_exists.mp (TextSpan.tryNew_isSome.mpr hlt)
  obtain ⟨hstart, hstop⟩ := TextSpan.tryNew_eq_some.mp hspan
  refine ⟨span, by rw [trimmedSpan, htake, htrim, hspan], ?_, ?_⟩
  · rw [hstart, byteLen_append]
  · rw [hstop, List.append_assoc, byteLen_append seen]

/-! ## What a rule sees -/

def isMark (c : Char) : Bool := c = '.' || c = '!' || c = '?'

def isClosing (c : Char) : Bool := CLOSING_PUNCTUATION.any (· = c)

/-- Blanks, terminal marks and closing punctuation are no letters. -/
structure CharTables.Plain (tables : CharTables) : Prop where
  blank : ∀ c, isWhitespace c = true → tables.isAlphabetic c = false
  mark : ∀ c, isMark c = true → tables.isAlphabetic c = false
  closing : ∀ c, isClosing c = true → tables.isAlphabetic c = false

/-- What is in front of a sentence ends in no letter and in no digit. -/
def Apart (tables : CharTables) (front : List Char) : Prop :=
  ∀ c ∈ front.getLast?, tables.isAlphabetic c = false ∧ c.isDigit = false

variable {tables : CharTables} {seen front text after pad body back rest : List Char} {c : Char}

theorem not_digit_of_blank (h : isWhitespace c = true) : c.isDigit = false := by
  rw [← Bool.not_eq_true]
  intro hdigit
  have hrange : 48 ≤ c.toNat ∧ c.toNat ≤ 57 := by
    simpa [Char.isDigit, UInt32.le_iff_toNat_le] using hdigit
  simp only [isWhitespace, Bool.or_eq_true, Bool.and_eq_true, decide_eq_true_eq, beq_iff_eq] at h
  omega

theorem apart_nil : Apart tables [] := by
  simp [Apart]

theorem Apart.blank (htables : tables.Plain) (h : Apart tables seen) (hpad : Blank pad) :
    Apart tables (seen ++ pad) := by
  intro c hc
  rcases List.eq_nil_or_concat pad with rfl | ⟨front, d, rfl⟩
  · exact h c (by simpa using hc)
  · have hd : isWhitespace d = true := hpad d (by simp)
    obtain rfl : d = c := by simpa [← List.append_assoc] using hc
    exact ⟨htables.blank d hd, not_digit_of_blank hd⟩

/-- A sentence alone is seen as in the text, but for what follows its last character. -/
theorem isTerminal_alone (htables : tables.Plain) (hseen : Apart tables seen) (hpad : Blank pad)
    (hafter : rest ≠ []) :
    isTerminal tables seen (pad ++ front) c (rest ++ after) = isTerminal tables [] front c rest := by
  have hapart : Apart tables (seen ++ pad) := hseen.blank htables hpad
  have hhead : (rest ++ after).head? = rest.head? := List.head?_append_of_ne_nil _ hafter
  have hdecimal : isDecimalPoint (seen ++ (pad ++ front)) (rest ++ after) =
      isDecimalPoint ([] ++ front) rest := by
    rw [isDecimalPoint, isDecimalPoint, hhead, ← List.append_assoc, List.nil_append]
    by_cases hfront : front = []
    · subst hfront
      rw [List.append_nil]
      cases hlast : (seen ++ pad).getLast? with
      | none => rfl
      | some d => simp [(hapart d hlast).2]
    · rw [List.getLast?_append_of_ne_nil _ hfront]
  have habbreviation : isLegalAbbreviation tables (seen ++ (pad ++ front)) =
      isLegalAbbreviation tables ([] ++ front) := by
    rw [isLegalAbbreviation, isLegalAbbreviation, wordBefore, wordBefore, ← List.append_assoc,
      rtakeWhile_append_of_last fun c hc => (hapart c hc).1, List.nil_append]
  have hmarker : isNumericListMarker (pad ++ front) (rest ++ after) =
      isNumericListMarker front rest := by
    have htrim : Chars.trim (pad ++ front) = Chars.trim front := by
      rw [Chars.trim, Chars.trim, Chars.trimStart, Chars.trimStart,
        List.dropWhile_append_of_pos hpad]
    rw [isNumericListMarker, isNumericListMarker, htrim, hhead]
  rw [isTerminal, isTerminal, hdecimal, habbreviation, hmarker]

/-! ## The scan up to a cut -/

/-- No sentence ends in the front part of a text. -/
def Unbroken (tables : CharTables) (seen segment front after : List Char) : Prop :=
  ∀ a c b, front = a ++ c :: b → isTerminal tables seen (segment ++ a) c (b ++ after) = false

theorem splitFrom_unbroken {segment : List Char} (h : Unbroken tables seen segment front after) :
    splitFrom tables seen segment 0 (front ++ after) =
      splitFrom tables seen (segment ++ front) 0 after := by
  induction front generalizing segment with
  | nil => rw [List.nil_append, List.append_nil]
  | cons c front ih =>
    have hc : isTerminal tables seen segment c (front ++ after) = false := by
      simpa using h [] c front rfl
    rw [List.cons_append, splitFrom, if_neg (Nat.lt_irrefl 0), hc, if_neg Bool.false_ne_true, ih,
      List.append_assoc, List.singleton_append]
    intro a d b heq
    rw [List.append_assoc, List.singleton_append]
    exact h (c :: a) d b (by rw [heq, List.cons_append])

theorem splitFrom_consumed (seen segment done rest : List Char) :
    splitFrom tables seen segment done.length (done ++ rest) =
      splitFrom tables seen segment 0 rest := by
  induction done with
  | nil => rfl
  | cons c done ih =>
    rw [List.cons_append, splitFrom, List.length_cons, if_pos (Nat.succ_pos _), Nat.add_sub_cancel,
      ih]

/-- A cut, and the scan behind it. -/
theorem splitFrom_cut {segment tail : List Char} (htail : rest = sentenceTail rest ++ tail)
    (h : isTerminal tables seen segment c rest = true) :
    splitFrom tables seen segment 0 (c :: rest) =
      (trimmedSpan seen (segment ++ c :: sentenceTail rest)).toList ++
        splitFrom tables (seen ++ (segment ++ c :: sentenceTail rest)) [] 0 tail := by
  have hconsumed := @splitFrom_consumed tables
    (seen ++ (segment ++ c :: sentenceTail rest)) [] (sentenceTail rest) tail
  rw [← htail] at hconsumed
  rw [splitFrom, if_neg (Nat.lt_irrefl 0), if_pos h]
  dsimp only
  rw [hconsumed]

/-- A text runs to its end without a sentence that ends in it, or up to the first cut. -/
theorem unbroken_or_cut (tables : CharTables) (seen rest : List Char) :
    Unbroken tables seen [] rest [] ∨ ∃ front c back, rest = front ++ c :: back ∧
      Unbroken tables seen [] front (c :: back) ∧ isTerminal tables seen front c back = true := by
  have hscan : ∀ segment rest, Unbroken tables seen segment rest [] ∨
      ∃ front c back, rest = front ++ c :: back ∧
        Unbroken tables seen segment front (c :: back) ∧
          isTerminal tables seen (segment ++ front) c back = true := by
    intro segment rest
    induction rest generalizing segment with
    | nil => exact .inl fun a c b h => absurd h (by simp)
    | cons x rest ih =>
      by_cases hx : isTerminal tables seen segment x rest = true
      · exact .inr ⟨[], x, rest, rfl, fun a c b h => absurd h (by simp), by simpa using hx⟩
      rw [Bool.not_eq_true] at hx
      rcases ih (segment ++ [x]) with h | ⟨front, c, back, rfl, hfront, hc⟩
      · refine .inl fun a c b heq => ?_
        cases a with
        | nil =>
          obtain ⟨rfl, rfl⟩ := List.cons.inj heq
          simpa using hx
        | cons y a =>
          obtain ⟨rfl, rfl⟩ := List.cons.inj heq
          simpa using h a c b rfl
      · refine .inr ⟨x :: front, c, back, rfl, fun a d b heq => ?_, by simpa using hc⟩
        cases a with
        | nil =>
          obtain ⟨rfl, rfl⟩ := List.cons.inj heq
          simpa using hx
        | cons y a =>
          obtain ⟨rfl, rfl⟩ := List.cons.inj heq
          simpa using hfront a d b rfl
  simpa using hscan [] rest

/-! ## The end of a sentence -/

theorem mem_of_isClosing (h : isClosing c = true) : c ∈ CLOSING_PUNCTUATION := by
  simpa [isClosing] using h

theorem mem_of_end (h : isMark c = true ∨ isClosing c = true) :
    c ∈ ['.', '!', '?'] ++ CLOSING_PUNCTUATION := by
  rcases h with h | h
  · refine List.mem_append_left _ ?_
    simpa [isMark, or_assoc] using h
  · exact List.mem_append_right _ (mem_of_isClosing h)

theorem not_blank_of_end (h : isMark c = true ∨ isClosing c = true) : isWhitespace c = false := by
  have hall : (['.', '!', '?'] ++ CLOSING_PUNCTUATION).all (fun c => !isWhitespace c) = true := by
    decide
  simpa using List.all_eq_true.mp hall c (mem_of_end h)

theorem not_digit_of_end (h : isMark c = true ∨ isClosing c = true) : c.isDigit = false := by
  have hall : (['.', '!', '?'] ++ CLOSING_PUNCTUATION).all (fun c => !c.isDigit) = true := by decide
  simpa using List.all_eq_true.mp hall c (mem_of_end h)

theorem not_mark_of_closing (h : isClosing c = true) : isMark c = false := by
  have hall : CLOSING_PUNCTUATION.all (fun c => !isMark c) = true := by decide
  simpa using List.all_eq_true.mp hall c (mem_of_isClosing h)

theorem isMark_of_isTerminal (h : isTerminal tables seen front c rest = true) :
    isMark c = true := by
  unfold isTerminal at h
  split_ifs at h with hmark hdot
  · simp only [Bool.or_eq_true, decide_eq_true_eq] at hmark
    rcases hmark with rfl | rfl <;> rfl
  · rw [hdot]
    rfl

/-- The marks and the closing punctuation that a text starts with, and the rest of it. -/
theorem exists_sentenceTail (rest : List Char) : ∃ marks closings tail,
    rest = marks ++ closings ++ tail ∧ sentenceTail rest = marks ++ closings ∧
      (∀ c ∈ marks, isMark c = true) ∧ ∀ c ∈ closings, isClosing c = true := by
  have hmarks := List.takeWhile_append_dropWhile (p := isMark) (l := rest)
  have hclosings := List.takeWhile_append_dropWhile (p := isClosing) (l := rest.dropWhile isMark)
  refine ⟨_, _, _, by rw [List.append_assoc, hclosings, hmarks], ?_,
    fun c hc => List.mem_takeWhile_imp hc, fun c hc => List.mem_takeWhile_imp hc⟩
  have hdrop : rest.drop (rest.takeWhile isMark).length = rest.dropWhile isMark := by
    have hleft := congrArg (List.drop (rest.takeWhile isMark).length) hmarks
    rw [List.drop_left] at hleft
    exact hleft.symm
  exact congrArg (fun l => rest.takeWhile isMark ++ l.takeWhile isClosing) hdrop

theorem sentenceTail_end {rest : List Char} (h : c ∈ sentenceTail rest) :
    isMark c = true ∨ isClosing c = true := by
  obtain ⟨marks, closings, tail, -, htail, hmarks, hclosings⟩ := exists_sentenceTail rest
  rw [htail] at h
  exact (List.mem_append.mp h).imp (hmarks c) (hclosings c)

theorem sentenceTail_sentenceTail (rest : List Char) :
    sentenceTail (sentenceTail rest) = sentenceTail rest := by
  obtain ⟨marks, closings, tail, -, htail, hmarks, hclosings⟩ := exists_sentenceTail rest
  rw [htail]
  have htake : (marks ++ closings).takeWhile isMark = marks := by
    rw [List.takeWhile_append_of_pos hmarks]
    cases closings with
    | nil => simp
    | cons d closings =>
      rw [List.takeWhile_cons_of_neg (by simp [not_mark_of_closing (hclosings d (by simp))]),
        List.append_nil]
  unfold sentenceTail
  dsimp only
  rw [show (marks ++ closings).takeWhile (fun c => c = '.' || c = '!' || c = '?') = marks from htake,
    List.drop_left]
  exact congrArg (marks ++ ·) (List.takeWhile_eq_self_iff.mpr hclosings)

/-! ## The parts of a text -/

/-- Split again, the text is one sentence. -/
def Whole (tables : CharTables) (body : List Char) : Prop :=
  (splitLegalSentences tables body).map (fun span => (span.start, span.stop)) =
    [(0, byteLen body)]

/-- What the spans of a part of a text are, behind the text that was seen. -/
structure Parts (tables : CharTables) (seen text : List Char) (spans : List TextSpan) : Prop where
  sentence : ∀ span ∈ spans, ∃ front body back, text = front ++ body ++ back ∧
    span.start = byteLen (seen ++ front) ∧ span.stop = byteLen (seen ++ front ++ body) ∧
      Trimmed body ∧ Whole tables body
  covered : ∀ front c back, text = front ++ c :: back → isWhitespace c = false →
    ∃ span ∈ spans, span.start ≤ byteLen (seen ++ front) ∧ byteLen (seen ++ front) < span.stop

theorem Parts.append {more : List Char} {spans spans' : List TextSpan}
    (h : Parts tables seen text spans) (h' : Parts tables (seen ++ text) more spans') :
    Parts tables seen (text ++ more) (spans ++ spans') where
  sentence span hspan := by
    rcases List.mem_append.mp hspan with hspan | hspan
    · obtain ⟨front, body, back, rfl, hrest⟩ := h.sentence span hspan
      exact ⟨front, body, back ++ more, by simp, hrest⟩
    · obtain ⟨front, body, back, rfl, hstart, hstop, hrest⟩ := h'.sentence span hspan
      exact ⟨text ++ front, body, back, by simp, by rwa [← List.append_assoc],
        by rwa [← List.append_assoc seen], hrest⟩
  covered front c back heq hc := by
    rcases List.append_eq_append_iff.mp heq with ⟨mid, rfl, hmore⟩ | ⟨mid, htext, hback⟩
    · obtain ⟨span, hspan, hwithin⟩ := h'.covered mid c back hmore hc
      refine ⟨span, List.mem_append_right _ hspan, ?_⟩
      rwa [← List.append_assoc]
    · cases mid with
      | nil =>
        obtain ⟨span, hspan, hwithin⟩ := h'.covered [] c back (by simpa using hback.symm) hc
        refine ⟨span, List.mem_append_right _ hspan, ?_⟩
        simpa [htext] using hwithin
      | cons d mid =>
        obtain ⟨rfl, -⟩ := List.cons.inj hback
        obtain ⟨span, hspan, hwithin⟩ := h.covered front c mid htext hc
        exact ⟨span, List.mem_append_left _ hspan, hwithin⟩

/-- A character that is no blank stands between the blanks of the two ends. -/
theorem exists_within {mid : List Char} (hpad : Blank pad) (hback : Blank back)
    (hc : isWhitespace c = false) (h : pad ++ body ++ back = front ++ c :: mid) :
    ∃ a b, front = pad ++ a ∧ body = a ++ c :: b ∧ mid = b ++ back := by
  have hnot : ∀ {blank : List Char}, Blank blank → c ∉ blank := fun hblank hmem => by
    rw [hblank c hmem] at hc
    cases hc
  rw [List.append_assoc] at h
  obtain ⟨a, rfl, hbody⟩ : ∃ a, front = pad ++ a ∧ body ++ back = a ++ c :: mid := by
    rcases List.append_eq_append_iff.mp h with ⟨a, hfront, hbody⟩ | ⟨b, rfl, hb⟩
    · exact ⟨a, hfront, hbody⟩
    · cases b with
      | nil => exact ⟨[], by simp, by simpa using hb.symm⟩
      | cons d b =>
        obtain ⟨rfl, -⟩ := List.cons.inj hb
        exact absurd (by simp) (hnot hpad)
  rcases List.append_eq_append_iff.mp hbody with ⟨a', -, rfl⟩ | ⟨b, rfl, hb⟩
  · exact absurd (by simp) (hnot hback)
  · cases b with
    | nil => exact absurd (by simp [← show c :: mid = back by simpa using hb]) (hnot hback)
    | cons d b =>
      obtain ⟨rfl, rfl⟩ := List.cons.inj hb
      exact ⟨a, b, rfl, rfl, rfl⟩

/-- A part is one sentence between blanks, or blank. -/
theorem parts_trimmedSpan (hwhole : ∀ pad body back, text = pad ++ body ++ back → Blank pad →
    Blank back → Trimmed body → Whole tables body) :
    Parts tables seen text (trimmedSpan seen text).toList := by
  rcases blank_or_trimmed text with hblank | ⟨pad, body, back, rfl, hpad, hback, hbody⟩
  · rw [trimmedSpan_blank hblank]
    refine ⟨fun span hspan => (nomatch hspan), fun front c back heq hc => ?_⟩
    rw [hblank c (by simp [heq])] at hc
    cases hc
  obtain ⟨span, hspan, hstart, hstop⟩ := @trimmedSpan_trimmed seen pad body back hpad hback hbody
  rw [hspan]
  refine ⟨fun span' hspan' => ?_, fun front c rest heq hc => ⟨span, List.mem_singleton_self _, ?_⟩⟩
  · obtain rfl := List.mem_singleton.mp hspan'
    exact ⟨pad, body, back, rfl, hstart, hstop, hbody, hwhole pad body back rfl hpad hback hbody⟩
  · obtain ⟨a, b, rfl, rfl, -⟩ := exists_within hpad hback hc heq
    rw [hstart, hstop]
    simp only [byteLen_append, byteLen_cons]
    have := Char.utf8Size_pos c
    omega

/-- A trimmed text in which no sentence ends in front of a last cut is one sentence. -/
theorem whole_of_unbroken (hbody : Trimmed (front ++ c :: rest))
    (hunbroken : Unbroken tables [] [] front (c :: rest))
    (hend : isTerminal tables [] front c rest = true ∧ sentenceTail rest = rest ∨ rest = []) :
    Whole tables (front ++ c :: rest) := by
  have hnone : ∀ seen, (trimmedSpan seen []).toList = [] := fun seen => by
    rw [show trimmedSpan seen [] = none from trimmedSpan_blank (by simp [Blank])]
    rfl
  obtain ⟨span, hspan, hstart, hstop⟩ := @trimmedSpan_trimmed [] [] _ []
    (by simp [Blank]) (by simp [Blank]) hbody
  have hscan : splitLegalSentences tables (front ++ c :: rest) =
      (trimmedSpan [] (front ++ c :: rest)).toList := by
    rw [splitLegalSentences, splitFrom_unbroken hunbroken, List.nil_append]
    by_cases hcut : isTerminal tables [] front c rest = true
    · have htail : sentenceTail rest = rest := by
        rcases hend with ⟨-, htail⟩ | rfl
        · exact htail
        · rfl
      have hsplit : rest = sentenceTail rest ++ [] := by rw [htail, List.append_nil]
      rw [splitFrom_cut hsplit hcut, htail, splitFrom, hnone, List.append_nil]
    · obtain rfl := hend.resolve_left fun h => hcut h.1
      rw [splitFrom, if_neg (Nat.lt_irrefl 0), if_neg hcut, splitFrom]
  rw [List.nil_append, List.append_nil] at hspan
  rw [Whole, hscan, hspan, Option.toList_some, List.map_singleton, hstart, hstop]
  rfl

/-- From behind the sentences that were cut off, the scan gives the parts of what is left. -/
theorem parts_splitFrom (htables : tables.Plain) (hseen : Apart tables seen) (rest : List Char) :
    Parts tables seen rest (splitFrom tables seen [] 0 rest) := by
  induction hlength : rest.length using Nat.strong_induction_on generalizing seen rest with
  | h n ih =>
  rcases unbroken_or_cut tables seen rest with hunbroken | ⟨front, c, back, rfl, hfront, hcut⟩
  · have hscan := splitFrom_unbroken hunbroken
    rw [List.append_nil, List.nil_append] at hscan
    rw [hscan, splitFrom]
    refine parts_trimmedSpan fun pad body back heq hpad _ hbody => ?_
    obtain ⟨front, c, rfl⟩ := (List.eq_nil_or_concat' body).resolve_left hbody.nonempty
    refine whole_of_unbroken hbody (fun a x b hfront => ?_) (.inr rfl)
    rw [List.nil_append, ← @isTerminal_alone _ _ _ back _ _ _ htables hseen hpad (by simp)]
    have hopen := hunbroken (pad ++ a) x (b ++ c :: back) (by simp [heq, hfront])
    simpa using hopen
  · obtain ⟨tail, htail⟩ : ∃ tail, back = sentenceTail back ++ tail := by
      obtain ⟨marks, closings, tail, heq, hends, -, -⟩ := exists_sentenceTail back
      exact ⟨tail, hends ▸ heq⟩
    have hscan := splitFrom_unbroken hfront
    rw [List.nil_append] at hscan
    have hends : ∀ d ∈ c :: sentenceTail back, isMark d = true ∨ isClosing d = true := by
      intro d hd
      rcases List.mem_cons.mp hd with rfl | hd
      · exact .inl (isMark_of_isTerminal hcut)
      · exact sentenceTail_end hd
    have hsplit : front ++ c :: back = (front ++ c :: sentenceTail back) ++ tail := by
      rw [List.append_assoc, List.cons_append, ← htail]
    rw [hscan, splitFrom_cut htail hcut, hsplit]
    refine (parts_trimmedSpan fun pad body last heq hpad hlast hbody => ?_).append
      (ih tail.length ?_ ?_ tail rfl)
    · obtain ⟨a, b, rfl, rfl, hb⟩ := exists_within hpad hlast
        (not_blank_of_end (hends c List.mem_cons_self)) heq.symm
      -- Behind the cut there is no blank, so the sentence ends where the part does.
      obtain rfl : last = [] := by
        rw [List.eq_nil_iff_forall_not_mem]
        intro d hd
        have hmem : d ∈ c :: sentenceTail back := by simp [hb, hd]
        have hblank := hlast d hd
        rw [not_blank_of_end (hends d hmem)] at hblank
        cases hblank
      rw [List.append_nil] at hb
      subst hb
      refine whole_of_unbroken hbody (fun a' x b' ha => ?_) ?_
      · rw [List.nil_append, ← @isTerminal_alone _ _ _ tail _ _ _ htables hseen hpad (by simp),
          List.append_assoc, List.cons_append, ← htail]
        have hopen := hfront (pad ++ a') x b' (by simp [ha])
        simpa using hopen
      · by_cases hnil : sentenceTail back = []
        · exact .inr hnil
        · refine .inl ⟨?_, sentenceTail_sentenceTail back⟩
          rw [← @isTerminal_alone _ _ _ tail _ _ _ htables hseen hpad hnil, ← htail]
          exact hcut
    · rw [← hlength, hsplit, List.length_append, List.length_append, List.length_cons]
      omega
    · intro d hd
      have hmem : d ∈ c :: sentenceTail back := by
        rw [← List.append_assoc, List.getLast?_append_of_ne_nil _ (List.cons_ne_nil _ _)] at hd
        exact List.mem_of_getLast? hd
      refine ⟨?_, not_digit_of_end (hends d hmem)⟩
      rcases hends d hmem with h | h
      · exact htables.mark d h
      · exact htables.closing d h

/-! ## The theorem -/

/-- The sentences stand between character boundaries in the order of the text, none of them starts
or ends in a blank, each character that is no blank is in one of them and in one only, and each of
them is one sentence when it is split again. -/
theorem splitLegalSentences_stable (tables : CharTables) (htables : tables.Plain)
    (src : List Char) :
    (splitLegalSentences tables src).Pairwise (fun a b => a.stop ≤ b.start) ∧
      (∀ span ∈ splitLegalSentences tables src, ∃ body,
        slice src span.start span.stop = some body ∧ Trimmed body ∧ Whole tables body) ∧
      ∀ front c back, src = front ++ c :: back → isWhitespace c = false →
        ∃! span, span ∈ splitLegalSentences tables src ∧
          span.start ≤ byteLen front ∧ byteLen front < span.stop := by
  have hparts : Parts tables [] src (splitLegalSentences tables src) :=
    parts_splitFrom htables apart_nil src
  have hpairwise : (splitLegalSentences tables src).Pairwise fun a b => a.stop ≤ b.start :=
    pairwise_splitLegalSentences src
  refine ⟨hpairwise, fun span hspan => ?_, fun front c back heq hc => ?_⟩
  · obtain ⟨front, body, back, rfl, hstart, hstop, htrimmed, hwhole⟩ := hparts.sentence span hspan
    refine ⟨body, ?_, htrimmed, hwhole⟩
    rw [hstart, hstop, List.nil_append, byteLen_append, List.append_assoc]
    exact slice_append front body back
  · obtain ⟨span, hspan, hfrom, hto⟩ := hparts.covered front c back heq hc
    rw [List.nil_append] at hfrom hto
    refine ⟨span, ⟨hspan, hfrom, hto⟩, ?_⟩
    rintro other ⟨hother, hfrom', hto'⟩
    by_contra hne
    have hsymm : Std.Symm fun a b : TextSpan => a.stop ≤ b.start ∨ b.stop ≤ a.start :=
      ⟨fun _ _ => Or.symm⟩
    have heither : (splitLegalSentences tables src).Pairwise
        fun a b => a.stop ≤ b.start ∨ b.stop ≤ a.start := hpairwise.imp Or.inl
    have hapart := heither.forall hother hspan hne
    omega

/-! ### An abbreviation and a list marker -/

namespace Sample

theorem plain_tables : Sample.tables.Plain := by
  have hrange : ∀ {c : Char}, isCyrillic c = true → 1025 ≤ c.toNat ∧ c.toNat ≤ 1105 := by
    intro c hc
    simp only [isCyrillic, Bool.or_eq_true, Bool.and_eq_true, decide_eq_true_eq, beq_iff_eq,
      Char.le_def, UInt32.le_iff_toNat_le] at hc
    rcases hc with (⟨hlow, hhigh⟩ | rfl) | rfl
    · have hlow' : 1040 ≤ c.toNat := hlow
      have hhigh' : c.toNat ≤ 1103 := hhigh
      omega
    · decide
    · decide
  have hends : (['.', '!', '?'] ++ CLOSING_PUNCTUATION).all (fun c => !isCyrillic c) = true := by
    decide
  constructor
  case blank =>
    intro c hc
    rw [← Bool.not_eq_true]
    intro halpha
    obtain ⟨hlow, hhigh⟩ := hrange halpha
    simp only [isWhitespace, Bool.or_eq_true, Bool.and_eq_true, decide_eq_true_eq, beq_iff_eq] at hc
    omega
  case mark =>
    intro c hc
    simpa [Sample.tables] using List.all_eq_true.mp hends c (mem_of_end (.inl hc))
  case closing =>
    intro c hc
    simpa [Sample.tables] using List.all_eq_true.mp hends c (mem_of_end (.inr hc))

/-- A list item whose text has an abbreviation in it, and a second sentence in quotes. -/
def item : List Char := ['1', '.', ' ', 'с', 'т', '.', ' ', '5', '!', '»', ' ', 'Д', 'а', '.']

end Sample

theorem splitLegalSentences_stable_item :
    (splitLegalSentences Sample.tables Sample.item).Pairwise (fun a b => a.stop ≤ b.start) ∧
      (∀ span ∈ splitLegalSentences Sample.tables Sample.item, ∃ body,
        slice Sample.item span.start span.stop = some body ∧ Trimmed body ∧
          Whole Sample.tables body) ∧
      ∀ front c back, Sample.item = front ++ c :: back → isWhitespace c = false →
        ∃! span, span ∈ splitLegalSentences Sample.tables Sample.item ∧
          span.start ≤ byteLen front ∧ byteLen front < span.stop :=
  splitLegalSentences_stable Sample.tables Sample.plain_tables Sample.item

example : (splitLegalSentences Sample.tables Sample.item).map (fun s => (s.start, s.stop)) =
    [(0, 13), (14, 19)] := by decide

end LawNexus.Decode
