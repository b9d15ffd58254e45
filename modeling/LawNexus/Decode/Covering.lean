import LawNexus.Decode.Lexer
import Mathlib.Tactic.IntervalCases

/-!
# The tokens cover the text

Every scanner that is started at a char boundary ends at a later one. So every turn of the loop
advances to a boundary, and the tokens of a run follow each other from the first byte to the
last.
-/

namespace LawNexus.Decode

open Utf8 Loops

variable {lexicon : Lexicon} {tables : CharTables} {src rest : List Char} {pos stop : Nat}
  {c : Char} {pred : Char → Bool}

/-- A scanner that found something ended at a boundary after its start. -/
def EndsAfter (src : List Char) (pos stop : Nat) : Prop := pos < stop ∧ IsBoundary src stop

theorem isBoundary_of_sliceFrom (h : sliceFrom src pos = some rest) : IsBoundary src pos := by
  obtain ⟨before, hsrc, hpos⟩ := sliceFrom_eq_some h
  exact isBoundary_of_eq hsrc hpos

theorem exists_sliceFrom (h : IsBoundary src pos) : ∃ rest, sliceFrom src pos = some rest := by
  obtain ⟨before, after, rfl, rfl⟩ := h
  exact ⟨after, sliceFrom_append before after⟩

theorem exists_sliceTo (h : IsBoundary src pos) : ∃ before, sliceTo src pos = some before := by
  obtain ⟨before, after, rfl, rfl⟩ := h
  exact ⟨before, sliceTo_append before after⟩

theorem exists_slice (hpos : IsBoundary src pos) (hstop : IsBoundary src stop)
    (h : pos ≤ stop) : ∃ text, slice src pos stop = some text := by
  obtain ⟨a, b, c, rfl, rfl, rfl⟩ := hpos.exists_mid hstop h
  exact ⟨b, slice_append a b c⟩

/-- A prefix of the rest ends at a boundary. -/
theorem isBoundary_add {start : List Char} (h : sliceFrom src pos = some rest)
    (hstart : start <+: rest) : IsBoundary src (pos + byteLen start) := by
  obtain ⟨before, rfl, rfl⟩ := sliceFrom_eq_some h
  obtain ⟨after, rfl⟩ := hstart
  exact isBoundary_of_eq (List.append_assoc before start after).symm (byteLen_append before start)

/-! ## Runs of characters -/

theorem scanWhile_spec (h : sliceFrom src pos = some (c :: rest)) (hc : pred c = true) :
    ∃ stop, scanWhile src pos pred = .ok stop ∧ EndsAfter src pos stop := by
  refine ⟨pos + byteLen ((c :: rest).takeWhile pred), ?_, ?_,
    isBoundary_add h (List.takeWhile_prefix pred)⟩
  · rw [scanWhile, h]
    rfl
  · rw [List.takeWhile_cons_of_pos hc, byteLen_cons]
    have := c.utf8Size_pos
    omega

/-! ## Abbreviations -/

theorem lexemeMatches_spec (lexeme : List Char) (h : IsBoundary src pos) :
    ∃ found, lexemeMatches tables src pos lexeme = .ok found ∧
      (found = true → IsBoundary src (pos + byteLen lexeme)) := by
  unfold lexemeMatches
  dsimp only
  split_ifs with hshort hstop
  · obtain ⟨rest, hrest⟩ := exists_sliceFrom h
    refine ⟨lexeme.isPrefixOf rest, by rw [hrest]; rfl, fun hstarts => ?_⟩
    exact isBoundary_add hrest (List.isPrefixOf_iff_prefix.mp hstarts)
  · exact ⟨false, rfl, nofun⟩
  · simp only [Bool.or_eq_true, decide_eq_true_eq, Bool.not_eq_true', not_or, Bool.not_eq_false,
      isCharBoundary_iff] at hstop
    obtain ⟨text, htext⟩ := exists_slice h hstop.2 (Nat.le_add_right _ _)
    exact ⟨foldMatches tables text lexeme, by rw [htext]; rfl, fun _ => hstop.2⟩

theorem findAbbrev_spec (entries : List AbbrevEntry) (h : IsBoundary src pos) :
    ∃ found, findAbbrev tables src pos entries = .ok found ∧
      ∀ stop id, found = some (stop, id) → EndsAfter src pos stop := by
  induction entries with
  | nil => exact ⟨none, rfl, nofun⟩
  | cons entry entries ih =>
    obtain ⟨found, hfound, hstop⟩ : ∃ found, lexemeMatches tables src pos entry.lexeme = .ok found ∧
        (found = true → IsBoundary src (pos + byteLen entry.lexeme)) := lexemeMatches_spec _ h
    rw [findAbbrev, hfound]
    cases found with
    | false => exact ih
    | true =>
      refine ⟨_, rfl, fun stop id heq => ?_⟩
      cases heq
      exact ⟨Nat.lt_add_of_pos_right (byteLen_pos entry.nonempty), hstop rfl⟩

theorem scanAbbrev_spec (lexicon : Lexicon) (h : IsBoundary src pos) :
    ∃ found, scanAbbrev lexicon src pos = .ok found ∧
      ∀ stop id, found = some (stop, id) → EndsAfter src pos stop := by
  obtain ⟨before, hbefore⟩ := exists_sliceTo h
  rw [scanAbbrev, hbefore, orPanic_some, ok_bind]
  split_ifs with hword
  · exact ⟨none, rfl, nofun⟩
  · exact findAbbrev_spec lexicon.abbrevLexicon h

/-! ## Digits -/

theorem exists_ascii_digit {bs : List UInt8} {n : Nat} (h : bs[n]?.any isAsciiDigit = true) :
    ∃ b, bs[n]? = some b ∧ b.toNat < 128 := by
  obtain ⟨b, hb, hdigit⟩ := (Option.any_eq_true _ _).mp h
  simp only [isAsciiDigit, Bool.and_eq_true, decide_eq_true_eq] at hdigit
  exact ⟨b, hb, by omega⟩

theorem isBoundary_skipDigits (h : IsBoundary src pos) :
    IsBoundary src (skipDigits (bytes src) pos) := by
  refine h.add _ fun k hk => exists_ascii_digit ?_
  have hrun := List.takeWhile_prefix (l := (bytes src).drop pos) isAsciiDigit
  rw [← List.getElem?_drop, List.getElem?_eq_getElem (hk.trans_le hrun.length_le),
    ← hrun.getElem hk]
  exact List.mem_takeWhile_imp (p := isAsciiDigit) (List.getElem_mem hk)

theorem scanDate_spec (h : IsBoundary src pos) (hstop : scanDate src pos = some stop) :
    EndsAfter src pos stop := by
  simp only [scanDate] at hstop
  split_ifs at hstop with hlen hshape hday
  obtain rfl := Option.some.inj hstop
  refine ⟨by omega, h.add 10 fun k hk => ?_⟩
  simp only [Bool.not_eq_true', Bool.not_eq_false, Bool.and_eq_true, decide_eq_true_eq] at hshape
  obtain ⟨⟨⟨⟨⟨⟨⟨⟨⟨h0, h1⟩, h2⟩, h3⟩, h4⟩, h5⟩, h6⟩, h7⟩, h8⟩, h9⟩ := hshape
  interval_cases k
  exacts [exists_ascii_digit h0, exists_ascii_digit h1, ⟨46, h2, by decide⟩,
    exists_ascii_digit h3, exists_ascii_digit h4, ⟨46, h5, by decide⟩, exists_ascii_digit h6,
    exists_ascii_digit h7, exists_ascii_digit h8, exists_ascii_digit h9]

/-- The groups end where the last one ended, or where the next one does. -/
theorem scanHierGroups_spec {start : Nat} (hpos : EndsAfter src start pos)
    {last : Option Nat} (hlast : ∀ stop ∈ last, EndsAfter src start stop)
    (hstop : scanHierGroups (bytes src) pos last = some stop) : EndsAfter src start stop := by
  induction pos, last using scanHierGroups.induct (bytes src) with
  | case1 pos last hdot hdigit next ih =>
    rw [scanHierGroups, if_pos hdot, dif_pos hdigit] at hstop
    have hdots := hpos.2.succ hdot (by decide)
    obtain ⟨b, hb, hascii⟩ := exists_ascii_digit hdigit
    have hnext : EndsAfter src start next :=
      ⟨lt_of_lt_of_le (Nat.lt_add_right 2 hpos.1) (le_skipDigits _ _),
        isBoundary_skipDigits (hdots.succ hb hascii)⟩
    exact ih hnext (by simpa using hnext) hstop
  | case2 pos last hdot hdigit =>
    rw [scanHierGroups, if_pos hdot, dif_neg hdigit] at hstop
    exact hlast stop hstop
  | case3 pos last hdot =>
    rw [scanHierGroups, if_neg hdot] at hstop
    exact hlast stop hstop

theorem endsAfter_skipDigits (h : IsBoundary src pos) (hne : skipDigits (bytes src) pos ≠ pos) :
    EndsAfter src pos (skipDigits (bytes src) pos) :=
  ⟨lt_of_le_of_ne (le_skipDigits _ _) hne.symm, isBoundary_skipDigits h⟩

theorem scanHierNum_spec (h : IsBoundary src pos) (hstop : scanHierNum src pos = some stop) :
    EndsAfter src pos stop := by
  simp only [scanHierNum] at hstop
  split_ifs at hstop with hne
  exact scanHierGroups_spec (endsAfter_skipDigits h hne) (by simp) hstop

theorem findSuffix_spec (suffixes : List (List Char)) (h : IsBoundary src pos) :
    ∃ found, findSuffix tables src pos suffixes = .ok found ∧
      ∀ stop ∈ found, pos ≤ stop ∧ IsBoundary src stop := by
  induction suffixes with
  | nil => exact ⟨none, rfl, fun _ h => nomatch h⟩
  | cons suffix suffixes ih =>
    obtain ⟨rest, hrest⟩ := exists_sliceFrom h
    rw [findSuffix, hrest, orPanic_some, ok_bind]
    split_ifs with hsuffix
    · have hstop := isBoundary_add hrest (List.isPrefixOf_iff_prefix.mp hsuffix)
      obtain ⟨next, hnext⟩ := exists_sliceFrom hstop
      rw [hnext, orPanic_some, ok_bind]
      split_ifs with hword
      · exact ih
      · refine ⟨_, rfl, fun stop hmem => ?_⟩
        obtain rfl := Option.mem_some.mp hmem
        exact ⟨Nat.le_add_right _ _, hstop⟩
    · exact ih

theorem scanDocNo_spec (tables : CharTables) (h : IsBoundary src pos) :
    ∃ found, scanDocNo tables src pos = .ok found ∧
      ∀ stop ∈ found, EndsAfter src pos stop := by
  simp only [scanDocNo]
  split_ifs with hnone
  · exact ⟨none, rfl, nofun⟩
  · simp only [Bool.or_eq_true, decide_eq_true_eq, not_or, not_not] at hnone
    have hdigits := endsAfter_skipDigits h hnone.1
    have hdash := hdigits.2.succ hnone.2 (by decide)
    obtain ⟨found, hfound, hstop⟩ : ∃ found, findSuffix tables src (skipDigits (bytes src) pos + 1)
          [['Ф', 'З'], ['Ф', 'К', 'З']] = .ok found ∧
        ∀ stop ∈ found, skipDigits (bytes src) pos + 1 ≤ stop ∧ IsBoundary src stop :=
      findSuffix_spec _ hdash
    exact ⟨found, hfound, fun stop hmem =>
      ⟨lt_of_lt_of_le (Nat.lt_succ_of_lt hdigits.1) (hstop stop hmem).1, (hstop stop hmem).2⟩⟩

theorem scanEnumMarkerDigits_spec (h : IsBoundary src pos)
    (hstop : scanEnumMarkerDigits src pos = some stop) : EndsAfter src pos stop := by
  simp only [scanEnumMarkerDigits] at hstop
  split_ifs at hstop with hzero hne hmark
  obtain rfl := Option.some.inj hstop
  have hdigits := endsAfter_skipDigits h hne
  refine ⟨Nat.lt_succ_of_lt hdigits.1, ?_⟩
  rcases (Bool.or_eq_true _ _).mp hmark with hdot | hparen
  · exact hdigits.2.succ (of_decide_eq_true hdot) (by decide)
  · exact hdigits.2.succ (of_decide_eq_true hparen) (by decide)

/-! ## Markers -/

theorem isBoundary_letter (h : sliceFrom src pos = some (c :: rest)) :
    EndsAfter src pos (pos + c.utf8Size) :=
  ⟨Nat.lt_add_of_pos_right c.utf8Size_pos,
    by simpa using isBoundary_add h (List.prefix_append [c] rest)⟩

theorem scanEnumMarkerLetter_spec (hstop : scanEnumMarkerLetter src pos = some stop) :
    EndsAfter src pos stop := by
  unfold scanEnumMarkerLetter at hstop
  split_ifs at hstop with hzero
  obtain rfl := not_not.mp hzero
  cases src with
  | nil => exact nomatch hstop
  | cons letter src =>
    simp only at hstop
    split_ifs at hstop with hcyr hparen
    obtain rfl := Option.some.inj hstop
    have hletter : EndsAfter (letter :: src) 0 (0 + letter.utf8Size) := isBoundary_letter rfl
    exact ⟨Nat.lt_succ_of_lt hletter.1, hletter.2.succ hparen (by decide)⟩

theorem quotedEnumLetterEnd_spec (h : IsBoundary src pos) :
    ∃ found, quotedEnumLetterEnd src pos = .ok found ∧
      ∀ stop ∈ found, IsBoundary src (pos + 1) ∧ EndsAfter src (pos + 1) stop := by
  unfold quotedEnumLetterEnd
  split_ifs with hquote
  · exact ⟨none, rfl, nofun⟩
  · have hnext := h.succ (not_not.mp hquote) (by decide)
    obtain ⟨rest, hrest⟩ := exists_sliceFrom hnext
    rw [hrest, orPanic_some, ok_bind]
    cases rest with
    | nil => exact ⟨none, rfl, nofun⟩
    | cons letter rest =>
      dsimp only
      split_ifs with hcyr hclose
      · exact ⟨none, rfl, nofun⟩
      · refine ⟨_, rfl, fun stop hmem => ?_⟩
        obtain rfl := Option.mem_some.mp hmem
        exact ⟨hnext, isBoundary_letter hrest⟩
      · exact ⟨none, rfl, nofun⟩

theorem quotedLabel_spec (c : Char) (h : IsBoundary src pos) :
    ∃ found, quotedLabel src pos c = .ok found ∧
      ∀ stop ∈ found, IsBoundary src (pos + 1) ∧ EndsAfter src (pos + 1) stop := by
  unfold quotedLabel
  split_ifs
  · exact quotedEnumLetterEnd_spec h
  · exact ⟨none, rfl, fun _ hnone => nomatch hnone⟩

/-! ## A turn -/

/-- The end of a turn's token, and the id that its kind asks for. -/
def FoundOk (src : List Char) (pos : Nat) (found : Found) : Prop :=
  EndsAfter src pos found.2.2 ∧ (found.2.1.isSome ↔ found.1 = .Abbrev)

theorem scanAlphabetic_spec (h : sliceFrom src pos = some (c :: rest))
    (hc : lexicon.tables.isAlphabetic c = true) :
    ∃ found, scanAlphabetic lexicon src pos = .ok found ∧ FoundOk src pos found := by
  have hpos := isBoundary_of_sliceFrom h
  obtain ⟨short, hshort, hstop⟩ := scanAbbrev_spec lexicon hpos
  rw [scanAlphabetic, hshort, ok_bind]
  cases short with
  | some found => exact ⟨_, rfl, hstop found.1 found.2 rfl, by simp⟩
  | none =>
    dsimp only
    cases hmark : scanEnumMarkerLetter src pos with
    | some stop => exact ⟨_, rfl, scanEnumMarkerLetter_spec hmark, by simp⟩
    | none =>
      obtain ⟨stop, hwhile, hend⟩ := scanWhile_spec h hc
      obtain ⟨run, hrun⟩ := exists_slice hpos hend.2 (Nat.le_of_lt hend.1)
      dsimp only
      rw [hwhile, ok_bind, hrun, orPanic_some, ok_bind]
      refine ⟨_, rfl, hend, ?_⟩
      dsimp only
      split_ifs <;> simp

theorem scanDigits_spec (tables : CharTables) (h : sliceFrom src pos = some (c :: rest))
    (hc : c.isDigit = true) :
    ∃ found, scanDigits tables src pos = .ok found ∧ FoundOk src pos found := by
  have hpos := isBoundary_of_sliceFrom h
  unfold scanDigits
  cases hdate : scanDate src pos with
  | some stop => exact ⟨_, rfl, scanDate_spec hpos hdate, by simp⟩
  | none =>
    dsimp only
    cases hhier : scanHierNum src pos with
    | some stop => exact ⟨_, rfl, scanHierNum_spec hpos hhier, by simp⟩
    | none =>
      obtain ⟨docNo, hdoc, hstop⟩ := scanDocNo_spec tables hpos
      dsimp only
      rw [hdoc, ok_bind]
      cases docNo with
      | some stop => exact ⟨_, rfl, hstop stop rfl, by simp⟩
      | none =>
        dsimp only
        cases hmark : scanEnumMarkerDigits src pos with
        | some stop => exact ⟨_, rfl, scanEnumMarkerDigits_spec hpos hmark, by simp⟩
        | none =>
          obtain ⟨stop, hwhile, hend⟩ := scanWhile_spec h hc
          dsimp only
          rw [hwhile, ok_bind]
          exact ⟨_, rfl, hend, by simp⟩

theorem scanToken_spec (lexicon : Lexicon) (h : sliceFrom src pos = some (c :: rest)) :
    ∃ found, scanToken lexicon src pos c = .ok found ∧ FoundOk src pos found := by
  unfold scanToken
  split_ifs with hspace halpha hdigit
  · obtain ⟨stop, hwhile, hend⟩ := scanWhile_spec h hspace
    exact ⟨_, by rw [hwhile, ok_bind], hend, by simp⟩
  · exact scanAlphabetic_spec h halpha
  · exact scanDigits_spec lexicon.tables h hdigit
  · -- A character of no other class is one that the last scan takes.
    dsimp only
    let other := fun c => !Texts.isWhitespace c && !lexicon.tables.isAlphabetic c && !c.isDigit
    have hother : other c = true := by simp [other, hspace, halpha, hdigit]
    obtain ⟨stop, hwhile, hend⟩ := scanWhile_spec h hother
    exact ⟨_, by rw [hwhile, ok_bind], hend, by simp⟩

/-- The tokens follow each other from one offset to the other. -/
def Contiguous : Nat → List NpaToken → Nat → Prop
  | start, [], stop => start = stop
  | start, token :: tokens, stop =>
    token.span.start = start ∧ Contiguous token.span.stop tokens stop

theorem contiguous_append {start mid stop : Nat} {a b : List NpaToken}
    (ha : Contiguous start a mid) (hb : Contiguous mid b stop) : Contiguous start (a ++ b) stop := by
  induction a generalizing start with
  | nil => exact ha ▸ hb
  | cons token a ih => exact ⟨ha.1, ih ha.2⟩

/-- What holds of each token by itself. -/
def NpaToken.Fits (src : List Char) (token : NpaToken) : Prop :=
  IsBoundary src token.span.start ∧ IsBoundary src token.span.stop ∧
    (token.abbrevId.isSome ↔ token.kind = .Abbrev)

/-- The tokens cover the text between two offsets. -/
def Covers (src : List Char) (start : Nat) (tokens : List NpaToken) (stop : Nat) : Prop :=
  Contiguous start tokens stop ∧ ∀ token ∈ tokens, token.Fits src

theorem Covers.append {start mid stop : Nat} {a b : List NpaToken} (ha : Covers src start a mid)
    (hb : Covers src mid b stop) : Covers src start (a ++ b) stop :=
  ⟨contiguous_append ha.1 hb.1,
    fun token h => (List.mem_append.mp h).elim (ha.2 token) (hb.2 token)⟩

/-- A turn in the middle of the text advances to a boundary and covers what it passes. -/
theorem lexTurn_spec (lexicon : Lexicon) (hpos : IsBoundary src pos) (hlt : pos < byteLen src) :
    ∃ turn, lexTurn lexicon src pos = .ok (some turn) ∧ Covers src pos turn.tokens turn.next ∧
      IsBoundary src turn.next := by
  obtain ⟨rest, hrest⟩ := exists_sliceFrom hpos
  rw [lexTurn, hrest, orPanic_some, ok_bind]
  cases rest with
  | nil =>
    obtain ⟨before, rfl, rfl⟩ := sliceFrom_eq_some hrest
    simp at hlt
  | cons c rest =>
    dsimp only
    obtain ⟨label, hlabel, hend⟩ := quotedLabel_spec c hpos
    rw [hlabel, ok_bind]
    cases label with
    | some letterEnd =>
      obtain ⟨hquote, hlt, hletter⟩ := hend letterEnd rfl
      dsimp only
      rw [quotedTurn, dif_pos hlt]
      refine ⟨_, rfl, ⟨⟨rfl, rfl, rfl⟩, ?_⟩, hletter⟩
      rintro token (_ | ⟨_, _ | ⟨_, hnil⟩⟩)
      · exact ⟨hpos, hquote, by simp⟩
      · exact ⟨hquote, hletter, by simp⟩
      · exact nomatch hnil
    | none =>
      obtain ⟨found, hfound, hok⟩ := scanToken_spec lexicon hrest
      dsimp only
      rw [hfound, ok_bind, foundTurn, dif_pos hok.1.1]
      refine ⟨_, rfl, ⟨⟨rfl, rfl⟩, ?_⟩, hok.1.2⟩
      rintro token (_ | ⟨_, hnil⟩)
      · exact ⟨hpos, hok.1.2, hok.2⟩
      · exact nomatch hnil

/-! ## A run -/

theorem lexFrom_spec (lexicon : Lexicon) (src : List Char) (pos : Nat)
    (hpos : IsBoundary src pos) :
    ∃ tokens, lexFrom lexicon src pos = .ok tokens ∧ Covers src pos tokens (byteLen src) := by
  rw [lexFrom]
  split_ifs with hlt
  · obtain ⟨turn, hturn, hcovers, hnext⟩ := lexTurn_spec lexicon hpos hlt
    have hadvances := turn.advances
    obtain ⟨tokens, htokens, hrest⟩ := lexFrom_spec lexicon src turn.next hnext
    rw [hturn]
    dsimp only
    exact ⟨turn.tokens ++ tokens, by rw [htokens]; rfl, hcovers.append hrest⟩
  · exact ⟨[], rfl, Nat.le_antisymm hpos.le (Nat.le_of_not_lt hlt), by simp⟩
termination_by byteLen src - pos
decreasing_by omega

theorem lex_covers (lexicon : Lexicon) (src : List Char) :
    ∃ tokens, lex lexicon src = .ok tokens ∧ Covers src 0 tokens (byteLen src) :=
  lexFrom_spec lexicon src 0 (isBoundary_zero src)

/-- What tokens cover is their lexemes, one after the other. -/
theorem Covers.lexemes {tokens : List NpaToken} {start stop : Nat}
    (h : Covers src start tokens stop) (hstart : IsBoundary src start) :
    ∃ lexemes, tokens.mapM (·.lexeme src) = .ok lexemes ∧
      slice src start stop = some lexemes.flatten := by
  induction tokens generalizing start with
  | nil =>
    obtain ⟨before, after, rfl, rfl⟩ := hstart
    obtain rfl : byteLen before = stop := h.1
    exact ⟨[], rfl, slice_append before [] after⟩
  | cons token tokens ih =>
    obtain ⟨⟨rfl, hnext⟩, hfits⟩ := h
    have htoken := hfits token List.mem_cons_self
    obtain ⟨lexemes, hlexemes, hrest⟩ :=
      ih ⟨hnext, fun t ht => hfits t (List.mem_cons_of_mem _ ht)⟩ htoken.2.1
    obtain ⟨lexeme, hlexeme⟩ := exists_slice hstart htoken.2.1 (Nat.le_of_lt token.span.nonempty)
    refine ⟨lexeme :: lexemes, ?_, slice_trans hlexeme hrest⟩
    rw [List.mapM_cons, NpaToken.lexeme, hlexeme, orPanic_some, ok_bind, hlexemes]
    rfl

/-- The tokens of a text follow each other from its first byte to its last, none empty, each
between two characters, and their lexemes are the text. -/
theorem lex_lossless (lexicon : Lexicon) (src : String) :
    ∃ tokens, lex lexicon src.toList = .ok tokens ∧
      Contiguous 0 tokens src.utf8ByteSize ∧
      (∀ token ∈ tokens, token.span.start < token.span.stop ∧
        isCharBoundary src.toList token.span.start = true ∧
        isCharBoundary src.toList token.span.stop = true ∧
        (token.abbrevId.isSome ↔ token.kind = .Abbrev)) ∧
      ∃ lexemes, tokens.mapM (·.lexeme src.toList) = .ok lexemes ∧
        lexemes.flatten = src.toList := by
  obtain ⟨tokens, htokens, hcovers⟩ := lex_covers lexicon src.toList
  obtain ⟨lexemes, hlexemes, hall⟩ := hcovers.lexemes (isBoundary_zero _)
  rw [slice_all] at hall
  refine ⟨tokens, htokens, byteLen_toList src ▸ hcovers.1, fun token h => ?_,
    lexemes, hlexemes, (Option.some.inj hall).symm⟩
  obtain ⟨hstart, hstop, habbrev⟩ := hcovers.2 token h
  exact ⟨token.span.nonempty, isCharBoundary_iff.mpr hstart, isCharBoundary_iff.mpr hstop, habbrev⟩

end LawNexus.Decode
