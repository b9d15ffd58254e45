import LawNexus.Decode.Covering
import LawNexus.Decode.LawRef
import Mathlib.Data.List.ReduceOption

/-!
# What a capture batch holds

Every matcher fires on a window of whole tokens. The overlap policies, the sort and the
admission keep that, and the admission loses no candidate without a count.
-/

namespace LawNexus.Decode

open Utf8 Loops

variable {tokens : List NpaToken} {src : List Char} {index : Nat}

/-! ## Tokens -/

/-- No token is off a char boundary of the text. -/
def Sliceable (tokens : List NpaToken) (src : List Char) : Prop :=
  ∀ token ∈ tokens, ∃ lexeme, token.lexeme src = .ok lexeme

theorem Covers.sliceable {start stop : Nat} (h : Covers src start tokens stop) :
    Sliceable tokens src := by
  intro token hmem
  obtain ⟨hstart, hstop, -⟩ := h.2 token hmem
  obtain ⟨lexeme, hlexeme⟩ := exists_slice hstart hstop (Nat.le_of_lt token.span.nonempty)
  exact ⟨lexeme, by rw [NpaToken.lexeme, hlexeme, orPanic_some]⟩

theorem lt_length_of_kindAt {kind : TokenKind} (h : kindAt tokens index = some kind) :
    index < tokens.length := by
  obtain ⟨token, htoken, -⟩ := Option.map_eq_some_iff.mp h
  exact (List.getElem?_eq_some_iff.mp htoken).1

theorem lexemeAt_ok (hlex : Sliceable tokens src) (h : index < tokens.length) :
    ∃ lexeme, lexemeAt tokens src index = .ok lexeme := by
  rw [lexemeAt, List.getElem?_eq_getElem h, orBounds_some, ok_bind]
  exact hlex _ (List.getElem_mem h)

theorem isNumberAt_ok (hlex : Sliceable tokens src) (index : Nat) :
    ∃ found, isNumberAt tokens src index = .ok found ∧ (found = true → index < tokens.length) := by
  unfold isNumberAt
  by_cases h : index < tokens.length
  · obtain ⟨lexeme, hlexeme⟩ := hlex _ (List.getElem_mem h)
    rw [List.getElem?_eq_getElem h, Option.elim_some, isNumberToken]
    split_ifs
    · exact ⟨true, rfl, fun _ => h⟩
    · exact ⟨_, by rw [hlexeme, ok_bind], fun _ => h⟩
    · exact ⟨false, rfl, nofun⟩
  · exact ⟨false, by rw [List.getElem?_eq_none (Nat.le_of_not_lt h)]; rfl, nofun⟩

theorem lexemeAtIs_ok (hlex : Sliceable tokens src) (index : Nat) (kind : TokenKind)
    (test : List Char → Bool) :
    ∃ found, lexemeAtIs tokens src index kind test = .ok found ∧
      (found = true → index < tokens.length) := by
  unfold lexemeAtIs
  split_ifs with hkind
  · have hlt := lt_length_of_kindAt hkind
    obtain ⟨lexeme, hlexeme⟩ := lexemeAt_ok hlex hlt
    exact ⟨_, by rw [hlexeme, ok_bind], fun _ => hlt⟩
  · exact ⟨false, rfl, nofun⟩

theorem lt_length_of_allowlistedAbbrev {ids : List String} {id : String}
    (h : allowlistedAbbrev tokens index ids = some id) : index < tokens.length := by
  obtain ⟨token, htoken, -⟩ := Option.bind_eq_some_iff.mp h
  exact (List.getElem?_eq_some_iff.mp htoken).1

theorem scanFiller_spec {pred : NpaToken → Bool} {start hit : Nat}
    (h : scanFiller pred tokens start = some hit) : start ≤ hit ∧ hit < start + tokens.length := by
  induction tokens generalizing start with
  | nil => exact nomatch h
  | cons token tokens ih =>
    rw [scanFiller] at h
    rw [List.length_cons]
    split_ifs at h
    · obtain rfl := Option.some.inj h
      omega
    · have := ih h
      omega

theorem scanFillerForward_spec {anchor maxDistance hit : Nat} {pred : NpaToken → Bool}
    (h : scanFillerForward tokens anchor maxDistance pred = some hit) :
    anchor < hit ∧ hit < tokens.length := by
  obtain ⟨hlow, hhigh⟩ := scanFiller_spec h
  rw [List.length_take, List.length_drop] at hhigh
  omega

/-! ## Matchers -/

/-- The candidate covers whole tokens, and names their kinds. -/
def RawCapture.OnTokens (tokens : List NpaToken) (raw : RawCapture) : Prop :=
  ∃ before window after, tokens = before ++ (window ++ after) ∧
    window.head?.map (·.span.start) = some raw.start ∧
    window.getLast?.map (·.span.stop) = some raw.stop ∧ raw.tokenKindSeq = kindSeq window

/-- A matcher returns, and what it found covers whole tokens. -/
def Fires (tokens : List NpaToken) (result : Except Panic (Option RawCapture)) : Prop :=
  ∃ found, result = .ok found ∧ ∀ raw ∈ found, raw.OnTokens tokens

theorem fires_none : Fires tokens (.ok none) := ⟨none, rfl, fun _ h => nomatch h⟩

theorem fires_new {first last : Nat} (patternId : String) (slots : LawRefSlots)
    (hle : first ≤ last) (hlt : last < tokens.length) :
    Fires tokens ((RawCapture.new tokens first last patternId slots).map some) := by
  have hfirst : first < tokens.length := by omega
  rw [RawCapture.new, List.getElem?_eq_getElem hfirst, List.getElem?_eq_getElem hlt, orBounds_some,
    orBounds_some, ok_bind, ok_bind, if_pos (by omega)]
  refine ⟨_, rfl, fun raw hraw => ?_⟩
  obtain rfl := Option.mem_some.mp hraw
  refine ⟨tokens.take first, (tokens.drop first).take (last + 1 - first),
    (tokens.drop first).drop (last + 1 - first), ?_, ?_, ?_, rfl⟩
  · rw [List.take_append_drop, List.take_append_drop]
  · rw [List.head?_take, if_neg (by omega), List.head?_drop, List.getElem?_eq_getElem hfirst]
    rfl
  · rw [List.getLast?_eq_getElem?, List.length_take, List.length_drop, List.getElem?_take,
      if_pos (by omega), List.getElem?_drop,
      show first + (min (last + 1 - first) (tokens.length - first) - 1) = last by omega,
      List.getElem?_eq_getElem hlt]
    rfl

theorem chainLinks_spec (hlex : Sliceable tokens src) (ids markers : List String)
    (hierNums : List (List Char)) (last : Nat) (hlast : last < tokens.length) :
    ∃ found, chainLinks tokens src ids markers hierNums last = .ok found ∧
      last ≤ found.2.2 ∧ found.2.2 < tokens.length := by
  have hstop : ∃ found, (Except.ok (markers, hierNums, last) :
      Except Panic (List String × List (List Char) × Nat)) = .ok found ∧
        last ≤ found.2.2 ∧ found.2.2 < tokens.length := ⟨_, rfl, le_rfl, hlast⟩
  rw [chainLinks]
  by_cases hspace : isSpace tokens (last + 1) = true
  · rw [dif_pos hspace]
    cases allowlistedAbbrev tokens (last + 2) ids with
    | none => exact hstop
    | some linkMarker =>
      dsimp only
      split_ifs
      · obtain ⟨number, hnumber, hlt⟩ := isNumberAt_ok hlex (last + 4)
        rw [hnumber, ok_bind]
        split_ifs with hfound
        · obtain ⟨hierNum, hhier⟩ := lexemeAt_ok hlex (hlt hfound)
          rw [hhier, ok_bind]
          obtain ⟨found, hlinks, hle, hend⟩ := chainLinks_spec hlex ids (markers ++ [linkMarker])
            (hierNums ++ [hierNum]) (last + 4) (hlt hfound)
          exact ⟨found, hlinks, by omega, hend⟩
        · exact hstop
      · exact hstop
  · rw [dif_neg hspace]
    exact hstop
termination_by tokens.length - last
decreasing_by omega

theorem fires_abbrevHierChain (hlex : Sliceable tokens src) (index : Nat)
    (precedence : LawRefPrecedence) :
    Fires tokens (matchAbbrevHierChain tokens index precedence src) := by
  unfold matchAbbrevHierChain
  cases allowlistedAbbrev tokens index precedence.chainAbbrevIds with
  | none => exact fires_none
  | some firstMarker =>
    dsimp only
    split_ifs
    · obtain ⟨number, hnumber, hlt⟩ := isNumberAt_ok hlex (index + 2)
      rw [hnumber, ok_bind]
      split_ifs with hfound
      · obtain ⟨hierNum, hhier⟩ := lexemeAt_ok hlex (hlt hfound)
        obtain ⟨⟨markers, hierNums, last⟩, hlinks, hle, hend⟩ := chainLinks_spec hlex
          precedence.chainAbbrevIds [firstMarker] [hierNum] (index + 2) (hlt hfound)
        rw [hhier, ok_bind, hlinks, ok_bind]
        exact fires_new _ _ (Nat.le_of_add_right_le hle) hend
      · exact fires_none
    · exact fires_none

theorem fires_abbrevAmendmentWindow (hlex : Sliceable tokens src) (index : Nat)
    (precedence : LawRefPrecedence) :
    Fires tokens (matchAbbrevAmendmentWindow tokens index precedence src) := by
  unfold matchAbbrevAmendmentWindow
  split_ifs
  · exact fires_none
  · cases hdate : scanFillerForward tokens index 16 (·.kind = .Date) with
    | none => exact fires_none
    | some dateIndex =>
      dsimp only
      cases hdocNo : scanFillerForward tokens dateIndex 4 (·.kind = .DocNo) with
      | none => exact fires_none
      | some docNoIndex =>
        have hd := scanFillerForward_spec hdate
        have hn := scanFillerForward_spec hdocNo
        obtain ⟨date, hdate⟩ := lexemeAt_ok hlex hd.2
        obtain ⟨docNo, hdocNo⟩ := lexemeAt_ok hlex hn.2
        dsimp only
        rw [hdate, ok_bind, hdocNo, ok_bind]
        exact fires_new _ _ (by omega) hn.2

theorem fires_dateDocnoWindow (hlex : Sliceable tokens src) (index : Nat) :
    Fires tokens (matchDateDocnoWindow tokens index src) := by
  unfold matchDateDocnoWindow
  split_ifs with hkind
  · exact fires_none
  · cases hscan : scanFillerForward tokens index 4
      fun t => t.kind = .DocNo || t.kind = .LawCode with
    | none => exact fires_none
    | some hit =>
      have hhit := scanFillerForward_spec hscan
      obtain ⟨date, hdate⟩ := lexemeAt_ok hlex (hhit.1.trans hhit.2)
      obtain ⟨extra, hextra⟩ := lexemeAt_ok hlex hhit.2
      dsimp only
      rw [hdate, ok_bind, hextra, ok_bind]
      exact fires_new _ _ (Nat.le_of_lt hhit.1) hhit.2

theorem fires_fullwordRef (hlex : Sliceable tokens src) (index : Nat)
    (precedence : LawRefPrecedence) :
    Fires tokens (matchFullwordRef tokens index precedence src) := by
  obtain ⟨tail, htail, -⟩ := lexemeAtIs_ok hlex index .Word fun lexeme =>
    precedence.fullwordTails.any (·.toList = lexeme)
  obtain ⟨number, hnumber, hlt⟩ := isNumberAt_ok hlex (index + 2)
  rw [matchFullwordRef, htail, ok_bind]
  split_ifs
  · exact fires_none
  · rw [hnumber, ok_bind]
    dsimp only
    split_ifs with hdoc hdocNo
    all_goals try exact fires_none
    all_goals
      have hend : index + 2 < tokens.length := by
        rcases hdoc with hdoc | hdoc
        · exact lt_length_of_kindAt hdoc
        · exact hlt hdoc
      obtain ⟨lexeme, hlexeme⟩ := lexemeAt_ok hlex hend
      rw [hlexeme, ok_bind]
      exact fires_new _ _ (Nat.le_add_right _ _) hend

theorem fires_quotedEnum (hlex : Sliceable tokens src) (index : Nat)
    (precedence : LawRefPrecedence) :
    Fires tokens (matchQuotedEnum tokens index precedence src) := by
  unfold matchQuotedEnum
  split_ifs with hlow hkind
  · exact fires_none
  · exact fires_none
  · have hindex := lt_length_of_kindAt (not_not.mp hkind)
    obtain ⟨opened, hopened, -⟩ := lexemeAtIs_ok hlex (index - 1) .Punct (· = ['"'])
    obtain ⟨closed, hclosed, hlt⟩ := lexemeAtIs_ok hlex (index + 1) .Punct (·.head? = some '"')
    rw [hopened, ok_bind, hclosed, ok_bind]
    split_ifs with hquotes
    · exact fires_none
    · have hend : index + 1 < tokens.length := hlt (by simp_all)
      obtain ⟨head, hhead⟩ : ∃ head, quotedHead tokens src precedence (index - 3) = .ok head := by
        have hhead : index - 3 < tokens.length := by omega
        obtain ⟨lexeme, hlexeme⟩ := hlex _ (List.getElem_mem hhead)
        rw [quotedHead, List.getElem?_eq_getElem hhead, orBounds_some, ok_bind]
        split_ifs
        · exact ⟨_, rfl⟩
        · exact ⟨_, by rw [hlexeme, ok_bind]⟩
        · exact ⟨_, rfl⟩
      obtain ⟨letter, hletter⟩ := lexemeAt_ok hlex hindex
      rw [hhead, ok_bind]
      split_ifs
      · rw [hletter, ok_bind]
        exact fires_new _ _ (by omega) hend
      · exact fires_none

theorem lastNonSpace_lt {candidate : Nat} (h : lastNonSpace tokens index = some candidate) :
    candidate < index := by
  induction index with
  | zero => exact nomatch h
  | succ index ih =>
    rw [lastNonSpace] at h
    split_ifs at h
    · exact Nat.lt_succ_of_lt (ih h)
    · obtain rfl := Option.some.inj h
      exact Nat.lt_succ_self _

theorem rangeStart_le (tokens : List NpaToken) (index : Nat) (dash : List Char) :
    rangeStart tokens index dash ≤ index := by
  unfold rangeStart
  split_ifs
  · cases hfound : (lastNonSpace tokens index).filter _ with
    | none => exact le_rfl
    | some candidate =>
      exact Nat.le_of_lt (lastNonSpace_lt (Option.filter_eq_some_iff.mp hfound).1)
  · exact le_rfl

theorem fires_rangeCandidate (hlex : Sliceable tokens src) (index : Nat) :
    Fires tokens (matchRangeCandidate tokens index src) := by
  unfold matchRangeCandidate
  split_ifs
  · exact fires_none
  · obtain ⟨dashed, hdashed, -⟩ := lexemeAtIs_ok hlex (index + 2) .Punct isDash
    rw [hdashed, ok_bind]
    split_ifs with hrest
    · exact fires_none
    · have hkind : kindAt tokens (index + 4) = some .HierNum := by simp_all
      have hend : index + 4 < tokens.length := lt_length_of_kindAt hkind
      have hstart : index < tokens.length := by omega
      have hmid : index + 2 < tokens.length := by omega
      obtain ⟨low, hlow⟩ := lexemeAt_ok hlex hstart
      obtain ⟨high, hhigh⟩ := lexemeAt_ok hlex hend
      obtain ⟨dash, hdash⟩ := lexemeAt_ok hlex hmid
      rw [hlow, ok_bind, hhigh, ok_bind, hdash, ok_bind]
      exact fires_new _ _ ((rangeStart_le tokens index dash).trans (Nat.le_add_right _ _)) hend

theorem fires_anaphoraCandidate (hlex : Sliceable tokens src) (index : Nat)
    (precedence : LawRefPrecedence) :
    Fires tokens (matchAnaphoraCandidate tokens index precedence src) := by
  obtain ⟨headed, hheaded, hlt⟩ := lexemeAtIs_ok hlex index .Word fun lexeme =>
    precedence.anaphoraHeads.any (·.toList = lexeme)
  obtain ⟨particle, hparticle, -⟩ := lexemeAtIs_ok hlex (index + 2) .Word (· = ['ж', 'е'])
  rw [matchAnaphoraCandidate, hheaded, ok_bind]
  split_ifs with hnone
  · exact fires_none
  · rw [hparticle, ok_bind]
    generalize hheads : (if isSpace tokens (index + 1) && particle then index + 2 else index) =
      headsEnd
    have hle : index ≤ headsEnd := by
      rw [← hheads]
      split_ifs <;> omega
    dsimp only
    split_ifs with hrest
    · exact fires_none
    all_goals
      have hkind : kindAt tokens (headsEnd + 2) = some .Word := by simp_all
      have hend : headsEnd + 2 < tokens.length := lt_length_of_kindAt hkind
      have hstart : index < tokens.length := by omega
      have hmid : headsEnd < tokens.length := by omega
      obtain ⟨head, hhead⟩ := lexemeAt_ok hlex hstart
      obtain ⟨rest, hrest⟩ := lexemeAt_ok hlex hmid
      rw [hhead, ok_bind, hrest, ok_bind]
      exact fires_new _ _ (by omega) hend

theorem fires_matchers (hlex : Sliceable tokens src) (precedence : LawRefPrecedence)
    {result : Except Panic (Option RawCapture)}
    (h : result ∈ matchers tokens precedence src index) : Fires tokens result := by
  simp only [matchers, List.mem_cons, List.not_mem_nil, or_false] at h
  rcases h with rfl | rfl | rfl | rfl | rfl | rfl | rfl
  exacts [fires_abbrevHierChain hlex index precedence,
    fires_abbrevAmendmentWindow hlex index precedence, fires_dateDocnoWindow hlex index,
    fires_fullwordRef hlex index precedence, fires_quotedEnum hlex index precedence,
    fires_rangeCandidate hlex index, fires_anaphoraCandidate hlex index precedence]

theorem fireAll_spec (hlex : Sliceable tokens src) (precedence : LawRefPrecedence) :
    ∃ fired, fireAll tokens precedence src = .ok fired ∧ ∀ raw ∈ fired, raw.OnTokens tokens := by
  have hall : ∀ result ∈ (List.range tokens.length).flatMap (matchers tokens precedence src),
      Fires tokens result := by
    intro result hresult
    obtain ⟨index, -, hmem⟩ := List.mem_flatMap.mp hresult
    exact fires_matchers hlex precedence hmem
  obtain ⟨found, hfound⟩ := exists_mapM_ok_iff (f := id).mpr fun result hresult =>
    (hall result hresult).imp fun _ h => h.1
  refine ⟨found.reduceOption, by rw [fireAll, hfound, ok_bind], fun raw hraw => ?_⟩
  obtain ⟨result, hresult, hok⟩ :=
    (forall₂_partner (mapM_eq_ok_iff.mp hfound)).2 (some raw) (List.reduceOption_mem_iff.mp hraw)
  obtain ⟨found', hfound', hon⟩ := hall result hresult
  obtain rfl := Except.ok.inj (hok.symm.trans hfound')
  exact hon raw rfl

/-! ## Tokens of a span -/

theorem contiguous_append_iff {start stop : Nat} {a b : List NpaToken} :
    Contiguous start (a ++ b) stop ↔ ∃ mid, Contiguous start a mid ∧ Contiguous mid b stop := by
  constructor
  · intro h
    induction a generalizing start with
    | nil => exact ⟨start, rfl, h⟩
    | cons token a ih =>
      obtain ⟨mid, ha, hb⟩ := ih h.2
      exact ⟨mid, ⟨h.1, ha⟩, hb⟩
  · rintro ⟨mid, ha, hb⟩
    exact contiguous_append ha hb

theorem Contiguous.bounds {start stop : Nat} (h : Contiguous start tokens stop) :
    start ≤ stop ∧ ∀ token ∈ tokens, start ≤ token.span.start ∧ token.span.stop ≤ stop := by
  induction tokens generalizing start with
  | nil => exact ⟨Nat.le_of_eq h, nofun⟩
  | cons token tokens ih =>
    obtain ⟨rfl, hrest⟩ := h
    obtain ⟨hle, hall⟩ := ih hrest
    have hspan := token.span.nonempty
    refine ⟨by omega, List.forall_mem_cons.mpr ⟨⟨le_rfl, hle⟩, fun t ht => ?_⟩⟩
    have := hall t ht
    omega

theorem Contiguous.head {start stop first : Nat} (h : Contiguous start tokens stop)
    (hfirst : tokens.head?.map (·.span.start) = some first) : start = first := by
  cases tokens with
  | nil => exact nomatch hfirst
  | cons token tokens => exact h.1.symm.trans (Option.some.inj hfirst)

theorem Contiguous.last {start stop last : Nat} (h : Contiguous start tokens stop)
    (hlast : tokens.getLast?.map (·.span.stop) = some last) : stop = last := by
  induction tokens generalizing start with
  | nil => exact nomatch hlast
  | cons token tokens ih =>
    cases tokens with
    | nil => exact h.2.symm.trans (Option.some.inj hlast)
    | cons next tokens => exact ih h.2 (by rwa [List.getLast?_cons_cons] at hlast)

/-- The tokens that lie in a span. -/
def tokensIn (tokens : List NpaToken) (start stop : Nat) : List NpaToken :=
  tokens.filter fun token => start ≤ token.span.start && token.span.stop ≤ stop

/-- A span from the start of a token to the end of one, with the kinds of the tokens in it. -/
def LawRef.OnTokens (tokens : List NpaToken) (capture : LawRef) : Prop :=
  (∃ token ∈ tokens, token.span.start = capture.span.start) ∧
    (∃ token ∈ tokens, token.span.stop = capture.span.stop) ∧
    capture.tokenKindSeq = kindSeq (tokensIn tokens capture.span.start capture.span.stop)

/-- The tokens before a window end before it, those behind it start behind it. -/
theorem tokensIn_window {before window after : List NpaToken} {start stop first last : Nat}
    (h : Contiguous start (before ++ (window ++ after)) stop)
    (hfirst : window.head?.map (·.span.start) = some first)
    (hlast : window.getLast?.map (·.span.stop) = some last) :
    tokensIn (before ++ (window ++ after)) first last = window := by
  obtain ⟨mid, hbefore, hrest⟩ := contiguous_append_iff.mp h
  obtain ⟨mid', hwindow, hafter⟩ := contiguous_append_iff.mp hrest
  obtain rfl := hwindow.head hfirst
  obtain rfl := hwindow.last hlast
  rw [tokensIn, List.filter_append, List.filter_append, List.filter_eq_nil_iff.mpr,
    List.filter_eq_self.mpr, List.filter_eq_nil_iff.mpr, List.nil_append, List.append_nil]
  · intro token htoken
    have := hafter.bounds.2 token htoken
    have := token.span.nonempty
    simp only [Bool.and_eq_true, decide_eq_true_eq]
    omega
  · intro token htoken
    simpa using hwindow.bounds.2 token htoken
  · intro token htoken
    have := hbefore.bounds.2 token htoken
    have := token.span.nonempty
    simp only [Bool.and_eq_true, decide_eq_true_eq]
    omega

/-! ## Minted captures -/

/-- The candidate that a capture was minted from. -/
def LawRef.raw (capture : LawRef) : RawCapture :=
  ⟨capture.span.start, capture.span.stop, capture.patternId, capture.tokenKindSeq, capture.slots⟩

theorem exists_mint {raw : RawCapture} (h : raw.start < raw.stop) :
    ∃ capture, raw.mint = some capture ∧ capture.raw = raw :=
  ⟨_, dif_pos h, rfl⟩

theorem RawCapture.OnTokens.spec {raw : RawCapture} {start stop : Nat} (h : raw.OnTokens tokens)
    (hcover : Contiguous start tokens stop) : raw.start < raw.stop ∧
      ∀ capture : LawRef, capture.raw = raw → capture.OnTokens tokens := by
  obtain ⟨before, window, after, rfl, hfirst, hlast, hseq⟩ := h
  obtain ⟨head, hhead, hstart⟩ := Option.map_eq_some_iff.mp hfirst
  obtain ⟨tail, htail, hstop⟩ := Option.map_eq_some_iff.mp hlast
  have hmem (token : NpaToken) (htoken : token ∈ window) :
      token ∈ before ++ (window ++ after) :=
    List.mem_append_right _ (List.mem_append_left _ htoken)
  have hheadmem := List.mem_of_mem_head? hhead
  have htailmem := List.mem_of_mem_getLast? htail
  constructor
  · obtain ⟨mid, -, hrest⟩ := contiguous_append_iff.mp hcover
    obtain ⟨mid', hwindow, -⟩ := contiguous_append_iff.mp hrest
    have hbounds := hwindow.bounds.2 head hheadmem
    have := hwindow.last hlast
    have := head.span.nonempty
    omega
  · rintro capture rfl
    exact ⟨⟨head, hmem head hheadmem, hstart⟩, ⟨tail, hmem tail htailmem, hstop⟩,
      hseq.trans (congrArg kindSeq (tokensIn_window hcover hfirst hlast).symm)⟩

/-! ## Overlaps -/

theorem applyOverlapPrecedence_eq (raw : List RawCapture) (precedence : LawRefPrecedence) :
    applyOverlapPrecedence raw precedence = dropSamePattern (dropDateDocno raw) := by
  have hdate := List.mem_singleton.mp precedence.dateDocnoPolicy
  have hsame := List.mem_singleton.mp precedence.samePatternPolicy
  simp only [applyOverlapPrecedence]
  rw [if_pos hdate, if_pos hsame]

theorem mem_dropDateDocno {raw : List RawCapture} {candidate : RawCapture} :
    candidate ∈ dropDateDocno raw ↔ candidate ∈ raw ∧
      (candidate.patternId = PATTERN_DATE_DOCNO → ∀ other ∈ raw,
        other.patternId = PATTERN_AMENDMENT → strictlyContained candidate other = false) := by
  simp [dropDateDocno, imp_iff_not_or]

theorem mem_dropSamePattern {raw : List RawCapture} {candidate : RawCapture} :
    candidate ∈ dropSamePattern raw ↔ candidate ∈ raw ∧ ∀ other ∈ raw,
      other.patternId = candidate.patternId → strictlyContained candidate other = false := by
  simp [dropSamePattern]

/-! ## The admission -/

/-- The merge has a diagnostic of its own. -/
theorem arbitratePair_diagnostic (a b : Nat × Nat) (slotsEqual : Bool)
    (diagnostic : PairDiagnostic) :
    (arbitratePair a b slotsEqual = .mergeEvidence diagnostic →
        diagnostic = .duplicateMatcherEvidenceMerged) ∧
      (arbitratePair a b slotsEqual = .conflictSet diagnostic ∨
          arbitratePair a b slotsEqual = .retainBoth (some diagnostic) →
        diagnostic ≠ .duplicateMatcherEvidenceMerged) := by
  unfold arbitratePair
  cases spanRelation a b <;> cases slotsEqual <;> cases diagnostic <;> simp

theorem arbitrate_count (candidate : RawCapture) (captures : List LawRef) :
    (arbitrate candidate captures).1.count .duplicateMatcherEvidenceMerged =
      if (arbitrate candidate captures).2 then 1 else 0 := by
  induction captures with
  | nil => rfl
  | cons prior rest ih =>
    have hdiag := arbitratePair_diagnostic (prior.span.start, prior.span.stop)
      (candidate.start, candidate.stop) (prior.slots = candidate.slots)
    cases hpair : arbitratePair (prior.span.start, prior.span.stop)
        (candidate.start, candidate.stop) (prior.slots = candidate.slots) with
    | mergeEvidence diagnostic =>
      obtain rfl := (hdiag diagnostic).1 hpair
      simp only [arbitrate, hpair]
      rfl
    | conflictSet diagnostic =>
      simp only [arbitrate, hpair]
      rw [List.count_cons_of_ne ((hdiag diagnostic).2 (.inl hpair)), ih]
    | retainBoth diagnostic =>
      cases diagnostic with
      | none =>
        simp only [arbitrate, hpair]
        exact ih
      | some diagnostic =>
        simp only [arbitrate, hpair]
        rw [List.count_cons_of_ne ((hdiag diagnostic).2 (.inr hpair)), ih]

/-- What holds of a batch behind a list of candidates. -/
structure Admitted (seen : List RawCapture) (batch : LawRefCaptureBatch) : Prop where
  sublist : (batch.captures.map LawRef.raw).Sublist seen
  ceiling : batch.captures.length ≤ PROPOSED_CANDIDATE_CEILING
  accounted : batch.captures.length +
    batch.diagnostics.count .duplicateMatcherEvidenceMerged + batch.refusedAfterLimit = seen.length

/-- A turn merges the candidate, admits it or refuses it. -/
theorem LawRefCaptureBatch.push_cases (batch : LawRefCaptureBatch) (candidate : RawCapture) :
    batch.push candidate =
      let (found, merged) := arbitrate candidate batch.captures
      let batch := { batch with diagnostics := batch.diagnostics ++ found }
      if merged then batch
      else if batch.captures.length < PROPOSED_CANDIDATE_CEILING then
        { batch with captures := batch.captures ++ candidate.mint.toList }
      else
        { batch with limit := .limitReached, refusedAfterLimit := batch.refusedAfterLimit + 1 } := by
  unfold LawRefCaptureBatch.push onCandidateLimit
  dsimp only
  split_ifs
  · rfl
  · cases candidate.mint <;> simp
  · rfl

theorem Admitted.push {seen : List RawCapture} {batch : LawRefCaptureBatch}
    {candidate : RawCapture} (h : Admitted seen batch) (hspan : candidate.start < candidate.stop) :
    Admitted (seen ++ [candidate]) (batch.push candidate) := by
  have hcount := arbitrate_count candidate batch.captures
  have haccounted := h.accounted
  rw [batch.push_cases]
  dsimp only
  split_ifs with hmerged hroom
  · rw [if_pos hmerged] at hcount
    refine ⟨h.sublist.trans (List.sublist_append_left seen [candidate]), h.ceiling, ?_⟩
    rw [List.count_append, hcount, List.length_append, List.length_singleton]
    dsimp only
    omega
  · obtain ⟨capture, hmint, hraw⟩ := exists_mint hspan
    rw [if_neg hmerged] at hcount
    refine ⟨?_, ?_, ?_⟩
    · rw [hmint, List.map_append]
      exact h.sublist.append (by rw [← hraw]; exact List.Sublist.refl _)
    · rw [hmint, List.length_append]
      exact hroom
    · rw [hmint, List.count_append, hcount, List.length_append, List.length_append,
        Option.toList_some, List.length_singleton, List.length_singleton]
      dsimp only
      omega
  · rw [if_neg hmerged] at hcount
    refine ⟨h.sublist.trans (List.sublist_append_left seen [candidate]), h.ceiling, ?_⟩
    rw [List.count_append, hcount, List.length_append, List.length_singleton]
    dsimp only
    omega

theorem Admitted.run {seen rest : List RawCapture} {batch : LawRefCaptureBatch}
    (h : Admitted seen batch) (hspan : ∀ raw ∈ rest, raw.start < raw.stop) :
    Admitted (seen ++ rest) (rest.foldl LawRefCaptureBatch.push batch) := by
  induction rest generalizing seen batch with
  | nil => simpa using h
  | cons candidate rest ih =>
    rw [List.forall_mem_cons] at hspan
    simpa using ih (h.push hspan.1) hspan.2

/-! ## The batch -/

/-- The capture returns, with the admitted ones of the candidates that the policies leave. -/
theorem captureLawrefs_ok (lexicon : Lexicon) (precedence : LawRefPrecedence) (src : List Char) :
    ∃ tokens fired batch, lex lexicon src = .ok tokens ∧ Covers src 0 tokens (byteLen src) ∧
      fireAll tokens precedence src = .ok fired ∧ (∀ raw ∈ fired, raw.OnTokens tokens) ∧
      captureLawrefs lexicon precedence src = .ok batch ∧
      Admitted (sortBy captureKey (applyOverlapPrecedence fired precedence)) batch := by
  obtain ⟨tokens, htokens, hcovers⟩ := lex_covers lexicon src
  obtain ⟨fired, hfired, hon⟩ := fireAll_spec hcovers.sliceable precedence
  let raw := sortBy captureKey (applyOverlapPrecedence fired precedence)
  have hfiredOf (candidate : RawCapture) (h : candidate ∈ raw) : candidate ∈ fired := by
    have hkept := mem_sortBy.mp h
    rw [applyOverlapPrecedence_eq fired precedence] at hkept
    exact (mem_dropDateDocno.mp (mem_dropSamePattern.mp hkept).1).1
  have hempty : Admitted [] .empty := ⟨List.Sublist.refl _, Nat.zero_le _, rfl⟩
  have hadmitted : Admitted raw (raw.foldl LawRefCaptureBatch.push .empty) :=
    hempty.run fun candidate h => ((hon candidate (hfiredOf candidate h)).spec hcovers.1).1
  refine ⟨tokens, fired, _, htokens, hcovers, hfired, hon, ?_, hadmitted⟩
  rw [captureLawrefs, htokens, ok_bind]
  split_ifs with hnone
  · obtain rfl := List.isEmpty_iff.mp hnone
    obtain rfl : [] = fired := Except.ok.inj hfired
    simp [raw, applyOverlapPrecedence_eq, dropSamePattern, dropDateDocno, sortBy]
  · rw [rawCandidates, hfired]
    rfl

/-- The captures of a block are sorted, cover whole tokens and do not nest where a policy drops
the inner one; at most as many as the ceiling are admitted, and every candidate is counted. -/
theorem captureLawrefs_batch (lexicon : Lexicon) (precedence : LawRefPrecedence)
    (src : List Char) :
    ∃ tokens fired batch, lex lexicon src = .ok tokens ∧
      fireAll tokens precedence src = .ok fired ∧
      captureLawrefs lexicon precedence src = .ok batch ∧
      (batch.captures.Pairwise fun a b => captureKey a.raw ≤ captureKey b.raw) ∧
      (∀ capture ∈ batch.captures, capture.OnTokens tokens) ∧
      (∀ inner ∈ batch.captures, ∀ outer ∈ batch.captures, outer.patternId = inner.patternId →
        strictlyContained inner.raw outer.raw = false) ∧
      (∀ inner ∈ batch.captures, inner.patternId = PATTERN_DATE_DOCNO → ∀ outer ∈ fired,
        outer.patternId = PATTERN_AMENDMENT → strictlyContained inner.raw outer = false) ∧
      batch.captures.length ≤ 1024 ∧
      batch.captures.length + batch.diagnostics.count .duplicateMatcherEvidenceMerged +
        batch.refusedAfterLimit = (applyOverlapPrecedence fired precedence).length := by
  obtain ⟨tokens, fired, batch, htokens, hcovers, hfired, hon, hbatch, hadmitted⟩ :=
    captureLawrefs_ok lexicon precedence src
  let raw := sortBy captureKey (applyOverlapPrecedence fired precedence)
  have hkept (candidate : RawCapture) (h : candidate ∈ raw) :
      candidate ∈ dropSamePattern (dropDateDocno fired) := by
    rw [← applyOverlapPrecedence_eq fired precedence]
    exact mem_sortBy.mp h
  have hfiredOf (candidate : RawCapture) (h : candidate ∈ raw) : candidate ∈ fired :=
    (mem_dropDateDocno.mp (mem_dropSamePattern.mp (hkept candidate h)).1).1
  have hmem (capture : LawRef) (h : capture ∈ batch.captures) : capture.raw ∈ raw :=
    hadmitted.sublist.subset (List.mem_map_of_mem h)
  refine ⟨tokens, fired, batch, htokens, hfired, hbatch, ?_, fun capture h => ?_,
    fun inner hinner outer houter => ?_, fun inner hinner => ?_, hadmitted.ceiling, ?_⟩
  · exact (List.pairwise_map (f := LawRef.raw)).mp
      ((pairwise_sortBy captureKey _).sublist hadmitted.sublist)
  · exact ((hon _ (hfiredOf _ (hmem capture h))).spec hcovers.1).2 capture rfl
  · exact (mem_dropSamePattern.mp (hkept _ (hmem inner hinner))).2 _
      (mem_dropSamePattern.mp (hkept _ (hmem outer houter))).1
  · exact (mem_dropDateDocno.mp (mem_dropSamePattern.mp (hkept _ (hmem inner hinner))).1).2
  · exact hadmitted.accounted.trans (sortBy_perm captureKey _).length_eq

end LawNexus.Decode
