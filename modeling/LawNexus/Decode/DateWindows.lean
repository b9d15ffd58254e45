import LawNexus.Decode.Capture

/-!
# Dated captures

A capture with a date stands over one date token, with fillers around it, and no two of the
captures that are left after the overlap policies end out of order.
-/

namespace LawNexus.Decode

open Utf8 Loops

variable {tokens : List NpaToken} {src : List Char} {index : Nat}

/-! ## Fillers -/

def IsFiller (tokens : List NpaToken) (index : Nat) : Prop :=
  kindAt tokens index = some .Space ∨ kindAt tokens index = some .Word ∨
    kindAt tokens index = some .Punct

theorem scanFiller_fillers {pred : NpaToken → Bool} {start hit : Nat}
    (h : scanFiller pred tokens start = some hit) : ∃ before token after,
      tokens = before ++ token :: after ∧ hit = start + before.length ∧ pred token = true ∧
      ∀ t ∈ before, t.kind = .Space ∨ t.kind = .Word ∨ t.kind = .Punct := by
  induction tokens generalizing start with
  | nil => cases h
  | cons token tokens ih =>
    rw [scanFiller] at h
    split_ifs at h with hpred hfiller
    · obtain rfl := Option.some.inj h
      exact ⟨[], token, tokens, rfl, rfl, hpred, List.forall_mem_nil _⟩
    · obtain ⟨before, found, after, rfl, rfl, hfound, hbefore⟩ := ih h
      refine ⟨token :: before, found, after, rfl, ?_, hfound, ?_⟩
      · rw [List.length_cons]
        omega
      · exact List.forall_mem_cons.mpr ⟨by tauto, hbefore⟩

/-- A scan stops at a token that passes, with fillers only in front of it. -/
theorem scanFillerForward_fillers {anchor maxDistance hit : Nat} {pred : NpaToken → Bool}
    (h : scanFillerForward tokens anchor maxDistance pred = some hit) :
    (∃ token, tokens[hit]? = some token ∧ pred token = true) ∧
      ∀ j, anchor < j → j < hit → IsFiller tokens j := by
  obtain ⟨before, token, after, hsplit, rfl, hpred, hbefore⟩ := scanFiller_fillers h
  have hget : ∀ k, k ≤ before.length →
      tokens[anchor + 1 + k]? = (before ++ token :: after)[k]? := by
    intro k hk
    have hlt : k < maxDistance := by
      have hlen := congrArg List.length hsplit
      rw [List.length_take, List.length_append, List.length_cons] at hlen
      omega
    rw [← hsplit, List.getElem?_take, if_pos hlt, List.getElem?_drop]
  constructor
  · refine ⟨token, ?_, hpred⟩
    rw [hget _ le_rfl, List.getElem?_append_right le_rfl, Nat.sub_self]
    rfl
  · intro j hlow hhigh
    obtain ⟨k, rfl⟩ := Nat.exists_eq_add_of_lt hlow
    have hk : k < before.length := by omega
    have hplace := hget k hk.le
    rw [List.getElem?_append_left hk, List.getElem?_eq_getElem hk] at hplace
    have hkind := hbefore _ (List.getElem_mem hk)
    unfold IsFiller kindAt
    rw [Nat.add_right_comm, hplace]
    simpa using hkind

/-! ## Windows -/

/-- The tokens of a dated capture: its date, its number or law code at the end, an abbreviation
at the start unless the date is there, and fillers. -/
structure DateWindow (tokens : List NpaToken) (src : List Char) (first date last : Nat)
    (raw : RawCapture) : Prop where
  start : tokens[first]?.map (·.span.start) = some raw.start
  stop : tokens[last]?.map (·.span.stop) = some raw.stop
  slot : ∃ token lexeme, tokens[date]? = some token ∧ token.kind = .Date ∧
    token.lexeme src = .ok lexeme ∧ raw.slots.date = some lexeme
  before : date < last
  lastKind : kindAt tokens last = some .DocNo ∨ kindAt tokens last = some .LawCode
  fillers : ∀ j, first < j → j < last → j ≠ date → IsFiller tokens j
  pattern : (raw.patternId = PATTERN_DATE_DOCNO ∧ first = date) ∨
    (raw.patternId = PATTERN_AMENDMENT ∧ kindAt tokens first = some .Abbrev ∧ first < date)

/-- What a matcher finds has the property, when it finds something. -/
def Yields (P : RawCapture → Prop) (result : Except Panic (Option RawCapture)) : Prop :=
  ∀ raw, result = .ok (some raw) → P raw

section

variable {P : RawCapture → Prop}

theorem yields_none : Yields P (.ok none) := fun _ h => nomatch Except.ok.inj h

theorem yields_ite {c : Prop} [Decidable c] {a b : Except Panic (Option RawCapture)}
    (ha : Yields P a) (hb : Yields P b) : Yields P (if c then a else b) := by
  split_ifs
  · exact ha
  · exact hb

theorem yields_bind {α : Type} {x : Except Panic α} {f : α → Except Panic (Option RawCapture)}
    (h : ∀ a, x = .ok a → Yields P (f a)) : Yields P (x >>= f) := by
  intro raw hraw
  obtain ⟨a, ha, hf⟩ := bind_eq_ok_iff.mp hraw
  exact h a ha raw hf

theorem yields_new {first last : Nat} {patternId : String} {slots : LawRefSlots}
    (h : ∀ raw, raw.patternId = patternId → raw.slots = slots →
      tokens[first]?.map (·.span.start) = some raw.start →
      tokens[last]?.map (·.span.stop) = some raw.stop → P raw) :
    Yields P ((RawCapture.new tokens first last patternId slots).map some) := by
  intro raw hraw
  obtain ⟨found, hfound, hsome⟩ := map_eq_ok_iff.mp hraw
  obtain rfl := Option.some.inj hsome
  unfold RawCapture.new at hfound
  cases hfirst : tokens[first]? with
  | none =>
    rw [hfirst] at hfound
    exact nomatch hfound
  | some head =>
    cases hlast : tokens[last]? with
    | none =>
      rw [hfirst, hlast] at hfound
      exact nomatch hfound
    | some tail =>
      rw [hfirst, hlast, orBounds_some, orBounds_some, ok_bind, ok_bind] at hfound
      split_ifs at hfound
      obtain rfl := Except.ok.inj hfound
      exact h _ rfl rfl (by rw [hfirst]; rfl) (by rw [hlast]; rfl)

end

def Dated (tokens : List NpaToken) (src : List Char) (raw : RawCapture) : Prop :=
  raw.slots.date ≠ none → ∃ first date last, DateWindow tokens src first date last raw

theorem yields_undated {first last : Nat} {patternId : String} {slots : LawRefSlots}
    (h : slots.date = none) :
    Yields (Dated tokens src) ((RawCapture.new tokens first last patternId slots).map some) :=
  yields_new fun _ _ hslots _ _ hdate => absurd (hslots ▸ h) hdate

theorem lexemeAt_eq_ok {lexeme : List Char} (h : lexemeAt tokens src index = .ok lexeme) :
    ∃ token, tokens[index]? = some token ∧ token.lexeme src = .ok lexeme := by
  unfold lexemeAt at h
  cases htoken : tokens[index]? with
  | none =>
    rw [htoken] at h
    exact nomatch h
  | some token =>
    rw [htoken, orBounds_some, ok_bind] at h
    exact ⟨token, rfl, h⟩

theorem kind_of_getElem? {token : NpaToken} (h : tokens[index]? = some token) :
    kindAt tokens index = some token.kind := by
  rw [kindAt, h]
  rfl

theorem kindAt_of_allowlistedAbbrev {ids : List String}
    (h : (allowlistedAbbrev tokens index ids).isNone = false) :
    kindAt tokens index = some .Abbrev := by
  cases hid : allowlistedAbbrev tokens index ids with
  | none =>
    rw [hid] at h
    exact nomatch h
  | some id =>
    obtain ⟨token, htoken, hrest⟩ := Option.bind_eq_some_iff.mp hid
    split_ifs at hrest with hkind
    rw [kind_of_getElem? htoken, not_not.mp hkind]

theorem dated_amendmentWindow (precedence : LawRefPrecedence) : Yields (Dated tokens src)
    (matchAbbrevAmendmentWindow tokens index precedence src) := by
  unfold matchAbbrevAmendmentWindow
  split_ifs with habbrev
  · exact yields_none
  · cases hdate : scanFillerForward tokens index 16 (·.kind = .Date) with
    | none => exact yields_none
    | some date =>
      dsimp only
      cases hdocNo : scanFillerForward tokens date 4 (·.kind = .DocNo) with
      | none => exact yields_none
      | some last =>
        have hfirst := scanFillerForward_spec hdate
        have hlast := scanFillerForward_spec hdocNo
        obtain ⟨⟨token, htoken, hkind⟩, hfront⟩ := scanFillerForward_fillers hdate
        obtain ⟨⟨tail, htail, htailKind⟩, hback⟩ := scanFillerForward_fillers hdocNo
        refine yields_bind fun lexeme hlexeme => yields_bind fun _ _ => yields_new ?_
        intro raw hpattern hslots hstart hstop _
        obtain ⟨token', htoken', hlexeme⟩ := lexemeAt_eq_ok hlexeme
        obtain rfl := Option.some.inj (htoken.symm.trans htoken')
        refine ⟨index, date, last, hstart, hstop, ?_, hlast.1, ?_, ?_, ?_⟩
        · exact ⟨token, lexeme, htoken, of_decide_eq_true hkind, hlexeme, by rw [hslots]⟩
        · left
          rw [kind_of_getElem? htail, of_decide_eq_true htailKind]
        · intro j hlow hhigh hne
          rcases Nat.lt_or_gt_of_ne hne with h | h
          · exact hfront j hlow h
          · exact hback j h hhigh
        · rw [Bool.not_eq_true] at habbrev
          exact Or.inr ⟨hpattern, kindAt_of_allowlistedAbbrev habbrev, hfirst.1⟩

theorem dated_dateDocnoWindow :
    Yields (Dated tokens src) (matchDateDocnoWindow tokens index src) := by
  unfold matchDateDocnoWindow
  split_ifs with hkind
  · exact yields_none
  · cases hscan : scanFillerForward tokens index 4
      fun t => t.kind = .DocNo || t.kind = .LawCode with
    | none => exact yields_none
    | some last =>
      have hlast := scanFillerForward_spec hscan
      obtain ⟨⟨tail, htail, htailKind⟩, hback⟩ := scanFillerForward_fillers hscan
      refine yields_bind fun lexeme hlexeme => yields_bind fun _ _ => yields_new ?_
      intro raw hpattern hslots hstart hstop _
      obtain ⟨token, htoken, hlexeme⟩ := lexemeAt_eq_ok hlexeme
      rw [not_not, kind_of_getElem? htoken, Option.some_inj] at hkind
      refine ⟨index, index, last, hstart, hstop, ?_, hlast.1, ?_, ?_, Or.inl ⟨hpattern, rfl⟩⟩
      · refine ⟨token, lexeme, htoken, hkind, hlexeme, ?_⟩
        rw [hslots]
        split_ifs <;> rfl
      · rw [kind_of_getElem? htail]
        simpa using htailKind
      · exact fun j hlow hhigh _ => hback j hlow hhigh

/-! ## Captures without a date -/

theorem dated_abbrevHierChain (precedence : LawRefPrecedence) : Yields (Dated tokens src)
    (matchAbbrevHierChain tokens index precedence src) := by
  unfold matchAbbrevHierChain
  cases allowlistedAbbrev tokens index precedence.chainAbbrevIds with
  | none => exact yields_none
  | some marker =>
    refine yields_ite (yields_bind fun number _ => yields_ite ?_ yields_none) yields_none
    exact yields_bind fun _ _ => yields_bind fun _ _ => yields_undated rfl

theorem dated_fullwordRef (precedence : LawRefPrecedence) : Yields (Dated tokens src)
    (matchFullwordRef tokens index precedence src) := by
  refine yields_bind fun tail _ => yields_ite yields_none ?_
  refine yields_bind fun number _ => yields_ite ?_ yields_none
  refine yields_bind fun lexeme _ => yields_undated ?_
  split_ifs <;> rfl

theorem dated_quotedEnum (precedence : LawRefPrecedence) : Yields (Dated tokens src)
    (matchQuotedEnum tokens index precedence src) := by
  refine yields_ite yields_none (yields_ite yields_none ?_)
  refine yields_bind fun opened _ => yields_bind fun closed _ => yields_ite yields_none ?_
  refine yields_bind fun headed _ => yields_ite ?_ yields_none
  exact yields_bind fun _ _ => yields_undated rfl

theorem dated_rangeCandidate :
    Yields (Dated tokens src) (matchRangeCandidate tokens index src) := by
  refine yields_ite yields_none (yields_bind fun dashed _ => yields_ite yields_none ?_)
  exact yields_bind fun _ _ => yields_bind fun _ _ => yields_bind fun _ _ => yields_undated rfl

theorem dated_anaphoraCandidate (precedence : LawRefPrecedence) : Yields (Dated tokens src)
    (matchAnaphoraCandidate tokens index precedence src) := by
  refine yields_bind fun headed _ => yields_ite yields_none ?_
  refine yields_bind fun particle _ => yields_ite yields_none ?_
  exact yields_bind fun _ _ => yields_bind fun _ _ => yields_undated rfl

theorem dated_fireAll {precedence : LawRefPrecedence} {fired : List RawCapture}
    (h : fireAll tokens precedence src = .ok fired) : ∀ raw ∈ fired, Dated tokens src raw := by
  intro raw hraw
  obtain ⟨found, hfound, hok⟩ := bind_eq_ok_iff.mp h
  obtain rfl := Except.ok.inj hok
  obtain ⟨result, hresult, heq⟩ :=
    (forall₂_partner (mapM_eq_ok_iff.mp hfound)).2 (some raw) (List.reduceOption_mem_iff.mp hraw)
  obtain ⟨index, -, hmem⟩ := List.mem_flatMap.mp hresult
  simp only [matchers, List.mem_cons, List.not_mem_nil, or_false] at hmem
  rcases hmem with rfl | rfl | rfl | rfl | rfl | rfl | rfl
  · exact dated_abbrevHierChain precedence raw heq
  · exact dated_amendmentWindow precedence raw heq
  · exact dated_dateDocnoWindow raw heq
  · exact dated_fullwordRef precedence raw heq
  · exact dated_quotedEnum precedence raw heq
  · exact dated_rangeCandidate raw heq
  · exact dated_anaphoraCandidate precedence raw heq

/-! ## Tokens in order -/

theorem Contiguous.pairwise {start stop : Nat} (h : Contiguous start tokens stop) :
    tokens.Pairwise fun a b => a.span.stop ≤ b.span.start := by
  induction tokens generalizing start with
  | nil => exact List.Pairwise.nil
  | cons token tokens ih =>
    exact List.pairwise_cons.mpr ⟨fun t ht => (h.2.bounds.2 t ht).1, ih h.2⟩

/-- The tokens of a text, each behind the one before it. -/
abbrev InOrder (tokens : List NpaToken) : Prop :=
  tokens.Pairwise fun a b => a.span.stop ≤ b.span.start

section

variable {i j : Nat} {a b : NpaToken}

theorem InOrder.stop_le (h : InOrder tokens) (ha : tokens[i]? = some a) (hb : tokens[j]? = some b)
    (hij : i < j) : a.span.stop ≤ b.span.start := by
  obtain ⟨hi, rfl⟩ := List.getElem?_eq_some_iff.mp ha
  obtain ⟨hj, rfl⟩ := List.getElem?_eq_some_iff.mp hb
  exact List.pairwise_iff_getElem.mp h i j hi hj hij

theorem InOrder.span_le (h : InOrder tokens) (ha : tokens[i]? = some a) (hb : tokens[j]? = some b)
    (hij : i ≤ j) : a.span.start ≤ b.span.start ∧ a.span.stop ≤ b.span.stop := by
  rcases Nat.eq_or_lt_of_le hij with rfl | hlt
  · obtain rfl := Option.some.inj (ha.symm.trans hb)
    exact ⟨le_rfl, le_rfl⟩
  · have hstop := h.stop_le ha hb hlt
    have hne := a.span.nonempty
    have hne' := b.span.nonempty
    omega

theorem InOrder.le_of_start_le (h : InOrder tokens) (ha : tokens[i]? = some a)
    (hb : tokens[j]? = some b) (hab : a.span.start ≤ b.span.start) : i ≤ j := by
  by_contra hlt
  have hstop := h.stop_le hb ha (Nat.lt_of_not_le hlt)
  have hne := b.span.nonempty
  omega

theorem InOrder.lt_of_stop_lt (h : InOrder tokens) (ha : tokens[i]? = some a)
    (hb : tokens[j]? = some b) (hab : a.span.stop < b.span.stop) : i < j := by
  rcases Nat.lt_trichotomy i j with hlt | rfl | hgt
  · exact hlt
  · rw [ha] at hb
    obtain rfl := Option.some.inj hb
    exact absurd hab (lt_irrefl _)
  · have hstop := h.stop_le hb ha hgt
    have hne := a.span.nonempty
    omega

end

/-! ## Captures in order -/

variable {first date last first' date' last' : Nat} {raw other : RawCapture}

theorem IsFiller.kind {kind : TokenKind} (h : IsFiller tokens index)
    (hkind : kindAt tokens index = some kind) : kind = .Space ∨ kind = .Word ∨ kind = .Punct := by
  unfold IsFiller at h
  rw [hkind] at h
  simpa using h

theorem DateWindow.first_le (h : DateWindow tokens src first date last raw) : first ≤ date := by
  rcases h.pattern with ⟨-, rfl⟩ | ⟨-, -, hlt⟩
  · exact le_rfl
  · exact hlt.le

theorem DateWindow.dateKind (h : DateWindow tokens src first date last raw) :
    kindAt tokens date = some .Date := by
  obtain ⟨token, -, htoken, hkind, -⟩ := h.slot
  rw [kind_of_getElem? htoken, hkind]

/-- No abbreviation stands in a window behind its first token. -/
theorem DateWindow.abbrev_eq_first (h : DateWindow tokens src first date last raw)
    (hkind : kindAt tokens index = some .Abbrev) (hlow : first ≤ index) (hhigh : index < last) :
    index = first ∧ raw.patternId = PATTERN_AMENDMENT := by
  have hdate : index ≠ date := by
    rintro rfl
    exact absurd (Option.some.inj (hkind.symm.trans h.dateKind)) (by decide)
  obtain rfl : index = first := by
    by_contra hne
    have hfiller := h.fillers index (lt_of_le_of_ne hlow (Ne.symm hne)) hhigh hdate
    exact absurd (hfiller.kind hkind) (by decide)
  rcases h.pattern with ⟨-, heq⟩ | ⟨hpattern, -⟩
  · exact absurd heq hdate
  · exact ⟨rfl, hpattern⟩

/-- Of two dated candidates that the policies leave, the later one does not end first. -/
theorem DateWindow.stop_le (hin : InOrder tokens) {fired : List RawCapture}
    (hraw : raw ∈ dropSamePattern (dropDateDocno fired))
    (hother : other ∈ dropSamePattern (dropDateDocno fired))
    (hwindow : DateWindow tokens src first date last raw)
    (hwindow' : DateWindow tokens src first' date' last' other)
    (hstart : raw.start ≤ other.start) : raw.stop ≤ other.stop := by
  by_contra hlt
  rw [Nat.not_le] at hlt
  have hinside : strictlyContained other raw = true := by
    simp only [strictlyContained, Bool.or_eq_true, Bool.and_eq_true, decide_eq_true_eq]
    omega
  obtain ⟨hraw, -⟩ := mem_dropSamePattern.mp hraw
  obtain ⟨hkept, hsame⟩ := mem_dropSamePattern.mp hother
  obtain ⟨-, hdrop⟩ := mem_dropDateDocno.mp hkept
  have hne : raw.patternId ≠ other.patternId := fun heq => by
    rw [hsame raw hraw heq] at hinside
    exact absurd hinside (by decide)
  rcases hwindow'.pattern with ⟨hdocno, -⟩ | ⟨hamendment, habbrev, hbefore⟩
  · rcases hwindow.pattern with ⟨hpattern, -⟩ | ⟨hpattern, -⟩
    · exact hne (hpattern.trans hdocno.symm)
    · have hout := hdrop hdocno raw (mem_dropDateDocno.mp hraw).1 hpattern
      rw [hout] at hinside
      exact absurd hinside (by decide)
  · -- An amendment window opens with an abbreviation, and a date window has none in it.
    obtain ⟨head, hhead, hs⟩ := Option.map_eq_some_iff.mp hwindow.start
    obtain ⟨head', hhead', hs'⟩ := Option.map_eq_some_iff.mp hwindow'.start
    obtain ⟨tail, htail, he⟩ := Option.map_eq_some_iff.mp hwindow.stop
    obtain ⟨tail', htail', he'⟩ := Option.map_eq_some_iff.mp hwindow'.stop
    have hfirst := hin.le_of_start_le hhead hhead' (by omega)
    have hlast := hin.lt_of_stop_lt htail' htail (by omega)
    have hdate := hwindow'.before
    have hpattern := (hwindow.abbrev_eq_first habbrev hfirst (by omega)).2
    exact hne (hpattern.trans hamendment.symm)

theorem Admitted.dated_window {precedence : LawRefPrecedence} {fired : List RawCapture}
    {batch : LawRefCaptureBatch} (hfired : fireAll tokens precedence src = .ok fired)
    (h : Admitted (sortBy captureKey (applyOverlapPrecedence fired precedence)) batch) :
    ∀ capture ∈ batch.captures, capture.slots.date ≠ none →
      capture.raw ∈ dropSamePattern (dropDateDocno fired) ∧
        ∃ first date last, DateWindow tokens src first date last capture.raw := by
  intro capture hmem hdate
  have hkept := mem_sortBy.mp (h.sublist.subset (List.mem_map_of_mem hmem))
  rw [applyOverlapPrecedence_eq fired precedence] at hkept
  have hraw := (mem_dropDateDocno.mp (mem_dropSamePattern.mp hkept).1).1
  exact ⟨hkept, dated_fireAll hfired _ hraw hdate⟩

/-- The dated captures of a batch stand in the order of the text. -/
theorem Admitted.dated_pairwise {precedence : LawRefPrecedence} {fired : List RawCapture}
    {batch : LawRefCaptureBatch} (hin : InOrder tokens)
    (hfired : fireAll tokens precedence src = .ok fired)
    (h : Admitted (sortBy captureKey (applyOverlapPrecedence fired precedence)) batch) :
    (batch.captures.filter (·.slots.date.isSome)).Pairwise fun a b =>
      a.span.start ≤ b.span.start ∧ a.span.stop ≤ b.span.stop := by
  have hsorted : batch.captures.Pairwise fun a b => captureKey a.raw ≤ captureKey b.raw :=
    (List.pairwise_map (f := LawRef.raw)).mp ((pairwise_sortBy captureKey _).sublist h.sublist)
  have hwindow : ∀ capture ∈ batch.captures.filter (·.slots.date.isSome),
      capture.raw ∈ dropSamePattern (dropDateDocno fired) ∧
        ∃ first date last, DateWindow tokens src first date last capture.raw := fun capture hmem =>
    h.dated_window hfired capture (List.mem_of_mem_filter hmem)
      (Option.isSome_iff_ne_none.mp (List.mem_filter.mp hmem).2)
  refine (hsorted.filter _).imp_of_mem fun {a b} ha hb hab => ?_
  obtain ⟨hakept, first, date, last, ha⟩ := hwindow a ha
  obtain ⟨hbkept, first', date', last', hb⟩ := hwindow b hb
  have hstart : a.span.start ≤ b.span.start := by
    rcases Prod.Lex.toLex_le_toLex.mp hab with hlt | ⟨heq, -⟩
    · exact Nat.le_of_lt hlt
    · exact Nat.le_of_eq heq
  exact ⟨hstart, ha.stop_le hin hakept hbkept hb hstart⟩

/-! ## The text of a date -/

/-- How a token comes out of the text: it is scanned, or it is part of a quoted label. -/
def Scanned (lexicon : Lexicon) (src : List Char) (token : NpaToken) : Prop :=
  (∃ c rest, sliceFrom src token.span.start = some (c :: rest) ∧
    scanToken lexicon src token.span.start c =
      .ok (token.kind, token.abbrevId, token.span.stop)) ∨
  (token.kind = .Punct ∧ ∃ rest, sliceFrom src token.span.start = some ('"' :: rest)) ∨
  token.kind = .EnumMarker

theorem lexTurn_scanned {lexicon : Lexicon} {pos : Nat} {turn : Turn pos}
    (h : lexTurn lexicon src pos = .ok (some turn)) :
    ∀ token ∈ turn.tokens, Scanned lexicon src token := by
  obtain ⟨rest, hrest, h⟩ := bind_eq_ok_iff.mp h
  cases rest with
  | nil => exact nomatch Except.ok.inj h
  | cons c rest =>
    have hslice : sliceFrom src pos = some (c :: rest) := by
      cases hs : sliceFrom src pos with
      | none =>
        rw [hs] at hrest
        exact nomatch hrest
      | some text =>
        rw [hs] at hrest
        exact congrArg some (Except.ok.inj hrest)
    obtain ⟨label, hlabel, h⟩ := bind_eq_ok_iff.mp h
    cases label with
    | some letterEnd =>
      have hquote : c = '"' := by
        unfold quotedLabel at hlabel
        split_ifs at hlabel with hc
        · exact hc
        · exact nomatch Except.ok.inj hlabel
      obtain ⟨found, hfound, hsome⟩ := map_eq_ok_iff.mp h
      obtain rfl := Option.some.inj hsome
      unfold quotedTurn at hfound
      split_ifs at hfound
      obtain rfl := Except.ok.inj hfound
      refine List.forall_mem_cons.mpr ⟨Or.inr (Or.inl ⟨rfl, rest, hquote ▸ hslice⟩), ?_⟩
      exact List.forall_mem_singleton.mpr (Or.inr (Or.inr rfl))
    | none =>
      obtain ⟨found, hfound, h⟩ := bind_eq_ok_iff.mp h
      obtain ⟨made, hmade, hsome⟩ := map_eq_ok_iff.mp h
      obtain rfl := Option.some.inj hsome
      unfold foundTurn at hmade
      split_ifs at hmade
      obtain rfl := Except.ok.inj hmade
      exact List.forall_mem_singleton.mpr (Or.inl ⟨c, rest, hslice, hfound⟩)

theorem lexFrom_scanned {lexicon : Lexicon} (pos : Nat) {tokens : List NpaToken}
    (h : lexFrom lexicon src pos = .ok tokens) : ∀ token ∈ tokens, Scanned lexicon src token := by
  rw [lexFrom] at h
  split_ifs at h with hlt
  · cases hturn : lexTurn lexicon src pos with
    | error p =>
      rw [hturn] at h
      cases h
    | ok found =>
      rw [hturn] at h
      cases found with
      | none =>
        obtain rfl := Except.ok.inj h
        exact List.forall_mem_nil _
      | some turn =>
        have hadvances := turn.advances
        obtain ⟨rest, hrest, rfl⟩ := map_eq_ok_iff.mp h
        exact List.forall_mem_append.mpr ⟨lexTurn_scanned hturn, lexFrom_scanned turn.next hrest⟩
  · obtain rfl := Except.ok.inj h
    exact List.forall_mem_nil _
termination_by byteLen src - pos
decreasing_by omega

theorem scanAlphabetic_kind {lexicon : Lexicon} {pos : Nat} {found : Found}
    (h : scanAlphabetic lexicon src pos = .ok found) : found.1 ≠ .Date := by
  obtain ⟨short, -, h⟩ := bind_eq_ok_iff.mp h
  cases short with
  | some short =>
    obtain rfl := Except.ok.inj h
    exact nofun
  | none =>
    dsimp only at h
    cases hmark : scanEnumMarkerLetter src pos with
    | some stop =>
      rw [hmark] at h
      obtain rfl := Except.ok.inj h
      exact nofun
    | none =>
      rw [hmark] at h
      obtain ⟨stop, -, h⟩ := bind_eq_ok_iff.mp h
      obtain ⟨run, -, h⟩ := bind_eq_ok_iff.mp h
      obtain rfl := Except.ok.inj h
      dsimp only
      split_ifs <;> exact nofun

/-- What a scan that starts at a digit finds: a date with a dot in it, a run of digits, or a
token of another kind. -/
theorem scanDigits_kind {tables : CharTables} {pos stop : Nat} {kind : TokenKind}
    {id : Option AbbrevId} (h : scanDigits tables src pos = .ok (kind, id, stop)) :
    (kind = .Date ∧ stop = pos + 10 ∧ (bytes src)[pos + 2]? = some 46) ∨
    (kind = .Word ∧ scanWhile src pos Char.isDigit = .ok stop) ∨
    (kind = .HierNum ∨ kind = .DocNo ∨ kind = .EnumMarker) := by
  unfold scanDigits at h
  cases hdate : scanDate src pos with
  | some dateEnd =>
    rw [hdate] at h
    obtain ⟨rfl, hrest⟩ := Prod.mk.inj (Except.ok.inj h)
    obtain ⟨-, rfl⟩ := Prod.mk.inj hrest
    simp only [scanDate] at hdate
    split_ifs at hdate with hlen hshape hday
    simp only [Bool.not_eq_true', Bool.not_eq_false, Bool.and_eq_true, decide_eq_true_eq] at hshape
    exact Or.inl ⟨rfl, (Option.some.inj hdate).symm, hshape.1.1.1.1.1.1.1.2⟩
  | none =>
    rw [hdate] at h
    dsimp only at h
    cases hhier : scanHierNum src pos with
    | some hierEnd =>
      rw [hhier] at h
      obtain ⟨rfl, -⟩ := Prod.mk.inj (Except.ok.inj h)
      exact Or.inr (Or.inr (Or.inl rfl))
    | none =>
      rw [hhier] at h
      obtain ⟨docNo, -, h⟩ := bind_eq_ok_iff.mp h
      cases docNo with
      | some docNoEnd =>
        obtain ⟨rfl, -⟩ := Prod.mk.inj (Except.ok.inj h)
        exact Or.inr (Or.inr (Or.inr (Or.inl rfl)))
      | none =>
        dsimp only at h
        cases hmark : scanEnumMarkerDigits src pos with
        | some markEnd =>
          rw [hmark] at h
          obtain ⟨rfl, -⟩ := Prod.mk.inj (Except.ok.inj h)
          exact Or.inr (Or.inr (Or.inr (Or.inr rfl)))
        | none =>
          rw [hmark] at h
          obtain ⟨runEnd, hrun, h⟩ := bind_eq_ok_iff.mp h
          obtain ⟨rfl, hrest⟩ := Prod.mk.inj (Except.ok.inj h)
          obtain ⟨-, rfl⟩ := Prod.mk.inj hrest
          exact Or.inr (Or.inl ⟨rfl, hrun⟩)

theorem lexeme_eq_ok {token : NpaToken} {lexeme : List Char}
    (h : token.lexeme src = .ok lexeme) : ∃ c more before after, lexeme = c :: more ∧
      src = before ++ (lexeme ++ after) ∧ byteLen before = token.span.start ∧
      token.span.stop = token.span.start + byteLen lexeme ∧
      sliceFrom src token.span.start = some (c :: (more ++ after)) := by
  have hslice : slice src token.span.start token.span.stop = some lexeme := by
    unfold NpaToken.lexeme at h
    cases hs : slice src token.span.start token.span.stop with
    | none =>
      rw [hs] at h
      exact nomatch h
    | some text =>
      rw [hs] at h
      exact congrArg some (Except.ok.inj h)
  obtain ⟨before, after, hsrc, hbefore, hstop⟩ := slice_eq_some_iff.mp hslice
  have hne := token.span.nonempty
  cases lexeme with
  | nil =>
    rw [byteLen_nil] at hstop
    omega
  | cons c more =>
    refine ⟨c, more, before, after, rfl, hsrc, hbefore, hstop.symm, ?_⟩
    rw [hsrc, ← hbefore]
    exact sliceFrom_append before (c :: (more ++ after))

/-- A date starts with a digit that is of no other class, and has a dot in it. -/
theorem Scanned.date_text {lexicon : Lexicon} {token : NpaToken} {lexeme : List Char}
    (h : Scanned lexicon src token) (hkind : token.kind = .Date)
    (htext : token.lexeme src = .ok lexeme) : ∃ c more, lexeme = c :: more ∧
      Texts.isWhitespace c = false ∧ lexicon.tables.isAlphabetic c = false ∧
      c.isDigit = true ∧ '.' ∈ lexeme := by
  obtain ⟨c, more, before, after, rfl, hsrc, hbefore, hstop, hslice⟩ := lexeme_eq_ok htext
  rcases h with ⟨c', rest, hslice', hscan⟩ | ⟨hpunct, -⟩ | hmark
  · obtain ⟨rfl, -⟩ := List.cons.inj (Option.some.inj (hslice.symm.trans hslice'))
    unfold scanToken at hscan
    split_ifs at hscan with hspace halpha hdigit
    · obtain ⟨stop, -, hscan⟩ := bind_eq_ok_iff.mp hscan
      exact absurd ((Prod.mk.inj (Except.ok.inj hscan)).1.trans hkind) (by decide)
    · exact absurd hkind (scanAlphabetic_kind hscan)
    · rcases scanDigits_kind hscan with ⟨-, hend, hdot⟩ | ⟨hword, -⟩ | hother
      · refine ⟨c, more, rfl, by simpa using hspace, by simpa using halpha, hdigit, ?_⟩
        by_contra hno
        rw [hsrc, ← hbefore, getElem?_bytes_append, bytes_append] at hdot
        have hlen : 2 < (bytes (c :: more)).length := by
          rw [length_bytes]
          omega
        rw [List.getElem?_append_left hlen] at hdot
        exact ascii_notMem_bytes (a := '.') rfl (by decide) hno (List.mem_of_getElem? hdot)
      · exact absurd (hword.symm.trans hkind) (by decide)
      · rw [hkind] at hother
        exact absurd hother (by decide)
    · obtain ⟨stop, -, hscan⟩ := bind_eq_ok_iff.mp hscan
      exact absurd ((Prod.mk.inj (Except.ok.inj hscan)).1.trans hkind) (by decide)
  · exact absurd (hpunct.symm.trans hkind) (by decide)
  · exact absurd (hmark.symm.trans hkind) (by decide)

/-- No filler and no abbreviation has the text of a date. -/
theorem Scanned.text_ne {lexicon : Lexicon} {token date : NpaToken} {lexeme : List Char}
    (h : Scanned lexicon src token) (hdate : Scanned lexicon src date)
    (hkind : date.kind = .Date) (hdateText : date.lexeme src = .ok lexeme)
    (htext : token.lexeme src = .ok lexeme) : token.kind ≠ .Space ∧ token.kind ≠ .Word ∧
      token.kind ≠ .Punct ∧ token.kind ≠ .Abbrev := by
  obtain ⟨c, more, rfl, hspace, halpha, hdigit, hdot⟩ := hdate.date_text hkind hdateText
  obtain ⟨c', more', before, after, heq, -, -, hstop, hslice⟩ := lexeme_eq_ok htext
  obtain ⟨rfl, rfl⟩ := List.cons.inj heq
  rcases h with ⟨c', rest, hslice', hscan⟩ | ⟨-, rest, hslice'⟩ | hmark
  · obtain ⟨rfl, rfl⟩ := List.cons.inj (Option.some.inj (hslice.symm.trans hslice'))
    rw [scanToken, if_neg (by simp [hspace]), if_neg (by simp [halpha]), if_pos hdigit] at hscan
    rcases scanDigits_kind hscan with ⟨hk, -⟩ | ⟨-, hrun⟩ | hk
    · simp [hk]
    · -- A run of digits has no dot in it.
      rw [scanWhile, hslice, orPanic_some, ok_bind] at hrun
      have hlen := Except.ok.inj hrun
      rw [hstop, Nat.add_left_cancel_iff] at hlen
      have hsplit := List.takeWhile_append_dropWhile (p := Char.isDigit)
        (l := c :: more ++ after)
      obtain ⟨hall, -⟩ := append_inj_of_byteLen hsplit hlen
      rw [← hall] at hdot
      exact absurd (List.mem_takeWhile_imp hdot) (by decide)
    · rcases hk with hk | hk | hk <;> simp [hk]
  · obtain ⟨rfl, -⟩ := List.cons.inj (Option.some.inj (hslice.symm.trans hslice'))
    exact absurd hdigit (by decide)
  · simp [hmark]

end LawNexus.Decode
