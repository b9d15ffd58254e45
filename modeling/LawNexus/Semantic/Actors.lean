import LawNexus.Semantic.Scope

/-!
# Actors from the start of a statement

The span that an actor has, and when the starts of the statements are the right ones.
-/

namespace LawNexus.Semantic

open Utf8 Ordinals Loops

variable {unicode : Unicode} {block : SourceBlock} {overlay : AnalysisOverlay}

/-- The index of the first token of a statement. -/
def firstOf (tokens : List Token) (statement : Nat) : Nat :=
  (tokens.map (·.statement)).idxOf statement

/-- The tokens from an index up to a cue are a participant, and the actor has their span. -/
structure Spans (text : List Char) (tokens : List Token) (cueStarts : List Nat) (first : Nat)
    (matched : CueMatch) (actor : SemanticClaim) : Prop where
  kind : actor.kind = .actor
  nonempty : first < matched.start
  short : matched.start - first ≤ maxParticipantTokens
  noCue : ∀ index, first ≤ index → index < matched.start → index ∉ cueStarts
  noSeparator : ∀ index, first < index → index < matched.start →
    gapHasClauseSeparator text (stopOf tokens (index - 1)) (startOf tokens index) = false
  start : actor.span.start = startOf tokens first
  stop : actor.span.stop = stopOf tokens (matched.start - 1)

/-- The actor of a cue has the span of all the tokens of the statement before the cue. -/
def FromStart (text : List Char) (tokens : List Token) (cueStarts : List Nat)
    (matched : CueMatch) (actor : SemanticClaim) : Prop :=
  Spans text tokens cueStarts (firstOf tokens (statementOf tokens matched.start)) matched actor

/-! ## One actor -/

theorem claim_eq_some {kind : SemanticClaimKind} {id : Nat} {span : TextSpan}
    {made : SemanticClaim} (h : claim kind id span = some made) :
    made.kind = kind ∧ made.block = id ∧ made.span = span := by
  unfold claim SemanticClaim.new at h
  split_ifs at h
  · rw [← Option.some.inj h]
    exact ⟨rfl, rfl, rfl⟩
  all_goals cases h

theorem tokenSpan_eq_some {tokens : List Token} {start stop : Nat} {span : TextSpan}
    (h : tokenSpan tokens start stop = some span) :
    span.start = startOf tokens start ∧ span.stop = stopOf tokens stop := by
  unfold tokenSpan at h
  obtain ⟨first, hfirst, h⟩ := Option.bind_eq_some_iff.mp h
  obtain ⟨last, hlast, h⟩ := Option.bind_eq_some_iff.mp h
  obtain ⟨hnew, -⟩ := Option.filter_eq_some_iff.mp h
  unfold TextSpan.new at hnew
  split_ifs at hnew
  rw [← Option.some.inj hnew, startOf, stopOf, hfirst, hlast]
  exact ⟨rfl, rfl⟩

theorem participantTokens_eq_some {text : List Char} {tokens : List Token} {starts : List Nat}
    {polarityStart : Nat} {cueStarts : List Nat} {first last : Nat}
    (h : participantTokens text tokens starts polarityStart cueStarts = some (first, last)) :
    polarityStart < tokens.length ∧ starts[statementOf tokens polarityStart]? = some first ∧
      first < polarityStart ∧ polarityStart - first ≤ maxParticipantTokens ∧
      ¬ Blocked text tokens cueStarts first polarityStart ∧ last = polarityStart - 1 := by
  unfold participantTokens at h
  obtain ⟨token, htoken, h⟩ := Option.bind_eq_some_iff.mp h
  obtain ⟨start, hstart, h⟩ := Option.bind_eq_some_iff.mp h
  dsimp only at h
  split_ifs at h with hbefore hlength hblocked
  cases Option.some.inj h
  rw [not_or, Nat.not_lt] at hlength
  rw [statementOf, htoken]
  exact ⟨(List.getElem?_eq_some_iff.mp htoken).1, hstart, by omega, hlength.2, hblocked, rfl⟩

/-- An actor has the tokens from the start of the statement that was collected. -/
theorem actorOf_spans {tokens : List Token} {cueStarts : List Nat} {matched : CueMatch}
    {actor : SemanticClaim} (h : actorOf block tokens cueStarts matched = some actor) :
    ∃ first, matched.start < tokens.length ∧
      (statementStarts tokens)[statementOf tokens matched.start]? = some first ∧
      Spans block.text tokens cueStarts first matched actor := by
  unfold actorOf at h
  obtain ⟨⟨first, last⟩, hrange, h⟩ := Option.bind_eq_some_iff.mp h
  obtain ⟨span, hspan, hclaim⟩ := Option.bind_eq_some_iff.mp h
  obtain ⟨hlt, hstart, hbefore, hshort, hblocked, rfl⟩ := participantTokens_eq_some hrange
  obtain ⟨hkind, -, rfl⟩ := claim_eq_some hclaim
  obtain ⟨hfrom, hto⟩ := tokenSpan_eq_some hspan
  have hclear : ∀ index, first ≤ index → index < matched.start → ¬ (index ∈ cueStarts ∨
      first < index ∧ gapHasClauseSeparator block.text (stopOf tokens (index - 1))
        (startOf tokens index)) := fun index hge hlt hbad =>
    hblocked ⟨index, List.mem_range'_1.mpr ⟨hge, by omega⟩, hbad⟩
  refine ⟨first, hlt, hstart, hkind, hbefore, hshort, fun index hge hlt hcue =>
    hclear index hge hlt (Or.inl hcue), fun index hgt hlt => ?_, hfrom, hto⟩
  exact Bool.eq_false_iff.mpr fun hgap => hclear index (Nat.le_of_lt hgt) hlt (Or.inr ⟨hgt, hgap⟩)

/-! ## The loop -/

theorem mem_actorsFrom {tokens : List Token} {cueStarts claimed : List Nat}
    {found : List CueMatch} {pair : CueMatch × SemanticClaim}
    (h : pair ∈ actorsFrom block tokens cueStarts claimed found) :
    pair.1 ∈ found ∧ pair.1.kind = .polarity ∧
      actorOf block tokens cueStarts pair.1 = some pair.2 := by
  induction found generalizing claimed with
  | nil => cases h
  | cons matched rest ih =>
    rw [actorsFrom] at h
    split_ifs at h with hskip
    · obtain ⟨hin, hrest⟩ := ih h
      exact ⟨List.mem_cons_of_mem _ hin, hrest⟩
    · rw [not_or, not_not] at hskip
      rcases List.mem_append.mp h with h | h
      · obtain ⟨actor, hactor, rfl⟩ := List.mem_map.mp h
        exact ⟨List.mem_cons_self, hskip.1, Option.mem_toList.mp hactor⟩
      · obtain ⟨hin, hrest⟩ := ih h
        exact ⟨List.mem_cons_of_mem _ hin, hrest⟩

theorem mem_mintedActors {pair : CueMatch × SemanticClaim}
    (h : pair ∈ mintedActors unicode block overlay) :
    pair.1 ∈ cueMatches unicode block.text (tokenize unicode block.text) ∧
      pair.1.kind = .polarity ∧ actorOf block (tokenize unicode block.text)
        ((cueMatches unicode block.text (tokenize unicode block.text)).map (·.start)) pair.1 =
          some pair.2 := by
  unfold mintedActors at h
  dsimp only at h
  split_ifs at h
  · exact mem_actorsFrom h
  · cases h

/-! ## The claims of an extraction -/

theorem TextSpan.pair_injective :
    Function.Injective fun span : TextSpan => toLex (span.start, span.stop) := by
  rintro ⟨a, b, _⟩ ⟨c, d, _⟩ h
  cases toLex_inj.mp h
  rfl

theorem SemanticClaimKind.rank_injective : Function.Injective SemanticClaimKind.rank := by
  intro a b h
  cases a <;> cases b <;> first | rfl | cases h

/-- The derived order tells claims apart. -/
theorem SemanticClaim.key_injective : Function.Injective SemanticClaim.key := by
  rintro ⟨kind, block, span, evidence, _, _, _⟩ ⟨kind', block', span', evidence', _, _, _⟩ h
  obtain ⟨hkind, h⟩ := Prod.mk.inj (toLex_inj.mp h)
  obtain ⟨hblock, h⟩ := Prod.mk.inj (toLex_inj.mp h)
  obtain ⟨hspan, hevidence⟩ := Prod.mk.inj (toLex_inj.mp h)
  cases SemanticClaimKind.rank_injective hkind
  cases hblock
  cases TextSpan.pair_injective hspan
  cases TextSpan.pair_injective.list_map hevidence
  rfl

/-- The kind of the best cue is one of the table, and no cue is an actor. -/
theorem kind_of_bestCue {text : List Char} {tokens : List Token} {start : Nat}
    {best : SemanticClaimKind × Nat} (h : best ∈ bestCue unicode text tokens start) :
    best.1 ≠ .actor := by
  have htable : ∀ cue ∈ cues, cue.1 ≠ .actor := by decide
  unfold bestCue at h
  have hnone : ∀ found ∈ (none : Option (SemanticClaimKind × Nat)), found.1 ≠ .actor :=
    fun _ h => by cases h
  generalize (none : Option (SemanticClaimKind × Nat)) = found at h hnone
  generalize cues = table at h htable
  induction table generalizing found with
  | nil => exact hnone best h
  | cons cue table ih =>
    rw [List.foldl_cons] at h
    refine ih _ ?_ h fun c hc => htable c (List.mem_cons_of_mem _ hc)
    cases cueAt unicode text tokens start cue with
    | none => exact hnone
    | some stop =>
      dsimp only
      split_ifs
      · intro next hnext
        rw [← Option.some.inj hnext]
        exact htable cue List.mem_cons_self
      · exact hnone

theorem kind_of_mem_cueMatches {text : List Char} {tokens : List Token} {matched : CueMatch}
    (h : matched ∈ cueMatches unicode text tokens) : matched.kind ≠ .actor := by
  obtain ⟨start, -, hmap⟩ := List.mem_filterMap.mp h
  obtain ⟨best, hbest, rfl⟩ := Option.map_eq_some_iff.mp hmap
  exact kind_of_bestCue hbest

/-- An actor of an extraction is one of a reference or one of a cue. -/
theorem actor_of_mem {thisRefs : List ThisRefEvidence} {maxClaims : Nat} {made : SemanticClaim}
    (h : made ∈ (extractSemanticClaims unicode block overlay thisRefs maxClaims).claims)
    (hkind : made.kind = .actor) :
    made ∈ thisRefActors block thisRefs ∨
      ∃ matched, (matched, made) ∈ mintedActors unicode block overlay := by
  have hmem := List.mem_of_mem_take h
  rw [mem_sortDedup SemanticClaim.key_injective, List.mem_append, List.mem_append] at hmem
  rcases hmem with (hmem | hmem) | hmem
  · obtain ⟨⟨matched, _⟩, hin, rfl⟩ := List.mem_map.mp hmem
    exact Or.inr ⟨matched, hin⟩
  · exact Or.inl hmem
  · obtain ⟨matched, hin, hclaim⟩ := List.mem_filterMap.mp hmem
    obtain ⟨span, -, hclaim⟩ := Option.bind_eq_some_iff.mp hclaim
    exact absurd ((claim_eq_some hclaim).1.symm.trans hkind) (kind_of_mem_cueMatches hin)

/-! ## The right starts -/

/-- The starts of the statements are the first tokens of them, and every actor of a cue goes from
the start of its statement to the cue. -/
def ActorsFromStart (unicode : Unicode) (block : SourceBlock) (overlay : AnalysisOverlay)
    (thisRefs : List ThisRefEvidence) (maxClaims : Nat) : Prop :=
  let tokens := tokenize unicode block.text
  let found := cueMatches unicode block.text tokens
  (∀ token ∈ tokens,
    (statementStarts tokens)[token.statement]? = some (firstOf tokens token.statement)) ∧
  (∀ pair ∈ mintedActors unicode block overlay,
    FromStart block.text tokens (found.map (·.start)) pair.1 pair.2) ∧
  ∀ made ∈ (extractSemanticClaims unicode block overlay thisRefs maxClaims).claims,
    made.kind = .actor → made ∈ thisRefActors block thisRefs ∨
      ∃ matched ∈ found, matched.kind = .polarity ∧
        FromStart block.text tokens (found.map (·.start)) matched made

theorem located_tokens_iff {tokens : List Token} :
    (∀ token ∈ tokens,
      (statementStarts tokens)[token.statement]? = some (firstOf tokens token.statement)) ↔
        Located (tokens.map (·.statement)) := by
  simp only [Located, List.forall_mem_map]
  rfl

/-- Where the starts are right, an actor of a cue is one from the start. -/
theorem fromStart_of_located
    (hlocated : Located ((tokenize unicode block.text).map (·.statement)))
    {pair : CueMatch × SemanticClaim} (h : pair ∈ mintedActors unicode block overlay) :
    FromStart block.text (tokenize unicode block.text)
      ((cueMatches unicode block.text (tokenize unicode block.text)).map (·.start)) pair.1
        pair.2 := by
  obtain ⟨-, -, hactor⟩ := mem_mintedActors h
  obtain ⟨first, hlt, hstart, hspans⟩ := actorOf_spans hactor
  have hright := located_tokens_iff.mpr hlocated _ (List.getElem_mem hlt)
  rw [statementOf, List.getElem?_eq_getElem hlt] at hstart
  have hfirst := Option.some.inj (hstart.symm.trans hright)
  unfold FromStart
  rw [statementOf, List.getElem?_eq_getElem hlt]
  exact hfirst ▸ hspans

/-- Actors go from the start of their statement if and only if no statement of the block is
empty. -/
theorem actors_from_start_iff (unicode : Unicode) (block : SourceBlock)
    (overlay : AnalysisOverlay) (thisRefs : List ThisRefEvidence) (maxClaims : Nat) :
    ActorsFromStart unicode block overlay thisRefs maxClaims ↔ Separated unicode block.text := by
  rw [← gapless_tokenize, ← statement_located_iff, ← located_tokens_iff]
  refine ⟨fun h => h.1, fun hstarts => ⟨hstarts, fun pair hpair =>
    fromStart_of_located (located_tokens_iff.mp hstarts) hpair, fun made hmade hkind => ?_⟩⟩
  rcases actor_of_mem hmade hkind with href | ⟨matched, hminted⟩
  · exact Or.inl href
  · obtain ⟨hin, hpolarity, -⟩ := mem_mintedActors hminted
    exact Or.inr ⟨matched, hin, hpolarity,
      fromStart_of_located (located_tokens_iff.mp hstarts) hminted⟩

namespace ActorsFromStart.Sample

/-! ### A full stop and a newline between two statements -/

def ascii : Unicode := ⟨Char.isAlphanum, fun c => [c.toLower]⟩

def twoLines : SourceBlock := ⟨0, "x.
y a b c d must".toList⟩

def act : AnalysisOverlay := ⟨[⟨0⟩]⟩

theorem suffix_minted : ¬ ActorsFromStart ascii twoLines act [] 8 := by
  rintro ⟨-, hminted, -⟩
  have hpairs : (mintedActors ascii twoLines act).map (fun pair =>
      (pair.1, pair.2.span.start, pair.2.span.stop)) = [(⟨.polarity, 6, 6⟩, 5, 12)] := by
    decide
  have hmem : ((⟨.polarity, 6, 6⟩, 5, 12) : CueMatch × Nat × Nat) ∈
      (mintedActors ascii twoLines act).map fun pair =>
        (pair.1, pair.2.span.start, pair.2.span.stop) := by
    rw [hpairs]
    exact List.mem_singleton_self _
  obtain ⟨⟨matched, actor⟩, hpair, heq⟩ := List.mem_map.mp hmem
  obtain ⟨rfl, -⟩ := Prod.mk.inj heq
  -- The statement starts with the token 1, and the actor is minted from the token 2 on.
  have hlength : 6 - firstOf (tokenize ascii twoLines.text)
      (statementOf (tokenize ascii twoLines.text) 6) = 5 := by decide
  exact absurd (hlength ▸ (hminted _ hpair).short) (by decide)

end ActorsFromStart.Sample

end LawNexus.Semantic
