import LawNexus.Output.Fixture
import LawNexus.Output.Verdict

/-!
# What an accepted output has resolved

Rule 5 drops the span that a key resolves to, and no rule reads the version of the contract.
-/

namespace LawNexus.Output

variable {resolver : OutputIdResolutionPort} {envelope : RetrievalOutputEnvelope}

/-- Every id of the citation is one that its key, its span and the envelope lead to. -/
def CitationBinding.Resolved (resolver : OutputIdResolutionPort)
    (envelope : RetrievalOutputEnvelope) (scope : OutputScope) (citation : CitationBinding) :
    Prop :=
  ∃ id key span record, envelope.retrievalOutputId = .value id ∧
    citation.retrievalOutputId = .value id ∧ citation.citationKey = .value key ∧
    resolver.resolveCitationKey scope.scopeId key = .unique span ∧
    citation.evidenceSpanId = .value span ∧ resolver.resolveEvidenceSpan span = some record ∧
    resolver.isSuperseded span scope.asOfDate = false ∧ SourcePath resolver citation record ∧
    LegalPath resolver scope citation record

/-- What the contract says of an accepted output. -/
def FullyResolved (resolver : OutputIdResolutionPort) (envelope : RetrievalOutputEnvelope) :
    Prop :=
  ∃ scope citations, envelope.scope = .complete scope ∧
    scope.validatorContractVersion.asStr = VALIDATOR_CONTRACT_VERSION ∧
    envelope.citations = .value citations ∧
    (∀ citation ∈ citations, citation.Resolved resolver envelope scope) ∧
    ∀ claim ∈ valueOrEmpty envelope.answerClaims, ∃ supported,
      claim.supportedCitationKeys = .value supported ∧ supported ≠ [] ∧
      ∀ key ∈ supported, ∃ citation ∈ citations, citation.citationKey = .value key ∧
        citation.Resolved resolver envelope scope

/-- The scope is of this contract, and no key of a citation is bound to the span of another. -/
def OwnSpans (resolver : OutputIdResolutionPort) (envelope : RetrievalOutputEnvelope) : Prop :=
  ∀ scope, envelope.scope = .complete scope →
    scope.validatorContractVersion.asStr = VALIDATOR_CONTRACT_VERSION ∧
    ∀ citation ∈ valueOrEmpty envelope.citations, ∀ key own span,
      citation.citationKey = .value key → citation.evidenceSpanId = .value own →
        resolver.resolveCitationKey scope.scopeId key = .unique span → span = own

/-- A citation that no rule rejects. -/
structure CitationBinding.Checked (resolver : OutputIdResolutionPort)
    (envelope : RetrievalOutputEnvelope) (scope : OutputScope) (citation : CitationBinding) :
    Prop where
  parent : ∃ id, citation.retrievalOutputId = .value id
  key : ∃ key span, citation.citationKey = .value key ∧
    resolver.resolveCitationKey scope.scopeId key = .unique span
  evidence : ∃ span, citation.evidenceSpanId = .value span ∧
    Reaches resolver envelope scope citation span

/-- An envelope that no rule rejects. -/
structure Checked (resolver : OutputIdResolutionPort) (envelope : RetrievalOutputEnvelope)
    (scope : OutputScope) (citations : List CitationBinding) : Prop where
  output : ∃ id, envelope.retrievalOutputId = .value id
  complete : envelope.scope = .complete scope
  value : envelope.citations = .value citations
  each : ∀ citation ∈ citations, citation.Checked resolver envelope scope
  supported : Supported citations (valueOrEmpty envelope.answerClaims)

theorem ScopeShape.exists_complete {shape : ScopeShape} (hshape : shape ≠ .wrongShape)
    (hmissing : shape.missingField = none) : ∃ scope, shape = .complete scope := by
  cases shape with
  | complete scope => exact ⟨scope, rfl⟩
  | wrongShape => exact absurd rfl hshape
  | incompleteField field => cases hmissing
  | missing => cases hmissing
  | explicitNull => cases hmissing

section

variable {ctx : DiagnosticContext} {scope : OutputScope} {citation : CitationBinding}
  {citations : List CitationBinding}

/-- The shape of the span is left to three rules. -/
theorem checked_of_none (hscope : envelope.scope = .complete scope)
    (hshapes : ∀ check ∈ citation.wrongShapes, check.1 = false)
    (hfields : ∀ check ∈ citation.missingFields, check.1 = false)
    (hnull : citation.evidenceSpanId.isExplicitNull = false) {index : Nat}
    (hcitation : checkCitation ctx resolver index citation envelope = none) :
    citation.Checked resolver envelope scope := by
  simp only [CitationBinding.wrongShapes, CitationBinding.missingFields,
    List.forall_mem_cons] at hshapes hfields
  obtain ⟨houtputShape, hkeyShape, hspanShape, -⟩ := hshapes
  obtain ⟨houtputField, hkeyField, hspanField, -⟩ := hfields
  obtain ⟨hkeys, hspans⟩ := (checkCitation_none hscope).mp hcitation
  obtain ⟨key, hkey⟩ := FieldShape.exists_value hkeyShape hkeyField
  obtain ⟨span, hspan⟩ : ∃ span, citation.evidenceSpanId = .value span := by
    refine FieldShape.exists_value hspanShape ?_
    cases hshape : citation.evidenceSpanId with
    | value span => rfl
    | wrongShape => rfl
    | missing => rwa [hshape] at hspanField
    | explicitNull => rwa [hshape] at hnull
  constructor
  case parent => exact FieldShape.exists_value houtputShape houtputField
  case key =>
    obtain ⟨bound, hbound⟩ := hkeys key (FieldShape.value?_eq_some.mpr hkey)
    exact ⟨key, bound, hkey, hbound⟩
  case evidence => exact ⟨span, hspan, hspans span (FieldShape.value?_eq_some.mpr hspan)⟩

theorem exists_checked (h : firstDiagnostic ctx envelope resolver = none) :
    ∃ scope citations, Checked resolver envelope scope citations := by
  unfold firstDiagnostic checkShape checkMissingRequired checkCitationWithoutEvidence at h
  simp only [orElse_none] at h
  obtain ⟨⟨hshape, hshapes, -⟩, ⟨hfirst, hscopeField, hfield, hfields, -⟩, -, -, hcitations,
    hclaims, hevidence⟩ := h
  simp only [firstFailing_none, List.forall_mem_cons] at hshape hfirst hfield
  obtain ⟨houtputShape, -, hscopeShape, hcitationsShape, -⟩ := hshape
  obtain ⟨houtputField, -⟩ := hfirst
  obtain ⟨citations, hvalue⟩ := FieldShape.exists_value hcitationsShape hfield.1
  obtain ⟨scope, hscope⟩ := ScopeShape.exists_complete (of_decide_eq_false hscopeShape)
    (Option.map_eq_none_iff.mp hscopeField)
  have hlist : valueOrEmpty envelope.citations = citations := by rw [hvalue]; rfl
  rw [hlist] at hshapes hfields hcitations hclaims hevidence
  rw [firstItem_none unindexed_firstFailing] at hshapes hfields hevidence
  rw [firstItem_none unindexed_checkCitation] at hcitations
  refine ⟨scope, citations, ?_, hscope, hvalue, ?_, checkAnswerClaims_none.mp hclaims⟩
  · exact FieldShape.exists_value houtputShape houtputField
  · intro citation hcitation
    exact checked_of_none hscope (firstFailing_none.mp (hshapes citation hcitation))
      (firstFailing_none.mp (hfields citation hcitation))
      (firstFailing_none.mp (hevidence citation hcitation) _ List.mem_cons_self)
      (hcitations citation hcitation)

/-- A checked citation is resolved if and only if its key is bound to its own span. -/
theorem CitationBinding.Checked.resolved_iff (h : citation.Checked resolver envelope scope)
    (houtput : ∃ id, envelope.retrievalOutputId = .value id) :
    citation.Resolved resolver envelope scope ↔ ∀ key own span,
      citation.citationKey = .value key → citation.evidenceSpanId = .value own →
        resolver.resolveCitationKey scope.scopeId key = .unique span → span = own := by
  constructor
  · rintro ⟨-, key, span, -, -, -, hkey, hbound, hspan, -⟩ key' own span' hkey' hown hbound'
    rw [hkey] at hkey'
    rw [hspan] at hown
    cases hkey'
    cases hown
    rw [hbound] at hbound'
    cases hbound'
    rfl
  · intro hown
    obtain ⟨id, hid⟩ := houtput
    obtain ⟨explicit, hexplicit⟩ := h.parent
    obtain ⟨key, bound, hkey, hbound⟩ := h.key
    obtain ⟨span, hspan, record, hrecord, hactive, hparent, hsource, hlegal⟩ := h.evidence
    obtain rfl : explicit = id := hparent explicit (FieldShape.value?_eq_some.mpr hexplicit) id
      (FieldShape.value?_eq_some.mpr hid)
    obtain rfl := hown key span bound hkey hspan hbound
    exact ⟨explicit, key, bound, record, hid, hexplicit, hkey, hbound, hspan, hrecord, hactive,
      hsource, hlegal⟩

theorem Checked.fullyResolved_iff (h : Checked resolver envelope scope citations) :
    FullyResolved resolver envelope ↔ OwnSpans resolver envelope := by
  have hlist : valueOrEmpty envelope.citations = citations := by rw [h.value]; rfl
  constructor
  · rintro ⟨scope', citations', hscope', hversion, hcitations', hresolved, -⟩ scope'' hscope''
    obtain rfl := ScopeShape.complete.inj (hscope'.symm.trans hscope'')
    obtain rfl := ScopeShape.complete.inj (hscope'.symm.trans h.complete)
    obtain rfl := FieldShape.value.inj (hcitations'.symm.trans h.value)
    refine ⟨hversion, fun citation hcitation => ?_⟩
    rw [hlist] at hcitation
    exact ((h.each citation hcitation).resolved_iff h.output).mp (hresolved citation hcitation)
  · intro hown
    obtain ⟨hversion, hbound⟩ := hown scope h.complete
    rw [hlist] at hbound
    have hresolved : ∀ citation ∈ citations, citation.Resolved resolver envelope scope :=
      fun citation hcitation =>
        ((h.each citation hcitation).resolved_iff h.output).mpr (hbound citation hcitation)
    refine ⟨scope, citations, h.complete, hversion, h.value, hresolved, ?_⟩
    intro claim hclaim
    obtain ⟨supported, hsupported, hne, hkeys⟩ := h.supported claim hclaim
    refine ⟨supported, hsupported, hne, fun key hkey => ?_⟩
    obtain ⟨citation, hcitation, hcarried⟩ := hkeys key hkey
    exact ⟨citation, hcitation, hcarried, hresolved citation hcitation⟩

end

/-- The order of citations and claims is nothing to any verdict, and an accepted output is fully
resolved if and only if every citation has the span of its key and the scope has the version. -/
theorem accepted_resolved (resolver : OutputIdResolutionPort)
    (envelope : RetrievalOutputEnvelope) :
    (∀ envelope', Reordered envelope envelope' → ∃ outcome outcome',
      validateRetrievalOutput envelope resolver = .ok outcome ∧
      validateRetrievalOutput envelope' resolver = .ok outcome' ∧
      outcome'.verdict = outcome.verdict) ∧
    (∀ outcome, validateRetrievalOutput envelope resolver = .ok outcome →
      outcome.verdict = .accepted →
      (FullyResolved resolver envelope ↔ OwnSpans resolver envelope)) := by
  obtain ⟨diagnostics, hvalidate⟩ := validateRetrievalOutput_verdict envelope resolver
  constructor
  · intro envelope' h
    obtain ⟨diagnostics', hvalidate'⟩ := validateRetrievalOutput_verdict envelope' resolver
    exact ⟨_, _, hvalidate, hvalidate', verdict_reordered h⟩
  · intro outcome houtcome haccepted
    rw [hvalidate] at houtcome
    obtain rfl := Except.ok.inj houtcome
    change verdict resolver envelope = .accepted at haccepted
    unfold verdict at haccepted
    split_ifs at haccepted with hfirst
    obtain ⟨scope, citations, hchecked⟩ := exists_checked hfirst
    exact hchecked.fullyResolved_iff

namespace Sample

/-! ### A key for the span of another citation -/

open FixtureGraphResolver

def scopeOf (version : ValidatorContractVersion) : OutputScope where
  scopeId := scope44
  queryId := ⟨"Q-M012-VALID-001", rfl⟩
  retrievalRunId := ⟨"RUN-M012-001", rfl⟩
  asOfDate := ⟨"2024-01-01", rfl⟩
  sourceCorpusId := corpus
  validatorContractVersion := version

def version : ValidatorContractVersion := ⟨VALIDATOR_CONTRACT_VERSION, rfl⟩

def outputId : RetrievalOutputId := ⟨"RET-M012-VALID-001", rfl⟩

def citationOf (key : CitationKey) (span : EvidenceSpanId) (block : SourceBlockId)
    (document : SourceDocumentId) : CitationBinding where
  retrievalOutputId := .value outputId
  citationKey := .value key
  evidenceSpanId := .value span
  sourceBlockId := .value block
  sourceDocumentId := .value document
  legalUnitId := .value art001
  actEditionId := .value edition2024
  answerClaimId := .missing

def envelopeOf (version : ValidatorContractVersion) (citation : CitationBinding) :
    RetrievalOutputEnvelope where
  retrievalOutputId := .value outputId
  outputKind := .value .retrievalCandidate
  scope := .complete (scopeOf version)
  citations := .value [citation]
  answerClaims := .value []
  extraFieldNames := []

def valid : RetrievalOutputEnvelope :=
  envelopeOf version (citationOf key001 span001 block001 consultant)

/-- The key is bound to the first span, and the citation is of the second one. -/
def crossed : RetrievalOutputEnvelope :=
  envelopeOf version (citationOf key001 span002 block002 garant)

def outdated : RetrievalOutputEnvelope :=
  envelopeOf ⟨"retrieval-output-validator/rust-v0", rfl⟩
    (citationOf key001 span001 block001 consultant)

theorem foreign_span_accepted :
    (∀ envelope ∈ [crossed, outdated],
      validateRetrievalOutput envelope m012.port = .ok ⟨.accepted, []⟩) ∧
    ¬ FullyResolved m012.port crossed ∧ ¬ FullyResolved m012.port outdated := by
  refine ⟨by decide, ?_, ?_⟩
  · rintro ⟨scope, citations, hscope, -, hcitations, hresolved, -⟩
    cases hscope
    cases hcitations
    obtain ⟨-, key, span, -, -, -, hkey, hbound, hspan, -⟩ := hresolved _ List.mem_cons_self
    cases hkey
    cases hspan
    exact absurd hbound (by decide)
  · rintro ⟨scope, citations, hscope, hversion, -⟩
    cases hscope
    exact absurd hversion (by decide)

theorem valid_resolved : FullyResolved m012.port valid := by
  refine ((accepted_resolved m012.port valid).2 ⟨.accepted, []⟩ (by decide) rfl).mpr ?_
  rintro scope ⟨⟩
  refine ⟨rfl, fun citation hcitation key own span hkey hown hbound => ?_⟩
  obtain rfl := List.mem_singleton.mp hcitation
  cases hkey
  cases hown
  have hspan : m012.port.resolveCitationKey scope44 key001 = .unique span001 := by decide
  exact (CitationKeyResolution.unique.inj (hspan.symm.trans hbound)).symm

end Sample

end LawNexus.Output
