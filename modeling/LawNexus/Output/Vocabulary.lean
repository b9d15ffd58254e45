import LawNexus.Ids

/-!
# Retrieval output

The vocabulary of `retrieval_output` of `ln-query`: bounded tokens, the envelope, diagnostics and
outcomes.
-/

namespace LawNexus.Output

def VALIDATOR_CONTRACT_VERSION : String := "retrieval-output-validator/rust-v1"

def MAX_TOKEN_LEN : Nat := 128

/-! ## Bounded tokens -/

def isTokenChar (c : Char) : Bool :=
  isIdChar c || c == '/' || c == '[' || c == ']' || c == '<' || c == '>'

def parseDiagnosticToken (kind value : String) : Except IdError String :=
  if value.isEmpty then .error ⟨kind, "empty"⟩
  else if value.utf8ByteSize > MAX_TOKEN_LEN then .error ⟨kind, "too long"⟩
  else if !value.toList.all isTokenChar then .error ⟨kind, "unsupported character"⟩
  else .ok value

theorem parseDiagnosticToken_ok {kind value token : String}
    (h : parseDiagnosticToken kind value = .ok token) : token = value := by
  unfold parseDiagnosticToken at h
  split_ifs at h
  exact (Except.ok.inj h).symm

/-- A newtype of the `output_id_type!` macro, named by its kind. -/
structure OutputId (kind : String) where
  asStr : String
  accepted : parseId kind asStr MAX_TOKEN_LEN = .ok asStr
deriving DecidableEq, Repr

abbrev RetrievalOutputId := OutputId "retrieval output id"
abbrev CitationKey := OutputId "citation key"
abbrev EvidenceSpanId := OutputId "evidence span id"
abbrev SourceBlockId := OutputId "source block id"
abbrev SourceDocumentId := OutputId "source document id"
abbrev LegalUnitId := OutputId "legal unit id"
abbrev ActEditionId := OutputId "act edition id"
abbrev AnswerClaimId := OutputId "answer claim id"
abbrev LegalActId := OutputId "legal act id"
abbrev OutputScopeId := OutputId "output scope id"
abbrev RetrievalRunId := OutputId "retrieval run id"
abbrev SourceCorpusId := OutputId "source corpus id"
abbrev ScopeAsOfDate := OutputId "scope as-of date"
abbrev QueryId := CheckedId "query id"

def RetrievalOutputId.NAMESPACE_PREFIX : Option String := some "RET-"
def CitationKey.NAMESPACE_PREFIX : Option String := some "CIT-"
def EvidenceSpanId.NAMESPACE_PREFIX : Option String := some "EV-"
def SourceBlockId.NAMESPACE_PREFIX : Option String := some "SB-"
def SourceDocumentId.NAMESPACE_PREFIX : Option String := some "SD-"
def LegalUnitId.NAMESPACE_PREFIX : Option String := some "LU-"
def ActEditionId.NAMESPACE_PREFIX : Option String := some "ED-"
def AnswerClaimId.NAMESPACE_PREFIX : Option String := some "AC-"
def OutputScopeId.NAMESPACE_PREFIX : Option String := some "SCOPE-"
def RetrievalRunId.NAMESPACE_PREFIX : Option String := some "RUN-"
def SourceCorpusId.NAMESPACE_PREFIX : Option String := some "CORPUS-"

structure ValidatorContractVersion where
  asStr : String
  accepted : parseDiagnosticToken "validator contract version" asStr = .ok asStr
deriving DecidableEq, Repr

structure BoundedToken where
  asStr : String
  accepted : parseDiagnosticToken "diagnostic token" asStr = .ok asStr
deriving DecidableEq, Repr

namespace BoundedToken

def parse (value : String) : Except IdError BoundedToken :=
  match h : parseDiagnosticToken "diagnostic token" value with
  | .error e => .error e
  | .ok token => .ok ⟨token, parseDiagnosticToken_ok h ▸ h⟩

def missing : BoundedToken := ⟨"<missing>", rfl⟩

end BoundedToken

def boundedToken (value : String) : BoundedToken :=
  match BoundedToken.parse value with
  | .ok token => token
  | .error _ => .missing

/-! ## The shape of a field -/

inductive FieldShape (α : Type) where
  | value (value : α)
  | explicitNull
  | missing
  | wrongShape
deriving DecidableEq, Repr

namespace FieldShape

variable {α : Type}

def value? : FieldShape α → Option α
  | .value v => some v
  | _ => none

def isMissing : FieldShape α → Bool
  | missing => true
  | _ => false

def isExplicitNull : FieldShape α → Bool
  | explicitNull => true
  | _ => false

def isWrongShape : FieldShape α → Bool
  | wrongShape => true
  | _ => false

def isAbsentOrNull : FieldShape α → Bool
  | missing => true
  | explicitNull => true
  | _ => false

theorem value?_eq_some {shape : FieldShape α} {v : α} :
    shape.value? = some v ↔ shape = .value v := by
  cases shape <;> simp [value?]

/-- A field that no rule on its shape rejects. -/
theorem exists_value {shape : FieldShape α} (hshape : shape.isWrongShape = false)
    (habsent : shape.isAbsentOrNull = false) : ∃ v, shape = .value v := by
  cases shape with
  | value v => exact ⟨v, rfl⟩
  | explicitNull => cases habsent
  | missing => cases habsent
  | wrongShape => cases hshape

end FieldShape

/-! ## Closed enumerations -/

inductive OutputKind where
  | retrievalCandidate
  | answerClaim
  | scopedNoAnswer
deriving DecidableEq, Repr

inductive OutputVerdict where
  | accepted
  | acceptedScopedNoAnswer
  | rejected
deriving DecidableEq, Repr

inductive DiagnosticSeverity where
  | error
  | warning
  | info
deriving DecidableEq, Repr

inductive OutputDiagnosticCode where
  | malformedOutputShape
  | missingRequiredField
  | unknownIdNamespace
  | unresolvedCitationKey
  | ambiguousCitationKey
  | unresolvedEvidenceSpan
  | orphanedSourcePath
  | orphanedLegalUnitPath
  | idPathMismatch
  | supersededEvidence
  | wrongEdition
  | answerClaimWithoutEvidence
  | citationWithoutEvidence
  | unsafeNoAnswerShape
  | forbiddenPayloadField
  | scopedNoAnswer
deriving DecidableEq, Repr

namespace OutputDiagnosticCode

def severity : OutputDiagnosticCode → DiagnosticSeverity
  | scopedNoAnswer => .info
  | _ => .error

def verdict : OutputDiagnosticCode → OutputVerdict
  | scopedNoAnswer => .acceptedScopedNoAnswer
  | _ => .rejected

end OutputDiagnosticCode

inductive ClaimKind where
  | normReference
  | status
  | deadline
  | condition
deriving DecidableEq, Repr

/-! ## Diagnostics and outcomes -/

/-- The severity and the verdict are those of the code. -/
structure OutputDiagnostic where
  code : OutputDiagnosticCode
  fieldPath : BoundedToken
  retrievalOutputId : BoundedToken := .missing
  scopeId : BoundedToken := .missing
  safeIdValue : Option BoundedToken := none
  expectedId : Option BoundedToken := none
  resolvedId : Option BoundedToken := none
deriving DecidableEq, Repr

namespace OutputDiagnostic

def severity (diagnostic : OutputDiagnostic) : DiagnosticSeverity := diagnostic.code.severity

def verdict (diagnostic : OutputDiagnostic) : OutputVerdict := diagnostic.code.verdict

def withSafeIdValue (diagnostic : OutputDiagnostic) (value : BoundedToken) : OutputDiagnostic :=
  { diagnostic with safeIdValue := some value }

def withExpectedId (diagnostic : OutputDiagnostic) (value : BoundedToken) : OutputDiagnostic :=
  { diagnostic with expectedId := some value }

def withResolvedId (diagnostic : OutputDiagnostic) (value : BoundedToken) : OutputDiagnostic :=
  { diagnostic with resolvedId := some value }

end OutputDiagnostic

structure ValidationOutcome where
  verdict : OutputVerdict
  diagnostics : List OutputDiagnostic
deriving DecidableEq, Repr

structure OutcomeInvariantViolation where
  verdict : OutputVerdict
  reason : String
deriving DecidableEq, Repr

def ValidationOutcome.checked (verdict : OutputVerdict) (diagnostics : List OutputDiagnostic) :
    Except OutcomeInvariantViolation ValidationOutcome :=
  let hasError := diagnostics.any fun d => d.severity = .error
  match verdict with
  | .rejected =>
    if !hasError then .error ⟨verdict, "rejected outcome requires an error diagnostic"⟩
    else .ok ⟨verdict, diagnostics⟩
  | .accepted | .acceptedScopedNoAnswer =>
    if hasError then .error ⟨verdict, "accepted outcome must not carry error diagnostics"⟩
    else .ok ⟨verdict, diagnostics⟩

/-! ## The envelope -/

inductive ScopeField where
  | scopeId
  | queryId
  | retrievalRunId
  | asOfDate
  | sourceCorpusId
  | validatorContractVersion
deriving DecidableEq, Repr

def ScopeField.fieldPath : ScopeField → String
  | scopeId => "scope.scope_id"
  | queryId => "scope.query_id"
  | retrievalRunId => "scope.retrieval_run_id"
  | asOfDate => "scope.as_of_date"
  | sourceCorpusId => "scope.source_corpus_id"
  | validatorContractVersion => "scope.validator_contract_version"

structure OutputScope where
  scopeId : OutputScopeId
  queryId : QueryId
  retrievalRunId : RetrievalRunId
  asOfDate : ScopeAsOfDate
  sourceCorpusId : SourceCorpusId
  validatorContractVersion : ValidatorContractVersion
deriving DecidableEq, Repr

inductive ScopeShape where
  | complete (scope : OutputScope)
  | incompleteField (field : ScopeField)
  | wrongShape
  | missing
  | explicitNull
deriving DecidableEq, Repr

structure CitationBinding where
  retrievalOutputId : FieldShape RetrievalOutputId
  citationKey : FieldShape CitationKey
  evidenceSpanId : FieldShape EvidenceSpanId
  sourceBlockId : FieldShape SourceBlockId
  sourceDocumentId : FieldShape SourceDocumentId
  legalUnitId : FieldShape LegalUnitId
  actEditionId : FieldShape ActEditionId
  answerClaimId : FieldShape AnswerClaimId
deriving DecidableEq, Repr

structure AnswerClaim where
  answerClaimId : FieldShape AnswerClaimId
  retrievalOutputId : FieldShape RetrievalOutputId
  claimKind : FieldShape ClaimKind
  scopeId : FieldShape OutputScopeId
  supportedCitationKeys : FieldShape (List CitationKey)
deriving DecidableEq, Repr

structure RetrievalOutputEnvelope where
  retrievalOutputId : FieldShape RetrievalOutputId
  outputKind : FieldShape OutputKind
  scope : ScopeShape
  citations : FieldShape (List CitationBinding)
  answerClaims : FieldShape (List AnswerClaim)
  extraFieldNames : List BoundedToken
deriving DecidableEq, Repr

end LawNexus.Output
