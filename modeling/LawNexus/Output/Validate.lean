import LawNexus.Output.Vocabulary

/-!
# Validate Retrieval Output

The fourteen rules of the validator, in order: the first one that fails rejects.
-/

namespace LawNexus.Output

/-! ## The resolution port -/

inductive CitationKeyResolution where
  | unique (evidenceSpanId : EvidenceSpanId)
  | ambiguous
  | unresolved
deriving DecidableEq, Repr

inductive EvidenceSpanStatus where
  | active
  | superseded
  | orphaned
deriving DecidableEq, Repr

structure EvidenceSpanRecord where
  sourceBlockId : SourceBlockId
  sourceDocumentId : SourceDocumentId
  legalUnitId : LegalUnitId
  actEditionId : ActEditionId
  status : EvidenceSpanStatus
deriving DecidableEq, Repr

structure SourceBlockRecord where
  sourceDocumentId : SourceDocumentId
deriving DecidableEq, Repr

structure SourceDocumentRecord where
  sourceCorpusId : SourceCorpusId
deriving DecidableEq, Repr

structure LegalUnitRecord where
  actEditionId : ActEditionId
  legalActId : LegalActId
deriving DecidableEq, Repr

structure ActEditionRecord where
  legalActId : LegalActId
  validFrom : String
  validTo : Option String
deriving DecidableEq, Repr

structure OutputIdResolutionPort where
  resolveCitationKey : OutputScopeId → CitationKey → CitationKeyResolution
  resolveEvidenceSpan : EvidenceSpanId → Option EvidenceSpanRecord
  resolveSourceBlock : SourceBlockId → Option SourceBlockRecord
  resolveSourceDocument : SourceDocumentId → Option SourceDocumentRecord
  resolveLegalUnit : LegalUnitId → Option LegalUnitRecord
  resolveActEdition : ActEditionId → Option ActEditionRecord
  resolveValidEdition : LegalUnitId → ScopeAsOfDate → Option ActEditionId
  isSuperseded : EvidenceSpanId → ScopeAsOfDate → Bool

/-! ## Diagnostics -/

structure DiagnosticContext where
  retrievalOutputId : BoundedToken
  scopeId : BoundedToken

/-- The token of an id that may be absent. -/
def tokenOf {kind : String} (id : Option (OutputId kind)) : BoundedToken :=
  match id with
  | some id => boundedToken id.asStr
  | none => .missing

def DiagnosticContext.fromEnvelope (envelope : RetrievalOutputEnvelope) : DiagnosticContext where
  retrievalOutputId := tokenOf envelope.retrievalOutputId.value?
  scopeId :=
    match envelope.scope with
    | .complete scope => boundedToken scope.scopeId.asStr
    | _ => .missing

def diagnostic (ctx : DiagnosticContext) (code : OutputDiagnosticCode) (fieldPath : String) :
    OutputDiagnostic where
  code
  fieldPath := boundedToken fieldPath
  retrievalOutputId := ctx.retrievalOutputId
  scopeId := ctx.scopeId

def citationPath (index : Nat) (name : String) : String := s!"citations[{index}].{name}"

def claimPath (index : Nat) (name : String) : String := s!"answer_claims[{index}].{name}"

def reject (diagnostic : OutputDiagnostic) : Except OutcomeInvariantViolation ValidationOutcome :=
  ValidationOutcome.checked .rejected [diagnostic]

def accept : Except OutcomeInvariantViolation ValidationOutcome :=
  ValidationOutcome.checked .accepted []

def acceptScopedNoAnswer (diagnostic : OutputDiagnostic) :
    Except OutcomeInvariantViolation ValidationOutcome :=
  ValidationOutcome.checked .acceptedScopedNoAnswer [diagnostic]

def valueOrEmpty {α : Type} (shape : FieldShape (List α)) : List α := shape.value?.getD []

/-! ## Rules 1 to 4 -/

section

variable (ctx : DiagnosticContext)

/-- The first field of a list of checks that fails. -/
def firstFailing (code : OutputDiagnosticCode) (path : String → String)
    (checks : List (Bool × String)) : Option OutputDiagnostic :=
  checks.findSome? fun check => if check.1 then some (diagnostic ctx code (path check.2)) else none

/-- A check of every item of a list, with its index. -/
def firstItem {α : Type} (items : List α) (check : Nat → α → Option OutputDiagnostic) :
    Option OutputDiagnostic :=
  items.zipIdx.findSome? fun item => check item.2 item.1

def CitationBinding.wrongShapes (citation : CitationBinding) : List (Bool × String) :=
  [(citation.retrievalOutputId.isWrongShape, "retrieval_output_id"),
    (citation.citationKey.isWrongShape, "citation_key"),
    (citation.evidenceSpanId.isWrongShape, "evidence_span_id"),
    (citation.sourceBlockId.isWrongShape, "source_block_id"),
    (citation.sourceDocumentId.isWrongShape, "source_document_id"),
    (citation.legalUnitId.isWrongShape, "legal_unit_id"),
    (citation.actEditionId.isWrongShape, "act_edition_id"),
    (citation.answerClaimId.isWrongShape, "answer_claim_id")]

def AnswerClaim.wrongShapes (claim : AnswerClaim) : List (Bool × String) :=
  [(claim.answerClaimId.isWrongShape, "answer_claim_id"),
    (claim.retrievalOutputId.isWrongShape, "retrieval_output_id"),
    (claim.claimKind.isWrongShape, "claim_kind"),
    (claim.scopeId.isWrongShape, "scope_id"),
    (claim.supportedCitationKeys.isWrongShape, "supported_citation_keys")]

variable (envelope : RetrievalOutputEnvelope)

def checkShape : Option OutputDiagnostic :=
  let code := .malformedOutputShape
  firstFailing ctx code id
      [(envelope.retrievalOutputId.isWrongShape, "retrieval_output_id"),
        (envelope.outputKind.isWrongShape, "output_kind"),
        (envelope.scope = .wrongShape, "scope"),
        (envelope.citations.isWrongShape, "citations"),
        (envelope.answerClaims.isWrongShape, "answer_claims")]
    <|> firstItem (valueOrEmpty envelope.citations)
      (fun index citation => firstFailing ctx code (citationPath index) citation.wrongShapes)
    <|> firstItem (valueOrEmpty envelope.answerClaims)
      (fun index claim => firstFailing ctx code (claimPath index) claim.wrongShapes)

def CitationBinding.missingFields (citation : CitationBinding) : List (Bool × String) :=
  [(citation.retrievalOutputId.isAbsentOrNull, "retrieval_output_id"),
    (citation.citationKey.isAbsentOrNull, "citation_key"),
    (citation.evidenceSpanId.isMissing, "evidence_span_id"),
    (citation.sourceBlockId.isAbsentOrNull, "source_block_id"),
    (citation.sourceDocumentId.isAbsentOrNull, "source_document_id"),
    (citation.legalUnitId.isAbsentOrNull, "legal_unit_id"),
    (citation.actEditionId.isAbsentOrNull, "act_edition_id")]

def AnswerClaim.missingFields (claim : AnswerClaim) : List (Bool × String) :=
  [(claim.answerClaimId.isAbsentOrNull, "answer_claim_id"),
    (claim.retrievalOutputId.isAbsentOrNull, "retrieval_output_id"),
    (claim.claimKind.isAbsentOrNull, "claim_kind"),
    (claim.scopeId.isAbsentOrNull, "scope_id"),
    (claim.supportedCitationKeys.isMissing, "supported_citation_keys")]

def ScopeShape.missingField : ScopeShape → Option String
  | missing | explicitNull => some "scope"
  | incompleteField field => some field.fieldPath
  | complete _ | wrongShape => none

def checkMissingRequired : Option OutputDiagnostic :=
  let code := .missingRequiredField
  firstFailing ctx code id
      [(envelope.retrievalOutputId.isAbsentOrNull, "retrieval_output_id"),
        (envelope.outputKind.isAbsentOrNull, "output_kind")]
    <|> envelope.scope.missingField.map (diagnostic ctx code)
    <|> firstFailing ctx code id [(envelope.citations.isAbsentOrNull, "citations")]
    <|> firstItem (valueOrEmpty envelope.citations)
      (fun index citation => firstFailing ctx code (citationPath index) citation.missingFields)
    <|> firstItem (valueOrEmpty envelope.answerClaims)
      (fun index claim => firstFailing ctx code (claimPath index) claim.missingFields)

def FORBIDDEN_PAYLOAD_FIELD_NAMES : List String :=
  ["raw_legal_text", "raw_source_excerpt", "prompt", "user_prompt", "provider_payload",
    "provider_body", "vector", "embedding", "falkordb_row", "runtime_row", "secret", "credential"]

def normalize (c : Char) : Char := if c = '-' then '_' else c.toLower

def isForbiddenPayloadField (name : String) : Bool :=
  FORBIDDEN_PAYLOAD_FIELD_NAMES.any fun candidate =>
    candidate.toList.map normalize = name.toList.map normalize

def checkForbiddenPayload : Option OutputDiagnostic :=
  envelope.extraFieldNames.findSome? fun name =>
    if isForbiddenPayloadField name.asStr then
      some ((diagnostic ctx .forbiddenPayloadField name.asStr).withSafeIdValue name)
    else none

def checkNamespace (fieldPath token : String) (expected : Option String) :
    Option OutputDiagnostic :=
  match expected with
  | none => none
  | some expected =>
    if expected.toList.isPrefixOf token.toList then none
    else some ((diagnostic ctx .unknownIdNamespace fieldPath).withSafeIdValue (boundedToken token))

/-- The check of a field that has a value. -/
def checkNamespaceShape {kind : String} (fieldPath : String) (shape : FieldShape (OutputId kind))
    (expected : Option String) : Option OutputDiagnostic :=
  match shape.value? with
  | some value => checkNamespace ctx fieldPath value.asStr expected
  | none => none

def checkScopeNamespaces : Option OutputDiagnostic :=
  match envelope.scope with
  | .complete scope =>
    checkNamespace ctx "scope.scope_id" scope.scopeId.asStr OutputScopeId.NAMESPACE_PREFIX
      <|> checkNamespace ctx "scope.retrieval_run_id" scope.retrievalRunId.asStr
        RetrievalRunId.NAMESPACE_PREFIX
      <|> checkNamespace ctx "scope.source_corpus_id" scope.sourceCorpusId.asStr
        SourceCorpusId.NAMESPACE_PREFIX
  | _ => none

def checkCitationNamespaces (index : Nat) (citation : CitationBinding) : Option OutputDiagnostic :=
  let path := citationPath index
  checkNamespaceShape ctx (path "citation_key") citation.citationKey CitationKey.NAMESPACE_PREFIX
    <|> checkNamespaceShape ctx (path "evidence_span_id") citation.evidenceSpanId
      EvidenceSpanId.NAMESPACE_PREFIX
    <|> checkNamespaceShape ctx (path "source_block_id") citation.sourceBlockId
      SourceBlockId.NAMESPACE_PREFIX
    <|> checkNamespaceShape ctx (path "source_document_id") citation.sourceDocumentId
      SourceDocumentId.NAMESPACE_PREFIX
    <|> checkNamespaceShape ctx (path "legal_unit_id") citation.legalUnitId
      LegalUnitId.NAMESPACE_PREFIX
    <|> checkNamespaceShape ctx (path "act_edition_id") citation.actEditionId
      ActEditionId.NAMESPACE_PREFIX

def checkClaimNamespaces (index : Nat) (claim : AnswerClaim) : Option OutputDiagnostic :=
  checkNamespaceShape ctx (claimPath index "answer_claim_id") claim.answerClaimId
    AnswerClaimId.NAMESPACE_PREFIX

def checkNamespaces : Option OutputDiagnostic :=
  checkNamespaceShape ctx "retrieval_output_id" envelope.retrievalOutputId
      RetrievalOutputId.NAMESPACE_PREFIX
    <|> checkScopeNamespaces ctx envelope
    <|> firstItem (valueOrEmpty envelope.citations) (checkCitationNamespaces ctx)
    <|> firstItem (valueOrEmpty envelope.answerClaims) (checkClaimNamespaces ctx)

end

/-! ## Rules 5 to 10 -/

section

variable (ctx : DiagnosticContext) (resolver : OutputIdResolutionPort) (index : Nat)
  (citation : CitationBinding)

/-- Rule 5. The span that the key resolves to is not looked at. -/
def checkCitationKey (scope : OutputScope) : Option OutputDiagnostic :=
  match citation.citationKey.value? with
  | none => none
  | some citationKey =>
    let failed code := (diagnostic ctx code (citationPath index "citation_key")).withSafeIdValue
      (boundedToken citationKey.asStr)
    match resolver.resolveCitationKey scope.scopeId citationKey with
    | .unresolved => some (failed .unresolvedCitationKey)
    | .ambiguous => some (failed .ambiguousCitationKey)
    | .unique _ => none

/-- An id of the citation that is not the one of the record. -/
def checkPathId {kind : String} (name : String) (shape : FieldShape (OutputId kind))
    (expected : OutputId kind) : Option OutputDiagnostic :=
  if shape.value? ≠ some expected then
    some (((diagnostic ctx .idPathMismatch (citationPath index name)).withExpectedId
      (boundedToken expected.asStr)).withResolvedId (tokenOf shape.value?))
  else none

def checkParent (envelope : RetrievalOutputEnvelope) : Option OutputDiagnostic :=
  match citation.retrievalOutputId.value?, envelope.retrievalOutputId.value? with
  | some explicit, some parent =>
    if explicit ≠ parent then
      some (((diagnostic ctx .idPathMismatch
        (citationPath index "retrieval_output_id")).withExpectedId
        (boundedToken parent.asStr)).withResolvedId (boundedToken explicit.asStr))
    else none
  | _, _ => none

/-- Rule 8, behind the parent. -/
def checkSourcePath (record : EvidenceSpanRecord) : Option OutputDiagnostic :=
  checkPathId ctx index "source_block_id" citation.sourceBlockId record.sourceBlockId
  <|> match resolver.resolveSourceBlock record.sourceBlockId with
    | none =>
      some ((diagnostic ctx .orphanedSourcePath
        (citationPath index "source_block_id")).withSafeIdValue
        (boundedToken record.sourceBlockId.asStr))
    | some block =>
      let reachedDocument := block.sourceDocumentId
      let path := citationPath index "source_document_id"
      if resolver.resolveSourceDocument reachedDocument = none then
        some (((diagnostic ctx .orphanedSourcePath path).withSafeIdValue
          (boundedToken record.sourceBlockId.asStr)).withResolvedId
          (boundedToken reachedDocument.asStr))
      else if record.sourceDocumentId ≠ reachedDocument then
        some (((diagnostic ctx .idPathMismatch path).withExpectedId
          (boundedToken reachedDocument.asStr)).withResolvedId
          (boundedToken record.sourceDocumentId.asStr))
      else
        checkPathId ctx index "source_document_id" citation.sourceDocumentId reachedDocument

/-- Rule 10, for the unit of rule 9. -/
def checkEdition (scope : OutputScope) (record : EvidenceSpanRecord)
    (legalUnit : LegalUnitRecord) : Option OutputDiagnostic :=
  let path := citationPath index "act_edition_id"
  match resolver.resolveValidEdition record.legalUnitId scope.asOfDate with
  | none =>
    some ((diagnostic ctx .wrongEdition path).withSafeIdValue
      (boundedToken record.actEditionId.asStr))
  | some validEdition =>
    if citation.actEditionId.value? ≠ some validEdition then
      some (((diagnostic ctx .wrongEdition path).withSafeIdValue
        (tokenOf citation.actEditionId.value?)).withExpectedId (boundedToken validEdition.asStr))
    else if record.actEditionId ≠ validEdition then
      some (((diagnostic ctx .wrongEdition path).withSafeIdValue
        (boundedToken record.actEditionId.asStr)).withExpectedId (boundedToken validEdition.asStr))
    else
      match resolver.resolveActEdition validEdition with
      | some edition =>
        if edition.legalActId ≠ legalUnit.legalActId then
          some (((diagnostic ctx .idPathMismatch path).withExpectedId
            (boundedToken legalUnit.legalActId.asStr)).withResolvedId
            (boundedToken edition.legalActId.asStr))
        else none
      | none =>
        some ((diagnostic ctx .orphanedLegalUnitPath path).withSafeIdValue
          (boundedToken validEdition.asStr))

/-- Rules 9 and 10. -/
def checkLegalPath (scope : OutputScope) (record : EvidenceSpanRecord) : Option OutputDiagnostic :=
  checkPathId ctx index "legal_unit_id" citation.legalUnitId record.legalUnitId
  <|> match resolver.resolveLegalUnit record.legalUnitId with
    | none =>
      some ((diagnostic ctx .orphanedLegalUnitPath
        (citationPath index "legal_unit_id")).withSafeIdValue
        (boundedToken record.legalUnitId.asStr))
    | some legalUnit => checkEdition ctx resolver index citation scope record legalUnit

/-- Rules 6 to 10, of a citation with a span. -/
def checkEvidence (envelope : RetrievalOutputEnvelope) (scope : OutputScope) :
    Option OutputDiagnostic :=
  match citation.evidenceSpanId.value? with
  | none => none
  | some evidenceSpanId =>
    let failed code := (diagnostic ctx code (citationPath index "evidence_span_id")).withSafeIdValue
      (boundedToken evidenceSpanId.asStr)
    match resolver.resolveEvidenceSpan evidenceSpanId with
    | none => some (failed .unresolvedEvidenceSpan)
    | some record =>
      if resolver.isSuperseded evidenceSpanId scope.asOfDate then some (failed .supersededEvidence)
      else
        checkParent ctx index citation envelope
        <|> checkSourcePath ctx resolver index citation record
        <|> checkLegalPath ctx resolver index citation scope record

def checkCitation (envelope : RetrievalOutputEnvelope) : Option OutputDiagnostic :=
  match envelope.scope with
  | .complete scope =>
    checkCitationKey ctx resolver index citation scope
      <|> checkEvidence ctx resolver index citation envelope scope
  | _ => none

end

/-! ## Rules 11 to 14 -/

section

variable (ctx : DiagnosticContext)

def availableKeys (citations : List CitationBinding) : List CitationKey :=
  citations.filterMap fun citation => citation.citationKey.value?

def checkAnswerClaim (availableKeys : List CitationKey) (index : Nat) (claim : AnswerClaim) :
    Option OutputDiagnostic :=
  let failed := diagnostic ctx .answerClaimWithoutEvidence
    (claimPath index "supported_citation_keys")
  match claim.supportedCitationKeys.value? with
  | none => some failed
  | some supported =>
    if supported.isEmpty || supported.any (fun key => !availableKeys.contains key) then some failed
    else none

def checkAnswerClaims (envelope : RetrievalOutputEnvelope) (citations : List CitationBinding) :
    Option OutputDiagnostic :=
  firstItem (valueOrEmpty envelope.answerClaims) (checkAnswerClaim ctx (availableKeys citations))

def checkCitationWithoutEvidence (citations : List CitationBinding) : Option OutputDiagnostic :=
  firstItem citations fun index citation =>
    firstFailing ctx .citationWithoutEvidence (citationPath index)
      [(citation.evidenceSpanId.isExplicitNull, "evidence_span_id")]

end

/-! ## The validator -/

/-- Rules 1 to 12. -/
def firstDiagnostic (ctx : DiagnosticContext) (envelope : RetrievalOutputEnvelope)
    (resolver : OutputIdResolutionPort) : Option OutputDiagnostic :=
  let citations := valueOrEmpty envelope.citations
  checkShape ctx envelope
    <|> checkMissingRequired ctx envelope
    <|> checkForbiddenPayload ctx envelope
    <|> checkNamespaces ctx envelope
    <|> firstItem citations
      (fun index citation => checkCitation ctx resolver index citation envelope)
    <|> checkAnswerClaims ctx envelope citations
    <|> checkCitationWithoutEvidence ctx citations

def validateRetrievalOutput (envelope : RetrievalOutputEnvelope)
    (resolver : OutputIdResolutionPort) : Except OutcomeInvariantViolation ValidationOutcome :=
  let ctx := DiagnosticContext.fromEnvelope envelope
  match firstDiagnostic ctx envelope resolver with
  | some diagnostic => reject diagnostic
  | none =>
    if envelope.outputKind.value? = some .scopedNoAnswer then
      if !(valueOrEmpty envelope.citations).isEmpty ||
          !(valueOrEmpty envelope.answerClaims).isEmpty then
        reject (diagnostic ctx .unsafeNoAnswerShape "citations")
      else acceptScopedNoAnswer (diagnostic ctx .scopedNoAnswer "citations")
    else accept

end LawNexus.Output
