import LawNexus.Decode.Overlay
import LawNexus.Decode.Requisites

/-!
# The leaf operators of the context layer

What the operators of `ln-decode` read off an overlay for one request.
-/

namespace LawNexus.Decode

inductive DerivationSource where
  | explicitMember
  | sameSeriesHead
  | priorFrame
  | authorizedCurrentDocumentRequisites
deriving DecidableEq, Repr

inductive ContextClaimStatus where
  | explicit
  | inherited
  | conflicting
  | unresolved
deriving DecidableEq, Repr

structure ContextClaim where
  field : String
  derivation : DerivationSource
  sourceNodeRef : String
  claimStatus : ContextClaimStatus
deriving DecidableEq, Repr

inductive ContextDiagnostic where
  | missingDocumentStructure
  | missingCurrentRequisites
  | openSeriesWithoutHead
  | incompatibleSeriesHead
  | crossBlockContinuationAmbiguous
  | scopedAliasAmbiguous
  | inheritedFieldConflict
  | contextQueryLimitReached
  | unresolvedAfterDocumentPass
deriving DecidableEq, Repr

structure LeafCandidate where
  nodeRef : String
  evidence : List TextSpan
  claims : List ContextClaim
deriving DecidableEq, Repr

structure LeafOutcome where
  status : ContextStatus
  candidates : List LeafCandidate
  diagnostics : List ContextDiagnostic
deriving DecidableEq, Repr

def LeafOutcome.unavailable (diagnostic : ContextDiagnostic) : LeafOutcome :=
  ⟨.unavailable, [], [diagnostic]⟩

def LeafOutcome.partialOutcome (diagnostic : ContextDiagnostic) : LeafOutcome :=
  ⟨.partialContext, [], [diagnostic]⟩

/-! ## The head of a series -/

def ContextualEdge.headCandidate (e : ContextualEdge) : LeafCandidate := ⟨e.fromRef, e.evidence, []⟩

/-- The edges that `open_series_head` reads. -/
def DocumentAnalysisOverlay.headsOf (overlay : DocumentAnalysisOverlay) (frameRef : FrameRef) :
    List ContextualEdge :=
  overlay.edges.filter fun e =>
    (e.relation = .continuesSeries && e.toRef = frameRef.asStr) && e.status ≠ .rejected

def openSeriesHead (overlay : DocumentAnalysisOverlay) (frameRef : FrameRef) : LeafOutcome :=
  let candidates := overlay.headsOf frameRef
  if candidates.isEmpty then .partialOutcome .openSeriesWithoutHead
  else if candidates.any (·.status = .conflicting) then
    ⟨.conflicting, candidates.map (·.headCandidate), [.incompatibleSeriesHead]⟩
  else
    match candidates with
    | [edge] => ⟨.resolved, [edge.headCandidate], []⟩
    | _ => .partialOutcome .openSeriesWithoutHead

/-! ## Aliases, anchors and requisites -/

def DeclaredAliasNode.candidate (a : DeclaredAliasNode) : LeafCandidate :=
  ⟨a.targetMentionRef.asStr, [a.declarationAnchor], []⟩

def scopedAlias (overlay : DocumentAnalysisOverlay) (aliasKey : String) (scope : ContainerId) :
    LeafOutcome :=
  match overlay.aliases.filter fun a => a.wording = aliasKey && a.scopeContainerId = scope with
  | [] => .unavailable .unresolvedAfterDocumentPass
  | [a] => ⟨.resolved, [a.candidate], []⟩
  | _ => .partialOutcome .scopedAliasAmbiguous

def explicitAnchorLookup (overlay : DocumentAnalysisOverlay) (explicitKey : String) :
    LeafOutcome :=
  let candidates := overlay.frames.filter (·.frameRef.asStr = explicitKey)
  if candidates.isEmpty then .unavailable .unresolvedAfterDocumentPass
  else ⟨.resolved, candidates.map fun f => ⟨f.frameRef.asStr, [f.localAnchor], []⟩, []⟩

def currentDocumentRequisites (requisites : Option CurrentDocumentRequisites)
    (evidence : ThisRefGrammarEvidence) (origin : FrameRef) : LeafOutcome :=
  match requisites with
  | none => .unavailable .missingCurrentRequisites
  | some sidecar =>
    if sidecar.authorizeThisDocumentReference evidence then
      { status := .resolved
        candidates :=
          [{ nodeRef := origin.asStr
             evidence := []
             claims :=
              [{ field := "current_document_requisites"
                 derivation := .authorizedCurrentDocumentRequisites
                 sourceNodeRef := origin.asStr
                 claimStatus := .inherited }] }]
        diagnostics := [] }
    else .partialOutcome .inheritedFieldConflict

end LawNexus.Decode
