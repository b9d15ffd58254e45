import LawNexus.Decode.Ancestors
import LawNexus.Decode.Leaves
import Mathlib.Data.Prod.Lex
import Mathlib.Order.WithBot

/-!
# The context worklist

`ContextWorklist` of `ln-decode`: typed requests answered from the index, the overlay and the
requisites of a document, with a memo that lives from run to run.
-/

namespace LawNexus.Decode

open Loops

/-! ## Environments -/

/-- An index as `build_document_structure_index` returns it. -/
structure BuiltIndex where
  index : DocumentStructureIndex
  built : ∃ decoder version blocks, buildDocumentStructureIndex decoder version blocks = .ok index

theorem BuiltIndex.ancestorPathIn_isSome (i : BuiltIndex) (block : BlockId) :
    (i.index.ancestorPathIn i.index.containers.length block).isSome := by
  obtain ⟨decoder, version, blocks, hbuilt⟩ := i.built
  cases hfound : i.index.sourceBlocks.find? (·.blockId = block) with
  | none => simp [DocumentStructureIndex.ancestorPathIn, hfound]
  | some node =>
    have hblock : node.blockId = block := by simpa using List.find?_some hfound
    obtain ⟨-, -, -, path, -, hpath⟩ :=
      ancestorPathIn_spec hbuilt (List.mem_of_find?_eq_some hfound)
    rw [← hblock, hpath _ le_rfl]
    rfl

/-- `ancestor_path`: as many turns as there are containers suffice. -/
def BuiltIndex.ancestorPath (i : BuiltIndex) (block : BlockId) :
    Except ContextStatus (List StructuralContainerNode) :=
  (i.index.ancestorPathIn i.index.containers.length block).get (i.ancestorPathIn_isSome block)

structure ContextEnvironment where
  index : BuiltIndex
  overlay : DocumentAnalysisOverlay
  requisites : Option CurrentDocumentRequisites

def ContextEnvironment.requisitesIdentity (env : ContextEnvironment) : Option String :=
  env.requisites.map (·.identityFingerprint)

/-! ## Requests -/

inductive ContextRequestKind where
  | ancestorPath
  | adjacentBlocks
  | openSeriesHead
  | scopedAlias
  | currentDocumentRequisites
  | explicitAnchorLookup
deriving DecidableEq, Repr

def ContextRequestKind.debug : ContextRequestKind → String
  | .ancestorPath => "AncestorPath"
  | .adjacentBlocks => "AdjacentBlocks"
  | .openSeriesHead => "OpenSeriesHead"
  | .scopedAlias => "ScopedAlias"
  | .currentDocumentRequisites => "CurrentDocumentRequisites"
  | .explicitAnchorLookup => "ExplicitAnchorLookup"

/-- The place in the declaration, by which the derived order compares. -/
def ContextRequestKind.rank : ContextRequestKind → Nat
  | .ancestorPath => 0
  | .adjacentBlocks => 1
  | .openSeriesHead => 2
  | .scopedAlias => 3
  | .currentDocumentRequisites => 4
  | .explicitAnchorLookup => 5

structure ContextRequest where
  kind : ContextRequestKind
  documentVersionRef : String
  originFrameRef : FrameRef
  requestedRolesOrFields : List String
  structuralScope : Option ContainerId
  explicitKey : Option String
  pathSoFar : List String
  budgetRemaining : Nat
  evidenceRequirement : String
  thisRefEvidence : Option ThisRefGrammarEvidence

structure MemoKey where
  documentVersionRef : String
  requestKind : ContextRequestKind
  originFrameRef : FrameRef
  explicitKey : Option String
  structuralScope : Option ContainerId
  authorizationEvidence : Option String
deriving DecidableEq, Repr

def ContextRequest.memoKey (r : ContextRequest) : MemoKey :=
  { documentVersionRef := r.documentVersionRef
    requestKind := r.kind
    originFrameRef := r.originFrameRef
    explicitKey := r.explicitKey
    structuralScope := r.structuralScope
    authorizationEvidence := r.thisRefEvidence.map (·.fingerprint) }

abbrev MemoRank :=
  String ×ₗ Nat ×ₗ String ×ₗ WithBot String ×ₗ WithBot String ×ₗ WithBot String

/-- The key as the derived order compares it: field by field, `None` first. -/
def MemoKey.sortKey (k : MemoKey) : MemoRank :=
  toLex (k.documentVersionRef, toLex (k.requestKind.rank, toLex (k.originFrameRef.asStr,
    toLex (k.explicitKey, toLex (k.structuralScope.map (·.asStr), k.authorizationEvidence)))))

def memoLabel (key : MemoKey) : String :=
  let base := key.requestKind.debug ++ ":" ++ key.originFrameRef.asStr ++ ":" ++
    key.explicitKey.getD ""
  match key.authorizationEvidence with
  | some fingerprint => base ++ ":evidence=" ++ fingerprint
  | none => base

/-! ## Results -/

structure ContextBudgets where
  adjacentRadius : Nat
  seriesHops : Nat
  claimsPerField : Nat
  worklistSteps : Nat
deriving DecidableEq, Repr

def maxLinkingPasses : Nat := 1

inductive DerivationRelation where
  | derivedFrom
  | supports
deriving DecidableEq, Repr

structure DerivationEdge where
  fromRef : String
  toRef : String
  relation : DerivationRelation
  evidence : TextSpan
  status : StructureEdgeStatus
deriving DecidableEq, Repr

structure ContextResult where
  requestRef : String
  status : ContextStatus
  candidateClaims : List ContextClaim
  sourceAnchors : List TextSpan
  derivationEdges : List DerivationEdge
  diagnostics : List ContextDiagnostic
deriving DecidableEq, Repr

def limitResult (key : MemoKey) : ContextResult :=
  ⟨memoLabel key, .limit, [], [], [], [.contextQueryLimitReached]⟩

def cycleOrLimitResult (key : MemoKey) (linkingLimit : Bool) : ContextResult :=
  ⟨memoLabel key, if linkingLimit then .limit else .cycle, [], [], [],
    [if linkingLimit then .contextQueryLimitReached else .unresolvedAfterDocumentPass]⟩

/-! ## Leaves -/

def StructuralContainerNode.candidate (node : StructuralContainerNode) : LeafCandidate :=
  ⟨node.containerId.asStr, node.headingAnchor.toList, []⟩

def ancestorPathLeaf (env : ContextEnvironment) (origin : FrameRef) : LeafOutcome :=
  match ContextId.parse "block id" origin.asStr with
  | none => .unavailable .missingDocumentStructure
  | some block =>
    match env.index.ancestorPath block with
    | .ok path => ⟨.resolved, path.map (·.candidate), []⟩
    | .error s => .unavailable
        (if s = .partialContext then .contextQueryLimitReached else .missingDocumentStructure)

def adjacentBlocksLeaf (env : ContextEnvironment) (radius : Nat) (origin : FrameRef) :
    LeafOutcome :=
  match ContextId.parse "block id" origin.asStr with
  | none => .unavailable .missingDocumentStructure
  | some block =>
    ⟨.resolved, (env.index.index.adjacentBlocks block radius).map fun node =>
      ⟨node.blockId.asStr, [node.localAnchor], []⟩, []⟩

def scopedAliasLeaf (env : ContextEnvironment) (r : ContextRequest) : LeafOutcome :=
  match r.structuralScope, r.explicitKey with
  | some scope, some key => scopedAlias env.overlay key scope
  | _, _ => .unavailable .unresolvedAfterDocumentPass

def explicitAnchorLeaf (env : ContextEnvironment) (r : ContextRequest) : LeafOutcome :=
  match r.explicitKey.bind (ContextId.parse "frame ref") with
  | some f => explicitAnchorLookup env.overlay f.asStr
  | none => .unavailable .unresolvedAfterDocumentPass

def leafOutcome (env : ContextEnvironment) (r : ContextRequest) (budgets : ContextBudgets) :
    LeafOutcome :=
  match r.kind with
  | .ancestorPath => ancestorPathLeaf env r.originFrameRef
  | .adjacentBlocks => adjacentBlocksLeaf env budgets.adjacentRadius r.originFrameRef
  | .openSeriesHead =>
    match ContextId.parse "frame ref" r.originFrameRef.asStr with
    | some f => openSeriesHead env.overlay f
    | none => .unavailable .unresolvedAfterDocumentPass
  | .scopedAlias => scopedAliasLeaf env r
  | .currentDocumentRequisites =>
    currentDocumentRequisites env.requisites (r.thisRefEvidence.getD .empty) r.originFrameRef
  | .explicitAnchorLookup => explicitAnchorLeaf env r

/-- `dispatch_leaf`: the outcome of the leaf with its claims sorted and cut to the budget. -/
def dispatchLeaf (env : ContextEnvironment) (r : ContextRequest) (budgets : ContextBudgets) :
    ContextResult :=
  let outcome := leafOutcome env r budgets
  let claims := sortBy (fun c : ContextClaim => toLex (c.field, c.sourceNodeRef))
    (outcome.candidates.flatMap (·.claims))
  let overflows := budgets.claimsPerField < claims.length
  { requestRef := memoLabel r.memoKey
    status := outcome.status
    candidateClaims := if overflows then claims.take budgets.claimsPerField else claims
    sourceAnchors := outcome.candidates.flatMap (·.evidence)
    derivationEdges := []
    diagnostics :=
      if overflows then outcome.diagnostics ++ [.contextQueryLimitReached]
      else outcome.diagnostics }

/-! ## Runs -/

structure ContextView where
  targetBlockId : Option BlockId
  targetLocalAnchor : Option TextSpan
  documentVersionRef : String
  currentDocumentRequisitesRef : Option String
  ancestorPath : List String
  adjacentBlocks : List String
  openSeriesFrames : List String
  scopedAliases : List String
  explicitAnchorHits : List String
  contextClaims : List ContextClaim
  sufficiency : ContextStatus
  diagnostics : List ContextDiagnostic
deriving DecidableEq, Repr

def viewFor (r : ContextRequest) (env : ContextEnvironment) (result : ContextResult) :
    ContextView :=
  { targetBlockId := ContextId.parse "block id" r.originFrameRef.asStr
    targetLocalAnchor := none
    documentVersionRef := env.index.index.version.documentVersionRef
    currentDocumentRequisitesRef := env.requisites.map (·.documentVersionRef)
    ancestorPath := []
    adjacentBlocks := []
    openSeriesFrames := result.candidateClaims.map (·.sourceNodeRef)
    scopedAliases := []
    explicitAnchorHits := []
    contextClaims := result.candidateClaims
    sufficiency := result.status
    diagnostics := result.diagnostics }

/-- A `BTreeMap` by its lookups. -/
abbrev ResultMap := MemoKey → Option ContextResult

def ResultMap.insert (m : ResultMap) (key : MemoKey) (result : ContextResult) : ResultMap :=
  Function.update m key (some result)

structure ContextRunStats where
  memoHits : Nat
  stepsUsed : Nat
  terminalDistribution : ContextStatus → Nat

structure ContextRunReport where
  results : ResultMap
  views : List ContextView
  stats : ContextRunStats

structure ContextWorklist where
  budgets : ContextBudgets
  memo : ResultMap
  requisitesIdentity : Option String

def ContextWorklist.new (budgets : ContextBudgets) : ContextWorklist :=
  ⟨budgets, fun _ => none, none⟩

/-- The path of the request goes through the request itself. -/
def ContextRequest.cyclic (r : ContextRequest) : Bool :=
  r.pathSoFar.any (· = memoLabel r.memoKey)

def ContextRequest.linkingLimit (r : ContextRequest) : Bool :=
  maxLinkingPasses < r.pathSoFar.length

/-- The path keeps the request from its leaf. -/
def ContextRequest.blocked (r : ContextRequest) (budgets : ContextBudgets) : Bool :=
  r.cyclic || budgets.seriesHops < r.pathSoFar.length || r.linkingLimit

/-- The memo and the report in the middle of a run. -/
structure RunState where
  memo : ResultMap
  report : ContextRunReport

def ContextRunStats.count (stats : ContextRunStats) (status : ContextStatus) : ContextRunStats :=
  { stats with
    terminalDistribution := Function.update stats.terminalDistribution status
      (stats.terminalDistribution status + 1) }

def RunState.record (state : RunState) (env : ContextEnvironment) (r : ContextRequest)
    (result : ContextResult) : RunState :=
  { memo := state.memo
    report :=
      { results := state.report.results.insert r.memoKey result
        views := state.report.views ++ [viewFor r env result]
        stats := state.report.stats.count result.status } }

def ContextRunStats.hit (stats : ContextRunStats) : ContextRunStats :=
  { stats with memoHits := stats.memoHits + 1 }

def ContextRunStats.step (stats : ContextRunStats) : ContextRunStats :=
  { stats with stepsUsed := stats.stepsUsed + 1 }

def RunState.countHit (state : RunState) : RunState :=
  { state with report := { state.report with stats := state.report.stats.hit } }

def RunState.dispatch (state : RunState) (key : MemoKey) (result : ContextResult) : RunState :=
  { memo := state.memo.insert key result
    report := { state.report with stats := state.report.stats.step } }

/-- One turn of the loop over the sorted requests. -/
def RunState.serve (env : ContextEnvironment) (budgets : ContextBudgets) (state : RunState)
    (r : ContextRequest) : RunState :=
  match state.memo r.memoKey with
  | some cached => state.countHit.record env r cached
  | none =>
    if budgets.worklistSteps ≤ state.report.stats.stepsUsed then
      state.record env r (limitResult r.memoKey)
    else if r.blocked budgets then
      state.record env r (cycleOrLimitResult r.memoKey r.linkingLimit)
    else
      let result := dispatchLeaf env r budgets
      (state.dispatch r.memoKey result).record env r result

def RunState.start (memo : ResultMap) : RunState :=
  ⟨memo, ⟨fun _ => none, [], ⟨0, 0, fun _ => 0⟩⟩⟩

/-- The memo that a run starts with: a change of the requisites empties it. -/
def ContextWorklist.enter (w : ContextWorklist) (env : ContextEnvironment) : ResultMap :=
  if w.requisitesIdentity ≠ env.requisitesIdentity then fun _ => none else w.memo

def sortRequests (requests : List ContextRequest) : List ContextRequest :=
  sortBy (·.memoKey.sortKey) requests

def ContextWorklist.run (w : ContextWorklist) (env : ContextEnvironment)
    (requests : List ContextRequest) : ContextRunReport × ContextWorklist :=
  let state := (sortRequests requests).foldl (RunState.serve env w.budgets)
    (.start (w.enter env))
  (state.report, ⟨w.budgets, state.memo, env.requisitesIdentity⟩)

end LawNexus.Decode
