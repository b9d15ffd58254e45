import LawNexus.Decode.LawRef
import LawNexus.Decode.Structure

/-!
# The analysis overlay of a document

`build_document_analysis_overlay` of `ln-decode`: the frames and mentions of the blocks under
generated refs, and the series edges from the heads to the frames that continue them.
-/

namespace LawNexus.Decode

/-! ## Frames of the local grammar -/

inductive FrameKind where
  | actRequisites
  | structuralDesignation
deriving DecidableEq, Repr

inductive FrameStatus where
  | proposed
  | ambiguous
  | rejected
deriving DecidableEq, Repr

structure CoordinatingFrame where
  frameKind : FrameKind
  localAnchor : TextSpan
  headRoles : List String
  continuation : Bool
  status : FrameStatus
deriving DecidableEq, Repr

structure StructuralDesignationFrame where
  localAnchor : TextSpan
  status : FrameStatus
deriving DecidableEq, Repr

/-! ## Nodes and edges -/

abbrev AliasId := ContextId "alias id"

structure DeclaredAliasNode where
  aliasId : AliasId
  wording : String
  targetMentionRef : MentionRef
  declarationAnchor : TextSpan
  scopeContainerId : ContainerId
  status : StructureEdgeStatus
deriving DecidableEq, Repr

structure LocalGrammarFrameNode where
  frameRef : FrameRef
  blockId : BlockId
  frameKind : FrameKind
  localAnchor : TextSpan
  status : FrameStatus
deriving DecidableEq, Repr

structure LiteralMentionNode where
  mentionRef : MentionRef
  blockId : BlockId
  localAnchor : TextSpan
  writtenText : String
  explicitSlots : List String
  status : StructureEdgeStatus
deriving DecidableEq, Repr

inductive ContextualEdgeKind where
  | opensSeries
  | continuesSeries
  | closesSeries
  | declaresAlias
  | aliasInScope
  | suppliesRequisites
  | ownsDesignation
deriving DecidableEq, Repr

inductive ConfidenceClass where
  | explicitEvidence
  | derivedPath
deriving DecidableEq, Repr

structure ContextualEdge where
  fromRef : String
  toRef : String
  relation : ContextualEdgeKind
  evidence : List TextSpan
  confidenceClass : ConfidenceClass
  status : StructureEdgeStatus
deriving DecidableEq, Repr

structure DocumentAnalysisOverlay where
  version : DocumentVersionRef
  aliases : List DeclaredAliasNode
  frames : List LocalGrammarFrameNode
  mentions : List LiteralMentionNode
  edges : List ContextualEdge
deriving DecidableEq, Repr

inductive OverlayBuildError where
  | unknownBlock
  | missingScope
  | invalidCaptureSpan
deriving DecidableEq, Repr

/-- A build ends in an error of its own, or the turns do not suffice for an ancestor path. -/
inductive OverlayFailure where
  | unfinished
  | failed (e : OverlayBuildError)
deriving DecidableEq, Repr

def orFailed {α : Type} (e : OverlayBuildError) : Option α → Except OverlayFailure α
  | some a => .ok a
  | none => .error (.failed e)

/-! ## Eligible heads -/

structure ContinuationEligibility where
  headStatusProposed : Bool
  tailStatusNotRejected : Bool
  distinctFrames : Bool
  distinctBlocks : Bool
  headAdmitsActType : Bool
  headOrderBeforeTail : Bool
  sameScope : Bool
  headRetainsDerivation : Bool
  tailRetainsDerivation : Bool
deriving DecidableEq, Repr

def eligibleContinuationHeadFor (e : ContinuationEligibility) : Bool :=
  e.headStatusProposed && e.tailStatusNotRejected && e.distinctFrames && e.distinctBlocks &&
    e.headAdmitsActType && e.headOrderBeforeTail && e.sameScope && e.headRetainsDerivation &&
    e.tailRetainsDerivation

/-- An act frame as the eligibility of a head reads it. -/
structure ActFrameRecord where
  frameRef : FrameRef
  blockId : BlockId
  order : Nat
  scopeId : ContainerId
  localAnchor : TextSpan
  status : FrameStatus
  admitsActType : Bool
deriving DecidableEq, Repr

def ActFrameRecord.retainsLocalDerivation (r : ActFrameRecord) : Bool :=
  r.localAnchor.start < r.localAnchor.stop

def ActFrameRecord.eligibleContinuationHeadFor (head tail : ActFrameRecord) : Bool :=
  Decode.eligibleContinuationHeadFor
    { headStatusProposed := head.status = .proposed
      tailStatusNotRejected := tail.status ≠ .rejected
      distinctFrames := head.frameRef ≠ tail.frameRef
      distinctBlocks := head.blockId ≠ tail.blockId
      headAdmitsActType := head.admitsActType
      headOrderBeforeTail := head.order < tail.order
      sameScope := head.scopeId = tail.scopeId
      headRetainsDerivation := head.retainsLocalDerivation
      tailRetainsDerivation := tail.retainsLocalDerivation }

/-! ## The frames of a block -/

def frameName (block : BlockId) (n : Nat) : String := block.asStr ++ "-frame-" ++ Nat.repr n

def designationName (block : BlockId) (n : Nat) : String :=
  block.asStr ++ "-designation-" ++ Nat.repr n

def mentionName (block : BlockId) (n : Nat) : String := block.asStr ++ "-mention-" ++ Nat.repr n

/-- What one frame adds to the overlay. -/
structure PlacedFrame where
  node : LocalGrammarFrameNode
  edge : ContextualEdge
  record : Option ActFrameRecord
deriving DecidableEq, Repr

/-- One turn of the loop over the coordinating frames of a block. -/
def placeFrame (source : SourceBlockNode) (scopeId : ContainerId) (block : BlockId)
    (entry : CoordinatingFrame × Nat) : Except OverlayFailure PlacedFrame := do
  let (frame, n) := entry
  let frameRef ← orFailed .invalidCaptureSpan (ContextId.parse "frame ref" (frameName block n))
  .ok
    { node := ⟨frameRef, block, frame.frameKind, frame.localAnchor, frame.status⟩
      edge :=
        { fromRef := frameRef.asStr
          toRef := block.asStr
          relation := if frame.continuation then .continuesSeries else .opensSeries
          evidence := [frame.localAnchor]
          confidenceClass := .explicitEvidence
          status := if frame.status = .ambiguous then .conflicting else .proposed }
      record :=
        if frame.frameKind = .actRequisites then
          some
            { frameRef
              blockId := block
              order := source.order
              scopeId
              localAnchor := frame.localAnchor
              status := frame.status
              admitsActType := !frame.headRoles.isEmpty }
        else none }

/-- One turn of the loop over the designations of a block. -/
def placeDesignation (scopeId : ContainerId) (block : BlockId)
    (entry : StructuralDesignationFrame × Nat) : Except OverlayFailure PlacedFrame := do
  let (frame, n) := entry
  let frameRef ← orFailed .invalidCaptureSpan
    (ContextId.parse "frame ref" (designationName block n))
  .ok
    { node := ⟨frameRef, block, .structuralDesignation, frame.localAnchor, frame.status⟩
      edge :=
        { fromRef := frameRef.asStr
          toRef := scopeId.asStr
          relation := .ownsDesignation
          evidence := [frame.localAnchor]
          confidenceClass := .derivedPath
          status := .proposed }
      record := none }

/-- The first container of the ancestor path, within a number of turns of its loop. -/
def ownerScope (turns : Nat) (index : DocumentStructureIndex) (block : BlockId) :
    Except OverlayFailure ContainerId :=
  match index.ancestorPathIn turns block with
  | none => .error .unfinished
  | some (.error _) => .error (.failed .missingScope)
  | some (.ok scope) => orFailed .missingScope (scope.head?.map (·.containerId))

/-- The frames of a block, under its id. -/
abbrev BlockFrames := BlockId × List CoordinatingFrame × List StructuralDesignationFrame

/-- One turn of the loop over the blocks with frames. -/
def placeBlock (turns : Nat) (index : DocumentStructureIndex) (entry : BlockFrames) :
    Except OverlayFailure (List PlacedFrame) := do
  let (block, frames, designations) := entry
  let source ← orFailed .unknownBlock (index.sourceBlocks.find? (·.blockId = block))
  let scopeId ← ownerScope turns index block
  let placed ← frames.zipIdx.mapM (placeFrame source scopeId block)
  let owned ← designations.zipIdx.mapM (placeDesignation scopeId block)
  .ok (placed ++ owned)

/-! ## The mentions of a block -/

def captureSlots (capture : LawRef) : List String :=
  (if capture.slots.date.isSome then ["date"] else []) ++
    (if capture.slots.docNo.isSome then ["doc_no"] else []) ++
      (if capture.slots.lawCode.isSome then ["law_code"] else [])

def placeMention (block : BlockId) (entry : LawRef × Nat) :
    Except OverlayFailure LiteralMentionNode := do
  let (capture, n) := entry
  let mentionRef ← orFailed .invalidCaptureSpan
    (ContextId.parse "mention ref" (mentionName block n))
  .ok ⟨mentionRef, block, capture.span, capture.patternId, captureSlots capture, .proposed⟩

/-- One turn of the loop over the blocks with captures. -/
def placeMentions (index : DocumentStructureIndex) (entry : BlockId × List LawRef) :
    Except OverlayFailure (List LiteralMentionNode) := do
  let (block, captures) := entry
  if index.sourceBlocks.all (·.blockId ≠ block) then .error (.failed .unknownBlock)
  else captures.zipIdx.mapM (placeMention block)

/-! ## The series edges -/

def headEdge (tail : ActFrameRecord) (status : StructureEdgeStatus) (head : ActFrameRecord) :
    ContextualEdge :=
  { fromRef := head.frameRef.asStr
    toRef := tail.frameRef.asStr
    relation := .continuesSeries
    evidence := [head.localAnchor, tail.localAnchor]
    confidenceClass := .derivedPath
    status }

/-- The edges from the eligible heads to a tail: proposed from one head, conflicting from more. -/
def headEdges (tail : ActFrameRecord) : List ActFrameRecord → List ContextualEdge
  | [] => []
  | [head] => [headEdge tail .proposed head]
  | eligible => eligible.map (headEdge tail .conflicting)

def seriesEdges (records : List ActFrameRecord) : List ContextualEdge :=
  (records.filter fun r => !r.admitsActType && r.status ≠ .rejected).flatMap fun tail =>
    headEdges tail (records.filter (·.eligibleContinuationHeadFor tail))

/-! ## The overlay -/

def buildDocumentAnalysisOverlay (turns : Nat) (index : DocumentStructureIndex)
    (framesPerBlock : List BlockFrames) (capturesPerBlock : List (BlockId × List LawRef)) :
    Except OverlayFailure DocumentAnalysisOverlay := do
  let placed ← framesPerBlock.mapM (placeBlock turns index)
  let mentions ← capturesPerBlock.mapM (placeMentions index)
  let placed := placed.flatten
  .ok
    { version := index.version
      aliases := []
      frames := placed.map (·.node)
      mentions := mentions.flatten
      edges := placed.map (·.edge) ++ seriesEdges (placed.filterMap (·.record)) }

end LawNexus.Decode
