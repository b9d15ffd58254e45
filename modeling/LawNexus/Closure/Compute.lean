import LawNexus.IdMap

/-!
# Compute Dependency Closure

`ComputeDependencyClosure` of `ln-closure`, over evidence that may answer anything.
-/

namespace LawNexus.Closure

abbrev NodeId := CheckedId "node id"
abbrev RuleVersion := CheckedId "rule version"
abbrev RequestId := CheckedId "request id"

def CLOSURE_POLICY_VERSION : String := "hc11:dependency-closure:v1"

def MAX_BOUNDED_FANOUT : Nat := 8

inductive ClosureStatus where
  | complete
  | incomplete
  | unknown
  | unbounded
  | ruleVersionMismatch
deriving DecidableEq, Repr

def ClosureStatus.isComplete (status : ClosureStatus) : Bool := status = .complete

inductive PublicationEligibility where
  | eligible
  | blocked
deriving DecidableEq, Repr

inductive CompletenessClaim where
  | none
  | progressAsComplete
  | queueDepthAsComplete
  | inventedAffectedSet
deriving DecidableEq, Repr

def CompletenessClaim.isForbidden (claim : CompletenessClaim) : Bool := claim ≠ .none

structure ClosureRequest where
  requestId : RequestId
  changed : List NodeId
  expectedRuleVersion : RuleVersion
  completenessClaim : CompletenessClaim
  requestIncrementalPublication : Bool
deriving DecidableEq, Repr

structure ClosureTrace where
  policyVersion : String
  requestId : RequestId
  status : ClosureStatus
  publicationEligibility : PublicationEligibility
  changed : List NodeId
  affected : List NodeId
  missing : List NodeId
  stale : List NodeId
  observedRuleVersion : Option RuleVersion
  expectedRuleVersion : RuleVersion
  completenessClaim : CompletenessClaim
  completenessClaimApplied : Bool
  progressUsedAsCompleteness : Bool
  queueDepthUsedAsCompleteness : Bool
  fanout : Nat
deriving DecidableEq, Repr

structure ClosureResult where
  status : ClosureStatus
  publicationEligibility : PublicationEligibility
  changed : List NodeId
  affected : List NodeId
  missing : List NodeId
  stale : List NodeId
  completenessClaimApplied : Bool
  progressUsedAsCompleteness : Bool
  queueDepthUsedAsCompleteness : Bool
  trace : ClosureTrace
deriving DecidableEq, Repr

/-- Evidence that answers from a state of its own, so two reads may get two answers. -/
structure DependencyEvidencePort (ε : Type) where
  ruleVersion : ε → RuleVersion × ε
  registeredNodes : ε → List NodeId × ε
  dependenciesOf : ε → NodeId → Option (List NodeId) × ε
  progressCount : ε → Nat × ε
  queueDepth : ε → Nat × ε

/-! ## The frozen evidence -/

/-- The registered nodes, and their dependencies. -/
structure Frozen where
  registered : List NodeId
  deps : IdMap "node id" (List NodeId)

namespace Frozen

def empty : Frozen := ⟨[], ∅⟩

def insert (frozen : Frozen) (node : NodeId) (answer : Option (List NodeId)) : Frozen where
  registered := frozen.registered ++ [node]
  deps := frozen.deps.insert node (answer.getD [])

def dependencies (frozen : Frozen) (node : NodeId) : List NodeId := (frozen.deps.get node).getD []

end Frozen

section

variable {ε : Type} (port : DependencyEvidencePort ε)

/-- The loop over the registered nodes. -/
def freeze (frozen : Frozen) (evidence : ε) : List NodeId → Frozen × ε
  | [] => (frozen, evidence)
  | node :: rest =>
    let (answer, evidence) := port.dependenciesOf evidence node
    freeze (frozen.insert node answer) evidence rest

end

/-! ## The worklist -/

/-- The locals of the loop. The `seen` set holds the affected nodes. -/
structure Worklist where
  affected : List NodeId
  missing : List NodeId
  queue : List NodeId

def pushMissing (missing : List NodeId) (node : NodeId) : List NodeId :=
  if missing.contains node then missing else missing ++ [node]

section

variable (frozen : Frozen) (changed : List NodeId)

/-- One turn of the loop over the dependencies of a node. -/
def pushDependency (work : Worklist) (dep : NodeId) : Worklist :=
  if work.affected.contains dep then work
  else if !frozen.registered.contains dep then { work with missing := pushMissing work.missing dep }
  else { work with queue := work.queue ++ [dep] }

/-- A turn for a node that was not seen yet. -/
def visit (work : Worklist) (node : NodeId) : Worklist :=
  let work := { work with affected := work.affected ++ [node] }
  if !frozen.registered.contains node then
    if changed.contains node then work else { work with missing := pushMissing work.missing node }
  else (frozen.dependencies node).foldl (pushDependency frozen) work

/-- The loop. A node that was seen is skipped; `room` is what `affected` may still grow by, so the
error is the return in front of a node too many. -/
def worklist : Nat → Worklist → Except Worklist Worklist
  | room, work =>
    match work.queue.dropWhile work.affected.contains with
    | [] => .ok { work with queue := [] }
    | node :: queue =>
      match room with
      | 0 => .error { work with affected := work.affected ++ [node], queue }
      | room + 1 => worklist room (visit frozen changed { work with queue } node)

def seeds : Worklist where
  affected := []
  missing := (changed.filter fun node => !frozen.registered.contains node).foldl pushMissing []
  queue := changed

end

/-! ## The result -/

section

variable {ε : Type} (port : DependencyEvidencePort ε)

def finish (evidence : ε) (request : ClosureRequest) (status : ClosureStatus)
    (publicationEligibility : PublicationEligibility) (affected missing stale : List NodeId) :
    ClosureResult × ε :=
  let publicationEligibility :=
    if status.isComplete then publicationEligibility else .blocked
  let (observed, evidence) := port.ruleVersion evidence
  let trace : ClosureTrace :=
    { policyVersion := CLOSURE_POLICY_VERSION
      requestId := request.requestId
      status
      publicationEligibility
      changed := request.changed
      affected
      missing
      stale
      observedRuleVersion := some observed
      expectedRuleVersion := request.expectedRuleVersion
      completenessClaim := request.completenessClaim
      completenessClaimApplied := false
      progressUsedAsCompleteness := false
      queueDepthUsedAsCompleteness := false
      fanout := affected.length }
  let result : ClosureResult :=
    { status
      publicationEligibility
      changed := request.changed
      affected
      missing
      stale
      completenessClaimApplied := false
      progressUsedAsCompleteness := false
      queueDepthUsedAsCompleteness := false
      trace }
  (result, evidence)

def compute (evidence : ε) (request : ClosureRequest) : ClosureResult × ε :=
  if request.completenessClaim.isForbidden then
    finish port evidence request .incomplete .blocked [] request.changed []
  else
    let (frozenVersion, evidence) := port.ruleVersion evidence
    let (registered, evidence) := port.registeredNodes evidence
    let (frozen, evidence) := freeze port .empty evidence registered
    let (_, evidence) := port.progressCount evidence
    let (_, evidence) := port.queueDepth evidence
    if frozenVersion ≠ request.expectedRuleVersion then
      finish port evidence request .ruleVersionMismatch .blocked [] [] []
    else
      match worklist frozen request.changed MAX_BOUNDED_FANOUT (seeds frozen request.changed) with
      | .error work => finish port evidence request .unbounded .blocked work.affected work.missing []
      | .ok work =>
        if request.changed.any fun node => !frozen.registered.contains node then
          finish port evidence request .unknown .blocked work.affected work.missing []
        else if work.missing ≠ [] then
          finish port evidence request .incomplete .blocked work.affected work.missing []
        else finish port evidence request .complete .eligible work.affected work.missing []

end

end LawNexus.Closure
