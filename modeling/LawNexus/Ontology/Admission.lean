import LawNexus.Membership.Fold

/-!
# Admission, commit and assembly

The gate of `ln-kb-ontology/src/domain.rs` for membership proposals, the commit of its
report to a membership log, and the counts of the tree that the log folds to.
-/

namespace LawNexus

open Forest Loops

/-! ## The gate -/

structure MembershipProposal where
  parent : ComponentConceptId
  child : ComponentConceptId
deriving DecidableEq, Repr

structure AdmittedMembership where
  parent : ComponentConceptId
  child : ComponentConceptId
deriving DecidableEq, Repr

inductive QuarantineReason
  | twoParentConflict (otherParent : ComponentConceptId)
  | cycle
  | selfParent
deriving DecidableEq, Repr

structure QuarantinedProposal where
  parent : ComponentConceptId
  child : ComponentConceptId
  reason : QuarantineReason
deriving DecidableEq, Repr

structure MembershipAdmitReport where
  admitted : List AdmittedMembership
  quarantined : List QuarantinedProposal
  forestRoots : Nat
deriving DecidableEq, Repr

/-- The walk up the chain of parents, with the ids it has been at. The fuel bounds its
length, which the source leaves open. -/
def walkMeets (edges : List (ComponentConceptId × ComponentConceptId))
    (child : ComponentConceptId) :
    Nat → List ComponentConceptId → ComponentConceptId → Bool
  | 0, _, _ => false
  | fuel + 1, visited, current =>
    if current = child then true
    else if current ∈ visited then false
    else match (edges.find? fun e => e.1 = current).map (·.2) with
      | none => false
      | some next => walkMeets edges child fuel (current :: visited) next

/-- The fuel is enough for a walk that comes to each edge once. -/
def createsCycle (edges : List (ComponentConceptId × ComponentConceptId))
    (parent child : ComponentConceptId) : Bool :=
  walkMeets edges child (edges.length + 1) [] parent

/-- What becomes of a proposal in its turn. -/
inductive Fate
  | accept
  | duplicate
  | quarantine (reason : QuarantineReason)
deriving DecidableEq, Repr

/-- The three lists that the loop grows. The last one holds pairs of a child and its parent. -/
structure AdmitState where
  admitted : List AdmittedMembership
  quarantined : List QuarantinedProposal
  childParents : List (ComponentConceptId × ComponentConceptId)

/-- The checks of the loop, in their order. -/
def fateOf (s : AdmitState) (proposal : MembershipProposal) : Fate :=
  if proposal.parent = proposal.child then .quarantine .selfParent
  else if ∃ edge ∈ s.admitted, edge.parent = proposal.parent ∧ edge.child = proposal.child then
    .duplicate
  else match s.childParents.find? fun e => e.1 = proposal.child with
    | some (_, existingParent) => .quarantine (.twoParentConflict existingParent)
    | none =>
      if createsCycle s.childParents proposal.parent proposal.child then .quarantine .cycle
      else .accept

def admitStep (s : AdmitState) (proposal : MembershipProposal) : AdmitState :=
  match fateOf s proposal with
  | .duplicate => s
  | .quarantine reason =>
    { s with quarantined := s.quarantined ++ [⟨proposal.parent, proposal.child, reason⟩] }
  | .accept =>
    { s with
      admitted := s.admitted ++ [⟨proposal.parent, proposal.child⟩]
      childParents := s.childParents ++ [(proposal.child, proposal.parent)] }

def admitLoop (proposals : List MembershipProposal) : AdmitState :=
  proposals.foldl admitStep ⟨[], [], []⟩

def admitMembershipProposals (proposals : List MembershipProposal) : MembershipAdmitReport :=
  let s := admitLoop proposals
  let parents := distinct (s.admitted.map (·.parent))
  let children := distinct (s.admitted.map (·.child))
  ⟨s.admitted, s.quarantined, (parents.filter fun p => p ∉ children).length⟩

/-! ## The commit -/

/-- The loop that appends one attach event for each edge. Beside the answer stands the log it
borrowed, which keeps the events from before a refusal. -/
def commitEdges (log : VersionedMembershipLog) (effectDay : Int) (provenance : AmendingActId) :
    List AdmittedMembership → Except CtvOpsError Unit × VersionedMembershipLog
  | [] => (.ok (), log)
  | edge :: rest =>
    match VersionedMembershipEvent.tryNew .attach edge.parent edge.child effectDay provenance with
    | .error e => (.error e, log)
    | .ok event =>
      match log.append event with
      | .error e => (.error e, log)
      | .ok log' => commitEdges log' effectDay provenance rest

def commitAdmittedToLog (report : MembershipAdmitReport) (log : VersionedMembershipLog)
    (effectDay : Int) (provenance : AmendingActId) :
    Except CtvOpsError Nat × VersionedMembershipLog :=
  match commitEdges log effectDay provenance report.admitted with
  | (.error e, log') => (.error e, log')
  | (.ok (), log') => (.ok report.admitted.length, log')

/-! ## The assembly -/

structure MembershipAstSummary where
  committed : Nat
  rootCount : Nat
  nodeCount : Nat
deriving DecidableEq, Repr

mutual

def countAstSubtreeNodes : StructuralAstNode → Nat
  | .node _ children => 1 + countAstNodes children

/-- The sum over a list of nodes. -/
def countAstNodes : List StructuralAstNode → Nat
  | [] => 0
  | node :: rest => countAstSubtreeNodes node + countAstNodes rest

end

def assembleMembershipAst (report : MembershipAdmitReport) (effectDay : Int)
    (provenance : String) : Except CtvOpsError MembershipAstSummary :=
  match CheckedId.parse "amending act id" provenance with
  | .error e => .error (.invalidId e)
  | .ok provenance =>
    match commitAdmittedToLog report .empty effectDay provenance with
    | (.error e, _) => .error e
    | (.ok committed, log) =>
      match foldMembershipAt log effectDay with
      | .error e => .error e
      | .ok ast => .ok ⟨committed, ast.roots.length, countAstNodes ast.roots⟩

end LawNexus
