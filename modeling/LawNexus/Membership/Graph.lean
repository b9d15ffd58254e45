import LawNexus.Ids
import Mathlib.Tactic.Common

/-!
# The membership graph and its industrial operations

The definitions of `ln-temporal/src/domain.rs`: edges from a parent to a child, the
guarded `insert`, and the four operations that rewrite the graph in place. A refused
operation still gives back the graph it borrowed, in the state it left it in.
-/

namespace LawNexus

inductive CtvOpsError
  | invalidId (error : IdError)
  | selfMembership
  | duplicateMembership
  | membershipCycle
  | multipleParents
  | missingProvenance
  | invalidArity
  | unknownSubject
  | targetCollision
  | wholeActIncomplete
  | planMismatch
  | duplicateOpId
  | membershipConflict
deriving DecidableEq, Repr

/-! ## Edges and the graph -/

structure MembershipEdge where
  parent : ComponentConceptId
  child : ComponentConceptId
  distinct : parent ≠ child
deriving DecidableEq, Repr

def MembershipEdge.tryNew (parent child : ComponentConceptId) :
    Except CtvOpsError MembershipEdge :=
  if h : parent = child then .error .selfMembership else .ok ⟨parent, child, h⟩

/-- The edge has this component at one of its ends. -/
def MembershipEdge.Touches (e : MembershipEdge) (c : ComponentConceptId) : Prop :=
  e.parent = c ∨ e.child = c

instance (e : MembershipEdge) (c : ComponentConceptId) : Decidable (e.Touches c) :=
  inferInstanceAs (Decidable (_ ∨ _))

structure MembershipGraph where
  edges : List MembershipEdge
deriving DecidableEq, Repr

namespace MembershipGraph

def empty : MembershipGraph := ⟨[]⟩

def insert (g : MembershipGraph) (edge : MembershipEdge) : Except CtvOpsError MembershipGraph :=
  if ∃ e ∈ g.edges, e.parent = edge.parent ∧ e.child = edge.child then
    .error .duplicateMembership
  -- Only the reverse edge is looked for: "a minimal cycle guard".
  else if ∃ e ∈ g.edges, e.parent = edge.child ∧ e.child = edge.parent then
    .error .membershipCycle
  else if ∃ e ∈ g.edges, e.child = edge.child then
    .error .multipleParents
  else .ok ⟨g.edges ++ [edge]⟩

def parentOf (g : MembershipGraph) (child : ComponentConceptId) : Option ComponentConceptId :=
  (g.edges.find? (fun e => e.child = child)).map (·.parent)

end MembershipGraph

/-! ## Requests and plans -/

inductive CtvIndustrialOpKind
  | renumber
  | move
  | split
  | merge
deriving DecidableEq, Repr

structure IndustrialOpRequest where
  opId : IndustrialOpId
  kind : CtvIndustrialOpKind
  subjects : List ComponentConceptId
  targets : List ComponentConceptId
  provenance : AmendingActId
deriving DecidableEq, Repr

structure IndustrialOpPlan where
  opId : IndustrialOpId
  kind : CtvIndustrialOpKind
  provenance : AmendingActId
  notes : List String
deriving DecidableEq, Repr

def f08NonClaims : List String :=
  ["Structural membership and industrial ops are not full CTV temporal resolution",
   "Does not prove legal amendment correctness or real-corpus compilation",
   "Renumber/move/split/merge plans are structural only; not NormativeEffect events",
   "Whole-act compile remains fail-closed; incomplete membership never assembles partially",
   "Lifecycle [proposed]; not product readiness or legal validation"]

/-- The loop that looks for an id it has seen before. -/
def hasRepeat (seen : List ComponentConceptId) : List ComponentConceptId → Bool
  | [] => false
  | t :: rest => if t ∈ seen then true else hasRepeat (seen ++ [t]) rest

/-- The graph is borrowed by the source, and read only for a value that it drops. -/
def planIndustrialOp (_graph : MembershipGraph) (request : IndustrialOpRequest) :
    Except CtvOpsError IndustrialOpPlan :=
  let plan : IndustrialOpPlan := ⟨request.opId, request.kind, request.provenance, f08NonClaims⟩
  if request.provenance.asStr.isEmpty then .error .missingProvenance
  else match request.kind with
    | .renumber | .move =>
      if request.subjects.length ≠ 1 ∨ request.targets.length ≠ 1 then .error .invalidArity
      else if request.subjects.head? = request.targets.head? then .error .targetCollision
      else .ok plan
    | .split =>
      if request.subjects.length ≠ 1 ∨ request.targets.length < 2 then .error .invalidArity
      else if ∃ t ∈ request.targets, some t = request.subjects.head? then
        .error .targetCollision
      else if hasRepeat [] request.targets then .error .targetCollision
      else .ok plan
    | .merge =>
      if request.subjects.length < 2 ∨ request.targets.length ≠ 1 then .error .invalidArity
      else if ∃ s ∈ request.subjects, some s = request.targets.head? then
        .error .targetCollision
      else if hasRepeat [] request.subjects then .error .targetCollision
      else .ok plan

/-! ## The event log of applied operations -/

structure StructuralIndustrialEvent where
  opId : IndustrialOpId
  kind : CtvIndustrialOpKind
  subjects : List ComponentConceptId
  targets : List ComponentConceptId
  provenance : AmendingActId
deriving DecidableEq, Repr

structure StructuralEventLog where
  events : List StructuralIndustrialEvent
deriving DecidableEq, Repr

namespace StructuralEventLog

def empty : StructuralEventLog := ⟨[]⟩

def containsOp (log : StructuralEventLog) (opId : IndustrialOpId) : Prop :=
  ∃ e ∈ log.events, e.opId = opId

instance (log : StructuralEventLog) (opId : IndustrialOpId) : Decidable (log.containsOp opId) :=
  inferInstanceAs (Decidable (∃ e ∈ log.events, e.opId = opId))

end StructuralEventLog

structure IndustrialOpApplyReceipt where
  opId : IndustrialOpId
  kind : CtvIndustrialOpKind
  nonClaims : List String
deriving DecidableEq, Repr

def s3ApplyNonClaims : List String :=
  ["Structural membership apply is not full CTV temporal resolution",
   "Does not prove legal amendment correctness or real-corpus compilation",
   "Append-only structural events are not NormativeEffectEvent runtime",
   "Bounded offline apply only; lifecycle [proposed]; not product readiness"]

/-! ## Applying an operation -/

def removeEdgesInvolving (g : MembershipGraph) (id : ComponentConceptId) : MembershipGraph :=
  ⟨g.edges.filter (fun e => ¬ e.Touches id)⟩

/-- Puts `dst` in the place of `src` on an edge that does not touch `dst` yet. -/
def MembershipEdge.rewrite (e : MembershipEdge) (src dst : ComponentConceptId)
    (h : ¬ e.Touches dst) : MembershipEdge where
  parent := if e.parent = src then dst else e.parent
  child := if e.child = src then dst else e.child
  distinct := by
    have := e.distinct
    simp only [Touches, not_or] at h
    split_ifs with hp hc hc
    · exact absurd (hp.trans hc.symm) e.distinct
    · exact Ne.symm h.2
    · exact h.1
    · exact e.distinct

def rewriteComponentId (g : MembershipGraph) (src dst : ComponentConceptId) :
    Except CtvOpsError MembershipGraph :=
  if src = dst then .error .targetCollision
  else if h : ∃ e ∈ g.edges, e.Touches dst then .error .targetCollision
  else .ok ⟨g.edges.attach.map fun e =>
    e.val.rewrite src dst (fun ht => h ⟨e.val, e.property, ht⟩)⟩

/-- What a branch of `apply_industrial_op` leaves: its answer, and the graph in either case. -/
abbrev BranchResult := Except CtvOpsError Unit × MembershipGraph

/-- One `graph.insert(MembershipEdge::try_new(parent, child)?)?`. -/
def attachChild (g : MembershipGraph) (parent child : ComponentConceptId) : BranchResult :=
  match MembershipEdge.tryNew parent child with
  | .error e => (.error e, g)
  | .ok edge =>
    match g.insert edge with
    | .error e => (.error e, g)
    | .ok g' => (.ok (), g')

/-- The loop over the targets of a split: it stops at the first refusal. -/
def attachChildren (g : MembershipGraph) (parent : ComponentConceptId) :
    List ComponentConceptId → BranchResult
  | [] => (.ok (), g)
  | target :: rest =>
    match attachChild g parent target with
    | (.error e, g') => (.error e, g')
    | (.ok (), g') => attachChildren g' parent rest

def applyMove (g : MembershipGraph) (subject newParent : ComponentConceptId) : BranchResult :=
  attachChild ⟨g.edges.filter (fun e => e.child ≠ subject)⟩ newParent subject

def applyRenumber (g : MembershipGraph) (src dst : ComponentConceptId) : BranchResult :=
  match rewriteComponentId g src dst with
  | .error e => (.error e, g)
  | .ok g' => (.ok (), g')

def applySplit (g : MembershipGraph) (subject : ComponentConceptId)
    (targets : List ComponentConceptId) : BranchResult :=
  match g.parentOf subject with
  | none => (.ok (), removeEdgesInvolving g subject)
  | some parent => attachChildren (removeEdgesInvolving g subject) parent targets

/-- The parent of the first subject that has one. -/
def firstParent (g : MembershipGraph) (subjects : List ComponentConceptId) :
    Option ComponentConceptId :=
  subjects.findSome? g.parentOf

def applyMerge (g : MembershipGraph) (subjects : List ComponentConceptId)
    (target : ComponentConceptId) : BranchResult :=
  match firstParent g subjects with
  | none => (.ok (), subjects.foldl removeEdgesInvolving g)
  | some parent => attachChild (subjects.foldl removeEdgesInvolving g) parent target

/-- The match on the kind. The plan has refused every other arity, where the source
would index out of range. -/
def applyKind (g : MembershipGraph) (request : IndustrialOpRequest) : BranchResult :=
  match request.kind, request.subjects, request.targets with
  | .move, subject :: _, newParent :: _ => applyMove g subject newParent
  | .renumber, src :: _, dst :: _ => applyRenumber g src dst
  | .split, subject :: _, targets => applySplit g subject targets
  | .merge, subjects, target :: _ => applyMerge g subjects target
  | _, _, _ => (.error .invalidArity, g)

/-- What a call leaves behind: its answer and the two values it borrowed. -/
structure Applied where
  answer : Except CtvOpsError IndustrialOpApplyReceipt
  graph : MembershipGraph
  log : StructuralEventLog

def applyIndustrialOp (graph : MembershipGraph) (log : StructuralEventLog)
    (request : IndustrialOpRequest) (plan : IndustrialOpPlan) : Applied :=
  if plan.opId ≠ request.opId ∨ plan.kind ≠ request.kind ∨ plan.provenance ≠ request.provenance then
    ⟨.error .planMismatch, graph, log⟩
  else match planIndustrialOp graph request with
    | .error e => ⟨.error e, graph, log⟩
    | .ok _ =>
      if log.containsOp request.opId then ⟨.error .duplicateOpId, graph, log⟩
      else match applyKind graph request with
        | (.error e, graph') => ⟨.error e, graph', log⟩
        | (.ok (), graph') =>
          ⟨.ok ⟨request.opId, request.kind, f08NonClaims ++ s3ApplyNonClaims⟩, graph',
            ⟨log.events ++ [⟨request.opId, request.kind, request.subjects, request.targets,
              request.provenance⟩]⟩⟩

end LawNexus
