import LawNexus.Ontology.Heal
import LawNexus.Ontology.Propose

/-!
# The replay of an edition

The `replay` command of `ln-product-cli`: the edges of the seed edition go into a log, the
difference of the marker sets becomes events of the target day, and the tree of this log is
compared with the tree of the target edition.
-/

namespace LawNexus

open Forest Loops

/-! ## The diff of two editions -/

structure MarkerDiff where
  added : List HierarchyMarker
  removed : List HierarchyMarker
deriving DecidableEq, Repr

/-- Markers are compared by level and key path. -/
def HierarchyMarker.diffKey (marker : HierarchyMarker) : HierarchyLevel × String :=
  (marker.level, marker.keyPath)

def diffMarkerSets (before after : List HierarchyMarker) : MarkerDiff where
  added := after.filter fun m => m.diffKey ∉ before.map (·.diffKey)
  removed := before.filter fun m => m.diffKey ∉ after.map (·.diffKey)

inductive AmendmentDraftOp
  | attach
  | detach
deriving DecidableEq, Repr

structure AmendmentEventDraft where
  op : AmendmentDraftOp
  level : String
  number : String
  path : Option String
  facet : String
  evidenceClass : String
  provenance : String
deriving DecidableEq, Repr

def structuralDraft (op : AmendmentDraftOp) (provenance : String) (marker : HierarchyMarker) :
    AmendmentEventDraft where
  op := op
  level := marker.level.val
  number := marker.number.val
  path := marker.path.map (·.val)
  facet := "structural"
  evidenceClass := "hypothesized_from_oracle_diff"
  provenance := provenance

def draftsFromMarkerDiff (before after : List HierarchyMarker) (provenance : String) :
    Except WriteSetError (List AmendmentEventDraft) :=
  if provenance.isEmpty then .error .missingProvenance
  else
    let diff := diffMarkerSets before after
    .ok (diff.added.map (structuralDraft .attach provenance) ++
      diff.removed.map (structuralDraft .detach provenance))

/-! ## The log of the replay -/

/-- One attach event for each admitted edge. -/
def attachAdmitted (day : Int) (provenance : AmendingActId) (edges : List AdmittedMembership) :
    Option VersionedMembershipLog :=
  edges.foldlM (fun log edge => do
    let event ← (VersionedMembershipEvent.tryNew .attach edge.parent edge.child day
      provenance).toOption
    (log.append event).toOption) .empty

/-- `get` in a `HashMap` that was collected from pairs: of two pairs with one key the later
one stays. -/
def collectedGet (pairs : List (String × String)) (key : String) : Option String :=
  (pairs.reverse.find? fun pair => pair.1 = key).map (·.2)

structure ReplayLog where
  log : VersionedMembershipLog
  committedAttach : Nat
  committedDetach : Nat
deriving DecidableEq, Repr

def AmendmentDraftOp.kind : AmendmentDraftOp → MembershipChangeKind
  | .attach => .attach
  | .detach => .detach

def ReplayLog.commit (s : ReplayLog) (op : AmendmentDraftOp) (log : VersionedMembershipLog) :
    ReplayLog where
  log := log
  committedAttach := if op = .attach then s.committedAttach + 1 else s.committedAttach
  committedDetach := if op = .detach then s.committedDetach + 1 else s.committedDetach

section

variable (map : HierarchyMap) (seedParents targetParents : List (String × String))
  (targetDay : Int) (targetProv : AmendingActId)

/-- An added component goes under the parent proposed for it in the target, a removed one
leaves the parent it has in the seed. -/
def draftParent : AmendmentDraftOp → ComponentConceptId → Option String
  | .attach, component => collectedGet targetParents component.asStr
  | .detach, component => collectedGet seedParents component.asStr

/-- The body of the loop over the drafts. A draft that is not bound is passed over; one
without a parent gives up the whole report. -/
def replayDraft (s : ReplayLog) (draft : AmendmentEventDraft) : Option ReplayLog := do
  let probe ← (HierarchyMarker.tryNew none draft.level draft.number none).toOption
  match mapHierarchyMarker map probe with
  | .unknown => some s
  | .bound component =>
    let parentStr ← draftParent seedParents targetParents draft.op component
    let parent ← (ComponentConceptId.parse parentStr).toOption
    let event ← (VersionedMembershipEvent.tryNew draft.op.kind parent component targetDay
      targetProv).toOption
    let log ← (s.log.append event).toOption
    some (s.commit draft.op log)

end

/-! ## The report -/

/-- What the report is taken from. -/
structure Replay where
  committedAttach : Nat
  committedDetach : Nat
  replayAst : StructuralAst
  oracleAst : StructuralAst

structure DriftReport where
  committedAttach : Nat
  committedDetach : Nat
  drift : Int
  missing : Nat
  phantom : Nat
deriving DecidableEq, Repr

def oracleCcs (oracleAst : StructuralAst) : List ComponentConceptId :=
  oracleAst.roots.flatMap collectSubtreeCcs

def Replay.report (run : Replay) : DriftReport :=
  let drift := oracleDiff run.replayAst (oracleCcs run.oracleAst)
  ⟨run.committedAttach, run.committedDetach, drift.drift, drift.missing, drift.phantom⟩

/-- The two trees of the closure `drift_report`, with its days and its texts of expression
ids as arguments. The drafts are none when their provenance is refused. -/
def replay (map : HierarchyMap) (seedMarkers targetMarkers : List HierarchyMarker)
    (seedExpr targetExpr : String) (seedDay targetDay : Int) : Option Replay := do
  let drafts := (draftsFromMarkerDiff seedMarkers targetMarkers targetExpr).toOption.getD []
  if targetDay ≤ seedDay then none
  else
    let seedPropose ← (proposeMembershipFromMarkers map seedMarkers).toOption
    let seedAdmit := admitMembershipProposals seedPropose.proposals
    let seedProv ← (CheckedId.parse "amending act id" seedExpr).toOption
    let log ← attachAdmitted seedDay seedProv seedAdmit.admitted
    let targetProv ← (CheckedId.parse "amending act id" targetExpr).toOption
    let seedParents := seedAdmit.admitted.map fun e => (e.child.asStr, e.parent.asStr)
    let targetPropose ← (proposeMembershipFromMarkers map targetMarkers).toOption
    let targetParents := targetPropose.proposals.map fun p => (p.child.asStr, p.parent.asStr)
    let s ← drafts.foldlM (replayDraft map seedParents targetParents targetDay targetProv)
      ⟨log, 0, 0⟩
    let replayAst ← (foldMembershipAt s.log targetDay).toOption
    let targetAdmit := admitMembershipProposals targetPropose.proposals
    let oracleLog ← attachAdmitted targetDay targetProv targetAdmit.admitted
    let oracleAst ← (foldMembershipAt oracleLog targetDay).toOption
    some ⟨s.committedAttach, s.committedDetach, replayAst, oracleAst⟩

def driftReport (map : HierarchyMap) (seedMarkers targetMarkers : List HierarchyMarker)
    (seedExpr targetExpr : String) (seedDay targetDay : Int) : Option DriftReport :=
  (replay map seedMarkers targetMarkers seedExpr targetExpr seedDay targetDay).map
    (·.report)

end LawNexus
