import LawNexus.Membership.Graph
import LawNexus.Membership.Table
import Mathlib.Data.Prod.Lex

/-!
# The versioned membership log and its fold

The log of attach and detach events, and `fold_membership_at`: the events up to a day, in
day order, replayed into a table of parents that becomes a tree.
-/

namespace LawNexus

open Forest Loops

/-! ## Events -/

inductive MembershipChangeKind
  | attach
  | detach
deriving DecidableEq, Repr

def MembershipChangeKind.asStr : MembershipChangeKind → String
  | .attach => "attach"
  | .detach => "detach"

@[ext]
structure VersionedMembershipEvent where
  kind : MembershipChangeKind
  parent : ComponentConceptId
  child : ComponentConceptId
  effectDay : Int
  provenance : AmendingActId
  distinct : parent ≠ child
deriving Repr

instance : DecidableEq VersionedMembershipEvent := fun e f =>
  decidable_of_iff (e.kind = f.kind ∧ e.parent = f.parent ∧ e.child = f.child ∧
    e.effectDay = f.effectDay ∧ e.provenance = f.provenance) VersionedMembershipEvent.ext_iff.symm

def VersionedMembershipEvent.tryNew (kind : MembershipChangeKind)
    (parent child : ComponentConceptId) (effectDay : Int) (provenance : AmendingActId) :
    Except CtvOpsError VersionedMembershipEvent :=
  if h : parent = child then .error .selfMembership
  else if provenance.asStr.isEmpty then .error .missingProvenance
  else .ok ⟨kind, parent, child, effectDay, provenance, h⟩

structure VersionedMembershipLog where
  events : List VersionedMembershipEvent
deriving DecidableEq, Repr

namespace VersionedMembershipLog

def empty : VersionedMembershipLog := ⟨[]⟩

def append (log : VersionedMembershipLog) (event : VersionedMembershipEvent) :
    Except CtvOpsError VersionedMembershipLog :=
  .ok ⟨log.events ++ [event]⟩

end VersionedMembershipLog

/-! ## The fold -/

/-- The order of the replay: the days in turn, and on one day "attach" before "detach". -/
def VersionedMembershipEvent.sortKey (e : VersionedMembershipEvent) :
    Int ×ₗ String ×ₗ ComponentConceptId ×ₗ ComponentConceptId :=
  toLex (e.effectDay, toLex (e.kind.asStr, toLex (e.child, e.parent)))

def applicable (log : VersionedMembershipLog) (asOfDay : Int) : List VersionedMembershipEvent :=
  sortBy (·.sortKey) (log.events.filter fun e => e.effectDay ≤ asOfDay)

def attachParents (slice : List VersionedMembershipEvent) :
    List (ComponentConceptId × ComponentConceptId) :=
  (slice.filter fun e => e.kind = .attach).map fun e => (e.child, e.parent)

/-- Some child is attached under two parents on the day of the slice. -/
def sameDayConflict (slice : List VersionedMembershipEvent) : Bool :=
  (runs (·.1) (sortBy toLex (attachParents slice))).any fun run =>
    1 < (distinct (run.map (·.2))).length

def ParentTable.step (t : ParentTable) (ev : VersionedMembershipEvent) : ParentTable :=
  match ev.kind with
  | .detach => t.detach ev.child ev.parent
  | .attach => t.attach ev.child ev.parent

/-- The outer loop: one day after the other, until a day has a conflict. -/
def replayDays (parentOf : ParentTable) :
    List (List VersionedMembershipEvent) → Except CtvOpsError ParentTable
  | [] => .ok parentOf
  | slice :: rest =>
    if sameDayConflict slice then .error .membershipConflict
    else replayDays (slice.foldl ParentTable.step parentOf) rest

def foldMembershipAt (log : VersionedMembershipLog) (asOfDay : Int) :
    Except CtvOpsError StructuralAst :=
  match replayDays .empty (runs (·.effectDay) (applicable log asOfDay)) with
  | .error e => .error e
  | .ok parentOf => .ok (buildStructuralAst asOfDay parentOf)

end LawNexus
