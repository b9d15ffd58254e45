import LawNexus.Canon.Log
import LawNexus.Loops

/-!
# Three readouts of force

`force_readout` runs over the records of the log, once for the whole log and once for each
component. `resolve_force_status_at` looks for the latest day of a timeline. Both come to the
same rule: the statuses written on the latest day decide, and two of them are a conflict.
-/

namespace LawNexus

open Loops

/-! ## The running scan -/

/-- The status that a record writes. -/
def ThreeCanonRecord.forceOutcome : ThreeCanonRecord → Option NormativeState
  | .amendment r => r.forceTransition
  | .assertionOrEffect r => r.payload.transition
  | .editionOracle _ => none

def forceStep (acc : Option Int × List NormativeState) (event : ThreeCanonRecord) :
    Option Int × List NormativeState :=
  match event.forceOutcome with
  | none => acc
  | some status =>
    match acc.1 with
    | none => (some event.effectDay, acc.2 ++ [status])
    | some latest =>
      if event.effectDay > latest then (some event.effectDay, [status])
      else if event.effectDay = latest then (some latest, pushNew acc.2 status)
      else acc

def forceReadout (events : List ThreeCanonRecord) : NormativeState × Bool :=
  match (events.foldl forceStep (none, [])).2 with
  | [] => (.unknown, false)
  | [status] => (status, false)
  | _ => (.unknown, true)

/-! ## The fold of the whole log -/

/-- The loop that refuses an unordered log. -/
def checkOrdered (previousDay : Option Int) :
    List ThreeCanonRecord → Except ThreeCanonLogError Unit
  | [] => .ok ()
  | record :: rest =>
    if ∃ previous ∈ previousDay, record.effectDay < previous then .error .orderingConflict
    else checkOrdered (some record.effectDay) rest

structure ThreeCanonProjection where
  asOfDay : Int
  events : List ThreeCanonRecord
  forceStatus : NormativeState
  forceConflict : Bool
  nonClaims : List String

def threeCanonNonClaims : List String :=
  ["Three-canon log fold is a bounded point projection; not interval algebra, not checkout",
   "EditionOracle records are checksums, not canon; fold never writes an oracle back as events",
   "Empty fold does not imply ForceStatus InForce or structural membership",
   "Evidence-class precedence and assertion supersession are not resolved by this fold",
   "Not the crystal ledger, not MicroOperation, not the G0(a) assertion-lifecycle engine",
   "Lifecycle [proposed]; not product readiness or legal validation"]

/-- The canon events up to a day. -/
def projected (log : ThreeCanonEventLog) (asOfDay : Int) : List ThreeCanonRecord :=
  log.records.filter fun r => r.isCanonEvent ∧ r.effectDay ≤ asOfDay

def foldThreeCanonAt (log : ThreeCanonEventLog) (asOfDay : Int) :
    Except ThreeCanonLogError ThreeCanonProjection :=
  match checkOrdered none log.records with
  | .error e => .error e
  | .ok () =>
    let events := projected log asOfDay
    let (forceStatus, forceConflict) := forceReadout events
    .ok ⟨asOfDay, events, forceStatus, forceConflict, threeCanonNonClaims⟩

/-! ## The checkout of each component -/

structure ProvisionCheckout where
  target : ComponentConceptId
  forceStatus : NormativeState
  forceConflict : Bool
  events : List ThreeCanonRecord

structure CheckoutProjection where
  asOfDay : Int
  provisions : List ProvisionCheckout
  nonClaims : List String

def checkoutNonClaims : List String :=
  ["Point per-target fold of the recorded three-canon log; not bitemporal checkout (no legal_as_of / known_as_of / VIEW)",
   "Not the crystal compiler, not MicroOperation, not CoverageCertificate (D216/D312)",
   "Not interval algebra (D228)",
   "Not R070 amending-act text evidence; edition provenance stays open (D179)",
   "D-03 remains open-bounded: this is grouping, not the crystal compiler"]

/-- One entry of the grouped events. The order of the groups in the source's map is not
observable: the entries are sorted by target afterwards. -/
def checkoutEntry (entry : ComponentConceptId × List ThreeCanonRecord) : ProvisionCheckout where
  target := entry.1
  forceStatus := (forceReadout entry.2).1
  forceConflict := (forceReadout entry.2).2
  events := entry.2

def checkoutProjectionAt (log : ThreeCanonEventLog) (asOfDay : Int) :
    Except ThreeCanonLogError CheckoutProjection :=
  match checkOrdered none log.records with
  | .error e => .error e
  | .ok () =>
    let grouped := group (·.target) (projected log asOfDay)
    .ok ⟨asOfDay, sortBy (·.target.asStr) (grouped.map checkoutEntry), checkoutNonClaims⟩

/-! ## The timeline of force events -/

inductive NormativeStateError
  | invalidId (error : IdError)
  | missingProvenance
  | unknownNotTransition
  | emptyComponent
deriving DecidableEq, Repr

structure ForceStatusEvent where
  component : ComponentConceptId
  status : NormativeState
  effectDay : Int
  provenance : AmendingActId
  written : status.isTransitionTarget = true
deriving DecidableEq, Repr

def ForceStatusEvent.tryNew (component : ComponentConceptId) (status : NormativeState)
    (effectDay : Int) (provenance : AmendingActId) :
    Except NormativeStateError ForceStatusEvent :=
  if h : status.isTransitionTarget = true then
    if provenance.asStr.isEmpty then .error .missingProvenance
    else if component.asStr.isEmpty then .error .emptyComponent
    else .ok ⟨component, status, effectDay, provenance, h⟩
  else .error .unknownNotTransition

structure ForceStatusTimeline where
  events : List ForceStatusEvent

inductive NormativeDimension
  | forceStatus
  | versionRelation
  | applicability
  | epistemicOutcome
deriving DecidableEq, Repr

structure ForceStatusResolution where
  component : ComponentConceptId
  asOfDay : Int
  status : NormativeState
  conflict : Bool
  dimension : NormativeDimension
  nonClaims : List String

def f09NonClaims : List String :=
  ["NormativeState must not mix force, version relation, applicability, and epistemic outcome",
   "Text/CTV presence does not imply InForce",
   "InForce does not imply Applicable",
   "Unknown/Conflict epistemic outcomes are not force or applicability decisions",
   "Design dimensional separation is not a NormativeState resolver or product legal correctness",
   "Lifecycle: NormativeState design [proposed]; executable dimensional resolvers remain deferred"]

def forceResolverNonClaims : List String :=
  ["ForceStatus resolution is not CTV text presence or version join",
   "InForce does not imply Applicability",
   "Offline synthetic force timeline is not legal corpus status proof",
   "Unknown is fail-closed default when evidence is missing or conflicting",
   "Lifecycle [proposed]; not product readiness or legal validation"]

def resolveForceStatusAt (timeline : ForceStatusTimeline) (component : ComponentConceptId)
    (asOfDay : Int) : Except NormativeStateError ForceStatusResolution :=
  if component.asStr.isEmpty then .error .emptyComponent
  else
    let resolution (status : NormativeState) (conflict : Bool) : ForceStatusResolution :=
      ⟨component, asOfDay, status, conflict, .forceStatus, f09NonClaims ++ forceResolverNonClaims⟩
    let applicable :=
      timeline.events.filter fun e => e.component = component ∧ e.effectDay ≤ asOfDay
    match (applicable.map (·.effectDay)).max? with
    | none => .ok (resolution .unknown false)
    | some maxDay =>
      let atMax := applicable.filter fun e => e.effectDay = maxDay
      match sortDedup (·.asStr) (atMax.map (·.status)) with
      | [status] => .ok (resolution status false)
      -- Never the empty list, where the source would index out of range.
      | _ => .ok (resolution .unknown true)

end LawNexus
