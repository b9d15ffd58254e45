import LawNexus.IdMap
import LawNexus.Numbered

/-!
# Transition Work State

`TransitionWorkState` of `ln-work`, over a port that may answer anything.
-/

namespace LawNexus.Work

abbrev WorkUnitId := CheckedId "work unit id"
abbrev CheckpointId := CheckedId "checkpoint id"
abbrev DomainSnapshotId := CheckedId "domain snapshot id"
abbrev PublicationSnapshotId := CheckedId "publication snapshot id"

def WORK_POLICY_VERSION : String := "hc10:work-state:v1"

inductive WorkState where
  | requested
  | running
  | cancelling
  | cancelled
  | failed
  | committed
  | stale
deriving DecidableEq, Repr

inductive WorkEvent where
  | start
  | cancel
  | cancelAck
  | resume
  | fail
  | commit
  | markStale
deriving DecidableEq, Repr

inductive TransitionOutcome where
  | transitioned
  | invalidTransition
  | staleCheckpoint
  | retryExhausted
  | legalMutationRejected
deriving DecidableEq, Repr

inductive LegalMappingAttempt where
  | none
  | progressAsVerified
  | progressAsCurrent
  | progressAsLegalState
  | mutateLifecycle
  | mutateClock
  | mutateIdentity
  | mutateRelation
  | mutateAuthority
deriving DecidableEq, Repr

def LegalMappingAttempt.isForbidden (attempt : LegalMappingAttempt) : Bool := attempt ≠ .none

structure TransitionRequest where
  workUnitId : WorkUnitId
  event : WorkEvent
  expectedCheckpoint : Option CheckpointId
  legalMapping : LegalMappingAttempt
deriving DecidableEq, Repr

structure TransitionTrace where
  policyVersion : String
  workUnitId : WorkUnitId
  event : WorkEvent
  fromState : WorkState
  toState : WorkState
  priorCheckpoint : CheckpointId
  newCheckpoint : CheckpointId
  domainSnapshotBefore : DomainSnapshotId
  domainSnapshotAfter : DomainSnapshotId
  publicationSnapshotBefore : PublicationSnapshotId
  publicationSnapshotAfter : PublicationSnapshotId
  domainUnchanged : Bool
  publicationUnchanged : Bool
  legalMappingAttempt : LegalMappingAttempt
  legalMappingApplied : Bool
deriving DecidableEq, Repr

structure TransitionResult where
  outcome : TransitionOutcome
  state : WorkState
  checkpoint : CheckpointId
  domainSnapshot : DomainSnapshotId
  publicationSnapshot : PublicationSnapshotId
  domainUnchanged : Bool
  publicationUnchanged : Bool
  legalMappingApplied : Bool
  trace : TransitionTrace
deriving DecidableEq, Repr

/-- The transition table of the processing states. -/
def nextState : WorkState → WorkEvent → Option WorkState
  | .requested, .start => some .running
  | .requested, .cancel => some .cancelling
  | .requested, .fail => some .failed
  | .running, .cancel => some .cancelling
  | .running, .fail => some .failed
  | .running, .commit => some .committed
  | .running, .markStale => some .stale
  | .cancelling, .cancelAck => some .cancelled
  | .cancelling, .fail => some .failed
  | .cancelled, .resume => some .running
  | .cancelled, .markStale => some .stale
  | .failed, .resume => some .running
  | .failed, .markStale => some .stale
  | .stale, .resume => some .running
  | .stale, .cancel => some .cancelling
  | .committed, .markStale => some .stale
  | _, _ => none

/-! ## Checkpoints -/

/-- The checkpoint with a number. -/
def checkpointAt (seq : UInt64) : CheckpointId := .numbered "cp:" rfl seq

theorem checkpointAt_inj {m n : UInt64} : checkpointAt m = checkpointAt n ↔ m = n :=
  CheckedId.numbered_inj

/-! ## Units -/

/-- The evidence answers from a state of its own, so two reads may get two answers. -/
structure DomainEvidencePort (ε : Type) where
  domainSnapshot : ε → WorkUnitId → DomainSnapshotId × ε
  publicationSnapshot : ε → WorkUnitId → PublicationSnapshotId × ε

/-- The checkpoint of a record is the one with its number. -/
structure WorkRecord where
  state : WorkState
  checkpoint : CheckpointId
  domainSnapshot : DomainSnapshotId
  publicationSnapshot : PublicationSnapshotId
  checkpointSeq : UInt64
  numbered : checkpoint = checkpointAt checkpointSeq
deriving DecidableEq

structure TransitionWorkState (ε : Type) where
  evidence : ε
  units : IdMap "work unit id" WorkRecord

namespace TransitionWorkState

variable {ε : Type}

def new (evidence : ε) : TransitionWorkState ε := ⟨evidence, ∅⟩

def record (s : TransitionWorkState ε) (workUnitId : WorkUnitId) : Option WorkRecord :=
  s.units.get workUnitId

def stateOf (s : TransitionWorkState ε) (workUnitId : WorkUnitId) : Option WorkState :=
  (s.record workUnitId).map (·.state)

def domainSnapshotOf (s : TransitionWorkState ε) (workUnitId : WorkUnitId) :
    Option DomainSnapshotId := (s.record workUnitId).map (·.domainSnapshot)

def publicationSnapshotOf (s : TransitionWorkState ε) (workUnitId : WorkUnitId) :
    Option PublicationSnapshotId := (s.record workUnitId).map (·.publicationSnapshot)

end TransitionWorkState

section

variable {ε : Type}

def resultFor (workUnitId : WorkUnitId) (event : WorkEvent) (outcome : TransitionOutcome)
    (fromState toState : WorkState) (before after : WorkRecord) (legalMapping : LegalMappingAttempt)
    (legalMappingApplied : Bool) (priorCheckpoint newCheckpoint : CheckpointId) :
    TransitionResult :=
  let domainUnchanged : Bool := before.domainSnapshot = after.domainSnapshot
  let publicationUnchanged : Bool := before.publicationSnapshot = after.publicationSnapshot
  { outcome
    state := after.state
    checkpoint := after.checkpoint
    domainSnapshot := after.domainSnapshot
    publicationSnapshot := after.publicationSnapshot
    domainUnchanged
    publicationUnchanged
    legalMappingApplied
    trace :=
      { policyVersion := WORK_POLICY_VERSION
        workUnitId
        event
        fromState
        toState
        priorCheckpoint
        newCheckpoint
        domainSnapshotBefore := before.domainSnapshot
        domainSnapshotAfter := after.domainSnapshot
        publicationSnapshotBefore := before.publicationSnapshot
        publicationSnapshotAfter := after.publicationSnapshot
        domainUnchanged
        publicationUnchanged
        legalMappingAttempt := legalMapping
        legalMappingApplied } }

/-- The answer for a unit that is not open. -/
def unknownUnit (request : TransitionRequest) : TransitionResult :=
  let domain : DomainSnapshotId := ⟨"domain:unknown-unit", rfl⟩
  let publication : PublicationSnapshotId := ⟨"publication:unknown-unit", rfl⟩
  let checkpoint : CheckpointId := ⟨"cp:none", rfl⟩
  { outcome := .invalidTransition
    state := .failed
    checkpoint
    domainSnapshot := domain
    publicationSnapshot := publication
    domainUnchanged := true
    publicationUnchanged := true
    legalMappingApplied := false
    trace :=
      { policyVersion := WORK_POLICY_VERSION
        workUnitId := request.workUnitId
        event := request.event
        fromState := .failed
        toState := .failed
        priorCheckpoint := checkpoint
        newCheckpoint := checkpoint
        domainSnapshotBefore := domain
        domainSnapshotAfter := domain
        publicationSnapshotBefore := publication
        publicationSnapshotAfter := publication
        domainUnchanged := true
        publicationUnchanged := true
        legalMappingAttempt := request.legalMapping
        legalMappingApplied := false } }

/-- The answer to a request that changes nothing. -/
def refused (request : TransitionRequest) (outcome : TransitionOutcome) (prior : WorkRecord) :
    TransitionResult :=
  resultFor request.workUnitId request.event outcome prior.state prior.state prior prior
    request.legalMapping false prior.checkpoint prior.checkpoint

/-- The record behind a transition. -/
def advanced (prior : WorkRecord) (next : WorkState) : WorkRecord :=
  let newSeq := prior.checkpointSeq + 1
  { prior with state := next, checkpoint := checkpointAt newSeq, checkpointSeq := newSeq, numbered := rfl }

variable (port : DomainEvidencePort ε) (s : TransitionWorkState ε)

/-- The `open` of the source. -/
def openUnit (workUnitId : WorkUnitId) : TransitionResult × TransitionWorkState ε :=
  let (domain, evidence) := port.domainSnapshot s.evidence workUnitId
  let (publication, evidence) := port.publicationSnapshot evidence workUnitId
  let checkpoint := checkpointAt 0
  let record : WorkRecord := ⟨.requested, checkpoint, domain, publication, 0, rfl⟩
  (resultFor workUnitId .start .transitioned .requested .requested record record .none false
      checkpoint checkpoint,
    ⟨evidence, s.units.insert workUnitId record⟩)

def transition (request : TransitionRequest) : TransitionResult × TransitionWorkState ε :=
  match s.record request.workUnitId with
  | none => (unknownUnit request, s)
  | some prior =>
    if request.expectedCheckpoint.any (· ≠ prior.checkpoint) then
      (refused request .staleCheckpoint prior, s)
    else if request.legalMapping.isForbidden then
      let (_, evidence) := port.domainSnapshot s.evidence request.workUnitId
      (refused request .legalMutationRejected prior, ⟨evidence, s.units⟩)
    else
      match nextState prior.state request.event with
      | none => (refused request .invalidTransition prior, s)
      | some next =>
        let updated := advanced prior next
        let (_, evidence) := port.domainSnapshot s.evidence request.workUnitId
        (resultFor request.workUnitId request.event .transitioned prior.state next prior updated
            request.legalMapping false prior.checkpoint updated.checkpoint,
          ⟨evidence, s.units.insert request.workUnitId updated⟩)

inductive Call where
  | openUnit (workUnitId : WorkUnitId)
  | transition (request : TransitionRequest)
deriving DecidableEq, Repr

def step : Call → TransitionResult × TransitionWorkState ε
  | .openUnit workUnitId => openUnit port s workUnitId
  | .transition request => transition port s request

end

end LawNexus.Work
