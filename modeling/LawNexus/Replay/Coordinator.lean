import LawNexus.Ids
import LawNexus.Texts

/-!
# The replay coordinator

`CoordinateCheckpointAndReplay` of `ln-replay`, over ports that may answer anything.
-/

namespace LawNexus.Replay

abbrev RequestId := CheckedId "request id"
abbrev CheckpointId := CheckedId "checkpoint id"
abbrev CheckpointDigest := CheckedId "checkpoint digest"
abbrev EffectId := CheckedId "effect id"
abbrev OperationId := CheckedId "operation id"
abbrev RuleVersion := CheckedId "rule version"

def REPLAY_POLICY_VERSION : String := "hc14:checkpoint-replay:v1"

inductive ReplayOutcome where
  | applied
  | suppressed
  | corrupt
  | incompatibleRule
  | incomplete
  | mismatch
deriving DecidableEq, Repr

/-- Sealed: no replay mints one. -/
inductive PublicationAuthority where
  | sealed
deriving DecidableEq, Repr

structure CheckpointRecord where
  checkpointId : CheckpointId
  digest : CheckpointDigest
  ruleVersion : RuleVersion
  operationId : OperationId
  effectId : EffectId
  historyDigest : CheckpointDigest
deriving DecidableEq, Repr

structure ReplayRequest where
  requestId : RequestId
  checkpointId : CheckpointId
  expectedDigest : CheckpointDigest
  expectedRuleVersion : RuleVersion
  operationId : OperationId
  effectId : EffectId
deriving DecidableEq, Repr

structure ReplayTrace where
  policyVersion : String
  requestId : RequestId
  outcome : ReplayOutcome
  checkpointId : CheckpointId
  expectedDigest : CheckpointDigest
  observedDigest : Option CheckpointDigest
  expectedRuleVersion : RuleVersion
  observedRuleVersion : Option RuleVersion
  operationId : OperationId
  effectId : EffectId
  priorAppliedDigest : Option CheckpointDigest
  appliedCountBefore : Nat
  appliedCountAfter : Nat
  effectSuppressed : Bool
  lineageRewritten : Bool
  publicationAuthority : Option PublicationAuthority
  publicationAuthorityChanged : Bool
deriving DecidableEq, Repr

structure ReplayResult where
  outcome : ReplayOutcome
  appliedCount : Nat
  effectSuppressed : Bool
  lineageRewritten : Bool
  publicationAuthority : Option PublicationAuthority
  publicationAuthorityChanged : Bool
  trace : ReplayTrace
deriving DecidableEq, Repr

/-! ## Ports -/

/-- A port answers from a state of its own, so two calls may get two answers. -/
structure CheckpointPort (σ : Type) where
  load : σ → CheckpointId → Option CheckpointRecord × σ

structure EffectLedgerPort (τ : Type) where
  hasApplied : τ → OperationId → EffectId → Bool × τ
  tryApply : τ → OperationId → EffectId → CheckpointDigest → Bool × τ

/-! ## The applied identities -/

/-- A `HashMap` from key to digest, in the order of insertion. -/
abbrev Applied := List (String × CheckpointDigest)

def Applied.get (applied : Applied) (key : String) : Option CheckpointDigest :=
  (applied.find? (·.1 = key)).map (·.2)

def Applied.insert (applied : Applied) (key : String) (digest : CheckpointDigest) : Applied :=
  if (applied.get key).isSome then
    applied.map fun e => if e.1 = key then (key, digest) else e
  else applied ++ [(key, digest)]

/-- The key of the coordinator and of the ledgers. -/
def ledgerKey (operationId : OperationId) (effectId : EffectId) : String :=
  operationId.asStr ++ "|" ++ effectId.asStr

/-! ## The coordinator -/

structure Coordinator (σ τ : Type) where
  checkpoints : σ
  ledger : τ
  applied : Applied

section

variable {σ τ : Type}

def Coordinator.new (checkpoints : σ) (ledger : τ) : Coordinator σ τ := ⟨checkpoints, ledger, []⟩

def Coordinator.appliedCount (s : Coordinator σ τ) : Nat := s.applied.length

def finish (request : ReplayRequest) (outcome : ReplayOutcome)
    (observedDigest : Option CheckpointDigest) (observedRuleVersion : Option RuleVersion)
    (priorAppliedDigest : Option CheckpointDigest) (appliedCountBefore appliedCountAfter : Nat)
    (effectSuppressed lineageRewritten : Bool) : ReplayResult :=
  { outcome
    appliedCount := appliedCountAfter
    effectSuppressed
    lineageRewritten
    publicationAuthority := none
    publicationAuthorityChanged := false
    trace :=
      { policyVersion := REPLAY_POLICY_VERSION
        requestId := request.requestId
        outcome
        checkpointId := request.checkpointId
        expectedDigest := request.expectedDigest
        observedDigest
        expectedRuleVersion := request.expectedRuleVersion
        observedRuleVersion
        operationId := request.operationId
        effectId := request.effectId
        priorAppliedDigest
        appliedCountBefore
        appliedCountAfter
        effectSuppressed
        lineageRewritten
        publicationAuthority := none
        publicationAuthorityChanged := false } }

/-- A request that is refused or suppressed: the count stays. -/
def Coordinator.refuse (s : Coordinator σ τ) (request : ReplayRequest) (outcome : ReplayOutcome)
    (record : CheckpointRecord) : ReplayResult :=
  finish request outcome (some record.digest) (some record.ruleVersion) none s.appliedCount
    s.appliedCount false false

/-- The request behind its checks: suppressed when its key is applied, else applied. -/
def Coordinator.apply (ledger : EffectLedgerPort τ) (s : Coordinator σ τ)
    (request : ReplayRequest) (record : CheckpointRecord) : ReplayResult × Coordinator σ τ :=
  let key := ledgerKey request.operationId request.effectId
  match s.applied.get key with
  | some prior =>
    (finish request .suppressed (some record.digest) (some record.ruleVersion) (some prior)
        s.appliedCount s.appliedCount true false,
      { s with ledger := (ledger.hasApplied s.ledger request.operationId request.effectId).2 })
  | none =>
    let applied := s.applied.insert key record.digest
    let answer := ledger.tryApply s.ledger request.operationId request.effectId record.digest
    (finish request .applied (some record.digest) (some record.ruleVersion) none s.appliedCount
        applied.length false false,
      { s with applied, ledger := answer.2 })

def Coordinator.replay (checkpoints : CheckpointPort σ) (ledger : EffectLedgerPort τ)
    (s : Coordinator σ τ) (request : ReplayRequest) : ReplayResult × Coordinator σ τ :=
  let answer := checkpoints.load s.checkpoints request.checkpointId
  let s' := { s with checkpoints := answer.2 }
  match answer.1 with
  | none =>
    (finish request .incomplete none none none s.appliedCount s.appliedCount false false, s')
  | some record =>
    if record.digest ≠ request.expectedDigest then (s.refuse request .corrupt record, s')
    else if record.ruleVersion ≠ request.expectedRuleVersion then
      (s.refuse request .incompatibleRule record, s')
    else if record.operationId ≠ request.operationId ∨ record.effectId ≠ request.effectId then
      (s.refuse request .mismatch record, s')
    else s'.apply ledger request record

/-- A sequence of requests: what each was answered, and the coordinator behind them. -/
def Coordinator.replayAll (checkpoints : CheckpointPort σ) (ledger : EffectLedgerPort τ)
    (s : Coordinator σ τ) : List ReplayRequest → List (ReplayRequest × ReplayResult) ×
      Coordinator σ τ
  | [] => ([], s)
  | request :: rest =>
    let step := s.replay checkpoints ledger request
    let run := step.2.replayAll checkpoints ledger rest
    ((request, step.1) :: run.1, run.2)

end

end LawNexus.Replay
