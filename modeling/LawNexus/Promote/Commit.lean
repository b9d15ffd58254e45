import LawNexus.Calls
import LawNexus.IdMap
import LawNexus.Numbered

/-!
# Commit Curated Promotion

`CommitCuratedPromotion` of `ln-promote`, over a store that may do anything.
-/

namespace LawNexus.Promote

abbrev PromotionOpId := CheckedId "promotion operation id"
abbrev InputDigest := CheckedId "input digest"
abbrev CommitId := CheckedId "commit id"
abbrev AcceptedSetId := CheckedId "accepted set id"

/-- Sealed: no promotion mints it. -/
inductive PublicationAuthority where
  | sealed
deriving DecidableEq, Repr

inductive PromotionAttemptState where
  | inProgress
  | cancelled
  | committed
deriving DecidableEq, Repr

inductive PromotionOutcome where
  | cancelled
  | committed
  | alreadyCommitted
  | rejectedMismatch
  | incomplete
deriving DecidableEq, Repr

structure PromotionRecord where
  opId : PromotionOpId
  acceptedSetId : AcceptedSetId
  inputDigest : InputDigest
  state : PromotionAttemptState
  commitId : Option CommitId
  commitDigest : Option InputDigest
  publicationAuthority : Option PublicationAuthority
deriving DecidableEq, Repr

structure PromotionResult where
  outcome : PromotionOutcome
  opId : PromotionOpId
  commitId : Option CommitId
  commitDigest : Option InputDigest
  publicationAuthority : Option PublicationAuthority
deriving DecidableEq, Repr

/-- What the policy uses of a store. -/
structure PromotionStorePort (σ : Type) where
  put : σ → PromotionRecord → σ
  nextCommitId : σ → CommitId × σ

/-- The state of `CommitCuratedPromotion`; the attempts are its `open` map. -/
structure Promoter (σ : Type) where
  store : σ
  committed : IdMap "promotion operation id" PromotionRecord
  attempts : IdMap "promotion operation id" PromotionRecord
  nextSeq : UInt64

def commitAt (seq : UInt64) : CommitId := .numbered "commit:" rfl seq

theorem commitAt_inj {m n : UInt64} : commitAt m = commitAt n ↔ m = n := CheckedId.numbered_inj

namespace Promoter

variable {σ : Type}

def new (store : σ) : Promoter σ := ⟨store, ∅, ∅, 0⟩

def committedCount (s : Promoter σ) : Nat := s.committed.len

def lookup (s : Promoter σ) (opId : PromotionOpId) : Option PromotionRecord :=
  (s.committed.get opId).or (s.attempts.get opId)

end Promoter

/-- An answer without a commit. -/
def bare (outcome : PromotionOutcome) (opId : PromotionOpId) : PromotionResult :=
  ⟨outcome, opId, none, none, none⟩

def handleExisting (existing : PromotionRecord) (acceptedSetId : AcceptedSetId)
    (inputDigest : InputDigest) : PromotionResult :=
  if existing.acceptedSetId ≠ acceptedSetId ∨ existing.inputDigest ≠ inputDigest then
    bare .rejectedMismatch existing.opId
  else if existing.state = .committed then
    ⟨.alreadyCommitted, existing.opId, existing.commitId, existing.commitDigest, none⟩
  else bare .incomplete existing.opId

section

variable {σ : Type} (port : PromotionStorePort σ) (s : Promoter σ)

def begin (opId : PromotionOpId) (acceptedSetId : AcceptedSetId) (inputDigest : InputDigest) :
    PromotionResult × Promoter σ :=
  match s.lookup opId with
  | some existing => (handleExisting existing acceptedSetId inputDigest, s)
  | none =>
    let record : PromotionRecord := ⟨opId, acceptedSetId, inputDigest, .inProgress, none, none, none⟩
    (bare .incomplete opId,
      { s with store := port.put s.store record, attempts := s.attempts.insert opId record })

def cancel (opId : PromotionOpId) : PromotionResult × Promoter σ :=
  match s.committed.get opId with
  | some existing => (⟨.alreadyCommitted, opId, existing.commitId, existing.commitDigest, none⟩, s)
  | none =>
    match s.attempts.get opId with
    | none => (bare .incomplete opId, s)
    | some existing =>
      let record := { existing with
        state := .cancelled, commitId := none, commitDigest := none, publicationAuthority := none }
      (bare .cancelled record.opId,
        { s with
          store := port.put s.store record
          attempts := (s.attempts.remove opId).insert record.opId record })

/-- The record of a commit with a number. -/
def committedRecord (seq : UInt64) (opId : PromotionOpId) (acceptedSetId : AcceptedSetId)
    (inputDigest : InputDigest) : PromotionRecord :=
  ⟨opId, acceptedSetId, inputDigest, .committed, some (commitAt seq), some inputDigest, none⟩

/-- The part of `commit` behind its checks. A map holds fewer than 2^64 entries: an insert that finds
no room never returns, so the counter does not overflow. -/
def mint (opId : PromotionOpId) (acceptedSetId : AcceptedSetId) (inputDigest : InputDigest) :
    Option PromotionResult × Promoter σ :=
  if s.committed.len + 1 < 2 ^ 64 then
    let nextSeq := s.nextSeq + 1
    let record := committedRecord nextSeq opId acceptedSetId inputDigest
    let (_, store) := port.nextCommitId s.store
    (some ⟨.committed, opId, record.commitId, record.commitDigest, none⟩,
      { store := port.put store record
        committed := s.committed.insert opId record
        attempts := s.attempts.remove opId
        nextSeq })
  else (none, s)

def commit (opId : PromotionOpId) (acceptedSetId : AcceptedSetId) (inputDigest : InputDigest) :
    Option PromotionResult × Promoter σ :=
  match s.lookup opId with
  | some existing =>
    match existing.state with
    | .committed => (some (handleExisting existing acceptedSetId inputDigest), s)
    | .cancelled | .inProgress =>
      if existing.acceptedSetId ≠ acceptedSetId ∨ existing.inputDigest ≠ inputDigest then
        (some (bare .rejectedMismatch opId), s)
      else mint port s opId acceptedSetId inputDigest
  | none => mint port s opId acceptedSetId inputDigest

inductive Call where
  | begin (opId : PromotionOpId) (acceptedSetId : AcceptedSetId) (inputDigest : InputDigest)
  | cancel (opId : PromotionOpId)
  | commit (opId : PromotionOpId) (acceptedSetId : AcceptedSetId) (inputDigest : InputDigest)
deriving DecidableEq, Repr

def Call.opId : Call → PromotionOpId
  | .begin opId _ _ | .cancel opId | .commit opId _ _ => opId

/-- A call that never returns has no answer. -/
def step : Call → Option PromotionResult × Promoter σ
  | .begin opId acceptedSetId inputDigest =>
    let (answer, s) := begin port s opId acceptedSetId inputDigest
    (some answer, s)
  | .cancel opId =>
    let (answer, s) := cancel port s opId
    (some answer, s)
  | .commit opId acceptedSetId inputDigest => commit port s opId acceptedSetId inputDigest

end

end LawNexus.Promote
