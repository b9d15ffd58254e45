import LawNexus.Calls
import LawNexus.IdMap
import LawNexus.Numbered

/-!
# Publish Authoritative H1

`PublishAuthoritativeH1` of `ln-publish`, over a ledger that may do anything.
-/

namespace LawNexus.Publish

abbrev H1UnitId := CheckedId "h1 unit id"
abbrev OperationId := CheckedId "operation id"
abbrev InputDigest := CheckedId "input digest"
abbrev ScopeId := CheckedId "scope id"
abbrev CutoffId := CheckedId "cutoff id"
abbrev RuleVersion := CheckedId "rule version"
abbrev WriterId := CheckedId "writer id"

def PUBLICATION_POLICY_VERSION : String := "hc15:publish-authoritative-h1:v1"

inductive AuthoritySurface where
  | publication
deriving DecidableEq, Repr

/-- Sealed: only a complete first publish mints it. -/
inductive PublicationAuthority where
  | sealed
deriving DecidableEq, Repr

inductive CompletenessEvidence where
  | complete
  | partially
  | missing
deriving DecidableEq, Repr

def CompletenessEvidence.isComplete (evidence : CompletenessEvidence) : Bool := evidence = .complete

inductive PublicationOutcome where
  | published
  | duplicate
  | incomplete
  | conflict
  | cancelled
  | failed
  | competingWriterRejected
deriving DecidableEq, Repr

structure PublishRequest where
  operationId : OperationId
  writerId : WriterId
  scopeId : ScopeId
  cutoffId : CutoffId
  ruleVersion : RuleVersion
  inputDigest : InputDigest
  completeness : CompletenessEvidence
deriving DecidableEq, Repr

structure PublicationRecord where
  operationId : OperationId
  writerId : WriterId
  scopeId : ScopeId
  cutoffId : CutoffId
  ruleVersion : RuleVersion
  inputDigest : InputDigest
  h1UnitId : H1UnitId
  completeness : CompletenessEvidence
  authoritative : Bool
  publicationAuthority : Option PublicationAuthority
  authoritySurface : AuthoritySurface
deriving DecidableEq, Repr

structure PublicationResult where
  outcome : PublicationOutcome
  operationId : OperationId
  writerId : WriterId
  scopeId : ScopeId
  h1UnitId : Option H1UnitId
  inputDigest : Option InputDigest
  authoritative : Bool
  publicationAuthority : Option PublicationAuthority
  authoritySurface : AuthoritySurface
  policyVersion : String
deriving DecidableEq, Repr

/-- What the service uses of a ledger. -/
structure PublicationLedgerPort (ℓ : Type) where
  put : ℓ → PublicationRecord → ℓ

/-- The state of `PublishAuthoritativeH1`. -/
structure Publisher (ℓ : Type) where
  ledger : ℓ
  byOperation : IdMap "operation id" PublicationRecord
  byScope : IdMap "scope id" PublicationRecord
  writers : IdMap "scope id" WriterId
  nextUnitSeq : UInt64

def h1Unit (n : UInt64) : H1UnitId := .numbered "h1:" rfl n

theorem h1Unit_inj {m n : UInt64} : h1Unit m = h1Unit n ↔ m = n := CheckedId.numbered_inj

namespace Publisher

variable {ℓ : Type}

def new (ledger : ℓ) : Publisher ℓ := ⟨ledger, ∅, ∅, ∅, 0⟩

def operation (s : Publisher ℓ) (operationId : OperationId) : Option PublicationRecord :=
  s.byOperation.get operationId

def scope (s : Publisher ℓ) (scopeId : ScopeId) : Option PublicationRecord :=
  s.byScope.get scopeId

def authoritativeCount (s : Publisher ℓ) : Nat := s.byScope.len

def unitForScope (s : Publisher ℓ) (scopeId : ScopeId) : Option H1UnitId :=
  (s.scope scopeId).map (·.h1UnitId)

def writerForScope (s : Publisher ℓ) (scopeId : ScopeId) : Option WriterId :=
  s.writers.get scopeId

end Publisher

/-! ## Answers -/

def finish (request : PublishRequest) (outcome : PublicationOutcome) (h1UnitId : Option H1UnitId)
    (authoritative : Bool) (publicationAuthority : Option PublicationAuthority) :
    PublicationResult :=
  let (authoritative, publicationAuthority) :=
    if authoritative && (outcome = .published || outcome = .duplicate) then
      (true, publicationAuthority)
    else (false, none)
  { outcome
    operationId := request.operationId
    writerId := request.writerId
    scopeId := request.scopeId
    h1UnitId
    inputDigest :=
      if authoritative then some request.inputDigest
      else if outcome = .conflict || outcome = .competingWriterRejected then none
      else some request.inputDigest
    authoritative
    publicationAuthority
    authoritySurface := .publication
    policyVersion := PUBLICATION_POLICY_VERSION }

def handleExistingOperation (request : PublishRequest) (existing : PublicationRecord) :
    PublicationResult :=
  if existing.writerId ≠ request.writerId then
    finish request .competingWriterRejected (some existing.h1UnitId) false none
  else if existing.scopeId ≠ request.scopeId ∨ existing.inputDigest ≠ request.inputDigest ∨
      existing.cutoffId ≠ request.cutoffId ∨ existing.ruleVersion ≠ request.ruleVersion then
    finish request .conflict (some existing.h1UnitId) false none
  else finish request .duplicate (some existing.h1UnitId) true existing.publicationAuthority

/-- The part of `publish` for a scope that has a unit. -/
def handleExistingScope (request : PublishRequest) (existing : PublicationRecord) :
    PublicationResult :=
  if existing.writerId ≠ request.writerId then
    finish request .competingWriterRejected (some existing.h1UnitId) false none
  else if existing.inputDigest ≠ request.inputDigest ∨ existing.cutoffId ≠ request.cutoffId ∨
      existing.ruleVersion ≠ request.ruleVersion then
    finish request .conflict (some existing.h1UnitId) false none
  else finish request .duplicate (some existing.h1UnitId) true existing.publicationAuthority

def recordOf (request : PublishRequest) (h1UnitId : H1UnitId) : PublicationRecord where
  operationId := request.operationId
  writerId := request.writerId
  scopeId := request.scopeId
  cutoffId := request.cutoffId
  ruleVersion := request.ruleVersion
  inputDigest := request.inputDigest
  h1UnitId
  completeness := .complete
  authoritative := true
  publicationAuthority := some .sealed
  authoritySurface := .publication

/-! ## Calls -/

section

variable {ℓ : Type} (port : PublicationLedgerPort ℓ) (s : Publisher ℓ)

/-- The part of `publish` for a scope without a unit. -/
def mint (request : PublishRequest) : PublicationResult × Publisher ℓ :=
  let nextUnitSeq := s.nextUnitSeq + 1
  let record := recordOf request (h1Unit nextUnitSeq)
  (finish request .published (some (h1Unit nextUnitSeq)) true (some .sealed),
    { ledger := port.put s.ledger record
      byOperation := s.byOperation.insert request.operationId record
      byScope := s.byScope.insert request.scopeId record
      writers := s.writers.insert request.scopeId request.writerId
      nextUnitSeq })

def publish (request : PublishRequest) : PublicationResult × Publisher ℓ :=
  if request.completeness.isComplete then
    match s.operation request.operationId with
    | some existing => (handleExistingOperation request existing, s)
    | none =>
      match s.scope request.scopeId with
      | some existing => (handleExistingScope request existing, s)
      | none =>
        if (s.writerForScope request.scopeId).any (· ≠ request.writerId) then
          (finish request .competingWriterRejected none false none, s)
        else mint port s request
  else (finish request .incomplete none false none, s)

def cancel (operationId : OperationId) (writerId : WriterId) : PublicationResult :=
  match s.operation operationId with
  | some existing =>
    { outcome := .duplicate
      operationId
      writerId
      scopeId := existing.scopeId
      h1UnitId := some existing.h1UnitId
      inputDigest := some existing.inputDigest
      authoritative := true
      publicationAuthority := existing.publicationAuthority
      authoritySurface := .publication
      policyVersion := PUBLICATION_POLICY_VERSION }
  | none =>
    { outcome := .cancelled
      operationId
      writerId
      scopeId := ⟨"scope:none", rfl⟩
      h1UnitId := none
      inputDigest := none
      authoritative := false
      publicationAuthority := none
      authoritySurface := .publication
      policyVersion := PUBLICATION_POLICY_VERSION }

def fail (request : PublishRequest) : PublicationResult := finish request .failed none false none

inductive Call where
  | publish (request : PublishRequest)
  | cancel (operationId : OperationId) (writerId : WriterId)
  | fail (request : PublishRequest)
deriving DecidableEq, Repr

def step : Call → PublicationResult × Publisher ℓ
  | .publish request => publish port s request
  | .cancel operationId writerId => (cancel s operationId writerId, s)
  | .fail request => (fail request, s)

end

/-! ## What a publish does -/

variable {ℓ : Type} {port : PublicationLedgerPort ℓ} {s : Publisher ℓ} {request : PublishRequest}

/-- Two records of one publication, or a record and a request for it. -/
structure Matches (request : PublishRequest) (existing : PublicationRecord) : Prop where
  writer : existing.writerId = request.writerId
  digest : existing.inputDigest = request.inputDigest
  cutoff : existing.cutoffId = request.cutoffId
  rules : existing.ruleVersion = request.ruleVersion

/-- An answer without authority is one of the refusals. -/
def Refusal (answer : PublicationResult) : Prop :=
  answer.authoritative = false ∧ answer.outcome ≠ .published ∧ answer.outcome ≠ .duplicate

/-- The answer that repeats an existing unit. -/
def repeated (request : PublishRequest) (existing : PublicationRecord) : PublicationResult :=
  finish request .duplicate (some existing.h1UnitId) true existing.publicationAuthority

theorem handleExistingOperation_of_matches {existing : PublicationRecord}
    (hscope : existing.scopeId = request.scopeId) (h : Matches request existing) :
    handleExistingOperation request existing = repeated request existing := by
  rw [handleExistingOperation, if_neg (not_not.mpr h.writer), if_neg, repeated]
  simp [hscope, h.digest, h.cutoff, h.rules]

theorem handleExistingOperation_of_not {existing : PublicationRecord}
    (h : ¬ (existing.scopeId = request.scopeId ∧ Matches request existing)) :
    Refusal (handleExistingOperation request existing) ∧
      ((handleExistingOperation request existing).outcome = .conflict ∨
        (handleExistingOperation request existing).outcome = .competingWriterRejected) := by
  unfold handleExistingOperation
  split_ifs with hwriter hother
  · exact ⟨⟨rfl, nofun, nofun⟩, .inr rfl⟩
  · exact ⟨⟨rfl, nofun, nofun⟩, .inl rfl⟩
  · push Not at hwriter hother
    obtain ⟨hscope, hdigest, hcutoff, hrules⟩ := hother
    exact absurd ⟨hscope, hwriter, hdigest, hcutoff, hrules⟩ h

theorem handleExistingScope_of_matches {existing : PublicationRecord} (h : Matches request existing) :
    handleExistingScope request existing = repeated request existing := by
  rw [handleExistingScope, if_neg (not_not.mpr h.writer), if_neg, repeated]
  simp [h.digest, h.cutoff, h.rules]

theorem handleExistingScope_of_not {existing : PublicationRecord} (h : ¬ Matches request existing) :
    Refusal (handleExistingScope request existing) := by
  unfold handleExistingScope
  split_ifs with hwriter hother
  · exact ⟨rfl, nofun, nofun⟩
  · exact ⟨rfl, nofun, nofun⟩
  · push Not at hwriter hother
    obtain ⟨hdigest, hcutoff, hrules⟩ := hother
    exact absurd ⟨hwriter, hdigest, hcutoff, hrules⟩ h

/-- A publish refuses, repeats an existing unit, or mints one. -/
inductive Publishes (port : PublicationLedgerPort ℓ) (s : Publisher ℓ) (request : PublishRequest) :
    PublicationResult × Publisher ℓ → Prop
  | refused {answer : PublicationResult} (h : Refusal answer) : Publishes port s request (answer, s)
  | operation {existing : PublicationRecord} (hcomplete : request.completeness.isComplete = true)
    (hoperation : s.operation request.operationId = some existing)
    (hscope : existing.scopeId = request.scopeId) (h : Matches request existing) :
    Publishes port s request (repeated request existing, s)
  | scope {existing : PublicationRecord} (hcomplete : request.completeness.isComplete = true)
    (hoperation : s.operation request.operationId = none)
    (hscope : s.scope request.scopeId = some existing) (h : Matches request existing) :
    Publishes port s request (repeated request existing, s)
  | minted (hcomplete : request.completeness.isComplete = true)
    (hoperation : s.operation request.operationId = none)
    (hscope : s.scope request.scopeId = none) : Publishes port s request (mint port s request)

theorem publishes (port : PublicationLedgerPort ℓ) (s : Publisher ℓ) (request : PublishRequest) :
    Publishes port s request (publish port s request) := by
  unfold publish
  by_cases hcomplete : request.completeness.isComplete = true
  · rw [if_pos hcomplete]
    cases hoperation : s.operation request.operationId with
    | some existing =>
      by_cases h : existing.scopeId = request.scopeId ∧ Matches request existing
      · dsimp only
        rw [handleExistingOperation_of_matches h.1 h.2]
        exact .operation hcomplete hoperation h.1 h.2
      · exact .refused (handleExistingOperation_of_not h).1
    | none =>
      cases hscope : s.scope request.scopeId with
      | some existing =>
        by_cases h : Matches request existing
        · dsimp only
          rw [handleExistingScope_of_matches h]
          exact .scope hcomplete hoperation hscope h
        · exact .refused (handleExistingScope_of_not h)
      | none =>
        dsimp only
        split_ifs
        · exact .refused ⟨rfl, nofun, nofun⟩
        · exact .minted hcomplete hoperation hscope
  · rw [if_neg hcomplete]
    exact .refused ⟨rfl, nofun, nofun⟩

end LawNexus.Publish
