import LawNexus.Canon.Force

/-!
# The edition delta

The provenance packet of `ln-temporal/src/provenance.rs` and the `(from, to]` delta of two
checkouts. Every line of a delta carries a full packet, or the whole call is refused.
-/

namespace LawNexus

open Loops Texts

/-! ## The provenance packet -/

inductive ProvenanceConstructionError
  | missingAmendingAct
  | missingAffectedProvision
  | missingCommencement
  | missingDeltaEvidence
  | missingTransitional
  | unprovenCommencement
  | duplicateAmendingAct
  | duplicateProvision
  | duplicateDeltaEvidence
  | missingTransitionalJustification
  | invalidId (error : IdError)
deriving DecidableEq, Repr

structure CommencementEvidence where
  effectDay : Int
  evidenceClass : EvidenceClass
  ruleRef : CanonRecordId
  proven : evidenceClass ≠ .editorialHint
deriving DecidableEq, Repr

def CommencementEvidence.tryNew (effectDay : Int) (evidenceClass : EvidenceClass)
    (ruleRef : String) : Except ProvenanceConstructionError CommencementEvidence :=
  if h : evidenceClass = .editorialHint then .error .unprovenCommencement
  else if (trim ruleRef).isEmpty then .error .missingCommencement
  else match CheckedId.parse "canon record id" (trim ruleRef) with
    | .error e => .error (.invalidId e)
    | .ok ruleRef => .ok ⟨effectDay, evidenceClass, ruleRef, h⟩

inductive TransitionalEvidence
  | declared (ruleRef : CanonRecordId)
  | explicitlyAbsent (justification : String)
deriving DecidableEq, Repr

/-- The commencement fields stay raw here: the delta parses them. -/
structure ProvenanceAdmission where
  target : ComponentConceptId
  effectDay : Int
  evidenceClass : EvidenceClass
  ruleRef : String
  transitional : TransitionalEvidence
  hasRuleRef : (trim ruleRef).isEmpty = false
deriving DecidableEq, Repr

def ProvenanceAdmission.tryNew (target : ComponentConceptId) (effectDay : Int)
    (evidenceClass : EvidenceClass) (ruleRef : String) (transitional : TransitionalEvidence) :
    Except ProvenanceConstructionError ProvenanceAdmission :=
  if h : (trim ruleRef).isEmpty = false then
    .ok ⟨target, effectDay, evidenceClass, ruleRef, transitional, h⟩
  else .error .missingCommencement

structure EditionProvenanceEnvelope where
  amendingActs : List AmendingActId
  affectedProvisions : List ComponentConceptId
  commencement : CommencementEvidence
  transitional : TransitionalEvidence
  deltaEvidence : List CanonRecordId
deriving DecidableEq, Repr

/-- The neighbours in a list: `windows(2)`. -/
def windows2 {α : Type} (l : List α) : List (α × α) := l.zip l.tail

def repeats {α : Type} [DecidableEq α] (l : List α) : Bool :=
  (windows2 l).any fun (a, b) => a = b

def EditionProvenanceEnvelope.tryNew (amendingActs : List AmendingActId)
    (affectedProvisions : List ComponentConceptId) (commencement : CommencementEvidence)
    (transitional : TransitionalEvidence) (deltaEvidence : List CanonRecordId) :
    Except ProvenanceConstructionError EditionProvenanceEnvelope :=
  if amendingActs.isEmpty then .error .missingAmendingAct
  else if affectedProvisions.isEmpty then .error .missingAffectedProvision
  else if deltaEvidence.isEmpty then .error .missingDeltaEvidence
  else
    let amendingActs := sortBy (·.asStr) amendingActs
    let affectedProvisions := sortBy (·.asStr) affectedProvisions
    let deltaEvidence := sortBy (·.asStr) deltaEvidence
    if repeats amendingActs then .error .duplicateAmendingAct
    else if repeats affectedProvisions then .error .duplicateProvision
    else if repeats deltaEvidence then .error .duplicateDeltaEvidence
    else .ok ⟨amendingActs, affectedProvisions, commencement, transitional, deltaEvidence⟩

/-! ## The lines of a delta -/

inductive EditionDeltaError
  | window (error : ThreeCanonLogError)
  | unresolved (target : ComponentConceptId) (cause : ProvenanceConstructionError)
  | missingAdmission (target : ComponentConceptId)
deriving DecidableEq, Repr

structure DeltaDedupReport where
  amendingActDuplicates : Nat
  deltaEvidenceDuplicates : Nat
deriving DecidableEq, Repr

structure ProvisionDelta where
  target : ComponentConceptId
  forceFrom : NormativeState
  forceTo : NormativeState
  forceConflictFrom : Bool
  forceConflictTo : Bool
  events : List ThreeCanonRecord
  provenance : EditionProvenanceEnvelope
deriving DecidableEq, Repr

structure EditionDelta where
  fromDay : Int
  toDay : Int
  provisions : List ProvisionDelta
  nonClaims : List String
  dedupReport : DeltaDedupReport
deriving DecidableEq, Repr

def editionDeltaNonClaims : List String :=
  ["Derived (from, to] diff of two point per-target checkouts of the recorded three-canon log; not WALK-T compiler, not bitemporal checkout",
   "Not the crystal compiler, not MicroOperation, not CoverageCertificate (D216/D312)",
   "Not interval algebra (D228)",
   "Not R070 amending-act text evidence; synthetic act ids are not G1/G2 corpus (D179)",
   "D-03 remains open-bounded: this is a log-computable read-model, not the crystal compiler",
   "Gated provenance envelope: every kept line carries a full EditionProvenanceEnvelope or the whole edition_delta call is refused (D409); wiring is evidence bookkeeping, not provenance coverage — R070 stays open"]

structure KeptProvisionLine where
  target : ComponentConceptId
  forceFrom : NormativeState
  forceTo : NormativeState
  forceConflictFrom : Bool
  forceConflictTo : Bool
  events : List ThreeCanonRecord

/-- The act that an amendment names. -/
def ThreeCanonRecord.act : ThreeCanonRecord → Option AmendingActId
  | .amendment event => some event.provenance
  | _ => none

def countRepeats {α : Type} [DecidableEq α] (l : List α) : Nat :=
  (windows2 l).countP fun (a, b) => a = b

def editionDeltaEnvelope (target : ComponentConceptId) (events : List ThreeCanonRecord)
    (admission : ProvenanceAdmission) :
    Except ProvenanceConstructionError (EditionProvenanceEnvelope × DeltaDedupReport) :=
  let acts := events.filterMap (·.act)
  let amendingActDuplicates := countRepeats (sortBy (·.asStr) acts)
  let evidence := events.map (·.recordId)
  let deltaEvidenceDuplicates := amendingActDuplicates + countRepeats (sortBy (·.asStr) evidence)
  match CommencementEvidence.tryNew admission.effectDay admission.evidenceClass
      admission.ruleRef with
  | .error e => .error e
  | .ok commencement =>
    match EditionProvenanceEnvelope.tryNew (sortDedup (·.asStr) acts) [target] commencement
        admission.transitional (sortDedup (·.asStr) evidence) with
    | .error e => .error e
    | .ok envelope => .ok (envelope, ⟨amendingActDuplicates, deltaEvidenceDuplicates⟩)

/-! ## The delta -/

/-- The canon events of the window, without the edge it starts from. -/
def windowEvents (log : ThreeCanonEventLog) (fromDay toDay : Int) : List ThreeCanonRecord :=
  log.records.filter fun r => r.isCanonEvent ∧ fromDay < r.effectDay ∧ r.effectDay ≤ toDay

/-- The readout of a checkout for a component, or the silent one. -/
def CheckoutProjection.boundary (checkout : CheckoutProjection) (target : ComponentConceptId) :
    NormativeState × Bool :=
  ((checkout.provisions.find? fun p => p.target = target).map
    fun p => (p.forceStatus, p.forceConflict)).getD (.unknown, false)

def eventsIn (window : List (ComponentConceptId × List ThreeCanonRecord))
    (target : ComponentConceptId) : List ThreeCanonRecord :=
  ((window.find? fun e => e.1 = target).map (·.2)).getD []

/-- A line is kept when its force differs across the window or the window has events for it. -/
def keptLine (checkoutFrom checkoutTo : CheckoutProjection)
    (window : List (ComponentConceptId × List ThreeCanonRecord)) (target : ComponentConceptId) :
    Option KeptProvisionLine :=
  let (forceFrom, forceConflictFrom) := checkoutFrom.boundary target
  let (forceTo, forceConflictTo) := checkoutTo.boundary target
  let events := eventsIn window target
  if forceFrom = forceTo ∧ events.isEmpty then none
  else some ⟨target, forceFrom, forceTo, forceConflictFrom, forceConflictTo, events⟩

/-- The gate: a kept line gets its packet from the first admission of its target. -/
def admitLine (admissions : List ProvenanceAdmission) (line : KeptProvisionLine) :
    Except EditionDeltaError (ProvisionDelta × DeltaDedupReport) :=
  match admissions.find? fun candidate => candidate.target = line.target with
  | none => .error (.missingAdmission line.target)
  | some admission =>
    match editionDeltaEnvelope line.target line.events admission with
    | .error cause => .error (.unresolved line.target cause)
    | .ok (provenance, report) =>
      .ok (⟨line.target, line.forceFrom, line.forceTo, line.forceConflictFrom,
        line.forceConflictTo, line.events, provenance⟩, report)

/-- The report of a call, added up line by line. -/
def dedupTotals (lines : List (ProvisionDelta × DeltaDedupReport)) : DeltaDedupReport :=
  lines.foldl (fun total line =>
    ⟨total.amendingActDuplicates + line.2.amendingActDuplicates,
      total.deltaEvidenceDuplicates + line.2.deltaEvidenceDuplicates⟩) ⟨0, 0⟩

def editionDelta (log : ThreeCanonEventLog) (fromDay toDay : Int)
    (admissions : List ProvenanceAdmission) : Except EditionDeltaError EditionDelta :=
  if fromDay > toDay then .error (.window .invertedRange)
  else match checkoutProjectionAt log fromDay, checkoutProjectionAt log toDay with
    | .error e, _ => .error (.window e)
    | _, .error e => .error (.window e)
    | .ok checkoutFrom, .ok checkoutTo =>
      let window := group (·.target) (windowEvents log fromDay toDay)
      -- The three sources of targets, each pushed where it is not known yet.
      let targets := (checkoutTo.provisions.map (·.target) ++ window.map (·.1)).foldl pushNew
        (checkoutFrom.provisions.map (·.target))
      let kept := sortBy (·.target.asStr)
        (targets.filterMap (keptLine checkoutFrom checkoutTo window))
      (kept.mapM (admitLine admissions)).map fun lines =>
        ⟨fromDay, toDay, lines.map (·.1), editionDeltaNonClaims, dedupTotals lines⟩

def Sample.admission : ProvenanceAdmission :=
  ⟨Sample.chapter, 1, .legislative, " rec:0 ", .explicitlyAbsent "no rule", by decide⟩

end LawNexus
