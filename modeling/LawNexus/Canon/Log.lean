import LawNexus.Ids
import LawNexus.Texts

/-!
# The three-canon event log

The records of `ln-temporal/src/domain.rs` and the log that holds them. A record value
carries what its constructor checked, and a log value what `append` checked.
-/

namespace LawNexus

open Texts

/-! ## The words of the records -/

inductive NormativeState
  | inForce
  | notYetInForce
  | suspended
  | expired
  | repealed
  | invalidated
  | unknown
deriving DecidableEq, Repr

def NormativeState.asStr : NormativeState → String
  | .inForce => "in_force"
  | .notYetInForce => "not_yet_in_force"
  | .suspended => "suspended"
  | .expired => "expired"
  | .repealed => "repealed"
  | .invalidated => "invalidated"
  | .unknown => "unknown"

def NormativeState.isTransitionTarget (s : NormativeState) : Bool :=
  s ≠ .unknown

inductive EvidenceClass
  | legislative
  | hypothesizedFromOracleDiff
  | editorialHint
deriving DecidableEq, Repr

inductive AmendmentFacetKind
  | structural
  | industrial
  | text
  | force
deriving DecidableEq, Repr

inductive ThreeCanonLogError
  | invalidId (error : IdError)
  | orderingConflict
  | duplicateRecordId
  | emptyFacets
  | forceFacetMismatch
  | unknownNotTransition
  | emptyDigest
  | missingAmendingActIdentity
  | overviewNotLegislativeEvent
  | invertedRange
deriving DecidableEq, Repr

/-! ## The three kinds of record -/

/-- A force transition, where there is one, is a written one. -/
def TransitionAllowed (transition : Option NormativeState) : Prop :=
  ∀ s ∈ transition, s.isTransitionTarget = true

instance (transition : Option NormativeState) : Decidable (TransitionAllowed transition) :=
  inferInstanceAs (Decidable (∀ s ∈ transition, s.isTransitionTarget = true))

structure AmendmentEvent where
  recordId : CanonRecordId
  target : ComponentConceptId
  effectDay : Int
  provenance : AmendingActId
  evidence : EvidenceClass
  facets : List AmendmentFacetKind
  forceTransition : Option NormativeState
  someFacet : facets ≠ []
  forceFacet : AmendmentFacetKind.force ∈ facets ↔ forceTransition.isSome
  written : TransitionAllowed forceTransition
deriving DecidableEq, Repr

def AmendmentEvent.tryNew (recordId : CanonRecordId) (target : ComponentConceptId)
    (effectDay : Int) (provenance : AmendingActId) (evidence : EvidenceClass)
    (facets : List AmendmentFacetKind) (forceTransition : Option NormativeState) :
    Except ThreeCanonLogError AmendmentEvent :=
  if hf : facets = [] then .error .emptyFacets
  else if hm : AmendmentFacetKind.force ∈ facets ↔ forceTransition.isSome then
    if hw : TransitionAllowed forceTransition then
      .ok ⟨recordId, target, effectDay, provenance, evidence, facets, forceTransition, hf, hm, hw⟩
    else .error .unknownNotTransition
  else .error .forceFacetMismatch

structure EditionOracle where
  recordId : CanonRecordId
  target : ComponentConceptId
  observedDay : Int
  digest : String
  nonEmpty : digest.isEmpty = false
deriving DecidableEq, Repr

def EditionOracle.tryNew (recordId : CanonRecordId) (target : ComponentConceptId)
    (observedDay : Int) (digest : String) : Except ThreeCanonLogError EditionOracle :=
  if h : digest.isEmpty = false then .ok ⟨recordId, target, observedDay, digest, h⟩
  else .error .emptyDigest

inductive AssertionOrEffectPayload
  | assertion
  | effect (status : NormativeState)
deriving DecidableEq, Repr

/-- The status that a payload writes. -/
def AssertionOrEffectPayload.transition : AssertionOrEffectPayload → Option NormativeState
  | .assertion => none
  | .effect status => some status

structure AssertionOrEffect where
  recordId : CanonRecordId
  target : ComponentConceptId
  effectDay : Int
  evidence : EvidenceClass
  payload : AssertionOrEffectPayload
  written : TransitionAllowed payload.transition
deriving DecidableEq, Repr

def AssertionOrEffect.tryNew (recordId : CanonRecordId) (target : ComponentConceptId)
    (effectDay : Int) (evidence : EvidenceClass) (payload : AssertionOrEffectPayload) :
    Except ThreeCanonLogError AssertionOrEffect :=
  if h : TransitionAllowed payload.transition then
    .ok ⟨recordId, target, effectDay, evidence, payload, h⟩
  else .error .unknownNotTransition

inductive ThreeCanonRecord
  | amendment (record : AmendmentEvent)
  | editionOracle (record : EditionOracle)
  | assertionOrEffect (record : AssertionOrEffect)
deriving DecidableEq, Repr

namespace ThreeCanonRecord

def recordId : ThreeCanonRecord → CanonRecordId
  | .amendment r => r.recordId
  | .editionOracle r => r.recordId
  | .assertionOrEffect r => r.recordId

def effectDay : ThreeCanonRecord → Int
  | .amendment r => r.effectDay
  | .editionOracle r => r.observedDay
  | .assertionOrEffect r => r.effectDay

def isCanonEvent : ThreeCanonRecord → Bool
  | .editionOracle _ => false
  | _ => true

def target : ThreeCanonRecord → ComponentConceptId
  | .amendment r => r.target
  | .editionOracle r => r.target
  | .assertionOrEffect r => r.target

end ThreeCanonRecord

/-! ## The log -/

/-- The records are private, so every log is the work of `append`. -/
structure ThreeCanonEventLog where
  records : List ThreeCanonRecord
  ordered : (records.map (·.effectDay)).Pairwise (· ≤ ·)
  distinctIds : (records.map (·.recordId)).Nodup

namespace ThreeCanonEventLog

@[ext] theorem ext {log log' : ThreeCanonEventLog} (h : log.records = log'.records) :
    log = log' := by
  cases log; cases log'; cases h; rfl

def empty : ThreeCanonEventLog := ⟨[], .nil, .nil⟩

/-- The day of the last record, when there is one, is not after this day. -/
def NotBefore (records : List ThreeCanonRecord) (day : Int) : Prop :=
  ∀ last ∈ records.getLast?, last.effectDay ≤ day

instance (records : List ThreeCanonRecord) (day : Int) : Decidable (NotBefore records day) :=
  inferInstanceAs (Decidable (∀ last ∈ records.getLast?, last.effectDay ≤ day))

/-- In an ordered log the last day is the latest one. -/
theorem le_of_notBefore {records : List ThreeCanonRecord} {day : Int}
    (hordered : (records.map (·.effectDay)).Pairwise (· ≤ ·)) (h : NotBefore records day)
    {r : ThreeCanonRecord} (hr : r ∈ records) : r.effectDay ≤ day := by
  rcases List.eq_nil_or_concat' records with rfl | ⟨init, last, rfl⟩
  · exact absurd hr (by simp)
  · have hlast : last.effectDay ≤ day := h last (by simp)
    rcases List.mem_append.mp hr with hr | hr
    · rw [List.map_append, List.pairwise_append] at hordered
      exact (hordered.2.2 _ (List.mem_map_of_mem hr) _ (by simp)).trans hlast
    · rwa [List.mem_singleton.mp hr]

def append (log : ThreeCanonEventLog) (record : ThreeCanonRecord) :
    Except ThreeCanonLogError ThreeCanonEventLog :=
  if hid : ∃ existing ∈ log.records, existing.recordId = record.recordId then
    .error .duplicateRecordId
  else if hday : NotBefore log.records record.effectDay then
    .ok {
      records := log.records ++ [record]
      ordered := by
        rw [List.map_append, List.pairwise_append]
        refine ⟨log.ordered, by simp, ?_⟩
        intro d hd d' hd'
        obtain ⟨r, hr, rfl⟩ := List.mem_map.mp hd
        obtain rfl : d' = record.effectDay := by simpa using hd'
        exact le_of_notBefore log.ordered hday hr
      distinctIds := by
        rw [List.map_append, List.nodup_append]
        refine ⟨log.distinctIds, by simp, ?_⟩
        rintro i hi j hj rfl
        obtain ⟨r, hr, rfl⟩ := List.mem_map.mp hi
        exact hid ⟨r, hr, by simpa using hj⟩ }
  else .error .orderingConflict

/-- Every log comes from the empty one by accepted appends of its records, one by one. -/
theorem append_init {log : ThreeCanonEventLog} {init : List ThreeCanonRecord}
    {last : ThreeCanonRecord} (h : log.records = init ++ [last]) :
    ∃ log' : ThreeCanonEventLog, log'.records = init ∧ log'.append last = .ok log := by
  have hord := log.ordered
  have hids := log.distinctIds
  rw [h, List.map_append, List.pairwise_append] at hord
  rw [h, List.map_append, List.nodup_append] at hids
  refine ⟨⟨init, hord.1, hids.1⟩, rfl, ?_⟩
  have hid : ¬ ∃ existing ∈ init, existing.recordId = last.recordId := by
    rintro ⟨r, hr, heq⟩
    exact hids.2.2 _ (List.mem_map_of_mem hr) _ (by simp) heq
  have hday : NotBefore init last.effectDay := fun r hr =>
    hord.2.2 _ (List.mem_map_of_mem (List.mem_of_getLast? hr)) _ (by simp)
  simp only [append, dif_neg hid, dif_pos hday, Except.ok.injEq]
  exact ext h.symm

end ThreeCanonEventLog

/-! ## The overlay of amending acts -/

inductive C1Candidate
  | legislativeAmendment (target : ComponentConceptId) (effectDay : Int)
      (amendingActRaw : String) (evidence : EvidenceClass) (facets : List AmendmentFacetKind)
      (forceTransition : Option NormativeState)
  | overviewHint (target : ComponentConceptId) (summary : String)

def ThreeCanonEventLog.appendC1Candidate (log : ThreeCanonEventLog) (recordId : CanonRecordId) :
    C1Candidate → Except ThreeCanonLogError ThreeCanonEventLog
  | .overviewHint _ _ => .error .overviewNotLegislativeEvent
  | .legislativeAmendment target effectDay amendingActRaw evidence facets forceTransition =>
    if (trim amendingActRaw).isEmpty then .error .missingAmendingActIdentity
    else match CheckedId.parse "amending act id" amendingActRaw with
      | .error e => .error (.invalidId e)
      | .ok provenance =>
        match AmendmentEvent.tryNew recordId target effectDay provenance evidence facets
            forceTransition with
        | .error e => .error e
        | .ok event => log.append (.amendment event)

/-! ### A suspension and a repeal -/

namespace Sample

def suspension : AmendmentEvent :=
  ⟨⟨"rec:1", rfl⟩, chapter, 1, act, .legislative, [.force], some .suspended,
    by decide, by decide, by decide⟩

def repeal : AmendmentEvent :=
  ⟨⟨"rec:2", rfl⟩, chapter, 3, act, .legislative, [.text, .force], some .repealed,
    by decide, by decide, by decide⟩

def canonLog : ThreeCanonEventLog :=
  ⟨[.amendment suspension, .amendment repeal], by decide, by decide⟩

end Sample

end LawNexus
