import LawNexus.Canon.Window

/-!
# When a delta is refused

A delta of a window that is not inverted fails only at the evidence of a component with canon
events in the window.
-/

namespace LawNexus

open Loops Texts

/-! ## The evidence of a component -/

/-- The window has an amendment of the component, and its first admission has a rule reference and
is no editorial hint. -/
structure Evidenced (log : ThreeCanonEventLog) (fromDay toDay : Int)
    (admissions : List ProvenanceAdmission) (target : ComponentConceptId) : Prop where
  amended : ∃ event, .amendment event ∈ windowOf log target fromDay toDay
  admitted : ∃ admission,
    admissions.find? (fun candidate => candidate.target = target) = some admission ∧
      admission.evidenceClass ≠ .editorialHint ∧
      ∃ ruleRef, CheckedId.parse "canon record id" (trim admission.ruleRef) = .ok ruleRef

section

variable {log : ThreeCanonEventLog} {fromDay toDay : Int} {target : ComponentConceptId}
  {admissions : List ProvenanceAdmission}

theorem commencement_ok_iff (admission : ProvenanceAdmission) :
    (∃ commencement, CommencementEvidence.tryNew admission.effectDay admission.evidenceClass
      admission.ruleRef = .ok commencement) ↔ admission.evidenceClass ≠ .editorialHint ∧
        ∃ ruleRef, CheckedId.parse "canon record id" (trim admission.ruleRef) = .ok ruleRef := by
  unfold CommencementEvidence.tryNew
  split_ifs with hint hempty
  · exact iff_of_false (fun ⟨_, h⟩ => by cases h) fun h => h.1 hint
  · rw [admission.hasRuleRef] at hempty
    cases hempty
  · cases CheckedId.parse "canon record id" (trim admission.ruleRef) with
    | error e => exact iff_of_false (fun ⟨_, h⟩ => by cases h) fun ⟨_, _, h⟩ => by cases h
    | ok ruleRef => exact iff_of_true ⟨_, rfl⟩ ⟨hint, ruleRef, rfl⟩

theorem acts_ne_nil_iff {events : List ThreeCanonRecord} :
    events.filterMap (·.act) ≠ [] ↔ ∃ event, .amendment event ∈ events := by
  constructor
  · intro h
    obtain ⟨act, hact⟩ := List.exists_mem_of_ne_nil _ h
    obtain ⟨record, hrecord, hsome⟩ := List.mem_filterMap.mp hact
    cases record with
    | amendment event => exact ⟨event, hrecord⟩
    | editionOracle oracle => cases hsome
    | assertionOrEffect effect => cases hsome
  · rintro ⟨event, hevent⟩
    exact List.ne_nil_of_mem (List.mem_filterMap.mpr ⟨_, hevent, rfl⟩)

theorem evidenced_iff : Evidenced log fromDay toDay admissions target ↔
    Admitted admissions target (windowOf log target fromDay toDay) := by
  constructor
  · rintro ⟨hamended, admission, hfind, hcommencement⟩
    exact ⟨admission, hfind, (commencement_ok_iff admission).mpr hcommencement,
      acts_ne_nil_iff.mpr hamended⟩
  · rintro ⟨admission, hfind, hcommencement, hacts⟩
    exact ⟨acts_ne_nil_iff.mp hacts, admission, hfind, (commencement_ok_iff admission).mp hcommencement⟩

/-! ## The errors of a packet -/

/-- The errors of a packet that names something twice. -/
def duplicateErrors : List ProvenanceConstructionError :=
  [.duplicateAmendingAct, .duplicateProvision, .duplicateDeltaEvidence]

theorem commencement_error {effectDay : Int} {evidenceClass : EvidenceClass} {ruleRef : String}
    {cause : ProvenanceConstructionError}
    (h : CommencementEvidence.tryNew effectDay evidenceClass ruleRef = .error cause) :
    cause ∉ duplicateErrors := by
  unfold CommencementEvidence.tryNew at h
  split_ifs at h
  · cases h
    decide
  · cases h
    decide
  · cases hparse : CheckedId.parse "canon record id" (trim ruleRef) with
    | error e =>
      rw [hparse] at h
      cases h
      simp [duplicateErrors]
    | ok id =>
      rw [hparse] at h
      cases h

/-- Lists without a repetition leave only what is missing. -/
theorem envelope_tryNew_error {acts : List AmendingActId} {provisions : List ComponentConceptId}
    {evidence : List CanonRecordId} {commencement : CommencementEvidence}
    {transitional : TransitionalEvidence} {cause : ProvenanceConstructionError}
    (hacts : acts.Nodup) (hprovisions : provisions.Nodup) (hevidence : evidence.Nodup)
    (h : EditionProvenanceEnvelope.tryNew acts provisions commencement transitional evidence =
      .error cause) : cause ∉ duplicateErrors := by
  by_cases hfilled : acts ≠ [] ∧ provisions ≠ [] ∧ evidence ≠ []
  · rw [envelope_tryNew_ok commencement transitional hfilled.1 hfilled.2.1 hfilled.2.2 hacts
      hprovisions hevidence] at h
    cases h
  · unfold EditionProvenanceEnvelope.tryNew at h
    simp only [List.isEmpty_iff] at h
    split_ifs at h with hnoact hnoprovision hnoevidence
    all_goals first | (cases h; decide) | exact absurd ⟨hnoact, hnoprovision, hnoevidence⟩ hfilled

theorem editionDeltaEnvelope_error {events : List ThreeCanonRecord}
    {admission : ProvenanceAdmission} {cause : ProvenanceConstructionError}
    (h : editionDeltaEnvelope target events admission = .error cause) :
    cause ∉ duplicateErrors := by
  unfold editionDeltaEnvelope at h
  dsimp only at h
  cases hcommencement : CommencementEvidence.tryNew admission.effectDay admission.evidenceClass
      admission.ruleRef with
  | error e =>
    rw [hcommencement] at h
    cases h
    exact commencement_error hcommencement
  | ok commencement =>
    rw [hcommencement] at h
    dsimp only at h
    cases henvelope : EditionProvenanceEnvelope.tryNew
        (sortDedup (·.asStr) (events.filterMap (·.act))) [target] commencement
        admission.transitional (sortDedup (·.asStr) (events.map (·.recordId))) with
    | error e =>
      rw [henvelope] at h
      cases h
      exact envelope_tryNew_error (nodup_sortDedup CheckedId.asStr_injective _)
        (List.nodup_singleton _) (nodup_sortDedup CheckedId.asStr_injective _) henvelope
    | ok envelope =>
      rw [henvelope] at h
      cases h

/-- No line that is refused has a packet that names something twice. -/
theorem editionDelta_error {cause : ProvenanceConstructionError}
    (h : editionDelta log fromDay toDay admissions = .error (.unresolved target cause)) :
    cause ∉ duplicateErrors := by
  by_cases hle : fromDay ≤ toDay
  · obtain ⟨targets, -, -, heq⟩ := editionDelta_lines log hle admissions
    rw [heq] at h
    cases hlines : (targets.map (lineOf log fromDay toDay)).mapM (admitLine admissions) with
    | ok lines =>
      rw [hlines] at h
      cases h
    | error e =>
      rw [hlines] at h
      cases h
      obtain ⟨line, -, hline⟩ := exists_of_mapM_error hlines
      unfold admitLine at hline
      cases hfind : admissions.find? fun candidate => candidate.target = line.target with
      | none =>
        rw [hfind] at hline
        cases hline
      | some admission =>
        rw [hfind] at hline
        dsimp only at hline
        cases henvelope : editionDeltaEnvelope line.target line.events admission with
        | ok packet =>
          rw [henvelope] at hline
          cases hline
        | error e =>
          rw [henvelope] at hline
          cases hline
          exact editionDeltaEnvelope_error henvelope
  · rw [editionDelta, if_pos (not_le.mp hle)] at h
    cases h

/-! ## The kept lines -/

/-- A line that is kept has events: without them its readouts are the same. -/
theorem keptLine_events (hle : fromDay ≤ toDay) {checkoutFrom checkoutTo : CheckoutProjection}
    (hfrom : checkoutProjectionAt log fromDay = .ok checkoutFrom)
    (hto : checkoutProjectionAt log toDay = .ok checkoutTo) {line : KeptProvisionLine}
    (h : keptLine checkoutFrom checkoutTo (group (·.target) (windowEvents log fromDay toDay))
      target = some line) : line.events ≠ [] := by
  rw [keptLine_eq hle hfrom hto] at h
  split_ifs at h with hnil
  cases h
  exact hnil

/-- The readouts at the edges differ only with a canon record in the window. -/
theorem window_of_readouts (hle : fromDay ≤ toDay) {checkoutFrom checkoutTo : CheckoutProjection}
    (hfrom : checkoutProjectionAt log fromDay = .ok checkoutFrom)
    (hto : checkoutProjectionAt log toDay = .ok checkoutTo)
    (h : checkoutFrom.boundary target ≠ checkoutTo.boundary target) :
    windowOf log target fromDay toDay ≠ [] := by
  intro hnil
  rw [boundary_eq hfrom, boundary_eq hto, eventsOf_of_windowOf_nil hle hnil] at h
  exact h rfl

end

/-! ## The theorem -/

/-- What decides about a delta. -/
structure DeltaDecided (log : ThreeCanonEventLog) (fromDay toDay : Int)
    (admissions : List ProvenanceAdmission) : Prop where
  returned : (∃ delta, editionDelta log fromDay toDay admissions = .ok delta) ↔
    fromDay ≤ toDay ∧ ∀ target, windowOf log target fromDay toDay ≠ [] →
      Evidenced log fromDay toDay admissions target
  kept : ∀ checkoutFrom checkoutTo, fromDay ≤ toDay →
    checkoutProjectionAt log fromDay = .ok checkoutFrom →
    checkoutProjectionAt log toDay = .ok checkoutTo → ∀ target,
      (checkoutFrom.boundary target ≠ checkoutTo.boundary target →
        windowOf log target fromDay toDay ≠ []) ∧
      ∀ line, keptLine checkoutFrom checkoutTo
        (group (·.target) (windowEvents log fromDay toDay)) target = some line → line.events ≠ []
  distinct : ∀ target cause,
    editionDelta log fromDay toDay admissions = .error (.unresolved target cause) →
      cause ∉ duplicateErrors

theorem editionDelta_decided (log : ThreeCanonEventLog) (fromDay toDay : Int)
    (admissions : List ProvenanceAdmission) : DeltaDecided log fromDay toDay admissions where
  returned := by
    constructor
    · rintro ⟨delta, hdelta⟩
      obtain ⟨-, -, -, hadmitted⟩ := editionDelta_spec hdelta
      exact ⟨le_of_editionDelta_ok hdelta, fun target hne => evidenced_iff.mpr (hadmitted target hne)⟩
    · rintro ⟨hle, hevidenced⟩
      exact editionDelta_ok hle fun target hne => evidenced_iff.mp (hevidenced target hne)
  kept := fun _ _ hle hfrom hto _ =>
    ⟨window_of_readouts hle hfrom hto, fun _ => keptLine_events hle hfrom hto⟩
  distinct := fun _ _ => editionDelta_error

end LawNexus
