import LawNexus.Canon.Delta
import LawNexus.Canon.Readout

/-!
# What a delta holds, and deltas of adjacent windows

The lines of a delta are the components with canon events in the window: force does not
change without one. So two deltas that meet at a day give the delta of both windows.
-/

namespace LawNexus

open Loops

/-! ## The packet -/

theorem repeats_of_nodup {α : Type} [DecidableEq α] {l : List α} (h : l.Nodup) :
    repeats l = false := by
  induction l with
  | nil => rfl
  | cons a rest ih =>
    obtain ⟨hfresh, hnd⟩ := List.nodup_cons.mp h
    cases rest with
    | nil => rfl
    | cons b rest =>
      have hne : a ≠ b := fun heq => hfresh (heq ▸ List.mem_cons_self)
      have hrest := ih hnd
      simp only [repeats, windows2, List.tail_cons, List.zip_cons_cons, List.any_cons] at hrest ⊢
      rw [hrest, decide_eq_false hne]
      rfl

/-- Lists without a repetition make a packet, sorted. -/
theorem envelope_tryNew_ok {acts : List AmendingActId} {provisions : List ComponentConceptId}
    {evidence : List CanonRecordId} (commencement : CommencementEvidence)
    (transitional : TransitionalEvidence) (hacts : acts ≠ []) (hprovisions : provisions ≠ [])
    (hevidence : evidence ≠ []) (hnacts : acts.Nodup) (hnprovisions : provisions.Nodup)
    (hnevidence : evidence.Nodup) :
    EditionProvenanceEnvelope.tryNew acts provisions commencement transitional evidence =
      .ok ⟨sortBy (·.asStr) acts, sortBy (·.asStr) provisions, commencement, transitional,
        sortBy (·.asStr) evidence⟩ := by
  have sorted : ∀ {α : Type} [DecidableEq α] (key : α → String) {l : List α}, l.Nodup →
      repeats (sortBy key l) = false := fun key _ h =>
    repeats_of_nodup ((sortBy_perm key _).nodup_iff.mpr h)
  simp [EditionProvenanceEnvelope.tryNew, hacts, hprovisions, hevidence, sorted, hnacts,
    hnprovisions, hnevidence]

/-- The commencement fields of the admission parse, and some event names an act. -/
def PacketComplete (events : List ThreeCanonRecord) (admission : ProvenanceAdmission) : Prop :=
  (∃ commencement, CommencementEvidence.tryNew admission.effectDay admission.evidenceClass
    admission.ruleRef = .ok commencement) ∧ events.filterMap (·.act) ≠ []

section

variable {target : ComponentConceptId} {events : List ThreeCanonRecord}
  {admission : ProvenanceAdmission}

theorem editionDeltaEnvelope_ok (target : ComponentConceptId)
    (h : PacketComplete events admission) :
    ∃ result, editionDeltaEnvelope target events admission = .ok result := by
  obtain ⟨⟨commencement, hcommencement⟩, hacts⟩ := h
  have hevents : events.map (·.recordId) ≠ [] := by
    rintro hnil
    rw [List.map_eq_nil_iff.mp hnil] at hacts
    exact hacts rfl
  have hkeep : ∀ {kind : String} {l : List (CheckedId kind)}, l ≠ [] →
      sortDedup (·.asStr) l ≠ [] := by
    intro kind l hne hnil
    obtain ⟨a, ha⟩ := List.exists_mem_of_ne_nil l hne
    rw [← mem_sortDedup CheckedId.asStr_injective, hnil] at ha
    exact absurd ha (by simp)
  have henvelope := envelope_tryNew_ok commencement admission.transitional (hkeep hacts)
    (List.cons_ne_nil target []) (hkeep hevents) (nodup_sortDedup CheckedId.asStr_injective _)
    (List.nodup_singleton _) (nodup_sortDedup CheckedId.asStr_injective _)
  simp only [editionDeltaEnvelope, hcommencement, henvelope]
  exact ⟨_, rfl⟩

/-- A packet names the acts and the records of the events, and nothing else. -/
theorem editionDeltaEnvelope_spec {envelope : EditionProvenanceEnvelope}
    {report : DeltaDedupReport}
    (h : editionDeltaEnvelope target events admission = .ok (envelope, report)) :
    PacketComplete events admission ∧
      (∀ a, a ∈ envelope.amendingActs ↔ a ∈ events.filterMap (·.act)) ∧
      ∀ i, i ∈ envelope.deltaEvidence ↔ i ∈ events.map (·.recordId) := by
  simp only [editionDeltaEnvelope] at h
  cases hc : CommencementEvidence.tryNew admission.effectDay admission.evidenceClass
      admission.ruleRef with
  | error e => rw [hc] at h; exact absurd h (by simp)
  | ok commencement =>
    simp only [hc, EditionProvenanceEnvelope.tryNew] at h
    split_ifs at h with ha hp he hra hrp hre
    simp only [Except.ok.injEq, Prod.mk.injEq] at h
    obtain ⟨rfl, -⟩ := h
    refine ⟨⟨⟨commencement, hc⟩, ?_⟩, fun a => ?_, fun i => ?_⟩
    · intro hnil
      rw [hnil] at ha
      exact ha rfl
    · rw [mem_sortBy, mem_sortDedup CheckedId.asStr_injective]
    · rw [mem_sortBy, mem_sortDedup CheckedId.asStr_injective]

end

/-! ## The readouts at the edges -/

theorem boundary_eq {log : ThreeCanonEventLog} {day : Int} {checkout : CheckoutProjection}
    (h : checkoutProjectionAt log day = .ok checkout) (c : ComponentConceptId) :
    checkout.boundary c = forceReadout (eventsOf log c day) := by
  obtain ⟨checkout', h', -, hentries⟩ := checkoutProjectionAt_ok log day
  rw [h] at h'
  obtain rfl := Except.ok.inj h'
  unfold CheckoutProjection.boundary
  cases hf : checkout.provisions.find? fun p => p.target = c with
  | some entry =>
    obtain rfl : entry.target = c := by simpa using List.find?_some hf
    rw [((hentries entry).mp (List.mem_of_find?_eq_some hf)).1]
    rfl
  | none =>
    have hnil : eventsOf log c day = [] := by
      by_contra hne
      have hmem := (hentries (checkoutEntry (c, eventsOf log c day))).mpr ⟨rfl, hne⟩
      exact List.find?_eq_none.mp hf _ hmem (decide_eq_true rfl)
    rw [hnil]
    rfl

/-- The canon events of one component in the window. -/
def windowOf (log : ThreeCanonEventLog) (c : ComponentConceptId) (fromDay toDay : Int) :
    List ThreeCanonRecord :=
  (windowEvents log fromDay toDay).filter fun r => r.target = c

section

variable {log : ThreeCanonEventLog} {a b c fromDay toDay : Int} {target : ComponentConceptId}
  {admissions : List ProvenanceAdmission}

/-- A window without events leaves the events of the component as they were. -/
theorem eventsOf_of_windowOf_nil (hle : fromDay ≤ toDay)
    (h : windowOf log target fromDay toDay = []) :
    eventsOf log target toDay = eventsOf log target fromDay := by
  simp only [windowOf, windowEvents, List.filter_eq_nil_iff, List.mem_filter,
    decide_eq_true_eq] at h
  simp only [eventsOf, projected, List.filter_filter]
  refine List.filter_congr fun r hr => ?_
  by_cases ht : r.target = target
  · by_cases hc : r.isCanonEvent = true
    · have hday : r.effectDay ≤ toDay ↔ r.effectDay ≤ fromDay := by
        constructor
        · intro hto
          by_contra hfrom
          exact h r ⟨hr, hc, not_le.mp hfrom, hto⟩ ht
        · exact fun hfrom => hfrom.trans hle
      simp [ht, hc, hday]
    · simp [hc]
  · simp [ht]

/-- Two windows that meet hold the events of the whole, in order. -/
theorem windowOf_append (hab : a ≤ b) (hbc : b ≤ c) :
    windowOf log target a c = windowOf log target a b ++ windowOf log target b c := by
  simp only [windowOf, windowEvents, List.filter_filter]
  rw [← filter_append_filter]
  · refine List.filter_congr fun r hr => ?_
    have hday : (a < r.effectDay ∧ r.effectDay ≤ c) ↔
        (a < r.effectDay ∧ r.effectDay ≤ b) ∨ (b < r.effectDay ∧ r.effectDay ≤ c) := by omega
    by_cases ht : r.target = target <;> by_cases hc : r.isCanonEvent = true <;>
      simp [ht, hc, hday]
  · refine (List.pairwise_map.mp log.ordered).imp fun {r s} hrs hr => ?_
    simp only [Bool.and_eq_true, decide_eq_true_eq] at hr
    simp only [Bool.and_eq_false_iff, decide_eq_false_iff_not]
    right
    rintro ⟨-, -, hs⟩
    omega
  · intro r _ hr
    simp only [Bool.and_eq_true, decide_eq_true_eq] at hr
    simp only [Bool.and_eq_false_iff, decide_eq_false_iff_not]
    right
    rintro ⟨-, -, hs⟩
    omega

/-! ## The lines -/

/-- The line of a component before the gate. -/
def lineOf (log : ThreeCanonEventLog) (fromDay toDay : Int) (target : ComponentConceptId) :
    KeptProvisionLine where
  target := target
  forceFrom := (forceReadout (eventsOf log target fromDay)).1
  forceTo := (forceReadout (eventsOf log target toDay)).1
  forceConflictFrom := (forceReadout (eventsOf log target fromDay)).2
  forceConflictTo := (forceReadout (eventsOf log target toDay)).2
  events := windowOf log target fromDay toDay

/-- The keep rule comes down to the events of the window. -/
theorem keptLine_eq (hle : fromDay ≤ toDay) {checkoutFrom checkoutTo : CheckoutProjection}
    (hfrom : checkoutProjectionAt log fromDay = .ok checkoutFrom)
    (hto : checkoutProjectionAt log toDay = .ok checkoutTo) (target : ComponentConceptId) :
    keptLine checkoutFrom checkoutTo (group (·.target) (windowEvents log fromDay toDay)) target =
      if windowOf log target fromDay toDay = [] then none
      else some (lineOf log fromDay toDay target) := by
  have hevents : eventsIn (group (·.target) (windowEvents log fromDay toDay)) target =
      windowOf log target fromDay toDay := find?_group _ _ _
  simp only [keptLine, boundary_eq hfrom, boundary_eq hto, hevents, List.isEmpty_iff]
  by_cases h : windowOf log target fromDay toDay = []
  · rw [if_pos h, if_pos ⟨by rw [eventsOf_of_windowOf_nil hle h], h⟩]
  · rw [if_neg h, if_neg fun hand => h hand.2]
    rfl

/-- The gate runs over one line for each component with events in the window. -/
theorem editionDelta_lines (log : ThreeCanonEventLog) {fromDay toDay : Int} (hle : fromDay ≤ toDay)
    (admissions : List ProvenanceAdmission) : ∃ targets : List ComponentConceptId,
    targets.Nodup ∧ (∀ c, c ∈ targets ↔ windowOf log c fromDay toDay ≠ []) ∧
    editionDelta log fromDay toDay admissions =
      ((targets.map (lineOf log fromDay toDay)).mapM (admitLine admissions)).map fun lines =>
        ⟨fromDay, toDay, lines.map (·.1), editionDeltaNonClaims, dedupTotals lines⟩ := by
  obtain ⟨checkoutFrom, hfrom, hnodup, -⟩ := checkoutProjectionAt_ok log fromDay
  obtain ⟨checkoutTo, hto, -⟩ := checkoutProjectionAt_ok log toDay
  let window := group (·.target) (windowEvents log fromDay toDay)
  let known := (checkoutTo.provisions.map (·.target) ++ window.map (·.1)).foldl pushNew
    (checkoutFrom.provisions.map (·.target))
  let kept := sortBy (·.target.asStr) (known.filterMap (keptLine checkoutFrom checkoutTo window))
  have hknown : known.Nodup := nodup_foldl_pushNew hnodup _
  have hwindow : ∀ c, windowOf log c fromDay toDay ≠ [] → c ∈ known := by
    intro c hc
    obtain ⟨r, hr⟩ := List.exists_mem_of_ne_nil _ hc
    obtain ⟨hr, hrc⟩ := List.mem_filter.mp hr
    rw [mem_foldl_pushNew, List.mem_append, keys_group, mem_distinct]
    exact Or.inr (Or.inr (List.mem_map.mpr ⟨r, hr, by simpa using hrc⟩))
  have hkept : ∀ line, line ∈ kept ↔
      ∃ c, windowOf log c fromDay toDay ≠ [] ∧ line = lineOf log fromDay toDay c := by
    intro line
    simp only [kept, window, mem_sortBy, List.mem_filterMap, keptLine_eq hle hfrom hto]
    constructor
    · rintro ⟨c, -, hc⟩
      split_ifs at hc with hnil
      exact ⟨c, hnil, (Option.some.inj hc).symm⟩
    · rintro ⟨c, hc, rfl⟩
      exact ⟨c, hwindow c hc, by rw [if_neg hc]⟩
  have hlines : kept = (kept.map (·.target)).map (lineOf log fromDay toDay) := by
    rw [List.map_map]
    refine (List.map_id kept).symm.trans (List.map_congr_left fun line hline => ?_)
    obtain ⟨c, -, rfl⟩ := (hkept line).mp hline
    rfl
  refine ⟨kept.map (·.target), ?_, fun c => ?_, ?_⟩
  · rw [((sortBy_perm _ _).map _).nodup_iff, List.map_filterMap]
    refine hknown.filterMap fun c c' target hc hc' => ?_
    simp only [window, keptLine_eq hle hfrom hto, Option.mem_def, Option.map_eq_some_iff,
      Option.ite_none_left_eq_some, Option.some.injEq] at hc hc'
    obtain ⟨_, ⟨-, rfl⟩, rfl⟩ := hc
    obtain ⟨_, ⟨-, rfl⟩, hc'⟩ := hc'
    exact hc'.symm
  · rw [List.mem_map]
    constructor
    · rintro ⟨line, hline, rfl⟩
      obtain ⟨c, hc, rfl⟩ := (hkept line).mp hline
      exact hc
    · intro hc
      exact ⟨_, (hkept _).mpr ⟨c, hc, rfl⟩, rfl⟩
  · rw [← hlines, editionDelta, if_neg (not_lt.mpr hle), hfrom, hto]

/-- What holds of each line that a delta returns. -/
structure LineSpec (log : ThreeCanonEventLog) (fromDay toDay : Int) (line : ProvisionDelta) :
    Prop where
  events : line.events = windowOf log line.target fromDay toDay
  readoutFrom : (line.forceFrom, line.forceConflictFrom) =
    forceReadout (eventsOf log line.target fromDay)
  readoutTo : (line.forceTo, line.forceConflictTo) = forceReadout (eventsOf log line.target toDay)
  acts : ∀ a, a ∈ line.provenance.amendingActs ↔ a ∈ line.events.filterMap (·.act)
  evidence : ∀ i, i ∈ line.provenance.deltaEvidence ↔ i ∈ line.events.map (·.recordId)

/-- The first admission of the component completes the packet for these events. -/
def Admitted (admissions : List ProvenanceAdmission) (target : ComponentConceptId)
    (events : List ThreeCanonRecord) : Prop :=
  ∃ admission, admissions.find? (fun candidate => candidate.target = target) = some admission ∧
    PacketComplete events admission

theorem admitLine_ok {line : KeptProvisionLine} (h : Admitted admissions line.target line.events) :
    ∃ result, admitLine admissions line = .ok result := by
  obtain ⟨admission, hfind, hcomplete⟩ := h
  obtain ⟨⟨envelope, report⟩, henvelope⟩ := editionDeltaEnvelope_ok line.target hcomplete
  simp only [admitLine, hfind, henvelope]
  exact ⟨_, rfl⟩

theorem admitLine_spec {result : ProvisionDelta × DeltaDedupReport}
    (h : admitLine admissions (lineOf log fromDay toDay target) = .ok result) :
    result.1.target = target ∧ LineSpec log fromDay toDay result.1 ∧
      Admitted admissions target (windowOf log target fromDay toDay) := by
  simp only [admitLine] at h
  cases hfind : admissions.find? fun candidate =>
      candidate.target = (lineOf log fromDay toDay target).target with
  | none => rw [hfind] at h; exact absurd h (by simp)
  | some admission =>
    cases henvelope : editionDeltaEnvelope (lineOf log fromDay toDay target).target
        (lineOf log fromDay toDay target).events admission with
    | error e => simp only [hfind, henvelope] at h; exact absurd h (by simp)
    | ok packet =>
      simp only [hfind, henvelope, Except.ok.injEq] at h
      obtain ⟨hcomplete, hacts, hevidence⟩ := editionDeltaEnvelope_spec henvelope
      subst h
      exact ⟨rfl, ⟨rfl, rfl, rfl, hacts, hevidence⟩, admission, hfind, hcomplete⟩

/-! ## When a delta is returned, and what it holds -/

theorem le_of_editionDelta_ok {delta : EditionDelta}
    (h : editionDelta log fromDay toDay admissions = .ok delta) : fromDay ≤ toDay := by
  by_contra hgt
  rw [editionDelta, if_pos (not_le.mp hgt)] at h
  exact absurd h (by simp)

theorem editionDelta_ok (hle : fromDay ≤ toDay) (hadmitted : ∀ c,
    windowOf log c fromDay toDay ≠ [] → Admitted admissions c (windowOf log c fromDay toDay)) :
    ∃ delta, editionDelta log fromDay toDay admissions = .ok delta := by
  obtain ⟨targets, -, htargets, heq⟩ := editionDelta_lines log hle admissions
  have hall : ∀ line ∈ targets.map (lineOf log fromDay toDay),
      ∃ r, admitLine admissions line = .ok r := by
    intro line hline
    obtain ⟨c, hc, rfl⟩ := List.mem_map.mp hline
    exact admitLine_ok (hadmitted c ((htargets c).mp hc))
  obtain ⟨lines, hlines⟩ := exists_mapM_ok_iff.mpr hall
  rw [heq, hlines]
  exact ⟨_, rfl⟩

theorem editionDelta_spec {delta : EditionDelta}
    (h : editionDelta log fromDay toDay admissions = .ok delta) :
    (delta.provisions.map (·.target)).Nodup ∧
      (∀ c, c ∈ delta.provisions.map (·.target) ↔ windowOf log c fromDay toDay ≠ []) ∧
      (∀ line ∈ delta.provisions, LineSpec log fromDay toDay line) ∧
      ∀ c, windowOf log c fromDay toDay ≠ [] →
        Admitted admissions c (windowOf log c fromDay toDay) := by
  obtain ⟨targets, hnodup, htargets, heq⟩ :=
    editionDelta_lines log (le_of_editionDelta_ok h) admissions
  rw [heq] at h
  cases hlines : (targets.map (lineOf log fromDay toDay)).mapM (admitLine admissions) with
  | error e =>
    rw [hlines] at h
    exact nomatch h
  | ok lines =>
    rw [hlines] at h
    obtain rfl := Except.ok.inj h
    have hall : List.Forall₂ (fun c r => r.1.target = c ∧ LineSpec log fromDay toDay r.1 ∧
        Admitted admissions c (windowOf log c fromDay toDay)) targets lines :=
      (List.forall₂_map_left_iff.mp (mapM_eq_ok_iff.mp hlines)).imp fun _ _ => admitLine_spec
    have hmap : (lines.map (·.1)).map (·.target) = targets := by
      rw [List.map_map, eq_comm, ← List.forall₂_eq_eq_eq, List.forall₂_map_right_iff]
      exact hall.imp fun _ _ hr => hr.1.symm
    obtain ⟨hleft, hright⟩ := forall₂_partner hall
    refine ⟨hmap ▸ hnodup, fun c => hmap ▸ htargets c, ?_, fun c hc => ?_⟩
    · intro line hline
      obtain ⟨r, hr, rfl⟩ := List.mem_map.mp hline
      obtain ⟨-, -, -, hspec, -⟩ := hright r hr
      exact hspec
    · obtain ⟨-, -, -, -, hadmitted⟩ := hleft c ((htargets c).mpr hc)
      exact hadmitted

/-! ## Adjacent windows -/

/-- The line of a delta for a component, when it has one. -/
def EditionDelta.lineFor (delta : EditionDelta) (target : ComponentConceptId) :
    Option ProvisionDelta :=
  delta.provisions.find? fun line => line.target = target

/-- The events of a delta for a component. -/
def EditionDelta.eventsFor (delta : EditionDelta) (target : ComponentConceptId) :
    List ThreeCanonRecord :=
  ((delta.lineFor target).map (·.events)).getD []

theorem lineFor_cases {delta : EditionDelta}
    (h : editionDelta log fromDay toDay admissions = .ok delta) (target : ComponentConceptId) :
    (∃ line, delta.lineFor target = some line ∧ line ∈ delta.provisions ∧ line.target = target ∧
      LineSpec log fromDay toDay line) ∨
    (delta.lineFor target = none ∧ windowOf log target fromDay toDay = []) := by
  obtain ⟨-, htargets, hlines, -⟩ := editionDelta_spec h
  cases hf : delta.lineFor target with
  | some line =>
    have hmem := List.mem_of_find?_eq_some hf
    exact Or.inl ⟨line, rfl, hmem, by simpa using List.find?_some hf, hlines line hmem⟩
  | none =>
    refine Or.inr ⟨rfl, ?_⟩
    by_contra hne
    obtain ⟨line, hline, rfl⟩ := List.mem_map.mp ((htargets target).mpr hne)
    simpa using List.find?_eq_none.mp hf line hline

theorem eventsFor_eq {delta : EditionDelta}
    (h : editionDelta log fromDay toDay admissions = .ok delta) (target : ComponentConceptId) :
    delta.eventsFor target = windowOf log target fromDay toDay := by
  unfold EditionDelta.eventsFor
  rcases lineFor_cases h target with ⟨line, hline, -, rfl, hspec⟩ | ⟨hnone, hnil⟩
  · rw [hline]
    exact hspec.events
  · rw [hnone, hnil]
    rfl

theorem Admitted.mono {events more : List ThreeCanonRecord} (h : Admitted admissions target events)
    (hsub : ∀ r ∈ events, r ∈ more) : Admitted admissions target more := by
  obtain ⟨admission, hfind, hcommencement, hacts⟩ := h
  refine ⟨admission, hfind, hcommencement, ?_⟩
  obtain ⟨act, hact⟩ := List.exists_mem_of_ne_nil _ hacts
  obtain ⟨r, hr, hract⟩ := List.mem_filterMap.mp hact
  exact List.ne_nil_of_mem (List.mem_filterMap.mpr ⟨r, hsub r hr, hract⟩)

/-- The parts of a packet over events that come from two lines are those of the two lines. -/
theorem mem_parts {first second : EditionDelta}
    (hab : editionDelta log a b admissions = .ok first)
    (hbc : editionDelta log b c admissions = .ok second) {β : Type}
    {part : ProvisionDelta → List β} {read : List ThreeCanonRecord → List β}
    (hread : ∀ l l' x, x ∈ read (l ++ l') ↔ x ∈ read l ∨ x ∈ read l') (hnil : read [] = [])
    (hpart : ∀ {fromDay toDay line}, LineSpec log fromDay toDay line →
      ∀ x, x ∈ part line ↔ x ∈ read line.events) (target : ComponentConceptId) (x : β) :
    x ∈ read (first.eventsFor target ++ second.eventsFor target) ↔
      (∃ line ∈ first.lineFor target, x ∈ part line) ∨
        ∃ line ∈ second.lineFor target, x ∈ part line := by
  have hside : ∀ {fromDay toDay delta}, editionDelta log fromDay toDay admissions = .ok delta →
      (x ∈ read (delta.eventsFor target) ↔ ∃ line ∈ delta.lineFor target, x ∈ part line) := by
    intro fromDay toDay delta h
    unfold EditionDelta.eventsFor
    rcases lineFor_cases h target with ⟨line, hline, -, -, hspec⟩ | ⟨hnone, -⟩
    · simp [hline, hpart hspec]
    · simp [hnone, hnil]
  rw [hread, hside hab, hside hbc]

/-! ## The theorem -/

/-- Two deltas of windows that meet give the delta of the whole window: its components are
those of the two, the events of a line are those of the two in order, the readouts are those
of the outer edges, and the packets join their acts and their evidence. -/
theorem editionDelta_compose {first second : EditionDelta}
    (hab : editionDelta log a b admissions = .ok first)
    (hbc : editionDelta log b c admissions = .ok second) :
    ∃ whole checkoutFrom checkoutTo, editionDelta log a c admissions = .ok whole ∧
      checkoutProjectionAt log a = .ok checkoutFrom ∧
      checkoutProjectionAt log c = .ok checkoutTo ∧
      (whole.provisions.map (·.target)).Nodup ∧
      (∀ t, t ∈ whole.provisions.map (·.target) ↔
        t ∈ first.provisions.map (·.target) ∨ t ∈ second.provisions.map (·.target)) ∧
      ∀ line ∈ whole.provisions,
        line.events = first.eventsFor line.target ++ second.eventsFor line.target ∧
        (line.forceFrom, line.forceConflictFrom) = ((first.lineFor line.target).map
          fun l => (l.forceFrom, l.forceConflictFrom)).getD (checkoutFrom.boundary line.target) ∧
        (line.forceTo, line.forceConflictTo) = ((second.lineFor line.target).map
          fun l => (l.forceTo, l.forceConflictTo)).getD (checkoutTo.boundary line.target) ∧
        (∀ act, act ∈ line.provenance.amendingActs ↔
          (∃ l ∈ first.lineFor line.target, act ∈ l.provenance.amendingActs) ∨
            ∃ l ∈ second.lineFor line.target, act ∈ l.provenance.amendingActs) ∧
        ∀ i, i ∈ line.provenance.deltaEvidence ↔
          (∃ l ∈ first.lineFor line.target, i ∈ l.provenance.deltaEvidence) ∨
            ∃ l ∈ second.lineFor line.target, i ∈ l.provenance.deltaEvidence := by
  have hleab := le_of_editionDelta_ok hab
  have hlebc := le_of_editionDelta_ok hbc
  have hwindow : ∀ t, windowOf log t a c = windowOf log t a b ++ windowOf log t b c := fun t =>
    windowOf_append hleab hlebc
  obtain ⟨-, hfirst, -, hadfirst⟩ := editionDelta_spec hab
  obtain ⟨-, hsecond, -, hadsecond⟩ := editionDelta_spec hbc
  have hadmitted : ∀ t, windowOf log t a c ≠ [] → Admitted admissions t (windowOf log t a c) := by
    intro t hne
    rw [hwindow] at hne ⊢
    by_cases h : windowOf log t a b = []
    · rw [h, List.nil_append] at hne
      exact (hadsecond t hne).mono fun r hr => List.mem_append_right _ hr
    · exact (hadfirst t h).mono fun r hr => List.mem_append_left _ hr
  obtain ⟨whole, hwhole⟩ := editionDelta_ok (hleab.trans hlebc) hadmitted
  obtain ⟨hnodup, htargets, hlines, -⟩ := editionDelta_spec hwhole
  obtain ⟨checkoutFrom, hfrom, -⟩ := checkoutProjectionAt_ok log a
  obtain ⟨checkoutTo, hto, -⟩ := checkoutProjectionAt_ok log c
  refine ⟨whole, checkoutFrom, checkoutTo, hwhole, hfrom, hto, hnodup, fun t => ?_, ?_⟩
  · rw [htargets, hfirst, hsecond, hwindow, ne_eq, List.append_eq_nil_iff, not_and_or]
  · intro line hline
    have hspec := hlines line hline
    have hevents : line.events = first.eventsFor line.target ++ second.eventsFor line.target := by
      rw [hspec.events, hwindow, eventsFor_eq hab, eventsFor_eq hbc]
    refine ⟨hevents, ?_, ?_, fun act => ?_, fun i => ?_⟩
    · rw [hspec.readoutFrom, boundary_eq hfrom]
      rcases lineFor_cases hab line.target with ⟨l, hl, -, ht, hl'⟩ | ⟨hnone, -⟩
      · rw [hl, Option.map_some, Option.getD_some, hl'.readoutFrom, ht]
      · rw [hnone, Option.map_none, Option.getD_none]
    · rw [hspec.readoutTo, boundary_eq hto]
      rcases lineFor_cases hbc line.target with ⟨l, hl, -, ht, hl'⟩ | ⟨hnone, -⟩
      · rw [hl, Option.map_some, Option.getD_some, hl'.readoutTo, ht]
      · rw [hnone, Option.map_none, Option.getD_none]
    · rw [hspec.acts, hevents]
      exact mem_parts hab hbc (by simp) rfl
        (fun h => h.acts) line.target act
    · rw [hspec.evidence, hevents]
      exact mem_parts hab hbc (by simp) rfl
        (fun h => h.evidence) line.target i

end

/-- The suspension on the first day, then the repeal on the third. -/
theorem editionDelta_compose_repeal : ∃ first second whole,
    editionDelta Sample.canonLog 0 1 [Sample.admission] = .ok first ∧
      editionDelta Sample.canonLog 1 3 [Sample.admission] = .ok second ∧
      editionDelta Sample.canonLog 0 3 [Sample.admission] = .ok whole ∧
      ∀ t, t ∈ whole.provisions.map (·.target) ↔
        t ∈ first.provisions.map (·.target) ∨ t ∈ second.provisions.map (·.target) := by
  have hfirst : (editionDelta Sample.canonLog 0 1 [Sample.admission]).toBool = true := by decide
  have hsecond : (editionDelta Sample.canonLog 1 3 [Sample.admission]).toBool = true := by decide
  cases hab : editionDelta Sample.canonLog 0 1 [Sample.admission] with
  | error e => rw [hab] at hfirst; exact absurd hfirst (by simp [Except.toBool])
  | ok first =>
    cases hbc : editionDelta Sample.canonLog 1 3 [Sample.admission] with
    | error e => rw [hbc] at hsecond; exact absurd hsecond (by simp [Except.toBool])
    | ok second =>
      obtain ⟨whole, -, -, hwhole, -, -, -, htargets, -⟩ := editionDelta_compose hab hbc
      exact ⟨first, second, whole, rfl, rfl, hwhole, htargets⟩

end LawNexus
