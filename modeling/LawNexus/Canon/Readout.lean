import LawNexus.Canon.Force
import LawNexus.Latest

/-!
# The readouts agree

Each readout of force is a function of the dated statuses that the records write, whatever
the order they stand in. From this: the timeline resolver, the checkout of a component and
the fold of a log about one component give the same answer.
-/

namespace LawNexus

open Loops Latest

/-! ## From statuses to an answer -/

/-- No status is silence, one decides, two are a conflict. -/
def answerOf : List NormativeState → NormativeState × Bool
  | [] => (.unknown, false)
  | [status] => (status, false)
  | _ => (.unknown, true)

theorem answerOf_perm {l l' : List NormativeState} (h : l.Perm l') : answerOf l = answerOf l' := by
  match l, l', h with
  | [], _, h => rw [List.nil_perm.mp h]
  | [s], _, h => rw [List.singleton_perm.mp h]
  | _ :: _ :: _, [], h => exact absurd h.length_eq (by simp)
  | _ :: _ :: _, [_], h => exact absurd h.length_eq (by simp)
  | _ :: _ :: _, _ :: _ :: _, _ => rfl

theorem answerOf_congr {l l' : List NormativeState} (hnd : l.Nodup) (hnd' : l'.Nodup)
    (h : ∀ s, s ∈ l ↔ s ∈ l') : answerOf l = answerOf l' :=
  answerOf_perm ((List.perm_ext_iff_of_nodup hnd hnd').mpr h)

/-! ## The scan of the records -/

/-- The dated statuses that the records write. -/
def forceRecords (events : List ThreeCanonRecord) : List (Int × NormativeState) :=
  events.filterMap fun r => r.forceOutcome.map fun s => (r.effectDay, s)

theorem mem_forceRecords {events : List ThreeCanonRecord} {d : Int} {s : NormativeState} :
    (d, s) ∈ forceRecords events ↔
      ∃ r ∈ events, r.effectDay = d ∧ r.forceOutcome = some s := by
  simp only [forceRecords, List.mem_filterMap, Option.map_eq_some_iff, Prod.mk.injEq]
  constructor
  · rintro ⟨r, hr, s', hs, rfl, rfl⟩
    exact ⟨r, hr, rfl, hs⟩
  · rintro ⟨r, hr, rfl, hs⟩
    exact ⟨r, hr, s, hs, rfl, rfl⟩

theorem forceStep_of_outcome {r : ThreeCanonRecord} {s : NormativeState}
    (h : r.forceOutcome = some s) (acc : Option Int × List NormativeState) :
    forceStep acc r = scanStep acc (r.effectDay, s) := by
  obtain ⟨day, statuses⟩ := acc
  simp only [forceStep, scanStep, h]
  cases day with
  | none => rfl
  | some latest => dsimp only

theorem foldl_forceStep (events : List ThreeCanonRecord) (acc : Option Int × List NormativeState) :
    events.foldl forceStep acc = (forceRecords events).foldl scanStep acc := by
  induction events generalizing acc with
  | nil => rfl
  | cons r rest ih =>
    rw [List.foldl_cons, ih]
    cases h : r.forceOutcome with
    | none => simp only [forceRecords, List.filterMap_cons, forceStep, h, Option.map_none]
    | some s =>
      simp only [forceRecords, List.filterMap_cons, forceStep_of_outcome h, h, Option.map_some,
        List.foldl_cons]

/-- `force_readout` answers by the statuses of the latest day. -/
theorem forceReadout_eq {events : List ThreeCanonRecord} {statuses : List NormativeState}
    (hnd : statuses.Nodup) (h : ∀ s, s ∈ statuses ↔ IsLatest (forceRecords events) s) :
    forceReadout events = answerOf statuses := by
  obtain ⟨hscan, hmem⟩ := (scanned_foldl (forceRecords events)).spec
  have hanswer : forceReadout events =
      answerOf ((forceRecords events).foldl scanStep (none, [])).2 := by
    rw [forceReadout, foldl_forceStep]
    rfl
  rw [hanswer]
  exact answerOf_congr hscan hnd fun s => (hmem s).trans (h s).symm

theorem forceReadout_silent {events : List ThreeCanonRecord} (h : forceRecords events = []) :
    forceReadout events = (.unknown, false) :=
  forceReadout_eq List.nodup_nil (by simp [h, IsLatest])

/-! ## The timeline -/

def timelineRecords (timeline : ForceStatusTimeline) (c : ComponentConceptId) (day : Int) :
    List (Int × NormativeState) :=
  (timeline.events.filter fun e => e.component = c ∧ e.effectDay ≤ day).map
    fun e => (e.effectDay, e.status)

theorem asStr_not_empty (c : ComponentConceptId) : c.asStr.isEmpty = false := by
  have h := c.accepted
  unfold parseComponentConceptId at h
  split_ifs at h with he
  simpa using he

theorem NormativeState.asStr_injective : Function.Injective NormativeState.asStr := by
  intro s s' h
  cases s <;> cases s' <;> first | rfl | exact absurd h (by decide)

/-- The resolver answers as `force_readout` does on any records with the same dated
statuses. -/
theorem resolveForceStatusAt_eq (timeline : ForceStatusTimeline) (c : ComponentConceptId)
    (day : Int) {events : List ThreeCanonRecord}
    (h : ∀ r, r ∈ forceRecords events ↔ r ∈ timelineRecords timeline c day) :
    ∃ r, resolveForceStatusAt timeline c day = .ok r ∧
      (r.status, r.conflict) = forceReadout events := by
  unfold resolveForceStatusAt
  rw [if_neg (by simp [asStr_not_empty])]
  dsimp only
  generalize happ : timeline.events.filter (fun e => e.component = c ∧ e.effectDay ≤ day) = app
  have hrecords : ∀ d s, (d, s) ∈ forceRecords events ↔
      ∃ e ∈ app, e.effectDay = d ∧ e.status = s := by
    intro d s
    rw [h, timelineRecords, happ]
    simp
  cases hmax : (app.map (·.effectDay)).max? with
  | none =>
    refine ⟨_, rfl, ?_⟩
    refine (forceReadout_silent ?_).symm
    have hnil : app = [] := by simpa using List.max?_eq_none_iff.mp hmax
    rw [List.eq_nil_iff_forall_not_mem]
    rintro ⟨d, s⟩ hr
    simpa [hnil] using (hrecords d s).mp hr
  | some maxDay =>
    obtain ⟨hmem, hle⟩ := List.max?_eq_some_iff.mp hmax
    obtain ⟨e₀, he₀, hday⟩ := List.mem_map.mp hmem
    have hanswer : forceReadout events = answerOf (sortDedup (·.asStr)
        ((app.filter fun e => e.effectDay = maxDay).map (·.status))) := by
      refine forceReadout_eq (nodup_sortDedup NormativeState.asStr_injective _) fun s => ?_
      rw [mem_sortDedup NormativeState.asStr_injective,
        isLatest_iff (v := e₀.status) ((hrecords _ _).mpr ⟨e₀, he₀, hday, rfl⟩), hrecords]
      · simp [and_assoc]
      · rintro ⟨d, s⟩ hr
        obtain ⟨e, he, rfl, -⟩ := (hrecords d s).mp hr
        exact hle _ (List.mem_map_of_mem he)
    rw [hanswer]
    have hne : sortDedup (·.asStr)
        ((app.filter fun e => e.effectDay = maxDay).map (·.status)) ≠ [] := by
      apply List.ne_nil_of_mem (a := e₀.status)
      rw [mem_sortDedup NormativeState.asStr_injective]
      exact List.mem_map_of_mem (by simp [he₀, hday])
    dsimp only
    generalize sortDedup (·.asStr)
      ((app.filter fun e => e.effectDay = maxDay).map (·.status)) = statuses at hne ⊢
    match statuses, hne with
    | [s], _ =>
      refine ⟨_, rfl, ?_⟩
      rfl
    | _ :: _ :: _, _ =>
      refine ⟨_, rfl, ?_⟩
      rfl

/-! ## The checkout -/

theorem checkOrdered_ok {records : List ThreeCanonRecord} {previous : Option Int}
    (hordered : (records.map (·.effectDay)).Pairwise (· ≤ ·))
    (hprevious : ∀ d ∈ previous, ∀ r ∈ records, d ≤ r.effectDay) :
    checkOrdered previous records = .ok () := by
  induction records generalizing previous with
  | nil => rfl
  | cons r rest ih =>
    rw [List.map_cons, List.pairwise_cons] at hordered
    have hnot : ¬ ∃ d ∈ previous, r.effectDay < d := by
      rintro ⟨d, hd, hlt⟩
      exact absurd (hprevious d hd r List.mem_cons_self) (not_le.mpr hlt)
    rw [checkOrdered, if_neg hnot]
    refine ih hordered.2 fun d hd r' hr' => ?_
    obtain rfl := Option.some.inj hd
    exact hordered.1 _ (List.mem_map_of_mem hr')

/-- The days of a log are in order, so the check of the folds always passes. -/
theorem checkOrdered_log (log : ThreeCanonEventLog) : checkOrdered none log.records = .ok () :=
  checkOrdered_ok log.ordered (by simp)

/-- The canon events of one component up to a day. -/
def eventsOf (log : ThreeCanonEventLog) (c : ComponentConceptId) (day : Int) :
    List ThreeCanonRecord :=
  (projected log day).filter fun r => r.target = c

theorem checkoutProjectionAt_ok (log : ThreeCanonEventLog) (day : Int) :
    ∃ checkout, checkoutProjectionAt log day = .ok checkout ∧
      (checkout.provisions.map (·.target)).Nodup ∧
      ∀ entry, entry ∈ checkout.provisions ↔
        entry = checkoutEntry (entry.target, eventsOf log entry.target day) ∧
          eventsOf log entry.target day ≠ [] := by
  refine ⟨_, by rw [checkoutProjectionAt, checkOrdered_log], ?_, fun entry => ?_⟩
  · have hkeys := nodup_distinct ((projected log day).map (·.target))
    rw [← keys_group] at hkeys
    rw [((sortBy_perm _ _).map _).nodup_iff, List.map_map]
    exact hkeys
  · rw [mem_sortBy, List.mem_map]
    have hne : eventsOf log entry.target day ≠ [] ↔
        ∃ r ∈ projected log day, r.target = entry.target := by
      simp [eventsOf]
    rw [hne]
    constructor
    · rintro ⟨⟨k, events⟩, hmem, rfl⟩
      obtain ⟨rfl, hex⟩ := mem_group.mp hmem
      exact ⟨rfl, hex⟩
    · rintro ⟨heq, hex⟩
      exact ⟨_, mem_group.mpr ⟨rfl, hex⟩, heq.symm⟩

/-! ## The theorem -/

/-- The transition that a record writes. -/
def ThreeCanonRecord.transition (r : ThreeCanonRecord) :
    Option (ComponentConceptId × Int × NormativeState) :=
  r.forceOutcome.map fun s => (r.target, r.effectDay, s)

def ForceStatusEvent.transition (e : ForceStatusEvent) :
    ComponentConceptId × Int × NormativeState :=
  (e.component, e.effectDay, e.status)

/-- On a timeline with one event for each transition that the log writes, in any order, the
resolver agrees with the checkout of the component, and with the fold of the log when the
log is about no other component. -/
theorem force_readouts_agree {log : ThreeCanonEventLog} {timeline : ForceStatusTimeline}
    (htimeline : (timeline.events.map (·.transition)).Perm
      (log.records.filterMap (·.transition))) (c : ComponentConceptId) (day : Int) :
    ∃ r checkout, resolveForceStatusAt timeline c day = .ok r ∧
      checkoutProjectionAt log day = .ok checkout ∧
      (checkout.provisions.map (·.target)).Nodup ∧
      (∀ entry ∈ checkout.provisions, entry.target = c →
        (entry.forceStatus, entry.forceConflict) = (r.status, r.conflict)) ∧
      ((∀ entry ∈ checkout.provisions, entry.target ≠ c) →
        (r.status, r.conflict) = (.unknown, false)) ∧
      ((∀ record ∈ log.records, record.target = c) →
        ∃ fold, foldThreeCanonAt log day = .ok fold ∧
          (fold.forceStatus, fold.forceConflict) = (r.status, r.conflict)) := by
  have hcanon : ∀ {r : ThreeCanonRecord} {s}, r.forceOutcome = some s → r.isCanonEvent = true := by
    intro r s hs
    cases r with
    | editionOracle r => exact absurd hs (by simp [ThreeCanonRecord.forceOutcome])
    | amendment r => rfl
    | assertionOrEffect r => rfl
  have hsame : ∀ x, x ∈ forceRecords (eventsOf log c day) ↔ x ∈ timelineRecords timeline c day := by
    rintro ⟨d, s⟩
    have htransition : (c, d, s) ∈ log.records.filterMap (·.transition) ↔
        (c, d, s) ∈ timeline.events.map (·.transition) := htimeline.mem_iff.symm
    simp only [List.mem_filterMap, List.mem_map, ThreeCanonRecord.transition,
      ForceStatusEvent.transition, Option.map_eq_some_iff, Prod.mk.injEq] at htransition
    simp only [mem_forceRecords, eventsOf, projected, timelineRecords, List.mem_filter,
      List.mem_map, decide_eq_true_eq, Prod.mk.injEq]
    constructor
    · rintro ⟨r, ⟨⟨hr, -, hday⟩, rfl⟩, rfl, hs⟩
      obtain ⟨e, he, hec, hed, hes⟩ := htransition.mp ⟨r, hr, s, hs, rfl, rfl, rfl⟩
      exact ⟨e, ⟨he, hec, hed ▸ hday⟩, hed, hes⟩
    · rintro ⟨e, ⟨he, hec, hday⟩, rfl, rfl⟩
      obtain ⟨r, hr, s, hs, hrc, hrd, rfl⟩ := htransition.mpr ⟨e, he, hec, rfl, rfl⟩
      exact ⟨r, ⟨⟨hr, hcanon hs, hrd ▸ hday⟩, hrc⟩, hrd, hs⟩
  obtain ⟨r, hresolve, hanswer⟩ := resolveForceStatusAt_eq timeline c day hsame
  obtain ⟨checkout, hcheckout, hnodup, hentries⟩ := checkoutProjectionAt_ok log day
  refine ⟨r, checkout, hresolve, hcheckout, hnodup, ?_, ?_, ?_⟩
  · rintro entry hentry rfl
    rw [hanswer, ((hentries entry).mp hentry).1]
    rfl
  · intro hnone
    rw [hanswer]
    apply forceReadout_silent
    have hnil : eventsOf log c day = [] := by
      by_contra hne
      exact hnone _ ((hentries (checkoutEntry (c, eventsOf log c day))).mpr ⟨rfl, hne⟩) rfl
    rw [hnil]
    rfl
  · intro hall
    have hevents : projected log day = eventsOf log c day := by
      rw [eventsOf, eq_comm, List.filter_eq_self]
      intro r hr
      simpa using hall r (List.mem_of_mem_filter hr)
    refine ⟨_, by rw [foldThreeCanonAt, checkOrdered_log], ?_⟩
    rw [hanswer, ← hevents]

/-- The repeal in front of the suspension, on a timeline. -/
def Sample.timeline : ForceStatusTimeline :=
  ⟨[⟨Sample.chapter, .repealed, 3, Sample.act, rfl⟩,
    ⟨Sample.chapter, .suspended, 1, Sample.act, rfl⟩]⟩

theorem force_readouts_agree_repeal : ∃ r fold,
    resolveForceStatusAt Sample.timeline Sample.chapter 3 = .ok r ∧
      foldThreeCanonAt Sample.canonLog 3 = .ok fold ∧
      (fold.forceStatus, fold.forceConflict) = (r.status, r.conflict) := by
  have htimeline : (Sample.timeline.events.map (·.transition)).Perm
      (Sample.canonLog.records.filterMap (·.transition)) := by decide
  obtain ⟨r, -, hresolve, -, -, -, -, hfold⟩ :=
    force_readouts_agree htimeline Sample.chapter 3
  obtain ⟨fold, hok, hsame⟩ := hfold (by decide)
  exact ⟨r, fold, hresolve, hok, hsame⟩

end LawNexus
