import LawNexus.Replay.Coordinator
import Mathlib.Data.List.Nodup

/-!
# At-most-once replay

Whatever the ports answer, every pair of an operation and an effect is applied at most once.
-/

namespace LawNexus

namespace Replay

theorem bar_notMem {kind : String} (id : CheckedId kind) : '|' ∉ id.asStr.toList :=
  fun h => absurd (id.isIdChar_of_mem h) (by decide)

/-- The bar stands in no id, so the key tells the pair. -/
theorem ledgerKey_inj {op op' : OperationId} {eff eff' : EffectId} :
    ledgerKey op eff = ledgerKey op' eff' ↔ op = op' ∧ eff = eff' := by
  constructor
  · intro h
    have htext : op.asStr.toList ++ '|' :: eff.asStr.toList =
        op'.asStr.toList ++ '|' :: eff'.asStr.toList := by
      have htext := congrArg String.toList h
      simp only [ledgerKey, String.toList_append, List.append_assoc] at htext
      exact htext
    obtain ⟨hop, heff⟩ := (Texts.append_cons_inj (bar_notMem op) (bar_notMem op')).mp htext
    exact ⟨CheckedId.asStr_injective (String.toList_inj.mp hop),
      CheckedId.asStr_injective (String.toList_inj.mp heff)⟩
  · rintro ⟨rfl, rfl⟩
    rfl

/-! ## What a log of requests and results applied -/

abbrev Log := List (ReplayRequest × ReplayResult)

abbrev Pair := OperationId × EffectId

def pairOf (request : ReplayRequest) : Pair := (request.operationId, request.effectId)

def keyOf (pair : Pair) : String := ledgerKey pair.1 pair.2

theorem keyOf_injective : Function.Injective keyOf := fun _ _ h =>
  Prod.ext_iff.mpr (ledgerKey_inj.mp h)

/-- The pair and the digest of an entry, if it was applied. -/
def appliedEntry (entry : ReplayRequest × ReplayResult) : Option (Pair × CheckpointDigest) :=
  if entry.2.outcome = .applied then
    entry.2.trace.observedDigest.map fun digest => (pairOf entry.1, digest)
  else none

def appliedPairs (log : Log) : List (Pair × CheckpointDigest) := log.filterMap appliedEntry

/-- The identities of the coordinator are those that the log applied, each once. -/
structure Recorded {σ τ : Type} (log : Log) (s : Coordinator σ τ) : Prop where
  applied : s.applied = (appliedPairs log).map fun a => (keyOf a.1, a.2)
  nodup : ((appliedPairs log).map (·.1)).Nodup

theorem get_of_recorded {σ τ : Type} {log : Log} {s : Coordinator σ τ} (h : Recorded log s)
    (pair : Pair) : s.applied.get (keyOf pair) =
      ((appliedPairs log).find? (·.1 = pair)).map (·.2) := by
  unfold Applied.get
  rw [h.applied, List.find?_map]
  have hsame : ((fun e : String × CheckpointDigest => decide (e.1 = keyOf pair)) ∘
      fun a : Pair × CheckpointDigest => (keyOf a.1, a.2)) = fun a => decide (a.1 = pair) := by
    funext a
    exact decide_eq_decide.mpr keyOf_injective.eq_iff
  rw [hsame, Option.map_map]
  rfl

/-! ## One request -/

section

variable {σ τ : Type} {checkpoints : CheckpointPort σ} {ledger : EffectLedgerPort τ}
  {s : Coordinator σ τ} {request : ReplayRequest}

/-- The record that the port answers, where it passes the checks of the request. -/
def passed (checkpoints : CheckpointPort σ) (s : Coordinator σ τ) (request : ReplayRequest) :
    Option CheckpointRecord :=
  (checkpoints.load s.checkpoints request.checkpointId).1.filter fun record =>
    record.digest = request.expectedDigest && record.ruleVersion = request.expectedRuleVersion &&
      (record.operationId = request.operationId && record.effectId = request.effectId)

variable (ledger) in
/-- A request that fails a check is refused and applies nothing. -/
theorem replay_refused (h : passed checkpoints s request = none) :
    let step := s.replay checkpoints ledger request
    (step.1.outcome = .incomplete ∨ step.1.outcome = .corrupt ∨
      step.1.outcome = .incompatibleRule ∨ step.1.outcome = .mismatch) ∧
    step.1.appliedCount = s.appliedCount ∧ step.2.applied = s.applied := by
  unfold passed at h
  unfold Coordinator.replay
  dsimp only
  cases hload : (checkpoints.load s.checkpoints request.checkpointId).1 with
  | none => simp [finish]
  | some record =>
    rw [hload, Option.filter_eq_none_iff] at h
    have hfails := h record rfl
    dsimp only
    by_cases hdigest : record.digest = request.expectedDigest
    · by_cases hrule : record.ruleVersion = request.expectedRuleVersion
      · have hother : record.operationId ≠ request.operationId ∨
            record.effectId ≠ request.effectId := by
          by_contra hsame
          push Not at hsame
          simp [hdigest, hrule, hsame] at hfails
        simp [hdigest, hrule, hother, Coordinator.refuse, finish]
      · simp [hdigest, hrule, Coordinator.refuse, finish]
    · simp [hdigest, Coordinator.refuse, finish]

theorem replay_passed {record : CheckpointRecord}
    (h : passed checkpoints s request = some record) : s.replay checkpoints ledger request =
      Coordinator.apply ledger { s with
        checkpoints := (checkpoints.load s.checkpoints request.checkpointId).2 } request record := by
  unfold passed at h
  obtain ⟨hload, hchecks⟩ := Option.filter_eq_some_iff.mp h
  simp only [Bool.and_eq_true, decide_eq_true_eq] at hchecks
  obtain ⟨⟨hdigest, hrule⟩, hop, heff⟩ := hchecks
  unfold Coordinator.replay
  simp only [hload, hdigest, hrule, hop, heff, ne_eq, not_true_eq_false, or_self, if_false]

variable (ledger) in
/-- A request that passes is suppressed where its pair is applied, and applied where it is not. -/
theorem replay_spec {record : CheckpointRecord} {log : Log}
    (h : passed checkpoints s request = some record) (hlog : Recorded log s) :
    let step := s.replay checkpoints ledger request
    step.1.trace.observedDigest = some record.digest ∧
    ((∃ digest, ((appliedPairs log).find? (·.1 = pairOf request)) = some (pairOf request, digest) ∧
      step.1.outcome = .suppressed ∧ step.1.trace.priorAppliedDigest = some digest ∧
      step.1.appliedCount = s.appliedCount ∧ step.2.applied = s.applied) ∨
    ((appliedPairs log).find? (·.1 = pairOf request) = none ∧
      step.1.outcome = .applied ∧ step.1.appliedCount = s.appliedCount + 1 ∧
      step.2.applied = s.applied ++ [(keyOf (pairOf request), record.digest)])) := by
  intro step
  have hstep : step = _ := replay_passed h
  rw [hstep]
  have hget := get_of_recorded hlog (pairOf request)
  unfold Coordinator.apply
  have hkey : ledgerKey request.operationId request.effectId = keyOf (pairOf request) := rfl
  rw [hkey]
  dsimp only
  rw [hget]
  cases hfind : (appliedPairs log).find? (·.1 = pairOf request) with
  | some found =>
    have hpair : found.1 = pairOf request := by simpa using List.find?_some hfind
    refine ⟨rfl, Or.inl ⟨found.2, ?_, rfl, rfl, rfl, rfl⟩⟩
    rw [← hpair]
  | none =>
    rw [hfind] at hget
    refine ⟨rfl, Or.inr ⟨rfl, rfl, ?_, ?_⟩⟩
    all_goals simp [Applied.insert, hget, finish, Coordinator.appliedCount]

/-! ## A sequence of requests -/

theorem replayAll_concat (s : Coordinator σ τ) (front : List ReplayRequest)
    (request : ReplayRequest) : s.replayAll checkpoints ledger (front ++ [request]) =
      let before := s.replayAll checkpoints ledger front
      let step := before.2.replay checkpoints ledger request
      (before.1 ++ [(request, step.1)], step.2) := by
  induction front generalizing s with
  | nil => rfl
  | cons first front ih =>
    rw [List.cons_append, Coordinator.replayAll, ih]
    rfl

theorem Recorded.step {log : Log} (h : Recorded log s) :
    let step := s.replay checkpoints ledger request
    Recorded (log ++ [(request, step.1)]) step.2 := by
  intro step
  have hnew : appliedPairs (log ++ [(request, step.1)]) =
      appliedPairs log ++ (appliedEntry (request, step.1)).toList := by
    unfold appliedPairs
    rw [List.filterMap_append]
    cases happlied : appliedEntry (request, step.1) <;> simp [happlied]
  cases hpassed : passed checkpoints s request with
  | none =>
    obtain ⟨houtcome, -, hsame⟩ := replay_refused ledger hpassed
    have hnot : appliedEntry (request, step.1) = none := by
      refine if_neg fun happlied => ?_
      rcases houtcome with hout | hout | hout | hout <;>
        exact ReplayOutcome.noConfusion (happlied.symm.trans hout)
    rw [hnot, Option.toList_none, List.append_nil] at hnew
    refine ⟨?_, hnew ▸ h.nodup⟩
    rw [hnew]
    exact hsame.trans h.applied
  | some record =>
    obtain ⟨hdigest, hspec⟩ := replay_spec ledger hpassed h
    rcases hspec with ⟨digest, -, houtcome, -, -, hsame⟩ | ⟨hfresh, houtcome, -, happlied⟩
    · have hnot : appliedEntry (request, step.1) = none :=
        if_neg fun h => ReplayOutcome.noConfusion (h.symm.trans houtcome)
      rw [hnot, Option.toList_none, List.append_nil] at hnew
      refine ⟨?_, hnew ▸ h.nodup⟩
      rw [hnew]
      exact hsame.trans h.applied
    · have hentry : appliedEntry (request, step.1) = some (pairOf request, record.digest) := by
        unfold appliedEntry
        rw [if_pos houtcome, hdigest]
        rfl
      rw [hentry] at hnew
      refine ⟨?_, ?_⟩
      · rw [hnew, List.map_append, ← h.applied]
        exact happlied
      · rw [hnew, List.map_append]
        refine List.nodup_append.mpr ⟨h.nodup, List.nodup_singleton _, ?_⟩
        intro pair hpair pair' hpair'
        obtain ⟨a, ha, rfl⟩ := List.mem_map.mp hpair
        rw [List.mem_singleton.mp hpair']
        exact fun heq => List.find?_eq_none.mp hfresh a ha (decide_eq_true heq)

theorem recorded_replayAll (σ₀ : σ) (τ₀ : τ) (requests : List ReplayRequest) :
    let run := (Coordinator.new σ₀ τ₀).replayAll checkpoints ledger requests
    Recorded run.1 run.2 := by
  induction requests using List.reverseRecOn with
  | nil => exact ⟨rfl, List.nodup_nil⟩
  | append_singleton front request ih =>
    rw [replayAll_concat]
    exact ih.step

/-- An applied result tells the digest it recorded. -/
theorem observedDigest_of_applied (h : (s.replay checkpoints ledger request).1.outcome = .applied) :
    ∃ digest, (s.replay checkpoints ledger request).1.trace.observedDigest = some digest := by
  cases hpassed : passed checkpoints s request with
  | none =>
    rcases (replay_refused ledger hpassed).1 with hout | hout | hout | hout <;>
      exact ReplayOutcome.noConfusion (h.symm.trans hout)
  | some record =>
    rw [replay_passed hpassed]
    unfold Coordinator.apply
    dsimp only
    split <;> exact ⟨record.digest, rfl⟩

theorem appliedPairs_replayAll (s : Coordinator σ τ) (requests : List ReplayRequest) :
    let log := (s.replayAll checkpoints ledger requests).1
    (appliedPairs log).map (·.1) =
      (log.filter (·.2.outcome = .applied)).map fun entry => pairOf entry.1 := by
  induction requests generalizing s with
  | nil => rfl
  | cons request rest ih =>
    rw [Coordinator.replayAll]
    dsimp only
    have hrest := ih (s.replay checkpoints ledger request).2
    unfold appliedPairs at hrest ⊢
    by_cases happlied : (s.replay checkpoints ledger request).1.outcome = .applied
    · obtain ⟨digest, hdigest⟩ := observedDigest_of_applied happlied
      have hentry : appliedEntry (request, (s.replay checkpoints ledger request).1) =
          some (pairOf request, digest) := by
        unfold appliedEntry
        rw [if_pos happlied, hdigest]
        rfl
      rw [List.filterMap_cons_some hentry, List.filter_cons, if_pos (decide_eq_true happlied),
        List.map_cons, List.map_cons, hrest]
    · have hentry : appliedEntry (request, (s.replay checkpoints ledger request).1) = none :=
        if_neg happlied
      rw [List.filterMap_cons_none hentry, List.filter_cons, if_neg (by simpa using happlied), hrest]

theorem entry_applied {requests : List ReplayRequest} {entry : ReplayRequest × ReplayResult}
    (h : entry ∈ (s.replayAll checkpoints ledger requests).1)
    (happlied : entry.2.outcome = .applied) :
    ∃ digest, entry.2.trace.observedDigest = some digest ∧
      (pairOf entry.1, digest) ∈ appliedPairs (s.replayAll checkpoints ledger requests).1 := by
  have hdigest : ∃ digest, entry.2.trace.observedDigest = some digest := by
    induction requests generalizing s with
    | nil => cases h
    | cons request rest ih =>
      rcases List.mem_cons.mp h with rfl | h
      · exact observedDigest_of_applied happlied
      · exact ih h
  obtain ⟨digest, hdigest⟩ := hdigest
  refine ⟨digest, hdigest, List.mem_filterMap.mpr ⟨entry, h, ?_⟩⟩
  unfold appliedEntry
  rw [if_pos happlied, hdigest]
  rfl

/-- At most one application of a pair, whatever the ports answer: a later request that passes is
suppressed with the digest of the first, no other request changes what is applied, and the count is
that of the applied pairs. -/
theorem replay_at_most_once (checkpoints : CheckpointPort σ) (ledger : EffectLedgerPort τ)
    (σ₀ : σ) (τ₀ : τ) (requests : List ReplayRequest) :
    let run := (Coordinator.new σ₀ τ₀).replayAll checkpoints ledger requests
    let applied := (run.1.filter (·.2.outcome = .applied)).map fun entry => pairOf entry.1
    applied.Nodup ∧ run.2.appliedCount = applied.length ∧
    ∀ front request back, requests = front ++ request :: back →
      let before := (Coordinator.new σ₀ τ₀).replayAll checkpoints ledger front
      let step := before.2.replay checkpoints ledger request
      (∀ record, passed checkpoints before.2 request = some record →
        (∀ entry ∈ before.1, entry.2.outcome = .applied → pairOf entry.1 = pairOf request →
          step.1.outcome = .suppressed ∧
            step.1.trace.priorAppliedDigest = entry.2.trace.observedDigest) ∧
        ((∀ entry ∈ before.1, entry.2.outcome = .applied → pairOf entry.1 ≠ pairOf request) →
          step.1.outcome = .applied)) ∧
      (passed checkpoints before.2 request = none →
        step.1.outcome = .incomplete ∨ step.1.outcome = .corrupt ∨
          step.1.outcome = .incompatibleRule ∨ step.1.outcome = .mismatch) ∧
      (step.1.outcome ≠ .applied → step.2.applied = before.2.applied) := by
  intro run applied
  have hrun : Recorded run.1 run.2 := recorded_replayAll σ₀ τ₀ requests
  have hpairs : (appliedPairs run.1).map (·.1) = applied := appliedPairs_replayAll _ requests
  refine ⟨hpairs ▸ hrun.nodup, ?_, ?_⟩
  · rw [← hpairs, List.length_map, Coordinator.appliedCount, hrun.applied, List.length_map]
  · rintro front request back rfl before step
    have hbefore : Recorded before.1 before.2 := recorded_replayAll σ₀ τ₀ front
    refine ⟨fun record hpassed => ?_, fun hpassed => ?_, fun hnot => ?_⟩
    · obtain ⟨-, hspec⟩ := replay_spec ledger hpassed hbefore
      constructor
      · intro entry hentry happlied hpair
        obtain ⟨digest, hdigest, hmem⟩ := entry_applied hentry happlied
        rcases hspec with ⟨found, hfound, houtcome, hprior, -⟩ | ⟨hnone, -⟩
        · have hsame : (pairOf entry.1, digest) = (pairOf request, found) :=
            List.inj_on_of_nodup_map hbefore.nodup hmem (List.mem_of_find?_eq_some hfound) hpair
          refine ⟨houtcome, hprior.trans ?_⟩
          rw [hdigest, (Prod.mk.inj hsame).2]
        · exact absurd (decide_eq_true hpair) (List.find?_eq_none.mp hnone _ hmem)
      · intro hfresh
        rcases hspec with ⟨found, hfound, -⟩ | ⟨-, houtcome, -⟩
        · have hmem : pairOf request ∈ (appliedPairs before.1).map (·.1) :=
            List.mem_map.mpr ⟨_, List.mem_of_find?_eq_some hfound, rfl⟩
          rw [appliedPairs_replayAll] at hmem
          obtain ⟨entry, hentry, hpair⟩ := List.mem_map.mp hmem
          obtain ⟨hin, happlied⟩ := List.mem_filter.mp hentry
          exact absurd hpair (hfresh entry hin (of_decide_eq_true happlied))
        · exact houtcome
    · exact (replay_refused ledger hpassed).1
    · cases hpassed : passed checkpoints before.2 request with
      | none => exact (replay_refused ledger hpassed).2.2
      | some record =>
        obtain ⟨-, ⟨_, -, -, -, -, hsame⟩ | ⟨-, houtcome, -⟩⟩ :=
          replay_spec ledger hpassed hbefore
        · exact hsame
        · exact absurd houtcome hnot

end

end Replay

end LawNexus
