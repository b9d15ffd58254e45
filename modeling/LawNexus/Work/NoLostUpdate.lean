import LawNexus.Calls
import LawNexus.Work.Transition

/-!
# No lost updates

Whatever the evidence answers, a unit that is opened once keeps its identities, and each of its
checkpoints lets one transition through.
-/

namespace LawNexus.Work

open Calls TransitionWorkState

variable {ε : Type} {port : DomainEvidencePort ε} {s s' : TransitionWorkState ε} {id : WorkUnitId}
  {request : TransitionRequest}

/-! ## Records -/

/-- A later record of one unit: the same identities, and the same record or a greater number. -/
def Follows (r r' : WorkRecord) : Prop :=
  r'.domainSnapshot = r.domainSnapshot ∧ r'.publicationSnapshot = r.publicationSnapshot ∧
    (r' = r ∨ r.checkpointSeq.toNat < r'.checkpointSeq.toNat)

theorem follows_refl (r : WorkRecord) : Follows r r := ⟨rfl, rfl, .inl rfl⟩

theorem Follows.trans {r r' r'' : WorkRecord} (h : Follows r r') (h' : Follows r' r'') :
    Follows r r'' := by
  obtain ⟨hdomain, hpublication, hseq⟩ := h
  obtain ⟨hdomain', hpublication', hseq'⟩ := h'
  refine ⟨hdomain'.trans hdomain, hpublication'.trans hpublication, ?_⟩
  rcases hseq with rfl | hseq
  · exact hseq'
  · rcases hseq' with rfl | hseq'
    · exact .inr hseq
    · exact .inr (hseq.trans hseq')

theorem Follows.le {r r' : WorkRecord} (h : Follows r r') :
    r.checkpointSeq.toNat ≤ r'.checkpointSeq.toNat := by
  rcases h.2.2 with rfl | hlt
  · exact le_rfl
  · exact hlt.le

theorem checkpoint_inj {r r' : WorkRecord} :
    r.checkpoint = r'.checkpoint ↔ r.checkpointSeq = r'.checkpointSeq := by
  rw [r.numbered, r'.numbered, checkpointAt_inj]

theorem follows_advanced {prior : WorkRecord} {next : WorkState}
    (h : prior.checkpointSeq.toNat + 1 < 2 ^ 64) :
    prior.checkpointSeq.toNat < (advanced prior next).checkpointSeq.toNat ∧
      Follows prior (advanced prior next) := by
  have hlt : prior.checkpointSeq.toNat < (advanced prior next).checkpointSeq.toNat := by
    change _ < (prior.checkpointSeq + 1).toNat
    rw [UInt64.toNat_add, UInt64.toNat_one, Nat.mod_eq_of_lt h]
    exact Nat.lt_succ_self _
  exact ⟨hlt, rfl, rfl, .inr hlt⟩

/-! ## One call -/

/-- What a transition does: it advances the record of its unit, or it changes no record. -/
theorem transition_cases :
    (∃ prior next, s.record request.workUnitId = some prior ∧
      (∀ c ∈ request.expectedCheckpoint, c = prior.checkpoint) ∧
      (transition port s request).1.outcome = .transitioned ∧
      ∀ id, (transition port s request).2.record id =
        if id = request.workUnitId then some (advanced prior next) else s.record id) ∨
    ((transition port s request).1.outcome ≠ .transitioned ∧
      ∀ id, (transition port s request).2.record id = s.record id) := by
  unfold transition
  cases hprior : s.record request.workUnitId with
  | none => exact .inr ⟨nofun, fun _ => rfl⟩
  | some prior =>
    dsimp only
    split_ifs with hstale hforbidden
    · exact .inr ⟨nofun, fun _ => rfl⟩
    · exact .inr ⟨nofun, fun _ => rfl⟩
    · cases nextState prior.state request.event with
      | none => exact .inr ⟨nofun, fun _ => rfl⟩
      | some next =>
        refine .inl ⟨prior, next, rfl, fun c hc => ?_, rfl, fun id => s.units.get_insert _ id _⟩
        rw [hc] at hstale
        simpa using hstale

/-- A request with another checkpoint than the current one is stale. -/
theorem transition_stale {prior : WorkRecord} {c : CheckpointId}
    (hprior : s.record request.workUnitId = some prior)
    (hexpected : request.expectedCheckpoint = some c) (hne : c ≠ prior.checkpoint) :
    transition port s request = (refused request .staleCheckpoint prior, s) := by
  rw [transition, hprior, hexpected]
  dsimp only
  rw [if_pos (by simpa using hne)]

theorem record_openUnit (id' : WorkUnitId) : ∃ r, (openUnit port s id).2.record id' =
    if id' = id then some r else s.record id' :=
  ⟨_, s.units.get_insert id id' _⟩

/-- Every record of a state has a later one in another state. -/
def Keeps (s s' : TransitionWorkState ε) : Prop :=
  ∀ id r, s.record id = some r → ∃ r', s'.record id = some r' ∧ Follows r r'

theorem keeps_refl (s : TransitionWorkState ε) : Keeps s s := fun _ r h => ⟨r, h, follows_refl r⟩

theorem Keeps.trans {s s' s'' : TransitionWorkState ε} (h : Keeps s s') (h' : Keeps s' s'') :
    Keeps s s'' := by
  intro id r hr
  obtain ⟨r', hr', hfollows⟩ := h id r hr
  obtain ⟨r'', hr'', hfollows'⟩ := h' id r' hr'
  exact ⟨r'', hr'', hfollows.trans hfollows'⟩

/-- A call that opens no open unit, and finds no unit at the last number. -/
def Careful (s : TransitionWorkState ε) : Call → Prop
  | .openUnit id => s.record id = none
  | .transition request =>
    ∀ r ∈ s.record request.workUnitId, r.checkpointSeq.toNat + 1 < 2 ^ 64

theorem keeps_step {call : Call} (h : Careful s call) : Keeps s (step port s call).2 := by
  intro id r hr
  cases call with
  | openUnit id' =>
    obtain ⟨r', hr'⟩ := @record_openUnit ε port s id' id
    replace h : s.record id' = none := h
    refine ⟨r, ?_, follows_refl r⟩
    rw [step, hr', if_neg, hr]
    rintro rfl
    cases h.symm.trans hr
  | transition request =>
    rw [step]
    rcases @transition_cases ε port s request with ⟨prior, next, hprior, -, -, hrecord⟩ | ⟨-, hrecord⟩
    · rw [hrecord]
      split_ifs with hid
      · rw [hid, hprior] at hr
        obtain rfl := Option.some.inj hr
        exact ⟨_, rfl, (follows_advanced (h prior hprior)).2⟩
      · exact ⟨r, hr, follows_refl r⟩
    · exact ⟨r, by rw [hrecord, hr], follows_refl r⟩

/-! ## Runs -/

abbrev WorkTurn (ε : Type) := Turn (TransitionWorkState ε) Call TransitionResult

/-- A transition of a unit that went through. -/
def Advances (t : WorkTurn ε) (id : WorkUnitId) : Prop :=
  ∃ request, t.call = .transition request ∧ request.workUnitId = id ∧
    t.answer.outcome = .transitioned

/-- A transition of a unit that expected a checkpoint and went through. -/
def AdvancesFrom (t : WorkTurn ε) (id : WorkUnitId) (c : CheckpointId) : Prop :=
  ∃ request, t.call = .transition request ∧ request.workUnitId = id ∧
    request.expectedCheckpoint = some c ∧ t.answer.outcome = .transitioned

def checkpointOf (s : TransitionWorkState ε) (id : WorkUnitId) : Option CheckpointId :=
  (s.record id).map (·.checkpoint)

/-- A transition that went through has raised the number of its unit. -/
theorem Advances.exists_records {calls : List Call} {t : WorkTurn ε}
    (ht : t ∈ turns (step port) s calls) (hcareful : Careful t.before t.call)
    (h : Advances t id) : ∃ r r', t.before.record id = some r ∧ t.after.record id = some r' ∧
      r.checkpointSeq.toNat < r'.checkpointSeq.toNat := by
  obtain ⟨request, hcall, rfl, houtcome⟩ := h
  have hturn := eq_turn ht
  rw [hcall] at hturn hcareful
  rw [hturn] at houtcome ⊢
  rcases @transition_cases ε port t.before request with ⟨prior, next, hprior, -, -, hrecord⟩ | ⟨hne, -⟩
  · refine ⟨prior, advanced prior next, hprior, ?_, (follows_advanced (hcareful prior hprior)).1⟩
    exact (hrecord _).trans (if_pos rfl)
  · exact absurd houtcome hne

theorem AdvancesFrom.exists_record {calls : List Call} {t : WorkTurn ε} {c : CheckpointId}
    (ht : t ∈ turns (step port) s calls) (h : AdvancesFrom t id c) :
    ∃ r, t.before.record id = some r ∧ c = r.checkpoint := by
  obtain ⟨request, hcall, rfl, hexpected, houtcome⟩ := h
  have hturn := eq_turn ht
  rw [hcall] at hturn
  rw [hturn] at houtcome ⊢
  rcases @transition_cases ε port t.before request with ⟨prior, next, hprior, hc, -⟩ | ⟨hne, -⟩
  · exact ⟨prior, hprior, hc c hexpected⟩
  · exact absurd houtcome hne

theorem AdvancesFrom.advances {t : WorkTurn ε} {c : CheckpointId} (h : AdvancesFrom t id c) :
    Advances t id := by
  obtain ⟨request, hcall, hid, -, houtcome⟩ := h
  exact ⟨request, hcall, hid, houtcome⟩

section

variable {calls : List Call} (hcareful : ∀ t ∈ turns (step port) s calls, Careful t.before t.call)
include hcareful

theorem keeps_turn {t : WorkTurn ε} (ht : t ∈ turns (step port) s calls) :
    Keeps t.before t.after := by
  have hkeeps := @keeps_step ε port _ _ (hcareful t ht)
  rwa [show (step port t.before t.call).2 = t.after by rw [eq_turn ht]; rfl] at hkeeps

theorem keeps_after : Keeps s (after (step port) s calls) :=
  related keeps_refl Keeps.trans fun _ ht => keeps_turn hcareful ht

/-- A unit that has advanced in a run has a greater number at its end. -/
theorem lt_of_advances {t : WorkTurn ε} (ht : t ∈ turns (step port) s calls) (h : Advances t id)
    {r : WorkRecord} (hr : s.record id = some r) :
    ∃ r', (after (step port) s calls).record id = some r' ∧
      r.checkpointSeq.toNat < r'.checkpointSeq.toNat := by
  obtain ⟨hbefore, hafter⟩ := related_turn keeps_refl Keeps.trans
    (fun _ ht => keeps_turn hcareful ht) ht
  obtain ⟨r₁, r₂, hr₁, hr₂, hlt⟩ := h.exists_records ht (hcareful t ht)
  obtain ⟨r₁', hr₁', hle⟩ := hbefore id r hr
  obtain rfl := Option.some.inj (hr₁'.symm.trans hr₁)
  obtain ⟨r', hr', hle'⟩ := hafter id r₂ hr₂
  exact ⟨r', hr', hle.le.trans_lt (hlt.trans_le hle'.le)⟩

/-- One checkpoint of a unit lets one transition through. -/
theorem pairwise_advancesFrom : (turns (step port) s calls).Pairwise fun t t' =>
    ∀ id c, AdvancesFrom t id c → ¬ AdvancesFrom t' id c := by
  -- What a turn leaves behind: a record with a greater number than the one with its checkpoint.
  refine pairwise (q := fun t s => ∀ id c, AdvancesFrom t id c →
    ∃ n r, c = checkpointAt n ∧ s.record id = some r ∧ n.toNat < r.checkpointSeq.toNat) ?_ ?_ ?_
  · intro t ht id c h
    obtain ⟨r, r', hr, hr', hlt⟩ := h.advances.exists_records ht (hcareful t ht)
    obtain ⟨r'', hr'', rfl⟩ := h.exists_record ht
    obtain rfl := Option.some.inj (hr''.symm.trans hr)
    exact ⟨r''.checkpointSeq, r', r''.numbered, hr', hlt⟩
  · intro t t' ht' hq id c h
    obtain ⟨n, r, rfl, hr, hlt⟩ := hq id c h
    obtain ⟨r', hr', hfollows⟩ := keeps_turn hcareful ht' id r hr
    exact ⟨n, r', rfl, hr', hlt.trans_le hfollows.le⟩
  · intro t t' ht' hq id c h h'
    obtain ⟨n, r, rfl, hr, hlt⟩ := hq id c h
    obtain ⟨r', hr', hc⟩ := h'.exists_record ht'
    obtain rfl := Option.some.inj (hr'.symm.trans hr)
    rw [r'.numbered, checkpointAt_inj] at hc
    rw [hc] at hlt
    exact hlt.false

end

/-- A run over careful calls, in two parts. Nothing that a unit has after the first part is lost
in the second one: not its identities, and no checkpoint comes back. -/
theorem no_lost_update (port : DomainEvidencePort ε) (evidence : ε) (calls more : List Call)
    (hcareful : ∀ t ∈ turns (step port) (new evidence) (calls ++ more), Careful t.before t.call) :
    let s := after (step port) (new evidence) calls
    let s' := after (step port) (new evidence) (calls ++ more)
    (∀ id domain, s.domainSnapshotOf id = some domain → s'.domainSnapshotOf id = some domain) ∧
    (∀ id publication, s.publicationSnapshotOf id = some publication →
      s'.publicationSnapshotOf id = some publication) ∧
    (∀ id c, checkpointOf s id = some c → checkpointOf s' id = some c →
      ∀ t ∈ turns (step port) s more, ¬ Advances t id) ∧
    ((turns (step port) (new evidence) (calls ++ more)).Pairwise fun t t' =>
      ∀ id c, AdvancesFrom t id c → ¬ AdvancesFrom t' id c) ∧
    ∀ request c, request.expectedCheckpoint = some c →
      checkpointOf s request.workUnitId = some c →
      (∃ t ∈ turns (step port) s more, Advances t request.workUnitId) →
      (transition port s' request).1.outcome = .staleCheckpoint ∧
        (transition port s' request).2 = s' ∧
        some (transition port s' request).1.state = s'.stateOf request.workUnitId ∧
        some (transition port s' request).1.checkpoint = checkpointOf s' request.workUnitId := by
  intro s s'
  have hend : s' = after (step port) s more := after_append
  have hmore : ∀ t ∈ turns (step port) s more, Careful t.before t.call := by
    intro t ht
    refine hcareful t ?_
    rw [turns_append]
    exact List.mem_append_right _ ht
  have hkeeps : Keeps s s' := hend ▸ keeps_after hmore
  -- A unit that advances in the second part has another checkpoint at its end.
  have hmoved : ∀ id r, s.record id = some r → (∃ t ∈ turns (step port) s more, Advances t id) →
      ∃ r', s'.record id = some r' ∧ r.checkpoint ≠ r'.checkpoint := by
    rintro id r hr ⟨t, ht, hadvances⟩
    obtain ⟨r', hr', hlt⟩ := lt_of_advances hmore ht hadvances hr
    refine ⟨r', hend ▸ hr', fun heq => ?_⟩
    rw [checkpoint_inj.mp heq] at hlt
    exact hlt.false
  refine ⟨?_, ?_, ?_, pairwise_advancesFrom hcareful, ?_⟩
  · intro id domain h
    obtain ⟨r, hr, rfl⟩ := Option.map_eq_some_iff.mp h
    obtain ⟨r', hr', hdomain, -⟩ := hkeeps id r hr
    exact Option.map_eq_some_iff.mpr ⟨r', hr', hdomain⟩
  · intro id publication h
    obtain ⟨r, hr, rfl⟩ := Option.map_eq_some_iff.mp h
    obtain ⟨r', hr', -, hpublication, -⟩ := hkeeps id r hr
    exact Option.map_eq_some_iff.mpr ⟨r', hr', hpublication⟩
  · intro id c hc hc' t ht hadvances
    obtain ⟨r, hr, rfl⟩ := Option.map_eq_some_iff.mp hc
    obtain ⟨r', hr', hne⟩ := hmoved id r hr ⟨t, ht, hadvances⟩
    obtain ⟨r'', hr'', heq⟩ := Option.map_eq_some_iff.mp hc'
    obtain rfl := Option.some.inj (hr''.symm.trans hr')
    exact hne heq.symm
  · intro request c hexpected hc hadvances
    obtain ⟨r, hr, rfl⟩ := Option.map_eq_some_iff.mp hc
    obtain ⟨r', hr', hne⟩ := hmoved _ r hr hadvances
    rw [transition_stale hr' hexpected hne]
    exact ⟨rfl, rfl, by rw [stateOf, hr']; rfl, by rw [checkpointOf, hr']; rfl⟩

namespace Sample

/-! ### A unit that is opened twice -/

def unit : WorkUnitId := ⟨"unit:1", rfl⟩

/-- Evidence with one domain snapshot at the first read, and another one from then on. -/
def evidence : DomainEvidencePort Bool where
  domainSnapshot read _ := (if read then ⟨"domain:b", rfl⟩ else ⟨"domain:a", rfl⟩, true)
  publicationSnapshot read _ := (⟨"publication:a", rfl⟩, read)

def start : TransitionRequest := ⟨unit, .start, some (checkpointAt 0), .none⟩

def calls : List Call := [.openUnit unit, .transition start]

/-- The second open takes other identities, and lets the first checkpoint through again. -/
theorem reopened :
    let s := after (step evidence) (new false) calls
    let s' := after (step evidence) (new false) (calls ++ calls)
    s.domainSnapshotOf unit = some ⟨"domain:a", rfl⟩ ∧
      s'.domainSnapshotOf unit = some ⟨"domain:b", rfl⟩ ∧
      checkpointOf s unit = checkpointOf s' unit ∧
      (turns (step evidence) (new false) (calls ++ calls)).map (·.answer.outcome) =
        [.transitioned, .transitioned, .transitioned, .transitioned] := by
  decide

theorem careful_calls : ∀ t ∈ turns (step evidence) (new false) ([.openUnit unit] ++ [.transition start]),
    Careful t.before t.call := by
  intro t ht
  rcases List.mem_cons.mp ht with rfl | ht
  · exact rfl
  · obtain rfl := List.mem_singleton.mp ht
    rintro r hr
    cases hr
    decide

/-- A second start with the first checkpoint is stale. -/
theorem restarted : (transition evidence (after (step evidence) (new false) calls) start).1.outcome =
    .staleCheckpoint := by
  obtain ⟨-, -, -, -, hstale⟩ := no_lost_update evidence false [.openUnit unit] [.transition start]
    careful_calls
  refine (hstale start _ rfl rfl ⟨_, List.mem_singleton_self _, start, rfl, rfl, rfl⟩).1

end Sample

end LawNexus.Work
