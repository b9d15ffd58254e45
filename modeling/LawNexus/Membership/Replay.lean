import LawNexus.Membership.Fold

/-!
# What a fold of the membership log returns

The purpose of the replay, said without an order of events: a pair is alive when its child
was attached there on some day, and from that day on nothing has attached the child
elsewhere or detached the pair. The fold refuses exactly the logs with two attaches of one
child on one day, and otherwise its table of parents holds the pairs that are alive.
-/

namespace LawNexus

open Forest Loops

/-! ## Last writes -/

/-- The log has an event of this kind for the pair on this day. -/
def Records (events : List VersionedMembershipEvent) (kind : MembershipChangeKind)
    (p c : ComponentConceptId) (day : Int) : Prop :=
  ∃ e ∈ events, e.kind = kind ∧ e.parent = p ∧ e.child = c ∧ e.effectDay = day

/-- One child is attached under two parents on one day. -/
def Conflict (events : List VersionedMembershipEvent) : Prop :=
  ∃ c p q day, Records events .attach p c day ∧ Records events .attach q c day ∧ p ≠ q

def Alive (events : List VersionedMembershipEvent) (p c : ComponentConceptId) : Prop :=
  ∃ day, Records events .attach p c day ∧ ∀ later, day ≤ later →
    (∀ q, Records events .attach q c later → q = p) ∧ ¬ Records events .detach p c later

section

variable {events other : List VersionedMembershipEvent} {e : VersionedMembershipEvent}
  {kind : MembershipChangeKind} {p q c : ComponentConceptId} {day : Int}

theorem records_append : Records (events ++ other) kind p c day ↔
    Records events kind p c day ∨ Records other kind p c day := by
  simp only [Records, List.mem_append, or_and_right, exists_or]

theorem records_singleton : Records [e] kind p c day ↔
    e.kind = kind ∧ e.parent = p ∧ e.child = c ∧ e.effectDay = day := by
  simp [Records]

theorem records_congr (h : ∀ e, e ∈ events ↔ e ∈ other) :
    Records events kind p c day ↔ Records other kind p c day := by
  simp only [Records, h]

theorem conflict_congr (h : ∀ e, e ∈ events ↔ e ∈ other) : Conflict events ↔ Conflict other := by
  simp only [Conflict, records_congr h]

theorem alive_congr (h : ∀ e, e ∈ events ↔ e ∈ other) : Alive events p c ↔ Alive other p c := by
  simp only [Alive, records_congr h]

theorem Conflict.mono (h : Conflict events) (hsub : ∀ e ∈ events, e ∈ other) :
    Conflict other := by
  obtain ⟨c, p, q, day, ⟨e, he, hpe⟩, ⟨f, hf, hqf⟩, hne⟩ := h
  exact ⟨c, p, q, day, ⟨e, hsub e he, hpe⟩, ⟨f, hsub f hf, hqf⟩, hne⟩

/-! ## Attaches of one day -/

/-- These events attach these pairs of a parent and a child on this day. -/
def AttachesOn (day : Int) (pairs : List (ComponentConceptId × ComponentConceptId))
    (new : List VersionedMembershipEvent) : Prop :=
  new.map (fun e => (e.kind, e.parent, e.child, e.effectDay)) =
    pairs.map fun pair => (.attach, pair.1, pair.2, day)

theorem records_attachesOn {pairs : List (ComponentConceptId × ComponentConceptId)} {d : Int}
    (h : AttachesOn d pairs events) :
    Records events kind p c day ↔ kind = .attach ∧ day = d ∧ (p, c) ∈ pairs := by
  have hmem : Records events kind p c day ↔
      (kind, p, c, day) ∈ events.map fun e => (e.kind, e.parent, e.child, e.effectDay) := by
    simp [Records]
  rw [hmem, h]
  simp only [List.mem_map, Prod.exists, Prod.mk.injEq]
  constructor
  · rintro ⟨p', c', hpc, rfl, rfl, rfl, rfl⟩
    exact ⟨rfl, rfl, hpc⟩
  · rintro ⟨rfl, rfl, hpc⟩
    exact ⟨p, c, hpc, rfl, rfl, rfl, rfl⟩

/-- An event between two different components is accepted: an act id is never empty. -/
theorem tryNew_ok (kind : MembershipChangeKind) {parent child : ComponentConceptId} (day : Int)
    (provenance : AmendingActId) (h : parent ≠ child) :
    VersionedMembershipEvent.tryNew kind parent child day provenance =
      .ok ⟨kind, parent, child, day, provenance, h⟩ := by
  simp [VersionedMembershipEvent.tryNew, h, provenance.not_isEmpty]

/-! ## Links under events -/

def stepLinks (m : Links ComponentConceptId) (ev : VersionedMembershipEvent) :
    Links ComponentConceptId :=
  match ev.kind with
  | .detach => m.detach ev.child ev.parent
  | .attach => m.attach ev.child ev.parent

/-- The days in turn, and on one day the attaches first. -/
def DayOrder (e f : VersionedMembershipEvent) : Prop :=
  e.effectDay ≤ f.effectDay ∧ (e.effectDay = f.effectDay → f.kind = .attach → e.kind = .attach)

/-- An attach at the end of the order gives the child this parent, and no other. -/
theorem alive_snoc_attach (hlast : ∀ f ∈ events, DayOrder f e) (hno : ¬ Conflict (events ++ [e]))
    (hkind : e.kind = .attach) : Alive (events ++ [e]) p e.child ↔ p = e.parent := by
  have hnew : Records (events ++ [e]) .attach e.parent e.child e.effectDay :=
    records_append.mpr (Or.inr (records_singleton.mpr ⟨hkind, rfl, rfl, rfl⟩))
  constructor
  · rintro ⟨day, hp, hlater⟩
    have hday : day ≤ e.effectDay := by
      rcases records_append.mp hp with ⟨f, hf, -, -, -, rfl⟩ | hp
      · exact (hlast f hf).1
      · exact (records_singleton.mp hp).2.2.2.ge
    exact ((hlater e.effectDay hday).1 e.parent hnew).symm
  · rintro rfl
    refine ⟨e.effectDay, hnew, fun later hle => ⟨fun q hq => ?_, fun hd => ?_⟩⟩
    · rcases records_append.mp hq with ⟨f, hf, hfk, rfl, hfc, rfl⟩ | hq
      · have hsame : f.effectDay = e.effectDay := le_antisymm (hlast f hf).1 hle
        by_contra hne
        exact hno ⟨e.child, f.parent, e.parent, e.effectDay,
          records_append.mpr (Or.inl ⟨f, hf, hfk, rfl, hfc, hsame⟩), hnew, hne⟩
      · exact (records_singleton.mp hq).2.1.symm
    · rcases records_append.mp hd with ⟨f, hf, hfk, -, -, rfl⟩ | hd
      · have hsame : f.effectDay = e.effectDay := le_antisymm (hlast f hf).1 hle
        rw [(hlast f hf).2 hsame hkind] at hfk
        exact absurd hfk (by decide)
      · exact absurd (hkind.symm.trans (records_singleton.mp hd).1) (by decide)

/-- An event for another child changes nothing for this one. -/
theorem alive_snoc_other (hc : c ≠ e.child) : Alive (events ++ [e]) p c ↔ Alive events p c := by
  have hrec : ∀ kind q day, Records (events ++ [e]) kind q c day ↔ Records events kind q c day := by
    intro kind q day
    rw [records_append, records_singleton, or_iff_left]
    exact fun h => hc h.2.2.1.symm
  simp only [Alive, hrec]

/-- A detach at the end of the order ends exactly its own pair. -/
theorem alive_snoc_detach (hlast : ∀ f ∈ events, DayOrder f e) (hkind : e.kind = .detach) :
    Alive (events ++ [e]) p c ↔ Alive events p c ∧ ¬ (c = e.child ∧ p = e.parent) := by
  have hatt : ∀ q day,
      Records (events ++ [e]) .attach q c day ↔ Records events .attach q c day := by
    intro q day
    rw [records_append, records_singleton, hkind, or_iff_left]
    exact fun h => absurd h.1 (by decide)
  have hdet : ∀ day, Records (events ++ [e]) .detach p c day ↔
      Records events .detach p c day ∨ (c = e.child ∧ p = e.parent) ∧ e.effectDay = day := by
    intro day
    rw [records_append, records_singleton, eq_comm (a := e.parent), eq_comm (a := e.child)]
    simp only [hkind, true_and]
    tauto
  simp only [Alive, hatt, hdet, not_or]
  constructor
  · rintro ⟨day, hp, hlater⟩
    refine ⟨⟨day, hp, fun later hle => ⟨(hlater later hle).1, (hlater later hle).2.1⟩⟩, ?_⟩
    intro heq
    obtain ⟨f, hf, -, -, -, rfl⟩ := hp
    exact (hlater e.effectDay (hlast f hf).1).2.2 ⟨heq, rfl⟩
  · rintro ⟨⟨day, hp, hlater⟩, hne⟩
    exact ⟨day, hp, fun later hle => ⟨(hlater later hle).1, (hlater later hle).2,
      fun h => hne h.1⟩⟩

/-- Replayed in day order, events without a conflict leave the pairs that are alive. -/
theorem foldl_stepLinks_iff (hsorted : events.Pairwise DayOrder) (hno : ¬ Conflict events) :
    events.foldl stepLinks (fun _ => none) c = some p ↔ Alive events p c := by
  induction events using List.reverseRecOn generalizing p c with
  | nil => simp [Alive, Records]
  | append_singleton events e ih =>
    have hlast : ∀ f ∈ events, DayOrder f e := fun f hf =>
      (List.pairwise_append.mp hsorted).2.2 f hf e (by simp)
    have hinit := ih (p := p) (c := c) (List.pairwise_append.mp hsorted).1
      fun h => hno (h.mono fun f hf => by simp [hf])
    rw [List.foldl_append, List.foldl_cons, List.foldl_nil]
    cases hkind : e.kind with
    | attach =>
      simp only [stepLinks, hkind]
      rw [Links.attach_eq_some]
      by_cases hc : c = e.child
      · subst hc
        rw [alive_snoc_attach hlast hno hkind]
        simp
      · rw [alive_snoc_other hc, hinit]
        simp [hc]
    | detach =>
      simp only [stepLinks, hkind]
      rw [Links.detach_eq_some, hinit, alive_snoc_detach hlast hkind]

end

/-! ## The loops of the fold -/

section

variable {log log' : VersionedMembershipLog} {day : Int}
  {slice events : List VersionedMembershipEvent}

theorem links_step (t : ParentTable) (e : VersionedMembershipEvent) :
    (t.step e).links = stepLinks t.links e := by
  unfold ParentTable.step stepLinks
  cases e.kind with
  | attach => exact ParentTable.links_attach _ _ _
  | detach => exact ParentTable.links_detach _ _ _

theorem links_foldl_step (t : ParentTable) (events : List VersionedMembershipEvent) :
    (events.foldl ParentTable.step t).links = events.foldl stepLinks t.links := by
  induction events generalizing t with
  | nil => rfl
  | cons e rest ih => rw [List.foldl_cons, List.foldl_cons, ih, links_step]

theorem mem_attachParents {c p : ComponentConceptId} :
    (c, p) ∈ attachParents slice ↔ ∃ e ∈ slice, e.kind = .attach ∧ e.child = c ∧ e.parent = p := by
  simp [attachParents, and_assoc]

/-- The scan over the sorted pairs finds any two parents of one child. -/
theorem sameDayConflict_iff : sameDayConflict slice = true ↔
    ∃ c p q, (c, p) ∈ attachParents slice ∧ (c, q) ∈ attachParents slice ∧ p ≠ q := by
  simp only [sameDayConflict, List.any_eq_true, decide_eq_true_eq, one_lt_length_distinct,
    List.mem_map]
  have hmem : ∀ {run}, run ∈ runs (·.1) (sortBy toLex (attachParents slice)) →
      ∀ x ∈ run, x ∈ attachParents slice := by
    intro run hrun x hx
    refine (sortBy_perm toLex (attachParents slice)).mem_iff.mp ?_
    rw [← flatten_runs (·.1) (sortBy toLex (attachParents slice))]
    exact List.mem_flatten.mpr ⟨run, hrun, hx⟩
  constructor
  · rintro ⟨run, hrun, -, ⟨⟨c, p⟩, hx, rfl⟩, -, ⟨⟨c', q⟩, hy, rfl⟩, hne⟩
    obtain rfl : c = c' := key_eq_of_mem_run hrun hx hy
    exact ⟨c, p, q, hmem hrun _ hx, hmem hrun _ hy, hne⟩
  · rintro ⟨c, p, q, hx, hy, hne⟩
    have hsorted : (sortBy toLex (attachParents slice)).Pairwise fun a b => a.1 ≤ b.1 :=
      (pairwise_sortBy toLex _).imp fun hab => Prod.Lex.monotone_fst _ _ hab
    obtain ⟨run, hrun, hxr, hyr⟩ :=
      exists_run (·.1) hsorted (mem_sortBy.mpr hx) (mem_sortBy.mpr hy) rfl
    exact ⟨run, hrun, p, ⟨(c, p), hxr, rfl⟩, q, ⟨(c, q), hyr, rfl⟩, hne⟩

theorem replayDays_eq (parentOf : ParentTable) (days : List (List VersionedMembershipEvent)) :
    replayDays parentOf days = if ∃ slice ∈ days, sameDayConflict slice = true
      then .error .membershipConflict
      else .ok (days.flatten.foldl ParentTable.step parentOf) := by
  induction days generalizing parentOf with
  | nil => simp [replayDays]
  | cons slice rest ih =>
    by_cases h : sameDayConflict slice = true
    · simp [replayDays, h]
    · simp [replayDays, h, ih, List.foldl_append]

theorem dayOrder_of_sortKey {e f : VersionedMembershipEvent} (h : e.sortKey ≤ f.sortKey) :
    DayOrder e f := by
  simp only [VersionedMembershipEvent.sortKey, Prod.Lex.toLex_le_toLex] at h
  refine ⟨?_, fun hday hf => ?_⟩
  · rcases h with h | h
    · exact h.le
    · exact h.1.le
  · cases he : e.kind with
    | attach => rfl
    | detach =>
      rw [he, hf, hday] at h
      revert h
      simp only [lt_irrefl, false_or, true_and, MembershipChangeKind.asStr]
      rw [or_iff_left (by simp)]
      exact fun h => absurd h (by decide)

theorem mem_applicable {e : VersionedMembershipEvent} :
    e ∈ applicable log day ↔ e ∈ log.events ∧ e.effectDay ≤ day := by
  simp [applicable]

theorem applicable_dayOrder (log : VersionedMembershipLog) (day : Int) :
    (applicable log day).Pairwise DayOrder :=
  (pairwise_sortBy VersionedMembershipEvent.sortKey _).imp fun h => dayOrder_of_sortKey h

/-- A conflict inside one of the day groups is a conflict of the log. -/
theorem exists_sameDayConflict_iff (hsorted : events.Pairwise DayOrder) :
    (∃ slice ∈ runs (·.effectDay) events, sameDayConflict slice = true) ↔ Conflict events := by
  simp only [sameDayConflict_iff, mem_attachParents]
  constructor
  · rintro ⟨slice, hs, c, p, q, ⟨e, he, hek, rfl, rfl⟩, ⟨f, hf, hfk, hfc, rfl⟩, hne⟩
    have hmem : ∀ x ∈ slice, x ∈ events := by
      intro x hx
      rw [← flatten_runs (·.effectDay) events]
      exact List.mem_flatten.mpr ⟨slice, hs, hx⟩
    exact ⟨e.child, e.parent, f.parent, e.effectDay, ⟨e, hmem e he, hek, rfl, rfl, rfl⟩,
      ⟨f, hmem f hf, hfk, rfl, hfc, (key_eq_of_mem_run hs he hf).symm⟩, hne⟩
  · rintro ⟨c, p, q, day, ⟨e, he, hek, rfl, rfl, rfl⟩, ⟨f, hf, hfk, rfl, hfc, hday⟩, hne⟩
    obtain ⟨slice, hs, hes, hfs⟩ :=
      exists_run (·.effectDay) (hsorted.imp And.left) he hf hday.symm
    exact ⟨slice, hs, e.child, e.parent, f.parent, ⟨e, hes, hek, rfl, rfl⟩,
      ⟨f, hfs, hfk, hfc, rfl⟩, hne⟩

/-! ## The fold in two lemmas -/

/-- The table after the last day, when no day has a conflict. -/
def replayTable (log : VersionedMembershipLog) (day : Int) : ParentTable :=
  (applicable log day).foldl ParentTable.step .empty

/-- The links that the events up to a day leave alive, event after event. -/
def replayTo (log : VersionedMembershipLog) (day : Int) : Links ComponentConceptId :=
  (applicable log day).foldl stepLinks fun _ => none

theorem links_replayTable (log : VersionedMembershipLog) (day : Int) :
    (replayTable log day).links = replayTo log day :=
  links_foldl_step .empty (applicable log day)

theorem replayTo_iff (hno : ¬ Conflict (applicable log day)) {p c : ComponentConceptId} :
    replayTo log day c = some p ↔ Alive (applicable log day) p c :=
  foldl_stepLinks_iff (applicable_dayOrder log day) hno

theorem fold_of_conflict (h : Conflict (applicable log day)) :
    foldMembershipAt log day = .error .membershipConflict := by
  rw [← exists_sameDayConflict_iff (applicable_dayOrder log day)] at h
  rw [foldMembershipAt, replayDays_eq, if_pos h]

theorem fold_of_no_conflict (h : ¬ Conflict (applicable log day)) :
    foldMembershipAt log day = .ok (buildStructuralAst day (replayTable log day)) := by
  rw [← exists_sameDayConflict_iff (applicable_dayOrder log day)] at h
  rw [foldMembershipAt, replayDays_eq, if_neg h, flatten_runs]
  rfl

theorem fold_ok_iff {ast : StructuralAst} : foldMembershipAt log day = .ok ast ↔
    ¬ Conflict (applicable log day) ∧ ast = buildStructuralAst day (replayTable log day) := by
  by_cases h : Conflict (applicable log day)
  · simp [fold_of_conflict h, h]
  · simp [fold_of_no_conflict h, h, eq_comm]

end

end LawNexus
