import LawNexus.Ontology.Drift

/-!
# What the replay reconstructs

The log of a replay has the edges of the seed on one day, and attaches and detaches on a later
one. The results are the links that this leaves, when they are those of the target edition,
and what the count of the drift sees of it.
-/

namespace LawNexus

open Forest Loops

/-! ## Links after one amendment -/

/-- The later attach replaces the seed's parent, and a detach takes away the parent it names. -/
def amended (seed attached detached : Links ComponentConceptId) : Links ComponentConceptId :=
  fun c => (attached c <|> seed c).filter fun p => detached c ≠ some p

section

variable {seed attached detached : Links ComponentConceptId} {c p : ComponentConceptId}

theorem amended_eq_some : amended seed attached detached c = some p ↔
    (attached c = some p ∨ attached c = none ∧ seed c = some p) ∧ detached c ≠ some p := by
  unfold amended
  cases attached c <;> simp [Option.filter_eq_some_iff]

/-- A chain of the seed that comes to no attached component ends. -/
theorem grounded_amended (hseed : ∀ x, Grounded seed x)
    (hattached : ∀ x, attached x ≠ none → Grounded (amended seed attached detached) x) (x) :
    Grounded (amended seed attached detached) x := by
  obtain ⟨n, hn⟩ := hseed x
  induction n generalizing x with
  | zero =>
    by_cases hx : attached x = none
    · apply grounded_top
      have htop : seed x = none := by
        cases hn with
        | top h => exact h
      simp [amended, hx, htop]
    · exact hattached x hx
  | succ n ih =>
    by_cases hx : attached x = none
    · cases hlink : amended seed attached detached x with
      | none => exact grounded_top hlink
      | some p =>
        rw [grounded_under hlink]
        have hp : seed x = some p := by
          rcases (amended_eq_some.mp hlink).1 with h | h
          · simp [hx] at h
          · exact h.2
        obtain ⟨k, hk, hdepth⟩ := hn.parent hp
        obtain rfl := Nat.succ.inj hk
        exact ih p hdepth
    · exact hattached x hx

end

section

variable {old new : List VersionedMembershipEvent} {seedDay targetDay : Int}
  {pairs : List (ComponentConceptId × ComponentConceptId)}
  {seed attached detached : Links ComponentConceptId}

/-- The events of the later day attach these links and detach those. -/
def AmendsOn (day : Int) (attached detached : Links ComponentConceptId)
    (new : List VersionedMembershipEvent) : Prop :=
  ∀ kind p c d, Records new kind p c d ↔ d = day ∧
    (kind = .attach ∧ attached c = some p ∨ kind = .detach ∧ detached c = some p)

theorem replay_amendsOn (hold : AttachesOn seedDay pairs old)
    (hseed : ∀ p c, (p, c) ∈ pairs ↔ seed c = some p)
    (hnew : AmendsOn targetDay attached detached new) (hdays : seedDay < targetDay) :
    ¬ Conflict (applicable ⟨old ++ new⟩ targetDay) ∧
      replayTo ⟨old ++ new⟩ targetDay = amended seed attached detached := by
  have hattach (p c : ComponentConceptId) (d : Int) : Records (old ++ new) .attach p c d ↔
      d = seedDay ∧ seed c = some p ∨ d = targetDay ∧ attached c = some p := by
    rw [records_append, records_attachesOn hold, hnew, hseed]
    simp
  have hdetach (p c : ComponentConceptId) (d : Int) : Records (old ++ new) .detach p c d ↔
      d = targetDay ∧ detached c = some p := by
    rw [records_append, records_attachesOn hold, hnew]
    simp
  have hmem : ∀ e, e ∈ applicable ⟨old ++ new⟩ targetDay ↔ e ∈ old ++ new := by
    intro e
    rw [mem_applicable, and_iff_left_iff_imp]
    intro he
    have hrecord : Records (old ++ new) e.kind e.parent e.child e.effectDay :=
      ⟨e, he, rfl, rfl, rfl, rfl⟩
    cases hkind : e.kind with
    | attach =>
      rw [hkind, hattach] at hrecord
      omega
    | detach =>
      rw [hkind, hdetach] at hrecord
      omega
  have hno : ¬ Conflict (applicable ⟨old ++ new⟩ targetDay) := by
    rw [conflict_congr hmem]
    rintro ⟨c, p, q, d, hp, hq, hne⟩
    rw [hattach] at hp hq
    rcases hp with ⟨hd, hp⟩ | ⟨hd, hp⟩ <;> rcases hq with ⟨hd', hq⟩ | ⟨hd', hq⟩
    · exact hne (Option.some.inj (hp.symm.trans hq))
    · omega
    · omega
    · exact hne (Option.some.inj (hp.symm.trans hq))
  refine ⟨hno, funext fun c => Option.ext fun p => ?_⟩
  rw [replayTo_iff hno, alive_congr hmem, amended_eq_some]
  simp only [Alive, hattach, hdetach]
  constructor
  · rintro ⟨day, ⟨rfl, hp⟩ | ⟨rfl, hp⟩, hlater⟩
    · obtain ⟨hlast, hkept⟩ := hlater targetDay hdays.le
      refine ⟨?_, fun h => hkept ⟨rfl, h⟩⟩
      cases hc : attached c with
      | none => exact Or.inr ⟨rfl, hp⟩
      | some q => exact Or.inl (congrArg some (hlast q (Or.inr ⟨rfl, hc⟩)))
    · exact ⟨Or.inl hp, fun h => (hlater day le_rfl).2 ⟨rfl, h⟩⟩
  · rintro ⟨hp | ⟨hnone, hp⟩, hkept⟩
    · refine ⟨targetDay, Or.inr ⟨rfl, hp⟩, fun later hle => ⟨?_, fun h => hkept h.2⟩⟩
      rintro q (⟨hd, -⟩ | ⟨-, hq⟩)
      · omega
      · exact Option.some.inj (hq.symm.trans hp)
    · refine ⟨seedDay, Or.inl ⟨rfl, hp⟩, fun later _ => ⟨?_, fun h => hkept h.2⟩⟩
      rintro q (⟨-, hq⟩ | ⟨-, hq⟩)
      · exact Option.some.inj (hq.symm.trans hp)
      · simp [hnone] at hq

end

/-! ## The parents of an edition -/

/-- The parent that an edition admits for a component. -/
def admittedIn (proposals : List MembershipProposal) : Links ComponentConceptId := fun c =>
  ((admitMembershipProposals proposals).admitted.find? fun e => e.child = c).map (·.parent)

/-- The last parent that an edition proposes for a component. -/
def proposedIn (proposals : List MembershipProposal) : Links ComponentConceptId := fun c =>
  (proposals.reverse.find? fun e => e.child = c).map (·.parent)

section

variable {proposals : List MembershipProposal} {c p : ComponentConceptId}

theorem admittedIn_eq (proposals : List MembershipProposal) :
    admittedIn proposals = edgeLinks (admitLoop proposals).childParents := by
  have h := Admissible.loop proposals
  funext c
  unfold admittedIn edgeLinks
  rw [h.pairs, List.find?_map, Option.map_map]
  rfl

theorem mem_edgePairs_admitted : (p, c) ∈ edgePairs (admitMembershipProposals proposals).admitted ↔
    admittedIn proposals c = some p := by
  rw [admittedIn_eq]
  exact (Admissible.loop proposals).mem_edgePairs

theorem acyclic_admittedIn (proposals : List MembershipProposal) :
    Acyclic (admittedIn proposals) := by
  rw [admittedIn_eq]
  exact (Admissible.loop proposals).acyclic

theorem grounded_admittedIn (proposals : List MembershipProposal) (c : ComponentConceptId) :
    Grounded (admittedIn proposals) c := by
  have h := acyclic_admittedIn proposals
  rw [admittedIn_eq] at h ⊢
  exact grounded_of_acyclic (fun _ => mem_keys_of_edgeLinks) h c

theorem mem_of_proposedIn (h : proposedIn proposals c = some p) : ⟨p, c⟩ ∈ proposals := by
  obtain ⟨e, he, rfl⟩ := Option.map_eq_some_iff.mp h
  have hc : e.child = c := by simpa using List.find?_some he
  subst hc
  exact List.mem_reverse.mp (List.mem_of_find?_eq_some he)

/-- Admitted or not, a proposal leaves its child in the tree: what quarantines it is an edge
that names the child. -/
theorem named_of_proposed (h : ⟨p, c⟩ ∈ proposals) (hne : p ≠ c) :
    admittedIn proposals c ≠ none ∨ ∃ d, admittedIn proposals d = some c := by
  obtain ⟨before, after, rfl⟩ := List.append_of_mem h
  have hbefore := Admissible.loop before
  have hstart := admit_prefix before (⟨p, c⟩ :: after)
  have hkeep : ∀ q d, edgeLinks (admitLoop before).childParents d = some q →
      admittedIn (before ++ ⟨p, c⟩ :: after) d = some q := by
    intro q d hd
    rw [← mem_edgePairs_admitted]
    exact List.mem_map_of_mem (hstart.1.subset (hbefore.links_eq_some.mp hd))
  cases hlink : edgeLinks (admitLoop before).childParents c with
  | some q =>
    left
    simp [hkeep q c hlink]
  | none =>
    rcases hbefore.fateOf_cases ⟨p, c⟩ hne with
      ⟨hd, -⟩ | ⟨q, hd, -⟩ | ⟨-, hcycle, -⟩ | ⟨-, -, haccept⟩
    · exact absurd (hlink.symm.trans hd) (by simp)
    · exact absurd (hlink.symm.trans hd) (by simp)
    · right
      rw [hbefore.cycleFree_push hlink, Bool.not_eq_false, createsCycle_iff hbefore.acyclic,
        atOrAbove_iff] at hcycle
      obtain heq | habove := hcycle
      · exact absurd heq.symm hne
      · obtain ⟨d, hd, -⟩ := Relation.TransGen.head'_iff.mp habove
        exact ⟨d, hkeep c d hd⟩
    · left
      have heffect := fateOf_effect before ⟨p, c⟩
      rw [haccept] at heffect
      have hmem : ⟨p, c⟩ ∈ (admitMembershipProposals (before ++ [⟨p, c⟩])).admitted := by
        rw [heffect.2]
        simp
      have hlater := admit_prefix (before ++ [⟨p, c⟩]) after
      rw [List.append_assoc, List.singleton_append] at hlater
      have hp : admittedIn (before ++ ⟨p, c⟩ :: after) c = some p :=
        mem_edgePairs_admitted.mp (List.mem_map_of_mem (hlater.1.subset hmem))
      simp [hp]

end

/-! ## The drafts -/

/-- The marker that a draft is looked up with: neither work nor path. -/
def HierarchyMarker.flat (marker : HierarchyMarker) : HierarchyMarker :=
  ⟨none, marker.level, marker.number, none, none⟩

theorem tryNew_flat (marker : HierarchyMarker) :
    HierarchyMarker.tryNew none marker.level.val marker.number.val none = .ok marker.flat := by
  simp [HierarchyMarker.tryNew, HierarchyMarker.tryNewWithPath, trimmedText_val, trimmedPath,
    catalogLevel_val, HierarchyMarker.flat]

theorem attachAdmitted_ok {edges : List AdmittedMembership}
    (hself : ∀ e ∈ edges, e.parent ≠ e.child) (day : Int) (provenance : AmendingActId) :
    ∃ events, attachAdmitted day provenance edges = some ⟨events⟩ ∧
      AttachesOn day (edgePairs edges) events := by
  induction edges using List.reverseRecOn with
  | nil => exact ⟨[], rfl, rfl⟩
  | append_singleton edges edge ih =>
    have hedge : edge.parent ≠ edge.child := hself edge (by simp)
    obtain ⟨events, hevents, hattaches⟩ := ih fun e he => hself e (by simp [he])
    refine ⟨events ++ [⟨.attach, edge.parent, edge.child, day, provenance, hedge⟩], ?_, ?_⟩
    · unfold attachAdmitted at hevents ⊢
      rw [List.foldlM_append, hevents]
      simp [tryNew_ok _ _ _ hedge, VersionedMembershipLog.append, Except.toOption]
    · unfold AttachesOn edgePairs at hattaches ⊢
      simp [hattaches]

/-- Ids that are collected as texts are found as ids. -/
theorem collectedGet_asStr {α : Type*} (edges : List α) (child parent : α → ComponentConceptId)
    (c : ComponentConceptId) :
    collectedGet (edges.map fun e => ((child e).asStr, (parent e).asStr)) c.asStr =
      (((edges.reverse.find? fun e => child e = c).map parent).map (·.asStr)) := by
  have hkey : ((fun pair : String × String => decide (pair.1 = c.asStr)) ∘
      fun e => ((child e).asStr, (parent e).asStr)) = fun e => decide (child e = c) := by
    funext e
    simp [ComponentConceptId.asStr_injective.eq_iff]
  unfold collectedGet
  rw [← List.map_reverse, List.find?_map, hkey, Option.map_map, Option.map_map]
  rfl

section

variable {map : HierarchyMap} {seedParents targetParents : List (String × String)}
  {targetDay : Int} {targetProv : AmendingActId} {s s' : ReplayLog} {text : String}

/-- What one draft can do: nothing where its marker is not bound, else one event. -/
theorem replayDraft_eq_some (op : AmendmentDraftOp) (marker : HierarchyMarker) :
    replayDraft map seedParents targetParents targetDay targetProv s
        (structuralDraft op text marker) = some s' ↔
      boundTo map marker.flat = none ∧ s' = s ∨
      ∃ (c p : ComponentConceptId) (hne : p ≠ c), boundTo map marker.flat = some c ∧
        draftParent seedParents targetParents op c = some p.asStr ∧
        s' = s.commit op ⟨s.log.events ++ [⟨op.kind, p, c, targetDay, targetProv, hne⟩]⟩ := by
  unfold replayDraft boundTo
  simp only [structuralDraft, tryNew_flat, Except.toOption, Option.bind_eq_bind,
    Option.bind_some]
  cases hmap : mapHierarchyMarker map marker.flat with
  | unknown => simp [HierarchyMapOutcome.component, eq_comm]
  | bound component =>
    simp only [HierarchyMapOutcome.component, reduceCtorEq, false_and, false_or,
      Option.some.injEq]
    constructor
    · intro h
      simp only [Option.bind_eq_some_iff] at h
      obtain ⟨parentStr, hparent, p, hp, event, hevent, log, hlog, hs⟩ := h
      cases hparse : ComponentConceptId.parse parentStr with
      | error e => simp [hparse] at hp
      | ok q =>
        simp only [hparse, Option.some.injEq] at hp
        subst hp
        obtain rfl := ComponentConceptId.parse_eq_ok_iff.mp hparse
        by_cases hne : q = component
        · simp [VersionedMembershipEvent.tryNew, hne] at hevent
        · simp only [tryNew_ok _ _ _ hne, Option.some.injEq] at hevent
          subst hevent
          simp only [VersionedMembershipLog.append, Option.some.injEq] at hlog
          subst hlog
          exact ⟨component, q, hne, rfl, hparent, (Option.some.inj hs).symm⟩
    · rintro ⟨c, p, hne, rfl, hparent, rfl⟩
      simp [hparent, ComponentConceptId.parse_asStr, tryNew_ok _ _ _ hne,
        VersionedMembershipLog.append]

/-- A draft of the marker has a parent to attach to or to detach from. -/
def HasParent (map : HierarchyMap) (seedParents targetParents : List (String × String))
    (op : AmendmentDraftOp) (marker : HierarchyMarker) : Prop :=
  ∀ c, boundTo map marker.flat = some c →
    ∃ p : ComponentConceptId, p ≠ c ∧ draftParent seedParents targetParents op c = some p.asStr

/-- The record of one draft in the log. -/
def DraftRecords (map : HierarchyMap) (seedParents targetParents : List (String × String))
    (drafts : List (AmendmentDraftOp × HierarchyMarker)) (kind : MembershipChangeKind)
    (p c : ComponentConceptId) : Prop :=
  ∃ draft ∈ drafts, draft.1.kind = kind ∧ boundTo map draft.2.flat = some c ∧
    draftParent seedParents targetParents draft.1 c = some p.asStr

theorem draftRecords_cons {draft : AmendmentDraftOp × HierarchyMarker}
    {drafts : List (AmendmentDraftOp × HierarchyMarker)} {kind : MembershipChangeKind}
    {p c : ComponentConceptId} :
    DraftRecords map seedParents targetParents (draft :: drafts) kind p c ↔
      (draft.1.kind = kind ∧ boundTo map draft.2.flat = some c ∧
        draftParent seedParents targetParents draft.1 c = some p.asStr) ∨
      DraftRecords map seedParents targetParents drafts kind p c :=
  List.exists_mem_cons_iff _ _ _

variable (targetDay targetProv text) in
theorem foldlM_replayDraft {drafts : List (AmendmentDraftOp × HierarchyMarker)}
    (h : ∀ draft ∈ drafts, HasParent map seedParents targetParents draft.1 draft.2)
    (s : ReplayLog) :
    ∃ s' new, drafts.foldlM (fun s draft => replayDraft map seedParents targetParents targetDay
        targetProv s (structuralDraft draft.1 text draft.2)) s = some s' ∧
      s'.log = ⟨s.log.events ++ new⟩ ∧ ∀ kind p c d, Records new kind p c d ↔
        d = targetDay ∧ DraftRecords map seedParents targetParents drafts kind p c := by
  induction drafts generalizing s with
  | nil => exact ⟨s, [], rfl, by simp, by simp [Records, DraftRecords]⟩
  | cons draft drafts ih =>
    obtain ⟨hdraft, hrest⟩ := List.forall_mem_cons.mp h
    cases hbound : boundTo map draft.2.flat with
    | none =>
      obtain ⟨s', new, hrun, hlog, hnew⟩ := ih hrest s
      refine ⟨s', new, ?_, hlog, fun kind p c d => ?_⟩
      · rw [List.foldlM_cons, (replayDraft_eq_some draft.1 draft.2).mpr (Or.inl ⟨hbound, rfl⟩)]
        exact hrun
      · rw [hnew]
        simp [DraftRecords, hbound]
    | some c =>
      obtain ⟨p, hne, hparent⟩ := hdraft c hbound
      obtain ⟨s', new, hrun, hlog, hnew⟩ := ih hrest
        (s.commit draft.1 ⟨s.log.events ++ [⟨draft.1.kind, p, c, targetDay, targetProv, hne⟩]⟩)
      refine ⟨s', ⟨draft.1.kind, p, c, targetDay, targetProv, hne⟩ :: new, ?_, ?_, ?_⟩
      · rw [List.foldlM_cons, (replayDraft_eq_some draft.1 draft.2).mpr
          (Or.inr ⟨c, p, hne, hbound, hparent, rfl⟩)]
        exact hrun
      · rw [hlog, ReplayLog.commit, List.append_assoc, List.singleton_append]
      · intro kind q d day
        rw [← List.singleton_append, records_append, records_singleton, hnew, draftRecords_cons,
          hbound, Option.some.injEq, and_or_left]
        refine or_congr_left ⟨?_, ?_⟩
        · rintro ⟨hkind, rfl, rfl, rfl⟩
          exact ⟨rfl, hkind, rfl, hparent⟩
        · rintro ⟨rfl, hkind, rfl, hq⟩
          rw [hparent, Option.some.injEq] at hq
          exact ⟨hkind, ComponentConceptId.asStr_injective hq, rfl, rfl⟩

/-- A run of all drafts leaves none without a parent. -/
theorem hasParent_of_run {drafts : List (AmendmentDraftOp × HierarchyMarker)}
    (h : drafts.foldlM (fun s draft => replayDraft map seedParents targetParents targetDay
        targetProv s (structuralDraft draft.1 text draft.2)) s = some s') :
    ∀ draft ∈ drafts, HasParent map seedParents targetParents draft.1 draft.2 := by
  induction drafts generalizing s with
  | nil => simp
  | cons draft drafts ih =>
    rw [List.foldlM_cons, Option.bind_eq_bind, Option.bind_eq_some_iff] at h
    obtain ⟨next, hnext, hrest⟩ := h
    refine List.forall_mem_cons.mpr ⟨fun c hc => ?_, ih hrest⟩
    rcases (replayDraft_eq_some draft.1 draft.2).mp hnext with
      ⟨hnone, -⟩ | ⟨d, p, hne, hd, hparent, -⟩
    · simp [hnone] at hc
    · obtain rfl := Option.some.inj (hd.symm.trans hc)
      exact ⟨p, hne, hparent⟩

end

/-! ## The run -/

section

variable (map : HierarchyMap) (seed target : List HierarchyMarker)

/-- A marker that only the target has is looked up as this component. -/
def Adds (c : ComponentConceptId) : Prop :=
  ∃ m ∈ (diffMarkerSets seed target).added, boundTo map m.flat = some c

/-- A marker that only the seed has is looked up as this component. -/
def Removes (c : ComponentConceptId) : Prop :=
  ∃ m ∈ (diffMarkerSets seed target).removed, boundTo map m.flat = some c

instance (c : ComponentConceptId) : Decidable (Adds map seed target c) :=
  inferInstanceAs (Decidable (∃ m ∈ _, _))

instance (c : ComponentConceptId) : Decidable (Removes map seed target c) :=
  inferInstanceAs (Decidable (∃ m ∈ _, _))

def attachedLinks : Links ComponentConceptId := fun c =>
  if Adds map seed target c then proposedIn (proposalsOf map target) c else none

def detachedLinks : Links ComponentConceptId := fun c =>
  if Removes map seed target c then admittedIn (proposalsOf map seed) c else none

/-- The links that the log of the replay leaves. -/
def replayedLinks : Links ComponentConceptId :=
  amended (admittedIn (proposalsOf map seed)) (attachedLinks map seed target)
    (detachedLinks map seed target)

/-- No draft is without a parent. -/
structure Founded : Prop where
  added : ∀ c, Adds map seed target c →
    ∃ p, p ≠ c ∧ proposedIn (proposalsOf map target) c = some p
  removed : ∀ c, Removes map seed target c →
    ∃ p, admittedIn (proposalsOf map seed) c = some p

/-- The two trees of a run are folded from logs with these links. -/
structure Reconstructs (run : Replay) : Prop where
  replayed : ∃ log day, foldMembershipAt log day = .ok run.replayAst ∧
    replayTo log day = replayedLinks map seed target
  oracle : ∃ log day, foldMembershipAt log day = .ok run.oracleAst ∧
    replayTo log day = admittedIn (proposalsOf map target)

/-- The drafts of the diff, each with its marker. -/
def markerDrafts : List (AmendmentDraftOp × HierarchyMarker) :=
  (diffMarkerSets seed target).added.map (AmendmentDraftOp.attach, ·) ++
    (diffMarkerSets seed target).removed.map (AmendmentDraftOp.detach, ·)

def seedParentsOf : List (String × String) :=
  (admitMembershipProposals (proposalsOf map seed)).admitted.map fun e =>
    (e.child.asStr, e.parent.asStr)

def targetParentsOf : List (String × String) :=
  (proposalsOf map target).map fun p => (p.child.asStr, p.parent.asStr)

end

section

variable {map : HierarchyMap} {seed target : List HierarchyMarker} {p c : ComponentConceptId}

theorem draftParent_attach : draftParent (seedParentsOf map seed) (targetParentsOf map target)
    .attach c = (proposedIn (proposalsOf map target) c).map (·.asStr) :=
  collectedGet_asStr _ MembershipProposal.child MembershipProposal.parent c

/-- One child has one admitted parent, so the first edge and the last one are the same. -/
theorem draftParent_detach : draftParent (seedParentsOf map seed) (targetParentsOf map target)
    .detach c = (admittedIn (proposalsOf map seed) c).map (·.asStr) := by
  refine (collectedGet_asStr _ AdmittedMembership.child AdmittedMembership.parent c).trans ?_
  congr 1
  have hone : ∀ e ∈ (admitMembershipProposals (proposalsOf map seed)).admitted, e.child = c →
      admittedIn (proposalsOf map seed) c = some e.parent := by
    rintro e he rfl
    exact mem_edgePairs_admitted.mp (List.mem_map_of_mem he)
  cases hfind : (admitMembershipProposals (proposalsOf map seed)).admitted.reverse.find?
      fun e => e.child = c with
  | some e =>
    have hc : e.child = c := by simpa using List.find?_some hfind
    rw [hone e (List.mem_reverse.mp (List.mem_of_find?_eq_some hfind)) hc]
    rfl
  | none =>
    symm
    rw [Option.map_none, admittedIn, Option.map_eq_none_iff, List.find?_eq_none]
    intro e he
    exact List.find?_eq_none.mp hfind e (List.mem_reverse.mpr he)

theorem hasParent_iff :
    (∀ draft ∈ markerDrafts seed target, HasParent map (seedParentsOf map seed)
      (targetParentsOf map target) draft.1 draft.2) ↔ Founded map seed target := by
  unfold markerDrafts HasParent
  simp only [List.forall_mem_append, List.forall_mem_map, draftParent_attach, draftParent_detach,
    Option.map_eq_some_iff, ComponentConceptId.asStr_injective.eq_iff, exists_eq_right]
  constructor
  · rintro ⟨hadded, hremoved⟩
    constructor
    · rintro c ⟨m, hm, hc⟩
      exact hadded m hm c hc
    · rintro c ⟨m, hm, hc⟩
      obtain ⟨p, -, hp⟩ := hremoved m hm c hc
      exact ⟨p, hp⟩
  · rintro ⟨hadded, hremoved⟩
    refine ⟨fun m hm c hc => hadded c ⟨m, hm, hc⟩, fun m hm c hc => ?_⟩
    obtain ⟨p, hp⟩ := hremoved c ⟨m, hm, hc⟩
    refine ⟨p, ?_, hp⟩
    rintro rfl
    exact acyclic_admittedIn _ p (.single hp)

theorem attachedLinks_eq_some : attachedLinks map seed target c = some p ↔
    Adds map seed target c ∧ proposedIn (proposalsOf map target) c = some p := by
  unfold attachedLinks
  split_ifs with h <;> simp [h]

theorem detachedLinks_eq_some : detachedLinks map seed target c = some p ↔
    Removes map seed target c ∧ admittedIn (proposalsOf map seed) c = some p := by
  unfold detachedLinks
  split_ifs with h <;> simp [h]

theorem amendsOn_drafts {new : List VersionedMembershipEvent} {day : Int}
    (h : ∀ kind p c d, Records new kind p c d ↔ d = day ∧ DraftRecords map
      (seedParentsOf map seed) (targetParentsOf map target) (markerDrafts seed target) kind p c) :
    AmendsOn day (attachedLinks map seed target) (detachedLinks map seed target) new := by
  intro kind p c d
  rw [h, attachedLinks_eq_some, detachedLinks_eq_some]
  unfold DraftRecords markerDrafts
  simp only [List.mem_append, List.mem_map, or_and_right, exists_or, exists_exists_and_eq_and,
    draftParent_attach, draftParent_detach, Option.map_eq_some_iff,
    ComponentConceptId.asStr_injective.eq_iff, exists_eq_right, AmendmentDraftOp.kind]
  refine and_congr_right fun _ => or_congr ⟨?_, ?_⟩ ⟨?_, ?_⟩
  · rintro ⟨m, hm, rfl, hc, hp⟩
    exact ⟨rfl, ⟨m, hm, hc⟩, hp⟩
  · rintro ⟨rfl, ⟨m, hm, hc⟩, hp⟩
    exact ⟨m, hm, rfl, hc, hp⟩
  · rintro ⟨m, hm, rfl, hc, hp⟩
    exact ⟨rfl, ⟨m, hm, hc⟩, hp⟩
  · rintro ⟨rfl, ⟨m, hm, hc⟩, hp⟩
    exact ⟨m, hm, rfl, hc, hp⟩

theorem drafts_eq (provenance : AmendingActId) :
    draftsFromMarkerDiff seed target provenance.asStr = .ok ((markerDrafts seed target).map
      fun draft => structuralDraft draft.1 provenance.asStr draft.2) := by
  unfold draftsFromMarkerDiff markerDrafts
  rw [if_neg (by simp [provenance.not_isEmpty]), List.map_append, List.map_map, List.map_map]
  rfl

/-- A run that comes to its end found a parent for every draft. -/
theorem replay_inv {run : Replay} {seedExpr targetExpr : String} {seedDay targetDay : Int}
    (h : replay map seed target seedExpr targetExpr seedDay targetDay = some run) :
    seedDay < targetDay ∧ Founded map seed target ∧
      ∃ seedProv targetProv : AmendingActId,
        seedExpr = seedProv.asStr ∧ targetExpr = targetProv.asStr := by
  obtain ⟨seedPropose, hseedPropose, hseed⟩ := exists_report map seed
  obtain ⟨targetPropose, htargetPropose, htarget⟩ := exists_report map target
  unfold replay at h
  rw [hseedPropose, htargetPropose] at h
  simp only [Except.toOption, Option.bind_eq_bind, Option.bind_some] at h
  split_ifs at h with hdays
  cases hseedProv : CheckedId.parse "amending act id" seedExpr with
  | error e => simp [hseedProv] at h
  | ok seedProv =>
    cases htargetProv : CheckedId.parse "amending act id" targetExpr with
    | error e => simp [hseedProv, htargetProv] at h
    | ok targetProv =>
      have hseedExpr := CheckedId.asStr_of_parse hseedProv
      have htargetExpr := CheckedId.asStr_of_parse htargetProv
      refine ⟨not_le.mp hdays, ?_, seedProv, targetProv, hseedExpr, htargetExpr⟩
      simp only [hseedProv, htargetProv, Option.bind_some, Option.bind_eq_some_iff] at h
      obtain ⟨log, -, s, hrun, -⟩ := h
      rw [htargetExpr, drafts_eq, hseed, htarget] at hrun
      simp only [Option.getD_some, List.foldlM_map] at hrun
      exact hasParent_iff.mp (hasParent_of_run hrun)

/-- When every draft has a parent, the run comes to its end. -/
theorem replay_ok (hfounded : Founded map seed target) {seedDay targetDay : Int}
    (hdays : seedDay < targetDay) (seedProv targetProv : AmendingActId) :
    ∃ run, replay map seed target seedProv.asStr targetProv.asStr seedDay targetDay = some run ∧
      Reconstructs map seed target run := by
  obtain ⟨seedPropose, hseedPropose, hseed⟩ := exists_report map seed
  obtain ⟨targetPropose, htargetPropose, htarget⟩ := exists_report map target
  have hadmitted (proposals : List MembershipProposal) :
      ∀ e ∈ (admitMembershipProposals proposals).admitted, e.parent ≠ e.child :=
    (Admissible.loop proposals).noSelf
  obtain ⟨old, hold, holdAttaches⟩ :=
    attachAdmitted_ok (hadmitted (proposalsOf map seed)) seedDay seedProv
  obtain ⟨oracle, horacle, horacleAttaches⟩ :=
    attachAdmitted_ok (hadmitted (proposalsOf map target)) targetDay targetProv
  obtain ⟨s, new, hrun, hlog, hnew⟩ := foldlM_replayDraft targetDay targetProv targetProv.asStr
    (hasParent_iff.mpr hfounded) ⟨⟨old⟩, 0, 0⟩
  obtain ⟨hno, hlinks⟩ := replay_amendsOn holdAttaches (fun p c => mem_edgePairs_admitted)
    (amendsOn_drafts hnew) hdays
  obtain ⟨hnoOracle, horacleLinks⟩ := replay_attachesOn horacleAttaches fun p q c hp hq =>
    Option.some.inj ((mem_edgePairs_admitted.mp hp).symm.trans (mem_edgePairs_admitted.mp hq))
  obtain ⟨replayAst, hfold⟩ : ∃ ast, foldMembershipAt ⟨old ++ new⟩ targetDay = .ok ast :=
    ⟨_, fold_of_no_conflict hno⟩
  obtain ⟨oracleAst, hfoldOracle⟩ : ∃ ast, foldMembershipAt ⟨oracle⟩ targetDay = .ok ast :=
    ⟨_, fold_of_no_conflict hnoOracle⟩
  refine ⟨⟨s.committedAttach, s.committedDetach, replayAst, oracleAst⟩, ?_,
    ⟨_, _, hfold, hlinks⟩, ⟨_, _, hfoldOracle, ?_⟩⟩
  · unfold replay
    rw [if_neg (not_le.mpr hdays), hseedPropose, htargetPropose, drafts_eq]
    simp only [Except.toOption, Option.bind_eq_bind, Option.bind_some, CheckedId.parse_asStr,
      hseed, htarget, hold, Option.getD_some, List.foldlM_map]
    rw [seedParentsOf, targetParentsOf] at hrun
    simp [hrun, hlog, hfold, horacle, hfoldOracle]
  · funext c
    apply Option.ext
    intro p
    rw [horacleLinks, mem_edgePairs_admitted]

end

end LawNexus
