import LawNexus.Ontology.Reconstruct

/-!
# Editions that move nothing

A pair of editions is replayed to the target when their markers are flat, each bound to a
component of its own, and no marker of both changes its parent.
-/

namespace LawNexus

open Forest Loops

section

variable {map : HierarchyMap} {seed target : List HierarchyMarker}

/-- The markers that `read_markers` makes have neither a work nor a path. -/
def HierarchyMarker.IsFlat (marker : HierarchyMarker) : Prop :=
  marker.workId = none ∧ marker.path = none

/-- Two editions with a registry for all their markers, where no marker of both changes its
parent and no other marker is a root. -/
structure MovesNothing (map : HierarchyMap) (seed target : List HierarchyMarker) : Prop where
  flat : ∀ m ∈ seed ++ target, m.IsFlat
  seedKeys : (seed.map fun m => (m.level, m.number)).Nodup
  targetKeys : (target.map fun m => (m.level, m.number)).Nodup
  bound : ∀ m ∈ seed ++ target, ∃ c, mapHierarchyMarker map m = .bound c
  distinct : ∀ m ∈ seed ++ target, ∀ m' ∈ seed ++ target,
    mapHierarchyMarker map m = mapHierarchyMarker map m' →
      (m.level, m.number) = (m'.level, m'.number)
  kept : ∀ m ∈ seed, ∀ m' ∈ target, (m.level, m.number) = (m'.level, m'.number) →
    ∀ c, mapHierarchyMarker map m = .bound c →
      ∀ p, ⟨p, c⟩ ∈ proposalsOf map seed ↔ ⟨p, c⟩ ∈ proposalsOf map target
  added : ∀ m ∈ (diffMarkerSets seed target).added, ∀ c, mapHierarchyMarker map m = .bound c →
    ∃ p, ⟨p, c⟩ ∈ proposalsOf map target
  removed : ∀ m ∈ (diffMarkerSets seed target).removed, ∀ c,
    mapHierarchyMarker map m = .bound c → ∃ p, ⟨p, c⟩ ∈ proposalsOf map seed

theorem boundTo_eq_some {marker : HierarchyMarker} {c : ComponentConceptId} :
    boundTo map marker = some c ↔ mapHierarchyMarker map marker = .bound c := by
  unfold boundTo
  cases mapHierarchyMarker map marker <;> simp [HierarchyMapOutcome.component]

theorem HierarchyMarker.IsFlat.boundTo_flat {marker : HierarchyMarker} (h : marker.IsFlat)
    (map : HierarchyMap) : boundTo map marker.flat = boundTo map marker := by
  obtain ⟨workId, level, number, path, title⟩ := marker
  obtain ⟨rfl, rfl⟩ := h
  rfl

theorem HierarchyMarker.IsFlat.diffKey_inj {m m' : HierarchyMarker} (h : m.IsFlat)
    (h' : m'.IsFlat) : m.diffKey = m'.diffKey ↔ (m.level, m.number) = (m'.level, m'.number) := by
  simp [HierarchyMarker.diffKey, HierarchyMarker.keyPath, h.2, h'.2, Subtype.ext_iff]

/-- Markers with different keys have different components. -/
theorem nodup_componentsOf {markers : List HierarchyMarker}
    (hkeys : (markers.map fun m => (m.level, m.number)).Nodup)
    (hdistinct : ∀ m ∈ markers, ∀ m' ∈ markers,
      mapHierarchyMarker map m = mapHierarchyMarker map m' →
        (m.level, m.number) = (m'.level, m'.number)) : (componentsOf map markers).Nodup := by
  unfold componentsOf List.Nodup
  rw [List.pairwise_filterMap]
  refine (List.pairwise_map.mp hkeys).imp_of_mem fun hm hm' hne c hc d hd hcd => ?_
  rw [boundTo_eq_some] at hc hd
  exact hne (hdistinct _ hm _ hm' (by rw [hc, hd, hcd]))

section

variable {markers : List HierarchyMarker} (h : (componentsOf map markers).Nodup)
  {p c : ComponentConceptId}
include h

/-- The gate admits each proposal of such an edition. -/
theorem admittedIn_eq_some : admittedIn (proposalsOf map markers) c = some p ↔
    ⟨p, c⟩ ∈ proposalsOf map markers := by
  obtain ⟨hfresh, hself⟩ := proposalsOf_fresh map markers h
  rw [admittedIn_eq, (Admissible.loop _).links_eq_some, admitted_all hfresh hself, List.mem_map]
  constructor
  · rintro ⟨e, he, heq⟩
    obtain ⟨rfl, rfl⟩ := AdmittedMembership.mk.inj heq
    exact he
  · intro hmem
    exact ⟨_, hmem, rfl⟩

theorem proposedIn_eq_admittedIn : proposedIn (proposalsOf map markers) =
    admittedIn (proposalsOf map markers) := by
  funext c
  cases hproposed : proposedIn (proposalsOf map markers) c with
  | some p => exact ((admittedIn_eq_some h).mpr (mem_of_proposedIn hproposed)).symm
  | none =>
    symm
    rw [Option.eq_none_iff_forall_ne_some]
    intro p hp
    have hfind := List.find?_eq_none.mp (Option.map_eq_none_iff.mp hproposed) ⟨p, c⟩
      (List.mem_reverse.mpr ((admittedIn_eq_some h).mp hp))
    simp at hfind

end

/-! ## The replay -/

namespace MovesNothing

variable (h : MovesNothing map seed target)
include h

theorem nodup_seed : (componentsOf map seed).Nodup :=
  nodup_componentsOf h.seedKeys fun m hm m' hm' =>
    h.distinct m (List.mem_append_left _ hm) m' (List.mem_append_left _ hm')

theorem nodup_target : (componentsOf map target).Nodup :=
  nodup_componentsOf h.targetKeys fun m hm m' hm' =>
    h.distinct m (List.mem_append_right _ hm) m' (List.mem_append_right _ hm')

theorem adds_iff {c : ComponentConceptId} : Adds map seed target c ↔
    ∃ m ∈ (diffMarkerSets seed target).added, mapHierarchyMarker map m = .bound c := by
  unfold Adds
  refine exists_congr fun m => and_congr_right fun hm => ?_
  have hflat := h.flat m (List.mem_append_right _ (List.mem_of_mem_filter hm))
  rw [hflat.boundTo_flat, boundTo_eq_some]

theorem removes_iff {c : ComponentConceptId} : Removes map seed target c ↔
    ∃ m ∈ (diffMarkerSets seed target).removed, mapHierarchyMarker map m = .bound c := by
  unfold Removes
  refine exists_congr fun m => and_congr_right fun hm => ?_
  have hflat := h.flat m (List.mem_append_left _ (List.mem_of_mem_filter hm))
  rw [hflat.boundTo_flat, boundTo_eq_some]

theorem founded : Founded map seed target := by
  constructor
  · intro c hadds
    obtain ⟨m, hm, hc⟩ := h.adds_iff.mp hadds
    obtain ⟨p, hp⟩ := h.added m hm c hc
    refine ⟨p, (proposalsOf_fresh map target h.nodup_target).2 _ hp, ?_⟩
    rw [proposedIn_eq_admittedIn h.nodup_target, admittedIn_eq_some h.nodup_target]
    exact hp
  · intro c hremoves
    obtain ⟨m, hm, hc⟩ := h.removes_iff.mp hremoves
    obtain ⟨p, hp⟩ := h.removed m hm c hc
    exact ⟨p, (admittedIn_eq_some h.nodup_seed).mpr hp⟩

/-- Two markers with one key, one of each edition, are bound to the same component. -/
theorem same_bound {m m' : HierarchyMarker} (hm : m ∈ seed) (hm' : m' ∈ target)
    (hkey : m.diffKey = m'.diffKey) : mapHierarchyMarker map m = mapHierarchyMarker map m' := by
  have hflat := h.flat m (List.mem_append_left _ hm)
  have hflat' := h.flat m' (List.mem_append_right _ hm')
  obtain ⟨hlevel, hpath⟩ := Prod.mk.inj hkey
  unfold mapHierarchyMarker
  rw [hflat.1, hflat'.1, hlevel, hpath]

theorem kept_iff {c p : ComponentConceptId} (hadds : ¬ Adds map seed target c)
    (hremoves : ¬ Removes map seed target c) :
    ⟨p, c⟩ ∈ proposalsOf map seed ↔ ⟨p, c⟩ ∈ proposalsOf map target := by
  rw [h.adds_iff] at hadds
  rw [h.removes_iff] at hremoves
  constructor
  · intro hp
    obtain ⟨m, hm, hc⟩ := List.mem_filterMap.mp (mem_componentsOf_child map seed hp)
    rw [boundTo_eq_some] at hc
    have hboth : m.diffKey ∈ target.map (·.diffKey) := by
      by_contra hnot
      exact hremoves ⟨m, List.mem_filter.mpr ⟨hm, by simpa using hnot⟩, hc⟩
    obtain ⟨m', hm', hkey⟩ := List.mem_map.mp hboth
    have hflat := h.flat m (List.mem_append_left _ hm)
    have hflat' := h.flat m' (List.mem_append_right _ hm')
    exact (h.kept m hm m' hm' ((hflat.diffKey_inj hflat').mp hkey.symm) c hc p).mp hp
  · intro hp
    obtain ⟨m', hm', hc⟩ := List.mem_filterMap.mp (mem_componentsOf_child map target hp)
    rw [boundTo_eq_some] at hc
    have hboth : m'.diffKey ∈ seed.map (·.diffKey) := by
      by_contra hnot
      exact hadds ⟨m', List.mem_filter.mpr ⟨hm', by simpa using hnot⟩, hc⟩
    obtain ⟨m, hm, hkey⟩ := List.mem_map.mp hboth
    have hflat := h.flat m (List.mem_append_left _ hm)
    have hflat' := h.flat m' (List.mem_append_right _ hm')
    rw [← h.same_bound hm hm' hkey] at hc
    exact (h.kept m hm m' hm' ((hflat.diffKey_inj hflat').mp hkey) c hc p).mpr hp

/-- A removed component is bound to no marker of the target. -/
theorem not_mem_target {c : ComponentConceptId} (hremoves : Removes map seed target c) :
    c ∉ componentsOf map target := by
  intro hmem
  obtain ⟨m, hm, hc⟩ := h.removes_iff.mp hremoves
  obtain ⟨m', hm', hc'⟩ := List.mem_filterMap.mp hmem
  rw [boundTo_eq_some] at hc'
  obtain ⟨hseed, hgone⟩ := List.mem_filter.mp hm
  have hkey := h.distinct m (List.mem_append_left _ hseed) m' (List.mem_append_right _ hm')
    (hc.trans hc'.symm)
  have hflat := h.flat m (List.mem_append_left _ hseed)
  have hflat' := h.flat m' (List.mem_append_right _ hm')
  rw [← hflat.diffKey_inj hflat'] at hkey
  rw [hkey] at hgone
  simp only [decide_eq_true_eq] at hgone
  exact hgone (List.mem_map_of_mem hm')

theorem sameParents : SameParents map seed target := by
  constructor
  · intro c hadds hremoves
    apply Option.ext
    intro p
    rw [admittedIn_eq_some h.nodup_seed, admittedIn_eq_some h.nodup_target]
    exact h.kept_iff hadds hremoves
  · intro c _ _
    rw [proposedIn_eq_admittedIn h.nodup_target]
  · intro c hremoves _
    rw [Option.eq_none_iff_forall_ne_some]
    intro p hp
    rw [admittedIn_eq_some h.nodup_target] at hp
    exact h.not_mem_target hremoves (mem_componentsOf_child map target hp)

end MovesNothing

/-- The replay of two such editions comes to its end, with the admitted edges of the target
and nothing adrift. -/
theorem replay_complete (h : MovesNothing map seed target) {seedDay targetDay : Int}
    (hdays : seedDay < targetDay) (seedProv targetProv : AmendingActId) :
    ∃ run, replay map seed target seedProv.asStr targetProv.asStr seedDay targetDay = some run ∧
      run.replayAst.edges.Perm
        (edgePairs (admitMembershipProposals (proposalsOf map target)).admitted) ∧
      run.report.drift = 0 ∧ run.report.missing = 0 ∧ run.report.phantom = 0 := by
  obtain ⟨run, hrun, hreconstructs⟩ := replay_ok h.founded hdays seedProv targetProv
  have hlinks := (replayedLinks_eq_iff h.founded).mpr h.sameParents
  have hground : ∀ c, Grounded (replayedLinks map seed target) c := by
    rw [hlinks]
    exact grounded_admittedIn _
  have hdrift : run.report.drift = 0 := by
    rw [drift_eq_zero_iff]
    intro c
    rw [hreconstructs.mem_replay_nodes, hreconstructs.mem_oracle_nodes, and_iff_right (hground c),
      hlinks]
  refine ⟨run, hrun, ?_, hdrift, report_eq_zero hdrift⟩
  have hnodup : (edgePairs (admitMembershipProposals (proposalsOf map target)).admitted).Nodup := by
    refine List.Nodup.of_map (·.2) ?_
    rw [edgePairs, List.map_map]
    exact admitted_oneEach _
  refine ((hreconstructs.edges_perm_iff hground).mpr hlinks).trans ?_
  obtain ⟨log, day, hfold, -⟩ := hreconstructs.oracle
  rw [List.perm_ext_iff_of_nodup (nodup_edges_fold hfold) hnodup]
  rintro ⟨p, c⟩
  rw [hreconstructs.mem_oracle_edges, mem_edgePairs_admitted]

end

/-! ### One article goes, another comes -/

namespace Sample

def old : List HierarchyMarker := [marker glava one, marker statya one]

def new : List HierarchyMarker := [marker glava one, marker statya two]

theorem proposals_old : proposalsOf registry old = [⟨chapter, article⟩] := by decide

theorem proposals_new : proposalsOf registry new = [⟨chapter, otherArticle⟩] := by decide

theorem registry_glava : mapHierarchyMarker registry (marker glava one) = .bound chapter := by
  decide

theorem diff_old_new : diffMarkerSets old new = ⟨[marker statya two], [marker statya one]⟩ := by
  decide

theorem movesNothing : MovesNothing registry old new where
  flat := by
    unfold HierarchyMarker.IsFlat
    decide
  seedKeys := by decide
  targetKeys := by decide
  bound := by
    intro m hm
    have hsome : (boundTo registry m).isSome := by revert m; decide
    obtain ⟨c, hc⟩ := Option.isSome_iff_exists.mp hsome
    exact ⟨c, boundTo_eq_some.mp hc⟩
  distinct := by decide
  kept := by
    rw [proposals_old, proposals_new]
    intro m hm m' hm' hkey c hc p
    -- The chapter is the only marker of both.
    have hglava : m = marker glava one := by
      clear hc
      revert m m'
      decide
    rw [hglava, registry_glava, HierarchyMapOutcome.bound.injEq] at hc
    have hne : chapter ≠ otherArticle := by decide
    simp [← hc, chapter_ne_article, hne]
  added := by
    rw [diff_old_new, proposals_new]
    intro m hm c hc
    obtain rfl := List.mem_singleton.mp hm
    have hc' : mapHierarchyMarker registry (marker statya two) = .bound otherArticle := by decide
    rw [hc', HierarchyMapOutcome.bound.injEq] at hc
    exact ⟨chapter, by simp [hc]⟩
  removed := by
    rw [diff_old_new, proposals_old]
    intro m hm c hc
    obtain rfl := List.mem_singleton.mp hm
    have hc' : mapHierarchyMarker registry (marker statya one) = .bound article := by decide
    rw [hc', HierarchyMapOutcome.bound.injEq] at hc
    exact ⟨chapter, by simp [hc]⟩

theorem replay_complete_article :
    ∃ run, replay registry old new act.asStr act.asStr 1 2 = some run ∧
      run.replayAst.edges.Perm
        (edgePairs (admitMembershipProposals (proposalsOf registry new)).admitted) ∧
      run.report.drift = 0 ∧ run.report.missing = 0 ∧ run.report.phantom = 0 :=
  replay_complete movesNothing (by decide) act act

end Sample

end LawNexus
