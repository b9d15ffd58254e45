import LawNexus.Ontology.Replayed

/-!
# When a replay without drift is right

The drift counts components. A replay without drift has the parents of the target when no
component changes its parent behind the back of the drafts.
-/

namespace LawNexus

open Forest Loops

section

variable {map : HierarchyMap} {seed target : List HierarchyMarker} {run : Replay}

/-! ## The drift -/

theorem mem_oracleCcs {ast : StructuralAst} {c : ComponentConceptId} :
    c ∈ oracleCcs ast ↔ c ∈ ast.nodes := by
  rw [oracleCcs, StructuralAst.nodes, RoseTree.nodesOf_eq]
  rfl

/-- Nothing has drifted when the two trees have the same components. -/
theorem drift_eq_zero_iff (run : Replay) :
    run.report.drift = 0 ↔ ∀ c, c ∈ run.replayAst.nodes ↔ c ∈ run.oracleAst.nodes := by
  have hcount : run.report.drift = 0 ↔
      (oracleDiff run.replayAst (oracleCcs run.oracleAst)).missing = 0 ∧
        (oracleDiff run.replayAst (oracleCcs run.oracleAst)).phantom = 0 := by
    simp only [Replay.report, oracleDiff]
    omega
  rw [hcount]
  simp only [oracleDiff, List.length_eq_zero_iff, List.filter_eq_nil_iff, mem_distinct,
    mem_actualSet, mem_oracleCcs, decide_eq_true_eq, not_not]
  exact ⟨fun h c => ⟨h.2 c, h.1 c⟩, fun h => ⟨fun c => (h c).mpr, fun c => (h c).mp⟩⟩

theorem report_eq_zero (h : run.report.drift = 0) :
    run.report.missing = 0 ∧ run.report.phantom = 0 := by
  simp only [Replay.report, oracleDiff] at h ⊢
  omega

/-! ## The trees -/

theorem Reconstructs.mem_oracle_edges (h : Reconstructs map seed target run)
    {p c : ComponentConceptId} : (p, c) ∈ run.oracleAst.edges ↔
      admittedIn (proposalsOf map target) c = some p := by
  obtain ⟨log, day, hfold, hlinks⟩ := h.oracle
  rw [mem_edges_fold hfold, hlinks, and_iff_left (grounded_admittedIn _ c)]

theorem Reconstructs.mem_oracle_nodes (h : Reconstructs map seed target run)
    {c : ComponentConceptId} : c ∈ run.oracleAst.nodes ↔
      admittedIn (proposalsOf map target) c ≠ none ∨
        ∃ d, admittedIn (proposalsOf map target) d = some c := by
  obtain ⟨log, day, hfold, hlinks⟩ := h.oracle
  rw [mem_nodes_fold hfold, hlinks, and_iff_right (grounded_admittedIn _ c)]

theorem Reconstructs.grounded_of_node (h : Reconstructs map seed target run)
    {c : ComponentConceptId} (hc : c ∈ run.replayAst.nodes) :
    Grounded (replayedLinks map seed target) c := by
  obtain ⟨log, day, hfold, hlinks⟩ := h.replayed
  rw [mem_nodes_fold hfold, hlinks] at hc
  exact hc.1

theorem Reconstructs.mem_replay_edges (h : Reconstructs map seed target run)
    {p c : ComponentConceptId} : (p, c) ∈ run.replayAst.edges ↔
      replayedLinks map seed target c = some p ∧ Grounded (replayedLinks map seed target) c := by
  obtain ⟨log, day, hfold, hlinks⟩ := h.replayed
  rw [mem_edges_fold hfold, hlinks]

theorem Reconstructs.mem_replay_nodes (h : Reconstructs map seed target run)
    {c : ComponentConceptId} : c ∈ run.replayAst.nodes ↔
      Grounded (replayedLinks map seed target) c ∧
        (replayedLinks map seed target c ≠ none ∨
          ∃ d, replayedLinks map seed target d = some c) := by
  obtain ⟨log, day, hfold, hlinks⟩ := h.replayed
  rw [mem_nodes_fold hfold, hlinks]

/-- Without drift the replayed links have no cycle. Each attached component is a component of
the target's tree, so it is in the replayed tree too, and the tree hangs from its roots. -/
theorem Reconstructs.grounded (h : Reconstructs map seed target run)
    (hfounded : Founded map seed target) (hdrift : run.report.drift = 0)
    (c : ComponentConceptId) : Grounded (replayedLinks map seed target) c := by
  apply grounded_amended (grounded_admittedIn _)
  intro x hx
  obtain ⟨p, hp⟩ := Option.ne_none_iff_exists'.mp hx
  obtain ⟨hadds, hproposed⟩ := attachedLinks_eq_some.mp hp
  obtain ⟨q, hne, hq⟩ := hfounded.added x hadds
  apply h.grounded_of_node
  rw [(drift_eq_zero_iff run).mp hdrift, h.mem_oracle_nodes]
  exact named_of_proposed (mem_of_proposedIn hq) hne

/-- The edges are the same when the links are. -/
theorem Reconstructs.edges_perm_iff (h : Reconstructs map seed target run)
    (hground : ∀ c, Grounded (replayedLinks map seed target) c) :
    run.replayAst.edges.Perm run.oracleAst.edges ↔
      replayedLinks map seed target = admittedIn (proposalsOf map target) := by
  obtain ⟨log, day, hfold, -⟩ := h.replayed
  obtain ⟨oracleLog, oracleDay, hfoldOracle, -⟩ := h.oracle
  rw [List.perm_ext_iff_of_nodup (nodup_edges_fold hfold) (nodup_edges_fold hfoldOracle)]
  constructor
  · intro hsame
    funext c
    apply Option.ext
    intro p
    rw [← h.mem_oracle_edges, ← hsame, h.mem_replay_edges, and_iff_left (hground c)]
  · rintro heq ⟨p, c⟩
    rw [h.mem_oracle_edges, h.mem_replay_edges, and_iff_left (hground c), heq]

/-! ## The condition -/

/-- What the drafts do is what the target has: a component that no draft names keeps its
parent, the last parent proposed for an added component is the admitted one, and a removed
component has no parent in the target. A component of both kinds counts as removed if its
parent is the one it had, and as added if it is another. -/
structure SameParents (map : HierarchyMap) (seed target : List HierarchyMarker) : Prop where
  kept : ∀ c, ¬ Adds map seed target c → ¬ Removes map seed target c →
    admittedIn (proposalsOf map seed) c = admittedIn (proposalsOf map target) c
  added : ∀ c, Adds map seed target c →
    ¬ (Removes map seed target c ∧
      admittedIn (proposalsOf map seed) c = proposedIn (proposalsOf map target) c) →
    proposedIn (proposalsOf map target) c = admittedIn (proposalsOf map target) c
  removed : ∀ c, Removes map seed target c →
    (Adds map seed target c →
      admittedIn (proposalsOf map seed) c = proposedIn (proposalsOf map target) c) →
    admittedIn (proposalsOf map target) c = none

section

variable {c : ComponentConceptId}

theorem replayedLinks_kept (hadds : ¬ Adds map seed target c)
    (hremoves : ¬ Removes map seed target c) :
    replayedLinks map seed target c = admittedIn (proposalsOf map seed) c := by
  apply Option.ext
  intro p
  simp [replayedLinks, amended_eq_some, attachedLinks, detachedLinks, hadds, hremoves]

theorem replayedLinks_added (hfounded : Founded map seed target) (hadds : Adds map seed target c)
    (hnot : ¬ (Removes map seed target c ∧
      admittedIn (proposalsOf map seed) c = proposedIn (proposalsOf map target) c)) :
    replayedLinks map seed target c = proposedIn (proposalsOf map target) c := by
  obtain ⟨p, -, hp⟩ := hfounded.added c hadds
  rw [hp, replayedLinks, amended_eq_some, attachedLinks_eq_some, ne_eq, detachedLinks_eq_some,
    ← hp]
  exact ⟨Or.inl ⟨hadds, rfl⟩, hnot⟩

theorem replayedLinks_removed (hremoves : Removes map seed target c)
    (hsame : Adds map seed target c →
      admittedIn (proposalsOf map seed) c = proposedIn (proposalsOf map target) c) :
    replayedLinks map seed target c = none := by
  rw [Option.eq_none_iff_forall_ne_some]
  intro p hp
  rw [replayedLinks, amended_eq_some, attachedLinks_eq_some, ne_eq, detachedLinks_eq_some] at hp
  obtain ⟨⟨hadds, hproposed⟩ | ⟨-, hseed⟩, hkept⟩ := hp
  · exact hkept ⟨hremoves, (hsame hadds).trans hproposed⟩
  · exact hkept ⟨hremoves, hseed⟩

end

theorem replayedLinks_eq_iff (hfounded : Founded map seed target) :
    replayedLinks map seed target = admittedIn (proposalsOf map target) ↔
      SameParents map seed target := by
  constructor
  · intro heq
    constructor
    · intro c hadds hremoves
      rw [← heq, replayedLinks_kept hadds hremoves]
    · intro c hadds hnot
      rw [← heq, replayedLinks_added hfounded hadds hnot]
    · intro c hremoves hsame
      rw [← heq, replayedLinks_removed hremoves hsame]
  · intro hparents
    funext c
    by_cases hadds : Adds map seed target c
    · by_cases hback : Removes map seed target c ∧
          admittedIn (proposalsOf map seed) c = proposedIn (proposalsOf map target) c
      · have hsame : Adds map seed target c → _ := fun _ => hback.2
        rw [replayedLinks_removed hback.1 hsame, hparents.removed c hback.1 hsame]
      · rw [replayedLinks_added hfounded hadds hback, hparents.added c hadds hback]
    · by_cases hremoves : Removes map seed target c
      · have hsame : Adds map seed target c →
            admittedIn (proposalsOf map seed) c = proposedIn (proposalsOf map target) c :=
          fun h => absurd h hadds
        rw [replayedLinks_removed hremoves hsame, hparents.removed c hremoves hsame]
      · rw [replayedLinks_kept hadds hremoves, hparents.kept c hadds hremoves]

/-! ## Zero drift -/

/-- A replay without drift has the edges of the target's tree exactly when the parents are the
same behind the drafts. -/
theorem zero_drift_sound_iff {seedExpr targetExpr : String} {seedDay targetDay : Int}
    (h : replay map seed target seedExpr targetExpr seedDay targetDay = some run)
    (hdrift : run.report.drift = 0) :
    run.replayAst.edges.Perm run.oracleAst.edges ↔ SameParents map seed target := by
  obtain ⟨hdays, hfounded, seedProv, targetProv, rfl, rfl⟩ := replay_inv h
  obtain ⟨run', hrun, hreconstructs⟩ := replay_ok hfounded hdays seedProv targetProv
  obtain rfl := Option.some.inj (hrun.symm.trans h)
  rw [hreconstructs.edges_perm_iff (hreconstructs.grounded hfounded hdrift),
    replayedLinks_eq_iff hfounded]

end

/-! ### Two articles that change their chapters -/

namespace Sample

theorem one_trimmed : Texts.trim "1" = "1" ∧ "1" ≠ "" := by decide
theorem two_trimmed : Texts.trim "2" = "2" ∧ "2" ≠ "" := by decide
theorem glava_level : "glava" ∈ hierarchyLevels := by decide
theorem statya_level : "statya" ∈ hierarchyLevels := by decide

def one : TrimmedText := ⟨"1", one_trimmed⟩
def two : TrimmedText := ⟨"2", two_trimmed⟩
def glava : HierarchyLevel := ⟨"glava", glava_level⟩
def statya : HierarchyLevel := ⟨"statya", statya_level⟩

def otherChapter : ComponentConceptId := ⟨"cc:other-chapter", rfl⟩
def otherArticle : ComponentConceptId := ⟨"cc:chapter/article-2", rfl⟩

def bindings : List HierarchyBinding :=
  [⟨none, glava, one, none, chapter⟩, ⟨none, glava, two, none, otherChapter⟩,
    ⟨none, statya, one, none, article⟩, ⟨none, statya, two, none, otherArticle⟩]

theorem bindings_oneEach : (bindings.map (·.key)).Nodup := by decide

def registry : HierarchyMap := ⟨bindings, bindings_oneEach⟩

def marker (level : HierarchyLevel) (number : TrimmedText) : HierarchyMarker :=
  ⟨none, level, number, none, none⟩

def before : List HierarchyMarker :=
  [marker glava one, marker statya one, marker glava two, marker statya two]

def swapped : List HierarchyMarker :=
  [marker glava one, marker statya two, marker glava two, marker statya one]

theorem replayed_swapped : (replay registry before swapped "act:1" "act:2" 1 2).map
    (fun run => (run.report.drift, run.replayAst.edges)) =
      some (0, [(chapter, article), (otherChapter, otherArticle)]) := by decide

theorem oracle_swapped : (replay registry before swapped "act:1" "act:2" 1 2).map
    (fun run => run.oracleAst.edges) =
      some [(chapter, otherArticle), (otherChapter, article)] := by decide

theorem run_swapped : ∃ run, replay registry before swapped "act:1" "act:2" 1 2 = some run ∧
    run.report.drift = 0 ∧ run.replayAst.edges = [(chapter, article), (otherChapter, otherArticle)]
    ∧ run.oracleAst.edges = [(chapter, otherArticle), (otherChapter, article)] := by
  obtain ⟨run, hrun, hreplayed⟩ := Option.map_eq_some_iff.mp replayed_swapped
  obtain ⟨run', hrun', horacle⟩ := Option.map_eq_some_iff.mp oracle_swapped
  obtain rfl := Option.some.inj (hrun.symm.trans hrun')
  obtain ⟨hdrift, hedges⟩ := Prod.mk.inj hreplayed
  exact ⟨run, hrun, hdrift, hedges, horacle⟩

end Sample

/-- The markers of both editions are the same, so there is no draft and no drift. -/
theorem zero_drift_keeps_swapped :
    ¬ ∀ map seed target seedExpr targetExpr seedDay targetDay run, seedDay < targetDay →
      replay map seed target seedExpr targetExpr seedDay targetDay = some run →
      run.report.drift = 0 → run.replayAst.edges.Perm run.oracleAst.edges := by
  intro hall
  obtain ⟨run, hrun, hdrift, hreplayed, horacle⟩ := Sample.run_swapped
  have hperm := hall _ _ _ _ _ _ _ run (by decide) hrun hdrift
  rw [hreplayed, horacle] at hperm
  exact absurd hperm (by decide)

theorem zero_drift_sound_swapped :
    ∃ run, replay Sample.registry Sample.before Sample.swapped "act:1" "act:2" 1 2 = some run ∧
      (run.replayAst.edges.Perm run.oracleAst.edges ↔
        SameParents Sample.registry Sample.before Sample.swapped) := by
  obtain ⟨run, hrun, hdrift, -⟩ := Sample.run_swapped
  exact ⟨run, hrun, zero_drift_sound_iff hrun hdrift⟩

end LawNexus
