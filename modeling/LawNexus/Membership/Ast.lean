import LawNexus.Membership.Replay

/-!
# The tree against the replay

Two results about `fold_membership_at`: when its tree holds every live pair, and that
the order of the log does not matter.
-/

namespace LawNexus

open Forest

section

variable {log log' : VersionedMembershipLog} {day : Int} {ast : StructuralAst}

theorem mem_edges_fold (h : foldMembershipAt log day = .ok ast) {p c : ComponentConceptId} :
    (p, c) ∈ ast.edges ↔ replayTo log day c = some p ∧ Grounded (replayTo log day) c := by
  obtain ⟨-, rfl⟩ := fold_ok_iff.mp h
  rw [mem_edges_build, links_replayTable]

theorem mem_nodes_fold (h : foldMembershipAt log day = .ok ast) {x : ComponentConceptId} :
    x ∈ ast.nodes ↔ Grounded (replayTo log day) x ∧
      (replayTo log day x ≠ none ∨ ∃ c, replayTo log day c = some x) := by
  obtain ⟨-, rfl⟩ := fold_ok_iff.mp h
  rw [mem_nodes_build, links_replayTable]

theorem nodup_nodes_fold (h : foldMembershipAt log day = .ok ast) : ast.nodes.Nodup := by
  obtain ⟨-, rfl⟩ := fold_ok_iff.mp h
  exact nodup_nodes_build day _

theorem nodup_edges_fold (h : foldMembershipAt log day = .ok ast) : ast.edges.Nodup := by
  obtain ⟨-, rfl⟩ := fold_ok_iff.mp h
  exact nodup_edges_build day _

/-- The roots of the tree are the parents that are the child of nothing. -/
theorem roots_fold (h : foldMembershipAt log day = .ok ast) :
    RoseTree.Roots (ast.roots.map RoseTree.label) (replayTo log day) := by
  obtain ⟨-, rfl⟩ := fold_ok_iff.mp h
  rw [(buildStructuralAst_grown day _).1, ← links_replayTable]
  exact rootIds_roots _

/-- Without a cycle, every chain of live pairs leads to a root. -/
theorem acyclic_replayTo_iff (log : VersionedMembershipLog) (day : Int) :
    Acyclic (replayTo log day) ↔
      ∀ c, replayTo log day c ≠ none → Grounded (replayTo log day) c := by
  rw [← links_replayTable]
  exact acyclic_iff_grounded (links_mem_keys _)

theorem grounded_replayTo (h : Acyclic (replayTo log day)) (c : ComponentConceptId) :
    Grounded (replayTo log day) c := by
  rw [← links_replayTable] at h ⊢
  exact grounded_of_acyclic (links_mem_keys _) h c

/-! ## The theorems -/

/-- The tree has each live pair once, and drops none, exactly when the live pairs have no
cycle: a cycle has no root, and the tree is built from the roots. -/
theorem fold_exact_iff (h : foldMembershipAt log day = .ok ast) :
    (ast.edges.Nodup ∧ (∀ p c, (p, c) ∈ ast.edges ↔ replayTo log day c = some p) ∧
      ∀ x, x ∈ ast.nodes ↔ replayTo log day x ≠ none ∨ ∃ c, replayTo log day c = some x) ↔
      Acyclic (replayTo log day) := by
  constructor
  · rintro ⟨-, hexact, -⟩
    rw [acyclic_replayTo_iff]
    intro c hc
    obtain ⟨p, hp⟩ := Option.ne_none_iff_exists'.mp hc
    exact ((mem_edges_fold h).mp ((hexact p c).mpr hp)).2
  · intro hacyclic
    refine ⟨nodup_edges_fold h, fun p c => ?_, fun x => ?_⟩
    · rw [mem_edges_fold h, and_iff_left (grounded_replayTo hacyclic c)]
    · rw [mem_nodes_fold h, and_iff_right (grounded_replayTo hacyclic x)]

/-- A log in another order, with any number of later events among its own, folds to the same
tree or to the same refusal. -/
theorem fold_perm_later (extra : List VersionedMembershipEvent)
    (hlater : ∀ e ∈ extra, day < e.effectDay) (hperm : log'.events.Perm (log.events ++ extra)) :
    foldMembershipAt log' day = foldMembershipAt log day := by
  have hmem : ∀ e, e ∈ applicable log' day ↔ e ∈ applicable log day := by
    intro e
    rw [mem_applicable, mem_applicable, hperm.mem_iff, List.mem_append]
    refine and_congr_left fun hday => or_iff_left fun he => ?_
    exact absurd hday (not_le.mpr (hlater e he))
  by_cases hc : Conflict (applicable log day)
  · rw [fold_of_conflict hc, fold_of_conflict ((conflict_congr hmem).mpr hc)]
  · have hc' : ¬ Conflict (applicable log' day) := fun h => hc ((conflict_congr hmem).mp h)
    rw [fold_of_no_conflict hc, fold_of_no_conflict hc']
    congr 1
    apply buildStructuralAst_congr
    funext c
    apply Option.ext
    intro p
    rw [links_replayTable, links_replayTable, replayTo_iff hc, replayTo_iff hc', alive_congr hmem]

end

/-! ### Two events on two days -/

namespace Sample

def attachOn (day : Int) (parent child : ComponentConceptId) (h : parent ≠ child) :
    VersionedMembershipEvent :=
  ⟨.attach, parent, child, day, act, h⟩

def chain : VersionedMembershipLog :=
  ⟨[attachOn 1 statute chapter statute_ne_chapter, attachOn 2 chapter article chapter_ne_article]⟩

def ring : VersionedMembershipLog :=
  ⟨[attachOn 1 statute chapter statute_ne_chapter, attachOn 2 chapter statute chapter_ne_statute]⟩

end Sample

theorem fold_exact_chain : ∃ ast, foldMembershipAt Sample.chain 2 = .ok ast ∧
    ((ast.edges.Nodup ∧ (∀ p c, (p, c) ∈ ast.edges ↔ replayTo Sample.chain 2 c = some p) ∧
      ∀ x, x ∈ ast.nodes ↔
        replayTo Sample.chain 2 x ≠ none ∨ ∃ c, replayTo Sample.chain 2 c = some x) ↔
      Acyclic (replayTo Sample.chain 2)) := by
  have hsome : (foldMembershipAt Sample.chain 2).toOption.isSome = true := by decide
  cases h : foldMembershipAt Sample.chain 2 with
  | error e => simp [h, Except.toOption] at hsome
  | ok ast => exact ⟨ast, rfl, fold_exact_iff h⟩

/-- A statute in its own chapter: both pairs are alive and the tree is empty. -/
theorem fold_drops_ring :
    ¬ ∀ log day ast, foldMembershipAt log day = .ok ast →
      ast.edges.Nodup ∧ (∀ p c, (p, c) ∈ ast.edges ↔ replayTo log day c = some p) ∧
        ∀ x, x ∈ ast.nodes ↔ replayTo log day x ≠ none ∨ ∃ c, replayTo log day c = some x := by
  intro hall
  have hedges : (foldMembershipAt Sample.ring 2).toOption.map (·.edges) = some [] := by decide
  cases h : foldMembershipAt Sample.ring 2 with
  | error e => simp [h, Except.toOption] at hedges
  | ok ast =>
    simp only [h, Except.toOption, Option.map_some, Option.some.injEq] at hedges
    have hlive : replayTo Sample.ring 2 Sample.chapter = some Sample.statute := by decide
    have hmem := ((hall _ _ _ h).2.1 Sample.statute Sample.chapter).mpr hlive
    rw [hedges] at hmem
    exact absurd hmem (by simp)

/-- The chain in the other order, with an event of the third day in front. -/
theorem fold_perm_later_chain :
    foldMembershipAt ⟨[Sample.attachOn 3 Sample.statute Sample.article Sample.statute_ne_article,
      Sample.attachOn 2 Sample.chapter Sample.article Sample.chapter_ne_article,
      Sample.attachOn 1 Sample.statute Sample.chapter Sample.statute_ne_chapter]⟩ 2 =
    foldMembershipAt Sample.chain 2 :=
  fold_perm_later [Sample.attachOn 3 Sample.statute Sample.article Sample.statute_ne_article]
    (by decide) (by decide)

end LawNexus
