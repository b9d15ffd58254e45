import LawNexus.Membership.Table

/-!
# The calls of `build_node`

The recursion keeps no record of the nodes it has seen and has no depth limit. From a root it ends
all the same, and calls itself once for each component that it comes to.
-/

namespace LawNexus

open Forest Loops

namespace Forest.RoseTree

variable {α : Type*} {kids : α → List α} {fuel : Nat} {a : α} {t : RoseTree α}

/-- A recursion that has come back does the same with more fuel. -/
theorem grow_mono (h : grow kids fuel a = some t) {more : Nat} (hle : fuel ≤ more) :
    grow kids more a = some t := by
  induction fuel generalizing a t more with
  | zero => simp [grow] at h
  | succ fuel ih =>
    obtain ⟨more, rfl⟩ := Nat.exists_eq_add_of_le' (Nat.one_le_of_lt hle)
    have hle : fuel ≤ more := Nat.le_of_succ_le_succ hle
    simp only [grow, Option.map_eq_some_iff, mapM_eq_some_iff] at h ⊢
    obtain ⟨ts, hts, rfl⟩ := h
    exact ⟨ts, hts.imp fun _ _ hgrown => ih hgrown hle, rfl⟩

end Forest.RoseTree

namespace ParentTable

/-- The components that a table names, each once. -/
def ids (t : ParentTable) : List ComponentConceptId :=
  distinct (t.entries.map (·.1) ++ t.entries.map (·.2))

variable {t : ParentTable} {root x : ComponentConceptId}

theorem mem_ids : x ∈ t.ids ↔ t.links x ≠ none ∨ ∃ c, t.links c = some x := by
  simp only [ids, mem_distinct, List.mem_append, List.mem_map, Prod.exists, exists_eq_right,
    Option.ne_none_iff_exists', links_eq_some, exists_and_right]

/-- A root is one id more than there are children. -/
theorem length_entries_lt_ids (hroot : root ∈ rootIds t.entries) :
    t.entries.length < t.ids.length := by
  obtain ⟨htop, hchild⟩ := ((rootIds_roots t).mem_iff root).mp hroot
  have hfresh : root ∉ t.entries.map (·.1) := by
    intro hmem
    obtain ⟨e, he, rfl⟩ := List.mem_map.mp hmem
    exact nomatch htop.symm.trans (links_eq_some.mpr he)
  have hnodup : (root :: t.entries.map (·.1)).Nodup := List.nodup_cons.mpr ⟨hfresh, t.oneEach⟩
  have hsub : root :: t.entries.map (·.1) ⊆ t.ids := by
    intro x hx
    rcases List.mem_cons.mp hx with rfl | hx
    · exact mem_ids.mpr (.inr hchild)
    · exact mem_distinct.mpr (List.mem_append_left _ hx)
  have hlength := (hnodup.subperm hsub).length_le
  rwa [List.length_cons, List.length_map] at hlength

end ParentTable

/-! ## The theorem -/

/-- From a root, no call goes deeper than there are ids, and no id is called for twice: not below
this root, and not below two roots. -/
theorem buildNode_visits_once (t : ParentTable) (root : ComponentConceptId)
    (hroot : root ∈ rootIds t.entries) :
    ∃ node : StructuralAstNode,
      (∀ fuel, t.ids.length ≤ fuel → buildNode (childrenOf t.entries) fuel root = some node) ∧
      node.nodes.Nodup ∧ (∀ x ∈ node.nodes, x ∈ t.ids) ∧
      ∀ day, node ∈ (buildStructuralAst day t).roots ∧ (buildStructuralAst day t).nodes.Nodup := by
  have hlists := childrenOf_lists t
  obtain ⟨htop, hchild⟩ := ((rootIds_roots t).mem_iff root).mp hroot
  have hends := RoseTree.grow_isSome hlists (links_mem_keys t) (.top htop)
    (show _ < t.entries.length + 1 + 0 by simp)
  obtain ⟨node, hnode⟩ := Option.isSome_iff_exists.mp hends
  have hmore : t.entries.length + 1 ≤ t.ids.length := ParentTable.length_entries_lt_ids hroot
  refine ⟨node, fun fuel hfuel => ?_, RoseTree.nodup_nodes_grow hlists (.top htop) hnode, ?_, ?_⟩
  · rw [buildNode_eq_grow]
    exact RoseTree.grow_mono hnode (hmore.trans hfuel)
  · intro x hx
    rw [ParentTable.mem_ids]
    rw [RoseTree.mem_nodes_grow hlists hnode] at hx
    by_cases hxn : t.links x = none
    · rw [atOrAbove_top hxn] at hx
      exact .inr (hx ▸ hchild)
    · exact .inl hxn
  · intro day
    refine ⟨?_, nodup_nodes_build day t⟩
    obtain ⟨hlabels, hgrown⟩ := buildStructuralAst_grown day t
    obtain ⟨n, hn, hlabel⟩ := List.mem_map.mp (hlabels ▸ hroot)
    have heq := hgrown n hn
    rw [hlabel, hnode] at heq
    exact Option.some.inj heq ▸ hn

/-! ### A root beside a cycle -/

namespace Sample

def annex : ComponentConceptId := ⟨"cc:annex", rfl⟩

/-- A statute with a chapter, and two components that are each other's parents. -/
def besideCycle : ParentTable where
  entries := [(chapter, statute), (article, annex), (annex, article)]
  oneEach := by decide

end Sample

theorem buildNode_visits_once_besideCycle : ∃ node : StructuralAstNode,
    (∀ fuel, Sample.besideCycle.ids.length ≤ fuel →
      buildNode (childrenOf Sample.besideCycle.entries) fuel Sample.statute = some node) ∧
    node.nodes.Nodup ∧ (∀ x ∈ node.nodes, x ∈ Sample.besideCycle.ids) ∧
    ∀ day, node ∈ (buildStructuralAst day Sample.besideCycle).roots ∧
      (buildStructuralAst day Sample.besideCycle).nodes.Nodup :=
  buildNode_visits_once Sample.besideCycle Sample.statute (by decide)

end LawNexus
