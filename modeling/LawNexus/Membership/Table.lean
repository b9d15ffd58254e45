import LawNexus.Forest.Tree
import LawNexus.Ids

/-!
# The table of parents, and the tree that is built from it

The second half of a fold: `build_structural_ast` and `build_node`. The replay keeps one
entry for each child, and that is why the recursion of `build_node` ends: it has no depth
limit and no record of the nodes it has seen.
-/

namespace LawNexus

open Forest Loops

/-- `parent_of`: pairs of a child and its parent, with one pair for each child. -/
structure ParentTable where
  entries : List (ComponentConceptId × ComponentConceptId)
  oneEach : (entries.map (·.1)).Nodup

namespace ParentTable

def empty : ParentTable := ⟨[], List.nodup_nil⟩

def detach (t : ParentTable) (child parent : ComponentConceptId) : ParentTable where
  entries := t.entries.filter fun e => ¬ (e.1 = child ∧ e.2 = parent)
  oneEach := t.oneEach.sublist (List.filter_sublist.map _)

def attach (t : ParentTable) (child parent : ComponentConceptId) : ParentTable where
  entries := t.entries.filter (fun e => e.1 ≠ child) ++ [(child, parent)]
  oneEach := by
    rw [List.map_append, List.nodup_append]
    refine ⟨t.oneEach.sublist (List.filter_sublist.map _), List.nodup_singleton _, ?_⟩
    rintro c hc d hd rfl
    obtain ⟨e, he, rfl⟩ := List.mem_map.mp hc
    simp only [List.map_cons, List.map_nil, List.mem_singleton] at hd
    simp [hd] at he

/-! ## The table as parent links -/

def links (t : ParentTable) : Links ComponentConceptId := fun child =>
  (t.entries.find? fun e => e.1 = child).map (·.2)

theorem links_eq_some {t : ParentTable} {c p : ComponentConceptId} :
    t.links c = some p ↔ (c, p) ∈ t.entries := by
  unfold links
  constructor
  · intro h
    obtain ⟨⟨c', p'⟩, he, rfl⟩ := Option.map_eq_some_iff.mp h
    have hc : c' = c := by simpa using List.find?_some he
    exact hc ▸ List.mem_of_find?_eq_some he
  · intro h
    cases hf : t.entries.find? fun e => e.1 = c with
    | none => simpa using List.find?_eq_none.mp hf _ h
    | some e =>
      have hc : e.1 = c := by simpa using List.find?_some hf
      have := List.inj_on_of_nodup_map t.oneEach (List.mem_of_find?_eq_some hf) h hc
      rw [this]
      rfl

theorem links_detach (t : ParentTable) (child parent : ComponentConceptId) :
    (t.detach child parent).links = t.links.detach child parent := by
  funext c
  apply Option.ext
  intro p
  simp only [Links.detach_eq_some, links_eq_some, detach, List.mem_filter,
    decide_eq_true_eq]

theorem links_attach (t : ParentTable) (child parent : ComponentConceptId) :
    (t.attach child parent).links = t.links.attach child parent := by
  funext c
  apply Option.ext
  intro p
  simp only [Links.attach_eq_some, links_eq_some, attach, List.mem_append,
    List.mem_filter, List.mem_singleton, Prod.mk.injEq, ne_eq, decide_eq_true_eq]
  rw [and_comm (a := ¬ c = child)]

/-- Two tables with the same links differ in the order of their entries only. -/
theorem perm_of_links_eq {t t' : ParentTable} (h : t.links = t'.links) :
    t.entries.Perm t'.entries := by
  rw [List.perm_ext_iff_of_nodup (.of_map _ t.oneEach) (.of_map _ t'.oneEach)]
  rintro ⟨c, p⟩
  rw [← links_eq_some, ← links_eq_some, h]

end ParentTable

/-! ## The children of each parent -/

/-- Puts the child under its parent, where the parent has an entry, and else at the end. -/
def addKid (parent child : ComponentConceptId) :
    List (ComponentConceptId × List ComponentConceptId) →
      List (ComponentConceptId × List ComponentConceptId)
  | [] => [(parent, [child])]
  | (p, kids) :: rest =>
    if p = parent then (p, pushNew kids child) :: rest else (p, kids) :: addKid parent child rest

def childrenOf (parentOf : List (ComponentConceptId × ComponentConceptId)) :
    List (ComponentConceptId × List ComponentConceptId) :=
  (parentOf.foldl (fun acc e => addKid e.2 e.1 acc) []).map fun (p, kids) =>
    (p, sortBy (·.asStr) kids)

def kidsIn (childrenOf : List (ComponentConceptId × List ComponentConceptId))
    (id : ComponentConceptId) : List ComponentConceptId :=
  ((childrenOf.find? fun e => e.1 = id).map (·.2)).getD []

section

variable {acc : List (ComponentConceptId × List ComponentConceptId)}
  {parent child id : ComponentConceptId}

theorem kidsIn_addKid : kidsIn (addKid parent child acc) id =
    if parent = id then pushNew (kidsIn acc id) child else kidsIn acc id := by
  induction acc with
  | nil =>
    by_cases h : parent = id
    · simp [addKid, kidsIn, h, pushNew]
    · simp [addKid, kidsIn, h]
  | cons e rest ih =>
    obtain ⟨p, kids⟩ := e
    unfold kidsIn at ih ⊢
    by_cases hp : p = parent
    · subst hp
      by_cases h : p = id
      · simp [addKid, h]
      · simp [addKid, h]
    · by_cases h : p = id
      · subst h
        simp [addKid, hp, Ne.symm hp]
      · simp [addKid, hp, h, ih]

theorem kidsIn_foldl_addKid (entries : List (ComponentConceptId × ComponentConceptId))
    (acc : List (ComponentConceptId × List ComponentConceptId)) (id : ComponentConceptId) :
    kidsIn (entries.foldl (fun acc e => addKid e.2 e.1 acc) acc) id =
      ((entries.filter fun e => e.2 = id).map (·.1)).foldl pushNew (kidsIn acc id) := by
  induction entries generalizing acc with
  | nil => rfl
  | cons e rest ih =>
    rw [List.foldl_cons, ih, kidsIn_addKid]
    by_cases h : e.2 = id <;> simp [h]

end

theorem kidsIn_childrenOf (parentOf : List (ComponentConceptId × ComponentConceptId))
    (id : ComponentConceptId) : kidsIn (childrenOf parentOf) id =
      sortBy (·.asStr) (distinct ((parentOf.filter fun e => e.2 = id).map (·.1))) := by
  have hacc := kidsIn_foldl_addKid parentOf [] id
  rw [show kidsIn [] id = [] from rfl] at hacc
  rw [distinct, ← hacc, childrenOf]
  generalize parentOf.foldl (fun acc e => addKid e.2 e.1 acc) [] = l
  simp only [kidsIn, List.find?_map, Function.comp_def, Option.map_map]
  cases l.find? fun e => e.1 = id <;> rfl

/-- The children that `build_node` finds are those that the links give to the node. -/
theorem childrenOf_lists (t : ParentTable) :
    RoseTree.Lists (kidsIn (childrenOf t.entries)) t.links where
  mem_iff p c := by
    rw [kidsIn_childrenOf, mem_sortBy, mem_distinct, ParentTable.links_eq_some]
    simp
  nodup p := by
    rw [kidsIn_childrenOf]
    exact (sortBy_perm _ _).nodup_iff.mpr (nodup_distinct _)

theorem kidsIn_congr {parentOf parentOf' : List (ComponentConceptId × ComponentConceptId)}
    (h : parentOf.Perm parentOf') :
    kidsIn (childrenOf parentOf) = kidsIn (childrenOf parentOf') := by
  funext id
  rw [kidsIn_childrenOf, kidsIn_childrenOf]
  refine sortBy_eq_of_perm ComponentConceptId.asStr_injective.injOn ?_
  rw [List.perm_ext_iff_of_nodup (nodup_distinct _) (nodup_distinct _)]
  intro c
  rw [mem_distinct, mem_distinct, ((h.filter _).map _).mem_iff]

/-! ## The tree -/

abbrev StructuralAstNode := RoseTree ComponentConceptId

/-- The fuel bounds the depth of the recursion, which the source leaves open. -/
def buildNode (childrenOf : List (ComponentConceptId × List ComponentConceptId)) :
    Nat → ComponentConceptId → Option StructuralAstNode
  | 0, _ => none
  | fuel + 1, id =>
    ((kidsIn childrenOf id).mapM (buildNode childrenOf fuel)).map (.node id)

theorem buildNode_eq_grow (childrenOf : List (ComponentConceptId × List ComponentConceptId))
    (fuel : Nat) : buildNode childrenOf fuel = RoseTree.grow (kidsIn childrenOf) fuel := by
  induction fuel with
  | zero => rfl
  | succ fuel ih =>
    funext id
    rw [buildNode, RoseTree.grow, ih]

/-- The parents that are the child of nothing. -/
def rootIds (parentOf : List (ComponentConceptId × ComponentConceptId)) :
    List ComponentConceptId :=
  let childSet := distinct (parentOf.map (·.1))
  let parentSet := distinct (parentOf.map (·.2))
  sortBy (·.asStr) (parentSet.filter fun p => p ∉ childSet)

theorem rootIds_roots (t : ParentTable) : RoseTree.Roots (rootIds t.entries) t.links where
  mem_iff r := by
    have hnone : t.links r = none ↔ ∀ p, (r, p) ∉ t.entries := by
      simp only [Option.eq_none_iff_forall_ne_some, ne_eq, ParentTable.links_eq_some]
    simp only [rootIds, mem_sortBy, List.mem_filter, mem_distinct, List.mem_map, Prod.exists,
      exists_eq_right, decide_eq_true_eq, not_exists, hnone, ParentTable.links_eq_some]
    rw [and_comm]
    refine and_congr ?_ Iff.rfl
    constructor
    · intro h p hp
      exact h r p ⟨hp, rfl⟩
    · rintro h x p ⟨hp, rfl⟩
      exact h p hp
  nodup := (sortBy_perm _ _).nodup_iff.mpr ((nodup_distinct _).filter _)

theorem rootIds_congr {parentOf parentOf' : List (ComponentConceptId × ComponentConceptId)}
    (h : parentOf.Perm parentOf') : rootIds parentOf = rootIds parentOf' := by
  refine sortBy_eq_of_perm ComponentConceptId.asStr_injective.injOn ?_
  rw [List.perm_ext_iff_of_nodup ((nodup_distinct _).filter _) ((nodup_distinct _).filter _)]
  intro r
  simp only [List.mem_filter, mem_distinct, (h.map _).mem_iff]

theorem links_mem_keys (t : ParentTable) (x : ComponentConceptId) (h : t.links x ≠ none) :
    x ∈ t.entries.map (·.1) := by
  obtain ⟨p, hp⟩ := Option.ne_none_iff_exists'.mp h
  exact List.mem_map_of_mem (ParentTable.links_eq_some.mp hp)

/-- From a root the recursion comes back: one level more than there are entries is enough. -/
theorem buildNode_rootIds (t : ParentTable) :
    ((rootIds t.entries).mapM
      (buildNode (childrenOf t.entries) (t.entries.length + 1))).isSome := by
  refine mapM_isSome fun r hr => ?_
  rw [buildNode_eq_grow]
  have htop := ((rootIds_roots t).mem_iff r).mp hr
  refine RoseTree.grow_isSome (childrenOf_lists t) (links_mem_keys t) (.top htop.1) ?_
  simp

structure StructuralAst where
  asOfDay : Int
  roots : List StructuralAstNode
  nonClaims : List String

def foldNonClaims : List String :=
  ["StructuralAst is a fold projection, not canon and not a stored document tree",
   "Versioned membership is not CTV text resolution or legal amendment correctness",
   "Tree presence does not imply ForceStatus InForce",
   "Not Expression binding, not Manifestation, not applicability, not corpus proof",
   "Lifecycle [proposed]; TSG-013 fold spine; not O3 representative fixtures"]

def buildStructuralAst (asOfDay : Int) (t : ParentTable) : StructuralAst where
  asOfDay := asOfDay
  roots := ((rootIds t.entries).mapM
    (buildNode (childrenOf t.entries) (t.entries.length + 1))).get (buildNode_rootIds t)
  nonClaims := foldNonClaims

/-! ## What the tree holds -/

namespace StructuralAst

def nodes (ast : StructuralAst) : List ComponentConceptId := RoseTree.nodesOf ast.roots

def edges (ast : StructuralAst) : List (ComponentConceptId × ComponentConceptId) :=
  ast.roots.flatMap RoseTree.edges

theorem length_nodes (ast : StructuralAst) :
    ast.nodes.length = ast.edges.length + ast.roots.length := RoseTree.length_nodesOf ast.roots

end StructuralAst

section

variable {t t' : ParentTable} {day : Int} {x p c : ComponentConceptId}

theorem buildStructuralAst_grown (day : Int) (t : ParentTable) :
    (buildStructuralAst day t).roots.map RoseTree.label = rootIds t.entries ∧
      ∀ n ∈ (buildStructuralAst day t).roots,
        RoseTree.grow (kidsIn (childrenOf t.entries)) (t.entries.length + 1) n.label = some n := by
  have h : (rootIds t.entries).mapM (buildNode (childrenOf t.entries) (t.entries.length + 1)) =
      some (buildStructuralAst day t).roots := (Option.some_get _).symm
  rw [buildNode_eq_grow] at h
  exact RoseTree.mapM_grow h

theorem mem_nodes_build : x ∈ (buildStructuralAst day t).nodes ↔
    Grounded t.links x ∧ (t.links x ≠ none ∨ ∃ c, t.links c = some x) := by
  obtain ⟨hlabels, hgrown⟩ := buildStructuralAst_grown day t
  exact RoseTree.mem_nodesOf_forest (childrenOf_lists t) (rootIds_roots t) hlabels hgrown

theorem mem_edges_build :
    (p, c) ∈ (buildStructuralAst day t).edges ↔ t.links c = some p ∧ Grounded t.links c := by
  obtain ⟨hlabels, hgrown⟩ := buildStructuralAst_grown day t
  exact RoseTree.mem_edges_forest (childrenOf_lists t) (rootIds_roots t) hlabels hgrown

theorem nodup_nodes_build (day : Int) (t : ParentTable) :
    (buildStructuralAst day t).nodes.Nodup := by
  obtain ⟨hlabels, hgrown⟩ := buildStructuralAst_grown day t
  exact RoseTree.nodup_nodesOf_forest (childrenOf_lists t) (rootIds_roots t) hlabels hgrown

theorem nodup_edges_build (day : Int) (t : ParentTable) :
    (buildStructuralAst day t).edges.Nodup :=
  RoseTree.nodup_edges_forest (nodup_nodes_build day t)

/-- The tree depends on the links only, not on the order of the entries. -/
theorem buildStructuralAst_congr (h : t.links = t'.links) :
    buildStructuralAst day t = buildStructuralAst day t' := by
  have hperm := ParentTable.perm_of_links_eq h
  simp only [buildStructuralAst, buildNode_eq_grow, rootIds_congr hperm, kidsIn_congr hperm,
    hperm.length_eq]

end

end LawNexus
