import LawNexus.Forest.Tree

/-!
# A forest cut down to some of its nodes

A node stays when it is wanted or when something below it stays. What is left are the nodes with
a wanted node at or below them, with their edges, in the old order.
-/

namespace LawNexus.Forest

open LawNexus.Loops

namespace RoseTree

variable {α : Type*}

/-! ## The pruning -/

mutual

def prune (wanted : α → Bool) : RoseTree α → Option (RoseTree α)
  | .node a ts =>
    let children := pruneAll wanted ts
    if wanted a ∨ children ≠ [] then some (.node a children) else none

def pruneAll (wanted : α → Bool) : List (RoseTree α) → List (RoseTree α)
  | [] => []
  | t :: ts => (prune wanted t).toList ++ pruneAll wanted ts

end

/-! ## Trees below a tree -/

@[elab_as_elim]
theorem induct {motive : RoseTree α → Prop}
    (node : ∀ a ts, (∀ t ∈ ts, motive t) → motive (.node a ts)) (t : RoseTree α) : motive t := by
  cases t with
  | node a ts =>
    refine node a ts fun t ht => ?_
    have hlt := List.sizeOf_lt_of_mem ht
    exact induct node t
termination_by t

mutual

/-- The tree of each node, in the order of the nodes. -/
def subtrees : RoseTree α → List (RoseTree α)
  | .node a ts => .node a ts :: subtreesOf ts

def subtreesOf : List (RoseTree α) → List (RoseTree α)
  | [] => []
  | t :: ts => t.subtrees ++ subtreesOf ts

end

theorem subtreesOf_eq (ts : List (RoseTree α)) : subtreesOf ts = ts.flatMap subtrees := by
  induction ts with
  | nil => rfl
  | cons t ts ih => rw [subtreesOf, List.flatMap_cons, ih]

theorem self_mem_subtrees (t : RoseTree α) : t ∈ t.subtrees := by
  cases t
  exact List.mem_cons_self

theorem nodes_eq_subtrees (t : RoseTree α) : t.nodes = t.subtrees.map label := by
  induction t using induct with
  | node a ts ih =>
    rw [nodes, subtrees, List.map_cons, nodesOf_eq, subtreesOf_eq, List.map_flatMap]
    exact congrArg (a :: ·) (List.flatMap_congr ih)

theorem nodesOf_eq_subtreesOf (ts : List (RoseTree α)) :
    nodesOf ts = (subtreesOf ts).map label := by
  rw [nodesOf_eq, subtreesOf_eq, List.map_flatMap]
  exact List.flatMap_congr fun t _ => nodes_eq_subtrees t

/-- The subtrees of a subtree are among the subtrees. -/
theorem subtrees_subset {s t : RoseTree α} (h : s ∈ t.subtrees) : s.subtrees ⊆ t.subtrees := by
  induction t using induct with
  | node a ts ih =>
    rw [subtrees, List.mem_cons, subtreesOf_eq, List.mem_flatMap] at h
    rcases h with rfl | ⟨t, ht, hs⟩
    · exact List.Subset.refl _
    · intro r hr
      rw [subtrees, List.mem_cons, subtreesOf_eq, List.mem_flatMap]
      exact Or.inr ⟨t, ht, ih t ht hs hr⟩

theorem mem_subtreesOf {s : RoseTree α} {ts : List (RoseTree α)} :
    s ∈ subtreesOf ts ↔ ∃ t ∈ ts, s ∈ t.subtrees := by
  rw [subtreesOf_eq, List.mem_flatMap]

theorem mem_subtrees_of_child {s t : RoseTree α} (h : t ∈ s.children) : t ∈ s.subtrees := by
  cases s with
  | node a ts =>
    rw [subtrees, List.mem_cons]
    exact Or.inr (mem_subtreesOf.mpr ⟨t, h, self_mem_subtrees t⟩)

theorem nodes_subset {s t : RoseTree α} (h : s ∈ t.subtrees) : s.nodes ⊆ t.nodes := by
  rw [nodes_eq_subtrees, nodes_eq_subtrees]
  exact List.map_subset label (subtrees_subset h)

/-! ## The edges with the trees at their ends -/

mutual

/-- The pairs of a parent and the tree of a child. -/
def links : RoseTree α → List (α × RoseTree α)
  | .node a ts => linksUnder a ts

def linksUnder (a : α) : List (RoseTree α) → List (α × RoseTree α)
  | [] => []
  | t :: ts => (a, t) :: (t.links ++ linksUnder a ts)

end

def edgeOf (e : α × RoseTree α) : α × α := (e.1, e.2.label)

theorem linksUnder_eq (a : α) (ts : List (RoseTree α)) :
    linksUnder a ts = ts.flatMap fun t => (a, t) :: t.links := by
  induction ts with
  | nil => rfl
  | cons t ts ih => rw [linksUnder, List.flatMap_cons, ih, List.cons_append]

theorem edges_eq_links (t : RoseTree α) : t.edges = t.links.map edgeOf := by
  induction t using induct with
  | node a ts ih =>
    rw [edges, links, edgesUnder_eq, linksUnder_eq, List.map_flatMap]
    exact List.flatMap_congr fun t ht => congrArg ((a, t.label) :: ·) (ih t ht)

/-- A link goes from a subtree to one of its children. -/
theorem mem_links {t : RoseTree α} {e : α × RoseTree α} :
    e ∈ t.links ↔ ∃ s ∈ t.subtrees, s.label = e.1 ∧ e.2 ∈ s.children := by
  induction t using induct with
  | node a ts ih =>
    rw [links, linksUnder_eq, List.mem_flatMap]
    constructor
    · rintro ⟨t, ht, he⟩
      rcases List.mem_cons.mp he with rfl | he
      · exact ⟨_, self_mem_subtrees _, rfl, ht⟩
      · obtain ⟨s, hs, hlabel, hchild⟩ := (ih t ht).mp he
        exact ⟨s, List.mem_cons_of_mem _ (mem_subtreesOf.mpr ⟨t, ht, hs⟩), hlabel, hchild⟩
    · rintro ⟨s, hs, hlabel, hchild⟩
      rcases List.mem_cons.mp hs with rfl | hs
      · exact ⟨e.2, hchild, List.mem_cons.mpr (Or.inl (Prod.ext hlabel.symm rfl))⟩
      · obtain ⟨t, ht, hs⟩ := mem_subtreesOf.mp hs
        exact ⟨t, ht, List.mem_cons_of_mem _ ((ih t ht).mpr ⟨s, hs, hlabel, hchild⟩)⟩

/-! ## What is left -/

/-- Something wanted stands in the tree. -/
def holds (wanted : α → Bool) (t : RoseTree α) : Bool := t.nodes.any wanted

variable {wanted : α → Bool} {t : RoseTree α} {ts : List (RoseTree α)}

theorem holds_iff : holds wanted t = true ↔ ∃ y ∈ t.nodes, wanted y = true := List.any_eq_true

theorem holds_node {a : α} :
    holds wanted (.node a ts) = (wanted a || ts.any (holds wanted)) := by
  rw [holds, nodes, List.any_cons, nodesOf_eq, List.any_flatMap]
  rfl

/-- Below a tree without a wanted node there is none. -/
theorem not_holds_of_subtree {s : RoseTree α} (hs : s ∈ t.subtrees) (h : ¬ holds wanted t = true) :
    ¬ holds wanted s = true := by
  intro hwanted
  obtain ⟨y, hy, hwanted⟩ := holds_iff.mp hwanted
  exact h (holds_iff.mpr ⟨y, nodes_subset hs hy, hwanted⟩)

/-- The tree with what is left below it. -/
def cut (wanted : α → Bool) (t : RoseTree α) : RoseTree α :=
  .node t.label (pruneAll wanted t.children)

mutual

theorem prune_eq : ∀ t : RoseTree α,
    prune wanted t = if holds wanted t then some (cut wanted t) else none
  | .node a ts => by
    have hchildren : pruneAll wanted ts ≠ [] ↔ ts.any (holds wanted) = true := by
      rw [pruneAll_eq ts, Ne, List.map_eq_nil_iff, List.filter_eq_nil_iff, List.any_eq_true]
      simp only [not_forall, not_not, exists_prop]
    simp only [prune, hchildren, holds_node, Bool.or_eq_true]
    rfl

theorem pruneAll_eq : ∀ ts : List (RoseTree α),
    pruneAll wanted ts = (ts.filter (holds wanted)).map (cut wanted)
  | [] => rfl
  | t :: ts => by
    rw [pruneAll, prune_eq t, pruneAll_eq ts]
    by_cases h : holds wanted t
    · rw [List.filter_cons_of_pos h, if_pos h]
      rfl
    · rw [List.filter_cons_of_neg h, if_neg h]
      rfl

end

theorem roots_pruneAll :
    (pruneAll wanted ts).map label = (ts.filter (holds wanted)).map label := by
  rw [pruneAll_eq, List.map_map]
  rfl

theorem nodes_cut (h : holds wanted t) :
    (cut wanted t).nodes = (t.subtrees.filter (holds wanted)).map label := by
  induction t using induct with
  | node a ts ih =>
    rw [subtrees, List.filter_cons_of_pos h, List.map_cons, subtreesOf_eq, List.filter_flatMap,
      List.map_flatMap, cut, nodes, nodesOf_eq, children, pruneAll_eq, List.flatMap_map]
    refine congrArg (a :: ·) (flatMap_filter_eq (fun t ht hheld => ih t ht hheld) ?_)
    intro t ht hfree
    rw [List.map_eq_nil_iff, List.filter_eq_nil_iff]
    exact fun s hs => not_holds_of_subtree hs hfree

/-- The nodes with something wanted in their trees are left. -/
theorem nodesOf_pruneAll :
    nodesOf (pruneAll wanted ts) = ((subtreesOf ts).filter (holds wanted)).map label := by
  rw [subtreesOf_eq, List.filter_flatMap, List.map_flatMap, nodesOf_eq, pruneAll_eq,
    List.flatMap_map]
  refine flatMap_filter_eq (fun t _ hheld => nodes_cut hheld) fun t _ hfree => ?_
  rw [List.map_eq_nil_iff, List.filter_eq_nil_iff]
  exact fun s hs => not_holds_of_subtree hs hfree

theorem links_free (h : ¬ holds wanted t = true) :
    t.links.filter (fun e => holds wanted e.2) = [] := by
  rw [List.filter_eq_nil_iff]
  intro e he
  obtain ⟨s, hs, -, hchild⟩ := mem_links.mp he
  exact not_holds_of_subtree (subtrees_subset hs (mem_subtrees_of_child hchild)) h

theorem edges_cut :
    (cut wanted t).edges = (t.links.filter fun e => holds wanted e.2).map edgeOf := by
  induction t using induct with
  | node a ts ih =>
    rw [links, linksUnder_eq, List.filter_flatMap, List.map_flatMap, cut, edges, edgesUnder_eq,
      children, label, pruneAll_eq, List.flatMap_map]
    refine flatMap_filter_eq (fun t ht hheld => ?_) fun t ht hfree => ?_
    · rw [List.filter_cons_of_pos (p := fun e : α × RoseTree α => holds wanted e.2) hheld, ih t ht]
      rfl
    · rw [List.filter_cons_of_neg (p := fun e : α × RoseTree α => holds wanted e.2) hfree,
        links_free hfree]
      rfl

/-- The edges to these nodes are left. -/
theorem edges_pruneAll : (pruneAll wanted ts).flatMap edges =
    ((ts.flatMap links).filter fun e => holds wanted e.2).map edgeOf := by
  rw [List.filter_flatMap, List.map_flatMap, pruneAll_eq, List.flatMap_map]
  refine flatMap_filter_eq (fun t _ _ => edges_cut) fun t _ hfree => ?_
  rw [links_free hfree]
  rfl

/-! ## Nodes at or below a node -/

/-- A chain of edges leads down from one node to the other. -/
def Below (edges : List (α × α)) : α → α → Prop :=
  Relation.ReflTransGen fun p c => (p, c) ∈ edges

theorem mem_edges_of_subtree {s : RoseTree α} (hs : s ∈ subtreesOf ts) {p c : α}
    (h : (p, c) ∈ s.edges) : (p, c) ∈ ts.flatMap edges := by
  rw [edges_eq_links, List.mem_map] at h
  obtain ⟨e, he, heq⟩ := h
  obtain ⟨r, hr, hlabel, hchild⟩ := mem_links.mp he
  obtain ⟨t, ht, hst⟩ := mem_subtreesOf.mp hs
  refine List.mem_flatMap.mpr ⟨t, ht, ?_⟩
  rw [edges_eq_links, List.mem_map]
  exact ⟨e, mem_links.mpr ⟨r, subtrees_subset hst hr, hlabel, hchild⟩, heq⟩

theorem below_of_mem_nodes {s : RoseTree α} {y : α} (hs : s ∈ subtreesOf ts) (hy : y ∈ s.nodes) :
    Below (ts.flatMap edges) s.label y := by
  induction s using induct with
  | node a cs ih =>
    rw [nodes, List.mem_cons, nodesOf_eq, List.mem_flatMap] at hy
    rcases hy with rfl | ⟨c, hc, hy⟩
    · exact .refl
    · have hedge : (a, c.label) ∈ ts.flatMap edges := by
        refine mem_edges_of_subtree hs ?_
        rw [edges_eq_links, List.mem_map]
        exact ⟨(a, c), mem_links.mpr ⟨_, self_mem_subtrees _, rfl, hc⟩, rfl⟩
      obtain ⟨t, ht, hst⟩ := mem_subtreesOf.mp hs
      have hc' : c ∈ subtreesOf ts :=
        mem_subtreesOf.mpr ⟨t, ht, subtrees_subset hst (mem_subtrees_of_child hc)⟩
      exact .head hedge (ih c hc hc' hy)

/-- In a forest without repeated nodes, the tree of a node holds what is below the node. -/
theorem mem_nodes_iff_below (hnd : (nodesOf ts).Nodup) {s : RoseTree α} {y : α}
    (hs : s ∈ subtreesOf ts) : y ∈ s.nodes ↔ Below (ts.flatMap edges) s.label y := by
  refine ⟨below_of_mem_nodes hs, fun h => ?_⟩
  rw [nodesOf_eq_subtreesOf] at hnd
  generalize hx : s.label = x at h
  induction h using Relation.ReflTransGen.head_induction_on generalizing s with
  | refl =>
    rw [nodes_eq_subtrees, ← hx]
    exact List.mem_map_of_mem (self_mem_subtrees s)
  | @head p c hedge _ ih =>
    obtain ⟨t, ht, hedge⟩ := List.mem_flatMap.mp hedge
    rw [edges_eq_links, List.mem_map] at hedge
    obtain ⟨⟨_, child⟩, he, heq⟩ := hedge
    obtain ⟨rfl, rfl⟩ := Prod.mk.inj heq
    obtain ⟨r, hr, hlabel, hchild⟩ := mem_links.mp he
    obtain rfl : r = s := List.inj_on_of_nodup_map hnd (mem_subtreesOf.mpr ⟨t, ht, hr⟩) hs
      (hlabel.trans hx.symm)
    have hchild' := mem_subtrees_of_child hchild
    exact nodes_subset hchild' (ih (mem_subtreesOf.mpr ⟨t, ht, subtrees_subset hr hchild'⟩) rfl)

/-! ## The kept part of a forest -/

/-- Something wanted is at the node or below it. -/
def Kept (wanted : α → Bool) (ts : List (RoseTree α)) (x : α) : Prop :=
  ∃ y, Below (ts.flatMap edges) x y ∧ wanted y = true

section

variable (hnd : (nodesOf ts).Nodup)

include hnd

theorem holds_iff_kept {s : RoseTree α} (hs : s ∈ subtreesOf ts) :
    holds wanted s = true ↔ Kept wanted ts s.label := by
  rw [holds_iff, Kept]
  exact exists_congr fun y => and_congr_left fun _ => mem_nodes_iff_below hnd hs

open scoped Classical in
theorem nodesOf_pruneAll_eq_filter :
    nodesOf (pruneAll wanted ts) = (nodesOf ts).filter fun x => Kept wanted ts x := by
  rw [nodesOf_pruneAll, nodesOf_eq_subtreesOf, List.filter_map]
  refine congrArg (List.map label) (List.filter_congr fun s hs => ?_)
  rw [Bool.eq_iff_iff, holds_iff_kept hnd hs]
  exact decide_eq_true_iff.symm

open scoped Classical in
theorem edges_pruneAll_eq_filter : (pruneAll wanted ts).flatMap edges =
    (ts.flatMap edges).filter fun e => Kept wanted ts e.2 := by
  have hedges : ts.flatMap edges = (ts.flatMap links).map edgeOf := by
    rw [List.map_flatMap]
    exact List.flatMap_congr fun t _ => edges_eq_links t
  rw [edges_pruneAll, hedges, List.filter_map]
  refine congrArg (List.map edgeOf) (List.filter_congr fun e he => ?_)
  obtain ⟨t, ht, he⟩ := List.mem_flatMap.mp he
  obtain ⟨s, hs, -, hchild⟩ := mem_links.mp he
  have hmem : e.2 ∈ subtreesOf ts :=
    mem_subtreesOf.mpr ⟨t, ht, subtrees_subset hs (mem_subtrees_of_child hchild)⟩
  rw [Bool.eq_iff_iff, holds_iff_kept hnd hmem]
  exact decide_eq_true_iff.symm

open scoped Classical in
theorem roots_pruneAll_eq_filter :
    (pruneAll wanted ts).map label = (ts.map label).filter fun x => Kept wanted ts x := by
  rw [roots_pruneAll, List.filter_map]
  refine congrArg (List.map label) (List.filter_congr fun t ht => ?_)
  rw [Bool.eq_iff_iff, holds_iff_kept hnd (mem_subtreesOf.mpr ⟨t, ht, self_mem_subtrees t⟩)]
  exact decide_eq_true_iff.symm

end

end RoseTree

end LawNexus.Forest
