import LawNexus.Forest.Links
import LawNexus.Loops

/-!
# Trees grown from a table of children

A recursion that looks up the children of a node and calls itself on each of them, with no
record of where it has been. It ends, and meets no node twice, when the children come from
parent links and the recursion starts from a node without a parent.
-/

namespace LawNexus.Forest

open LawNexus.Loops

variable {α : Type*}

inductive RoseTree (α : Type*)
  | node (label : α) (children : List (RoseTree α))

namespace RoseTree

def label : RoseTree α → α
  | .node a _ => a

def children : RoseTree α → List (RoseTree α)
  | .node _ ts => ts

/-! ## Nodes and edges -/

mutual

/-- The labels, each node before the nodes below it. -/
def nodes : RoseTree α → List α
  | .node a ts => a :: nodesOf ts

def nodesOf : List (RoseTree α) → List α
  | [] => []
  | t :: ts => t.nodes ++ nodesOf ts

end

mutual

/-- The pairs of a parent and a child. -/
def edges : RoseTree α → List (α × α)
  | .node a ts => edgesUnder a ts

def edgesUnder (a : α) : List (RoseTree α) → List (α × α)
  | [] => []
  | t :: ts => (a, t.label) :: (t.edges ++ edgesUnder a ts)

end

theorem nodesOf_eq (ts : List (RoseTree α)) : nodesOf ts = ts.flatMap nodes := by
  induction ts with
  | nil => rfl
  | cons t ts ih => rw [nodesOf, List.flatMap_cons, ih]

theorem edgesUnder_eq (a : α) (ts : List (RoseTree α)) :
    edgesUnder a ts = ts.flatMap fun t => (a, t.label) :: t.edges := by
  induction ts with
  | nil => rfl
  | cons t ts ih => rw [edgesUnder, List.flatMap_cons, ih, List.cons_append]

mutual

/-- Each node but the first is the child of one edge. -/
theorem nodes_eq_edges : ∀ t : RoseTree α, t.nodes = t.label :: t.edges.map (·.2)
  | .node a ts => by rw [nodes, edges, label, nodesOf_eq_edgesUnder a ts]

theorem nodesOf_eq_edgesUnder (a : α) : ∀ ts : List (RoseTree α),
    nodesOf ts = (edgesUnder a ts).map (·.2)
  | [] => rfl
  | t :: ts => by
    rw [nodesOf, edgesUnder, List.map_cons, List.map_append, nodes_eq_edges t,
      nodesOf_eq_edgesUnder a ts, List.cons_append]

end

/-! ## Growing -/

/-- One call for each node. The fuel bounds the depth of the recursion. -/
def grow (kids : α → List α) : Nat → α → Option (RoseTree α)
  | 0, _ => none
  | fuel + 1, a => ((kids a).mapM (grow kids fuel)).map (node a)

variable {kids : α → List α} {m : Links α}

theorem label_grow {fuel : Nat} {a : α} {t : RoseTree α} (h : grow kids fuel a = some t) :
    t.label = a := by
  cases fuel with
  | zero => simp [grow] at h
  | succ fuel =>
    simp only [grow, Option.map_eq_some_iff] at h
    obtain ⟨ts, -, rfl⟩ := h
    rfl

/-- The trees of a list of nodes carry the nodes as their labels, in order. -/
theorem mapM_grow {fuel : Nat} {as : List α} {ts : List (RoseTree α)}
    (h : as.mapM (grow kids fuel) = some ts) :
    ts.map label = as ∧ ∀ t ∈ ts, grow kids fuel t.label = some t := by
  rw [mapM_eq_some_iff] at h
  induction h with
  | nil => exact ⟨rfl, by simp⟩
  | cons ha _ ih =>
    have hlabel := label_grow ha
    refine ⟨by rw [List.map_cons, hlabel, ih.1], ?_⟩
    rintro t ht
    rcases List.mem_cons.mp ht with rfl | ht
    · rw [hlabel, ha]
    · exact ih.2 t ht

theorem grow_cases {fuel : Nat} {a : α} {t : RoseTree α} (h : grow kids fuel a = some t) :
    ∃ n ts, fuel = n + 1 ∧ t = .node a ts ∧ ts.map label = kids a ∧
      ∀ t ∈ ts, grow kids n t.label = some t := by
  cases fuel with
  | zero => simp [grow] at h
  | succ n =>
    simp only [grow, Option.map_eq_some_iff] at h
    obtain ⟨ts, hts, rfl⟩ := h
    obtain ⟨hlabels, hgrown⟩ := mapM_grow hts
    exact ⟨n, ts, rfl, rfl, hlabels, hgrown⟩

/-- The table lists the children that the links give to each node, once each. -/
structure Lists (kids : α → List α) (m : Links α) : Prop where
  mem_iff : ∀ p c, c ∈ kids p ↔ m c = some p
  nodup : ∀ p, (kids p).Nodup

/-- More fuel than there are nodes with a parent is enough below a node at a known depth. -/
theorem grow_isSome (hk : Lists kids m) {keys : List α} (hkeys : ∀ x, m x ≠ none → x ∈ keys)
    {fuel n : Nat} {a : α} (ha : Depth m a n) (hfuel : keys.length < fuel + n) :
    (grow kids fuel a).isSome := by
  induction fuel generalizing a n with
  | zero =>
    have := ha.le_length hkeys
    omega
  | succ fuel ih =>
    rw [grow, Option.isSome_map]
    refine mapM_isSome fun c hc => ?_
    exact ih (.under ((hk.mem_iff a c).mp hc) ha) (by omega)

/-! ### What a grown tree holds -/

theorem atOrAbove_child_iff {a x : α} :
    AtOrAbove m a x ↔ x = a ∨ ∃ c, m c = some a ∧ AtOrAbove m c x := by
  unfold AtOrAbove
  rw [Relation.ReflTransGen.cases_head_iff, eq_comm]
  rfl

variable {fuel : Nat} {a x p c : α} {t : RoseTree α} {ts : List (RoseTree α)}

theorem mem_nodesOf_grown (hk : Lists kids m) (hlabels : ts.map label = kids a)
    (hts : ∀ t ∈ ts, x ∈ t.nodes ↔ AtOrAbove m t.label x) :
    x ∈ nodesOf ts ↔ ∃ c, m c = some a ∧ AtOrAbove m c x := by
  rw [nodesOf_eq, List.mem_flatMap]
  constructor
  · rintro ⟨t, ht, hx⟩
    have hc : t.label ∈ kids a := hlabels ▸ List.mem_map_of_mem ht
    exact ⟨t.label, (hk.mem_iff a _).mp hc, (hts t ht).mp hx⟩
  · rintro ⟨c, hc, hx⟩
    rw [← hk.mem_iff, ← hlabels] at hc
    obtain ⟨t, ht, rfl⟩ := List.mem_map.mp hc
    exact ⟨t, ht, (hts t ht).mpr hx⟩

theorem mem_nodes_grow (hk : Lists kids m) (h : grow kids fuel a = some t) :
    x ∈ t.nodes ↔ AtOrAbove m a x := by
  induction fuel generalizing a t with
  | zero => simp [grow] at h
  | succ fuel ih =>
    obtain ⟨_, ts, hn, rfl, hlabels, hgrown⟩ := grow_cases h
    obtain rfl := Nat.succ.inj hn
    rw [nodes, List.mem_cons, atOrAbove_child_iff,
      mem_nodesOf_grown hk hlabels fun t ht => ih (hgrown t ht)]

theorem mem_edges_grow (hk : Lists kids m) (h : grow kids fuel a = some t) :
    (p, c) ∈ t.edges ↔ m c = some p ∧ AtOrAbove m a p := by
  induction fuel generalizing a t with
  | zero => simp [grow] at h
  | succ fuel ih =>
    obtain ⟨_, ts, hn, rfl, hlabels, hgrown⟩ := grow_cases h
    obtain rfl := Nat.succ.inj hn
    rw [edges, edgesUnder_eq, List.mem_flatMap, atOrAbove_child_iff]
    constructor
    · rintro ⟨t, ht, hpc⟩
      have ha := (hk.mem_iff a t.label).mp (hlabels ▸ List.mem_map_of_mem ht)
      rcases List.mem_cons.mp hpc with heq | hpc
      · obtain ⟨rfl, rfl⟩ := Prod.mk.inj heq
        exact ⟨ha, Or.inl rfl⟩
      · obtain ⟨hc, hp⟩ := (ih (hgrown t ht)).mp hpc
        exact ⟨hc, Or.inr ⟨t.label, ha, hp⟩⟩
    · have child : ∀ {k}, m k = some a → ∃ t ∈ ts, t.label = k := by
        intro k hkid
        rw [← hk.mem_iff, ← hlabels] at hkid
        exact List.mem_map.mp hkid
      rintro ⟨hc, rfl | ⟨k, hka, hp⟩⟩
      · obtain ⟨t, ht, rfl⟩ := child hc
        exact ⟨t, ht, List.mem_cons_self⟩
      · obtain ⟨t, ht, rfl⟩ := child hka
        exact ⟨t, ht, List.mem_cons_of_mem _ ((ih (hgrown t ht)).mpr ⟨hc, hp⟩)⟩

/-- Trees grown from different nodes of one depth have no node in common. -/
theorem nodup_nodesOf_grown {n : Nat} (hk : Lists kids m) (hnd : (ts.map label).Nodup)
    (hgrown : ∀ t ∈ ts, grow kids fuel t.label = some t)
    (hdepth : ∀ t ∈ ts, Depth m t.label n) (hts : ∀ t ∈ ts, t.nodes.Nodup) :
    (nodesOf ts).Nodup := by
  rw [nodesOf_eq, List.nodup_flatMap]
  refine ⟨hts, ?_⟩
  refine (List.pairwise_map.mp hnd).imp_of_mem ?_
  intro s t hs ht hne x hxs hxt
  rw [mem_nodes_grow hk (hgrown s hs)] at hxs
  rw [mem_nodes_grow hk (hgrown t ht)] at hxt
  obtain ⟨k, hx⟩ := (hdepth s hs).downward hxs
  exact hne (eq_of_atOrAbove hx (hdepth s hs) (hdepth t ht) hxs hxt)

theorem nodup_nodes_grow {n : Nat} (hk : Lists kids m) (ha : Depth m a n)
    (h : grow kids fuel a = some t) : t.nodes.Nodup := by
  induction fuel generalizing a n t with
  | zero => simp [grow] at h
  | succ fuel ih =>
    obtain ⟨_, ts, hn, rfl, hlabels, hgrown⟩ := grow_cases h
    obtain rfl := Nat.succ.inj hn
    have hparent : ∀ t ∈ ts, m t.label = some a := fun t ht =>
      (hk.mem_iff a _).mp (hlabels ▸ List.mem_map_of_mem ht)
    have hdepth : ∀ t ∈ ts, Depth m t.label (n + 1) := fun t ht => .under (hparent t ht) ha
    rw [nodes, List.nodup_cons]
    constructor
    · rw [nodesOf_eq, List.mem_flatMap]
      rintro ⟨t, ht, hmem⟩
      rw [mem_nodes_grow hk (hgrown t ht)] at hmem
      refine Grounded.not_above_self ⟨n, ha⟩ ?_
      exact Relation.TransGen.head' (hparent t ht) hmem
    · exact nodup_nodesOf_grown hk (hlabels ▸ hk.nodup a) hgrown hdepth
        fun t ht => ih (hdepth t ht) (hgrown t ht)

/-! ## All the trees of a forest -/

/-- The roots are the nodes that have a child and no parent. -/
structure Roots (roots : List α) (m : Links α) : Prop where
  mem_iff : ∀ r, r ∈ roots ↔ m r = none ∧ ∃ c, m c = some r
  nodup : roots.Nodup

section

variable {roots : List α} (hk : Lists kids m) (hr : Roots roots m)
  (hlabels : ts.map label = roots) (hgrown : ∀ t ∈ ts, grow kids fuel t.label = some t)

include hk hr hlabels hgrown

/-- The forest holds the nodes of every edge whose links upwards come to an end. -/
theorem mem_nodesOf_forest :
    x ∈ nodesOf ts ↔ Grounded m x ∧ (m x ≠ none ∨ ∃ c, m c = some x) := by
  rw [nodesOf_eq, List.mem_flatMap]
  constructor
  · rintro ⟨t, ht, hx⟩
    rw [mem_nodes_grow hk (hgrown t ht)] at hx
    obtain ⟨htop, hchild⟩ := (hr.mem_iff t.label).mp (hlabels ▸ List.mem_map_of_mem ht)
    refine ⟨(grounded_top htop).downward hx, ?_⟩
    by_cases hxn : m x = none
    · rw [atOrAbove_top hxn] at hx
      exact Or.inr (hx ▸ hchild)
    · exact Or.inl hxn
  · rintro ⟨hg, hlink⟩
    obtain ⟨r, hrn, hrx⟩ := hg.exists_top
    have hroot : r ∈ roots := by
      rw [hr.mem_iff]
      refine ⟨hrn, ?_⟩
      rcases atOrAbove_child_iff.mp hrx with rfl | ⟨c, hc, -⟩
      · exact hlink.resolve_left (not_not_intro hrn)
      · exact ⟨c, hc⟩
    obtain ⟨t, ht, rfl⟩ := List.mem_map.mp (hlabels ▸ hroot)
    exact ⟨t, ht, (mem_nodes_grow hk (hgrown t ht)).mpr hrx⟩

theorem mem_edges_forest :
    (p, c) ∈ ts.flatMap edges ↔ m c = some p ∧ Grounded m c := by
  rw [List.mem_flatMap]
  constructor
  · rintro ⟨t, ht, hpc⟩
    obtain ⟨hc, hp⟩ := (mem_edges_grow hk (hgrown t ht)).mp hpc
    obtain ⟨htop, -⟩ := (hr.mem_iff t.label).mp (hlabels ▸ List.mem_map_of_mem ht)
    exact ⟨hc, (grounded_under hc).mpr ((grounded_top htop).downward hp)⟩
  · rintro ⟨hc, hg⟩
    have hp := (mem_nodesOf_forest hk hr hlabels hgrown).mpr
      ⟨(grounded_under hc).mp hg, Or.inr ⟨c, hc⟩⟩
    rw [nodesOf_eq, List.mem_flatMap] at hp
    obtain ⟨t, ht, hp⟩ := hp
    rw [mem_nodes_grow hk (hgrown t ht)] at hp
    exact ⟨t, ht, (mem_edges_grow hk (hgrown t ht)).mpr ⟨hc, hp⟩⟩

theorem nodup_nodesOf_forest : (nodesOf ts).Nodup := by
  have hdepth : ∀ t ∈ ts, Depth m t.label 0 := fun t ht =>
    .top ((hr.mem_iff t.label).mp (hlabels ▸ List.mem_map_of_mem ht)).1
  exact nodup_nodesOf_grown hk (hlabels ▸ hr.nodup) hgrown hdepth
    fun t ht => nodup_nodes_grow hk (hdepth t ht) (hgrown t ht)

end

/-- A forest without repeated nodes has no repeated edges, and as many nodes as edges and
roots. -/
theorem nodup_edges_forest (h : (nodesOf ts).Nodup) : (ts.flatMap edges).Nodup := by
  refine List.Nodup.of_map (·.2) ?_
  refine h.sublist ?_
  induction ts with
  | nil => exact List.Sublist.refl _
  | cons t ts ih =>
    rw [List.flatMap_cons, List.map_append, nodesOf, nodes_eq_edges]
    have hrest : (nodesOf ts).Nodup := (List.nodup_append.mp h).2.1
    exact ((List.Sublist.refl _).cons _).append (ih hrest)

theorem length_nodesOf (ts : List (RoseTree α)) :
    (nodesOf ts).length = (ts.flatMap edges).length + ts.length := by
  induction ts with
  | nil => rfl
  | cons t ts ih =>
    simp only [nodesOf, nodes_eq_edges, List.flatMap_cons, List.length_append, List.length_cons,
      List.length_map, ih]
    omega

end RoseTree

end LawNexus.Forest
