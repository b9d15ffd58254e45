import Mathlib.Data.List.Perm.Subperm
import Mathlib.Logic.Relation
import Mathlib.Order.WellFoundedSet
import Mathlib.Tactic.Common

/-!
# Forests kept as parent links

A parent for each node that has one. Over any type of nodes: what it means that one
node is above another, that the links have no cycle, and that the links from a node
come to an end.
-/

namespace LawNexus.Forest

variable {α : Type*}

/-- The parent of each node that has one. -/
abbrev Links (α : Type*) := α → Option α

def IsParent (m : Links α) (p c : α) : Prop := m c = some p

/-- Following the links from `b` leads to `a` in one step or more. -/
def Above (m : Links α) : α → α → Prop := Relation.TransGen (IsParent m)

def AtOrAbove (m : Links α) : α → α → Prop := Relation.ReflTransGen (IsParent m)

def Acyclic (m : Links α) : Prop := ∀ a, ¬ Above m a a

/-- The links from a node end after this many steps. -/
inductive Depth (m : Links α) : α → Nat → Prop
  | top {a : α} : m a = none → Depth m a 0
  | under {a b : α} {n : Nat} : m a = some b → Depth m b n → Depth m a (n + 1)

/-- The links from a node come to an end. -/
def Grounded (m : Links α) (a : α) : Prop := ∃ n, Depth m a n

section

variable [DecidableEq α]

def Links.attach (m : Links α) (child parent : α) : Links α := fun a =>
  if a = child then some parent else m a

/-- Removes exactly this link: a child of another parent keeps its own. -/
def Links.detach (m : Links α) (child parent : α) : Links α := fun a =>
  if a = child ∧ m a = some parent then none else m a

theorem Links.attach_eq_some {m : Links α} {child parent a p : α} :
    m.attach child parent a = some p ↔ (a ≠ child ∧ m a = some p) ∨ (a = child ∧ p = parent) := by
  unfold Links.attach
  split_ifs with h
  · simp [h, eq_comm]
  · simp [h]

theorem Links.detach_eq_some {m : Links α} {child parent a p : α} :
    m.detach child parent a = some p ↔ m a = some p ∧ ¬ (a = child ∧ p = parent) := by
  unfold Links.detach
  split_ifs with h
  · simp only [h.2, Option.some.injEq, false_iff]
    rintro ⟨rfl, hne⟩
    exact hne ⟨h.1, rfl⟩
  · constructor
    · intro hp
      exact ⟨hp, fun heq => h ⟨heq.1, heq.2 ▸ hp⟩⟩
    · exact And.left

end

variable {m : Links α}

/-! ## Steps upwards -/

theorem above_parent {a b p : α} (hb : m b = some p) : Above m a b ↔ a = p ∨ Above m a p := by
  unfold Above
  rw [Relation.TransGen.tail'_iff]
  constructor
  · rintro ⟨q, hq, hqb⟩
    obtain rfl : q = p := Option.some.inj (hqb.symm.trans hb)
    exact (Relation.reflTransGen_iff_eq_or_transGen.mp hq).imp_left Eq.symm
  · rintro h
    exact ⟨p, Relation.reflTransGen_iff_eq_or_transGen.mpr (h.imp_left Eq.symm), hb⟩

theorem not_above_top {a b : α} (hb : m b = none) : ¬ Above m a b := by
  intro h
  obtain ⟨q, -, hq⟩ := Relation.TransGen.tail'_iff.mp h
  rw [IsParent, hb] at hq
  exact absurd hq (by simp)

theorem atOrAbove_iff {a b : α} : AtOrAbove m a b ↔ a = b ∨ Above m a b := by
  unfold AtOrAbove Above
  rw [Relation.reflTransGen_iff_eq_or_transGen, eq_comm]

theorem atOrAbove_parent {a b p : α} (hb : m b = some p) :
    AtOrAbove m a b ↔ a = b ∨ AtOrAbove m a p := by
  rw [atOrAbove_iff, above_parent hb, ← atOrAbove_iff]

theorem atOrAbove_top {a b : α} (hb : m b = none) : AtOrAbove m a b ↔ a = b := by
  rw [atOrAbove_iff, or_iff_left (not_above_top hb)]

/-! ## Depth -/

theorem depth_unique {a : α} {n k : Nat} (hn : Depth m a n) (hk : Depth m a k) : n = k := by
  induction hn generalizing k with
  | top h =>
    cases hk with
    | top _ => rfl
    | under h' _ => rw [h] at h'; exact absurd h' (by simp)
  | under h _ ih =>
    cases hk with
    | top h' => rw [h] at h'; exact absurd h' (by simp)
    | under h' hk' =>
      obtain rfl := Option.some.inj (h.symm.trans h')
      rw [ih hk']

theorem Depth.parent {a b : α} {n : Nat} (h : m a = some b) (hn : Depth m a n) :
    ∃ k, n = k + 1 ∧ Depth m b k := by
  cases hn with
  | top h' => rw [h] at h'; exact absurd h' (by simp)
  | @under _ c k h' hk =>
    obtain rfl := Option.some.inj (h.symm.trans h')
    exact ⟨k, rfl, hk⟩

/-- A node above another one is nearer to the top. -/
theorem Depth.above {a b : α} {k : Nat} (hk : Depth m b k) (h : Above m a b) :
    ∃ n, n < k ∧ Depth m a n := by
  induction hk with
  | top hb => exact absurd h (not_above_top hb)
  | @under b p n hb hp ih =>
    rcases (above_parent hb).mp h with rfl | h
    · exact ⟨n, by omega, hp⟩
    · obtain ⟨j, hj, hd⟩ := ih h
      exact ⟨j, by omega, hd⟩

/-- A node at or below one that comes to an end comes to an end. -/
theorem Depth.downward {a b : α} {n : Nat} (ha : Depth m a n) (h : AtOrAbove m a b) :
    ∃ k, Depth m b k := by
  induction h with
  | refl => exact ⟨n, ha⟩
  | tail _ hstep ih =>
    obtain ⟨k, hk⟩ := ih
    exact ⟨k + 1, .under hstep hk⟩

theorem Grounded.downward {a b : α} (ha : Grounded m a) (h : AtOrAbove m a b) : Grounded m b := by
  obtain ⟨n, hn⟩ := ha
  exact hn.downward h

theorem Grounded.not_above_self {a : α} (h : Grounded m a) : ¬ Above m a a := by
  intro hab
  obtain ⟨k, hk⟩ := h
  obtain ⟨n, hn, hd⟩ := hk.above hab
  have := depth_unique hd hk
  omega

theorem grounded_top {a : α} (h : m a = none) : Grounded m a := ⟨0, .top h⟩

theorem grounded_under {a p : α} (h : m a = some p) : Grounded m a ↔ Grounded m p := by
  constructor
  · rintro ⟨n, hn⟩
    obtain ⟨k, -, hk⟩ := hn.parent h
    exact ⟨k, hk⟩
  · rintro ⟨n, hn⟩
    exact ⟨n + 1, .under h hn⟩

/-- Two nodes at one depth with a common node at or below them are the same node. -/
theorem eq_of_atOrAbove {a b x : α} {n k : Nat} (hx : Depth m x k) (ha : Depth m a n)
    (hb : Depth m b n) (hax : AtOrAbove m a x) (hbx : AtOrAbove m b x) : a = b := by
  induction hx with
  | top h =>
    rw [atOrAbove_top h] at hax hbx
    rw [hax, hbx]
  | @under x p k h hp ih =>
    rw [atOrAbove_parent h] at hax hbx
    -- The node at the start of the chain is deeper than every other node of it.
    have deeper : ∀ {c d : α}, Depth m c n → Depth m d n → c = x → AtOrAbove m d p → False := by
      rintro c d hc hd rfl hdp
      rw [depth_unique hc (.under h hp)] at hd
      rcases atOrAbove_iff.mp hdp with rfl | hdp
      · have := depth_unique hd hp
        omega
      · obtain ⟨j, hj, hdj⟩ := hp.above hdp
        have := depth_unique hd hdj
        omega
    rcases hax with rfl | hax <;> rcases hbx with rfl | hbx
    · rfl
    · exact (deeper ha hb rfl hbx).elim
    · exact (deeper hb ha rfl hax).elim
    · exact ih hax hbx

/-- Each grounded node hangs below a top. -/
theorem Grounded.exists_top {a : α} (h : Grounded m a) : ∃ r, m r = none ∧ AtOrAbove m r a := by
  obtain ⟨n, hn⟩ := h
  induction hn with
  | @top a h => exact ⟨a, h, .refl⟩
  | under h _ ih =>
    obtain ⟨r, hr, hra⟩ := ih
    exact ⟨r, hr, (atOrAbove_parent h).mpr (Or.inr hra)⟩

/-- The nodes on the way up are distinct and each of them has a parent. -/
theorem Depth.path {a : α} {n : Nat} (h : Depth m a n) :
    ∃ path : List α, path.length = n ∧ path.Nodup ∧ (∀ x ∈ path, m x ≠ none) ∧
      ∀ x ∈ path, ∃ k, k ≤ n ∧ Depth m x k := by
  induction h with
  | top _ => exact ⟨[], rfl, List.nodup_nil, by simp, by simp⟩
  | @under a b n h hb ih =>
    obtain ⟨path, hlen, hnd, hkeys, hdepth⟩ := ih
    have hfresh : a ∉ path := by
      intro hmem
      obtain ⟨k, hk, hd⟩ := hdepth a hmem
      have := depth_unique hd (.under h hb)
      omega
    refine ⟨a :: path, by simp [hlen], List.nodup_cons.mpr ⟨hfresh, hnd⟩, ?_, ?_⟩
    · intro x hx
      rcases List.mem_cons.mp hx with rfl | hx
      · simp [h]
      · exact hkeys x hx
    · intro x hx
      rcases List.mem_cons.mp hx with rfl | hx
      · exact ⟨n + 1, le_refl _, .under h hb⟩
      · obtain ⟨k, hk, hd⟩ := hdepth x hx
        exact ⟨k, by omega, hd⟩

/-- No chain is longer than the list of the nodes that have a parent. -/
theorem Depth.le_length {a : α} {n : Nat} (h : Depth m a n) {keys : List α}
    (hkeys : ∀ x, m x ≠ none → x ∈ keys) : n ≤ keys.length := by
  obtain ⟨path, rfl, hnd, hsome, -⟩ := h.path
  exact (hnd.subperm fun x hx => hkeys x (hsome x hx)).length_le

/-! ## No cycle -/

theorem acyclic_of_grounded (h : ∀ a, m a ≠ none → Grounded m a) : Acyclic m := by
  intro a ha
  by_cases hnone : m a = none
  · exact not_above_top hnone ha
  · exact (h a hnone).not_above_self ha

theorem grounded_of_acyclic {keys : List α} (hkeys : ∀ x, m x ≠ none → x ∈ keys)
    (h : Acyclic m) (a : α) : Grounded m a := by
  have : IsStrictOrder α (Above m) :=
    { irrefl := h, trans := fun _ _ _ => Relation.TransGen.trans }
  have hfin : {x | x ∈ keys}.Finite := keys.finite_toSet
  by_cases hnone : m a = none
  · exact grounded_top hnone
  refine hfin.wellFoundedOn.induction (r := Above m) (hkeys a hnone) ?_
  intro x _ ih
  cases hp : m x with
  | none => exact grounded_top hp
  | some p =>
    rw [grounded_under hp]
    by_cases hpn : m p = none
    · exact grounded_top hpn
    · exact ih p (hkeys p hpn) (.single hp)

theorem acyclic_iff_grounded {keys : List α} (hkeys : ∀ x, m x ≠ none → x ∈ keys) :
    Acyclic m ↔ ∀ a, m a ≠ none → Grounded m a :=
  ⟨fun h a _ => grounded_of_acyclic hkeys h a, acyclic_of_grounded⟩

/-- A list of edges from parents to children, in which no walk downwards comes back. -/
def CycleFree (edges : List (α × α)) : Prop :=
  ∀ a, ¬ Relation.TransGen (fun p c => (p, c) ∈ edges) a a

theorem cycleFree_iff_acyclic {edges : List (α × α)} (h : ∀ p c, (p, c) ∈ edges ↔ m c = some p) :
    CycleFree edges ↔ Acyclic m := by
  have hrel : (fun p c => (p, c) ∈ edges) = IsParent m := by
    funext p c
    exact propext (h p c)
  rw [CycleFree, hrel]
  rfl

/-- Edges that go up in some number have no cycle. -/
theorem cycleFree_of_rank {edges : List (α × α)} (rank : α → Nat)
    (h : ∀ e ∈ edges, rank e.1 < rank e.2) : CycleFree edges := by
  have hup : ∀ {a b}, Relation.TransGen (fun p c => (p, c) ∈ edges) a b → rank a < rank b := by
    intro a b hab
    induction hab with
    | single hstep => exact h _ hstep
    | tail _ hstep ih => exact ih.trans (h _ hstep)
  exact fun a ha => lt_irrefl _ (hup ha)

/-! ## A new link -/

section

variable [DecidableEq α]

/-- A walk over the links with a new one either avoids it or goes over it once. -/
theorem above_attach {c p a b : α} (hc : m c = none) :
    Above (m.attach c p) a b ↔ Above m a b ∨ (AtOrAbove m a p ∧ AtOrAbove m c b) := by
  have old : ∀ {x y}, IsParent m x y → IsParent (m.attach c p) x y := by
    intro x y hxy
    rw [IsParent, Links.attach_eq_some]
    refine Or.inl ⟨?_, hxy⟩
    rintro rfl
    rw [IsParent, hc] at hxy
    exact absurd hxy (by simp)
  have new : IsParent (m.attach c p) p c := Links.attach_eq_some.mpr (Or.inr ⟨rfl, rfl⟩)
  constructor
  · intro h
    induction h with
    | single hstep =>
      rcases Links.attach_eq_some.mp hstep with ⟨-, hstep⟩ | ⟨rfl, rfl⟩
      · exact Or.inl (.single hstep)
      · exact Or.inr ⟨.refl, .refl⟩
    | tail _ hstep ih =>
      rcases Links.attach_eq_some.mp hstep with ⟨-, hstep⟩ | ⟨rfl, rfl⟩
      · exact ih.imp (fun h => .tail h hstep) fun h => ⟨h.1, .tail h.2 hstep⟩
      · rcases ih with h | h
        · exact Or.inr ⟨h.to_reflTransGen, .refl⟩
        · exact Or.inr ⟨h.1, .refl⟩
  · rintro (h | ⟨hap, hcb⟩)
    · exact Relation.TransGen.mono (fun _ _ => old) _ _ h
    · have hp : Relation.ReflTransGen (IsParent (m.attach c p)) a p :=
        Relation.ReflTransGen.mono (fun _ _ => old) _ _ hap
      have hb : Relation.ReflTransGen (IsParent (m.attach c p)) c b :=
        Relation.ReflTransGen.mono (fun _ _ => old) _ _ hcb
      exact Relation.TransGen.trans_left (.tail' hp new) hb

/-- The new link closes a cycle exactly when its child was at or above its parent. -/
theorem acyclic_attach {c p : α} (hc : m c = none) (hm : Acyclic m) :
    Acyclic (m.attach c p) ↔ ¬ AtOrAbove m c p := by
  constructor
  · intro h hcp
    exact h p ((above_attach hc).mpr (Or.inr ⟨.refl, hcp⟩))
  · intro hno a ha
    rcases (above_attach hc).mp ha with ha | ⟨hap, hca⟩
    · exact hm a ha
    · exact hno (hca.trans hap)

end

end LawNexus.Forest
