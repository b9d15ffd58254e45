import LawNexus.Forest.Links
import Mathlib.Data.List.Nodup
import Mathlib.Data.List.Perm.Subperm
import Mathlib.Data.List.Range

/-!
# Walks with a stack

A loop that pops a node, and pushes what is next below it. What it visits is a forest, listed
with every node before the nodes below it.
-/

namespace LawNexus.Forest

/-- The trees of a list of nodes: the first node, what is below it, and the trees after it. -/
inductive Siblings (α : Type*)
  | nil
  | cons (label : α) (below after : Siblings α)
deriving DecidableEq, Repr

namespace Siblings

variable {α β : Type*}

def roots : Siblings α → List α
  | .nil => []
  | .cons a _ after => a :: after.roots

/-- Every node before the nodes below it. -/
def nodes : Siblings α → List α
  | .nil => []
  | .cons a below after => a :: (below.nodes ++ after.nodes)

def size : Siblings α → Nat
  | .nil => 0
  | .cons _ below after => below.size + after.size + 1

def map (f : α → β) : Siblings α → Siblings β
  | .nil => .nil
  | .cons a below after => .cons (f a) (below.map f) (after.map f)

def append : Siblings α → Siblings α → Siblings α
  | .nil, more => more
  | .cons a below after, more => .cons a below (after.append more)

/-- Below every node stands what the table lists for it. -/
def Unfolds (next : α → List α) : Siblings α → Prop
  | .nil => True
  | .cons a below after => below.roots = next a ∧ below.Unfolds next ∧ after.Unfolds next

@[simp] theorem roots_map (f : α → β) (F : Siblings α) : (F.map f).roots = F.roots.map f := by
  induction F with
  | nil => rfl
  | cons a below after _ ih => rw [map, roots, roots, List.map_cons, ih]

@[simp] theorem nodes_map (f : α → β) (F : Siblings α) : (F.map f).nodes = F.nodes.map f := by
  induction F with
  | nil => rfl
  | cons a below after ih ih' => simp only [map, nodes, List.map_cons, List.map_append, ih, ih']

@[simp] theorem size_map (f : α → β) (F : Siblings α) : (F.map f).size = F.size := by
  induction F with
  | nil => rfl
  | cons a below after ih ih' => simp only [map, size, ih, ih']

@[simp] theorem length_nodes (F : Siblings α) : F.nodes.length = F.size := by
  induction F with
  | nil => rfl
  | cons a below after ih ih' => simp only [nodes, size, List.length_cons, List.length_append, ih, ih']

theorem roots_subset_nodes (F : Siblings α) : F.roots ⊆ F.nodes := by
  induction F with
  | nil => exact List.Subset.refl _
  | cons a below after _ ih =>
    refine List.cons_subset_cons a fun x hx => ?_
    exact List.mem_append_right _ (ih hx)

@[simp] theorem roots_append (F G : Siblings α) : (F.append G).roots = F.roots ++ G.roots := by
  induction F with
  | nil => rfl
  | cons a below after _ ih => rw [append, roots, roots, ih, List.cons_append]

@[simp] theorem nodes_append (F G : Siblings α) : (F.append G).nodes = F.nodes ++ G.nodes := by
  induction F with
  | nil => rfl
  | cons a below after _ ih => rw [append, nodes, nodes, ih, List.cons_append, List.append_assoc]

@[simp] theorem size_append (F G : Siblings α) : (F.append G).size = F.size + G.size := by
  rw [← length_nodes, nodes_append, List.length_append, length_nodes, length_nodes]

theorem unfolds_append {next : α → List α} {F G : Siblings α} :
    (F.append G).Unfolds next ↔ F.Unfolds next ∧ G.Unfolds next := by
  induction F with
  | nil => simp [append, Unfolds]
  | cons a below after _ ih => simp only [append, Unfolds, ih, and_assoc]

theorem Unfolds.congr {next next' : α → List α} {F : Siblings α} (h : F.Unfolds next)
    (heq : ∀ a ∈ F.nodes, next a = next' a) : F.Unfolds next' := by
  induction F with
  | nil => trivial
  | cons a below after ih ih' =>
    obtain ⟨hroots, hbelow, hafter⟩ := h
    refine ⟨hroots.trans (heq a List.mem_cons_self), ih hbelow fun b hb => heq b ?_,
      ih' hafter fun b hb => heq b ?_⟩
    · exact List.mem_cons_of_mem a (List.mem_append_left _ hb)
    · exact List.mem_cons_of_mem a (List.mem_append_right _ hb)

/-- What holds of the roots and is handed down holds of every node. -/
theorem Unfolds.forall_nodes {next : α → List α} {F : Siblings α} {p : α → Prop}
    (h : F.Unfolds next) (hroots : ∀ a ∈ F.roots, p a) (hnext : ∀ a, p a → ∀ b ∈ next a, p b) :
    ∀ a ∈ F.nodes, p a := by
  induction F with
  | nil => simp [nodes]
  | cons a below after ih ih' =>
    obtain ⟨hbelow, hunfolds, hafter⟩ := h
    rw [roots, List.forall_mem_cons] at hroots
    rw [nodes, List.forall_mem_cons, List.forall_mem_append]
    exact ⟨hroots.1, ih hunfolds (hbelow ▸ hnext a hroots.1), ih' hafter hroots.2⟩

theorem Unfolds.map {next : α → List α} {next' : β → List β} {f : α → β} {F : Siblings α}
    (h : F.Unfolds next) (hf : ∀ a ∈ F.nodes, next' (f a) = (next a).map f) :
    (F.map f).Unfolds next' := by
  induction F with
  | nil => trivial
  | cons a below after ih ih' =>
    obtain ⟨hbelow, hunfolds, hafter⟩ := h
    rw [nodes, List.forall_mem_cons, List.forall_mem_append] at hf
    exact ⟨by rw [roots_map, hbelow, hf.1], ih hunfolds hf.2.1, ih' hafter hf.2.2⟩

/-- The roots and the table tell the forest. -/
theorem Unfolds.eq {next : α → List α} {F G : Siblings α} (hF : F.Unfolds next)
    (hG : G.Unfolds next) (hroots : F.roots = G.roots) : F = G := by
  induction F generalizing G with
  | nil =>
    cases G with
    | nil => rfl
    | cons b below' after' => exact nomatch hroots
  | cons a below after ih ih' =>
    cases G with
    | nil => exact nomatch hroots
    | cons b below' after' =>
      obtain ⟨rfl, hafter⟩ := List.cons.inj hroots
      rw [ih hF.2.1 hG.2.1 (hF.1.trans hG.1.symm), ih' hF.2.2 hG.2.2 hafter]

/-- A forest over two lists of roots is a forest over each. -/
theorem exists_append {as bs : List α} {F : Siblings α} (h : F.roots = as ++ bs) :
    ∃ G H, F = append G H ∧ G.roots = as ∧ H.roots = bs := by
  induction as generalizing F with
  | nil => exact ⟨.nil, F, rfl, rfl, h⟩
  | cons a as ih =>
    cases F with
    | nil => exact nomatch h
    | cons b below after =>
      obtain ⟨rfl, hafter⟩ := List.cons.inj h
      obtain ⟨G, H, rfl, hG, hH⟩ := ih hafter
      exact ⟨.cons b below G, H, rfl, by rw [roots, hG], hH⟩

/-- Each node has its position among its siblings, the roots from `k` on. -/
def Ranked (rank : α → Option Nat) : Nat → Siblings α → Prop
  | _, .nil => True
  | k, .cons a below after =>
    rank a = some k ∧ below.Ranked rank 0 ∧ after.Ranked rank (k + 1)

theorem Ranked.rank_roots {rank : α → Option Nat} {k i : Nat} {F : Siblings α} {a : α}
    (h : F.Ranked rank k) (ha : F.roots[i]? = some a) : rank a = some (k + i) := by
  induction F generalizing k i with
  | nil => exact nomatch ha
  | cons b below after _ ih =>
    cases i with
    | zero =>
      obtain rfl := Option.some.inj ha
      exact h.1
    | succ i =>
      rw [ih h.2.2 ha]
      exact congrArg some (by omega)

theorem Ranked.rank_next {rank : α → Option Nat} {next : α → List α} {k i : Nat}
    {F : Siblings α} {a c : α} (h : F.Ranked rank k) (hF : F.Unfolds next) (ha : a ∈ F.nodes)
    (hc : (next a)[i]? = some c) : rank c = some i := by
  induction F generalizing k with
  | nil => exact nomatch ha
  | cons b below after ih ih' =>
    obtain ⟨hroots, hbelow, hafter⟩ := hF
    rcases List.mem_cons.mp ha with rfl | ha
    · rw [← hroots] at hc
      simpa using h.2.1.rank_roots hc
    · exact (List.mem_append.mp ha).elim (ih h.2.1 hbelow) (ih' h.2.2 hafter)

end Siblings

open Siblings

variable {α : Type*} {next : α → List α}

/-! ## The loop -/

/-- The nodes in the order in which they are popped, or `none` where the turns run out. -/
def popped (next : α → List α) : Nat → List α → Option (List α)
  | _, [] => some []
  | 0, _ :: _ => none
  | turns + 1, a :: stack => (popped next turns (next a ++ stack)).map (a :: ·)

@[simp] theorem popped_nil (turns : Nat) : popped next turns [] = some [] := by
  cases turns <;> rfl

/-- Each node takes one turn. -/
theorem length_popped_le {turns : Nat} {stack out : List α} (h : popped next turns stack = some out) :
    out.length ≤ turns := by
  induction turns generalizing stack out with
  | zero =>
    cases stack with
    | nil => simp [← Option.some.inj h]
    | cons a stack => exact nomatch h
  | succ turns ih =>
    cases stack with
    | nil => simp [← Option.some.inj h]
    | cons a stack =>
      obtain ⟨rest, hrest, rfl⟩ := Option.map_eq_some_iff.mp h
      exact Nat.succ_le_succ (ih hrest)

/-- One turn for each node is enough. -/
theorem popped_of_unfolds {F : Siblings α} (h : F.Unfolds next) (turns : Nat) (stack : List α) :
    popped next (F.size + turns) (F.roots ++ stack) =
      (popped next turns stack).map (F.nodes ++ ·) := by
  induction F generalizing turns stack with
  | nil => simp [roots, nodes, size]
  | cons a below after ih ih' =>
    obtain ⟨hroots, hbelow, hafter⟩ := h
    have hturns : (cons a below after).size + turns = below.size + (after.size + turns) + 1 := by
      rw [size]
      omega
    rw [hturns, roots, List.cons_append, popped, ← hroots, ih hbelow, ih' hafter]
    simp [nodes, Function.comp_def, List.append_assoc]

theorem popped_forest {F : Siblings α} (h : F.Unfolds next) {turns : Nat} (hturns : F.size ≤ turns) :
    popped next turns F.roots = some F.nodes := by
  obtain ⟨more, rfl⟩ := Nat.exists_eq_add_of_le hturns
  simpa using popped_of_unfolds h more []

/-- What a loop that ends has visited is a forest. -/
theorem exists_forest {turns : Nat} {stack out : List α} (h : popped next turns stack = some out) :
    ∃ F : Siblings α, F.roots = stack ∧ F.Unfolds next ∧ F.nodes = out := by
  induction turns generalizing stack out with
  | zero =>
    cases stack with
    | nil => exact ⟨.nil, rfl, trivial, by simpa [popped, nodes] using h⟩
    | cons a stack => exact nomatch h
  | succ turns ih =>
    cases stack with
    | nil => exact ⟨.nil, rfl, trivial, by simpa [popped, nodes] using h⟩
    | cons a stack =>
      obtain ⟨rest, hrest, rfl⟩ := Option.map_eq_some_iff.mp h
      obtain ⟨F, hroots, hunfolds, rfl⟩ := ih hrest
      obtain ⟨below, after, rfl, hbelow, hafter⟩ := exists_append hroots
      rw [unfolds_append] at hunfolds
      refine ⟨.cons a below after, by rw [roots, hafter], ⟨hbelow, hunfolds⟩, ?_⟩
      rw [nodes, nodes_append]

/-! ## Children by parent links -/

/-- What is pushed below a node is pushed nowhere else. -/
structure Linked (next : α → List α) (parent : Links α) (all : List α) : Prop where
  parent_of_mem : ∀ {a b}, b ∈ next a → parent b = some a
  nodup : ∀ a, (next a).Nodup
  subset : ∀ a, next a ⊆ all

/-- Nothing is popped twice, so the loop ends: the invariant is that a node in sight has its
parent among the popped ones. -/
theorem popped_isSome_of_linked {parent : Links α} {all : List α}
    (hlinked : Linked next parent all) {turns : Nat} {done stack : List α}
    (hnodup : (done ++ stack).Nodup) (hsubset : done ++ stack ⊆ all)
    (hparent : ∀ a ∈ done ++ stack, ∀ p ∈ parent a, p ∈ done)
    (hturns : all.length ≤ turns + done.length) : (popped next turns stack).isSome := by
  induction turns generalizing done stack with
  | zero =>
    cases stack with
    | nil => rfl
    | cons a stack =>
      have hle := (List.subperm_of_subset hnodup hsubset).length_le
      rw [List.length_append, List.length_cons] at hle
      omega
  | succ turns ih =>
    cases stack with
    | nil => rfl
    | cons a stack =>
      rw [popped, Option.isSome_map]
      have hfresh : a ∉ done := fun hmem =>
        (List.nodup_append.mp hnodup).2.2 a hmem a List.mem_cons_self rfl
      have hperm : (done ++ a :: stack).Perm (done ++ [a] ++ stack) := by simp
      have hapart : ∀ b ∈ next a, b ∉ done ++ [a] ++ stack := by
        intro b hb hmem
        exact hfresh (hparent b (hperm.mem_iff.mpr hmem) a (hlinked.parent_of_mem hb))
      refine @ih (done ++ [a]) (next a ++ stack) ?_ ?_ ?_ ?_
      · have hold := hperm.nodup_iff.mp hnodup
        have hmix : (done ++ [a] ++ (next a ++ stack)).Perm (next a ++ (done ++ [a] ++ stack)) := by
          rw [← List.append_assoc, ← List.append_assoc]
          exact (List.perm_append_comm).append_right stack
        rw [hmix.nodup_iff, List.nodup_append]
        refine ⟨hlinked.nodup a, hold, ?_⟩
        rintro b hb c hc rfl
        exact hapart b hb hc
      · intro b hb
        simp only [List.mem_append, List.mem_singleton] at hb
        rcases hb with (hb | rfl) | hb | hb
        · exact hsubset (by simp [hb])
        · exact hsubset (by simp)
        · exact hlinked.subset a hb
        · exact hsubset (by simp [hb])
      · intro b hb p hp
        simp only [List.mem_append, List.mem_singleton] at hb ⊢
        rcases hb with (hb | rfl) | hb | hb
        · exact Or.inl (hparent b (by simp [hb]) p hp)
        · exact Or.inl (hparent b (by simp) p hp)
        · rw [hlinked.parent_of_mem hb] at hp
          exact Or.inr (Option.some.inj hp).symm
        · exact Or.inl (hparent b (by simp [hb]) p hp)
      · rw [List.length_append, List.length_singleton]
        omega

/-- A loop that starts from nodes without a parent ends, with one turn for each node. -/
theorem popped_isSome {parent : Links α} {all stack : List α}
    (hlinked : Linked next parent all) (hnodup : stack.Nodup) (hsubset : stack ⊆ all)
    (htop : ∀ a ∈ stack, parent a = none) : (popped next all.length stack).isSome := by
  refine @popped_isSome_of_linked α next parent all hlinked all.length [] stack hnodup hsubset ?_
    (Nat.le_add_right _ _)
  intro a ha p hp
  rw [htop a ha] at hp
  exact nomatch hp

/-! ## A forest read off its parent links -/

/-- Every node has the parent that the forest gives it, the roots the one that is named. -/
def Siblings.Parented (parent : Links α) : Option α → Siblings α → Prop
  | _, .nil => True
  | p, .cons a below after =>
    parent a = p ∧ below.Parented parent (some a) ∧ after.Parented parent p

section

variable [DecidableEq α] {parent : Links α}

/-- The nodes below a parent, in the order of the list. -/
def childrenIn (parent : Links α) (all : List α) (p : α) : List α :=
  all.filter fun a => parent a = some p

theorem childrenIn_append (all more : List α) (p : α) :
    childrenIn parent (all ++ more) p = childrenIn parent all p ++ childrenIn parent more p :=
  List.filter_append ..

theorem Siblings.Parented.childrenIn_eq_nil {F : Siblings α} {p : Option α} {q : α}
    (h : F.Parented parent p) (hp : p ≠ some q) (hq : q ∉ F.nodes) :
    childrenIn parent F.nodes q = [] := by
  induction F generalizing p with
  | nil => rfl
  | cons a below after ih ih' =>
    obtain ⟨ha, hbelow, hafter⟩ := h
    simp only [nodes, List.mem_cons, List.mem_append, not_or] at hq
    rw [nodes, childrenIn, List.filter_cons_of_neg (by simpa [ha] using hp), ← childrenIn,
      childrenIn_append, ih hbelow (by simpa using Ne.symm hq.1) hq.2.1, ih' hafter hp hq.2.2]
    rfl

theorem Siblings.Parented.childrenIn_roots {F : Siblings α} {p : α}
    (h : F.Parented parent (some p)) (hp : p ∉ F.nodes) : childrenIn parent F.nodes p = F.roots := by
  induction F with
  | nil => rfl
  | cons a below after _ ih =>
    obtain ⟨ha, hbelow, hafter⟩ := h
    simp only [nodes, List.mem_cons, List.mem_append, not_or] at hp
    rw [nodes, childrenIn, List.filter_cons_of_pos (by simpa using ha), ← childrenIn,
      childrenIn_append, hbelow.childrenIn_eq_nil (by simpa using Ne.symm hp.1) hp.2.1,
      ih hafter hp.2.2, roots, List.nil_append]

/-- The nodes of a forest, filtered by parent, unfold to the forest. -/
theorem Siblings.Parented.unfolds {F : Siblings α} {p : Option α} (h : F.Parented parent p)
    (hnodup : F.nodes.Nodup) (hp : ∀ q ∈ p, q ∉ F.nodes) :
    F.Unfolds (childrenIn parent F.nodes) := by
  induction F generalizing p with
  | nil => trivial
  | cons a below after ih ih' =>
    obtain ⟨ha, hbelow, hafter⟩ := h
    obtain ⟨hfresh, hrest⟩ := List.nodup_cons.mp hnodup
    obtain ⟨hndb, hnda, hapart⟩ := List.nodup_append.mp hrest
    have hfresh' := List.mem_append.not.mp hfresh
    rw [not_or] at hfresh'
    have hpa : p ≠ some a := fun heq => hp a heq List.mem_cons_self
    -- Below a node that is not `p`, the first node of the list does not stand.
    have hskip : ∀ q, p ≠ some q → childrenIn parent (a :: (below.nodes ++ after.nodes)) q =
        childrenIn parent below.nodes q ++ childrenIn parent after.nodes q := by
      intro q hq
      rw [childrenIn, List.filter_cons_of_neg (by simpa [ha] using hq), ← childrenIn,
        childrenIn_append]
    have hpq : ∀ q ∈ below.nodes ++ after.nodes, p ≠ some q := fun q hq heq =>
      hp q heq (List.mem_cons_of_mem a hq)
    refine ⟨?_, ?_, ?_⟩
    · rw [nodes, hskip a hpa, hbelow.childrenIn_roots hfresh'.1,
        hafter.childrenIn_eq_nil hpa hfresh'.2, List.append_nil]
    · refine (ih hbelow hndb (by simpa using hfresh'.1)).congr fun q hq => ?_
      have hmem := List.mem_append_left after.nodes hq
      rw [nodes, hskip q (hpq q hmem),
        hafter.childrenIn_eq_nil (hpq q hmem) fun hq' => hapart q hq q hq' rfl, List.append_nil]
    · have hpafter : ∀ q ∈ p, q ∉ after.nodes := fun q hq hmem =>
        hp q hq (List.mem_cons_of_mem a (List.mem_append_right _ hmem))
      refine (ih' hafter hnda hpafter).congr fun q hq => ?_
      have hmem := List.mem_append_right below.nodes hq
      have hqa : some a ≠ some q := fun heq => hfresh' |>.2 (Option.some.inj heq ▸ hq)
      rw [nodes, hskip q (hpq q hmem),
        hbelow.childrenIn_eq_nil hqa fun hq' => hapart q hq' q hq rfl, List.nil_append]

end

/-! ## Walks that come back to a node -/

/-- A node is met, and met again behind what is below it. -/
inductive Step (α : Type*)
  | node (a : α)
  | tail (a : α)
deriving DecidableEq, Repr

def Step.at : Step α → α
  | .node a => a
  | .tail a => a

def Step.map {β : Type*} (f : α → β) : Step α → Step β
  | .node a => .node (f a)
  | .tail a => .tail (f a)

/-- Below a node each child is pushed with its tail. -/
def stepNext (children : α → List α) : Step α → List (Step α)
  | .node a => (children a).flatMap fun c => [.node c, .tail c]
  | .tail _ => []

namespace Siblings

/-- The steps of a walk over the trees, the tails of their roots among them. -/
def steps : Siblings α → List (Step α)
  | .nil => []
  | .cons a below after => .node a :: (below.steps ++ .tail a :: after.steps)

def toSteps : Siblings α → Siblings (Step α)
  | .nil => .nil
  | .cons a below after => .cons (.node a) below.toSteps (.cons (.tail a) .nil after.toSteps)

/-- The steps of a walk that starts from the roots and comes back to none of them. -/
def topSteps : Siblings α → Siblings (Step α)
  | .nil => .nil
  | .cons a below after => .cons (.node a) below.toSteps after.topSteps

theorem roots_toSteps (F : Siblings α) :
    F.toSteps.roots = F.roots.flatMap fun a => [.node a, .tail a] := by
  induction F with
  | nil => rfl
  | cons a below after _ ih => simp [toSteps, roots, ih]

@[simp] theorem nodes_toSteps (F : Siblings α) : F.toSteps.nodes = F.steps := by
  induction F with
  | nil => rfl
  | cons a below after ih ih' => simp [toSteps, nodes, steps, ih, ih']

theorem roots_topSteps (F : Siblings α) : F.topSteps.roots = F.roots.map .node := by
  induction F with
  | nil => rfl
  | cons a below after _ ih => simp [topSteps, roots, ih]

theorem unfolds_toSteps {children : α → List α} {F : Siblings α} (h : F.Unfolds children) :
    F.toSteps.Unfolds (stepNext children) := by
  induction F with
  | nil => trivial
  | cons a below after ih ih' =>
    obtain ⟨hroots, hbelow, hafter⟩ := h
    exact ⟨by rw [roots_toSteps, hroots, stepNext], ih hbelow, rfl, trivial, ih' hafter⟩

theorem unfolds_topSteps {children : α → List α} {F : Siblings α} (h : F.Unfolds children) :
    F.topSteps.Unfolds (stepNext children) := by
  induction F with
  | nil => trivial
  | cons a below after _ ih =>
    obtain ⟨hroots, hbelow, hafter⟩ := h
    exact ⟨by rw [roots_toSteps, hroots, stepNext], unfolds_toSteps hbelow, ih hafter⟩

theorem steps_map {β : Type*} (f : α → β) (F : Siblings α) :
    (F.map f).steps = F.steps.map (Step.map f) := by
  induction F with
  | nil => rfl
  | cons a below after ih ih' =>
    simp only [map, steps, ih, ih', List.map_cons, List.map_append, Step.map]

theorem at_mem_nodes {F : Siblings α} {s : Step α} (h : s ∈ F.steps) : s.at ∈ F.nodes := by
  induction F with
  | nil => exact nomatch h
  | cons a below after ih ih' =>
    simp only [steps, List.mem_cons, List.mem_append] at h
    simp only [nodes, List.mem_cons, List.mem_append]
    rcases h with rfl | h | rfl | h
    · exact Or.inl rfl
    · exact Or.inr (Or.inl (ih h))
    · exact Or.inl rfl
    · exact Or.inr (Or.inr (ih' h))

theorem at_mem_nodes_of_topSteps {F : Siblings α} {s : Step α} (h : s ∈ F.topSteps.nodes) :
    s.at ∈ F.nodes := by
  induction F with
  | nil => exact nomatch h
  | cons a below after _ ih =>
    rw [topSteps, nodes, nodes_toSteps, List.mem_cons, List.mem_append] at h
    rw [nodes, List.mem_cons, List.mem_append]
    rcases h with rfl | h | h
    · exact Or.inl rfl
    · exact Or.inr (Or.inl (at_mem_nodes h))
    · exact Or.inr (Or.inr (ih h))

/-- In a forest without repetition, no step is taken twice. -/
theorem nodup_steps {F : Siblings α} (h : F.nodes.Nodup) : F.steps.Nodup := by
  induction F with
  | nil => exact List.nodup_nil
  | cons a below after ih ih' =>
    obtain ⟨hfresh, hrest⟩ := List.nodup_cons.mp h
    obtain ⟨hbelow, hafter, hapart⟩ := List.nodup_append.mp hrest
    rw [List.mem_append, not_or] at hfresh
    have hnb : ∀ s ∈ below.steps, s.at ≠ a := fun s hs heq => hfresh.1 (heq ▸ at_mem_nodes hs)
    have hna : ∀ s ∈ after.steps, s.at ≠ a := fun s hs heq => hfresh.2 (heq ▸ at_mem_nodes hs)
    rw [steps, List.nodup_cons, List.nodup_append, List.nodup_cons]
    refine ⟨?_, ih hbelow, ⟨fun hs => hna _ hs rfl, ih' hafter⟩, ?_⟩
    · simp only [List.mem_append, List.mem_cons, reduceCtorEq, false_or, not_or]
      exact ⟨fun hs => hnb _ hs rfl, fun hs => hna _ hs rfl⟩
    · rintro s hs t ht rfl
      rcases List.mem_cons.mp ht with rfl | ht
      · exact hnb _ hs rfl
      · exact hapart _ (at_mem_nodes hs) _ (at_mem_nodes ht) rfl

theorem size_toSteps (F : Siblings α) : F.toSteps.size = 2 * F.size := by
  induction F with
  | nil => rfl
  | cons a below after ih ih' =>
    simp only [toSteps, size, ih, ih']
    omega

theorem size_topSteps_le (F : Siblings α) : F.topSteps.size ≤ 2 * F.size := by
  induction F with
  | nil => exact Nat.le_refl 0
  | cons a below after _ ih =>
    simp only [topSteps, size, size_toSteps]
    omega

end Siblings

/-- Two turns for each node are enough for a walk with tails. -/
theorem popped_steps {children : α → List α} {F : Siblings α} (h : F.Unfolds children)
    {turns : Nat} (hturns : 2 * F.size ≤ turns) :
    popped (stepNext children) turns (F.roots.map .node) = some F.topSteps.nodes := by
  rw [← roots_topSteps]
  exact popped_forest (unfolds_topSteps h) (F.size_topSteps_le.trans hturns)

end LawNexus.Forest
