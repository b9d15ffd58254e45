import LawNexus.Forest.Links
import LawNexus.Membership.Industrial

/-!
# The graphs that a run can build

The edges of a graph are private, so every graph comes from `empty` by a sequence of
inserts and industrial operations. One parent for each component holds in all of them.
"No cycle" does not: `insert` looks for the reverse edge only.
-/

namespace LawNexus

/-! ## Runs -/

inductive MembershipCall
  | insert (edge : MembershipEdge)
  | apply (log : StructuralEventLog) (request : IndustrialOpRequest) (plan : IndustrialOpPlan)

/-- The graph after a call, accepted or refused. -/
def MembershipCall.run (g : MembershipGraph) : MembershipCall → MembershipGraph
  | .insert edge =>
    match g.insert edge with
    | .error _ => g
    | .ok g' => g'
  | .apply log request plan => (applyIndustrialOp g log request plan).graph

def Reachable (g : MembershipGraph) : Prop :=
  ∃ calls : List MembershipCall, calls.foldl MembershipCall.run .empty = g

theorem Reachable.run {g : MembershipGraph} (h : Reachable g) (call : MembershipCall) :
    Reachable (call.run g) := by
  obtain ⟨calls, rfl⟩ := h
  exact ⟨calls ++ [call], by simp⟩

/-- What holds of the empty graph and is kept by every call holds of every reachable graph. -/
theorem Reachable.induction {P : MembershipGraph → Prop} (hempty : P .empty)
    (hrun : ∀ g call, P g → P (MembershipCall.run g call)) {g : MembershipGraph}
    (h : Reachable g) : P g := by
  obtain ⟨calls, rfl⟩ := h
  induction calls using List.reverseRecOn with
  | nil => exact hempty
  | append_singleton calls call ih =>
    rw [List.foldl_append]
    exact hrun _ call ih

/-! ## One parent, and no edge with its reverse -/

structure Structural (edges : List MembershipEdge) : Prop where
  oneParent : (edges.map (·.child)).Nodup
  noReverse : ∀ e ∈ edges, ∀ f ∈ edges, ¬ (f.parent = e.child ∧ f.child = e.parent)

namespace Structural

theorem sublist {edges fewer : List MembershipEdge} (h : Structural edges)
    (hsub : fewer.Sublist edges) : Structural fewer where
  oneParent := h.oneParent.sublist (hsub.map _)
  noReverse e he f hf := h.noReverse e (hsub.subset he) f (hsub.subset hf)

theorem child_unique {edges : List MembershipEdge} (h : Structural edges) {e f : MembershipEdge}
    (he : e ∈ edges) (hf : f ∈ edges) (hc : e.child = f.child) : e = f :=
  List.inj_on_of_nodup_map h.oneParent he hf hc

theorem parentOf_of_mem {g : MembershipGraph} (h : Structural g.edges) {e : MembershipEdge}
    (he : e ∈ g.edges) : g.parentOf e.child = some e.parent := by
  cases hp : g.parentOf e.child with
  | none => exact absurd rfl (MembershipGraph.parentOf_eq_none.mp hp e he)
  | some p =>
    obtain ⟨f, hf, rfl, hc⟩ := MembershipGraph.exists_edge_of_parentOf hp
    rw [h.child_unique hf he hc]

theorem append {edges : List MembershipEdge} (h : Structural edges) {edge : MembershipEdge}
    (hatt : Attachable edges edge.parent edge.child) : Structural (edges ++ [edge]) where
  oneParent := by
    rw [List.map_append, List.nodup_append]
    refine ⟨h.oneParent, List.nodup_singleton _, ?_⟩
    rintro c hc d hd rfl
    obtain ⟨e, he, rfl⟩ := List.mem_map.mp hc
    exact hatt.2.2 e he (by simpa using hd)
  noReverse := by
    have hself := edge.distinct
    intro e he f hf
    rw [List.mem_append, List.mem_singleton] at he hf
    rcases he with he | rfl <;> rcases hf with hf | rfl
    · exact h.noReverse e he f hf
    · exact fun hrev => hatt.2.1 e he ⟨hrev.2.symm, hrev.1.symm⟩
    · exact hatt.2.1 f hf
    · exact fun hrev => hself hrev.1

theorem insert {g g' : MembershipGraph} (h : Structural g.edges) {edge : MembershipEdge}
    (hins : g.insert edge = .ok g') : Structural g'.edges := by
  obtain ⟨hatt, rfl⟩ := insert_ok_iff.mp hins
  exact h.append hatt

theorem attachChild {g : MembershipGraph} (h : Structural g.edges)
    (parent child : ComponentConceptId) : Structural (attachChild g parent child).2.edges := by
  rcases attachChild_cases g parent child with ⟨hatt, heq⟩ | ⟨-, e, heq⟩
  · rw [heq]
    exact h.append hatt
  · rw [heq]
    exact h

theorem attachChildren {g : MembershipGraph} (h : Structural g.edges)
    (parent : ComponentConceptId) (targets : List ComponentConceptId) :
    Structural (attachChildren g parent targets).2.edges := by
  induction targets generalizing g with
  | nil => exact h
  | cons target rest ih =>
    have hnext := h.attachChild parent target
    rcases hatt : LawNexus.attachChild g parent target with ⟨a, g'⟩
    rw [hatt] at hnext
    cases a with
    | error e => simpa [LawNexus.attachChildren, hatt] using hnext
    | ok u => simpa [LawNexus.attachChildren, hatt] using ih hnext

/-- The new name is on no edge, so renaming keeps different ends different. -/
theorem rewrite {g g' : MembershipGraph} (h : Structural g.edges)
    {src dst : ComponentConceptId} (hrw : rewriteComponentId g src dst = .ok g') :
    Structural g'.edges := by
  unfold rewriteComponentId at hrw
  split_ifs at hrw with hne hfree
  obtain rfl := Except.ok.inj hrw
  have free : ∀ e ∈ g.edges, e.parent ≠ dst ∧ e.child ≠ dst := by
    intro e he
    exact ⟨fun hp => hfree ⟨e, he, Or.inl hp⟩, fun hc => hfree ⟨e, he, Or.inr hc⟩⟩
  have rename_inj : ∀ {a b : ComponentConceptId}, a ≠ dst → b ≠ dst →
      (if a = src then dst else a) = (if b = src then dst else b) → a = b := by
    intro a b ha hb hab
    split_ifs at hab with has hbs hbs
    · rw [has, hbs]
    · exact absurd hab.symm hb
    · exact absurd hab ha
    · exact hab
  constructor
  · simp only [List.map_map, Function.comp_def, MembershipEdge.rewrite]
    rw [List.nodup_map_iff_inj_on (List.nodup_attach.mpr (List.Nodup.of_map _ h.oneParent))]
    rintro ⟨e, he⟩ - ⟨f, hf⟩ - hef
    have := h.child_unique he hf (rename_inj (free e he).2 (free f hf).2 hef)
    exact Subtype.ext this
  · simp only [List.mem_map, List.mem_attach, true_and, Subtype.exists]
    rintro e ⟨e, he, rfl⟩ f ⟨f, hf, rfl⟩ ⟨hp, hc⟩
    exact h.noReverse e he f hf
      ⟨rename_inj (free f hf).1 (free e he).2 hp, rename_inj (free f hf).2 (free e he).1 hc⟩

theorem applyKind {g : MembershipGraph} (h : Structural g.edges) {r : IndustrialOpRequest}
    (hr : Planned r) : Structural (applyKind g r).2.edges := by
  have huntouched : ∀ ids, Structural (untouched g ids) := fun ids =>
    h.sublist List.filter_sublist
  cases hr with
  | renumber src dst kind subjects targets =>
    rw [applyKind_renumber kind subjects targets]
    unfold applyRenumber
    cases hrw : rewriteComponentId g src dst with
    | error e => exact h
    | ok g' => exact h.rewrite hrw
  | move subject newParent kind subjects targets =>
    rw [applyKind_move kind subjects targets]
    exact attachChild (h.sublist List.filter_sublist) newParent subject
  | split subject kind subjects =>
    rw [applyKind_split kind subjects]
    cases g.parentOf subject with
    | none => exact huntouched [subject]
    | some parent => exact attachChildren (huntouched [subject]) parent r.targets
  | merge target kind targets =>
    rw [applyKind_merge kind targets]
    cases firstParent g r.subjects with
    | none => exact huntouched r.subjects
    | some parent => exact attachChild (huntouched r.subjects) parent target

theorem run {g : MembershipGraph} (h : Structural g.edges) (call : MembershipCall) :
    Structural (call.run g).edges := by
  cases call with
  | insert edge =>
    simp only [MembershipCall.run]
    cases hins : g.insert edge with
    | error e => exact h
    | ok g' => exact h.insert hins
  | apply log request plan =>
    simp only [MembershipCall.run]
    by_cases href : Refused g log request plan
    · obtain ⟨e, heq⟩ := apply_refused href
      rw [heq]
      exact h
    · obtain ⟨hplanned, hgraph, -⟩ := apply_started href
      rw [hgraph]
      exact h.applyKind hplanned

end Structural

theorem Reachable.structural {g : MembershipGraph} (h : Reachable g) : Structural g.edges :=
  h.induction (P := fun g => Structural g.edges)
    ⟨List.nodup_nil, by simp [MembershipGraph.empty]⟩ fun _ call hg => hg.run call

/-! ## The theorem -/

/-- In every graph that a run can build no edge stands twice, no component has two parents,
and the parent links never come back after one step or after two. -/
theorem reachable_single_parent {g : MembershipGraph} (h : Reachable g) :
    g.edges.Nodup ∧ (∀ e ∈ g.edges, ∀ f ∈ g.edges, e.child = f.child → e = f) ∧
      ∀ c p, g.parentOf c = some p → p ≠ c ∧ g.parentOf p ≠ some c := by
  have hs := h.structural
  refine ⟨List.Nodup.of_map _ hs.oneParent, fun e he f hf => hs.child_unique he hf, ?_⟩
  intro c p hp
  obtain ⟨e, he, rfl, rfl⟩ := MembershipGraph.exists_edge_of_parentOf hp
  refine ⟨e.distinct, fun hback => ?_⟩
  obtain ⟨f, hf, hfp, hfc⟩ := MembershipGraph.exists_edge_of_parentOf hback
  exact hs.noReverse e he f hf ⟨hfp, hfc⟩

theorem reachable_single_parent_sample :
    Sample.graph.edges.Nodup ∧
      (∀ e ∈ Sample.graph.edges, ∀ f ∈ Sample.graph.edges, e.child = f.child → e = f) ∧
      ∀ c p, Sample.graph.parentOf c = some p → p ≠ c ∧ Sample.graph.parentOf p ≠ some c :=
  reachable_single_parent ⟨Sample.graph.edges.map .insert, by decide⟩

/-- Three edges in a ring: each of them passes the look for its reverse edge. -/
theorem ring_reachable : ¬ ∀ g, Reachable g →
    g.edges.Nodup ∧ (∀ e ∈ g.edges, ∀ f ∈ g.edges, e.child = f.child → e = f) ∧
      Forest.Acyclic g.parentOf := by
  intro h
  let a : ComponentConceptId := ⟨"cc:a", rfl⟩
  let b : ComponentConceptId := ⟨"cc:b", rfl⟩
  let c : ComponentConceptId := ⟨"cc:c", rfl⟩
  let ring : MembershipGraph :=
    ⟨[⟨a, b, by decide⟩, ⟨b, c, by decide⟩, ⟨c, a, by decide⟩]⟩
  have hrun : Reachable ring := by
    refine ⟨ring.edges.map .insert, ?_⟩
    decide
  have hab : ring.parentOf b = some a := by decide
  have hbc : ring.parentOf c = some b := by decide
  have hca : ring.parentOf a = some c := by decide
  exact (h ring hrun).2.2 a
    (.trans (.tail (.single hab) hbc) (.single hca))

end LawNexus
