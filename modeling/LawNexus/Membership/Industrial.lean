import LawNexus.Membership.Graph

/-!
# What an industrial operation does to the graph

One lemma for each way a call can go. From them: when a refused call leaves the graph
as it was, and which components keep their parent.
-/

namespace LawNexus

/-! ## Lookups -/

namespace MembershipGraph

theorem parentOf_eq_none {g : MembershipGraph} {c : ComponentConceptId} :
    g.parentOf c = none ↔ ∀ e ∈ g.edges, e.child ≠ c := by
  simp [parentOf]

theorem exists_edge_of_parentOf {g : MembershipGraph} {c p : ComponentConceptId}
    (h : g.parentOf c = some p) : ∃ e ∈ g.edges, e.parent = p ∧ e.child = c := by
  simp only [parentOf, Option.map_eq_some_iff] at h
  obtain ⟨e, he, hp⟩ := h
  exact ⟨e, List.mem_of_find?_eq_some he, hp, by simpa using List.find?_some he⟩

/-- New edges for other children at the end of the list change no lookup. -/
theorem parentOf_append {g : MembershipGraph} {new : List MembershipEdge} {c : ComponentConceptId}
    (h : ∀ e ∈ new, e.child ≠ c) : parentOf ⟨g.edges ++ new⟩ c = g.parentOf c := by
  have hnone : new.find? (fun e => e.child = c) = none := by simpa using h
  simp only [parentOf, List.find?_append, hnone, Option.or_none]

/-- Dropped edges change no lookup that found an edge which stays. -/
theorem parentOf_filter {g : MembershipGraph} {keep : MembershipEdge → Bool}
    {c p : ComponentConceptId} (h : g.parentOf c = some p)
    (hkeep : ∀ e ∈ g.edges, e.child = c → e.parent = p → keep e = true) :
    parentOf ⟨g.edges.filter keep⟩ c = some p := by
  simp only [parentOf, Option.map_eq_some_iff] at h ⊢
  obtain ⟨e, he, rfl⟩ := h
  refine ⟨e, ?_, rfl⟩
  obtain ⟨hc, before, after, hsplit, hbefore⟩ := List.find?_eq_some_iff_append.mp he
  have hmem : e ∈ g.edges := by rw [hsplit]; simp
  rw [List.find?_eq_some_iff_append]
  refine ⟨hc, before.filter keep, after.filter keep, ?_, ?_⟩
  · rw [hsplit, List.filter_append, List.filter_cons_of_pos (hkeep e hmem (by simpa using hc) rfl)]
  · intro a ha
    exact hbefore a (List.mem_of_mem_filter ha)

end MembershipGraph

/-- The edges that touch none of these components. -/
def untouched (g : MembershipGraph) (ids : List ComponentConceptId) : List MembershipEdge :=
  g.edges.filter (fun e => ∀ id ∈ ids, ¬ e.Touches id)

theorem mem_untouched {g : MembershipGraph} {ids : List ComponentConceptId} {e : MembershipEdge} :
    e ∈ untouched g ids ↔ e ∈ g.edges ∧ ∀ id ∈ ids, ¬ e.Touches id := by
  simp [untouched]

theorem foldl_removeEdgesInvolving (g : MembershipGraph) (ids : List ComponentConceptId) :
    ids.foldl removeEdgesInvolving g = ⟨untouched g ids⟩ := by
  induction ids generalizing g with
  | nil => simp [untouched]
  | cons id rest ih =>
    rw [List.foldl_cons, ih]
    simp only [untouched, removeEdgesInvolving, List.filter_filter, MembershipGraph.mk.injEq]
    apply List.filter_congr
    intro e _
    simp [Bool.and_comm]

theorem removeEdgesInvolving_eq (g : MembershipGraph) (id : ComponentConceptId) :
    removeEdgesInvolving g id = ⟨untouched g [id]⟩ :=
  foldl_removeEdgesInvolving g [id]

/-! ## Attaching -/

/-- Nothing refuses a new edge from `parent` to `child`. -/
def Attachable (edges : List MembershipEdge) (parent child : ComponentConceptId) : Prop :=
  parent ≠ child ∧ (∀ e ∈ edges, ¬ (e.parent = child ∧ e.child = parent)) ∧
    ∀ e ∈ edges, e.child ≠ child

theorem insert_ok_iff {g g' : MembershipGraph} {edge : MembershipEdge} :
    g.insert edge = .ok g' ↔
      Attachable g.edges edge.parent edge.child ∧ g' = ⟨g.edges ++ [edge]⟩ := by
  unfold MembershipGraph.insert Attachable
  split_ifs with hdup hrev hchild
  · obtain ⟨e, he, -, hc⟩ := hdup
    simp only [false_iff]
    rintro ⟨⟨-, -, hnone⟩, -⟩
    exact hnone e he hc
  · obtain ⟨e, he, hr⟩ := hrev
    simp only [false_iff]
    rintro ⟨⟨-, hnone, -⟩, -⟩
    exact hnone e he hr
  · obtain ⟨e, he, hc⟩ := hchild
    simp only [false_iff]
    rintro ⟨⟨-, -, hnone⟩, -⟩
    exact hnone e he hc
  · push Not at hrev hchild
    simp only [Except.ok.injEq]
    constructor
    · rintro rfl
      exact ⟨⟨edge.distinct, fun e he h => hrev e he h.1 h.2, hchild⟩, rfl⟩
    · rintro ⟨-, rfl⟩
      rfl

theorem attachChild_cases (g : MembershipGraph) (parent child : ComponentConceptId) :
    (∃ h : Attachable g.edges parent child,
      attachChild g parent child = (.ok (), ⟨g.edges ++ [⟨parent, child, h.1⟩]⟩)) ∨
    (¬ Attachable g.edges parent child ∧ ∃ e, attachChild g parent child = (.error e, g)) := by
  by_cases hself : parent = child
  · right
    refine ⟨fun h => h.1 hself, .selfMembership, ?_⟩
    simp [attachChild, MembershipEdge.tryNew, hself]
  · have hnew : MembershipEdge.tryNew parent child = .ok ⟨parent, child, hself⟩ := by
      simp [MembershipEdge.tryNew, hself]
    cases hins : g.insert ⟨parent, child, hself⟩ with
    | ok g' =>
      obtain ⟨hatt, rfl⟩ := insert_ok_iff.mp hins
      exact Or.inl ⟨hatt, by simp [attachChild, hnew, hins]⟩
    | error e =>
      refine Or.inr ⟨fun hatt => ?_, e, by simp [attachChild, hnew, hins]⟩
      rw [insert_ok_iff.mpr ⟨hatt, rfl⟩] at hins
      exact absurd hins (by simp)

/-- The loop only appends, and only edges from the parent to one of the targets. -/
theorem attachChildren_appends (g : MembershipGraph) (parent : ComponentConceptId)
    (targets : List ComponentConceptId) :
    ∃ new, (attachChildren g parent targets).2 = ⟨g.edges ++ new⟩ ∧
      ∀ e ∈ new, e.parent = parent ∧ e.child ∈ targets := by
  induction targets generalizing g with
  | nil => exact ⟨[], by simp [attachChildren], by simp⟩
  | cons target rest ih =>
    rcases attachChild_cases g parent target with ⟨hatt, heq⟩ | ⟨-, e, heq⟩
    · obtain ⟨new, hnew, hall⟩ := ih ⟨g.edges ++ [⟨parent, target, hatt.1⟩]⟩
      refine ⟨⟨parent, target, hatt.1⟩ :: new, by simp [attachChildren, heq, hnew], ?_⟩
      intro e he
      rcases List.mem_cons.mp he with rfl | he
      · exact ⟨rfl, List.mem_cons_self⟩
      · exact ⟨(hall e he).1, List.mem_cons_of_mem _ (hall e he).2⟩
    · exact ⟨[], by simp [attachChildren, heq], by simp⟩

/-- A new child of one parent does not stand in the way of another new child. -/
theorem attachable_append {edges : List MembershipEdge} {parent target t : ComponentConceptId}
    (hself : parent ≠ target) (hne : t ≠ target) :
    Attachable (edges ++ [⟨parent, target, hself⟩]) parent t ↔ Attachable edges parent t := by
  simp only [Attachable, List.forall_mem_append, List.forall_mem_singleton]
  constructor
  · rintro ⟨h1, ⟨h2, -⟩, h3, -⟩
    exact ⟨h1, h2, h3⟩
  · rintro ⟨h1, h2, h3⟩
    exact ⟨h1, ⟨h2, fun h => hself h.2.symm⟩, h3, Ne.symm hne⟩

theorem attachChildren_ok_iff (g : MembershipGraph) (parent : ComponentConceptId)
    {targets : List ComponentConceptId} (hnd : targets.Nodup) :
    (attachChildren g parent targets).1 = .ok () ↔
      ∀ t ∈ targets, Attachable g.edges parent t := by
  induction targets generalizing g with
  | nil => simp [attachChildren]
  | cons target rest ih =>
    obtain ⟨hfresh, hnd⟩ := List.nodup_cons.mp hnd
    rcases attachChild_cases g parent target with ⟨hatt, heq⟩ | ⟨hno, e, heq⟩
    · simp only [attachChildren, heq, List.forall_mem_cons, ih _ hnd]
      constructor
      · intro h
        refine ⟨hatt, fun t ht => ?_⟩
        exact (attachable_append hatt.1 (fun heq => hfresh (heq ▸ ht))).mp (h t ht)
      · rintro ⟨-, h⟩ t ht
        exact (attachable_append hatt.1 (fun heq => hfresh (heq ▸ ht))).mpr (h t ht)
    · simp [attachChildren, heq, hno]

/-! ## The ways a call can go -/

theorem hasRepeat_eq_false {seen l : List ComponentConceptId} :
    hasRepeat seen l = false ↔ l.Nodup ∧ ∀ t ∈ l, t ∉ seen := by
  induction l generalizing seen with
  | nil => simp [hasRepeat]
  | cons t rest ih =>
    by_cases h : t ∈ seen
    · simp [hasRepeat, h]
    · simp only [hasRepeat, if_neg h, ih, List.nodup_cons, List.forall_mem_cons, List.mem_append,
        List.mem_singleton, not_or]
      constructor
      · rintro ⟨hnd, hall⟩
        exact ⟨⟨fun ht => (hall t ht).2 rfl, hnd⟩, h, fun s hs => (hall s hs).1⟩
      · rintro ⟨⟨hfresh, hnd⟩, -, hall⟩
        exact ⟨hnd, fun s hs => ⟨hall s hs, fun heq => hfresh (heq ▸ hs)⟩⟩

/-- The requests that a plan accepts. -/
inductive Planned (r : IndustrialOpRequest) : Prop
  | renumber (src dst : ComponentConceptId) (kind : r.kind = .renumber)
      (subjects : r.subjects = [src]) (targets : r.targets = [dst]) (distinct : src ≠ dst)
  | move (subject newParent : ComponentConceptId) (kind : r.kind = .move)
      (subjects : r.subjects = [subject]) (targets : r.targets = [newParent])
      (distinct : subject ≠ newParent)
  | split (subject : ComponentConceptId) (kind : r.kind = .split)
      (subjects : r.subjects = [subject]) (fresh : subject ∉ r.targets)
      (targets : r.targets.Nodup)
  | merge (target : ComponentConceptId) (kind : r.kind = .merge)
      (targets : r.targets = [target]) (fresh : target ∉ r.subjects)

theorem planned_of_plan {g : MembershipGraph} {r : IndustrialOpRequest} {plan : IndustrialOpPlan}
    (h : planIndustrialOp g r = .ok plan) : Planned r := by
  simp only [planIndustrialOp] at h
  rw [ite_eq_iff] at h
  obtain ⟨-, h⟩ := h.resolve_left (by simp)
  cases hkind : r.kind with
  | renumber | move =>
    simp only [hkind] at h
    split_ifs at h with hlen heq
    simp only [ne_eq, not_or, not_not, List.length_eq_one_iff] at hlen
    obtain ⟨⟨src, hs⟩, dst, ht⟩ := hlen
    have hne : src ≠ dst := by simpa [hs, ht] using heq
    first
      | exact .renumber src dst hkind hs ht hne
      | exact .move src dst hkind hs ht hne
  | split =>
    simp only [hkind] at h
    split_ifs at h with hlen heq hrep
    simp only [ne_eq, not_or, not_not, List.length_eq_one_iff] at hlen
    obtain ⟨⟨subject, hs⟩, -⟩ := hlen
    rw [Bool.not_eq_true, hasRepeat_eq_false] at hrep
    exact .split subject hkind hs (by simpa [hs] using heq) hrep.1
  | merge =>
    simp only [hkind] at h
    split_ifs at h with hlen heq hrep
    simp only [ne_eq, not_or, not_not, List.length_eq_one_iff] at hlen
    obtain ⟨-, target, ht⟩ := hlen
    exact .merge target hkind ht (by simpa [ht] using heq)

/-- A check before the match on the kind refuses the call. -/
def Refused (g : MembershipGraph) (l : StructuralEventLog) (r : IndustrialOpRequest)
    (p : IndustrialOpPlan) : Prop :=
  (p.opId ≠ r.opId ∨ p.kind ≠ r.kind ∨ p.provenance ≠ r.provenance) ∨
    (∃ e, planIndustrialOp g r = .error e) ∨ l.containsOp r.opId

theorem apply_refused {g : MembershipGraph} {l : StructuralEventLog} {r : IndustrialOpRequest}
    {p : IndustrialOpPlan} (h : Refused g l r p) :
    ∃ e, applyIndustrialOp g l r p = ⟨.error e, g, l⟩ := by
  unfold applyIndustrialOp
  by_cases hmis : p.opId ≠ r.opId ∨ p.kind ≠ r.kind ∨ p.provenance ≠ r.provenance
  · exact ⟨.planMismatch, if_pos hmis⟩
  rw [if_neg hmis]
  cases hplan : planIndustrialOp g r with
  | error e => exact ⟨e, rfl⟩
  | ok plan =>
    have hdup : l.containsOp r.opId := by
      rcases h with h | ⟨e, h⟩ | h
      · exact absurd h hmis
      · rw [hplan] at h; exact absurd h (by simp)
      · exact h
    exact ⟨.duplicateOpId, if_pos hdup⟩

/-- A call that is not refused runs the branch of its kind, on a request of the planned shape. -/
theorem apply_started {g : MembershipGraph} {l : StructuralEventLog} {r : IndustrialOpRequest}
    {p : IndustrialOpPlan} (h : ¬ Refused g l r p) :
    Planned r ∧ (applyIndustrialOp g l r p).graph = (applyKind g r).2 ∧
      ((∃ e, (applyIndustrialOp g l r p).answer = .error e) ↔ (applyKind g r).1 ≠ .ok ()) ∧
      ((applyKind g r).1 ≠ .ok () → (applyIndustrialOp g l r p).log = l) := by
  simp only [Refused, not_or] at h
  obtain ⟨hmis, hplan, hdup⟩ := h
  cases hp : planIndustrialOp g r with
  | error e => exact absurd ⟨e, hp⟩ hplan
  | ok plan =>
    refine ⟨planned_of_plan hp, ?_⟩
    have hm : ¬ (p.opId ≠ r.opId ∨ p.kind ≠ r.kind ∨ p.provenance ≠ r.provenance) := by
      simpa only [not_or] using hmis
    rcases hk : applyKind g r with ⟨a, g'⟩
    simp only [applyIndustrialOp, if_neg hm, hp, if_neg hdup, hk]
    cases a with
    | error e => simp
    | ok u => simp

/-! ## The branches -/

theorem applyKind_move {g : MembershipGraph} {r : IndustrialOpRequest}
    {subject newParent : ComponentConceptId} (kind : r.kind = .move)
    (subjects : r.subjects = [subject]) (targets : r.targets = [newParent]) :
    applyKind g r =
      attachChild ⟨g.edges.filter (fun e => e.child ≠ subject)⟩ newParent subject := by
  simp only [applyKind, kind, subjects, targets, applyMove]

theorem applyKind_renumber {g : MembershipGraph} {r : IndustrialOpRequest}
    {src dst : ComponentConceptId} (kind : r.kind = .renumber)
    (subjects : r.subjects = [src]) (targets : r.targets = [dst]) :
    applyKind g r = applyRenumber g src dst := by
  simp only [applyKind, kind, subjects, targets]

theorem applyKind_split {g : MembershipGraph} {r : IndustrialOpRequest}
    {subject : ComponentConceptId} (kind : r.kind = .split) (subjects : r.subjects = [subject]) :
    applyKind g r = match g.parentOf subject with
      | none => (.ok (), ⟨untouched g [subject]⟩)
      | some parent => attachChildren ⟨untouched g [subject]⟩ parent r.targets := by
  cases hp : g.parentOf subject with
  | none => simp only [applyKind, kind, subjects, applySplit, hp, removeEdgesInvolving_eq]
  | some parent => simp only [applyKind, kind, subjects, applySplit, hp, removeEdgesInvolving_eq]

theorem applyKind_merge {g : MembershipGraph} {r : IndustrialOpRequest}
    {target : ComponentConceptId} (kind : r.kind = .merge) (targets : r.targets = [target]) :
    applyKind g r = match firstParent g r.subjects with
      | none => (.ok (), ⟨untouched g r.subjects⟩)
      | some parent => attachChild ⟨untouched g r.subjects⟩ parent target := by
  cases hp : firstParent g r.subjects with
  | none => simp only [applyKind, kind, targets, applyMerge, hp, foldl_removeEdgesInvolving]
  | some parent =>
    simp only [applyKind, kind, targets, applyMerge, hp, foldl_removeEdgesInvolving]

/-! ## A refused call -/

/-- On a request of the planned shape, the branch of its kind refuses nothing after it has
dropped an edge. -/
def SafeToApply (g : MembershipGraph) (r : IndustrialOpRequest) : Prop :=
  match r.kind, r.subjects, r.targets with
  | .move, [subject], [newParent] =>
    g.parentOf subject = none ∨ ∀ e ∈ g.edges, ¬ (e.parent = subject ∧ e.child = newParent)
  | .split, [subject], targets =>
    ∀ parent, g.parentOf subject = some parent →
      ∀ t ∈ targets, Attachable (untouched g [subject]) parent t
  | .merge, subjects, [target] =>
    ∀ parent, firstParent g subjects = some parent →
      Attachable (untouched g subjects) parent target
  | _, _, _ => True

/-- A branch that refuses leaves the graph as it was. -/
def RefusesUnchanged (g : MembershipGraph) (result : BranchResult) : Prop :=
  result.1 ≠ .ok () → result.2 = g

/-- An edge of the graph that is gone from a refused branch shows that the graph changed. -/
theorem not_refusesUnchanged {g : MembershipGraph} {result : BranchResult} {e : MembershipEdge}
    (he : e ∈ g.edges) (hgone : e ∉ result.2.edges) (herr : result.1 ≠ .ok ()) :
    ¬ RefusesUnchanged g result := by
  intro h
  rw [h herr] at hgone
  exact hgone he

theorem applyRenumber_refusesUnchanged (g : MembershipGraph) (src dst : ComponentConceptId) :
    RefusesUnchanged g (applyRenumber g src dst) := by
  unfold RefusesUnchanged applyRenumber
  cases rewriteComponentId g src dst with
  | error e => exact fun _ => rfl
  | ok g' => exact fun h => absurd rfl h

theorem attachChild_refusesUnchanged (g : MembershipGraph) (parent child : ComponentConceptId) :
    RefusesUnchanged g (attachChild g parent child) := by
  rcases attachChild_cases g parent child with ⟨hatt, heq⟩ | ⟨-, e, heq⟩
  · simp [RefusesUnchanged, heq]
  · simp [RefusesUnchanged, heq]

theorem applyMove_refusesUnchanged_iff {g : MembershipGraph}
    {subject newParent : ComponentConceptId} (hne : subject ≠ newParent) :
    RefusesUnchanged g (applyMove g subject newParent) ↔
      g.parentOf subject = none ∨
        ∀ e ∈ g.edges, ¬ (e.parent = subject ∧ e.child = newParent) := by
  unfold applyMove
  constructor
  · intro h
    by_contra hcon
    push Not at hcon
    obtain ⟨hparent, back, hback, hp, hc⟩ := hcon
    obtain ⟨p, hparent⟩ := Option.ne_none_iff_exists'.mp hparent
    obtain ⟨old, hold, -, holdc⟩ := MembershipGraph.exists_edge_of_parentOf hparent
    have hkept : back ∈ g.edges.filter (fun e => e.child ≠ subject) := by
      simp [hback, hc, hne.symm]
    rcases attachChild_cases ⟨g.edges.filter (fun e => e.child ≠ subject)⟩ newParent subject with
      ⟨hatt, -⟩ | ⟨-, e, heq⟩
    · exact hatt.2.1 back hkept ⟨hp, hc⟩
    · refine not_refusesUnchanged hold ?_ ?_ h
      · rw [heq]
        simp [holdc]
      · rw [heq]
        simp
  · rintro (hnone | hback)
    · have hall : g.edges.filter (fun e => e.child ≠ subject) = g.edges := by
        rw [List.filter_eq_self]
        simpa using MembershipGraph.parentOf_eq_none.mp hnone
      rw [hall]
      exact attachChild_refusesUnchanged g newParent subject
    · rcases attachChild_cases ⟨g.edges.filter (fun e => e.child ≠ subject)⟩ newParent subject with
        ⟨hatt, heq⟩ | ⟨hno, -⟩
      · rw [heq]
        simp [RefusesUnchanged]
      · refine absurd ⟨hne.symm, ?_, ?_⟩ hno
        · exact fun e he => hback e (List.mem_of_mem_filter he)
        · simp

theorem attachChildren_refusesUnchanged_iff {g : MembershipGraph}
    {subject parent : ComponentConceptId} {targets : List ComponentConceptId}
    (hparent : g.parentOf subject = some parent) (hfresh : subject ∉ targets)
    (hnd : targets.Nodup) :
    RefusesUnchanged g (attachChildren ⟨untouched g [subject]⟩ parent targets) ↔
      ∀ t ∈ targets, Attachable (untouched g [subject]) parent t := by
  obtain ⟨old, hold, -, hc⟩ := MembershipGraph.exists_edge_of_parentOf hparent
  obtain ⟨new, hnew, hall⟩ := attachChildren_appends ⟨untouched g [subject]⟩ parent targets
  have hok := attachChildren_ok_iff ⟨untouched g [subject]⟩ parent hnd
  constructor
  · intro h
    by_contra hcon
    refine not_refusesUnchanged hold ?_ (fun h => hcon (hok.mp h)) h
    rw [hnew, List.mem_append, mem_untouched]
    rintro (⟨-, hun⟩ | hmem)
    · exact hun subject (by simp) (Or.inr hc)
    · exact hfresh (hc ▸ (hall old hmem).2)
  · exact fun h hne => absurd (hok.mpr h) hne

theorem attachMerged_refusesUnchanged_iff {g : MembershipGraph}
    {parent target : ComponentConceptId} {subjects : List ComponentConceptId}
    (hparent : firstParent g subjects = some parent) :
    RefusesUnchanged g (attachChild ⟨untouched g subjects⟩ parent target) ↔
      Attachable (untouched g subjects) parent target := by
  obtain ⟨s, hs, hsp⟩ := List.exists_of_findSome?_eq_some hparent
  obtain ⟨old, hold, -, hc⟩ := MembershipGraph.exists_edge_of_parentOf hsp
  rcases attachChild_cases ⟨untouched g subjects⟩ parent target with ⟨hatt, heq⟩ | ⟨hno, e, heq⟩
  · simp [RefusesUnchanged, heq, hatt]
  · refine iff_of_false (not_refusesUnchanged hold ?_ (by simp [heq])) hno
    rw [heq]
    exact fun hmem => (mem_untouched.mp hmem).2 s hs (Or.inr hc)

theorem applyKind_refusesUnchanged_iff {g : MembershipGraph} {r : IndustrialOpRequest}
    (hr : Planned r) : RefusesUnchanged g (applyKind g r) ↔ SafeToApply g r := by
  cases hr with
  | renumber src dst kind subjects targets =>
    rw [applyKind_renumber kind subjects targets]
    simp only [SafeToApply, kind, iff_true]
    exact applyRenumber_refusesUnchanged g src dst
  | move subject newParent kind subjects targets distinct =>
    rw [applyKind_move kind subjects targets]
    simp only [SafeToApply, kind, subjects, targets]
    exact applyMove_refusesUnchanged_iff distinct
  | split subject kind subjects fresh targets =>
    rw [applyKind_split kind subjects]
    simp only [SafeToApply, kind, subjects]
    cases hp : g.parentOf subject with
    | none => simp [RefusesUnchanged]
    | some parent =>
      simpa using attachChildren_refusesUnchanged_iff hp fresh targets
  | merge target kind targets fresh =>
    rw [applyKind_merge kind targets]
    simp only [SafeToApply, kind, targets]
    cases hp : firstParent g r.subjects with
    | none => simp [RefusesUnchanged]
    | some parent =>
      simpa using attachMerged_refusesUnchanged_iff hp

/-- A call that answers with an error gives the graph and the log back as they were exactly
when a check before the first change refuses it, or no edge that its kind inserts is refused
once the old edges are gone. -/
theorem apply_error_unchanged_iff (g : MembershipGraph) (l : StructuralEventLog)
    (r : IndustrialOpRequest) (p : IndustrialOpPlan) :
    (∀ e, (applyIndustrialOp g l r p).answer = .error e →
        (applyIndustrialOp g l r p).graph = g ∧ (applyIndustrialOp g l r p).log = l) ↔
      Refused g l r p ∨ SafeToApply g r := by
  by_cases href : Refused g l r p
  · obtain ⟨e, heq⟩ := apply_refused href
    simp [heq, href]
  · obtain ⟨hplanned, hgraph, hanswer, hlog⟩ := apply_started href
    rw [or_iff_right href, ← applyKind_refusesUnchanged_iff hplanned, hgraph]
    constructor
    · intro h hne
      obtain ⟨e, he⟩ := hanswer.mpr hne
      exact (h e he).1
    · intro h e he
      have hne := hanswer.mp ⟨e, he⟩
      exact ⟨h hne, hlog hne⟩

/-! ### A statute with one section of one article -/

namespace Sample

def graph : MembershipGraph :=
  ⟨[⟨statute, chapter, statute_ne_chapter⟩, ⟨chapter, article, chapter_ne_article⟩]⟩

def request (kind : CtvIndustrialOpKind) (targets : List ComponentConceptId) :
    IndustrialOpRequest :=
  ⟨⟨"op:1", rfl⟩, kind, [chapter], targets, act⟩

def plan (kind : CtvIndustrialOpKind) : IndustrialOpPlan :=
  ⟨⟨"op:1", rfl⟩, kind, act, f08NonClaims⟩

end Sample

/-- A chapter moved below its own article: the answer is `MembershipCycle`, and the edge from
the statute to the chapter is gone. -/
theorem apply_error_drops_edge :
    ¬ ∀ g l r p e, (applyIndustrialOp g l r p).answer = .error e →
      (applyIndustrialOp g l r p).graph = g ∧ (applyIndustrialOp g l r p).log = l := by
  intro h
  have hgraph := (h Sample.graph .empty (Sample.request .move [Sample.article])
    (Sample.plan .move) .membershipCycle (by decide)).1
  exact absurd hgraph (by decide)

end LawNexus
