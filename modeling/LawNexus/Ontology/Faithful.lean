import LawNexus.Membership.Ast
import LawNexus.Ontology.Admission

/-!
# What the gate admits, the fold gives back

The gate and the fold are two engines over the same edges: one walks the chain of parents of
an edge list, the other replays a log by days and recurses from the roots. The edges that the
gate admits are a forest, and the tree of the committed log has exactly these edges.
-/

namespace LawNexus

open Forest Loops

/-! ## The walk -/

section

variable {edges : List (ComponentConceptId × ComponentConceptId)}

/-- Each entry of the list read as a link from its child. -/
def edgeLinks (edges : List (ComponentConceptId × ComponentConceptId)) :
    Links ComponentConceptId := fun child => (edges.find? fun e => e.1 = child).map (·.2)

/-- Where the chain ends, the walk with enough fuel finds the child exactly when the chain
comes to it. The ids it has been at are below the one it is at, so it never meets them. -/
theorem walkMeets_iff {child current : ComponentConceptId} {fuel n : Nat}
    {visited : List ComponentConceptId} (hdepth : Depth (edgeLinks edges) current n)
    (hfuel : n < fuel) (hvisited : ∀ v ∈ visited, Above (edgeLinks edges) current v) :
    walkMeets edges child fuel visited current = true ↔
      AtOrAbove (edgeLinks edges) child current := by
  induction fuel generalizing current n visited with
  | zero => omega
  | succ fuel ih =>
    rw [walkMeets]
    by_cases hmeet : current = child
    · simp only [if_pos hmeet, true_iff]
      exact hmeet ▸ .refl
    · have hnew : current ∉ visited := fun hmem =>
        Grounded.not_above_self ⟨n, hdepth⟩ (hvisited current hmem)
      rw [if_neg hmeet, if_neg hnew]
      cases hnext : (edges.find? fun e => e.1 = current).map (·.2) with
      | none =>
        rw [atOrAbove_top hnext]
        simp [Ne.symm hmeet]
      | some next =>
        obtain ⟨k, rfl, hk⟩ := hdepth.parent hnext
        rw [atOrAbove_parent hnext, or_iff_right (Ne.symm hmeet)]
        refine ih hk (by omega) fun v hv => ?_
        rcases List.mem_cons.mp hv with rfl | hv
        · exact .single hnext
        · exact .head hnext (hvisited v hv)

theorem mem_keys_of_edgeLinks {c : ComponentConceptId} (h : edgeLinks edges c ≠ none) :
    c ∈ edges.map (·.1) := by
  obtain ⟨p, hp⟩ := Option.ne_none_iff_exists'.mp h
  obtain ⟨e, he, -⟩ := Option.map_eq_some_iff.mp hp
  have hc : e.1 = c := by simpa using List.find?_some he
  exact hc ▸ List.mem_map_of_mem (List.mem_of_find?_eq_some he)

/-- In a forest, the walk finds the child exactly when it is at or above the parent. -/
theorem createsCycle_iff (h : Acyclic (edgeLinks edges)) {parent child : ComponentConceptId} :
    createsCycle edges parent child = true ↔ AtOrAbove (edgeLinks edges) child parent := by
  have hkeys : ∀ c, edgeLinks edges c ≠ none → c ∈ edges.map (·.1) := fun c =>
    mem_keys_of_edgeLinks
  obtain ⟨n, hn⟩ := grounded_of_acyclic hkeys h parent
  have hlen := hn.le_length hkeys
  rw [List.length_map] at hlen
  exact walkMeets_iff hn (by omega) (by simp)

end

/-! ## The forest that the gate keeps -/

/-- The pairs of a parent and a child. -/
def edgePairs (admitted : List AdmittedMembership) :
    List (ComponentConceptId × ComponentConceptId) :=
  admitted.map fun e => (e.parent, e.child)

structure Admissible (s : AdmitState) : Prop where
  pairs : s.childParents = s.admitted.map fun e => (e.child, e.parent)
  oneEach : (s.childParents.map (·.1)).Nodup
  noSelf : ∀ e ∈ s.admitted, e.parent ≠ e.child
  acyclic : Acyclic (edgeLinks s.childParents)

namespace Admissible

variable {s : AdmitState} {p c : ComponentConceptId}

theorem links_eq_some (h : Admissible s) :
    edgeLinks s.childParents c = some p ↔ ⟨p, c⟩ ∈ s.admitted := by
  have htable := ParentTable.links_eq_some (t := ⟨s.childParents, h.oneEach⟩) (c := c) (p := p)
  refine htable.trans ?_
  simp only [h.pairs, List.mem_map, Prod.mk.injEq]
  constructor
  · rintro ⟨e, he, rfl, rfl⟩
    exact he
  · intro he
    exact ⟨_, he, rfl, rfl⟩

theorem mem_edgePairs (h : Admissible s) :
    (p, c) ∈ edgePairs s.admitted ↔ edgeLinks s.childParents c = some p := by
  rw [h.links_eq_some]
  simp only [edgePairs, List.mem_map, Prod.mk.injEq]
  constructor
  · rintro ⟨e, he, rfl, rfl⟩
    exact he
  · intro he
    exact ⟨_, he, rfl, rfl⟩

/-- One more entry for a child that has none is one more link. -/
theorem links_push (h : Admissible s) (hc : edgeLinks s.childParents c = none) :
    edgeLinks (s.childParents ++ [(c, p)]) = (edgeLinks s.childParents).attach c p := by
  have hfresh : s.childParents.filter (fun e => e.1 ≠ c) = s.childParents := by
    rw [List.filter_eq_self]
    intro e he
    have hnone := List.find?_eq_none.mp (Option.map_eq_none_iff.mp hc) e he
    simpa using hnone
  have htable := ParentTable.links_attach ⟨s.childParents, h.oneEach⟩ c p
  simp only [ParentTable.attach, hfresh] at htable
  exact htable

/-- The new edge closes a cycle exactly when the walk finds one. -/
theorem cycleFree_push (h : Admissible s) (hc : edgeLinks s.childParents c = none) :
    CycleFree (edgePairs s.admitted ++ [(p, c)]) ↔
      createsCycle s.childParents p c = false := by
  have hmem : ∀ q d, (q, d) ∈ edgePairs s.admitted ++ [(p, c)] ↔
      (edgeLinks s.childParents).attach c p d = some q := by
    intro q d
    rw [List.mem_append, h.mem_edgePairs, Links.attach_eq_some, List.mem_singleton,
      Prod.mk.injEq, and_comm (a := q = p)]
    refine or_congr_left ⟨fun hd => ⟨?_, hd⟩, And.right⟩
    rintro rfl
    rw [hc] at hd
    exact absurd hd (by simp)
  rw [cycleFree_iff_acyclic hmem, acyclic_attach hc h.acyclic, ← createsCycle_iff h.acyclic,
    Bool.not_eq_true]

/-! ## The fate of one proposal -/

/-- What the loop finds for a proposal that is not its own parent. -/
theorem fateOf_cases (h : Admissible s) (proposal : MembershipProposal)
    (hself : proposal.parent ≠ proposal.child) :
    (edgeLinks s.childParents proposal.child = some proposal.parent ∧
      fateOf s proposal = .duplicate) ∨
    (∃ other, edgeLinks s.childParents proposal.child = some other ∧ other ≠ proposal.parent ∧
      fateOf s proposal = .quarantine (.twoParentConflict other)) ∨
    (edgeLinks s.childParents proposal.child = none ∧
      ¬ CycleFree (edgePairs s.admitted ++ [(proposal.parent, proposal.child)]) ∧
      fateOf s proposal = .quarantine .cycle) ∨
    (edgeLinks s.childParents proposal.child = none ∧
      CycleFree (edgePairs s.admitted ++ [(proposal.parent, proposal.child)]) ∧
      fateOf s proposal = .accept) := by
  have hdup : (∃ edge ∈ s.admitted, edge.parent = proposal.parent ∧ edge.child = proposal.child) ↔
      edgeLinks s.childParents proposal.child = some proposal.parent := by
    rw [h.links_eq_some]
    constructor
    · rintro ⟨⟨p, c⟩, he, rfl, rfl⟩
      exact he
    · intro he
      exact ⟨_, he, rfl, rfl⟩
  unfold fateOf
  rw [if_neg hself]
  cases hlink : edgeLinks s.childParents proposal.child with
  | some other =>
    obtain ⟨⟨c, q⟩, hfind, rfl⟩ := Option.map_eq_some_iff.mp hlink
    by_cases hq : q = proposal.parent
    · rw [if_pos (hdup.mpr (hlink.trans (congrArg some hq)))]
      exact Or.inl ⟨congrArg some hq, rfl⟩
    · have hnot : ¬ ∃ edge ∈ s.admitted,
          edge.parent = proposal.parent ∧ edge.child = proposal.child := by
        rw [hdup, hlink]
        exact fun heq => hq (Option.some.inj heq)
      rw [if_neg hnot, hfind]
      exact Or.inr (Or.inl ⟨q, rfl, hq, rfl⟩)
  | none =>
    have hnot : ¬ ∃ edge ∈ s.admitted,
        edge.parent = proposal.parent ∧ edge.child = proposal.child := by
      rw [hdup, hlink]
      simp
    rw [if_neg hnot, Option.map_eq_none_iff.mp hlink, h.cycleFree_push hlink]
    cases hcycle : createsCycle s.childParents proposal.parent proposal.child with
    | true => exact Or.inr (Or.inr (Or.inl ⟨rfl, by simp, by simp⟩))
    | false => exact Or.inr (Or.inr (Or.inr ⟨rfl, rfl, by simp⟩))

theorem step (h : Admissible s) (proposal : MembershipProposal) :
    Admissible (admitStep s proposal) := by
  unfold admitStep
  cases hfate : fateOf s proposal with
  | duplicate => exact h
  | quarantine reason => exact ⟨h.pairs, h.oneEach, h.noSelf, h.acyclic⟩
  | accept =>
    have hself : proposal.parent ≠ proposal.child := by
      intro heq
      rw [fateOf, if_pos heq] at hfate
      exact absurd hfate (by simp)
    obtain ⟨hnone, hfree⟩ : edgeLinks s.childParents proposal.child = none ∧
        CycleFree (edgePairs s.admitted ++ [(proposal.parent, proposal.child)]) := by
      rcases h.fateOf_cases proposal hself with
        ⟨-, hf⟩ | ⟨other, -, -, hf⟩ | ⟨-, -, hf⟩ | ⟨hnone, hfree, -⟩
      · rw [hf] at hfate; exact absurd hfate (by simp)
      · rw [hf] at hfate; exact absurd hfate (by simp)
      · rw [hf] at hfate; exact absurd hfate (by simp)
      · exact ⟨hnone, hfree⟩
    refine ⟨by simp [h.pairs], ?_, ?_, ?_⟩
    · rw [List.map_append, List.nodup_append]
      refine ⟨h.oneEach, List.nodup_singleton _, ?_⟩
      rintro c hc d hd rfl
      obtain ⟨e, he, rfl⟩ := List.mem_map.mp hc
      have hnot := List.find?_eq_none.mp (Option.map_eq_none_iff.mp hnone) e he
      exact hnot (by simpa using hd)
    · intro e he
      rcases List.mem_append.mp he with he | he
      · exact h.noSelf e he
      · rw [List.mem_singleton.mp he]
        exact hself
    · rw [h.links_push hnone, acyclic_attach hnone h.acyclic, ← createsCycle_iff h.acyclic,
        (h.cycleFree_push hnone).mp hfree]
      simp

theorem loop (proposals : List MembershipProposal) : Admissible (admitLoop proposals) := by
  induction proposals using List.reverseRecOn with
  | nil =>
    refine ⟨rfl, .nil, by simp [admitLoop], fun a ha => ?_⟩
    exact not_above_top rfl ha
  | append_singleton proposals proposal ih =>
    rw [admitLoop, List.foldl_append]
    exact ih.step proposal

end Admissible

/-! ## The commit and the tree -/

section

variable {edges : List AdmittedMembership} {day : Int} {provenance : AmendingActId}

/-- Edges between different components are appended, one event for each. -/
theorem commitEdges_ok (hself : ∀ e ∈ edges, e.parent ≠ e.child) (day : Int)
    (provenance : AmendingActId) (log : VersionedMembershipLog) :
    ∃ new, commitEdges log day provenance edges = (.ok (), ⟨log.events ++ new⟩) ∧
      AttachesOn day (edgePairs edges) new := by
  induction edges generalizing log with
  | nil => exact ⟨[], by simp [commitEdges], rfl⟩
  | cons edge rest ih =>
    obtain ⟨hedge, hrest⟩ := List.forall_mem_cons.mp hself
    obtain ⟨new, hok, hnew⟩ :=
      ih hrest ⟨log.events ++ [⟨.attach, edge.parent, edge.child, day, provenance, hedge⟩]⟩
    refine ⟨⟨.attach, edge.parent, edge.child, day, provenance, hedge⟩ :: new, ?_, ?_⟩
    · simp only [commitEdges, tryNew_ok _ _ _ hedge, VersionedMembershipLog.append, hok,
        List.append_assoc, List.cons_append, List.nil_append]
    · simp only [AttachesOn, List.map_cons, edgePairs]
      rw [AttachesOn, edgePairs] at hnew
      rw [hnew]

theorem mem_applicable_of_attachesOn {new : List VersionedMembershipEvent}
    {pairs : List (ComponentConceptId × ComponentConceptId)} (h : AttachesOn day pairs new) :
    ∀ e, e ∈ applicable ⟨new⟩ day ↔ e ∈ new := by
  intro e
  rw [mem_applicable, and_iff_left_iff_imp]
  intro he
  have := (records_attachesOn h).mp ⟨e, he, rfl, rfl, rfl, rfl⟩
  exact this.2.1.le

/-- A log that attaches each child once on one day replays to these links. -/
theorem replay_attachesOn {new : List VersionedMembershipEvent}
    {pairs : List (ComponentConceptId × ComponentConceptId)} (h : AttachesOn day pairs new)
    (hone : ∀ p q c, (p, c) ∈ pairs → (q, c) ∈ pairs → p = q) :
    ¬ Conflict (applicable ⟨new⟩ day) ∧
      ∀ p c, replayTo ⟨new⟩ day c = some p ↔ (p, c) ∈ pairs := by
  have hmem := mem_applicable_of_attachesOn h
  have hno : ¬ Conflict (applicable ⟨new⟩ day) := by
    rw [conflict_congr hmem]
    rintro ⟨c, p, q, d, hp, hq, hne⟩
    rw [records_attachesOn h] at hp hq
    exact hne (hone p q c hp.2.2 hq.2.2)
  refine ⟨hno, fun p c => ?_⟩
  rw [replayTo_iff hno, alive_congr hmem]
  simp only [Alive, records_attachesOn h, true_and]
  constructor
  · rintro ⟨d, ⟨-, hpc⟩, -⟩
    exact hpc
  · intro hpc
    exact ⟨day, ⟨rfl, hpc⟩, fun later _ => ⟨fun q hq => hone q p c hq.2 hpc, by simp⟩⟩

end

theorem countAstNodes_eq : ∀ nodes : List StructuralAstNode,
    countAstNodes nodes = (RoseTree.nodesOf nodes).length
  | [] => rfl
  | .node c children :: rest => by
    rw [countAstNodes, countAstSubtreeNodes, countAstNodes_eq children, countAstNodes_eq rest,
      RoseTree.nodesOf, RoseTree.nodes, List.length_append, List.length_cons]
    omega

/-! ## The report -/

/-- What the fate of a proposal does to the report. -/
def Fate.Effect (fate : Fate) (proposal : MembershipProposal)
    (before after : MembershipAdmitReport) : Prop :=
  match fate with
  | .accept => after.quarantined = before.quarantined ∧
      after.admitted = before.admitted ++ [⟨proposal.parent, proposal.child⟩]
  | .duplicate => after.quarantined = before.quarantined ∧ after.admitted = before.admitted
  | .quarantine reason => after.admitted = before.admitted ∧ after.quarantined =
      before.quarantined ++ [⟨proposal.parent, proposal.child, reason⟩]

/-- The fate of a proposal against the edges admitted before it. The checks run in this
order: a proposal with several faults has the first one as its reason. -/
structure Fate.Right (fate : Fate) (proposal : MembershipProposal)
    (admitted : List AdmittedMembership) : Prop where
  selfParent : fate = .quarantine .selfParent ↔ proposal.parent = proposal.child
  duplicate : fate = .duplicate ↔ proposal.parent ≠ proposal.child ∧
    ⟨proposal.parent, proposal.child⟩ ∈ admitted
  twoParents : ∀ other, fate = .quarantine (.twoParentConflict other) ↔
    proposal.parent ≠ proposal.child ∧ other ≠ proposal.parent ∧
      ⟨other, proposal.child⟩ ∈ admitted
  cycle : fate = .quarantine .cycle ↔ proposal.parent ≠ proposal.child ∧
    (∀ other, ⟨other, proposal.child⟩ ∉ admitted) ∧
      ¬ CycleFree (edgePairs admitted ++ [(proposal.parent, proposal.child)])
  accept : fate = .accept ↔ proposal.parent ≠ proposal.child ∧
    (∀ other, ⟨other, proposal.child⟩ ∉ admitted) ∧
      CycleFree (edgePairs admitted ++ [(proposal.parent, proposal.child)])

theorem Fate.Right.unique {fate fate' : Fate} {proposal : MembershipProposal}
    {admitted : List AdmittedMembership} (h : fate.Right proposal admitted)
    (h' : fate'.Right proposal admitted) : fate' = fate := by
  cases fate with
  | accept => exact h'.accept.mpr (h.accept.mp rfl)
  | duplicate => exact h'.duplicate.mpr (h.duplicate.mp rfl)
  | quarantine reason =>
    cases reason with
    | twoParentConflict other => exact (h'.twoParents other).mpr ((h.twoParents other).mp rfl)
    | cycle => exact h'.cycle.mpr (h.cycle.mp rfl)
    | selfParent => exact h'.selfParent.mpr (h.selfParent.mp rfl)

theorem fateOf_right {s : AdmitState} (h : Admissible s) (proposal : MembershipProposal) :
    (fateOf s proposal).Right proposal s.admitted := by
  by_cases hself : proposal.parent = proposal.child
  · have hfate : fateOf s proposal = .quarantine .selfParent := if_pos hself
    constructor <;> simp [hfate, hself]
  · have hnone : edgeLinks s.childParents proposal.child = none ↔
        ∀ other, ⟨other, proposal.child⟩ ∉ s.admitted := by
      simp only [Option.eq_none_iff_forall_ne_some, ne_eq, h.links_eq_some]
    have hother : ∀ {q}, edgeLinks s.childParents proposal.child = some q →
        ∀ other, ⟨other, proposal.child⟩ ∈ s.admitted ↔ other = q := by
      intro q hq other
      rw [← h.links_eq_some, hq, Option.some.injEq, eq_comm]
    have hsome : ∀ {q}, edgeLinks s.childParents proposal.child = some q →
        ¬ ∀ other, ⟨other, proposal.child⟩ ∉ s.admitted := fun hq hall =>
      hall _ ((hother hq _).mpr rfl)
    rcases h.fateOf_cases proposal hself with
      ⟨hlink, hfate⟩ | ⟨q, hlink, hq, hfate⟩ | ⟨hlink, hcycle, hfate⟩ | ⟨hlink, hfree, hfate⟩
    · constructor
      · simp [hfate, hself]
      · simp [hfate, hself, hother hlink]
      · intro other
        simp only [hfate, reduceCtorEq, hother hlink, false_iff, not_and]
        exact fun _ hne heq => hne heq
      · simp [hfate, hsome hlink]
      · simp [hfate, hsome hlink]
    · constructor
      · simp [hfate, hself]
      · simp [hfate, hother hlink, Ne.symm hq]
      · intro other
        simp only [hfate, Fate.quarantine.injEq, QuarantineReason.twoParentConflict.injEq,
          hother hlink]
        constructor
        · rintro rfl
          exact ⟨hself, hq, rfl⟩
        · exact fun hand => hand.2.2.symm
      · simp [hfate, hsome hlink]
      · simp [hfate, hsome hlink]
    · constructor <;> simp [hfate, hself, hcycle, hnone.mp hlink]
    · constructor <;> simp [hfate, hself, hfree, hnone.mp hlink]

theorem fateOf_effect (before : List MembershipProposal) (proposal : MembershipProposal) :
    (fateOf (admitLoop before) proposal).Effect proposal (admitMembershipProposals before)
      (admitMembershipProposals (before ++ [proposal])) := by
  have hstep : admitLoop (before ++ [proposal]) = admitStep (admitLoop before) proposal := by
    simp [admitLoop, List.foldl_append]
  simp only [admitMembershipProposals, hstep, admitStep]
  cases fateOf (admitLoop before) proposal with
  | accept => exact ⟨rfl, rfl⟩
  | duplicate => exact ⟨rfl, rfl⟩
  | quarantine reason => exact ⟨rfl, rfl⟩

/-- The report on a longer list starts with the report on its beginning. -/
theorem admit_prefix (proposals more : List MembershipProposal) :
    (admitMembershipProposals proposals).admitted <+:
        (admitMembershipProposals (proposals ++ more)).admitted ∧
      (admitMembershipProposals proposals).quarantined <+:
        (admitMembershipProposals (proposals ++ more)).quarantined := by
  induction more using List.reverseRecOn with
  | nil => rw [List.append_nil]; exact ⟨List.prefix_rfl, List.prefix_rfl⟩
  | append_singleton more proposal ih =>
    have heffect := fateOf_effect (proposals ++ more) proposal
    rw [← List.append_assoc]
    cases hfate : fateOf (admitLoop (proposals ++ more)) proposal with
    | accept =>
      rw [hfate] at heffect
      rw [heffect.1, heffect.2]
      exact ⟨ih.1.trans (List.prefix_append _ _), ih.2⟩
    | duplicate =>
      rw [hfate] at heffect
      rw [heffect.1, heffect.2]
      exact ih
    | quarantine reason =>
      rw [hfate] at heffect
      rw [heffect.1, heffect.2]
      exact ⟨ih.1, ih.2.trans (List.prefix_append _ _)⟩

section

variable (proposals : List MembershipProposal)

theorem admitted_oneEach : ((admitMembershipProposals proposals).admitted.map (·.child)).Nodup := by
  have h := Admissible.loop proposals
  have hone := h.oneEach
  rw [h.pairs, List.map_map] at hone
  exact hone

theorem admitted_cycleFree :
    CycleFree (edgePairs (admitMembershipProposals proposals).admitted) :=
  have h := Admissible.loop proposals
  (cycleFree_iff_acyclic fun _ _ => h.mem_edgePairs).mpr h.acyclic

/-- The counted roots are the parents that are the child of nothing. -/
theorem forestRoots_eq {roots : List ComponentConceptId}
    (h : RoseTree.Roots roots (edgeLinks (admitLoop proposals).childParents)) :
    roots.length = (admitMembershipProposals proposals).forestRoots := by
  have hadm := Admissible.loop proposals
  refine List.Perm.length_eq ?_
  rw [List.perm_ext_iff_of_nodup h.nodup ((nodup_distinct _).filter _)]
  intro r
  simp only [h.mem_iff, Option.eq_none_iff_forall_ne_some, ne_eq, hadm.links_eq_some,
    List.mem_filter, mem_distinct, List.mem_map, decide_eq_true_eq, not_exists, not_and]
  rw [and_comm]
  refine and_congr ⟨?_, ?_⟩ ⟨?_, ?_⟩
  · rintro ⟨c, hc⟩
    exact ⟨_, hc, rfl⟩
  · rintro ⟨e, he, rfl⟩
    exact ⟨e.child, he⟩
  · rintro hnot e he rfl
    exact hnot e.parent he
  · intro hnot p hp
    exact hnot _ hp rfl

/-- The committed log folds to the admitted edges, each of them once, from the counted
roots. -/
theorem fold_committed (day : Int) (provenance : AmendingActId) : ∃ log ast,
    commitAdmittedToLog (admitMembershipProposals proposals) .empty day provenance =
        (.ok (admitMembershipProposals proposals).admitted.length, log) ∧
      foldMembershipAt log day = .ok ast ∧
      ast.edges.Perm (edgePairs (admitMembershipProposals proposals).admitted) ∧
      ast.roots.length = (admitMembershipProposals proposals).forestRoots := by
  have h := Admissible.loop proposals
  obtain ⟨new, hcommit, hnew⟩ :=
    commitEdges_ok h.noSelf day provenance .empty
  obtain ⟨hno, hreplay⟩ := replay_attachesOn hnew fun p q c hp hq => by
    rw [h.mem_edgePairs] at hp hq
    exact Option.some.inj (hp.symm.trans hq)
  have hlinks : replayTo ⟨new⟩ day = edgeLinks (admitLoop proposals).childParents := by
    funext c
    apply Option.ext
    intro p
    rw [hreplay, h.mem_edgePairs]
  have hacyclic : Acyclic (replayTo ⟨new⟩ day) := hlinks ▸ h.acyclic
  have hfold := fold_of_no_conflict hno
  refine ⟨⟨new⟩, _, ?_, hfold, ?_, ?_⟩
  · rw [commitAdmittedToLog, admitMembershipProposals, hcommit]
    rfl
  · have hnodup : (edgePairs (admitMembershipProposals proposals).admitted).Nodup := by
      refine List.Nodup.of_map (·.2) ?_
      rw [edgePairs, List.map_map]
      exact admitted_oneEach proposals
    rw [List.perm_ext_iff_of_nodup (nodup_edges_fold hfold) hnodup]
    rintro ⟨p, c⟩
    rw [mem_edges_fold hfold, and_iff_left (grounded_replayTo hacyclic c), hreplay]
    rfl
  · have hroots := roots_fold hfold
    rw [hlinks] at hroots
    rw [← forestRoots_eq proposals hroots, List.length_map]

/-! ## The theorem -/

/-- The gate keeps a forest and gives each proposal its fate, the log of the admitted edges
folds back to them on any day, and the summary counts the edges and the roots. -/
theorem admit_commit_fold :
    ((admitMembershipProposals proposals).admitted.map (·.child)).Nodup ∧
    CycleFree (edgePairs (admitMembershipProposals proposals).admitted) ∧
    (∀ before proposal after, proposals = before ++ proposal :: after → ∃! fate : Fate,
      fate.Effect proposal (admitMembershipProposals before)
          (admitMembershipProposals (before ++ [proposal])) ∧
        fate.Right proposal (admitMembershipProposals before).admitted ∧
        (admitMembershipProposals (before ++ [proposal])).admitted <+:
          (admitMembershipProposals proposals).admitted ∧
        (admitMembershipProposals (before ++ [proposal])).quarantined <+:
          (admitMembershipProposals proposals).quarantined) ∧
    (∀ day provenance, ∃ log ast,
      commitAdmittedToLog (admitMembershipProposals proposals) .empty day provenance =
          (.ok (admitMembershipProposals proposals).admitted.length, log) ∧
        foldMembershipAt log day = .ok ast ∧
        ast.edges.Perm (edgePairs (admitMembershipProposals proposals).admitted)) ∧
    ∀ day text provenance, CheckedId.parse "amending act id" text = .ok provenance →
      assembleMembershipAst (admitMembershipProposals proposals) day text =
        .ok ⟨(admitMembershipProposals proposals).admitted.length,
          (admitMembershipProposals proposals).forestRoots,
          (admitMembershipProposals proposals).admitted.length +
            (admitMembershipProposals proposals).forestRoots⟩ := by
  refine ⟨admitted_oneEach proposals, admitted_cycleFree proposals, ?_, ?_, ?_⟩
  · rintro before proposal after rfl
    have hright := fateOf_right (Admissible.loop before) proposal
    have hstarts := admit_prefix (before ++ [proposal]) after
    rw [List.append_assoc, List.singleton_append] at hstarts
    exact ⟨fateOf (admitLoop before) proposal,
      ⟨fateOf_effect before proposal, hright, hstarts⟩, fun _ hother => hright.unique hother.2.1⟩
  · intro day provenance
    obtain ⟨log, ast, hcommit, hfold, hedges, -⟩ := fold_committed proposals day provenance
    exact ⟨log, ast, hcommit, hfold, hedges⟩
  · intro day text provenance htext
    obtain ⟨log, ast, hcommit, hfold, hedges, hroots⟩ := fold_committed proposals day provenance
    have hedgeCount : ast.edges.length = (admitMembershipProposals proposals).admitted.length := by
      rw [hedges.length_eq, edgePairs, List.length_map]
    have hnodes : countAstNodes ast.roots = ast.edges.length + ast.roots.length := by
      rw [countAstNodes_eq]
      exact ast.length_nodes
    simp only [assembleMembershipAst, htext, hcommit, hfold, hnodes, hedgeCount, hroots]

end

/-! ### A chapter that would go above its own statute -/

namespace Sample

def upwards : List MembershipProposal := [⟨statute, chapter⟩, ⟨chapter, article⟩]

end Sample

/-- The proposal would close a cycle, and its child has another parent: the reason names the
other parent. -/
theorem cycle_reported_as_two_parents :
    ¬ ∀ (before : List MembershipProposal) (proposal : MembershipProposal) (fate : Fate),
      fate.Effect proposal (admitMembershipProposals before)
          (admitMembershipProposals (before ++ [proposal])) →
        (fate = .quarantine .cycle ↔
          ¬ CycleFree (edgePairs (admitMembershipProposals before).admitted ++
            [(proposal.parent, proposal.child)])) := by
  intro hall
  have heffect : (Fate.quarantine (.twoParentConflict Sample.statute)).Effect
      ⟨Sample.article, Sample.chapter⟩ (admitMembershipProposals Sample.upwards)
      (admitMembershipProposals (Sample.upwards ++ [⟨Sample.article, Sample.chapter⟩])) :=
    ⟨by decide, by decide⟩
  have hreason := hall Sample.upwards ⟨Sample.article, Sample.chapter⟩ _ heffect
  have hcycle : ¬ CycleFree (edgePairs (admitMembershipProposals Sample.upwards).admitted ++
      [(Sample.article, Sample.chapter)]) := by
    intro hfree
    exact hfree Sample.chapter (.tail (.single (b := Sample.article) (by decide)) (by decide))
  exact absurd (hreason.mpr hcycle) (by decide)

end LawNexus
