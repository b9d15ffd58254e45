import LawNexus.Nesting
import LawNexus.Ontology.Faithful
import LawNexus.Ontology.Hierarchy

/-!
# Proposals from markers

`propose_membership_from_markers` keeps a stack of open components and proposes its top as
the parent of the next one. When the markers of a document have different components, each
proposal has a new child, and the gate admits all of them.
-/

namespace LawNexus

open Forest Loops Nesting

/-! ## Ranks -/

/-- The nonempty segments of the path. A marker without a path has depth 1. -/
def HierarchyMarker.depth (marker : HierarchyMarker) : Nat :=
  (marker.path.map fun path =>
    ((path.val.toList.splitOn '/').filter fun segment => !segment.isEmpty).length).getD 1

def hierarchyLevelRank (level : String) : Option Nat := hierarchyLevels.idxOf? level

/-- The order of the roles, then the depth. -/
abbrev ProposeRank := Nat ×ₗ Nat

def proposeRank (level : String) (depth : Nat) : Option ProposeRank :=
  (hierarchyLevelRank level).map fun roleOrder => toLex (roleOrder, depth)

theorem proposeRank_isSome (level : HierarchyLevel) (depth : Nat) :
    ∃ rank, proposeRank level.val depth = some rank := by
  obtain ⟨level, hlevel⟩ := level
  cases hrank : hierarchyLevels.idxOf? level with
  | none => exact absurd hlevel (List.idxOf?_eq_none_iff.mp hrank)
  | some roleOrder =>
    exact ⟨toLex (roleOrder, depth), by simp [proposeRank, hierarchyLevelRank, hrank]⟩

/-! ## The stack -/

structure MembershipProposeReport where
  proposals : List MembershipProposal
  quarantined : Nat
  forestRoots : Nat
deriving DecidableEq, Repr

/-- The report as the loop has it, and the open components, the last one first. -/
structure ProposeState where
  stack : List (ProposeRank × ComponentConceptId)
  report : MembershipProposeReport

namespace ProposeState

def start : ProposeState := ⟨[], ⟨[], 0, 0⟩⟩

/-- A marker that is bound: what is still open at the top is its parent. -/
def place (s : ProposeState) (rank : ProposeRank) (component : ComponentConceptId) :
    ProposeState where
  stack := push (·.1) s.stack (rank, component)
  report :=
    match (stillOpen (·.1) s.stack rank).head? with
    | some (_, parent) =>
      { s.report with proposals := s.report.proposals ++ [⟨parent, component⟩] }
    | none => { s.report with forestRoots := s.report.forestRoots + 1 }

def quarantine (s : ProposeState) : ProposeState :=
  { s with report := { s.report with quarantined := s.report.quarantined + 1 } }

end ProposeState

def proposeStep (map : HierarchyMap) (s : ProposeState) (marker : HierarchyMarker) :
    Except WriteSetError ProposeState :=
  match proposeRank marker.level.val marker.depth with
  | none => .error .unknownHierarchyLevel
  | some rank =>
    match mapHierarchyMarker map marker with
    | .unknown => .ok s.quarantine
    | .bound component => .ok (s.place rank component)

def proposeMembershipFromMarkers (map : HierarchyMap) (markers : List HierarchyMarker) :
    Except WriteSetError MembershipProposeReport :=
  (markers.foldlM (proposeStep map) .start).map (·.report)

/-! ## The components of the markers -/

def HierarchyMapOutcome.component : HierarchyMapOutcome → Option ComponentConceptId
  | .bound component => some component
  | .unknown => none

def boundTo (map : HierarchyMap) (marker : HierarchyMarker) : Option ComponentConceptId :=
  (mapHierarchyMarker map marker).component

def componentsOf (map : HierarchyMap) (markers : List HierarchyMarker) :
    List ComponentConceptId := markers.filterMap (boundTo map)

theorem componentsOf_concat (map : HierarchyMap) (markers : List HierarchyMarker)
    (marker : HierarchyMarker) : componentsOf map (markers ++ [marker]) =
      componentsOf map markers ++ (boundTo map marker).toList := by
  unfold componentsOf
  rw [List.filterMap_append]
  cases h : boundTo map marker <;> simp [h]

/-! ## The proposals -/

/-- A later proposal has a child that the earlier one does not name. -/
def NamesNewChild (earlier later : MembershipProposal) : Prop :=
  earlier.parent ≠ later.child ∧ earlier.child ≠ later.child

/-- What the loop holds after it has seen these markers. -/
structure Proposed (map : HierarchyMap) (seen : List HierarchyMarker) (s : ProposeState) :
    Prop where
  stack : ∀ e ∈ s.stack, e.2 ∈ componentsOf map seen
  parents : ∀ e ∈ s.report.proposals, e.parent ∈ componentsOf map seen
  children : ∀ e ∈ s.report.proposals, e.child ∈ componentsOf map seen
  fresh : (componentsOf map seen).Nodup →
    s.report.proposals.Pairwise NamesNewChild ∧ ∀ e ∈ s.report.proposals, e.parent ≠ e.child

namespace Proposed

variable {map : HierarchyMap} {seen : List HierarchyMarker} {s : ProposeState}
  {marker : HierarchyMarker}

theorem quarantine (h : Proposed map seen s) (hmarker : boundTo map marker = none) :
    Proposed map (seen ++ [marker]) s.quarantine := by
  have hsame : componentsOf map (seen ++ [marker]) = componentsOf map seen := by
    simp [componentsOf_concat, hmarker]
  refine ⟨?_, ?_, ?_, ?_⟩ <;> rw [hsame]
  · exact h.stack
  · exact h.parents
  · exact h.children
  · exact h.fresh

theorem place {component : ComponentConceptId} (h : Proposed map seen s)
    (hmarker : boundTo map marker = some component) (rank : ProposeRank) :
    Proposed map (seen ++ [marker]) (s.place rank component) := by
  have hmore : componentsOf map (seen ++ [marker]) = componentsOf map seen ++ [component] := by
    simp [componentsOf_concat, hmarker]
  have hopen : ∀ e ∈ stillOpen (·.1) s.stack rank, e.2 ∈ componentsOf map seen := fun e he =>
    h.stack e ((List.dropWhile_sublist _).subset he)
  have hstack : ∀ e ∈ (s.place rank component).stack,
      e.2 ∈ componentsOf map seen ++ [component] := by
    intro e he
    rcases List.mem_cons.mp he with rfl | he
    · simp
    · exact List.mem_append_left _ (hopen e he)
  cases hhead : (stillOpen (·.1) s.stack rank).head? with
  | none =>
    have hproposals : (s.place rank component).report.proposals = s.report.proposals := by
      simp only [ProposeState.place, hhead]
    refine ⟨?_, ?_, ?_, ?_⟩ <;> rw [hmore]
    · exact hstack
    · rw [hproposals]
      exact fun e he => List.mem_append_left _ (h.parents e he)
    · rw [hproposals]
      exact fun e he => List.mem_append_left _ (h.children e he)
    · rw [hproposals]
      exact fun hnodup => h.fresh hnodup.of_append_left
  | some top =>
    have hproposals : (s.place rank component).report.proposals =
        s.report.proposals ++ [⟨top.2, component⟩] := by
      simp only [ProposeState.place, hhead]
    have htop : top.2 ∈ componentsOf map seen := hopen top (List.mem_of_head? hhead)
    refine ⟨?_, ?_, ?_, ?_⟩ <;> rw [hmore]
    · exact hstack
    · rw [hproposals]
      intro e he
      rcases List.mem_append.mp he with he | he
      · exact List.mem_append_left _ (h.parents e he)
      · rw [List.mem_singleton.mp he]
        exact List.mem_append_left _ htop
    · rw [hproposals]
      intro e he
      rcases List.mem_append.mp he with he | he
      · exact List.mem_append_left _ (h.children e he)
      · simp [List.mem_singleton.mp he]
    · rw [hproposals]
      intro hnodup
      obtain ⟨hold, -, hnew⟩ := List.nodup_append.mp hnodup
      have hne : ∀ c ∈ componentsOf map seen, c ≠ component := fun c hc =>
        hnew c hc component (List.mem_singleton_self component)
      obtain ⟨hpairs, hself⟩ := h.fresh hold
      constructor
      · rw [List.pairwise_append]
        refine ⟨hpairs, List.pairwise_singleton _ _, fun e he f hf => ?_⟩
        rw [List.mem_singleton.mp hf]
        exact ⟨hne _ (h.parents e he), hne _ (h.children e he)⟩
      · intro e he
        rcases List.mem_append.mp he with he | he
        · exact hself e he
        · rw [List.mem_singleton.mp he]
          exact hne _ htop

theorem step (h : Proposed map seen s) (marker : HierarchyMarker) :
    ∃ s', proposeStep map s marker = .ok s' ∧ Proposed map (seen ++ [marker]) s' := by
  obtain ⟨rank, hrank⟩ := proposeRank_isSome marker.level marker.depth
  unfold proposeStep
  rw [hrank]
  cases hmap : mapHierarchyMarker map marker with
  | unknown => exact ⟨s.quarantine, rfl, h.quarantine (by rw [boundTo, hmap]; rfl)⟩
  | bound component =>
    exact ⟨s.place rank component, rfl, h.place (by rw [boundTo, hmap]; rfl) rank⟩

theorem run (h : Proposed map seen s) (markers : List HierarchyMarker) :
    ∃ s', markers.foldlM (proposeStep map) s = .ok s' ∧ Proposed map (seen ++ markers) s' := by
  induction markers generalizing seen s with
  | nil => exact ⟨s, rfl, by simpa using h⟩
  | cons marker markers ih =>
    obtain ⟨next, hnext, hproposed⟩ := h.step marker
    obtain ⟨last, hlast, hrest⟩ := ih hproposed
    refine ⟨last, ?_, by simpa using hrest⟩
    rw [List.foldlM_cons, hnext, ok_bind, hlast]

end Proposed

theorem proposed_start (map : HierarchyMap) : Proposed map [] .start := by
  constructor <;> simp [ProposeState.start]

/-- The levels of markers are in the catalog, so the loop always comes to its end. -/
theorem propose_spec (map : HierarchyMap) (markers : List HierarchyMarker) :
    ∃ s, proposeMembershipFromMarkers map markers = .ok s.report ∧ Proposed map markers s := by
  obtain ⟨s, hrun, hproposed⟩ := (proposed_start map).run markers
  refine ⟨s, ?_, by simpa using hproposed⟩
  unfold proposeMembershipFromMarkers
  rw [hrun]
  rfl

/-- The proposals of a document. -/
def proposalsOf (map : HierarchyMap) (markers : List HierarchyMarker) : List MembershipProposal :=
  ((proposeMembershipFromMarkers map markers).toOption.map (·.proposals)).getD []

section

variable (map : HierarchyMap) (markers : List HierarchyMarker)

theorem exists_report : ∃ report, proposeMembershipFromMarkers map markers = .ok report ∧
    report.proposals = proposalsOf map markers := by
  obtain ⟨s, hs, -⟩ := propose_spec map markers
  exact ⟨s.report, hs, by simp [proposalsOf, hs, Except.toOption]⟩

theorem mem_componentsOf_child {e : MembershipProposal} (h : e ∈ proposalsOf map markers) :
    e.child ∈ componentsOf map markers := by
  obtain ⟨s, hs, hproposed⟩ := propose_spec map markers
  apply hproposed.children
  simpa [proposalsOf, hs, Except.toOption] using h

theorem proposalsOf_fresh (h : (componentsOf map markers).Nodup) :
    (proposalsOf map markers).Pairwise NamesNewChild ∧
      ∀ e ∈ proposalsOf map markers, e.parent ≠ e.child := by
  obtain ⟨s, hs, hproposed⟩ := propose_spec map markers
  simpa [proposalsOf, hs, Except.toOption] using hproposed.fresh h

end

/-! ## Admission of all -/

/-- A child that no admitted edge names is accepted under any other component. -/
theorem fateOf_accept {s : AdmitState} {proposal : MembershipProposal} (h : Admissible s)
    (hself : proposal.parent ≠ proposal.child)
    (hnew : ∀ e ∈ s.admitted, e.parent ≠ proposal.child ∧ e.child ≠ proposal.child) :
    fateOf s proposal = .accept := by
  have hright := fateOf_right h proposal
  apply hright.accept.mpr
  refine ⟨hself, fun other hmem => (hnew _ hmem).2 rfl, ?_⟩
  have hnone : edgeLinks s.childParents proposal.child = none := by
    rw [Option.eq_none_iff_forall_ne_some]
    intro other hother
    exact (hnew _ (h.links_eq_some.mp hother)).2 rfl
  rw [h.cycleFree_push hnone, Bool.eq_false_iff, ne_eq, createsCycle_iff h.acyclic,
    atOrAbove_iff]
  rintro (heq | habove)
  · exact hself heq.symm
  · -- A component above another one is the parent of some admitted edge.
    obtain ⟨d, hd, -⟩ := Relation.TransGen.head'_iff.mp habove
    exact (hnew _ (h.links_eq_some.mp hd)).1 rfl

theorem admitted_all {proposals : List MembershipProposal} (h : proposals.Pairwise NamesNewChild)
    (hself : ∀ e ∈ proposals, e.parent ≠ e.child) :
    (admitLoop proposals).admitted = proposals.map fun e => ⟨e.parent, e.child⟩ := by
  induction proposals using List.reverseRecOn with
  | nil => rfl
  | append_singleton proposals proposal ih =>
    obtain ⟨hold, -, hnew⟩ := List.pairwise_append.mp h
    have hbefore := ih hold fun e he => hself e (List.mem_append_left _ he)
    have haccept : fateOf (admitLoop proposals) proposal = .accept := by
      apply fateOf_accept (Admissible.loop proposals) (hself proposal (by simp))
      intro e he
      rw [hbefore] at he
      obtain ⟨earlier, hearlier, rfl⟩ := List.mem_map.mp he
      exact hnew earlier hearlier proposal (List.mem_singleton_self proposal)
    have hstep : admitLoop (proposals ++ [proposal]) =
        admitStep (admitLoop proposals) proposal := by simp [admitLoop]
    simp [hstep, admitStep, haccept, hbefore]

end LawNexus
