import LawNexus.Canon.Force
import LawNexus.Membership.Ast
import LawNexus.Ontology.Hierarchy

/-!
# The write-set

What the projections of `ln-kb-ontology/src/domain.rs` emit for the graph: the nodes and edges of
a membership edge, of a folded tree and of a force event. The id of a force node joins three
fields by colons, and these fields have colons of their own.
-/

namespace LawNexus

open Forest Loops

/-! ## Kinds of the catalog -/

/-- `vocabulary.node_kinds` of `kb-ontology.yaml`. -/
def nodeKinds : List String :=
  ["Work", "Expression", "Manifestation", "ComponentConcept", "AmendingAct", "MembershipEdge",
   "StructuralIndustrialEvent", "ForceStatusEvent", "DocumentGroupRef"]

/-- `vocabulary.edge_kinds` of `kb-ontology.yaml`. -/
def edgeKinds : List String :=
  ["expression_of", "manifestation_of", "component_in_expression", "membership_parent",
   "industrial_op_subject", "industrial_op_target", "force_status_of", "prov_amending_act",
   "parsed_as"]

/-- `vocabulary.forbidden_node_kinds` of `kb-ontology.yaml`. -/
def forbiddenNodeKinds : List String :=
  ["ApplicableDecision", "PracticeRulingAsForce", "RiskScoreAsStatus", "ProfileCodeAsClock",
   "NormRuleAsAuthority", "NormativeBlob", "DocumentProfileAsAuthority", "ProfileBindingAsForce",
   "DocumentProfileAsClock"]

def catalogNodeKind (kind : String) : Except WriteSetError String :=
  if kind ∈ forbiddenNodeKinds then .error (.forbiddenKind kind)
  else if kind ∈ nodeKinds then .ok kind
  else .error .unknownNodeKind

def catalogEdgeKind (kind : String) : Except WriteSetError String :=
  if kind ∈ edgeKinds then .ok kind else .error .unknownEdgeKind

/-! ## The set -/

structure GraphNode where
  kind : String
  id : String
deriving DecidableEq, Repr

structure GraphEdge where
  kind : String
  fromId : String
  toId : String
deriving DecidableEq, Repr

structure WriteSet where
  nodes : List GraphNode
  edges : List GraphEdge
  claimsApplicability : Bool
  performsIo : Bool
  structuralKnown : Bool
  nonClaims : List String

def writeSetNonClaims : List String :=
  ["Write-set is pure projection; performs no store I/O and is not RuVector materialization",
   "Work/Expression/membership presence does not imply ForceStatus InForce",
   "ForceStatusEvent projection does not imply Applicability",
   "parsed_as binding is a system_observation heuristic, never legal classification (ADR-0020)",
   "Not production graph schema, not corpus edges, not legal validation",
   "Lifecycle [proposed]; KBO O2 write-set; not O3 fixture edges or O4 port I/O"]

namespace WriteSet

def empty : WriteSet := ⟨[], [], false, false, false, writeSetNonClaims⟩

/-- A node that is there already is not pushed again. -/
def tryPushNode (set : WriteSet) (kind id : String) : Except WriteSetError WriteSet := do
  let kind ← catalogNodeKind kind
  return { set with nodes := pushNew set.nodes ⟨kind, id⟩ }

def tryPushEdge (set : WriteSet) (kind fromId toId : String) : Except WriteSetError WriteSet := do
  let kind ← catalogEdgeKind kind
  return { set with edges := set.edges ++ [⟨kind, fromId, toId⟩] }

/-- A run of pushes, in the order of the lists. -/
def push (set : WriteSet) (nodes : List GraphNode) (edges : List GraphEdge) : WriteSet :=
  { set with nodes := nodes.foldl pushNew set.nodes, edges := set.edges ++ edges }

theorem push_push (set : WriteSet) (nodes nodes' : List GraphNode) (edges edges' : List GraphEdge) :
    (set.push nodes edges).push nodes' edges' = set.push (nodes ++ nodes') (edges ++ edges') := by
  simp only [push, List.foldl_append, List.append_assoc]

theorem push_nil (set : WriteSet) : set.push [] [] = set := by
  simp only [push, List.foldl_nil, List.append_nil]

theorem mem_nodes_push {set : WriteSet} {nodes : List GraphNode} {edges : List GraphEdge}
    {node : GraphNode} : node ∈ (set.push nodes edges).nodes ↔ node ∈ set.nodes ∨ node ∈ nodes :=
  mem_foldl_pushNew

/-- A node that is pushed twice in a row. -/
theorem push_twice (set : WriteSet) (node : GraphNode) (nodes : List GraphNode)
    (edges : List GraphEdge) :
    set.push (node :: node :: nodes) edges = set.push (node :: nodes) edges := by
  simp only [push, List.foldl_cons, pushNew_pushNew]

theorem tryPushNode_ok (set : WriteSet) (kind : String) (hkind : kind ∈ nodeKinds) (id : String) :
    set.tryPushNode kind id = .ok (set.push [⟨kind, id⟩] []) := by
  have hfree : ∀ kind ∈ nodeKinds, kind ∉ forbiddenNodeKinds := by decide
  simp [tryPushNode, catalogNodeKind, hfree kind hkind, hkind, push, pure, Except.pure]

theorem tryPushEdge_ok (set : WriteSet) (kind : String) (hkind : kind ∈ edgeKinds)
    (fromId toId : String) :
    set.tryPushEdge kind fromId toId = .ok (set.push [] [⟨kind, fromId, toId⟩]) := by
  simp [tryPushEdge, catalogEdgeKind, hkind, push, pure, Except.pure]

end WriteSet

/-! ## Projections -/

def membershipNodeId (edge : MembershipEdge) : String :=
  edge.parent.asStr ++ "->" ++ edge.child.asStr

def projectMembership (edge : MembershipEdge) : Except WriteSetError WriteSet := do
  let set := { WriteSet.empty with structuralKnown := true }
  let set ← set.tryPushNode "ComponentConcept" edge.parent.asStr
  let set ← set.tryPushNode "ComponentConcept" edge.child.asStr
  let set ← set.tryPushNode "MembershipEdge" (membershipNodeId edge)
  set.tryPushEdge "membership_parent" edge.parent.asStr edge.child.asStr

/-- `format!("force:{}:{}:{}", ..)`. -/
def forceNodeId (event : ForceStatusEvent) : String :=
  "force:" ++ event.component.asStr ++ ":" ++ Int.repr event.effectDay ++ ":" ++
    event.provenance.asStr

def projectForceEvent (event : ForceStatusEvent) : Except WriteSetError WriteSet :=
  if event.status = .unknown then .error .unknownNotWritable
  else if event.component.asStr.isEmpty ∨ event.provenance.asStr.isEmpty then
    .error .missingIdentity
  else do
    let eventId := forceNodeId event
    let set ← WriteSet.empty.tryPushNode "ForceStatusEvent" eventId
    let set ← set.tryPushNode "ComponentConcept" event.component.asStr
    let set ← set.tryPushNode "AmendingAct" event.provenance.asStr
    let set ← set.tryPushEdge "force_status_of" eventId event.component.asStr
    set.tryPushEdge "prov_amending_act" eventId event.provenance.asStr

mutual

def projectAstNode (set : WriteSet) : StructuralAstNode → Except WriteSetError WriteSet
  | .node component children => do
    let set ← set.tryPushNode "ComponentConcept" component.asStr
    projectAstChildren set component children

def projectAstChildren (set : WriteSet) (component : ComponentConceptId) :
    List StructuralAstNode → Except WriteSetError WriteSet
  | [] => .ok set
  | child :: rest => do
    let set ← set.tryPushNode "ComponentConcept" child.label.asStr
    let set ← set.tryPushEdge "membership_parent" component.asStr child.label.asStr
    let set ← projectAstNode set child
    projectAstChildren set component rest

end

def projectStructuralAst (ast : StructuralAst) : Except WriteSetError WriteSet :=
  ast.roots.foldlM projectAstNode { WriteSet.empty with structuralKnown := !ast.roots.isEmpty }

/-! ## What they emit -/

def componentNode (component : ComponentConceptId) : GraphNode :=
  ⟨"ComponentConcept", component.asStr⟩

def membershipEdge (edge : ComponentConceptId × ComponentConceptId) : GraphEdge :=
  ⟨"membership_parent", edge.1.asStr, edge.2.asStr⟩

theorem componentNode_injective : Function.Injective componentNode := fun _ _ h =>
  ComponentConceptId.ext (GraphNode.mk.inj h).2

theorem projectMembership_ok (edge : MembershipEdge) :
    projectMembership edge = .ok ({ WriteSet.empty with structuralKnown := true }.push
      [componentNode edge.parent, componentNode edge.child,
        ⟨"MembershipEdge", membershipNodeId edge⟩]
      [membershipEdge (edge.parent, edge.child)]) := by
  simp (disch := decide) only [projectMembership, WriteSet.tryPushNode_ok,
    WriteSet.tryPushEdge_ok, ok_bind, WriteSet.push_push]
  rfl

/-- Every event that its constructor accepts is written. -/
theorem projectForceEvent_ok (event : ForceStatusEvent) :
    projectForceEvent event = .ok (WriteSet.empty.push
      [⟨"ForceStatusEvent", forceNodeId event⟩, componentNode event.component,
        ⟨"AmendingAct", event.provenance.asStr⟩]
      [⟨"force_status_of", forceNodeId event, event.component.asStr⟩,
        ⟨"prov_amending_act", forceNodeId event, event.provenance.asStr⟩]) := by
  have hstatus : event.status ≠ .unknown := by
    simpa [NormativeState.isTransitionTarget] using event.written
  have hids : ¬ (event.component.asStr.isEmpty ∨ event.provenance.asStr.isEmpty) := by
    simp [event.component.not_isEmpty, event.provenance.not_isEmpty]
  rw [projectForceEvent, if_neg hstatus, if_neg hids]
  simp (disch := decide) only [WriteSet.tryPushNode_ok, WriteSet.tryPushEdge_ok, ok_bind,
    WriteSet.push_push]
  rfl

mutual

/-- A tree adds its components and its edges, and nothing else. -/
theorem projectAstNode_ok : ∀ (set : WriteSet) (node : StructuralAstNode),
    projectAstNode set node =
      .ok (set.push (node.nodes.map componentNode) (node.edges.map membershipEdge))
  | set, .node component children => by
    rw [projectAstNode, WriteSet.tryPushNode_ok _ "ComponentConcept" (by decide), ok_bind,
      projectAstChildren_ok _ component children, WriteSet.push_push]
    rfl

theorem projectAstChildren_ok : ∀ (set : WriteSet) (component : ComponentConceptId)
    (children : List StructuralAstNode), projectAstChildren set component children =
      .ok (set.push ((RoseTree.nodesOf children).map componentNode)
        ((RoseTree.edgesUnder component children).map membershipEdge))
  | set, component, [] => by
    rw [projectAstChildren, RoseTree.nodesOf, RoseTree.edgesUnder, List.map_nil, List.map_nil,
      WriteSet.push_nil]
  | set, component, child :: rest => by
    rw [projectAstChildren, WriteSet.tryPushNode_ok _ "ComponentConcept" (by decide), ok_bind,
      WriteSet.tryPushEdge_ok _ "membership_parent" (by decide), ok_bind,
      projectAstNode_ok _ child, ok_bind, projectAstChildren_ok _ component rest]
    simp only [WriteSet.push_push, RoseTree.nodesOf, RoseTree.edgesUnder, List.map_append,
      List.map_cons, List.nil_append, List.append_nil, List.append_assoc]
    -- The child has been pushed in front of its own tree.
    rw [RoseTree.nodes_eq_edges child]
    exact congrArg Except.ok (WriteSet.push_twice set (componentNode child.label) _ _)

end

/-- The write-set of a tree has a node for each of its components, and its edges in their order. -/
theorem projectStructuralAst_ok (ast : StructuralAst) : projectStructuralAst ast =
    .ok ({ WriteSet.empty with structuralKnown := !ast.roots.isEmpty }.push
      (ast.nodes.map componentNode) (ast.edges.map membershipEdge)) := by
  have hrun : ∀ (roots : List StructuralAstNode) (set : WriteSet),
      roots.foldlM projectAstNode set = .ok (set.push ((RoseTree.nodesOf roots).map componentNode)
        ((roots.flatMap RoseTree.edges).map membershipEdge)) := by
    intro roots
    induction roots with
    | nil => exact fun set => congrArg Except.ok set.push_nil.symm
    | cons root roots ih =>
      intro set
      rw [List.foldlM_cons, projectAstNode_ok, ok_bind, ih, WriteSet.push_push, RoseTree.nodesOf,
        List.flatMap_cons, List.map_append, List.map_append]
  exact hrun ast.roots _

/-! ## The ids of the nodes -/

/-- A component has no `>` in it: the id of an edge gives back its two ends. -/
theorem membershipNodeId_inj {edge edge' : MembershipEdge} :
    membershipNodeId edge = membershipNodeId edge' ↔ edge = edge' := by
  have hfree : ∀ c : ComponentConceptId, '>' ∉ c.asStr.toList ++ ['-'] := by
    intro c h
    rcases List.mem_append.mp h with h | h
    · exact absurd (c.isIdChar_or_slash h) (by decide)
    · exact absurd h (by decide)
  constructor
  · intro h
    have htext := congrArg String.toList h
    simp only [membershipNodeId, String.toList_append] at htext
    have hjoin : (edge.parent.asStr.toList ++ ['-']) ++ '>' :: edge.child.asStr.toList =
        (edge'.parent.asStr.toList ++ ['-']) ++ '>' :: edge'.child.asStr.toList := by
      simpa using htext
    have hcut := (Texts.append_cons_inj (hfree edge.parent) (hfree edge'.parent)).mp hjoin
    obtain ⟨parent, child, hne⟩ := edge
    obtain ⟨parent', child', hne'⟩ := edge'
    have hparent : parent = parent' :=
      ComponentConceptId.ext (String.toList_inj.mp (List.append_cancel_right hcut.1))
    have hchild : child = child' := ComponentConceptId.ext (String.toList_inj.mp hcut.2)
    subst hparent hchild
    rfl
  · rintro rfl
    rfl

/-- The event has a force node with this id in its write-set. -/
def EmitsForce (event : ForceStatusEvent) (id : String) : Prop :=
  ∃ set, projectForceEvent event = .ok set ∧ (⟨"ForceStatusEvent", id⟩ : GraphNode) ∈ set.nodes

theorem emitsForce_iff {event : ForceStatusEvent} {id : String} :
    EmitsForce event id ↔ id = forceNodeId event := by
  simp [EmitsForce, projectForceEvent_ok, WriteSet.mem_nodes_push, WriteSet.empty,
    componentNode]

def ForceStatusEvent.dayText (event : ForceStatusEvent) : List Char :=
  (Int.repr event.effectDay).toList

/-- One component, one day and one act, and two statuses. -/
def StatusTwin (e f : ForceStatusEvent) : Prop :=
  e.component = f.component ∧ e.effectDay = f.effectDay ∧ e.provenance = f.provenance ∧
    e.status ≠ f.status

/-- The component of `f` is the component of `e`, the day of `e` and a part of its act, and the
rest of the act of `e` is the day and the act of `f`. -/
def Resplit (e f : ForceStatusEvent) : Prop :=
  Texts.Shifts ':' e.component.asStr.toList e.dayText e.provenance.asStr.toList
    f.component.asStr.toList f.dayText f.provenance.asStr.toList

theorem not_resplit_self (e : ForceStatusEvent) : ¬ Resplit e e := by
  rintro ⟨rest, h, -⟩
  have hlength := congrArg List.length h
  simp only [List.length_append, List.length_cons] at hlength
  omega

theorem forceNodeId_eq_iff {e f : ForceStatusEvent} : forceNodeId e = forceNodeId f ↔
    (e.component = f.component ∧ e.effectDay = f.effectDay ∧ e.provenance = f.provenance) ∨
      Resplit e f ∨ Resplit f e := by
  have hcolon : ∀ event : ForceStatusEvent, ':' ∉ event.dayText := fun event =>
    Texts.repr_notMem (by decide) (by decide) event.effectDay
  have htext : ∀ event : ForceStatusEvent, (forceNodeId event).toList = "force:".toList ++
      (event.component.asStr.toList ++ ':' :: (event.dayText ++ ':' ::
        event.provenance.asStr.toList)) := by
    intro event
    simp [forceNodeId, ForceStatusEvent.dayText]
  rw [← String.toList_inj, htext, htext, List.append_cancel_left_eq,
    Texts.join_three_inj (hcolon e) (hcolon f)]
  refine or_congr_left (and_congr ?_ (and_congr ?_ ?_))
  · rw [String.toList_inj, ComponentConceptId.asStr_injective.eq_iff]
  · rw [ForceStatusEvent.dayText, ForceStatusEvent.dayText, String.toList_inj, Texts.int_repr_inj]
  · rw [String.toList_inj, CheckedId.asStr_injective.eq_iff]

/-- A force node stands for one transition exactly when no other event has its component, day and
act with another status, and none cuts the joined text at another colon. -/
theorem force_node_id_inj_iff (e f : ForceStatusEvent) :
    (∀ id, EmitsForce e id → EmitsForce f id → e = f) ↔
      ¬ (StatusTwin e f ∨ Resplit e f ∨ Resplit f e) := by
  have hids : (∀ id, EmitsForce e id → EmitsForce f id → e = f) ↔
      (forceNodeId e = forceNodeId f → e = f) := by
    simp only [emitsForce_iff]
    constructor
    · intro h heq
      exact h _ rfl heq
    · rintro h id rfl heq
      exact h heq
  rw [hids, forceNodeId_eq_iff]
  constructor
  · rintro h (⟨hc, hd, hp, hs⟩ | hsplit)
    · exact hs (congrArg ForceStatusEvent.status (h (Or.inl ⟨hc, hd, hp⟩)))
    · obtain rfl := h (Or.inr hsplit)
      exact hsplit.elim (not_resplit_self e) (not_resplit_self e)
  · rintro h (⟨hc, hd, hp⟩ | hsplit)
    · have hs : e.status = f.status := not_not.mp fun hs => h (Or.inl ⟨hc, hd, hp, hs⟩)
      obtain ⟨c, s, d, p, w⟩ := e
      obtain ⟨c', s', d', p', w'⟩ := f
      subst hc hs hd hp
      rfl
    · exact absurd (Or.inr hsplit) h

/-! ### Two transitions with one node -/

namespace Sample

theorem statute_accepted : parseComponentConceptId "cc:statute" = .ok "cc:statute" := rfl

theorem act_accepted : parseId "amending act id" "act:1" maxIdLen = .ok "act:1" := rfl

def statuteEvent (status : NormativeState) (written : status.isTransitionTarget = true) :
    ForceStatusEvent :=
  ⟨⟨"cc:statute", statute_accepted⟩, status, 1, ⟨"act:1", act_accepted⟩, written⟩

/-- The day of the first event is a part of the component of the second one. -/
example : forceNodeId ⟨⟨"cc:a", rfl⟩, .inForce, 1, ⟨"2:act", rfl⟩, rfl⟩ =
    forceNodeId ⟨⟨"cc:a:1", rfl⟩, .inForce, 2, ⟨"act", rfl⟩, rfl⟩ := by decide

end Sample

/-- The status is not in the id: a statute in force and the same statute repealed. -/
theorem force_node_id_collides :
    ¬ ∀ (e f : ForceStatusEvent) (id : String), EmitsForce e id → EmitsForce f id → e = f := by
  intro hall
  have heq := hall (Sample.statuteEvent .inForce rfl) (Sample.statuteEvent .repealed rfl)
    (forceNodeId (Sample.statuteEvent .inForce rfl)) (emitsForce_iff.mpr rfl)
    (emitsForce_iff.mpr rfl)
  exact absurd (congrArg ForceStatusEvent.status heq) (by decide)

end LawNexus
