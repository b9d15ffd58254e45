import LawNexus.Decode.Structure
import LawNexus.Nesting

/-!
# Containment

The open containers after a block are the stack of the headings so far, and the path of the block
is that stack with the root below it. So a heading stays on the paths behind it as long as only
headings of greater ranks come.
-/

namespace LawNexus.Decode

open Utf8 Loops Nesting

variable {decoder : Decoder} {lexicon : Lexicon} {blocks : List ParsedBlock}
  {containers more : List StructuralContainerNode} {root : ContainerId}

/-! ## Names -/

theorem blockName_inj {i j : Nat} : blockName i = blockName j ↔ i = j := Texts.append_repr_inj

theorem containerName_inj {i j : Nat} : containerName i = containerName j ↔ i = j :=
  Texts.append_repr_inj

theorem containerName_ne_rootName (i : Nat) : containerName i ≠ rootName := by
  intro h
  have hdigits : (Nat.repr i).toList = "document".toList := by
    have htext := congrArg String.toList h
    rw [containerName, String.toList_append] at htext
    exact List.append_cancel_left htext
  have hd : 'd' ∈ (Nat.repr i).toList := by rw [hdigits]; decide
  exact absurd (Texts.isDigit_of_mem_repr hd) (by decide)

/-! ## Headings -/

/-- The role of the heading at an index, nothing for a block of text. -/
def headingRole (lexicon : Lexicon) (blocks : List ParsedBlock) (i : Nat) :
    Option ContainerRole := do
  let b ← blocks[i]?
  let found ← (blockRole lexicon i b).toOption
  found.map (·.1)

/-- The headings among the first blocks. -/
def headings (lexicon : Lexicon) (blocks : List ParsedBlock) (n : Nat) :
    List (Nat × ContainerRole) :=
  (List.range n).filterMap fun i => (headingRole lexicon blocks i).map (i, ·)

theorem headings_succ (lexicon : Lexicon) (blocks : List ParsedBlock) (n : Nat) :
    headings lexicon blocks (n + 1) =
      headings lexicon blocks n ++ ((headingRole lexicon blocks n).map (n, ·)).toList := by
  rw [headings, List.range_succ, List.filterMap_append]
  cases h : headingRole lexicon blocks n <;> simp [headings, h]

theorem mem_headings {n : Nat} {h : Nat × ContainerRole} :
    h ∈ headings lexicon blocks n ↔ h.1 < n ∧ headingRole lexicon blocks h.1 = some h.2 := by
  simp only [headings, List.mem_filterMap, List.mem_range, Option.map_eq_some_iff]
  constructor
  · rintro ⟨i, hi, role, hrole, rfl⟩
    exact ⟨hi, hrole⟩
  · exact fun ⟨hi, hrole⟩ => ⟨h.1, hi, h.2, hrole, rfl⟩

theorem headings_increasing (lexicon : Lexicon) (blocks : List ParsedBlock) (n : Nat) :
    (headings lexicon blocks n).Pairwise fun a b => a.1 < b.1 := by
  refine List.Pairwise.filterMap _ ?_ List.pairwise_lt_range
  intro a b hab a' ha b' hb
  obtain ⟨_, -, rfl⟩ := Option.map_eq_some_iff.mp ha
  obtain ⟨_, -, rfl⟩ := Option.map_eq_some_iff.mp hb
  exact hab

/-- The headings that are open behind the first blocks, the innermost first. -/
def openHeadings (lexicon : Lexicon) (blocks : List ParsedBlock) (n : Nat) :
    List (Nat × ContainerRole) :=
  openAfter (fun h => profileRank h.2) (headings lexicon blocks n)

/-- A heading stays open as long as only headings of greater ranks come. -/
theorem mem_openHeadings {n i : Nat} {role : ContainerRole} :
    (i, role) ∈ openHeadings lexicon blocks n ↔
      i < n ∧ headingRole lexicon blocks i = some role ∧
        ∀ k role', i < k → k < n → headingRole lexicon blocks k = some role' →
          profileRank role < profileRank role' := by
  rw [openHeadings, mem_openAfter]
  have hsorted := headings_increasing lexicon blocks n
  constructor
  · rintro ⟨before, after, hsplit, hafter⟩
    have hmem : (i, role) ∈ headings lexicon blocks n := by simp [hsplit]
    obtain ⟨hi, hrole⟩ := mem_headings.mp hmem
    refine ⟨hi, hrole, fun k role' hik hkn hrole' => hafter (k, role') ?_⟩
    have hk : (k, role') ∈ headings lexicon blocks n := mem_headings.mpr ⟨hkn, hrole'⟩
    rw [hsplit] at hk hsorted
    obtain ⟨-, -, hbefore⟩ := List.pairwise_append.mp hsorted
    rcases List.mem_append.mp hk with hk | hk
    · exact absurd (hbefore _ hk (i, role) List.mem_cons_self) (Nat.not_lt.mpr (Nat.le_of_lt hik))
    · rcases List.mem_cons.mp hk with heq | hk
      · exact absurd (Prod.mk.inj heq).1 (Nat.ne_of_gt hik)
      · exact hk
  · rintro ⟨hi, hrole, hlater⟩
    obtain ⟨before, after, hsplit⟩ :=
      List.append_of_mem (mem_headings.mpr ⟨hi, hrole⟩ : (i, role) ∈ headings lexicon blocks n)
    refine ⟨before, after, hsplit, fun h hh => ?_⟩
    have hmem : h ∈ headings lexicon blocks n := by simp [hsplit, hh]
    obtain ⟨hlt, hrole'⟩ := mem_headings.mp hmem
    rw [hsplit] at hsorted
    have hih := (List.pairwise_cons.mp (List.pairwise_append.mp hsorted).2.1).1 h hh
    exact hlater h.1 h.2 hih hlt hrole'

/-! ## Walks -/

/-- The container of a name. -/
def containerOf (containers : List StructuralContainerNode) (id : String) :
    Option StructuralContainerNode :=
  containers.find? (·.containerId.asStr = id)

theorem containerOf_append {id : String} {c : StructuralContainerNode}
    (h : containerOf containers id = some c) : containerOf (containers ++ more) id = some c := by
  rw [containerOf, List.find?_append]
  exact Option.or_eq_some_iff.mpr (Or.inl h)

theorem containerOf_of_mem (hnd : (containers.map (·.containerId.asStr)).Nodup)
    {c : StructuralContainerNode} (h : c ∈ containers) :
    containerOf containers c.containerId.asStr = some c :=
  Loops.find?_key hnd h

/-- Each name has the next one as its parent, the last one the root. -/
def Linked (containers : List StructuralContainerNode) : List String → Prop
  | [] => ∃ c, containerOf containers rootName = some c ∧ c.containerId.asStr = rootName ∧
      c.parentId = none
  | id :: ids => (∃ c, containerOf containers id = some c ∧ c.containerId.asStr = id ∧
      c.parentId.map (·.asStr) = some (ids.head?.getD rootName)) ∧ Linked containers ids

theorem Linked.append {ids : List String} (h : Linked containers ids) :
    Linked (containers ++ more) ids := by
  induction ids with
  | nil =>
    obtain ⟨c, hc, hrest⟩ := h
    exact ⟨c, containerOf_append hc, hrest⟩
  | cons id ids ih =>
    obtain ⟨⟨c, hc, hrest⟩, hids⟩ := h
    exact ⟨⟨c, containerOf_append hc, hrest⟩, ih hids⟩

theorem Linked.suffix {ids ids' : List String} (h : Linked containers ids) (hs : ids' <:+ ids) :
    Linked containers ids' := by
  induction ids with
  | nil => exact List.suffix_nil.mp hs ▸ h
  | cons id ids ih =>
    rcases List.suffix_cons_iff.mp hs with rfl | hs
    · exact h
    · exact ih h.2 hs

theorem ancestorWalk_step {id : String} {c : StructuralContainerNode}
    (h : containerOf containers id = some c) (turns : Nat) :
    ancestorWalk containers (turns + 1) (some id) =
      (ancestorWalk containers turns (c.parentId.map (·.asStr))).map (·.map (c :: ·)) := by
  rw [containerOf] at h
  simp only [ancestorWalk, h]

theorem ancestorWalk_none (turns : Nat) : ancestorWalk containers turns none = some (.ok []) := by
  cases turns <;> rfl

/-- The walk from the top of linked names passes all of them and the root. -/
theorem Linked.walk {ids : List String} (h : Linked containers ids) :
    ∃ path, path.map (·.containerId.asStr) = ids ++ [rootName] ∧
      ∀ turns, ids.length < turns →
        ancestorWalk containers turns (some (ids.head?.getD rootName)) = some (.ok path) := by
  induction ids with
  | nil =>
    obtain ⟨c, hc, hname, hparent⟩ := h
    refine ⟨[c], by simp [hname], fun turns hturns => ?_⟩
    obtain ⟨turns, rfl⟩ := Nat.exists_eq_succ_of_ne_zero (Nat.ne_of_gt hturns)
    rw [List.head?_nil, Option.getD_none, ancestorWalk_step hc, hparent, Option.map_none,
      ancestorWalk_none]
    rfl
  | cons id ids ih =>
    obtain ⟨⟨c, hc, hname, hparent⟩, hids⟩ := h
    obtain ⟨path, hpath, hwalk⟩ := ih hids
    refine ⟨c :: path, by simp [hname, hpath], fun turns hturns => ?_⟩
    rw [List.length_cons] at hturns
    obtain ⟨turns, rfl⟩ := Nat.exists_eq_succ_of_ne_zero (Nat.ne_of_gt (Nat.zero_lt_of_lt hturns))
    rw [List.head?_cons, Option.getD_some, ancestorWalk_step hc, hparent,
      hwalk turns (Nat.lt_of_succ_lt_succ hturns)]
    rfl

theorem ancestorWalk_append {turns : Nat} {id : Option String}
    {path : List StructuralContainerNode}
    (h : ancestorWalk containers turns id = some (.ok path)) :
    ancestorWalk (containers ++ more) turns id = some (.ok path) := by
  induction turns generalizing id path with
  | zero =>
    cases id with
    | none => exact h
    | some id => exact nomatch h
  | succ turns ih =>
    cases id with
    | none => exact h
    | some id =>
      cases hc : containers.find? (·.containerId.asStr = id) with
      | none => simp [ancestorWalk, hc] at h
      | some c =>
        rw [ancestorWalk_step hc] at h
        rw [ancestorWalk_step (containerOf_append hc)]
        obtain ⟨walked, hwalked, hmap⟩ := Option.map_eq_some_iff.mp h
        cases walked with
        | error e => exact nomatch hmap
        | ok rest => rw [ih hwalked, Option.map_some, hmap]

/-! ## The stack of the loop -/

theorem unwrap_eq_ok_iff {α : Type} {found : Option α} {a : α} :
    unwrap found = .ok a ↔ found = some a := by
  cases found with
  | none => exact iff_of_false nofun nofun
  | some b => exact ⟨fun h => congrArg some (Except.ok.inj h), fun h => h ▸ rfl⟩

theorem find?_containerId (containers : List StructuralContainerNode) (id : ContainerId) :
    containers.find? (·.containerId = id) = containerOf containers id.asStr := by
  rw [containerOf]
  congr 1
  funext c
  exact decide_eq_decide.mpr ContextId.asStr_injective.eq_iff.symm

/-- The names of a stack, with the indices of their blocks. -/
def stackNames (stack : OpenStack) : List (Nat × String) := stack.map fun e => (e.1, e.2.asStr)

def headingNames (opened : List (Nat × ContainerRole)) : List (Nat × String) :=
  opened.map fun h => (h.1, containerName h.1)

theorem closeOpen_spec {stack stack' : OpenStack} {opened : List (Nat × ContainerRole)}
    {rank : Nat} (hstack : stackNames stack = headingNames opened)
    (hroles : ∀ h ∈ opened, ∃ c, containerOf containers (containerName h.1) = some c ∧
      c.role = h.2)
    (h : closeOpen containers rank stack = .ok stack') :
    stackNames stack' = headingNames (stillOpen (fun h => profileRank h.2) opened rank) := by
  induction opened generalizing stack with
  | nil =>
    obtain rfl := List.map_eq_nil_iff.mp hstack
    obtain rfl := Except.ok.inj h
    rfl
  | cons top opened ih =>
    obtain ⟨e, stack, rfl, he, hrest⟩ := List.map_eq_cons_iff.mp hstack
    obtain ⟨⟨c, hc, hrole⟩, hroles⟩ := List.forall_mem_cons.mp hroles
    obtain ⟨-, hname⟩ := Prod.mk.inj he
    rw [closeOpen, find?_containerId, hname, hc] at h
    dsimp only at h
    rw [hrole] at h
    split_ifs at h with hclosed
    · rw [stillOpen, List.dropWhile_cons_of_pos (by simpa using hclosed)]
      exact ih hrest hroles h
    · rw [stillOpen, List.dropWhile_cons_of_neg (by simpa using hclosed)]
      obtain rfl := Except.ok.inj h
      exact hstack

/-- The containers are the root and one for each heading so far; the stack is that of the
headings, each linked to the next. -/
structure Nested (lexicon : Lexicon) (blocks : List ParsedBlock) (n : Nat)
    (containers : List StructuralContainerNode) (stack : OpenStack) : Prop where
  nodes : containers.map (fun c => (c.containerId.asStr, c.role)) =
    (rootName, .document) ::
      (headings lexicon blocks n).map fun h => (containerName h.1, h.2)
  opened : stackNames stack = headingNames (openHeadings lexicon blocks n)
  linked : Linked containers (stack.map (·.2.asStr))

variable {n : Nat} {stack : OpenStack}

theorem Nested.names (h : Nested lexicon blocks n containers stack) :
    containers.map (·.containerId.asStr) =
      rootName :: (headings lexicon blocks n).map fun h => containerName h.1 := by
  simpa [Function.comp_def] using congrArg (List.map Prod.fst) h.nodes

theorem Nested.nodup (h : Nested lexicon blocks n containers stack) :
    (containers.map (·.containerId.asStr)).Nodup := by
  rw [h.names, List.nodup_cons]
  constructor
  · rintro hmem
    obtain ⟨heading, -, heq⟩ := List.mem_map.mp hmem
    exact containerName_ne_rootName _ heq
  · refine List.pairwise_map.mpr ((headings_increasing lexicon blocks n).imp fun hlt heq => ?_)
    exact Nat.ne_of_lt hlt (containerName_inj.mp heq)

theorem Nested.exists_container (h : Nested lexicon blocks n containers stack)
    {heading : Nat × ContainerRole} (hmem : heading ∈ headings lexicon blocks n) :
    ∃ c, containerOf containers (containerName heading.1) = some c ∧ c.role = heading.2 := by
  have hnode : (containerName heading.1, heading.2) ∈
      containers.map fun c => (c.containerId.asStr, c.role) := by
    rw [h.nodes]
    exact List.mem_cons_of_mem _ (List.mem_map_of_mem hmem)
  obtain ⟨c, hc, heq⟩ := List.mem_map.mp hnode
  obtain ⟨hname, hrole⟩ := Prod.mk.inj heq
  exact ⟨c, hname ▸ containerOf_of_mem h.nodup hc, hrole⟩

theorem closeOpen_suffix {rank : Nat} {stack stack' : OpenStack}
    (h : closeOpen containers rank stack = .ok stack') : stack' <:+ stack := by
  induction stack with
  | nil => exact Except.ok.inj h ▸ List.suffix_refl _
  | cons top stack ih =>
    rw [closeOpen] at h
    cases hc : containers.find? (·.containerId = top.2) with
    | none => simp [hc] at h
    | some opened =>
      rw [hc] at h
      dsimp only at h
      split_ifs at h
      · exact (ih h).trans (List.suffix_cons _ _)
      · exact Except.ok.inj h ▸ List.suffix_refl _

/-- The container of a new heading is linked to the one that stays open. -/
theorem Nested.openContainer (h : Nested lexicon blocks n containers stack) {role : ContainerRole}
    (hrole : headingRole lexicon blocks n = some role) {stack' : OpenStack}
    (hclose : closeOpen containers (profileRank role) stack = .ok stack')
    {node : StructuralContainerNode} (hname : node.containerId.asStr = containerName n)
    (hnoderole : node.role = role)
    (hparent : node.parentId.map (·.asStr) =
      some ((stack'.map (·.2.asStr)).head?.getD rootName)) :
    Nested lexicon blocks (n + 1) (containers ++ [node]) ((n, node.containerId) :: stack') := by
  have hsucc : headings lexicon blocks (n + 1) = headings lexicon blocks n ++ [(n, role)] := by
    rw [headings_succ, hrole]
    rfl
  have hnames : (containers ++ [node]).map (·.containerId.asStr) =
      rootName :: (headings lexicon blocks (n + 1)).map fun h => containerName h.1 := by
    rw [List.map_append, h.names, hsucc]
    simp [hname]
  refine ⟨?_, ?_, ?_⟩
  · rw [List.map_append, h.nodes, hsucc, List.map_append]
    simp [hname, hnoderole]
  · have hroles (heading : Nat × ContainerRole)
        (hmem : heading ∈ openHeadings lexicon blocks n) :=
      h.exists_container (openAfter_subset _ hmem)
    rw [openHeadings, hsucc, openAfter_concat]
    exact congrArg₂ List.cons (Prod.ext rfl hname) (closeOpen_spec h.opened hroles hclose)
  · have hnew : containerOf (containers ++ [node]) node.containerId.asStr = some node := by
      refine containerOf_of_mem ?_ (by simp)
      rw [List.map_append, List.map_singleton]
      refine List.nodup_append.mpr ⟨h.nodup, by simp, ?_⟩
      intro a ha b hb
      rw [List.mem_singleton.mp hb, hname]
      rw [h.names] at ha
      rcases List.mem_cons.mp ha with rfl | ha
      · exact (containerName_ne_rootName n).symm
      · obtain ⟨heading, hheading, rfl⟩ := List.mem_map.mp ha
        exact fun heq => Nat.ne_of_lt (mem_headings.mp hheading).1 (containerName_inj.mp heq)
    refine ⟨⟨node, hnew, rfl, hparent⟩, ?_⟩
    exact (h.linked.suffix ((closeOpen_suffix hclose).map _)).append

theorem Nested.skip (h : Nested lexicon blocks n containers stack)
    (hrole : headingRole lexicon blocks n = none) :
    Nested lexicon blocks (n + 1) containers stack := by
  have hsucc : headings lexicon blocks (n + 1) = headings lexicon blocks n := by
    rw [headings_succ, hrole, Option.map_none, Option.toList_none, List.append_nil]
  exact ⟨hsucc ▸ h.nodes, by rw [openHeadings, hsucc]; exact h.opened, h.linked⟩

theorem headingRole_eq {b : ParsedBlock} (hb : blocks[n]? = some b)
    {role : Option (ContainerRole × Option TextSpan)}
    (hrole : blockRole lexicon n b = .ok role) :
    headingRole lexicon blocks n = role.map (·.1) := by
  simp only [headingRole, hb, Option.bind_eq_bind, Option.bind_some, hrole, Except.toOption]

theorem parent_asStr {state : IndexState} (hroot : root.asStr = rootName) :
    (state.parent root).asStr = (state.stack.map (·.2.asStr)).head?.getD rootName := by
  rw [IndexState.parent]
  cases state.stack with
  | nil => exact hroot
  | cons top stack => rfl

theorem openHeading_spec {state state' : IndexState} {b : ParsedBlock} {anchor : TextSpan}
    {role : Option (ContainerRole × Option TextSpan)}
    (h : Nested decoder.lexicon blocks n state.containers state.stack)
    (hroot : root.asStr = rootName) (hb : blocks[n]? = some b)
    (hrole : blockRole decoder.lexicon n b = .ok role)
    (hopen : openHeading decoder root state n b anchor role = .ok state') :
    Nested decoder.lexicon blocks (n + 1) state'.containers state'.stack ∧
      state'.sourceBlocks = state.sourceBlocks ∧
      (∃ more, state'.containers = state.containers ++ more) ∧
      ∃ more, state'.edges = state.edges ++ more ∧ ∀ e ∈ more, e.relation ≠ .containedIn := by
  have hheading := headingRole_eq hb hrole
  cases role with
  | none =>
    obtain rfl := Except.ok.inj hopen
    exact ⟨h.skip hheading, rfl, ⟨[], by simp⟩, [], by simp, nofun⟩
  | some found =>
    obtain ⟨role, heading⟩ := found
    rw [openHeading, LawNexus.Decode.openContainer] at hopen
    obtain ⟨stack', hclose, hopen⟩ := bind_eq_ok_iff.mp hopen
    obtain ⟨cid, hcid, hopen⟩ := bind_eq_ok_iff.mp hopen
    obtain rfl := Except.ok.inj hopen
    have hname := ContextId.parse_eq_some_iff.mp (unwrap_eq_ok_iff.mp hcid)
    refine ⟨h.openContainer hheading hclose hname rfl ?_, rfl, ⟨_, rfl⟩, _, rfl, by simp⟩
    exact congrArg some (parent_asStr hroot)

/-! ## The index -/

/-- The container that a block is in, as the walk finds it. -/
def containedEdge (edges : List StructureEdge) (block : String) : Option StructureEdge :=
  edges.find? fun e => e.fromRef = block && e.relation = .containedIn

/-- What holds of the state behind the first blocks. -/
structure Indexed (lexicon : Lexicon) (blocks : List ParsedBlock) (n : Nat)
    (state : IndexState) : Prop where
  nested : Nested lexicon blocks n state.containers state.stack
  blockNames : state.sourceBlocks.map (·.blockId.asStr) = (List.range n).map blockName
  contained : ∀ e ∈ state.edges, e.relation = .containedIn → ∃ j < n, e.fromRef = blockName j
  paths : ∀ j < n, ∃ e path, containedEdge state.edges (blockName j) = some e ∧
    path.map (·.containerId.asStr) =
      (openHeadings lexicon blocks (j + 1)).map (fun h => containerName h.1) ++ [rootName] ∧
    ∀ turns, state.containers.length ≤ turns →
      ancestorWalk state.containers turns (some e.toRef) = some (.ok path)

theorem containedEdge_append {edges more : List StructureEdge} {block : String}
    {e : StructureEdge} (h : containedEdge edges block = some e) :
    containedEdge (edges ++ more) block = some e := by
  rw [containedEdge, List.find?_append]
  exact Option.or_eq_some_iff.mpr (Or.inl h)

theorem containedEdge_concat {edges : List StructureEdge} {block : String} {e : StructureEdge}
    (hold : ∀ e ∈ edges, e.relation = .containedIn → e.fromRef ≠ block)
    (hrelation : e.relation = .containedIn) (hfrom : e.fromRef = block) :
    containedEdge (edges ++ [e]) block = some e := by
  rw [containedEdge, List.find?_append, List.find?_eq_none.mpr, Option.none_or]
  · exact List.find?_cons_of_pos (by simp [hrelation, hfrom])
  · intro e he
    simpa using fun hfrom hrel => hold e he hrel hfrom

theorem Nested.walk (h : Nested lexicon blocks n containers stack) :
    ∃ path, path.map (·.containerId.asStr) =
        (openHeadings lexicon blocks n).map (fun h => containerName h.1) ++ [rootName] ∧
      ∀ turns, containers.length ≤ turns → ancestorWalk containers turns
        (some ((stack.map (·.2.asStr)).head?.getD rootName)) = some (.ok path) := by
  have hnames : stack.map (·.2.asStr) =
      (openHeadings lexicon blocks n).map fun h => containerName h.1 := by
    simpa [stackNames, headingNames, Function.comp_def] using
      congrArg (List.map Prod.snd) h.opened
  have hlen : (stack.map (·.2.asStr)).length < containers.length := by
    have hcount := congrArg List.length h.nodes
    rw [List.length_map, List.length_cons, List.length_map] at hcount
    rw [hnames, List.length_map, hcount]
    exact Nat.lt_succ_of_le (length_openAfter_le _)
  obtain ⟨path, hpath, hwalk⟩ := h.linked.walk
  exact ⟨path, by rw [hpath, hnames], fun turns hturns => hwalk turns (hlen.trans_le hturns)⟩

theorem adjacencyEdges_relation {i : Nat} {anchor : TextSpan} :
    ∀ e ∈ adjacencyEdges i anchor, e.relation ≠ .containedIn := by
  unfold adjacencyEdges
  split_ifs <;> simp

theorem indexBlock_spec {state state' : IndexState} {b : ParsedBlock}
    (h : Indexed decoder.lexicon blocks n state) (hroot : root.asStr = rootName)
    (hb : blocks[n]? = some b) (hstep : indexBlock decoder root state (b, n) = .ok state') :
    Indexed decoder.lexicon blocks (n + 1) state' := by
  rw [indexBlock] at hstep
  dsimp only at hstep
  obtain ⟨bid, hbid, hstep⟩ := bind_eq_ok_iff.mp hstep
  have hname := ContextId.parse_eq_some_iff.mp (unwrap_eq_ok_iff.mp hbid)
  split_ifs at hstep with hnew htext
  obtain ⟨role, hrole, hstep⟩ := bind_eq_ok_iff.mp hstep
  obtain ⟨opened, hopen, hstep⟩ := bind_eq_ok_iff.mp hstep
  obtain ⟨hnested, hblocks, ⟨moreContainers, hcontainers⟩, moreEdges, hedges, hmore⟩ :=
    openHeading_spec (by exact h.nested) hroot hb hrole hopen
  obtain rfl := Except.ok.inj hstep
  -- Of the edges behind the old ones, only the last says where a block is contained.
  have hother (e : StructureEdge)
      (he : e ∈ adjacencyEdges n ⟨0, byteLen b.text, htext⟩ ++ moreEdges) :
      e.relation ≠ .containedIn :=
    (List.mem_append.mp he).elim (adjacencyEdges_relation e) (hmore e)
  have hsplit : opened.edges = state.edges ++
      (adjacencyEdges n ⟨0, byteLen b.text, htext⟩ ++ moreEdges) := by
    rw [hedges, List.append_assoc]
  refine ⟨hnested, ?_, ?_, ?_⟩
  · rw [List.range_succ, List.map_append, ← h.blockNames]
    simp [hblocks, hname]
  · intro e he hrelation
    rw [hsplit] at he
    rcases List.mem_append.mp he with he | he
    · rcases List.mem_append.mp he with he | he
      · obtain ⟨j, hj, hfrom⟩ := h.contained e he hrelation
        exact ⟨j, Nat.lt_succ_of_lt hj, hfrom⟩
      · exact absurd hrelation (hother e he)
    · obtain rfl := List.mem_singleton.mp he
      exact ⟨n, Nat.lt_succ_self n, hname⟩
  · intro j hj
    rcases Nat.lt_succ_iff_lt_or_eq.mp hj with hj | rfl
    · obtain ⟨e, path, he, hpath, hwalk⟩ := h.paths j hj
      refine ⟨e, path, ?_, hpath, fun turns hturns => ?_⟩
      · rw [hsplit, List.append_assoc]
        exact containedEdge_append he
      · rw [hcontainers] at hturns ⊢
        rw [List.length_append] at hturns
        exact ancestorWalk_append (hwalk turns (Nat.le_of_add_right_le hturns))
    · obtain ⟨path, hpath, hwalk⟩ := hnested.walk
      refine ⟨_, path, containedEdge_concat ?_ rfl hname, hpath, fun turns hturns => ?_⟩
      · intro e he hrelation
        rw [hsplit] at he
        rcases List.mem_append.mp he with he | he
        · obtain ⟨i, hi, hfrom⟩ := h.contained e he hrelation
          rw [hfrom]
          exact fun heq => Nat.ne_of_lt hi (blockName_inj.mp heq)
        · exact absurd hrelation (hother e he)
      · rw [parent_asStr hroot]
        exact hwalk turns hturns

/-- What the loop has made of the first blocks. -/
theorem foldlM_indexBlock {state state' : IndexState} {rest : List ParsedBlock}
    (h : Indexed decoder.lexicon blocks n state) (hroot : root.asStr = rootName)
    (hrest : blocks.drop n = rest)
    (hrun : (rest.zipIdx n).foldlM (indexBlock decoder root) state = .ok state') :
    Indexed decoder.lexicon blocks (n + rest.length) state' := by
  induction rest generalizing n state with
  | nil =>
    obtain rfl := Except.ok.inj hrun
    exact h
  | cons b rest ih =>
    rw [List.zipIdx_cons, List.foldlM_cons] at hrun
    obtain ⟨next, hstep, hrun⟩ := bind_eq_ok_iff.mp hrun
    have hb : blocks[n]? = some b := by
      rw [← List.head?_drop, hrest]
      rfl
    have hdrop : blocks.drop (n + 1) = rest := by
      rw [← List.tail_drop, hrest]
      rfl
    have hnext := ih (indexBlock_spec h hroot hb hstep) hdrop hrun
    rwa [List.length_cons, Nat.add_comm rest.length 1, ← Nat.add_assoc]

theorem buildDocumentStructureIndex_spec {version : DocumentVersionRef}
    {index : DocumentStructureIndex}
    (h : buildDocumentStructureIndex decoder version blocks = .ok index) :
    ∃ state, Indexed decoder.lexicon blocks blocks.length state ∧
      index = ⟨version, state.sourceBlocks, state.containers, state.edges⟩ := by
  rw [buildDocumentStructureIndex] at h
  split_ifs at h
  obtain ⟨root, hroot, h⟩ := bind_eq_ok_iff.mp h
  obtain ⟨state, hrun, h⟩ := bind_eq_ok_iff.mp h
  have hname := ContextId.parse_eq_some_iff.mp (unwrap_eq_ok_iff.mp hroot)
  obtain rfl := Except.ok.inj h
  refine ⟨state, ?_, rfl⟩
  have hstart : Indexed decoder.lexicon blocks 0
      ⟨[], [], [⟨root, .document, none, none, none⟩], [], []⟩ := by
    refine ⟨⟨by simp [hname, headings], rfl, ?_⟩, rfl, nofun, nofun⟩
    exact ⟨_, List.find?_cons_of_pos (by simp [hname]), hname, rfl⟩
  simpa using foldlM_indexBlock hstart hname rfl hrun

/-- The path of a block is the stack of the open headings with the root below. -/
theorem ancestorPathIn_spec {version : DocumentVersionRef} {index : DocumentStructureIndex}
    (h : buildDocumentStructureIndex decoder version blocks = .ok index)
    {node : SourceBlockNode} (hnode : node ∈ index.sourceBlocks) :
    ∃ j < blocks.length, node.blockId.asStr = blockName j ∧
      ∃ path, path.map (·.containerId.asStr) =
          (openHeadings decoder.lexicon blocks (j + 1)).map (fun h => containerName h.1) ++
            [rootName] ∧
        ∀ turns, index.containers.length ≤ turns →
          index.ancestorPathIn turns node.blockId = some (.ok path) := by
  obtain ⟨state, hstate, rfl⟩ := buildDocumentStructureIndex_spec h
  have hname : node.blockId.asStr ∈ (List.range blocks.length).map blockName := by
    rw [← hstate.blockNames]
    exact List.mem_map_of_mem hnode
  obtain ⟨j, hj, hj'⟩ := List.mem_map.mp hname
  obtain ⟨e, path, he, hpath, hwalk⟩ := hstate.paths j (List.mem_range.mp hj)
  refine ⟨j, List.mem_range.mp hj, hj'.symm, path, hpath, fun turns hturns => ?_⟩
  obtain ⟨found, hfound⟩ := Option.isSome_iff_exists.mp
    (List.find?_isSome.mpr ⟨node, hnode, by simp⟩ :
      (state.sourceBlocks.find? (·.blockId = node.blockId)).isSome)
  have hfoundId : found.blockId = node.blockId := by simpa using List.find?_some hfound
  have hnil : path ≠ [] := by
    rintro rfl
    simp at hpath
  simp only [DocumentStructureIndex.ancestorPathIn, hfound]
  rw [hfoundId, ← hj']
  have hedge : state.edges.find? (fun e => e.fromRef = blockName j && e.relation = .containedIn) =
      some e := he
  rw [hedge, Option.map_some, hwalk turns hturns, Option.map_some]
  exact congrArg some (if_neg hnil)

end LawNexus.Decode
