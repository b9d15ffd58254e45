import LawNexus.Decode.Containment
import LawNexus.Decode.Leaves

/-!
# The head of an open series

`open_series_head` reads strings off the edges of the overlay. It finds the heads of a frame that
pass the eligibility clauses, and nothing else.
-/

namespace LawNexus.Decode

open Loops

/-! ## Generated refs -/

theorem frameName_eq (block : BlockId) (n : Nat) :
    frameName block n = block.asStr ++ "-frame" ++ "-" ++ Nat.repr n := by
  have hcut : "-frame-" = "-frame" ++ "-" := rfl
  rw [frameName, hcut, ← String.append_assoc]

theorem designationName_eq (block : BlockId) (n : Nat) :
    designationName block n = block.asStr ++ "-designation" ++ "-" ++ Nat.repr n := by
  have hcut : "-designation-" = "-designation" ++ "-" := rfl
  rw [designationName, hcut, ← String.append_assoc]

theorem append_right_inj {s s' t : String} : s ++ t = s' ++ t ↔ s = s' := by
  rw [← String.toList_inj, String.toList_append, String.toList_append, List.append_left_inj,
    String.toList_inj]

theorem frameName_inj {block block' : BlockId} {m n : Nat} :
    frameName block m = frameName block' n ↔ block = block' ∧ m = n := by
  rw [frameName_eq, frameName_eq, Texts.append_dash_repr_inj, append_right_inj,
    ContextId.asStr_injective.eq_iff]

theorem designationName_inj {block block' : BlockId} {m n : Nat} :
    designationName block m = designationName block' n ↔ block = block' ∧ m = n := by
  rw [designationName_eq, designationName_eq, Texts.append_dash_repr_inj, append_right_inj,
    ContextId.asStr_injective.eq_iff]

theorem frameName_ne_designationName (block block' : BlockId) (m n : Nat) :
    frameName block m ≠ designationName block' n := by
  rw [frameName_eq, designationName_eq]
  intro h
  have hstem := congrArg (fun s : String => s.toList.getLast?) (Texts.append_dash_repr_inj.mp h).1
  have hframe : "-frame".toList.getLast? = some 'e' := by decide
  have hdesignation : "-designation".toList.getLast? = some 'n' := by decide
  simp only [String.toList_append, List.getLast?_append, hframe, hdesignation] at hstem
  exact absurd hstem (by simp)

/-- The id of a block of an index has one dash, a generated ref has more. -/
theorem blockName_ne_numbered {stem : String} (hdash : '-' ∈ stem.toList) (i n : Nat) :
    blockName i ≠ stem ++ "-" ++ Nat.repr n := by
  intro h
  have hblock : blockName i = "block" ++ "-" ++ Nat.repr i := rfl
  rw [hblock] at h
  obtain ⟨rfl, -⟩ := Texts.append_dash_repr_inj.mp h
  exact absurd hdash (by decide)

theorem blockName_ne_frameName (block : BlockId) (i n : Nat) :
    blockName i ≠ frameName block n := by
  rw [frameName_eq]
  exact blockName_ne_numbered (by simp) i n

theorem blockName_ne_designationName (block : BlockId) (i n : Nat) :
    blockName i ≠ designationName block n := by
  rw [designationName_eq]
  exact blockName_ne_numbered (by simp) i n

/-! ## What a turn places -/

variable {turns : Nat} {index : DocumentStructureIndex}

def ActFrameRecord.node (r : ActFrameRecord) : LocalGrammarFrameNode :=
  ⟨r.frameRef, r.blockId, .actRequisites, r.localAnchor, r.status⟩

theorem orFailed_ok {α : Type} {e : OverlayBuildError} {found : Option α} {a : α} :
    orFailed e found = .ok a ↔ found = some a := by
  cases found with
  | none => exact iff_of_false nofun nofun
  | some b => exact ⟨fun h => congrArg some (Except.ok.inj h), fun h => h ▸ rfl⟩

/-- A placed frame of a block: its node, its record and an edge that leaves the series alone. -/
structure PlacedFrame.InBlock (block : BlockId) (p : PlacedFrame) : Prop where
  node : p.node.blockId = block
  record : ∀ r, p.record = some r → p.node = r.node
  edge : p.edge.relation = .continuesSeries → p.edge.toRef = block.asStr

section

variable {source : SourceBlockNode} {scopeId : ContainerId} {block : BlockId}

theorem placeFrame_ok {frame : CoordinatingFrame} {n : Nat} {p : PlacedFrame}
    (h : placeFrame source scopeId block (frame, n) = .ok p) :
    p.node.frameRef.asStr = frameName block n ∧ p.InBlock block ∧
      ∀ r, p.record = some r ↔ frame.frameKind = .actRequisites ∧
        r = ⟨p.node.frameRef, block, source.order, scopeId, frame.localAnchor, frame.status,
          !frame.headRoles.isEmpty⟩ := by
  unfold placeFrame at h
  obtain ⟨frameRef, href, h⟩ := bind_eq_ok_iff.mp h
  cases h
  refine ⟨ContextId.parse_eq_some_iff.mp (orFailed_ok.mp href), ⟨rfl, ?_, fun _ => rfl⟩, ?_⟩
  · intro r hr
    dsimp only at hr
    by_cases hkind : frame.frameKind = .actRequisites
    · rw [if_pos hkind] at hr
      cases hr
      rw [ActFrameRecord.node, hkind]
    · rw [if_neg hkind] at hr
      cases hr
  · intro r
    dsimp only
    by_cases hkind : frame.frameKind = .actRequisites
    · rw [if_pos hkind, Option.some_inj, eq_comm]
      exact (and_iff_right hkind).symm
    · rw [if_neg hkind]
      exact iff_of_false nofun fun h => hkind h.1

theorem placeDesignation_ok {frame : StructuralDesignationFrame} {n : Nat} {p : PlacedFrame}
    (h : placeDesignation scopeId block (frame, n) = .ok p) :
    p.node.frameRef.asStr = designationName block n ∧ p.InBlock block ∧ p.record = none := by
  unfold placeDesignation at h
  obtain ⟨frameRef, href, h⟩ := bind_eq_ok_iff.mp h
  cases h
  exact ⟨ContextId.parse_eq_some_iff.mp (orFailed_ok.mp href), ⟨rfl, nofun, nofun⟩, rfl⟩

theorem ownerScope_ok (h : ownerScope turns index block = .ok scopeId) :
    ∃ scope, index.ancestorPathIn turns block = some (.ok scope) ∧
      scope.head?.map (·.containerId) = some scopeId := by
  unfold ownerScope at h
  split at h
  · cases h
  · cases h
  · next scope hpath => exact ⟨scope, hpath, orFailed_ok.mp h⟩

end

/-- The frame refs of a block, in the order of its frames. -/
def refNames (entry : BlockFrames) : List String :=
  (List.range entry.2.1.length).map (frameName entry.1) ++
    (List.range entry.2.2.length).map (designationName entry.1)

theorem map_zipIdx_snd {α β : Type} (f : Nat → β) (l : List α) :
    (l.zipIdx.map fun e => f e.2) = (List.range l.length).map f := by
  rw [List.range_eq_range', ← List.zipIdx_map_snd, List.map_map]
  rfl

theorem placeBlock_ok {block : BlockId} {frames : List CoordinatingFrame}
    {designations : List StructuralDesignationFrame} {ps : List PlacedFrame}
    (h : placeBlock turns index (block, frames, designations) = .ok ps) :
    ∃ source scopeId placed owned,
      index.sourceBlocks.find? (·.blockId = block) = some source ∧
      ownerScope turns index block = .ok scopeId ∧
      frames.zipIdx.mapM (placeFrame source scopeId block) = .ok placed ∧
      designations.zipIdx.mapM (placeDesignation scopeId block) = .ok owned ∧
      ps = placed ++ owned := by
  unfold placeBlock at h
  obtain ⟨source, hsource, h⟩ := bind_eq_ok_iff.mp h
  obtain ⟨scopeId, hscope, h⟩ := bind_eq_ok_iff.mp h
  obtain ⟨placed, hplaced, h⟩ := bind_eq_ok_iff.mp h
  obtain ⟨owned, howned, h⟩ := bind_eq_ok_iff.mp h
  exact ⟨source, scopeId, placed, owned, orFailed_ok.mp hsource, hscope, hplaced, howned,
    (Except.ok.inj h).symm⟩

/-- The refs of a placed block, the block of its frames, and the edges it adds. -/
theorem placeBlock_names {entry : BlockFrames} {ps : List PlacedFrame}
    (h : placeBlock turns index entry = .ok ps) :
    ps.map (·.node.frameRef.asStr) = refNames entry ∧ ∀ p ∈ ps, p.InBlock entry.1 := by
  obtain ⟨block, frames, designations⟩ := entry
  obtain ⟨source, scopeId, placed, owned, -, -, hplaced, howned, rfl⟩ := placeBlock_ok h
  have hframes : placed.map (·.node.frameRef.asStr) =
      frames.zipIdx.map fun e => frameName block e.2 :=
    map_eq_of_mapM hplaced fun _ _ h => (placeFrame_ok h).1
  have hdesignations : owned.map (·.node.frameRef.asStr) =
      designations.zipIdx.map fun e => designationName block e.2 :=
    map_eq_of_mapM howned fun _ _ h => (placeDesignation_ok h).1
  constructor
  · rw [List.map_append, hframes, hdesignations, map_zipIdx_snd, map_zipIdx_snd]
    rfl
  · intro p hp
    rcases List.mem_append.mp hp with hp | hp
    · obtain ⟨e, -, he⟩ := (forall₂_partner (mapM_eq_ok_iff.mp hplaced)).2 p hp
      exact (placeFrame_ok he).2.1
    · obtain ⟨e, -, he⟩ := (forall₂_partner (mapM_eq_ok_iff.mp howned)).2 p hp
      exact (placeDesignation_ok he).2.1

/-! ## The act frames of the input -/

/-- The record of a frame at its place in a block: the order is that of the block in the document,
the scope the first container of its ancestor path. -/
structure ActFrameAt (turns : Nat) (index : DocumentStructureIndex) (block : BlockId) (n : Nat)
    (frame : CoordinatingFrame) (r : ActFrameRecord) : Prop where
  kind : frame.frameKind = .actRequisites
  frameRef : r.frameRef.asStr = frameName block n
  blockId : r.blockId = block
  order : ∃ source ∈ index.sourceBlocks, source.blockId = block ∧ r.order = source.order
  scope : ∃ scope, index.ancestorPathIn turns block = some (.ok scope) ∧
    scope.head?.map (·.containerId) = some r.scopeId
  localAnchor : r.localAnchor = frame.localAnchor
  status : r.status = frame.status
  admitsActType : r.admitsActType = true ↔ frame.headRoles ≠ []

def IsActFrame (turns : Nat) (index : DocumentStructureIndex) (framesPerBlock : List BlockFrames)
    (r : ActFrameRecord) : Prop :=
  ∃ entry ∈ framesPerBlock, ∃ n frame, entry.2.1[n]? = some frame ∧
    ActFrameAt turns index entry.1 n frame r

section

variable (hids : (index.sourceBlocks.map (·.blockId)).Nodup)
include hids

theorem ActFrameAt.eq {block : BlockId} {n : Nat} {frame : CoordinatingFrame}
    {r r' : ActFrameRecord} (h : ActFrameAt turns index block n frame r)
    (h' : ActFrameAt turns index block n frame r') : r = r' := by
  obtain ⟨source, hmem, hblock, horder⟩ := h.order
  obtain ⟨source', hmem', hblock', horder'⟩ := h'.order
  obtain ⟨scope, hscope, hfirst⟩ := h.scope
  obtain ⟨scope', hscope', hfirst'⟩ := h'.scope
  have hsource : source = source' :=
    List.inj_on_of_nodup_map hids hmem hmem' (hblock.trans hblock'.symm)
  have hpath : scope = scope' := by simpa [hscope] using hscope'
  have hadmits : r.admitsActType = r'.admitsActType :=
    Bool.eq_iff_iff.mpr (h.admitsActType.trans h'.admitsActType.symm)
  have href : r.frameRef = r'.frameRef :=
    ContextId.asStr_injective (h.frameRef.trans h'.frameRef.symm)
  have hid : r.scopeId = r'.scopeId :=
    Option.some.inj (hfirst.symm.trans (hpath ▸ hfirst'))
  cases r
  cases r'
  simp only [ActFrameRecord.mk.injEq]
  exact ⟨href, h.blockId.trans h'.blockId.symm, horder.trans (hsource ▸ horder'.symm), hid,
    h.localAnchor.trans h'.localAnchor.symm, h.status.trans h'.status.symm, hadmits⟩

/-- The records of a placed block are those of its act frames. -/
theorem placeBlock_records {entry : BlockFrames} {ps : List PlacedFrame}
    (h : placeBlock turns index entry = .ok ps) (r : ActFrameRecord) :
    (∃ p ∈ ps, p.record = some r) ↔
      ∃ n frame, entry.2.1[n]? = some frame ∧ ActFrameAt turns index entry.1 n frame r := by
  obtain ⟨block, frames, designations⟩ := entry
  obtain ⟨source, scopeId, placed, owned, hsource, hscope, hplaced, howned, rfl⟩ := placeBlock_ok h
  have hframes := forall₂_partner (mapM_eq_ok_iff.mp hplaced)
  have hat : ∀ frame n p r, placeFrame source scopeId block (frame, n) = .ok p →
      p.record = some r → ActFrameAt turns index block n frame r := by
    intro frame n p r hp hr
    obtain ⟨href, -, hrecord⟩ := placeFrame_ok hp
    obtain ⟨hkind, rfl⟩ := (hrecord r).mp hr
    have hblock : source.blockId = block := by simpa using List.find?_some hsource
    exact ⟨hkind, href, rfl, ⟨source, List.mem_of_find?_eq_some hsource, hblock, rfl⟩,
      ownerScope_ok hscope, rfl, rfl, by simp⟩
  constructor
  · rintro ⟨p, hp, hr⟩
    rcases List.mem_append.mp hp with hp | hp
    · obtain ⟨⟨frame, n⟩, hmem, hturn⟩ := hframes.2 p hp
      exact ⟨n, frame, List.mem_zipIdx_iff_getElem?.mp hmem, hat frame n p r hturn hr⟩
    · obtain ⟨⟨frame, n⟩, -, hturn⟩ :=
        (forall₂_partner (mapM_eq_ok_iff.mp howned)).2 p hp
      rw [(placeDesignation_ok hturn).2.2] at hr
      cases hr
  · rintro ⟨n, frame, hframe, hr⟩
    obtain ⟨p, hp, hturn⟩ := hframes.1 (frame, n) (List.mem_zipIdx_iff_getElem?.mpr hframe)
    have hrecord := ((placeFrame_ok hturn).2.2 _).mpr ⟨hr.kind, rfl⟩
    have hsame := (hat frame n p _ hturn hrecord).eq hids hr
    exact ⟨p, List.mem_append_left _ hp, hsame ▸ hrecord⟩

end

/-! ## All blocks -/

theorem refNames_nodup (entry : BlockFrames) : (refNames entry).Nodup := by
  refine List.nodup_append.mpr ⟨?_, ?_, ?_⟩
  · exact List.nodup_range.map fun _ _ h => (frameName_inj.mp h).2
  · exact List.nodup_range.map fun _ _ h => (designationName_inj.mp h).2
  · intro name hname name' hname'
    obtain ⟨m, -, rfl⟩ := List.mem_map.mp hname
    obtain ⟨n, -, rfl⟩ := List.mem_map.mp hname'
    exact frameName_ne_designationName _ _ m n

theorem refNames_disjoint {entry entry' : BlockFrames} (h : entry.1 ≠ entry'.1) :
    (refNames entry).Disjoint (refNames entry') := by
  intro name hname hname'
  rcases List.mem_append.mp hname with hname | hname <;>
    rcases List.mem_append.mp hname' with hname' | hname' <;>
    obtain ⟨m, -, rfl⟩ := List.mem_map.mp hname <;>
    obtain ⟨n, -, heq⟩ := List.mem_map.mp hname'
  · exact h (frameName_inj.mp heq).1.symm
  · exact frameName_ne_designationName _ _ _ _ heq.symm
  · exact frameName_ne_designationName _ _ _ _ heq
  · exact h (designationName_inj.mp heq).1.symm

theorem blockName_notMem_refNames (entry : BlockFrames) (i : Nat) :
    blockName i ∉ refNames entry := by
  intro h
  rcases List.mem_append.mp h with h | h <;> obtain ⟨n, -, heq⟩ := List.mem_map.mp h
  · exact blockName_ne_frameName _ i n heq.symm
  · exact blockName_ne_designationName _ i n heq.symm

/-- What a build places before the series edges. -/
structure Placed (turns : Nat) (index : DocumentStructureIndex)
    (framesPerBlock : List BlockFrames) (ps : List PlacedFrame) : Prop where
  refs : (ps.map (·.node.frameRef.asStr)).Nodup
  generated : ∀ p ∈ ps, ∃ entry, p.node.frameRef.asStr ∈ refNames entry
  edge : ∀ p ∈ ps, p.edge.relation = .continuesSeries →
    ∃ source ∈ index.sourceBlocks, p.edge.toRef = source.blockId.asStr
  node : ∀ p ∈ ps, ∀ r, p.record = some r → p.node = r.node
  records : ∀ r, r ∈ ps.filterMap (·.record) ↔ IsActFrame turns index framesPerBlock r

section

variable {framesPerBlock : List BlockFrames} {capturesPerBlock : List (BlockId × List LawRef)}
  {overlay : DocumentAnalysisOverlay}

theorem buildDocumentAnalysisOverlay_ok (hids : (index.sourceBlocks.map (·.blockId)).Nodup)
    (hblocks : (framesPerBlock.map (·.1)).Nodup)
    (h : buildDocumentAnalysisOverlay turns index framesPerBlock capturesPerBlock = .ok overlay) :
    ∃ ps, Placed turns index framesPerBlock ps ∧ overlay.frames = ps.map (·.node) ∧
      overlay.edges = ps.map (·.edge) ++ seriesEdges (ps.filterMap (·.record)) := by
  unfold buildDocumentAnalysisOverlay at h
  obtain ⟨pss, hpss, h⟩ := bind_eq_ok_iff.mp h
  obtain ⟨mentions, -, h⟩ := bind_eq_ok_iff.mp h
  cases h
  refine ⟨pss.flatten, ⟨?_, ?_, ?_, ?_, ?_⟩, rfl, rfl⟩
  all_goals have hturns := forall₂_partner (mapM_eq_ok_iff.mp hpss)
  · have hnames : pss.map (·.map (·.node.frameRef.asStr)) = framesPerBlock.map refNames :=
      map_eq_of_mapM hpss fun _ _ h => (placeBlock_names h).1
    rw [List.map_flatten, hnames, ← List.flatMap_def, List.nodup_flatMap]
    refine ⟨fun entry _ => refNames_nodup entry, ?_⟩
    exact (List.pairwise_map.mp hblocks).imp refNames_disjoint
  · intro p hp
    obtain ⟨ps, hps, hp⟩ := List.mem_flatten.mp hp
    obtain ⟨entry, -, hturn⟩ := hturns.2 ps hps
    exact ⟨entry, (placeBlock_names hturn).1 ▸ List.mem_map_of_mem hp⟩
  · intro p hp hrelation
    obtain ⟨ps, hps, hp⟩ := List.mem_flatten.mp hp
    obtain ⟨⟨block, frames, designations⟩, -, hturn⟩ := hturns.2 ps hps
    obtain ⟨source, scopeId, placed, owned, hsource, -⟩ := placeBlock_ok hturn
    have hblock : source.blockId = block := by simpa using List.find?_some hsource
    refine ⟨source, List.mem_of_find?_eq_some hsource, ?_⟩
    rw [hblock]
    exact ((placeBlock_names hturn).2 p hp).edge hrelation
  · intro p hp
    obtain ⟨ps, hps, hp⟩ := List.mem_flatten.mp hp
    obtain ⟨entry, -, hturn⟩ := hturns.2 ps hps
    exact ((placeBlock_names hturn).2 p hp).record
  · intro r
    rw [List.mem_filterMap]
    constructor
    · rintro ⟨p, hp, hr⟩
      obtain ⟨ps, hps, hp⟩ := List.mem_flatten.mp hp
      obtain ⟨entry, hentry, hturn⟩ := hturns.2 ps hps
      exact ⟨entry, hentry, (placeBlock_records hids hturn r).mp ⟨p, hp, hr⟩⟩
    · rintro ⟨entry, hentry, hr⟩
      obtain ⟨ps, hps, hturn⟩ := hturns.1 entry hentry
      obtain ⟨p, hp, hr⟩ := (placeBlock_records hids hturn r).mpr hr
      exact ⟨p, List.mem_flatten.mpr ⟨ps, hps, hp⟩, hr⟩

end

/-! ## The edges into a frame -/

theorem headEdges_spec {tail : ActFrameRecord} {heads : List ActFrameRecord} {e : ContextualEdge}
    (h : e ∈ headEdges tail heads) : e.relation = .continuesSeries ∧
      e.toRef = tail.frameRef.asStr ∧ e.status ≠ .rejected := by
  unfold headEdges at h
  split at h
  · cases h
  · rw [List.mem_singleton] at h
    subst h
    exact ⟨rfl, rfl, nofun⟩
  · obtain ⟨head, -, rfl⟩ := List.mem_map.mp h
    exact ⟨rfl, rfl, nofun⟩

theorem filter_headEdges {tail : ActFrameRecord} {heads : List ActFrameRecord} {f : FrameRef} :
    (headEdges tail heads).filter (fun e =>
      (e.relation = .continuesSeries && e.toRef = f.asStr) && e.status ≠ .rejected) =
      if tail.frameRef = f then headEdges tail heads else [] := by
  split_ifs with hf
  · subst hf
    rw [List.filter_eq_self]
    intro e he
    simp [headEdges_spec he]
  · rw [List.filter_eq_nil_iff]
    intro e he hpass
    simp only [Bool.and_eq_true, decide_eq_true_eq] at hpass
    exact hf (ContextId.asStr_injective ((headEdges_spec he).2.1.symm.trans hpass.1.2))

/-- The frames that wait for a head. -/
def OpenTail (r : ActFrameRecord) : Prop := r.admitsActType = false ∧ r.status ≠ .rejected

def tailsOf (records : List ActFrameRecord) : List ActFrameRecord :=
  records.filter fun r => !r.admitsActType && r.status ≠ .rejected

def eligibleHeads (records : List ActFrameRecord) (tail : ActFrameRecord) : List ActFrameRecord :=
  records.filter (·.eligibleContinuationHeadFor tail)

theorem mem_tailsOf {records : List ActFrameRecord} {r : ActFrameRecord} :
    r ∈ tailsOf records ↔ r ∈ records ∧ OpenTail r := by
  simp [tailsOf, OpenTail]

section

variable {framesPerBlock : List BlockFrames} {ps : List PlacedFrame}
  (hplaced : Placed turns index framesPerBlock ps)
include hplaced

theorem Placed.eq_of_ref {p p' : PlacedFrame} (hp : p ∈ ps) (hp' : p' ∈ ps)
    (h : p.node.frameRef = p'.node.frameRef) : p = p' :=
  List.inj_on_of_nodup_map hplaced.refs hp hp' (congrArg ContextId.asStr h)

theorem Placed.records_nodup : ((ps.filterMap (·.record)).map (·.frameRef.asStr)).Nodup := by
  obtain ⟨hrefs, -, -, hnode, -⟩ := hplaced
  induction ps with
  | nil => exact List.nodup_nil
  | cons p ps ih =>
    obtain ⟨hfresh, hrefs⟩ := List.nodup_cons.mp hrefs
    have hrest := ih hrefs fun q hq => hnode q (List.mem_cons_of_mem p hq)
    cases hr : p.record with
    | none => rwa [List.filterMap_cons_none hr]
    | some r =>
      rw [List.filterMap_cons_some hr, List.map_cons, List.nodup_cons]
      refine ⟨fun hmem => hfresh ?_, hrest⟩
      obtain ⟨r', hr', hsame⟩ := List.mem_map.mp hmem
      obtain ⟨q, hq, hrecord⟩ := List.mem_filterMap.mp hr'
      have hp : p.node = r.node := hnode p List.mem_cons_self r hr
      have hq' : q.node = r'.node := hnode q (List.mem_cons_of_mem p hq) r' hrecord
      refine List.mem_map.mpr ⟨q, hq, ?_⟩
      dsimp only
      rw [hp, hq']
      exact hsame

/-- The edges of the blocks lead to blocks: only series edges lead to a frame. -/
theorem Placed.headsOf_eq {overlay : DocumentAnalysisOverlay}
    (hnames : ∀ source ∈ index.sourceBlocks, ∃ i, source.blockId.asStr = blockName i)
    (hedges : overlay.edges = ps.map (·.edge) ++ seriesEdges (ps.filterMap (·.record)))
    {p : PlacedFrame} (hp : p ∈ ps) :
    overlay.headsOf p.node.frameRef = (tailsOf (ps.filterMap (·.record))).flatMap fun tail =>
      if tail.frameRef = p.node.frameRef then
        headEdges tail (eligibleHeads (ps.filterMap (·.record)) tail)
      else [] := by
  have hblocks : (ps.map (·.edge)).filter (fun e => (e.relation = .continuesSeries &&
      e.toRef = p.node.frameRef.asStr) && e.status ≠ .rejected) = [] := by
    rw [List.filter_eq_nil_iff]
    intro e he hpass
    simp only [Bool.and_eq_true, decide_eq_true_eq] at hpass
    obtain ⟨q, hq, rfl⟩ := List.mem_map.mp he
    obtain ⟨source, hsource, hto⟩ := hplaced.edge q hq hpass.1.1
    obtain ⟨i, hi⟩ := hnames source hsource
    obtain ⟨entry, hentry⟩ := hplaced.generated p hp
    exact blockName_notMem_refNames entry i (hi ▸ hto ▸ hpass.1.2 ▸ hentry)
  rw [DocumentAnalysisOverlay.headsOf, hedges, List.filter_append, hblocks, List.nil_append,
    seriesEdges, List.filter_flatMap]
  exact List.flatMap_congr fun tail _ => filter_headEdges

end

/-! ## The law of the series -/

section

variable {framesPerBlock : List BlockFrames} {capturesPerBlock : List (BlockId × List LawRef)}
  {overlay : DocumentAnalysisOverlay}

/-- An act frame that satisfies all eligibility clauses for a frame that waits for a head. -/
def EligibleHead (turns : Nat) (index : DocumentStructureIndex)
    (framesPerBlock : List BlockFrames) (f : LocalGrammarFrameNode) (head : ActFrameRecord) :
    Prop :=
  IsActFrame turns index framesPerBlock head ∧
    ∃ tail, IsActFrame turns index framesPerBlock tail ∧ tail.node = f ∧ OpenTail tail ∧
      head.eligibleContinuationHeadFor tail = true

def seriesEdge (f : LocalGrammarFrameNode) (status : StructureEdgeStatus)
    (head : ActFrameRecord) : ContextualEdge :=
  ⟨head.frameRef.asStr, f.frameRef.asStr, .continuesSeries, [head.localAnchor, f.localAnchor],
    .derivedPath, status⟩

def seriesStatus (heads : List ActFrameRecord) : StructureEdgeStatus :=
  if heads.length = 1 then .proposed else .conflicting

theorem headEdges_eq (tail : ActFrameRecord) (heads : List ActFrameRecord) :
    headEdges tail heads = heads.map (seriesEdge tail.node (seriesStatus heads)) := by
  match heads with
  | [] => rfl
  | [head] => rfl
  | head :: head' :: rest => rfl

theorem Placed.record_eq_of_ref {ps : List PlacedFrame}
    (hplaced : Placed turns index framesPerBlock ps) {r r' : ActFrameRecord}
    (hr : IsActFrame turns index framesPerBlock r) (hr' : IsActFrame turns index framesPerBlock r')
    (h : r.frameRef = r'.frameRef) : r = r' :=
  List.inj_on_of_nodup_map hplaced.records_nodup ((hplaced.records r).mpr hr)
    ((hplaced.records r').mpr hr') (congrArg ContextId.asStr h)

/-- The edges that are read for a frame are those of its eligible heads. -/
theorem exists_heads {ps : List PlacedFrame} (hplaced : Placed turns index framesPerBlock ps)
    (hnames : ∀ source ∈ index.sourceBlocks, ∃ i, source.blockId.asStr = blockName i)
    (hedges : overlay.edges = ps.map (·.edge) ++ seriesEdges (ps.filterMap (·.record)))
    {p : PlacedFrame} (hp : p ∈ ps) :
    ∃ heads : List ActFrameRecord, (heads.map (·.frameRef.asStr)).Nodup ∧
      (∀ head, head ∈ heads ↔ EligibleHead turns index framesPerBlock p.node head) ∧
      overlay.headsOf p.node.frameRef = heads.map (seriesEdge p.node (seriesStatus heads)) := by
  rw [hplaced.headsOf_eq hnames hedges hp]
  have hmem := hplaced.records
  by_cases hopen : ∃ tail, IsActFrame turns index framesPerBlock tail ∧ OpenTail tail ∧
      tail.frameRef = p.node.frameRef
  · obtain ⟨tail, htail, hwaits, href⟩ := hopen
    obtain ⟨q, hq, hrecord⟩ := List.mem_filterMap.mp ((hmem tail).mpr htail)
    have hnode : q.node = tail.node := hplaced.node q hq tail hrecord
    have hsame : q = p := hplaced.eq_of_ref hq hp (hnode ▸ href)
    rw [hsame] at hnode
    refine ⟨eligibleHeads (ps.filterMap (·.record)) tail, ?_, ?_, ?_⟩
    · exact hplaced.records_nodup.sublist (List.filter_sublist.map _)
    · intro head
      rw [eligibleHeads, List.mem_filter, hmem]
      constructor
      · rintro ⟨hhead, heligible⟩
        exact ⟨hhead, tail, htail, hnode.symm, hwaits, heligible⟩
      · rintro ⟨hhead, tail', htail', hnode', -, heligible⟩
        have : tail' = tail := hplaced.record_eq_of_ref htail' htail
          (congrArg LocalGrammarFrameNode.frameRef (hnode'.trans hnode))
        exact ⟨hhead, this ▸ heligible⟩
    · have htails : ((tailsOf (ps.filterMap (·.record))).map (·.frameRef.asStr)).Nodup :=
        hplaced.records_nodup.sublist (List.filter_sublist.map _)
      have hin : tail ∈ tailsOf (ps.filterMap (·.record)) :=
        mem_tailsOf.mpr ⟨(hmem tail).mpr htail, hwaits⟩
      rw [flatMap_key htails hin, if_pos href, headEdges_eq, hnode]
      intro tail' _ hne
      exact if_neg fun href' => hne (congrArg ContextId.asStr (href'.trans href.symm))
  · refine ⟨[], List.nodup_nil, ?_, ?_⟩
    · intro head
      refine iff_of_false List.not_mem_nil ?_
      rintro ⟨-, tail, htail, hnode, hwaits, -⟩
      exact hopen ⟨tail, htail, hwaits, congrArg LocalGrammarFrameNode.frameRef hnode⟩
    · refine List.flatMap_eq_nil_iff.mpr fun tail htail => if_neg fun href => hopen ?_
      obtain ⟨hrecord, hwaits⟩ := mem_tailsOf.mp htail
      exact ⟨tail, (hmem tail).mp hrecord, hwaits, href⟩

theorem sourceBlocks_spec {decoder : Decoder} {version : DocumentVersionRef}
    {blocks : List ParsedBlock}
    (h : buildDocumentStructureIndex decoder version blocks = .ok index) :
    (index.sourceBlocks.map (·.blockId)).Nodup ∧
      ∀ source ∈ index.sourceBlocks, ∃ i, source.blockId.asStr = blockName i := by
  obtain ⟨state, hstate, rfl⟩ := buildDocumentStructureIndex_spec h
  have hnames := hstate.blockNames
  constructor
  · have hnodup : (state.sourceBlocks.map (·.blockId.asStr)).Nodup :=
      hnames ▸ List.nodup_range.map fun _ _ h => blockName_inj.mp h
    rw [← Function.comp_def ContextId.asStr, ← List.map_map] at hnodup
    exact hnodup.of_map _
  · intro source hsource
    have hname : source.blockId.asStr ∈ (List.range blocks.length).map blockName :=
      hnames ▸ List.mem_map_of_mem hsource
    obtain ⟨i, -, hi⟩ := List.mem_map.mp hname
    exact ⟨i, hi.symm⟩

/-- No head leaves the series open, one resolves it, more are in conflict. -/
def seriesOutcome (f : LocalGrammarFrameNode) : List ActFrameRecord → LeafOutcome
  | [] => .partialOutcome .openSeriesWithoutHead
  | [head] => ⟨.resolved, [(seriesEdge f .proposed head).headCandidate], []⟩
  | heads =>
    ⟨.conflicting, heads.map fun head => (seriesEdge f .conflicting head).headCandidate,
      [.incompatibleSeriesHead]⟩

theorem openSeriesHead_of_heads {f : LocalGrammarFrameNode} {heads : List ActFrameRecord}
    (h : overlay.headsOf f.frameRef = heads.map (seriesEdge f (seriesStatus heads))) :
    openSeriesHead overlay f.frameRef = seriesOutcome f heads := by
  unfold openSeriesHead
  rw [h]
  match heads with
  | [] => rfl
  | [head] => rfl
  | head :: head' :: rest => simp [seriesStatus, seriesEdge, seriesOutcome]

theorem seriesOutcome_nodeRefs (f : LocalGrammarFrameNode) (heads : List ActFrameRecord) :
    (seriesOutcome f heads).candidates.map (·.nodeRef) = heads.map (·.frameRef.asStr) := by
  unfold seriesOutcome
  split
  · rfl
  · rfl
  · rw [List.map_map]
    rfl

theorem seriesOutcome_status (f : LocalGrammarFrameNode) (heads : List ActFrameRecord) :
    ((seriesOutcome f heads).status = .partialContext ↔ heads = []) ∧
      ((seriesOutcome f heads).status = .resolved ↔ ∃ head, heads = [head]) ∧
      ((seriesOutcome f heads).status = .conflicting ↔
        ∃ head head' rest, heads = head :: head' :: rest) := by
  match heads with
  | [] => simp [seriesOutcome, LeafOutcome.partialOutcome]
  | [head] => simp [seriesOutcome]
  | head :: head' :: rest => simp [seriesOutcome]

/-- The answer to a frame tells how many act frames are eligible as its head, and which. -/
theorem openSeriesHead_iff {decoder : Decoder} {version : DocumentVersionRef}
    {blocks : List ParsedBlock}
    (hindex : buildDocumentStructureIndex decoder version blocks = .ok index)
    (hblocks : (framesPerBlock.map (·.1)).Nodup)
    (hbuild : buildDocumentAnalysisOverlay turns index framesPerBlock capturesPerBlock =
      .ok overlay) {f : LocalGrammarFrameNode} (hf : f ∈ overlay.frames) :
    let eligible := EligibleHead turns index framesPerBlock f
    let outcome := openSeriesHead overlay f.frameRef
    (∀ node, outcome.status = .resolved ∧ outcome.candidates.map (·.nodeRef) = [node] ↔
      ∃ head, eligible head ∧ head.frameRef.asStr = node ∧
        ∀ head', eligible head' → head' = head) ∧
    (outcome.status = .conflicting ↔ ∃ head head', eligible head ∧ eligible head' ∧ head ≠ head') ∧
    (outcome.status = .conflicting → (outcome.candidates.map (·.nodeRef)).Nodup ∧
      ∀ node, node ∈ outcome.candidates.map (·.nodeRef) ↔
        ∃ head, eligible head ∧ head.frameRef.asStr = node) ∧
    (outcome.status = .partialContext ↔ ∀ head, ¬eligible head) ∧
    ∀ e ∈ overlay.headsOf f.frameRef, ∃ head, eligible head ∧ e = seriesEdge f e.status head := by
  intro eligible outcome
  obtain ⟨hids, hnames⟩ := sourceBlocks_spec hindex
  obtain ⟨ps, hplaced, hframes, hedges⟩ := buildDocumentAnalysisOverlay_ok hids hblocks hbuild
  obtain ⟨p, hp, rfl⟩ := List.mem_map.mp (hframes ▸ hf)
  obtain ⟨heads, hnodup, hmem, hheads⟩ := exists_heads hplaced hnames hedges hp
  have houtcome : outcome = seriesOutcome p.node heads := openSeriesHead_of_heads hheads
  obtain ⟨hopen, hresolved, hconflicting⟩ := seriesOutcome_status p.node heads
  have hrefs := seriesOutcome_nodeRefs p.node heads
  rw [houtcome]
  refine ⟨fun node => ?_, ?_, fun _ => ?_, ?_, fun e he => ?_⟩
  · rw [hresolved, hrefs]
    constructor
    · rintro ⟨⟨head, rfl⟩, hnode⟩
      refine ⟨head, (hmem head).mp List.mem_cons_self, by simpa using hnode, fun head' h => ?_⟩
      exact List.mem_singleton.mp ((hmem head').mpr h)
    · rintro ⟨head, hhead, rfl, honly⟩
      have heq : heads = [head] := by
        by_contra hne
        rcases (hnodup.of_map.ne_singleton_iff head).mp hne with rfl | ⟨head', hhead', hother⟩
        · exact absurd ((hmem head).mpr hhead) List.not_mem_nil
        · exact hother (honly head' ((hmem head').mp hhead'))
      rw [heq]
      exact ⟨⟨head, rfl⟩, rfl⟩
  · rw [hconflicting]
    constructor
    · rintro ⟨head, head', rest, rfl⟩
      refine ⟨head, head', (hmem head).mp (by simp), (hmem head').mp (by simp), ?_⟩
      rintro rfl
      simp at hnodup
    · rintro ⟨head, head', hhead, hhead', hne⟩
      have hin := (hmem head).mpr hhead
      have hin' := (hmem head').mpr hhead'
      match heads with
      | [] => cases hin
      | [only] =>
        exact absurd ((List.mem_singleton.mp hin).trans (List.mem_singleton.mp hin').symm) hne
      | first :: second :: rest => exact ⟨first, second, rest, rfl⟩
  · rw [hrefs]
    refine ⟨hnodup, fun node => ?_⟩
    simp only [List.mem_map, hmem]
    rfl
  · rw [hopen, List.eq_nil_iff_forall_not_mem]
    exact forall_congr' fun head => not_congr (hmem head)
  · obtain ⟨head, hhead, rfl⟩ := List.mem_map.mp (hheads ▸ he)
    exact ⟨head, (hmem head).mp hhead, rfl⟩

theorem orFailed_ne_unfinished {α : Type} {e : OverlayBuildError} {found : Option α} :
    orFailed e found ≠ .error .unfinished := by
  cases found <;> exact nofun

theorem placeBlock_ne_unfinished {decoder : Decoder} {version : DocumentVersionRef}
    {blocks : List ParsedBlock}
    (hindex : buildDocumentStructureIndex decoder version blocks = .ok index)
    (hturns : index.containers.length ≤ turns) (entry : BlockFrames) :
    placeBlock turns index entry ≠ .error .unfinished := by
  obtain ⟨block, frames, designations⟩ := entry
  unfold placeBlock
  intro h
  obtain h | ⟨source, hsource, h⟩ := bind_eq_error_iff.mp h
  · exact orFailed_ne_unfinished h
  obtain h | ⟨scopeId, -, h⟩ := bind_eq_error_iff.mp h
  · have hfound := orFailed_ok.mp hsource
    have hblock : source.blockId = block := by simpa using List.find?_some hfound
    obtain ⟨-, -, -, path, -, hpath⟩ :=
      ancestorPathIn_spec hindex (List.mem_of_find?_eq_some hfound)
    rw [ownerScope, ← hblock, hpath turns hturns] at h
    exact orFailed_ne_unfinished h
  obtain h | ⟨placed, -, h⟩ := bind_eq_error_iff.mp h
  · obtain ⟨⟨frame, n⟩, -, h⟩ := exists_of_mapM_error h
    obtain h | ⟨frameRef, -, h⟩ := bind_eq_error_iff.mp h
    · exact orFailed_ne_unfinished h
    · cases h
  obtain h | ⟨owned, -, h⟩ := bind_eq_error_iff.mp h
  · obtain ⟨⟨frame, n⟩, -, h⟩ := exists_of_mapM_error h
    obtain h | ⟨frameRef, -, h⟩ := bind_eq_error_iff.mp h
    · exact orFailed_ne_unfinished h
    · cases h
  · cases h

theorem placeMentions_ne_unfinished (entry : BlockId × List LawRef) :
    placeMentions index entry ≠ .error .unfinished := by
  obtain ⟨block, captures⟩ := entry
  unfold placeMentions
  dsimp only
  split_ifs
  · nofun
  · intro h
    obtain ⟨⟨capture, n⟩, -, h⟩ := exists_of_mapM_error h
    obtain h | ⟨mentionRef, -, h⟩ := bind_eq_error_iff.mp h
    · exact orFailed_ne_unfinished h
    · cases h

/-- As many turns as the index has containers suffice for the overlay. -/
theorem buildDocumentAnalysisOverlay_ne_unfinished {decoder : Decoder}
    {version : DocumentVersionRef} {blocks : List ParsedBlock}
    (hindex : buildDocumentStructureIndex decoder version blocks = .ok index)
    (hturns : index.containers.length ≤ turns) :
    buildDocumentAnalysisOverlay turns index framesPerBlock capturesPerBlock ≠
      .error .unfinished := by
  unfold buildDocumentAnalysisOverlay
  intro h
  obtain h | ⟨placed, -, h⟩ := bind_eq_error_iff.mp h
  · obtain ⟨entry, -, h⟩ := exists_of_mapM_error h
    exact placeBlock_ne_unfinished hindex hturns entry h
  obtain h | ⟨mentions, -, h⟩ := bind_eq_error_iff.mp h
  · obtain ⟨entry, -, h⟩ := exists_of_mapM_error h
    exact placeMentions_ne_unfinished entry h
  · cases h

end

/-! ### A head and the frame that continues it -/

namespace Sample

def twoParagraphs : List ParsedBlock := [⟨['a'], .bodyText⟩, ⟨['b'], .bodyText⟩]

def paragraphIndex : DocumentStructureIndex :=
  (buildDocumentStructureIndex cyrillic docVersion twoParagraphs).toOption.getD
    ⟨docVersion, [], [], []⟩

theorem build_paragraphIndex :
    buildDocumentStructureIndex cyrillic docVersion twoParagraphs = .ok paragraphIndex := by rfl

theorem isContextId_blockName_zero : isContextId (blockName 0) = true := by decide

theorem isContextId_blockName_one : isContextId (blockName 1) = true := by decide

theorem isContextId_tail : isContextId "block-1-frame-0" = true := by decide

def letter : TextSpan := ⟨0, 1, Nat.one_pos⟩

def headThenTail : List BlockFrames :=
  [(⟨blockName 0, isContextId_blockName_zero⟩,
      [⟨.actRequisites, letter, ["type"], false, .proposed⟩], []),
    (⟨blockName 1, isContextId_blockName_one⟩,
      [⟨.actRequisites, letter, [], true, .proposed⟩], [])]

def seriesOverlay : DocumentAnalysisOverlay :=
  (buildDocumentAnalysisOverlay 1 paragraphIndex headThenTail []).toOption.getD
    ⟨docVersion, [], [], [], []⟩

theorem build_seriesOverlay :
    buildDocumentAnalysisOverlay 1 paragraphIndex headThenTail [] = .ok seriesOverlay := by rfl

def tailNode : LocalGrammarFrameNode :=
  ⟨⟨"block-1-frame-0", isContextId_tail⟩, ⟨blockName 1, isContextId_blockName_one⟩,
    .actRequisites, letter, .proposed⟩

theorem openSeriesHead_of_tail :
    ∃ head, EligibleHead 1 paragraphIndex headThenTail tailNode head ∧
      head.frameRef.asStr = "block-0-frame-0" ∧
      ∀ head', EligibleHead 1 paragraphIndex headThenTail tailNode head' → head' = head :=
  ((openSeriesHead_iff build_paragraphIndex (by decide) build_seriesOverlay
    (by decide : tailNode ∈ seriesOverlay.frames)).1 "block-0-frame-0").mp
      (by decide)

end Sample

end LawNexus.Decode
