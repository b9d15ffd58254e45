import LawNexus.Forest.Returns
import LawNexus.Reader.ReadingOrder
import LawNexus.Reader.Views

/-!
# When the loops over the parents end

The index takes every record list whose parents are elements, also where the parents go round. The
loops and the builds come to an end exactly where they do not.
-/

namespace LawNexus.Reader

open Forest SourcePackage Loops ReaderRecordIndex

variable {index : ReaderRecordIndex} {ε ρ : Type}

/-! ## The parent links -/

/-- The edges from parents to children that the element records of a list spell. -/
def parentEdges (records : List Record) : List (String × String) :=
  (records.filterMap Record.element?).filterMap fun e => e.parent.map (·, e.id)

theorem mem_parentEdges {records : List Record} (h : ReaderRecordIndex.new records = .ok index)
    (p c : String) : (p, c) ∈ parentEdges records ↔ parentOf index c = some p := by
  rw [parentEdges, ← (new_eq_ok h).1, List.mem_filterMap, parentOf, Option.bind_eq_some_iff]
  constructor
  · rintro ⟨e, he, hedge⟩
    obtain ⟨parent, hparent, hpair⟩ := Option.map_eq_some_iff.mp hedge
    obtain ⟨rfl, rfl⟩ := Prod.mk.inj hpair
    exact ⟨e, element_of_mem he, hparent⟩
  · rintro ⟨e, he, hparent⟩
    obtain ⟨hmem, rfl⟩ := element_eq_some_iff.mp he
    exact ⟨e, hmem, by rw [hparent]; rfl⟩

theorem mem_ids_of_parentOf {s : String} (h : parentOf index s ≠ none) :
    s ∈ index.elements.map (·.id) := by
  obtain ⟨p, hp⟩ := Option.ne_none_iff_exists'.mp h
  obtain ⟨e, he, -⟩ := Option.bind_eq_some_iff.mp hp
  obtain ⟨hmem, rfl⟩ := element_eq_some_iff.mp he
  exact List.mem_map_of_mem hmem

theorem cycleFree_iff {records : List Record} (h : ReaderRecordIndex.new records = .ok index) :
    CycleFree (parentEdges records) ↔ Acyclic (parentOf index) :=
  cycleFree_iff_acyclic (mem_parentEdges h)

/-! ## One loop -/

/-- A turn goes on to the parent, whatever it is at. -/
def Upward (index : ReaderRecordIndex) (body : String → Except ε (Turn String ρ)) : Prop :=
  ∀ s t, body s = .ok (.next t) → parentOf index s = some t

theorem Climbs.upward {body : String → Except ε (Turn String ρ)} (h : Climbs index body)
    (hnone : ∀ s t, index.element s = none → body s ≠ .ok (.next t)) : Upward index body := by
  intro s t hnext
  cases hs : index.element s with
  | none => exact absurd hnext (hnone s t hs)
  | some e =>
    obtain ⟨he, rfl⟩ := element_eq_some_iff.mp hs
    rw [parentOf_of_mem he]
    exact h.next he hnext

theorem Upward.returns {body : String → Except ε (Turn String ρ)} (h : Upward index body)
    (hacyclic : Acyclic (parentOf index)) (s : String) : Returns (climb body index.turns s) := by
  have hturns : index.turns = (index.elements.map (·.id)).length + 1 := by
    rw [turns, List.length_map]
  rw [hturns]
  exact returns_climb (fun _ => mem_ids_of_parentOf) h
    (grounded_of_acyclic (fun _ => mem_ids_of_parentOf) hacyclic s)

/-- A loop that runs out of turns does so with any number of them. -/
theorem Upward.endless {body : String → Except ε (Turn String ρ)} (h : Upward index body)
    {s : String} (hs : climb body index.turns s = .error .endless) (turns : Nat) :
    climb body turns s = .error .endless := by
  rw [show index.turns = (index.elements.map (·.id)).length + 1 by
    rw [ReaderRecordIndex.turns, List.length_map]] at hs
  refine climb_endless ?_ hs turns
  intro s hgo
  obtain ⟨t, ht⟩ := Option.ne_none_iff_exists'.mp hgo
  exact mem_ids_of_parentOf (by rw [h s t (goesOn_eq_some.mp ht)]; simp)

theorem upward_paragraphTurn : Upward index (paragraphTurn index) := by
  refine climbs_paragraphTurn.upward fun s t hs => ?_
  simp [paragraphTurn, requireRole, ReaderRecordIndex.roleOf, hs, malformedIndex]

theorem upward_anchorTurn : Upward index (anchorTurn index) := by
  refine climbs_anchorTurn.upward fun s t hs => ?_
  simp [anchorTurn, parentId, hs, malformedIndex]

theorem upward_containerTurn (errors : WalkErrors ε) (allowed : List ReaderRole) :
    Upward index (containerTurn errors index allowed) := by
  refine (climbs_containerTurn errors allowed).upward fun s t hs => ?_
  simp [containerTurn, parentOf, hs]

theorem upward_ancestorTurn (errors : WalkErrors ε) (role : ReaderRole) :
    Upward index (ancestorTurn errors index role) := by
  refine (climbs_ancestorTurn errors role).upward fun s t hs => ?_
  simp [ancestorTurn, roleOf, ReaderRecordIndex.roleOf, hs]

/-! ## Every loop -/

/-- Each walk up from an element ends, whatever it looks for. -/
structure WalksEnd (index : ReaderRecordIndex) (elementRef : ElementRef) : Prop where
  viewKey : Returns (viewKey index elementRef)
  residualAnchor : Returns (residualAnchor index elementRef)
  tailViewKey : Returns (tailViewKey index elementRef)
  nearestContainer : ∀ allowed,
    Returns (nearestContainer projectionErrors index elementRef allowed)
  ancestorHasRole : ∀ role, Returns (ancestorHasRole projectionErrors index elementRef role)

section

variable (hacyclic : Acyclic (parentOf index))
include hacyclic

theorem returns_residualAnchor (id : String) : Returns (residualAnchor index id) :=
  upward_anchorTurn.returns hacyclic id

theorem returns_viewKey (id : String) : Returns (viewKey index id) := by
  refine (upward_paragraphTurn.returns hacyclic id).bind fun paragraph => ?_
  cases paragraph with
  | some paragraph => exact returns_ok _
  | none => exact (returns_residualAnchor hacyclic id).map _

theorem returns_tailViewKey (childRef : String) : Returns (tailViewKey index childRef) := by
  refine (returns_mapError_failed _ id).bind fun paragraph => ?_
  cases paragraph with
  | some paragraph => exact returns_ok _
  | none => exact (returns_residualAnchor hacyclic childRef).map _

theorem returns_slotView (id : String) (slot : TextSlot) : Returns (slotView index id slot) := by
  cases slot with
  | text => exact returns_viewKey hacyclic id
  | tail => exact returns_tailViewKey hacyclic id

theorem returns_nearestContainer (errors : WalkErrors ε) (id : String)
    (allowed : List ReaderRole) : Returns (nearestContainer errors index id allowed) :=
  (upward_containerTurn errors allowed).returns hacyclic id

theorem returns_ancestorHasRole (errors : WalkErrors ε) (id : String) (role : ReaderRole) :
    Returns (ancestorHasRole errors index id role) :=
  (upward_ancestorTurn errors role).returns hacyclic id

theorem walksEnd_of_acyclic (id : String) : WalksEnd index id where
  viewKey := returns_viewKey hacyclic id
  residualAnchor := returns_residualAnchor hacyclic id
  tailViewKey := returns_tailViewKey hacyclic id
  nearestContainer := returns_nearestContainer hacyclic projectionErrors id
  ancestorHasRole := returns_ancestorHasRole hacyclic projectionErrors id

end

/-- A search for no role at all goes on as long as there are parents. -/
theorem goesOn_containerTurn_nil (errors : WalkErrors ε) :
    goesOn (containerTurn errors index []) = parentOf index := by
  funext s
  cases hs : parentOf index s with
  | none => simp [goesOn, containerTurn, hs]
  | some parent =>
    obtain ⟨e, he, hparent⟩ := Option.bind_eq_some_iff.mp hs
    obtain ⟨p, hp, rfl⟩ := exists_parent (element_eq_some_iff.mp he).1 hparent
    simp [goesOn, containerTurn, hs, roleOf_of_mem hp]

theorem acyclic_of_walksEnd (h : ∀ e ∈ index.elements, WalksEnd index e.id) :
    Acyclic (parentOf index) := by
  refine acyclic_of_grounded fun s hs => ?_
  obtain ⟨e, he, rfl⟩ := List.mem_map.mp (mem_ids_of_parentOf hs)
  rw [← goesOn_containerTurn_nil projectionErrors]
  exact grounded_of_returns ((h e he).nearestContainer [])

/-! ## The builds -/

section

variable (hacyclic : Acyclic (parentOf index))
include hacyclic

theorem returns_textEvents (errors : WalkErrors ε)
    (fragment : FragmentRef → TextSlot → ElementRef → ReaderViewKey → ρ)
    (element : ElementRecord) (slot : TextSlot) (reference : Option FragmentRef) :
    Returns (textEvents errors index fragment element slot reference) := by
  cases reference with
  | none => exact returns_ok _
  | some id =>
    exact ((returns_slotView hacyclic element.id slot).mapError _).bind fun _ => returns_ok _

theorem returns_controlEvents (errors : WalkErrors ε)
    (control : ElementRef → ReaderDerivedKind → ReaderViewKey → ρ) (element : ElementRecord)
    (role : ReaderRole) : Returns (controlEvents errors index control element role) := by
  refine returns_ite ?_ (returns_ok _)
  cases controlDerivedKind element.clarkTag element.attrs with
  | none => exact returns_ok _
  | some kind =>
    exact ((returns_viewKey hacyclic element.id).mapError _).bind fun _ => returns_ok _

theorem returns_referenceEvents (errors : WalkErrors ε)
    (reference : ElementRef → ReaderReferenceType → ReaderViewKey → ρ) (element : ElementRecord)
    (role : ReaderRole) : Returns (referenceEvents errors index reference element role) := by
  refine (returns_mapError_failed _ id).bind fun boundary => returns_ite ?_ (returns_ok _)
  cases referenceTypeOf element.clarkTag with
  | none => exact returns_ok _
  | some type =>
    exact ((returns_viewKey hacyclic element.id).mapError _).bind fun _ => returns_ok _

theorem returns_walkEvents (errors : WalkErrors ε)
    (fragment : FragmentRef → TextSlot → ElementRef → ReaderViewKey → ρ)
    (control : ElementRef → ReaderDerivedKind → ReaderViewKey → ρ)
    {references : ElementRecord → ReaderRole → Except (Stop ε) (List ρ)}
    (hreferences : ∀ element role, Returns (references element role)) :
    Returns (walkEvents errors index fragment control references) := by
  refine (returns_mapM fun step _ => ?_).map _
  cases step with
  | node element =>
    refine (returns_mapError_failed _ id).bind fun role => ?_
    refine (returns_textEvents hacyclic errors fragment element .text element.textRef).bind
      fun texts => ?_
    refine (returns_controlEvents hacyclic errors control element role).bind fun controls => ?_
    exact (hreferences element role).bind fun _ => returns_ok _
  | tail element => exact returns_textEvents hacyclic errors fragment element .tail element.tailRef

theorem returns_contextSemantic (errors : WalkErrors ε) (context : Option String) :
    Returns (contextSemantic errors index context) := by
  cases context with
  | none => exact returns_ok none
  | some id =>
    refine (returns_ancestorHasRole hacyclic errors id _).bind fun _ =>
      returns_ite (returns_ok _) ?_
    refine (returns_ancestorHasRole hacyclic errors id _).bind fun _ =>
      returns_ite (returns_ok _) ?_
    exact (returns_ancestorHasRole hacyclic errors id _).bind fun _ =>
      returns_ite (returns_ok _) (returns_ok _)

theorem returns_textSemantic (errors : WalkErrors ε) (owner : String) (slot : TextSlot)
    (value : List Char) : Returns (textSemantic errors index owner slot value) := by
  unfold textSemantic
  cases index.element owner with
  | none => exact returns_failed _
  | some element => exact (returns_contextSemantic hacyclic errors _).bind fun _ => returns_ok _

end

namespace Projection

theorem returns_missingView {α : Type} (detail : String) :
    Returns (missingView detail : Except (Stop ProjectionError) α) := returns_failed _

theorem returns_addSeed (seeds : List ViewSeed) (key : ReaderViewKey) :
    Returns (addSeed index seeds key) := by
  unfold addSeed
  cases index.sourcePos key.elementRef with
  | none => exact returns_missingView _
  | some pos => exact returns_ok _

theorem returns_addSeeds (seeds : List ViewSeed) (keys : List ReaderViewKey) :
    Returns (addSeeds index seeds keys) :=
  returns_foldlM returns_addSeed seeds

theorem returns_seedLoop
    {key : ElementRecord → Except (Stop ProjectionError) (Option ReaderViewKey)}
    (h : ∀ element, Returns (key element)) (seeds : List ViewSeed) :
    Returns (seedLoop index key seeds) :=
  returns_foldlM (fun seeds element => (h element).bind fun _ => returns_addSeeds seeds _) seeds

theorem returns_structuralKey (element : ElementRecord) : Returns (structuralKey index element) :=
  (returns_mapError_failed _ id).bind fun _ => returns_ok _

theorem returns_requirePos (what id : String) : Returns (requirePos index what id) := by
  unfold requirePos
  cases index.sourcePos id with
  | none => exact returns_missingView _
  | some pos => exact returns_ok pos

theorem returns_eventPosition (seeds : List ViewSeed) (views : List ProjectedView)
    (event : ProjectionEvent) : Returns (eventPosition seeds views event) := by
  unfold eventPosition
  dsimp only
  cases idByKey seeds event.viewKey with
  | none => exact returns_missingView _
  | some id =>
    dsimp only
    cases positionOf views id with
    | none => exact returns_missingView _
    | some position => exact returns_ok _

theorem returns_checkParentView (views : List ProjectedView) (view : ProjectedView) :
    Returns (checkParentView views view) := by
  unfold checkParentView
  cases view.parentView with
  | none => exact returns_ok ()
  | some parent => exact returns_ite (returns_ok ()) (returns_missingView _)

theorem returns_wholeSpan (fragment : FragmentRef) (value : List Char) :
    Returns (wholeSpan fragment value) := by
  unfold wholeSpan
  dsimp only
  cases checkFragmentSpan value (wholeFragmentSpan fragment value) with
  | error error => exact returns_failed _
  | ok => exact returns_ok _

section

variable (hacyclic : Acyclic (parentOf index))
include hacyclic

theorem returns_referenceKey (element : ElementRecord) : Returns (referenceKey index element) := by
  refine (returns_mapError_failed _ id).bind fun role => returns_ite ?_ (returns_ok none)
  exact ((returns_viewKey hacyclic element.id).mapError _).bind fun _ => returns_ok _

theorem returns_partitionPrimaryViews : Returns (partitionPrimaryViews index) :=
  returns_mapM fun text _ => (returns_slotView hacyclic text.owner text.slot).map _

theorem returns_viewSeeds : Returns (viewSeeds index) := by
  refine (returns_seedLoop returns_structuralKey []).bind fun structural => ?_
  refine ((returns_partitionPrimaryViews hacyclic).mapError _).bind fun partition => ?_
  refine (returns_addSeeds structural _).bind fun residual => ?_
  exact (returns_seedLoop (returns_referenceKey hacyclic) residual).bind fun _ => returns_ok _

theorem returns_parentView (seeds : List ViewSeed) (key : ReaderViewKey) :
    Returns (parentView index seeds key) := by
  refine (returns_nearestContainer hacyclic projectionErrors key.elementRef _).bind
    fun container => ?_
  cases container with
  | none => exact returns_ok none
  | some container =>
    refine (returns_mapError_failed _ id).bind fun role => ?_
    cases structuralViewKind role with
    | none => exact returns_missingView _
    | some kind =>
      dsimp only
      cases idByKey seeds ⟨kind, container⟩ with
      | none => exact returns_missingView _
      | some id => exact returns_ok _

theorem returns_fillEvent (view : ViewId) (fill : Fill) (event : ProjectionEvent) :
    Returns (fillEvent index view fill event) := by
  cases event with
  | fragment fragment slot owner key =>
    refine Returns.map ?_ _
    unfold fragmentSegment
    cases index.text fragment with
    | none => exact returns_missingView _
    | some text =>
      refine (returns_wholeSpan fragment text.value).bind fun span => ?_
      refine (returns_textSemantic hacyclic projectionErrors owner slot text.value).bind
        fun semantic => ?_
      exact (returns_requirePos _ owner).bind fun _ => returns_ok _
  | control element kind key =>
    exact ((returns_requirePos _ element).bind fun _ => returns_ok _).map _
  | reference element type key =>
    exact ((returns_requirePos _ element).bind fun _ => returns_ok _).map _

theorem returns_fillViews (events : List (Nat × ProjectionEvent)) (views : List ProjectedView)
    (position : Nat) (segments : List ProjectedSegment) (references : List ProjectedReference) :
    Returns (fillViews index events position segments references views) := by
  induction views generalizing position segments references with
  | nil => exact returns_ok _
  | cons view rest ih =>
    refine returns_ite ?_ ?_
    · refine (returns_foldlM (returns_fillEvent hacyclic view.id) _).bind fun fill => ?_
      exact (ih (position + 1) _ _).bind fun _ => returns_ok _
    · exact (ih (position + 1) _ _).bind fun _ => returns_ok _

/-- The build of an index without a cycle comes to an end. -/
theorem returns_buildProjection {records : List Record}
    (hindex : ReaderRecordIndex.new records = .ok index) : Returns (buildProjection records) := by
  unfold buildProjection
  rw [hindex]
  change Returns (viewSeeds index >>= _)
  refine (returns_viewSeeds hacyclic).bind fun seeds => ?_
  refine (returns_mapM fun entry _ =>
    (returns_parentView hacyclic seeds entry.1.key).bind fun _ => returns_ok _).bind fun views => ?_
  refine (returns_forM (returns_checkParentView views)).bind fun _ => ?_
  refine (returns_walkEvents hacyclic projectionErrors _ _
    (returns_referenceEvents hacyclic projectionErrors _)).bind fun events => ?_
  refine (returns_mapM fun event _ => returns_eventPosition seeds _ event).bind fun placed => ?_
  refine (returns_fillViews hacyclic placed _ 0 [] []).bind fun filled => ?_
  exact (returns_ite (returns_failed _) (returns_ok ())).bind fun _ => returns_ok _

end

end Projection

theorem returns_build (projection : ReaderProjection) {records : List Record}
    (hacyclic : ∀ index, ReaderRecordIndex.new records = .ok index → Acyclic (parentOf index)) :
    Returns (ReadingOrderIndex.build projection records) := by
  unfold ReadingOrderIndex.build
  cases hindex : ReaderRecordIndex.new records with
  | error error => exact returns_failed _
  | ok index =>
    change Returns ((ReadingOrderIndex.documentEvents index).mapError _ >>= _)
    refine ((returns_walkEvents (hacyclic index hindex) readingOrderErrors _ _
      fun _ _ => returns_ok []).mapError _).bind fun events => ?_
    exact returns_ite (returns_ok _) (returns_failed _)

/-! ## Exactly without a cycle -/

/-- Every walk over the parents ends, and so does each build. -/
structure AllEnd (records : List Record) : Prop where
  walks : ∀ index, ReaderRecordIndex.new records = .ok index →
    ∀ e ∈ index.elements, WalksEnd index e.id
  projection : Returns (Projection.buildProjection records)
  readingOrder : ∀ projection, Returns (ReadingOrderIndex.build projection records)

/-- Everything ends exactly where the index refuses the records or their parent links have no
cycle. -/
theorem allEnd_iff (records : List Record) : AllEnd records ↔
    ((∃ index, ReaderRecordIndex.new records = .ok index) → CycleFree (parentEdges records)) := by
  constructor
  · rintro h ⟨index, hindex⟩
    exact (cycleFree_iff hindex).mpr (acyclic_of_walksEnd (h.walks index hindex))
  · intro h
    have hacyclic : ∀ index, ReaderRecordIndex.new records = .ok index →
        Acyclic (parentOf index) := fun index hindex =>
      (cycleFree_iff hindex).mp (h ⟨index, hindex⟩)
    refine ⟨fun index hindex e _ => walksEnd_of_acyclic (hacyclic index hindex) e.id, ?_,
      fun projection => returns_build projection hacyclic⟩
    cases hindex : ReaderRecordIndex.new records with
    | error error =>
      unfold Projection.buildProjection
      rw [hindex]
      exact returns_failed _
    | ok index => exact Projection.returns_buildProjection (hacyclic index hindex) hindex

namespace Sample

/-! ### An element that is its own parent -/

def ownParent : List Record :=
  [.element {
    kind := "element"
    schema := ELEMENT_SCHEMA
    id := "e0"
    parent := some "e0"
    childIndex := some 0
    depth := 0
    clarkTag := "body"
    attrs := .empty
    namespaceDeclarations := .empty
    xmlSpaceDeclared := none
    xmlSpaceEffective := false
    textRef := none
    tailRef := none }]

/-- The index takes it, and no number of turns is enough for the walk up from it. -/
theorem ownParent_endless : (∃ index, ReaderRecordIndex.new ownParent = .ok index ∧
      ∀ turns, climb (anchorTurn index) turns "e0" = .error .endless) ∧
    Projection.buildProjection ownParent = .error .endless ∧ ¬ AllEnd ownParent := by
  have hwalk : (ReaderRecordIndex.new ownParent).map (residualAnchor · "e0") =
      .ok (.error .endless) := by decide
  have hbuild : Projection.buildProjection ownParent = .error .endless := by decide
  obtain ⟨index, hindex, hendless⟩ := map_eq_ok_iff.mp hwalk
  exact ⟨⟨index, hindex, upward_anchorTurn.endless hendless⟩, hbuild, fun h => h.projection hbuild⟩

end Sample

end LawNexus.Reader
