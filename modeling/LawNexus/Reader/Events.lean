import LawNexus.Reader.Projection
import LawNexus.Reader.Views

/-!
# The document order

The events of the walk over an index: every program finds the same ones, and none of them fails.
-/

namespace LawNexus.Reader

open Forest SourcePackage Loops ReaderRecordIndex

variable {index : ReaderRecordIndex} {ε ω : Type}

/-! ## The events of the walk -/

/-- The view of a slot, where the parents of its element come to an end. -/
def viewOf (index : ReaderRecordIndex) (id : String) (slot : TextSlot) : ReaderViewKey :=
  match slotView index id slot with
  | .ok key => key
  | .error _ => ⟨.residual, id⟩

def textOrder (index : ReaderRecordIndex) (e : ElementRecord) (slot : TextSlot)
    (reference : Option FragmentRef) : List ProjectionEvent :=
  reference.toList.map fun id => .fragment id slot e.id (viewOf index e.id slot)

def controlOrder (index : ReaderRecordIndex) (e : ElementRecord) : List ProjectionEvent :=
  if roleOfTag e.clarkTag = .control ∧ e.textRef = none then
    (controlDerivedKind e.clarkTag e.attrs).toList.map fun kind =>
      .control e.id kind (viewOf index e.id .text)
  else []

/-- An element that is referred to: the outermost of a subtree in one foreign namespace, a note
reference or a field. -/
def boundary (index : ReaderRecordIndex) (e : ElementRecord) : Bool :=
  let role := roleOfTag e.clarkTag
  if role = .unknown ∨ role = .foreign then
    match e.parent.bind index.element with
    | none => true
    | some p =>
      let above := roleOfTag p.clarkTag
      !(above = .unknown || above = .foreign) || clarkNamespace p.clarkTag ≠ clarkNamespace e.clarkTag
  else role = .noteReference || role = .field

def referenceOrder (index : ReaderRecordIndex) (e : ElementRecord) : List ProjectionEvent :=
  if boundary index e then
    (referenceTypeOf e.clarkTag).toList.map fun type =>
      .reference e.id type (viewOf index e.id .text)
  else []

def stepOrder (index : ReaderRecordIndex) : Step ElementRecord → List ProjectionEvent
  | .node e => textOrder index e .text e.textRef ++ controlOrder index e ++ referenceOrder index e
  | .tail e => textOrder index e .tail e.tailRef

def documentOrder (index : ReaderRecordIndex) : List ProjectionEvent :=
  index.walk.flatMap (stepOrder index)

/-! ## The programs -/

variable {e : ElementRecord}

theorem slotView_eq_viewOf (he : e ∈ index.elements) (hroot : Rooted index e) (slot : TextSlot) :
    slotView index e.id slot = .ok (viewOf index e.id slot) := by
  obtain ⟨key, hkey⟩ := exists_slotView he hroot slot
  rw [viewOf, hkey]

theorem viewKey_eq_viewOf (he : e ∈ index.elements) (hroot : Rooted index e) :
    viewKey index e.id = .ok (viewOf index e.id .text) := slotView_eq_viewOf he hroot .text

/-- What a program makes of an event. -/
structure Makes (ω : Type) where
  fragment : FragmentRef → TextSlot → ElementRef → ReaderViewKey → ω
  control : ElementRef → ReaderDerivedKind → ReaderViewKey → ω
  reference : ElementRef → ReaderReferenceType → ReaderViewKey → Option ω

def Makes.event (makes : Makes ω) : ProjectionEvent → Option ω
  | .fragment id slot owner view => some (makes.fragment id slot owner view)
  | .control element kind view => some (makes.control element kind view)
  | .reference element type view => makes.reference element type view

variable (errors : WalkErrors ε) (makes : Makes ω)

theorem textEvents_eq (he : e ∈ index.elements) (hroot : Rooted index e) (slot : TextSlot)
    (reference : Option FragmentRef) :
    textEvents errors index makes.fragment e slot reference =
      .ok ((textOrder index e slot reference).filterMap makes.event) := by
  cases reference with
  | none => rfl
  | some id =>
    rw [textEvents, slotView_eq_viewOf he hroot]
    rfl

theorem controlEvents_eq (he : e ∈ index.elements) (hroot : Rooted index e) :
    controlEvents errors index makes.control e (roleOfTag e.clarkTag) =
      .ok ((controlOrder index e).filterMap makes.event) := by
  unfold controlEvents controlOrder
  split_ifs
  · rw [viewKey_eq_viewOf he hroot]
    cases controlDerivedKind e.clarkTag e.attrs <;> rfl
  · rfl

theorem isBoundary_eq (he : e ∈ index.elements) :
    isBoundary errors index e (roleOfTag e.clarkTag) = .ok (boundary index e) := by
  unfold isBoundary boundary
  dsimp only
  split_ifs
  · unfold unknownOrForeignBoundary
    rw [element_of_mem he]
    dsimp only
    cases hparent : e.parent with
    | none => rfl
    | some parent =>
      obtain ⟨p, hp, rfl⟩ := exists_parent he hparent
      dsimp only
      rw [Option.bind_some, element_of_mem hp]
      dsimp only
      rw [roleOf_of_mem hp, ok_bind]
  · rfl

theorem referenceEvents_eq (he : e ∈ index.elements) (hroot : Rooted index e)
    {reference : ElementRef → ReaderReferenceType → ReaderViewKey → ω}
    (href : ∀ element type view, makes.reference element type view =
      some (reference element type view)) :
    referenceEvents errors index reference e (roleOfTag e.clarkTag) =
      .ok ((referenceOrder index e).filterMap makes.event) := by
  unfold referenceEvents referenceOrder
  rw [isBoundary_eq errors he]
  change (if boundary index e = true then _ else _) = _
  split_ifs
  · rw [viewKey_eq_viewOf he hroot]
    cases referenceTypeOf e.clarkTag with
    | none => rfl
    | some type =>
      rw [Option.toList_some, List.map_singleton, List.filterMap_cons, Makes.event, href]
      rfl
  · rfl

/-- A program that walks over the elements finds the events in document order. -/
theorem walkEvents_eq {references : ElementRecord → ReaderRole → Except (Stop ε) (List ω)}
    (hrefs : ∀ e ∈ index.elements, Rooted index e →
      references e (roleOfTag e.clarkTag) = .ok ((referenceOrder index e).filterMap makes.event)) :
    walkEvents errors index makes.fragment makes.control references =
      .ok ((documentOrder index).filterMap makes.event) := by
  have hstep : ∀ step ∈ index.walk,
      stepEvents errors index makes.fragment makes.control references step =
        .ok ((stepOrder index step).filterMap makes.event) := by
    intro step hstep
    obtain ⟨he, hroot⟩ := mem_walk hstep
    cases step with
    | node e =>
      replace he : e ∈ index.elements := he
      replace hroot : Rooted index e := hroot
      rw [stepEvents, roleOf_of_mem he, Except.mapError, ok_bind, textEvents_eq errors makes he hroot,
        ok_bind, controlEvents_eq errors makes he hroot, ok_bind, hrefs e he hroot, ok_bind, stepOrder,
        List.filterMap_append, List.filterMap_append]
    | tail e => exact textEvents_eq errors makes he hroot .tail e.tailRef
  have hsteps : index.walk.mapM (stepEvents errors index makes.fragment makes.control references) =
      .ok (index.walk.map fun step => (stepOrder index step).filterMap makes.event) := by
    rw [mapM_eq_ok_iff, List.forall₂_map_right_iff, List.forall₂_same]
    exact hstep
  rw [walkEvents, hsteps, Except.map, documentOrder, List.filterMap_flatMap, List.flatMap_def]

theorem Projection.documentEvents_eq (index : ReaderRecordIndex) :
    Projection.documentEvents index = .ok (documentOrder index) := by
  let makes : Makes ProjectionEvent := ⟨.fragment, .control, fun e t v => some (.reference e t v)⟩
  have hmakes : makes.event = some := by
    funext event
    cases event <;> rfl
  have h := @walkEvents_eq index _ _ projectionErrors makes _
    fun e he hroot => referenceEvents_eq projectionErrors makes he hroot fun _ _ _ => rfl
  rwa [hmakes, List.filterMap_some] at h

/-- Every event of a step stands in the view of a slot of its element. -/
theorem viewKey_of_mem_stepOrder {step : Step ElementRecord} {event : ProjectionEvent}
    (h : event ∈ stepOrder index step) : ∃ slot, event.viewKey = viewOf index step.at.id slot := by
  cases step with
  | node e =>
    rw [stepOrder, List.mem_append, List.mem_append] at h
    rcases h with (h | h) | h
    · obtain ⟨id, -, rfl⟩ := List.mem_map.mp h
      exact ⟨.text, rfl⟩
    · unfold controlOrder at h
      split_ifs at h
      · obtain ⟨kind, -, rfl⟩ := List.mem_map.mp h
        exact ⟨.text, rfl⟩
      · cases h
    · unfold referenceOrder at h
      split_ifs at h
      · obtain ⟨type, -, rfl⟩ := List.mem_map.mp h
        exact ⟨.text, rfl⟩
      · cases h
  | tail e =>
    obtain ⟨id, -, rfl⟩ := List.mem_map.mp h
    exact ⟨.tail, rfl⟩

/-! ## Links -/

/-- A link of an element to a text: the text, the element and the slot. -/
abbrev Link := FragmentRef × ElementRef × TextSlot

def linksOf : Step ElementRecord → List Link
  | .node e => e.textRef.toList.map fun id => (id, e.id, .text)
  | .tail e => e.tailRef.toList.map fun id => (id, e.id, .tail)

/-- The links that the walk comes to. -/
def links (index : ReaderRecordIndex) : List Link := index.walk.flatMap linksOf

def ProjectionEvent.link? : ProjectionEvent → Option Link
  | .fragment id slot owner _ => some (id, owner, slot)
  | _ => none

theorem filterMap_textOrder (slot : TextSlot) (reference : Option FragmentRef) :
    (textOrder index e slot reference).filterMap ProjectionEvent.link? =
      reference.toList.map fun id => (id, e.id, slot) := by
  cases reference <;> rfl

theorem filterMap_link_documentOrder (index : ReaderRecordIndex) :
    (documentOrder index).filterMap ProjectionEvent.link? = links index := by
  rw [documentOrder, links, List.filterMap_flatMap]
  congr 1
  funext step
  cases step with
  | node e =>
    have hcontrol : (controlOrder index e).filterMap ProjectionEvent.link? = [] := by
      unfold controlOrder
      split_ifs
      · cases controlDerivedKind e.clarkTag e.attrs <;> rfl
      · rfl
    have hreference : (referenceOrder index e).filterMap ProjectionEvent.link? = [] := by
      unfold referenceOrder
      split_ifs
      · cases referenceTypeOf e.clarkTag <;> rfl
      · rfl
    rw [stepOrder, List.filterMap_append, List.filterMap_append, filterMap_textOrder, hcontrol,
      hreference, List.append_nil, List.append_nil]
    rfl
  | tail e => exact filterMap_textOrder .tail e.tailRef

end LawNexus.Reader
