import LawNexus.Reader.Walk
import Mathlib.Data.Prod.Lex
import Mathlib.Data.String.Basic

/-!
# The reader projection

`build_projection` of `reader_projection`: the views, their segments and references.
-/

namespace LawNexus.Reader

open Forest SourcePackage Loops

abbrev ViewId := String
abbrev SegmentId := String
abbrev ReferenceId := String

structure ViewFlags where
  empty : Bool
deriving DecidableEq, Repr

inductive SegmentOrigin where
  | sourceFragment
  | derived (kind : ReaderDerivedKind)
deriving DecidableEq, Repr

structure ProjectedView where
  id : ViewId
  kind : ReaderViewKind
  elementRef : ElementRef
  parentView : Option ViewId
  children : List ViewId
  segmentRefs : List SegmentId
  referenceRefs : List ReferenceId
  flags : ViewFlags
deriving DecidableEq, Repr

structure ProjectedSegment where
  id : SegmentId
  view : ViewId
  ordinal : Nat
  segmentKind : ReaderSegmentKind
  fragmentRef : Option FragmentRef
  slot : Option TextSlot
  span : Option ReaderFragmentSpan
  outputStart : Nat
  outputEnd : Nat
  chars : Nat
  origin : SegmentOrigin
  semantic : ReaderSemantic
  contextual : Bool
  elementRef : ElementRef
  sourcePos : Nat
  text : Option (List Char)
deriving DecidableEq, Repr

structure ProjectedReference where
  id : ReferenceId
  view : ViewId
  ordinal : Nat
  referenceType : ReaderReferenceType
  elementRef : ElementRef
  sourcePos : Nat
  resolved : Bool
deriving DecidableEq, Repr

structure ReaderProjection where
  views : List ProjectedView
  segments : List ProjectedSegment
  references : List ProjectedReference
  contentHash : Option String
deriving DecidableEq, Repr

def ProjectedView.key (view : ProjectedView) : ReaderViewKey := ⟨view.kind, view.elementRef⟩

/-! ## Errors -/

inductive ProjectionErrorKind where
  | malformedSubstrate
  | missingView
  | duplicateView
  | unexpectedResidual
  | spanInvalid
  | partitionIncomplete
deriving DecidableEq, Repr

structure ProjectionError where
  kind : ProjectionErrorKind
  detail : String
deriving DecidableEq, Repr

def ProjectionError.ofContract (error : ContractError) : ProjectionError where
  kind := if error.kind = .partitionIncomplete then .partitionIncomplete else .malformedSubstrate
  detail := error.detail

def missingView {α : Type} (detail : String) : Except (Stop ProjectionError) α :=
  .error (.failed ⟨.missingView, detail⟩)

def projectionErrors : WalkErrors ProjectionError where
  noRole id := ⟨.malformedSubstrate, s!"element {id} has no role in the substrate index"⟩
  missing id := ⟨.missingView, s!"element {id} is missing from the substrate index"⟩
  noOwner id := ⟨.malformedSubstrate, s!"text owner {id} is missing"⟩
  contract := .ofContract

inductive ProjectionEvent where
  | fragment (fragmentId : FragmentRef) (slot : TextSlot) (owner : ElementRef)
    (view : ReaderViewKey)
  | control (element : ElementRef) (kind : ReaderDerivedKind) (view : ReaderViewKey)
  | reference (element : ElementRef) (referenceType : ReaderReferenceType) (view : ReaderViewKey)
deriving DecidableEq, Repr

def ProjectionEvent.viewKey : ProjectionEvent → ReaderViewKey
  | .fragment _ _ _ view => view
  | .control _ _ view => view
  | .reference _ _ view => view

namespace Projection

def documentEvents (index : ReaderRecordIndex) :
    Except (Stop ProjectionError) (List ProjectionEvent) :=
  walkEvents projectionErrors index .fragment .control
    (referenceEvents projectionErrors index .reference)

/-! ## Views -/

structure ViewSeed where
  kind : ReaderViewKind
  elementRef : ElementRef
  sourcePos : Nat
deriving DecidableEq, Repr

def ViewSeed.key (seed : ViewSeed) : ReaderViewKey := ⟨seed.kind, seed.elementRef⟩

/-- `seen` holds the keys of the seeds. -/
def addSeed (index : ReaderRecordIndex) (seeds : List ViewSeed) (key : ReaderViewKey) :
    Except (Stop ProjectionError) (List ViewSeed) :=
  match index.sourcePos key.elementRef with
  | none => missingView s!"view element {key.elementRef} is missing from the substrate index"
  | some sourcePos =>
    .ok (if seeds.any (·.key = key) then seeds
      else seeds ++ [⟨key.kind, key.elementRef, sourcePos⟩])

def addSeeds (index : ReaderRecordIndex) (seeds : List ViewSeed) (keys : List ReaderViewKey) :
    Except (Stop ProjectionError) (List ViewSeed) :=
  keys.foldlM (addSeed index) seeds

/-- The view that a structural element stands for. -/
def structuralKey (index : ReaderRecordIndex) (element : ElementRecord) :
    Except (Stop ProjectionError) (Option ReaderViewKey) := do
  let role ← (roleOf projectionErrors index element.id).mapError .failed
  .ok ((structuralViewKind role).map (⟨·, element.id⟩))

def anchorsResidual (role : ReaderRole) : Bool :=
  role = .control || role = .noteReference || role = .field || role = .unknown || role = .foreign

/-- The view that a control or a reference stands in. -/
def referenceKey (index : ReaderRecordIndex) (element : ElementRecord) :
    Except (Stop ProjectionError) (Option ReaderViewKey) := do
  let role ← (roleOf projectionErrors index element.id).mapError .failed
  if anchorsResidual role then
    let key ← projectionErrors.stop (viewKey index element.id)
    .ok (if key.kind = .residual then some key else none)
  else .ok none

/-- A loop that adds a seed for each element that has a view of its own. -/
def seedLoop (index : ReaderRecordIndex)
    (key : ElementRecord → Except (Stop ProjectionError) (Option ReaderViewKey))
    (seeds : List ViewSeed) : Except (Stop ProjectionError) (List ViewSeed) :=
  index.elements.foldlM (fun seeds element => do addSeeds index seeds (← key element).toList) seeds

def residualKeys (partition : List PrimaryOwnership) : List ReaderViewKey :=
  (partition.map (·.view)).filter (·.kind = .residual)

def seedOrder (seed : ViewSeed) : Nat ×ₗ Nat ×ₗ String :=
  toLex (seed.sourcePos, toLex (viewKindRank seed.kind, seed.elementRef))

def viewSeeds (index : ReaderRecordIndex) : Except (Stop ProjectionError) (List ViewSeed) := do
  let structural ← seedLoop index (structuralKey index) []
  let partition ← projectionErrors.stop (partitionPrimaryViews index)
  let residual ← addSeeds index structural (residualKeys partition)
  let seeds ← seedLoop index (referenceKey index) residual
  .ok (sortBy seedOrder seeds)

def viewId (position : Nat) : ViewId := "v" ++ toString position

def segmentId (number : Nat) : SegmentId := "s" ++ toString number

def referenceId (number : Nat) : ReferenceId := "r" ++ toString number

/-- `id_by_key`: no two seeds have the same key. -/
def idByKey (seeds : List ViewSeed) (key : ReaderViewKey) : Option ViewId :=
  (seeds.findIdx? (·.key = key)).map viewId

def parentView (index : ReaderRecordIndex) (seeds : List ViewSeed) (key : ReaderViewKey) :
    Except (Stop ProjectionError) (Option ViewId) := do
  let allowed := parentRoles key.kind
  match ← nearestContainer projectionErrors index key.elementRef allowed with
  | none => .ok none
  | some container =>
    let role ← (roleOf projectionErrors index container).mapError .failed
    match structuralViewKind role with
    | none => missingView s!"container {container} has no view kind"
    | some kind =>
      match idByKey seeds ⟨kind, container⟩ with
      | none =>
        let name := kind.asStr
        missingView s!"parent view {name} {container} is missing"
      | some id => .ok (some id)

def projectView (index : ReaderRecordIndex) (seeds : List ViewSeed) (entry : ViewSeed × Nat) :
    Except (Stop ProjectionError) ProjectedView := do
  let parent ← parentView index seeds entry.1.key
  .ok {
    id := viewId entry.2
    kind := entry.1.kind
    elementRef := entry.1.elementRef
    parentView := parent
    children := []
    segmentRefs := []
    referenceRefs := []
    flags := ⟨false⟩ }

/-- `pos_by_id`: no two views have the same id. -/
def positionOf (views : List ProjectedView) (id : ViewId) : Option Nat :=
  views.findIdx? (·.id = id)

def checkParentView (views : List ProjectedView) (view : ProjectedView) :
    Except (Stop ProjectionError) Unit :=
  match view.parentView with
  | none => .ok ()
  | some parent =>
    if (positionOf views parent).isSome then .ok ()
    else missingView s!"parent view {parent} is not in the projection"

/-- The children of the view at a position. Each view comes with its `source_pos`. -/
def childViews (views : List ProjectedView) (sourcePos : List Nat) (position : Nat) :
    List ViewId :=
  let kids := (views.zip sourcePos).filter fun child =>
    child.1.parentView.bind (positionOf views) = some position
  (sortBy (fun child => toLex (child.2, viewKindRank child.1.kind)) kids).map (·.1.id)

def withChildren (views : List ProjectedView) (sourcePos : List Nat) : List ProjectedView :=
  views.zipIdx.map fun entry => { entry.1 with children := childViews views sourcePos entry.2 }

/-- The position of the view that an event belongs to. -/
def eventPosition (seeds : List ViewSeed) (views : List ProjectedView) (event : ProjectionEvent) :
    Except (Stop ProjectionError) (Nat × ProjectionEvent) :=
  let key := event.viewKey
  match idByKey seeds key with
  | none =>
    let name := key.kind.asStr
    missingView s!"event view {name} {key.elementRef} is missing"
  | some id =>
    match positionOf views id with
    | none => missingView s!"event view {id} has no projection position"
    | some position => .ok (position, event)

/-! ## Segments and references -/

/-- The counters of the loop over one view, and what all views have given so far. -/
structure Fill where
  outputBytes : Nat
  segmentOrdinal : Nat
  referenceOrdinal : Nat
  segmentRefs : List SegmentId
  referenceRefs : List ReferenceId
  segments : List ProjectedSegment
  references : List ProjectedReference
deriving DecidableEq, Repr

def Fill.pushSegment (fill : Fill) (segment : ProjectedSegment) : Fill :=
  { fill with
    outputBytes := segment.outputEnd
    segmentOrdinal := fill.segmentOrdinal + 1
    segmentRefs := fill.segmentRefs ++ [segment.id]
    segments := fill.segments ++ [segment] }

def Fill.pushReference (fill : Fill) (reference : ProjectedReference) : Fill :=
  { fill with
    referenceOrdinal := fill.referenceOrdinal + 1
    referenceRefs := fill.referenceRefs ++ [reference.id]
    references := fill.references ++ [reference] }

section

variable (index : ReaderRecordIndex) (view : ViewId) (fill : Fill)

def wholeSpan (fragment : FragmentRef) (value : List Char) :
    Except (Stop ProjectionError) ReaderFragmentSpan :=
  let span := wholeFragmentSpan fragment value
  match checkFragmentSpan value span with
  | .error error => .error (.failed ⟨.spanInvalid, error.detail⟩)
  | .ok () => .ok span

def requirePos (what : String) (id : String) : Except (Stop ProjectionError) Nat :=
  match index.sourcePos id with
  | some sourcePos => .ok sourcePos
  | none => missingView s!"{what} {id} is missing"

def fragmentSegment (fragment : FragmentRef) (slot : TextSlot) (owner : ElementRef) :
    Except (Stop ProjectionError) ProjectedSegment :=
  match index.text fragment with
  | none => missingView s!"fragment {fragment} is missing from the substrate"
  | some text => do
    let span ← wholeSpan fragment text.value
    let semantic ← textSemantic projectionErrors index owner slot text.value
    let sourcePos ← requirePos index "text owner" owner
    .ok {
      id := segmentId fill.segments.length
      view
      ordinal := fill.segmentOrdinal
      segmentKind := .text
      fragmentRef := some fragment
      slot := some slot
      span := some span
      outputStart := fill.outputBytes
      outputEnd := fill.outputBytes + Utf8.byteLen text.value
      chars := text.value.length
      origin := .sourceFragment
      semantic
      contextual := semantic ≠ .body
      elementRef := owner
      sourcePos
      text := none }

def derivedSegment (element : ElementRef) (kind : ReaderDerivedKind) :
    Except (Stop ProjectionError) ProjectedSegment := do
  let sourcePos ← requirePos index "control" element
  .ok {
    id := segmentId fill.segments.length
    view
    ordinal := fill.segmentOrdinal
    segmentKind := .derived
    fragmentRef := none
    slot := none
    span := none
    outputStart := fill.outputBytes
    outputEnd := fill.outputBytes + Utf8.byteLen kind.literal
    chars := kind.literal.length
    origin := .derived kind
    semantic := .derivedSeparator
    contextual := true
    elementRef := element
    sourcePos
    text := some kind.literal }

def unresolvedReference (element : ElementRef) (referenceType : ReaderReferenceType) :
    Except (Stop ProjectionError) ProjectedReference := do
  let sourcePos ← requirePos index "reference" element
  .ok {
    id := referenceId fill.references.length
    view
    ordinal := fill.referenceOrdinal
    referenceType
    elementRef := element
    sourcePos
    resolved := false }

def fillEvent (event : ProjectionEvent) : Except (Stop ProjectionError) Fill :=
  match event with
  | .fragment fragment slot owner _ =>
    (fragmentSegment index view fill fragment slot owner).map fill.pushSegment
  | .control element kind _ => (derivedSegment index view fill element kind).map fill.pushSegment
  | .reference element referenceType _ =>
    (unresolvedReference index view fill element referenceType).map fill.pushReference

end

/-- The loop over the views, from a position on. -/
def fillViews (index : ReaderRecordIndex) (events : List (Nat × ProjectionEvent)) (position : Nat)
    (segments : List ProjectedSegment) (references : List ProjectedReference) :
    List ProjectedView → Except (Stop ProjectionError)
      (List ProjectedView × List ProjectedSegment × List ProjectedReference)
  | [] => .ok ([], segments, references)
  | view :: rest =>
    if view.kind.isPrimary then do
      let own := (events.filter (·.1 = position)).map (·.2)
      let fill ← own.foldlM (fillEvent index view.id) ⟨0, 0, 0, [], [], segments, references⟩
      let (rest, segments, references) ←
        fillViews index events (position + 1) fill.segments fill.references rest
      .ok ({ view with segmentRefs := fill.segmentRefs, referenceRefs := fill.referenceRefs } ::
        rest, segments, references)
    else do
      let (rest, segments, references) ←
        fillViews index events (position + 1) segments references rest
      .ok (view :: rest, segments, references)

def withFlags (view : ProjectedView) : ProjectedView :=
  { view with
    flags := ⟨if view.kind.isPrimary then view.segmentRefs.isEmpty else view.children.isEmpty⟩ }

/-! ## Coverage -/

def checkCoverage (index : ReaderRecordIndex) (segments : List ProjectedSegment) :
    Except (Stop ProjectionError) Unit :=
  let fragments := segments.filterMap (·.fragmentRef)
  let covered := fragments.dedup
  if ¬ fragments.Nodup ∨ covered.length ≠ index.texts.length ∨
      index.texts.any fun text => !covered.contains text.id then
    let texts := index.texts.length
    .error (.failed ⟨.partitionIncomplete, "coverage is not total and duplicate-free: " ++
      s!"{covered.length} covered of {texts} text record(s)"⟩)
  else .ok ()

def buildProjection (records : List Record) : Except (Stop ProjectionError) ReaderProjection := do
  let index ← projectionErrors.stop ((ReaderRecordIndex.new records).mapError .failed)
  let seeds ← viewSeeds index
  let views ← seeds.zipIdx.mapM (projectView index seeds)
  views.forM (checkParentView views)
  let linked := withChildren views (seeds.map (·.sourcePos))
  let events ← documentEvents index
  let placed ← events.mapM (eventPosition seeds linked)
  let (filled, segments, references) ← fillViews index placed 0 [] [] linked
  checkCoverage index segments
  .ok {
    views := filled.map withFlags
    segments, references
    contentHash := none }

end Projection

end LawNexus.Reader
