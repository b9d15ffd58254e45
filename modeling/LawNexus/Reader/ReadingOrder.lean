import LawNexus.Reader.Projection

/-!
# The reading order

`ReadingOrderIndex` of `reader_reading_order`: the order of the segments of each primary view, found
again from the records.
-/

namespace LawNexus.Reader

open Forest SourcePackage Loops

/-- A `Token`, and the `Content` that is made of it. -/
inductive Token where
  | source (fragment : FragmentRef)
  | derived (kind : ReaderDerivedKind)
deriving DecidableEq, Repr

/-! ## Errors -/

inductive ReadingOrderErrorKind where
  | orderMismatch
  | ordinalGap
  | outputGap
  | unknownSegment
  | notPrimaryView
deriving DecidableEq, Repr

def ReadingOrderErrorKind.asStr : ReadingOrderErrorKind → String
  | orderMismatch => "order_mismatch"
  | ordinalGap => "ordinal_gap"
  | outputGap => "output_gap"
  | unknownSegment => "unknown_segment"
  | notPrimaryView => "not_primary_view"

/-- The errors, with what their details are made of. -/
inductive ReadingOrderError where
  | substrate (detail : String)
  | unknownSegment (view : ViewId) (segment : SegmentId)
  | ordinalGap (view : ViewId) (ordinals : List Nat)
  | startsAt (view : ViewId) (segment : SegmentId) (start running : Nat)
  | noContent (view : ViewId) (segment : SegmentId)
  | endsAt (view : ViewId) (segment : SegmentId) (stop running : Nat)
  | noToken (view : ViewId) (segment : SegmentId)
  | diverges (view : ViewId) (expected actual : List Token)
  | missingView (key : ReaderViewKey)
  | notPrimaryView (view : ViewId)
  | missingFragment (fragment : FragmentRef)
deriving DecidableEq, Repr

def ReadingOrderError.kind : ReadingOrderError → ReadingOrderErrorKind
  | substrate _ | noContent .. | noToken .. | diverges .. | missingView _ | missingFragment _ =>
    .orderMismatch
  | unknownSegment .. => .unknownSegment
  | ordinalGap .. => .ordinalGap
  | startsAt .. | endsAt .. => .outputGap
  | notPrimaryView _ => .notPrimaryView

def readingOrderErrors : WalkErrors ReadingOrderError where
  noRole id := .substrate s!"element {id} is missing from the substrate index"
  missing id := .substrate s!"element {id} is missing from the substrate index"
  noOwner id := .substrate s!"text owner {id} is missing"
  contract error := .substrate error.detail

/-! ## The events -/

inductive WalkEvent where
  | source (fragmentId : FragmentRef) (view : ReaderViewKey)
  | derived (kind : ReaderDerivedKind) (view : ReaderViewKey)
deriving DecidableEq, Repr

namespace WalkEvent

def viewKey : WalkEvent → ReaderViewKey
  | source _ view => view
  | derived _ view => view

def token : WalkEvent → Token
  | source fragmentId _ => .source fragmentId
  | derived kind _ => .derived kind

end WalkEvent

/-- The last of the views or segments with an id is the one in a map by ids. -/
def lastOf {α : Type} (idOf : α → String) (items : List α) (id : String) : Option α :=
  items.reverse.find? (idOf · = id)

def ReaderProjection.segmentById (projection : ReaderProjection) (id : SegmentId) :
    Option ProjectedSegment :=
  lastOf (·.id) projection.segments id

def tokenOfSegment (segment : ProjectedSegment) : Option Token :=
  match segment.origin with
  | .sourceFragment => segment.fragmentRef.map .source
  | .derived kind => some (.derived kind)

def contentLen (index : ReaderRecordIndex) (segment : ProjectedSegment) : Option Nat :=
  match segment.origin with
  | .sourceFragment => do
    let fragment ← segment.fragmentRef
    let text ← index.text fragment
    some (Utf8.byteLen text.value)
  | .derived kind => some (Utf8.byteLen kind.literal)

structure OrderedView where
  view : ViewId
  segments : List SegmentId
  contents : List Token
deriving DecidableEq, Repr

structure ReadingOrderIndex where
  index : ReaderRecordIndex
  views : List OrderedView

namespace ReadingOrderIndex

def documentEvents (index : ReaderRecordIndex) :
    Except (Stop ReadingOrderError) (List WalkEvent) :=
  walkEvents readingOrderErrors index (fun fragment _ _ view => .source fragment view)
    (fun _ kind view => .derived kind view) fun _ _ => .ok []

/-! ## One view -/

def resolveSegments (projection : ReaderProjection) (view : ProjectedView) :
    Except (List ReadingOrderError) (List ProjectedSegment) :=
  let missing := view.segmentRefs.filter fun id => (projection.segmentById id).isNone
  if missing = [] then .ok (view.segmentRefs.filterMap projection.segmentById)
  else .error (missing.map (.unknownSegment view.id))

def checkOrdinals (view : ViewId) (resolved : List ProjectedSegment) :
    Except (List ReadingOrderError) Unit :=
  let ordinals := sortBy id (resolved.map (·.ordinal))
  if ordinals = List.range resolved.length then .ok () else .error [.ordinalGap view ordinals]

/-- The loop over the segments by their ordinals. -/
def checkOutput (index : ReaderRecordIndex) (view : ViewId) :
    Nat → List ProjectedSegment → Except (List ReadingOrderError) Unit
  | _, [] => .ok ()
  | running, segment :: rest =>
    if segment.outputStart ≠ running then
      .error [.startsAt view segment.id segment.outputStart running]
    else
      match contentLen index segment with
      | none => .error [.noContent view segment.id]
      | some len =>
        if segment.outputEnd ≠ running + len then
          .error [.endsAt view segment.id segment.outputEnd (running + len)]
        else checkOutput index view segment.outputEnd rest

def segmentToken (view : ViewId) (segment : ProjectedSegment) :
    Except (List ReadingOrderError) Token :=
  match tokenOfSegment segment with
  | some token => .ok token
  | none => .error [.noToken view segment.id]

def derivedTokens (events : List WalkEvent) (key : ReaderViewKey) : List Token :=
  (events.filter (·.viewKey = key)).map (·.token)

def orderView (projection : ReaderProjection) (index : ReaderRecordIndex)
    (events : List WalkEvent) (view : ProjectedView) :
    Except (List ReadingOrderError) OrderedView := do
  let resolved ← resolveSegments projection view
  checkOrdinals view.id resolved
  checkOutput index view.id 0 (sortBy (·.ordinal) resolved)
  let actual ← resolved.mapM (segmentToken view.id)
  let expected := derivedTokens events view.key
  if expected ≠ actual then .error [.diverges view.id expected actual]
  else .ok ⟨view.id, resolved.map (·.id), actual⟩

/-! ## The index -/

def errorsOf {α : Type} : Except (List ReadingOrderError) α → List ReadingOrderError
  | .ok _ => []
  | .error errors => errors

def missingViews (projection : ReaderProjection) (events : List WalkEvent) :
    List ReadingOrderError :=
  let missing := (distinct (events.map (·.viewKey))).filter fun key =>
    !projection.views.any (·.key = key)
  missing.map .missingView

def build (projection : ReaderProjection) (records : List Record) :
    Except (Stop (List ReadingOrderError)) ReadingOrderIndex := do
  let index ← (ReaderRecordIndex.new records).mapError fun error =>
    .failed [.substrate s!"substrate index is not readable: {error.detail}"]
  let events ← (documentEvents index).mapError (Stop.map ([·]))
  let primary := projection.views.filter (·.kind.isPrimary)
  let ordered := primary.map (orderView projection index events)
  let errors := ordered.flatMap errorsOf ++ missingViews projection events
  if errors = [] then .ok ⟨index, ordered.filterMap Except.toOption⟩ else .error (.failed errors)

variable (order : ReadingOrderIndex)

def lookup (view : ViewId) : Except ReadingOrderError OrderedView :=
  match lastOf (·.view) order.views view with
  | some ordered => .ok ordered
  | none => .error (.notPrimaryView view)

def readingOrder (view : ViewId) : Except ReadingOrderError (List SegmentId) :=
  (order.lookup view).map (·.segments)

def content (index : ReaderRecordIndex) : Token → Except ReadingOrderError (List Char)
  | .source fragment =>
    match index.text fragment with
    | some text => .ok text.value
    | none => .error (.missingFragment fragment)
  | .derived kind => .ok kind.literal

def viewOutput (view : ViewId) : Except ReadingOrderError (List Char) := do
  let ordered ← order.lookup view
  (ordered.contents.mapM (content order.index)).map List.flatten

end ReadingOrderIndex

end LawNexus.Reader
