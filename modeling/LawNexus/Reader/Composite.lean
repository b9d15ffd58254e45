import LawNexus.Reader.ReadingOrder

/-!
# Composite coordinates

`resolve_composite` of `reader_composite`: a range of the output of a view, as units.
-/

namespace LawNexus.Reader

open SourcePackage Loops

structure CompositeAddress where
  view : ViewId
  outputStart : Nat
  outputEnd : Nat
deriving DecidableEq, Repr

inductive CompositeUnit where
  | source (segment : SegmentId) (fragmentRef : FragmentRef) (slot : TextSlot)
    (span : ReaderFragmentSpan) (elementRef : ElementRef) (sourcePos : Nat)
  | derived (segment : SegmentId) (kind : ReaderDerivedKind) (elementRef : ElementRef)
    (sourcePos : Nat)
deriving DecidableEq, Repr

structure CompositeRange where
  view : ViewId
  outputStart : Nat
  outputEnd : Nat
  units : List CompositeUnit
deriving DecidableEq, Repr

def CompositeRange.toAddress (range : CompositeRange) : CompositeAddress :=
  ⟨range.view, range.outputStart, range.outputEnd⟩

/-! ## Errors -/

inductive CompositeErrorKind where
  | unknownView
  | notPrimaryView
  | emptyOrInverted
  | outOfBounds
  | notCharBoundary
  | spanInvalid
deriving DecidableEq, Repr

/-- The errors, with what their details are made of. -/
inductive CompositeError where
  | unknownView (view : ViewId)
  | navigation (view : ViewId) (kind : ReaderViewKind)
  | emptyOrInverted (address : CompositeAddress)
  | order (error : ReadingOrderError)
  | lastUnknown (view : ViewId) (segment : SegmentId)
  | outOfBounds (address : CompositeAddress) (length : Nat)
  | substrate (error : ContractError)
  | unknownSegment (segment : SegmentId)
  | noFragment (segment : SegmentId)
  | noSlot (segment : SegmentId)
  | missingFragment (fragment : FragmentRef)
  | span (error : ContractError)
  | noUnit (address : CompositeAddress)
deriving DecidableEq, Repr

def CompositeError.kind : CompositeError → CompositeErrorKind
  | unknownView _ => .unknownView
  | navigation .. => .notPrimaryView
  | emptyOrInverted _ | noUnit _ => .emptyOrInverted
  | order error => if error.kind = .notPrimaryView then .notPrimaryView else .spanInvalid
  | outOfBounds .. => .outOfBounds
  | lastUnknown .. | substrate _ | unknownSegment _ | noFragment _ | noSlot _ |
    missingFragment _ => .spanInvalid
  | span error =>
    match error.kind with
    | .emptyOrInverted => .emptyOrInverted
    | .outOfBounds => .outOfBounds
    | .notCharBoundary => .notCharBoundary
    | _ => .spanInvalid

/-! ## Units -/

/-- What a program says of a segment without a unit. -/
structure UnitErrors (ε : Type) where
  noFragment : SegmentId → ε
  noSlot : SegmentId → ε
  missingFragment : FragmentRef → ε
  span : ContractError → ε

def compositeErrors : UnitErrors CompositeError where
  noFragment := .noFragment
  noSlot := .noSlot
  missingFragment := .missingFragment
  span := .span

section

variable {ε : Type} (errors : UnitErrors ε) (index : ReaderRecordIndex) (start stop : Nat)

/-- The unit of a segment that meets the range. The tokenizer builds its units by the same code. -/
def compositeUnit (segment : ProjectedSegment) : Except ε (Option CompositeUnit) :=
  let lo := max start segment.outputStart
  let hi := min stop segment.outputEnd
  if lo ≥ hi then .ok none
  else
    match segment.origin with
    | .sourceFragment => do
      let fragment ← orError segment.fragmentRef (errors.noFragment segment.id)
      let slot ← orError segment.slot (errors.noSlot segment.id)
      let text ← orError (index.text fragment) (errors.missingFragment fragment)
      let span : ReaderFragmentSpan :=
        ⟨fragment, lo - segment.outputStart, hi - segment.outputStart⟩
      (checkFragmentSpan text.value span).mapError errors.span
      .ok (some (.source segment.id fragment slot span segment.elementRef segment.sourcePos))
    | .derived kind =>
      .ok (some (.derived segment.id kind segment.elementRef segment.sourcePos))

def compositeUnits (segments : List ProjectedSegment) : Except ε (List CompositeUnit) :=
  (segments.mapM (compositeUnit errors index start stop)).map List.reduceOption

end

/-! ## Resolution -/

def ReaderProjection.view (projection : ReaderProjection) (id : ViewId) : Option ProjectedView :=
  projection.views.find? (·.id = id)

/-- The end of the last segment. -/
def viewLen (projection : ReaderProjection) (view : ViewId) (segmentIds : List SegmentId) :
    Except CompositeError Nat :=
  match segmentIds.getLast? with
  | none => .ok 0
  | some last =>
    match projection.segmentById last with
    | some segment => .ok segment.outputEnd
    | none => .error (.lastUnknown view last)

def resolveComposite (projection : ReaderProjection) (order : ReadingOrderIndex)
    (records : List Record) (address : CompositeAddress) : Except CompositeError CompositeRange := do
  let view ← orError (projection.view address.view) (.unknownView address.view)
  if !view.kind.isPrimary then .error (.navigation address.view view.kind)
  else if address.outputStart ≥ address.outputEnd then .error (.emptyOrInverted address)
  else
    let segmentIds ← (order.readingOrder address.view).mapError .order
    let length ← viewLen projection address.view segmentIds
    if address.outputEnd > length then .error (.outOfBounds address length)
    else
      let index ← (ReaderRecordIndex.new records).mapError .substrate
      let units ← segmentIds.mapM fun id => do
        let segment ← orError (projection.segmentById id) (.unknownSegment id)
        compositeUnit compositeErrors index address.outputStart address.outputEnd segment
      let units := units.reduceOption
      if units = [] then .error (.noUnit address)
      else .ok ⟨address.view, address.outputStart, address.outputEnd, units⟩

end LawNexus.Reader
