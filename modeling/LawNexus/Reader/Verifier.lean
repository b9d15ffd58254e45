import LawNexus.Reader.ReadingOrder

/-!
# The verifier of a projection

`verify_projection` of `reader_verifier`: the views that the records call for, and what a projection
says that they do not.
-/

namespace LawNexus.Reader

open Forest SourcePackage Loops

inductive VerifyCode where
  | viewUnexpected
  | viewMissing
  | viewParentMismatch
  | viewChildrenMismatch
  | viewEmptyFlagMismatch
  | segmentRefDangling
  | segmentMembershipOrOrderMismatch
  | segmentSourceMismatch
  | segmentOwnerMismatch
  | derivedNotControl
  | derivedRenderMismatch
  | derivedInventedSourceSpan
  | referenceMembershipMismatch
  | referenceResolved
  | duplicateFragmentReference
  | danglingFragmentReference
  | missingFragmentReference
  | fragmentInWrongView
  | substrateMalformed
deriving DecidableEq, Repr

def VerifyCode.asStr : VerifyCode → String
  | viewUnexpected => "view_unexpected"
  | viewMissing => "view_missing"
  | viewParentMismatch => "view_parent_mismatch"
  | viewChildrenMismatch => "view_children_mismatch"
  | viewEmptyFlagMismatch => "view_empty_flag_mismatch"
  | segmentRefDangling => "segment_ref_dangling"
  | segmentMembershipOrOrderMismatch => "segment_membership_or_order_mismatch"
  | segmentSourceMismatch => "segment_source_mismatch"
  | segmentOwnerMismatch => "segment_owner_mismatch"
  | derivedNotControl => "derived_not_control"
  | derivedRenderMismatch => "derived_render_mismatch"
  | derivedInventedSourceSpan => "derived_invented_source_span"
  | referenceMembershipMismatch => "reference_membership_mismatch"
  | referenceResolved => "reference_resolved"
  | duplicateFragmentReference => "duplicate_fragment_reference"
  | danglingFragmentReference => "dangling_fragment_reference"
  | missingFragmentReference => "missing_fragment_reference"
  | fragmentInWrongView => "fragment_in_wrong_view"
  | substrateMalformed => "substrate_malformed"

structure VerifyFinding where
  code : VerifyCode
  detail : String
deriving DecidableEq, Repr

/-- The errors of the verifier are texts. -/
def verifierErrors : WalkErrors String where
  noRole id := s!"element {id} has no role in the substrate index"
  missing id := s!"element {id} is missing from the substrate index"
  noOwner id := s!"text owner {id} is missing from the substrate index"
  contract := ContractError.detail

/-- How a view is named in a detail. -/
def ReaderViewKey.label (key : ReaderViewKey) : String :=
  let name := key.kind.asStr
  s!"{name} {key.elementRef}"

namespace Verifier

open Projection (ViewSeed seedOrder residualKeys anchorsResidual)

/-! ## What is expected -/

structure ExpectedView where
  parent : Option ReaderViewKey
  children : List ReaderViewKey
  segments : List Token
  references : List ReaderReferenceType
deriving DecidableEq, Repr

/-- The map of the views has the keys of the seeds, in their order. -/
structure Expected where
  views : List (ReaderViewKey × ExpectedView)
  fragmentView : List PrimaryOwnership

inductive Event where
  | fragment (fragmentId : FragmentRef) (view : ReaderViewKey)
  | control (kind : ReaderDerivedKind) (view : ReaderViewKey)
  | reference (referenceType : ReaderReferenceType) (view : ReaderViewKey)
deriving DecidableEq, Repr

namespace Event

def viewKey : Event → ReaderViewKey
  | fragment _ view => view
  | control _ view => view
  | reference _ view => view

/-- The segment that is expected for an event. -/
def token : Event → Option Token
  | fragment fragmentId _ => some (.source fragmentId)
  | control kind _ => some (.derived kind)
  | reference _ _ => none

def referenceType : Event → Option ReaderReferenceType
  | reference referenceType _ => some referenceType
  | _ => none

end Event

def documentEvents (index : ReaderRecordIndex) : Except (Stop String) (List Event) :=
  walkEvents verifierErrors index (fun fragment _ _ view => .fragment fragment view)
    (fun _ kind view => .control kind view)
    (referenceEvents verifierErrors index fun _ referenceType view => .reference referenceType view)

def addSeed (index : ReaderRecordIndex) (seeds : List ViewSeed) (key : ReaderViewKey) :
    Except (Stop String) (List ViewSeed) :=
  match index.sourcePos key.elementRef with
  | none =>
    .error (.failed s!"view element {key.elementRef} is missing from the substrate index")
  | some sourcePos =>
    .ok (if seeds.any (·.key = key) then seeds
      else seeds ++ [⟨key.kind, key.elementRef, sourcePos⟩])

def seedStructural (index : ReaderRecordIndex) (seeds : List ViewSeed) (element : ElementRecord) :
    Except (Stop String) (List ViewSeed) := do
  let role ← (roleOf verifierErrors index element.id).mapError .failed
  match structuralViewKind role with
  | some kind => addSeed index seeds ⟨kind, element.id⟩
  | none => .ok seeds

def seedReferring (index : ReaderRecordIndex) (seeds : List ViewSeed) (element : ElementRecord) :
    Except (Stop String) (List ViewSeed) := do
  let role ← (roleOf verifierErrors index element.id).mapError .failed
  if anchorsResidual role then
    let key ← verifierErrors.stop (viewKey index element.id)
    if key.kind = .residual then addSeed index seeds key else .ok seeds
  else .ok seeds

/-- The seeds, with the partition that the residual ones come from. -/
def viewSeeds (index : ReaderRecordIndex) :
    Except (Stop String) (List ViewSeed × List PrimaryOwnership) := do
  let structural ← index.elements.foldlM (seedStructural index) []
  let partition ← verifierErrors.stop (partitionPrimaryViews index)
  let residual ← (residualKeys partition).foldlM (addSeed index) structural
  let seeds ← index.elements.foldlM (seedReferring index) residual
  .ok (sortBy seedOrder seeds, partition)

def parentKey (index : ReaderRecordIndex) (seeds : List ViewSeed) (key : ReaderViewKey) :
    Except (Stop String) (Option ReaderViewKey) := do
  match ← nearestContainer verifierErrors index key.elementRef (parentRoles key.kind) with
  | none => .ok none
  | some container =>
    let role ← (roleOf verifierErrors index container).mapError .failed
    match structuralViewKind role with
    | none => .error (.failed s!"container {container} has no view kind")
    | some kind =>
      let parent : ReaderViewKey := ⟨kind, container⟩
      let label := parent.label
      if seeds.any (·.key = parent) then .ok (some parent)
      else .error (.failed s!"parent view {label} is missing")

/-- Each seed comes with its parent. -/
def childKeys (linked : List (ViewSeed × Option ReaderViewKey)) (parent : ReaderViewKey) :
    List ReaderViewKey :=
  (sortBy (fun child => seedOrder child.1) (linked.filter (·.2 = some parent))).map (·.1.key)

def requireView (seeds : List ViewSeed) (event : Event) : Except (Stop String) Unit :=
  let label := event.viewKey.label
  if seeds.any (·.key = event.viewKey) then .ok ()
  else .error (.failed s!"event view {label} is missing")

def expectView (linked : List (ViewSeed × Option ReaderViewKey)) (events : List Event)
    (entry : ViewSeed × Option ReaderViewKey) : ReaderViewKey × ExpectedView :=
  let own := events.filter (·.viewKey = entry.1.key)
  (entry.1.key, {
    parent := entry.2
    children := childKeys linked entry.1.key
    segments := own.filterMap Event.token
    references := own.filterMap Event.referenceType })

def buildExpected (index : ReaderRecordIndex) : Except (Stop String) Expected := do
  let (seeds, partition) ← viewSeeds index
  let parents ← seeds.mapM fun seed => parentKey index seeds seed.key
  let linked := seeds.zip parents
  let events ← documentEvents index
  events.forM (requireView seeds)
  .ok ⟨linked.map (expectView linked events), partition⟩

/-! ## Findings -/

/-- A finding where something that has to hold does not. -/
def report (holds : Prop) [Decidable holds] (code : VerifyCode) (detail : String) :
    List VerifyFinding :=
  if holds then [] else [⟨code, detail⟩]

def tokenText : Token → String
  | .source fragment => fragment
  | .derived kind => "derived:" ++ kind.asStr

def actualSegmentToken (segment : ProjectedSegment) : String :=
  match segment.origin with
  | .sourceFragment => segment.fragmentRef.getD "source:<missing-fragment>"
  | .derived kind => "derived:" ++ kind.asStr

/-! ### Segments -/

section

variable (index : ReaderRecordIndex) (segment : ProjectedSegment)

def verifySpan (fragment : FragmentRef) (value : List Char) : Bool :=
  segment.span.any fun span => span.fragment = fragment && span.start = 0 &&
    span.stop = Utf8.byteLen value && (checkFragmentSpan value span).toBool

def verifySemantic (text : TextRecord) : Except (Stop (List VerifyFinding)) (List VerifyFinding) :=
  match textSemantic verifierErrors index text.owner text.slot text.value with
  | .ok semantic =>
    .ok (report (segment.semantic = semantic ∧ segment.contextual = decide (semantic ≠ .body))
      .segmentSourceMismatch
      s!"{segment.id}: semantic/contextual disagrees with the substrate owner")
  | .error (.failed detail) => .ok [⟨.substrateMalformed, detail⟩]
  | .error .endless => .error .endless

/-- The checks of a source segment against the text that it names. -/
def verifyText (fragment : FragmentRef) (text : TextRecord) :
    Except (Stop (List VerifyFinding)) (List VerifyFinding) := do
  let semantic ← verifySemantic index segment text
  .ok (report (verifySpan segment fragment text.value) .segmentSourceMismatch
      s!"{segment.id}: source span is absent or not the validated whole fragment {fragment}" ++
    report (segment.slot = some text.slot) .segmentSourceMismatch
      s!"{segment.id}: source slot is not the substrate slot" ++
    report (segment.text = none) .segmentSourceMismatch
      s!"{segment.id}: source segment must not carry a rendered literal" ++
    semantic ++
    report (segment.elementRef = text.owner) .segmentOwnerMismatch
      s!"{segment.id}: owner {segment.elementRef} is not the fragment owner {text.owner}" ++
    report (index.sourcePos text.owner = some segment.sourcePos) .segmentOwnerMismatch
      s!"{segment.id}: source_pos is not the owner source_pos" ++
    report (segment.chars = text.value.length) .segmentSourceMismatch
      s!"{segment.id}: chars is not the decoded code-point count")

def verifySourceSegment : Except (Stop (List VerifyFinding)) (List VerifyFinding) :=
  let kind := report (segment.segmentKind = .text) .segmentSourceMismatch
    s!"{segment.id}: source origin is not a text segment"
  match segment.fragmentRef with
  | none =>
    .ok (kind ++ [⟨.segmentSourceMismatch,
      s!"{segment.id}: source segment without a fragment reference"⟩])
  | some fragment =>
    match index.text fragment with
    | none =>
      .ok (kind ++ [⟨.danglingFragmentReference,
        s!"{segment.id}: fragment {fragment} is not a substrate text record"⟩])
    | some text => (verifyText index segment fragment text).map (kind ++ ·)

/-- The element of a derived segment is a control of the kind. -/
def isControl (kind : ReaderDerivedKind) : Bool :=
  (index.element segment.elementRef).any fun element =>
    index.roleOf element.id = some .control &&
      controlDerivedKind element.clarkTag element.attrs = some kind

def verifyDerivedSegment (kind : ReaderDerivedKind) : List VerifyFinding :=
  let name := kind.asStr
  report (segment.segmentKind = .derived) .segmentSourceMismatch
      s!"{segment.id}: derived origin is not a derived segment" ++
    report (segment.fragmentRef = none ∧ segment.span = none) .derivedInventedSourceSpan
      s!"{segment.id}: derived segment carries a source fragment or span" ++
    report (segment.slot = none) .segmentSourceMismatch
      s!"{segment.id}: derived segment must not carry a source slot" ++
    report (isControl index segment kind) .derivedNotControl
      s!"{segment.id}: element {segment.elementRef} is not a documented {name} control" ++
    report (segment.text = some kind.literal ∧ segment.chars = kind.literal.length ∧
        segment.semantic = .derivedSeparator ∧ segment.contextual = true) .derivedRenderMismatch
      s!"{segment.id}: derived literal/semantic/flags disagree with the control"

def verifySegment : Except (Stop (List VerifyFinding)) (List VerifyFinding) :=
  match segment.origin with
  | .sourceFragment => verifySourceSegment index segment
  | .derived kind => .ok (verifyDerivedSegment index segment kind)

end

/-! ### Views -/

section

variable (projection : ReaderProjection)

/-- `id_to_key`. -/
def keyById (id : ViewId) : Option ReaderViewKey :=
  (lastOf (·.id) projection.views id).map ProjectedView.key

/-- The segment that a view refers to, where it says the same. -/
def ownSegment (view : ProjectedView) (id : SegmentId) : Option ProjectedSegment :=
  (projection.segmentById id).filter (·.view = view.id)

def ownReference (view : ProjectedView) (id : ReferenceId) : Option ProjectedReference :=
  (lastOf (·.id) projection.references id).filter (·.view = view.id)

/-- The findings on the views whose key an earlier view has. -/
def verifyDuplicates (seen : List ReaderViewKey) : List ProjectedView → List VerifyFinding
  | [] => []
  | view :: rest =>
    let label := view.key.label
    report (view.key ∉ seen) .viewUnexpected s!"duplicate view {label}" ++
      verifyDuplicates (view.key :: seen) rest

def verifyWarranted (expected : Expected) (view : ProjectedView) : List VerifyFinding :=
  let label := view.key.label
  report (view.key ∈ expected.views.map (·.1)) .viewUnexpected s!"view {label} is not warranted"

def verifyView (key : ReaderViewKey) (expected : ExpectedView) (actual : ProjectedView) :
    List VerifyFinding :=
  let label := key.label
  let parent := actual.parentView.bind (keyById projection)
  let children := actual.children.filterMap (keyById projection)
  let empty := if key.kind.isPrimary then expected.segments.isEmpty else expected.children.isEmpty
  let segments := actual.segmentRefs.filterMap (ownSegment projection actual)
  let references := actual.referenceRefs.filterMap (ownReference projection actual)
  report (¬ (actual.parentView.isSome ∧ parent = none) ∧ parent = expected.parent)
      .viewParentMismatch s!"view {label} has the wrong parent_view" ++
    report (children.length = actual.children.length ∧ children = expected.children)
      .viewChildrenMismatch s!"view {label} has the wrong children" ++
    report (actual.flags.empty = empty) .viewEmptyFlagMismatch
      s!"view {label} flags.empty is {actual.flags.empty}, expected {empty}" ++
    report (∀ id ∈ actual.segmentRefs, (ownSegment projection actual id).isSome)
      .segmentRefDangling s!"view {label} has a dangling segment_ref" ++
    report (segments.map actualSegmentToken = expected.segments.map tokenText)
      .segmentMembershipOrOrderMismatch
      s!"view {label} segment order differs from the document-event order" ++
    report ((∀ id ∈ actual.referenceRefs, (ownReference projection actual id).isSome) ∧
        references.map (·.referenceType) = expected.references)
      .referenceMembershipMismatch
      s!"view {label} reference order differs from the document-event order"

def verifyExpectedView (entry : ReaderViewKey × ExpectedView) : List VerifyFinding :=
  let label := entry.1.label
  match projection.views.find? (·.key = entry.1) with
  | none => [⟨.viewMissing, s!"expected view {label} is absent"⟩]
  | some actual => verifyView projection entry.1 entry.2 actual

def verifyViewForest (expected : Expected) : List VerifyFinding :=
  verifyDuplicates [] projection.views ++ projection.views.flatMap (verifyWarranted expected) ++
    expected.views.flatMap (verifyExpectedView projection)

/-! ### Coverage -/

def sourceSegments : List ProjectedSegment :=
  projection.segments.filter (·.origin = .sourceFragment)

def sourceFragments : List FragmentRef := (sourceSegments projection).filterMap (·.fragmentRef)

/-- A map gives its entries back in no order of its own: here the fragments come in the order of the
segments. -/
def verifyCount (index : ReaderRecordIndex) (fragment : FragmentRef) : List VerifyFinding :=
  let count := (sourceFragments projection).count fragment
  report (count ≤ 1) .duplicateFragmentReference
      s!"fragment {fragment} is referenced {count} times" ++
    report ((index.text fragment).isSome) .danglingFragmentReference
      s!"fragment {fragment} is not a substrate text record"

def verifyCovered (text : TextRecord) : List VerifyFinding :=
  report (text.id ∈ sourceFragments projection) .missingFragmentReference
    s!"substrate text {text.id} is referenced by no source segment"

/-- The view that owns the fragment, and the one that the segment is in. -/
def ownership (expected : Expected) (segment : ProjectedSegment) :
    Option (FragmentRef × ReaderViewKey × ReaderViewKey) := do
  let fragment ← segment.fragmentRef
  let entry ← lastOf (·.fragment) expected.fragmentView fragment
  let actual ← keyById projection segment.view
  some (fragment, entry.view, actual)

def verifyOwnership (expected : Expected) (segment : ProjectedSegment) : List VerifyFinding :=
  match ownership projection expected segment with
  | none => []
  | some (fragment, owner, actual) =>
    let ownerLabel := owner.label
    let actualLabel := actual.label
    report (actual = owner) .fragmentInWrongView (s!"{segment.id}: fragment {fragment} belongs to " ++
      s!"view {ownerLabel} but is in view {actualLabel}")

def verifyResolved (reference : ProjectedReference) : List VerifyFinding :=
  report (reference.resolved = false) .referenceResolved
    s!"reference {reference.id} claims to be resolved"

def verifyCoverage (index : ReaderRecordIndex) (expected : Expected) : List VerifyFinding :=
  (distinct (sourceFragments projection)).flatMap (verifyCount projection index) ++
    index.texts.flatMap (verifyCovered projection) ++
    (sourceSegments projection).flatMap (verifyOwnership projection expected) ++
    projection.references.flatMap verifyResolved

end

/-- `verify_projection`: it returns nothing where there are no findings. -/
def verifyProjection (projection : ReaderProjection) (records : List Record) :
    Except (Stop (List VerifyFinding)) Unit := do
  let index ← (ReaderRecordIndex.new records).mapError fun error =>
    .failed [⟨.substrateMalformed, error.detail⟩]
  let expected ← (buildExpected index).mapError (Stop.map fun detail =>
    [⟨.substrateMalformed, detail⟩])
  let segments ← projection.segments.mapM (verifySegment index)
  let findings := verifyViewForest projection expected ++ segments.flatten ++
    verifyCoverage projection index expected
  if findings = [] then .ok () else .error (.failed findings)

end Verifier

end LawNexus.Reader
