import LawNexus.Reader.Composite

/-!
# The tokenizer

`reader_tokenizer`: the output of each primary view as tokens, and the token of an address. A
document is known by an identity that the tokens only carry.
-/

namespace LawNexus.Reader

open Forest SourcePackage Loops

def READER_TOKENIZER_DERIVED_RULE : String := "reader-projection/derived-literal/v1"

inductive TokenClass where
  | word
  | whitespace
deriving DecidableEq, Repr

inductive TokenUnit where
  | sourceSubspan (segment : SegmentId) (fragmentRef : FragmentRef) (slot : TextSlot)
    (span : ReaderFragmentSpan) (elementRef : ElementRef) (sourcePos : Nat)
  | derivedControl (segment : SegmentId) (derivedKind : ReaderDerivedKind)
    (elementRef : ElementRef) (sourcePos : Nat)
deriving DecidableEq, Repr

inductive ReaderToken (ι : Type) where
  | source (documentIdentity : ι) (view : ViewId) (segment : SegmentId) (tokenClass : TokenClass)
    (semantic : ReaderSemantic) (fragmentRef : FragmentRef) (slot : TextSlot)
    (span : ReaderFragmentSpan) (elementRef : ElementRef) (sourcePos : Nat)
  | derivedControl (documentIdentity : ι) (view : ViewId) (segment : SegmentId)
    (derivedKind : ReaderDerivedKind) (elementRef : ElementRef) (sourcePos : Nat)
    (ruleProfile : String) (literal : List Char)
  | composite (documentIdentity : ι) (view : ViewId) (outputStart outputEnd : Nat)
    (units : List TokenUnit)
deriving DecidableEq, Repr

structure TokenStream (ι : Type) where
  documentIdentity : ι
  tokens : List (ReaderToken ι)
deriving DecidableEq, Repr

/-! ## Errors -/

inductive TokenizerErrorKind where
  | artifactUnreadable
  | identityInvalid
  | unknownView
  | notPrimaryView
  | orderUnavailable
  | missingSegment
  | missingFragment
  | missingProvenance
  | outputGap
  | spanInvalid
  | addressRefused
deriving DecidableEq, Repr

/-- The errors, with what their details are made of. -/
inductive TokenizerError where
  | readingOrder (view : ViewId) (error : ReadingOrderError)
  | missingSegment (segment : SegmentId)
  | startGap (segment : SegmentId) (start length : Nat)
  | endGap (view : ViewId)
  | noFragment (segment : SegmentId)
  | noSpan (segment : SegmentId)
  | noSlot (segment : SegmentId)
  | missingFragment (fragment : FragmentRef)
  | contract (kind : ContractErrorKind)
  | runWithoutUnit (start stop : Nat) (view : ViewId)
  | unitSpan (kind : ContractErrorKind)
  | noCompositeUnit (start stop : Nat) (view : ViewId)
  | substrate (kind : ContractErrorKind)
  | orderUnavailable (kind : Option ReadingOrderErrorKind)
  | address (kind : CompositeErrorKind)
deriving DecidableEq, Repr

def TokenizerError.kind : TokenizerError → TokenizerErrorKind
  | readingOrder _ error => if error.kind = .notPrimaryView then .notPrimaryView else .unknownView
  | missingSegment _ => .missingSegment
  | startGap .. | endGap _ => .outputGap
  | noFragment _ | noSpan _ | noSlot _ => .missingProvenance
  | missingFragment _ => .missingFragment
  | contract _ | runWithoutUnit .. => .spanInvalid
  | unitSpan _ | noCompositeUnit .. | address _ => .addressRefused
  | substrate _ | orderUnavailable _ => .orderUnavailable

def mapContractError (error : ContractError) : TokenizerError := .contract error.kind

def mapCompositeError (error : CompositeError) : TokenizerError := .address error.kind

def unitErrors : UnitErrors TokenizerError where
  noFragment := .noFragment
  noSlot := .noSlot
  missingFragment := .missingFragment
  span error := .unitSpan error.kind

/-! ## The output of a view -/

section

variable (index : ReaderRecordIndex)

/-- What a segment adds to the output. -/
def pieceOf (segment : ProjectedSegment) : Except TokenizerError (List Char) :=
  match segment.origin with
  | .sourceFragment => do
    let fragment ← orError segment.fragmentRef (.noFragment segment.id)
    let span ← orError segment.span (.noSpan segment.id)
    let text ← orError (index.text fragment) (.missingFragment fragment)
    (checkFragmentSpan text.value span).mapError mapContractError
    .ok ((Utf8.slice text.value span.start span.stop).getD [])
  | .derived kind => .ok kind.literal

def assemble : List Char → List ProjectedSegment → Except TokenizerError (List Char)
  | output, [] => .ok output
  | output, segment :: rest =>
    if segment.outputStart ≠ Utf8.byteLen output then
      .error (.startGap segment.id segment.outputStart (Utf8.byteLen output))
    else do
      let piece ← pieceOf index segment
      assemble (output ++ piece) rest

end

/-! ## Runs -/

structure Run where
  start : Nat
  stop : Nat
  whitespace : Bool
deriving DecidableEq, Repr

/-- A turn of the loop over the characters. -/
def pushChar (runs : List Run) (offset : Nat) (c : Char) : List Run :=
  let whitespace := Texts.isWhitespace c
  match runs.getLast? with
  | some last =>
    if last.whitespace = whitespace then runs.dropLast ++ [{ last with stop := offset + c.utf8Size }]
    else runs ++ [⟨offset, offset + c.utf8Size, whitespace⟩]
  | none => runs ++ [⟨offset, offset + c.utf8Size, whitespace⟩]

def runsFrom : List Run → Nat → List Char → List Run
  | runs, _, [] => runs
  | runs, offset, c :: rest => runsFrom (pushChar runs offset c) (offset + c.utf8Size) rest

def runsOf (output : List Char) : List Run := runsFrom [] 0 output

/-! ## Tokens -/

section

variable {ι : Type} (index : ReaderRecordIndex) (identity : ι) (view : ViewId)

def sourceToken (segment : ProjectedSegment) (run : Run) : Except TokenizerError (ReaderToken ι) := do
  let fragmentRef ← orError segment.fragmentRef (.noFragment segment.id)
  let slot ← orError segment.slot (.noSlot segment.id)
  let unitSpan ← orError segment.span (.noSpan segment.id)
  let text ← orError (index.text fragmentRef) (.missingFragment fragmentRef)
  let localStart := run.start - segment.outputStart
  let localEnd := run.stop - segment.outputStart
  let span : ReaderFragmentSpan :=
    ⟨fragmentRef, unitSpan.start + localStart, unitSpan.start + localEnd⟩
  (checkFragmentSpan text.value span).mapError mapContractError
  .ok (.source identity view segment.id (if run.whitespace then .whitespace else .word)
    segment.semantic fragmentRef slot span segment.elementRef segment.sourcePos)

def derivedToken (segment : ProjectedSegment) (kind : ReaderDerivedKind) : ReaderToken ι :=
  .derivedControl identity view segment.id kind segment.elementRef segment.sourcePos
    READER_TOKENIZER_DERIVED_RULE kind.literal

def tokenUnit : CompositeUnit → TokenUnit
  | .source segment fragmentRef slot span elementRef sourcePos =>
    .sourceSubspan segment fragmentRef slot span elementRef sourcePos
  | .derived segment kind elementRef sourcePos =>
    .derivedControl segment kind elementRef sourcePos

def localize (overlapping : List ProjectedSegment) (run : Run) :
    Except TokenizerError (ReaderToken ι) :=
  match overlapping with
  | [] => .error (.runWithoutUnit run.start run.stop view)
  | [segment] =>
    match segment.origin with
    | .sourceFragment => sourceToken index identity view segment run
    | .derived kind => .ok (derivedToken identity view segment kind)
  | _ => do
    let units ← compositeUnits unitErrors index run.start run.stop overlapping
    if units = [] then .error (.noCompositeUnit run.start run.stop view)
    else .ok (.composite identity view run.start run.stop (units.map tokenUnit))

/-- The loop over the runs, where `units` starts at the cursor. -/
def localizeRuns : List ProjectedSegment → List Run → Except TokenizerError (List (ReaderToken ι))
  | _, [] => .ok []
  | units, run :: rest => do
    let units := units.dropWhile (·.outputEnd ≤ run.start)
    let token ← localize index identity view (units.takeWhile (·.outputStart < run.stop)) run
    .ok (token :: (← localizeRuns units rest))

variable (projection : ReaderProjection) (order : ReadingOrderIndex)

def tokenizeView : Except TokenizerError (List (ReaderToken ι)) := do
  let ordered ← (order.readingOrder view).mapError (.readingOrder view)
  let units ← ordered.mapM fun id => orError (projection.segmentById id) (.missingSegment id)
  let output ← assemble index [] units
  if Utf8.byteLen output ≠ units.getLast?.elim 0 (·.outputEnd) then .error (.endGap view)
  else localizeRuns index identity view units (runsOf output)

end

section

variable {ι : Type} (projection : ReaderProjection) (records : List Record) (identity : ι)

def tokenizeProjection (order : ReadingOrderIndex) :
    Except (Stop TokenizerError) (TokenStream ι) := do
  let index ← (ReaderRecordIndex.new records).mapError fun error => .failed (.substrate error.kind)
  let primary := projection.views.filter (·.kind.isPrimary)
  let tokens ← (primary.mapM fun view =>
    tokenizeView index identity view.id projection order).mapError .failed
  .ok ⟨identity, tokens.flatten⟩

def buildOrder : Except (Stop TokenizerError) ReadingOrderIndex :=
  (ReadingOrderIndex.build projection records).mapError
    (Stop.map fun errors => .orderUnavailable (errors.head?.map (·.kind)))

def tokenize : Except (Stop TokenizerError) (TokenStream ι) := do
  let order ← buildOrder projection records
  tokenizeProjection projection records identity order

/-- The segment of a unit. -/
def CompositeUnit.segment : CompositeUnit → SegmentId
  | source segment .. => segment
  | derived segment .. => segment

/-- The token of a range of one unit. -/
def unitToken (index : ReaderRecordIndex) (range : CompositeRange) (segment : ProjectedSegment) :
    CompositeUnit → Except TokenizerError (ReaderToken ι)
  | .source _ _ _ span _ _ => do
    let text ← orError (index.text span.fragment) (.missingFragment span.fragment)
    let whitespace := ((Utf8.slice text.value span.start span.stop).getD []).all
      Texts.isWhitespace
    sourceToken index identity range.view segment ⟨range.outputStart, range.outputEnd, whitespace⟩
  | .derived _ kind _ _ => .ok (derivedToken identity range.view segment kind)

def rangeToken (range : CompositeRange) : ReaderToken ι :=
  .composite identity range.view range.outputStart range.outputEnd (range.units.map tokenUnit)

def tokenizeAddress (address : CompositeAddress) : Except (Stop TokenizerError) (ReaderToken ι) := do
  let order ← buildOrder projection records
  let range ← (resolveComposite projection order records address).mapError
    fun error => .failed (mapCompositeError error)
  match range.units with
  | [unit] => do
    let index ← (ReaderRecordIndex.new records).mapError
      fun error => .failed (.substrate error.kind)
    match projection.segments.find? (·.id = unit.segment) with
    | some segment => (unitToken identity index range segment unit).mapError .failed
    | none => .ok (rangeToken identity range)
  | _ => .ok (rangeToken identity range)

end

end LawNexus.Reader
