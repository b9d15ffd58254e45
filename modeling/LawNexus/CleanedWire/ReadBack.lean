import LawNexus.CleanedWire.Reading
import LawNexus.JoinedLines

/-!
# The read-back and the writer

`read_cleaned_wire`, `render_cleaned_projection`, and the exporter that reads back what it wrote.
-/

namespace LawNexus.CleanedWire

open Chars Loops Reader
open SourcePackage (Package TextRecord TextSlot Record)

structure SourcePin where
  sha256 : String
  bytes : Nat
deriving DecidableEq, Repr

structure ParentSealPin where
  recordsSealHash : Option String
  manifestHash : Option String
deriving DecidableEq, Repr

structure SegmentText where
  segmentId : String
  fragmentRef : Option String
  text : List Char
  chars : Nat
  textBytes : Nat
deriving DecidableEq, Repr

structure CleanedProjection where
  contractVersion : Nat
  source : SourcePin
  parent : ParentSealPin
  projection : ReaderProjection
  inlineTexts : List SegmentText
  completion : WireCompletion
  counts : CleanedCounts
  recordsSealHash : String
  manifestHash : String
deriving DecidableEq, Repr

/-! ## Record fields -/

def recordInvalid {α : Type} (key detail : String) : Reading α :=
  refuse .recordFieldInvalid s!"record field {key}: {detail}"

def orInvalid {α : Type} (value : Option α) (key detail : String) : Reading α :=
  orRefuse value .recordFieldInvalid s!"record field {key}: {detail}"

def recordString (fields : JsonFields) (key : String) : Reading String :=
  orInvalid (stringField fields key) key "missing or not a JSON string"

def optRecordString (fields : JsonFields) (key : String) : Reading (Option String) := do
  let raw ← orInvalid (fields.get key) key "missing"
  if trim raw = ['n', 'u', 'l', 'l'] then .ok none
  else
    let text ← orInvalid (unescapeJsonString (trim raw)) key "not a JSON string or null"
    .ok (some (.ofList text))

/-- Also `record_usize`: a `usize` has 64 bits. -/
def recordU64 (fields : JsonFields) (key : String) : Reading Nat :=
  orInvalid (u64Field fields key) key "missing or not a u64"

def recordBool (fields : JsonFields) (key : String) : Reading Bool :=
  orInvalid (boolField fields key) key "missing or not a bool"

def recordStringArray (fields : JsonFields) (key : String) : Reading (List String) := do
  orInvalid (← stringArrayField fields key) key "missing or not a string array"

/-- A token of a closed vocabulary. -/
def recordToken {α : Type} (fromWire : String → Option α) (fields : JsonFields) (key : String) :
    Reading α := do
  let token ← recordString fields key
  orInvalid (fromWire token) key token

def recordObject (fields : JsonFields) (key : String) : Reading JsonFields := do
  let raw ← orInvalid (fields.get key) key "missing"
  parseFields (trim raw)

def parseTextSlot (token : String) : Reading TextSlot :=
  orInvalid (fromTokens [("text", .text), ("tail", .tail)] token) "slot" token

def segmentSlot (fields : JsonFields) : Reading (Option TextSlot) := do
  match ← optRecordString fields "slot" with
  | none => .ok none
  | some token => (parseTextSlot token).map some

def parseSegmentOrigin (fields : JsonFields) : Reading SegmentOrigin := do
  let token ← recordString fields "origin"
  if token = "source_fragment" then .ok .sourceFragment
  else
    match "derived:".toList.isPrefixOf? token.toList with
    | some rest =>
      orInvalid ((ReaderDerivedKind.fromWire (.ofList rest)).map .derived) "origin" token
    | none => recordInvalid "origin" token

def parseSegmentSpan (fields : JsonFields) : Reading (Option ReaderFragmentSpan) := do
  let raw ← orInvalid (fields.get "span") "span" "missing"
  if trim raw = ['n', 'u', 'l', 'l'] then .ok none
  else
    let inner ← parseFields (trim raw)
    let fragment ← recordString inner "fragment"
    let start ← recordU64 inner "start"
    let stop ← recordU64 inner "end"
    .ok (some ⟨fragment, start, stop⟩)

def parseCleanedCounts (fields : JsonFields) : Reading CleanedCounts := do
  let counts ← recordObject fields "counts"
  .ok {
    views := ← countsField counts "views"
    segments := ← countsField counts "segments"
    references := ← countsField counts "references"
    sourceSegments := ← countsField counts "source_segments"
    derivedSegments := ← countsField counts "derived_segments"
    textChars := ← countsField counts "text_chars"
    textBytes := ← countsField counts "text_bytes"
    records := ← countsField counts "records" }

def completionFromParts (completion basis : String) (reasons : List String) :
    Reading WireCompletion :=
  if completion = "complete" then .ok .complete
  else if completion = "incomplete" then do
    let basis ← orInvalid (reasonFromToken basis) "completion_basis" basis
    let parsed ← reasons.mapM fun reason =>
      orInvalid (reasonFromToken reason) "incomplete_reasons" reason
    .ok (.incomplete basis parsed)
  else recordInvalid "completion" completion

/-! ## Records -/

/-- One turn of `enforce_record_group_order`: the phase behind a record. -/
def groupPhase (phase : Nat) (kind : String) : Reading Nat :=
  if kind = KIND_VIEW then
    if phase > 0 then
      refuse .recordGroupOrder "view record after a segment or reference record"
    else .ok phase
  else if kind = KIND_SEGMENT then
    if phase > 1 then refuse .recordGroupOrder "segment record after a reference record"
    else .ok 1
  else if kind = KIND_REFERENCE then .ok 2
  else .ok phase

def enforceRecordGroupOrder (kinds : List String) : Reading Unit := do
  let _ ← kinds.foldlM groupPhase 0

def reconstructView (fields : JsonFields) : Reading ProjectedView := do
  let id ← recordString fields "id"
  let kind ← recordToken ReaderViewKind.fromWire fields "view_kind"
  let elementRef ← recordString fields "element_ref"
  let parentView ← optRecordString fields "parent_view"
  let children ← recordStringArray fields "children"
  let segmentRefs ← recordStringArray fields "segment_refs"
  let referenceRefs ← recordStringArray fields "reference_refs"
  let flags ← recordObject fields "flags"
  let empty ← recordBool flags "empty"
  .ok {
    id, kind, elementRef, parentView, children, segmentRefs, referenceRefs
    flags := ⟨empty⟩ }

def reconstructSegment (fields : JsonFields) : Reading (ProjectedSegment × SegmentText) := do
  let id ← recordString fields "id"
  let view ← recordString fields "view"
  let ordinal ← recordU64 fields "ordinal"
  let segmentKind ← recordToken ReaderSegmentKind.fromWire fields "segment_kind"
  let fragmentRef ← optRecordString fields "fragment_ref"
  let slot ← segmentSlot fields
  let span ← parseSegmentSpan fields
  let outputStart ← recordU64 fields "output_start"
  let outputEnd ← recordU64 fields "output_end"
  let chars ← recordU64 fields "chars"
  let origin ← parseSegmentOrigin fields
  let semantic ← recordToken ReaderSemantic.fromWire fields "semantic"
  let contextual ← recordBool fields "contextual"
  let elementRef ← recordString fields "element_ref"
  let sourcePos ← recordU64 fields "source_pos"
  let text ← recordString fields "text"
  let textChars ← recordU64 fields "text_chars"
  let textBytes ← recordU64 fields "text_bytes"
  .ok ({
      id, view, ordinal, segmentKind, fragmentRef, slot, span, outputStart, outputEnd, chars
      origin, semantic, contextual, elementRef, sourcePos
      text := if origin = .sourceFragment then none else some text.toList },
    { segmentId := id, fragmentRef, text := text.toList, chars := textChars, textBytes })

def reconstructReference (fields : JsonFields) : Reading ProjectedReference := do
  let id ← recordString fields "id"
  let view ← recordString fields "view"
  let ordinal ← recordU64 fields "ordinal"
  let referenceType ← recordToken ReaderReferenceType.fromWire fields "reference_type"
  let elementRef ← recordString fields "element_ref"
  let sourcePos ← recordU64 fields "source_pos"
  let resolved ← recordBool fields "resolved"
  .ok { id, view, ordinal, referenceType, elementRef, sourcePos, resolved }

/-- What the loop over the records has collected. -/
structure Records where
  views : List ProjectedView
  segments : List ProjectedSegment
  references : List ProjectedReference
  inlineTexts : List SegmentText
deriving DecidableEq, Repr

def readRecord (records : Records) (line : WireLine) : Reading Records :=
  if line.1 = KIND_VIEW then do
    let view ← reconstructView line.2
    .ok { records with views := records.views ++ [view] }
  else if line.1 = KIND_SEGMENT then do
    let (segment, inline) ← reconstructSegment line.2
    .ok { records with
      segments := records.segments ++ [segment]
      inlineTexts := records.inlineTexts ++ [inline] }
  else if line.1 = KIND_REFERENCE then do
    let reference ← reconstructReference line.2
    .ok { records with references := records.references ++ [reference] }
  else refuse .unknownKind s!"unexpected record kind {line.1}"

/-! ## The document -/

section

variable (sha256 : Sha256)

def footerBody (completion : WireCompletion) (counts : CleanedCounts) : List Char :=
  renderCompact (footerJson completion counts none none)

def readPins (manifest : JsonFields) : Reading (SourcePin × ParentSealPin) := do
  let source ← recordObject manifest "source"
  let sourceSha256 ← hexField source "sha256"
  let sourceBytes ← recordU64 source "bytes"
  let parent ← recordObject manifest "parent"
  let parentRecords ← optHexField parent "records_seal_hash"
  let parentManifest ← optHexField parent "manifest_hash"
  .ok (⟨sourceSha256, sourceBytes⟩, ⟨parentRecords, parentManifest⟩)

structure FooterPin where
  completion : WireCompletion
  counts : CleanedCounts
  recordsSealHash : String
  manifestHash : String
deriving DecidableEq, Repr

def CleanedProjection.pin (read : CleanedProjection) : FooterPin :=
  ⟨read.completion, read.counts, read.recordsSealHash, read.manifestHash⟩

def readFooter (footer : JsonFields) : Reading FooterPin := do
  let (completionToken, basisToken, reasons) ← parseCompletion footer
  let completion ← completionFromParts completionToken basisToken reasons
  let counts ← parseCleanedCounts footer
  let recordsSealHash ← hexField footer "records_seal_hash"
  let manifestHash ← hexField footer "manifest_hash"
  .ok { completion, counts, recordsSealHash, manifestHash }

/-- Both seals, over the lines as they stand in the file. -/
def checkSeals (lines : List (List Char)) (footer : FooterPin) : Reading Unit := do
  let policiesLine ← indexed lines 1
  let recordLines ← ranged lines 2 (lines.length - 1)
  if recordsSealHash sha256 policiesLine recordLines ≠ footer.recordsSealHash then
    refuse .hashMismatch "records_seal_hash does not recompute over the file lines"
  else do
    let manifestLine ← indexed lines 0
    let body := footerBody footer.completion footer.counts
    if manifestHash sha256 manifestLine footer.recordsSealHash body ≠ footer.manifestHash then
      refuse .hashMismatch "manifest_hash does not recompute over the manifest and footer"
    else .ok ()

def readCleanedWire (text : List Char) : Reading CleanedProjection := do
  let _ ← inspectCleanedWire text
  let body ← bodyOf text
  let lines := body.splitOn '\n'
  let lastIndex := lines.length - 1
  let parsed ← lines.mapM readLine
  let records ← ranged parsed 2 lastIndex
  enforceRecordGroupOrder (records.map (·.1))
  let manifest ← indexed parsed 0
  let (source, parent) ← readPins manifest.2
  let footer ← indexed parsed lastIndex
  let pin ← readFooter footer.2
  let read ← records.foldlM readRecord ⟨[], [], [], []⟩
  checkSeals sha256 lines pin
  let contractVersion ← recordU64 manifest.2 "version"
  .ok {
    contractVersion, source, parent
    projection := ⟨read.views, read.segments, read.references, none⟩
    inlineTexts := read.inlineTexts
    completion := pin.completion
    counts := pin.counts
    recordsSealHash := pin.recordsSealHash
    manifestHash := pin.manifestHash }

end

/-! ## The writer -/

def wireFail {α : Type} (kind : EnvelopeErrorKind) (detail : String) : Except EnvelopeError α :=
  .error ⟨kind, detail⟩

def validateSubstrate (package : Package) : Except EnvelopeError Unit :=
  let manifest := package.manifest
  if ¬ (manifest.kind = "source_package_manifest" ∧
      manifest.schema = SourcePackage.MANIFEST_SCHEMA ∧ manifest.model = SourcePackage.MODEL ∧
      manifest.profile = SourcePackage.PROFILE ∧
      manifest.capability = SourcePackage.CAPABILITY) then
    wireFail .schemaMismatch "substrate manifest identity/constants mismatch"
  else if manifest.version ≠ SourcePackage.SCHEMA_VERSION then
    wireFail .versionMismatch s!"substrate manifest version {manifest.version}"
  else .ok ()

def validateCompletion : WireCompletion → Except EnvelopeError Unit
  | .complete => .ok ()
  | .incomplete basis reasons =>
    if reasons = [] then
      wireFail .completionMarkerInvalid "incomplete completion carries no incomplete_reasons"
    else if basis ∉ reasons then
      let token := basis.asStr
      wireFail .completionMarkerInvalid
        s!"incomplete_reasons does not contain completion_basis {token}"
    else .ok ()

def textRecords (package : Package) : List TextRecord := package.records.filterMap Record.text?

/-- The last of the records with an id is in the map. -/
def textIndex (package : Package) (id : String) : Option TextRecord :=
  (textRecords package).reverse.find? (·.id = id)

def resolveText (index : String → Option TextRecord) (segment : ProjectedSegment) :
    Except EnvelopeError (List Char) :=
  let id := segment.id
  match segment.origin with
  | .sourceFragment =>
    if segment.segmentKind ≠ .text then
      let kind := segment.segmentKind.asStr
      wireFail .provenanceMismatch s!"source segment {id} has segment_kind {kind}"
    else
      match segment.fragmentRef with
      | none => wireFail .provenanceMismatch s!"source segment {id} has no fragment_ref"
      | some fragment =>
        match index fragment with
        | none => wireFail .fragmentMissing s!"fragment {fragment} is not in the substrate"
        | some record =>
          let owner := record.owner
          if record.owner ≠ segment.elementRef then
            wireFail .provenanceMismatch (s!"fragment {fragment} owner {owner} does not match " ++
              s!"segment element {segment.elementRef}")
          else if some record.slot ≠ segment.slot then
            wireFail .provenanceMismatch
              s!"fragment {fragment} slot does not match segment slot on {id}"
          else .ok record.value
  | .derived _ =>
    if segment.segmentKind ≠ .derived ∨ segment.fragmentRef.isSome ∨ segment.slot.isSome ∨
        segment.span.isSome then
      wireFail .provenanceMismatch s!"derived segment {id} carries source provenance"
    else
      match segment.text with
      | none => wireFail .provenanceMismatch s!"derived segment {id} has no literal text"
      | some text => .ok text

def sourceSegments (segments : List ProjectedSegment) : List ProjectedSegment :=
  segments.filter (·.origin = .sourceFragment)

/-- The fragments that the loop over the segments counts. -/
def attributed (segments : List ProjectedSegment) : List FragmentRef :=
  (sourceSegments segments).filterMap (·.fragmentRef)

def cleanedCounts (projection : ReaderProjection) (texts : List (List Char)) : CleanedCounts where
  views := projection.views.length
  segments := projection.segments.length
  references := projection.references.length
  sourceSegments := (sourceSegments projection.segments).length
  derivedSegments := (projection.segments.filter (·.origin ≠ .sourceFragment)).length
  textChars := (texts.map List.length).sum
  textBytes := (texts.map Utf8.byteLen).sum
  records := projection.views.length + projection.segments.length + projection.references.length

def recordLines (projection : ReaderProjection) (texts : List (List Char)) : List (List Char) :=
  projection.views.map (renderCompact ∘ viewJson) ++
    (projection.segments.zip texts).map (fun entry => renderCompact (segmentJson entry.1 entry.2)) ++
    projection.references.map (renderCompact ∘ referenceJson)

def checkTextLoss (projection : ReaderProjection) (completion : WireCompletion)
    (text : TextRecord) : Except EnvelopeError Unit :=
  let seen := (attributed projection.segments).count text.id
  if seen ≠ 1 then
    let marker := completion.asStr
    let basis := completion.basisStr
    wireFail .textLoss (s!"{marker} projection (basis {basis}) attributes text fragment " ++
      s!"{text.id} {seen} times")
  else .ok ()

def checkLineBytes (limits : WireLimits) (line : List Char) : Except EnvelopeError Unit :=
  let bytes := Utf8.byteLen line
  if bytes > limits.maxLineBytes then
    wireFail .lineBytesLimit
      s!"line of {bytes} bytes exceeds max_line_bytes {limits.maxLineBytes}"
  else .ok ()

section

variable (sha256 : Sha256)

def footerLine (manifestLine : List Char) (recordLines : List (List Char))
    (completion : WireCompletion) (counts : CleanedCounts) : List Char :=
  let recordsSeal := recordsSealHash sha256 (renderCompact policiesJson) recordLines
  let manifestSeal := manifestHash sha256 manifestLine recordsSeal (footerBody completion counts)
  renderCompact (footerJson completion counts (some recordsSeal) (some manifestSeal))

def renderCleanedProjection (package : Package) (projection : ReaderProjection)
    (completion : WireCompletion) (limits : WireLimits) : Except EnvelopeError (List Char) := do
  validateSubstrate package
  validateCompletion completion
  let texts ← projection.segments.mapM (resolveText (textIndex package))
  (textRecords package).forM (checkTextLoss projection completion)
  let counts := cleanedCounts projection texts
  if counts.records > limits.maxRecords then
    let records := counts.records
    wireFail .recordsLimit s!"record total {records} exceeds max_records {limits.maxRecords}"
  if counts.textBytes > limits.maxTextBytes then
    let bytes := counts.textBytes
    wireFail .textBytesLimit s!"text bytes {bytes} exceed max_text_bytes {limits.maxTextBytes}"
  let manifestLine := renderCompact (manifestJson package limits)
  let records := recordLines projection texts
  let footer := footerLine sha256 manifestLine records completion counts
  let lines := manifestLine :: renderCompact policiesJson :: (records ++ [footer])
  lines.forM (checkLineBytes limits)
  .ok (written lines)

def ReadHalt.selfCheck : ReadHalt → ReadHalt
  | .refused error =>
    let detail := error.detail
    .refused ⟨error.kind, s!"exporter self-check failed: {detail}"⟩
  | .panicked => .panicked
  | .endless => .endless

def exportCleanedProjection (package : Package) (projection : ReaderProjection)
    (completion : WireCompletion) (limits : WireLimits) : Reading (List Char) := do
  let artifact ← (renderCleanedProjection sha256 package projection completion limits).mapError
    .refused
  let _ ← (readCleanedWire sha256 artifact).mapError .selfCheck
  .ok artifact

end

end LawNexus.CleanedWire
