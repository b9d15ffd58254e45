import LawNexus.CleanedWire.ReadBack
import LawNexus.Reader.Verifier

/-!
# The verifier of an artifact

`verify_cleaned_wire` of `cleaned_verifier`: what an artifact says that its package does not.
-/

namespace LawNexus.CleanedWire

open Chars Loops Reader
open Forest (Stop)
open Reader.Verifier (verifyProjection)
open SourcePackage (Package TextRecord)

def EnvelopeErrorKind.asStr : EnvelopeErrorKind → String
  | schemaMismatch => "schema_mismatch"
  | versionMismatch => "version_mismatch"
  | lineBytesLimit => "line_bytes_limit"
  | recordsLimit => "records_limit"
  | textBytesLimit => "text_bytes_limit"
  | textLoss => "text_loss"
  | fragmentMissing => "fragment_missing"
  | provenanceMismatch => "provenance_mismatch"
  | completionMarkerInvalid => "completion_marker_invalid"
  | missingTrailingLf => "missing_trailing_lf"
  | carriageReturn => "carriage_return"
  | emptyLine => "empty_line"
  | missingManifest => "missing_manifest"
  | misorderedManifest => "misordered_manifest"
  | missingPolicies => "missing_policies"
  | misorderedPolicies => "misordered_policies"
  | missingFooter => "missing_footer"
  | misorderedFooter => "misordered_footer"
  | trailingRecordAfterFooter => "trailing_record_after_footer"
  | unknownKind => "unknown_kind"
  | hashShapeInvalid => "hash_shape_invalid"
  | contractFieldInvalid => "contract_field_invalid"
  | hashMismatch => "hash_mismatch"
  | recordGroupOrder => "record_group_order"
  | recordFieldInvalid => "record_field_invalid"

inductive CleanedVerifyCode where
  | artifactUnreadable
  | parentSourcePinMismatch
  | parentSealPinMismatch
  | projectionInvalid
  | textChannelMismatch
  | textChannelMembershipMismatch
  | countsMismatch
deriving DecidableEq, Repr

def CleanedVerifyCode.asStr : CleanedVerifyCode → String
  | artifactUnreadable => "artifact_unreadable"
  | parentSourcePinMismatch => "parent_source_pin_mismatch"
  | parentSealPinMismatch => "parent_seal_pin_mismatch"
  | projectionInvalid => "projection_invalid"
  | textChannelMismatch => "text_channel_mismatch"
  | textChannelMembershipMismatch => "text_channel_membership_mismatch"
  | countsMismatch => "counts_mismatch"

structure CleanedFinding where
  code : CleanedVerifyCode
  detail : String
deriving DecidableEq, Repr

/-- How a verification ends without an answer. -/
inductive VerifyHalt where
  | found (findings : List CleanedFinding)
  | panicked
  | endless
deriving DecidableEq, Repr

/-- A finding where something that has to hold does not. -/
def finding (holds : Prop) [Decidable holds] (code : CleanedVerifyCode) (detail : String) :
    List CleanedFinding :=
  if holds then [] else [⟨code, detail⟩]

section

variable (readback : CleanedProjection) (package : Package)

/-! ## Pins -/

def verifySourcePin : List CleanedFinding :=
  let source := package.manifest.source
  let actual := readback.source
  finding (actual.sha256 = source.sha256 ∧ actual.bytes = source.bytes) .parentSourcePinMismatch
    (s!"artifact source pin ({actual.sha256}, {actual.bytes} bytes) does not match " ++
      s!"the package source pin ({source.sha256}, {source.bytes} bytes)")

def verifyParentSealPin : List CleanedFinding :=
  finding (readback.parent.recordsSealHash = package.footer.recordsSealHash ∧
      readback.parent.manifestHash = package.footer.manifestHash) .parentSealPinMismatch
    "artifact parent seal pin does not match the package footer"

/-! ## The projection -/

def projectionFinding (found : VerifyFinding) : CleanedFinding :=
  let code := found.code.asStr
  ⟨.projectionInvalid, s!"{code}: {found.detail}"⟩

def verifyProjectionSemantics : Except VerifyHalt (List CleanedFinding) :=
  match verifyProjection readback.projection package.records with
  | .ok () => .ok []
  | .error (.failed findings) => .ok (findings.map projectionFinding)
  | .error .endless => .error .endless

/-! ## The text channel -/

/-- The text beside a segment, from the map by the ids of the segments. -/
def inlineBySegment (id : SegmentId) : Option SegmentText :=
  lastOf (·.segmentId) readback.inlineTexts id

/-- The checks of an inline text against the fragment that it stands for. -/
def verifyInlineText (segment : ProjectedSegment) (fragment : FragmentRef) (inline : SegmentText) :
    List CleanedFinding :=
  match textIndex package fragment with
  | none =>
    [⟨.textChannelMismatch,
      s!"source segment {segment.id} fragment {fragment} is absent from the substrate"⟩]
  | some record =>
    finding (inline.text = record.value) .textChannelMismatch
        s!"source segment {segment.id} inline text differs from the substrate value" ++
      finding (inline.chars = inline.text.length) .textChannelMismatch
        s!"source segment {segment.id} declared text_chars disagrees with the inline text" ++
      finding (inline.textBytes = Utf8.byteLen inline.text) .textChannelMismatch
        s!"source segment {segment.id} declared text_bytes disagrees with the inline text"

def verifyInline (segment : ProjectedSegment) : List CleanedFinding :=
  match inlineBySegment readback segment.id with
  | none =>
    [⟨.textChannelMismatch, s!"source segment {segment.id} has no inline text entry"⟩]
  | some inline =>
    match segment.fragmentRef with
    | none =>
      [⟨.textChannelMismatch, s!"source segment {segment.id} has no fragment reference"⟩]
    | some fragment =>
      if inline.fragmentRef ≠ some fragment then
        [⟨.textChannelMismatch,
          s!"source segment {segment.id} inline fragment reference disagrees"⟩]
      else verifyInlineText package segment fragment inline

/-- The fragment that a segment is counted for. -/
def attributedInline (segment : ProjectedSegment) : Option FragmentRef := do
  let inline ← inlineBySegment readback segment.id
  let fragment ← segment.fragmentRef
  if inline.fragmentRef = some fragment then some fragment else none

def verifyMembership (text : TextRecord) : List CleanedFinding :=
  let seen := ((sourceSegments readback.projection.segments).filterMap
    (attributedInline readback)).count text.id
  if seen = 0 then
    [⟨.textChannelMembershipMismatch,
      s!"substrate text record {text.id} is covered by no source inline text"⟩]
  else
    finding (seen ≤ 1) .textChannelMembershipMismatch
      s!"substrate text record {text.id} is covered by {seen} source inline texts"

def verifyTextChannel : List CleanedFinding :=
  (sourceSegments readback.projection.segments).flatMap (verifyInline readback package) ++
    (textRecords package).flatMap (verifyMembership readback)

/-! ## Counts -/

def recomputedCounts : CleanedCounts :=
  let views := readback.projection.views.length
  let segments := readback.projection.segments.length
  let references := readback.projection.references.length
  let source := (sourceSegments readback.projection.segments).length
  { views, segments, references
    sourceSegments := source
    derivedSegments := segments - source
    textChars := (readback.inlineTexts.map (·.text.length)).sum
    textBytes := (readback.inlineTexts.map fun inline => Utf8.byteLen inline.text).sum
    records := views + segments + references }

def verifyCounts : List CleanedFinding :=
  let counts := recomputedCounts readback
  finding (counts = readback.counts) .countsMismatch
    (s!"recomputed counts views={counts.views} segments={counts.segments} " ++
      s!"references={counts.references} source_segments={counts.sourceSegments} " ++
      s!"derived_segments={counts.derivedSegments} text_chars={counts.textChars} " ++
      s!"text_bytes={counts.textBytes} records={counts.records} disagree with the footer")

end

/-! ## The verifier -/

section

variable (sha256 : Sha256) (artifact : List Char) (package : Package)

/-- The reader's refusals become a finding. -/
def readArtifact : Except VerifyHalt CleanedProjection :=
  (readCleanedWire sha256 artifact).mapError fun halt =>
    match halt with
    | .refused error => .found [⟨.artifactUnreadable, error.kind.asStr⟩]
    | .panicked => .panicked
    | .endless => .endless

def verifyCleanedWire : Except VerifyHalt Unit := do
  let readback ← readArtifact sha256 artifact
  let semantics ← verifyProjectionSemantics readback package
  let findings := verifySourcePin readback package ++ verifyParentSealPin readback package ++
    semantics ++ verifyTextChannel readback package ++ verifyCounts readback
  if findings = [] then .ok () else .error (.found findings)

end

end LawNexus.CleanedWire
