import LawNexus.CleanedWire.Json
import LawNexus.Reader.Tokens

/-!
# The envelope

The lines of a cleaned projection as JSON, their seals, and the writer.
-/

namespace LawNexus.CleanedWire

open Reader
open SourcePackage (Package hexLower)

def CONTRACT_VERSION : Nat := 1
def MODEL : String := "law-nexus/cleaned-projection-model/v1"
def PROFILE : String := "cleaned_projection_wordml/v1"
def CAPABILITY : String := "cleaned_projection_jsonl"
def KIND_MANIFEST : String := "cleaned_projection_manifest"
def KIND_POLICIES : String := "cleaned_projection_policies"
def KIND_VIEW : String := "cleaned_projection_view"
def KIND_SEGMENT : String := "cleaned_projection_segment"
def KIND_REFERENCE : String := "cleaned_projection_reference"
def KIND_FOOTER : String := "cleaned_projection_footer"
def MANIFEST_SCHEMA : String := "law-nexus/cleaned-projection-manifest/v1"
def POLICIES_SCHEMA : String := "law-nexus/cleaned-projection-policies/v1"
def VIEW_SCHEMA : String := "law-nexus/cleaned-projection-view/v1"
def SEGMENT_SCHEMA : String := "law-nexus/cleaned-projection-segment/v1"
def REFERENCE_SCHEMA : String := "law-nexus/cleaned-projection-reference/v1"
def FOOTER_SCHEMA : String := "law-nexus/cleaned-projection-footer/v1"
def GENERATOR_NAME : String := "ln-decode.cleaned_wire"
def GENERATOR_VERSION : String := "0.1.0"
def BASIS_COMPLETE : String := "bounded_projection_complete"
def POLICY_CLEANING_MODE : String := "display_only_reversible"
def POLICY_TEXT_RETENTION : String := "full_decoded_text_retained_inline"
def POLICY_HOLD_TEXT_ONLY : String := "no_decoded_text_loss_permitted"
def POLICY_COUNTS_SCOPE : String := "integrity_not_coverage"
def POLICY_UNKNOWN_CONTEXT : String := "retained_and_addressable"
def POLICY_NORMALIZATION : String := "raw_decoded_text_no_char_normalization"
def POLICY_AUTHENTICITY : String := "integrity_only_not_authenticity"
def POLICY_DISPLAY_SCOPE : String := "source_content_retained_no_suppression"

structure WireLimits where
  maxLineBytes : Nat
  maxRecords : Nat
  maxTextBytes : Nat
deriving DecidableEq, Repr

/-! ## Completion -/

inductive IncompleteReason where
  | hold
  | textOnly
  | limitReached
  | unsupportedSource
  | callerScope
deriving DecidableEq, Repr

def IncompleteReason.asStr : IncompleteReason → String
  | .hold => "hold"
  | .textOnly => "text_only"
  | .limitReached => "limit_reached"
  | .unsupportedSource => "unsupported_source"
  | .callerScope => "caller_scope"

inductive WireCompletion where
  | complete
  | incomplete (basis : IncompleteReason) (reasons : List IncompleteReason)
deriving DecidableEq, Repr

namespace WireCompletion

def asStr : WireCompletion → String
  | .complete => "complete"
  | .incomplete _ _ => "incomplete"

def basisStr : WireCompletion → String
  | .complete => BASIS_COMPLETE
  | .incomplete basis _ => basis.asStr

def reasonStrs : WireCompletion → List String
  | .complete => []
  | .incomplete _ reasons => reasons.map (·.asStr)

end WireCompletion

/-! ## Errors -/

/-- The kinds of `WireErrorKind`, that of the scan among them. -/
inductive EnvelopeErrorKind where
  | schemaMismatch
  | versionMismatch
  | lineBytesLimit
  | recordsLimit
  | textBytesLimit
  | textLoss
  | fragmentMissing
  | provenanceMismatch
  | completionMarkerInvalid
  | missingTrailingLf
  | carriageReturn
  | emptyLine
  | missingManifest
  | misorderedManifest
  | missingPolicies
  | misorderedPolicies
  | missingFooter
  | misorderedFooter
  | trailingRecordAfterFooter
  | unknownKind
  | hashShapeInvalid
  | contractFieldInvalid
  | hashMismatch
  | recordGroupOrder
  | recordFieldInvalid
deriving DecidableEq, Repr

structure EnvelopeError where
  kind : EnvelopeErrorKind
  detail : String
deriving DecidableEq, Repr

/-! ## The lines as JSON -/

def Json.string (value : String) : Json := .str value.toList

def optString (value : Option String) : Json := value.elim .null .string

def Json.strings (values : List String) : Json := .arr (values.map .string)

def spanJson (fragment : String) (start stop : Nat) : Json := .obj [
  ("end", .number stop),
  ("fragment", .string fragment),
  ("start", .number start)]

def limitsJson (limits : WireLimits) : Json := .obj [
  ("max_line_bytes", .number limits.maxLineBytes),
  ("max_records", .number limits.maxRecords),
  ("max_text_bytes", .number limits.maxTextBytes)]

def generatorJson : Json := .obj [
  ("name", .string GENERATOR_NAME),
  ("version", .string GENERATOR_VERSION)]

def parentJson (package : Package) : Json := .obj [
  ("manifest_hash", optString package.footer.manifestHash),
  ("records_seal_hash", optString package.footer.recordsSealHash)]

def sourceJson (package : Package) : Json := .obj [
  ("bytes", .number package.manifest.source.bytes),
  ("sha256", .string package.manifest.source.sha256)]

def manifestJson (package : Package) (limits : WireLimits) : Json := .obj [
  ("capability", .string CAPABILITY),
  ("generator", generatorJson),
  ("kind", .string KIND_MANIFEST),
  ("limits", limitsJson limits),
  ("model", .string MODEL),
  ("non_authoritative", .bool true),
  ("parent", parentJson package),
  ("profile", .string PROFILE),
  ("schema", .string MANIFEST_SCHEMA),
  ("source", sourceJson package),
  ("version", .number CONTRACT_VERSION)]

def policiesJson : Json := .obj [
  ("authenticity", .string POLICY_AUTHENTICITY),
  ("cleaning_mode", .string POLICY_CLEANING_MODE),
  ("counts_scope", .string POLICY_COUNTS_SCOPE),
  ("display_scope", .string POLICY_DISPLAY_SCOPE),
  ("hold_text_only", .string POLICY_HOLD_TEXT_ONLY),
  ("kind", .string KIND_POLICIES),
  ("non_authoritative", .bool true),
  ("normalization", .string POLICY_NORMALIZATION),
  ("schema", .string POLICIES_SCHEMA),
  ("text_retention", .string POLICY_TEXT_RETENTION),
  ("unknown_context", .string POLICY_UNKNOWN_CONTEXT),
  ("version", .number CONTRACT_VERSION)]

def viewJson (view : ProjectedView) : Json := .obj [
  ("children", .strings view.children),
  ("element_ref", .string view.elementRef),
  ("flags", .obj [("empty", .bool view.flags.empty)]),
  ("id", .string view.id),
  ("kind", .string KIND_VIEW),
  ("parent_view", optString view.parentView),
  ("reference_refs", .strings view.referenceRefs),
  ("schema", .string VIEW_SCHEMA),
  ("segment_refs", .strings view.segmentRefs),
  ("view_kind", .string view.kind.asStr)]

def segmentJson (segment : ProjectedSegment) (text : List Char) : Json :=
  let source := segment.origin = .sourceFragment
  let fragment := if source then optString segment.fragmentRef else .null
  let slot := if source then optString (segment.slot.map (·.asStr)) else .null
  let span := if source then
      segment.span.elim .null fun span => spanJson span.fragment span.start span.stop
    else .null
  .obj [
    ("chars", .number text.length),
    ("contextual", .bool segment.contextual),
    ("element_ref", .string segment.elementRef),
    ("fragment_ref", fragment),
    ("id", .string segment.id),
    ("kind", .string KIND_SEGMENT),
    ("ordinal", .number segment.ordinal),
    ("origin", .string segment.origin.asStr),
    ("output_end", .number segment.outputEnd),
    ("output_start", .number segment.outputStart),
    ("schema", .string SEGMENT_SCHEMA),
    ("segment_kind", .string segment.segmentKind.asStr),
    ("semantic", .string segment.semantic.asStr),
    ("slot", slot),
    ("source_pos", .number segment.sourcePos),
    ("span", span),
    ("text", .str text),
    ("text_bytes", .number (Utf8.byteLen text)),
    ("text_chars", .number text.length),
    ("view", .string segment.view)]

def referenceJson (reference : ProjectedReference) : Json := .obj [
  ("element_ref", .string reference.elementRef),
  ("id", .string reference.id),
  ("kind", .string KIND_REFERENCE),
  ("ordinal", .number reference.ordinal),
  ("reference_type", .string reference.referenceType.asStr),
  ("resolved", .bool reference.resolved),
  ("schema", .string REFERENCE_SCHEMA),
  ("source_pos", .number reference.sourcePos),
  ("view", .string reference.view)]

structure CleanedCounts where
  views : Nat
  segments : Nat
  references : Nat
  sourceSegments : Nat
  derivedSegments : Nat
  textChars : Nat
  textBytes : Nat
  records : Nat
deriving DecidableEq, Repr

def CleanedCounts.json (counts : CleanedCounts) : Json := .obj [
  ("derived_segments", .number counts.derivedSegments),
  ("records", .number counts.records),
  ("references", .number counts.references),
  ("segments", .number counts.segments),
  ("source_segments", .number counts.sourceSegments),
  ("text_bytes", .number counts.textBytes),
  ("text_chars", .number counts.textChars),
  ("views", .number counts.views)]

def footerJson (completion : WireCompletion) (counts : CleanedCounts)
    (recordsSealHash manifestHash : Option String) : Json := .obj [
  ("completion", .string completion.asStr),
  ("completion_basis", .string completion.basisStr),
  ("counts", counts.json),
  ("incomplete_reasons", .strings completion.reasonStrs),
  ("kind", .string KIND_FOOTER),
  ("manifest_hash", optString manifestHash),
  ("non_authoritative", .bool true),
  ("records_seal_hash", optString recordsSealHash),
  ("schema", .string FOOTER_SCHEMA),
  ("version", .number CONTRACT_VERSION)]

/-! ## Seals -/

/-- SHA-256: a digest has 32 bytes. -/
abbrev Sha256 := List UInt8 → {digest : List UInt8 // digest.length = 32}

section

variable (sha256 : Sha256)

def recordsSealHash (policiesLine : List Char) (recordLines : List (List Char)) : String :=
  hexLower (sha256 (Utf8.bytes (policiesLine ++ recordLines.flatten))).1

def manifestInput (manifestLine : List Char) (recordsSealHash : String) (footerBody : List Char) :
    List Char :=
  manifestLine ++ '\n' :: (recordsSealHash.toList ++ '\n' :: footerBody)

def manifestHash (manifestLine : List Char) (recordsSealHash : String) (footerBody : List Char) :
    String :=
  hexLower (sha256 (Utf8.bytes (manifestInput manifestLine recordsSealHash footerBody))).1

end

end LawNexus.CleanedWire
