import LawNexus.Utf8
import Mathlib.Algebra.GroupWithZero.Nat
import Mathlib.Data.String.Basic

/-!
# Source packages

The records of `source_package`: a manifest, elements in pre-order, texts in document order, a
footer.
-/

namespace LawNexus.SourcePackage

def MANIFEST_SCHEMA : String := "law-nexus/source-package-manifest/v1"
def FOOTER_SCHEMA : String := "law-nexus/source-package-footer/v1"
def ELEMENT_SCHEMA : String := "law-nexus/source-package-element/v1"
def TEXT_SCHEMA : String := "law-nexus/source-package-text/v1"
def MODEL : String := "law-nexus/source-package-model/v1"
def PROFILE : String := "source_package_decoded_text/v1"
def CAPABILITY : String := "source_package_jsonl"
def SCHEMA_VERSION : Nat := 1
def CAPTURE_POLICY : String := "bounded_whole_document_memory_hard_fail_closed"
def COMPLETION_BASIS : String :=
  "bounded_capture_policy_complete_not_legal_completeness_not_authenticity"

structure Limits where
  maxInputBytes : Nat
  maxPackageBytes : Nat
  maxLineBytes : Nat
  maxDepth : Nat
  maxNodes : Nat
  maxTextFragments : Nat
  maxTextBytes : Nat
  maxRecords : Nat
  maxAttrsPerElement : Nat
deriving DecidableEq, Repr

structure Policies where
  textScope : String
  documentLevelText : String
  directiveRecords : String
  cdataBoundaries : String
  entityScope : String
  binaryPayloads : String
  unknownElements : String
  namespaces : String
  xmlSpace : String
  rawXmlLexicalForm : String
  memoryModel : String
  authenticity : String
deriving DecidableEq, Repr

def Policies.expected : Policies where
  textScope := "element_text_and_tail_slots"
  documentLevelText := "outside_root_excluded_not_claimed"
  directiveRecords := "comments_pi_declaration_excluded_metadata_not_claimed"
  cdataBoundaries := "not_preserved"
  entityScope := "predefined_and_numeric_only_dtd_rejected"
  binaryPayloads := "all_decoded_text_retained_no_exclusions"
  unknownElements := "retained"
  namespaces := "clark_resolved_declarations_recorded"
  xmlSpace := "declared_and_inherited_recorded"
  rawXmlLexicalForm := "not_preserved_not_claimed"
  memoryModel := "bounded_whole_document_not_streaming"
  authenticity := "integrity_only_not_authenticity"

/-! ## Records -/

inductive TextSlot where
  | text
  | tail
deriving DecidableEq, Repr

def TextSlot.asStr : TextSlot → String
  | .text => "text"
  | .tail => "tail"

/-- A `BTreeMap` from names to values: one entry for a key, by ascending keys. -/
structure BTreeMap where
  entries : List (String × String)
  ascending : entries.Pairwise fun a b => a.1 < b.1
deriving DecidableEq, Repr

namespace BTreeMap

def empty : BTreeMap := ⟨[], List.Pairwise.nil⟩

def len (m : BTreeMap) : Nat := m.entries.length

end BTreeMap

structure ElementRecord where
  kind : String
  schema : String
  id : String
  parent : Option String
  childIndex : Option Nat
  depth : Nat
  clarkTag : String
  attrs : BTreeMap
  namespaceDeclarations : BTreeMap
  xmlSpaceDeclared : Option Bool
  xmlSpaceEffective : Bool
  textRef : Option String
  tailRef : Option String
deriving DecidableEq, Repr

structure TextRecord where
  kind : String
  schema : String
  id : String
  owner : String
  slot : TextSlot
  value : List Char
  chars : Nat
  bytes : Nat
deriving DecidableEq, Repr

inductive Record where
  | element (record : ElementRecord)
  | text (record : TextRecord)
deriving DecidableEq, Repr

def Record.element? : Record → Option ElementRecord
  | .element record => some record
  | .text _ => none

def Record.text? : Record → Option TextRecord
  | .element _ => none
  | .text record => some record

/-! ## Manifest and footer -/

structure Counts where
  elements : Nat
  textFragments : Nat
  textChars : Nat
  textBytes : Nat
  namespaceDeclarations : Nat
  records : Nat
deriving DecidableEq, Repr

structure SourceRef where
  sha256 : String
  bytes : Nat
deriving DecidableEq, Repr

structure Manifest where
  kind : String
  schema : String
  version : Nat
  model : String
  profile : String
  capability : String
  capturePolicy : String
  source : SourceRef
  limits : Limits
  policies : Policies
  nonAuthoritative : Bool
deriving DecidableEq, Repr

inductive CaptureStatus where
  | complete
deriving DecidableEq, Repr

structure Footer where
  kind : String
  schema : String
  version : Nat
  captureStatus : CaptureStatus
  completionBasis : String
  sourceSha256 : String
  counts : Counts
  recordsSealHash : Option String
  manifestHash : Option String
  nonAuthoritative : Bool
deriving DecidableEq, Repr

structure Package where
  manifest : Manifest
  records : List Record
  footer : Footer
deriving DecidableEq, Repr

/-! ## Errors -/

/-- The kinds of error that reading, writing and verifying a package can end in. -/
inductive ErrorKind where
  | packageTooLarge
  | lineTooLong
  | nonUtf8Package
  | attributeCountExceeded
  | depthExceeded
  | nodeCapExceeded
  | textFragmentCapExceeded
  | textByteCapExceeded
  | recordCapExceeded
  | missingTrailingLf
  | carriageReturnForbidden
  | emptyLine
  | emptyPackage
  | missingFooter
  | misorderedFooter
  | misorderedManifest
  | jsonSyntax
  | duplicateJsonKey
  | typeMismatch
  | unknownKind
  | schemaMismatch
  | versionUnsupported
  | sourceHashMismatch
  | hashMissing
  | hashMalformed
  | recordsSealMismatch
  | manifestHashMismatch
  | countMismatch
  | duplicateRecordId
  | sectionOrderMismatch
  | noRoot
  | rootCount
  | parentDangling
  | depthMismatch
  | childIndexMismatch
  | elementOrderMismatch
  | textOwnerDangling
  | textSlotDuplicate
  | textRefDangling
  | textRefMismatch
  | textOrderMismatch
  | textLengthMismatch
  | limitExceeded
  | serialization
deriving DecidableEq, Repr

structure SourcePackageError where
  kind : ErrorKind
  detail : String
deriving DecidableEq, Repr

/-- The longest start of a detail that is at most 200 bytes long. -/
def truncateDetail (detail : String) : String :=
  .ofList ((detail.toList.inits.filter fun start => Utf8.byteLen start ≤ 200).getLastD [])

def SourcePackageError.new (kind : ErrorKind) (detail : String) : SourcePackageError :=
  ⟨kind, truncateDetail detail⟩

/-! ## Counts and limits -/

def recomputeCounts (records : List Record) : Counts where
  elements := (records.filterMap Record.element?).length
  textFragments := (records.filterMap Record.text?).length
  textChars := ((records.filterMap Record.text?).map (·.chars)).sum
  textBytes := ((records.filterMap Record.text?).map (·.bytes)).sum
  namespaceDeclarations :=
    ((records.filterMap Record.element?).map (·.namespaceDeclarations.len)).sum
  records := records.length

def compareCount (field : String) (declared actual : Nat) : Except SourcePackageError Unit :=
  if declared ≠ actual then
    .error (.new .countMismatch s!"{field}: declared {declared} != actual {actual}")
  else .ok ()

def compareCounts (declared actual : Counts) : Except SourcePackageError Unit := do
  compareCount "elements" declared.elements actual.elements
  compareCount "text_fragments" declared.textFragments actual.textFragments
  compareCount "text_chars" declared.textChars actual.textChars
  compareCount "text_bytes" declared.textBytes actual.textBytes
  compareCount "namespace_declarations" declared.namespaceDeclarations
    actual.namespaceDeclarations
  compareCount "records" declared.records actual.records

def ElementRecord.attributeCount (element : ElementRecord) : Nat :=
  element.attrs.len + element.namespaceDeclarations.len

def capped (value cap : Nat) (detail : String) : Except SourcePackageError Unit :=
  if value > cap then .error (.new .limitExceeded detail) else .ok ()

def enforceLimits (limits : Limits) (counts : Counts) (records : List Record) :
    Except SourcePackageError Unit := do
  capped counts.elements limits.maxNodes s!"elements {counts.elements} > max_nodes {limits.maxNodes}"
  capped counts.textFragments limits.maxTextFragments
    s!"text_fragments {counts.textFragments} > cap {limits.maxTextFragments}"
  capped counts.textBytes limits.maxTextBytes
    s!"text_bytes {counts.textBytes} > cap {limits.maxTextBytes}"
  capped counts.records limits.maxRecords s!"records {counts.records} > cap {limits.maxRecords}"
  let maxDepth := ((records.filterMap Record.element?).map (·.depth)).foldl max 0
  capped maxDepth limits.maxDepth s!"depth {maxDepth} > cap {limits.maxDepth}"
  records.zipIdx.forM fun (record, index) =>
    match record with
    | .element element =>
      let detail := s!"element {index} attributes+declarations {element.attributeCount} > cap "
      capped element.attributeCount limits.maxAttrsPerElement
        (detail ++ toString limits.maxAttrsPerElement)
    | .text _ => .ok ()

end LawNexus.SourcePackage
