import LawNexus.Forest.Climb
import LawNexus.SourcePackage.Records
import LawNexus.Texts

/-!
# The reader contract

The vocabularies of `reader_contract`, the roles of the elements, and the index over the records.
-/

namespace LawNexus.Reader

open Forest SourcePackage

abbrev FragmentRef := String
abbrev ElementRef := String

/-! ## Vocabularies -/

inductive ReaderViewKind where
  | paragraph
  | residual
  | table
  | row
  | cell
  | note
deriving DecidableEq, Repr

namespace ReaderViewKind

def asStr : ReaderViewKind → String
  | .paragraph => "paragraph"
  | .residual => "residual"
  | .table => "table"
  | .row => "row"
  | .cell => "cell"
  | .note => "note"

def isPrimary : ReaderViewKind → Bool
  | .paragraph | .residual => true
  | .table | .row | .cell | .note => false

end ReaderViewKind

inductive ReaderSegmentKind where
  | text
  | derived
deriving DecidableEq, Repr

inductive ReaderDerivedKind where
  | tab
  | lineBreak
  | pageBreak
deriving DecidableEq, Repr

namespace ReaderDerivedKind

def asStr : ReaderDerivedKind → String
  | .tab => "tab"
  | .lineBreak => "line_break"
  | .pageBreak => "page_break"

def literal : ReaderDerivedKind → List Char
  | .tab => ['\t']
  | .lineBreak => ['\n']
  | .pageBreak => ['\n']

end ReaderDerivedKind

inductive ReaderSemantic where
  | body
  | whitespace
  | fieldCode
  | revisionInsertion
  | revisionDeletion
  | derivedSeparator
  | empty
deriving DecidableEq, Repr

inductive ReaderReferenceType where
  | noteReference
  | endnoteReference
  | commentReference
  | annotationReference
  | field
  | unknownWordmlElement
  | foreignElement
deriving DecidableEq, Repr

/-! ## Errors -/

inductive ContractErrorKind where
  | emptyOrInverted
  | outOfBounds
  | notCharBoundary
  | unknownToken
  | malformedIndex
  | partitionIncomplete
deriving DecidableEq, Repr

structure ContractError where
  kind : ContractErrorKind
  detail : String
deriving DecidableEq, Repr

def malformedIndex {α : Type} (detail : String) : Except ContractError α :=
  .error ⟨.malformedIndex, detail⟩

/-! ## Spans -/

structure ReaderFragmentSpan where
  fragment : FragmentRef
  start : Nat
  stop : Nat
deriving DecidableEq, Repr

structure ReaderViewKey where
  kind : ReaderViewKind
  elementRef : ElementRef
deriving DecidableEq, Repr

def checkFragmentSpan (value : List Char) (span : ReaderFragmentSpan) :
    Except ContractError Unit :=
  if span.start ≥ span.stop then
    .error ⟨.emptyOrInverted,
      s!"span on {span.fragment} is empty or inverted: start {span.start} >= end {span.stop}"⟩
  else if span.stop > Utf8.byteLen value then
    let length := Utf8.byteLen value
    .error ⟨.outOfBounds,
      s!"span on {span.fragment} ends at {span.stop} beyond decoded length {length}"⟩
  else if !Utf8.isCharBoundary value span.start || !Utf8.isCharBoundary value span.stop then
    .error ⟨.notCharBoundary,
      s!"span on {span.fragment} [{span.start}, {span.stop}) is not on a UTF-8 code point boundary"⟩
  else .ok ()

def wholeFragmentSpan (fragment : FragmentRef) (value : List Char) : ReaderFragmentSpan :=
  ⟨fragment, 0, Utf8.byteLen value⟩

/-- The span over a whole fragment is in order where the fragment is not empty. -/
theorem checkFragmentSpan_whole_iff {fragment : FragmentRef} {value : List Char} :
    checkFragmentSpan value (wholeFragmentSpan fragment value) = .ok () ↔ value ≠ [] := by
  have hzero : Utf8.isCharBoundary value 0 = true :=
    Utf8.isCharBoundary_iff.mpr (Utf8.isBoundary_zero value)
  have hlen : Utf8.isCharBoundary value (Utf8.byteLen value) = true :=
    Utf8.isCharBoundary_iff.mpr (Utf8.isBoundary_of_eq (List.append_nil value).symm rfl)
  unfold checkFragmentSpan wholeFragmentSpan
  dsimp only
  rw [hzero, hlen]
  by_cases hvalue : value = []
  · subst hvalue
    simp
  · have hpos := Utf8.byteLen_pos hvalue
    rw [if_neg (by omega), if_neg (by omega), if_neg (by simp)]
    exact iff_of_true rfl hvalue

/-! ## Roles -/

def WORDML_NAMESPACES : List String :=
  ["http://schemas.microsoft.com/office/word/2003/wordml",
    "http://schemas.openxmlformats.org/wordprocessingml/2006/main",
    "http://purl.oclc.org/ooxml/wordprocessingml/main"]

def NOTE_DEF_LOCALS : List String := ["footnote", "endnote"]

def NOTE_REFERENCE_LOCALS : List String :=
  ["footnoteReference", "endnoteReference", "commentReference", "annotationRef"]

def FIELD_LOCALS : List String := ["fldChar", "instrText", "fldSimple"]

def CONTROL_LOCALS : List String := ["tab", "br", "cr"]

def KNOWN_WORDML_LOCALS : List String :=
  ["wordDocument", "body", "sectPr", "p", "r", "t", "br", "cr", "tab", "lastRenderedPageBreak",
    "tbl", "tr", "tc", "hlink", "hyperlink", "fldChar", "instrText", "fldSimple", "footnote",
    "endnote", "footnoteReference", "endnoteReference", "annotationRef", "commentReference",
    "bookmarkStart", "bookmarkEnd", "styles", "style", "name", "view", "docPr", "titlePg", "hdr",
    "ftr", "pict", "object", "drawing", "binData", "tblGrid", "gridCol", "tblW", "tblInd",
    "tblBorders", "tblLayout", "tblCellMar", "tcW", "tcBorders", "tcMar", "trHeight", "tblHeader",
    "pStyle", "rStyle", "outlineLvl", "jc", "spacing", "ind", "b", "i", "u", "sz", "color",
    "rFonts", "vertAlign", "vAlign", "pBdr", "shd", "widowControl", "autoSpaceDE", "autoSpaceDN",
    "highlight", "ins", "del"]

def PROPERTY_CONTAINER_SUFFIX : String := "Pr"

def PROPERTY_CONTAINER_LOCALS : List String := ["tblPrEx"]

inductive ReaderRole where
  | paragraph
  | table
  | row
  | cell
  | note
  | control
  | noteReference
  | field
  | revisionInsertion
  | revisionDeletion
  | context
  | unknown
  | foreign
deriving DecidableEq, Repr

/-- The namespace and the local name of a Clark tag. -/
def clarkParts (clarkTag : String) : Option (String × String) :=
  match clarkTag.toList with
  | '\x7b' :: rest =>
    match rest.span (· ≠ '\x7d') with
    | (ns, _ :: name) => some (.ofList ns, .ofList name)
    | (_, []) => none
  | _ => none

def clarkNamespace (clarkTag : String) : Option String := (clarkParts clarkTag).map (·.1)

def localName (clarkTag : String) : String := ((clarkParts clarkTag).map (·.2)).getD clarkTag

def isWordml (clarkTag : String) : Bool := (clarkNamespace clarkTag).any WORDML_NAMESPACES.contains

def isPropertyContainer (name : String) : Bool :=
  PROPERTY_CONTAINER_SUFFIX.toList.isSuffixOf name.toList || PROPERTY_CONTAINER_LOCALS.contains name

def isKnownWordmlLocal (name : String) : Bool :=
  KNOWN_WORDML_LOCALS.contains name || isPropertyContainer name

def roleOfTag (clarkTag : String) : ReaderRole :=
  if !isWordml clarkTag then .foreign
  else
    let name := localName clarkTag
    if name = "p" then .paragraph
    else if name = "tbl" then .table
    else if name = "tr" then .row
    else if name = "tc" then .cell
    else if NOTE_DEF_LOCALS.contains name then .note
    else if CONTROL_LOCALS.contains name then .control
    else if NOTE_REFERENCE_LOCALS.contains name then .noteReference
    else if FIELD_LOCALS.contains name then .field
    else if name = "ins" then .revisionInsertion
    else if name = "del" then .revisionDeletion
    else if isKnownWordmlLocal name then .context
    else .unknown

/-- The first attribute with this local name. -/
def attrLocal (attrs : BTreeMap) (name : String) : Option String :=
  (attrs.entries.find? fun entry => localName entry.1 = name).map (·.2)

def controlDerivedKind (clarkTag : String) (attrs : BTreeMap) : Option ReaderDerivedKind :=
  if !isWordml clarkTag then none
  else
    let name := localName clarkTag
    if name = "tab" then some .tab
    else if name = "cr" then some .lineBreak
    else if name = "br" then
      if attrLocal attrs "type" = some "page" then some .pageBreak else some .lineBreak
    else none

def referenceTypeOf (clarkTag : String) : Option ReaderReferenceType :=
  if !isWordml clarkTag then some .foreignElement
  else
    let name := localName clarkTag
    if name = "footnoteReference" then some .noteReference
    else if name = "endnoteReference" then some .endnoteReference
    else if name = "commentReference" then some .commentReference
    else if name = "annotationRef" then some .annotationReference
    else if name = "fldChar" ∨ name = "instrText" ∨ name = "fldSimple" then some .field
    else if isKnownWordmlLocal name then none
    else some .unknownWordmlElement

end LawNexus.Reader
