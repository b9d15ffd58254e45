import LawNexus.Reader.Projection

/-!
# Wire tokens

The tokens of the closed vocabularies of `reader_contract`, and the parse of a token.
-/

namespace LawNexus.Reader

open Loops

/-- A `from_wire`. Who calls it does not look at the error. -/
def fromTokens {α : Type} (tokens : List (String × α)) (token : String) : Option α :=
  (tokens.find? (·.1 = token)).map (·.2)

theorem fromTokens_of_mem {α : Type} {tokens : List (String × α)} {token : String} {a : α}
    (hnd : (tokens.map (·.1)).Nodup) (h : (token, a) ∈ tokens) :
    fromTokens tokens token = some a := by
  unfold fromTokens
  rw [find?_key hnd h]
  rfl

namespace ReaderViewKind

def fromWire : String → Option ReaderViewKind := fromTokens [
  ("paragraph", .paragraph),
  ("residual", .residual),
  ("table", .table),
  ("row", .row),
  ("cell", .cell),
  ("note", .note)]

theorem fromWire_asStr (kind : ReaderViewKind) : fromWire kind.asStr = some kind := by
  apply fromTokens_of_mem (by simp)
  cases kind <;> simp [asStr]

end ReaderViewKind

namespace ReaderSegmentKind

def asStr : ReaderSegmentKind → String
  | .text => "text"
  | .derived => "derived"

def fromWire : String → Option ReaderSegmentKind :=
  fromTokens [("text", .text), ("derived", .derived)]

theorem fromWire_asStr (kind : ReaderSegmentKind) : fromWire kind.asStr = some kind := by
  apply fromTokens_of_mem (by simp)
  cases kind <;> simp [asStr]

end ReaderSegmentKind

namespace ReaderDerivedKind

def fromWire : String → Option ReaderDerivedKind :=
  fromTokens [("tab", .tab), ("line_break", .lineBreak), ("page_break", .pageBreak)]

theorem fromWire_asStr (kind : ReaderDerivedKind) : fromWire kind.asStr = some kind := by
  apply fromTokens_of_mem (by simp)
  cases kind <;> simp [asStr]

end ReaderDerivedKind

namespace ReaderSemantic

def asStr : ReaderSemantic → String
  | .body => "body"
  | .whitespace => "whitespace"
  | .fieldCode => "field_code"
  | .revisionInsertion => "revision_insertion"
  | .revisionDeletion => "revision_deletion"
  | .derivedSeparator => "derived_separator"
  | .empty => "empty"

def fromWire : String → Option ReaderSemantic := fromTokens [
  ("body", .body),
  ("whitespace", .whitespace),
  ("field_code", .fieldCode),
  ("revision_insertion", .revisionInsertion),
  ("revision_deletion", .revisionDeletion),
  ("derived_separator", .derivedSeparator),
  ("empty", .empty)]

theorem fromWire_asStr (semantic : ReaderSemantic) : fromWire semantic.asStr = some semantic := by
  apply fromTokens_of_mem (by simp)
  cases semantic <;> simp [asStr]

end ReaderSemantic

namespace ReaderReferenceType

def asStr : ReaderReferenceType → String
  | .noteReference => "note_reference"
  | .endnoteReference => "endnote_reference"
  | .commentReference => "comment_reference"
  | .annotationReference => "annotation_reference"
  | .field => "field"
  | .unknownWordmlElement => "unknown_wordml_element"
  | .foreignElement => "foreign_element"

def fromWire : String → Option ReaderReferenceType := fromTokens [
  ("note_reference", .noteReference),
  ("endnote_reference", .endnoteReference),
  ("comment_reference", .commentReference),
  ("annotation_reference", .annotationReference),
  ("field", .field),
  ("unknown_wordml_element", .unknownWordmlElement),
  ("foreign_element", .foreignElement)]

theorem fromWire_asStr (type : ReaderReferenceType) : fromWire type.asStr = some type := by
  apply fromTokens_of_mem (by simp)
  cases type <;> simp [asStr]

end ReaderReferenceType

namespace SegmentOrigin

def asStr : SegmentOrigin → String
  | .sourceFragment => "source_fragment"
  | .derived .tab => "derived:tab"
  | .derived .lineBreak => "derived:line_break"
  | .derived .pageBreak => "derived:page_break"

end SegmentOrigin

end LawNexus.Reader
