import LawNexus.CleanedWire.Fields
import LawNexus.CleanedWire.ReadBack

/-!
# Lines that read back

The reader finds in each rendered line what the writer put there.
-/

namespace LawNexus.CleanedWire

open Chars Loops Reader
open SourcePackage (Package TextSlot isHex64)

/-! ## The fields of a record -/

section

variable {fields : JsonFields} {key : String}

theorem recordString_string {value : String} (h : fields.Holds key (.string value)) :
    recordString fields key = .ok value := by
  unfold recordString
  rw [stringField_string h]
  rfl

theorem recordU64_number {n : Nat} (h : fields.Holds key (.number n)) (hn : n < 2 ^ 64) :
    recordU64 fields key = .ok n := by
  unfold recordU64
  rw [u64Field_number h hn]
  rfl

theorem recordBool_bool {flag : Bool} (h : fields.Holds key (.bool flag)) :
    recordBool fields key = .ok flag := by
  unfold recordBool
  rw [boolField_bool h]
  rfl

theorem recordStringArray_strings {values : List String} (h : fields.Holds key (.strings values)) :
    recordStringArray fields key = .ok values := by
  unfold recordStringArray
  rw [stringArrayField_strings h]
  rfl

theorem optRecordString_optString {value : Option String}
    (h : fields.Holds key (optString value)) : optRecordString fields key = .ok value := by
  unfold optRecordString
  rw [h]
  cases value with
  | none => rfl
  | some value =>
    have htrim := trim_render (fits_string value : Json.Fits 0 _)
    rw [show optString (some value) = .string value from rfl, orInvalid, orRefuse, orError_some,
      ok_bind, htrim, Json.string, renderCompact, unescape_write]
    simp [orInvalid, orRefuse, write_ne_null]

theorem recordToken_string {α : Type} {fromWire : String → Option α} {token : String} {a : α}
    (h : fields.Holds key (.string token)) (hwire : fromWire token = some a) :
    recordToken fromWire fields key = .ok a := by
  unfold recordToken
  rw [recordString_string h, ok_bind, hwire]
  rfl

theorem recordObject_obj {entries : List (String × Json)}
    (h : fields.Holds key (.obj entries)) (hentries : Readable entries) :
    recordObject fields key = .ok (fieldsOf entries) := by
  have htrim := trim_render (hentries.fits_obj hentries.fits)
  unfold recordObject
  rw [h, orInvalid, orRefuse, orError_some, ok_bind, htrim, parseFields_render hentries]

theorem hexField_string_eq {value : String} (h : fields.Holds key (.string value)) :
    hexField fields key = if isHex64 value then .ok value
      else refuse .hashShapeInvalid s!"{key} is not 64 lowercase hex" := by
  unfold hexField
  rw [stringField_string h, orRefuse, orError_some, ok_bind]
  cases isHex64 value <;> rfl

theorem hexField_string {value : String} (h : fields.Holds key (.string value))
    (hhex : isHex64 value = true) : hexField fields key = .ok value := by
  rw [hexField_string_eq h, if_pos hhex]

theorem optHexField_optString_eq {value : Option String}
    (h : fields.Holds key (optString value)) :
    optHexField fields key = if value.all isHex64 then .ok value
      else refuse .hashShapeInvalid s!"{key} is not 64 lowercase hex" := by
  unfold optHexField
  rw [h]
  cases value with
  | none => rfl
  | some value =>
    have htrim := trim_render (fits_string value : Json.Fits 0 _)
    rw [show optString (some value) = .string value from rfl, orRefuse, orError_some, ok_bind,
      htrim, Json.string, renderCompact, unescape_write, if_neg (write_ne_null _), Option.map_some,
      String.ofList_toList, orRefuse, orError_some, ok_bind, Option.all_some]
    cases isHex64 value <;> rfl

theorem optHexField_optString {value : Option String} (h : fields.Holds key (optString value))
    (hhex : ∀ hash ∈ value, isHex64 hash = true) : optHexField fields key = .ok value := by
  rw [optHexField_optString_eq h, if_pos ((Option.all_eq_true _ _).mpr hhex)]

theorem expectSchema_string {schema : String} (h : fields.Holds "schema" (.string schema)) :
    expectSchema fields schema = .ok () := by
  unfold expectSchema
  rw [stringField_string h]
  simp [orRefuse]

theorem expectVersion_number (h : fields.Holds "version" (.number CONTRACT_VERSION)) :
    expectVersion fields = .ok () := by
  unfold expectVersion
  rw [h, orRefuse, orError_some, ok_bind, trim_render (.number _ : Json.Fits 0 _), renderCompact]
  simp

theorem expectStringValue_string {value : String} (h : fields.Holds key (.string value)) :
    expectStringValue fields key value = .ok () := by
  unfold expectStringValue
  rw [stringField_string h, if_pos rfl]

theorem expectTrueValue_bool (h : fields.Holds key (.bool true)) :
    expectTrueValue fields key = .ok () := by
  unfold expectTrueValue
  rw [boolField_bool h, if_pos rfl]

theorem lineKind_string {kind : String} (h : fields.Holds "kind" (.string kind)) :
    lineKind fields = .ok kind := by
  unfold lineKind
  rw [stringField_string h]
  rfl

theorem countsField_number {n : Nat} (h : fields.Holds key (.number n)) (hn : n < 2 ^ 64) :
    countsField fields key = .ok n := by
  unfold countsField
  rw [u64Field_number h hn]
  rfl

end

/-! ## Views and references -/

theorem readable_flags (empty : Bool) : Readable [("empty", .bool empty)] := by
  refine ⟨by simp, ?_, by simp⟩
  exact List.forall_mem_singleton.mpr (plain_ofList rfl rfl)

theorem readable_view (view : ProjectedView) : Readable (viewJson view).entries := by
  have hflags : (Json.obj [("empty", .bool view.flags.empty)]).Fits 64 :=
    (readable_flags _).fits_obj (by simp)
  refine ⟨by simp [viewJson, Json.entries], ?_,
    by simp [viewJson, Json.entries, MAX_JSON_DEPTH, hflags]⟩
  simp only [viewJson, Json.entries, List.forall_mem_cons]
  iterate 10 refine ⟨plain_ofList rfl rfl, ?_⟩
  exact List.forall_mem_nil _

/-- A view reads back. -/
theorem reconstructView_view (view : ProjectedView) :
    reconstructView (fieldsOf (viewJson view).entries) = .ok view := by
  have hall := holds_fieldsOf (readable_view view)
  generalize fieldsOf (viewJson view).entries = fields at hall ⊢
  simp only [viewJson, Json.entries, List.forall_mem_cons] at hall
  obtain ⟨hchildren, helement, hflags, hid, -, hparent, hreferences, -, hsegments, hkind, -⟩ := hall
  have hempty := holds_fieldsOf (readable_flags view.flags.empty) _ (List.mem_singleton_self _)
  unfold reconstructView
  rw [recordString_string hid, ok_bind, recordToken_string hkind view.kind.fromWire_asStr, ok_bind,
    recordString_string helement, ok_bind, optRecordString_optString hparent, ok_bind,
    recordStringArray_strings hchildren, ok_bind, recordStringArray_strings hsegments, ok_bind,
    recordStringArray_strings hreferences, ok_bind,
    recordObject_obj hflags (readable_flags _), ok_bind,
    recordBool_bool hempty, ok_bind]

theorem readable_reference (reference : ProjectedReference) :
    Readable (referenceJson reference).entries := by
  refine ⟨by simp [referenceJson, Json.entries], ?_, by simp [referenceJson, Json.entries]⟩
  simp only [referenceJson, Json.entries, List.forall_mem_cons]
  iterate 9 refine ⟨plain_ofList rfl rfl, ?_⟩
  exact List.forall_mem_nil _

/-- A reference reads back. -/
theorem reconstructReference_reference {reference : ProjectedReference}
    (hordinal : reference.ordinal < 2 ^ 64) (hpos : reference.sourcePos < 2 ^ 64) :
    reconstructReference (fieldsOf (referenceJson reference).entries) = .ok reference := by
  have hall := holds_fieldsOf (readable_reference reference)
  generalize fieldsOf (referenceJson reference).entries = fields at hall ⊢
  simp only [referenceJson, Json.entries, List.forall_mem_cons] at hall
  obtain ⟨helement, hid, -, hnumber, htype, hresolved, -, hsource, hview, -⟩ := hall
  unfold reconstructReference
  rw [recordString_string hid, ok_bind, recordString_string hview, ok_bind,
    recordU64_number hnumber hordinal, ok_bind,
    recordToken_string htype reference.referenceType.fromWire_asStr, ok_bind,
    recordString_string helement, ok_bind, recordU64_number hsource hpos, ok_bind,
    recordBool_bool hresolved, ok_bind]

/-! ## Segments -/

/-- What the writer has checked of a derived segment. -/
def Provenanced (segment : ProjectedSegment) : Prop :=
  segment.origin ≠ .sourceFragment →
    segment.fragmentRef = none ∧ segment.slot = none ∧ segment.span = none

def spanValue (span : Option ReaderFragmentSpan) : Json :=
  span.elim .null fun span => spanJson span.fragment span.start span.stop

/-- The members of a segment whose provenance is in order. -/
def segmentEntries (segment : ProjectedSegment) (text : List Char) : List (String × Json) := [
  ("chars", .number text.length),
  ("contextual", .bool segment.contextual),
  ("element_ref", .string segment.elementRef),
  ("fragment_ref", optString segment.fragmentRef),
  ("id", .string segment.id),
  ("kind", .string KIND_SEGMENT),
  ("ordinal", .number segment.ordinal),
  ("origin", .string segment.origin.asStr),
  ("output_end", .number segment.outputEnd),
  ("output_start", .number segment.outputStart),
  ("schema", .string SEGMENT_SCHEMA),
  ("segment_kind", .string segment.segmentKind.asStr),
  ("semantic", .string segment.semantic.asStr),
  ("slot", optString (segment.slot.map (·.asStr))),
  ("source_pos", .number segment.sourcePos),
  ("span", spanValue segment.span),
  ("text", .str text),
  ("text_bytes", .number (Utf8.byteLen text)),
  ("text_chars", .number text.length),
  ("view", .string segment.view)]

theorem segmentJson_eq {segment : ProjectedSegment} (h : Provenanced segment) (text : List Char) :
    segmentJson segment text = .obj (segmentEntries segment text) := by
  unfold segmentJson segmentEntries spanValue
  by_cases hsource : segment.origin = .sourceFragment
  · simp only [hsource, if_true]
  · obtain ⟨hfragment, hslot, hspan⟩ := h hsource
    simp only [hsource, hfragment, hslot, hspan, if_false]
    rfl

theorem readable_span (span : ReaderFragmentSpan) :
    Readable (spanJson span.fragment span.start span.stop).entries := by
  refine ⟨by simp [spanJson, Json.entries], ?_, by simp [spanJson, Json.entries]⟩
  simp only [spanJson, Json.entries, List.forall_mem_cons]
  iterate 3 refine ⟨plain_ofList rfl rfl, ?_⟩
  exact List.forall_mem_nil _

theorem fits_spanValue (span : Option ReaderFragmentSpan) : (spanValue span).Fits 64 := by
  cases span with
  | none => exact .null
  | some span =>
    apply (readable_span span).fits_obj
    simp [spanJson, Json.entries]

theorem readable_segment (segment : ProjectedSegment) (text : List Char) :
    Readable (segmentEntries segment text) := by
  have hspan := fits_spanValue segment.span
  refine ⟨by simp [segmentEntries], ?_, by simp [segmentEntries, MAX_JSON_DEPTH, hspan]⟩
  simp only [segmentEntries, List.forall_mem_cons]
  iterate 20 refine ⟨plain_ofList rfl rfl, ?_⟩
  exact List.forall_mem_nil _

/-- The numbers of a span fit in a word. -/
def SpanFits (span : Option ReaderFragmentSpan) : Prop :=
  ∀ s ∈ span, s.start < 2 ^ 64 ∧ s.stop < 2 ^ 64

theorem parseSegmentSpan_span {fields : JsonFields} {span : Option ReaderFragmentSpan}
    (h : fields.Holds "span" (spanValue span)) (hspan : SpanFits span) :
    parseSegmentSpan fields = .ok span := by
  unfold parseSegmentSpan
  rw [h, orInvalid, orRefuse, orError_some, ok_bind, trim_render (fits_spanValue span)]
  cases span with
  | none => rfl
  | some span =>
    obtain ⟨hstart, hstop⟩ := hspan span rfl
    have hall := holds_fieldsOf (readable_span span)
    have hparse := parseFields_render (readable_span span)
    rw [if_neg (by simp [spanValue, spanJson, renderCompact_obj])]
    rw [show renderCompact (spanValue (some span)) =
      renderCompact (.obj (spanJson span.fragment span.start span.stop).entries) from rfl, hparse]
    generalize fieldsOf (spanJson span.fragment span.start span.stop).entries = fields at hall ⊢
    simp only [spanJson, Json.entries, List.forall_mem_cons] at hall
    obtain ⟨hend, hfragment, hbegin, -⟩ := hall
    rw [ok_bind, recordString_string hfragment, ok_bind, recordU64_number hbegin hstart, ok_bind,
      recordU64_number hend hstop]
    rfl

theorem asStr_derived (kind : ReaderDerivedKind) :
    (SegmentOrigin.derived kind).asStr = "derived:" ++ kind.asStr := by
  cases kind <;> simp [SegmentOrigin.asStr, ReaderDerivedKind.asStr]

theorem parseSegmentOrigin_origin {fields : JsonFields} {origin : SegmentOrigin}
    (h : fields.Holds "origin" (.string origin.asStr)) :
    parseSegmentOrigin fields = .ok origin := by
  unfold parseSegmentOrigin
  rw [recordString_string h, ok_bind]
  cases origin with
  | sourceFragment => rfl
  | derived kind =>
    have hne : (SegmentOrigin.derived kind).asStr ≠ "source_fragment" := by
      cases kind <;> simp [SegmentOrigin.asStr]
    have hcut : "derived:".toList.isPrefixOf? (SegmentOrigin.derived kind).asStr.toList =
        some kind.asStr.toList := by
      rw [isPrefixOf?_eq_some, asStr_derived, String.toList_append]
    rw [if_neg hne, hcut]
    dsimp only
    rw [String.ofList_toList, ReaderDerivedKind.fromWire_asStr]
    rfl

theorem parseTextSlot_asStr (slot : TextSlot) : parseTextSlot slot.asStr = .ok slot := by
  unfold parseTextSlot
  rw [fromTokens_of_mem (a := slot) (by simp) (by cases slot <;> simp [TextSlot.asStr])]
  rfl

theorem segmentSlot_slot {fields : JsonFields} {slot : Option TextSlot}
    (h : fields.Holds "slot" (optString (slot.map (·.asStr)))) :
    segmentSlot fields = .ok slot := by
  unfold segmentSlot
  rw [optRecordString_optString h, ok_bind]
  cases slot with
  | none => rfl
  | some slot =>
    simp only [Option.map_some, parseTextSlot_asStr]
    rfl

/-- A segment as it is read: its text is beside it when it has a fragment. -/
def readSegment (segment : ProjectedSegment) (text : List Char) : ProjectedSegment :=
  { segment with
    chars := text.length
    text := if segment.origin = .sourceFragment then none else some text }

def inlineText (segment : ProjectedSegment) (text : List Char) : SegmentText where
  segmentId := segment.id
  fragmentRef := segment.fragmentRef
  text := text
  chars := text.length
  textBytes := Utf8.byteLen text

/-- The numbers of a segment fit in a word. -/
structure SegmentFits (segment : ProjectedSegment) : Prop where
  ordinal : segment.ordinal < 2 ^ 64
  outputStart : segment.outputStart < 2 ^ 64
  outputEnd : segment.outputEnd < 2 ^ 64
  sourcePos : segment.sourcePos < 2 ^ 64
  span : SpanFits segment.span

/-- A segment reads back, with its text beside it. -/
theorem reconstructSegment_segment {segment : ProjectedSegment} {text : List Char}
    (h : SegmentFits segment) (hbytes : Utf8.byteLen text < 2 ^ 64) :
    reconstructSegment (fieldsOf (segmentEntries segment text)) =
      .ok (readSegment segment text, inlineText segment text) := by
  have hchars : text.length < 2 ^ 64 := Nat.lt_of_le_of_lt (length_le_byteLen text) hbytes
  have hall := holds_fieldsOf (readable_segment segment text)
  generalize fieldsOf (segmentEntries segment text) = fields at hall ⊢
  simp only [segmentEntries, List.forall_mem_cons] at hall
  obtain ⟨hlength, hcontextual, helement, hfragment, hid, -, hordinal, horigin, hend, hstart, -,
    hkind, hsemantic, hslot, hpos, hspan, htext, htextBytes, htextChars, hview, -⟩ := hall
  have htextRead : recordString fields "text" = .ok (.ofList text) := by
    unfold recordString
    rw [stringField_str htext]
    rfl
  unfold reconstructSegment
  rw [recordString_string hid, ok_bind, recordString_string hview, ok_bind,
    recordU64_number hordinal h.ordinal, ok_bind,
    recordToken_string hkind segment.segmentKind.fromWire_asStr, ok_bind,
    optRecordString_optString hfragment, ok_bind, segmentSlot_slot hslot, ok_bind,
    parseSegmentSpan_span hspan h.span, ok_bind,
    recordU64_number hstart h.outputStart, ok_bind, recordU64_number hend h.outputEnd, ok_bind,
    recordU64_number hlength hchars, ok_bind, parseSegmentOrigin_origin horigin, ok_bind,
    recordToken_string hsemantic segment.semantic.fromWire_asStr, ok_bind,
    recordBool_bool hcontextual, ok_bind, recordString_string helement, ok_bind,
    recordU64_number hpos h.sourcePos, ok_bind, htextRead, ok_bind,
    recordU64_number htextChars hchars, ok_bind, recordU64_number htextBytes hbytes, ok_bind,
    String.toList_ofList]
  rfl

end LawNexus.CleanedWire
