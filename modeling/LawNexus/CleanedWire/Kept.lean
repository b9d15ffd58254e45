import LawNexus.CleanedWire.Exported
import LawNexus.Reader.Verified

/-!
# No text is lost

An export holds each text of its package once, and the projection that was built from a package
reads back as it was.
-/

namespace LawNexus.CleanedWire

open Chars Loops Reader
open Reader.Projection (Stages buildProjection LinksAgree linkOf)
open SourcePackage (Package Record TextRecord Limits SerdeJson verifyPackage)

/-! ## The texts of the fragments -/

/-- The texts that a reader finds, by their fragments. -/
def fragmentTexts (texts : List SegmentText) : List (FragmentRef × List Char) :=
  texts.filterMap fun inline => inline.fragmentRef.map fun fragment => (fragment, inline.text)

def valueOf (package : Package) (fragment : FragmentRef) : List Char :=
  ((textIndex package fragment).map (·.value)).getD []

section

variable {package : Package}

theorem textIndex_eq_some {id : FragmentRef} {record : TextRecord}
    (h : textIndex package id = some record) : record ∈ textRecords package ∧ record.id = id :=
  ⟨List.mem_reverse.mp (List.mem_of_find?_eq_some h), by simpa using List.find?_some h⟩

theorem textIndex_of_mem (hnodup : ((textRecords package).map (·.id)).Nodup) {record : TextRecord}
    (h : record ∈ textRecords package) : textIndex package record.id = some record := by
  obtain ⟨found, hfound⟩ : ∃ found, textIndex package record.id = some found := by
    rw [← Option.isSome_iff_exists, textIndex, List.find?_isSome]
    exact ⟨record, List.mem_reverse.mpr h, by simp⟩
  obtain ⟨hmem, hid⟩ := textIndex_eq_some hfound
  rw [hfound, List.inj_on_of_nodup_map hnodup hmem h hid]

theorem fragmentTexts_inlineText {segments : List ProjectedSegment} {texts : List (List Char)}
    (h : List.Forall₂ (fun segment text => resolveText (textIndex package) segment = .ok text)
      segments texts) :
    fragmentTexts (segments.zipWith inlineText texts) =
      (attributed segments).map fun fragment => (fragment, valueOf package fragment) := by
  unfold fragmentTexts attributed sourceSegments
  induction h with
  | nil => rfl
  | @cons segment text segments texts hresolve _ ih =>
    rw [List.zipWith_cons_cons]
    rcases resolveText_eq_ok_iff.mp hresolve with
      ⟨hsource, -, fragment, record, hfragment, hrecord, -, -, rfl⟩ | ⟨hderived, -, hfragment, -⟩
    · rw [List.filter_cons_of_pos (by simp [hsource]), List.filterMap_cons_some hfragment,
        List.map_cons, ← ih]
      apply List.filterMap_cons_some
      simp [inlineText, hfragment, valueOf, hrecord]
    · rw [List.filter_cons_of_neg (by simp [hderived]), ← ih]
      apply List.filterMap_cons_none
      simp [inlineText, hfragment]

theorem attributed_perm {segments : List ProjectedSegment} {texts : List (List Char)}
    (hnodup : ((textRecords package).map (·.id)).Nodup)
    (h : List.Forall₂ (fun segment text => resolveText (textIndex package) segment = .ok text)
      segments texts)
    (hattributed : ∀ text ∈ textRecords package, (attributed segments).count text.id = 1) :
    (attributed segments).Perm ((textRecords package).map (·.id)) := by
  have hmem : ∀ fragment ∈ attributed segments, fragment ∈ (textRecords package).map (·.id) := by
    intro fragment hfragment
    obtain ⟨segment, hsegment, hof⟩ := List.mem_filterMap.mp hfragment
    obtain ⟨hsegment, hsource⟩ := List.mem_filter.mp hsegment
    obtain ⟨text, -, hresolve⟩ := (forall₂_partner h).1 segment hsegment
    rcases resolveText_eq_ok_iff.mp hresolve with
      ⟨-, -, fragment', record, hfragment', hrecord, -⟩ | ⟨hderived, -⟩
    · obtain rfl := Option.some.inj (hof.symm.trans hfragment')
      obtain ⟨hmem, rfl⟩ := textIndex_eq_some hrecord
      exact List.mem_map_of_mem hmem
    · exact absurd (of_decide_eq_true hsource) hderived
  refine (List.perm_ext_iff_of_nodup ?_ hnodup).mpr fun fragment => ⟨hmem fragment, fun hid => ?_⟩
  · rw [List.nodup_iff_count_le_one]
    intro fragment
    by_cases hfragment : fragment ∈ attributed segments
    · obtain ⟨record, hrecord, rfl⟩ := List.mem_map.mp (hmem fragment hfragment)
      exact (hattributed record hrecord).le
    · exact (List.count_eq_zero_of_not_mem hfragment).trans_le (Nat.zero_le 1)
  · obtain ⟨record, hrecord, rfl⟩ := List.mem_map.mp hid
    rw [← List.count_pos_iff, hattributed record hrecord]
    exact Nat.one_pos

theorem fragmentTexts_perm {sha256 : Sha256} {projection : ReaderProjection}
    {completion : WireCompletion} {limits : WireLimits} {texts : List (List Char)}
    (hnodup : ((textRecords package).map (·.id)).Nodup)
    (h : Writable sha256 package projection completion limits texts) :
    (fragmentTexts (projection.segments.zipWith inlineText texts)).Perm
      ((textRecords package).map fun record => (record.id, record.value)) := by
  have hvalues : (textRecords package).map (fun record => (record.id, record.value)) =
      ((textRecords package).map (·.id)).map fun id => (id, valueOf package id) := by
    rw [List.map_map]
    refine List.map_congr_left fun record hrecord => ?_
    simp [valueOf, textIndex_of_mem hnodup hrecord]
  rw [fragmentTexts_inlineText h.resolves, hvalues]
  exact (attributed_perm hnodup h.resolves h.attributes).map _

end

/-- A reader of an export has each text of the package, and once. -/
theorem lossless_export (sha256 : Sha256) (package : Package) (projection : ReaderProjection)
    (completion : WireCompletion) (limits : WireLimits) (hlimits : limits.Fits)
    (hbytes : package.manifest.source.bytes < 2 ^ 64) (hfits : ProjectionFits projection)
    (hnodup : ((textRecords package).map (·.id)).Nodup) :
    Answers (fun read => (fragmentTexts read.inlineTexts).Perm
        ((textRecords package).map fun record => (record.id, record.value)))
      (do
        let text ← exportCleanedProjection sha256 package projection completion limits
        readCleanedWire sha256 text) := by
  refine (answers_export sha256 package projection completion limits hlimits hbytes hfits).bind ?_
  rintro text ⟨texts, hwritable, hread⟩
  rw [hread]
  exact answers_ok (fragmentTexts_perm hnodup hwritable)

namespace Sample

/-! ### Two paragraphs -/

open SourcePackage.Sample (signed)
open Reader.Projection.Sample (paragraphs)

def straight : Package := { signed with records := paragraphs "t0" "t1" }

def paragraph (id : ViewId) (element : ElementRef) (segment : SegmentId) : ProjectedView :=
  ⟨id, .paragraph, element, none, [], [segment], [], ⟨false⟩⟩

def letter (id : SegmentId) (view : ViewId) (fragment : FragmentRef) (element : ElementRef)
    (pos : Nat) : ProjectedSegment where
  id
  view
  ordinal := 0
  segmentKind := .text
  fragmentRef := some fragment
  slot := some .text
  span := some ⟨fragment, 0, 1⟩
  outputStart := 0
  outputEnd := 1
  chars := 1
  origin := .sourceFragment
  semantic := .body
  contextual := false
  elementRef := element
  sourcePos := pos
  text := none

def letters : ReaderProjection where
  views := [paragraph "v0" "e1" "s0", paragraph "v1" "e2" "s1"]
  segments := [letter "s0" "v0" "t0" "e1" 1, letter "s1" "v1" "t1" "e2" 2]
  references := []
  contentHash := none

theorem fits_letters : ProjectionFits letters where
  segments := by
    simp only [letters, List.forall_mem_cons]
    refine ⟨?_, ?_, List.forall_mem_nil _⟩ <;> constructor <;> simp [letter, SpanFits]
  references := List.forall_mem_nil _

def lettersInput : List UInt8 :=
  Utf8.bytes (renderCompact policiesJson ++ (recordLines letters [['a'], ['b']]).flatten)

def lettersDigest : List UInt8 :=
  [108, 144, 40, 85, 152, 7, 52, 148, 64, 193, 212, 125, 46, 168, 105, 192, 52, 164, 36, 153, 115,
    190, 130, 218, 150, 207, 192, 189, 231, 133, 34, 22]

def lettersRootInput : List UInt8 :=
  Utf8.bytes (manifestInput (renderCompact (manifestJson straight limits))
    (SourcePackage.hexLower lettersDigest)
    (footerBody .complete (cleanedCounts letters [['a'], ['b']])))

def lettersRootDigest : List UInt8 :=
  [157, 102, 221, 40, 199, 3, 169, 23, 33, 59, 81, 79, 130, 158, 194, 167, 19, 196, 219, 123, 2,
    226, 29, 25, 12, 116, 222, 63, 61, 2, 15, 229]

def lettersSha256 : Sha256 := fun bytes =>
  if bytes = lettersInput then ⟨lettersDigest, rfl⟩
  else if bytes = lettersRootInput then ⟨lettersRootDigest, rfl⟩
  else ⟨List.replicate 32 0, List.length_replicate⟩

theorem letters_kept : Answers (fun read => (fragmentTexts read.inlineTexts).Perm
      ((textRecords straight).map fun record => (record.id, record.value)))
    (do
      let text ← exportCleanedProjection lettersSha256 straight letters .complete limits
      readCleanedWire lettersSha256 text) :=
  lossless_export lettersSha256 straight letters .complete limits fits_limits (by decide)
    fits_letters (by decide)

end Sample

/-! ## Built projections -/

section

variable {package : Package} {p : ReaderProjection} {segment : ProjectedSegment}

theorem textIndex_eq_text {index : ReaderRecordIndex}
    (h : ReaderRecordIndex.new package.records = .ok index) (id : FragmentRef) :
    textIndex package id = index.text id := by
  have htexts : index.texts = textRecords package := (ReaderRecordIndex.new_eq_ok h).2
  have hnodup : ((textRecords package).map (·.id)).Nodup := htexts ▸ index.nodup_texts
  apply Option.ext
  intro record
  rw [ReaderRecordIndex.text_eq_some_iff, htexts]
  constructor
  · exact textIndex_eq_some
  · rintro ⟨hmem, rfl⟩
    exact textIndex_of_mem hnodup hmem

/-- A segment that was built says what is read of it. -/
theorem readSegment_eq (stages : Stages package.records p) (hs : segment ∈ p.segments)
    {text : List Char} (h : resolveText (textIndex package) segment = .ok text) :
    readSegment segment text = segment := by
  obtain ⟨i, view, event, -, -, -, hrenders⟩ := stages.filled_spec.exists_event hs
  have hfields : segment.chars = text.length ∧
      segment.text = if segment.origin = .sourceFragment then none else some text := by
    cases event with
    | fragment id slot owner key =>
      obtain ⟨x, semantic, pos, hx, -, -, -, heq⟩ := hrenders
      have hsource : segment.origin = .sourceFragment := by rw [heq]
      have hid : segment.fragmentRef = some id := by rw [heq]
      have hchars : segment.chars = x.value.length := by rw [heq]
      have htext : segment.text = none := by rw [heq]
      rcases resolveText_eq_ok_iff.mp h with
        ⟨-, -, fragment, record, hfragment, hrecord, -, -, rfl⟩ | ⟨hderived, -⟩
      · obtain rfl := Option.some.inj (hid.symm.trans hfragment)
        rw [textIndex_eq_text stages.index_eq, hx] at hrecord
        obtain rfl := Option.some.inj hrecord
        exact ⟨hchars, by rw [htext, if_pos hsource]⟩
      · exact absurd hsource hderived
    | control element kind key =>
      obtain ⟨pos, -, heq⟩ := hrenders
      have hderived : segment.origin ≠ .sourceFragment := by
        rw [heq]
        simp
      have hchars : segment.chars = kind.literal.length := by rw [heq]
      have htext : segment.text = some kind.literal := by rw [heq]
      rcases resolveText_eq_ok_iff.mp h with ⟨hsource, -⟩ | ⟨-, -, -, -, -, hliteral⟩
      · exact absurd hsource hderived
      · obtain rfl := Option.some.inj (htext.symm.trans hliteral)
        exact ⟨hchars, by rw [htext, if_neg hderived]⟩
    | reference element type key => exact hrenders.elim
  unfold readSegment
  rw [← hfields.2, ← hfields.1]

/-- What was built reads back. -/
theorem readBack_projection (stages : Stages package.records p) {sha256 : Sha256}
    {completion : WireCompletion} {limits : WireLimits} {texts : List (List Char)}
    (h : List.Forall₂ (fun segment text => resolveText (textIndex package) segment = .ok text)
      p.segments texts) : (readBack sha256 package p completion limits texts).projection = p := by
  have hsegments : p.segments.zipWith readSegment texts = p.segments := by
    have hall : ∀ segment ∈ p.segments, ∀ text,
        resolveText (textIndex package) segment = .ok text → readSegment segment text = segment :=
      fun segment hs text => readSegment_eq stages hs
    generalize p.segments = segments at h hall
    induction h with
    | nil => rfl
    | cons hresolve _ ih =>
      rw [List.forall_mem_cons] at hall
      rw [List.zipWith_cons_cons, hall.1 _ hresolve, ih hall.2]
  calc (readBack sha256 package p completion limits texts).projection
      = ⟨p.views, p.segments.zipWith readSegment texts, p.references, none⟩ := rfl
    _ = ⟨p.views, p.segments, p.references, p.contentHash⟩ := by
        rw [hsegments, stages.contentHash_eq]
    _ = p := rfl

/-- Where the links agree with the texts, each segment that was built has a text. -/
theorem exists_resolveText (stages : Stages package.records p) (hagree : LinksAgree stages.index)
    (hs : segment ∈ p.segments) :
    ∃ text, resolveText (textIndex package) segment = .ok text := by
  obtain ⟨i, view, event, -, -, -, hrenders⟩ := stages.filled_spec.exists_event hs
  cases event with
  | fragment id slot owner key =>
    obtain ⟨x, semantic, pos, hx, -, -, -, heq⟩ := hrenders
    have hsource : segment.origin = .sourceFragment := by rw [heq]
    have hkind : segment.segmentKind = .text := by rw [heq]
    have hid : segment.fragmentRef = some id := by rw [heq]
    obtain ⟨slot', key', hlink, hslot, -⟩ := stages.exists_link hs hid
    obtain ⟨record, hrecord, hof⟩ := hagree _ hlink
    simp only [Prod.mk.injEq] at hof
    obtain ⟨rfl, howner, rfl⟩ := hof
    have hindex := ReaderRecordIndex.text_eq_some_iff.mpr ⟨hrecord, rfl⟩
    rw [← textIndex_eq_text stages.index_eq] at hindex
    exact ⟨record.value, resolveText_eq_ok_iff.mpr (.inl ⟨hsource, hkind, record.id, record, hid,
      hindex, howner, hslot.symm, rfl⟩)⟩
  | control element kind key =>
    obtain ⟨pos, -, heq⟩ := hrenders
    refine ⟨kind.literal, resolveText_eq_ok_iff.mpr (.inr ?_)⟩
    rw [heq]
    exact ⟨by simp, rfl, rfl, rfl, rfl, rfl⟩
  | reference element type key => exact hrenders.elim

theorem attributed_built (stages : Stages package.records p) :
    attributed p.segments = p.segments.filterMap (·.fragmentRef) := by
  unfold attributed sourceSegments
  rw [List.filterMap_filter]
  refine List.filterMap_congr fun segment hs => ?_
  obtain ⟨i, view, event, -, -, -, hrenders⟩ := stages.filled_spec.exists_event hs
  cases event with
  | fragment id slot owner key =>
    obtain ⟨x, semantic, pos, -, -, -, -, heq⟩ := hrenders
    rw [heq]
    rfl
  | control element kind key =>
    obtain ⟨pos, -, heq⟩ := hrenders
    rw [heq]
    rfl
  | reference element type key => exact hrenders.elim

theorem count_attributed_built (stages : Stages package.records p) {text : TextRecord}
    (h : text ∈ textRecords package) : (attributed p.segments).count text.id = 1 := by
  obtain ⟨hnodup, -, hcovered⟩ := Projection.checkCoverage_ok_iff.mp stages.coverage_eq
  rw [attributed_built stages]
  rw [(ReaderRecordIndex.new_eq_ok stages.index_eq).2] at hcovered
  exact List.count_eq_one_of_mem hnodup (hcovered text h)

/-! ## Packages that verify -/

theorem linksAgree_verified {serde : SerdeJson} {digest : List UInt8 → List UInt8} {caps : Limits}
    (h : verifyPackage serde digest package caps = .ok ()) {index : ReaderRecordIndex} (hnew : ReaderRecordIndex.new package.records = .ok index) :
    LinksAgree index := by
  obtain ⟨E, X, root, hrecords, hne, hchecked⟩ := exists_checked h
  rw [hrecords] at hnew
  obtain ⟨hE, hX⟩ := sections_of_new hnew
  exact Projection.linksAgree_of_perm (List.Perm.of_eq (by rw [links_eq hchecked hne hE, hX]))

end

/-- The projection of a package that verifies is exported where the completion is valid and the
document within the limits; it reads back as it was, and no text of the package is lost. -/
theorem export_built (sha256 : Sha256) (serde : SerdeJson) (digest : List UInt8 → List UInt8)
    (package : Package) (caps : Limits) (p : ReaderProjection) (completion : WireCompletion)
    (limits : WireLimits) (hlimits : limits.Fits)
    (hbytes : package.manifest.source.bytes < 2 ^ 64) (hfits : ProjectionFits p)
    (hverified : verifyPackage serde digest package caps = .ok ())
    (hp : buildProjection package.records = .ok p) :
    ∃ texts, p.segments.mapM (resolveText (textIndex package)) = .ok texts ∧
      (∀ text, exportCleanedProjection sha256 package p completion limits = .ok text ↔
        validateCompletion completion = .ok () ∧
          Within sha256 package p completion limits texts ∧
          text = written (wireLines sha256 package p completion limits texts)) ∧
      ∀ text, exportCleanedProjection sha256 package p completion limits = .ok text →
        ∃ read, readCleanedWire sha256 text = .ok read ∧ read.projection = p ∧
          (fragmentTexts read.inlineTexts).Perm
            ((textRecords package).map fun record => (record.id, record.value)) := by
  obtain ⟨stages⟩ := Projection.nonempty_stages hp
  obtain ⟨hsubstrate, hpins⟩ := verified_spec hverified
  have hagree := linksAgree_verified hverified stages.index_eq
  obtain ⟨texts, htexts⟩ :=
    exists_mapM_ok_iff.mpr fun segment hs => exists_resolveText stages hagree hs
  have hresolves := mapM_eq_ok_iff.mp htexts
  have hsame : ∀ texts', Writable sha256 package p completion limits texts' → texts' = texts := by
    intro texts' h
    exact Except.ok.inj ((mapM_eq_ok_iff.mpr h.resolves).symm.trans htexts)
  have hexport := exportCleanedProjection_eq_render sha256 package p completion limits hlimits hbytes
    hfits hpins
  refine ⟨texts, htexts, fun text => ?_, fun text h => ?_⟩
  · rw [hexport, mapError_eq_ok_iff, renderCleanedProjection_eq_ok_iff]
    constructor
    · rintro ⟨texts', h, rfl⟩
      obtain rfl := hsame texts' h
      exact ⟨h.completes, h.toWithin, rfl⟩
    · rintro ⟨hcompletes, hwithin, rfl⟩
      exact ⟨texts, ⟨hwithin, hsubstrate, hcompletes, hresolves,
        fun record => count_attributed_built stages⟩, rfl⟩
  · obtain ⟨texts', hwritable, hread⟩ :=
      (answers_export sha256 package p completion limits hlimits hbytes hfits).of_ok h
    obtain rfl := hsame texts' hwritable
    have hnodup : ((textRecords package).map (·.id)).Nodup := by
      rw [textRecords, ← (ReaderRecordIndex.new_eq_ok stages.index_eq).2]
      exact stages.index.nodup_texts
    refine ⟨_, hread, ?_, fragmentTexts_perm hnodup hwritable⟩
    exact readBack_projection stages hresolves

namespace Sample

open SourcePackage.Sample (signed serde verifyPackage_signed)

theorem single_exported :
    ∃ texts, single.segments.mapM (resolveText (textIndex signed)) = .ok texts ∧
      (∀ text, exportCleanedProjection sha256 signed single .complete limits = .ok text ↔
        validateCompletion .complete = .ok () ∧
          Within sha256 signed single .complete limits texts ∧
          text = written (wireLines sha256 signed single .complete limits texts)) ∧
      ∀ text, exportCleanedProjection sha256 signed single .complete limits = .ok text →
        ∃ read, readCleanedWire sha256 text = .ok read ∧ read.projection = single ∧
          (fragmentTexts read.inlineTexts).Perm
            ((textRecords signed).map fun record => (record.id, record.value)) :=
  export_built sha256 serde SourcePackage.Sample.sha256 signed SourcePackage.Sample.limits single
    .complete limits fits_limits (by decide) fits_single verifyPackage_signed (by decide)

end Sample

end LawNexus.CleanedWire
