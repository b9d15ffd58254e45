import LawNexus.CleanedWire.Kept
import LawNexus.CleanedWire.Verifier
import LawNexus.Reader.Honest

/-!
# What the verifier of an artifact accepts

An artifact agrees with its package where it reads back, pins it, shows its records, and has the
text of each of its fragments. An export of the built projection does.
-/

namespace LawNexus.CleanedWire

open Chars Loops Reader
open Forest (Stop)
open Reader.Projection (Stages buildProjection)
open Reader.Verifier (verifyProjection)
open SourcePackage (Package TextRecord Limits SerdeJson verifyPackage)

section

variable {sha256 : Sha256} {artifact : List Char} {package : Package} {read : CleanedProjection}
  {segment : ProjectedSegment}

/-! ## No findings -/

@[simp] theorem finding_eq_nil {holds : Prop} [Decidable holds] {code : CleanedVerifyCode}
    {detail : String} : finding holds code detail = [] ↔ holds := by
  unfold finding
  split_ifs with h <;> simp [h]

theorem verifySourcePin_eq_nil :
    verifySourcePin read package = [] ↔ read.source = sourcePin package := by
  unfold verifySourcePin
  cases read.source
  simp [sourcePin]

theorem verifyParentSealPin_eq_nil :
    verifyParentSealPin read package = [] ↔ read.parent = parentPin package := by
  unfold verifyParentSealPin
  cases read.parent
  simp [parentPin]

theorem verifyProjectionSemantics_ok_iff : verifyProjectionSemantics read package = .ok [] ↔
    verifyProjection read.projection package.records = .ok () := by
  unfold verifyProjectionSemantics
  cases hresult : verifyProjection read.projection package.records with
  | ok => simp
  | error stop =>
    refine iff_of_false (fun h => ?_) (by simp)
    cases stop with
    | endless => cases h
    | failed findings =>
      -- Findings that are reported are not none.
      obtain rfl := List.map_eq_nil_iff.mp (Except.ok.inj h)
      exact Verifier.ne_nil_of_verifyProjection hresult rfl

theorem verifyInlineText_eq_nil {fragment : FragmentRef} {inline : SegmentText}
    (hid : inline.segmentId = segment.id) (hfragment : segment.fragmentRef = some fragment)
    (hsame : inline.fragmentRef = some fragment) :
    verifyInlineText package segment fragment inline = [] ↔
      ∃ record, textIndex package fragment = some record ∧
        inline = inlineText segment record.value := by
  unfold verifyInlineText
  cases hrecord : textIndex package fragment with
  | none => simp
  | some record =>
    simp only [List.append_eq_nil_iff, finding_eq_nil, Option.some.injEq, exists_eq_left']
    constructor
    · rintro ⟨⟨htext, hchars⟩, hbytes⟩
      rw [inlineText, hfragment, ← htext, ← hchars, ← hbytes, ← hid, ← hsame]
    · rintro rfl
      exact ⟨⟨rfl, rfl⟩, rfl⟩

theorem verifyInline_eq_nil : verifyInline read package segment = [] ↔
    ∃ fragment record, segment.fragmentRef = some fragment ∧
      textIndex package fragment = some record ∧
        inlineBySegment read segment.id = some (inlineText segment record.value) := by
  unfold verifyInline
  cases hinline : inlineBySegment read segment.id with
  | none => simp
  | some inline =>
    have hid : inline.segmentId = segment.id := (lastOf_some hinline).2
    cases hfragment : segment.fragmentRef with
    | none => simp
    | some fragment =>
      simp only [Option.some.injEq, exists_and_left, exists_eq_left']
      split_ifs with hdisagree
      · refine iff_of_false (by simp) ?_
        rintro ⟨record, -, rfl⟩
        exact hdisagree hfragment
      · exact verifyInlineText_eq_nil hid hfragment (not_not.mp hdisagree)

theorem verifyMembership_eq_nil {text : TextRecord} : verifyMembership read text = [] ↔
    ((sourceSegments read.projection.segments).filterMap (attributedInline read)).count text.id =
      1 := by
  unfold verifyMembership
  dsimp only
  split_ifs with hnone
  · refine iff_of_false (by simp) (by omega)
  · rw [finding_eq_nil]
    omega

theorem verifyCleanedWire_ok_iff : verifyCleanedWire sha256 artifact package = .ok () ↔
    ∃ read, readCleanedWire sha256 artifact = .ok read ∧
      (read.source = sourcePin package ∧ read.parent = parentPin package) ∧
        verifyProjection read.projection package.records = .ok () ∧
          verifyTextChannel read package = [] ∧ recomputedCounts read = read.counts := by
  unfold verifyCleanedWire readArtifact
  simp only [bind_eq_ok_iff, mapError_eq_ok_iff, ite_eq_left_iff, reduceCtorEq, imp_false, not_not,
    List.append_eq_nil_iff, verifySourcePin_eq_nil, verifyParentSealPin_eq_nil]
  refine exists_congr fun read => and_congr_right fun _ => ?_
  rw [← verifyProjectionSemantics_ok_iff, verifyCounts, finding_eq_nil]
  constructor
  · rintro ⟨semantics, hsemantics, ⟨⟨⟨hsource, hparent⟩, rfl⟩, hchannel⟩, hcounts⟩
    exact ⟨⟨hsource, hparent⟩, hsemantics, hchannel, hcounts⟩
  · rintro ⟨⟨hsource, hparent⟩, hsemantics, hchannel, hcounts⟩
    exact ⟨[], hsemantics, ⟨⟨⟨hsource, hparent⟩, rfl⟩, hchannel⟩, hcounts⟩

/-! ## The text channel -/

/-- Beside each segment of a fragment stands the text of the fragment. -/
def Worded (read : CleanedProjection) (texts : List TextRecord) : Prop :=
  ∀ segment ∈ sourceSegments read.projection.segments, ∀ text ∈ texts,
    segment.fragmentRef = some text.id →
      inlineBySegment read segment.id = some (inlineText segment text.value)

theorem verifyTextChannel_eq_nil (hnodup : ((textRecords package).map (·.id)).Nodup)
    (hfragments : (Verifier.sourceFragments read.projection).Perm
      ((textRecords package).map (·.id)))
    (hquoted : ∀ segment ∈ sourceSegments read.projection.segments,
      ∃ text ∈ textRecords package, segment.fragmentRef = some text.id) :
    verifyTextChannel read package = [] ↔ Worded read (textRecords package) := by
  unfold verifyTextChannel
  simp only [List.append_eq_nil_iff, List.flatMap_eq_nil_iff, verifyInline_eq_nil,
    verifyMembership_eq_nil]
  constructor
  · rintro ⟨hinline, -⟩ segment hs text htext hfragment
    obtain ⟨fragment, record, hsome, hrecord, heq⟩ := hinline segment hs
    obtain rfl := Option.some.inj (hfragment.symm.trans hsome)
    obtain rfl := Option.some.inj ((textIndex_of_mem hnodup htext).symm.trans hrecord)
    exact heq
  · intro hworded
    have hattributed : (sourceSegments read.projection.segments).filterMap (attributedInline read) =
        Verifier.sourceFragments read.projection := by
      refine List.filterMap_congr fun segment hs => ?_
      obtain ⟨text, htext, hfragment⟩ := hquoted segment hs
      rw [attributedInline, hworded segment hs text htext hfragment, hfragment]
      simp [inlineText, hfragment]
    refine ⟨fun segment hs => ?_, fun text htext => ?_⟩
    · obtain ⟨text, htext, hfragment⟩ := hquoted segment hs
      exact ⟨text.id, text, hfragment, textIndex_of_mem hnodup htext,
        hworded segment hs text htext hfragment⟩
    · rw [hattributed, hfragments.count_eq]
      exact List.count_eq_one_of_mem hnodup (List.mem_map_of_mem htext)

/-! ## Agreement -/

/-- An artifact that says what its package says. -/
structure Agrees (package : Package) (index : ReaderRecordIndex) (read : CleanedProjection) :
    Prop where
  source : read.source = sourcePin package
  parent : read.parent = parentPin package
  represents : Represents index read.projection
  worded : Worded read (textRecords package)
  counts : recomputedCounts read = read.counts

theorem exists_quoted {index : ReaderRecordIndex}
    (hnew : ReaderRecordIndex.new package.records = .ok index)
    (h : Represents index read.projection)
    (hs : segment ∈ sourceSegments read.projection.segments) :
    ∃ text ∈ textRecords package, Verifier.Quotes index segment text := by
  obtain ⟨hs, horigin⟩ := List.mem_filter.mp hs
  have hsourced := h.sourced segment hs
  rw [Verifier.Sourced, of_decide_eq_true horigin] at hsourced
  rwa [textRecords, ← (ReaderRecordIndex.new_eq_ok hnew).2]

theorem agrees_iff {index : ReaderRecordIndex}
    (hnew : ReaderRecordIndex.new package.records = .ok index)
    (hverify : verifyProjection read.projection package.records = .ok () ↔
      Represents index read.projection) :
    (read.source = sourcePin package ∧ read.parent = parentPin package) ∧
        verifyProjection read.projection package.records = .ok () ∧
          verifyTextChannel read package = [] ∧ recomputedCounts read = read.counts ↔
      Agrees package index read := by
  have hrecords : index.texts = textRecords package := (ReaderRecordIndex.new_eq_ok hnew).2
  have hchannel : Represents index read.projection →
      (verifyTextChannel read package = [] ↔ Worded read (textRecords package)) := by
    intro h
    have hnodup := index.nodup_texts
    have hfragments := h.fragments
    rw [hrecords] at hnodup hfragments
    refine verifyTextChannel_eq_nil hnodup hfragments fun segment hs => ?_
    obtain ⟨text, htext, hquotes⟩ := exists_quoted hnew h hs
    exact ⟨text, htext, hquotes.fragmentRef⟩
  rw [hverify]
  constructor
  · rintro ⟨⟨hsource, hparent⟩, hrepresents, htexts, hcounts⟩
    exact ⟨hsource, hparent, hrepresents, (hchannel hrepresents).mp htexts, hcounts⟩
  · rintro ⟨hsource, hparent, hrepresents, hworded, hcounts⟩
    exact ⟨⟨hsource, hparent⟩, hrepresents, (hchannel hrepresents).mpr hworded, hcounts⟩

end

namespace Sample

open SourcePackage.Sample (signed serde verifyPackage_signed)

end Sample

/-! ## Exports -/

section

variable {sha256 : Sha256} {package : Package} {p : ReaderProjection} {completion : WireCompletion}
  {limits : WireLimits} {texts : List (List Char)} {segment : ProjectedSegment}

/-- In an export of what was built, the text beside a segment is the one that was written. -/
theorem inlineBySegment_readBack (hnodup : (p.segments.map (·.id)).Nodup)
    (h : List.Forall₂ (fun segment text => resolveText (textIndex package) segment = .ok text)
      p.segments texts) (hs : segment ∈ p.segments) : ∃ text,
      resolveText (textIndex package) segment = .ok text ∧
        inlineBySegment (readBack sha256 package p completion limits texts) segment.id =
          some (inlineText segment text) := by
  have hpairs : List.Forall₂ (fun segment inline => ∃ text,
      resolveText (textIndex package) segment = .ok text ∧ inline = inlineText segment text)
      p.segments (p.segments.zipWith inlineText texts) := by
    generalize p.segments = segments at h
    induction h with
    | nil => exact .nil
    | cons hresolve _ ih => exact .cons ⟨_, hresolve, rfl⟩ ih
  have hids : ∀ (segment : ProjectedSegment) (inline : SegmentText), (∃ text,
      resolveText (textIndex package) segment = .ok text ∧ inline = inlineText segment text) →
        segment.id = inline.segmentId := by
    rintro segment _ ⟨text, -, rfl⟩
    rfl
  obtain ⟨inline, hinline, text, hresolve, rfl⟩ :=
    lastOf_forall₂ hpairs hids (lastOf_of_nodup hnodup hs)
  exact ⟨text, hresolve, hinline⟩

theorem map_text_inlineText {α : Type} (f : List Char → α) {segments : List ProjectedSegment}
    (hlength : segments.length = texts.length) :
    (segments.zipWith inlineText texts).map (fun inline => f inline.text) = texts.map f := by
  rw [← List.map_uncurry_zip_eq_zipWith, List.map_map]
  change (segments.zip texts).map (f ∘ Prod.snd) = _
  rw [← List.map_map, List.map_snd_zip hlength.ge]

theorem recomputedCounts_readBack
    (hprojection : (readBack sha256 package p completion limits texts).projection = p)
    (hlength : p.segments.length = texts.length) :
    recomputedCounts (readBack sha256 package p completion limits texts) =
      cleanedCounts p texts := by
  have hsplit := List.length_eq_length_filter_add (l := p.segments) (·.origin = .sourceFragment)
  have hderived : p.segments.length - (sourceSegments p.segments).length =
      (p.segments.filter (·.origin ≠ .sourceFragment)).length := by
    simp only [sourceSegments, decide_not]
    omega
  rw [recomputedCounts, hprojection, hderived, readBack]
  dsimp only
  rw [map_text_inlineText List.length hlength, map_text_inlineText Utf8.byteLen hlength]
  rfl

theorem agrees_readBack (stages : Stages package.records p)
    (hrepresents : Represents stages.index p)
    (h : List.Forall₂ (fun segment text => resolveText (textIndex package) segment = .ok text)
      p.segments texts) :
    Agrees package stages.index (readBack sha256 package p completion limits texts) := by
  have hprojection : (readBack sha256 package p completion limits texts).projection = p :=
    readBack_projection stages h
  refine ⟨rfl, rfl, hprojection.symm ▸ hrepresents, ?_,
    recomputedCounts_readBack hprojection h.length_eq⟩
  rw [Worded, hprojection]
  intro segment hs text htext hfragment
  obtain ⟨hs, hsource⟩ := List.mem_filter.mp hs
  obtain ⟨value, hresolve, hinline⟩ : ∃ value,
      resolveText (textIndex package) segment = .ok value ∧
        inlineBySegment (readBack sha256 package p completion limits texts) segment.id =
          some (inlineText segment value) :=
    inlineBySegment_readBack stages.filled_spec.nodup_ids.1 h hs
  have hnodup : ((textRecords package).map (·.id)).Nodup := by
    rw [textRecords, ← (ReaderRecordIndex.new_eq_ok stages.index_eq).2]
    exact stages.index.nodup_texts
  rcases resolveText_eq_ok_iff.mp hresolve with
    ⟨-, -, fragment, record, hsame, hrecord, -, -, rfl⟩ | ⟨hderived, -⟩
  · obtain rfl := Option.some.inj (hfragment.symm.trans hsame)
    obtain rfl := Option.some.inj ((textIndex_of_mem hnodup htext).symm.trans hrecord)
    exact hinline
  · exact absurd (of_decide_eq_true hsource) hderived

end

/-- What is exported of the built projection of a verified package is accepted. -/
theorem verifyCleanedWire_export (sha256 : Sha256) (serde : SerdeJson)
    (digest : List UInt8 → List UInt8) (package : Package) (caps : Limits) (p : ReaderProjection)
    (completion : WireCompletion) (limits : WireLimits) (hlimits : limits.Fits)
    (hbytes : package.manifest.source.bytes < 2 ^ 64) (hfits : ProjectionFits p)
    (hverified : verifyPackage serde digest package caps = .ok ())
    (hp : buildProjection package.records = .ok p) :
    Answers (fun text => verifyCleanedWire sha256 text package = .ok ())
      (exportCleanedProjection sha256 package p completion limits) := by
  obtain ⟨index, hnew, hroots, hlinks, hids⟩ := exists_verified hverified
  obtain ⟨stages⟩ := Projection.nonempty_stages hp
  obtain rfl := Except.ok.inj (stages.index_eq.symm.trans hnew)
  refine (answers_export sha256 package p completion limits hlimits hbytes hfits).mono ?_
  rintro text ⟨texts, hwritable, hread⟩
  refine verifyCleanedWire_ok_iff.mpr ⟨_, hread, ?_⟩
  refine (agrees_iff hnew (verifyProjection_of_verified hnew hroots hlinks hids)).mpr ?_
  exact agrees_readBack stages (stages.represents hroots hlinks) hwritable.resolves

namespace Sample

open SourcePackage.Sample (signed serde verifyPackage_signed)

theorem single_agrees : Answers (fun text => verifyCleanedWire sha256 text signed = .ok ())
    (exportCleanedProjection sha256 signed single .complete limits) :=
  verifyCleanedWire_export sha256 serde SourcePackage.Sample.sha256 signed
    SourcePackage.Sample.limits single .complete limits fits_limits (by decide) fits_single
    verifyPackage_signed (by decide)

end Sample

end LawNexus.CleanedWire
