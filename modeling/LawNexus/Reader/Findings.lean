import LawNexus.Reader.Expected

/-!
# Where the verifier has no findings

Each check of the verifier as what holds where it reports nothing.
-/

namespace LawNexus.Reader

open Forest SourcePackage Loops ReaderRecordIndex

/-- Every element has its image. -/
theorem map_eq_map_some {α β : Type} {f : α → Option β} {l : List α} {out : List β} :
    l.map f = out.map some ↔ (∀ a ∈ l, (f a).isSome) ∧ l.filterMap f = out := by
  induction l generalizing out with
  | nil => cases out <;> simp
  | cons a l ih =>
    cases hf : f a with
    | none => cases out <;> simp [hf]
    | some b => cases out <;> simp [hf, ih, and_left_comm]

namespace Verifier

variable {index : ReaderRecordIndex} {projection : ReaderProjection}

@[simp] theorem report_eq_nil {holds : Prop} [Decidable holds] {code : VerifyCode}
    {detail : String} : report holds code detail = [] ↔ holds := by
  unfold report
  split_ifs with h <;> simp [h]

/-! ## Segments -/

variable {segment : ProjectedSegment}

theorem verifySpan_iff {fragment : FragmentRef} {value : List Char} :
    verifySpan segment fragment value = true ↔
      segment.span = some (wholeFragmentSpan fragment value) ∧ value ≠ [] := by
  unfold verifySpan
  cases hspan : segment.span with
  | none => simp
  | some span =>
    obtain ⟨fragment', start, stop⟩ := span
    simp only [Option.any_some, Bool.and_eq_true, decide_eq_true_eq, Option.some.injEq,
      wholeFragmentSpan, ReaderFragmentSpan.mk.injEq]
    constructor
    · rintro ⟨⟨⟨rfl, rfl⟩, rfl⟩, hcheck⟩
      refine ⟨⟨rfl, rfl, rfl⟩, (@checkFragmentSpan_whole_iff fragment' value).mp ?_⟩
      change checkFragmentSpan value ⟨fragment', 0, Utf8.byteLen value⟩ = .ok ()
      cases hok : checkFragmentSpan value ⟨fragment', 0, Utf8.byteLen value⟩ with
      | error error =>
        rw [hok] at hcheck
        cases hcheck
      | ok => rfl
    · rintro ⟨⟨rfl, rfl, rfl⟩, hne⟩
      have hcheck := (@checkFragmentSpan_whole_iff fragment' value).mpr hne
      rw [wholeFragmentSpan] at hcheck
      rw [hcheck]
      exact ⟨⟨⟨rfl, rfl⟩, rfl⟩, rfl⟩

/-- A source segment that stands for the whole of a text. -/
structure Quotes (index : ReaderRecordIndex) (segment : ProjectedSegment) (x : TextRecord) :
    Prop where
  segmentKind : segment.segmentKind = .text
  fragmentRef : segment.fragmentRef = some x.id
  span : segment.span = some (wholeFragmentSpan x.id x.value)
  ne_nil : x.value ≠ []
  slot : segment.slot = some x.slot
  text : segment.text = none
  semantic : textSemantic verifierErrors index x.owner x.slot x.value = .ok segment.semantic
  contextual : segment.contextual = decide (segment.semantic ≠ .body)
  elementRef : segment.elementRef = x.owner
  sourcePos : index.sourcePos x.owner = some segment.sourcePos
  chars : segment.chars = x.value.length

theorem verifySemantic_ok_iff {text : TextRecord} : verifySemantic index segment text = .ok [] ↔
    textSemantic verifierErrors index text.owner text.slot text.value = .ok segment.semantic ∧
      segment.contextual = decide (segment.semantic ≠ .body) := by
  unfold verifySemantic
  split
  · rename_i semantic heq
    rw [heq, Except.ok.injEq, report_eq_nil, Except.ok.injEq]
    constructor
    · rintro ⟨rfl, hcontextual⟩
      exact ⟨rfl, hcontextual⟩
    · rintro ⟨rfl, hcontextual⟩
      exact ⟨rfl, hcontextual⟩
  · rename_i detail heq
    rw [heq]
    simp
  · rename_i heq
    rw [heq]
    simp

theorem verifyText_ok_iff {fragment : FragmentRef} {text : TextRecord} :
    verifyText index segment fragment text = .ok [] ↔
      verifySemantic index segment text = .ok [] ∧ verifySpan segment fragment text.value = true ∧
      segment.slot = some text.slot ∧ segment.text = none ∧ segment.elementRef = text.owner ∧
      index.sourcePos text.owner = some segment.sourcePos ∧ segment.chars = text.value.length := by
  unfold verifyText
  rw [bind_eq_ok_iff]
  simp only [Except.ok.injEq, List.append_eq_nil_iff, report_eq_nil]
  constructor
  · rintro ⟨semantic, hsemantic, ⟨⟨⟨⟨⟨hspan, hslot⟩, htext⟩, rfl⟩, howner⟩, hpos⟩, hchars⟩
    exact ⟨hsemantic, hspan, hslot, htext, howner, hpos, hchars⟩
  · rintro ⟨hsemantic, hspan, hslot, htext, howner, hpos, hchars⟩
    exact ⟨[], hsemantic, ⟨⟨⟨⟨⟨hspan, hslot⟩, htext⟩, rfl⟩, howner⟩, hpos⟩, hchars⟩

theorem verifySourceSegment_ok_iff : verifySourceSegment index segment = .ok [] ↔
    ∃ text ∈ index.texts, Quotes index segment text := by
  unfold verifySourceSegment
  dsimp only
  split
  · rename_i hnone
    refine iff_of_false (by simp) ?_
    rintro ⟨text, -, hquotes⟩
    cases hnone.symm.trans hquotes.fragmentRef
  · rename_i fragment hfragment
    split
    · rename_i hmissing
      refine iff_of_false (by simp) ?_
      rintro ⟨text, htext, hquotes⟩
      obtain rfl := Option.some.inj (hfragment.symm.trans hquotes.fragmentRef)
      cases hmissing.symm.trans (text_eq_some_iff.mpr ⟨htext, rfl⟩)
    · rename_i text htext
      obtain ⟨hmem, rfl⟩ := text_eq_some_iff.mp htext
      simp only [map_eq_ok_iff, List.append_eq_nil_iff, report_eq_nil]
      constructor
      · rintro ⟨findings, hfindings, hkind, rfl⟩
        obtain ⟨hsemantic, hspan, hslot, hnone, howner, hpos, hchars⟩ :=
          verifyText_ok_iff.mp hfindings
        obtain ⟨hsemantic, hcontextual⟩ := verifySemantic_ok_iff.mp hsemantic
        obtain ⟨hspan, hne⟩ := verifySpan_iff.mp hspan
        exact ⟨text, hmem, hkind, hfragment, hspan, hne, hslot, hnone, hsemantic, hcontextual,
          howner, hpos, hchars⟩
      · rintro ⟨text', hmem', hquotes⟩
        have hid := Option.some.inj (hfragment.symm.trans hquotes.fragmentRef)
        obtain rfl := List.inj_on_of_nodup_map index.nodup_texts hmem hmem' hid
        refine ⟨[], verifyText_ok_iff.mpr ⟨verifySemantic_ok_iff.mpr
          ⟨hquotes.semantic, hquotes.contextual⟩, verifySpan_iff.mpr ⟨hquotes.span, hquotes.ne_nil⟩,
          hquotes.slot, hquotes.text, hquotes.elementRef, hquotes.sourcePos, hquotes.chars⟩,
          hquotes.segmentKind, rfl⟩

/-- A derived segment that stands for a control. -/
structure Stands (index : ReaderRecordIndex) (segment : ProjectedSegment)
    (kind : ReaderDerivedKind) : Prop where
  segmentKind : segment.segmentKind = .derived
  source : segment.fragmentRef = none ∧ segment.span = none
  slot : segment.slot = none
  control : isControl index segment kind = true
  rendered : segment.text = some kind.literal ∧ segment.chars = kind.literal.length ∧
    segment.semantic = .derivedSeparator ∧ segment.contextual = true

theorem verifyDerivedSegment_eq_nil {kind : ReaderDerivedKind} :
    verifyDerivedSegment index segment kind = [] ↔ Stands index segment kind := by
  unfold verifyDerivedSegment
  simp only [List.append_eq_nil_iff, report_eq_nil]
  constructor
  · rintro ⟨⟨⟨⟨hkind, hsource⟩, hslot⟩, hcontrol⟩, hrendered⟩
    exact ⟨hkind, hsource, hslot, hcontrol, hrendered⟩
  · rintro ⟨hkind, hsource, hslot, hcontrol, hrendered⟩
    exact ⟨⟨⟨⟨hkind, hsource⟩, hslot⟩, hcontrol⟩, hrendered⟩

/-- A segment that the verifier has nothing to say about. -/
def Sourced (index : ReaderRecordIndex) (segment : ProjectedSegment) : Prop :=
  match segment.origin with
  | .sourceFragment => ∃ text ∈ index.texts, Quotes index segment text
  | .derived kind => Stands index segment kind

theorem verifySegment_ok_iff : verifySegment index segment = .ok [] ↔ Sourced index segment := by
  unfold verifySegment Sourced
  cases segment.origin with
  | sourceFragment => exact verifySourceSegment_ok_iff
  | derived kind => rw [Except.ok.injEq, verifyDerivedSegment_eq_nil]

/-! ## Views -/

theorem verifyDuplicates_eq_nil {seen : List ReaderViewKey} {views : List ProjectedView} :
    verifyDuplicates seen views = [] ↔
      (views.map ProjectedView.key).Nodup ∧ ∀ view ∈ views, view.key ∉ seen := by
  induction views generalizing seen with
  | nil => simp [verifyDuplicates]
  | cons view views ih =>
    rw [verifyDuplicates]
    simp only [List.append_eq_nil_iff, report_eq_nil, ih]
    rw [List.map_cons, List.nodup_cons, List.forall_mem_cons, List.mem_map]
    simp only [List.mem_cons, not_or]
    constructor
    · rintro ⟨hseen, hnodup, hrest⟩
      refine ⟨⟨?_, hnodup⟩, hseen, fun v hv => (hrest v hv).2⟩
      rintro ⟨v, hv, hkey⟩
      exact (hrest v hv).1 hkey
    · rintro ⟨⟨hfresh, hnodup⟩, hseen, hrest⟩
      exact ⟨hseen, hnodup, fun v hv => ⟨fun hkey => hfresh ⟨v, hv, hkey⟩, hrest v hv⟩⟩

/-- A view that is as the verifier expects the view of its key. -/
structure Matches (projection : ReaderProjection) (view : ProjectedView) (expected : ExpectedView) :
    Prop where
  parent : view.parentView.map (keyById projection) = expected.parent.map some
  children : view.children.map (keyById projection) = expected.children.map some
  empty : view.flags.empty =
    if view.kind.isPrimary then expected.segments.isEmpty else expected.children.isEmpty
  segments : ∃ segments : List ProjectedSegment,
    view.segmentRefs.map (ownSegment projection view) = segments.map some ∧
      segments.map actualSegmentToken = expected.segments.map tokenText
  references : ∃ references : List ProjectedReference,
    view.referenceRefs.map (ownReference projection view) = references.map some ∧
      references.map (·.referenceType) = expected.references

theorem verifyView_eq_nil {view : ProjectedView} {expected : ExpectedView} :
    verifyView projection view.key expected view = [] ↔ Matches projection view expected := by
  have hparent : (¬ (view.parentView.isSome ∧ view.parentView.bind (keyById projection) = none) ∧
      view.parentView.bind (keyById projection) = expected.parent) ↔
        view.parentView.map (keyById projection) = expected.parent.map some := by
    cases view.parentView with
    | none => cases expected.parent <;> simp
    | some id =>
      cases hkey : keyById projection id with
      | none => cases expected.parent <;> simp [hkey]
      | some key => cases expected.parent <;> simp [hkey]
  unfold verifyView
  simp only [List.append_eq_nil_iff, report_eq_nil, List.filterMap_length_eq_length]
  rw [hparent, ← map_eq_map_some]
  constructor
  · rintro ⟨⟨⟨⟨⟨hparent, hchildren⟩, hempty⟩, hown⟩, htokens⟩, hreferences, htypes⟩
    exact ⟨hparent, hchildren, hempty, ⟨_, map_eq_map_some.mpr ⟨hown, rfl⟩, htokens⟩,
      ⟨_, map_eq_map_some.mpr ⟨hreferences, rfl⟩, htypes⟩⟩
  · rintro ⟨hparent, hchildren, hempty, ⟨segments, hsegments, htokens⟩,
      ⟨references, hreferences, htypes⟩⟩
    obtain ⟨hown, rfl⟩ := map_eq_map_some.mp hsegments
    obtain ⟨hcited, rfl⟩ := map_eq_map_some.mp hreferences
    exact ⟨⟨⟨⟨⟨hparent, hchildren⟩, hempty⟩, hown⟩, htokens⟩, hcited, htypes⟩

/-- The views of a projection are the expected ones, each of them once. -/
structure MatchesForest (projection : ReaderProjection) (expected : Expected) : Prop where
  nodup : (projection.views.map ProjectedView.key).Nodup
  warranted : ∀ view ∈ projection.views, view.key ∈ expected.views.map (·.1)
  shown : ∀ entry ∈ expected.views, ∃ view ∈ projection.views, view.key = entry.1 ∧
    Matches projection view entry.2

theorem verifyViewForest_eq_nil {expected : Expected} :
    verifyViewForest projection expected = [] ↔ MatchesForest projection expected := by
  unfold verifyViewForest
  simp only [List.append_eq_nil_iff, List.flatMap_eq_nil_iff, verifyDuplicates_eq_nil,
    verifyWarranted, report_eq_nil]
  have hentry : (projection.views.map ProjectedView.key).Nodup → ∀ entry,
      (verifyExpectedView projection entry = [] ↔ ∃ view ∈ projection.views,
        view.key = entry.1 ∧ Matches projection view entry.2) := by
    rintro hnodup ⟨key, expected⟩
    unfold verifyExpectedView
    dsimp only
    constructor
    · intro h
      split at h
      · cases h
      · rename_i view hview
        obtain rfl : view.key = key := by simpa using List.find?_some hview
        exact ⟨view, List.mem_of_find?_eq_some hview, rfl, verifyView_eq_nil.mp h⟩
    · rintro ⟨view, hview, rfl, hmatches⟩
      rw [find?_key hnodup hview]
      exact verifyView_eq_nil.mpr hmatches
  constructor
  · rintro ⟨⟨⟨hnodup, -⟩, hwarranted⟩, hshown⟩
    exact ⟨hnodup, hwarranted, fun entry he => (hentry hnodup entry).mp (hshown entry he)⟩
  · rintro ⟨hnodup, hwarranted, hshown⟩
    exact ⟨⟨⟨hnodup, by simp⟩, hwarranted⟩, fun entry he =>
      (hentry hnodup entry).mpr (hshown entry he)⟩

/-! ## Coverage -/

/-- Every text is quoted once, by a segment in the view that owns it. -/
structure Covers (projection : ReaderProjection) (index : ReaderRecordIndex) (expected : Expected) :
    Prop where
  nodup : (sourceFragments projection).Nodup
  known : ∀ fragment ∈ sourceFragments projection, (index.text fragment).isSome
  covered : ∀ text ∈ index.texts, text.id ∈ sourceFragments projection
  owned : ∀ segment ∈ sourceSegments projection, ∀ owned,
    ownership projection expected segment = some owned → owned.2.2 = owned.2.1
  resolved : ∀ reference ∈ projection.references, reference.resolved = false

theorem verifyOwnership_eq_nil {expected : Expected} :
    verifyOwnership projection expected segment = [] ↔ ∀ owned,
      ownership projection expected segment = some owned → owned.2.2 = owned.2.1 := by
  unfold verifyOwnership
  split
  · rename_i heq
    simp [heq]
  · rename_i fragment owner actual heq
    simp [heq]

theorem verifyCoverage_eq_nil {expected : Expected} :
    verifyCoverage projection index expected = [] ↔ Covers projection index expected := by
  unfold verifyCoverage
  simp only [List.append_eq_nil_iff, List.flatMap_eq_nil_iff, verifyCount, verifyCovered,
    verifyResolved, verifyOwnership_eq_nil, report_eq_nil, mem_distinct]
  constructor
  · rintro ⟨⟨⟨hcounts, hcovered⟩, howned⟩, hresolved⟩
    refine ⟨List.nodup_iff_count_le_one.mpr fun fragment => ?_,
      fun fragment h => (hcounts fragment h).2, hcovered, howned, hresolved⟩
    by_cases hmem : fragment ∈ sourceFragments projection
    · exact (hcounts fragment hmem).1
    · rw [List.count_eq_zero_of_not_mem hmem]
      exact Nat.zero_le 1
  · rintro ⟨hnodup, hknown, hcovered, howned, hresolved⟩
    exact ⟨⟨⟨fun fragment h => ⟨List.nodup_iff_count_le_one.mp hnodup fragment, hknown fragment h⟩,
      hcovered⟩, howned⟩, hresolved⟩

/-! ## The whole -/

/-- A projection that passes every check. -/
structure Passes (projection : ReaderProjection) (index : ReaderRecordIndex) (expected : Expected) :
    Prop where
  forest : MatchesForest projection expected
  sourced : ∀ segment ∈ projection.segments, Sourced index segment
  covers : Covers projection index expected

theorem verifyProjection_ok_iff {records : List Record} :
    verifyProjection projection records = .ok () ↔ ∃ index expected,
      new records = .ok index ∧ buildExpected index = .ok expected ∧
        Passes projection index expected := by
  have hsegments : ∀ index, (∃ findings, projection.segments.mapM (verifySegment index) =
      .ok findings ∧ findings.flatten = []) ↔ ∀ s ∈ projection.segments, Sourced index s := by
    intro index
    simp only [mapM_eq_ok_iff, List.flatten_eq_nil_iff, ← verifySegment_ok_iff]
    constructor
    · rintro ⟨findings, hall, hnil⟩ s hs
      obtain ⟨own, hmem, hown⟩ := (forall₂_partner hall).1 s hs
      rw [hown, hnil own hmem]
    · intro h
      refine ⟨projection.segments.map fun _ => [], ?_, by simp⟩
      rw [List.forall₂_map_right_iff, List.forall₂_same]
      exact h
  unfold verifyProjection
  simp only [bind_eq_ok_iff, mapError_eq_ok_iff]
  constructor
  · rintro ⟨index, hnew, expected, hexpected, segments, hall, h⟩
    split_ifs at h with hfindings
    simp only [List.append_eq_nil_iff, verifyViewForest_eq_nil, verifyCoverage_eq_nil] at hfindings
    obtain ⟨⟨hforest, hnil⟩, hcovers⟩ := hfindings
    exact ⟨index, expected, hnew, hexpected, hforest, (hsegments index).mp ⟨segments, hall, hnil⟩,
      hcovers⟩
  · rintro ⟨index, expected, hnew, hexpected, hforest, hsourced, hcovers⟩
    obtain ⟨segments, hall, hnil⟩ := (hsegments index).mpr hsourced
    refine ⟨index, hnew, expected, hexpected, segments, hall, if_pos ?_⟩
    rw [verifyViewForest_eq_nil.mpr hforest, hnil, verifyCoverage_eq_nil.mpr hcovers]
    rfl

/-! ## Refusals -/

theorem verifySegment_stop {stop : Stop (List VerifyFinding)}
    (h : verifySegment index segment = .error stop) : stop = .endless := by
  unfold verifySegment verifySourceSegment at h
  split at h
  · dsimp only at h
    split at h
    · cases h
    · split at h
      · cases h
      · rename_i text _
        cases htext : verifyText index segment _ text with
        | ok findings =>
          rw [htext] at h
          cases h
        | error stop' =>
          rw [htext] at h
          obtain rfl : stop' = stop := Except.error.inj h
          unfold verifyText at htext
          rcases bind_eq_error_iff.mp htext with hsemantic | ⟨findings, -, hok⟩
          · unfold verifySemantic at hsemantic
            split at hsemantic
            · cases hsemantic
            · cases hsemantic
            · exact (Except.error.inj hsemantic).symm
          · cases hok
  · cases h

/-- What is refused is refused with a finding. -/
theorem ne_nil_of_verifyProjection {records : List Record} {findings : List VerifyFinding}
    (h : verifyProjection projection records = .error (.failed findings)) : findings ≠ [] := by
  unfold verifyProjection at h
  rcases bind_eq_error_iff.mp h with hindex | ⟨index, -, h⟩
  · cases hnew : new records with
    | ok index =>
      rw [hnew] at hindex
      cases hindex
    | error error =>
      rw [hnew] at hindex
      cases hindex
      exact List.cons_ne_nil _ _
  rcases bind_eq_error_iff.mp h with hexpected | ⟨expected, -, h⟩
  · cases hbuild : buildExpected index with
    | ok expected =>
      rw [hbuild] at hexpected
      cases hexpected
    | error stop =>
      rw [hbuild] at hexpected
      cases stop with
      | endless => cases hexpected
      | failed detail =>
        cases hexpected
        exact List.cons_ne_nil _ _
  rcases bind_eq_error_iff.mp h with hsegments | ⟨segments, -, h⟩
  · obtain ⟨segment, -, hsegment⟩ := exists_of_mapM_error hsegments
    cases verifySegment_stop hsegment
  · dsimp only at h
    split_ifs at h with hfindings
    obtain rfl := Stop.failed.inj (Except.error.inj h)
    exact hfindings

end Verifier

end LawNexus.Reader
