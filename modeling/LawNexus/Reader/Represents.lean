import LawNexus.Reader.Findings
import LawNexus.Reader.Tiled
import LawNexus.Reader.Verified

/-!
# What the verifier accepts

A projection of a verified package passes exactly where it shows what the records say: the views
that they call for, in their places, each with the events of its key in document order.
-/

namespace LawNexus.Reader

open Forest SourcePackage Loops ReaderRecordIndex Projection Verifier

variable {index : ReaderRecordIndex} {p : ReaderProjection}

/-! ## What the records say -/

/-- The view that holds the view of a key. -/
def containerOf (index : ReaderRecordIndex) (key : ReaderViewKey) : Option ReaderViewKey :=
  match nearestContainer verifierErrors index key.elementRef (parentRoles key.kind) with
  | .ok (some container) => (index.element container).bind structuralOf
  | _ => none

def keyOrder (index : ReaderRecordIndex) (key : ReaderViewKey) : Nat ×ₗ Nat ×ₗ String :=
  toLex ((index.sourcePos key.elementRef).getD 0, toLex (viewKindRank key.kind, key.elementRef))

def childrenOf (index : ReaderRecordIndex) (key : ReaderViewKey) : List ReaderViewKey :=
  sortBy (keyOrder index)
    ((distinct (warranted index)).filter fun child => containerOf index child = some key)

def eventsOf (index : ReaderRecordIndex) (key : ReaderViewKey) : List Event :=
  ((documentOrder index).filter (·.viewKey = key)).map Event.of

/-- The fragments and the controls of a view, in document order. -/
def tokensOf (index : ReaderRecordIndex) (key : ReaderViewKey) : List Token :=
  (eventsOf index key).filterMap Event.token

def referencesOf (index : ReaderRecordIndex) (key : ReaderViewKey) : List ReaderReferenceType :=
  (eventsOf index key).filterMap Event.referenceType

/-- A view that shows what the records say of its key. -/
structure Represented (index : ReaderRecordIndex) (p : ReaderProjection) (view : ProjectedView) :
    Prop where
  parent : view.parentView.map (keyById p) = (containerOf index view.key).map some
  children : view.children.map (keyById p) = (childrenOf index view.key).map some
  empty : view.flags.empty = if view.kind.isPrimary then (tokensOf index view.key).isEmpty
    else (childrenOf index view.key).isEmpty
  segments : ∃ segments : List ProjectedSegment,
    view.segmentRefs.map (ownSegment p view) = segments.map some ∧
      segments.map tokenOfSegment = (tokensOf index view.key).map some
  references : ∃ references : List ProjectedReference,
    view.referenceRefs.map (ownReference p view) = references.map some ∧
      references.map (·.referenceType) = referencesOf index view.key

/-- A projection that shows what the records say. -/
structure Represents (index : ReaderRecordIndex) (p : ReaderProjection) : Prop where
  views : (p.views.map ProjectedView.key).Perm (distinct (warranted index))
  represented : ∀ view ∈ p.views, Represented index p view
  sourced : ∀ segment ∈ p.segments, Sourced index segment
  fragments : (sourceFragments p).Perm (index.texts.map (·.id))
  owned : ∀ segment ∈ sourceSegments p, ∀ x ∈ index.texts, segment.fragmentRef = some x.id →
    ∀ key ∈ keyById p segment.view, key = viewOf index x.owner x.slot
  resolved : ∀ reference ∈ p.references, reference.resolved = false

/-! ## What is expected -/

section

variable {seeds : List ViewSeed}

theorem parentKey_eq {key : ReaderViewKey} {parent : Option ReaderViewKey}
    (h : parentKey index seeds key = .ok parent) : parent = containerOf index key := by
  unfold parentKey at h
  obtain ⟨container, hcontainer, h⟩ := bind_eq_ok_iff.mp h
  rw [containerOf, hcontainer]
  cases container with
  | none => exact (Except.ok.inj h).symm
  | some container =>
    obtain ⟨role, hrole, h⟩ := bind_eq_ok_iff.mp h
    rw [mapError_eq_ok_iff] at hrole
    dsimp only at h ⊢
    cases he : index.element container with
    | none => simp [roleOf, ReaderRecordIndex.roleOf, he] at hrole
    | some e =>
      obtain ⟨hmem, rfl⟩ := element_eq_some_iff.mp he
      obtain rfl := Except.ok.inj ((roleOf_of_mem hmem verifierErrors).symm.trans hrole)
      rw [Option.bind_some, structuralOf]
      cases hkind : structuralViewKind (roleOfTag e.clarkTag) with
      | none =>
        rw [hkind] at h
        cases h
      | some kind =>
        rw [hkind] at h
        dsimp only at h
        split_ifs at h
        exact (Except.ok.inj h).symm

theorem parents_eq {parents : List (Option ReaderViewKey)}
    (h : seeds.mapM (fun seed => parentKey index seeds seed.key) = .ok parents) :
    seeds.zip parents = seeds.map fun seed => (seed, containerOf index seed.key) := by
  have hparents : parents.map id = seeds.map fun seed => containerOf index seed.key :=
    map_eq_of_mapM h fun seed parent hparent => parentKey_eq hparent
  rw [List.map_id] at hparents
  have hzip := @List.zip_map' _ _ _ id (fun seed : ViewSeed => containerOf index seed.key) seeds
  rwa [List.map_id, ← hparents] at hzip

theorem seedOrder_eq {seed : ViewSeed}
    (hseed : index.sourcePos seed.elementRef = some seed.sourcePos) :
    seedOrder seed = keyOrder index seed.key := by
  rw [seedOrder, keyOrder, ViewSeed.key, hseed, Option.getD_some]

theorem keyOrder_injective : Function.Injective (keyOrder index) := by
  rintro ⟨kind, id⟩ ⟨kind', id'⟩ h
  simp only [keyOrder, toLex_inj, Prod.mk.injEq] at h
  obtain ⟨-, hrank, rfl⟩ := h
  congr 1
  cases kind <;> cases kind' <;> first | rfl | exact absurd hrank (by decide)

/-- The children of a view are the seeds below it, in their order. -/
theorem childrenOf_eq (hperm : (seeds.map ViewSeed.key).Perm (distinct (warranted index)))
    (hpositioned : Positioned index seeds)
    (hsorted : seeds.Pairwise (seedOrder · ≤ seedOrder ·)) (key : ReaderViewKey) :
    childrenOf index key =
      (seeds.filter fun seed => containerOf index seed.key = some key).map ViewSeed.key := by
  let below := seeds.filter fun seed => containerOf index seed.key = some key
  have hkeys : (below.map ViewSeed.key).Pairwise
      fun a b => keyOrder index a ≤ keyOrder index b := by
    refine List.pairwise_map.mpr ((hsorted.filter _).imp_of_mem ?_)
    intro a b ha hb hab
    rwa [← seedOrder_eq (hpositioned a (List.mem_filter.mp ha).1),
      ← seedOrder_eq (hpositioned b (List.mem_filter.mp hb).1)]
  have hsame : (below.map ViewSeed.key).Perm
      ((distinct (warranted index)).filter fun child => containerOf index child = some key) := by
    have hfilter := hperm.filter fun child => containerOf index child = some key
    rwa [List.filter_map] at hfilter
  rw [childrenOf, ← sortBy_eq_of_perm keyOrder_injective.injOn hsame, sortBy_eq_self hkeys]

/-- They are the children that the verifier expects. -/
theorem childKeys_eq (hperm : (seeds.map ViewSeed.key).Perm (distinct (warranted index)))
    (hpositioned : Positioned index seeds)
    (hsorted : seeds.Pairwise (seedOrder · ≤ seedOrder ·)) (key : ReaderViewKey) :
    childKeys (seeds.map fun seed => (seed, containerOf index seed.key)) key =
      childrenOf index key := by
  rw [childrenOf_eq hperm hpositioned hsorted, childKeys, List.filter_map, sortBy_eq_self,
    List.map_map]
  · rfl
  · exact List.pairwise_map.mpr (hsorted.filter _)

def expectedViewOf (index : ReaderRecordIndex) (key : ReaderViewKey) : ExpectedView where
  parent := containerOf index key
  children := childrenOf index key
  segments := tokensOf index key
  references := referencesOf index key

/-- What the verifier expects is what the records say, for each seed. -/
theorem buildExpected_eq (hroots : AllRooted index) (hagree : LinksAgree index) :
    ∃ seeds : List ViewSeed, (seeds.map ViewSeed.key).Perm (distinct (warranted index)) ∧
      buildExpected index = .ok ⟨seeds.map fun seed => (seed.key, expectedViewOf index seed.key),
        index.texts.map fun x => ⟨x.id, x.slot, viewOf index x.owner x.slot⟩⟩ := by
  obtain ⟨seeds, hseeds, hperm, hpositioned, hsorted⟩ := viewSeeds_ok hroots
  have hseeded : Seeded index seeds := fun key hkey => hperm.mem_iff.mpr (mem_distinct.mpr hkey)
  obtain ⟨parents, hparents⟩ : ∃ parents,
      seeds.mapM (fun seed => parentKey index seeds seed.key) = .ok parents := by
    rw [exists_mapM_ok_iff]
    intro seed hseed
    have hknown := known_of_mem_warranted hroots seed.key
      (mem_distinct.mp (hperm.mem_iff.mp (List.mem_map_of_mem hseed)))
    obtain ⟨id, hid, -⟩ := exists_parentView hroots hseeded hknown
    obtain ⟨parent, hparent, -⟩ := parentKey_ok hid
    exact ⟨parent, hparent⟩
  refine ⟨seeds, hperm, ?_⟩
  rw [buildExpected_ok hseeds (partitionPrimaryViews_eq hroots) hparents fun event hevent =>
    hseeded _ (mem_warranted_of_event hagree hevent), expectedOf, parents_eq hparents, List.map_map]
  congr 2
  refine List.map_congr_left fun seed _ => ?_
  have hevents : ((documentOrder index).map Event.of).filter (·.viewKey = seed.key) =
      eventsOf index seed.key := by
    rw [List.filter_map, eventsOf]
    congr 1
    exact List.filter_congr fun event _ => by simp
  simp only [Function.comp_apply, expectView, hevents, childKeys_eq hperm hpositioned hsorted]
  rfl

end

/-! ## Tokens and their texts -/

/-- No text has the id that a control has as a token. -/
def Distinguished (index : ReaderRecordIndex) : Prop :=
  ∀ x ∈ index.texts, ∀ kind : ReaderDerivedKind, x.id ≠ "derived:" ++ kind.asStr

theorem mem_tokensOf {key : ReaderViewKey} {fragment : FragmentRef} (hagree : LinksAgree index)
    (h : .source fragment ∈ tokensOf index key) : ∃ x ∈ index.texts, x.id = fragment := by
  obtain ⟨made, hmade, htoken⟩ := List.mem_filterMap.mp h
  obtain ⟨event, hevent, rfl⟩ := List.mem_map.mp hmade
  cases event with
  | fragment id slot owner view =>
    obtain rfl := Token.source.inj (Option.some.inj htoken)
    obtain ⟨x, hx, heq⟩ := hagree _ (mem_documentOrder_fragment (List.mem_filter.mp hevent).1).1
    exact ⟨x, hx, congrArg Prod.fst heq⟩
  | control element kind view => cases htoken
  | reference element type view => cases htoken

theorem asStr_injective {kind kind' : ReaderDerivedKind} (h : kind.asStr = kind'.asStr) :
    kind = kind' := by
  cases kind <;> cases kind' <;> first | rfl | exact absurd h (by decide)

/-- Among segments with sources, a text tells the token. -/
theorem actualSegmentToken_eq_iff (hids : Distinguished index) {s : ProjectedSegment}
    (hs : Sourced index s) {token : Token}
    (htoken : ∀ fragment, token = .source fragment → ∃ x ∈ index.texts, x.id = fragment) :
    actualSegmentToken s = tokenText token ↔ tokenOfSegment s = some token := by
  unfold Sourced at hs
  unfold actualSegmentToken tokenOfSegment
  cases horigin : s.origin with
  | sourceFragment =>
    rw [horigin] at hs
    obtain ⟨x, hx, hquotes⟩ := hs
    dsimp only
    rw [hquotes.fragmentRef, Option.getD_some, Option.map_some, Option.some.injEq]
    cases token with
    | source fragment => simp [tokenText]
    | derived kind => exact iff_of_false (hids x hx kind) (by simp)
  | derived kind =>
    dsimp only
    rw [Option.some.injEq]
    cases token with
    | source fragment =>
      obtain ⟨x, hx, rfl⟩ := htoken fragment rfl
      exact iff_of_false (fun h => hids x hx kind h.symm) (by simp)
    | derived kind' =>
      rw [tokenText, String.append_right_inj, Token.derived.injEq]
      exact ⟨asStr_injective, congrArg _⟩

theorem map_actualSegmentToken_iff (hids : Distinguished index) {segments : List ProjectedSegment}
    {tokens : List Token} (hsegments : ∀ s ∈ segments, Sourced index s)
    (htokens : ∀ fragment, .source fragment ∈ tokens → ∃ x ∈ index.texts, x.id = fragment) :
    segments.map actualSegmentToken = tokens.map tokenText ↔
      segments.map tokenOfSegment = tokens.map some := by
  induction segments generalizing tokens with
  | nil => cases tokens <;> simp
  | cons s segments ih =>
    cases tokens with
    | nil => simp
    | cons token tokens =>
      rw [List.forall_mem_cons] at hsegments
      simp only [List.map_cons, List.cons.injEq]
      rw [actualSegmentToken_eq_iff hids hsegments.1
          fun fragment h => htokens fragment (by simp [h]),
        ih hsegments.2 fun fragment h => htokens fragment (List.mem_cons_of_mem _ h)]

/-! ## The two say the same -/

theorem mem_of_ownSegment {view : ProjectedView} {ids : List SegmentId}
    {segments : List ProjectedSegment} (h : ids.map (ownSegment p view) = segments.map some)
    {s : ProjectedSegment} (hs : s ∈ segments) : s ∈ p.segments ∧ s.view = view.id := by
  have hmem : some s ∈ ids.map (ownSegment p view) := h ▸ List.mem_map_of_mem hs
  obtain ⟨id, -, hid⟩ := List.mem_map.mp hmem
  obtain ⟨hlast, hview⟩ := Option.filter_eq_some_iff.mp hid
  exact ⟨(lastOf_some hlast).1, by simpa using hview⟩

theorem matches_iff (hids : Distinguished index) (hagree : LinksAgree index)
    (hsourced : ∀ s ∈ p.segments, Sourced index s) {view : ProjectedView} :
    Matches p view (expectedViewOf index view.key) ↔ Represented index p view := by
  have htokens : ∀ segments : List ProjectedSegment,
      view.segmentRefs.map (ownSegment p view) = segments.map some →
        (segments.map actualSegmentToken = (tokensOf index view.key).map tokenText ↔
          segments.map tokenOfSegment = (tokensOf index view.key).map some) := fun segments h =>
    map_actualSegmentToken_iff hids (fun s hs => hsourced s (mem_of_ownSegment h hs).1)
      fun _ h => mem_tokensOf hagree h
  constructor
  · rintro ⟨hparent, hchildren, hempty, ⟨segments, hsegments, hown⟩, hreferences⟩
    exact ⟨hparent, hchildren, hempty, ⟨segments, hsegments, (htokens _ hsegments).mp hown⟩,
      hreferences⟩
  · rintro ⟨hparent, hchildren, hempty, ⟨segments, hsegments, hown⟩, hreferences⟩
    exact ⟨hparent, hchildren, hempty, ⟨segments, hsegments, (htokens _ hsegments).mpr hown⟩,
      hreferences⟩

section

variable {expected : Expected} (hpartition : expected.fragmentView =
  index.texts.map fun x => ⟨x.id, x.slot, viewOf index x.owner x.slot⟩)

include hpartition

theorem lastOf_fragmentView {x : TextRecord} (hx : x ∈ index.texts) :
    lastOf (·.fragment) expected.fragmentView x.id =
      some ⟨x.id, x.slot, viewOf index x.owner x.slot⟩ := by
  have hmem := List.mem_map_of_mem (f := fun x : TextRecord =>
    (⟨x.id, x.slot, viewOf index x.owner x.slot⟩ : PrimaryOwnership)) hx
  have hnodup : ((expected.fragmentView.reverse).map (·.fragment)).Nodup := by
    rw [List.map_reverse, List.nodup_reverse, hpartition, List.map_map]
    exact index.nodup_texts
  rw [← hpartition] at hmem
  exact find?_key hnodup (List.mem_reverse.mpr hmem)

/-- A segment stands in the view that owns its fragment. -/
theorem ownership_iff {s : ProjectedSegment} :
    (∀ owned, ownership p expected s = some owned → owned.2.2 = owned.2.1) ↔
      ∀ x ∈ index.texts, s.fragmentRef = some x.id →
        ∀ key ∈ keyById p s.view, key = viewOf index x.owner x.slot := by
  constructor
  · intro h x hx hfragment key hkey
    refine h (x.id, viewOf index x.owner x.slot, key) ?_
    rw [ownership, hfragment, Option.bind_eq_bind, Option.bind_some,
      lastOf_fragmentView hpartition hx, Option.bind_eq_bind, Option.bind_some,
      Option.mem_def.mp hkey]
    rfl
  · intro h owned howned
    simp only [ownership, Option.bind_eq_bind, Option.bind_eq_some_iff] at howned
    obtain ⟨fragment, hfragment, entry, hentry, key, hkey, howned⟩ := howned
    obtain rfl := Option.some.inj howned
    obtain ⟨hmem, rfl⟩ := lastOf_some hentry
    rw [hpartition] at hmem
    obtain ⟨x, hx, rfl⟩ := List.mem_map.mp hmem
    exact h x hx hfragment key hkey

theorem covers_iff : Covers p index expected ↔
    (sourceFragments p).Perm (index.texts.map (·.id)) ∧
      (∀ s ∈ sourceSegments p, ∀ x ∈ index.texts, s.fragmentRef = some x.id →
        ∀ key ∈ keyById p s.view, key = viewOf index x.owner x.slot) ∧
      ∀ reference ∈ p.references, reference.resolved = false := by
  have hknown : ∀ fragment, (index.text fragment).isSome ↔ fragment ∈ index.texts.map (·.id) := by
    intro fragment
    simp only [Option.isSome_iff_exists, text_eq_some_iff, List.mem_map]
  constructor
  · rintro ⟨hnodup, hmem, hcovered, hown, hresolved⟩
    refine ⟨(List.perm_ext_iff_of_nodup hnodup index.nodup_texts).mpr fun fragment =>
      ⟨fun h => (hknown fragment).mp (hmem fragment h), fun h => ?_⟩,
      fun s hs => (ownership_iff hpartition).mp (hown s hs), hresolved⟩
    obtain ⟨x, hx, rfl⟩ := List.mem_map.mp h
    exact hcovered x hx
  · rintro ⟨hperm, hown, hresolved⟩
    exact ⟨hperm.nodup_iff.mpr index.nodup_texts,
      fun fragment h => (hknown fragment).mpr (hperm.mem_iff.mp h),
      fun x hx => hperm.mem_iff.mpr (List.mem_map_of_mem hx),
      fun s hs => (ownership_iff hpartition).mpr (hown s hs), hresolved⟩

end

/-- The verifier accepts what shows the records, and nothing else. -/
theorem passes_iff (hroots : AllRooted index) (hagree : LinksAgree index)
    (hids : Distinguished index) : (∃ expected, buildExpected index = .ok expected ∧
      Passes p index expected) ↔ Represents index p := by
  obtain ⟨seeds, hperm, hexpected⟩ := buildExpected_eq hroots hagree
  have hnodup : (seeds.map ViewSeed.key).Nodup := hperm.nodup_iff.mpr (nodup_distinct _)
  simp only [hexpected, Except.ok.injEq, exists_eq_left']
  constructor
  · rintro ⟨⟨hviews, hwarranted, hshown⟩, hsourced, hcovers⟩
    obtain ⟨hfragments, howned, hresolved⟩ := (covers_iff rfl).mp hcovers
    have hkeys : ∀ view ∈ p.views, view.key ∈ seeds.map ViewSeed.key := by
      intro view hview
      simpa [List.map_map] using hwarranted view hview
    refine ⟨((List.perm_ext_iff_of_nodup hviews hnodup).mpr fun key => ⟨?_, ?_⟩).trans hperm, ?_,
      hsourced, hfragments, howned, hresolved⟩
    · intro hkey
      obtain ⟨view, hview, rfl⟩ := List.mem_map.mp hkey
      exact hkeys view hview
    · intro hkey
      obtain ⟨seed, hseed, rfl⟩ := List.mem_map.mp hkey
      obtain ⟨view, hview, hkey, -⟩ := hshown _ (List.mem_map_of_mem hseed)
      exact List.mem_map.mpr ⟨view, hview, hkey⟩
    · intro view hview
      obtain ⟨seed, hseed, hkey⟩ := List.mem_map.mp (hkeys view hview)
      obtain ⟨view', hview', hkey', hmatches⟩ := hshown _ (List.mem_map_of_mem hseed)
      obtain rfl := List.inj_on_of_nodup_map hviews hview' hview (hkey'.trans hkey)
      dsimp only at hmatches
      rw [hkey] at hmatches
      exact (matches_iff hids hagree hsourced).mp hmatches
  · rintro ⟨hviews, hrepresented, hsourced, hfragments, howned, hresolved⟩
    have hsame := hviews.trans hperm.symm
    refine ⟨⟨hsame.nodup_iff.mpr hnodup, fun view hview => ?_, fun entry hentry => ?_⟩, hsourced,
      (covers_iff rfl).mpr ⟨hfragments, howned, hresolved⟩⟩
    · simpa [List.map_map] using hsame.mem_iff.mp (List.mem_map_of_mem hview)
    · obtain ⟨seed, hseed, rfl⟩ := List.mem_map.mp hentry
      obtain ⟨view, hview, hkey⟩ := List.mem_map.mp
        (hsame.mem_iff.mpr (List.mem_map_of_mem hseed))
      refine ⟨view, hview, hkey, ?_⟩
      dsimp only
      rw [← hkey]
      exact (matches_iff hids hagree hsourced).mpr (hrepresented view hview)

/-! ## Verified packages -/

theorem textId_ne (i : Nat) (kind : ReaderDerivedKind) :
    SourcePackage.textId i ≠ "derived:" ++ kind.asStr := by
  intro h
  have hhead := congrArg (fun text => text.toList.head?) h
  simp [SourcePackage.textId] at hhead

/-- What a verified package is to the verifier. -/
theorem exists_verified {serde : SerdeJson} {sha256 : List UInt8 → List UInt8} {package : Package}
    {limits : Limits} (h : verifyPackage serde sha256 package limits = .ok ()) : ∃ index,
      new package.records = .ok index ∧ AllRooted index ∧
        (links index).Perm (index.texts.map linkOf) ∧ Distinguished index := by
  obtain ⟨E, X, root, hrecords, hne, hchecked⟩ := exists_checked h
  obtain ⟨index, hnew⟩ := exists_index hchecked
  obtain ⟨hE, hX⟩ := sections_of_new hnew
  obtain ⟨first, -⟩ := List.exists_mem_of_ne_nil E hne
  obtain ⟨-, -, -, -, hroots⟩ := exists_walk_eq hchecked hne hE first
  refine ⟨index, hrecords ▸ hnew, hroots, by rw [links_eq hchecked hne hE, hX], fun x hx kind => ?_⟩
  rw [hX] at hx
  obtain ⟨i, hi, rfl⟩ := List.getElem_of_mem hx
  rw [hchecked.ids.text (List.getElem?_eq_getElem hi)]
  exact textId_ne i kind

/-- What the verifier says of a projection of a verified package. -/
theorem verifyProjection_of_verified {records : List Record} (hnew : new records = .ok index)
    (hroots : AllRooted index) (hlinks : (links index).Perm (index.texts.map linkOf))
    (hids : Distinguished index) : verifyProjection p records = .ok () ↔ Represents index p := by
  rw [verifyProjection_ok_iff]
  simp only [hnew, Except.ok.injEq, exists_and_left, exists_eq_left']
  exact passes_iff hroots (linksAgree_of_perm hlinks) hids

/-- The verifier accepts the projections that show what the records say, and no others. -/
theorem verifyProjection_iff_represents {serde : SerdeJson} {sha256 : List UInt8 → List UInt8}
    {package : Package} {limits : Limits} (p : ReaderProjection)
    (h : verifyPackage serde sha256 package limits = .ok ()) :
    verifyProjection p package.records = .ok () ↔
      ∃ index, new package.records = .ok index ∧ Represents index p := by
  obtain ⟨index, hnew, hroots, hlinks, hids⟩ := exists_verified h
  rw [verifyProjection_of_verified hnew hroots hlinks hids]
  simp only [hnew, Except.ok.injEq, exists_eq_left']

namespace Verifier.Sample

open SourcePackage.Sample (serde sha256 signed limits verifyPackage_signed)

/-- The projection of `<p/>`. -/
def lone : ReaderProjection where
  views := [⟨"v0", .residual, "e0", none, [], [], ["r0"], ⟨true⟩⟩]
  segments := []
  references := [⟨"r0", "v0", 0, .foreignElement, "e0", 0, false⟩]
  contentHash := none

theorem lone_represents : verifyProjection lone signed.records = .ok () ↔
    ∃ index, new signed.records = .ok index ∧ Represents index lone :=
  verifyProjection_iff_represents lone verifyPackage_signed

end Verifier.Sample

end LawNexus.Reader
