import LawNexus.Reader.Built

/-!
# The verifier and the builder

What the builder makes of a verified package shows what the records say, so the verifier accepts it.
-/

namespace LawNexus.Reader

open Forest SourcePackage Loops ReaderRecordIndex Verifier

namespace Projection

variable {index : ReaderRecordIndex}

/-! ## One segment -/

theorem mem_documentOrder_control {element : ElementRef} {kind : ReaderDerivedKind}
    {key : ReaderViewKey} (h : .control element kind key ∈ documentOrder index) :
    ∃ e ∈ index.elements, e.id = element ∧ roleOfTag e.clarkTag = .control ∧
      controlDerivedKind e.clarkTag e.attrs = some kind := by
  obtain ⟨step, hstep, hmem⟩ := List.mem_flatMap.mp h
  obtain ⟨he, -⟩ := mem_walk hstep
  have hnone : ∀ {e : ElementRecord} {slot : TextSlot} {reference : Option FragmentRef},
      .control element kind key ∉ textOrder index e slot reference := by
    intro e slot reference hmem
    obtain ⟨id, -, heq⟩ := List.mem_map.mp hmem
    cases heq
  cases step with
  | node e =>
    rw [stepOrder, List.mem_append, List.mem_append] at hmem
    rcases hmem with (hmem | hmem) | hmem
    · exact absurd hmem hnone
    · unfold controlOrder at hmem
      split_ifs at hmem with hrole
      · obtain ⟨kind', hkind, heq⟩ := List.mem_map.mp hmem
        cases heq
        exact ⟨e, he, rfl, hrole.1, Option.mem_toList.mp hkind⟩
      · cases hmem
    · unfold referenceOrder at hmem
      split_ifs at hmem
      · obtain ⟨type, -, heq⟩ := List.mem_map.mp hmem
        cases heq
      · cases hmem
  | tail e => exact absurd hmem hnone

/-- A segment that shows an event has its source in the records. -/
theorem Renders.sourced {view : ViewId} {s : ProjectedSegment} {event : ProjectionEvent}
    (h : Renders index view s event) (hagree : LinksAgree index)
    (hevent : event ∈ documentOrder index) : Sourced index s := by
  cases event with
  | fragment id slot owner key =>
    obtain ⟨x, semantic, pos, hx, hne, hsemantic, hpos, heq⟩ := h
    obtain ⟨hmem, rfl⟩ := text_eq_some_iff.mp hx
    obtain ⟨x', hx', hlink⟩ := hagree _ (mem_documentOrder_fragment hevent).1
    simp only [Prod.mk.injEq] at hlink
    obtain ⟨hid, howner, hslot⟩ := hlink
    obtain rfl := List.inj_on_of_nodup_map index.nodup_texts hx' hmem hid
    subst howner hslot
    rw [heq]
    exact ⟨x', hmem, rfl, rfl, rfl, hne, rfl, rfl, textSemantic_ok _ hsemantic, rfl, rfl, hpos, rfl⟩
  | control element kind key =>
    obtain ⟨pos, hpos, heq⟩ := h
    obtain ⟨e, he, rfl, hrole, hkind⟩ := mem_documentOrder_control hevent
    rw [heq]
    refine ⟨rfl, ⟨rfl, rfl⟩, rfl, ?_, rfl, rfl, rfl, rfl⟩
    simp [isControl, element_of_mem he, ReaderRecordIndex.roleOf, hrole, hkind]
  | reference element type key => exact h.elim

theorem Renders.tokenOfSegment_eq {view : ViewId} {s : ProjectedSegment} {event : ProjectionEvent}
    (h : Renders index view s event) : tokenOfSegment s = (Event.of event).token := by
  cases event with
  | fragment id slot owner key =>
    obtain ⟨x, semantic, pos, -, -, -, -, heq⟩ := h
    rw [heq]
    rfl
  | control element kind key =>
    obtain ⟨pos, -, heq⟩ := h
    rw [heq]
    rfl
  | reference element type key => exact h.elim

theorem Cites.referenceType_eq {view : ViewId} {r : ProjectedReference} {event : ProjectionEvent}
    (h : Cites index view r event) : some r.referenceType = (Event.of event).referenceType := by
  cases event with
  | reference element type key =>
    obtain ⟨pos, -, heq⟩ := h
    rw [heq]
    rfl
  | fragment id slot owner key => exact h.elim
  | control element kind key => exact h.elim

/-! ## One view -/

section

variable {view : ViewId} {own : List ProjectionEvent} {segments : List ProjectedSegment}
  {references : List ProjectedReference}

theorem filterMap_token (own : List ProjectionEvent) :
    ((own.map Event.of).filterMap Event.token).map some =
      (own.filter isSegment).map fun event => (Event.of event).token := by
  induction own with
  | nil => rfl
  | cons event own ih =>
    cases event with
    | reference element type key => exact ih
    | fragment id slot owner key => exact congrArg (some (Token.source id) :: ·) ih
    | control element kind key => exact congrArg (some (Token.derived kind) :: ·) ih

theorem filterMap_referenceType (own : List ProjectionEvent) :
    ((own.map Event.of).filterMap Event.referenceType).map some =
      (own.filter (!isSegment ·)).map fun event => (Event.of event).referenceType := by
  induction own with
  | nil => rfl
  | cons event own ih =>
    cases event with
    | reference element type key => exact congrArg (some type :: ·) ih
    | fragment id slot owner key => exact ih
    | control element kind key => exact ih

theorem Shows.tokens_eq (h : Shows index view own segments references) :
    segments.map tokenOfSegment = ((own.map Event.of).filterMap Event.token).map some := by
  rw [filterMap_token, ← List.forall₂_eq_eq_eq, List.forall₂_map_left_iff,
    List.forall₂_map_right_iff]
  exact h.rendered.imp fun _ _ => Renders.tokenOfSegment_eq

theorem Shows.referenceTypes_eq (h : Shows index view own segments references) :
    references.map (·.referenceType) =
      (own.map Event.of).filterMap Event.referenceType := by
  refine List.map_injective_iff.mpr (Option.some_injective _) ?_
  rw [filterMap_referenceType, List.map_map, ← List.forall₂_eq_eq_eq, List.forall₂_map_left_iff,
    List.forall₂_map_right_iff]
  exact h.cited.imp fun _ _ => Cites.referenceType_eq

theorem Shows.view_eq (h : Shows index view own segments references) :
    (∀ s ∈ segments, s.view = view) ∧ ∀ r ∈ references, r.view = view := by
  constructor
  · intro s hs
    obtain ⟨event, -, hrenders⟩ := (forall₂_partner h.rendered).1 s hs
    cases event with
    | fragment id slot owner key =>
      obtain ⟨x, semantic, pos, -, -, -, -, heq⟩ := hrenders
      rw [heq]
    | control element kind key =>
      obtain ⟨pos, -, heq⟩ := hrenders
      rw [heq]
    | reference element type key => exact hrenders.elim
  · intro r hr
    obtain ⟨event, -, hcites⟩ := (forall₂_partner h.cited).1 r hr
    cases event with
    | reference element type key =>
      obtain ⟨pos, -, heq⟩ := hcites
      rw [heq]
    | fragment id slot owner key => exact hcites.elim
    | control element kind key => exact hcites.elim

end

namespace Stages

variable {records : List Record} {p : ReaderProjection} (stages : Stages records p)

/-! ## The views -/

theorem views_map_key : p.views.map ProjectedView.key = stages.seeds.map ViewSeed.key := by
  rw [stages.flags_eq, List.map_map]
  exact (stages.filled_spec.map_eq ProjectedView.key fun _ _ _ => rfl).trans stages.listed.key

theorem views_map_id : p.views.map (·.id) = stages.linked.map (·.id) := by
  rw [stages.flags_eq, List.map_map]
  exact stages.filled_spec.map_eq (·.id) fun _ _ _ => rfl

theorem nodup_viewIds (stages : Stages records p) : (p.views.map (·.id)).Nodup := by
  rw [stages.views_map_id, map_key_eq fun hv => stages.listed.id hv]
  exact List.nodup_range.map fun _ _ => viewId_inj.mp

theorem getElem?_linked {i : Nat} {seed : ViewSeed} (hseed : stages.seeds[i]? = some seed) :
    stages.linked[i]? = some {
      viewOfSeed stages.index stages.seeds (seed, i) with
      children := childViews stages.views (stages.seeds.map (·.sourcePos)) i } := by
  have hviews := projectViews_eq stages.views_eq
  rw [linked, getElem?_withChildren]
  conv_lhs => rw [hviews]
  rw [List.getElem?_map, List.getElem?_zipIdx, hseed, ← hviews]
  simp

/-- No event is placed at a view of structure. -/
theorem eventsAt_navigation {i : Nat} {v : ProjectedView} (hv : stages.linked[i]? = some v)
    (hkind : v.kind.isPrimary = false) : eventsAt stages.placed i = [] := by
  rw [List.eq_nil_iff_forall_not_mem]
  intro event hevent
  rw [mem_eventsAt] at hevent
  obtain ⟨w, hw, hkey⟩ := stages.placed_spec.view _ hevent
  obtain rfl := Option.some.inj (hw.symm.trans hv)
  have hplaced : event ∈ documentOrder stages.index := by
    rw [← stages.placed_spec.events_eq]
    exact List.mem_map_of_mem hevent
  have hprimary := primary_of_mem_documentOrder hplaced
  rw [← hkey] at hprimary
  cases hkind.symm.trans hprimary

/-- Each seed with the view that it became. -/
theorem exists_shown {i : Nat} {seed : ViewSeed} (hseed : stages.seeds[i]? = some seed) :
    ∃ own cited, Shows stages.index (viewId i) (eventsAt stages.placed i) own cited ∧
      (∃ k, Numbered k 0 0 own) ∧ own ⊆ p.segments ∧ cited ⊆ p.references ∧
      p.views[i]? = some (withFlags {
        viewOfSeed stages.index stages.seeds (seed, i) with
        children := childViews stages.views (stages.seeds.map (·.sourcePos)) i
        segmentRefs := own.map (·.id), referenceRefs := cited.map (·.id) }) := by
  have hnavigation : ∀ i v, stages.linked[i]? = some v → v.kind.isPrimary = false →
      eventsAt stages.placed (0 + i) = [] ∧ v.segmentRefs = [] ∧ v.referenceRefs = [] := by
    intro i v hv hkind
    rw [Nat.zero_add]
    refine ⟨stages.eventsAt_navigation hv hkind, ?_⟩
    obtain ⟨hi, -⟩ := List.getElem?_eq_some_iff.mp hv
    rw [stages.listed.length_eq] at hi
    obtain rfl :=
      Option.some.inj ((stages.getElem?_linked (List.getElem?_eq_getElem hi)).symm.trans hv)
    exact ⟨rfl, rfl⟩
  obtain ⟨own, cited, hshows, hnumbered, hown, hcited, hview⟩ :=
    stages.filled_spec.exists_shown hnavigation (stages.getElem?_linked hseed)
  rw [Nat.zero_add] at hshows
  refine ⟨own, cited, hshows, hnumbered, hown, hcited, ?_⟩
  rw [stages.flags_eq, List.getElem?_map, hview, Option.map_some]

/-- The id of a view of the projection leads to the key of its seed. -/
theorem keyById_viewId {i : Nat} {seed : ViewSeed} (hseed : stages.seeds[i]? = some seed) :
    keyById p (viewId i) = some seed.key := by
  obtain ⟨own, cited, -, -, -, -, hview⟩ := stages.exists_shown hseed
  have hlast := lastOf_of_nodup stages.nodup_viewIds (List.mem_of_getElem? hview)
  rw [keyById]
  exact congrArg (Option.map ProjectedView.key) hlast

theorem nodup_keys (hroots : AllRooted stages.index) : (stages.seeds.map ViewSeed.key).Nodup := by
  obtain ⟨seeds, hseeds, hperm, -⟩ := viewSeeds_ok hroots
  obtain rfl := Except.ok.inj (stages.seeds_eq.symm.trans hseeds)
  exact hperm.nodup_iff.mpr (nodup_distinct _)

theorem parent_eq (hroots : AllRooted stages.index) {i : Nat} {seed : ViewSeed}
    (hseed : stages.seeds[i]? = some seed) :
    ((containerOf stages.index seed.key).bind (idByKey stages.seeds)).map (keyById p) =
      (containerOf stages.index seed.key).map some := by
  obtain ⟨hi, -⟩ := List.getElem?_eq_some_iff.mp hseed
  have hentry : (seed, i) ∈ stages.seeds.zipIdx := List.mem_zipIdx_iff_getElem?.mpr hseed
  obtain ⟨v, -, hv⟩ := (forall₂_partner (mapM_eq_ok_iff.mp stages.views_eq)).1 _ hentry
  obtain ⟨id, hid, -⟩ := bind_eq_ok_iff.mp hv
  obtain ⟨parent, hparent, -, hmem⟩ := parentKey_ok hid
  obtain rfl := parentKey_eq hparent
  cases hcontainer : containerOf stages.index seed.key with
  | none => rfl
  | some key =>
    obtain ⟨seed', hseed', rfl⟩ := List.mem_map.mp (hmem key hcontainer)
    obtain ⟨j, hj⟩ := List.mem_iff_getElem?.mp hseed'
    rw [Option.bind_some, idByKey, findIdx?_key (stages.nodup_keys hroots) hj, Option.map_some,
      Option.map_some, stages.keyById_viewId hj, Option.map_some]

/-- The order of the seeds is finer than that of the children. -/
theorem seedOrder_le_place {a b : ViewSeed} (hab : seedOrder a ≤ seedOrder b) :
    toLex (a.sourcePos, viewKindRank a.kind) ≤ toLex (b.sourcePos, viewKindRank b.kind) := by
  simp only [seedOrder, Prod.Lex.toLex_le_toLex] at hab ⊢
  rcases hab with hlt | ⟨heq, hlt | ⟨hrank, -⟩⟩
  · exact Or.inl hlt
  · exact Or.inr ⟨heq, Nat.le_of_lt hlt⟩
  · exact Or.inr ⟨heq, Nat.le_of_eq hrank⟩

/-- The children of a view are the seeds below it, in their order. -/
theorem children_eq (hroots : AllRooted stages.index) {i : Nat} {seed : ViewSeed}
    (hseed : stages.seeds[i]? = some seed) :
    (childViews stages.views (stages.seeds.map (·.sourcePos)) i).map (keyById p) =
      (childrenOf stages.index seed.key).map some := by
  obtain ⟨seeds, hseeds, hperm, hpositioned, hsorted⟩ := viewSeeds_ok hroots
  obtain rfl := Except.ok.inj (stages.seeds_eq.symm.trans hseeds)
  have hviews := projectViews_eq stages.views_eq
  have hlisted := listed_of_mapM stages.views_eq
  -- Each seed comes with the view that it becomes and with its place.
  have hzip : stages.views.zip (stages.seeds.map (·.sourcePos)) = stages.seeds.zipIdx.map
      fun entry => (viewOfSeed stages.index stages.seeds entry, entry.1.sourcePos) := by
    conv_lhs => rw [hviews, ← List.zipIdx_map_fst 0 stages.seeds]
    rw [List.map_map, List.zipIdx_map_fst]
    exact List.zip_map'
  have hbelow : (stages.views.zip (stages.seeds.map (·.sourcePos))).filter
      (fun child => child.1.parentView.bind (positionOf stages.views) = some i) =
        (stages.seeds.zipIdx.filter fun entry =>
          containerOf stages.index entry.1.key = some seed.key).map
            fun entry => (viewOfSeed stages.index stages.seeds entry, entry.1.sourcePos) := by
    rw [hzip, List.filter_map]
    congr 1
    refine List.filter_congr fun entry _ => ?_
    rw [Function.comp_apply, decide_eq_decide]
    exact position_iff hlisted (stages.nodup_keys hroots) hseed
  have hordered : stages.seeds.zipIdx.Pairwise fun a b => seedOrder a.1 ≤ seedOrder b.1 := by
    have hfirst := hsorted
    rwa [← List.zipIdx_map_fst 0 stages.seeds, List.pairwise_map] at hfirst
  have hfilter : stages.seeds.filter (fun child =>
      containerOf stages.index child.key = some seed.key) =
        (stages.seeds.zipIdx.filter fun entry =>
          containerOf stages.index entry.1.key = some seed.key).map Prod.fst := by
    conv_lhs => rw [← List.zipIdx_map_fst 0 stages.seeds]
    rw [List.filter_map]
    rfl
  rw [childrenOf_eq hperm hpositioned hsorted, hfilter, childViews, hbelow, sortBy_eq_self]
  · simp only [List.map_map]
    refine List.map_congr_left fun entry hentry => ?_
    have hat := List.mem_zipIdx_iff_getElem?.mp (List.mem_filter.mp hentry).1
    exact stages.keyById_viewId hat
  · exact List.pairwise_map.mpr ((hordered.filter _).imp seedOrder_le_place)

theorem exists_seed {i : Nat} {view : ProjectedView} (hi : p.views[i]? = some view) :
    ∃ seed, stages.seeds[i]? = some seed := by
  have hkeys := congrArg (·[i]?) stages.views_map_key
  simp only [List.getElem?_map, hi, Option.map_some] at hkeys
  obtain ⟨seed, hseed, -⟩ := Option.map_eq_some_iff.mp hkeys.symm
  exact ⟨seed, hseed⟩

/-- The views are numbered, and each has its segments in the order of their ordinals. -/
theorem numbered (stages : Stages records p) {i : Nat} {view : ProjectedView}
    (hi : p.views[i]? = some view) : view.id = viewId i ∧
      ((view.segmentRefs.filterMap p.segmentById).map (·.ordinal)).Pairwise (· ≤ ·) := by
  obtain ⟨seed, hseed⟩ := stages.exists_seed hi
  obtain ⟨own, cited, -, ⟨k, hnumbered⟩, hown, -, hat⟩ := stages.exists_shown hseed
  obtain rfl := Option.some.inj (hat.symm.trans hi)
  refine ⟨rfl, ?_⟩
  have hsegments : (own.map (·.id)).filterMap p.segmentById = own := by
    rw [List.filterMap_map]
    refine (List.filterMap_congr fun s hs => ?_).trans List.filterMap_some
    exact lastOf_of_nodup stages.filled_spec.nodup_ids.1 (hown hs)
  rw [withFlags]
  dsimp only
  rw [hsegments, hnumbered.ordinals_eq]
  exact List.pairwise_le_range' 1

theorem represented (hroots : AllRooted stages.index) {view : ProjectedView}
    (hview : view ∈ p.views) : Represented stages.index p view := by
  obtain ⟨i, hi⟩ := List.mem_iff_getElem?.mp hview
  obtain ⟨seed, hseed⟩ := stages.exists_seed hi
  obtain ⟨own, cited, hshows, -, hown, hcited, hat⟩ := stages.exists_shown hseed
  obtain rfl := Option.some.inj (hat.symm.trans hi)
  rw [eventsAt_eq stages.listed (stages.nodup_keys hroots) stages.placed_spec hseed] at hshows
  have htokens := hshows.tokens_eq
  have hchildren := stages.children_eq hroots hseed
  obtain ⟨hsegments, hreferences⟩ := stages.filled_spec.nodup_ids
  refine ⟨stages.parent_eq hroots hseed, hchildren, ?_, ⟨own, ?_, htokens⟩, ⟨cited, ?_,
    hshows.referenceTypes_eq⟩⟩
  · have hempty := congrArg List.isEmpty htokens
    have hleaf := congrArg List.isEmpty hchildren
    simp only [List.isEmpty_map] at hempty hleaf
    rw [withFlags]
    dsimp only
    rw [List.isEmpty_map, hempty, hleaf]
    rfl
  · rw [withFlags, List.map_map]
    refine List.map_congr_left fun s hs => ?_
    exact filter_of_lastOf (lastOf_of_nodup hsegments (hown hs)) (hshows.view_eq.1 s hs)
  · rw [withFlags, List.map_map]
    refine List.map_congr_left fun r hr => ?_
    exact filter_of_lastOf (lastOf_of_nodup hreferences (hcited hr)) (hshows.view_eq.2 r hr)

/-! ## The whole -/

/-- Every segment shows an event of the document, in the view of the event. -/
theorem exists_event {s : ProjectedSegment} (hs : s ∈ p.segments) : ∃ event,
    event ∈ documentOrder stages.index ∧ keyById p s.view = some event.viewKey ∧
      ∃ view, Renders stages.index view s event := by
  obtain ⟨i, v, event, hv, -, hevent, hrenders⟩ := stages.filled_spec.exists_event hs
  rw [Nat.zero_add, mem_eventsAt] at hevent
  have hmem : event ∈ documentOrder stages.index := by
    rw [← stages.placed_spec.events_eq]
    exact List.mem_map_of_mem hevent
  obtain ⟨w, hw, hkey⟩ := stages.placed_spec.view _ hevent
  obtain rfl := Option.some.inj (hw.symm.trans hv)
  have hkeys := congrArg (·[i]?) stages.listed.key
  simp only [List.getElem?_map, hw, Option.map_some] at hkeys
  obtain ⟨seed, hseed, hsame⟩ := Option.map_eq_some_iff.mp hkeys.symm
  have hview : s.view = viewId i := by
    have hid : w.id = viewId i := stages.listed.id hw
    rw [← hid]
    cases event with
    | fragment id slot owner key =>
      obtain ⟨x, semantic, pos, -, -, -, -, heq⟩ := hrenders
      rw [heq]
    | control element kind key =>
      obtain ⟨pos, -, heq⟩ := hrenders
      rw [heq]
    | reference element type key => exact hrenders.elim
  refine ⟨event, hmem, ?_, w.id, hrenders⟩
  rw [hview, stages.keyById_viewId hseed, hsame, hkey]

/-- A built projection shows what the records say. -/
theorem represents (hroots : AllRooted stages.index)
    (hlinks : (links stages.index).Perm (stages.index.texts.map linkOf)) :
    Represents stages.index p := by
  have hagree := linksAgree_of_perm hlinks
  obtain ⟨seeds, hseeds, hperm, -⟩ := viewSeeds_ok hroots
  obtain rfl := Except.ok.inj (stages.seeds_eq.symm.trans hseeds)
  have hsourced : ∀ s ∈ p.segments, Sourced stages.index s := by
    intro s hs
    obtain ⟨event, hevent, -, view, hrenders⟩ := stages.exists_event hs
    exact hrenders.sourced hagree hevent
  refine ⟨stages.views_map_key ▸ hperm, fun view hview => stages.represented hroots hview, hsourced,
    ?_, ?_, fun r hr => stages.filled_spec.resolved hr⟩
  · have hfragments : sourceFragments p = p.segments.filterMap (·.fragmentRef) := by
      rw [sourceFragments, sourceSegments, List.filterMap_filter]
      refine List.filterMap_congr fun s hs => ?_
      have hs := hsourced s hs
      unfold Sourced at hs
      cases horigin : s.origin with
      | sourceFragment => rfl
      | derived kind =>
        rw [horigin] at hs
        exact hs.source.1.symm
    have hshown := (fragments_perm stages.filled_spec stages.placed_spec).trans (hlinks.map (·.1))
    rwa [List.map_map, ← hfragments] at hshown
  · intro s hs x hx hfragment key hkey
    obtain ⟨event, hevent, hview, view, hrenders⟩ := stages.exists_event (List.mem_filter.mp hs).1
    obtain rfl := Option.some.inj ((Option.mem_def.mp hkey).symm.trans hview)
    obtain ⟨slot, owner, key, rfl, -⟩ := hrenders.fragmentRef_eq_some hfragment
    obtain ⟨hlink, hslot⟩ := mem_documentOrder_fragment hevent
    obtain ⟨x', hx', heq⟩ := hagree _ hlink
    simp only [Prod.mk.injEq] at heq
    obtain ⟨hid, howner, hxslot⟩ := heq
    obtain rfl := List.inj_on_of_nodup_map stages.index.nodup_texts hx' hx hid
    rw [howner, hxslot, viewOf, hslot]
    rfl

end Stages

end Projection

namespace Verifier

/-- The verifier accepts what the builder makes of a verified package. -/
theorem verifyProjection_built (serde : SerdeJson) (sha256 : List UInt8 → List UInt8)
    (package : Package) (limits : Limits) (p : ReaderProjection)
    (hpackage : verifyPackage serde sha256 package limits = .ok ())
    (hbuilt : Projection.buildProjection package.records = .ok p) :
    verifyProjection p package.records = .ok () := by
  obtain ⟨index, hnew, hroots, hlinks, hids⟩ := exists_verified hpackage
  obtain ⟨stages⟩ := Projection.nonempty_stages hbuilt
  obtain rfl := Except.ok.inj (stages.index_eq.symm.trans hnew)
  exact (verifyProjection_of_verified hnew hroots hlinks hids).mpr (stages.represents hroots hlinks)

namespace Sample

open SourcePackage.Sample (serde sha256 signed limits verifyPackage_signed)

theorem lone_honest : verifyProjection lone signed.records = .ok () :=
  verifyProjection_built serde sha256 signed limits lone verifyPackage_signed (by decide)

end Sample

end Verifier

end LawNexus.Reader
