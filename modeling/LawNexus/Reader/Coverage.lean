import LawNexus.Reader.Fill
import LawNexus.SourcePackage.Passes

/-!
# Whose text a segment shows

The segments follow the links of the elements, the partition follows the owners of the texts.
-/

namespace LawNexus.Reader

open Forest SourcePackage Loops ReaderRecordIndex

theorem viewId_inj {i j : Nat} : Projection.viewId i = Projection.viewId j ↔ i = j :=
  Texts.append_repr_inj

namespace Projection

variable {index : ReaderRecordIndex} {seeds : List ViewSeed} {views : List ProjectedView}
  {placed : List (Nat × ProjectionEvent)}

/-! ## The stages of the build -/

/-- What the stages of a build that ends in a projection have given. -/
structure Stages (records : List Record) (p : ReaderProjection) where
  index : ReaderRecordIndex
  seeds : List ViewSeed
  views : List ProjectedView
  placed : List (Nat × ProjectionEvent)
  filled : List ProjectedView
  index_eq : ReaderRecordIndex.new records = .ok index
  seeds_eq : viewSeeds index = .ok seeds
  views_eq : seeds.zipIdx.mapM (projectView index seeds) = .ok views
  parents_eq : views.forM (checkParentView views) = .ok ()
  placed_eq : (documentOrder index).mapM
    (eventPosition seeds (withChildren views (seeds.map (·.sourcePos)))) = .ok placed
  filled_eq : fillViews index placed 0 [] [] (withChildren views (seeds.map (·.sourcePos))) =
    .ok (filled, p.segments, p.references)
  coverage_eq : checkCoverage index p.segments = .ok ()
  flags_eq : p.views = filled.map withFlags
  contentHash_eq : p.contentHash = none

theorem stop_eq_ok_iff {ε α : Type} {errors : WalkErrors ε} {r : Except (Stop ContractError) α}
    {a : α} : errors.stop r = .ok a ↔ r = .ok a := by
  cases r <;> simp [WalkErrors.stop, Except.mapError]

theorem nonempty_stages {records : List Record} {p : ReaderProjection}
    (h : buildProjection records = .ok p) : Nonempty (Stages records p) := by
  unfold buildProjection at h
  obtain ⟨index, hindex, h⟩ := bind_eq_ok_iff.mp h
  obtain ⟨seeds, hseeds, h⟩ := bind_eq_ok_iff.mp h
  obtain ⟨views, hviews, h⟩ := bind_eq_ok_iff.mp h
  obtain ⟨⟨⟩, hparents, h⟩ := bind_eq_ok_iff.mp h
  rw [documentEvents_eq, ok_bind] at h
  obtain ⟨placed, hplaced, h⟩ := bind_eq_ok_iff.mp h
  obtain ⟨⟨filled, segments, references⟩, hfilled, h⟩ := bind_eq_ok_iff.mp h
  obtain ⟨⟨⟩, hcoverage, h⟩ := bind_eq_ok_iff.mp h
  obtain rfl := Except.ok.inj h
  exact ⟨⟨index, seeds, views, placed, filled, mapError_eq_ok_iff.mp (stop_eq_ok_iff.mp hindex),
    hseeds, hviews, hparents, hplaced, hfilled, hcoverage, rfl, rfl⟩⟩

theorem exists_buildProjection {records : List Record} {filled : List ProjectedView}
    {segments : List ProjectedSegment} {references : List ProjectedReference}
    (hindex : ReaderRecordIndex.new records = .ok index) (hseeds : viewSeeds index = .ok seeds)
    (hviews : seeds.zipIdx.mapM (projectView index seeds) = .ok views)
    (hparents : views.forM (checkParentView views) = .ok ())
    (hplaced : (documentOrder index).mapM
      (eventPosition seeds (withChildren views (seeds.map (·.sourcePos)))) = .ok placed)
    (hfilled : fillViews index placed 0 [] [] (withChildren views (seeds.map (·.sourcePos))) =
      .ok (filled, segments, references))
    (hcoverage : checkCoverage index segments = .ok ()) :
    ∃ p, buildProjection records = .ok p := by
  unfold buildProjection
  rw [stop_eq_ok_iff.mpr (mapError_eq_ok_iff.mpr hindex), ok_bind, hseeds, ok_bind, hviews, ok_bind,
    hparents, ok_bind, documentEvents_eq, ok_bind]
  dsimp only
  rw [hplaced, ok_bind, hfilled, ok_bind]
  dsimp only
  rw [hcoverage, ok_bind]
  exact ⟨_, rfl⟩

/-! ## The views of the seeds -/

theorem projectView_ok {entry : ViewSeed × Nat} {v : ProjectedView}
    (h : projectView index seeds entry = .ok v) :
    v.id = viewId entry.2 ∧ v.key = entry.1.key ∧
      parentView index seeds entry.1.key = .ok v.parentView := by
  obtain ⟨parent, hparent, h⟩ := bind_eq_ok_iff.mp h
  obtain rfl := Except.ok.inj h
  exact ⟨rfl, rfl, hparent⟩

/-- The views stand for the seeds, numbered in their order. -/
structure Listed (seeds : List ViewSeed) (views : List ProjectedView) : Prop where
  id : ∀ {i : Nat} {v : ProjectedView}, views[i]? = some v → v.id = viewId i
  key : views.map ProjectedView.key = seeds.map ViewSeed.key

theorem listed_of_mapM (h : seeds.zipIdx.mapM (projectView index seeds) = .ok views) :
    Listed seeds views := by
  have hids : views.map (·.id) = seeds.zipIdx.map fun entry => viewId entry.2 :=
    map_eq_of_mapM h fun entry v hv => (projectView_ok hv).1
  have hkeys : views.map ProjectedView.key = seeds.zipIdx.map fun entry => entry.1.key :=
    map_eq_of_mapM h fun entry v hv => (projectView_ok hv).2.1
  refine ⟨fun {i v} hv => ?_, ?_⟩
  · have hid := congrArg (·[i]?) hids
    simp only [List.getElem?_map, hv, Option.map_some, List.getElem?_zipIdx] at hid
    cases hseed : seeds[i]? with
    | none => simp [hseed] at hid
    | some seed => simpa [hseed] using hid
  · have hseeds : (seeds.zipIdx.map Prod.fst).map ViewSeed.key = seeds.map ViewSeed.key := by
      rw [List.zipIdx_map_fst]
    rw [hkeys, ← hseeds, List.map_map]
    rfl

theorem getElem?_withChildren {sourcePos : List Nat} {i : Nat} :
    (withChildren views sourcePos)[i]? =
      views[i]?.map fun v => { v with children := childViews views sourcePos i } := by
  rw [withChildren, List.getElem?_map, List.getElem?_zipIdx]
  cases views[i]? <;> simp

theorem map_withChildren {α : Type} {sourcePos : List Nat} (f : ProjectedView → α)
    (hf : ∀ v children, f { v with children } = f v) :
    (withChildren views sourcePos).map f = views.map f := by
  apply List.ext_getElem?
  intro i
  rw [List.getElem?_map, List.getElem?_map, getElem?_withChildren, Option.map_map]
  congr 1
  funext v
  exact hf v _

theorem Listed.withChildren (h : Listed seeds views) (sourcePos : List Nat) :
    Listed seeds (withChildren views sourcePos) := by
  refine ⟨fun {i v} hv => ?_, ?_⟩
  · rw [getElem?_withChildren] at hv
    obtain ⟨v', hv', rfl⟩ := Option.map_eq_some_iff.mp hv
    change v'.id = viewId i
    exact h.id hv'
  · rw [map_withChildren _ fun _ _ => rfl, h.key]

theorem Listed.length_eq (h : Listed seeds views) : views.length = seeds.length := by
  simpa using congrArg List.length h.key

/-- The id of a key leads to the view of this key. -/
theorem Listed.idByKey_eq_some (h : Listed seeds views) {key : ReaderViewKey} {id : ViewId}
    (hid : idByKey seeds key = some id) : ∃ i v, id = viewId i ∧ views[i]? = some v ∧ v.key = key := by
  obtain ⟨i, hi, rfl⟩ := Option.map_eq_some_iff.mp hid
  obtain ⟨hlt, hkey, -⟩ := List.findIdx?_eq_some_iff_getElem.mp hi
  have hlt' : i < views.length := by rwa [h.length_eq]
  refine ⟨i, views[i], rfl, List.getElem?_eq_getElem hlt', ?_⟩
  have heq := congrArg (·[i]?) h.key
  simp only [List.getElem?_map, List.getElem?_eq_getElem hlt', List.getElem?_eq_getElem hlt,
    Option.map_some, Option.some.injEq] at heq
  rw [heq]
  simpa using hkey

theorem Listed.positionOf_viewId (h : Listed seeds views) {i : Nat} (hi : i < views.length) :
    positionOf views (viewId i) = some i := by
  rw [positionOf, List.findIdx?_eq_some_iff_getElem]
  refine ⟨hi, by simpa using h.id (List.getElem?_eq_getElem hi), fun j hj => ?_⟩
  rw [h.id (List.getElem?_eq_getElem (hj.trans hi)), decide_eq_true_eq, viewId_inj]
  exact hj.ne

/-! ## Events at their views -/

theorem eventPosition_ok (h : Listed seeds views) {event : ProjectionEvent} {i : Nat}
    {event' : ProjectionEvent} (hevent : eventPosition seeds views event = .ok (i, event')) :
    event' = event ∧ ∃ v, views[i]? = some v ∧ v.key = event.viewKey := by
  unfold eventPosition missingView at hevent
  dsimp only at hevent
  split at hevent
  · cases hevent
  · rename_i id hid
    obtain ⟨j, v, rfl, hv, hkey⟩ := h.idByKey_eq_some hid
    rw [h.positionOf_viewId (List.getElem?_eq_some_iff.mp hv).1] at hevent
    obtain ⟨rfl, rfl⟩ := Prod.mk.inj (Except.ok.inj hevent)
    exact ⟨rfl, v, hv, hkey⟩

/-- The events, each at a view of its key. -/
structure Placed (events : List ProjectionEvent) (views : List ProjectedView)
    (placed : List (Nat × ProjectionEvent)) : Prop where
  events_eq : placed.map (·.2) = events
  view : ∀ entry ∈ placed, ∃ v, views[entry.1]? = some v ∧ v.key = entry.2.viewKey

theorem placed_of_mapM (h : Listed seeds views) {events : List ProjectionEvent}
    (hplaced : events.mapM (eventPosition seeds views) = .ok placed) :
    Placed events views placed := by
  refine ⟨?_, fun entry hentry => ?_⟩
  · have heq := map_eq_of_mapM (p := (·.2)) (g := id) hplaced fun event entry hevent =>
      (eventPosition_ok h hevent).1
    rw [heq, List.map_id]
  · obtain ⟨event, -, hevent⟩ := (forall₂_partner (mapM_eq_ok_iff.mp hplaced)).2 entry hentry
    obtain ⟨heq, hview⟩ := eventPosition_ok h hevent
    rw [heq]
    exact hview

theorem mem_eventsAt {i : Nat} {event : ProjectionEvent} :
    event ∈ eventsAt placed i ↔ (i, event) ∈ placed := by
  simp only [eventsAt, List.mem_map, List.mem_filter, decide_eq_true_eq]
  constructor
  · rintro ⟨⟨j, event'⟩, ⟨hmem, rfl⟩, rfl⟩
    exact hmem
  · intro hmem
    exact ⟨(i, event), ⟨hmem, rfl⟩, rfl⟩

/-! ## Coverage -/

theorem checkCoverage_ok_iff {segments : List ProjectedSegment} :
    checkCoverage index segments = .ok () ↔ (segments.filterMap (·.fragmentRef)).Nodup ∧
      (segments.filterMap (·.fragmentRef)).length = index.texts.length ∧
        ∀ x ∈ index.texts, x.id ∈ segments.filterMap (·.fragmentRef) := by
  unfold checkCoverage
  dsimp only
  split_ifs with h
  · refine iff_of_false (by simp) ?_
    rintro ⟨hnodup, hlength, hcovered⟩
    rcases h with h | h | h
    · exact h hnodup
    · exact h (by rw [hnodup.dedup, hlength])
    · obtain ⟨x, hx, hmem⟩ := List.any_eq_true.mp h
      simp only [Bool.not_eq_true', List.contains_eq_mem, decide_eq_false_iff_not,
        List.mem_dedup] at hmem
      exact hmem (hcovered x hx)
  · refine iff_of_true rfl ?_
    rw [not_or, not_or, not_not, not_not] at h
    obtain ⟨hnodup, hlength, hcovered⟩ := h
    rw [hnodup.dedup] at hlength
    refine ⟨hnodup, hlength, fun x hx => ?_⟩
    by_contra hmem
    refine hcovered (List.any_eq_true.mpr ⟨x, hx, ?_⟩)
    simpa using hmem

theorem Renders.fragmentRef_eq_some {view : ViewId} {s : ProjectedSegment} {event : ProjectionEvent}
    (h : Renders index view s event) {id : FragmentRef} (hid : s.fragmentRef = some id) :
    ∃ slot owner key, event = .fragment id slot owner key ∧ s.slot = some slot ∧
      s.elementRef = owner ∧ s.view = view ∧ (index.text id).isSome := by
  cases event with
  | fragment id' slot owner key =>
    obtain ⟨x, semantic, pos, hx, -, -, -, heq⟩ := h
    rw [heq] at hid
    obtain rfl := Option.some.inj hid
    exact ⟨slot, owner, key, rfl, by rw [heq], by rw [heq], by rw [heq], by rw [hx]; rfl⟩
  | control element kind key =>
    obtain ⟨pos, -, heq⟩ := h
    rw [heq] at hid
    cases hid
  | reference element type key => exact h.elim

/-- The events of a slot stand in the view of the slot. -/
theorem mem_documentOrder_fragment {id : FragmentRef} {slot : TextSlot} {owner : ElementRef}
    {key : ReaderViewKey} (h : .fragment id slot owner key ∈ documentOrder index) :
    (id, owner, slot) ∈ links index ∧ slotView index owner slot = .ok key := by
  refine ⟨?_, ?_⟩
  · rw [← filterMap_link_documentOrder, List.mem_filterMap]
    exact ⟨_, h, rfl⟩
  · obtain ⟨step, hstep, hmem⟩ := List.mem_flatMap.mp h
    obtain ⟨he, hroot⟩ := mem_walk hstep
    have hslot : ∀ e : ElementRecord, e ∈ index.elements → Rooted index e →
        ∀ (slot' : TextSlot) (reference : Option FragmentRef),
        .fragment id slot owner key ∈ textOrder index e slot' reference →
          slotView index owner slot = .ok key := by
      intro e he hroot slot' reference hmem
      obtain ⟨id', -, heq⟩ := List.mem_map.mp hmem
      cases heq
      exact slotView_eq_viewOf he hroot slot
    cases step with
    | node e =>
      rw [stepOrder, List.mem_append, List.mem_append] at hmem
      rcases hmem with (hmem | hmem) | hmem
      · exact hslot e he hroot _ _ hmem
      · unfold controlOrder at hmem
        split_ifs at hmem
        · obtain ⟨kind, -, heq⟩ := List.mem_map.mp hmem
          cases heq
        · cases hmem
      · unfold referenceOrder at hmem
        split_ifs at hmem
        · obtain ⟨type, -, heq⟩ := List.mem_map.mp hmem
          cases heq
        · cases hmem
    | tail e => exact hslot e he hroot _ _ hmem

theorem primary_of_mem_documentOrder {event : ProjectionEvent} (h : event ∈ documentOrder index) :
    event.viewKey.kind.isPrimary = true := by
  obtain ⟨step, hstep, hmem⟩ := List.mem_flatMap.mp h
  obtain ⟨he, hroot⟩ := mem_walk hstep
  obtain ⟨slot, hkey⟩ := viewKey_of_mem_stepOrder hmem
  rw [hkey]
  exact (anchored_slotView he (slotView_eq_viewOf he hroot slot)).1

/-- Each link that the walk comes to names a text with this owner and this slot. -/
def LinksAgree (index : ReaderRecordIndex) : Prop :=
  ∀ link ∈ links index, ∃ x ∈ index.texts, (x.id, x.owner, x.slot) = link

/-- Every text is the fragment of one segment, with its owner, its slot and its view. -/
def Faithful (index : ReaderRecordIndex) (p : ReaderProjection) : Prop :=
  ∃ partition, partitionPrimaryViews index = .ok partition ∧
    ∀ x ∈ index.texts, ∃ s, p.segments.filter (·.fragmentRef = some x.id) = [s] ∧
      s.elementRef = x.owner ∧ s.slot = some x.slot ∧
      ∃ entry ∈ partition, entry.fragment = x.id ∧
        ∃ v ∈ p.views, v.id = s.view ∧ v.key = entry.view

namespace Stages

variable {records : List Record} {p : ReaderProjection} (stages : Stages records p)

def linked : List ProjectedView :=
  Projection.withChildren stages.views (stages.seeds.map (·.sourcePos))

theorem listed : Listed stages.seeds stages.linked :=
  (listed_of_mapM stages.views_eq).withChildren _

theorem placed_spec : Placed (documentOrder stages.index) stages.linked stages.placed :=
  placed_of_mapM stages.listed stages.placed_eq

theorem filled_spec : Filled stages.index stages.placed 0 0 0 stages.linked stages.filled p.segments
    p.references := by
  obtain ⟨segments, references, hsegments, hreferences, hfilled⟩ := fillViews_ok stages.filled_eq
  rw [List.nil_append] at hsegments hreferences
  rw [hsegments, hreferences]
  exact hfilled

/-- The view that an event was placed at is a view of the projection. -/
theorem exists_view {i : Nat} {v : ProjectedView} (hv : stages.linked[i]? = some v) :
    ∃ v' ∈ p.views, v'.id = v.id ∧ v'.key = v.key := by
  have hmap : p.views.map (fun v => (v.id, v.key)) = stages.linked.map fun v => (v.id, v.key) := by
    rw [stages.flags_eq, List.map_map]
    exact stages.filled_spec.map_eq (fun v => (v.id, v.key)) fun _ _ _ => rfl
  have hmem : (v.id, v.key) ∈ p.views.map fun v => (v.id, v.key) := by
    rw [hmap]
    exact List.mem_map_of_mem (List.mem_of_getElem? hv)
  obtain ⟨v', hv', heq⟩ := List.mem_map.mp hmem
  exact ⟨v', hv', (Prod.mk.inj heq).1, (Prod.mk.inj heq).2⟩

/-- A segment with a fragment shows a link. -/
theorem exists_link {s : ProjectedSegment} (hs : s ∈ p.segments) {id : FragmentRef}
    (hid : s.fragmentRef = some id) : ∃ slot key, (id, s.elementRef, slot) ∈ links stages.index ∧
      s.slot = some slot ∧ (stages.index.text id).isSome ∧
      slotView stages.index s.elementRef slot = .ok key ∧
      ∃ v ∈ p.views, v.id = s.view ∧ v.key = key := by
  obtain ⟨i, v, event, hv, -, hevent, hrenders⟩ := stages.filled_spec.exists_event hs
  rw [Nat.zero_add, mem_eventsAt] at hevent
  obtain ⟨slot, owner, key, rfl, hslot, rfl, hview, htext⟩ := hrenders.fragmentRef_eq_some hid
  have hmem : .fragment id slot s.elementRef key ∈ documentOrder stages.index := by
    rw [← stages.placed_spec.events_eq]
    exact List.mem_map_of_mem hevent
  obtain ⟨hlink, hkey⟩ := mem_documentOrder_fragment hmem
  obtain ⟨w, hw, hwkey⟩ := stages.placed_spec.view _ hevent
  obtain rfl := Option.some.inj (hw.symm.trans hv)
  obtain ⟨v', hv', hid', hkey'⟩ := stages.exists_view hv
  exact ⟨slot, key, hlink, hslot, htext, hkey, v', hv', by rw [hid', hview], by rw [hkey', hwkey]; rfl⟩

/-- Every link that the walk comes to is shown. -/
theorem exists_segment {id : FragmentRef} {owner : ElementRef} {slot : TextSlot}
    (h : (id, owner, slot) ∈ links stages.index) : ∃ s ∈ p.segments,
      s.fragmentRef = some id ∧ s.elementRef = owner ∧ s.slot = some slot := by
  rw [← filterMap_link_documentOrder] at h
  obtain ⟨event, hmem, hlink⟩ := List.mem_filterMap.mp h
  obtain ⟨i, hplaced⟩ : ∃ i, (i, event) ∈ stages.placed := by
    rw [← stages.placed_spec.events_eq, List.mem_map] at hmem
    obtain ⟨⟨i, event'⟩, hmem, rfl⟩ := hmem
    exact ⟨i, hmem⟩
  obtain ⟨v, hv, hkey⟩ := stages.placed_spec.view _ hplaced
  have hprimary : v.kind.isPrimary = true := by
    have := primary_of_mem_documentOrder hmem
    rwa [← hkey] at this
  cases event with
  | fragment id' slot' owner' key =>
    cases hlink
    obtain ⟨s, hs, x, semantic, pos, -, -, -, -, heq⟩ := stages.filled_spec.exists_segment hv hprimary
      (by rwa [Nat.zero_add, mem_eventsAt]) rfl
    exact ⟨s, hs, by rw [heq], by rw [heq], by rw [heq]⟩
  | control element kind key => cases hlink
  | reference element type key => cases hlink

theorem exists_partition : ∃ partition, partitionPrimaryViews stages.index = .ok partition := by
  have h := stages.seeds_eq
  unfold viewSeeds at h
  obtain ⟨structural, -, h⟩ := bind_eq_ok_iff.mp h
  obtain ⟨partition, hpartition, -⟩ := bind_eq_ok_iff.mp h
  exact ⟨partition, stop_eq_ok_iff.mp hpartition⟩

/-- The segments show the texts as their owners have them exactly where the links agree with the
owners: the coverage check looks at the set of the fragments only. -/
theorem faithful_iff : Faithful stages.index p ↔ LinksAgree stages.index := by
  constructor
  · rintro ⟨partition, -, h⟩ ⟨id, owner, slot⟩ hlink
    obtain ⟨s, hs, hid, howner, hslot⟩ := stages.exists_segment hlink
    obtain ⟨-, -, -, -, htext, -⟩ := stages.exists_link hs hid
    obtain ⟨x, hx⟩ := Option.isSome_iff_exists.mp htext
    obtain ⟨hmem, rfl⟩ := text_eq_some_iff.mp hx
    obtain ⟨s', hs', howner', hslot', -⟩ := h x hmem
    have hsame : s ∈ p.segments.filter (·.fragmentRef = some x.id) :=
      List.mem_filter.mpr ⟨hs, by simpa using hid⟩
    rw [hs', List.mem_singleton] at hsame
    subst hsame
    refine ⟨x, hmem, ?_⟩
    rw [← howner, ← howner', Option.some.inj (hslot.symm.trans hslot')]
  · intro h
    obtain ⟨partition, hpartition⟩ := stages.exists_partition
    refine ⟨partition, hpartition, fun x hx => ?_⟩
    obtain ⟨hnodup, -, hcovered⟩ := checkCoverage_ok_iff.mp stages.coverage_eq
    obtain ⟨s, hs, hid⟩ := List.mem_filterMap.mp (hcovered x hx)
    obtain ⟨slot, key, hlink, hslot, -, hkey, v, hv, hvid, hvkey⟩ := stages.exists_link hs hid
    obtain ⟨x', hx', heq⟩ := h _ hlink
    simp only [Prod.mk.injEq] at heq
    obtain ⟨hxid, howner, hxslot⟩ := heq
    obtain rfl : x' = x := List.inj_on_of_nodup_map stages.index.nodup_texts hx' hx hxid
    obtain ⟨entry, hentry, hof⟩ := (forall₂_partner (mapM_eq_ok_iff.mp hpartition)).1 x' hx
    rw [howner, hxslot, hkey] at hof
    obtain rfl := Except.ok.inj hof
    exact ⟨s, filter_eq_singleton hnodup hs hid, howner.symm, by rw [hslot, hxslot], _, hentry, rfl,
      v, hv, hvid, hvkey⟩

end Stages

end Projection

end LawNexus.Reader
