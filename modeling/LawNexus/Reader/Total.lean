import LawNexus.Reader.Seeds

/-!
# When a build succeeds

A substrate whose links are the texts of their owners has a projection, unless a text is empty.
-/

namespace LawNexus.Reader

open Forest SourcePackage Loops ReaderRecordIndex

variable {index : ReaderRecordIndex} {ε : Type}

/-! ## Semantics -/

theorem exists_ancestorHasRole (errors : WalkErrors ε) {e : ElementRecord}
    (he : e ∈ index.elements) (hroot : Rooted index e) (role : ReaderRole) :
    ∃ found, ancestorHasRole errors index e.id role = .ok found :=
  (climbs_ancestorTurn errors role).exists_ok he hroot

theorem exists_contextSemantic (errors : WalkErrors ε) (hroots : AllRooted index)
    {context : Option String} (h : ∀ c ∈ context, ∃ a ∈ index.elements, a.id = c) :
    ∃ semantic, contextSemantic errors index context = .ok semantic := by
  cases context with
  | none => exact ⟨none, rfl⟩
  | some c =>
    obtain ⟨e, he, rfl⟩ := h c rfl
    have hroot := hroots e he
    obtain ⟨field, hfield⟩ := exists_ancestorHasRole errors he hroot .field
    obtain ⟨insertion, hinsertion⟩ := exists_ancestorHasRole errors he hroot .revisionInsertion
    obtain ⟨deletion, hdeletion⟩ := exists_ancestorHasRole errors he hroot .revisionDeletion
    rw [contextSemantic, hfield, ok_bind]
    split_ifs
    · exact ⟨_, rfl⟩
    · rw [hinsertion, ok_bind]
      split_ifs
      · exact ⟨_, rfl⟩
      · rw [hdeletion, ok_bind]
        split_ifs <;> exact ⟨_, rfl⟩

theorem exists_textSemantic (errors : WalkErrors ε) (hroots : AllRooted index) {e : ElementRecord}
    (he : e ∈ index.elements) (slot : TextSlot) (value : List Char) :
    ∃ semantic, textSemantic errors index e.id slot value = .ok semantic := by
  have hcontext : ∀ c ∈ contextOf e slot, ∃ a ∈ index.elements, a.id = c := by
    intro c hc
    cases slot with
    | text => exact ⟨e, he, Option.some.inj hc⟩
    | tail => exact exists_parent he hc
  obtain ⟨semantic, hsemantic⟩ := exists_contextSemantic errors hroots hcontext
  rw [textSemantic, element_of_mem he]
  dsimp only
  rw [hsemantic, ok_bind]
  exact ⟨_, rfl⟩

namespace Projection

/-! ## The fragments of the segments -/

def fragmentOf (event : ProjectionEvent) : Option FragmentRef :=
  event.link?.map (·.1)

theorem Renders.fragmentRef_eq {view : ViewId} {s : ProjectedSegment} {event : ProjectionEvent}
    (h : Renders index view s event) : s.fragmentRef = fragmentOf event := by
  cases event with
  | fragment id slot owner key =>
    obtain ⟨x, semantic, pos, -, -, -, -, heq⟩ := h
    rw [heq]
    rfl
  | control element kind key =>
    obtain ⟨pos, -, heq⟩ := h
    rw [heq]
    rfl
  | reference element type key => exact h.elim

theorem filterMap_filter_isSegment (own : List ProjectionEvent) :
    (own.filter isSegment).filterMap fragmentOf = own.filterMap fragmentOf := by
  induction own with
  | nil => rfl
  | cons event own ih =>
    cases event with
    | reference element type key => exact ih
    | fragment id slot owner key =>
      rw [List.filter_cons_of_pos rfl, List.filterMap_cons, List.filterMap_cons, ih]
    | control element kind key =>
      rw [List.filter_cons_of_pos rfl, List.filterMap_cons, List.filterMap_cons, ih]

theorem Shows.fragments_eq {view : ViewId} {own : List ProjectionEvent}
    {segments : List ProjectedSegment} {references : List ProjectedReference}
    (h : Shows index view own segments references) :
    segments.filterMap (·.fragmentRef) = own.filterMap fragmentOf := by
  rw [← filterMap_filter_isSegment]
  have hrendered := h.rendered
  generalize own.filter isSegment = events at hrendered
  clear h
  induction hrendered with
  | nil => rfl
  | cons hrenders _ ih => rw [List.filterMap_cons, List.filterMap_cons, hrenders.fragmentRef_eq, ih]

variable {placed : List (Nat × ProjectionEvent)} {position n m : Nat}
  {views views' : List ProjectedView} {segments : List ProjectedSegment}
  {references : List ProjectedReference}

/-- Where navigation views have no events, the segments show the fragments view by view. -/
theorem Filled.fragments_eq (h : Filled index placed position n m views views' segments references)
    (hnavigation : ∀ i v, views[i]? = some v → v.kind.isPrimary = false →
      eventsAt placed (position + i) = []) :
    segments.filterMap (·.fragmentRef) =
      ((List.range' position views.length).flatMap (eventsAt placed)).filterMap fragmentOf := by
  induction h with
  | nil => rfl
  | navigation hkind _ ih =>
    have hnone := hnavigation 0 _ rfl hkind
    rw [Nat.add_zero] at hnone
    rw [ih, List.length_cons, List.range'_succ, List.flatMap_cons, hnone, List.nil_append]
    intro i v hv
    rw [Nat.add_assoc, Nat.add_comm 1]
    exact hnavigation (i + 1) v hv
  | primary hkind hshows _ _ _ ih =>
    rw [List.filterMap_append, hshows.fragments_eq, ih, List.length_cons, List.range'_succ,
      List.flatMap_cons, List.filterMap_append]
    intro i v hv
    rw [Nat.add_assoc, Nat.add_comm 1]
    exact hnavigation (i + 1) v hv

theorem fragments_perm (hfilled : Filled index placed 0 n m views views' segments references)
    (hplaced : Placed (documentOrder index) views placed) :
    (segments.filterMap (·.fragmentRef)).Perm ((links index).map (·.1)) := by
  have hnavigation : ∀ i v, views[i]? = some v → v.kind.isPrimary = false →
      eventsAt placed (0 + i) = [] := by
    intro i v hv hkind
    rw [Nat.zero_add, List.eq_nil_iff_forall_not_mem]
    intro event hevent
    rw [mem_eventsAt] at hevent
    obtain ⟨w, hw, hkey⟩ := hplaced.view _ hevent
    obtain rfl := Option.some.inj (hw.symm.trans hv)
    have hmem : event ∈ documentOrder index := by
      rw [← hplaced.events_eq]
      exact List.mem_map_of_mem hevent
    have hprimary := primary_of_mem_documentOrder hmem
    rw [← hkey] at hprimary
    cases hkind.symm.trans hprimary
  have hperm : ((List.range' 0 views.length).flatMap (eventsAt placed)).Perm
      (documentOrder index) := by
    rw [← hplaced.events_eq, ← List.range_eq_range']
    have hbound : ∀ entry ∈ placed, entry.1 ∈ List.range views.length := by
      intro entry hentry
      obtain ⟨v, hv, -⟩ := hplaced.view entry hentry
      exact List.mem_range.mpr (List.getElem?_eq_some_iff.mp hv).1
    have hparts := (flatMap_filter_perm List.nodup_range hbound).map (·.2)
    rwa [List.map_flatMap] at hparts
  rw [hfilled.fragments_eq hnavigation, ← filterMap_link_documentOrder, List.map_filterMap]
  exact hperm.filterMap fragmentOf

/-! ## Empty texts -/

/-- A build that succeeds has seen no empty text. -/
theorem Stages.value_ne_nil {records : List Record} {p : ReaderProjection}
    (stages : Stages records p) {x : TextRecord} (hx : x ∈ stages.index.texts) : x.value ≠ [] := by
  obtain ⟨-, -, hcovered⟩ := checkCoverage_ok_iff.mp stages.coverage_eq
  obtain ⟨s, hs, hid⟩ := List.mem_filterMap.mp (hcovered x hx)
  obtain ⟨i, v, event, -, -, -, hrenders⟩ := stages.filled_spec.exists_event hs
  obtain ⟨slot, owner, key, rfl, -⟩ := hrenders.fragmentRef_eq_some hid
  obtain ⟨x', semantic, pos, hx', hvalue, -⟩ := hrenders
  obtain ⟨hmem, hxid⟩ := text_eq_some_iff.mp hx'
  obtain rfl : x' = x := List.inj_on_of_nodup_map stages.index.nodup_texts hmem hx hxid
  exact hvalue

/-- What a text has in common with the link that names it. -/
def linkOf (x : TextRecord) : Link := (x.id, x.owner, x.slot)

theorem linksAgree_of_perm (h : (links index).Perm (index.texts.map linkOf)) :
    LinksAgree index := fun _ hlink =>
  List.mem_map.mp (h.mem_iff.mp hlink)

theorem renderable_of_mem (hroots : AllRooted index) (hagree : LinksAgree index)
    (hvalues : ∀ x ∈ index.texts, x.value ≠ []) {event : ProjectionEvent}
    (h : event ∈ documentOrder index) : Renderable index event := by
  obtain ⟨step, hstep, hmem⟩ := List.mem_flatMap.mp h
  obtain ⟨he, hroot⟩ := mem_walk hstep
  obtain ⟨pos, hpos⟩ := sourcePos_of_mem he
  have htext : ∀ {e : ElementRecord} {slot : TextSlot} {reference : Option FragmentRef},
      e ∈ index.elements → event ∈ textOrder index e slot reference → Renderable index event := by
    intro e slot reference he hmem
    obtain ⟨id, -, rfl⟩ := List.mem_map.mp hmem
    obtain ⟨x, hx, heq⟩ := hagree _ (mem_documentOrder_fragment h).1
    simp only [Prod.mk.injEq] at heq
    obtain ⟨hid, -, -⟩ := heq
    obtain ⟨semantic, hsemantic⟩ := exists_textSemantic projectionErrors hroots he slot x.value
    obtain ⟨pos, hpos⟩ := sourcePos_of_mem he
    exact ⟨x, semantic, pos, text_eq_some_iff.mpr ⟨hx, hid⟩, hvalues x hx, hsemantic, hpos⟩
  cases step with
  | node e =>
    rw [stepOrder, List.mem_append, List.mem_append] at hmem
    rcases hmem with (hmem | hmem) | hmem
    · exact htext he hmem
    · unfold controlOrder at hmem
      split_ifs at hmem
      · obtain ⟨kind, -, rfl⟩ := List.mem_map.mp hmem
        exact ⟨pos, hpos⟩
      · cases hmem
    · unfold referenceOrder at hmem
      split_ifs at hmem
      · obtain ⟨type, -, rfl⟩ := List.mem_map.mp hmem
        exact ⟨pos, hpos⟩
      · cases hmem
  | tail e => exact htext he hmem

/-- Where the links are the texts of their owners, the build fails on an empty text only. -/
theorem exists_buildProjection_iff {records : List Record}
    (hindex : ReaderRecordIndex.new records = .ok index) (hroots : AllRooted index)
    (hlinks : (links index).Perm (index.texts.map linkOf)) :
    (∃ p, buildProjection records = .ok p) ↔ ∀ x ∈ index.texts, x.value ≠ [] := by
  constructor
  · rintro ⟨p, hp⟩ x hx
    obtain ⟨stages⟩ := nonempty_stages hp
    obtain rfl := Except.ok.inj (stages.index_eq.symm.trans hindex)
    exact stages.value_ne_nil hx
  · intro hvalues
    have hagree := linksAgree_of_perm hlinks
    obtain ⟨seeds, hseeds, hperm, -, -⟩ := viewSeeds_ok hroots
    have hseeded : Seeded index seeds := fun key hkey =>
      hperm.mem_iff.mpr (mem_distinct.mpr hkey)
    have hknown : ∀ seed ∈ seeds, Known index seed.key := fun seed hseed =>
      known_of_mem_warranted hroots _
        (mem_distinct.mp (hperm.mem_iff.mp (List.mem_map_of_mem hseed)))
    obtain ⟨views, hviews, hparents⟩ := exists_views hroots hseeded hknown
    have hlisted := (listed_of_mapM hviews).withChildren (seeds.map (·.sourcePos))
    obtain ⟨placed, hplaced⟩ := exists_placed hlisted fun event hevent =>
      hseeded _ (mem_warranted_of_event hagree hevent)
    have hspec := placed_of_mapM hlisted hplaced
    obtain ⟨⟨filled, segments, references⟩, hfilled⟩ :=
      (@exists_fillViews_iff index placed 0 (withChildren views (seeds.map (·.sourcePos))) [] []).mpr
        fun i v _ _ event hevent => by
          rw [mem_eventsAt] at hevent
          refine renderable_of_mem hroots hagree hvalues ?_
          rw [← hspec.events_eq]
          exact List.mem_map_of_mem hevent
    obtain ⟨more, cited, hmore, -, hfill⟩ := fillViews_ok hfilled
    rw [List.nil_append] at hmore
    have hfragments := (fragments_perm hfill hspec).trans (hlinks.map (·.1))
    rw [List.map_map, ← hmore] at hfragments
    refine exists_buildProjection hindex hseeds hviews hparents hplaced hfilled
      (checkCoverage_ok_iff.mpr ⟨?_, ?_, ?_⟩)
    · exact hfragments.nodup_iff.mpr index.nodup_texts
    · rw [hfragments.length_eq, List.length_map]
    · intro x hx
      exact hfragments.mem_iff.mpr (List.mem_map.mpr ⟨x, hx, rfl⟩)

end Projection

end LawNexus.Reader
