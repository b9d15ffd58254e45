import LawNexus.Reader.Coverage

/-!
# The seeds of the views

Which views a build starts from, and that each event and each parent has one of them.
-/

namespace LawNexus.Reader

open Forest SourcePackage Loops ReaderRecordIndex

/-- The parents of every element come to an end. -/
def AllRooted (index : ReaderRecordIndex) : Prop := ∀ e ∈ index.elements, Rooted index e

namespace Projection

variable {index : ReaderRecordIndex} {seeds seeds' : List ViewSeed}

/-! ## Adding seeds -/

/-- A key that is anchored at an element. -/
def Known (index : ReaderRecordIndex) (key : ReaderViewKey) : Prop :=
  ∃ e ∈ index.elements, e.id = key.elementRef

/-- The `source_pos` of a seed is the position of its element. -/
def Positioned (index : ReaderRecordIndex) (seeds : List ViewSeed) : Prop :=
  ∀ seed ∈ seeds, index.sourcePos seed.elementRef = some seed.sourcePos

theorem addSeed_ok {key : ReaderViewKey} (h : addSeed index seeds key = .ok seeds') :
    seeds'.map ViewSeed.key = pushNew (seeds.map ViewSeed.key) key ∧
      (Positioned index seeds → Positioned index seeds') := by
  unfold addSeed missingView at h
  split at h
  · cases h
  · rename_i pos hpos
    obtain rfl := Except.ok.inj h
    have hmem : (seeds.any (·.key = key)) = true ↔ key ∈ seeds.map ViewSeed.key := by
      simp [List.any_eq_true, List.mem_map]
    unfold pushNew
    by_cases hseen : key ∈ seeds.map ViewSeed.key
    · rw [if_pos (hmem.mpr hseen), if_pos hseen]
      exact ⟨rfl, id⟩
    · rw [if_neg (hmem.not.mpr hseen), if_neg hseen, List.map_append]
      refine ⟨rfl, fun hseeds seed hseed => ?_⟩
      rcases List.mem_append.mp hseed with hseed | hseed
      · exact hseeds seed hseed
      · obtain rfl := List.mem_singleton.mp hseed
        exact hpos

theorem exists_addSeed {key : ReaderViewKey} (h : Known index key) :
    ∃ seeds', addSeed index seeds key = .ok seeds' := by
  obtain ⟨e, he, hid⟩ := h
  obtain ⟨pos, hpos⟩ := sourcePos_of_mem he
  rw [hid] at hpos
  rw [addSeed, hpos]
  exact ⟨_, rfl⟩

theorem addSeeds_ok {keys : List ReaderViewKey} (h : addSeeds index seeds keys = .ok seeds') :
    seeds'.map ViewSeed.key = keys.foldl pushNew (seeds.map ViewSeed.key) ∧
      (Positioned index seeds → Positioned index seeds') := by
  induction keys generalizing seeds with
  | nil =>
    obtain rfl := Except.ok.inj h
    exact ⟨rfl, id⟩
  | cons key keys ih =>
    rw [addSeeds, List.foldlM_cons] at h
    obtain ⟨next, hnext, hrest⟩ := bind_eq_ok_iff.mp h
    obtain ⟨hkeys, hpositioned⟩ := addSeed_ok hnext
    obtain ⟨hkeys', hpositioned'⟩ := ih hrest
    exact ⟨by rw [hkeys', hkeys, List.foldl_cons], hpositioned' ∘ hpositioned⟩

theorem exists_addSeeds {keys : List ReaderViewKey} (h : ∀ key ∈ keys, Known index key) :
    ∃ seeds', addSeeds index seeds keys = .ok seeds' := by
  induction keys generalizing seeds with
  | nil => exact ⟨seeds, rfl⟩
  | cons key keys ih =>
    rw [List.forall_mem_cons] at h
    obtain ⟨next, hnext⟩ := @exists_addSeed index seeds key h.1
    obtain ⟨seeds', hrest⟩ := @ih next h.2
    rw [addSeeds, List.foldlM_cons, hnext, ok_bind]
    exact ⟨seeds', hrest⟩

theorem addSeeds_append {keys more : List ReaderViewKey} : addSeeds index seeds (keys ++ more) =
    addSeeds index seeds keys >>= fun seeds => addSeeds index seeds more := by
  rw [addSeeds, List.foldlM_append]
  rfl

/-- A loop over the elements adds the keys of the elements in their order. -/
theorem seedLoop_eq {key : ElementRecord → Except (Stop ProjectionError) (Option ReaderViewKey)}
    {k : ElementRecord → Option ReaderViewKey} (h : ∀ e ∈ index.elements, key e = .ok (k e)) :
    seedLoop index key seeds = addSeeds index seeds (index.elements.filterMap k) := by
  unfold seedLoop
  generalize index.elements = elements at h
  induction elements generalizing seeds with
  | nil => rfl
  | cons e elements ih =>
    rw [List.forall_mem_cons] at h
    have hsplit : (e :: elements).filterMap k = (k e).toList ++ elements.filterMap k := by
      rw [List.filterMap_cons]
      cases k e <;> rfl
    rw [hsplit, addSeeds_append, List.foldlM_cons, h.1, ok_bind]
    congr 1
    funext seeds
    exact ih h.2

/-! ## The keys of the views -/

def structuralOf (e : ElementRecord) : Option ReaderViewKey :=
  (structuralViewKind (roleOfTag e.clarkTag)).map (⟨·, e.id⟩)

def anchorOf (index : ReaderRecordIndex) (e : ElementRecord) : Option ReaderViewKey :=
  if anchorsResidual (roleOfTag e.clarkTag) ∧ (viewOf index e.id .text).kind = .residual then
    some (viewOf index e.id .text)
  else none

def ownedKeys (index : ReaderRecordIndex) : List ReaderViewKey :=
  (index.texts.map fun x => viewOf index x.owner x.slot).filter (·.kind = .residual)

/-- The views of a substrate, with repetitions, in the order in which they are found. -/
def warranted (index : ReaderRecordIndex) : List ReaderViewKey :=
  index.elements.filterMap structuralOf ++ (ownedKeys index ++ index.elements.filterMap (anchorOf index))

theorem structuralKey_eq {e : ElementRecord} (he : e ∈ index.elements) :
    structuralKey index e = .ok (structuralOf e) := by
  rw [structuralKey, roleOf_of_mem he]
  rfl

theorem referenceKey_eq {e : ElementRecord} (he : e ∈ index.elements) (hroot : Rooted index e) :
    referenceKey index e = .ok (anchorOf index e) := by
  rw [referenceKey, roleOf_of_mem he, Except.mapError, ok_bind, anchorOf]
  by_cases hrole : anchorsResidual (roleOfTag e.clarkTag) = true
  · rw [if_pos hrole, viewKey_eq_viewOf he hroot]
    by_cases hkind : (viewOf index e.id .text).kind = .residual
    · rw [if_pos ⟨hrole, hkind⟩, WalkErrors.stop, Except.mapError, ok_bind, if_pos hkind]
    · rw [if_neg fun h => hkind h.2, WalkErrors.stop, Except.mapError, ok_bind, if_neg hkind]
  · rw [if_neg hrole, if_neg fun h => hrole h.1]

theorem partitionPrimaryViews_eq (hroots : AllRooted index) : partitionPrimaryViews index =
    .ok (index.texts.map fun x => ⟨x.id, x.slot, viewOf index x.owner x.slot⟩) := by
  rw [partitionPrimaryViews, mapM_eq_ok_iff, List.forall₂_map_right_iff, List.forall₂_same]
  intro x hx
  obtain ⟨e, he, howner⟩ := exists_owner hx
  rw [← howner, slotView_eq_viewOf he (hroots e he)]
  rfl

theorem residualKeys_eq : residualKeys
    (index.texts.map fun x => ⟨x.id, x.slot, viewOf index x.owner x.slot⟩) = ownedKeys index := by
  rw [residualKeys, List.map_map]
  rfl

theorem viewSeeds_eq (hroots : AllRooted index) :
    viewSeeds index = (addSeeds index [] (warranted index)).map (sortBy seedOrder) := by
  unfold viewSeeds
  rw [seedLoop_eq fun e he => structuralKey_eq he,
    stop_eq_ok_iff.mpr (partitionPrimaryViews_eq hroots)]
  simp only [ok_bind, residualKeys_eq, seedLoop_eq fun e he => referenceKey_eq he (hroots e he)]
  rw [warranted, addSeeds_append]
  cases addSeeds index [] (index.elements.filterMap structuralOf) with
  | error error => rfl
  | ok structural =>
    rw [ok_bind, ok_bind, addSeeds_append]
    cases addSeeds index structural (ownedKeys index) with
    | error error => rfl
    | ok residual =>
      rw [ok_bind, ok_bind]
      cases addSeeds index residual (index.elements.filterMap (anchorOf index)) <;> rfl

theorem known_viewOf {e : ElementRecord} (he : e ∈ index.elements) (hroot : Rooted index e)
    (slot : TextSlot) : Known index (viewOf index e.id slot) := by
  obtain ⟨-, a, ha, hid, -⟩ := anchored_slotView he (slotView_eq_viewOf he hroot slot)
  exact ⟨a, ha, hid⟩

theorem known_of_mem_warranted (hroots : AllRooted index) :
    ∀ key ∈ warranted index, Known index key := by
  simp only [warranted, List.forall_mem_append]
  refine ⟨fun key hkey => ?_, fun key hkey => ?_, fun key hkey => ?_⟩
  · obtain ⟨e, he, hof⟩ := List.mem_filterMap.mp hkey
    obtain ⟨kind, -, rfl⟩ := Option.map_eq_some_iff.mp hof
    exact ⟨e, he, rfl⟩
  · obtain ⟨x, hx, rfl⟩ := List.mem_map.mp (List.mem_filter.mp hkey).1
    obtain ⟨e, he, howner⟩ := exists_owner hx
    rw [← howner]
    exact known_viewOf he (hroots e he) x.slot
  · obtain ⟨e, he, hof⟩ := List.mem_filterMap.mp hkey
    unfold anchorOf at hof
    split_ifs at hof
    obtain rfl := Option.some.inj hof
    exact known_viewOf he (hroots e he) .text

/-- The seeds are the warranted views, each of them once. -/
theorem viewSeeds_ok (hroots : AllRooted index) : ∃ seeds, viewSeeds index = .ok seeds ∧
    (seeds.map ViewSeed.key).Perm (distinct (warranted index)) ∧ Positioned index seeds ∧
      seeds.Pairwise (seedOrder · ≤ seedOrder ·) := by
  obtain ⟨seeds, hseeds⟩ := @exists_addSeeds index [] _ (known_of_mem_warranted hroots)
  obtain ⟨hkeys, hpositioned⟩ := addSeeds_ok hseeds
  refine ⟨sortBy seedOrder seeds, ?_, ?_, ?_, pairwise_sortBy _ _⟩
  · rw [viewSeeds_eq hroots, hseeds]
    rfl
  · exact ((sortBy_perm seedOrder seeds).map _).trans (hkeys ▸ List.Perm.refl _)
  · intro seed hseed
    exact hpositioned (by simp [Positioned]) seed (mem_sortBy.mp hseed)

/-! ## Parents -/

/-- What the seeds have to hold for a build: every warranted view. -/
def Seeded (index : ReaderRecordIndex) (seeds : List ViewSeed) : Prop :=
  ∀ key ∈ warranted index, key ∈ seeds.map ViewSeed.key

theorem exists_idByKey {key : ReaderViewKey} (h : key ∈ seeds.map ViewSeed.key) :
    ∃ i < seeds.length, idByKey seeds key = some (viewId i) := by
  obtain ⟨seed, hseed, rfl⟩ := List.mem_map.mp h
  have hsome : (seeds.findIdx? (·.key = seed.key)).isSome := by
    rw [List.findIdx?_isSome]
    exact List.any_eq_true.mpr ⟨seed, hseed, decide_eq_true rfl⟩
  obtain ⟨i, hi⟩ := Option.isSome_iff_exists.mp hsome
  exact ⟨i, (List.findIdx?_eq_some_iff_getElem.mp hi).1, by rw [idByKey, hi]; rfl⟩

theorem structural_of_mem_parentRoles {kind : ReaderViewKind} {role : ReaderRole}
    (h : (parentRoles kind).contains role = true) :
    ∃ k, structuralViewKind role = some k := by
  cases kind <;> cases role <;> first | exact ⟨_, rfl⟩ | exact absurd h (by decide)

theorem nearestContainer_spec {ε : Type} (errors : WalkErrors ε) {e : ElementRecord}
    (he : e ∈ index.elements) (hroot : Rooted index e) (allowed : List ReaderRole) :
    ∃ container, nearestContainer errors index e.id allowed = .ok container ∧
      ∀ c ∈ container, ∃ a ∈ index.elements, a.id = c ∧
        allowed.contains (roleOfTag a.clarkTag) = true := by
  obtain ⟨container, hclimb⟩ := (climbs_containerTurn errors allowed).exists_ok he hroot
  refine ⟨container, hclimb, ?_⟩
  refine climb_ok (∃ e ∈ index.elements, e.id = ·) (fun r => ∀ c ∈ r, ∃ a ∈ index.elements,
    a.id = c ∧ allowed.contains (roleOfTag a.clarkTag) = true) ?_ ?_ ⟨e, he, rfl⟩ hclimb
  · rintro s t ⟨e, he, rfl⟩ hnext
    exact exists_parent he ((climbs_containerTurn errors allowed).next he hnext)
  · rintro s r ⟨e, he, rfl⟩ hdone c hc
    rw [containerTurn, parentOf_of_mem he] at hdone
    cases hparent : e.parent with
    | none =>
      rw [hparent] at hdone
      cases hdone
      cases hc
    | some parent =>
      obtain ⟨a, ha, rfl⟩ := exists_parent he hparent
      rw [hparent] at hdone
      dsimp only at hdone
      rw [roleOf_of_mem ha, ok_bind, Except.ok.injEq] at hdone
      split_ifs at hdone with hrole
      cases hdone
      obtain rfl := Option.some.inj hc
      exact ⟨a, ha, rfl, hrole⟩

theorem exists_parentView (hroots : AllRooted index) (hseeded : Seeded index seeds)
    {key : ReaderViewKey} (hkey : Known index key) :
    ∃ parent, parentView index seeds key = .ok parent ∧
      ∀ id ∈ parent, ∃ i < seeds.length, id = viewId i := by
  obtain ⟨e, he, hid⟩ := hkey
  obtain ⟨container, hcontainer, hspec⟩ :=
    nearestContainer_spec projectionErrors he (hroots e he) (parentRoles key.kind)
  rw [parentView, ← hid, hcontainer, ok_bind]
  cases container with
  | none => exact ⟨none, rfl, by simp⟩
  | some c =>
    obtain ⟨a, ha, rfl, hrole⟩ := hspec c rfl
    obtain ⟨kind, hkind⟩ := structural_of_mem_parentRoles hrole
    have hmem : ⟨kind, a.id⟩ ∈ warranted index := by
      refine List.mem_append_left _ (List.mem_filterMap.mpr ⟨a, ha, ?_⟩)
      rw [structuralOf, hkind]
      rfl
    obtain ⟨i, hi, hidByKey⟩ := exists_idByKey (hseeded _ hmem)
    dsimp only
    rw [roleOf_of_mem ha, Except.mapError, ok_bind, hkind]
    dsimp only
    rw [hidByKey]
    refine ⟨some (viewId i), rfl, fun id hid => ⟨i, hi, (Option.some.inj hid).symm⟩⟩

theorem exists_views (hroots : AllRooted index) (hseeded : Seeded index seeds)
    (hknown : ∀ seed ∈ seeds, Known index seed.key) :
    ∃ views, seeds.zipIdx.mapM (projectView index seeds) = .ok views ∧
      views.forM (checkParentView views) = .ok () := by
  obtain ⟨views, hviews⟩ : ∃ views, seeds.zipIdx.mapM (projectView index seeds) = .ok views := by
    rw [exists_mapM_ok_iff]
    intro entry hentry
    have hseed : entry.1 ∈ seeds := List.fst_mem_of_mem_zipIdx hentry
    obtain ⟨parent, hparent, -⟩ := exists_parentView hroots hseeded (hknown _ hseed)
    rw [projectView, hparent, ok_bind]
    exact ⟨_, rfl⟩
  have hlisted := listed_of_mapM hviews
  refine ⟨views, hviews, forM_ok_iff.mpr fun v hv => ?_⟩
  obtain ⟨entry, hentry, hof⟩ := (forall₂_partner (mapM_eq_ok_iff.mp hviews)).2 v hv
  have hseed : entry.1 ∈ seeds := List.fst_mem_of_mem_zipIdx hentry
  obtain ⟨parent, hparent, hids⟩ := exists_parentView hroots hseeded (hknown _ hseed)
  obtain rfl := Except.ok.inj (hparent.symm.trans (projectView_ok hof).2.2)
  rw [checkParentView]
  cases hview : v.parentView with
  | none => rfl
  | some id =>
    obtain ⟨i, hi, rfl⟩ := hids id hview
    have hposition := hlisted.positionOf_viewId (i := i) (by rwa [hlisted.length_eq])
    dsimp only
    rw [if_pos (by rw [hposition]; rfl)]

/-! ## Events -/

theorem anchorsResidual_of_boundary {e : ElementRecord} (h : boundary index e = true) :
    anchorsResidual (roleOfTag e.clarkTag) = true := by
  unfold boundary at h
  unfold anchorsResidual
  dsimp only at h
  split_ifs at h with hrole
  · rcases hrole with hrole | hrole <;> simp [hrole]
  · simp only [Bool.or_eq_true, decide_eq_true_eq] at h
    rcases h with h | h <;> simp [h]

/-- The view of an element or of a slot is warranted when it is not a residual one. -/
theorem mem_warranted_of_paragraph {e : ElementRecord} (he : e ∈ index.elements)
    (hroot : Rooted index e) {slot : TextSlot} (hkind : (viewOf index e.id slot).kind ≠ .residual) :
    viewOf index e.id slot ∈ warranted index := by
  obtain ⟨hprimary, a, ha, hid, hrole⟩ := anchored_slotView he (slotView_eq_viewOf he hroot slot)
  generalize viewOf index e.id slot = key at *
  obtain ⟨kind, elementRef⟩ := key
  cases kind with
  | paragraph =>
    obtain rfl : a.id = elementRef := hid
    refine List.mem_append_left _ (List.mem_filterMap.mpr ⟨a, ha, ?_⟩)
    rw [structuralOf, hrole rfl]
    rfl
  | residual => exact absurd rfl hkind
  | table => cases hprimary
  | row => cases hprimary
  | cell => cases hprimary
  | note => cases hprimary

theorem mem_warranted_of_anchorsResidual {e : ElementRecord} (he : e ∈ index.elements)
    (hroot : Rooted index e) (hrole : anchorsResidual (roleOfTag e.clarkTag) = true) :
    viewOf index e.id .text ∈ warranted index := by
  by_cases hkind : (viewOf index e.id .text).kind = .residual
  · refine List.mem_append_right _ (List.mem_append_right _ (List.mem_filterMap.mpr ⟨e, he, ?_⟩))
    rw [anchorOf, if_pos ⟨hrole, hkind⟩]
  · exact mem_warranted_of_paragraph he hroot hkind

theorem mem_warranted_of_text {x : TextRecord} (hx : x ∈ index.texts)
    (hkind : (viewOf index x.owner x.slot).kind = .residual) :
    viewOf index x.owner x.slot ∈ warranted index :=
  List.mem_append_right _ (List.mem_append_left _
    (List.mem_filter.mpr ⟨List.mem_map_of_mem hx, by simpa using hkind⟩))

/-- Where the links agree with the owners, every event stands in a warranted view. -/
theorem mem_warranted_of_event (hagree : LinksAgree index) {event : ProjectionEvent}
    (h : event ∈ documentOrder index) : event.viewKey ∈ warranted index := by
  obtain ⟨step, hstep, hmem⟩ := List.mem_flatMap.mp h
  obtain ⟨he, hroot⟩ := mem_walk hstep
  have htext : ∀ {e : ElementRecord} {slot : TextSlot} {reference : Option FragmentRef},
      e ∈ index.elements → Rooted index e → event ∈ textOrder index e slot reference →
        event.viewKey ∈ warranted index := by
    intro e slot reference he hroot hmem
    obtain ⟨id, -, rfl⟩ := List.mem_map.mp hmem
    obtain ⟨x, hx, heq⟩ := hagree _ (mem_documentOrder_fragment h).1
    simp only [Prod.mk.injEq] at heq
    obtain ⟨-, howner, hslot⟩ := heq
    change viewOf index e.id slot ∈ warranted index
    by_cases hkind : (viewOf index e.id slot).kind = .residual
    · rw [← howner, ← hslot] at hkind ⊢
      exact mem_warranted_of_text hx hkind
    · exact mem_warranted_of_paragraph he hroot hkind
  cases step with
  | node e =>
    rw [stepOrder, List.mem_append, List.mem_append] at hmem
    rcases hmem with (hmem | hmem) | hmem
    · exact htext he hroot hmem
    · unfold controlOrder at hmem
      split_ifs at hmem with hrole
      · obtain ⟨kind, -, rfl⟩ := List.mem_map.mp hmem
        exact mem_warranted_of_anchorsResidual he hroot (by simp [anchorsResidual, hrole.1])
      · cases hmem
    · unfold referenceOrder at hmem
      split_ifs at hmem with hboundary
      · obtain ⟨type, -, rfl⟩ := List.mem_map.mp hmem
        exact mem_warranted_of_anchorsResidual he hroot (anchorsResidual_of_boundary hboundary)
      · cases hmem
  | tail e => exact htext he hroot hmem

theorem exists_placed {views : List ProjectedView} (hlisted : Listed seeds views)
    {events : List ProjectionEvent} (h : ∀ event ∈ events, event.viewKey ∈ seeds.map ViewSeed.key) :
    ∃ placed, events.mapM (eventPosition seeds views) = .ok placed := by
  rw [exists_mapM_ok_iff]
  intro event hevent
  obtain ⟨i, hi, hid⟩ := exists_idByKey (h event hevent)
  rw [eventPosition]
  dsimp only
  rw [hid]
  dsimp only
  rw [hlisted.positionOf_viewId (by rwa [hlisted.length_eq])]
  exact ⟨_, rfl⟩

end Projection

end LawNexus.Reader
