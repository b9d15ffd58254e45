import LawNexus.Reader.Represents

/-!
# A built projection

The ids of a built projection tell its views, its segments and its references apart, and each view
shows the events of its own key.
-/

namespace LawNexus.Reader

open Forest SourcePackage Loops ReaderRecordIndex Verifier

theorem lastOf_of_nodup {α : Type} {idOf : α → String} {items : List α} {a : α}
    (hnodup : (items.map idOf).Nodup) (ha : a ∈ items) : lastOf idOf items (idOf a) = some a := by
  refine find?_key ?_ (List.mem_reverse.mpr ha)
  rwa [List.map_reverse, List.nodup_reverse]

/-- What a view refers to by an id, where it says the same. -/
theorem filter_of_lastOf {α : Type} {idOf viewOf : α → String} {items : List α} {id view : String}
    {a : α} (h : lastOf idOf items id = some a) (hview : viewOf a = view) :
    (lastOf idOf items id).filter (viewOf · = view) = some a := by
  rw [h, Option.filter_some, if_pos (decide_eq_true hview)]

namespace Projection

variable {index : ReaderRecordIndex} {placed : List (Nat × ProjectionEvent)} {position n m : Nat}
  {views views' : List ProjectedView} {segments : List ProjectedSegment}
  {references : List ProjectedReference}

/-! ## The ids -/

theorem Numbered.ids_eq {ordinal output : Nat} (h : Numbered n ordinal output segments) :
    segments.map (·.id) = (List.range' n segments.length).map segmentId := by
  induction segments generalizing n ordinal output with
  | nil => rfl
  | cons s segments ih =>
    rw [List.map_cons, List.length_cons, List.range'_succ, List.map_cons, h.1.1, ih h.2]

theorem Numbered.ordinals_eq {ordinal output : Nat} (h : Numbered n ordinal output segments) :
    segments.map (·.ordinal) = List.range' ordinal segments.length := by
  induction segments generalizing n ordinal output with
  | nil => rfl
  | cons s segments ih => rw [List.map_cons, List.length_cons, List.range'_succ, h.1.2.1, ih h.2]

theorem NumberedReferences.ids_eq {ordinal : Nat} (h : NumberedReferences m ordinal references) :
    references.map (·.id) = (List.range' m references.length).map referenceId := by
  induction references generalizing m ordinal with
  | nil => rfl
  | cons r references ih =>
    rw [List.map_cons, List.length_cons, List.range'_succ, List.map_cons, h.1.1, ih h.2]

namespace Filled

theorem ids_eq (h : Filled index placed position n m views views' segments references) :
    segments.map (·.id) = (List.range' n segments.length).map segmentId ∧
      references.map (·.id) = (List.range' m references.length).map referenceId := by
  induction h with
  | nil => exact ⟨rfl, rfl⟩
  | navigation _ _ ih => exact ih
  | primary _ _ hnumbered hreferences _ ih =>
    rw [List.map_append, List.map_append, List.length_append, List.length_append,
      ← List.range'_append_1, ← List.range'_append_1, List.map_append, List.map_append,
      hnumbered.ids_eq, hreferences.ids_eq, ih.1, ih.2]
    exact ⟨rfl, rfl⟩

theorem nodup_ids (h : Filled index placed position n m views views' segments references) :
    (segments.map (·.id)).Nodup ∧ (references.map (·.id)).Nodup := by
  rw [h.ids_eq.1, h.ids_eq.2]
  exact ⟨(List.nodup_range' 1).map fun _ _ => Texts.append_repr_inj.mp,
    (List.nodup_range' 1).map fun _ _ => Texts.append_repr_inj.mp⟩

/-- The view at a position, with what it shows. -/
theorem exists_shown (h : Filled index placed position n m views views' segments references)
    (hnavigation : ∀ i v, views[i]? = some v → v.kind.isPrimary = false →
      eventsAt placed (position + i) = [] ∧ v.segmentRefs = [] ∧ v.referenceRefs = [])
    {i : Nat} {v : ProjectedView} (hv : views[i]? = some v) : ∃ own cited,
      Shows index v.id (eventsAt placed (position + i)) own cited ∧ (∃ k, Numbered k 0 0 own) ∧
        own ⊆ segments ∧ cited ⊆ references ∧ views'[i]? = some
          { v with segmentRefs := own.map (·.id), referenceRefs := cited.map (·.id) } := by
  have hshift : ∀ {p} (views : List ProjectedView) (v : ProjectedView),
      (∀ i w, (v :: views)[i]? = some w → w.kind.isPrimary = false →
        eventsAt placed (p + i) = [] ∧ w.segmentRefs = [] ∧ w.referenceRefs = []) →
      ∀ i w, views[i]? = some w → w.kind.isPrimary = false →
        eventsAt placed (p + 1 + i) = [] ∧ w.segmentRefs = [] ∧ w.referenceRefs = [] := by
    intro p views v h i w hw
    rw [Nat.add_assoc, Nat.add_comm 1]
    exact h (i + 1) w hw
  induction h generalizing i with
  | nil => cases hv
  | @navigation position n m view rest rest' segments references hkind _ ih =>
    cases i with
    | zero =>
      obtain rfl := Option.some.inj hv
      obtain ⟨hevents, hsegments, hreferences⟩ := hnavigation 0 _ rfl hkind
      refine ⟨[], [], ?_, ⟨n, trivial⟩, List.nil_subset _, List.nil_subset _, ?_⟩
      · rw [hevents]
        exact ⟨.nil, .nil⟩
      · clear ih hnavigation hkind
        cases view
        cases hsegments
        cases hreferences
        rfl
    | succ i =>
      obtain ⟨own, cited, hshows, hnumbered, hown, hcited, hview⟩ := ih (hshift _ _ hnavigation) hv
      rw [Nat.add_assoc, Nat.add_comm 1] at hshows
      exact ⟨own, cited, hshows, hnumbered, hown, hcited, hview⟩
  | primary hkind hshows hnumbered _ _ ih =>
    cases i with
    | zero =>
      obtain rfl := Option.some.inj hv
      exact ⟨_, _, hshows, ⟨_, hnumbered⟩, List.subset_append_left _ _,
        List.subset_append_left _ _, rfl⟩
    | succ i =>
      obtain ⟨own, cited, hshows, hnumbered, hown, hcited, hview⟩ := ih (hshift _ _ hnavigation) hv
      rw [Nat.add_assoc, Nat.add_comm 1] at hshows
      exact ⟨own, cited, hshows, hnumbered, List.subset_append_of_subset_right _ hown,
        List.subset_append_of_subset_right _ hcited, hview⟩

theorem resolved (h : Filled index placed position n m views views' segments references)
    {r : ProjectedReference} (hr : r ∈ references) : r.resolved = false := by
  induction h with
  | nil => cases hr
  | navigation _ _ ih => exact ih hr
  | primary _ hshows _ _ _ ih =>
    rcases List.mem_append.mp hr with hr | hr
    · obtain ⟨event, -, hcites⟩ := (forall₂_partner hshows.cited).1 r hr
      cases event with
      | reference element type key =>
        obtain ⟨pos, -, heq⟩ := hcites
        rw [heq]
      | fragment id slot owner key => exact hcites.elim
      | control element kind key => exact hcites.elim
    · exact ih hr

end Filled

/-! ## The views -/

variable {seeds : List ViewSeed}

/-- The view that a seed becomes. -/
def viewOfSeed (index : ReaderRecordIndex) (seeds : List ViewSeed) (entry : ViewSeed × Nat) :
    ProjectedView where
  id := viewId entry.2
  kind := entry.1.kind
  elementRef := entry.1.elementRef
  parentView := (containerOf index entry.1.key).bind (idByKey seeds)
  children := []
  segmentRefs := []
  referenceRefs := []
  flags := ⟨false⟩

theorem projectViews_eq (h : seeds.zipIdx.mapM (projectView index seeds) = .ok views) :
    views = seeds.zipIdx.map (viewOfSeed index seeds) := by
  have hviews : views.map id = seeds.zipIdx.map (viewOfSeed index seeds) := by
    refine map_eq_of_mapM h fun entry v hv => ?_
    obtain ⟨id, hid, hv⟩ := bind_eq_ok_iff.mp hv
    obtain ⟨parent, hparent, rfl, -⟩ := parentKey_ok hid
    obtain rfl := parentKey_eq hparent
    exact (Except.ok.inj hv).symm
  rwa [List.map_id] at hviews

theorem findIdx?_key {i : Nat} {seed : ViewSeed} (hnodup : (seeds.map ViewSeed.key).Nodup)
    (hseed : seeds[i]? = some seed) : seeds.findIdx? (·.key = seed.key) = some i := by
  obtain ⟨hi, rfl⟩ := List.getElem?_eq_some_iff.mp hseed
  rw [List.findIdx?_eq_some_iff_getElem]
  refine ⟨hi, by simp, fun j hj => ?_⟩
  have hlength : i < (seeds.map ViewSeed.key).length := by rwa [List.length_map]
  have hbefore : j < (seeds.map ViewSeed.key).length := hj.trans hlength
  have hne : (seeds.map ViewSeed.key)[j] ≠ (seeds.map ViewSeed.key)[i] := fun heq =>
    hj.ne (hnodup.getElem_inj_iff.mp heq)
  simpa using hne

/-- The position that the id of a key leads to is the one of the seed with this key. -/
theorem position_iff (hlisted : Listed seeds views) (hnodup : (seeds.map ViewSeed.key).Nodup)
    {i : Nat} {seed : ViewSeed} (hseed : seeds[i]? = some seed) {parent : Option ReaderViewKey} :
    (parent.bind (idByKey seeds)).bind (positionOf views) = some i ↔ parent = some seed.key := by
  have hi : i < views.length := by
    rw [hlisted.length_eq]
    exact (List.getElem?_eq_some_iff.mp hseed).1
  cases parent with
  | none => exact iff_of_false (by simp) (by simp)
  | some key =>
    rw [Option.bind_some, Option.some.injEq, idByKey]
    constructor
    · intro h
      obtain ⟨id, hid, hposition⟩ := Option.bind_eq_some_iff.mp h
      obtain ⟨j, hj, rfl⟩ := Option.map_eq_some_iff.mp hid
      obtain ⟨hlt, hkey, -⟩ := List.findIdx?_eq_some_iff_getElem.mp hj
      rw [hlisted.positionOf_viewId (by rwa [hlisted.length_eq]), Option.some.injEq] at hposition
      subst hposition
      rw [List.getElem?_eq_getElem hlt, Option.some.injEq] at hseed
      rw [← hseed]
      exact (of_decide_eq_true hkey).symm
    · rintro rfl
      rw [findIdx?_key hnodup hseed, Option.map_some, Option.bind_some, hlisted.positionOf_viewId hi]

/-- The events at a position are those of the key of its seed. -/
theorem eventsAt_eq (hlisted : Listed seeds views) (hnodup : (seeds.map ViewSeed.key).Nodup)
    (hplaced : Placed (documentOrder index) views placed) {i : Nat} {seed : ViewSeed}
    (hseed : seeds[i]? = some seed) :
    eventsAt placed i = (documentOrder index).filter (·.viewKey = seed.key) := by
  rw [← hplaced.events_eq, List.filter_map, eventsAt]
  congr 1
  refine List.filter_congr fun entry hentry => ?_
  obtain ⟨v, hv, hkey⟩ := hplaced.view entry hentry
  have hkeys := congrArg (·[entry.1]?) hlisted.key
  simp only [List.getElem?_map, hv, Option.map_some] at hkeys
  obtain ⟨seed', hseed', hsame⟩ := Option.map_eq_some_iff.mp hkeys.symm
  rw [Function.comp_apply, decide_eq_decide, ← hkey, ← hsame]
  constructor
  · intro h
    rw [h, hseed, Option.some.injEq] at hseed'
    rw [hseed']
  · intro h
    have hfirst := findIdx?_key hnodup hseed'
    rw [h, findIdx?_key hnodup hseed, Option.some.injEq] at hfirst
    exact hfirst.symm

end Projection

end LawNexus.Reader
