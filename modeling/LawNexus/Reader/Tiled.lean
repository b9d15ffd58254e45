import LawNexus.Reader.ReadingOrder
import LawNexus.SourcePackage.Linear
import LawNexus.Tiling

/-!
# When the segments tile the output

The output is put together in the order of the references, and the ranges are checked in the order
of the ordinals.
-/

namespace LawNexus.Reader

open Forest SourcePackage Loops Tiling

variable {index : ReaderRecordIndex} {projection : ReaderProjection} {view : ProjectedView}

/-! ## Lookups by id -/

theorem lastOf_some {α : Type} {idOf : α → String} {items : List α} {id : String} {a : α}
    (h : lastOf idOf items id = some a) : a ∈ items ∧ idOf a = id :=
  ⟨List.mem_reverse.mp (List.mem_of_find?_eq_some h), by simpa using List.find?_some h⟩

theorem exists_lastOf {α : Type} (idOf : α → String) {items : List α} {a : α} (h : a ∈ items) :
    ∃ b, lastOf idOf items (idOf a) = some b := by
  rw [← Option.isSome_iff_exists, lastOf, List.find?_isSome]
  exact ⟨a, List.mem_reverse.mpr h, by simp⟩

/-- Lists that go together, with the same ids, have the same last ones. -/
theorem lastOf_forall₂ {α β : Type} {idOf : α → String} {idOf' : β → String} {R : α → β → Prop}
    {l : List α} {l' : List β} (h : List.Forall₂ R l l') (hid : ∀ a b, R a b → idOf a = idOf' b)
    {id : String} {a : α} (ha : lastOf idOf l id = some a) :
    ∃ b, lastOf idOf' l' id = some b ∧ R a b := by
  have hreverse : List.Forall₂ R l.reverse l'.reverse := List.rel_reverse h
  unfold lastOf at ha ⊢
  generalize l.reverse = m at ha hreverse
  generalize l'.reverse = m' at hreverse
  induction hreverse with
  | nil => cases ha
  | @cons x y m m' hxy _ ih =>
    by_cases hx : idOf x = id
    · rw [List.find?_cons_of_pos (by simpa using hx)] at ha
      rw [List.find?_cons_of_pos (by simpa [← hid x y hxy] using hx)]
      exact ⟨y, rfl, Option.some.inj ha ▸ hxy⟩
    · rw [List.find?_cons_of_neg (by simpa using hx)] at ha
      rw [List.find?_cons_of_neg (by simpa [← hid x y hxy] using hx)]
      exact ih ha

/-! ## The checks of a view -/

/-- The segments that ids stand for. -/
def Resolves (projection : ReaderProjection) (ids : List SegmentId)
    (segments : List ProjectedSegment) : Prop :=
  List.Forall₂ (fun id s => projection.segmentById id = some s) ids segments

theorem Resolves.ids {ids : List SegmentId} {segments : List ProjectedSegment}
    (h : Resolves projection ids segments) : segments.map (·.id) = ids := by
  induction h with
  | nil => rfl
  | cons hs _ ih => rw [List.map_cons, ih, (lastOf_some hs).2]

theorem Resolves.unique {ids : List SegmentId} {segments segments' : List ProjectedSegment}
    (h : Resolves projection ids segments) (h' : Resolves projection ids segments') :
    segments = segments' := by
  induction h generalizing segments' with
  | nil =>
    cases h'
    rfl
  | cons hs _ ih =>
    cases h' with
    | cons hs' hrest =>
      rw [ih hrest, Option.some.inj (hs.symm.trans hs')]

namespace ReadingOrderIndex

theorem resolveSegments_ok {resolved : List ProjectedSegment}
    (h : resolveSegments projection view = .ok resolved) :
    Resolves projection view.segmentRefs resolved := by
  unfold resolveSegments at h
  dsimp only at h
  split_ifs at h with hmissing
  obtain rfl := Except.ok.inj h
  rw [List.filter_eq_nil_iff] at hmissing
  generalize view.segmentRefs = ids at hmissing
  induction ids with
  | nil => exact .nil
  | cons id ids ih =>
    obtain ⟨s, hs⟩ := Option.ne_none_iff_exists'.mp (by simpa using hmissing id List.mem_cons_self)
    rw [List.filterMap_cons_some hs]
    exact .cons hs (ih fun a ha => hmissing a (List.mem_cons_of_mem _ ha))

theorem checkOrdinals_ok {viewId : ViewId} {resolved : List ProjectedSegment}
    (h : checkOrdinals viewId resolved = .ok ()) :
    (sortBy (·.ordinal) resolved).Pairwise fun a b => a.ordinal < b.ordinal := by
  unfold checkOrdinals at h
  dsimp only at h
  split_ifs at h with hrange
  have hsorted : (sortBy id (resolved.map (·.ordinal))).Nodup := hrange ▸ List.nodup_range
  have hnodup : (resolved.map (·.ordinal)).Nodup := (sortBy_perm id _).nodup_iff.mp hsorted
  have hne : (sortBy (·.ordinal) resolved).Pairwise fun a b => a.ordinal ≠ b.ordinal :=
    ((sortBy_perm _ resolved).pairwise_iff fun h => Ne.symm h).mpr (List.pairwise_map.mp hnodup)
  refine ((pairwise_sortBy (·.ordinal) resolved).and hne).imp ?_
  rintro a b ⟨hle, hne⟩
  exact Nat.lt_of_le_of_ne hle hne

/-- A segment whose range is as wide as its content. -/
def Wide (index : ReaderRecordIndex) (segment : ProjectedSegment) : Prop :=
  ∃ len, contentLen index segment = some len ∧ segment.outputEnd = segment.outputStart + len

theorem checkOutput_ok {id : ViewId} {running : Nat} {segments : List ProjectedSegment}
    (h : checkOutput index id running segments = .ok ()) :
    Chained (·.outputStart) (·.outputEnd) running segments ∧ ∀ s ∈ segments, Wide index s := by
  induction segments generalizing running with
  | nil => exact ⟨trivial, fun s hs => by cases hs⟩
  | cons segment rest ih =>
    unfold checkOutput at h
    split_ifs at h with hstart
    rw [not_not] at hstart
    split at h
    · cases h
    next len hlen =>
      split_ifs at h with hstop
      rw [not_not] at hstop
      obtain ⟨hrow, hwide⟩ := ih h
      refine ⟨⟨hstart, hrow⟩, List.forall_mem_cons.mpr ⟨⟨len, hlen, ?_⟩, hwide⟩⟩
      rw [hstop, hstart]

theorem ne_nil_of_checkOutput {id : ViewId} {running : Nat} {segments : List ProjectedSegment}
    {errors : List ReadingOrderError} (h : checkOutput index id running segments = .error errors) :
    errors ≠ [] := by
  induction segments generalizing running with
  | nil => cases h
  | cons segment rest ih =>
    unfold checkOutput at h
    split_ifs at h
    · rw [← Except.error.inj h]
      exact List.cons_ne_nil _ _
    split at h
    · rw [← Except.error.inj h]
      exact List.cons_ne_nil _ _
    split_ifs at h
    · rw [← Except.error.inj h]
      exact List.cons_ne_nil _ _
    · exact ih h

/-- What is known of a view that the build has put in order. -/
structure Ordered (projection : ReaderProjection) (index : ReaderRecordIndex)
    (view : ProjectedView) (segments : List ProjectedSegment) (ordered : OrderedView) : Prop where
  id : view.id = ordered.view
  ids : ordered.segments = view.segmentRefs
  resolves : Resolves projection view.segmentRefs segments
  keys : (sortBy (·.ordinal) segments).Pairwise fun a b => a.ordinal < b.ordinal
  row : Chained (·.outputStart) (·.outputEnd) 0 (sortBy (·.ordinal) segments)
  wide : ∀ s ∈ segments, Wide index s
  tokens : List.Forall₂ (fun s t => tokenOfSegment s = some t) segments ordered.contents

theorem segmentToken_ok {id : ViewId} {segment : ProjectedSegment} {token : Token}
    (h : segmentToken id segment = .ok token) : tokenOfSegment segment = some token := by
  unfold segmentToken at h
  split at h
  next token' htoken => rw [htoken, Except.ok.inj h]
  next => cases h

theorem orderView_ok {events : List WalkEvent} {ordered : OrderedView}
    (h : orderView projection index events view = .ok ordered) :
    ∃ segments, Ordered projection index view segments ordered := by
  unfold orderView at h
  obtain ⟨segments, hresolved, h⟩ := bind_eq_ok_iff.mp h
  obtain ⟨⟨⟩, hordinals, h⟩ := bind_eq_ok_iff.mp h
  obtain ⟨⟨⟩, houtput, h⟩ := bind_eq_ok_iff.mp h
  obtain ⟨actual, hactual, h⟩ := bind_eq_ok_iff.mp h
  dsimp only at h
  split_ifs at h
  obtain rfl := Except.ok.inj h
  have hresolves := resolveSegments_ok hresolved
  obtain ⟨hrow, hwide⟩ := checkOutput_ok houtput
  refine ⟨segments, rfl, hresolves.ids, hresolves, checkOrdinals_ok hordinals, hrow,
    fun s hs => hwide s (mem_sortBy.mpr hs), ?_⟩
  exact (mapM_eq_ok_iff.mp hactual).imp fun _ _ => segmentToken_ok

end ReadingOrderIndex

/-! ## The output -/

/-- The value of the fragment, or the literal of the control. -/
def ProjectedSegment.value (index : ReaderRecordIndex) (segment : ProjectedSegment) :
    Option (List Char) :=
  match segment.origin with
  | .sourceFragment => (segment.fragmentRef.bind index.text).map (·.value)
  | .derived kind => some kind.literal

/-- The segments of the ids tile the output, and the range of each one selects its own content. -/
def Tiles (projection : ReaderProjection) (index : ReaderRecordIndex) (ids : List SegmentId)
    (output : List Char) : Prop :=
  ∃ segments, Resolves projection ids segments ∧
    Chained (·.outputStart) (·.outputEnd) 0 segments ∧
    segments.getLast?.elim 0 (·.outputEnd) = Utf8.byteLen output ∧
    ∀ s ∈ segments, ∃ value, s.value index = some value ∧
      Utf8.slice output s.outputStart s.outputEnd = some value

/-- A segment with its content, where the range is as wide. -/
def Holds (index : ReaderRecordIndex) (segment : ProjectedSegment) (value : List Char) : Prop :=
  segment.value index = some value ∧
    segment.outputEnd = segment.outputStart + Utf8.byteLen value

theorem Holds.le {segment : ProjectedSegment} {value : List Char}
    (h : Holds index segment value) : segment.outputStart ≤ segment.outputEnd := by
  rw [h.2]
  exact Nat.le_add_right _ _

/-- Segments in a row, behind a text of the length where the row starts. -/
theorem slices_of_chained {segments : List ProjectedSegment} {values : List (List Char)}
    (hvalues : List.Forall₂ (Holds index) segments values) (before : List Char) {running : Nat}
    (hrow : Chained (·.outputStart) (·.outputEnd) running segments)
    (hlen : Utf8.byteLen before = running) :
    segments.getLast?.elim running (·.outputEnd) = Utf8.byteLen (before ++ values.flatten) ∧
    ∀ s ∈ segments, ∃ value, s.value index = some value ∧
      Utf8.slice (before ++ values.flatten) s.outputStart s.outputEnd = some value := by
  induction hvalues generalizing before running with
  | nil => exact ⟨by simp [hlen], fun s hs => by cases hs⟩
  | @cons s value segments values hs _ ih =>
    obtain ⟨hstart, hrest⟩ : s.outputStart = running ∧ _ := hrow
    obtain ⟨hvalue, hstop⟩ := hs
    have hbefore : Utf8.byteLen (before ++ value) = s.outputEnd := by
      rw [Utf8.byteLen_append, hlen, hstop, hstart]
    obtain ⟨hend, hslices⟩ := ih (before ++ value) hrest hbefore
    rw [List.append_assoc, ← List.flatten_cons] at hend hslices
    refine ⟨?_, List.forall_mem_cons.mpr ⟨⟨value, hvalue, ?_⟩, hslices⟩⟩
    · rw [← hend]
      cases segments with
      | nil => rfl
      | cons s' segments => rw [List.getLast?_cons_cons]; rfl
    · rw [List.flatten_cons, hstop, hstart, ← hlen]
      exact Utf8.slice_append before value values.flatten

namespace ReadingOrderIndex

theorem holds_of_wide {segment : ProjectedSegment} (h : Wide index segment) {token : Token}
    (htoken : tokenOfSegment segment = some token) :
    ∃ value, content index token = .ok value ∧ Holds index segment value := by
  obtain ⟨len, hlen, hstop⟩ := h
  unfold Holds ProjectedSegment.value
  unfold contentLen at hlen
  unfold tokenOfSegment at htoken
  cases horigin : segment.origin with
  | sourceFragment =>
    rw [horigin] at hlen htoken
    obtain ⟨fragment, hfragment, rfl⟩ := Option.map_eq_some_iff.mp htoken
    obtain ⟨fragment', hfragment', hbind⟩ := Option.bind_eq_some_iff.mp hlen
    obtain ⟨text, htext, hbytes⟩ := Option.bind_eq_some_iff.mp hbind
    obtain rfl := Option.some.inj (hfragment.symm.trans hfragment')
    refine ⟨text.value, by rw [content, htext], ?_, ?_⟩
    · simp [hfragment, htext]
    · rw [hstop, Option.some.inj hbytes]
  | derived kind =>
    rw [horigin] at hlen htoken
    obtain rfl := Option.some.inj htoken
    exact ⟨kind.literal, rfl, rfl, by rw [hstop, Option.some.inj hlen]⟩

/-- The contents of a view are those of its segments. -/
theorem Ordered.values {segments : List ProjectedSegment} {ordered : OrderedView}
    (h : Ordered projection index view segments ordered) :
    ∃ values, ordered.contents.mapM (content index) = .ok values ∧
      List.Forall₂ (Holds index) segments values := by
  obtain ⟨-, -, -, -, -, hwide, htokens⟩ := h
  simp only [mapM_eq_ok_iff]
  generalize ordered.contents = contents at htokens
  induction htokens with
  | nil => exact ⟨[], .nil, .nil⟩
  | cons htoken _ ih =>
    rw [List.forall_mem_cons] at hwide
    obtain ⟨value, hcontent, hholds⟩ := holds_of_wide hwide.1 htoken
    obtain ⟨values, hcontents, hall⟩ := ih hwide.2
    exact ⟨value :: values, .cons hcontent hcontents, .cons hholds hall⟩

/-- The output of a view is tiled if and only if its segments stand in a row by the references. -/
theorem Ordered.tiles_iff {segments : List ProjectedSegment} {ordered : OrderedView}
    (h : Ordered projection index view segments ordered) :
    ∃ values, ordered.contents.mapM (content index) = .ok values ∧
      (Tiles projection index ordered.segments values.flatten ↔
        Chained (·.outputStart) (·.outputEnd) 0 segments) := by
  obtain ⟨values, hcontents, hvalues⟩ := h.values
  refine ⟨values, hcontents, ?_⟩
  rw [h.ids]
  constructor
  · rintro ⟨segments', hresolves, hrow, -⟩
    rwa [h.resolves.unique hresolves]
  · intro hrow
    obtain ⟨hend, hslices⟩ := slices_of_chained hvalues [] hrow rfl
    exact ⟨segments, h.resolves, hrow, hend, hslices⟩

theorem Ordered.chained_iff {segments : List ProjectedSegment} {ordered : OrderedView}
    (h : Ordered projection index view segments ordered) :
    Chained (·.outputStart) (·.outputEnd) 0 segments ↔ segments.Pairwise fun a b =>
      a.ordinal < b.ordinal ∨ a.outputStart = a.outputEnd ∧ b.outputStart = b.outputEnd := by
  refine chained_perm_iff (sortBy_perm (·.ordinal) segments).symm ?_ h.keys h.row
  intro s hs
  obtain ⟨len, -, hstop⟩ := h.wide s hs
  rw [hstop]
  exact Nat.le_add_right _ _

/-! ## The index -/

/-- A view that is not put in order leaves an error. -/
theorem ne_nil_of_orderView {events : List WalkEvent} {errors : List ReadingOrderError}
    (h : orderView projection index events view = .error errors) : errors ≠ [] := by
  unfold orderView at h
  rcases bind_eq_error_iff.mp h with h | ⟨segments, -, h⟩
  · unfold resolveSegments at h
    dsimp only at h
    split_ifs at h with hmissing
    rw [← Except.error.inj h]
    exact fun hnil => hmissing (List.map_eq_nil_iff.mp hnil)
  rcases bind_eq_error_iff.mp h with h | ⟨-, -, h⟩
  · unfold checkOrdinals at h
    dsimp only at h
    split_ifs at h
    rw [← Except.error.inj h]
    exact List.cons_ne_nil _ _
  rcases bind_eq_error_iff.mp h with h | ⟨-, -, h⟩
  · exact ne_nil_of_checkOutput h
  rcases bind_eq_error_iff.mp h with h | ⟨actual, -, h⟩
  · obtain ⟨segment, -, h⟩ := exists_of_mapM_error h
    unfold segmentToken at h
    split at h
    · cases h
    · rw [← Except.error.inj h]
      exact List.cons_ne_nil _ _
  · dsimp only at h
    split_ifs at h
    rw [← Except.error.inj h]
    exact List.cons_ne_nil _ _

/-- Where no view leaves an error, each has been put in order. -/
theorem forall₂_of_errorsOf {events : List WalkEvent} {views : List ProjectedView}
    (h : (views.map (orderView projection index events)).flatMap errorsOf = []) :
    List.Forall₂ (fun v ordered => orderView projection index events v = .ok ordered) views
      ((views.map (orderView projection index events)).filterMap Except.toOption) := by
  induction views with
  | nil => exact .nil
  | cons v views ih =>
    rw [List.map_cons, List.flatMap_cons, List.append_eq_nil_iff] at h
    obtain ⟨hv, hrest⟩ := h
    cases horder : orderView projection index events v with
    | error errors =>
      rw [horder] at hv
      exact absurd hv (ne_nil_of_orderView horder)
    | ok ordered =>
      rw [List.map_cons, horder,
        List.filterMap_cons_some (rfl : Except.toOption (.ok ordered) = some ordered)]
      exact .cons horder (ih hrest)

variable {records : List Record} {order : ReadingOrderIndex}

theorem build_ok (h : build projection records = .ok order) :
    ReaderRecordIndex.new records = .ok order.index ∧
      ∃ events, documentEvents order.index = .ok events ∧
        missingViews projection events = [] ∧
        List.Forall₂ (fun v ordered => orderView projection order.index events v = .ok ordered)
          (projection.views.filter (·.kind.isPrimary)) order.views := by
  unfold build at h
  obtain ⟨index, hindex, h⟩ := bind_eq_ok_iff.mp h
  obtain ⟨events, hevents, h⟩ := bind_eq_ok_iff.mp h
  dsimp only at h
  split_ifs at h with herrors
  obtain rfl := Except.ok.inj h
  obtain ⟨hviews, hmissing⟩ := List.append_eq_nil_iff.mp herrors
  exact ⟨mapError_eq_ok_iff.mp hindex, events, mapError_eq_ok_iff.mp hevents, hmissing,
    forall₂_of_errorsOf hviews⟩

end ReadingOrderIndex

/-- The primary view of an id: the last one. -/
def ReaderProjection.primaryView (projection : ReaderProjection) (id : ViewId) :
    Option ProjectedView :=
  lastOf (·.id) (projection.views.filter (·.kind.isPrimary)) id

namespace ReadingOrderIndex

variable {records : List Record} {order : ReadingOrderIndex}

/-- What a lookup finds for a primary view. -/
theorem lookup_ok (h : build projection records = .ok order) (hview : view ∈ projection.views)
    (hprimary : view.kind.isPrimary = true) :
    ∃ v segments ordered, projection.primaryView view.id = some v ∧
      order.lookup view.id = .ok ordered ∧
      Ordered projection order.index v segments ordered := by
  obtain ⟨-, events, -, -, hall⟩ := build_ok h
  have hmem : view ∈ projection.views.filter (·.kind.isPrimary) :=
    List.mem_filter.mpr ⟨hview, hprimary⟩
  obtain ⟨v, hv⟩ := exists_lastOf ProjectedView.id hmem
  have hid : ∀ (v : ProjectedView) (ordered : OrderedView),
      orderView projection order.index events v = .ok ordered → v.id = ordered.view := by
    intro v ordered hordered
    obtain ⟨segments, hordered⟩ := orderView_ok hordered
    exact hordered.id
  obtain ⟨ordered, hlast, hordered⟩ := lastOf_forall₂ hall hid hv
  obtain ⟨segments, hordered⟩ := orderView_ok hordered
  exact ⟨v, segments, ordered, hv, by rw [lookup, hlast], hordered⟩

/-- The ordinals follow the references, but for segments without text. -/
def InOrder (projection : ReaderProjection) : Prop :=
  ∀ view ∈ projection.views, view.kind.isPrimary = true →
    ∀ v segments, projection.primaryView view.id = some v →
      Resolves projection v.segmentRefs segments → segments.Pairwise fun a b =>
        a.ordinal < b.ordinal ∨ a.outputStart = a.outputEnd ∧ b.outputStart = b.outputEnd

/-- The segments of every primary view tile its output, each with its own content, if and only if
no two ordinals of segments with text are against the references. -/
theorem reading_order_tiles (projection : ReaderProjection) (records : List Record)
    (order : ReadingOrderIndex) (h : build projection records = .ok order) :
    (∀ view ∈ projection.views, view.kind.isPrimary = true → ∃ ids output,
      order.readingOrder view.id = .ok ids ∧ order.viewOutput view.id = .ok output ∧
      Tiles projection order.index ids output) ↔ InOrder projection := by
  constructor
  · intro htiles view hview hprimary v segments hv hresolves
    obtain ⟨ids, output, hids, houtput, htiles⟩ := htiles view hview hprimary
    obtain ⟨v', segments', ordered, hv', hlookup, hordered⟩ := lookup_ok h hview hprimary
    obtain rfl := Option.some.inj (hv.symm.trans hv')
    obtain rfl := hresolves.unique hordered.resolves
    obtain ⟨values, hcontents, hiff⟩ := hordered.tiles_iff
    rw [readingOrder, hlookup] at hids
    rw [viewOutput, hlookup, ok_bind, hcontents] at houtput
    obtain rfl := Except.ok.inj hids
    obtain rfl := Except.ok.inj houtput
    exact hordered.chained_iff.mp (hiff.mp htiles)
  · intro hinorder view hview hprimary
    obtain ⟨v, segments, ordered, hv, hlookup, hordered⟩ := lookup_ok h hview hprimary
    obtain ⟨values, hcontents, hiff⟩ := hordered.tiles_iff
    refine ⟨ordered.segments, values.flatten, ?_, ?_, hiff.mpr (hordered.chained_iff.mpr ?_)⟩
    · rw [readingOrder, hlookup]
      rfl
    · rw [viewOutput, hlookup, ok_bind, hcontents]
      rfl
    · exact hinorder view hview hprimary v segments hv hordered.resolves

end ReadingOrderIndex

namespace ReadingOrderIndex.Sample

/-! ### Two texts whose ordinals are against the references -/

/-- `<p>a<r>b</r></p>`. -/
def records : List Record :=
  let word (name : String) : SourceNode :=
    ⟨"{http://schemas.openxmlformats.org/wordprocessingml/2006/main}" ++ name, .empty, .empty,
      none, none, none⟩
  [.element (elementRecord 0 none none 0 false (word "p") (some "t0") none),
    .element (elementRecord 1 (some 0) (some 0) 1 false (word "r") (some "t1") none),
    .text (textRecord 0 0 .text ['a']), .text (textRecord 1 1 .text ['b'])]

def segment (id : SegmentId) (fragment : FragmentRef) (ordinal : Nat) : ProjectedSegment where
  id
  view := "v0"
  ordinal
  segmentKind := .text
  fragmentRef := some fragment
  slot := some .text
  span := some ⟨fragment, 0, 1⟩
  outputStart := ordinal
  outputEnd := ordinal + 1
  chars := 1
  origin := .sourceFragment
  semantic := .body
  contextual := false
  elementRef := "e0"
  sourcePos := 0
  text := none

/-- The two texts, with these ordinals and the ranges that go with them. -/
def projectionOf (first second : Nat) : ReaderProjection where
  views := [⟨"v0", .paragraph, "e0", none, [], ["s0", "s1"], [], ⟨false⟩⟩]
  segments := [segment "s0" "t0" first, segment "s1" "t1" second]
  references := []
  contentHash := none

theorem computed : ∀ ordinals ∈ [(0, 1), (1, 0)],
    (build (projectionOf ordinals.1 ordinals.2) records).map (fun order =>
      (order.readingOrder "v0", order.viewOutput "v0")) =
        .ok (.ok ["s0", "s1"], .ok ['a', 'b']) := by
  decide

/-- The first text, by the references, has the range of the second one in the output. -/
theorem crossed_ordinals_accepted : ∃ order, build (projectionOf 1 0) records = .ok order ∧
    ¬ ∀ view ∈ (projectionOf 1 0).views, view.kind.isPrimary = true → ∃ ids output,
      order.readingOrder view.id = .ok ids ∧ order.viewOutput view.id = .ok output ∧
      Tiles (projectionOf 1 0) order.index ids output := by
  obtain ⟨order, hbuild, hshown⟩ := map_eq_ok_iff.mp (computed (1, 0) (by decide))
  refine ⟨order, hbuild, fun htiles => ?_⟩
  obtain ⟨ids, output, hids, -, segments, hresolves, hrow, -⟩ :=
    htiles _ List.mem_cons_self rfl
  obtain rfl : ["s0", "s1"] = ids := Except.ok.inj ((Prod.ext_iff.mp hshown).1.symm.trans hids)
  cases hresolves with
  | cons hfirst _ =>
    obtain rfl : segment "s0" "t0" 1 = _ := Option.some.inj hfirst
    exact absurd hrow.1 (by decide)

theorem straight_ordinals_tile : ∃ order, build (projectionOf 0 1) records = .ok order ∧
    ∀ view ∈ (projectionOf 0 1).views, view.kind.isPrimary = true → ∃ ids output,
      order.readingOrder view.id = .ok ids ∧ order.viewOutput view.id = .ok output ∧
      Tiles (projectionOf 0 1) order.index ids output := by
  obtain ⟨order, hbuild, -⟩ := map_eq_ok_iff.mp (computed (0, 1) (by decide))
  refine ⟨order, hbuild, (reading_order_tiles _ _ order hbuild).mpr ?_⟩
  intro view hview _ v segments hv hresolves
  obtain rfl := List.mem_singleton.mp hview
  obtain rfl := Option.some.inj hv
  have hboth : Resolves (projectionOf 0 1) ["s0", "s1"] [segment "s0" "t0" 0, segment "s1" "t1" 1] :=
    .cons rfl (.cons rfl .nil)
  obtain rfl := hboth.unique hresolves
  exact List.pairwise_pair.mpr (.inl (by decide))

end ReadingOrderIndex.Sample

end LawNexus.Reader
