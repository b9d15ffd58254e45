import LawNexus.Reader.Lossless

/-!
# The token of an address

A token that is made from its place in the stream, and the one that is made again from its range.
-/

namespace LawNexus.Reader

open Forest SourcePackage Loops Tiling

variable {index : ReaderRecordIndex} {projection : ReaderProjection}

/-! ## Units from all segments -/

section

variable {ε ε' : Type} {errors : UnitErrors ε} {errors' : UnitErrors ε'} {lo hi : Nat}

variable (errors errors') in
/-- The errors aside, the unit of a segment is the same. -/
theorem compositeUnit_ok_iff {segment : ProjectedSegment} {unit : Option CompositeUnit} :
    compositeUnit errors index lo hi segment = .ok unit ↔
      compositeUnit errors' index lo hi segment = .ok unit := by
  unfold compositeUnit
  dsimp only
  split_ifs
  · simp only [Except.ok.injEq]
  · split
    · simp only [bind_eq_ok_iff, orError_eq_ok_iff, mapError_eq_ok_iff, Except.ok.injEq]
    · simp only [Except.ok.injEq]

theorem compositeUnits_eq_ok_iff {segments : List ProjectedSegment} {units : List CompositeUnit} :
    compositeUnits errors index lo hi segments = .ok units ↔
      ∃ found, List.Forall₂ (fun s unit => compositeUnit errors index lo hi s = .ok unit) segments
        found ∧ found.reduceOption = units := by
  simp only [compositeUnits, map_eq_ok_iff, mapM_eq_ok_iff]

theorem compositeUnits_ok_iff {segments : List ProjectedSegment} {units : List CompositeUnit} :
    compositeUnits errors index lo hi segments = .ok units ↔
      compositeUnits errors' index lo hi segments = .ok units := by
  simp only [compositeUnits_eq_ok_iff, compositeUnit_ok_iff errors errors']

/-- Segments that a range does not meet have no unit. -/
theorem compositeUnits_of_apart {segments : List ProjectedSegment}
    (h : ∀ s ∈ segments, min hi s.outputEnd ≤ max lo s.outputStart) :
    compositeUnits errors index lo hi segments = .ok [] := by
  refine compositeUnits_eq_ok_iff.mpr ⟨segments.map fun _ => none, ?_, ?_⟩
  · rw [List.forall₂_map_right_iff, List.forall₂_same]
    intro s hs
    rw [compositeUnit]
    exact if_pos (h s hs)
  · clear h
    induction segments with
    | nil => rfl
    | cons s segments ih => rw [List.map_cons, List.reduceOption_cons_of_none, ih]

theorem compositeUnits_append {segments segments' : List ProjectedSegment}
    {units units' : List CompositeUnit}
    (h : compositeUnits errors index lo hi segments = .ok units)
    (h' : compositeUnits errors index lo hi segments' = .ok units') :
    compositeUnits errors index lo hi (segments ++ segments') = .ok (units ++ units') := by
  obtain ⟨found, hfound, rfl⟩ := compositeUnits_eq_ok_iff.mp h
  obtain ⟨found', hfound', rfl⟩ := compositeUnits_eq_ok_iff.mp h'
  exact compositeUnits_eq_ok_iff.mpr
    ⟨found ++ found', List.rel_append hfound hfound', List.reduceOption_append found found'⟩

theorem compositeUnits_of_cut {segments before met after : List ProjectedSegment}
    {a : ProjectedSegment} {units : List CompositeUnit}
    (hcut : Cut (·.outputStart) (·.outputEnd) lo hi segments before a met after)
    (h : compositeUnits errors index lo hi (a :: met) = .ok units) :
    compositeUnits errors index lo hi segments = .ok units := by
  have hbefore : compositeUnits errors index lo hi before = .ok [] :=
    compositeUnits_of_apart fun s hs => Nat.le_trans (Nat.min_le_right _ _)
      (Nat.le_trans (hcut.stops s hs) (Nat.le_max_left _ _))
  have hafter : compositeUnits errors index lo hi after = .ok [] :=
    compositeUnits_of_apart fun s hs => Nat.le_trans (Nat.min_le_left _ _)
      (Nat.le_trans (hcut.behind s hs) (Nat.le_max_right _ _))
  have hall := compositeUnits_append hbefore (compositeUnits_append h hafter)
  rw [List.nil_append, List.append_nil, List.cons_append] at hall
  rw [hcut.eq, hall]

end

/-! ## One run -/

section

variable {ι : Type} {identity : ι} {viewId : ViewId} {segments : List ProjectedSegment}
  {output part : List Char} {run : Run} {token : ReaderToken ι}

/-- The token of a run in one segment is the one of its unit. -/
theorem unit_of_localize {s : ProjectedSegment} {value : List Char}
    (hplaced : Placed index output s value) (hrun : Selects output run part)
    (hlies : run.LiesIn s) (h : localize index identity viewId [s] run = .ok token) :
    ∃ unit, compositeUnits compositeErrors index run.start run.stop [s] = .ok [unit] ∧
      unit.segment = s.id ∧
      unitToken identity index ⟨viewId, run.start, run.stop, [unit]⟩ s unit = .ok token := by
  have hlocal := Utf8.slice_within hplaced.slice hrun.slice hlies.1 hlies.2
  have hlt : ¬ run.start ≥ run.stop := Nat.not_le.mpr hrun.lt
  have hone : ∀ {unit}, compositeUnit compositeErrors index run.start run.stop s =
      .ok (some unit) → compositeUnits compositeErrors index run.start run.stop [s] = .ok [unit] :=
    fun hunit => compositeUnits_eq_ok_iff.mpr ⟨_, .cons hunit .nil, rfl⟩
  unfold localize at h
  dsimp only at h
  cases hplaced.whole with
  | @source fragment span record horigin hfragment hspan hrecord hvalue hstart _ =>
    rw [horigin] at h
    have htoken := h
    unfold sourceToken at h
    obtain ⟨fragment', hfragment', h⟩ := bind_eq_ok_iff.mp h
    obtain ⟨slot, hslot, h⟩ := bind_eq_ok_iff.mp h
    obtain ⟨span', hspan', h⟩ := bind_eq_ok_iff.mp h
    obtain ⟨record', hrecord', h⟩ := bind_eq_ok_iff.mp h
    obtain ⟨⟨⟩, hcheck, -⟩ := bind_eq_ok_iff.mp h
    rw [orError_eq_ok_iff] at hfragment' hspan' hrecord' hslot
    obtain rfl := Option.some.inj (hfragment.symm.trans hfragment')
    obtain rfl := Option.some.inj (hspan.symm.trans hspan')
    obtain rfl := Option.some.inj (hrecord.symm.trans hrecord')
    rw [mapError_eq_ok_iff, hstart, Nat.zero_add, Nat.zero_add] at hcheck
    refine ⟨.source s.id fragment slot
      ⟨fragment, run.start - s.outputStart, run.stop - s.outputStart⟩ s.elementRef s.sourcePos,
      hone ?_, rfl, ?_⟩
    · unfold compositeUnit
      dsimp only
      rw [Nat.max_eq_left hlies.1, Nat.min_eq_left hlies.2, if_neg hlt, horigin]
      dsimp only
      rw [hfragment, hslot, orError_some, ok_bind, orError_some, ok_bind, hrecord, orError_some,
        ok_bind, hcheck]
      rfl
    · unfold unitToken
      dsimp only
      rw [hrecord, orError_some, ok_bind, hvalue, hlocal, Option.getD_some, ← hrun.whitespace]
      exact htoken
  | @derived kind horigin _ =>
    rw [horigin] at h
    refine ⟨.derived s.id kind s.elementRef s.sourcePos, hone ?_, rfl, h⟩
    unfold compositeUnit
    dsimp only
    rw [Nat.max_eq_left hlies.1, Nat.min_eq_left hlies.2, if_neg hlt, horigin]

/-- The units of all segments give the token of a run, as the cursor gave it. -/
theorem units_of_localize (hlaid : Laid index output segments) (hrun : Selects output run part)
    (h : localize index identity viewId ((segments.dropWhile (·.outputEnd ≤ run.start)).takeWhile
      (·.outputStart < run.stop)) run = .ok token) :
    ∃ units, compositeUnits compositeErrors index run.start run.stop segments = .ok units ∧
      ((∃ s ∈ segments, ∃ unit, units = [unit] ∧ unit.segment = s.id ∧
          unitToken identity index ⟨viewId, run.start, run.stop, units⟩ s unit = .ok token) ∨
        1 < units.length ∧ rangeToken identity ⟨viewId, run.start, run.stop, units⟩ = token) := by
  have hmeets := (localize_ok hlaid hrun h).2
  obtain ⟨before, a, met, after, hcut⟩ := hlaid.exists_cut hrun
  have hover : (segments.dropWhile (·.outputEnd ≤ run.start)).takeWhile
      (·.outputStart < run.stop) = a :: met := hcut.eq_takeWhile
  rw [hover] at h
  cases met with
  | nil =>
    have ha : a ∈ segments := by simp [hcut.eq]
    obtain ⟨value, hplaced⟩ := hlaid.placed a ha
    obtain ⟨unit, hunits, hid, htoken⟩ :=
      unit_of_localize hplaced hrun ⟨hcut.start_le, hcut.le_end⟩ h
    exact ⟨[unit], compositeUnits_of_cut hcut hunits, .inl ⟨a, ha, unit, rfl, hid, htoken⟩⟩
  | cons b met =>
    obtain ⟨units, hunits, h⟩ := bind_eq_ok_iff.mp h
    split_ifs at h
    obtain rfl := Except.ok.inj h
    obtain ⟨-, -, -, hlength, -⟩ := hmeets
    rw [List.length_map] at hlength
    exact ⟨units, compositeUnits_of_cut hcut (compositeUnits_ok_iff.mp hunits),
      .inr ⟨hlength, rfl⟩⟩

end

/-! ## The address -/

theorem viewLen_ok {viewId : ViewId} {ids : List SegmentId} {segments : List ProjectedSegment}
    (h : Resolves projection ids segments) :
    viewLen projection viewId ids = .ok (endOf (·.outputEnd) 0 segments) := by
  have hlast : List.Forall₂ (fun id s => projection.segmentById id = some s) ids.reverse
      segments.reverse := List.rel_reverse h
  rw [viewLen, endOf, List.getLast?_eq_head?_reverse, List.getLast?_eq_head?_reverse]
  generalize ids.reverse = ids at hlast
  generalize segments.reverse = segments at hlast
  cases hlast with
  | nil => rfl
  | cons hs _ =>
    rw [List.head?_cons, List.head?_cons]
    dsimp only
    rw [hs]
    rfl

theorem resolveComposite_ok (address : CompositeAddress) {order : ReadingOrderIndex}
    {records : List Record} {first : ProjectedView} {ids : List SegmentId}
    {segments : List ProjectedSegment} {units : List CompositeUnit}
    (hfirst : projection.view address.view = some first) (hprimary : first.kind.isPrimary = true)
    (hids : order.readingOrder address.view = .ok ids) (hresolves : Resolves projection ids segments)
    (hindex : ReaderRecordIndex.new records = .ok index)
    (hlt : address.outputStart < address.outputEnd)
    (hle : address.outputEnd ≤ endOf (·.outputEnd) 0 segments)
    (hunits : compositeUnits compositeErrors index address.outputStart address.outputEnd segments =
      .ok units) (hne : units ≠ []) :
    resolveComposite projection order records address =
      .ok ⟨address.view, address.outputStart, address.outputEnd, units⟩ := by
  obtain ⟨found, hfound, rfl⟩ := compositeUnits_eq_ok_iff.mp hunits
  have hall : (ids.mapM fun id => do
      let segment ← orError (projection.segmentById id) (CompositeError.unknownSegment id)
      compositeUnit compositeErrors index address.outputStart address.outputEnd segment) =
        .ok found := by
    rw [mapM_eq_ok_iff]
    clear hids hle hunits hne
    induction hresolves generalizing found with
    | nil =>
      cases hfound
      exact .nil
    | cons hs _ ih =>
      cases hfound with
      | cons hunit hfound =>
        refine .cons ?_ (ih _ hfound)
        rw [hs]
        exact hunit
  unfold resolveComposite
  dsimp only
  rw [hfirst, orError_some, ok_bind, hprimary, if_neg (by decide), if_neg (Nat.not_le.mpr hlt), hids]
  dsimp only [Except.mapError]
  rw [ok_bind, viewLen_ok hresolves, ok_bind, if_neg (Nat.not_lt.mpr hle), hindex]
  dsimp only [Except.mapError]
  rw [ok_bind, hall, ok_bind, if_neg hne]

section

variable {ι : Type} {identity : ι} {records : List Record} {order : ReadingOrderIndex}
  {viewId : ViewId} {v : ProjectedView} {segments : List ProjectedSegment}
  {output part : List Char} {tokens : List (ReaderToken ι)} {token : ReaderToken ι} {run : Run}

theorem buildOrder_ok (h : ReadingOrderIndex.build projection records = .ok order) :
    buildOrder projection records = .ok order :=
  mapError_eq_ok_iff.mpr h

/-- An address is resolved in the first view with its id. -/
theorem exists_view_of_tokenizeAddress {address : CompositeAddress}
    (h : tokenizeAddress projection records identity address = .ok token) :
    ∃ first, projection.view address.view = some first ∧ first.kind.isPrimary = true := by
  unfold tokenizeAddress at h
  obtain ⟨order, -, h⟩ := bind_eq_ok_iff.mp h
  obtain ⟨range, hrange, -⟩ := bind_eq_ok_iff.mp h
  rw [mapError_eq_ok_iff] at hrange
  obtain ⟨first, hfirst, hrange⟩ := bind_eq_ok_iff.mp hrange
  refine ⟨first, orError_eq_ok_iff.mp hfirst, ?_⟩
  cases hprimary : first.kind.isPrimary with
  | true => rfl
  | false =>
    rw [hprimary, if_pos (by decide)] at hrange
    cases hrange

/-- Where the first view with the id is primary, the range of a run gives the token of the run. -/
theorem tokenizeAddress_of_localize (hids : (projection.segments.map (·.id)).Nodup)
    (hbuild : ReadingOrderIndex.build projection records = .ok order)
    (hview : ReadingOrderIndex.Tokenized projection order identity viewId v segments output tokens)
    {first : ProjectedView} (hfirst : projection.view viewId = some first)
    (hprimary : first.kind.isPrimary = true) (hrun : Selects output run part)
    (h : localize order.index identity viewId
      ((segments.dropWhile (·.outputEnd ≤ run.start)).takeWhile (·.outputStart < run.stop)) run =
        .ok token) :
    tokenizeAddress projection records identity ⟨viewId, run.start, run.stop⟩ = .ok token := by
  have hindex := (ReadingOrderIndex.build_ok hbuild).1
  obtain ⟨units, hunits, htoken⟩ := units_of_localize hview.laid hrun h
  have hne : units ≠ [] := by
    rcases htoken with ⟨s, -, unit, rfl, -⟩ | ⟨hlength, -⟩
    · exact List.cons_ne_nil _ _
    · rintro rfl
      exact absurd hlength (by decide)
  have hrange := resolveComposite_ok ⟨viewId, run.start, run.stop⟩ hfirst hprimary
    hview.ids hview.resolves hindex hrun.lt (by rw [hview.laid.stop]; exact hrun.le) hunits hne
  unfold tokenizeAddress
  rw [buildOrder_ok hbuild, ok_bind, hrange]
  dsimp only [Except.mapError]
  rw [ok_bind]
  rcases htoken with ⟨s, hs, unit, rfl, hid, htoken⟩ | ⟨hlength, rfl⟩
  · obtain ⟨id, hid'⟩ := (forall₂_partner hview.resolves).2 s hs
    have hmem := (lastOf_some hid'.2).1
    have hfind := find?_key hids hmem
    dsimp only
    rw [hindex]
    dsimp only [Except.mapError]
    rw [ok_bind, hid, hfind]
    dsimp only
    rw [htoken]
  · match units, hlength with
    | _ :: _ :: _, _ => rfl

end

/-! ## The stream -/

/-- The range of each token of the stream, in the view of the token. -/
def streamAddresses (projection : ReaderProjection) (order : ReadingOrderIndex) :
    List CompositeAddress :=
  (projection.views.filter (·.kind.isPrimary)).flatMap fun view =>
    (rangesOf 0 (partsOf ((order.viewOutput view.id).toOption.getD []))).map fun run =>
      ⟨view.id, run.start, run.stop⟩

/-- The first view with the id of a primary view that has segments is primary too. -/
def FirstPrimary (projection : ReaderProjection) : Prop :=
  ∀ view ∈ projection.views, view.kind.isPrimary = true → ∀ v,
    projection.primaryView view.id = some v → v.segmentRefs ≠ [] →
      ∃ first, projection.view view.id = some first ∧ first.kind.isPrimary = true

section

variable {ι : Type} {identity : ι} {records : List Record} {order : ReadingOrderIndex}
  {viewId : ViewId} {v : ProjectedView} {segments : List ProjectedSegment}
  {output : List Char} {tokens : List (ReaderToken ι)}

theorem Laid.ne_nil {s : ProjectedSegment} (h : Laid index output segments) (hs : s ∈ segments) :
    output ≠ [] := by
  obtain ⟨value, hplaced⟩ := h.placed s hs
  obtain ⟨before, after, rfl, -⟩ := Utf8.slice_eq_some_iff.mp hplaced.slice
  have hne := hplaced.whole.ne_nil
  simp [hne]

/-- The addresses of a view give its tokens where one of them has to give any. -/
theorem addresses_of_view (hids : (projection.segments.map (·.id)).Nodup)
    (hbuild : ReadingOrderIndex.build projection records = .ok order)
    (hview : ReadingOrderIndex.Tokenized projection order identity viewId v segments output tokens) :
    List.Forall₂ (fun address token =>
        tokenizeAddress projection records identity address = .ok token)
      ((rangesOf 0 (partsOf ((order.viewOutput viewId).toOption.getD []))).map fun run =>
        ⟨viewId, run.start, run.stop⟩) tokens ↔
      (v.segmentRefs ≠ [] →
        ∃ first, projection.view viewId = some first ∧ first.kind.isPrimary = true) := by
  rw [hview.viewOutput]
  change List.Forall₂ _ ((rangesOf 0 (partsOf output)).map _) tokens ↔ _
  constructor
  · intro hall hrefs
    have hsegments : segments ≠ [] := by
      rintro rfl
      exact hrefs (List.forall₂_nil_right_iff.mp hview.resolves)
    obtain ⟨s, hs⟩ := List.exists_mem_of_ne_nil segments hsegments
    have hparts : partsOf output ≠ [] := List.splitBy_ne_nil.mpr (hview.laid.ne_nil hs)
    obtain ⟨part, parts, hparts⟩ := List.exists_cons_of_ne_nil hparts
    rw [hparts, rangesOf, List.map_cons] at hall
    cases hall with
    | cons htoken _ => exact exists_view_of_tokenizeAddress htoken
  · intro hfirst
    have hruns := hview.localized
    rw [localizeRuns_eq_mapM, mapM_eq_ok_iff] at hruns
    have hselects := (forall₂_partner (selects_runsOf output)).1
    rw [← runsOf_eq, List.forall₂_map_left_iff]
    have hall := (List.forall₂_and_left _ _).mpr ⟨hselects, hruns⟩
    refine hall.imp ?_
    rintro run token ⟨⟨part, -, hrun⟩, htoken⟩
    have hrefs : v.segmentRefs ≠ [] := by
      intro hnil
      have hresolves := hview.resolves
      rw [hnil] at hresolves
      obtain rfl : segments = [] := List.forall₂_nil_left_iff.mp hresolves
      have hlt := hrun.lt
      have hle := hrun.le
      rw [← hview.laid.stop, endOf_nil] at hle
      omega
    obtain ⟨first, hfirst, hprimary⟩ := hfirst hrefs
    exact tokenizeAddress_of_localize hids hbuild hview hfirst hprimary hrun htoken

end

/-- Each token of the stream is the one of its range if and only if the first view with the id of a
primary view is primary. -/
theorem address_agrees_iff {ι : Type} (projection : ReaderProjection) (records : List Record)
    (identity : ι) (order : ReadingOrderIndex) (stream : TokenStream ι)
    (hids : (projection.segments.map (·.id)).Nodup)
    (hbuild : ReadingOrderIndex.build projection records = .ok order)
    (h : tokenize projection records identity = .ok stream) :
    List.Forall₂ (fun address token =>
        tokenizeAddress projection records identity address = .ok token)
      (streamAddresses projection order) stream.tokens ↔ FirstPrimary projection := by
  unfold tokenize at h
  rw [buildOrder_ok hbuild, ok_bind] at h
  obtain ⟨perView, hflat, hviews⟩ := tokenizeProjection_ok hbuild h
  rw [hflat, streamAddresses, forall₂_flatMap_iff ?_]
  · have hiff := hviews.imp (S := fun view tokens => List.Forall₂ (fun address token =>
        tokenizeAddress projection records identity address = .ok token)
      ((rangesOf 0 (partsOf ((order.viewOutput view.id).toOption.getD []))).map fun run =>
        ⟨view.id, run.start, run.stop⟩) tokens ↔
      ∀ v, projection.primaryView view.id = some v → v.segmentRefs ≠ [] →
        ∃ first, projection.view view.id = some first ∧ first.kind.isPrimary = true) ?_
    · rw [forall₂_iff_forall hiff]
      constructor
      · exact fun hall view hview hprimary => hall view (List.mem_filter.mpr ⟨hview, hprimary⟩)
      · exact fun hall view hview => hall view (List.mem_filter.mp hview).1
          (List.mem_filter.mp hview).2
    · rintro view tokens ⟨v, segments, output, hview⟩
      rw [addresses_of_view hids hbuild hview]
      constructor
      · intro hfirst v' hv'
        obtain rfl := Option.some.inj (hview.view.symm.trans hv')
        exact hfirst
      · exact fun hfirst => hfirst v hview.view
  · refine hviews.imp ?_
    rintro view tokens ⟨v, segments, output, hview⟩
    obtain ⟨-, hplaces⟩ := localizeRuns_ok hview.laid hview.localized
    rw [hview.viewOutput, List.length_map, ← hplaces.length_eq, runsOf_eq]
    rfl

namespace FirstPrimary.Sample

/-! ### A table with the id of a paragraph -/

open ReadingOrderIndex.Sample

def shadowed : ReaderProjection :=
  { projectionOf 0 1 with
    views := ⟨"v0", .table, "e0", none, [], [], [], ⟨false⟩⟩ :: (projectionOf 0 1).views }

theorem computed : ∀ projection ∈ [projectionOf 0 1, shadowed],
    (ReadingOrderIndex.build projection records).map (fun order =>
      (streamAddresses projection order,
        (tokenize projection records ()).map (·.tokens.length))) =
          .ok ([⟨"v0", 0, 2⟩], .ok 1) := by
  decide

theorem tokenized (projection : ReaderProjection) (h : projection ∈ [projectionOf 0 1, shadowed]) :
    ∃ order stream, ReadingOrderIndex.build projection records = .ok order ∧
      tokenize projection records () = .ok stream ∧
      streamAddresses projection order = [⟨"v0", 0, 2⟩] := by
  obtain ⟨order, hbuild, hshown⟩ := map_eq_ok_iff.mp (computed projection h)
  obtain ⟨haddresses, hlength⟩ := Prod.ext_iff.mp hshown
  obtain ⟨stream, hstream, -⟩ := map_eq_ok_iff.mp hlength
  exact ⟨order, stream, hbuild, hstream, haddresses⟩

/-- The address of the only token is refused. -/
theorem shadowed_address_refused : ∃ order stream,
    (shadowed.segments.map (·.id)).Nodup ∧
      ReadingOrderIndex.build shadowed records = .ok order ∧
      tokenize shadowed records () = .ok stream ∧
      ¬ List.Forall₂ (fun address token =>
          tokenizeAddress shadowed records () address = .ok token)
        (streamAddresses shadowed order) stream.tokens := by
  obtain ⟨order, stream, hbuild, hstream, haddresses⟩ := tokenized shadowed (by simp)
  refine ⟨order, stream, by decide, hbuild, hstream, fun hall => ?_⟩
  rw [haddresses] at hall
  obtain ⟨token, -, htoken, -⟩ := List.forall₂_cons_left_iff.mp hall
  obtain ⟨first, hfirst, hprimary⟩ := exists_view_of_tokenizeAddress htoken
  obtain rfl := Option.some.inj hfirst
  exact absurd hprimary (by decide)

theorem lone_address_agrees : ∃ order stream,
    ReadingOrderIndex.build (projectionOf 0 1) records = .ok order ∧
      tokenize (projectionOf 0 1) records () = .ok stream ∧
      List.Forall₂ (fun address token =>
          tokenizeAddress (projectionOf 0 1) records () address = .ok token)
        (streamAddresses (projectionOf 0 1) order) stream.tokens := by
  obtain ⟨order, stream, hbuild, hstream, -⟩ := tokenized (projectionOf 0 1) (by simp)
  refine ⟨order, stream, hbuild, hstream,
    (address_agrees_iff _ _ () order stream (by decide) hbuild hstream).mpr ?_⟩
  intro view hview hprimary v _ _
  obtain rfl := List.mem_singleton.mp hview
  exact ⟨_, rfl, rfl⟩

end FirstPrimary.Sample

end LawNexus.Reader
