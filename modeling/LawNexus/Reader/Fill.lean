import LawNexus.Reader.Events

/-!
# Filling the views

What the loop over the views puts into the segments and the references.
-/

namespace LawNexus.Reader

open Forest SourcePackage Loops

namespace Projection

variable {index : ReaderRecordIndex} {view : ViewId}

/-! ## One event -/

/-- The segment shows the event, whatever its number and its place in the view are. -/
def Renders (index : ReaderRecordIndex) (view : ViewId) (s : ProjectedSegment) :
    ProjectionEvent → Prop
  | .fragment id slot owner _ => ∃ x semantic pos, index.text id = some x ∧ x.value ≠ [] ∧
      textSemantic projectionErrors index owner slot x.value = .ok semantic ∧
      index.sourcePos owner = some pos ∧
      s = { s with
        view, segmentKind := .text, fragmentRef := some id, slot := some slot
        span := some (wholeFragmentSpan id x.value)
        outputEnd := s.outputStart + Utf8.byteLen x.value
        chars := x.value.length, origin := .sourceFragment, semantic
        contextual := semantic ≠ .body, elementRef := owner, sourcePos := pos, text := none }
  | .control element kind _ => ∃ pos, index.sourcePos element = some pos ∧
      s = { s with
        view, segmentKind := .derived, fragmentRef := none, slot := none, span := none
        outputEnd := s.outputStart + Utf8.byteLen kind.literal
        chars := kind.literal.length, origin := .derived kind, semantic := .derivedSeparator
        contextual := true, elementRef := element, sourcePos := pos, text := some kind.literal }
  | .reference .. => False

def Cites (index : ReaderRecordIndex) (view : ViewId) (r : ProjectedReference) :
    ProjectionEvent → Prop
  | .reference element type _ => ∃ pos, index.sourcePos element = some pos ∧
      r = { r with
        view, referenceType := type, elementRef := element, sourcePos := pos, resolved := false }
  | _ => False

def isSegment : ProjectionEvent → Bool
  | .reference .. => false
  | _ => true

/-- Nothing that the loop looks for on account of the event is missing. -/
def Renderable (index : ReaderRecordIndex) : ProjectionEvent → Prop
  | .fragment id slot owner _ => ∃ x semantic pos, index.text id = some x ∧ x.value ≠ [] ∧
      textSemantic projectionErrors index owner slot x.value = .ok semantic ∧
      index.sourcePos owner = some pos
  | .control element _ _ => ∃ pos, index.sourcePos element = some pos
  | .reference element _ _ => ∃ pos, index.sourcePos element = some pos

variable {fill fill' : Fill} {s : ProjectedSegment} {r : ProjectedReference}

theorem wholeSpan_ok_iff {fragment : FragmentRef} {value : List Char} {span : ReaderFragmentSpan} :
    wholeSpan fragment value = .ok span ↔ value ≠ [] ∧ span = wholeFragmentSpan fragment value := by
  rw [← @checkFragmentSpan_whole_iff fragment, wholeSpan]
  split
  · rename_i error heq
    rw [heq]
    simp
  · rename_i heq
    rw [heq]
    simp [eq_comm]

theorem requirePos_ok_iff {what id : String} {pos : Nat} :
    requirePos index what id = .ok pos ↔ index.sourcePos id = some pos := by
  unfold requirePos missingView
  split <;> simp_all

theorem fragmentSegment_ok_iff {id : FragmentRef} {slot : TextSlot} {owner : ElementRef}
    {key : ReaderViewKey} : fragmentSegment index view fill id slot owner = .ok s ↔
      (s.id = segmentId fill.segments.length ∧ s.ordinal = fill.segmentOrdinal ∧
        s.outputStart = fill.outputBytes) ∧ Renders index view s (.fragment id slot owner key) := by
  unfold fragmentSegment Renders missingView
  cases htext : index.text id with
  | none => simp [htext]
  | some x =>
    simp only [bind_eq_ok_iff, wholeSpan_ok_iff, requirePos_ok_iff, Except.ok.injEq]
    constructor
    · rintro ⟨span, ⟨hvalue, rfl⟩, semantic, hsemantic, pos, hpos, rfl⟩
      exact ⟨⟨rfl, rfl, rfl⟩, x, semantic, pos, htext, hvalue, hsemantic, hpos, rfl⟩
    · rintro ⟨⟨hid, hordinal, hstart⟩, x', semantic, pos, hx, hvalue, hsemantic, hpos, heq⟩
      obtain rfl := Option.some.inj (htext.symm.trans hx)
      refine ⟨_, ⟨hvalue, rfl⟩, semantic, hsemantic, pos, hpos, ?_⟩
      rw [heq, ← hid, ← hordinal, ← hstart]

theorem derivedSegment_ok_iff {element : ElementRef} {kind : ReaderDerivedKind}
    {key : ReaderViewKey} : derivedSegment index view fill element kind = .ok s ↔
      (s.id = segmentId fill.segments.length ∧ s.ordinal = fill.segmentOrdinal ∧
        s.outputStart = fill.outputBytes) ∧ Renders index view s (.control element kind key) := by
  unfold derivedSegment Renders
  simp only [bind_eq_ok_iff, requirePos_ok_iff, Except.ok.injEq]
  constructor
  · rintro ⟨pos, hpos, rfl⟩
    exact ⟨⟨rfl, rfl, rfl⟩, pos, hpos, rfl⟩
  · rintro ⟨⟨hid, hordinal, hstart⟩, pos, hpos, heq⟩
    refine ⟨pos, hpos, ?_⟩
    rw [heq, ← hid, ← hordinal, ← hstart]

theorem unresolvedReference_ok_iff {element : ElementRef} {type : ReaderReferenceType}
    {key : ReaderViewKey} : unresolvedReference index view fill element type = .ok r ↔
      (r.id = referenceId fill.references.length ∧ r.ordinal = fill.referenceOrdinal) ∧
        Cites index view r (.reference element type key) := by
  unfold unresolvedReference Cites
  simp only [bind_eq_ok_iff, requirePos_ok_iff, Except.ok.injEq]
  constructor
  · rintro ⟨pos, hpos, rfl⟩
    exact ⟨⟨rfl, rfl⟩, pos, hpos, rfl⟩
  · rintro ⟨⟨hid, hordinal⟩, pos, hpos, heq⟩
    refine ⟨pos, hpos, ?_⟩
    rw [heq, ← hid, ← hordinal]

/-- One turn of the loop over the events of a view. -/
theorem fillEvent_ok {event : ProjectionEvent} (h : fillEvent index view fill event = .ok fill') :
    (isSegment event = true ∧ ∃ s, fill' = fill.pushSegment s ∧
      (s.id = segmentId fill.segments.length ∧ s.ordinal = fill.segmentOrdinal ∧
        s.outputStart = fill.outputBytes) ∧ Renders index view s event) ∨
    (isSegment event = false ∧ ∃ r, fill' = fill.pushReference r ∧
      (r.id = referenceId fill.references.length ∧ r.ordinal = fill.referenceOrdinal) ∧
        Cites index view r event) := by
  cases event with
  | fragment id slot owner key =>
    obtain ⟨s, hs, rfl⟩ := map_eq_ok_iff.mp h
    obtain ⟨hnumber, hrenders⟩ := (@fragmentSegment_ok_iff _ _ _ _ _ _ _ key).mp hs
    exact Or.inl ⟨rfl, s, rfl, hnumber, hrenders⟩
  | control element kind key =>
    obtain ⟨s, hs, rfl⟩ := map_eq_ok_iff.mp h
    obtain ⟨hnumber, hrenders⟩ := (@derivedSegment_ok_iff _ _ _ _ _ _ key).mp hs
    exact Or.inl ⟨rfl, s, rfl, hnumber, hrenders⟩
  | reference element type key =>
    obtain ⟨r, hr, rfl⟩ := map_eq_ok_iff.mp h
    obtain ⟨hnumber, hcites⟩ := (@unresolvedReference_ok_iff _ _ _ _ _ _ key).mp hr
    exact Or.inr ⟨rfl, r, rfl, hnumber, hcites⟩

theorem exists_fillEvent_iff {event : ProjectionEvent} :
    (∃ fill', fillEvent index view fill event = .ok fill') ↔ Renderable index event := by
  cases event with
  | fragment id slot owner key =>
    simp only [fillEvent, map_eq_ok_iff, Renderable]
    constructor
    · rintro ⟨fill', s, hs, -⟩
      obtain ⟨-, x, semantic, pos, hx, hvalue, hsemantic, hpos, -⟩ :=
        (@fragmentSegment_ok_iff _ _ _ _ _ _ _ key).mp hs
      exact ⟨x, semantic, pos, hx, hvalue, hsemantic, hpos⟩
    · rintro ⟨x, semantic, pos, hx, hvalue, hsemantic, hpos⟩
      have hsegment : ∃ s, fragmentSegment index view fill id slot owner = .ok s := by
        rw [fragmentSegment, hx]
        dsimp only
        rw [wholeSpan_ok_iff.mpr ⟨hvalue, rfl⟩, ok_bind, hsemantic, ok_bind,
          requirePos_ok_iff.mpr hpos, ok_bind]
        exact ⟨_, rfl⟩
      obtain ⟨s, hs⟩ := hsegment
      exact ⟨_, s, hs, rfl⟩
  | control element kind key =>
    simp only [fillEvent, map_eq_ok_iff, Renderable]
    constructor
    · rintro ⟨fill', s, hs, -⟩
      obtain ⟨-, pos, hpos, -⟩ := (@derivedSegment_ok_iff _ _ _ _ _ _ key).mp hs
      exact ⟨pos, hpos⟩
    · rintro ⟨pos, hpos⟩
      have hsegment : ∃ s, derivedSegment index view fill element kind = .ok s := by
        rw [derivedSegment, requirePos_ok_iff.mpr hpos, ok_bind]
        exact ⟨_, rfl⟩
      obtain ⟨s, hs⟩ := hsegment
      exact ⟨_, s, hs, rfl⟩
  | reference element type key =>
    simp only [fillEvent, map_eq_ok_iff, Renderable]
    constructor
    · rintro ⟨fill', r, hr, -⟩
      obtain ⟨-, pos, hpos, -⟩ := (@unresolvedReference_ok_iff _ _ _ _ _ _ key).mp hr
      exact ⟨pos, hpos⟩
    · rintro ⟨pos, hpos⟩
      have href : ∃ r, unresolvedReference index view fill element type = .ok r := by
        rw [unresolvedReference, requirePos_ok_iff.mpr hpos, ok_bind]
        exact ⟨_, rfl⟩
      obtain ⟨r, hr⟩ := href
      exact ⟨_, r, hr, rfl⟩

/-! ## One view -/

/-- The numbers of the segments of a view: the ids and the ordinals count up, and each output range
starts where the one before ends. -/
def Numbered (number ordinal output : Nat) : List ProjectedSegment → Prop
  | [] => True
  | s :: rest => (s.id = segmentId number ∧ s.ordinal = ordinal ∧ s.outputStart = output) ∧
      Numbered (number + 1) (ordinal + 1) s.outputEnd rest

def NumberedReferences (number ordinal : Nat) : List ProjectedReference → Prop
  | [] => True
  | r :: rest => (r.id = referenceId number ∧ r.ordinal = ordinal) ∧
      NumberedReferences (number + 1) (ordinal + 1) rest

/-- What a view shows of its events. -/
structure Shows (index : ReaderRecordIndex) (view : ViewId) (own : List ProjectionEvent)
    (segments : List ProjectedSegment) (references : List ProjectedReference) : Prop where
  rendered : List.Forall₂ (Renders index view) segments (own.filter isSegment)
  cited : List.Forall₂ (Cites index view) references (own.filter (!isSegment ·))

theorem foldlM_fillEvent {own : List ProjectionEvent}
    (h : own.foldlM (fillEvent index view) fill = .ok fill') : ∃ segments references,
      Shows index view own segments references ∧
      fill'.segments = fill.segments ++ segments ∧
      fill'.segmentRefs = fill.segmentRefs ++ segments.map (·.id) ∧
      fill'.references = fill.references ++ references ∧
      fill'.referenceRefs = fill.referenceRefs ++ references.map (·.id) ∧
      Numbered fill.segments.length fill.segmentOrdinal fill.outputBytes segments ∧
      NumberedReferences fill.references.length fill.referenceOrdinal references := by
  induction own generalizing fill with
  | nil =>
    obtain rfl := Except.ok.inj h
    exact ⟨[], [], ⟨.nil, .nil⟩, by simp, by simp, by simp, by simp, trivial, trivial⟩
  | cons event own ih =>
    rw [List.foldlM_cons] at h
    obtain ⟨next, hnext, hrest⟩ := bind_eq_ok_iff.mp h
    obtain ⟨segments, references, ⟨hrendered, hcited⟩, hsegments, hsegmentRefs, hreferences,
      hreferenceRefs, hnumbered, hnumberedRefs⟩ := ih hrest
    rcases fillEvent_ok hnext with ⟨hkind, s, rfl, hnumber, hrenders⟩ |
      ⟨hkind, r, rfl, hnumber, hcites⟩
    · refine ⟨s :: segments, references, ⟨?_, ?_⟩, ?_, ?_, hreferences, hreferenceRefs, ⟨hnumber, ?_⟩,
        hnumberedRefs⟩
      · rw [List.filter_cons_of_pos hkind]
        exact .cons hrenders hrendered
      · rwa [List.filter_cons_of_neg (by simp [hkind])]
      · rw [hsegments, Fill.pushSegment, List.append_assoc]
        rfl
      · rw [hsegmentRefs, Fill.pushSegment, List.append_assoc]
        rfl
      · rwa [Fill.pushSegment, List.length_append] at hnumbered
    · refine ⟨segments, r :: references, ⟨?_, ?_⟩, hsegments, hsegmentRefs, ?_, ?_, hnumbered,
        ⟨hnumber, ?_⟩⟩
      · rwa [List.filter_cons_of_neg (by simp [hkind])]
      · rw [List.filter_cons_of_pos (by simp [hkind])]
        exact .cons hcites hcited
      · rw [hreferences, Fill.pushReference, List.append_assoc]
        rfl
      · rw [hreferenceRefs, Fill.pushReference, List.append_assoc]
        rfl
      · rwa [Fill.pushReference, List.length_append] at hnumberedRefs

theorem exists_foldlM_fillEvent_iff {own : List ProjectionEvent} :
    (∃ fill', own.foldlM (fillEvent index view) fill = .ok fill') ↔
      ∀ event ∈ own, Renderable index event := by
  induction own generalizing fill with
  | nil => exact iff_of_true ⟨fill, rfl⟩ (by simp)
  | cons event own ih =>
    rw [List.forall_mem_cons, List.foldlM_cons]
    simp only [bind_eq_ok_iff]
    constructor
    · rintro ⟨fill', next, hnext, hrest⟩
      exact ⟨exists_fillEvent_iff.mp ⟨next, hnext⟩, ih.mp ⟨fill', hrest⟩⟩
    · rintro ⟨hevent, hown⟩
      obtain ⟨next, hnext⟩ := exists_fillEvent_iff.mpr hevent
      obtain ⟨fill', hrest⟩ := (@ih next).mpr hown
      exact ⟨fill', next, hnext, hrest⟩

/-! ## All views -/

def eventsAt (placed : List (Nat × ProjectionEvent)) (position : Nat) : List ProjectionEvent :=
  (placed.filter (·.1 = position)).map (·.2)

/-- The views from a position on, before and after the loop, with what it adds. -/
inductive Filled (index : ReaderRecordIndex) (placed : List (Nat × ProjectionEvent)) :
    Nat → Nat → Nat → List ProjectedView → List ProjectedView → List ProjectedSegment →
      List ProjectedReference → Prop
  | nil {position n m : Nat} : Filled index placed position n m [] [] [] []
  | navigation {position n m : Nat} {view : ProjectedView} {rest rest' : List ProjectedView}
      {segments : List ProjectedSegment} {references : List ProjectedReference} :
      view.kind.isPrimary = false →
      Filled index placed (position + 1) n m rest rest' segments references →
      Filled index placed position n m (view :: rest) (view :: rest') segments references
  | primary {position n m : Nat} {view : ProjectedView} {rest rest' : List ProjectedView}
      {own segments : List ProjectedSegment} {cited references : List ProjectedReference} :
      view.kind.isPrimary = true →
      Shows index view.id (eventsAt placed position) own cited → Numbered n 0 0 own →
      NumberedReferences m 0 cited →
      Filled index placed (position + 1) (n + own.length) (m + cited.length) rest rest' segments
        references →
      Filled index placed position n m (view :: rest)
        ({ view with segmentRefs := own.map (·.id), referenceRefs := cited.map (·.id) } :: rest')
        (own ++ segments) (cited ++ references)

variable {placed : List (Nat × ProjectionEvent)} {position n m : Nat}
  {views views' : List ProjectedView} {segments segments' : List ProjectedSegment}
  {references references' : List ProjectedReference}

theorem fillViews_ok
    (h : fillViews index placed position segments references views =
      .ok (views', segments', references')) :
    ∃ more cited, segments' = segments ++ more ∧ references' = references ++ cited ∧
      Filled index placed position segments.length references.length views views' more cited := by
  induction views generalizing position segments references views' with
  | nil =>
    cases h
    exact ⟨[], [], by simp, by simp, .nil⟩
  | cons view views ih =>
    rw [fillViews] at h
    split_ifs at h with hkind
    · obtain ⟨fill, hfold, h⟩ := bind_eq_ok_iff.mp h
      obtain ⟨⟨rest, more, cited⟩, hrest, h⟩ := bind_eq_ok_iff.mp h
      cases h
      obtain ⟨own, ownRefs, hshows, hsegments, hsegmentRefs, hreferences, hreferenceRefs, hnumbered,
        hnumberedRefs⟩ := foldlM_fillEvent hfold
      obtain ⟨more, cited, rfl, rfl, hfilled⟩ := ih hrest
      dsimp only at hsegments hsegmentRefs hreferences hreferenceRefs
      rw [List.nil_append] at hsegmentRefs hreferenceRefs
      refine ⟨own ++ more, ownRefs ++ cited, ?_, ?_, ?_⟩
      · rw [hsegments, List.append_assoc]
      · rw [hreferences, List.append_assoc]
      · rw [hsegmentRefs, hreferenceRefs]
        refine .primary hkind hshows hnumbered hnumberedRefs ?_
        rwa [hsegments, hreferences, List.length_append, List.length_append] at hfilled
    · obtain ⟨⟨rest, more, cited⟩, hrest, h⟩ := bind_eq_ok_iff.mp h
      cases h
      obtain ⟨more, cited, rfl, rfl, hfilled⟩ := ih hrest
      exact ⟨more, cited, rfl, rfl, .navigation (by simpa using hkind) hfilled⟩

theorem exists_fillViews_iff : (∃ out, fillViews index placed position segments references views =
      .ok out) ↔ ∀ i view, views[i]? = some view → view.kind.isPrimary = true →
        ∀ event ∈ eventsAt placed (position + i), Renderable index event := by
  induction views generalizing position segments references with
  | nil => exact iff_of_true ⟨_, rfl⟩ (by simp)
  | cons view views ih =>
    have htail : (∀ i v, (view :: views)[i]? = some v → v.kind.isPrimary = true →
          ∀ event ∈ eventsAt placed (position + i), Renderable index event) ↔
        (view.kind.isPrimary = true →
          ∀ event ∈ eventsAt placed position, Renderable index event) ∧
        ∀ i v, views[i]? = some v → v.kind.isPrimary = true →
          ∀ event ∈ eventsAt placed (position + 1 + i), Renderable index event := by
      constructor
      · intro h
        refine ⟨h 0 view rfl, fun i v hv => ?_⟩
        rw [Nat.add_assoc, Nat.add_comm 1]
        exact h (i + 1) v hv
      · rintro ⟨hhead, hrest⟩ i v hv
        cases i with
        | zero =>
          obtain rfl := Option.some.inj hv
          exact hhead
        | succ i =>
          rw [Nat.add_comm i 1, ← Nat.add_assoc]
          exact hrest i v hv
    rw [htail, fillViews]
    split_ifs with hkind
    · simp only [bind_eq_ok_iff]
      constructor
      · rintro ⟨out, fill, hfold, rest, hrest, -⟩
        exact ⟨fun _ => exists_foldlM_fillEvent_iff.mp ⟨fill, hfold⟩, ih.mp ⟨rest, hrest⟩⟩
      · rintro ⟨hhead, hrest⟩
        obtain ⟨fill, hfold⟩ := exists_foldlM_fillEvent_iff.mpr (hhead hkind)
        obtain ⟨rest, hrest⟩ := ih.mpr hrest
        exact ⟨_, fill, hfold, rest, hrest, rfl⟩
    · simp only [bind_eq_ok_iff]
      constructor
      · rintro ⟨out, rest, hrest, -⟩
        exact ⟨fun h => absurd h hkind, ih.mp ⟨rest, hrest⟩⟩
      · rintro ⟨-, hrest⟩
        obtain ⟨rest, hrest⟩ := ih.mpr hrest
        exact ⟨_, rest, hrest, rfl⟩

namespace Filled

/-- Every segment shows an event of its view. -/
theorem exists_event (h : Filled index placed position n m views views' segments references)
    (hs : s ∈ segments) : ∃ i view event, views[i]? = some view ∧ view.kind.isPrimary = true ∧
      event ∈ eventsAt placed (position + i) ∧ Renders index view.id s event := by
  induction h with
  | nil => cases hs
  | navigation hkind _ ih =>
    obtain ⟨i, view, event, hview, hprimary, hevent, hrenders⟩ := ih hs
    rw [Nat.add_assoc, Nat.add_comm 1] at hevent
    exact ⟨i + 1, view, event, hview, hprimary, hevent, hrenders⟩
  | @primary position n m view rest rest' own segments cited references hkind hshows _ _ _ ih =>
    rcases List.mem_append.mp hs with hs | hs
    · obtain ⟨event, hevent, hrenders⟩ := (forall₂_partner hshows.rendered).1 s hs
      exact ⟨0, view, event, rfl, hkind, (List.mem_filter.mp hevent).1, hrenders⟩
    · obtain ⟨i, view, event, hview, hprimary, hevent, hrenders⟩ := ih hs
      rw [Nat.add_assoc, Nat.add_comm 1] at hevent
      exact ⟨i + 1, view, event, hview, hprimary, hevent, hrenders⟩

/-- Every event of a primary view is shown. -/
theorem exists_segment (h : Filled index placed position n m views views' segments references)
    {i : Nat} {v : ProjectedView} (hview : views[i]? = some v) (hprimary : v.kind.isPrimary = true)
    {event : ProjectionEvent} (hevent : event ∈ eventsAt placed (position + i))
    (hsegment : isSegment event = true) : ∃ s ∈ segments, Renders index v.id s event := by
  induction h generalizing i with
  | nil => cases hview
  | navigation hkind _ ih =>
    cases i with
    | zero =>
      obtain rfl := Option.some.inj hview
      rw [hkind] at hprimary
      cases hprimary
    | succ i =>
      rw [Nat.add_comm i 1, ← Nat.add_assoc] at hevent
      exact ih hview hevent
  | primary hkind hshows _ _ _ ih =>
    cases i with
    | zero =>
      obtain rfl := Option.some.inj hview
      obtain ⟨s, hs, hrenders⟩ := (forall₂_partner hshows.rendered).2 event
        (List.mem_filter.mpr ⟨hevent, hsegment⟩)
      exact ⟨s, List.mem_append_left _ hs, hrenders⟩
    | succ i =>
      rw [Nat.add_comm i 1, ← Nat.add_assoc] at hevent
      obtain ⟨s, hs, hrenders⟩ := ih hview hevent
      exact ⟨s, List.mem_append_right _ hs, hrenders⟩

/-- The loop changes nothing but the references to segments and to references. -/
theorem map_eq {α : Type} (h : Filled index placed position n m views views' segments references)
    (f : ProjectedView → α)
    (hf : ∀ v segmentRefs referenceRefs, f { v with segmentRefs, referenceRefs } = f v) :
    views'.map f = views.map f := by
  induction h with
  | nil => rfl
  | navigation _ _ ih => rw [List.map_cons, List.map_cons, ih]
  | primary _ _ _ _ _ ih => rw [List.map_cons, List.map_cons, ih, hf]

end Filled

end Projection

end LawNexus.Reader
