import LawNexus.Reader.Runs
import LawNexus.Reader.Tiled
import Mathlib.Data.List.ReduceOption

/-!
# What the tokens of a view say

A projection that is put in order and tokenized has segments that each stand for a whole fragment,
so that the texts of the tokens are the runs of the output.
-/

namespace LawNexus.Reader

open Forest SourcePackage Loops Tiling

variable {index : ReaderRecordIndex} {projection : ReaderProjection}

/-! ## The texts -/

def ReaderFragmentSpan.text (index : ReaderRecordIndex) (span : ReaderFragmentSpan) :
    Option (List Char) :=
  (index.text span.fragment).bind fun record => Utf8.slice record.value span.start span.stop

def TokenUnit.text (index : ReaderRecordIndex) : TokenUnit → Option (List Char)
  | .sourceSubspan _ _ _ span _ _ => span.text index
  | .derivedControl _ kind _ _ => some kind.literal

def ReaderToken.text {ι : Type} (index : ReaderRecordIndex) : ReaderToken ι → Option (List Char)
  | .source _ _ _ _ _ _ _ span _ _ => span.text index
  | .derivedControl _ _ _ _ _ _ _ literal => some literal
  | .composite _ _ _ _ units => (units.mapM (TokenUnit.text index)).map List.flatten

/-! ## Whole fragments -/

/-- A segment for the whole of a text that is not empty. -/
inductive Whole (index : ReaderRecordIndex) (segment : ProjectedSegment) (value : List Char) :
    Prop where
  | source {fragment : FragmentRef} {span : ReaderFragmentSpan} {record : TextRecord}
    (origin : segment.origin = .sourceFragment) (fragmentRef : segment.fragmentRef = some fragment)
    (spanned : segment.span = some span) (text : index.text fragment = some record)
    (whole : record.value = value) (start : span.start = 0) (ne_nil : value ≠ [])
  | derived {kind : ReaderDerivedKind} (origin : segment.origin = .derived kind)
    (literal : value = kind.literal)

theorem literal_ne_nil (kind : ReaderDerivedKind) : kind.literal ≠ [] := by
  cases kind <;> exact List.cons_ne_nil _ _

theorem byteLen_literal (kind : ReaderDerivedKind) : Utf8.byteLen kind.literal = 1 := by
  cases kind <;> decide

theorem Whole.ne_nil {segment : ProjectedSegment} {value : List Char}
    (h : Whole index segment value) : value ≠ [] := by
  cases h with
  | source _ _ _ _ _ _ hne => exact hne
  | derived _ hliteral => exact hliteral ▸ literal_ne_nil _

theorem checkFragmentSpan_ok {value : List Char} {span : ReaderFragmentSpan}
    (h : checkFragmentSpan value span = .ok ()) :
    span.start < span.stop ∧ ∃ part, Utf8.slice value span.start span.stop = some part := by
  unfold checkFragmentSpan at h
  dsimp only at h
  split_ifs at h with hlt hlen hbounds
  rw [Bool.or_eq_true, not_or, Bool.not_eq_true, Bool.not_eq_false', Bool.not_eq_true,
    Bool.not_eq_false', Utf8.isCharBoundary_iff, Utf8.isCharBoundary_iff] at hbounds
  rw [Nat.not_le] at hlt
  exact ⟨hlt, hbounds.1.exists_slice hbounds.2 (Nat.le_of_lt hlt)⟩

/-- A piece is not empty, and as wide as the content only where it is all of it. -/
theorem pieceOf_ok {segment : ProjectedSegment} {piece : List Char}
    (h : pieceOf index segment = .ok piece) :
    piece ≠ [] ∧ ∀ value, segment.value index = some value →
      Utf8.byteLen piece = Utf8.byteLen value → Whole index segment value ∧ piece = value := by
  unfold pieceOf at h
  unfold ProjectedSegment.value
  cases horigin : segment.origin with
  | sourceFragment =>
    rw [horigin] at h
    dsimp only at h ⊢
    obtain ⟨fragment, hfragment, h⟩ := bind_eq_ok_iff.mp h
    obtain ⟨span, hspan, h⟩ := bind_eq_ok_iff.mp h
    obtain ⟨record, hrecord, h⟩ := bind_eq_ok_iff.mp h
    obtain ⟨⟨⟩, hcheck, h⟩ := bind_eq_ok_iff.mp h
    rw [orError_eq_ok_iff] at hfragment hspan hrecord
    obtain ⟨hlt, part, hpart⟩ := checkFragmentSpan_ok (mapError_eq_ok_iff.mp hcheck)
    rw [hpart] at h
    obtain rfl : part = piece := Except.ok.inj h
    have hlen := Utf8.slice_length hpart
    have hne : part ≠ [] := by
      rintro rfl
      rw [Utf8.byteLen_nil] at hlen
      omega
    refine ⟨hne, fun value hvalue hwide => ?_⟩
    simp only [hfragment, Option.bind_some, hrecord, Option.map_some,
      Option.some.injEq] at hvalue
    have hle := (Utf8.isBoundary_of_slice hpart).2.le
    rw [hvalue] at hle
    have hstart : span.start = 0 := by omega
    have hstop : span.stop = Utf8.byteLen record.value := by rw [hvalue]; omega
    rw [hstart, hstop, Utf8.slice_all] at hpart
    obtain rfl := Option.some.inj hpart
    exact ⟨.source horigin hfragment hspan hrecord hvalue hstart (hvalue ▸ hne), hvalue⟩
  | derived kind =>
    rw [horigin] at h
    obtain rfl := Except.ok.inj h
    refine ⟨literal_ne_nil kind, fun value hvalue _ => ?_⟩
    obtain rfl := Option.some.inj hvalue
    exact ⟨.derived horigin rfl, rfl⟩

/-! ## The two checks -/

/-- Where the piece of a segment ends in the output. -/
def pieceEnd (index : ReaderRecordIndex) (segment : ProjectedSegment) : Nat :=
  segment.outputStart + Utf8.byteLen ((pieceOf index segment).toOption.getD [])

theorem pieceEnd_of_ok {segment : ProjectedSegment} {piece : List Char}
    (h : pieceOf index segment = .ok piece) :
    pieceEnd index segment = segment.outputStart + Utf8.byteLen piece := by
  rw [pieceEnd, h]
  rfl

theorem assemble_ok {before output : List Char} {segments : List ProjectedSegment}
    (h : assemble index before segments = .ok output) :
    ∃ pieces, List.Forall₂ (fun s p => pieceOf index s = .ok p) segments pieces ∧
      output = before ++ pieces.flatten ∧
      Chained (·.outputStart) (pieceEnd index) (Utf8.byteLen before) segments ∧
      endOf (pieceEnd index) (Utf8.byteLen before) segments = Utf8.byteLen output := by
  induction segments generalizing before with
  | nil =>
    obtain rfl := Except.ok.inj h
    exact ⟨[], .nil, by simp, trivial, rfl⟩
  | cons s segments ih =>
    rw [assemble] at h
    split_ifs at h with hstart
    rw [not_not] at hstart
    obtain ⟨piece, hpiece, h⟩ := bind_eq_ok_iff.mp h
    obtain ⟨pieces, hpieces, rfl, hrow, hend⟩ := ih h
    have hstop : pieceEnd index s = Utf8.byteLen (before ++ piece) := by
      rw [pieceEnd_of_ok hpiece, hstart, Utf8.byteLen_append]
    refine ⟨piece :: pieces, .cons hpiece hpieces, by simp, ⟨hstart, hstop ▸ hrow⟩, ?_⟩
    rw [endOf_cons, hstop, hend]

/-- A segment with its content in the output. -/
structure Placed (index : ReaderRecordIndex) (output : List Char) (segment : ProjectedSegment)
    (value : List Char) : Prop where
  whole : Whole index segment value
  slice : Utf8.slice output segment.outputStart segment.outputEnd = some value

/-- The segments of an output stand in a row, each with the whole of its content. -/
structure Laid (index : ReaderRecordIndex) (output : List Char)
    (segments : List ProjectedSegment) : Prop where
  row : Chained (·.outputStart) (·.outputEnd) 0 segments
  stop : endOf (·.outputEnd) 0 segments = Utf8.byteLen output
  placed : ∀ s ∈ segments, ∃ value, Placed index output s value

theorem Placed.lt {output value : List Char} {segment : ProjectedSegment}
    (h : Placed index output segment value) : segment.outputStart < segment.outputEnd := by
  have hpos := Utf8.byteLen_pos h.whole.ne_nil
  have hlen := Utf8.slice_length h.slice
  omega

theorem Laid.le {output : List Char} {segments : List ProjectedSegment}
    (h : Laid index output segments) : ∀ s ∈ segments, s.outputStart ≤ s.outputEnd := by
  intro s hs
  obtain ⟨value, hplaced⟩ := h.placed s hs
  exact Nat.le_of_lt hplaced.lt

namespace ReadingOrderIndex

variable {view : ProjectedView} {segments : List ProjectedSegment} {ordered : OrderedView}

/-- Pieces in a row by the references put the ordinals in the same order. -/
theorem Ordered.chained_of_assemble (h : Ordered projection index view segments ordered)
    {output : List Char} (houtput : assemble index [] segments = .ok output) :
    Chained (·.outputStart) (·.outputEnd) 0 segments := by
  obtain ⟨pieces, hpieces, -, hrow, -⟩ := assemble_ok houtput
  have hlt : ∀ s ∈ segments, s.outputStart < pieceEnd index s := by
    intro s hs
    obtain ⟨piece, -, hpiece⟩ := (forall₂_partner hpieces).1 s hs
    have hpos := Utf8.byteLen_pos (pieceOf_ok hpiece).1
    rw [pieceEnd_of_ok hpiece]
    omega
  have hascending : segments.Pairwise fun a b => a.outputStart < b.outputStart := by
    refine (hrow.pairwise fun s hs => Nat.le_of_lt (hlt s hs)).1.imp_of_mem ?_
    exact fun {a b} ha _ hab => Nat.lt_of_lt_of_le (hlt a ha) hab
  refine h.chained_iff.mpr ?_
  have hwide : ∀ s ∈ sortBy (·.ordinal) segments, s.outputStart ≤ s.outputEnd := by
    intro s hs
    obtain ⟨len, -, hstop⟩ := h.wide s (mem_sortBy.mp hs)
    omega
  -- By the ordinals the starts do not go down.
  have hsorted : (sortBy (·.ordinal) segments).Pairwise fun a b =>
      a.ordinal < b.ordinal ∧ a.outputStart ≤ b.outputStart := by
    refine h.keys.and ((h.row.pairwise hwide).1.imp_of_mem ?_)
    exact fun {a b} ha _ hab => Nat.le_trans (hwide a ha) hab
  have hboth : segments.Pairwise fun a b =>
      (a.ordinal < b.ordinal ∧ a.outputStart ≤ b.outputStart) ∨
        (b.ordinal < a.ordinal ∧ b.outputStart ≤ a.outputStart) :=
    ((sortBy_perm (·.ordinal) segments).pairwise_iff fun h => h.symm).mp (hsorted.imp .inl)
  refine (hboth.and hascending).imp ?_
  rintro a b ⟨⟨hordinal, -⟩ | ⟨-, hle⟩, hlt⟩
  · exact .inl hordinal
  · exact absurd hlt (Nat.not_lt.mpr hle)

/-- What the tokenizer puts together is the output of the view, where every segment has the whole
of its content. -/
theorem Ordered.laid (h : Ordered projection index view segments ordered) {output : List Char}
    (houtput : assemble index [] segments = .ok output)
    (hend : Utf8.byteLen output = segments.getLast?.elim 0 (·.outputEnd)) :
    ∃ values, ordered.contents.mapM (content index) = .ok values ∧ output = values.flatten ∧
      Laid index output segments := by
  obtain ⟨values, hcontents, hvalues⟩ := h.values
  have hrow := h.chained_of_assemble houtput
  obtain ⟨pieces, hpieces, hflat, hrow', hend'⟩ := assemble_ok houtput
  have hstops : ∀ s ∈ segments, s.outputEnd = pieceEnd index s :=
    hrow.stop_eq hrow' (hend.symm.trans hend'.symm)
  have hwhole : ∀ s ∈ segments, ∀ value, Holds index s value → ∀ piece,
      pieceOf index s = .ok piece → Whole index s value ∧ piece = value := by
    intro s hs value hholds piece hpiece
    have hstop := hstops s hs
    rw [hholds.2, pieceEnd_of_ok hpiece] at hstop
    exact (pieceOf_ok hpiece).2 value hholds.1 (Nat.add_left_cancel hstop).symm
  have hsame : pieces = values := by
    clear hrow hflat hrow' hend' hstops hcontents houtput hend h
    induction hvalues generalizing pieces with
    | nil => cases hpieces; rfl
    | cons hholds _ ih =>
      cases hpieces with
      | cons hpiece hpieces =>
        rw [List.forall_mem_cons] at hwhole
        rw [(hwhole.1 _ hholds _ hpiece).2, ih _ hpieces hwhole.2]
  obtain ⟨-, hslices⟩ := slices_of_chained hvalues [] hrow rfl
  rw [List.nil_append] at hflat hslices
  refine ⟨values, hcontents, hsame ▸ hflat, hrow, hend.symm, fun s hs => ?_⟩
  obtain ⟨value, hvalue, hslice⟩ := hslices s hs
  obtain ⟨value', -, hholds⟩ := (forall₂_partner hvalues).1 s hs
  obtain ⟨piece, -, hpiece⟩ := (forall₂_partner hpieces).1 s hs
  obtain rfl := Option.some.inj (hvalue.symm.trans hholds.1)
  rw [← hsame, ← hflat] at hslice
  exact ⟨value, (hwhole s hs value hholds piece hpiece).1, hslice⟩

end ReadingOrderIndex

/-! ## Units of a run -/

variable {output : List Char}

/-- The part of a segment that a range meets. -/
theorem Placed.exists_part {segment : ProjectedSegment} {value : List Char}
    (h : Placed index output segment value) {lo hi : Nat} (hlo : Utf8.IsBoundary output lo)
    (hhi : Utf8.IsBoundary output hi)
    (hmeet : max lo segment.outputStart < min hi segment.outputEnd) :
    ∃ part, part ≠ [] ∧
      Utf8.slice output (max lo segment.outputStart) (min hi segment.outputEnd) = some part ∧
      Utf8.slice value (max lo segment.outputStart - segment.outputStart)
        (min hi segment.outputEnd - segment.outputStart) = some part := by
  obtain ⟨hstart, hstop⟩ := Utf8.isBoundary_of_slice h.slice
  have hmax : Utf8.IsBoundary output (max lo segment.outputStart) := by
    rcases Nat.le_total lo segment.outputStart with hle | hle
    · rwa [Nat.max_eq_right hle]
    · rwa [Nat.max_eq_left hle]
  have hmin : Utf8.IsBoundary output (min hi segment.outputEnd) := by
    rcases Nat.le_total hi segment.outputEnd with hle | hle
    · rwa [Nat.min_eq_left hle]
    · rwa [Nat.min_eq_right hle]
  obtain ⟨part, hpart⟩ := hmax.exists_slice hmin (Nat.le_of_lt hmeet)
  refine ⟨part, ?_, hpart,
    Utf8.slice_within h.slice hpart (Nat.le_max_right _ _) (Nat.min_le_right _ _)⟩
  rintro rfl
  have hlen := Utf8.slice_length hpart
  rw [Utf8.byteLen_nil] at hlen
  omega

/-- The only part of a text of one byte. -/
theorem part_of_literal {kind : ReaderDerivedKind} {lo hi : Nat} {part : List Char}
    (h : Utf8.slice kind.literal lo hi = some part) (hne : part ≠ []) : part = kind.literal := by
  have hlen := Utf8.slice_length h
  have hle := (Utf8.isBoundary_of_slice h).2.le
  have hpos := Utf8.byteLen_pos hne
  rw [byteLen_literal] at hle
  obtain rfl : lo = 0 := by omega
  obtain rfl : hi = Utf8.byteLen kind.literal := by rw [byteLen_literal]; omega
  exact (Option.some.inj ((Utf8.slice_all _).symm.trans h)).symm

theorem compositeUnit_ok {ε : Type} {errors : UnitErrors ε} {segment : ProjectedSegment}
    {value : List Char} (h : Placed index output segment value) {lo hi : Nat}
    (hlo : Utf8.IsBoundary output lo) (hhi : Utf8.IsBoundary output hi)
    (hmeet : max lo segment.outputStart < min hi segment.outputEnd) {unit : Option CompositeUnit}
    (hunit : compositeUnit errors index lo hi segment = .ok unit) :
    ∃ u part, unit = some u ∧ (tokenUnit u).text index = some part ∧ part ≠ [] ∧
      Utf8.slice output (max lo segment.outputStart) (min hi segment.outputEnd) = some part := by
  obtain ⟨part, hne, hpart, hlocal⟩ := h.exists_part hlo hhi hmeet
  unfold compositeUnit at hunit
  dsimp only at hunit
  rw [if_neg (Nat.not_le.mpr hmeet)] at hunit
  cases h.whole with
  | source horigin hfragment hspan hrecord hvalue _ _ =>
    rw [horigin] at hunit
    obtain ⟨fragment, hfragment', hunit⟩ := bind_eq_ok_iff.mp hunit
    obtain ⟨slot, -, hunit⟩ := bind_eq_ok_iff.mp hunit
    obtain ⟨record, hrecord', hunit⟩ := bind_eq_ok_iff.mp hunit
    obtain ⟨⟨⟩, -, hbuilt⟩ := bind_eq_ok_iff.mp hunit
    rw [orError_eq_ok_iff] at hfragment' hrecord'
    obtain rfl := Option.some.inj (hfragment.symm.trans hfragment')
    obtain rfl := Option.some.inj (hrecord.symm.trans hrecord')
    refine ⟨_, part, (Except.ok.inj hbuilt).symm, ?_, hne, hpart⟩
    rw [tokenUnit, TokenUnit.text, ReaderFragmentSpan.text, hrecord, Option.bind_some, hvalue,
      hlocal]
  | derived horigin hvalue =>
    rw [horigin] at hunit
    refine ⟨_, part, (Except.ok.inj hunit).symm, ?_, hne, hpart⟩
    rw [hvalue] at hlocal
    rw [tokenUnit, TokenUnit.text, part_of_literal hlocal hne]

/-- The units of segments in a row say what the range and the row have in common. -/
theorem compositeUnits_ok {ε : Type} {errors : UnitErrors ε} {segments : List ProjectedSegment}
    {lo hi running : Nat} (hlt : lo < hi) (hlo : Utf8.IsBoundary output lo)
    (hhi : Utf8.IsBoundary output hi)
    (hrow : Chained (·.outputStart) (·.outputEnd) running segments)
    (hplaced : ∀ s ∈ segments, ∃ value, Placed index output s value)
    (hmeet : ∀ s ∈ segments, s.outputStart < hi ∧ lo < s.outputEnd)
    (hend : hi ≤ endOf (·.outputEnd) running segments) {units : List CompositeUnit}
    (h : compositeUnits errors index lo hi segments = .ok units) :
    ∃ parts, List.Forall₂ (fun u part => (tokenUnit u).text index = some part ∧ part ≠ []) units
        parts ∧
      units.length = segments.length ∧
      Utf8.slice output (min hi (max lo running)) hi = some parts.flatten := by
  obtain ⟨found, hfound, rfl⟩ := map_eq_ok_iff.mp h
  rw [mapM_eq_ok_iff] at hfound
  clear h
  induction hfound generalizing running with
  | nil =>
    refine ⟨[], .nil, rfl, ?_⟩
    rw [endOf_nil] at hend
    rw [Nat.min_eq_left (Nat.le_trans hend (Nat.le_max_right _ _))]
    exact Utf8.slice_self hhi
  | @cons s unit segments found hunit _ ih =>
    obtain ⟨hstart, hrest⟩ : s.outputStart = running ∧ _ := hrow
    rw [List.forall_mem_cons] at hplaced hmeet
    rw [endOf_cons] at hend
    obtain ⟨⟨value, hvalue⟩, hplaced⟩ := hplaced
    obtain ⟨⟨hfirst, hlast⟩, hmeet⟩ := hmeet
    have hwide := hvalue.lt
    obtain ⟨u, part, rfl, htext, hne, hpart⟩ :=
      compositeUnit_ok hvalue hlo hhi (by omega) hunit
    obtain ⟨parts, hparts, hlength, hslice⟩ := ih hrest hplaced hmeet hend
    refine ⟨part :: parts, ?_, ?_, ?_⟩
    · rw [List.reduceOption_cons_of_some]
      exact .cons ⟨htext, hne⟩ hparts
    · rw [List.reduceOption_cons_of_some, List.length_cons, List.length_cons, hlength]
    · rw [hstart] at hpart
      rw [show min hi (max lo running) = max lo running by omega, List.flatten_cons]
      refine Utf8.slice_trans hpart ?_
      rwa [show min hi s.outputEnd = min hi (max lo s.outputEnd) by omega]

/-! ## The token of a run -/

section

variable {ι : Type} {identity : ι} {viewId : ViewId} {segments : List ProjectedSegment} {run : Run}
  {part : List Char} {token : ReaderToken ι}

def Run.LiesIn (run : Run) (segment : ProjectedSegment) : Prop :=
  segment.outputStart ≤ run.start ∧ run.stop ≤ segment.outputEnd

/-- A run in one segment is a token of the segment. Another one is a composite of units that are not
empty. -/
def Places (index : ReaderRecordIndex) (segments : List ProjectedSegment) (run : Run) :
    ReaderToken ι → Prop
  | .source _ _ id _ _ _ _ _ _ _ => ∃ s ∈ segments, s.id = id ∧ run.LiesIn s
  | .derivedControl _ _ id _ _ _ _ _ => ∃ s ∈ segments, s.id = id ∧ run.LiesIn s
  | .composite _ _ outputStart outputEnd units =>
    outputStart = run.start ∧ outputEnd = run.stop ∧ (¬ ∃ s ∈ segments, run.LiesIn s) ∧
      1 < units.length ∧ ∀ unit ∈ units, ∃ part, unit.text index = some part ∧ part ≠ []

/-- The token of a run in one segment. -/
theorem localize_singleton_ok {s : ProjectedSegment} {value : List Char} (hs : s ∈ segments)
    (hplaced : Placed index output s value) (hrun : Selects output run part)
    (hlies : run.LiesIn s) (h : localize index identity viewId [s] run = .ok token) :
    token.text index = some part ∧ Places index segments run token := by
  have hlocal := Utf8.slice_within hplaced.slice hrun.slice hlies.1 hlies.2
  unfold localize at h
  dsimp only at h
  cases hplaced.whole with
  | source horigin hfragment hspan hrecord hvalue hstart _ =>
    rw [horigin] at h
    unfold sourceToken at h
    obtain ⟨fragment, hfragment', h⟩ := bind_eq_ok_iff.mp h
    obtain ⟨slot, -, h⟩ := bind_eq_ok_iff.mp h
    obtain ⟨span, hspan', h⟩ := bind_eq_ok_iff.mp h
    obtain ⟨record, hrecord', h⟩ := bind_eq_ok_iff.mp h
    obtain ⟨⟨⟩, -, hbuilt⟩ := bind_eq_ok_iff.mp h
    rw [orError_eq_ok_iff] at hfragment' hspan' hrecord'
    obtain rfl := Option.some.inj (hfragment.symm.trans hfragment')
    obtain rfl := Option.some.inj (hspan.symm.trans hspan')
    obtain rfl := Option.some.inj (hrecord.symm.trans hrecord')
    obtain rfl := Except.ok.inj hbuilt
    refine ⟨?_, s, hs, rfl, hlies⟩
    rw [ReaderToken.text, ReaderFragmentSpan.text]
    dsimp only
    rw [hrecord, Option.bind_some, hvalue, hstart, Nat.zero_add, Nat.zero_add, hlocal]
  | derived horigin hvalue =>
    rw [horigin] at h
    obtain rfl := Except.ok.inj h
    rw [hvalue] at hlocal
    refine ⟨?_, s, hs, rfl, hlies⟩
    rw [derivedToken, ReaderToken.text, part_of_literal hlocal hrun.ne_nil]

/-- The segments that a run meets. -/
theorem Laid.exists_cut (hlaid : Laid index output segments) (hrun : Selects output run part) :
    ∃ before a met after,
      Cut (·.outputStart) (·.outputEnd) run.start run.stop segments before a met after :=
  hlaid.row.exists_cut hlaid.le (Nat.zero_le _) hrun.lt (by rw [hlaid.stop]; exact hrun.le)

theorem localize_ok (hlaid : Laid index output segments) (hrun : Selects output run part)
    (h : localize index identity viewId ((segments.dropWhile (·.outputEnd ≤ run.start)).takeWhile
      (·.outputStart < run.stop)) run = .ok token) :
    token.text index = some part ∧ Places index segments run token := by
  obtain ⟨before, a, met, after, hcut⟩ := hlaid.exists_cut hrun
  have hover : (segments.dropWhile (·.outputEnd ≤ run.start)).takeWhile
      (·.outputStart < run.stop) = a :: met := hcut.eq_takeWhile
  have hmem : ∀ s ∈ a :: met, s ∈ segments := by
    intro s hs
    rw [hcut.eq, ← List.cons_append]
    exact List.mem_append_right _ (List.mem_append_left _ hs)
  rw [hover] at h
  cases met with
  | nil =>
    have ha := hmem a List.mem_cons_self
    obtain ⟨value, hplaced⟩ := hlaid.placed a ha
    exact localize_singleton_ok ha hplaced hrun ⟨hcut.start_le, hcut.le_end⟩ h
  | cons b met =>
    obtain ⟨hlo, hhi⟩ := Utf8.isBoundary_of_slice hrun.slice
    obtain ⟨units, hunits, h⟩ := bind_eq_ok_iff.mp h
    split_ifs at h
    obtain rfl := Except.ok.inj h
    have hmeet : ∀ s ∈ a :: b :: met, s.outputStart < run.stop ∧ run.start < s.outputEnd := by
      have hle : ∀ s ∈ b :: met, s.outputStart ≤ s.outputEnd := fun s hs =>
        hlaid.le s (hmem s (List.mem_cons_of_mem a hs))
      refine List.forall_mem_cons.mpr
        ⟨⟨Nat.lt_of_le_of_lt hcut.start_le hrun.lt, hcut.lt_stop⟩, fun s hs => ?_⟩
      have hfrom := (hcut.row.pairwise hle).2 s hs
      have hlt := hcut.lt_stop
      have hs' := hle s hs
      exact ⟨hcut.starts s hs, by omega⟩
    have hend : run.stop ≤ endOf (·.outputEnd) a.outputStart (a :: b :: met) := by
      rw [endOf_cons]
      exact hcut.le_end
    have hrow : Chained (·.outputStart) (·.outputEnd) a.outputStart (a :: b :: met) :=
      ⟨rfl, hcut.row⟩
    obtain ⟨parts, hparts, hlength, hslice⟩ := compositeUnits_ok hrun.lt hlo hhi hrow (fun s hs => hlaid.placed s (hmem s hs)) hmeet hend hunits
    have hle := hcut.start_le
    have hlt := hrun.lt
    rw [show min run.stop (max run.start a.outputStart) = run.start by omega, hrun.slice] at hslice
    obtain rfl := Option.some.inj hslice
    refine ⟨?_, rfl, rfl, ?_, ?_, ?_⟩
    · have htexts : (units.map tokenUnit).mapM (TokenUnit.text index) = some parts := by
        rw [mapM_eq_some_iff, List.forall₂_map_left_iff]
        exact hparts.imp fun _ _ h => h.1
      rw [ReaderToken.text, htexts, Option.map_some]
    · refine hcut.not_within (fun s hs => ?_) (List.cons_ne_nil b met)
      exact hlaid.le s (hmem s (List.mem_cons_of_mem a hs))
    · rw [List.length_map, hlength]
      simp
    · intro unit hunit
      obtain ⟨u, hu, rfl⟩ := List.mem_map.mp hunit
      obtain ⟨part, -, htext⟩ := (forall₂_partner hparts).1 u hu
      exact ⟨part, htext⟩

/-- A cursor that never goes back finds what a search from the start finds. -/
theorem localizeRuns_eq_mapM_of {runs : List Run} (p : ProjectedSegment → Bool)
    (hp : ∀ run ∈ runs, ∀ s, p s = true → s.outputEnd ≤ run.start)
    (hruns : runs.Pairwise fun a b => a.start ≤ b.start) :
    localizeRuns index identity viewId (segments.dropWhile p) runs =
      runs.mapM fun run => localize index identity viewId
        ((segments.dropWhile (·.outputEnd ≤ run.start)).takeWhile (·.outputStart < run.stop))
        run := by
  induction runs generalizing p with
  | nil => rfl
  | cons run runs ih =>
    rw [List.forall_mem_cons] at hp
    rw [List.pairwise_cons] at hruns
    have hcursor : (segments.dropWhile p).dropWhile (·.outputEnd ≤ run.start) =
        segments.dropWhile (·.outputEnd ≤ run.start) :=
      dropWhile_dropWhile_of_imp (fun s hs => decide_eq_true (hp.1 s hs)) segments
    have hrest := ih (fun s => s.outputEnd ≤ run.start) (fun run' hrun' s hs =>
      Nat.le_trans (of_decide_eq_true hs) (hruns.1 run' hrun')) hruns.2
    rw [localizeRuns, List.mapM_cons]
    rw [hcursor, hrest]
    rfl

theorem localizeRuns_eq_mapM (identity : ι) (viewId : ViewId) (segments : List ProjectedSegment)
    (output : List Char) :
    localizeRuns index identity viewId segments (runsOf output) =
      (runsOf output).mapM fun run => localize index identity viewId
        ((segments.dropWhile (·.outputEnd ≤ run.start)).takeWhile (·.outputStart < run.stop))
        run := by
  have hruns : (runsOf output).Pairwise fun a b => a.start ≤ b.start := by
    rw [runsOf_eq]
    exact (pairwise_rangesOf 0 (partsOf output)).1
  have hnone : segments.dropWhile (fun _ => false) = segments := by
    cases segments <;> rfl
  rw [← localizeRuns_eq_mapM_of (fun _ => false) (fun _ _ _ hs => by cases hs) hruns, hnone]

end

/-! ## The tokens of a projection -/

section

variable {ι : Type} {identity : ι} {records : List Record} {order : ReadingOrderIndex}

/-- The tokens of a view say the maximal runs of its output, each where its run lies. -/
def Lossless (projection : ReaderProjection) (order : ReadingOrderIndex) (view : ViewId)
    (tokens : List (ReaderToken ι)) : Prop :=
  ∃ ids segments output, order.readingOrder view = .ok ids ∧ Resolves projection ids segments ∧
    order.viewOutput view = .ok output ∧
    tokens.map (ReaderToken.text order.index) = (partsOf output).map some ∧
    List.Forall₂ (Places order.index segments) (rangesOf 0 (partsOf output)) tokens

theorem localizeRuns_ok {viewId : ViewId} {segments : List ProjectedSegment} {output : List Char}
    {tokens : List (ReaderToken ι)} (hlaid : Laid index output segments)
    (h : localizeRuns index identity viewId segments (runsOf output) = .ok tokens) :
    tokens.map (ReaderToken.text index) = (partsOf output).map some ∧
      List.Forall₂ (Places index segments) (runsOf output) tokens := by
  rw [localizeRuns_eq_mapM] at h
  have hall := mapM_eq_ok_iff.mp h
  have hselects := selects_runsOf output
  clear h
  generalize runsOf output = runs at hall hselects
  generalize partsOf output = parts at hselects
  induction hall generalizing parts with
  | nil =>
    cases hselects
    exact ⟨rfl, .nil⟩
  | cons htoken _ ih =>
    cases hselects with
    | cons hrun hselects =>
      obtain ⟨htext, hplaces⟩ := localize_ok hlaid hrun htoken
      obtain ⟨htexts, hrest⟩ := ih _ hselects
      exact ⟨by rw [List.map_cons, List.map_cons, htext, htexts], .cons hplaces hrest⟩

namespace ReadingOrderIndex

/-- What the tokens of a view are made from. -/
structure Tokenized (projection : ReaderProjection) (order : ReadingOrderIndex) (identity : ι)
    (viewId : ViewId) (v : ProjectedView) (segments : List ProjectedSegment) (output : List Char)
    (tokens : List (ReaderToken ι)) : Prop where
  view : projection.primaryView viewId = some v
  ids : order.readingOrder viewId = .ok v.segmentRefs
  resolves : Resolves projection v.segmentRefs segments
  viewOutput : order.viewOutput viewId = .ok output
  laid : Laid order.index output segments
  localized : localizeRuns order.index identity viewId segments (runsOf output) = .ok tokens

theorem tokenizeView_ok {view : ProjectedView} {tokens : List (ReaderToken ι)}
    (hbuild : build projection records = .ok order) (hview : view ∈ projection.views)
    (hprimary : view.kind.isPrimary = true)
    (h : tokenizeView order.index identity view.id projection order = .ok tokens) :
    ∃ v segments output, Tokenized projection order identity view.id v segments output tokens := by
  obtain ⟨v, segments, ordered, hv, hlookup, hordered⟩ := lookup_ok hbuild hview hprimary
  have hids : order.readingOrder view.id = .ok v.segmentRefs := by
    rw [readingOrder, hlookup, ← hordered.ids]
    rfl
  unfold tokenizeView at h
  obtain ⟨ids, hids', h⟩ := bind_eq_ok_iff.mp h
  obtain ⟨units, hunits, h⟩ := bind_eq_ok_iff.mp h
  obtain ⟨output, houtput, h⟩ := bind_eq_ok_iff.mp h
  split_ifs at h with hend
  rw [not_not] at hend
  rw [mapError_eq_ok_iff] at hids'
  obtain rfl := Except.ok.inj (hids.symm.trans hids')
  have hresolves : Resolves projection v.segmentRefs units :=
    (mapM_eq_ok_iff.mp hunits).imp fun _ _ => orError_eq_ok_iff.mp
  obtain rfl := hresolves.unique hordered.resolves
  obtain ⟨values, hcontents, rfl, hlaid⟩ := hordered.laid houtput hend
  refine ⟨v, units, values.flatten, hv, hids, hresolves, ?_, hlaid, h⟩
  rw [viewOutput, hlookup, ok_bind, hcontents]
  rfl

theorem Tokenized.lossless {viewId : ViewId} {v : ProjectedView}
    {segments : List ProjectedSegment} {output : List Char} {tokens : List (ReaderToken ι)}
    (h : Tokenized projection order identity viewId v segments output tokens) :
    Lossless projection order viewId tokens := by
  obtain ⟨htexts, hplaces⟩ := localizeRuns_ok h.laid h.localized
  rw [runsOf_eq] at hplaces
  exact ⟨v.segmentRefs, segments, output, h.ids, h.resolves, h.viewOutput, htexts, hplaces⟩

end ReadingOrderIndex

theorem tokenizeProjection_ok {stream : TokenStream ι}
    (hbuild : ReadingOrderIndex.build projection records = .ok order)
    (h : tokenizeProjection projection records identity order = .ok stream) :
    ∃ perView, stream.tokens = perView.flatten ∧
      List.Forall₂ (fun view tokens => ∃ v segments output,
          ReadingOrderIndex.Tokenized projection order identity view.id v segments output tokens)
        (projection.views.filter (·.kind.isPrimary)) perView := by
  unfold tokenizeProjection at h
  obtain ⟨index, hindex, h⟩ := bind_eq_ok_iff.mp h
  obtain ⟨perView, hviews, h⟩ := bind_eq_ok_iff.mp h
  obtain rfl := Except.ok.inj h
  rw [mapError_eq_ok_iff] at hindex hviews
  obtain rfl := Except.ok.inj ((ReadingOrderIndex.build_ok hbuild).1.symm.trans hindex)
  refine ⟨perView, rfl, ?_⟩
  have hall := (List.forall₂_and_left _ _).mpr
    ⟨fun view hview => List.mem_filter.mp hview, mapM_eq_ok_iff.mp hviews⟩
  refine hall.imp fun view tokens hview => ?_
  exact ReadingOrderIndex.tokenizeView_ok hbuild hview.1.1 hview.1.2 hview.2

/-- The tokens of each primary view in turn say its output. -/
theorem tokenizeProjection_lossless (projection : ReaderProjection) (records : List Record)
    (identity : ι) (order : ReadingOrderIndex) (stream : TokenStream ι)
    (hbuild : ReadingOrderIndex.build projection records = .ok order)
    (h : tokenizeProjection projection records identity order = .ok stream) :
    ∃ perView, stream.tokens = perView.flatten ∧
      List.Forall₂ (fun view tokens => Lossless projection order view.id tokens)
        (projection.views.filter (·.kind.isPrimary)) perView := by
  obtain ⟨perView, hflat, hviews⟩ := tokenizeProjection_ok hbuild h
  refine ⟨perView, hflat, hviews.imp ?_⟩
  rintro view tokens ⟨v, segments, output, htokenized⟩
  exact htokenized.lossless

end

namespace Lossless.Sample

/-! ### A word in two texts -/

open ReadingOrderIndex.Sample

theorem computed :
    (ReadingOrderIndex.build (projectionOf 0 1) records).map (fun order =>
      (tokenizeProjection (projectionOf 0 1) records () order).map fun stream =>
        stream.tokens.map (ReaderToken.text order.index)) = .ok (.ok [some ['a', 'b']]) := by
  decide

theorem word_lossless : ∃ order stream,
    ReadingOrderIndex.build (projectionOf 0 1) records = .ok order ∧
      tokenizeProjection (projectionOf 0 1) records () order = .ok stream ∧
      ∃ perView, stream.tokens = perView.flatten ∧
        List.Forall₂ (fun view tokens => Lossless (projectionOf 0 1) order view.id tokens)
          ((projectionOf 0 1).views.filter (·.kind.isPrimary)) perView := by
  obtain ⟨order, hbuild, hshown⟩ := map_eq_ok_iff.mp computed
  obtain ⟨stream, hstream, -⟩ := map_eq_ok_iff.mp hshown
  exact ⟨order, stream, hbuild, hstream,
    tokenizeProjection_lossless _ _ _ order stream hbuild hstream⟩

end Lossless.Sample

end LawNexus.Reader
