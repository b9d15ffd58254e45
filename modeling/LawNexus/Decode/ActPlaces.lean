import LawNexus.Decode.ActLists
import LawNexus.Decode.DateWindows

/-!
# Places of dates

The first place of a text in a capture, and why a date that is not the one of a capture does
not stand in it: no other token of the capture has the text of a date.
-/

namespace LawNexus.Decode

open Utf8 Loops

variable {tables : CharTables} {tokens : List NpaToken} {src : List Char}

/-! ## The first place of a text -/

theorem find_spec {needle text : List Char} {offset : Nat} (h : find needle text = some offset) :
    (∃ before after, text = before ++ (needle ++ after) ∧ byteLen before = offset) ∧
      ∀ before after, text = before ++ (needle ++ after) → offset ≤ byteLen before := by
  induction text generalizing offset with
  | nil =>
    unfold find at h
    split_ifs at h with hempty
    obtain rfl := Option.some.inj h
    rw [List.isEmpty_iff] at hempty
    exact ⟨⟨[], [], by rw [hempty]; rfl, rfl⟩, fun _ _ _ => Nat.zero_le _⟩
  | cons c text ih =>
    rw [find] at h
    split_ifs at h with hhere
    · obtain rfl := Option.some.inj h
      obtain ⟨after, hafter⟩ := List.isPrefixOf_iff_prefix.mp hhere
      exact ⟨⟨[], after, hafter.symm, rfl⟩, fun _ _ _ => Nat.zero_le _⟩
    · obtain ⟨rest, hrest, rfl⟩ := Option.map_eq_some_iff.mp h
      obtain ⟨⟨before, after, rfl, rfl⟩, hfirst⟩ := ih hrest
      refine ⟨⟨c :: before, after, rfl, byteLen_cons c before⟩, fun before' after' heq => ?_⟩
      cases before' with
      | nil => exact absurd (List.isPrefixOf_iff_prefix.mpr ⟨after', heq.symm⟩) hhere
      | cons d before' =>
        obtain ⟨rfl, htext⟩ := List.cons.inj heq
        rw [byteLen_cons]
        exact Nat.add_le_add_left (hfirst before' after' htext) _

/-- The span of the first place of a text between two offsets has this text, and no other place
between them starts before it. -/
theorem findSubspan_spec {start stop : Nat} {needle : List Char} {span : TextSpan}
    (h : findSubspan src start stop needle = some span) :
    slice src span.start span.stop = some needle ∧ start ≤ span.start ∧
      ∀ place : TextSpan, slice src place.start place.stop = some needle →
        start ≤ place.start → place.stop ≤ stop → span.start ≤ place.start := by
  obtain ⟨text, htext, h⟩ := Option.bind_eq_some_iff.mp h
  obtain ⟨offset, hoffset, h⟩ := Option.bind_eq_some_iff.mp h
  obtain ⟨hstart, hstop⟩ := TextSpan.tryNew_eq_some.mp h
  obtain ⟨⟨before, after, rfl, rfl⟩, hfirst⟩ := find_spec hoffset
  obtain ⟨front, back, hsrc, rfl, -⟩ := slice_eq_some_iff.mp htext
  refine ⟨slice_eq_some_iff.mpr ⟨front ++ before, after ++ back, ?_, ?_, ?_⟩, by omega,
    fun place hplace hlow hhigh => ?_⟩
  · simp [hsrc]
  · rw [byteLen_append]
    omega
  · omega
  · obtain ⟨x, y, htext', hx, -⟩ := slice_eq_some_iff.mp (slice_within htext hplace hlow hhigh)
    have := hfirst x y htext'
    omega

/-! ## A lone date and a captured one -/

theorem findIdx?_span {date : TextSpan} {index : Nat}
    (h : tokens.findIdx? (·.span = date) = some index) :
    ∃ token, tokens[index]? = some token ∧ token.span = date := by
  obtain ⟨hlt, hspan, -⟩ := List.findIdx?_eq_some_iff_getElem.mp h
  exact ⟨tokens[index], List.getElem?_eq_getElem hlt, of_decide_eq_true hspan⟩

theorem exists_of_hasLocalOt {date : TextSpan} (h : hasLocalOt tokens src date = true) :
    ∃ (index : Nat) (token : NpaToken), tokens[index]? = some token ∧ token.span = date := by
  obtain ⟨spot, hspot, -⟩ := (Option.any_eq_true _ _).mp h
  obtain ⟨index, hindex, -⟩ := Option.bind_eq_some_iff.mp hspot
  obtain ⟨token, htoken, hspan⟩ := findIdx?_span hindex
  exact ⟨index, token, htoken, hspan⟩

theorem lexeme_of_slice {token : NpaToken} {lexeme : List Char}
    (h : slice src token.span.start token.span.stop = some lexeme) :
    token.lexeme src = .ok lexeme := by
  rw [NpaToken.lexeme, h, orPanic_some]

theorem slice_of_lexeme {token : NpaToken} {lexeme : List Char}
    (h : token.lexeme src = .ok lexeme) :
    slice src token.span.start token.span.stop = some lexeme := by
  obtain ⟨-, -, before, after, -, hsrc, hbefore, hstop, -⟩ := lexeme_eq_ok h
  exact slice_eq_some_iff.mpr ⟨before, after, hsrc, hbefore, hstop.symm⟩

theorem DateWindow.date_unique {first date last index : Nat} {raw : RawCapture}
    (h : DateWindow tokens src first date last raw) (hkind : kindAt tokens index = some .Date)
    (hlow : first ≤ index) (hhigh : index ≤ last) : index = date := by
  have hlast : index ≠ last := by
    rintro rfl
    have hend := h.lastKind
    rw [hkind] at hend
    simp at hend
  by_contra hne
  have hfirst : index = first := by
    by_contra hlt
    have hfiller := h.fillers index (by omega) (by omega) hne
    exact absurd (hfiller.kind hkind) (by decide)
  rcases h.pattern with ⟨-, heq⟩ | ⟨-, habbrev, -⟩
  · exact hne (hfirst.trans heq)
  · rw [← hfirst, hkind] at habbrev
    exact absurd (Option.some.inj habbrev) (by decide)

/-- A date that is not the one of a capture does not stand in it. -/
theorem DateWindow.apart {lexicon : Lexicon} {first date last : Nat} {capture : LawRef}
    {place : TextSpan} {lone : NpaToken} (hin : InOrder tokens)
    (hscanned : ∀ token ∈ tokens, Scanned lexicon src token)
    (hwindow : DateWindow tokens src first date last capture.raw)
    (hplace : capture.subspan src capture.slots.date = some place)
    (hot : hasLocalOt tokens src place = true)
    (hmem : lone ∈ tokens) (hkind : lone.kind = .Date) (hne : place ≠ lone.span) :
    capture.span.stop ≤ lone.span.start ∨ lone.span.stop ≤ capture.span.start := by
  obtain ⟨index, hindex⟩ := List.getElem?_of_mem hmem
  obtain ⟨head, hhead, hstart⟩ := Option.map_eq_some_iff.mp hwindow.start
  obtain ⟨tail, htail, hstop⟩ := Option.map_eq_some_iff.mp hwindow.stop
  change head.span.start = capture.span.start at hstart
  change tail.span.stop = capture.span.stop at hstop
  have hloneKind : kindAt tokens index = some .Date := by rw [kind_of_getElem? hindex, hkind]
  by_contra hinside
  rw [not_or, Nat.not_le, Nat.not_le, ← hstart, ← hstop] at hinside
  have hlow : first ≤ index := by
    by_contra hlt
    have := hin.stop_le hindex hhead (Nat.lt_of_not_le hlt)
    omega
  have hhigh : index ≤ last := by
    by_contra hlt
    have := hin.stop_le htail hindex (Nat.lt_of_not_le hlt)
    omega
  obtain rfl := hwindow.date_unique hloneKind hlow hhigh
  obtain ⟨token, lexeme, htoken, -, hlexeme, hslot⟩ := hwindow.slot
  obtain rfl := Option.some.inj (hindex.symm.trans htoken)
  rw [LawRef.subspan, show capture.slots.date = some lexeme from hslot, Option.bind_some] at hplace
  obtain ⟨hslice, hfrom, hearliest⟩ := findSubspan_spec hplace
  -- The text of the date is found at its own token or in front of it.
  have hbefore : place.start ≤ lone.span.start := by
    refine hearliest lone.span (slice_of_lexeme hlexeme) ?_ ?_
    · rw [← hstart]
      exact (hin.span_le hhead hindex hlow).1
    · rw [← hstop]
      exact (hin.span_le hindex htail hhigh).2
  obtain ⟨spot, found, hfound, rfl⟩ := exists_of_hasLocalOt hot
  have hspot : spot ≤ index := hin.le_of_start_le hfound hindex hbefore
  have hspotFirst : first ≤ spot := hin.le_of_start_le hhead hfound (by omega)
  have hspotNe : spot ≠ index := by
    rintro rfl
    obtain rfl := Option.some.inj (hfound.symm.trans hindex)
    exact hne rfl
  -- In front of it stand fillers and an abbreviation only, and these have no such text.
  have hother := (hscanned found (List.mem_of_getElem? hfound)).text_ne
    (hscanned lone hmem) hkind hlexeme (lexeme_of_slice hslice)
  have hkindAt := kind_of_getElem? hfound
  rcases Nat.eq_or_lt_of_le hspotFirst with rfl | hlt
  · rcases hwindow.pattern with ⟨-, heq⟩ | ⟨-, habbrev, -⟩
    · exact hspotNe heq
    · exact hother.2.2.2 (Option.some.inj (hkindAt.symm.trans habbrev))
  · have hlast := hwindow.before
    rcases (hwindow.fillers spot hlt (by omega) hspotNe).kind hkindAt with h | h | h
    · exact hother.1 h
    · exact hother.2.1 h
    · exact hother.2.2.1 h

end LawNexus.Decode
