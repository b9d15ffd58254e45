import LawNexus.Markers.Grammar

/-!
# Markers that are recognized

`extract_hierarchy` reads the accepted markers and panics on no text. It reads what the catalog
declares where the text starts with no letter marker and with no compound number before a colon.
-/

namespace LawNexus.Markers

open Utf8 Chars Loops
open Texts (isWhitespace)
open Groups (DecodeLevel NumberStyle SpacePolicy PrefixRule)

/-! ## Behind the number -/

theorem filled_of_mem {text : List Char} {c : Char} (hc : c ∈ text)
    (h : isWhitespace c = false) : Filled text := fun hnil => by
  rw [trim_eq_nil_iff.mp hnil c hc] at h
  cases h

theorem IsNumber.filled {level : DecodeLevel} {number : List Char} (h : IsNumber level number) :
    Filled number := by
  obtain ⟨c, hc, hblank⟩ := h.first
  exact filled_of_mem (List.mem_of_mem_head? hc) hblank

theorem byteLen_punctuation {c : Char} (hc : isPunctuation c = true) : byteLen [c] = 1 :=
  byteLen_of_ascii (List.forall_mem_singleton.mpr (punctuation_not hc).2.2.2)

theorem makeNode_eq_some {text number marker : List Char} (lead suffix : List Char)
    (level : DecodeLevel) (hnumber : Filled number) (htext : Filled text) (hmarker : marker ≠ []) :
    ∃ node : HierarchyNode, makeNode text number suffix level (byteLen lead)
        (byteLen lead + byteLen marker) = some node ∧
      node.level = level ∧ node.number = number ∧ NodeOf text lead marker suffix node := by
  have hlt : byteLen lead < byteLen lead + byteLen marker :=
    Nat.lt_add_of_pos_right (byteLen_pos hmarker)
  have htitle : ∀ value ∈ (if (trim suffix).isEmpty then none else some (trim suffix)),
      Filled value := by
    intro value hvalue
    split_ifs at hvalue with hempty
    · cases hvalue
    · rw [← Option.some.inj hvalue, Filled, trim_trim, ne_eq, ← List.isEmpty_iff]
      exact hempty
  unfold makeNode TextSpan.tryNew
  rw [dif_pos hlt]
  change ∃ node, (HierarchyNode.tryNew _ _ _ _ _).toOption = some node ∧ _
  unfold HierarchyNode.tryNew
  rw [dif_pos hnumber, dif_pos htitle, dif_pos htext]
  exact ⟨_, rfl, rfl, rfl, rfl, rfl, rfl, rfl⟩

section

variable {number : List Char} (lead front : List Char) (level : DecodeLevel)

omit lead level in
/-- The byte behind the number. -/
theorem byte_behind (tail : List Char) :
    (byteChars (front ++ (number ++ tail)))[byteLen front + byteLen number]? =
      (byteChars tail).head? := by
  rw [← List.append_assoc, ← byteLen_append, getElem?_byteChars]

/-- A number with its punctuation makes a node. -/
theorem readNumbered_of_marker (hnumber : Filled number) {c : Char} {suffix : List Char}
    (hc : isPunctuation c = true) (hsuffix : FollowedByBlank suffix) :
    ∃ node : HierarchyNode, readNumbered (lead ++ (front ++ (number ++ c :: suffix)))
        (front ++ (number ++ c :: suffix)) (byteLen lead) level (byteLen front)
        (byteLen front + byteLen number) = some (some node) ∧
      node.level = level ∧ node.number = number ∧
        NodeOf (lead ++ (front ++ (number ++ c :: suffix))) lead (front ++ number ++ [c]) suffix
          node := by
  have hfilled : Filled (lead ++ (front ++ (number ++ c :: suffix))) :=
    filled_of_mem (by simp) (punctuation_not hc).2.2.1
  obtain ⟨node, hnode, hfields⟩ := makeNode_eq_some lead suffix level hnumber hfilled
    (List.append_ne_nil_of_right_ne_nil (front ++ number) (List.cons_ne_nil c []))
  refine ⟨node, ?_, hfields⟩
  have hstop : byteLen lead + (byteLen front + byteLen number) + 1 =
      byteLen lead + byteLen (front ++ number ++ [c]) := by
    rw [byteLen_append, byteLen_append, byteLen_punctuation hc]
    omega
  have hslice : sliceFrom (lead ++ (front ++ (number ++ c :: suffix)))
      (byteLen lead + byteLen (front ++ number ++ [c])) = some suffix := by
    rw [← byteLen_append]
    have hwhole : lead ++ (front ++ (number ++ c :: suffix)) =
        (lead ++ (front ++ number ++ [c])) ++ suffix := by simp
    rw [hwhole, sliceFrom_append]
  have hblank : ¬ (suffix.head?.any fun c => !isWhitespace c) = true := by
    rw [Option.any_eq_true]
    rintro ⟨d, hd, hnot⟩
    rw [hsuffix d hd] at hnot
    cases hnot
  unfold readNumbered
  rw [slice_append front number, byte_behind, (head?_byteChars (punctuation_not hc).2.2.2).mpr rfl]
  change (if !isPunctuation c then some none else _) = _
  rw [hc, hstop, hslice]
  change (if _ then some none else some _) = _
  rw [if_neg hblank, hnode]

/-- Without its punctuation, or with a text that goes on behind it, a number makes none. -/
theorem readNumbered_of_not {tail : List Char}
    (h : ¬ ∃ c suffix, tail = c :: suffix ∧ isPunctuation c = true ∧ FollowedByBlank suffix) :
    readNumbered (lead ++ (front ++ (number ++ tail))) (front ++ (number ++ tail)) (byteLen lead)
      level (byteLen front) (byteLen front + byteLen number) = some none := by
  unfold readNumbered
  rw [slice_append front number, byte_behind]
  cases hbyte : (byteChars tail).head? with
  | none => rfl
  | some c =>
    change (if !isPunctuation c then some none else _) = _
    cases hc : isPunctuation c with
    | false => rfl
    | true =>
      obtain ⟨suffix, rfl⟩ := List.head?_eq_some_iff.mp
        ((head?_byteChars (punctuation_not hc).2.2.2).mp hbyte)
      have hslice : sliceFrom (lead ++ (front ++ (number ++ c :: suffix)))
          (byteLen lead + (byteLen front + byteLen number) + 1) = some suffix := by
        have hwhole : lead ++ (front ++ (number ++ c :: suffix)) =
            (lead ++ (front ++ (number ++ [c]))) ++ suffix := by simp
        have hlength : byteLen (lead ++ (front ++ (number ++ [c]))) =
            byteLen lead + (byteLen front + byteLen number) + 1 := by
          rw [byteLen_append, byteLen_append, byteLen_append, byteLen_punctuation hc]
          omega
        rw [hwhole, ← hlength, sliceFrom_append]
      change (do let suffix ← sliceFrom _ _; _) = _
      rw [hslice]
      change (if _ then some none else some _) = _
      rw [if_pos]
      rw [Option.any_eq_true]
      by_contra hnone
      refine h ⟨c, suffix, rfl, hc, fun d hd => ?_⟩
      by_contra hblank
      exact hnone ⟨d, hd, by simp [hblank]⟩

end

/-! ## The marker in front -/

/-- No prefix starts with a digit or with a blank. -/
theorem prefix_first : ∀ rule ∈ prefixes, ∃ c ∈ rule.marker.head?,
    c.isDigit = false ∧ isWhitespace c = false := by
  have hall : ∀ rule ∈ prefixes, (rule.marker.head?.any fun c =>
      c.isDigit = false ∧ isWhitespace c = false) = true := by decide
  intro rule hrule
  obtain ⟨c, hc, hfirst⟩ := (Option.any_eq_true _ _).mp (hall rule hrule)
  exact ⟨c, hc, of_decide_eq_true hfirst⟩

theorem markerPrefix_of_digit {candidate : List Char} (h : StartsWithDigit candidate) :
    markerPrefix candidate = none := by
  cases hfound : markerPrefix candidate with
  | none => rfl
  | some found =>
    obtain ⟨rule, hrule, hmatch⟩ := markerPrefix_eq_some hfound
    obtain ⟨gap, rest, rfl, -⟩ := prefixRuleMatch_eq_some hmatch
    obtain ⟨c, hc, hdigit, -⟩ := prefix_first rule hrule
    obtain ⟨d, hd, hdigit'⟩ := h
    rw [List.append_assoc, List.head?_append, hc, Option.some_or] at hd
    rw [Option.some.inj hd] at hdigit
    rw [hdigit] at hdigit'
    cases hdigit'

theorem extractHierarchy_of_blank {text : List Char} (h : Blank text) :
    extractHierarchy text = some none :=
  if_pos (List.all_eq_true.mpr h)

/-- Behind the blanks in front no marker is located. -/
theorem extractHierarchy_of_none {lead candidate : List Char} (hlead : Blank lead)
    (hfirst : ∃ c ∈ candidate.head?, isWhitespace c = false) (h : locateNumber candidate = none) :
    extractHierarchy (lead ++ candidate) = some none := by
  unfold extractHierarchy
  rw [takeWhile_gap hlead hfirst]
  dsimp only
  rw [sliceFrom_append, Option.bind_eq_bind, Option.bind_some, h, ite_self]

/-- The number that is located behind the blanks in front is read. -/
theorem extractHierarchy_of_some {lead candidate : List Char} {level : DecodeLevel}
    {numberStart numberStop : Nat} (hlead : Blank lead)
    (hfirst : ∃ c ∈ candidate.head?, isWhitespace c = false)
    (h : locateNumber candidate = some (level, numberStart, numberStop)) :
    extractHierarchy (lead ++ candidate) =
      readNumbered (lead ++ candidate) candidate (byteLen lead) level numberStart numberStop := by
  have hall : ¬ (lead ++ candidate).all isWhitespace = true := by
    obtain ⟨c, hc, hblank⟩ := hfirst
    intro hall
    rw [List.all_eq_true.mp hall c (List.mem_append_right _ (List.mem_of_mem_head? hc))] at hblank
    cases hblank
  unfold extractHierarchy
  rw [if_neg hall, takeWhile_gap hlead hfirst]
  dsimp only
  rw [sliceFrom_append, Option.bind_eq_bind, Option.bind_some, h]

theorem StartsWithDigit.first {text : List Char} (h : StartsWithDigit text) :
    ∃ c ∈ text.head?, isWhitespace c = false := by
  obtain ⟨d, hd, hdigit⟩ := h
  obtain ⟨hlow, hhigh⟩ := toNat_of_isDigit hdigit
  exact ⟨d, hd, isWhitespace_of_range (by omega) (by omega)⟩

theorem IsCompound.startsWithDigit {number : List Char} (h : IsCompound number) (rest : List Char) :
    StartsWithDigit (number ++ rest) := by
  obtain ⟨d, hd, hdigit⟩ := h.first
  exact ⟨d, List.head?_append_of_ne_nil _ h.ne_nil ▸ hd, hdigit⟩

/-! ## Accepted markers are read -/

section

variable {lead suffix : List Char} {node : HierarchyNode}

theorem locateNumber_eq_some {candidate : List Char} {level : DecodeLevel} {n m : Nat} :
    locateNumber candidate = some (level, n, m) ↔
      (markerPrefix candidate).or (numberedMarkerPrefix candidate) = some (level, n) ∧
        numberEnd candidate n level = some m := by
  unfold locateNumber
  constructor
  · intro h
    obtain ⟨⟨level, n⟩, hmarker, h⟩ := Option.bind_eq_some_iff.mp h
    obtain ⟨m, hnumber, h⟩ := Option.bind_eq_some_iff.mp h
    cases h
    exact ⟨hmarker, hnumber⟩
  · rintro ⟨hmarker, hnumber⟩
    rw [hmarker]
    change (numberEnd candidate n level).bind _ = _
    rw [hnumber]
    rfl

/-- A number that is found behind its marker makes the node. -/
theorem extract_of_number (front : List Char) {number : List Char} {level : DecodeLevel} {c : Char}
    (hlead : Blank lead)
    (hfirst : ∃ d ∈ (front ++ (number ++ c :: suffix)).head?, isWhitespace d = false)
    (hmarker : (markerPrefix (front ++ (number ++ c :: suffix))).or
      (numberedMarkerPrefix (front ++ (number ++ c :: suffix))) = some (level, byteLen front))
    (hnumber : IsNumber level number) (hc : isPunctuation c = true)
    (hsuffix : FollowedByBlank suffix) :
    ∃ node : HierarchyNode, extractHierarchy (lead ++ (front ++ (number ++ c :: suffix))) =
        some (some node) ∧ node.level = level ∧ node.number = number ∧
      NodeOf (lead ++ (front ++ (number ++ c :: suffix))) lead (front ++ number ++ [c]) suffix
        node := by
  obtain ⟨style, hstyle⟩ := exists_numberStyle level
  obtain ⟨node, hnode, hfields⟩ := readNumbered_of_marker lead front level hnumber.filled hc
    hsuffix
  have hne : number ≠ [] := by
    rintro rfl
    obtain ⟨_, h, -⟩ := hnumber.first
    cases h
  refine ⟨node, ?_, hfields⟩
  rw [extractHierarchy_of_some hlead hfirst (locateNumber_eq_some.mpr ⟨hmarker, ?_⟩), hnode]
  rw [numberEnd_append hstyle, numberAt_of_isNumber hstyle hnumber hc hsuffix, if_neg hne]

/-- A numbered marker at the start of a text. -/
theorem extract_of_compound {number : List Char} {level : DecodeLevel} {c : Char}
    (hlead : Blank lead) (hnumber : IsCompound number) (hc : isPunctuation c = true)
    (hsuffix : FollowedByBlank suffix)
    (hmarker : numberedMarkerPrefix (number ++ c :: suffix) = some (level, 0)) :
    ∃ node : HierarchyNode, extractHierarchy (lead ++ (number ++ c :: suffix)) =
        some (some node) ∧ node.level = level ∧ node.number = number ∧
      NodeOf (lead ++ (number ++ c :: suffix)) lead (number ++ [c]) suffix node := by
  have hstart := hnumber.startsWithDigit (c :: suffix)
  refine extract_of_number [] hlead hstart.first ?_ (Or.inl hnumber) hc hsuffix
  rw [List.nil_append, markerPrefix_of_digit hstart, hmarker]
  rfl

/-- What stands behind a compound number and its punctuation decides the level. -/
theorem numberedMarkerPrefix_compound {number : List Char} {c : Char} (hnumber : IsCompound number)
    (hc : isPunctuation c = true) (hsuffix : FollowedByBlank suffix) {rest : List Char}
    (hrest : number ++ c :: suffix = numberRun false (number ++ c :: suffix) ++ rest) :
    numberedMarkerPrefix (number ++ c :: suffix) =
      if c = '.' then some (.chast, 0)
      else if c = ')' then some (.punkt, 0)
      else if rest.head? = some '.' then some (.paragraph, 0)
      else none := by
  have hrun : numberRun true (number ++ c :: suffix) = number :=
    numberRun_append hnumber.dotted (ends_of_punctuation hc hsuffix)
  rw [numberedMarkerPrefix_digit (hnumber.startsWithDigit _) (by rw [hrun]) hrest]
  simp only [List.head?_cons, Option.some.injEq]

theorem extract_of_accepted {marker : List Char} {level : DecodeLevel} {number : List Char}
    (hlead : Blank lead) (hsuffix : FollowedByBlank suffix) (h : Accepted level number marker) :
    ∃ node : HierarchyNode, extractHierarchy (lead ++ (marker ++ suffix)) = some (some node) ∧
      node.level = level ∧ node.number = number ∧
        NodeOf (lead ++ (marker ++ suffix)) lead marker suffix node := by
  cases h with
  | prefixed h =>
    obtain @⟨rule, gap, number, c, hrule, hgap, hspace, hnumber, hc⟩ := h
    obtain ⟨d, hd, -, hblank⟩ := prefix_first rule hrule
    have hrest : ∃ e ∈ (number ++ c :: suffix).head?, isWhitespace e = false := by
      obtain ⟨e, he, hblank⟩ := hnumber.first
      exact ⟨e, List.mem_head?_append_of_mem_head? he, hblank⟩
    have hfirst : ∃ e ∈ (rule.marker ++ gap ++ (number ++ c :: suffix)).head?,
        isWhitespace e = false := by
      rw [List.append_assoc]
      exact ⟨d, List.mem_head?_append_of_mem_head? hd, hblank⟩
    have hextract := extract_of_number (rule.marker ++ gap) hlead hfirst
      (by rw [markerPrefix_of_rule hrule hgap hspace hrest, Option.some_or]) hnumber hc hsuffix
    simpa using hextract
  | chast h =>
    obtain ⟨rest, hrest, -⟩ := numberRun_prefix false (number ++ '.' :: suffix)
    have hc : isPunctuation '.' = true := by decide
    have hextract := extract_of_compound hlead h hc hsuffix
      (by rw [numberedMarkerPrefix_compound h hc hsuffix hrest, if_pos rfl])
    simpa using hextract
  | punkt h =>
    obtain ⟨rest, hrest, -⟩ := numberRun_prefix false (number ++ ')' :: suffix)
    have hc : isPunctuation ')' = true := by decide
    have hextract := extract_of_compound hlead h hc hsuffix
      (by rw [numberedMarkerPrefix_compound h hc hsuffix hrest, if_neg (by decide), if_pos rfl])
    simpa using hextract
  | paragraph h hdot =>
    obtain ⟨rest, hrest, hbehind⟩ := dot_behind_digits h.dotted hdot (':' :: suffix)
    have hc : isPunctuation ':' = true := by decide
    have hextract := extract_of_compound hlead h hc hsuffix
      (by rw [numberedMarkerPrefix_compound h hc hsuffix hrest, if_neg (by decide),
        if_neg (by decide), if_pos hbehind])
    simpa using hextract

end

/-! ## Only accepted markers are read -/

section

variable {lead rest : List Char} {level : DecodeLevel}

theorem IsNumber.compound {number tail : List Char} (h : IsNumber level number)
    (hstart : StartsWithDigit (number ++ tail)) : IsCompound number := by
  refine h.resolve_right fun ⟨_, hne, hall⟩ => ?_
  obtain ⟨d, hd, hdigit⟩ := hstart
  rw [List.head?_append_of_ne_nil _ hne] at hd
  rw [roman_not_digit (hall d (List.mem_of_mem_head? hd))] at hdigit
  cases hdigit

/-- The node of a number that was located is the one of a marker, if all markers with such a number
are accepted. -/
theorem readNumbered_spec (front : List Char) {numberStop : Nat} (hlead : Blank lead)
    (hstop : numberEnd (front ++ rest) (byteLen front) level = some numberStop)
    (haccepted : ∀ number c suffix, rest = number ++ c :: suffix → IsNumber level number →
      isPunctuation c = true → FollowedByBlank suffix →
      Accepted level number (front ++ number ++ [c])) :
    ∃ answer, readNumbered (lead ++ (front ++ rest)) (front ++ rest) (byteLen lead) level
        (byteLen front) numberStop = some answer ∧
      ∀ node, answer = some node → ReadsAs Accepted (lead ++ (front ++ rest)) node := by
  obtain ⟨style, hstyle⟩ := exists_numberStyle level
  rw [numberEnd_append hstyle] at hstop
  split_ifs at hstop with hne
  cases hstop
  have hnumber := isNumber_numberAt hstyle hne
  obtain ⟨tail, htail⟩ := numberAt_prefix style rest
  generalize numberAt style rest = number at hnumber htail
  subst htail
  by_cases hmarker : ∃ c suffix, tail = c :: suffix ∧ isPunctuation c = true ∧ FollowedByBlank suffix
  · obtain ⟨c, suffix, rfl, hc, hsuffix⟩ := hmarker
    obtain ⟨node, hnode, hlevel, hnum, hof⟩ :=
      readNumbered_of_marker lead front level hnumber.filled hc hsuffix
    refine ⟨_, hnode, fun other hother => ?_⟩
    obtain rfl := Option.some.inj hother
    refine ⟨lead, front ++ number ++ [c], suffix, by simp, hlead, hsuffix, ?_, hof⟩
    rw [hlevel, hnum]
    exact haccepted number c suffix rfl hnumber hc hsuffix
  · exact ⟨none, readNumbered_of_not lead front level hmarker, fun _ h => by cases h⟩

/-- A numbered marker that was found is accepted. -/
theorem accepted_of_numbered {candidate : List Char} {n : Nat}
    (h : numberedMarkerPrefix candidate = some (level, n)) :
    n = 0 ∧ ∀ number c suffix, candidate = number ++ c :: suffix → IsNumber level number →
      isPunctuation c = true → FollowedByBlank suffix → Accepted level number (number ++ [c]) := by
  have hstart : StartsWithDigit candidate := by
    by_contra hnot
    rw [numberedMarkerPrefix_other hnot] at h
    cases h
  obtain ⟨rest, hrest, -⟩ := numberRun_prefix true candidate
  obtain ⟨rest', hrest', -⟩ := numberRun_prefix false candidate
  constructor
  · rw [numberedMarkerPrefix_digit hstart hrest hrest'] at h
    split_ifs at h <;> exact (Prod.mk.inj (Option.some.inj h)).2.symm
  · rintro number c suffix rfl hnumber hc hsuffix
    have hcompound := hnumber.compound hstart
    rw [numberedMarkerPrefix_compound hcompound hc hsuffix hrest'] at h
    split_ifs at h with hdot hbracket hbehind
    · cases h
      exact hdot ▸ Accepted.chast hcompound
    · cases h
      exact hbracket ▸ Accepted.punkt hcompound
    · cases h
      have hcolon : c = ':' := by
        have hin : c ∈ ['.', ':', ')'] := List.contains_iff_mem.mp hc
        simpa [hdot, hbracket] using hin
      have hrun : numberRun true (number ++ c :: suffix) = number :=
        numberRun_append hcompound.dotted (ends_of_punctuation hc hsuffix)
      have hmem : '.' ∈ numberRun true (number ++ c :: suffix) :=
        dot_mem_numberRun (by rw [hrun]) hrest' hbehind (by simpa using hdot)
      rw [hrun] at hmem
      exact hcolon ▸ Accepted.paragraph hcompound hmem

end

theorem exists_lead {text : List Char} (h : ¬ Blank text) : ∃ lead candidate,
    text = lead ++ candidate ∧ Blank lead ∧ ∃ c ∈ candidate.head?, isWhitespace c = false := by
  refine ⟨text.takeWhile isWhitespace, text.dropWhile isWhitespace,
    List.takeWhile_append_dropWhile.symm, fun c hc => List.mem_takeWhile_imp hc, ?_⟩
  cases hcandidate : text.dropWhile isWhitespace with
  | nil => exact absurd (List.dropWhile_eq_nil_iff.mp hcandidate) h
  | cons c candidate => exact ⟨c, rfl, not_blank_of_trimStart hcandidate⟩

/-- Every text has an answer, and a node that is read is the one of an accepted marker. -/
theorem extractHierarchy_sound (text : List Char) : ∃ answer, extractHierarchy text = some answer ∧
    ∀ node, answer = some node → ReadsAs Accepted text node := by
  by_cases hblank : Blank text
  · exact ⟨none, extractHierarchy_of_blank hblank, fun _ h => by cases h⟩
  · obtain ⟨lead, candidate, rfl, hlead, hfirst⟩ := exists_lead hblank
    cases hlocated : locateNumber candidate with
    | none => exact ⟨none, extractHierarchy_of_none hlead hfirst hlocated, fun _ h => by cases h⟩
    | some located =>
      obtain ⟨level, numberStart, numberStop⟩ := located
      obtain ⟨hmarker, hstop⟩ := locateNumber_eq_some.mp hlocated
      rw [extractHierarchy_of_some hlead hfirst hlocated]
      cases hstarts : markerPrefix candidate with
      | some found =>
        rw [hstarts, Option.some_or] at hmarker
        cases hmarker
        obtain ⟨rule, hrule, hmatch⟩ := markerPrefix_eq_some hstarts
        obtain ⟨gap, rest, rfl, hgap, hspace, rfl, rfl⟩ := prefixRuleMatch_eq_some hmatch
        exact readNumbered_spec (rule.marker ++ gap) hlead hstop fun number c suffix _ hnumber hc _ =>
          Accepted.prefixed (Prefixed.intro hrule hgap hspace hnumber hc)
      | none =>
        rw [hstarts, Option.none_or] at hmarker
        obtain ⟨rfl, haccepted⟩ := accepted_of_numbered hmarker
        exact readNumbered_spec [] hlead hstop haccepted

theorem readsAs_of_extract {text : List Char} {node : HierarchyNode}
    (h : extractHierarchy text = some (some node)) : ReadsAs Accepted text node := by
  obtain ⟨answer, hanswer, hall⟩ := extractHierarchy_sound text
  exact hall node (Option.some.inj (hanswer.symm.trans h))

theorem HierarchyNode.eq_of_fields {a b : HierarchyNode} (hlevel : a.level = b.level)
    (hnumber : a.number = b.number) (htitle : a.title = b.title) (htext : a.text = b.text)
    (hstart : a.markerSpan.start = b.markerSpan.start)
    (hstop : a.markerSpan.stop = b.markerSpan.stop) : a = b := by
  obtain ⟨_, _, _, _, ⟨_, _, _⟩, _, _, _⟩ := a
  obtain ⟨_, _, _, _, ⟨_, _, _⟩, _, _, _⟩ := b
  cases hlevel
  cases hnumber
  cases htitle
  cases htext
  cases hstart
  cases hstop
  rfl

/-- The node of a marker in a text is the only one. -/
theorem NodeOf.unique {text lead marker suffix : List Char} {a b : HierarchyNode}
    (ha : NodeOf text lead marker suffix a) (hb : NodeOf text lead marker suffix b)
    (hlevel : a.level = b.level) (hnumber : a.number = b.number) : a = b :=
  HierarchyNode.eq_of_fields hlevel hnumber (ha.title.trans hb.title.symm)
    (ha.text.trans hb.text.symm) (ha.start.trans hb.start.symm) (ha.stop.trans hb.stop.symm)

theorem extract_of_readsAs {text : List Char} {node : HierarchyNode}
    (h : ReadsAs Accepted text node) : extractHierarchy text = some (some node) := by
  obtain ⟨lead, marker, suffix, rfl, hlead, hsuffix, haccepted, hof⟩ := h
  obtain ⟨read, hread, hlevel, hnumber, hof'⟩ := extract_of_accepted hlead hsuffix haccepted
  rw [hread, hof'.unique hof hlevel hnumber]

/-- The markers that are accepted are the ones that are read. -/
theorem extractHierarchy_iff (text : List Char) : ∃ answer, extractHierarchy text = some answer ∧
    ∀ node, answer = some node ↔ ReadsAs Accepted text node := by
  obtain ⟨answer, hanswer, hall⟩ := extractHierarchy_sound text
  refine ⟨answer, hanswer, fun node => ⟨hall node, fun h => ?_⟩⟩
  exact Option.some.inj (hanswer.symm.trans (extract_of_readsAs h))

/-- The answer of `extract_hierarchy`, which never panics. -/
def hierarchyOf (text : List Char) : Option HierarchyNode := (extractHierarchy text).getD none

theorem extractHierarchy_eq (text : List Char) : extractHierarchy text = some (hierarchyOf text) := by
  obtain ⟨answer, hanswer, -⟩ := extractHierarchy_sound text
  rw [hierarchyOf, hanswer, Option.getD_some]

theorem hierarchyOf_eq_some_iff {text : List Char} {node : HierarchyNode} :
    hierarchyOf text = some node ↔ ReadsAs Accepted text node := by
  obtain ⟨answer, hanswer, hall⟩ := extractHierarchy_iff text
  rw [← hall node, hierarchyOf, hanswer, Option.getD_some]

/-! ## The declared markers -/

/-- The text has a node if and only if it starts with a declared marker, the node of this marker,
and there is no panic. -/
def Recognizes (text : List Char) : Prop :=
  ∃ answer, extractHierarchy text = some answer ∧
    ∀ node, answer = some node ↔ ReadsAs Declared text node

/-- A letter and a bracket at the start. -/
def LetterMarked (text : List Char) : Prop :=
  ∃ lead c suffix, text = lead ++ c :: ')' :: suffix ∧ Blank lead ∧ ('а' ≤ c ∧ c ≤ 'я') ∧
    FollowedByBlank suffix

/-- A number with an inner dot and a colon at the start. -/
def ColonMarked (text : List Char) : Prop :=
  ∃ lead number suffix, text = lead ++ (number ++ ':' :: suffix) ∧ Blank lead ∧
    IsCompound number ∧ '.' ∈ number ∧ FollowedByBlank suffix

theorem lead_unique {lead lead' candidate candidate' : List Char}
    (h : lead ++ candidate = lead' ++ candidate') (hlead : Blank lead) (hlead' : Blank lead')
    (hfirst : ∃ c ∈ candidate.head?, isWhitespace c = false)
    (hfirst' : ∃ c ∈ candidate'.head?, isWhitespace c = false) : candidate = candidate' := by
  have hsame : lead = lead' := by
    rw [← takeWhile_gap hlead hfirst, h, takeWhile_gap hlead' hfirst']
  subst hsame
  exact List.append_cancel_left h

theorem prefix_levels : ∀ rule ∈ prefixes, rule.level ≠ .podpunkt ∧ rule.level ≠ .punkt := by
  decide

/-- No text with a letter marker is read. -/
theorem not_recognizes_of_letter {text : List Char} (h : LetterMarked text) :
    ¬ Recognizes text := by
  rintro ⟨answer, hanswer, hall⟩
  obtain ⟨lead, c, suffix, rfl, hlead, hc, hsuffix⟩ := h
  have hblank : isWhitespace c = false := by
    have hlow : 1072 ≤ c.toNat := UInt32.le_iff_toNat_le.mp hc.1
    have hhigh : c.toNat ≤ 1103 := UInt32.le_iff_toNat_le.mp hc.2
    simp [isWhitespace]
    omega
  have hnumber : Filled [c] := filled_of_mem List.mem_cons_self hblank
  have htext : Filled (lead ++ c :: ')' :: suffix) := filled_of_mem (by simp) hblank
  obtain ⟨node, -, hlevel, hnum, hof⟩ :=
    makeNode_eq_some lead suffix .podpunkt hnumber htext (List.cons_ne_nil c [')'])
  have hdeclared : ReadsAs Declared (lead ++ c :: ')' :: suffix) node :=
    ⟨lead, [c, ')'], suffix, rfl, hlead, hsuffix,
      by rw [hlevel, hnum]; exact Declared.podpunkt hc, hof⟩
  obtain ⟨_, marker, _, -, -, -, haccepted, -⟩ := readsAs_of_extract
    (hanswer.trans (congrArg some ((hall node).mpr hdeclared)))
  rw [hlevel] at haccepted
  generalize node.number = number at haccepted
  generalize hpodpunkt : DecodeLevel.podpunkt = level at haccepted
  cases haccepted with
  | prefixed h =>
    obtain @⟨rule, _, _, _, hrule, -⟩ := h
    exact (prefix_levels rule hrule).1 hpodpunkt.symm
  | chast => cases hpodpunkt
  | punkt => cases hpodpunkt
  | paragraph => cases hpodpunkt

/-- A text with a compound number before a colon is read, and no marker is declared for it. -/
theorem not_recognizes_of_colon {text : List Char} (h : ColonMarked text) :
    ¬ Recognizes text := by
  rintro ⟨answer, hanswer, hall⟩
  obtain ⟨lead, number, suffix, rfl, hlead, hnumber, hdot, hsuffix⟩ := h
  have hread := extract_of_accepted hlead hsuffix (Accepted.paragraph hnumber hdot)
  rw [List.append_assoc, List.singleton_append] at hread
  obtain ⟨node, hnode, hlevel, -⟩ := hread
  obtain ⟨lead', marker, suffix', heq, hlead', -, hdeclared, -⟩ :=
    (hall node).mp (Option.some.inj (hanswer.symm.trans hnode))
  rw [hlevel] at hdeclared
  generalize node.number = number' at hdeclared
  generalize hparagraph : DecodeLevel.paragraph = level at hdeclared
  cases hdeclared with
  | prefixed h =>
    obtain @⟨rule, gap, number', c, hrule, -⟩ := h
    obtain ⟨e, he, hdigit, hblank⟩ := prefix_first rule hrule
    have hstart := hnumber.startsWithDigit (':' :: suffix)
    have hhead : (rule.marker ++ gap ++ number' ++ [c] ++ suffix').head? = rule.marker.head? := by
      rw [he]
      simp only [List.append_assoc]
      exact List.mem_head?_append_of_mem_head? he
    have hsame := lead_unique heq hlead hlead' hstart.first ⟨e, hhead ▸ he, hblank⟩
    obtain ⟨d, hd, hdigit'⟩ := hstart
    rw [hsame, hhead, he] at hd
    rw [Option.some.inj hd, hdigit'] at hdigit
    cases hdigit
  | chast => cases hparagraph
  | punkt => cases hparagraph
  | podpunkt => cases hparagraph

/-- The markers that the catalog declares are read if and only if the text starts with no letter
marker and with no compound number before a colon. -/
theorem recognizes_iff (text : List Char) :
    Recognizes text ↔ ¬ LetterMarked text ∧ ¬ ColonMarked text := by
  refine ⟨fun h => ⟨fun hletter => not_recognizes_of_letter hletter h,
    fun hcolon => not_recognizes_of_colon hcolon h⟩, fun ⟨hletter, hcolon⟩ => ?_⟩
  obtain ⟨answer, hanswer, hall⟩ := extractHierarchy_iff text
  refine ⟨answer, hanswer, fun node => (hall node).trans ⟨?_, ?_⟩⟩
  · rintro ⟨lead, marker, suffix, rfl, hlead, hsuffix, haccepted, hof⟩
    refine ⟨lead, marker, suffix, rfl, hlead, hsuffix, ?_, hof⟩
    generalize node.number = number at haccepted ⊢
    generalize node.level = level at haccepted ⊢
    cases haccepted with
    | prefixed h => exact Declared.prefixed h
    | chast h => exact Declared.chast h
    | punkt h => exact Declared.punkt h
    | paragraph h hdot =>
      exact absurd ⟨lead, number, suffix, by simp, hlead, h, hdot, hsuffix⟩ hcolon
  · rintro ⟨lead, marker, suffix, rfl, hlead, hsuffix, hdeclared, hof⟩
    refine ⟨lead, marker, suffix, rfl, hlead, hsuffix, ?_, hof⟩
    generalize node.number = number at hdeclared ⊢
    generalize node.level = level at hdeclared ⊢
    cases hdeclared with
    | prefixed h => exact Accepted.prefixed h
    | chast h => exact Accepted.chast h
    | punkt h => exact Accepted.punkt h
    | podpunkt h => exact absurd ⟨lead, _, suffix, rfl, hlead, h, hsuffix⟩ hletter

namespace Recognizes.Sample

/-! ### A letter marker -/

def letterText : List Char := "а) текст".toList

theorem letter_not_recognized : ¬ Recognizes letterText :=
  not_recognizes_of_letter ⟨[], 'а', " текст".toList, rfl, fun _ h => (List.not_mem_nil h).elim,
    by decide, fun c hc => by cases hc; decide⟩

end Recognizes.Sample

end LawNexus.Markers
