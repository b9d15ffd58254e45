import LawNexus.Occurrences

/-!
# Grounding by file names

The scans of a corpus path: `parse_law_dir` and `parse_edition_rev` of
`ln-kb-ontology/src/registry.rs`, and `corpus_work_slug` of
`ln-consultant-parser/src/edition_timeline.rs`. Each cuts ten bytes behind a marker before it
looks at them, and a cut within a character is a panic.
-/

namespace LawNexus

open Occurrences Utf8

variable {β : Type*}

/-! ## The scans -/

/-- Ten characters of the shape `dddd-dd-dd`. -/
def isoShape (b : List Char) : Bool :=
  decide (b.length = 10) && (b.take 4).all Char.isDigit && decide (b[4]? = some '-') &&
    ((b.drop 5).take 2).all Char.isDigit && decide (b[7]? = some '-') && (b.drop 8).all Char.isDigit

/-- The source tests the bytes. -/
def isIsoDayAscii (candidate : List Char) : Bool := isoShape (byteChars candidate)

def isIsoDay (candidate : List Char) : Bool := isIsoDayAscii candidate

/-- The body of the three loops: `need` bytes must follow the marker, and the first ten of them
are cut off. -/
def lookBehind (need : Nat) (verdict : List Char → List Char → Look β) (rest : List Char) :
    Look β :=
  if byteLen rest < need then .stops none
  else
    match sliceTo rest 10, sliceFrom rest 10 with
    | some date, some tail => verdict date tail
    | _, _ => .fails

/-- The text in front of the first `/` or `_`. -/
def upToSeparator (text : List Char) : List Char := text.takeWhile fun c => c ≠ '/' ∧ c ≠ '_'

def lawDirVerdict (date tail : List Char) : Look (List Char × List Char) :=
  if !isIsoDayAscii date then .goesOn
  else if (byteChars tail).head? ≠ some '_' then .goesOn
  else
    let act := upToSeparator tail.tail
    if ¬ "-fz".toList <:+ act ∨ byteLen act ≤ 3 then .goesOn
    else .stops (some (date, act))

def lawMarker : List Char := ['l', 'a', 'w', '_']

def revMarker : List Char := ['r', 'e', 'v', '-']

/-- The outer `none` is a panic. -/
def parseLawDir (path : List Char) : Option (Option (List Char × List Char)) :=
  scan lawMarker (lookBehind 10 lawDirVerdict) path

def editionRevVerdict (date tail : List Char) : Look (List Char) :=
  if !isIsoDayAscii date then .goesOn
  else
    match (byteChars tail).head? with
    | some c => if c ≠ '_' ∧ c ≠ '/' then .goesOn else .stops (some date)
    | none => .stops (some date)

def parseEditionRev (path : List Char) : Option (Option (List Char)) :=
  scan revMarker (lookBehind 10 editionRevVerdict) path

def corpusSlugVerdict (date tail : List Char) : Look (List Char) :=
  if !isIsoDay date ∨ (byteChars tail).head? ≠ some '_' then .goesOn
  else
    let slug := upToSeparator tail.tail
    if slug.isEmpty then .stops none else .stops (some slug)

def corpusWorkSlug (path : List Char) : Option (Option (List Char)) :=
  scan lawMarker (lookBehind 11 corpusSlugVerdict) path

/-! ## Well-formed occurrences -/

/-- A day, `_`, and a token up to the next `/` or `_` that ends in `-fz`. -/
def lawDirAt (rest : List Char) : Option (List Char × List Char) :=
  let act := upToSeparator (rest.drop 11)
  if isoShape (rest.take 10) ∧ (rest.drop 10).head? = some '_' ∧ "-fz".toList <:+ act ∧
      3 < byteLen act then some (rest.take 10, act)
  else none

/-- A day with `_`, `/` or nothing behind it. -/
def editionRevAt (rest : List Char) : Option (List Char) :=
  if isoShape (rest.take 10) ∧
      ((rest.drop 10).head? = none ∨ (rest.drop 10).head? = some '_' ∨
        (rest.drop 10).head? = some '/') then some (rest.take 10)
  else none

/-- A day, `_`, and what stands up to the next `/` or `_`: here the scan for a slug ends. -/
def slugAt (rest : List Char) : Option (List Char) :=
  if isoShape (rest.take 10) ∧ (rest.drop 10).head? = some '_' then
    some (upToSeparator (rest.drop 11))
  else none

/-- With no well-formed occurrence in front of it, an occurrence has enough bytes behind it and
the tenth of them lies within a character. -/
def Torn (marker : List Char) (need : Nat) (wanted : List Char → Option β) (path : List Char) :
    Prop :=
  ∃ front rest back, behind marker path = front ++ rest :: back ∧
    (∀ r ∈ front, wanted r = none) ∧ need ≤ byteLen rest ∧ ¬ IsBoundary rest 10

/-! ## Days -/

theorem byteChars_of_ascii {text : List Char} (h : ∀ c ∈ text, c.toNat < 128) :
    byteChars text = text := by
  induction text with
  | nil => rfl
  | cons c text ih =>
    rw [List.forall_mem_cons] at h
    rw [byteChars_cons_ascii h.1, ih h.2]

theorem ascii_of_byteChars {text : List Char} (h : ∀ c ∈ byteChars text, c.toNat < 128) :
    ∀ c ∈ text, c.toNat < 128 := by
  induction text with
  | nil => simp
  | cons c text ih =>
    rcases Nat.lt_or_ge c.toNat 128 with hc | hc
    · rw [byteChars_cons_ascii hc, List.forall_mem_cons] at h
      exact List.forall_mem_cons.mpr ⟨hc, ih h.2⟩
    · obtain ⟨d, rest, heq, hd⟩ := byteChars_cons_other hc text
      rw [heq] at h
      exact absurd (h d List.mem_cons_self) (Nat.not_lt.mpr hd)

theorem drop_of_getElem? {b : List Char} {i : Nat} {c : Char} (h : b[i]? = some c) :
    b.drop i = c :: b.drop (i + 1) := by
  obtain ⟨hi, rfl⟩ := List.getElem?_eq_some_iff.mp h
  exact List.drop_eq_getElem_cons hi

theorem isoShape_spec {day : List Char} (h : isoShape day = true) :
    day.length = 10 ∧ ∀ c ∈ day, c.toNat < 128 := by
  simp only [isoShape, Bool.and_eq_true, decide_eq_true_eq, List.all_eq_true] at h
  obtain ⟨⟨⟨⟨⟨hlength, hyear⟩, hfirst⟩, hmonth⟩, hsecond⟩, hday⟩ := h
  have hdigit : ∀ {c : Char}, c.isDigit = true → c.toNat < 128 := fun {c} hc => by
    simp only [Char.isDigit, Bool.and_eq_true, decide_eq_true_eq] at hc
    exact Nat.lt_of_le_of_lt (UInt32.le_iff_toNat_le.mp hc.2) (by decide)
  refine ⟨hlength, fun c hc => ?_⟩
  rw [← List.take_append_drop 4 day, drop_of_getElem? hfirst, List.mem_append, List.mem_cons,
    ← List.take_append_drop 2 (day.drop 5), List.drop_drop, drop_of_getElem? hsecond,
    List.mem_append, List.mem_cons] at hc
  rcases hc with hc | rfl | hc | rfl | hc
  · exact hdigit (hyear c hc)
  · decide
  · exact hdigit (hmonth c hc)
  · decide
  · exact hdigit (hday c hc)

theorem isIsoDayAscii_eq (date : List Char) : isIsoDayAscii date = isoShape date := by
  rw [isIsoDayAscii, Bool.eq_iff_iff]
  constructor
  · intro h
    rwa [← byteChars_of_ascii (ascii_of_byteChars (isoShape_spec h).2)]
  · intro h
    rwa [byteChars_of_ascii (isoShape_spec h).2]

theorem byteLen_of_isoShape {day : List Char} (h : isoShape day = true) : byteLen day = 10 := by
  obtain ⟨hlength, hascii⟩ := isoShape_spec h
  rw [byteLen_of_ascii hascii, hlength]

/-! ## One look -/

section

variable {need : Nat} {verdict : List Char → List Char → Look β} {rest : List Char}

/-- A day is the first ten characters as well as the first ten bytes. -/
theorem take_of_isoShape {date tail : List Char} (h : isoShape date = true) :
    (date ++ tail).take 10 = date ∧ (date ++ tail).drop 10 = tail := by
  have hlength := (isoShape_spec h).1
  exact ⟨List.take_left' hlength, List.drop_left' hlength⟩

theorem cut_iff {date tail : List Char} :
    sliceTo rest 10 = some date ∧ sliceFrom rest 10 = some tail ↔
      rest = date ++ tail ∧ byteLen date = 10 := by
  constructor
  · rintro ⟨hdate, htail⟩
    obtain ⟨after, hrest, hlen⟩ := sliceTo_eq_some hdate
    rw [hrest, ← hlen, sliceFrom_append] at htail
    exact ⟨Option.some.inj htail ▸ hrest, hlen⟩
  · rintro ⟨rfl, hlen⟩
    rw [← hlen]
    exact ⟨sliceTo_append date tail, sliceFrom_append date tail⟩

/-- Where enough bytes follow, a day is judged with what is behind it, other ten bytes are passed
over, and a cut within a character fails. -/
theorem lookBehind_eq
    (hverdict : ∀ date tail, isoShape date = false → verdict date tail = .goesOn) :
    lookBehind need verdict rest =
      if byteLen rest < need then .stops none
      else if isoShape (rest.take 10) then verdict (rest.take 10) (rest.drop 10)
      else if isCharBoundary rest 10 then .goesOn else .fails := by
  rw [lookBehind]
  refine if_congr Iff.rfl rfl ?_
  cases hboundary : isCharBoundary rest 10 with
  | true =>
    obtain ⟨date, tail, rfl, hlen⟩ := isCharBoundary_iff.mp hboundary
    obtain ⟨hdate, htail⟩ := cut_iff.mpr ⟨rfl, hlen⟩
    rw [hdate, htail]
    cases hshape : isoShape date with
    | true =>
      obtain ⟨htake, hdrop⟩ := @take_of_isoShape date tail hshape
      rw [htake, hdrop, hshape]
      rfl
    | false =>
      have hother : isoShape ((date ++ tail).take 10) = false := by
        by_contra hday
        rw [Bool.not_eq_false] at hday
        have hcut := append_inj_of_byteLen (List.take_append_drop 10 (date ++ tail))
          ((byteLen_of_isoShape hday).trans hlen.symm)
        rw [hcut.1, hshape] at hday
        cases hday
      rw [hother]
      exact hverdict date tail hshape
  | false =>
    have hday : isoShape (rest.take 10) = false := by
      by_contra hday
      rw [Bool.not_eq_false] at hday
      have := isCharBoundary_iff.mpr (isBoundary_of_eq (List.take_append_drop 10 rest).symm
        (byteLen_of_isoShape hday))
      rw [hboundary] at this
      cases this
    have hfrom : sliceFrom rest 10 = none := by
      simpa [isCharBoundary] using hboundary
    rw [hday, hfrom]
    cases sliceTo rest 10 <;> rfl

/-- What the scan relies on: the verdict goes on over what is no day, and over a day exactly
where there is no wanted value. -/
structure Judges (need : Nat) (verdict : List Char → List Char → Look β)
    (wanted : List Char → Option β) : Prop where
  noFailure : ∀ date tail, verdict date tail ≠ .fails
  noDay : ∀ date tail, isoShape date = false → verdict date tail = .goesOn
  isDay : ∀ {rest}, wanted rest ≠ none → isoShape (rest.take 10) = true ∧ need ≤ byteLen rest
  onDay : ∀ {rest}, need ≤ byteLen rest → isoShape (rest.take 10) = true →
    (verdict (rest.take 10) (rest.drop 10) = .goesOn ↔ wanted rest = none)

variable {wanted : List Char → Option β}

theorem lookBehind_fails_iff (h : Judges need verdict wanted) :
    lookBehind need verdict rest = .fails ↔ need ≤ byteLen rest ∧ ¬ IsBoundary rest 10 := by
  rw [lookBehind_eq h.noDay, ← isCharBoundary_iff]
  split_ifs with hshort hday hboundary
  · exact iff_of_false nofun fun hcut => by omega
  · refine iff_of_false (h.noFailure _ _) fun hcut => hcut.2 (isCharBoundary_iff.mpr ?_)
    exact isBoundary_of_eq (List.take_append_drop 10 rest).symm (byteLen_of_isoShape hday)
  · exact iff_of_false nofun fun hcut => hcut.2 hboundary
  · exact iff_of_true rfl ⟨not_lt.mp hshort, hboundary⟩

theorem wanted_of_goesOn (h : Judges need verdict wanted)
    (hlook : lookBehind need verdict rest = .goesOn) : wanted rest = none := by
  by_contra hsome
  obtain ⟨hday, hneed⟩ := h.isDay hsome
  rw [lookBehind_eq h.noDay, if_neg (not_lt.mpr hneed), if_pos hday] at hlook
  exact hsome ((h.onDay hneed hday).mp hlook)

theorem not_stops_of_unwanted (h : Judges need verdict wanted) (hneed : need ≤ byteLen rest)
    (hnone : wanted rest = none) (result : Option β) :
    lookBehind need verdict rest ≠ .stops result := by
  rw [lookBehind_eq h.noDay, if_neg (not_lt.mpr hneed)]
  split_ifs with hday hboundary
  · rw [(h.onDay hneed hday).mpr hnone]
    exact nofun
  · exact nofun
  · exact nofun

end

/-! ## The scans of a path -/

section

variable {need : Nat} {verdict : List Char → List Char → Look β} {wanted : List Char → Option β}
  {m : Char} {ms : List Char}

/-- A scan fails exactly on a torn path. -/
theorem scan_eq_none_iff (h : Judges need verdict wanted) (hfirst : m ∉ ms) (path : List Char) :
    scan (m :: ms) (lookBehind need verdict) path = none ↔ Torn (m :: ms) need wanted path := by
  rw [scan_eq_resolve hfirst]
  constructor
  · intro hnone
    obtain ⟨front, rest, back, hrests, hfront, hfails⟩ := exists_fails_of_resolve hnone
    exact ⟨front, rest, back, hrests, fun r hr => wanted_of_goesOn h (hfront r hr),
      (lookBehind_fails_iff h).mp hfails⟩
  · rintro ⟨front, rest, back, hrests, hfront, hcut⟩
    have hshorter := pairwise_behind (m :: ms) path
    rw [hrests] at hshorter ⊢
    refine resolve_of_fails (fun r hr => ?_) ((lookBehind_fails_iff h).mpr hcut)
    have hlonger := (List.pairwise_append.mp hshorter).2.2 r hr rest List.mem_cons_self
    exact not_stops_of_unwanted h (hcut.1.trans hlonger.le) (hfront r hr)

/-- A scan that stops at a day only with its value finds the first wanted value. -/
theorem scan_eq_first_iff (h : Judges need verdict wanted) (hfirst : m ∉ ms)
    (hverdict : ∀ {rest}, isoShape (rest.take 10) = true →
      verdict (rest.take 10) (rest.drop 10) = (wanted rest).elim .goesOn fun v => .stops (some v))
    (path : List Char) :
    scan (m :: ms) (lookBehind need verdict) path =
      some ((behind (m :: ms) path).findSome? wanted) ↔ ¬ Torn (m :: ms) need wanted path := by
  have hstop : ∀ {rest result}, lookBehind need verdict rest = .stops result →
      byteLen rest < need ∧ result = none ∨ result.isSome ∧ wanted rest = result := by
    intro rest result hlook
    rw [lookBehind_eq h.noDay] at hlook
    split_ifs at hlook with hshort hday hboundary
    · exact Or.inl ⟨hshort, (Look.stops.inj hlook).symm⟩
    · rw [hverdict hday] at hlook
      cases hwanted : wanted rest with
      | none =>
        rw [hwanted] at hlook
        cases hlook
      | some v =>
        rw [hwanted] at hlook
        exact Or.inr ⟨Look.stops.inj hlook ▸ rfl, Look.stops.inj hlook⟩
  have hfinds : Finds (lookBehind need verdict) wanted := by
    refine ⟨wanted_of_goesOn h, fun {rest v} hlook => ?_, fun {rest} hlook r hr => ?_⟩
    · rcases hstop hlook with ⟨-, hnone⟩ | ⟨-, hwanted⟩
      · cases hnone
      · exact hwanted
    · rcases hstop hlook with ⟨hshort, -⟩ | ⟨hsome, -⟩
      · by_contra hwanted
        have hneed := (h.isDay hwanted).2
        omega
      · cases hsome
  rw [← scan_eq_none_iff h hfirst]
  constructor
  · intro hsome hnone
    rw [hsome] at hnone
    cases hnone
  · intro hsome
    obtain ⟨result, hresult⟩ := Option.ne_none_iff_exists'.mp hsome
    rw [hresult, resolve_eq_some hfinds (pairwise_behind _ _)
      ((scan_eq_resolve hfirst path).symm.trans hresult)]

end

/-! ## The three verdicts -/

theorem need_of_day {rest : List Char} (h : isoShape (rest.take 10) = true) :
    10 ≤ byteLen rest := by
  have hlen := congrArg byteLen (List.take_append_drop 10 rest)
  rw [byteLen_append, byteLen_of_isoShape h] at hlen
  omega

theorem need_of_day_underscore {rest : List Char} (h : isoShape (rest.take 10) = true)
    (hhead : (rest.drop 10).head? = some '_') : 11 ≤ byteLen rest := by
  have hlen := congrArg byteLen (List.take_append_drop 10 rest)
  have hpos : 0 < byteLen (rest.drop 10) := byteLen_pos fun hnil => by simp [hnil] at hhead
  rw [byteLen_append, byteLen_of_isoShape h] at hlen
  omega

theorem underscore_byte {tail : List Char} :
    (byteChars tail).head? = some '_' ↔ tail.head? = some '_' := head?_byteChars (by decide)

theorem lawDirVerdict_eq {rest : List Char} (hday : isoShape (rest.take 10) = true) :
    lawDirVerdict (rest.take 10) (rest.drop 10) =
      (lawDirAt rest).elim .goesOn fun v => .stops (some v) := by
  unfold lawDirVerdict lawDirAt
  simp only [isIsoDayAscii_eq, hday, ne_eq, underscore_byte, List.tail_drop, Bool.not_true,
    Bool.false_eq_true, if_false, true_and]
  by_cases hhead : (rest.drop 10).head? = some '_'
  · rw [if_neg (not_not_intro hhead)]
    by_cases hact : "-fz".toList <:+ upToSeparator (rest.drop 11) ∧
        3 < byteLen (upToSeparator (rest.drop 11))
    · rw [if_neg (by rw [not_or, not_not, not_le]; exact hact), if_pos ⟨hhead, hact⟩]
      rfl
    · rw [if_pos (by rwa [not_and_or, not_lt] at hact), if_neg fun hall => hact hall.2]
      rfl
  · rw [if_pos hhead, if_neg fun hall => hhead hall.1]
    rfl

theorem judges_lawDir : Judges 10 lawDirVerdict lawDirAt where
  noFailure date tail := by
    unfold lawDirVerdict
    split_ifs
    · simp
    · simp
    · simp only
      split_ifs <;> simp
  noDay date tail h := by simp [lawDirVerdict, isIsoDayAscii_eq, h]
  isDay {rest} h := by
    unfold lawDirAt at h
    by_contra hnot
    refine h (if_neg fun hall => hnot ⟨hall.1, need_of_day hall.1⟩)
  onDay {rest} _ hday := by
    rw [lawDirVerdict_eq hday]
    cases lawDirAt rest <;> simp

theorem editionRevVerdict_eq {rest : List Char} (hday : isoShape (rest.take 10) = true) :
    editionRevVerdict (rest.take 10) (rest.drop 10) =
      (editionRevAt rest).elim .goesOn fun v => .stops (some v) := by
  unfold editionRevVerdict editionRevAt
  simp only [isIsoDayAscii_eq, hday, Bool.not_true, Bool.false_eq_true, if_false, true_and]
  have hunder := @underscore_byte (rest.drop 10)
  have hslash : (byteChars (rest.drop 10)).head? = some '/' ↔ (rest.drop 10).head? = some '/' :=
    head?_byteChars (by decide)
  have hnone : (byteChars (rest.drop 10)).head? = none ↔ (rest.drop 10).head? = none := by
    rw [List.head?_eq_none_iff, List.head?_eq_none_iff, ← List.length_eq_zero_iff, length_byteChars]
    exact ⟨fun h => not_not.mp fun hne => (byteLen_pos hne).ne' h, fun h => by rw [h]; rfl⟩
  simp only [← hunder, ← hslash, ← hnone]
  cases (byteChars (rest.drop 10)).head? with
  | none => rfl
  | some c =>
    by_cases hc : c = '_' ∨ c = '/'
    · have hends : ¬ (c ≠ '_' ∧ c ≠ '/') := by rwa [← not_or, not_not]
      simp [hends, hc]
    · rw [not_or] at hc
      simp [hc.1, hc.2]

theorem judges_editionRev : Judges 10 editionRevVerdict editionRevAt where
  noFailure date tail := by
    unfold editionRevVerdict
    split_ifs
    · simp
    · cases (byteChars tail).head? with
      | none => simp
      | some c =>
        simp only
        split_ifs <;> simp
  noDay date tail h := by simp [editionRevVerdict, isIsoDayAscii_eq, h]
  isDay {rest} h := by
    unfold editionRevAt at h
    by_contra hnot
    refine h (if_neg fun hall => hnot ⟨hall.1, need_of_day hall.1⟩)
  onDay {rest} _ hday := by
    rw [editionRevVerdict_eq hday]
    cases editionRevAt rest <;> simp

theorem judges_corpusSlug : Judges 11 corpusSlugVerdict slugAt where
  noFailure date tail := by
    unfold corpusSlugVerdict
    split_ifs
    · simp
    · simp only
      split_ifs <;> simp
  noDay date tail h := by simp [corpusSlugVerdict, isIsoDay, isIsoDayAscii_eq, h]
  isDay {rest} h := by
    unfold slugAt at h
    by_contra hnot
    refine h (if_neg fun hall => hnot ⟨hall.1, need_of_day_underscore hall.1 hall.2⟩)
  onDay {rest} _ hday := by
    unfold corpusSlugVerdict slugAt
    rw [isIsoDay, isIsoDayAscii_eq, hday]
    simp only [Bool.not_true, Bool.false_eq_true, false_or, ne_eq, underscore_byte, true_and]
    by_cases hhead : (rest.drop 10).head? = some '_'
    · rw [if_neg (not_not_intro hhead), if_pos hhead]
      split_ifs <;> simp
    · rw [if_pos hhead, if_neg hhead]
      simp

/-! ## The theorem -/

def firstLawDir (path : List Char) : Option (List Char × List Char) :=
  (behind lawMarker path).findSome? lawDirAt

def firstEditionRev (path : List Char) : Option (List Char) :=
  (behind revMarker path).findSome? editionRevAt

theorem parseLawDir_iff (path : List Char) :
    parseLawDir path = some (firstLawDir path) ↔ ¬ Torn lawMarker 10 lawDirAt path :=
  scan_eq_first_iff judges_lawDir (by decide) lawDirVerdict_eq path

theorem parseEditionRev_iff (path : List Char) :
    parseEditionRev path = some (firstEditionRev path) ↔ ¬ Torn revMarker 10 editionRevAt path :=
  scan_eq_first_iff judges_editionRev (by decide) editionRevVerdict_eq path

theorem corpusWorkSlug_iff (path : List Char) :
    (corpusWorkSlug path).isSome ↔ ¬ Torn lawMarker 11 slugAt path := by
  rw [← Option.ne_none_iff_isSome]
  exact not_congr (scan_eq_none_iff judges_corpusSlug (by decide) path)

/-- The scans come back, and find the first well-formed token, exactly on paths that are torn for
none of them. -/
theorem filename_grounding_iff (path : List Char) :
    (parseLawDir path = some (firstLawDir path) ∧
      parseEditionRev path = some (firstEditionRev path) ∧ (corpusWorkSlug path).isSome) ↔
    ¬ Torn lawMarker 10 lawDirAt path ∧ ¬ Torn revMarker 10 editionRevAt path ∧
      ¬ Torn lawMarker 11 slugAt path :=
  and_congr (parseLawDir_iff path) (and_congr (parseEditionRev_iff path) (corpusWorkSlug_iff path))

/-- A path as the corpus has them. -/
example : parseEditionRev "law_2013-04-05_44-fz/edition-1_rev-2014-01-01".toList =
    some (some "2014-01-01".toList) := by decide

/-- Five Cyrillic letters behind `rev-1`: the tenth byte is the first half of the last one. -/
theorem cyrillic_rev_fails :
    ¬ ∀ path, parseLawDir path = some (firstLawDir path) ∧
      parseEditionRev path = some (firstEditionRev path) ∧ (corpusWorkSlug path).isSome := by
  intro hall
  have hnone : parseEditionRev "rev-1ааааа".toList = none := by decide
  have hsome := (hall "rev-1ааааа".toList).2.1
  rw [hnone] at hsome
  cases hsome

end LawNexus
