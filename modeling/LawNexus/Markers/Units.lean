import LawNexus.Markers.Recognized

/-!
# The unit markers of a document group

`probe` of `ln-decode/src/structural_profile.rs`, with the groups of `kb-ontology.yaml`.
-/

namespace LawNexus.Markers

open Chars
open Texts (isWhitespace)
open Groups (DecodeLevel NumberStyle SpacePolicy GroupNeedle LadderEntry GroupProfile
  StructuralProfile eqIgnoreAsciiCase)

/-! ## The catalog -/

def needleOf (field needle : String) (rank : Nat) : GroupNeedle :=
  ⟨field.toList, needle.toList, rank⟩

/-- An entry without a number style. -/
def plainEntry (token role : String) : LadderEntry :=
  ⟨token.toList, role.toList, false, none, none, none, none, none⟩

def surfaceEntry (token role surface : String) : LadderEntry :=
  ⟨token.toList, role.toList, false, none, none, none, none, some surface.toList⟩

/-- The subunits of a law and of a code. -/
def articleParts : List LadderEntry :=
  [⟨"chast".toList, "subunit".toList, false, none, some true, some ['.'], some "digit".toList, none⟩,
   ⟨"punkt".toList, "subunit".toList, true, some 2, some true, some [')'], some "digit".toList, none⟩,
   ⟨"podpunkt".toList, "subunit".toList, false, none, some false, some [')'],
     some "letter_cyrillic".toList, none⟩]

def punktUnit (maxDepth : Nat) (suffix : Char) : LadderEntry :=
  ⟨"punkt".toList, "unit".toList, true, some maxDepth, none, some [suffix], some "digit".toList, none⟩

def podpunktSubunit : LadderEntry :=
  ⟨"podpunkt".toList, "subunit".toList, false, none, none, some [')'], some "letter_cyrillic".toList,
    none⟩

def prilozhenie : LadderEntry := surfaceEntry "prilozhenie" "container" "Приложение"

def federalLaw : GroupProfile where
  id := "federal_law@v1".toList
  textOnly := false
  ladder := [plainEntry "glava" "container", plainEntry "paragraph" "container",
    plainEntry "statya" "unit"] ++ articleParts
  needles := [needleOf "path" "federalnyi-zakon" 10, needleOf "path" "law_" 20,
    needleOf "kind" "law" 30, needleOf "type" "federal" 30]

def code : GroupProfile where
  id := "code".toList
  textOnly := false
  ladder := [plainEntry "razdel" "container", plainEntry "glava" "container",
    plainEntry "statya" "unit"] ++ articleParts
  needles := [needleOf "path" "kodeks" 10, needleOf "kind" "code" 20]

def governmentResolution : GroupProfile where
  id := "government_resolution".toList
  textOnly := false
  ladder := [punktUnit 3 '.', podpunktSubunit, prilozhenie]
  needles := [needleOf "path" "postanovlenie-pravitelstva" 10,
    needleOf "path" "rasporyazhenie-pravitelstva" 10, needleOf "path" "pp_" 15,
    needleOf "path" "directive_" 12, needleOf "kind" "resolution" 20]

def presidentialDecree : GroupProfile where
  id := "presidential_decree".toList
  textOnly := false
  ladder := [punktUnit 3 '.', podpunktSubunit, prilozhenie]
  needles := [needleOf "path" "decree_" 10, needleOf "path" "ukaz" 20, needleOf "kind" "decree" 20]

def departmentalOrder : GroupProfile where
  id := "departmental_order".toList
  textOnly := false
  ladder := [punktUnit 4 ')', podpunktSubunit,
    surfaceEntry "primechanie" "subunit-text" "Примечание", prilozhenie]
  needles := [needleOf "path" "prikaz-" 10, needleOf "path" "prikaz" 20,
    needleOf "path" "npa/order_" 20, needleOf "kind" "order" 20, needleOf "type" "order" 20]

def courtPractice : GroupProfile where
  id := "court_practice".toList
  textOnly := true
  ladder := []
  needles := [needleOf "path" "reshenie-fas" 10, needleOf "path" "opredelenie-" 10,
    needleOf "path" "postanovlenie-plenuma" 10, needleOf "path" "courts/court_" 12,
    needleOf "path" "courts/resolution_" 12, needleOf "path" "fas/decision_" 12,
    needleOf "path" "fas/prescription_" 12, needleOf "path" "xml/pas/" 15,
    needleOf "kind" "fas" 20, needleOf "kind" "court" 20, needleOf "kind" "decision" 25,
    needleOf "kind" "prescription" 25, needleOf "kind" "determination" 25]

def nonNormative : GroupProfile where
  id := "non_normative".toList
  textOnly := true
  ladder := []
  needles := [needleOf "path" "courts/" 40, needleOf "path" "fas/" 40]

/-- `StructuralProfile::embedded`. -/
def embedded : StructuralProfile where
  nonClaims :=
    ["document group binding is a system_observation heuristic, not legal classification".toList,
     ("parsed_as Work→DocumentGroupRef binding is a system_observation heuristic, " ++
       "never legal authority (R8-10)").toList,
     ("the document_groups vocabulary stays in the YAML catalog; " ++
       "only the binding (group + catalog version) transfers to the graph").toList,
     "court practice (court_practice) is text-only: practice text is not an AST (ADR-0020)".toList,
     ("non-normative class is a structural coverage heuristic, " ++
       "not a legal normativity claim").toList]
  groups := [federalLaw, code, governmentResolution, presidentialDecree, departmentalOrder,
    courtPractice, nonNormative]
  prefixes := ⟨prefixes, numberStyles⟩

/-! ## The probe -/

def isLetter (c : Char) : Bool := 'а' ≤ c ∧ c ≤ 'я'

/-- `numbered_matches`. The digits and dots of a number are single bytes. -/
def numberedMatches (entry : LadderEntry) (text : List Char) : Bool :=
  match entry.suffix with
  | none => false
  | some suffix =>
    let allowCompound := entry.compound = some true || entry.recursive
    if entry.numberStyle.getD "digit".toList = "letter_cyrillic".toList then
      text.head?.any isLetter && suffix.isPrefixOf text.tail
    else
      text.head?.any Char.isDigit &&
        suffix.isPrefixOf (text.drop (numberRun allowCompound text).length)

def styleMatch (group : GroupProfile) (text : List Char) : Option LadderEntry :=
  group.ladder.find? fun entry => entry.surface.isNone && numberedMatches entry text

def levelFromLadderToken (token : List Char) : Option DecodeLevel :=
  DecodeLevel.all.find? fun level => eqIgnoreAsciiCase level.asStr token

def startsWithNumber (profile : StructuralProfile) (text : List Char) (level : DecodeLevel) : Bool :=
  match text.head? with
  | none => false
  | some first =>
    first.isDigit ||
      (profile.prefixes.numberStyles.find? (·.1 = level)).map (·.2) = some .romanOrDigit &&
        isRoman first

def prefixMatch (profile : StructuralProfile) (text : List Char) (level : DecodeLevel) : Bool :=
  profile.prefixes.prefixes.any fun rule =>
    rule.level = level &&
      match rule.marker.isPrefixOf? text with
      | none => false
      | some rest =>
        (rule.space = .optional || (rest.takeWhile isWhitespace) ≠ []) &&
          startsWithNumber profile (rest.dropWhile isWhitespace) level

def hasPrefixMarkers (profile : StructuralProfile) (level : DecodeLevel) : Bool :=
  profile.prefixes.prefixes.any fun rule => rule.level = level

def blockMatchesUnit (profile : StructuralProfile) (block : ParsedBlock) (entry : LadderEntry) :
    Bool :=
  let text := trimStart block.text
  if block.style = .providerComment || text.isEmpty then false
  else match levelFromLadderToken entry.token with
    | none => numberedMatches entry text
    | some level =>
      if hasPrefixMarkers profile level then prefixMatch profile text level
      else numberedMatches entry text

inductive ProbeVerdict where
  | structureFound (unitToken : List Char) (markerCount : Nat)
  | noStructure
deriving DecidableEq, Repr

/-- The total and the token of the first entry that is counted. -/
def countUnit (profile : StructuralProfile) (blocks : List ParsedBlock) (s : Nat × List Char)
    (entry : LadderEntry) : Nat × List Char :=
  let count := (blocks.filter fun block => blockMatchesUnit profile block entry).length
  if 0 < count then (s.1 + count, if s.2.isEmpty then entry.token else s.2)
  else s

def probe (profile : StructuralProfile) (groupId : List Char) (blocks : List ParsedBlock) :
    ProbeVerdict :=
  match profile.groups.find? (·.id = groupId) with
  | none => .noStructure
  | some group =>
    if group.textOnly then .noStructure
    else
      let unitEntries := group.ladder.filter (·.role = "unit".toList)
      let (total, unitToken) := unitEntries.foldl (countUnit profile blocks) (0, [])
      if unitEntries.isEmpty then .noStructure
      else if 0 < total then .structureFound unitToken total
      else .noStructure

/-! ## Numbered markers and blanks -/

/-- A text without its blanks at the end. -/
theorem exists_blank_end (text : List Char) : ∃ blanks, trimStart text = trim text ++ blanks ∧
    Blank blanks :=
  ⟨_, List.rdropWhile_append_rtakeWhile.symm, fun _ hc => List.mem_rtakeWhile_imp hc⟩

theorem blank_not_dot : isWhitespace '.' = false := by decide

/-- No number goes on with a blank. -/
theorem numberRun_append_blank {blanks : List Char} (h : Blank blanks) (compound : Bool)
    (text : List Char) : numberRun compound (text ++ blanks) = numberRun compound text := by
  induction text with
  | nil =>
    cases blanks with
    | nil => rfl
    | cons c blanks =>
      have hc : isWhitespace c = true := h c List.mem_cons_self
      have hdot : c ≠ '.' := by
        rintro rfl
        cases hc
      simp [numberRun, blank_not_digit hc, hdot]
  | cons c text ih =>
    have hnext : (text ++ blanks).head?.any Char.isDigit = text.head?.any Char.isDigit := by
      cases text with
      | nil =>
        cases blanks with
        | nil => rfl
        | cons d blanks => exact blank_not_digit (h d List.mem_cons_self)
      | cons d text => rfl
    rw [List.cons_append, numberRun, numberRun, ih, hnext]

theorem isPrefixOf_append {pat text : List Char} (h : pat.isPrefixOf text = true)
    (rest : List Char) : pat.isPrefixOf (text ++ rest) = true := by
  rw [List.isPrefixOf_iff_prefix] at h ⊢
  exact h.trans (List.prefix_append _ _)

theorem length_numberRun_le (compound : Bool) (text : List Char) :
    (numberRun compound text).length ≤ text.length := by
  obtain ⟨rest, hrest, -⟩ := numberRun_prefix compound text
  have hlen := congrArg List.length hrest
  rw [List.length_append] at hlen
  omega

theorem numberedMatches_append_blank {entry : LadderEntry} {text blanks : List Char}
    (h : Blank blanks) (hmatch : numberedMatches entry text = true) :
    numberedMatches entry (text ++ blanks) = true := by
  unfold numberedMatches at hmatch ⊢
  cases hsuffix : entry.suffix with
  | none =>
    rw [hsuffix] at hmatch
    cases hmatch
  | some suffix =>
    rw [hsuffix] at hmatch
    dsimp only at hmatch ⊢
    rw [numberRun_append_blank h, List.drop_append_of_le_length (length_numberRun_le _ _)]
    cases text with
    | nil => split_ifs at hmatch <;> cases hmatch
    | cons c text =>
      split_ifs at hmatch ⊢ with hletter
      · obtain ⟨hfirst, hbehind⟩ := Bool.and_eq_true_iff.mp hmatch
        exact Bool.and_eq_true_iff.mpr ⟨hfirst, isPrefixOf_append hbehind blanks⟩
      · obtain ⟨hfirst, hbehind⟩ := Bool.and_eq_true_iff.mp hmatch
        exact Bool.and_eq_true_iff.mpr ⟨hfirst, isPrefixOf_append hbehind blanks⟩

/-- A style that matches the trimmed text matches the text of the probe. -/
theorem numberedMatches_trimStart {entry : LadderEntry} {text : List Char}
    (h : numberedMatches entry (trim text) = true) :
    numberedMatches entry (trimStart text) = true := by
  obtain ⟨blanks, heq, hblanks⟩ := exists_blank_end text
  rw [heq]
  exact numberedMatches_append_blank hblanks h

/-- The style of a letter has a bracket in every group. -/
theorem letter_suffix : ∀ group ∈ embedded.groups, ∀ entry ∈ group.ladder,
    entry.numberStyle = some "letter_cyrillic".toList → entry.suffix = some [')'] := by
  decide

/-- No prefix is a digit or a letter with a bracket. -/
theorem prefix_no_style : ∀ rule ∈ prefixes, rule.marker ≠ [] ∧
    rule.marker.head?.any Char.isDigit = false ∧
    (rule.marker.head?.any isLetter = true → rule.marker.tail.head?.any (· ≠ ')') = true) := by
  decide

/-- The style of no group matches a marker with a prefix. -/
theorem not_numberedMatches_prefix {group : GroupProfile} (hgroup : group ∈ embedded.groups)
    {entry : LadderEntry} (hentry : entry ∈ group.ladder) {rule : Groups.PrefixRule}
    (hrule : rule ∈ prefixes) (rest : List Char) :
    numberedMatches entry (rule.marker ++ rest) = false := by
  obtain ⟨hne, hdigit, hletter⟩ := prefix_no_style rule hrule
  obtain ⟨c, marker, hmarker⟩ := List.exists_cons_of_ne_nil hne
  rw [hmarker] at hdigit hletter ⊢
  unfold numberedMatches
  cases hsuffix : entry.suffix with
  | none => rfl
  | some suffix =>
    dsimp only
    split_ifs with hstyle
    · have hsome : entry.numberStyle = some "letter_cyrillic".toList := by
        cases hnumber : entry.numberStyle with
        | none =>
          rw [hnumber] at hstyle
          exact absurd hstyle (by decide)
        | some style => exact congrArg some (by rwa [hnumber] at hstyle)
      obtain rfl := Option.some.inj (hsuffix.symm.trans (letter_suffix group hgroup entry hentry hsome))
      cases hfirst : isLetter c with
      | false => exact Bool.and_eq_false_iff.mpr (Or.inl hfirst)
      | true =>
        obtain ⟨d, hd, hbracket⟩ := (Option.any_eq_true _ _).mp (hletter hfirst)
        obtain ⟨tail, rfl⟩ := List.head?_eq_some_iff.mp hd
        refine Bool.and_eq_false_iff.mpr (Or.inr ?_)
        simpa [List.isPrefixOf] using Ne.symm (of_decide_eq_true hbracket)
    · rw [List.cons_append, List.head?_cons]
      exact Bool.and_eq_false_iff.mpr (Or.inl hdigit)

/-! ## The start of a marker -/

theorem trimStart_lead {lead candidate : List Char} (hlead : Blank lead)
    (hfirst : ∃ c ∈ candidate.head?, isWhitespace c = false) :
    trimStart (lead ++ candidate) = candidate := by
  obtain ⟨c, hc, hblank⟩ := hfirst
  obtain ⟨rest, rfl⟩ := List.head?_eq_some_iff.mp hc
  rw [trimStart, List.dropWhile_append_of_pos hlead, List.dropWhile_cons_of_neg (by simp [hblank])]

/-- Behind the blanks in front a marker with a prefix starts with this prefix. -/
theorem trimStart_prefixed {lead marker number : List Char} {level : DecodeLevel}
    (hlead : Blank lead) (h : Prefixed level number marker) (suffix : List Char) :
    ∃ rule ∈ prefixes, rule.level = level ∧ ∃ gap rest, Blank gap ∧
      (rule.space = .required → gap ≠ []) ∧ IsNumber level number ∧
      trimStart (lead ++ (marker ++ suffix)) = rule.marker ++ (gap ++ (number ++ rest)) := by
  obtain @⟨rule, gap, number, c, hrule, hgap, hspace, hnumber, hc⟩ := h
  refine ⟨rule, hrule, rfl, gap, c :: suffix, hgap, hspace, hnumber, ?_⟩
  obtain ⟨d, hd, -, hblank⟩ := prefix_first rule hrule
  rw [trimStart_lead hlead]
  · simp only [List.append_assoc, List.singleton_append]
  · refine ⟨d, ?_, hblank⟩
    rw [List.append_assoc, List.append_assoc, List.append_assoc, List.head?_append, hd]
    rfl

/-- A level that only a prefix gives. -/
theorem prefixed_of_accepted {level : DecodeLevel} {number marker : List Char}
    (h : Accepted level number marker) (hlevel : level = .razdel ∨ level = .statya) :
    Prefixed level number marker := by
  cases h with
  | prefixed h => exact h
  | chast => simp at hlevel
  | punkt => simp at hlevel
  | paragraph => simp at hlevel

end LawNexus.Markers
