import LawNexus.Markers.Bodies

/-!
# The style of the units

Which blocks open an article text, and which ones the probe counts.
-/

namespace LawNexus.Markers

open Chars
open Texts (isWhitespace)
open Groups (DecodeLevel LadderEntry GroupProfile)

/-! ## The blocks that open a text -/

def unitRole : List Char := "unit".toList

/-- The block is behind these blocks, and a text is added at it. -/
def Opened (tables : CaseTables) (group : GroupProfile) (before : List ParsedBlock)
    (block : ParsedBlock) : Prop :=
  (collectArticleTexts tables group (before ++ [block])).length ≠
    (collectArticleTexts tables group before).length

/-- A line with a number and a mark behind it. -/
def NumberedLine (mark : Char) (text : List Char) : Prop :=
  ∃ lead number suffix, text = lead ++ (number ++ mark :: suffix) ∧ Blank lead ∧
    IsCompound number ∧ FollowedByBlank suffix

/-- Texts are opened at the units that the probe counts. -/
structure OpensOwnStyle (tables : CaseTables) (group : GroupProfile) (blocks : List ParsedBlock) :
    Prop where
  counted : ∀ before block after, blocks = before ++ block :: after →
    Opened tables group before block →
      ∃ entry ∈ group.ladder, entry.role = unitRole ∧ blockMatchesUnit embedded block entry = true
  suffixes : ∀ before block after, blocks = before ++ block :: after →
    Opened tables group before block →
      ∀ entry ∈ group.ladder, entry.role = unitRole → ∀ mark, entry.suffix = some [mark] →
        ∀ other ∈ ['.', ')'], NumberedLine other block.text → other = mark
  found : collectArticleTexts tables group blocks ≠ [] →
    ∃ unitToken markerCount, probe embedded group.id blocks = .structureFound unitToken markerCount

/-- The units of the group are numbers with a dot. -/
def DotStyled (group : GroupProfile) : Prop :=
  ∃ entry ∈ group.ladder, entry.role = unitRole ∧ entry.suffix = some ['.']

section Opened

variable {tables : CaseTables} {group : GroupProfile}

theorem length_append (s : Collection) (line : List Char) :
    (s.append line).out.length = s.out.length := by
  unfold Collection.append
  cases s.current with
  | none => rfl
  | some index => exact List.length_modify ..

/-- The markers that open a text. -/
structure Opens (tables : CaseTables) (group : GroupProfile) (block : ParsedBlock)
    (node : HierarchyNode) (entry : LadderEntry) : Prop where
  style : block.style ≠ .providerComment
  surface : surfaceEntryOf tables group (trim block.text) = none
  read : hierarchyOf block.text = some node
  declared : entryOf group node.level (trim block.text) = some entry
  unit : entry.role = unitRole

theorem step_of_opens {block : ParsedBlock} {node : HierarchyNode} {entry : LadderEntry}
    (h : Opens tables group block node entry) (s : Collection) :
    s.step tables group block = s.openUnit node := by
  have hfilled : (trim block.text).isEmpty = false := List.isEmpty_eq_false_iff.mpr block.filled
  unfold Collection.step
  simp only [hfilled, Bool.false_eq_true, if_false, if_neg h.style, h.surface, h.read, h.declared]
  exact if_pos h.unit

/-- Every other block leaves the number of the texts. -/
theorem opens_of_length {s : Collection} {block : ParsedBlock}
    (h : (s.step tables group block).out.length ≠ s.out.length) :
    ∃ node entry, Opens tables group block node entry := by
  by_contra hnot
  refine h ?_
  unfold Collection.step
  dsimp only
  split_ifs with hcomment hempty
  · rfl
  · rfl
  · cases hsurface : surfaceEntryOf tables group (trim block.text) with
    | some entry =>
      dsimp only
      split_ifs <;> rfl
    | none =>
      cases hread : hierarchyOf block.text with
      | none => exact length_append s _
      | some node =>
        cases hentry : entryOf group node.level (trim block.text) with
        | none =>
          dsimp only
          rw [hentry]
          rfl
        | some entry =>
          dsimp only
          rw [hentry]
          dsimp only
          split_ifs with hunit hcontainer
          · exact absurd ⟨node, entry, hcomment, hsurface, hread, hentry, hunit⟩ hnot
          · rfl
          · exact length_append s _

theorem collect_concat (before : List ParsedBlock) (block : ParsedBlock)
    (h : (group.textOnly || group.ladder.isEmpty) = false) :
    collectArticleTexts tables group (before ++ [block]) =
      ((before.foldl (Collection.step tables group) .start).step tables group block).out := by
  rw [collectArticleTexts, h, List.foldl_append]
  rfl

theorem opened_iff {before : List ParsedBlock} {block : ParsedBlock} :
    Opened tables group before block ↔ (group.textOnly || group.ladder.isEmpty) = false ∧
      ∃ node entry, Opens tables group block node entry := by
  unfold Opened
  cases hnone : group.textOnly || group.ladder.isEmpty with
  | true =>
    refine iff_of_false (fun h => h ?_) (fun h => by cases h.1)
    rw [collectArticleTexts, collectArticleTexts, hnone]
    rfl
  | false =>
    rw [collect_concat _ _ hnone, collectArticleTexts, hnone]
    refine ⟨fun h => ⟨rfl, opens_of_length h⟩, ?_⟩
    rintro ⟨-, node, entry, hopens⟩
    rw [step_of_opens hopens, Collection.openUnit, List.length_append, List.length_singleton]
    exact Nat.succ_ne_self _

/-- Where texts are collected, a block has opened one. -/
theorem exists_opened {blocks : List ParsedBlock} (h : collectArticleTexts tables group blocks ≠ []) :
    ∃ before block after, blocks = before ++ block :: after ∧ Opened tables group before block := by
  induction blocks using List.reverseRecOn with
  | nil =>
    refine absurd ?_ h
    unfold collectArticleTexts
    split_ifs <;> rfl
  | append_singleton blocks block ih =>
    by_cases hopened : Opened tables group blocks block
    · exact ⟨blocks, block, [], rfl, hopened⟩
    · have hlen := not_not.mp hopened
      have hne : collectArticleTexts tables group blocks ≠ [] := by
        rw [← List.length_pos_iff, ← hlen]
        exact List.length_pos_iff.mpr h
      obtain ⟨before, first, after, rfl, hfirst⟩ := ih hne
      exact ⟨before, first, after ++ [block], by simp, hfirst⟩

end Opened

/-! ## The units of the catalog -/

/-- A unit is an article, or a number with the mark of its group. -/
theorem unit_entry : ∀ group ∈ embedded.groups, ∀ entry ∈ group.ladder, entry.role = unitRole →
    (entry.token = "statya".toList ∧ entry.suffix = none) ∨
    (entry.token = "punkt".toList ∧ entry.recursive = true ∧
      entry.numberStyle = some "digit".toList ∧
      (entry.suffix = some ['.'] ∨ entry.suffix = some [')'])) := by
  decide

theorem unit_unique : ∀ group ∈ embedded.groups, ∀ entry ∈ group.ladder, ∀ other ∈ group.ladder,
    entry.role = unitRole → other.role = unitRole → other = entry := by
  decide

theorem level_of_token : ∀ level ∈ DecodeLevel.all,
    (Groups.eqIgnoreAsciiCase "statya".toList level.asStr = true → level = .statya) ∧
    (Groups.eqIgnoreAsciiCase "punkt".toList level.asStr = true → level = .punkt) := by
  decide

theorem mem_all (level : DecodeLevel) : level ∈ DecodeLevel.all := by
  cases level <;> decide

/-- A dotted unit is the entry of the lines with a bracket. -/
theorem entryFor_punkt : ∀ group ∈ embedded.groups,
    (∃ entry ∈ group.ladder, entry.role = unitRole ∧ entry.suffix = some ['.']) →
      group.textOnly = false ∧ group.ladder.isEmpty = false ∧
        (entryFor group.ladder DecodeLevel.punkt.asStr).map (·.role) = some unitRole := by
  decide

theorem ids_nodup : (embedded.groups.map (·.id)).Nodup :=
  List.Nodup.map (f := String.toList) (fun _ _ => String.toList_inj.mp)
    (show ["federal_law@v1", "code", "government_resolution", "presidential_decree",
      "departmental_order", "court_practice", "non_normative"].Nodup by decide)

/-- The marks of the numbers. -/
theorem numberedMatches_line {entry : LadderEntry} {mark other : Char} {text : List Char}
    (hrecursive : entry.recursive = true) (hstyle : entry.numberStyle = some "digit".toList)
    (hsuffix : entry.suffix = some [mark]) (hother : isPunctuation other = true)
    (hline : NumberedLine other text) :
    numberedMatches entry (trimStart text) = true ↔ other = mark := by
  obtain ⟨lead, number, suffix, rfl, hlead, hnumber, hblank⟩ := hline
  have hdigit := hnumber.startsWithDigit (other :: suffix)
  have hrun : numberRun true (number ++ other :: suffix) = number :=
    numberRun_append hnumber.dotted (ends_of_punctuation hother hblank)
  rw [trimStart_lead hlead hdigit.first]
  unfold numberedMatches
  rw [hsuffix, hstyle, hrecursive, Option.getD_some]
  dsimp only
  rw [if_neg (by decide), Bool.or_true, hrun, List.drop_left, any_isDigit_iff.mpr hdigit]
  simpa [List.isPrefixOf] using eq_comm

/-- Only a line with a number and a bracket reads as a punkt. -/
theorem line_of_punkt {text : List Char} {node : HierarchyNode}
    (h : hierarchyOf text = some node) (hlevel : node.level = .punkt) : NumberedLine ')' text := by
  obtain ⟨lead, marker, suffix, rfl, hlead, hsuffix, haccepted, -⟩ := hierarchyOf_eq_some_iff.mp h
  generalize node.level = level at haccepted hlevel
  cases haccepted with
  | prefixed h =>
    obtain @⟨rule, _, _, _, hrule, -⟩ := h
    exact absurd hlevel (prefix_levels rule hrule).2
  | chast => cases hlevel
  | punkt hnumber =>
    rw [List.append_assoc]
    exact ⟨lead, _, suffix, rfl, hlead, hnumber, hsuffix⟩
  | paragraph => cases hlevel

theorem punkt_of_line {text : List Char} (h : NumberedLine ')' text) :
    ∃ node, hierarchyOf text = some node ∧ node.level = .punkt := by
  obtain ⟨lead, number, suffix, rfl, hlead, hnumber, hsuffix⟩ := h
  obtain ⟨node, hnode, hlevel, -⟩ :=
    extract_of_accepted hlead hsuffix (Accepted.punkt hnumber)
  refine ⟨node, ?_, hlevel⟩
  rw [List.append_assoc, extractHierarchy_eq] at hnode
  exact Option.some.inj hnode

/-! ## The probe -/

theorem lt_countUnit {profile : Groups.StructuralProfile} {blocks : List ParsedBlock}
    {s : Nat × List Char} {entry : LadderEntry}
    (h : 0 < s.1 ∨ ∃ block ∈ blocks, blockMatchesUnit profile block entry = true) :
    0 < (countUnit profile blocks s entry).1 := by
  unfold countUnit
  dsimp only
  by_cases hcount : 0 < (blocks.filter fun block => blockMatchesUnit profile block entry).length
  · rw [if_pos hcount]
    exact Nat.add_pos_right _ hcount
  · rw [if_neg hcount]
    refine h.resolve_right ?_
    rintro ⟨block, hblock, hmatch⟩
    exact hcount (List.length_pos_of_mem (List.mem_filter.mpr ⟨hblock, hmatch⟩))

/-- A block that matches is in the total. -/
theorem lt_foldl_countUnit {profile : Groups.StructuralProfile} {blocks : List ParsedBlock}
    {units : List LadderEntry} {s : Nat × List Char}
    (h : 0 < s.1 ∨
      ∃ entry ∈ units, ∃ block ∈ blocks, blockMatchesUnit profile block entry = true) :
    0 < (units.foldl (countUnit profile blocks) s).1 := by
  induction units generalizing s with
  | nil => exact h.resolve_right fun ⟨entry, hentry, _⟩ => by cases hentry
  | cons unit units ih =>
    refine ih ?_
    rcases h with h | ⟨entry, hentry, hmatch⟩
    · exact Or.inl (lt_countUnit (Or.inl h))
    · rcases List.mem_cons.mp hentry with rfl | hentry
      · exact Or.inl (lt_countUnit (Or.inr hmatch))
      · exact Or.inr ⟨entry, hentry, hmatch⟩

theorem probe_of_match {group : GroupProfile} (hgroup : group ∈ embedded.groups)
    (htext : group.textOnly = false) {entry : LadderEntry} (hentry : entry ∈ group.ladder)
    (hunit : entry.role = unitRole) {blocks : List ParsedBlock}
    (hmatch : ∃ block ∈ blocks, blockMatchesUnit embedded block entry = true) :
    ∃ unitToken markerCount, probe embedded group.id blocks =
      .structureFound unitToken markerCount := by
  have hmem : entry ∈ group.ladder.filter (·.role = "unit".toList) :=
    List.mem_filter.mpr ⟨hentry, decide_eq_true hunit⟩
  have htotal := lt_foldl_countUnit (s := (0, [])) (Or.inr ⟨entry, hmem, hmatch⟩)
  unfold probe
  rw [Loops.find?_key ids_nodup hgroup]
  dsimp only
  rw [htext, if_neg Bool.false_ne_true, if_neg, if_pos htotal]
  · exact ⟨_, _, rfl⟩
  · rw [List.isEmpty_iff]
    exact List.ne_nil_of_mem hmem

section Probe

variable {tables : CaseTables} {group : GroupProfile}

theorem blockMatchesUnit_eq {block : ParsedBlock} (hstyle : block.style ≠ .providerComment)
    (entry : LadderEntry) : blockMatchesUnit embedded block entry =
      match levelFromLadderToken entry.token with
      | none => numberedMatches entry (trimStart block.text)
      | some level =>
        if hasPrefixMarkers embedded level then prefixMatch embedded (trimStart block.text) level
        else numberedMatches entry (trimStart block.text) := by
  have hfilled : (trimStart block.text).isEmpty = false := by
    rw [List.isEmpty_eq_false_iff]
    intro hnil
    exact block.filled (by rw [trim, hnil]; rfl)
  have hlooked : ¬ (decide (block.style = .providerComment) || (trimStart block.text).isEmpty) =
      true := by
    rw [hfilled, decide_eq_false hstyle]
    exact Bool.false_ne_true
  exact if_neg hlooked

/-- A number in the style of a `punkt` is looked for by this style. -/
theorem blockMatchesUnit_punkt {block : ParsedBlock} (hstyle : block.style ≠ .providerComment)
    {entry : LadderEntry} (htoken : entry.token = "punkt".toList) :
    blockMatchesUnit embedded block entry = numberedMatches entry (trimStart block.text) := by
  have hlevel : levelFromLadderToken "punkt".toList = some .punkt := by decide
  have hmarkers : hasPrefixMarkers embedded .punkt = false := by decide
  rw [blockMatchesUnit_eq hstyle, htoken, hlevel]
  dsimp only
  rw [hmarkers]
  rfl

theorem startsWithNumber_of_isNumber {level : DecodeLevel} {number : List Char}
    (h : IsNumber level number) (rest : List Char) :
    startsWithNumber embedded (number ++ rest) level = true := by
  unfold startsWithNumber
  rcases h with h | ⟨hroman, hne, hall⟩
  · obtain ⟨d, hd, hdigit⟩ := h.first
    obtain ⟨number, rfl⟩ := List.head?_eq_some_iff.mp hd
    rw [List.cons_append, List.head?_cons]
    exact Bool.or_eq_true_iff.mpr (Or.inl hdigit)
  · obtain ⟨c, number, rfl⟩ := List.exists_cons_of_ne_nil hne
    rw [List.cons_append, List.head?_cons]
    refine Bool.or_eq_true_iff.mpr (Or.inr (Bool.and_eq_true_iff.mpr ⟨decide_eq_true hroman, ?_⟩))
    exact hall c List.mem_cons_self

/-- A marker with a prefix is looked for by this prefix. -/
theorem blockMatchesUnit_statya {block : ParsedBlock} (hstyle : block.style ≠ .providerComment)
    {node : HierarchyNode} (hread : hierarchyOf block.text = some node)
    (hlevel : node.level = .statya) {entry : LadderEntry} (htoken : entry.token = "statya".toList) :
    blockMatchesUnit embedded block entry = true := by
  have hstatya : levelFromLadderToken "statya".toList = some .statya := by decide
  have hmarkers : hasPrefixMarkers embedded .statya = true := by decide
  rw [blockMatchesUnit_eq hstyle, htoken, hstatya]
  dsimp only
  rw [if_pos hmarkers]
  obtain ⟨lead, marker, suffix, heq, hlead, -, haccepted, -⟩ := hierarchyOf_eq_some_iff.mp hread
  obtain ⟨rule, hrule, hrulelevel, gap, rest, hgap, hspace, hnumber, hstart⟩ :=
    trimStart_prefixed hlead (prefixed_of_accepted haccepted (Or.inr hlevel)) suffix
  have hrest : ∃ c ∈ (node.number ++ rest).head?, isWhitespace c = false := by
    obtain ⟨c, hc, hblank⟩ := hnumber.first
    exact ⟨c, List.mem_head?_append_of_mem_head? hc, hblank⟩
  rw [heq, hstart, prefixMatch, List.any_eq_true]
  refine ⟨rule, hrule, Bool.and_eq_true_iff.mpr ⟨decide_eq_true (hrulelevel.trans hlevel), ?_⟩⟩
  rw [List.isPrefixOf?_eq_some_iff_append_eq.mpr rfl]
  dsimp only
  rw [takeWhile_gap hgap hrest, ← trimStart, trimStart_lead hgap hrest,
    startsWithNumber_of_isNumber (hlevel ▸ hnumber), Bool.and_true, Bool.or_eq_true_iff]
  cases hpolicy : rule.space with
  | optional => exact Or.inl rfl
  | required => exact Or.inr (decide_eq_true (hspace hpolicy))

/-- The level of an entry for an article or for a number. -/
theorem level_of_entryFor {entry : LadderEntry} {level : DecodeLevel}
    (h : entryFor group.ladder level.asStr = some entry) :
    (entry.token = "statya".toList → level = .statya) ∧
      (entry.token = "punkt".toList → level = .punkt) := by
  unfold entryFor at h
  have htoken := List.find?_some h
  obtain ⟨hstatya, hpunkt⟩ := level_of_token level (mem_all level)
  exact ⟨fun heq => hstatya (heq ▸ htoken), fun heq => hpunkt (heq ▸ htoken)⟩

/-- A block that opens a text is one that the probe counts, or a line with a bracket in a group
whose units have a dot. -/
theorem counted_of_opens {block : ParsedBlock} {node : HierarchyNode} {entry : LadderEntry}
    (hgroup : group ∈ embedded.groups) (h : Opens tables group block node entry) :
    entry ∈ group.ladder ∧ (blockMatchesUnit embedded block entry = true ∨
      DotStyled group ∧ NumberedLine ')' block.text) := by
  rcases Option.or_eq_some_iff.mp h.declared with hdeclared | ⟨-, hstyled⟩
  · have hentry := List.mem_of_find?_eq_some hdeclared
    obtain ⟨hstatya, hpunkt⟩ := level_of_entryFor hdeclared
    refine ⟨hentry, ?_⟩
    rcases unit_entry group hgroup entry hentry h.unit with
      ⟨htoken, -⟩ | ⟨htoken, hrecursive, hstyle, hdot | hbracket⟩
    · exact Or.inl (blockMatchesUnit_statya h.style h.read (hstatya htoken) htoken)
    · exact Or.inr ⟨⟨entry, hentry, h.unit, hdot⟩, line_of_punkt h.read (hpunkt htoken)⟩
    · have hline := line_of_punkt h.read (hpunkt htoken)
      rw [blockMatchesUnit_punkt h.style htoken]
      exact Or.inl ((numberedMatches_line hrecursive hstyle hbracket (by decide) hline).mpr rfl)
  · have hentry := List.mem_of_find?_eq_some hstyled
    unfold styleMatch at hstyled
    have hfound := List.find?_some hstyled
    have hmatch := (Bool.and_eq_true_iff.mp hfound).2
    refine ⟨hentry, Or.inl ?_⟩
    rcases unit_entry group hgroup entry hentry h.unit with ⟨-, hsuffix⟩ | ⟨htoken, -⟩
    · rw [numberedMatches, hsuffix] at hmatch
      cases hmatch
    · rw [blockMatchesUnit_punkt h.style htoken]
      exact numberedMatches_trimStart hmatch

/-- In a group whose units have a dot, a line with a bracket opens a text. -/
theorem opened_of_line (hgroup : group ∈ embedded.groups) (hdot : DotStyled group)
    {block : ParsedBlock} (hstyle : block.style ≠ .providerComment)
    (hsurface : surfaceEntryOf tables group (trim block.text) = none)
    (hline : NumberedLine ')' block.text) (before : List ParsedBlock) :
    Opened tables group before block := by
  obtain ⟨htext, hladder, hrole⟩ := entryFor_punkt group hgroup hdot
  obtain ⟨node, hread, hlevel⟩ := punkt_of_line hline
  rw [← hlevel] at hrole
  obtain ⟨entry, hentry, hunit⟩ := entryOf_of_role hrole (trim block.text)
  rw [opened_iff, htext, hladder]
  exact ⟨rfl, node, entry, hstyle, hsurface, hread, hentry, hunit⟩

/-- The texts are opened at the units of the group, except at the lines with a bracket in a group
whose units have a dot. -/
theorem opens_own_style_iff (tables : CaseTables) {group : GroupProfile}
    (hgroup : group ∈ embedded.groups) (blocks : List ParsedBlock) :
    OpensOwnStyle tables group blocks ↔
      (DotStyled group → ∀ block ∈ blocks, block.style ≠ .providerComment →
        NumberedLine ')' block.text → surfaceEntryOf tables group (trim block.text) ≠ none) := by
  constructor
  · rintro h hdot block hblock hstyle hline hsurface
    obtain ⟨before, after, heq⟩ := List.append_of_mem hblock
    obtain ⟨entry, hentry, hunit, hsuffix⟩ := hdot
    have hopened := opened_of_line hgroup ⟨entry, hentry, hunit, hsuffix⟩ hstyle hsurface hline before
    have hsame := h.suffixes before block after heq hopened entry hentry hunit '.' hsuffix ')'
      (by decide) hline
    exact absurd hsame (by decide)
  · intro h
    have hcounted : ∀ before block after, blocks = before ++ block :: after →
        Opened tables group before block → group.textOnly = false ∧
          ∃ entry ∈ group.ladder, entry.role = unitRole ∧ block.style ≠ .providerComment ∧
            blockMatchesUnit embedded block entry = true := by
      rintro before block after rfl hopened
      obtain ⟨hstructured, node, entry, hopens⟩ := opened_iff.mp hopened
      obtain ⟨hentry, hmatch⟩ := counted_of_opens hgroup hopens
      refine ⟨(Bool.or_eq_false_iff.mp hstructured).1, entry, hentry, hopens.unit, hopens.style, ?_⟩
      refine hmatch.resolve_right ?_
      rintro ⟨hdot, hline⟩
      exact h hdot block (by simp) hopens.style hline hopens.surface
    refine ⟨fun before block after heq hopened => ?_, ?_, fun hne => ?_⟩
    · obtain ⟨-, entry, hentry, hunit, -, hmatch⟩ := hcounted before block after heq hopened
      exact ⟨entry, hentry, hunit, hmatch⟩
    · intro before block after heq hopened other hother hotherunit mark hsuffix seen hseen hline
      obtain ⟨-, entry, hentry, hunit, hstyle, hmatch⟩ := hcounted before block after heq hopened
      obtain rfl := unit_unique group hgroup entry hentry other hother hunit hotherunit
      rcases unit_entry group hgroup other hentry hunit with ⟨-, hnone⟩ | ⟨htoken, hrecursive, hdigit, -⟩
      · rw [hnone] at hsuffix
        cases hsuffix
      · rw [blockMatchesUnit_punkt hstyle htoken] at hmatch
        have hmark : (['.', ')'].all isPunctuation) = true := by decide
        exact (numberedMatches_line hrecursive hdigit hsuffix
          (List.all_eq_true.mp hmark seen hseen) hline).mp hmatch
    · obtain ⟨before, block, after, heq, hopened⟩ := exists_opened hne
      obtain ⟨htext, entry, hentry, hunit, -, hmatch⟩ := hcounted before block after heq hopened
      exact probe_of_match hgroup htext hentry hunit ⟨block, by simp [heq], hmatch⟩

end Probe

/-! ### A bracket in a resolution -/

namespace UnitStyle.Sample

/-- The tables on Cyrillic letters. -/
def tables : CaseTables where
  toLowercase := fun text => text.map fun c =>
    if 'А' ≤ c ∧ c ≤ 'Я' then Char.ofNat (c.toNat + 32) else c
  isAlphabetic := fun c => c.isAlpha || 'А' ≤ c && c ≤ 'я'

def bracketLine : ParsedBlock := ⟨"1) текст".toList, .bodyText, by decide⟩

theorem bracket_opens_resolution : ¬ OpensOwnStyle tables governmentResolution [bracketLine] := by
  intro h
  have hne : collectArticleTexts tables governmentResolution [bracketLine] ≠ [] := by
    decide
  have hnone : probe embedded governmentResolution.id [bracketLine] = .noStructure := by
    decide
  obtain ⟨unitToken, markerCount, hfound⟩ := h.found hne
  rw [hnone] at hfound
  cases hfound

theorem bracket_opens_order : OpensOwnStyle tables departmentalOrder [bracketLine] :=
  (opens_own_style_iff tables (.tail _ (.tail _ (.tail _ (.tail _ (.head _))))) [bracketLine]).mpr
    fun hdot => absurd hdot (by unfold DotStyled; decide)

end UnitStyle.Sample

end LawNexus.Markers
