import LawNexus.Markers.Units

/-!
# Article texts

`collect_article_texts` of `ln-decode/src/article_body.rs`. The tables behind `str::to_lowercase`
and `char::is_alphabetic` are parameters.
-/

namespace LawNexus.Markers

open Chars
open Groups (DecodeLevel LadderEntry GroupProfile eqIgnoreAsciiCase)

/-! ## Model -/

structure ArticleText where
  number : List Char
  title : Option (List Char)
  text : List Char
deriving DecidableEq, Repr

structure CaseTables where
  toLowercase : List Char → List Char
  isAlphabetic : Char → Bool

/-- The variables of the loop: the texts, and the place of the open one. -/
structure Collection where
  out : List ArticleText
  current : Option Nat
deriving DecidableEq, Repr

def Collection.start : Collection := ⟨[], none⟩

def appendLine (target line : List Char) : List Char :=
  if target.isEmpty then line else target ++ '\n' :: line

def Collection.openUnit (s : Collection) (node : HierarchyNode) : Collection :=
  ⟨s.out ++ [⟨node.number, node.title, []⟩], some s.out.length⟩

def Collection.reset (s : Collection) : Collection := ⟨s.out, none⟩

def Collection.append (s : Collection) (line : List Char) : Collection :=
  match s.current with
  | none => s
  | some index =>
    ⟨s.out.modify index fun article => { article with text := appendLine article.text line },
      s.current⟩

def surfacePrefix (tables : CaseTables) (text surfaceLower : List Char) : Bool :=
  match surfaceLower.isPrefixOf? (tables.toLowercase text) with
  | none => false
  | some rest => !rest.head?.any tables.isAlphabetic

def surfaces (tables : CaseTables) (group : GroupProfile) : List (List Char × LadderEntry) :=
  group.ladder.filterMap fun entry =>
    entry.surface.map fun surface => (tables.toLowercase surface, entry)

/-- The entry of a marker that is known by its surface only. -/
def surfaceEntryOf (tables : CaseTables) (group : GroupProfile) (text : List Char) :
    Option LadderEntry :=
  ((surfaces tables group).find? fun surface => surfacePrefix tables text surface.1).map (·.2)

def entryFor (ladder : List LadderEntry) (level : List Char) : Option LadderEntry :=
  ladder.find? fun entry => eqIgnoreAsciiCase entry.token level

/-- The entry of a level, or the one of the number style. -/
def entryOf (group : GroupProfile) (level : DecodeLevel) (text : List Char) : Option LadderEntry :=
  (entryFor group.ladder level.asStr).or (styleMatch group text)

def Collection.step (tables : CaseTables) (group : GroupProfile) (s : Collection)
    (block : ParsedBlock) : Collection :=
  let text := trim block.text
  if block.style = .providerComment then s
  else if text.isEmpty then s
  else match surfaceEntryOf tables group text with
    | some entry =>
      if entry.role = "subunit-text".toList || entry.role = "container".toList then s.reset else s
    | none => match hierarchyOf block.text with
      | none => s.append text
      | some node => match entryOf group node.level text with
        | none => s.reset
        | some entry =>
          if entry.role = "unit".toList then s.openUnit node
          else if entry.role = "container".toList then s.reset
          else s.append text

def collectArticleTexts (tables : CaseTables) (group : GroupProfile) (blocks : List ParsedBlock) :
    List ArticleText :=
  if group.textOnly || group.ladder.isEmpty then []
  else (blocks.foldl (Collection.step tables group) .start).out

/-! ## The collector without a profile -/

/-- The loop of `legacy_collect_article_texts`, the reference of the contract tests. -/
def Collection.legacyStep (s : Collection) (block : ParsedBlock) : Collection :=
  let text := trim block.text
  if block.style = .providerComment then s
  else match hierarchyOf block.text with
    | some node =>
      if node.level = .statya then s.openUnit node
      else if node.level = .glava || node.level = .razdel || node.level = .paragraph then s.reset
      else if text.isEmpty then s
      else s.append text
    | none => if text.isEmpty then s else s.append text

def legacyCollectArticleTexts (blocks : List ParsedBlock) : List ArticleText :=
  (blocks.foldl Collection.legacyStep .start).out

/-! ## The federal law -/

theorem surfaceEntryOf_federalLaw (tables : CaseTables) (text : List Char) :
    surfaceEntryOf tables federalLaw text = none := rfl

/-- The roles of the levels that the ladder declares. -/
theorem entryFor_federalLaw :
    (entryFor federalLaw.ladder DecodeLevel.statya.asStr).map (·.role) = some "unit".toList ∧
    (∀ level ∈ [DecodeLevel.glava, .paragraph],
      (entryFor federalLaw.ladder level.asStr).map (·.role) = some "container".toList) ∧
    (∀ level ∈ [DecodeLevel.chast, .punkt, .podpunkt],
      (entryFor federalLaw.ladder level.asStr).map (·.role) = some "subunit".toList) ∧
    entryFor federalLaw.ladder DecodeLevel.razdel.asStr = none := by
  decide

/-- The marker of a `razdel`, which the ladder does not declare, has the style of no entry. -/
theorem entryOf_razdel {text : List Char} {node : HierarchyNode}
    (h : hierarchyOf text = some node) (hlevel : node.level = .razdel) :
    entryOf federalLaw node.level (trim text) = none := by
  obtain ⟨lead, marker, suffix, rfl, hlead, -, haccepted, -⟩ := hierarchyOf_eq_some_iff.mp h
  obtain ⟨rule, hrule, -, gap, rest, -, -, -, hstart⟩ := trimStart_prefixed hlead
    (prefixed_of_accepted haccepted (Or.inl hlevel)) suffix
  rw [entryOf, hlevel, entryFor_federalLaw.2.2.2, Option.none_or, styleMatch, List.find?_eq_none]
  intro entry hentry hmatch
  have hfound := numberedMatches_trimStart (Bool.and_eq_true_iff.mp hmatch).2
  rw [hstart, not_numberedMatches_prefix List.mem_cons_self hentry hrule] at hfound
  cases hfound

theorem entryOf_of_role {group : GroupProfile} {level : DecodeLevel} {role : List Char}
    (h : (entryFor group.ladder level.asStr).map (·.role) = some role) (text : List Char) :
    ∃ entry, entryOf group level text = some entry ∧ entry.role = role := by
  obtain ⟨entry, hentry, hrole⟩ := Option.map_eq_some_iff.mp h
  exact ⟨entry, by rw [entryOf, hentry, Option.some_or], hrole⟩

/-- One block has the same effect on both collectors. -/
theorem step_federalLaw (tables : CaseTables) (s : Collection) (block : ParsedBlock) :
    s.step tables federalLaw block = s.legacyStep block := by
  have hfilled : (trim block.text).isEmpty = false := List.isEmpty_eq_false_iff.mpr block.filled
  unfold Collection.step Collection.legacyStep
  simp only [hfilled, surfaceEntryOf_federalLaw, Bool.false_eq_true, if_false]
  split_ifs with hcomment
  · rfl
  · cases hnode : hierarchyOf block.text with
    | none => rfl
    | some node =>
      dsimp only
      obtain ⟨hunit, hcontainer, hsubunit, -⟩ := entryFor_federalLaw
      -- The ladder declares a unit, containers and subunits; only a razdel is not declared.
      have hlevels : node.level = .statya ∨ node.level ∈ [DecodeLevel.glava, .paragraph] ∨
          node.level ∈ [DecodeLevel.chast, .punkt, .podpunkt] ∨ node.level = .razdel := by
        cases node.level <;> decide
      rcases hlevels with hlevel | hlevel | hlevel | hlevel
      · rw [← hlevel] at hunit
        obtain ⟨entry, hentry, hrole⟩ := entryOf_of_role hunit (trim block.text)
        rw [hentry, if_pos hlevel]
        exact if_pos hrole
      · obtain ⟨entry, hentry, hrole⟩ := entryOf_of_role (hcontainer _ hlevel) (trim block.text)
        have hlegacy : node.level ≠ .statya ∧ (node.level = .glava ∨ node.level = .paragraph) := by
          revert hlevel
          cases node.level <;> decide
        rw [hentry]
        rcases hlegacy with ⟨-, hlegacy | hlegacy⟩ <;> simp [hlegacy, hrole]
      · obtain ⟨entry, hentry, hrole⟩ := entryOf_of_role (hsubunit _ hlevel) (trim block.text)
        have hlegacy : node.level = .chast ∨ node.level = .punkt ∨ node.level = .podpunkt := by
          simpa using hlevel
        rw [hentry]
        rcases hlegacy with hlegacy | hlegacy | hlegacy <;> simp [hlegacy, hrole]
      · rw [entryOf_razdel hnode hlevel, hlevel]
        rfl

/-- The collector of the federal law is the one without a profile. -/
theorem collect_federalLaw (tables : CaseTables) (blocks : List ParsedBlock) :
    (embedded.groups.find? (·.id = "federal_law@v1".toList)).map
      (collectArticleTexts tables · blocks) = some (legacyCollectArticleTexts blocks) := by
  have hgroup : embedded.groups.find? (·.id = "federal_law@v1".toList) = some federalLaw :=
    List.find?_cons_of_pos (by decide)
  have hstep : Collection.step tables federalLaw = Collection.legacyStep := by
    funext s block
    exact step_federalLaw tables s block
  rw [hgroup, Option.map_some, collectArticleTexts, hstep]
  rfl

end LawNexus.Markers
