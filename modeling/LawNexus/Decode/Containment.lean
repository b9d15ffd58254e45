import LawNexus.Decode.Ancestors
import Mathlib.Data.Nat.Find

/-!
# The legal ladder

A heading should contain the headings of the tokens below its own. The ranks are places in the
first ladder that has a token, so a division and a chapter have one rank: a chapter closes the
division before it.
-/

namespace LawNexus.Decode

open Utf8 Loops Nesting

variable {decoder : Decoder} {lexicon : Lexicon} {blocks : List ParsedBlock}
  {version : DocumentVersionRef} {index : DocumentStructureIndex}

/-- Some group ladder lists the one token above the other. -/
def LadderAbove (a b : String) : Prop := ∃ ladder ∈ embeddedLadders, [a, b].Sublist ladder

instance (a b : String) : Decidable (LadderAbove a b) :=
  inferInstanceAs (Decidable (∃ ladder ∈ embeddedLadders, [a, b].Sublist ladder))

/-- The token of the heading at an index. -/
def headingToken (lexicon : Lexicon) (blocks : List ParsedBlock) (i : Nat) : Option String :=
  (headingRole lexicon blocks i).bind roleToken

/-- The container that a heading opened is on the path of a block. -/
def OnPath (index : DocumentStructureIndex) (i j : Nat) : Prop :=
  ∃ node ∈ index.sourceBlocks, node.blockId.asStr = blockName j ∧
    ∃ path, index.ancestorPathIn index.containers.length node.blockId = some (.ok path) ∧
      ∃ c ∈ path, c.containerId.asStr = containerName i

/-- A heading of a lower token is in a heading before it, unless a heading of that token or of a
token above it stands between them. -/
def FollowsLadder (lexicon : Lexicon) (blocks : List ParsedBlock)
    (index : DocumentStructureIndex) : Prop :=
  ∀ a b, LadderAbove a b → ∀ i j, i < j → headingToken lexicon blocks i = some a →
    headingToken lexicon blocks j = some b →
    (∀ k, i < k → k < j → ∀ t, headingToken lexicon blocks k = some t →
      t ≠ a ∧ ¬LadderAbove t a) →
    OnPath index i j

/-! ## Ranks -/

/-- The index of a token in the first ladder that has it. -/
def tokenRank (token : String) : Nat :=
  (((embeddedLadders.flatMap List.zipIdx).find? (·.1 = token)).map (·.2)).getD usizeMax

def roleTokens : List String := ["razdel", "glava", "statya", "chast", "punkt", "podpunkt"]

theorem mem_roleTokens {role : ContainerRole} {token : String} (h : roleToken role = some token) :
    token ∈ roleTokens := by
  cases role <;> simp_all [roleToken, roleTokens]

theorem profileRank_of_token {role : ContainerRole} {token : String}
    (h : roleToken role = some token) : profileRank role = tokenRank token := by
  rw [profileRank, h]
  rfl

theorem profileRank_of_none {role : ContainerRole} (h : roleToken role = none) :
    profileRank role = usizeMax := by
  rw [profileRank, h]

theorem tokenRank_lt : ∀ a ∈ roleTokens, tokenRank a < usizeMax := by decide

/-- A token of no greater rank is the same one or one above, a chapter against a division apart. -/
theorem rank_le_cases : ∀ a ∈ roleTokens, ∀ t ∈ roleTokens, tokenRank t ≤ tokenRank a →
    t = a ∨ LadderAbove t a ∨ a = "razdel" ∧ t = "glava" := by decide

theorem ladderAbove_asymm : ∀ a ∈ roleTokens, ∀ b ∈ roleTokens, LadderAbove a b →
    b ≠ a ∧ ¬LadderAbove b a := by decide

theorem not_ladderAbove_razdel : ∀ t ∈ roleTokens, ¬LadderAbove t "razdel" := by decide

/-! ## Paths -/

theorem headingRole_lt {i : Nat} {role : ContainerRole}
    (h : headingRole lexicon blocks i = some role) : i < blocks.length := by
  obtain ⟨b, hb, -⟩ := Option.bind_eq_some_iff.mp h
  exact (List.getElem?_eq_some_iff.mp hb).1

theorem headingToken_eq_some {i : Nat} {token : String}
    (h : headingToken lexicon blocks i = some token) :
    ∃ role, headingRole lexicon blocks i = some role ∧ roleToken role = some token :=
  Option.bind_eq_some_iff.mp h

theorem exists_node (h : buildDocumentStructureIndex decoder version blocks = .ok index) {j : Nat}
    (hj : j < blocks.length) : ∃ node ∈ index.sourceBlocks, node.blockId.asStr = blockName j := by
  obtain ⟨state, hstate, rfl⟩ := buildDocumentStructureIndex_spec h
  have hname : blockName j ∈ state.sourceBlocks.map (·.blockId.asStr) := by
    rw [hstate.blockNames]
    exact List.mem_map_of_mem (List.mem_range.mpr hj)
  obtain ⟨node, hnode, heq⟩ := List.mem_map.mp hname
  exact ⟨node, hnode, heq⟩

/-- A heading is on the path of a block as long as it is open behind the block. -/
theorem onPath_iff (h : buildDocumentStructureIndex decoder version blocks = .ok index)
    {i j : Nat} (hj : j < blocks.length) :
    OnPath index i j ↔ ∃ role, (i, role) ∈ openHeadings decoder.lexicon blocks (j + 1) := by
  have hname {path : List StructuralContainerNode} {j : Nat}
      (hpath : path.map (·.containerId.asStr) =
        (openHeadings decoder.lexicon blocks (j + 1)).map (fun h => containerName h.1) ++
          [rootName]) :
      (∃ c ∈ path, c.containerId.asStr = containerName i) ↔
        ∃ role, (i, role) ∈ openHeadings decoder.lexicon blocks (j + 1) := by
    rw [← List.mem_map (f := fun c : StructuralContainerNode => c.containerId.asStr), hpath,
      List.mem_append, List.mem_map]
    simp [containerName_inj, containerName_ne_rootName]
  constructor
  · rintro ⟨node, hnode, hblock, path, hpath, hmem⟩
    obtain ⟨j', -, hj', path', hnames, hwalk⟩ := ancestorPathIn_spec h hnode
    obtain rfl := blockName_inj.mp (hblock.symm.trans hj')
    obtain rfl : path = path' := by simpa [hwalk] using hpath.symm
    exact (hname hnames).mp hmem
  · intro hopen
    obtain ⟨node, hnode, hblock⟩ := exists_node h hj
    obtain ⟨j', -, hj', path, hnames, hwalk⟩ := ancestorPathIn_spec h hnode
    obtain rfl := blockName_inj.mp (hblock.symm.trans hj')
    exact ⟨node, hnode, hblock, path, hwalk _ le_rfl, (hname hnames).mpr hopen⟩

/-! ## The ladder -/

/-- A chapter heading comes somewhere behind a division heading. -/
def ChapterAfterDivision (lexicon : Lexicon) (blocks : List ParsedBlock) : Prop :=
  ∃ i j, i < j ∧ headingToken lexicon blocks i = some "razdel" ∧
    headingToken lexicon blocks j = some "glava"

/-- The chapter closes the last division before it. -/
theorem not_followsLadder (h : buildDocumentStructureIndex decoder version blocks = .ok index)
    (hchapter : ChapterAfterDivision decoder.lexicon blocks) :
    ¬FollowsLadder decoder.lexicon blocks index := by
  obtain ⟨i, j, hij, hi, hj⟩ := hchapter
  intro hfollows
  -- The last division before the chapter has none of its tokens behind it.
  let division (k : Nat) : Prop :=
    k < j ∧ headingToken decoder.lexicon blocks k = some "razdel"
  let last := Nat.findGreatest division j
  have hlast : division last := Nat.findGreatest_spec (Nat.le_of_lt hij) ⟨hij, hi⟩
  have hbetween (k : Nat) (hk : last < k) (hkj : k < j) (t : String)
      (ht : headingToken decoder.lexicon blocks k = some t) :
      t ≠ "razdel" ∧ ¬LadderAbove t "razdel" := by
    obtain ⟨role, -, hrole⟩ := headingToken_eq_some ht
    refine ⟨?_, not_ladderAbove_razdel t (mem_roleTokens hrole)⟩
    rintro rfl
    exact Nat.findGreatest_is_greatest hk (Nat.le_of_lt hkj) ⟨hkj, ht⟩
  have hpath := hfollows "razdel" "glava" (by decide) last j hlast.1 hlast.2 hj hbetween
  obtain ⟨lower, hlower, hglava⟩ := headingToken_eq_some hj
  obtain ⟨upper, hopen⟩ := (onPath_iff h (headingRole_lt hlower)).mp hpath
  obtain ⟨-, hupper, hlater⟩ := mem_openHeadings.mp hopen
  obtain ⟨role, hrole, hrazdel⟩ := headingToken_eq_some hlast.2
  obtain rfl := Option.some.inj (hupper.symm.trans hrole)
  have hlt := hlater j lower hlast.1 (Nat.lt_succ_self j) hlower
  rw [profileRank_of_token hrazdel, profileRank_of_token hglava] at hlt
  exact absurd hlt (by decide)

theorem followsLadder (h : buildDocumentStructureIndex decoder version blocks = .ok index)
    (hchapter : ¬ChapterAfterDivision decoder.lexicon blocks) :
    FollowsLadder decoder.lexicon blocks index := by
  intro a b hab i j hij hi hj hbetween
  obtain ⟨roleA, hroleA, htokenA⟩ := headingToken_eq_some hi
  obtain ⟨roleB, hroleB, htokenB⟩ := headingToken_eq_some hj
  have hmemA := mem_roleTokens htokenA
  have hmemB := mem_roleTokens htokenB
  rw [onPath_iff h (headingRole_lt hroleB)]
  refine ⟨roleA, mem_openHeadings.mpr ⟨Nat.lt_succ_of_lt hij, hroleA, ?_⟩⟩
  intro k role hik hkj hrole
  rw [profileRank_of_token htokenA]
  cases htoken : roleToken role with
  | none =>
    rw [profileRank_of_none htoken]
    exact tokenRank_lt a hmemA
  | some t =>
    have ht : headingToken decoder.lexicon blocks k = some t := by
      rw [headingToken, hrole, Option.bind_some, htoken]
    -- Neither the lower heading nor one between may close the upper one.
    have hsafe : t ≠ a ∧ ¬LadderAbove t a := by
      rcases Nat.lt_succ_iff_lt_or_eq.mp hkj with hkj | rfl
      · exact hbetween k hik hkj t ht
      · obtain rfl := Option.some.inj (hj.symm.trans ht)
        exact ladderAbove_asymm a hmemA b hmemB hab
    rw [profileRank_of_token htoken]
    by_contra hle
    rcases rank_le_cases a hmemA t (mem_roleTokens htoken) (Nat.le_of_not_lt hle) with
      heq | habove | ⟨rfl, rfl⟩
    · exact hsafe.1 heq
    · exact hsafe.2 habove
    · exact hchapter ⟨i, k, hik, hi, ht⟩

/-- Every path ends at the root, and the headings nest as the ladders list them as long as no
chapter comes behind a division. -/
theorem containment_iff (decoder : Decoder) (version : DocumentVersionRef)
    (blocks : List ParsedBlock) (index : DocumentStructureIndex)
    (h : buildDocumentStructureIndex decoder version blocks = .ok index) :
    (∀ node ∈ index.sourceBlocks, ∃ path,
      (path.getLast?.map fun c => c.containerId.asStr) = some "container-document" ∧
        ∀ turns, index.containers.length ≤ turns →
          index.ancestorPathIn turns node.blockId = some (.ok path)) ∧
      (FollowsLadder decoder.lexicon blocks index ↔
        ¬ChapterAfterDivision decoder.lexicon blocks) := by
  refine ⟨fun node hnode => ?_, fun hfollows hchapter => not_followsLadder h hchapter hfollows,
    followsLadder h⟩
  obtain ⟨j, -, -, path, hpath, hwalk⟩ := ancestorPathIn_spec h hnode
  refine ⟨path, ?_, hwalk⟩
  rw [← List.getLast?_map, hpath, List.getLast?_concat]
  rfl

/-! ### A chapter in a division -/

namespace Sample

def isCyrillic (c : Char) : Bool := ('А' ≤ c && c ≤ 'я') || c == 'ё' || c == 'Ё'

def lowerCyrillic (c : Char) : Char :=
  if 'А' ≤ c && c ≤ 'Я' then Char.ofNat (c.toNat + 32) else c

/-- The tables on the letters of the headings below. -/
def tables : CharTables := ⟨isCyrillic, fun c => [lowerCyrillic c], fun s => s.map lowerCyrillic⟩

def cyrillic : Decoder := ⟨⟨tables, []⟩, fun _ => none⟩

def docVersion : DocumentVersionRef := ⟨"doc-v1", "rev-1", "profile-1"⟩

def divisionHeading : ParsedBlock := ⟨['Р', 'а', 'з', 'д', 'е', 'л'], .heading⟩

def chapterHeading : ParsedBlock := ⟨['Г', 'л', 'а', 'в', 'а'], .heading⟩

theorem twelve : 0 < 12 := by decide

theorem ten : 0 < 10 := by decide

theorem lexTurn_division : lexTurn cyrillic.lexicon divisionHeading.text 0 =
    .ok (some ⟨[⟨.Word, ⟨0, 12, twelve⟩, none⟩], 12, twelve⟩) := by rfl

theorem lexTurn_chapter : lexTurn cyrillic.lexicon chapterHeading.text 0 =
    .ok (some ⟨[⟨.Word, ⟨0, 10, ten⟩, none⟩], 10, ten⟩) := by rfl

theorem blockRole_division : blockRole cyrillic.lexicon 0 divisionHeading =
    .ok (some (.division, some ⟨0, 12, twelve⟩)) := by
  rw [blockRole, if_neg (by decide), if_pos (by decide), findLegalMarkers, wordsFromCovering, lex, lexFrom,
    if_pos (by decide), lexTurn_division]
  dsimp only
  rw [lexFrom, if_neg (by decide)]
  rfl

theorem blockRole_chapter : blockRole cyrillic.lexicon 1 chapterHeading =
    .ok (some (.chapter, some ⟨0, 10, ten⟩)) := by
  rw [blockRole, if_neg (by decide), if_pos (by decide), findLegalMarkers, wordsFromCovering, lex, lexFrom,
    if_pos (by decide), lexTurn_chapter]
  dsimp only
  rw [lexFrom, if_neg (by decide)]
  rfl

theorem exists_index : ∃ index, buildDocumentStructureIndex cyrillic docVersion
    [divisionHeading, chapterHeading] = .ok index := by
  rw [buildDocumentStructureIndex, if_neg (by decide)]
  simp only [List.zipIdx_cons, List.zipIdx_nil, List.foldlM_cons, List.foldlM_nil, indexBlock,
    Nat.zero_add, blockRole_division, blockRole_chapter]
  exact ⟨_, rfl⟩

theorem chapterAfterDivision :
    ChapterAfterDivision cyrillic.lexicon [divisionHeading, chapterHeading] := by
  refine ⟨0, 1, Nat.zero_lt_one, ?_, ?_⟩
  · rw [headingToken, headingRole_eq rfl blockRole_division]
    rfl
  · rw [headingToken, headingRole_eq rfl blockRole_chapter]
    rfl

theorem chapter_leaves_division :
    ∃ index, buildDocumentStructureIndex cyrillic docVersion [divisionHeading, chapterHeading] =
      .ok index ∧ ¬FollowsLadder cyrillic.lexicon [divisionHeading, chapterHeading] index := by
  obtain ⟨index, hindex⟩ := exists_index
  exact ⟨index, hindex, not_followsLadder hindex chapterAfterDivision⟩

theorem containment_of_headings :
    ∃ index, buildDocumentStructureIndex cyrillic docVersion [divisionHeading, chapterHeading] =
      .ok index ∧ (FollowsLadder cyrillic.lexicon [divisionHeading, chapterHeading] index ↔
        ¬ChapterAfterDivision cyrillic.lexicon [divisionHeading, chapterHeading]) := by
  obtain ⟨index, hindex⟩ := exists_index
  exact ⟨index, hindex, (containment_iff cyrillic docVersion _ index hindex).2⟩

end Sample

end LawNexus.Decode
