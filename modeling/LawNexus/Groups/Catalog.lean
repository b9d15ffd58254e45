import LawNexus.Groups.Blocks

/-!
# The ontology catalog

`OntologyCatalog::parse_yaml` of `catalog.rs`: the vocabulary, the document groups and their
validation.
-/

namespace LawNexus.Groups

open Chars Loops

/-! ## The document groups -/

structure DocumentGroupsSection where
  structuralRoles : List (List Char)
  structuralOnlyTokens : List (List Char)
  nonClaims : List (List Char)
  groups : List DocumentGroup
deriving DecidableEq, Repr

def DocumentGroupsSection.empty : DocumentGroupsSection := ⟨[], [], [], []⟩

def rolesKey : List Char := "structural_roles:".toList
def tokensKey : List Char := "structural_only_tokens:".toList
def nonClaimsKey : List Char := "non_claims:".toList
def groupsKey : List Char := "groups:".toList
def documentGroupsKey : List Char := "document_groups:".toList

/-- The headings at which `parse_document_groups` stops. -/
def catalogKeys : List (List Char) := [rolesKey, tokensKey, nonClaimsKey, groupsKey]

def DocumentGroupsSection.read (s : DocumentGroupsSection)
    (heading : List Char × List SectionLine) : Except CatalogError DocumentGroupsSection :=
  if heading.1 = rolesKey then .ok { s with structuralRoles := dashList heading.2 }
  else if heading.1 = tokensKey then .ok { s with structuralOnlyTokens := dashList heading.2 }
  else if heading.1 = nonClaimsKey then .ok { s with nonClaims := dashList heading.2 }
  else ((groupBlocks heading.2).mapM parseGroupBlock).map fun groups => { s with groups }

def parseDocumentGroups (text : List Char) : Except CatalogError DocumentGroupsSection :=
  match sectionLines documentGroupsKey (lines text) with
  | none => .ok .empty
  | some body => (headings catalogKeys body).foldlM DocumentGroupsSection.read .empty

/-! ## The validation -/

def ensure (passes : Bool) (reason : String) : Except CatalogError Unit :=
  if passes then .ok () else .error ⟨reason⟩

/-- `iter().any` with an equality. -/
def isOneOf (text : List Char) (texts : List (List Char)) : Bool := texts.any fun t => t = text

def validateLadderEntry (s : DocumentGroupsSection) (decodeTokens : List (List Char))
    (entry : LadderEntry) : Except CatalogError Unit := do
  let isStructuralOnly := isOneOf entry.token s.structuralOnlyTokens
  let isDecodeToken := decodeTokens.any fun token => eqIgnoreAsciiCase token entry.token
  ensure (isOneOf entry.role s.structuralRoles) "ladder entry names an unknown structural role"
  ensure (isStructuralOnly || isDecodeToken) "ladder token is outside the decode-token catalog"
  ensure (!(isStructuralOnly && entry.surface.isNone))
    "structural-only ladder token must declare surface"
  ensure (!(isDecodeToken && entry.surface.isSome))
    "decode-level ladder token must not declare surface"
  ensure (!entry.surface.any (·.isEmpty)) "ladder entry surface is empty"
  ensure (!(entry.recursive && entry.maxDepth.isNone)) "recursive ladder entry requires max_depth"
  ensure (entry.suffix.all fun suffix => suffix = ['.'] || suffix = [')'])
    "ladder entry suffix is invalid"
  ensure (entry.numberStyle.all fun style =>
      style = "digit".toList || style = "letter_cyrillic".toList ||
        style = "roman_or_digit".toList)
    "ladder entry number_style is invalid"

def validateNeedle (needle : GroupNeedle) : Except CatalogError Unit := do
  ensure (needle.field = "kind".toList || needle.field = "type".toList ||
    needle.field = "path".toList) "group needle field is invalid"
  ensure (!needle.needle.isEmpty) "group needle is empty"

/-- The checks of one group, with the ids seen so far. -/
def validateGroup (s : DocumentGroupsSection) (decodeTokens seen : List (List Char))
    (group : DocumentGroup) : Except CatalogError (List (List Char)) := do
  ensure (!group.id.isEmpty) "document group id is empty"
  ensure (!isOneOf group.id seen) "duplicate document group id"
  group.ladder.forM (validateLadderEntry s decodeTokens)
  group.needles.forM validateNeedle
  ensure (group.granularity.all fun granularity =>
      decodeTokens.any fun token => eqIgnoreAsciiCase token granularity)
    "document group granularity is not a decode token"
  group.textBoundary.forM fun role =>
    ensure (isOneOf role s.structuralRoles) "text_boundary names an unknown structural role"
  ensure (group.textOnly || group.ladder.any fun entry => entry.role = "unit".toList)
    "structural group requires a unit role"
  return seen ++ [group.id]

def validateDocumentGroups (s : DocumentGroupsSection)
    (decodeLevelAliases : List (List Char × List Char)) : Except CatalogError Unit := do
  ensure (s.groups.isEmpty || !s.structuralRoles.isEmpty)
    "document_groups requires structural_roles"
  let _ ← s.groups.foldlM (validateGroup s (decodeLevelAliases.map (·.1))) []
  return ()

/-! ## The rest of the catalog -/

structure FsmTransition where
  fromState : List Char
  toState : List Char
deriving DecidableEq, Repr

structure CorpusRoleSignal where
  role : List Char
  field : List Char
  needle : List Char
  rank : Nat
deriving DecidableEq, Repr

def parseTransitions (text : List Char) : Except CatalogError (List FsmTransition) :=
  let edges := (linesUnder "transitions:".toList true none (lines text)).filterMap fun line =>
    if contains line "from:".toList && contains line "to:".toList then
      (flowField line "from").bind fun fromState =>
        (flowField line "to").map fun toState => ⟨fromState, toState⟩
    else none
  if edges.isEmpty then .error ⟨"fsm.transitions missing"⟩ else .ok edges

def parseCorpusRoleSignal (line : List Char) : Except CatalogError CorpusRoleSignal := do
  let role ← orCatalogError "corpus_role_signal missing role" (flowField line "role")
  let field ← orCatalogError "corpus_role_signal missing field" (flowField line "field")
  let needle ← orCatalogError "corpus_role_signal missing needle" (flowField line "needle")
  let rank ← orCatalogError "corpus_role_signal missing rank" (flowField line "rank")
  let rank ← orCatalogError "corpus_role_signal rank is not an integer" (parseU32 rank)
  if needle.isEmpty || (field ≠ "path".toList && field ≠ "title".toList) then
    .error ⟨"corpus_role_signal field or needle is invalid"⟩
  else return ⟨role, field, needle, rank⟩

def parseCorpusRoleSignals (text : List Char) : Except CatalogError (List CorpusRoleSignal) := do
  let slice ← vocabulary text
  ((linesUnder "corpus_role_signals:".toList true none (lines slice)).filter fun line =>
    line.head? = some '-').mapM parseCorpusRoleSignal

structure OntologyCatalog where
  schemaVersion : List Char
  currentState : List Char
  states : List (List Char)
  transitions : List FsmTransition
  hierarchyLevels : List (List Char)
  nodeKinds : List (List Char)
  forbiddenNodeKinds : List (List Char)
  decodeLevelAliases : List (List Char × List Char)
  corpusRoles : List (List Char)
  corpusRoleSignals : List CorpusRoleSignal
  structuralRoles : List (List Char)
  structuralOnlyTokens : List (List Char)
  documentGroupNonClaims : List (List Char)
  documentGroups : List DocumentGroup
deriving DecidableEq, Repr

/-- The lists that no check of the parser looks at are left out: each is read under a heading
of the vocabulary, which is there when the first of them is read. -/
def OntologyCatalog.parseYaml (text : List Char) : Except CatalogError OntologyCatalog := do
  let schemaVersion ← requiredScalar "schema_version".toList text
  let currentState ← requiredNestedScalar "fsm:".toList "current:".toList text
  let states := mapKeysUnder "states:".toList text
  ensure (!states.isEmpty) "fsm.states is empty"
  ensure (isOneOf currentState states) "fsm.current is not a declared state"
  let transitions ← parseTransitions text
  ensure (transitions.all fun edge => isOneOf edge.fromState states && isOneOf edge.toState states)
    "fsm transition names an unknown state"
  let hierarchyLevels ← listUnderVocabulary "hierarchy_levels:".toList text
  let nodeKinds ← listUnderVocabulary "node_kinds:".toList text
  let forbiddenNodeKinds ← listUnderVocabulary "forbidden_node_kinds:".toList text
  let decodeLevelAliases ← mapPairsUnderVocabulary "decode_level_aliases:".toList text
  let corpusRoles ← listUnderVocabulary "corpus_roles:".toList text
  let corpusRoleSignals ← parseCorpusRoleSignals text
  ensure (corpusRoleSignals.all fun signal => isOneOf signal.role corpusRoles)
    "corpus_role_signal names an unknown role"
  ensure (!(hierarchyLevels.isEmpty || nodeKinds.isEmpty || forbiddenNodeKinds.isEmpty))
    "vocabulary lists are incomplete"
  ensure (decodeLevelAliases.all fun pair => isOneOf pair.2 hierarchyLevels)
    "decode alias target is not a hierarchy level"
  let groups ← parseDocumentGroups text
  validateDocumentGroups groups decodeLevelAliases
  return ⟨schemaVersion, currentState, states, transitions, hierarchyLevels, nodeKinds,
    forbiddenNodeKinds, decodeLevelAliases, corpusRoles, corpusRoleSignals, groups.structuralRoles,
    groups.structuralOnlyTokens, groups.nonClaims, groups.groups⟩

end LawNexus.Groups
