import LawNexus.Firsts
import LawNexus.Markers.Recognized

/-!
# Hierarchy candidates

`extract_hierarchy_candidates` of `ln-decode/src/hierarchy.rs`: the hits of a document with their
ladder paths, the first hit of each key.
-/

namespace LawNexus.Markers

open Nesting Firsts Chars
open Groups (DecodeLevel)

/-! ## Model -/

def catalogToken : DecodeLevel → List Char
  | .razdel => "razdel".toList
  | .glava => "glava".toList
  | .paragraph => "paragraph".toList
  | .statya => "statya".toList
  | .chast => "chast".toList
  | .punkt => "punkt".toList
  | .podpunkt => "podpunkt".toList

def isContainerLevel (level : DecodeLevel) : Bool :=
  level = .razdel || level = .glava || level = .paragraph

def levelDepth (level : DecodeLevel) : Nat := DecodeLevel.all.idxOf level

/-- A level and a number, as they stand on the ladder. -/
abbrev Rung := DecodeLevel × List Char

def depth (rung : Rung) : Nat := levelDepth rung.1

structure HierarchyCandidate where
  level : DecodeLevel
  number : List Char
  path : Option (List Char)
  keyPath : List Char
  title : Option (List Char)
  markerSpan : TextSpan
deriving DecidableEq, Repr

inductive HierarchyExtractDiagnostic where
  | duplicateKey (level : DecodeLevel) (keyPath : List Char) (firstIndex laterIndex : Nat)
deriving DecidableEq, Repr

structure HierarchyCandidateReport where
  candidates : List HierarchyCandidate
  diagnostics : List HierarchyExtractDiagnostic
  extracted : Nat
deriving DecidableEq, Repr

def segmentText (rung : Rung) : List Char := catalogToken rung.1 ++ '-' :: rung.2

/-- The joined path, where it splits into two segments or more. The top of a ladder is its head. -/
def ladderPath (ladder : List Rung) : Option (List Char) :=
  let path := ['/'].intercalate
    ((ladder.reverse.filter fun rung => !isContainerLevel rung.1).map segmentText)
  if 2 ≤ (path.splitOn '/').length then some path else none

/-- The variables of the loop. -/
structure Extraction where
  ladder : List Rung
  seen : List (DecodeLevel × List Char × Nat)
  report : HierarchyCandidateReport

def Extraction.start : Extraction := ⟨[], [], ⟨[], [], 0⟩⟩

def Extraction.step (s : Extraction) (node : HierarchyNode) : Extraction :=
  let hitIndex := s.report.extracted
  let ladder := push depth s.ladder (node.level, node.number)
  let path := ladderPath ladder
  let keyPath := path.getD node.number
  match s.seen.find? fun seen => seen.1 = node.level && seen.2.1 = keyPath with
  | some (_, _, firstIndex) =>
    ⟨ladder, s.seen, s.report.candidates,
      s.report.diagnostics ++ [.duplicateKey node.level keyPath firstIndex hitIndex], hitIndex + 1⟩
  | none =>
    ⟨ladder, s.seen ++ [(node.level, keyPath, hitIndex)], s.report.candidates ++
      [⟨node.level, node.number, path, keyPath, node.title, node.markerSpan⟩],
      s.report.diagnostics, hitIndex + 1⟩

def extractHierarchyCandidates (blocks : List ParsedBlock) : HierarchyCandidateReport :=
  (blocks.foldl (fun s block =>
    if block.style = .providerComment then s
    else match hierarchyOf block.text with
      | none => s
      | some node => s.step node) Extraction.start).report

/-! ## The report of the hits -/

/-- The markers of a document, in the order of their blocks. -/
def hits (blocks : List ParsedBlock) : List HierarchyNode :=
  (blocks.filter fun block => block.style ≠ .providerComment).filterMap fun block =>
    hierarchyOf block.text

def rungOf (node : HierarchyNode) : Rung := (node.level, node.number)

/-- A hit under the nearest hits in front of it that are shallower and shallower, the outermost
first. Containers are left out. -/
def ladderOf (front : List HierarchyNode) (node : HierarchyNode) : List Rung :=
  ((rungOf node :: chain depth (front.map rungOf).reverse (depth (rungOf node))).reverse).filter
    fun rung => !isContainerLevel rung.1

/-- The path of two segments or more. -/
def pathOf (segments : List Rung) : Option (List Char) :=
  if 2 ≤ segments.length then some (['/'].intercalate (segments.map segmentText)) else none

def candidateOf (front : List HierarchyNode) (node : HierarchyNode) : HierarchyCandidate :=
  let path := pathOf (ladderOf front node)
  ⟨node.level, node.number, path, path.getD node.number, node.title, node.markerSpan⟩

def HierarchyCandidate.key (c : HierarchyCandidate) : DecodeLevel × List Char := (c.level, c.keyPath)

/-- The candidate of each hit, duplicates included. -/
def entries (nodes : List HierarchyNode) : List HierarchyCandidate :=
  (withFront nodes).map fun (front, node) => candidateOf front node

theorem entries_concat (nodes : List HierarchyNode) (node : HierarchyNode) :
    entries (nodes ++ [node]) = entries nodes ++ [candidateOf nodes node] := by
  unfold entries
  rw [withFront_concat, List.map_append, List.map_singleton]

@[simp] theorem length_entries (nodes : List HierarchyNode) :
    (entries nodes).length = nodes.length := by
  rw [entries, List.length_map, length_withFront]

def diagnosticOf : HierarchyCandidate × Nat × Nat → HierarchyExtractDiagnostic
  | (c, firstIndex, laterIndex) => .duplicateKey c.level c.keyPath firstIndex laterIndex

def seenAt : (DecodeLevel × List Char) × Nat → DecodeLevel × List Char × Nat
  | ((level, keyPath), index) => (level, keyPath, index)

/-! ## The alphabet of the segments -/

theorem IsNumber.no_slash {level : DecodeLevel} {number : List Char} (h : IsNumber level number) :
    '/' ∉ number := by
  intro hmem
  rcases h with h | ⟨-, -, hall⟩
  · rcases digit_or_dot h.dotted _ hmem with hdigit | hdot
    · exact absurd hdigit (by decide)
    · exact absurd hdot (by decide)
  · exact absurd (hall _ hmem) (by decide)

theorem Accepted.isNumber {level : DecodeLevel} {number marker : List Char}
    (h : Accepted level number marker) : IsNumber level number := by
  cases h with
  | prefixed h =>
    cases h with
    | intro hrule hgap hspace hnumber hc => exact hnumber
  | chast h => exact Or.inl h
  | punkt h => exact Or.inl h
  | paragraph h hdot => exact Or.inl h

theorem hits_no_slash {blocks : List ParsedBlock} :
    ∀ node ∈ hits blocks, '/' ∉ (rungOf node).2 := by
  intro node hnode
  obtain ⟨block, -, hread⟩ := List.mem_filterMap.mp hnode
  obtain ⟨lead, marker, suffix, -, -, -, haccepted, -⟩ :=
    readsAs_of_extract ((extractHierarchy_eq block.text).trans (congrArg some hread))
  exact haccepted.isNumber.no_slash

theorem cutAt_segmentText (rung : Rung) :
    cutAt '-' (segmentText rung) = some (catalogToken rung.1, rung.2) := by
  refine cutAt_eq_some.mpr ⟨rfl, ?_⟩
  cases rung.1 <;> decide

theorem catalogToken_injective : Function.Injective catalogToken := by
  intro a b h
  cases a <;> cases b <;> first | rfl | exact absurd h (by decide)

theorem segmentText_injective : Function.Injective segmentText := by
  intro a b h
  have hcut := congrArg (cutAt '-') h
  rw [cutAt_segmentText, cutAt_segmentText] at hcut
  obtain ⟨htoken, hnumber⟩ := Prod.ext_iff.mp (Option.some.inj hcut)
  exact Prod.ext (catalogToken_injective htoken) hnumber

theorem segmentText_no_slash {rung : Rung} (h : '/' ∉ rung.2) : '/' ∉ segmentText rung := by
  have htoken : '/' ∉ catalogToken rung.1 := by
    cases rung.1 <;> decide
  simp [segmentText, htoken, h]

/-- The segments of a path are read back from it. -/
theorem splitOn_segments {segments : List Rung} (h : ∀ rung ∈ segments, '/' ∉ rung.2)
    (hne : segments ≠ []) :
    (['/'].intercalate (segments.map segmentText)).splitOn '/' = segments.map segmentText := by
  refine List.splitOn_intercalate '/' (fun text htext => ?_) (by simpa using hne)
  obtain ⟨rung, hrung, rfl⟩ := List.mem_map.mp htext
  exact segmentText_no_slash (h rung hrung)

/-- The count of the slashes is that of the segments. -/
theorem ladderPath_eq {ladder : List Rung} (h : ∀ rung ∈ ladder, '/' ∉ rung.2) :
    ladderPath ladder = pathOf (ladder.reverse.filter fun rung => !isContainerLevel rung.1) := by
  unfold ladderPath pathOf
  have hsegments : ∀ rung ∈ ladder.reverse.filter (fun rung => !isContainerLevel rung.1),
      '/' ∉ rung.2 := fun rung hrung =>
    h rung (List.mem_reverse.mp (List.mem_of_mem_filter hrung))
  by_cases hne : ladder.reverse.filter (fun rung => !isContainerLevel rung.1) = []
  · rw [hne]
    rfl
  · dsimp only
    rw [splitOn_segments hsegments hne, List.length_map]

/-- Two lists of segments with one path are the same list. -/
theorem pathOf_unique {a b : List Rung} {path : List Char} (ha : ∀ rung ∈ a, '/' ∉ rung.2)
    (hb : ∀ rung ∈ b, '/' ∉ rung.2) (hpath : pathOf a = some path) (hpath' : pathOf b = some path) :
    a = b := by
  unfold pathOf at hpath hpath'
  split_ifs at hpath hpath' with hlen hlen'
  have hne : a ≠ [] := List.length_pos_iff.mp (by omega)
  have hne' : b ≠ [] := List.length_pos_iff.mp (by omega)
  have hsplit := congrArg (List.splitOn '/') (Option.some.inj (hpath.trans hpath'.symm))
  rw [splitOn_segments ha hne, splitOn_segments hb hne'] at hsplit
  exact segmentText_injective.list_map hsplit

/-! ## The loop -/

/-- The loop meets the hits. -/
theorem extractHierarchyCandidates_eq (blocks : List ParsedBlock) :
    extractHierarchyCandidates blocks =
      ((hits blocks).foldl Extraction.step Extraction.start).report := by
  unfold extractHierarchyCandidates hits
  rw [List.foldl_filterMap, List.foldl_filter]
  congr 2
  funext s block
  by_cases hcomment : block.style = .providerComment
  · simp [hcomment]
  · rw [if_neg hcomment, if_pos (by simpa using hcomment)]
    cases hierarchyOf block.text <;> rfl

/-- The path of a hit on the ladder that the hits in front of it have left. -/
theorem ladderPath_push {nodes : List HierarchyNode} {node : HierarchyNode}
    (h : ∀ other ∈ nodes ++ [node], '/' ∉ (rungOf other).2) :
    ladderPath (push depth (openAfter depth (nodes.map rungOf)) (rungOf node)) =
      pathOf (ladderOf nodes node) := by
  rw [ladderPath_eq, push, stillOpen_openAfter]
  · rfl
  · intro rung hrung
    rw [← openAfter_concat, ← List.map_singleton, ← List.map_append] at hrung
    obtain ⟨other, hother, rfl⟩ := List.mem_map.mp (openAfter_subset _ hrung)
    exact h other hother

/-- The key of a candidate among the keys that were seen. -/
def isAt (c : HierarchyCandidate) (seen : DecodeLevel × List Char × Nat) : Bool :=
  seen.1 = c.level && seen.2.1 = c.keyPath

/-- A search in the keys that were seen. -/
theorem find?_seen (es : List HierarchyCandidate) (c : HierarchyCandidate) :
    ((places HierarchyCandidate.key es).map seenAt).find? (isAt c) =
      ((places HierarchyCandidate.key es).find? (·.1 = c.key)).map seenAt := by
  rw [List.find?_map]
  congr 2
  funext place
  rw [Bool.eq_iff_iff]
  simp only [Function.comp_apply, isAt, seenAt, HierarchyCandidate.key, Prod.ext_iff, Bool.and_eq_true]
  exact (and_congr decide_eq_true_iff decide_eq_true_iff).trans decide_eq_true_iff.symm

section Step

variable {s : Extraction} {front : List HierarchyNode} {node : HierarchyNode}

/-- A hit whose key was seen leaves a diagnostic. -/
theorem step_of_seen {level : DecodeLevel} {keyPath : List Char} {firstIndex : Nat}
    (hpath : ladderPath (push depth s.ladder (rungOf node)) = pathOf (ladderOf front node))
    (hseen : s.seen.find? (isAt (candidateOf front node)) = some (level, keyPath, firstIndex)) :
    s.step node = ⟨push depth s.ladder (rungOf node), s.seen, s.report.candidates,
      s.report.diagnostics ++
        [diagnosticOf (candidateOf front node, firstIndex, s.report.extracted)],
      s.report.extracted + 1⟩ := by
  unfold candidateOf at hseen ⊢
  rw [← hpath] at hseen ⊢
  unfold Extraction.step
  unfold isAt rungOf at hseen
  simp only [hseen]
  rfl

/-- A hit with a new key is a candidate. -/
theorem step_of_new
    (hpath : ladderPath (push depth s.ladder (rungOf node)) = pathOf (ladderOf front node))
    (hseen : s.seen.find? (isAt (candidateOf front node)) = none) :
    s.step node = ⟨push depth s.ladder (rungOf node),
      s.seen ++ [seenAt ((candidateOf front node).key, s.report.extracted)],
      s.report.candidates ++ [candidateOf front node], s.report.diagnostics,
      s.report.extracted + 1⟩ := by
  unfold candidateOf at hseen ⊢
  rw [← hpath] at hseen ⊢
  unfold Extraction.step
  unfold isAt rungOf at hseen
  simp only [hseen]
  rfl

end Step

/-- What the loop has after some hits: the stack of the open ones, and of each key the first. -/
def stateAfter (nodes : List HierarchyNode) : Extraction :=
  ⟨openAfter depth (nodes.map rungOf), (places HierarchyCandidate.key (entries nodes)).map seenAt,
    ⟨firsts HierarchyCandidate.key (entries nodes),
      (repeatedAt HierarchyCandidate.key (entries nodes)).map diagnosticOf, nodes.length⟩⟩

theorem step_stateAfter {nodes : List HierarchyNode} {node : HierarchyNode}
    (h : ∀ other ∈ nodes ++ [node], '/' ∉ (rungOf other).2) :
    (stateAfter nodes).step node = stateAfter (nodes ++ [node]) := by
  have hpath : ladderPath (push depth (stateAfter nodes).ladder (rungOf node)) =
      pathOf (ladderOf nodes node) := ladderPath_push h
  have hfind : (stateAfter nodes).seen.find? (isAt (candidateOf nodes node)) = _ :=
    find?_seen (entries nodes) (candidateOf nodes node)
  rw [find?_places] at hfind
  have hafter : stateAfter (nodes ++ [node]) = ⟨push depth (stateAfter nodes).ladder (rungOf node),
      (places HierarchyCandidate.key (entries nodes ++ [candidateOf nodes node])).map seenAt,
      ⟨firsts HierarchyCandidate.key (entries nodes ++ [candidateOf nodes node]),
        (repeatedAt HierarchyCandidate.key (entries nodes ++ [candidateOf nodes node])).map diagnosticOf,
        nodes.length + 1⟩⟩ := by
    unfold stateAfter
    rw [entries_concat, List.map_append, List.map_singleton, openAfter_concat, List.length_append,
      List.length_singleton]
  rw [hafter, firsts_concat, repeatedAt_concat, places_concat, List.map_append, List.map_append,
    length_entries]
  split_ifs at hfind ⊢ with hold
  · rw [step_of_seen hpath hfind, List.map_nil, List.append_nil, List.append_nil]
    rfl
  · rw [step_of_new hpath hfind, List.map_nil, List.append_nil]
    rfl

theorem foldl_step {nodes : List HierarchyNode} (h : ∀ node ∈ nodes, '/' ∉ (rungOf node).2) :
    nodes.foldl Extraction.step Extraction.start = stateAfter nodes := by
  induction nodes using List.reverseRecOn with
  | nil => rfl
  | append_singleton nodes node ih =>
    rw [List.foldl_append, ih fun other hother => h other (List.mem_append_left _ hother)]
    exact step_stateAfter h

/-! ## The report -/

/-- The report of the hits of a document. -/
structure Reports (nodes : List HierarchyNode) (report : HierarchyCandidateReport) : Prop where
  counted : report.extracted = report.candidates.length + report.diagnostics.length
  extracted : report.extracted = nodes.length
  candidates : report.candidates = firsts HierarchyCandidate.key (entries nodes)
  distinct : (report.candidates.map HierarchyCandidate.key).Nodup
  diagnostics : ∀ level keyPath i j,
    .duplicateKey level keyPath i j ∈ report.diagnostics → i < j ∧
      (∃ first ∈ report.candidates, (entries nodes)[i]? = some first ∧
        first.key = (level, keyPath) ∧
        first.key ∉ ((entries nodes).take i).map HierarchyCandidate.key) ∧
      ∃ later, (entries nodes)[j]? = some later ∧ later.key = (level, keyPath)
  paths : ∀ a ∈ withFront nodes, ∀ b ∈ withFront nodes, ∀ path,
    (candidateOf a.1 a.2).path = some path → (candidateOf b.1 b.2).path = some path →
      ladderOf a.1 a.2 = ladderOf b.1 b.2

/-- The segments of a hit are hits. -/
theorem ladderOf_subset {front : List HierarchyNode} {node : HierarchyNode} {rung : Rung}
    (h : rung ∈ ladderOf front node) : ∃ hit ∈ front ++ [node], rungOf hit = rung := by
  rw [ladderOf, ← stillOpen_openAfter] at h
  have hmem := List.mem_reverse.mp (List.mem_of_mem_filter h)
  rcases List.mem_cons.mp hmem with rfl | hopen
  · exact ⟨node, by simp, rfl⟩
  · have hfront := openAfter_subset _ ((List.dropWhile_sublist _).subset hopen)
    obtain ⟨hit, hhit, rfl⟩ := List.mem_map.mp hfront
    exact ⟨hit, List.mem_append_left _ hhit, rfl⟩

theorem ladderOf_no_slash {nodes : List HierarchyNode} (h : ∀ node ∈ nodes, '/' ∉ (rungOf node).2)
    {item : List HierarchyNode × HierarchyNode} (hitem : item ∈ withFront nodes) :
    ∀ rung ∈ ladderOf item.1 item.2, '/' ∉ rung.2 := by
  intro rung hrung
  obtain ⟨hit, hhit, rfl⟩ := ladderOf_subset hrung
  obtain ⟨i, hi, hfront⟩ := mem_withFront.mp hitem
  rw [hfront, List.mem_append, List.mem_singleton] at hhit
  rcases hhit with hhit | rfl
  · exact h hit (List.mem_of_mem_take hhit)
  · exact h _ (List.mem_of_getElem? hi)

/-- The extraction of every document: the first hit of each key under its path, and the other ones
as repeats of these. -/
theorem extractHierarchyCandidates_reports (blocks : List ParsedBlock) :
    Reports (hits blocks) (extractHierarchyCandidates blocks) := by
  have hreport : extractHierarchyCandidates blocks = (stateAfter (hits blocks)).report := by
    rw [extractHierarchyCandidates_eq, foldl_step hits_no_slash]
  rw [hreport]
  refine ⟨?_, rfl, rfl, nodup_firsts _, fun level keyPath i j hmem => ?_,
    fun a ha b hb path hpath hpath' => ?_⟩
  · dsimp only [stateAfter]
    rw [List.length_map, length_firsts_add, length_entries]
  · obtain ⟨⟨later, i, j⟩, hrepeat, heq⟩ := List.mem_map.mp hmem
    cases heq
    obtain ⟨hlater, hlt, first, hfirst, hkey, hnew⟩ := mem_repeatedAt hrepeat
    exact ⟨hlt, ⟨first, mem_firsts.mpr ⟨i, hfirst, hnew⟩, hfirst, hkey, hnew⟩, later, hlater, rfl⟩
  · exact pathOf_unique (ladderOf_no_slash hits_no_slash ha) (ladderOf_no_slash hits_no_slash hb)
      hpath hpath'

end LawNexus.Markers
