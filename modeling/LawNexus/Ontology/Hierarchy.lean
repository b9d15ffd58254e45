import LawNexus.Ids
import LawNexus.Texts
import Mathlib.Data.List.Nodup

/-!
# Hierarchy markers and their registry

The markers of a decoded document, and the map from the key of a marker to its component:
the hierarchy part of `ln-kb-ontology/src/domain.rs`.
-/

namespace LawNexus

open Texts

inductive WriteSetError
  | forbiddenKind (kind : String)
  | missingIdentity
  | unknownNotWritable
  | presenceConflict
  | missingProvenance
  | hierarchyMapConflict
  | unknownHierarchyLevel
  | unknownFsmTransition
  | unknownNodeKind
  | unknownEdgeKind
  | unknownPresenceKind
  | unknownDocumentGroup
deriving DecidableEq, Repr

/-! ## Levels, numbers and paths -/

/-- `vocabulary.hierarchy_levels` of `kb-ontology.yaml`. -/
def hierarchyLevels : List String :=
  ["razdel", "glava", "paragraph", "statya", "chast", "punkt", "podpunkt"]

abbrev HierarchyLevel := { level : String // level ∈ hierarchyLevels }

def catalogLevel (level : String) : Except WriteSetError HierarchyLevel :=
  if h : trim level ∈ hierarchyLevels then .ok ⟨trim level, h⟩
  else .error .unknownHierarchyLevel

/-- What the checks of a number and of a path leave: a text without blanks around it. -/
abbrev TrimmedText := { text : String // trim text = text ∧ text ≠ "" }

def trimmedText (value : String) : Except WriteSetError TrimmedText :=
  if h : trim value = "" then .error .missingIdentity else .ok ⟨trim value, trim_trim value, h⟩

def trimmedPath : Option String → Except WriteSetError (Option TrimmedText)
  | none => .ok none
  | some value =>
    match trimmedText value with
    | .error e => .error e
    | .ok path => .ok (some path)

theorem catalogLevel_val (level : HierarchyLevel) : catalogLevel level.val = .ok level := by
  have htrim : ∀ l ∈ hierarchyLevels, trim l = l := by decide
  obtain ⟨level, hlevel⟩ := level
  simp only [catalogLevel, htrim level hlevel, hlevel, dif_pos]

theorem trimmedText_val (text : TrimmedText) : trimmedText text.val = .ok text := by
  obtain ⟨text, htrim, hne⟩ := text
  simp only [trimmedText, htrim, hne, dif_neg, not_false_eq_true]

theorem trimmedPath_val (path : Option TrimmedText) :
    trimmedPath (path.map (·.val)) = .ok path := by
  cases path with
  | none => rfl
  | some path =>
    have hpath := trimmedText_val path
    simp only [trimmedPath, Option.map_some, hpath]

/-! ## Markers -/

structure HierarchyMarker where
  workId : Option String
  level : HierarchyLevel
  number : TrimmedText
  path : Option TrimmedText
  title : Option String
deriving DecidableEq, Repr

/-- The work id, the level and the key path. -/
abbrev HierarchyKey := Option String × HierarchyLevel × String

namespace HierarchyMarker

def tryNewWithPath (workId : Option String) (level number : String)
    (path title : Option String) : Except WriteSetError HierarchyMarker :=
  match trimmedText number with
  | .error e => .error e
  | .ok number =>
    if title.any fun value => trim value = "" then .error .missingIdentity
    else match trimmedPath path with
      | .error e => .error e
      | .ok path =>
        match catalogLevel level with
        | .error e => .error e
        | .ok level => .ok ⟨workId, level, number, path, title⟩

def tryNew (workId : Option String) (level number : String) (title : Option String) :
    Except WriteSetError HierarchyMarker :=
  tryNewWithPath workId level number none title

def keyPath (marker : HierarchyMarker) : String := (marker.path.getD marker.number).val

def key (marker : HierarchyMarker) : HierarchyKey :=
  (marker.workId, marker.level, marker.keyPath)

end HierarchyMarker

/-! ## Bindings -/

structure HierarchyBinding where
  workId : Option String
  level : HierarchyLevel
  number : TrimmedText
  path : Option TrimmedText
  component : ComponentConceptId
deriving DecidableEq, Repr

namespace HierarchyBinding

def tryNewWithPath (workId : Option String) (level number : String) (path : Option String)
    (component : ComponentConceptId) : Except WriteSetError HierarchyBinding :=
  match trimmedText number with
  | .error e => .error e
  | .ok number =>
    if component.asStr.isEmpty then .error .missingIdentity
    else match trimmedPath path with
      | .error e => .error e
      | .ok path =>
        match catalogLevel level with
        | .error e => .error e
        | .ok level => .ok ⟨workId, level, number, path, component⟩

def tryNew (workId : Option String) (level number : String) (component : ComponentConceptId) :
    Except WriteSetError HierarchyBinding :=
  tryNewWithPath workId level number none component

def keyPath (binding : HierarchyBinding) : String := (binding.path.getD binding.number).val

def key (binding : HierarchyBinding) : HierarchyKey :=
  (binding.workId, binding.level, binding.keyPath)

/-- The binding of a marker is accepted: a marker has passed the same checks. -/
theorem tryNewWithPath_marker (marker : HierarchyMarker) (component : ComponentConceptId) :
    tryNewWithPath marker.workId marker.level.val marker.number.val
        (marker.path.map (·.val)) component =
      .ok ⟨marker.workId, marker.level, marker.number, marker.path, component⟩ := by
  simp only [tryNewWithPath, trimmedText_val, trimmedPath_val, catalogLevel_val,
    component.not_isEmpty, Bool.false_eq_true, if_false]

end HierarchyBinding

def sameKey (left right : HierarchyBinding) : Bool :=
  left.workId = right.workId ∧ left.level = right.level ∧ left.keyPath = right.keyPath

theorem sameKey_iff {left right : HierarchyBinding} :
    sameKey left right = true ↔ left.key = right.key := by
  simp [sameKey, HierarchyBinding.key]

/-! ## The registry -/

/-- The registry keeps one binding for each key. -/
structure HierarchyMap where
  bindings : List HierarchyBinding
  oneEach : (bindings.map (·.key)).Nodup

inductive HierarchyMapOutcome
  | bound (component : ComponentConceptId)
  | unknown
deriving DecidableEq, Repr

namespace HierarchyMap

def empty : HierarchyMap := ⟨[], .nil⟩

theorem oneEach_push (map : HierarchyMap) {binding : HierarchyBinding}
    (h : map.bindings.find? (fun item => sameKey item binding) = none) :
    ((map.bindings ++ [binding]).map (·.key)).Nodup := by
  rw [List.map_append, List.nodup_append]
  refine ⟨map.oneEach, List.nodup_singleton _, ?_⟩
  rintro k hk k' hk' rfl
  obtain ⟨item, hitem, rfl⟩ := List.mem_map.mp hk
  have hnot := List.find?_eq_none.mp h item hitem
  rw [sameKey_iff] at hnot
  exact hnot (by simpa using hk')

def register (map : HierarchyMap) (binding : HierarchyBinding) :
    Except WriteSetError HierarchyMap :=
  match h : map.bindings.find? fun item => sameKey item binding with
  | some existing =>
    if existing.component.asStr ≠ binding.component.asStr then .error .hierarchyMapConflict
    else .ok map
  | none => .ok ⟨map.bindings ++ [binding], map.oneEach_push h⟩

theorem register_new (map : HierarchyMap) (binding : HierarchyBinding)
    (h : ∀ item ∈ map.bindings, item.key ≠ binding.key) :
    ∃ map', map.register binding = .ok map' ∧ map'.bindings = map.bindings ++ [binding] := by
  have hnone : map.bindings.find? (fun item => sameKey item binding) = none := by
    rw [List.find?_eq_none]
    intro item hitem hsame
    exact h item hitem (sameKey_iff.mp hsame)
  refine ⟨⟨map.bindings ++ [binding], map.oneEach_push hnone⟩, ?_, rfl⟩
  unfold register
  split
  · rename_i existing hsome
    rw [hnone] at hsome
    exact absurd hsome (by simp)
  · rfl

end HierarchyMap

def mapHierarchyMarker (map : HierarchyMap) (marker : HierarchyMarker) : HierarchyMapOutcome :=
  match map.bindings.find? fun item =>
    item.workId = marker.workId ∧ item.level = marker.level ∧ item.keyPath = marker.keyPath with
  | some binding => .bound binding.component
  | none => .unknown

/-- A marker is unknown when its key has no binding. -/
theorem mapHierarchyMarker_unknown_iff {map : HierarchyMap} {marker : HierarchyMarker} :
    mapHierarchyMarker map marker = .unknown ↔ ∀ item ∈ map.bindings, item.key ≠ marker.key := by
  unfold mapHierarchyMarker
  cases hfind : map.bindings.find? fun item =>
      item.workId = marker.workId ∧ item.level = marker.level ∧ item.keyPath = marker.keyPath with
  | some binding =>
    have hkey : binding.key = marker.key := by
      simpa [HierarchyBinding.key, HierarchyMarker.key] using List.find?_some hfind
    simp only [reduceCtorEq, false_iff]
    exact fun hall => hall binding (List.mem_of_find?_eq_some hfind) hkey
  | none =>
    simpa [HierarchyBinding.key, HierarchyMarker.key] using hfind

end LawNexus
