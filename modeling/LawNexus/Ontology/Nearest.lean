import LawNexus.Ontology.Propose

/-!
# The parent of a proposal

The stack of `propose_membership_from_markers` against the nearest earlier marker of a lower rank.
-/

namespace LawNexus

open Loops Nesting

/-- The position of the level, then the depth. -/
def markerRank (marker : HierarchyMarker) : ProposeRank :=
  toLex (hierarchyLevels.idxOf marker.level.val, marker.depth)

theorem proposeRank_marker (marker : HierarchyMarker) :
    proposeRank marker.level.val marker.depth = some (markerRank marker) := by
  have hranks : ∀ level ∈ hierarchyLevels,
      hierarchyLevels.idxOf? level = some (hierarchyLevels.idxOf level) := by decide
  rw [proposeRank, hierarchyLevelRank, hranks _ marker.level.property]
  rfl

section

variable (map : HierarchyMap)

/-- The bound markers, by rank and component. -/
def boundItems (markers : List HierarchyMarker) : List (ProposeRank × ComponentConceptId) :=
  markers.filterMap fun marker => (boundTo map marker).map fun component =>
    (markerRank marker, component)

/-- The proposals, where the parent of an item is the nearest one of a lower rank. -/
def nearestProposals (items : List (ProposeRank × ComponentConceptId)) : List MembershipProposal :=
  (withFront items).filterMap fun (front, item) =>
    (nearestLower (·.1) front item.1).map fun parent => ⟨parent.2, item.2⟩

def countRoots (items : List (ProposeRank × ComponentConceptId)) : Nat :=
  (withFront items).countP fun (front, item) => (nearestLower (·.1) front item.1).isNone

def countUnbound (markers : List HierarchyMarker) : Nat :=
  markers.countP fun marker => (boundTo map marker).isNone

end

/-- What the loop holds after these markers. -/
def stateAfter (map : HierarchyMap) (markers : List HierarchyMarker) : ProposeState where
  stack := openAfter (·.1) (boundItems map markers)
  report := ⟨nearestProposals (boundItems map markers), countUnbound map markers,
    countRoots (boundItems map markers)⟩

theorem proposeStep_stateAfter (map : HierarchyMap) (markers : List HierarchyMarker)
    (marker : HierarchyMarker) :
    proposeStep map (stateAfter map markers) marker = .ok (stateAfter map (markers ++ [marker])) := by
  unfold proposeStep
  rw [proposeRank_marker]
  dsimp only
  cases hmap : mapHierarchyMarker map marker with
  | unknown =>
    have hbound : boundTo map marker = none := by rw [boundTo, hmap]; rfl
    have hitems : boundItems map (markers ++ [marker]) = boundItems map markers := by
      simp [boundItems, hbound]
    have hcount : countUnbound map (markers ++ [marker]) = countUnbound map markers + 1 := by
      simp [countUnbound, hbound]
    rw [stateAfter, stateAfter, hitems, hcount]
    rfl
  | bound component =>
    have hbound : boundTo map marker = some component := by rw [boundTo, hmap]; rfl
    have hitems : boundItems map (markers ++ [marker]) =
        boundItems map markers ++ [(markerRank marker, component)] := by
      simp [boundItems, hbound]
    have hcount : countUnbound map (markers ++ [marker]) = countUnbound map markers := by
      simp [countUnbound, hbound]
    dsimp only
    rw [stateAfter, stateAfter, hitems, hcount, ProposeState.place, openAfter_concat]
    dsimp only
    rw [head?_stillOpen, nearestProposals, nearestProposals, countRoots, countRoots,
      withFront_concat, List.filterMap_append, List.countP_append]
    cases hnearest : nearestLower (·.1) (boundItems map markers) (markerRank marker) with
    | none => simp [hnearest]
    | some parent => simp [hnearest]

theorem foldlM_proposeStep (map : HierarchyMap) (markers : List HierarchyMarker) :
    markers.foldlM (proposeStep map) .start = .ok (stateAfter map markers) := by
  induction markers using List.reverseRecOn with
  | nil => rfl
  | append_singleton markers marker ih =>
    rw [List.foldlM_append, ih, ok_bind, List.foldlM_cons, proposeStep_stateAfter]
    rfl

theorem proposeMembershipFromMarkers_eq (map : HierarchyMap) (markers : List HierarchyMarker) :
    proposeMembershipFromMarkers map markers = .ok (stateAfter map markers).report := by
  rw [proposeMembershipFromMarkers, foldlM_proposeStep]
  rfl

/-- A proposal for each item, but for the roots. -/
theorem length_nearestProposals (items : List (ProposeRank × ComponentConceptId)) :
    (nearestProposals items).length + countRoots items = items.length := by
  rw [← length_withFront items, nearestProposals, countRoots]
  generalize withFront items = fronts
  induction fronts with
  | nil => rfl
  | cons front fronts ih =>
    rw [List.length_cons, ← ih]
    cases hnearest : nearestLower (·.1) front.1 front.2.1 with
    | none => simp [hnearest, Nat.add_assoc]
    | some parent => simp [hnearest, Nat.add_right_comm]

theorem length_boundItems (map : HierarchyMap) (markers : List HierarchyMarker) :
    (boundItems map markers).length + countUnbound map markers = markers.length := by
  induction markers with
  | nil => rfl
  | cons marker markers ih =>
    rw [List.length_cons, ← ih, boundItems, boundItems, countUnbound, countUnbound]
    cases hbound : boundTo map marker with
    | none => simp [hbound, Nat.add_assoc]
    | some component => simp [hbound, Nat.add_right_comm]

theorem boundItems_filter (map : HierarchyMap) (markers : List HierarchyMarker) :
    boundItems map (markers.filter fun marker => (boundTo map marker).isSome) =
      boundItems map markers := by
  rw [boundItems, boundItems, List.filterMap_filter]
  refine List.filterMap_congr fun marker _ => ?_
  cases hbound : boundTo map marker <;> simp

/-- Each bound marker is proposed under the nearest earlier one of a lower rank, or is a root. Every
other one is quarantined, and makes no difference to the proposals. -/
theorem propose_nearest (map : HierarchyMap) (markers : List HierarchyMarker) :
    ∃ report, proposeMembershipFromMarkers map markers = .ok report ∧
      report.proposals = nearestProposals (boundItems map markers) ∧
      report.forestRoots = countRoots (boundItems map markers) ∧
      report.quarantined = countUnbound map markers ∧
      report.proposals.length + report.forestRoots + report.quarantined = markers.length ∧
      (proposeMembershipFromMarkers map
        (markers.filter fun marker => (boundTo map marker).isSome)).map (·.proposals) =
          .ok report.proposals := by
  refine ⟨_, proposeMembershipFromMarkers_eq map markers, rfl, rfl, rfl, ?_, ?_⟩
  · rw [← length_boundItems map markers, ← length_nearestProposals]
    rfl
  · rw [proposeMembershipFromMarkers_eq]
    exact congrArg (fun items => Except.ok (nearestProposals items)) (boundItems_filter map markers)

end LawNexus
