import LawNexus.Ontology.Identity

/-!
# The growth in two parts

`grow_identity` over one list of snapshots, and over another one with the map that the first
leaves. Lookup, minting and registering each test a key, and no prefix of a run makes them
disagree.
-/

namespace LawNexus

open Loops

/-! ## The counters -/

/-- A report whose counters go on from those of another one. -/
def IdentityGrowthReport.after (base report : IdentityGrowthReport) : IdentityGrowthReport :=
  ⟨report.map, base.minted + report.minted, base.reused + report.reused,
    base.skipped + report.skipped⟩

/-- The body of the loop reads the map only. -/
theorem growMarker_after (mintLevels : List String) (base report : IdentityGrowthReport)
    (marker : HierarchyMarker) : growMarker mintLevels (base.after report) marker =
      (growMarker mintLevels report marker).map base.after := by
  unfold growMarker
  by_cases hwork : marker.workId.isNone = true
  · rw [if_pos hwork, if_pos hwork]
    rfl
  rw [if_neg hwork, if_neg hwork]
  by_cases hlevel : marker.level.val ∉ mintLevels
  · rw [if_pos hlevel, if_pos hlevel]
    rfl
  rw [if_neg hlevel, if_neg hlevel]
  have hmap : (base.after report).map = report.map := rfl
  rw [hmap]
  cases mapHierarchyMarker report.map marker with
  | bound component => rfl
  | unknown =>
    cases mintWalkIComponentId marker with
    | error e => rfl
    | ok component =>
      dsimp only
      cases HierarchyBinding.tryNewWithPath marker.workId marker.level.val marker.number.val
        (marker.path.map (·.val)) component with
      | error e => rfl
      | ok binding =>
        dsimp only
        cases report.map.register binding with
        | error e => rfl
        | ok map => rfl

theorem growIdentity_append (map : HierarchyMap) (before rest : List IdentitySnapshot)
    (mintLevels : List String) : growIdentity map (before ++ rest) mintLevels = (do
      let first ← growIdentity map before mintLevels
      let second ← growIdentity first.map rest mintLevels
      return first.after second) := by
  simp only [growIdentity_eq, allMarkers, List.flatMap_append, List.foldlM_append]
  refine bind_congr fun first => ?_
  exact foldlM_hom (growMarker_after mintLevels first) _ ⟨first.map, 0, 0, 0⟩

/-! ## One part -/

/-- What some markers make of a map: bindings are only added, one for each minted id, and each
marker is counted once. -/
structure GrowsBy (map : HierarchyMap) (markers : List HierarchyMarker)
    (report : IdentityGrowthReport) : Prop where
  added : ∃ fresh, report.map.bindings = map.bindings ++ fresh ∧ fresh.length = report.minted
  counted : report.minted + report.reused + report.skipped = markers.length

theorem GrowsBy.step {mintLevels : List String} {map : HierarchyMap}
    {markers : List HierarchyMarker} {report report' : IdentityGrowthReport}
    {marker : HierarchyMarker} (h : GrowsBy map markers report)
    (hgrow : growMarker mintLevels report marker = .ok report') :
    GrowsBy map (markers ++ [marker]) report' := by
  obtain ⟨⟨fresh, hbindings, hfresh⟩, hcounted⟩ := h
  rcases growMarker_cases hgrow with
    ⟨-, rfl⟩ | ⟨-, -, rfl⟩ | ⟨-, -, component, grown, -, hgrown, rfl⟩
  · refine ⟨⟨fresh, hbindings, hfresh⟩, ?_⟩
    rw [List.length_append, List.length_singleton, ← hcounted]
    exact (Nat.add_assoc _ _ _).symm
  · refine ⟨⟨fresh, hbindings, hfresh⟩, ?_⟩
    rw [List.length_append, List.length_singleton, ← hcounted]
    dsimp only
    omega
  · refine ⟨⟨fresh ++ [⟨marker.workId, marker.level, marker.number, marker.path, component⟩], ?_,
      by rw [List.length_append, List.length_singleton, hfresh]⟩, ?_⟩
    · rw [hgrown, hbindings, List.append_assoc]
    · rw [List.length_append, List.length_singleton, ← hcounted]
      dsimp only
      omega

theorem growsBy_growIdentity {map : HierarchyMap} {snapshots : List IdentitySnapshot}
    {mintLevels : List String} {report : IdentityGrowthReport}
    (h : growIdentity map snapshots mintLevels = .ok report) :
    GrowsBy map (allMarkers snapshots) report := by
  rw [growIdentity_eq] at h
  exact foldlM_fronts (GrowsBy map) ⟨⟨[], (List.append_nil _).symm, rfl⟩, rfl⟩ GrowsBy.step h

/-- A bound marker stays bound to its component. -/
theorem mapHierarchyMarker_of_prefix {map grown : HierarchyMap} {marker : HierarchyMarker}
    {component : ComponentConceptId} (hgrown : map.bindings <+: grown.bindings)
    (h : mapHierarchyMarker map marker = .bound component) :
    mapHierarchyMarker grown marker = .bound component := by
  obtain ⟨fresh, hbindings⟩ := hgrown
  unfold mapHierarchyMarker at h ⊢
  rw [← hbindings, List.find?_append]
  cases hfind : map.bindings.find? fun item =>
      item.workId = marker.workId ∧ item.level = marker.level ∧ item.keyPath = marker.keyPath with
  | none =>
    rw [hfind] at h
    exact nomatch h
  | some binding =>
    rw [hfind] at h
    exact h

/-! ## Two parts -/

/-- The report of the whole, from the reports of its two parts. -/
structure Composed (map : HierarchyMap) (before rest : List IdentitySnapshot)
    (first second whole : IdentityGrowthReport) : Prop where
  finalMap : whole.map = second.map
  minted : whole.minted = first.minted + second.minted
  reused : whole.reused = first.reused + second.reused
  skipped : whole.skipped = first.skipped + second.skipped
  keepsFirst : ∀ marker component, mapHierarchyMarker map marker = .bound component →
    mapHierarchyMarker first.map marker = .bound component
  keepsWhole : ∀ marker component, mapHierarchyMarker first.map marker = .bound component →
    mapHierarchyMarker whole.map marker = .bound component
  bindings : map.bindings <+: first.map.bindings ∧ first.map.bindings <+: whole.map.bindings
  grown : whole.map.bindings.length = map.bindings.length + whole.minted
  counted : whole.minted + whole.reused + whole.skipped = (allMarkers (before ++ rest)).length

theorem growIdentity_composes {map : HierarchyMap} {before rest : List IdentitySnapshot}
    {mintLevels : List String} {whole : IdentityGrowthReport}
    (h : growIdentity map (before ++ rest) mintLevels = .ok whole) :
    ∃ first second, growIdentity map before mintLevels = .ok first ∧
      growIdentity first.map rest mintLevels = .ok second ∧
      Composed map before rest first second whole := by
  have hwhole := growsBy_growIdentity h
  rw [growIdentity_append] at h
  obtain ⟨first, hfirst, h⟩ := bind_eq_ok_iff.mp h
  obtain ⟨second, hsecond, h⟩ := bind_eq_ok_iff.mp h
  obtain rfl := Except.ok.inj h
  obtain ⟨fresh, hbindings, -⟩ := (growsBy_growIdentity hfirst).added
  obtain ⟨fresh', hbindings', -⟩ := (growsBy_growIdentity hsecond).added
  have hbefore : map.bindings <+: first.map.bindings := ⟨fresh, hbindings.symm⟩
  have hafter : first.map.bindings <+: second.map.bindings := ⟨fresh', hbindings'.symm⟩
  obtain ⟨all, hall, hlength⟩ := hwhole.added
  exact ⟨first, second, hfirst, hsecond, {
    finalMap := rfl
    minted := rfl
    reused := rfl
    skipped := rfl
    keepsFirst := fun _ _ => mapHierarchyMarker_of_prefix hbefore
    keepsWhole := fun _ _ => mapHierarchyMarker_of_prefix hafter
    bindings := ⟨hbefore, hafter⟩
    grown := by rw [hall, List.length_append, hlength]
    counted := hwhole.counted }⟩

/-- The two ladders twice: the second time their components are found again. -/
theorem growIdentity_composes_ladders :
    ∃ whole, growIdentity .empty (Sample.ladders ++ Sample.ladders) ["punkt"] = .ok whole ∧
      ∃ first second, growIdentity .empty Sample.ladders ["punkt"] = .ok first ∧
        growIdentity first.map Sample.ladders ["punkt"] = .ok second ∧
        Composed .empty Sample.ladders Sample.ladders first second whole := by
  have hsome : (growIdentity .empty (Sample.ladders ++ Sample.ladders)
      ["punkt"]).toOption.isSome = true := by decide
  cases h : growIdentity .empty (Sample.ladders ++ Sample.ladders) ["punkt"] with
  | error e => simp [h, Except.toOption] at hsome
  | ok whole => exact ⟨whole, rfl, growIdentity_composes h⟩

end LawNexus
