import LawNexus.Loops
import LawNexus.Ontology.Hierarchy

/-!
# The growth of identity

`grow_identity`: the first marker of a key mints a component, later ones reuse it. The minted
id holds the last part of the work id, the level, and the key path with its slashes replaced.
The result is when two keys never get one component.
-/

namespace LawNexus

open Loops Texts

/-! ## Minting -/

def walkIWorkSlug (workId : String) : Except WriteSetError String :=
  if lastPart ':' workId = "" then .error .missingIdentity else .ok (lastPart ':' workId)

/-- The text that the id is parsed from. -/
def walkIRaw (slug level keyPath : String) : String :=
  "cc:walk:" ++ slug ++ ":" ++ level ++ "-" ++ replace '/' '-' keyPath

def mintWalkIComponentId (marker : HierarchyMarker) :
    Except WriteSetError ComponentConceptId :=
  match marker.workId with
  | none => .error .missingIdentity
  | some workId =>
    match walkIWorkSlug workId with
    | .error e => .error e
    | .ok slug =>
      match ComponentConceptId.parse (walkIRaw slug marker.level.val marker.keyPath) with
      | .error _ => .error .missingIdentity
      | .ok component => .ok component

/-! ## Growing -/

structure IdentitySnapshot where
  markers : List HierarchyMarker
deriving DecidableEq, Repr

structure IdentityGrowthReport where
  map : HierarchyMap
  minted : Nat
  reused : Nat
  skipped : Nat

/-- The body of the inner loop. The report is what the loop carries. -/
def growMarker (mintLevels : List String) (report : IdentityGrowthReport)
    (marker : HierarchyMarker) : Except WriteSetError IdentityGrowthReport :=
  if marker.workId.isNone then .error .missingIdentity
  else if marker.level.val ∉ mintLevels then .ok { report with skipped := report.skipped + 1 }
  else match mapHierarchyMarker report.map marker with
    | .bound _ => .ok { report with reused := report.reused + 1 }
    | .unknown =>
      match mintWalkIComponentId marker with
      | .error e => .error e
      | .ok component =>
        match HierarchyBinding.tryNewWithPath marker.workId marker.level.val marker.number.val
          (marker.path.map (·.val)) component with
        | .error e => .error e
        | .ok binding =>
          match report.map.register binding with
          | .error e => .error e
          | .ok map => .ok { report with map := map, minted := report.minted + 1 }

def growSnapshot (mintLevels : List String) (report : IdentityGrowthReport)
    (snapshot : IdentitySnapshot) : Except WriteSetError IdentityGrowthReport :=
  snapshot.markers.foldlM (growMarker mintLevels) report

def growIdentity (map : HierarchyMap) (snapshots : List IdentitySnapshot)
    (mintLevels : List String) : Except WriteSetError IdentityGrowthReport :=
  snapshots.foldlM (growSnapshot mintLevels) ⟨map, 0, 0, 0⟩

/-- The markers of all snapshots, in the order of the loops. -/
def allMarkers (snapshots : List IdentitySnapshot) : List HierarchyMarker :=
  snapshots.flatMap (·.markers)

theorem growIdentity_eq (map : HierarchyMap) (snapshots : List IdentitySnapshot)
    (mintLevels : List String) : growIdentity map snapshots mintLevels =
      (allMarkers snapshots).foldlM (growMarker mintLevels) ⟨map, 0, 0, 0⟩ := by
  have hloop : ∀ report, snapshots.foldlM (growSnapshot mintLevels) report =
      (allMarkers snapshots).foldlM (growMarker mintLevels) report := by
    induction snapshots with
    | nil => exact fun _ => rfl
    | cons snapshot rest ih =>
      intro report
      rw [allMarkers, List.flatMap_cons, List.foldlM_append, List.foldlM_cons]
      exact bind_congr ih
  exact hloop _

/-! ## The text of a minted id -/

section

variable {marker other : HierarchyMarker} {c : ComponentConceptId}

/-- The level has no hyphen, so the text can be taken apart again, up to the replacement. -/
theorem walkIRaw_inj {slug slug' : String} (hslug : ':' ∉ slug.toList)
    (hslug' : ':' ∉ slug'.toList) (level level' : HierarchyLevel) (keyPath keyPath' : String) :
    walkIRaw slug level.val keyPath = walkIRaw slug' level'.val keyPath' ↔
      slug = slug' ∧ level = level' ∧
        replace '/' '-' keyPath = replace '/' '-' keyPath' := by
  have hlevel : ∀ l ∈ hierarchyLevels, '-' ∉ l.toList := by decide
  have htext : ∀ (slug level key : String), (walkIRaw slug level key).toList =
      "cc:walk:".toList ++ (slug.toList ++ ':' :: (level.toList ++ '-' ::
        (replace '/' '-' key).toList)) := by
    intro slug level key
    simp [walkIRaw, String.toList_append]
  rw [← String.toList_inj, htext, htext, List.append_cancel_left_eq,
    append_cons_inj hslug hslug', append_cons_inj (hlevel _ level.2) (hlevel _ level'.2),
    String.toList_inj, String.toList_inj, String.toList_inj, Subtype.val_inj]

theorem mint_ok_iff : mintWalkIComponentId marker = .ok c ↔
    ∃ workId, marker.workId = some workId ∧ lastPart ':' workId ≠ "" ∧
      walkIRaw (lastPart ':' workId) marker.level.val marker.keyPath = c.asStr := by
  unfold mintWalkIComponentId walkIWorkSlug
  cases hwork : marker.workId with
  | none => simp
  | some workId =>
    by_cases hslug : lastPart ':' workId = ""
    · simp [hslug]
    · simp only [Option.some.injEq, exists_eq_left', ne_eq, hslug, not_false_eq_true, true_and,
        if_false]
      rw [← ComponentConceptId.parse_eq_ok_iff]
      cases ComponentConceptId.parse (walkIRaw (lastPart ':' workId) marker.level.val
        marker.keyPath) <;> simp

/-- What of its key a marker leaves in the text of its id. -/
def walkIKey (marker : HierarchyMarker) : Option String × HierarchyLevel × String :=
  (marker.workId.map (lastPart ':'), marker.level, replace '/' '-' marker.keyPath)

theorem walkIKey_congr (h : marker.key = other.key) : walkIKey marker = walkIKey other := by
  simp only [HierarchyMarker.key, Prod.mk.injEq] at h
  simp only [walkIKey, h]

/-- Two markers get one id exactly when their keys leave the same text. -/
theorem mint_same_iff (h : mintWalkIComponentId marker = .ok c) :
    mintWalkIComponentId other = .ok c ↔ walkIKey other = walkIKey marker := by
  obtain ⟨workId, hwork, hslug, hraw⟩ := mint_ok_iff.mp h
  rw [mint_ok_iff, ← hraw]
  simp only [walkIRaw_inj (not_mem_lastPart _ _) (not_mem_lastPart _ _), walkIKey, hwork,
    Prod.mk.injEq, Option.map_some, Option.map_eq_some_iff]
  constructor
  · rintro ⟨workId', hwork', -, hslugs, hrest⟩
    exact ⟨⟨workId', hwork', hslugs⟩, hrest⟩
  · rintro ⟨⟨workId', hwork', hslugs⟩, hrest⟩
    exact ⟨workId', hwork', hslugs ▸ hslug, hslugs, hrest⟩

end

/-! ## One marker -/

section

variable {mintLevels : List String} {report report' : IdentityGrowthReport}
  {marker : HierarchyMarker}

/-- All that the body of the loop can do when it does not fail. -/
theorem growMarker_cases (h : growMarker mintLevels report marker = .ok report') :
    (marker.level.val ∉ mintLevels ∧ report' = { report with skipped := report.skipped + 1 }) ∨
    (marker.level.val ∈ mintLevels ∧ (∃ item ∈ report.map.bindings, item.key = marker.key) ∧
      report' = { report with reused := report.reused + 1 }) ∨
    (marker.level.val ∈ mintLevels ∧ (∀ item ∈ report.map.bindings, item.key ≠ marker.key) ∧
      ∃ component map, mintWalkIComponentId marker = .ok component ∧
        map.bindings = report.map.bindings ++
          [⟨marker.workId, marker.level, marker.number, marker.path, component⟩] ∧
        report' = { report with map := map, minted := report.minted + 1 }) := by
  unfold growMarker at h
  by_cases hwork : marker.workId.isNone = true
  · rw [if_pos hwork] at h
    exact absurd h (by simp)
  rw [if_neg hwork] at h
  by_cases hlevel : marker.level.val ∉ mintLevels
  · rw [if_pos hlevel] at h
    exact Or.inl ⟨hlevel, (Except.ok.inj h).symm⟩
  rw [if_neg hlevel] at h
  rw [not_not] at hlevel
  cases hmap : mapHierarchyMarker report.map marker with
  | bound component =>
    rw [hmap] at h
    have hkey : ∃ item ∈ report.map.bindings, item.key = marker.key := by
      by_contra hno
      have hunknown := mapHierarchyMarker_unknown_iff.mpr fun item hitem heq =>
        hno ⟨item, hitem, heq⟩
      rw [hmap] at hunknown
      exact absurd hunknown (by simp)
    exact Or.inr (Or.inl ⟨hlevel, hkey, (Except.ok.inj h).symm⟩)
  | unknown =>
    have hfresh := mapHierarchyMarker_unknown_iff.mp hmap
    simp only [hmap, HierarchyBinding.tryNewWithPath_marker] at h
    cases hmint : mintWalkIComponentId marker with
    | error e =>
      simp only [hmint] at h
      exact absurd h (by simp)
    | ok component =>
      simp only [hmint] at h
      obtain ⟨map, hreg, hbindings⟩ := report.map.register_new
        ⟨marker.workId, marker.level, marker.number, marker.path, component⟩ hfresh
      simp only [hreg] at h
      exact Or.inr (Or.inr ⟨hlevel, hfresh, component, map, rfl, hbindings,
        (Except.ok.inj h).symm⟩)

end

/-! ## The theorem -/

/-- What the map has after these markers: each binding was minted for one of them, and each
of a minted level has a binding. -/
structure GrownFrom (mintLevels : List String) (markers : List HierarchyMarker)
    (map : HierarchyMap) : Prop where
  minted : ∀ item ∈ map.bindings, ∃ marker ∈ markers, marker.level.val ∈ mintLevels ∧
    marker.key = item.key ∧ mintWalkIComponentId marker = .ok item.component
  bound : ∀ marker ∈ markers, marker.level.val ∈ mintLevels →
    ∃ item ∈ map.bindings, item.key = marker.key

theorem GrownFrom.step {mintLevels : List String} {markers : List HierarchyMarker}
    {report report' : IdentityGrowthReport} {marker : HierarchyMarker}
    (h : GrownFrom mintLevels markers report.map)
    (hgrow : growMarker mintLevels report marker = .ok report') :
    GrownFrom mintLevels (markers ++ [marker]) report'.map := by
  have hminted : ∀ item ∈ report.map.bindings, ∃ m ∈ markers ++ [marker],
      m.level.val ∈ mintLevels ∧ m.key = item.key ∧
        mintWalkIComponentId m = .ok item.component := by
    intro item hitem
    obtain ⟨m, hm, hrest⟩ := h.minted item hitem
    exact ⟨m, List.mem_append_left _ hm, hrest⟩
  rcases growMarker_cases hgrow with
    ⟨hlevel, rfl⟩ | ⟨-, hkey, rfl⟩ | ⟨hlevel, -, component, map, hmint, hbindings, rfl⟩
  · refine ⟨hminted, fun m hm hmem => ?_⟩
    rcases List.mem_append.mp hm with hm | hm
    · exact h.bound m hm hmem
    · exact absurd (List.mem_singleton.mp hm ▸ hmem) hlevel
  · refine ⟨hminted, fun m hm hmem => ?_⟩
    rcases List.mem_append.mp hm with hm | hm
    · exact h.bound m hm hmem
    · exact List.mem_singleton.mp hm ▸ hkey
  · constructor
    · intro item hitem
      simp only [hbindings, List.mem_append, List.mem_singleton] at hitem
      rcases hitem with hitem | rfl
      · exact hminted item hitem
      · exact ⟨marker, by simp, hlevel, rfl, hmint⟩
    · intro m hm hmem
      simp only [hbindings]
      rcases List.mem_append.mp hm with hm | hm
      · obtain ⟨item, hitem, hkey⟩ := h.bound m hm hmem
        exact ⟨item, List.mem_append_left _ hitem, hkey⟩
      · exact ⟨_, List.mem_append_right _ List.mem_cons_self, List.mem_singleton.mp hm ▸ rfl⟩

theorem grownFrom_growIdentity {snapshots : List IdentitySnapshot} {mintLevels : List String}
    {report : IdentityGrowthReport}
    (h : growIdentity .empty snapshots mintLevels = .ok report) :
    GrownFrom mintLevels (allMarkers snapshots) report.map := by
  rw [growIdentity_eq] at h
  exact foldlM_fronts
    (fun markers (r : IdentityGrowthReport) => GrownFrom mintLevels markers r.map)
    ⟨by simp [HierarchyMap.empty], by simp⟩ GrownFrom.step h

/-- Different keys have different components exactly when no two markers of minted levels
have keys that differ only where the id drops something: in front of the last part of the
work id, or between a slash and a hyphen of the key path. -/
theorem grow_separates_iff {snapshots : List IdentitySnapshot} {mintLevels : List String}
    {report : IdentityGrowthReport}
    (h : growIdentity .empty snapshots mintLevels = .ok report) :
    (∀ a ∈ report.map.bindings, ∀ b ∈ report.map.bindings, a.key ≠ b.key →
      a.component ≠ b.component) ↔
    ∀ m ∈ allMarkers snapshots, ∀ n ∈ allMarkers snapshots,
      m.level.val ∈ mintLevels → n.level.val ∈ mintLevels → walkIKey m = walkIKey n →
        m.key = n.key := by
  have hgrown := grownFrom_growIdentity h
  constructor
  · intro hsep m hm n hn hml hnl hsame
    by_contra hne
    obtain ⟨a, ha, hakey⟩ := hgrown.bound m hm hml
    obtain ⟨b, hb, hbkey⟩ := hgrown.bound n hn hnl
    refine hsep a ha b hb (hakey ▸ hbkey ▸ hne) ?_
    obtain ⟨m', -, -, hm', hmint⟩ := hgrown.minted a ha
    obtain ⟨n', -, -, hn', hnint⟩ := hgrown.minted b hb
    have hsame' : walkIKey n' = walkIKey m' := by
      rw [walkIKey_congr (hn'.trans hbkey), walkIKey_congr (hm'.trans hakey), hsame]
    rw [(mint_same_iff hmint).mpr hsame'] at hnint
    exact Except.ok.inj hnint
  · intro hkeys a ha b hb hne heq
    obtain ⟨m, hm, hml, hmkey, hmint⟩ := hgrown.minted a ha
    obtain ⟨n, hn, hnl, hnkey, hnint⟩ := hgrown.minted b hb
    rw [← heq] at hnint
    have hsame := (mint_same_iff hmint).mp hnint
    exact hne (hmkey.symm.trans ((hkeys m hm n hn hml hnl hsame.symm).trans hnkey))

/-! ### A slash and a hyphen -/

namespace Sample

def punkt (path : String) (h : trim path = path ∧ path ≠ "") : HierarchyMarker :=
  ⟨some "work:ru:44-fz", ⟨"punkt", by decide⟩, ⟨"4", by decide⟩, some ⟨path, h⟩, none⟩

def ladders : List IdentitySnapshot :=
  [⟨[punkt "statya-93/punkt-4" (by decide), punkt "statya-93-punkt-4" (by decide)]⟩]

def walked : ComponentConceptId := ⟨"cc:walk:44-fz:punkt-statya-93-punkt-4", rfl⟩

def walkedBinding (path : String) (h : trim path = path ∧ path ≠ "") : HierarchyBinding :=
  ⟨some "work:ru:44-fz", ⟨"punkt", by decide⟩, ⟨"4", by decide⟩, some ⟨path, h⟩, walked⟩

end Sample

theorem grow_separates_ladders :
    ∃ report, growIdentity .empty Sample.ladders ["punkt"] = .ok report ∧
      ((∀ a ∈ report.map.bindings, ∀ b ∈ report.map.bindings, a.key ≠ b.key →
        a.component ≠ b.component) ↔
      ∀ m ∈ allMarkers Sample.ladders, ∀ n ∈ allMarkers Sample.ladders,
        m.level.val ∈ ["punkt"] → n.level.val ∈ ["punkt"] → walkIKey m = walkIKey n →
          m.key = n.key) := by
  have hsome : (growIdentity .empty Sample.ladders ["punkt"]).toOption.isSome = true := by decide
  cases h : growIdentity .empty Sample.ladders ["punkt"] with
  | error e => simp [h, Except.toOption] at hsome
  | ok report => exact ⟨report, rfl, grow_separates_iff h⟩

/-- The two ladders are two keys, and both are minted as one component. -/
theorem grow_merges_ladders :
    ¬ ∀ snapshots mintLevels report, growIdentity .empty snapshots mintLevels = .ok report →
      ∀ a ∈ report.map.bindings, ∀ b ∈ report.map.bindings, a.key ≠ b.key →
        a.component ≠ b.component := by
  intro hall
  have hbindings : (growIdentity .empty Sample.ladders ["punkt"]).toOption.map (·.map.bindings) =
      some [Sample.walkedBinding "statya-93/punkt-4" (by decide),
        Sample.walkedBinding "statya-93-punkt-4" (by decide)] := by decide
  cases h : growIdentity .empty Sample.ladders ["punkt"] with
  | error e => simp [h, Except.toOption] at hbindings
  | ok report =>
    simp only [h, Except.toOption, Option.map_some, Option.some.injEq] at hbindings
    refine hall _ _ _ h (Sample.walkedBinding "statya-93/punkt-4" (by decide)) ?_
      (Sample.walkedBinding "statya-93-punkt-4" (by decide)) ?_ (by decide) rfl
    · simp [hbindings]
    · simp [hbindings]

end LawNexus
