import LawNexus.Ontology.RegistryAdmission

/-!
# The admission key and the runtime key

The last gate keeps the needle, the level and the number of a row unique. The runtime registry
finds a row by its ladder instead of its number. The result is when the two keys come to the
same verdict on a source.
-/

namespace LawNexus

open Loops

/-! ## The last gate -/

section

variable {rows seen : List AdmissionBinding} {row : AdmissionBinding}

theorem registryKeyStep_new (h : ∀ r ∈ seen, r.admissionKey ≠ row.admissionKey) :
    registryKeyStep seen row = .ok (seen ++ [row]) := by
  have hnone : seen.find? (fun r => r.admissionKey = row.admissionKey) = none := by
    simpa using h
  unfold registryKeyStep
  rw [hnone]

theorem registryKeyStep_repeated {r : AdmissionBinding} (hr : r ∈ seen)
    (h : r.admissionKey = row.admissionKey) : ∃ e, registryKeyStep seen row = .error e := by
  unfold registryKeyStep
  cases hfind : seen.find? fun r => r.admissionKey = row.admissionKey with
  | none => exact absurd h (by simpa using List.find?_eq_none.mp hfind r hr)
  | some existing =>
    dsimp only
    split_ifs
    · exact ⟨_, rfl⟩
    · exact ⟨_, rfl⟩

theorem foldlM_registryKeyStep (hseen : (seen.map (·.admissionKey)).Nodup) :
    (∃ e, rows.foldlM registryKeyStep seen = .error e) ↔
      ¬ ((seen ++ rows).map (·.admissionKey)).Nodup := by
  induction rows generalizing seen with
  | nil =>
    rw [List.append_nil]
    constructor
    · rintro ⟨e, he⟩
      exact nomatch he
    · exact fun h => absurd hseen h
  | cons row rows ih =>
    rw [List.foldlM_cons]
    by_cases hnew : ∀ r ∈ seen, r.admissionKey ≠ row.admissionKey
    · have hnext : ((seen ++ [row]).map (·.admissionKey)).Nodup := by
        rw [List.map_append, List.nodup_append]
        refine ⟨hseen, List.nodup_singleton _, ?_⟩
        rintro k hk k' hk' rfl
        obtain ⟨r, hr, rfl⟩ := List.mem_map.mp hk
        exact hnew r hr (by simpa using hk')
      rw [registryKeyStep_new hnew, ok_bind, ih hnext, List.append_assoc, List.singleton_append]
    · push Not at hnew
      obtain ⟨r, hr, hkey⟩ := hnew
      obtain ⟨e, he⟩ := registryKeyStep_repeated hr hkey
      rw [he, error_bind]
      refine iff_of_true ⟨e, rfl⟩ fun hnodup => ?_
      rw [List.map_append, List.nodup_append] at hnodup
      exact hnodup.2.2 _ (List.mem_map_of_mem hr) _ (List.mem_map_of_mem List.mem_cons_self) hkey

end

/-- The last gate rejects the sources that repeat a needle, a level and a number. -/
theorem registryKeyGate_error_iff (source : AdmissionSource) :
    (∃ e, registryKeyGate source = .error e) ↔ Repeats (·.admissionKey) source.bindings := by
  have hfold := @foldlM_registryKeyStep source.bindings [] .nil
  unfold registryKeyGate Repeats
  rw [List.nil_append] at hfold
  rw [← hfold]
  cases source.bindings.foldlM registryKeyStep [] with
  | error e => simp [Except.map]
  | ok seen => simp [Except.map]

theorem admitCandidates_ok {evidence : CandidateEvidence} {source : AdmissionSource}
    {admitted : AdmittedRegistry} (h : admitCandidates evidence source = .ok admitted) :
    earlierGates evidence source = .ok () ∧ admitted.bindings = source.bindings := by
  obtain ⟨⟨⟩, hearlier, h⟩ := bind_eq_ok_iff.mp h
  obtain ⟨-, -, h⟩ := bind_eq_ok_iff.mp h
  exact ⟨hearlier, (Except.ok.inj h).symm ▸ rfl⟩

theorem admitCandidates_error_iff {evidence : CandidateEvidence} {source : AdmissionSource}
    (h : earlierGates evidence source = .ok ()) :
    (∃ e, admitCandidates evidence source = .error e) ↔
      Repeats (·.admissionKey) source.bindings := by
  rw [← registryKeyGate_error_iff]
  unfold admitCandidates
  rw [h, ok_bind]
  cases registryKeyGate source with
  | error e => simp
  | ok _ => simp [pure, Except.pure]

/-! ## The runtime registry -/

theorem trimmedText_ok {value : String} {text : TrimmedText} (h : trimmedText value = .ok text) :
    text.val = Texts.trim value := by
  unfold trimmedText at h
  split_ifs at h
  rw [← Except.ok.inj h]

theorem catalogLevel_ok {value : String} {level : HierarchyLevel}
    (h : catalogLevel value = .ok level) : level.val = Texts.trim value := by
  unfold catalogLevel at h
  split_ifs at h
  rw [← Except.ok.inj h]

theorem trimmedPath_ok {value : Option String} {path : Option TrimmedText}
    (h : trimmedPath value = .ok path) : path.map (·.val) = value.map Texts.trim := by
  cases value with
  | none =>
    obtain rfl := Except.ok.inj h
    rfl
  | some value =>
    cases htext : trimmedText value with
    | error e => simp [trimmedPath, htext] at h
    | ok text =>
      simp only [trimmedPath, htext, Except.ok.injEq] at h
      simp [← h, trimmedText_ok htext]

/-- The registry trims what it takes from a row, and keeps the key of what is left. -/
theorem toBinding_key {row : AdmissionBinding} {component : ComponentConceptId}
    {binding : HierarchyBinding} (h : row.toBinding component = .ok binding) :
    binding.workId = none ∧ binding.level.val = Texts.trim row.level ∧
      binding.keyPath = Texts.trim row.effectiveKeyPath := by
  unfold AdmissionBinding.toBinding HierarchyBinding.tryNewWithPath at h
  cases hnumber : trimmedText row.number with
  | error e => simp [hnumber] at h
  | ok number =>
    cases hpath : trimmedPath row.path with
    | error e => simp [hnumber, hpath, component.not_isEmpty] at h
    | ok path =>
      cases hlevel : catalogLevel row.level with
      | error e => simp [hnumber, hpath, hlevel, component.not_isEmpty] at h
      | ok level =>
        simp only [hnumber, hpath, hlevel, component.not_isEmpty, Bool.false_eq_true, if_false,
          Except.ok.injEq] at h
        obtain rfl := h
        refine ⟨rfl, catalogLevel_ok hlevel, ?_⟩
        have hkeys := trimmedPath_ok hpath
        unfold HierarchyBinding.keyPath AdmissionBinding.effectiveKeyPath
        cases hrow : row.path with
        | none =>
          obtain rfl : path = none := by simpa [hrow] using hkeys
          exact trimmedText_ok hnumber
        | some key =>
          rw [hrow] at hkeys
          obtain ⟨text, rfl, htext⟩ := Option.map_eq_some_iff.mp hkeys
          exact htext

/-- For rows without blanks around their texts, the key that `register` compares is the
runtime key of the row. -/
theorem sameKey_toBinding {row row' : AdmissionBinding} {component component' : ComponentConceptId}
    {binding binding' : HierarchyBinding} (h : row.toBinding component = .ok binding)
    (h' : row'.toBinding component' = .ok binding')
    (htrim : ∀ text ∈ [row.level, row'.level, row.effectiveKeyPath, row'.effectiveKeyPath],
      Texts.trim text = text) (hneedle : row.pathNeedle = row'.pathNeedle) :
    sameKey binding binding' = true ↔ row.runtimeKey = row'.runtimeKey := by
  obtain ⟨hwork, hlevel, hkey⟩ := toBinding_key h
  obtain ⟨hwork', hlevel', hkey'⟩ := toBinding_key h'
  simp only [List.forall_mem_cons] at htrim
  obtain ⟨ht1, ht2, ht3, ht4, -⟩ := htrim
  rw [sameKey_iff]
  simp only [HierarchyBinding.key, AdmissionBinding.runtimeKey, Prod.mk.injEq, Subtype.ext_iff,
    hwork, hwork', hlevel, hlevel', hkey, hkey', ht1, ht2, ht3, ht4, hneedle, true_and]

/-! ## Where the two keys differ -/

/-- A number repeats under different ladders, and no runtime key repeats. -/
def OnlyLaddersDiffer (rows : List AdmissionBinding) : Prop :=
  (∃ r ∈ rows, ∃ r' ∈ rows, r.admissionKey = r'.admissionKey ∧
    r.effectiveKeyPath ≠ r'.effectiveKeyPath) ∧ ¬ Repeats (·.runtimeKey) rows

/-- A ladder repeats with different numbers, and no number repeats. -/
def OnlyNumbersDiffer (rows : List AdmissionBinding) : Prop :=
  (∃ r ∈ rows, ∃ r' ∈ rows, r.runtimeKey = r'.runtimeKey ∧ r.number ≠ r'.number) ∧
    ¬ Repeats (·.admissionKey) rows

/-- One key repeats and another does not: two rows agree in the first and not in the second. -/
theorem repeats_and_not_iff {κ μ : Type*} {key : AdmissionBinding → κ}
    {other : AdmissionBinding → μ} {rows : List AdmissionBinding} :
    Repeats key rows ∧ ¬ Repeats other rows ↔
      (∃ r ∈ rows, ∃ r' ∈ rows, key r = key r' ∧ other r ≠ other r') ∧ ¬ Repeats other rows := by
  refine and_congr_left fun hother => ?_
  have hnodup : (rows.map other).Nodup := not_not.mp hother
  have hinj := List.inj_on_of_nodup_map hnodup
  unfold Repeats
  rw [List.nodup_map_iff_inj_on (List.Nodup.of_map other hnodup)]
  constructor
  · intro h
    push Not at h
    obtain ⟨r, hr, r', hr', hkey, hne⟩ := h
    exact ⟨r, hr, r', hr', hkey, fun heq => hne (hinj hr hr' heq)⟩
  · rintro ⟨r, hr, r', hr', hkey, hne⟩ hall
    exact hne (congrArg other (hall r hr r' hr' hkey))

theorem onlyLaddersDiffer_iff {rows : List AdmissionBinding} : OnlyLaddersDiffer rows ↔
    Repeats (·.admissionKey) rows ∧ ¬ Repeats (·.runtimeKey) rows := by
  rw [repeats_and_not_iff]
  unfold OnlyLaddersDiffer AdmissionBinding.admissionKey AdmissionBinding.runtimeKey
  simp only [Prod.mk.injEq, ne_eq]
  grind

theorem onlyNumbersDiffer_iff {rows : List AdmissionBinding} : OnlyNumbersDiffer rows ↔
    Repeats (·.runtimeKey) rows ∧ ¬ Repeats (·.admissionKey) rows := by
  rw [repeats_and_not_iff]
  unfold OnlyNumbersDiffer AdmissionBinding.admissionKey AdmissionBinding.runtimeKey
  simp only [Prod.mk.injEq, ne_eq]
  grind

namespace Sample

def pointOf (article cc : String) : AdmissionBinding :=
  ⟨"law_2013-04-05_44-fz", "punkt", "1", some (article ++ "/punkt-1"), cc, .candidateBackedM209⟩

def points : AdmissionSource where
  schema := admissionSchemaV1
  lifecycle := proposedLifecycle
  authoritative := false
  candidateArtifactPath := "artifact.json"
  candidateArtifactSha256 := "sha256"
  candidateSourceDigest := "source"
  candidateIdentityDigest := "identity"
  bindings := [pointOf "statya-4" "cc:44-fz:statya-4-punkt-1",
    pointOf "statya-5" "cc:44-fz:statya-5-punkt-1"]

def pointEvidence : CandidateEvidence where
  artifactSchema := candidateArtifactSchemaV1
  lifecycle := proposedLifecycle
  authoritative := false
  artifactPath := "artifact.json"
  artifactSha256 := "sha256"
  sourceDigest := "source"
  identityDigest := "identity"
  candidates := [⟨"punkt", "1", some "statya-4/punkt-1", "statya-4/punkt-1"⟩,
    ⟨"punkt", "1", some "statya-5/punkt-1", "statya-5/punkt-1"⟩]

theorem points_pass : earlierGates pointEvidence points = .ok () := by decide

theorem points_rejected : admitCandidates pointEvidence points =
    .error (.conflictingComponentConcept "law_2013-04-05_44-fz/punkt/1"
      "cc:44-fz:statya-4-punkt-1" "cc:44-fz:statya-5-punkt-1") := by decide

theorem points_apart : ¬ Repeats (·.runtimeKey) points.bindings := by
  unfold Repeats
  decide

end Sample

end LawNexus
