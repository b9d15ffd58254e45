import LawNexus.Ontology.RegistryKeys
import LawNexus.Ontology.RegistryText
import LawNexus.Ties

/-!
# The order of the rendered rows

The rows are sorted by needle, level, key path and component. Admission keeps the needle, the
level and the number of a row unique. The result is when the order of the bindings cannot be
seen in the rendered registry.
-/

namespace LawNexus

open Loops

def sortedRegistryBindingRows (admitted : AdmittedRegistry) : List (List Char) :=
  (sortedRows admitted.bindings).map renderRow

/-- Every order of the bindings gives the same bytes. -/
def OrderFree (admitted : AdmittedRegistry) : Prop :=
  ∀ bindings, bindings.Perm admitted.bindings →
    renderRegistry { admitted with bindings } = renderRegistry admitted ∧
      sortedRegistryBindingRows { admitted with bindings } = sortedRegistryBindingRows admitted

/-! ## Rows that tie -/

/-- The sort cannot tell the rows apart. -/
structure SortTie (a b : AdmissionBinding) : Prop where
  pathNeedle : a.pathNeedle = b.pathNeedle
  level : a.level = b.level
  keyPath : a.keyPath.getD a.number = b.keyPath.getD b.number
  cc : a.cc = b.cc

theorem registrySortKey_eq_iff {a b : AdmissionBinding} :
    registrySortKey a = registrySortKey b ↔ SortTie a b := by
  simp only [registrySortKey, EmbeddingLike.apply_eq_iff_eq, Prod.mk.injEq]
  constructor
  · rintro ⟨hneedle, -, hlevel, hpath, hcc⟩
    exact ⟨hneedle, hlevel, hpath, hcc⟩
  · rintro ⟨hneedle, hlevel, hpath, hcc⟩
    exact ⟨hneedle, congrArg levelCatalogRank hlevel, hlevel, hpath, hcc⟩

/-- The end of a rendered row. -/
def pathPart (row : AdmissionBinding) : List Char :=
  (row.path.map fun path => ", path: ".toList ++ path.toList).getD []

/-- The number of a row, between what stands before it and behind it. -/
theorem renderRow_eq (row : AdmissionBinding) : renderRow row =
    "- \x7bpath_needle: ".toList ++ row.pathNeedle.toList ++ ", level: ".toList ++
      row.level.toList ++ ", number: \"".toList ++ (row.number.toList ++ ("\", cc: ".toList ++
        row.cc.toList ++ (pathPart row ++ "\x7d".toList))) := by
  have hassoc : ∀ start number cc path stop : List Char, ∀ quote : List Char,
      start ++ number ++ quote ++ cc ++ path ++ stop =
        start ++ (number ++ (quote ++ cc ++ (path ++ stop))) := by
    intro start number cc path stop quote
    simp only [List.append_assoc]
  exact hassoc _ _ _ _ _ _

/-- A row without a key path shows none. A row with one may show it, and then with a name. -/
theorem pathPart_cases (row : AdmissionBinding) :
    pathPart row = [] ∨ ∃ path, row.keyPath = some path ∧ path.length < (pathPart row).length := by
  unfold pathPart
  cases hpath : row.path with
  | none => exact Or.inl rfl
  | some path =>
    refine Or.inr ⟨path, (Option.filter_eq_some_iff.mp hpath).1, ?_⟩
    rw [Option.map_some, Option.getD_some, List.length_append, String.length_toList]
    exact Nat.lt_add_of_pos_left (by decide)

theorem pathPart_congr {a b : AdmissionBinding} (h : a.keyPath = b.keyPath) :
    pathPart a = pathPart b := by
  unfold pathPart AdmissionBinding.path
  rw [h]

theorem pathPart_of_none {row : AdmissionBinding} (h : row.keyPath = none) : pathPart row = [] := by
  unfold pathPart AdmissionBinding.path
  rw [h]
  rfl

/-- A row with a number for its key path is too short for one that shows this path. -/
theorem pathPart_of_number {a b : AdmissionBinding} (hb : b.keyPath = some a.number)
    (hlength : a.number.length = b.number.length + (pathPart b).length) : pathPart b = [] := by
  rcases pathPart_cases b with hnil | ⟨path, hpath, hlong⟩
  · exact hnil
  · obtain rfl := Option.some.inj (hb.symm.trans hpath)
    omega

theorem number_of_renderRow {a b : AdmissionBinding} (h : SortTie a b)
    (hrows : renderRow a = renderRow b) : a.number = b.number := by
  obtain ⟨hneedle, hlevel, hkey, hcc⟩ := h
  rw [renderRow_eq, renderRow_eq, hneedle, hlevel, hcc, List.append_cancel_left_eq] at hrows
  have hlength : a.number.length + (pathPart a).length = b.number.length + (pathPart b).length := by
    have hlength := congrArg List.length hrows
    simp only [List.length_append, String.length_toList] at hlength
    omega
  have hpart : pathPart a = pathPart b := by
    cases ha : a.keyPath with
    | none =>
      have hnone := pathPart_of_none ha
      rw [ha, Option.getD_none] at hkey
      rw [hnone, List.length_nil, Nat.add_zero] at hlength
      cases hb : b.keyPath with
      | none => rw [hnone, pathPart_of_none hb]
      | some path =>
        rw [hb, Option.getD_some] at hkey
        rw [hnone, pathPart_of_number (hkey ▸ hb) hlength]
    | some path =>
      rw [ha, Option.getD_some] at hkey
      cases hb : b.keyPath with
      | none =>
        have hnone := pathPart_of_none hb
        rw [hb, Option.getD_none] at hkey
        rw [hnone, List.length_nil, Nat.add_zero] at hlength
        rw [hnone, pathPart_of_number (hkey ▸ ha) hlength.symm]
      | some path' =>
        rw [hb, Option.getD_some] at hkey
        exact pathPart_congr (ha.trans (hkey ▸ hb.symm))
  rw [hpart] at hrows
  exact String.toList_inj.mp (List.append_cancel_right hrows)

/-! ## The theorem -/

theorem orderFree_iff {admitted : AdmittedRegistry}
    (hkeys : (admitted.bindings.map (·.admissionKey)).Nodup) : OrderFree admitted ↔
      ∀ a ∈ admitted.bindings, ∀ b ∈ admitted.bindings, SortTie a b → a.number = b.number := by
  have hshown : (∀ bindings, bindings.Perm admitted.bindings →
      (sortedRows bindings).map renderRow = (sortedRows admitted.bindings).map renderRow) ↔
        ∀ a ∈ admitted.bindings, ∀ b ∈ admitted.bindings,
          registrySortKey a = registrySortKey b → renderRow a = renderRow b := Ties.map_sortBy_iff
  constructor
  · intro hfree a ha b hb htie
    refine number_of_renderRow htie (hshown.mp (fun bindings hperm => ?_) a ha b hb
      (registrySortKey_eq_iff.mpr htie))
    exact (hfree bindings hperm).2
  · intro hnumber bindings hperm
    have hrows := hshown.mpr (fun a ha b hb hsame => ?_) bindings hperm
    · refine ⟨?_, hrows⟩
      unfold renderRegistry registryLines
      rw [hrows]
    · have htie := registrySortKey_eq_iff.mp hsame
      have hkey : a.admissionKey = b.admissionKey := by
        unfold AdmissionBinding.admissionKey
        rw [htie.pathNeedle, htie.level, hnumber a ha b hb htie]
      rw [List.inj_on_of_nodup_map hkeys ha hb hkey]

/-- The order of the bindings of an admitted registry cannot be seen exactly when no two rows of
the source agree in needle, level, key path and component and differ in their number. -/
theorem registry_order_free_iff {evidence : CandidateEvidence} {source : AdmissionSource}
    {admitted : AdmittedRegistry} (h : admitCandidates evidence source = .ok admitted) :
    OrderFree admitted ↔
      ∀ a ∈ source.bindings, ∀ b ∈ source.bindings, SortTie a b → a.number = b.number := by
  obtain ⟨hearlier, hbindings⟩ := admitCandidates_ok h
  have hkeys : (admitted.bindings.map (·.admissionKey)).Nodup := by
    by_contra hrepeats
    rw [hbindings] at hrepeats
    obtain ⟨e, he⟩ := (admitCandidates_error_iff hearlier).mpr hrepeats
    rw [h] at he
    exact nomatch he
  rw [orderFree_iff hkeys, hbindings]

/-! ### A number that is the key path of another number -/

namespace Sample

def tiedRow (number : String) (keyPath : Option String) : AdmissionBinding :=
  ⟨"44-fz", "statya", number, keyPath, "cc:44-fz:statya-1", .legacyHuman⟩

def tiedRows : List AdmissionBinding := [tiedRow "1" none, tiedRow "2" (some "1")]

def tiedSource : AdmissionSource where
  schema := admissionSchemaV1
  lifecycle := proposedLifecycle
  authoritative := false
  candidateArtifactPath := "a.json"
  candidateArtifactSha256 := "a"
  candidateSourceDigest := "b"
  candidateIdentityDigest := "c"
  bindings := tiedRows

def tiedEvidence : CandidateEvidence where
  artifactSchema := candidateArtifactSchemaV1
  lifecycle := proposedLifecycle
  authoritative := false
  artifactPath := "a.json"
  artifactSha256 := "a"
  sourceDigest := "b"
  identityDigest := "c"
  candidates := []

def tiedAdmitted : AdmittedRegistry := ⟨registrySchemaV1, proposedLifecycle, false, tiedRows⟩

theorem tied_admitted : admitCandidates tiedEvidence tiedSource = .ok tiedAdmitted := by decide

theorem registry_order_free_tied : OrderFree tiedAdmitted ↔
    ∀ a ∈ tiedSource.bindings, ∀ b ∈ tiedSource.bindings, SortTie a b → a.number = b.number :=
  registry_order_free_iff tied_admitted

end Sample

/-- Two admitted rows tie in the sort, and the order they come in is the order they are rendered
in. -/
theorem tied_rows_reordered : ¬ ∀ evidence source admitted,
    admitCandidates evidence source = .ok admitted → OrderFree admitted := by
  intro h
  have hfree := h _ _ _ Sample.tied_admitted
  have hkeys : (Sample.tiedAdmitted.bindings.map (·.admissionKey)).Nodup := by decide
  have hnumber := (orderFree_iff hkeys).mp hfree (Sample.tiedRow "1" none) List.mem_cons_self
    (Sample.tiedRow "2" (some "1")) (List.mem_cons_of_mem _ List.mem_cons_self) ⟨rfl, rfl, rfl, rfl⟩
  exact absurd hnumber (by decide)

end LawNexus
