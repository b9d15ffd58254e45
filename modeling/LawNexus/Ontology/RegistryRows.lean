import LawNexus.Ontology.RegistryFields

/-!
# The rows of the registry

A row is rendered, and the runtime reader reads the rendering. The result is which rows are
read back as they were.
-/

namespace LawNexus

open Chars Loops

/-! ## The places of the fields -/

/-- A key behind the field in front of it. -/
def opening (key : String) : List Char := ',' :: ' ' :: (key.toList ++ [':', ' '])

namespace AdmissionBinding

variable (row : AdmissionBinding)

/-- The path of a nested row and the closing brace. -/
def fromPath : List Char :=
  (row.path.map fun path => opening "path" ++ path.toList).getD [] ++ ['\x7d']

/-- The rendered row from its component on, then from the other fields on. -/
def fromCc : List Char := opening "cc" ++ (row.cc.toList ++ row.fromPath)

def fromNumber : List Char :=
  opening "number" ++ '"' :: (row.number.toList ++ '"' :: row.fromCc)

def fromLevel : List Char := opening "level" ++ (row.level.toList ++ row.fromNumber)

/-- The rendered row up to its level, then up to the other fields. -/
def beforeLevel : List Char := "- \x7bpath_needle: ".toList ++ row.pathNeedle.toList

def beforeNumber : List Char := row.beforeLevel ++ (opening "level" ++ row.level.toList)

def beforeCc : List Char :=
  row.beforeNumber ++ (opening "number" ++ '"' :: (row.number.toList ++ ['"']))

def beforePath : List Char := row.beforeCc ++ (opening "cc" ++ row.cc.toList)

/-- The key stands in front of its own field too, and what is behind its first place there
reads as the value of the field; or it does not and the value can be read back. -/
def ReadsField (key : String) (before fromField : List Char) (readable : Prop)
    (read : Option (List Char) → Prop) : Prop :=
  (∀ rest, FirstKey (key.toList ++ [':']) none before rest →
    ∃ value, Scalar (rest ++ fromField) value ∧ read value) ∧
  ((∀ rest, ¬ FirstKey (key.toList ++ [':']) none before rest) → readable)

/-- The rows that are read back. A number stands between quotes, so it may hold anything but
a quote. -/
structure Readable : Prop where
  needle : Plain row.pathNeedle.toList
  level : row.level ≠ "" ∧ ReadsField "level" row.beforeLevel row.fromLevel
    (Plain row.level.toList) (· = some row.level.toList)
  number : row.number ≠ "" ∧ ReadsField "number" row.beforeNumber row.fromNumber
    ('"' ∉ row.number.toList) (· = some row.number.toList)
  cc : ReadsField "cc" row.beforeCc row.fromCc (Plain row.cc.toList) (· = some row.cc.toList)
  path : ReadsField "path" row.beforePath row.fromPath (∀ path ∈ row.path, Plain path.toList)
    (fun read => read.map trim = row.path.map (·.toList))

/-- What the rows of a source that was read keep to. -/
structure IsClean : Prop where
  needle : Clean row.pathNeedle.toList
  level : Clean row.level.toList
  number : Clean row.number.toList
  keyPath : ∀ keyPath ∈ row.keyPath, Clean keyPath.toList
  cc : Clean row.cc.toList

/-- What the runtime reader is to read of a row. -/
def projected : HierarchyRegistryBinding :=
  ⟨row.pathNeedle, row.level, row.number, row.path, row.cc⟩

end AdmissionBinding

/-! ## The fields of a row -/

section

variable {row : AdmissionBinding}

theorem opening_needle : "- \x7bpath_needle: ".toList =
    '-' :: ' ' :: '\x7b' :: ("path_needle".toList ++ [':'] ++ [' ']) := by decide
theorem opening_level : ", level: ".toList = opening "level" := by decide
theorem opening_number : ", number: \"".toList = opening "number" ++ ['"'] := by decide
theorem opening_cc : "\", cc: ".toList = '"' :: opening "cc" := by decide
theorem opening_path : ", path: ".toList = opening "path" := by decide
theorem closing : "\x7d".toList = ['\x7d'] := by decide

theorem renderRow_level : renderRow row = row.beforeLevel ++ row.fromLevel := by
  unfold renderRow AdmissionBinding.beforeLevel AdmissionBinding.fromLevel
    AdmissionBinding.fromNumber AdmissionBinding.fromCc AdmissionBinding.fromPath
  rw [opening_level, opening_number, opening_cc, opening_path, closing]
  simp only [List.append_assoc, List.cons_append, List.nil_append]

theorem renderRow_number : renderRow row = row.beforeNumber ++ row.fromNumber := by
  simp only [renderRow_level, AdmissionBinding.beforeNumber, AdmissionBinding.fromLevel,
    List.append_assoc]

theorem renderRow_cc : renderRow row = row.beforeCc ++ row.fromCc := by
  simp only [renderRow_number, AdmissionBinding.beforeCc, AdmissionBinding.fromNumber,
    List.append_assoc, List.cons_append, List.nil_append]

theorem renderRow_path : renderRow row = row.beforePath ++ row.fromPath := by
  simp only [renderRow_cc, AdmissionBinding.beforePath, AdmissionBinding.fromCc,
    List.append_assoc]

/-- A field at its own place, behind the fields before it. -/
theorem flowField_opening {key : String} (hcomma : ',' ∉ key.toList) (hspace : ' ' ∉ key.toList)
    (before rest : List Char) : flowField (before ++ (opening key ++ rest)) key =
      (seekKey (key.toList ++ [':']) none before).elim (flowScalar (' ' :: rest)) fun found =>
        flowScalar (found ++ (opening key ++ rest)) := by
  have hopening : opening key ++ rest = ',' :: ' ' :: (key.toList ++ ':' :: ' ' :: rest) := by
    simp [opening]
  rw [hopening, flowField_own hcomma hspace]

theorem readsField_iff {key : String} {before fromField : List Char} {readable : Prop}
    {read : Option (List Char) → Prop} :
    AdmissionBinding.ReadsField key before fromField readable read ↔
      (seekKey (key.toList ++ [':']) none before).elim readable fun found =>
        read (flowScalar (found ++ fromField)) := by
  have hne : key.toList ++ [':'] ≠ [] := by simp
  unfold AdmissionBinding.ReadsField
  simp only [← seekKey_eq_some_iff hne, ← flowScalar_eq_iff]
  cases seekKey (key.toList ++ [':']) none before with
  | none => simp
  | some found => simp

theorem renderRow_needle : renderRow row = '-' :: ' ' :: '\x7b' ::
    (("path_needle".toList ++ [':']) ++ ' ' :: (row.pathNeedle.toList ++ row.fromLevel)) := by
  have hbefore : row.beforeLevel = '-' :: ' ' :: '\x7b' ::
      (("path_needle".toList ++ [':']) ++ ' ' :: row.pathNeedle.toList) := by
    unfold AdmissionBinding.beforeLevel
    rw [opening_needle, List.cons_append, List.cons_append, List.cons_append, List.append_assoc]
    rfl
  rw [renderRow_level, hbefore, List.cons_append, List.cons_append, List.cons_append,
    List.append_assoc, List.cons_append]

/-- Nothing stands in front of the needle. -/
theorem flowField_needle (h : row.IsClean) (hne : row.pathNeedle ≠ "") :
    flowField (renderRow row) "path_needle" = some row.pathNeedle.toList ↔
      Plain row.pathNeedle.toList := by
  rw [renderRow_needle, flowField, seekKey_row (by decide) (by decide) (by decide) (by decide),
    Option.bind_some]
  exact flowScalar_comma_iff (by simpa using hne) h.needle.1 h.needle.2.1

theorem flowField_level (h : row.IsClean) (hne : row.level ≠ "") :
    flowField (renderRow row) "level" = some row.level.toList ↔
      AdmissionBinding.ReadsField "level" row.beforeLevel row.fromLevel (Plain row.level.toList)
        (· = some row.level.toList) := by
  rw [renderRow_level, AdmissionBinding.fromLevel, flowField_opening (by decide) (by decide)]
  rw [readsField_iff]
  cases seekKey ("level".toList ++ [':']) none row.beforeLevel with
  | some found => rfl
  | none => exact flowScalar_comma_iff (by simpa using hne) h.level.1 h.level.2.1

theorem flowField_number (row : AdmissionBinding) :
    flowField (renderRow row) "number" = some row.number.toList ↔
      AdmissionBinding.ReadsField "number" row.beforeNumber row.fromNumber
        ('"' ∉ row.number.toList) (· = some row.number.toList) := by
  rw [renderRow_number, AdmissionBinding.fromNumber, flowField_opening (by decide) (by decide)]
  rw [readsField_iff]
  cases seekKey ("number".toList ++ [':']) none row.beforeNumber with
  | some found => rfl
  | none => exact flowScalar_quoted_iff

/-- Behind the component stands a path or the closing brace. -/
theorem fromPath_cases (row : AdmissionBinding) :
    ∃ sep rest, row.fromPath = sep :: rest ∧ (sep = ',' ∨ sep = '\x7d') := by
  unfold AdmissionBinding.fromPath
  cases row.path with
  | none => exact ⟨_, _, rfl, Or.inr rfl⟩
  | some path => exact ⟨_, _, rfl, Or.inl rfl⟩

theorem flowField_cc (h : row.IsClean) (hne : row.cc ≠ "") :
    flowField (renderRow row) "cc" = some row.cc.toList ↔
      AdmissionBinding.ReadsField "cc" row.beforeCc row.fromCc (Plain row.cc.toList)
        (· = some row.cc.toList) := by
  obtain ⟨sep, rest, hpath, hsep⟩ := fromPath_cases row
  rw [renderRow_cc, AdmissionBinding.fromCc, flowField_opening (by decide) (by decide)]
  rw [readsField_iff]
  cases seekKey ("cc".toList ++ [':']) none row.beforeCc with
  | some found => rfl
  | none =>
    have hread : (flowScalar (' ' :: (row.cc.toList ++ sep :: rest))).map id = some row.cc.toList ↔
        Plain row.cc.toList :=
      flowScalar_iff (fun _ => rfl) (fun _ => List.Subset.refl _) hsep
        (by simpa using hne) h.cc.1 h.cc.2.1
    rw [Option.map_id_fun, id] at hread
    simpa [hpath] using hread

theorem flowField_path (h : row.IsClean) (hne : ∀ path ∈ row.path, path ≠ "") :
    (flowField (renderRow row) "path").map trim = row.path.map (·.toList) ↔
      AdmissionBinding.ReadsField "path" row.beforePath row.fromPath
        (∀ path ∈ row.path, Plain path.toList)
        (fun read => read.map trim = row.path.map (·.toList)) := by
  rw [renderRow_path]
  rw [readsField_iff]
  cases hrow : row.path with
  | none =>
    have hfrom : row.fromPath = ['\x7d'] := by simp [AdmissionBinding.fromPath, hrow]
    unfold flowField
    rw [hfrom, seekKey_append_sep (by simp) (by decide)]
    cases seekKey ("path".toList ++ [':']) none row.beforePath <;> simp [seekKey]
  | some path =>
    have hfrom : row.fromPath = opening "path" ++ (path.toList ++ ['\x7d']) := by
      simp [AdmissionBinding.fromPath, hrow]
    rw [hfrom, flowField_opening (by decide) (by decide)]
    cases seekKey ("path".toList ++ [':']) none row.beforePath with
    | some found => rfl
    | none =>
      have hclean := h.keyPath path (Option.filter_eq_some_iff.mp hrow).1
      have hread : (flowScalar (' ' :: (path.toList ++ '\x7d' :: []))).map trim =
          some path.toList ↔ Plain path.toList :=
        flowScalar_iff trim_trim trim_subset (Or.inr rfl) (by simpa using hne path hrow)
          hclean.1 hclean.2.1
      simpa using hread

/-! ## The row -/

theorem path_ne_empty (row : AdmissionBinding) : ∀ path ∈ row.path, path ≠ "" := by
  intro path hpath
  have hslash := (Option.filter_eq_some_iff.mp hpath).2
  rintro rfl
  simp at hslash

/-- What a line has to hold to be read as a binding. -/
theorem readBinding_ok {line : List Char} {binding : HierarchyRegistryBinding} :
    readBinding line = .ok binding ↔
      (flowField line "path_needle" = some binding.pathNeedle.toList ∧
        flowField line "level" = some binding.level.toList ∧
        flowField line "number" = some binding.number.toList ∧
        flowField line "cc" = some binding.cc.toList ∧
        (flowField line "path").map trim = binding.path.map (·.toList)) ∧
      binding.pathNeedle ≠ "" ∧ binding.level ≠ "" ∧ binding.number ≠ "" ∧ binding.cc ≠ "" ∧
        ∀ path ∈ binding.path, path ≠ "" := by
  unfold readBinding
  simp only [bind_eq_ok_iff, orCatalogError_ok]
  constructor
  · rintro ⟨needle, hneedle, level, hlevel, number, hnumber, cc, hcc, h⟩
    split_ifs at h with hempty hpath
    simp only [Bool.or_eq_true, List.isEmpty_iff, not_or] at hempty
    obtain rfl := Except.ok.inj h
    refine ⟨⟨by simpa, by simpa, by simpa, by simpa, ?_⟩, ?_⟩
    · cases flowField line "path" <;> simp
    · simp only [ne_eq, String.ofList_eq_empty_iff]
      refine ⟨hempty.1.1.1, hempty.1.1.2, hempty.1.2, hempty.2, ?_⟩
      cases hread : (flowField line "path").map trim with
      | none => simp
      | some path => simpa [hread] using hpath
  · rintro ⟨⟨hneedle, hlevel, hnumber, hcc, hpath⟩, hn, hl, hnum, hc, hp⟩
    refine ⟨_, hneedle, _, hlevel, _, hnumber, _, hcc, ?_⟩
    have hkept : ¬ (binding.path.map (·.toList)).any (·.isEmpty) := by
      cases hopt : binding.path with
      | none => simp
      | some path => simpa using hp path hopt
    have hback : (binding.path.map (·.toList)).map String.ofList = binding.path := by
      cases binding.path <;> simp
    rw [if_neg (by simp [hn, hl, hnum, hc]), hpath, if_neg hkept, hback]
    simp only [String.ofList_toList]
    rfl

/-- The rows that the runtime reader reads back. -/
theorem readBinding_renderRow (h : row.IsClean) (hc : row.cc ≠ "") :
    readBinding (renderRow row) = .ok row.projected ↔ row.Readable := by
  rw [readBinding_ok]
  constructor
  · rintro ⟨⟨hneedle, hlevel, hnumber, hcc, hpath⟩, hn, hl, hnum, -, -⟩
    exact ⟨(flowField_needle h hn).mp hneedle, ⟨hl, (flowField_level h hl).mp hlevel⟩,
      ⟨hnum, (flowField_number row).mp hnumber⟩, (flowField_cc h hc).mp hcc,
      (flowField_path h (path_ne_empty row)).mp hpath⟩
  · rintro ⟨hneedle, ⟨hl, hlevel⟩, ⟨hnum, hnumber⟩, hcc, hpath⟩
    have hn : row.pathNeedle ≠ "" := by
      have hne := hneedle.1
      rintro heq
      simp [heq] at hne
    exact ⟨⟨(flowField_needle h hn).mpr hneedle, (flowField_level h hl).mpr hlevel,
      (flowField_number row).mpr hnumber, (flowField_cc h hc).mpr hcc,
      (flowField_path h (path_ne_empty row)).mpr hpath⟩, hn, hl, hnum, hc,
      path_ne_empty row⟩

end

end LawNexus
