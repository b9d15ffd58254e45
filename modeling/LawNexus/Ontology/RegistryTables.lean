import LawNexus.JoinedLines
import LawNexus.Ontology.RegistryRoundTrip

/-!
# The preserved tables of the registry

`parse_registry_tables` and `render_complete_registry` of
`ln-kb-ontology/src/registry_admission.rs`: the sections behind the bindings and the comment
between them are kept, and are written again behind the admitted rows.
-/

namespace LawNexus

open Chars Loops

/-! ## The kept lines -/

/-- The heading of a section and the lines behind it. -/
structure TableLines where
  heading : List Char
  body : List (List Char)
deriving DecidableEq, Repr

def TableLines.lines (table : TableLines) : List (List Char) := table.heading :: table.body

/-- A line with a name and a colon, with no blank in front of it. -/
def isHeading (raw : List Char) : Bool :=
  let trimmed := trim (stripComment raw)
  !trimmed.isEmpty && trimmed.head? ≠ some '-' && trimmed.getLast? = some ':' &&
    Utf8.byteLen raw - Utf8.byteLen (trimStart raw) = 0

/-- A binding row. -/
def isBindingRow (raw : List Char) : Bool := (trim (stripComment raw)).head? = some '-'

def tableName (raw : List Char) : List Char := (trim (stripComment raw)).rdropWhile (· = ':')

def isTable (raw : List Char) : Bool :=
  tableName raw = "editions".toList || tableName raw = "works".toList

/-- What the loop keeps: the closed sections, the one that is open, and the interlude. -/
structure TableScan where
  sections : List TableLines
  current : Option TableLines
  interlude : List (List Char)
deriving DecidableEq, Repr

def TableScan.start : TableScan := ⟨[], none, []⟩

def TableScan.step (s : TableScan) (raw : List Char) : Except RegistryAdmissionError TableScan :=
  if isHeading raw then
    if isTable raw then .ok ⟨s.sections ++ s.current.toList, some ⟨raw, []⟩, s.interlude⟩
    else .error (.unknownKey (.ofList (tableName raw)))
  else match s.current with
    | some table => .ok { s with current := some { table with body := table.body ++ [raw] } }
    | none =>
      if isBindingRow raw then .ok s
      else .ok { s with interlude := s.interlude ++ [raw] }

/-- The lines of the sections and of the interlude. -/
structure KeptLines where
  sections : List TableLines
  interlude : List (List Char)
deriving DecidableEq, Repr

def TableScan.kept (s : TableScan) : KeptLines := ⟨s.sections ++ s.current.toList, s.interlude⟩

/-- The lines from the heading of the bindings on. -/
def fromBindings (text : List Char) : List (List Char) :=
  (Chars.lines text).dropWhile fun raw => trim (stripComment raw) ≠ "bindings:".toList

def keptLines (text : List Char) : Except RegistryAdmissionError KeptLines :=
  match fromBindings text with
  | [] => .error (.missingField "bindings")
  | _ :: rest => (rest.foldlM TableScan.step .start).map (·.kept)

/-! ## Reading and rendering -/

structure RegistryTableSection where
  heading : List Char
  body : List Char
deriving DecidableEq, Repr

def TableLines.joined (table : TableLines) : RegistryTableSection :=
  ⟨table.heading, joinLines table.body⟩

def KeptLines.interludeComment (kept : KeptLines) : Option (List Char) :=
  let text := joinLines kept.interlude
  if (trim text).isEmpty then none else some text

def parseRegistryTables (text : List Char) :
    Except RegistryAdmissionError (List RegistryTableSection × Option (List Char)) :=
  (keptLines text).map fun kept => (kept.sections.map (·.joined), kept.interludeComment)

def RegistryTableSection.render (table : RegistryTableSection) : List Char :=
  table.heading ++ '\n' :: if table.body.isEmpty then [] else terminated table.body

def renderCompleteRegistry (admitted : AdmittedRegistry) (sections : List RegistryTableSection)
    (interludeComment : Option (List Char)) : List Char :=
  renderRegistry admitted ++ (interludeComment.map terminated).getD [] ++
    sections.flatMap (·.render)

/-- The complete registry with the tables that are read of a text. -/
def rerender (admitted : AdmittedRegistry) (text : List Char) :
    Except RegistryAdmissionError (List Char) := do
  let (sections, interludeComment) ← parseRegistryTables text
  return renderCompleteRegistry admitted sections interludeComment

/-- The rendering is rendered to itself, and has the lines of the text. -/
def Fixpoint (admitted : AdmittedRegistry) (text : List Char) : Prop :=
  ∃ once, rerender admitted text = .ok once ∧ rerender admitted once = .ok once ∧
    keptLines once = keptLines text

/-! ## Which lines come back -/

/-- The lines of the interlude: in front of the first heading, without the binding rows. -/
def interludeLines (rest : List (List Char)) : List (List Char) :=
  (rest.takeWhile (!isHeading ·)).filter (!isBindingRow ·)

def sectionLines (rest : List (List Char)) : List (List Char) := rest.dropWhile (!isHeading ·)

/-- No empty line stands in front of a heading or at the end. -/
def NoneLost : List (List Char) → Prop
  | [] => True
  | raw :: rest => (raw = [] → ∃ next ∈ rest.head?, isHeading next = false) ∧ NoneLost rest

/-- The lines behind the heading of the bindings that come back: none that is kept ends with a
carriage return, no section ends with an empty line, and neither does the interlude, which is
not blank when there is one. -/
structure Stable (rest : List (List Char)) : Prop where
  noCr : ∀ raw ∈ interludeLines rest ++ sectionLines rest, raw.getLast? ≠ some '\r'
  sections : NoneLost (sectionLines rest)
  interlude : (interludeLines rest).getLast? ≠ some []
  notBlank : interludeLines rest ≠ [] → ∃ raw ∈ interludeLines rest, trim raw ≠ []

/-! ## A line without its carriage return -/

section

variable {raw : List Char} {done rest : List (List Char)}

theorem indent_eq_zero_iff : Utf8.byteLen raw - Utf8.byteLen (trimStart raw) = 0 ↔
    ∀ c ∈ raw.head?, Texts.isWhitespace c = false := by
  cases raw with
  | nil => simp [trimStart]
  | cons c raw =>
    simp only [List.head?_cons, Option.mem_some_iff, forall_eq']
    cases hc : Texts.isWhitespace c with
    | false =>
      have hkeep : trimStart (c :: raw) = c :: raw := List.dropWhile_cons_of_neg (by simp [hc])
      rw [hkeep, Nat.sub_self]
      exact iff_of_true rfl rfl
    | true =>
      have hdrop : trimStart (c :: raw) = trimStart raw := List.dropWhile_cons_of_pos hc
      have hle : Utf8.byteLen (trimStart raw) ≤ Utf8.byteLen raw := by
        conv_rhs => rw [← List.takeWhile_append_dropWhile (p := Texts.isWhitespace) (l := raw)]
        rw [Utf8.byteLen_append]
        exact Nat.le_add_left _ _
      have hpos := c.utf8Size_pos
      rw [hdrop, Utf8.byteLen_cons]
      exact iff_of_false (by omega) (by simp)

theorem isHeading_eq_true_iff : isHeading raw = true ↔ trim (stripComment raw) ≠ [] ∧
    isBindingRow raw = false ∧ (trim (stripComment raw)).getLast? = some ':' ∧
    ∀ c ∈ raw.head?, Texts.isWhitespace c = false := by
  unfold isHeading isBindingRow
  rw [← indent_eq_zero_iff]
  simp [and_assoc]

theorem isBindingRow_dropCr (raw : List Char) : isBindingRow (dropCr raw) = isBindingRow raw := by
  unfold isBindingRow
  rw [stripComment_dropCr]

theorem isTable_dropCr (raw : List Char) : isTable (dropCr raw) = isTable raw := by
  unfold isTable tableName
  rw [stripComment_dropCr]

theorem head?_dropCr (h : trim (stripComment raw) ≠ []) : (dropCr raw).head? = raw.head? := by
  unfold dropCr
  split_ifs with hlast
  · cases raw with
    | nil => rfl
    | cons c raw =>
      cases raw with
      | nil =>
        obtain rfl : c = '\r' := Option.some_inj.mp hlast
        exact absurd (by decide) h
      | cons d raw => rfl
  · rfl

theorem isHeading_dropCr (raw : List Char) : isHeading (dropCr raw) = isHeading raw := by
  rw [Bool.eq_iff_iff, isHeading_eq_true_iff, isHeading_eq_true_iff, stripComment_dropCr,
    isBindingRow_dropCr]
  exact and_congr_right fun hne => by rw [head?_dropCr hne]

/-! ## The loop -/

theorem sectionLines_eq_nil_iff : sectionLines done = [] ↔ ∀ raw ∈ done, isHeading raw = false := by
  simp [sectionLines, List.dropWhile_eq_nil_iff]

theorem sectionLines_concat (h : isHeading raw = true ∨ sectionLines done ≠ []) :
    sectionLines (done ++ [raw]) = sectionLines done ++ [raw] := by
  by_cases hdone : sectionLines done = []
  · have hraw := h.resolve_right (not_not_intro hdone)
    have hall := sectionLines_eq_nil_iff.mp hdone
    rw [hdone, sectionLines, List.dropWhile_append_of_pos (by simpa using hall),
      List.dropWhile_cons_of_neg (by simp [hraw])]
    rfl
  · unfold sectionLines at hdone ⊢
    rw [List.dropWhile_append, if_neg (by simpa using hdone)]

theorem interludeLines_concat (done : List (List Char)) (raw : List Char) :
    interludeLines (done ++ [raw]) =
      if sectionLines done = [] ∧ isHeading raw = false ∧ isBindingRow raw = false then
        interludeLines done ++ [raw]
      else interludeLines done := by
  unfold interludeLines
  by_cases hdone : sectionLines done = []
  · have hall := sectionLines_eq_nil_iff.mp hdone
    have hkeep : ∀ a ∈ done, (!isHeading a) = true := fun a ha => by simp [hall a ha]
    rw [List.takeWhile_append_of_pos hkeep, List.takeWhile_eq_self_iff.mpr hkeep,
      List.filter_append]
    cases h : isHeading raw <;> cases hrow : isBindingRow raw <;> simp [h, hrow, hdone]
  · rw [if_neg (fun h => hdone h.1), List.takeWhile_append, if_neg]
    intro hlen
    have hwhole := (List.takeWhile_prefix (p := (!isHeading ·)) (l := done)).eq_of_length hlen
    refine hdone (sectionLines_eq_nil_iff.mpr fun a ha => ?_)
    simpa using List.takeWhile_eq_self_iff.mp hwhole a ha

/-- Sections under known headings with no heading among their lines, and an interlude of lines
that are neither headings nor rows. -/
structure KeptLines.WellFormed (kept : KeptLines) : Prop where
  headings : ∀ table ∈ kept.sections, isHeading table.heading = true ∧ isTable table.heading = true
  bodies : ∀ table ∈ kept.sections, ∀ raw ∈ table.body, isHeading raw = false
  interlude : ∀ raw ∈ kept.interlude, isHeading raw = false ∧ isBindingRow raw = false

/-- The lines of a text that are kept of it. -/
structure KeptLines.Holds (kept : KeptLines) (done : List (List Char)) : Prop where
  wellFormed : kept.WellFormed
  interlude : kept.interlude = interludeLines done
  sections : kept.sections.flatMap (·.lines) = sectionLines done

/-- What is kept after some lines; a closed section has an open one behind it. -/
def ScanInv (done : List (List Char)) (s : TableScan) : Prop :=
  s.kept.Holds done ∧ (s.current = none → s.sections = [])

/-- What a line does: it opens a section, goes to the open one, is skipped as a row, or goes to
the interlude. -/
theorem step_cases {s s' : TableScan} (h : s.step raw = .ok s') :
    (isHeading raw = true ∧ isTable raw = true ∧
      s' = ⟨s.sections ++ s.current.toList, some ⟨raw, []⟩, s.interlude⟩) ∨
    (isHeading raw = false ∧ ∃ table, s.current = some table ∧
      s' = ⟨s.sections, some ⟨table.heading, table.body ++ [raw]⟩, s.interlude⟩) ∨
    (isHeading raw = false ∧ s.current = none ∧ isBindingRow raw = true ∧ s' = s) ∨
    (isHeading raw = false ∧ s.current = none ∧ isBindingRow raw = false ∧
      s' = ⟨s.sections, none, s.interlude ++ [raw]⟩) := by
  unfold TableScan.step at h
  by_cases hheading : isHeading raw = true
  · rw [if_pos hheading] at h
    by_cases htable : isTable raw = true
    · rw [if_pos htable] at h
      exact Or.inl ⟨hheading, htable, (Except.ok.inj h).symm⟩
    · rw [if_neg htable] at h
      exact nomatch h
  · rw [if_neg hheading] at h
    rw [Bool.not_eq_true] at hheading
    cases hcurrent : s.current with
    | some table =>
      rw [hcurrent] at h
      exact Or.inr (Or.inl ⟨hheading, table, rfl, (Except.ok.inj h).symm⟩)
    | none =>
      rw [hcurrent] at h
      by_cases hrow : isBindingRow raw = true
      · rw [if_pos hrow] at h
        exact Or.inr (Or.inr (Or.inl ⟨hheading, rfl, hrow, (Except.ok.inj h).symm⟩))
      · rw [if_neg hrow] at h
        rw [Bool.not_eq_true] at hrow
        exact Or.inr (Or.inr (Or.inr ⟨hheading, rfl, hrow, (Except.ok.inj h).symm⟩))

theorem ScanInv.start : ScanInv [] .start :=
  ⟨⟨⟨by simp [TableScan.kept, TableScan.start], by simp [TableScan.kept, TableScan.start],
    by simp [TableScan.kept, TableScan.start]⟩, rfl, rfl⟩, fun _ => rfl⟩

theorem ScanInv.open_iff {s : TableScan} (hinv : ScanInv done s) :
    sectionLines done = [] ↔ s.current = none := by
  obtain ⟨⟨-, -, hsections⟩, hopen⟩ := hinv
  rw [← hsections]
  unfold TableScan.kept
  cases hcurrent : s.current with
  | none => simp [hopen hcurrent]
  | some table => simp [TableLines.lines]

theorem step_inv {s s' : TableScan} (hinv : ScanInv done s) (h : s.step raw = .ok s') :
    ScanInv (done ++ [raw]) s' := by
  have hopen := hinv.open_iff
  obtain ⟨⟨⟨hheadings, hbodies, hwf⟩, hinterlude, hsections⟩, hclosed⟩ := hinv
  rcases step_cases h with ⟨hheading, htable, rfl⟩ | ⟨hheading, table, hcurrent, rfl⟩ |
    ⟨hheading, hcurrent, hrow, rfl⟩ | ⟨hheading, hcurrent, hrow, rfl⟩
  · refine ⟨⟨⟨?_, ?_, hwf⟩, ?_, ?_⟩, nofun⟩
    · exact List.forall_mem_append.mpr ⟨hheadings, by simpa using ⟨hheading, htable⟩⟩
    · exact List.forall_mem_append.mpr ⟨hbodies, by simp⟩
    · rw [interludeLines_concat, if_neg (by simp [hheading])]
      exact hinterlude
    · rw [sectionLines_concat (Or.inl hheading), ← hsections]
      exact List.flatMap_append
  · have hsome : sectionLines done ≠ [] := by simp [hopen, hcurrent]
    unfold TableScan.kept at hheadings hbodies hwf hinterlude hsections
    rw [hcurrent] at hheadings hbodies hsections
    obtain ⟨hheadings, hlast⟩ := List.forall_mem_append.mp hheadings
    obtain ⟨hbodies, hbody⟩ := List.forall_mem_append.mp hbodies
    refine ⟨⟨⟨?_, ?_, hwf⟩, ?_, ?_⟩, nofun⟩
    · exact List.forall_mem_append.mpr ⟨hheadings, by simpa using hlast⟩
    · refine List.forall_mem_append.mpr ⟨hbodies, ?_⟩
      simp only [Option.toList_some, List.forall_mem_singleton] at hbody ⊢
      exact List.forall_mem_append.mpr ⟨hbody, by simpa using hheading⟩
    · rw [interludeLines_concat, if_neg (fun h => hsome h.1)]
      exact hinterlude
    · rw [sectionLines_concat (Or.inr hsome), ← hsections]
      simp [TableScan.kept, TableLines.lines]
  · have hnone := hopen.mpr hcurrent
    refine ⟨⟨⟨hheadings, hbodies, hwf⟩, ?_, ?_⟩, hclosed⟩
    · rw [interludeLines_concat, if_neg (by simp [hrow])]
      exact hinterlude
    · rw [hsections, hnone, eq_comm, sectionLines_eq_nil_iff]
      exact List.forall_mem_append.mpr ⟨sectionLines_eq_nil_iff.mp hnone, by simpa using hheading⟩
  · have hnone := hopen.mpr hcurrent
    unfold TableScan.kept at hheadings hbodies hwf hinterlude hsections
    rw [hcurrent] at hheadings hbodies hsections
    refine ⟨⟨⟨hheadings, hbodies, ?_⟩, ?_, ?_⟩, fun _ => hclosed hcurrent⟩
    · exact List.forall_mem_append.mpr ⟨hwf, by simpa using ⟨hheading, hrow⟩⟩
    · rw [interludeLines_concat, if_pos ⟨hnone, hheading, hrow⟩, ← hinterlude]
      rfl
    · rw [hnone] at hsections
      refine hsections.trans (Eq.symm (sectionLines_eq_nil_iff.mpr ?_))
      exact List.forall_mem_append.mpr ⟨sectionLines_eq_nil_iff.mp hnone, by simpa using hheading⟩

/-- What is kept of a text. -/
theorem keptLines_holds {text : List Char} {kept : KeptLines} (h : keptLines text = .ok kept) :
    kept.Holds (fromBindings text).tail := by
  unfold keptLines at h
  cases htext : fromBindings text with
  | nil =>
    rw [htext] at h
    exact nomatch h
  | cons heading rest =>
    rw [htext] at h
    obtain ⟨s, hs, rfl⟩ := map_eq_ok_iff.mp h
    exact (foldlM_fronts ScanInv ScanInv.start step_inv hs).1

/-! ## Lines that are scanned again -/

variable {s : TableScan} {raws : List (List Char)}

/-- In front of the first heading the lines that are no rows go to the interlude. -/
theorem foldlM_interlude (h : ∀ raw ∈ raws, isHeading raw = false) (hs : s.current = none) :
    raws.foldlM TableScan.step s =
      .ok ⟨s.sections, none, s.interlude ++ raws.filter (!isBindingRow ·)⟩ := by
  induction raws generalizing s with
  | nil =>
    obtain ⟨sections, current, interlude⟩ := s
    obtain rfl : current = none := hs
    simp [pure, Except.pure]
  | cons raw raws ih =>
    obtain ⟨hraw, hraws⟩ := List.forall_mem_cons.mp h
    obtain ⟨sections, current, interlude⟩ := s
    obtain rfl : current = none := hs
    rw [List.foldlM_cons, TableScan.step, if_neg (by simp [hraw])]
    cases hrow : isBindingRow raw with
    | true =>
      rw [List.filter_cons_of_neg (by simp [hrow])]
      exact ih (s := ⟨sections, none, interlude⟩) hraws rfl
    | false =>
      rw [List.filter_cons_of_pos (by simp [hrow])]
      refine (ih (s := ⟨sections, none, interlude ++ [raw]⟩) hraws rfl).trans ?_
      rw [List.append_assoc, List.singleton_append]

/-- Behind a heading the lines go to its section. -/
theorem foldlM_body {table : TableLines} (h : ∀ raw ∈ raws, isHeading raw = false)
    (hs : s.current = some table) : raws.foldlM TableScan.step s =
      .ok ⟨s.sections, some ⟨table.heading, table.body ++ raws⟩, s.interlude⟩ := by
  induction raws generalizing s table with
  | nil =>
    obtain ⟨sections, current, interlude⟩ := s
    obtain rfl : current = some table := hs
    simp [pure, Except.pure]
  | cons raw raws ih =>
    obtain ⟨hraw, hraws⟩ := List.forall_mem_cons.mp h
    obtain ⟨sections, current, interlude⟩ := s
    obtain rfl : current = some table := hs
    rw [List.foldlM_cons, TableScan.step, if_neg (by simp [hraw])]
    let read : TableLines := ⟨table.heading, table.body ++ [raw]⟩
    refine (ih (s := ⟨sections, some read, interlude⟩) hraws rfl).trans ?_
    rw [List.append_assoc, List.singleton_append]

/-- The lines of sections are scanned to these sections. -/
theorem foldlM_tables {tables : List TableLines}
    (hheadings : ∀ table ∈ tables, isHeading table.heading = true ∧ isTable table.heading = true)
    (hbodies : ∀ table ∈ tables, ∀ raw ∈ table.body, isHeading raw = false) :
    ((tables.flatMap (·.lines)).foldlM TableScan.step s).map (·.kept) =
      .ok ⟨s.kept.sections ++ tables, s.interlude⟩ := by
  induction tables generalizing s with
  | nil => simp [pure, Except.pure, Except.map, TableScan.kept]
  | cons table tables ih =>
    obtain ⟨⟨hheading, htable⟩, hheadings⟩ := List.forall_mem_cons.mp hheadings
    obtain ⟨hbody, hbodies⟩ := List.forall_mem_cons.mp hbodies
    rw [List.flatMap_cons, List.foldlM_append, TableLines.lines, List.foldlM_cons, TableScan.step,
      if_pos hheading, if_pos htable, ok_bind, foldlM_body hbody rfl, ok_bind,
      ih hheadings hbodies]
    simp [TableScan.kept]

/-! ## A rendering that is read -/

def TableLines.closed (table : TableLines) : List (List Char) :=
  table.heading :: closeLines table.body

def KeptLines.shown (kept : KeptLines) : List (List Char) :=
  if ∀ raw ∈ kept.interlude, trim raw = [] then [] else closeLines kept.interlude

/-- The lines that a rendering has of the kept ones. -/
def TableLines.reread (table : TableLines) : TableLines :=
  ⟨dropCr table.heading, (closeLines table.body).map dropCr⟩

def KeptLines.reread (kept : KeptLines) : KeptLines :=
  ⟨kept.sections.map (·.reread), kept.shown.map dropCr⟩

theorem shown_subset (kept : KeptLines) : kept.shown ⊆ kept.interlude := by
  unfold KeptLines.shown
  split_ifs
  · exact List.nil_subset _
  · exact closeLines_subset _

theorem closed_subset (table : TableLines) : table.closed ⊆ table.lines :=
  List.cons_subset_cons _ (closeLines_subset _)

theorem lines_reread (table : TableLines) : table.reread.lines = table.closed.map dropCr := rfl

theorem reread_wellFormed {kept : KeptLines} (h : kept.WellFormed) : kept.reread.WellFormed := by
  have hmem : ∀ {ls : List (List Char)} {line : List Char}, line ∈ (closeLines ls).map dropCr →
      ∃ kept ∈ ls, line = dropCr kept := by
    intro ls line hline
    obtain ⟨kept, hkept, rfl⟩ := List.mem_map.mp hline
    exact ⟨kept, closeLines_subset ls hkept, rfl⟩
  refine ⟨?_, ?_, ?_⟩
  · refine List.forall_mem_map.mpr fun table htable => ?_
    rw [TableLines.reread, isHeading_dropCr, isTable_dropCr]
    exact h.headings table htable
  · refine List.forall_mem_map.mpr fun table htable raw hraw => ?_
    obtain ⟨line, hline, rfl⟩ := hmem hraw
    rw [isHeading_dropCr]
    exact h.bodies table htable line hline
  · refine List.forall_mem_map.mpr fun line hline => ?_
    rw [isHeading_dropCr, isBindingRow_dropCr]
    exact h.interlude line (shown_subset kept hline)

variable {kept : KeptLines} {admitted : AdmittedRegistry}

theorem render_joined {table : TableLines} (h : ∀ line ∈ table.lines, '\n' ∉ line) :
    table.joined.render = written table.closed := by
  have hbody := (List.forall_mem_cons.mp h).2
  rw [RegistryTableSection.render, TableLines.joined, terminated_joinLines hbody,
    TableLines.closed, written_cons]

/-- A rendering has the lines of the registry, and behind them what is left of the kept lines. -/
theorem renderCompleteRegistry_kept (hinterlude : ∀ line ∈ kept.interlude, '\n' ∉ line)
    (hsections : ∀ table ∈ kept.sections, ∀ line ∈ table.lines, '\n' ∉ line) :
    renderCompleteRegistry admitted (kept.sections.map (·.joined)) kept.interludeComment =
      written (registryLines admitted ++ (kept.shown ++ kept.sections.flatMap (·.closed))) := by
  have hcomment : (kept.interludeComment.map terminated).getD [] = written kept.shown := by
    unfold KeptLines.interludeComment KeptLines.shown
    by_cases hblank : ∀ raw ∈ kept.interlude, trim raw = []
    · rw [if_pos hblank, if_pos (List.isEmpty_iff.mpr (trim_joinLines_eq_nil_iff.mpr hblank))]
      rfl
    · have htrim := mt trim_joinLines_eq_nil_iff.mp hblank
      have hne : ¬ (joinLines kept.interlude).isEmpty := by
        intro hempty
        exact htrim (by rw [List.isEmpty_iff.mp hempty]; rfl)
      rw [if_neg hblank, if_neg (by simpa using htrim), ← terminated_joinLines hinterlude,
        if_neg hne]
      rfl
  have htables : (kept.sections.map (·.joined)).flatMap (·.render) =
      written (kept.sections.flatMap (·.closed)) := by
    rw [List.flatMap_map, written, List.flatMap_assoc]
    exact List.flatMap_congr fun table htable => render_joined (hsections table htable)
  rw [renderCompleteRegistry, hcomment, htables, written_append, written_append, List.append_assoc]
  rfl

theorem isBindingRow_of_isRow {raw : List Char} (h : IsRow raw) :
    isHeading raw = false ∧ isBindingRow raw = true := by
  have hrow : isBindingRow raw = true := by
    unfold isBindingRow
    rw [h.1]
    exact decide_eq_true h.2
  refine ⟨?_, hrow⟩
  by_contra hheading
  rw [Bool.not_eq_false, isHeading_eq_true_iff, hrow] at hheading
  exact absurd hheading.2.1 (by decide)

/-- Of lines behind the rendered rows the tables are scanned. -/
theorem keptLines_written {rest : List (List Char)}
    (hclean : ∀ row ∈ admitted.bindings, row.IsClean) (h : ∀ line ∈ rest, '\n' ∉ line) :
    keptLines (written (registryLines admitted ++ rest)) =
      ((rest.map dropCr).foldlM TableScan.step .start).map (·.kept) := by
  have hlines := registryLines_isLine hclean
  have hnewline : ∀ line ∈ registryLines admitted ++ rest, '\n' ∉ line :=
    List.forall_mem_append.mpr ⟨fun line hline => (hlines line hline).1, h⟩
  have hown : (registryLines admitted).map dropCr = registryLines admitted := by
    conv_rhs => rw [← List.map_id' (registryLines admitted)]
    exact List.map_congr_left fun line hline => dropCr_eq_self_iff.mpr (hlines line hline).2
  have hbefore : ∀ raw ∈ registryHeader.map (·.toList),
      decide (trim (stripComment raw) ≠ "bindings:".toList) = true :=
    List.forall_mem_map.mpr fun header hheader =>
      decide_eq_true (header_isHeader header hheader).2
  have hheading : trim (stripComment "bindings:".toList) = "bindings:".toList := by decide
  have hfrom : fromBindings (written (registryLines admitted ++ rest)) = "bindings:".toList ::
      ((sortedRows admitted.bindings).map renderRow ++ rest.map dropCr) := by
    rw [fromBindings, lines_written_map hnewline, List.map_append, hown, registryLines,
      List.append_assoc, List.dropWhile_append_of_pos hbefore, List.cons_append,
      List.dropWhile_cons_of_neg (by rw [hheading]; decide)]
  have hrows := fun raw hraw => isBindingRow_of_isRow (rows_isRow hclean raw hraw)
  have hskip : ((sortedRows admitted.bindings).map renderRow).filter (!isBindingRow ·) = [] :=
    List.filter_eq_nil_iff.mpr fun raw hraw => by simp [(hrows raw hraw).2]
  rw [keptLines, hfrom]
  dsimp only
  rw [List.foldlM_append, foldlM_interlude (fun raw hraw => (hrows raw hraw).1) rfl, hskip]
  rfl

/-- A rendering is always read, and its kept lines are those that are left. -/
theorem keptLines_renderCompleteRegistry (hclean : ∀ row ∈ admitted.bindings, row.IsClean)
    (hkept : kept.WellFormed) (hinterlude : ∀ line ∈ kept.interlude, '\n' ∉ line)
    (hsections : ∀ table ∈ kept.sections, ∀ line ∈ table.lines, '\n' ∉ line) :
    keptLines (renderCompleteRegistry admitted (kept.sections.map (·.joined))
      kept.interludeComment) = .ok kept.reread := by
  have hread := reread_wellFormed hkept
  have hnewline : ∀ line ∈ kept.shown ++ kept.sections.flatMap (·.closed), '\n' ∉ line := by
    refine List.forall_mem_append.mpr ⟨fun line hline => ?_, fun line hline => ?_⟩
    · exact hinterlude line (shown_subset kept hline)
    · obtain ⟨table, htable, hline⟩ := List.mem_flatMap.mp hline
      exact hsections table htable line (closed_subset table hline)
  have htables : (kept.sections.flatMap (·.closed)).map dropCr =
      kept.reread.sections.flatMap (·.lines) := by
    rw [List.map_flatMap, KeptLines.reread, List.flatMap_map]
    rfl
  have hall : kept.reread.interlude.filter (!isBindingRow ·) = kept.reread.interlude :=
    List.filter_eq_self.mpr fun raw hraw => by simp [(hread.interlude raw hraw).2]
  rw [renderCompleteRegistry_kept hinterlude hsections, keptLines_written hclean hnewline,
    List.map_append, htables, List.foldlM_append]
  change ((kept.reread.interlude.foldlM TableScan.step .start >>= fun s =>
    (kept.reread.sections.flatMap (·.lines)).foldlM TableScan.step s).map (·.kept)) = _
  rw [foldlM_interlude (fun raw hraw => (hread.interlude raw hraw).1) rfl, hall, ok_bind,
    foldlM_tables hread.headings hread.bodies]
  rfl

/-! ## The result -/

theorem noneLost_append {body rest : List (List Char)} (h : ∀ raw ∈ body, isHeading raw = false)
    (hrest : ∀ next ∈ rest.head?, isHeading next = true) :
    NoneLost (body ++ rest) ↔ body.getLast? ≠ some [] ∧ NoneLost rest := by
  induction body with
  | nil => simp
  | cons raw body ih =>
    obtain ⟨-, hbody⟩ := List.forall_mem_cons.mp h
    rw [List.cons_append, NoneLost, ih hbody]
    cases body with
    | nil =>
      have hnone : ¬ ∃ next ∈ ([] ++ rest).head?, isHeading next = false := by
        rintro ⟨next, hnext, hfalse⟩
        exact absurd (hrest next hnext) (by simp [hfalse])
      simp only [hnone, imp_false, List.getLast?_singleton, List.getLast?_nil, ne_eq,
        Option.some_inj, reduceCtorEq, not_false_eq_true, true_and]
    | cons next body =>
      have hsome : ∃ a ∈ (next :: body ++ rest).head?, isHeading a = false :=
        ⟨next, rfl, hbody next List.mem_cons_self⟩
      simp only [hsome, implies_true, true_and, List.getLast?_cons_cons]

theorem noneLost_tables {tables : List TableLines}
    (hheadings : ∀ table ∈ tables, isHeading table.heading = true)
    (hbodies : ∀ table ∈ tables, ∀ raw ∈ table.body, isHeading raw = false) :
    NoneLost (tables.flatMap (·.lines)) ↔ ∀ table ∈ tables, table.body.getLast? ≠ some [] := by
  induction tables with
  | nil => simp [NoneLost]
  | cons table tables ih =>
    obtain ⟨hheading, hheadings⟩ := List.forall_mem_cons.mp hheadings
    obtain ⟨hbody, hbodies⟩ := List.forall_mem_cons.mp hbodies
    have hnext : ∀ next ∈ (tables.flatMap (·.lines)).head?, isHeading next = true := by
      cases tables with
      | nil => simp
      | cons next tables =>
        simp only [List.flatMap_cons, TableLines.lines, List.cons_append, List.head?_cons,
          Option.mem_some_iff, forall_eq']
        exact hheadings next List.mem_cons_self
    have hne : table.heading ≠ [] := by
      intro hempty
      rw [hempty] at hheading
      exact absurd hheading (by decide)
    rw [List.flatMap_cons, TableLines.lines, List.cons_append, NoneLost,
      noneLost_append hbody hnext, ih hheadings hbodies, List.forall_mem_cons]
    exact and_iff_right (fun hempty => absurd hempty hne)

theorem reread_eq_self_iff {table : TableLines} : table.reread = table ↔
    (∀ line ∈ table.lines, line.getLast? ≠ some '\r') ∧ table.body.getLast? ≠ some [] := by
  obtain ⟨heading, body⟩ := table
  rw [TableLines.reread, TableLines.mk.injEq, dropCr_eq_self_iff, map_dropCr_closeLines_eq_iff,
    TableLines.lines, List.forall_mem_cons, and_assoc]

theorem shown_eq_self_iff : kept.shown.map dropCr = kept.interlude ↔
    (∀ line ∈ kept.interlude, line.getLast? ≠ some '\r') ∧ kept.interlude.getLast? ≠ some [] ∧
      (kept.interlude ≠ [] → ∃ raw ∈ kept.interlude, trim raw ≠ []) := by
  unfold KeptLines.shown
  by_cases hblank : ∀ raw ∈ kept.interlude, trim raw = []
  · have hnone : ¬ ∃ raw ∈ kept.interlude, trim raw ≠ [] := by simpa using hblank
    rw [if_pos hblank, List.map_nil]
    constructor
    · intro hempty
      rw [← hempty]
      simp
    · rintro ⟨-, -, h⟩
      by_contra hne
      exact hnone (h (Ne.symm hne))
  · have hsome : ∃ raw ∈ kept.interlude, trim raw ≠ [] := by simpa using hblank
    rw [if_neg hblank, map_dropCr_closeLines_eq_iff]
    exact and_congr_right fun _ => (and_iff_left fun _ => hsome).symm

/-- The kept lines are left as they are when the lines behind the bindings come back. -/
theorem kept_reread_iff {rest : List (List Char)} (h : kept.Holds rest) :
    kept.reread = kept ↔ Stable rest := by
  have hsections : kept.sections.map (·.reread) = kept.sections ↔
      ∀ table ∈ kept.sections, table.reread = table := by
    conv_lhs => rhs; rw [← List.map_id' kept.sections]
    exact List.map_inj_left
  have hlost := noneLost_tables (fun table htable => (h.wellFormed.headings table htable).1)
    h.wellFormed.bodies
  obtain ⟨sections, interlude⟩ := kept
  rw [KeptLines.reread, KeptLines.mk.injEq, hsections, shown_eq_self_iff]
  simp only [reread_eq_self_iff]
  constructor
  · rintro ⟨htables, hcr, hlast, hblank⟩
    refine ⟨?_, ?_, ?_, ?_⟩
    · rw [← h.interlude, ← h.sections]
      refine List.forall_mem_append.mpr ⟨hcr, fun line hline => ?_⟩
      obtain ⟨table, htable, hline⟩ := List.mem_flatMap.mp hline
      exact (htables table htable).1 line hline
    · rw [← h.sections]
      exact hlost.mpr fun table htable => (htables table htable).2
    · rw [← h.interlude]
      exact hlast
    · rw [← h.interlude]
      exact hblank
  · rintro ⟨hcr, hnone, hlast, hblank⟩
    rw [← h.interlude, ← h.sections] at hcr
    rw [← h.sections] at hnone
    rw [← h.interlude] at hlast hblank
    obtain ⟨hcr, htables⟩ := List.forall_mem_append.mp hcr
    refine ⟨fun table htable => ⟨fun line hline => ?_, hlost.mp hnone table htable⟩, hcr, hlast,
      hblank⟩
    exact htables line (List.mem_flatMap.mpr ⟨table, htable, hline⟩)

theorem newline_not_mem_kept {text : List Char} (h : keptLines text = .ok kept) :
    (∀ line ∈ kept.interlude, '\n' ∉ line) ∧
      ∀ table ∈ kept.sections, ∀ line ∈ table.lines, '\n' ∉ line := by
  obtain ⟨-, hinterlude, hsections⟩ := keptLines_holds h
  have hrest : ∀ line ∈ (fromBindings text).tail, '\n' ∉ line := fun line hline =>
    newline_not_mem_line ((List.dropWhile_sublist _).subset (List.mem_of_mem_tail hline))
  constructor
  · intro line hline
    rw [hinterlude] at hline
    exact hrest line ((List.takeWhile_prefix _).subset (List.mem_of_mem_filter hline))
  · intro table htable line hline
    refine hrest line ((List.dropWhile_sublist (!isHeading ·)).subset ?_)
    rw [← sectionLines, ← hsections]
    exact List.mem_flatMap.mpr ⟨table, htable, hline⟩

/-- Rendered over clean rows, a text is at its fixpoint when its kept lines come back. -/
theorem fixpoint_iff {text : List Char} (hclean : ∀ row ∈ admitted.bindings, row.IsClean)
    (h : keptLines text = .ok kept) : Fixpoint admitted text ↔ kept.reread = kept := by
  have hrender : ∀ {text kept}, keptLines text = .ok kept → rerender admitted text =
      .ok (renderCompleteRegistry admitted (kept.sections.map (·.joined))
        kept.interludeComment) := by
    intro text kept h
    rw [rerender, parseRegistryTables, h]
    rfl
  obtain ⟨hinterlude, hsections⟩ := newline_not_mem_kept h
  have hread := keptLines_renderCompleteRegistry hclean (keptLines_holds h).wellFormed hinterlude
    hsections
  constructor
  · rintro ⟨once, honce, -, hlines⟩
    obtain rfl := Except.ok.inj (honce.symm.trans (hrender h))
    exact Except.ok.inj (hread.symm.trans (hlines.trans h))
  · intro hkept
    rw [hkept] at hread
    exact ⟨_, hrender h, hrender hread, hread.trans h.symm⟩

end

/-- Over an admitted registry the tables of a text are at their fixpoint when the lines behind
the bindings come back. -/
theorem rerender_fixpoint_iff {text registry : List Char} {source : AdmissionSource}
    {evidence : CandidateEvidence} {admitted : AdmittedRegistry}
    {read : List RegistryTableSection × Option (List Char)}
    (hsource : parseAdmissionSource text = .ok source)
    (hadmitted : admitCandidates evidence source = .ok admitted)
    (hread : parseRegistryTables registry = .ok read) :
    Fixpoint admitted registry ↔ Stable (fromBindings registry).tail := by
  obtain ⟨kept, hkept, -⟩ := map_eq_ok_iff.mp hread
  have hclean := (admitCandidates_ok hadmitted).2 ▸ parseAdmissionSource_isClean hsource
  rw [fixpoint_iff hclean hkept, kept_reread_iff (keptLines_holds hkept)]

/-! ### Empty lines between two sections -/

namespace Sample

def gappedText : List Char := "bindings:\neditions:\n  a\n\n\nworks:\n  b\n".toList

def gappedKept : KeptLines :=
  ⟨[⟨"editions:".toList, ["  a".toList, [], []]⟩, ⟨"works:".toList, ["  b".toList]⟩], []⟩

theorem gapped_kept : keptLines gappedText = .ok gappedKept := by decide

def gappedRead : List RegistryTableSection × Option (List Char) :=
  (gappedKept.sections.map (·.joined), none)

theorem gapped_read : parseRegistryTables gappedText = .ok gappedRead := by
  rw [parseRegistryTables, gapped_kept]
  rfl

theorem rerender_fixpoint_gapped :
    Fixpoint spacedAdmitted gappedText ↔ Stable (fromBindings gappedText).tail :=
  rerender_fixpoint_iff spaced_read spaced_admitted gapped_read

end Sample

/-- Of two empty lines between two sections each rendering loses one. -/
theorem gapped_not_fixpoint : ¬ ∀ text source evidence admitted registry read,
    parseAdmissionSource text = .ok source → admitCandidates evidence source = .ok admitted →
      parseRegistryTables registry = .ok read → Fixpoint admitted registry := by
  intro hall
  have hclean := (admitCandidates_ok Sample.spaced_admitted).2 ▸
    parseAdmissionSource_isClean Sample.spaced_read
  have hkept := (fixpoint_iff hclean Sample.gapped_kept).mp
    (hall _ _ _ _ _ _ Sample.spaced_read Sample.spaced_admitted Sample.gapped_read)
  exact absurd hkept (by decide)

end LawNexus
