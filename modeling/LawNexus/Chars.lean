import LawNexus.Texts

/-!
# Texts as lists of characters

Trimming, cutting a text into its lines, and cutting a line at a character.
-/

namespace LawNexus.Chars

open Texts

/-! ## Trim -/

def trimStart (cs : List Char) : List Char := cs.dropWhile isWhitespace

def trimEnd (cs : List Char) : List Char := cs.rdropWhile isWhitespace

def trim (cs : List Char) : List Char := trimEnd (trimStart cs)

theorem trim_toList (s : String) : (Texts.trim s).toList = trim s.toList :=
  String.toList_ofList

@[simp] theorem trim_trim (cs : List Char) : trim (trim cs) = trim cs := by
  unfold trim trimEnd trimStart
  rw [dropWhile_rdropWhile, List.rdropWhile_idempotent]

theorem trim_subset (cs : List Char) : trim cs ⊆ cs := fun _ h =>
  (List.dropWhile_sublist _).subset ((List.rdropWhile_prefix _ _).subset h)

theorem length_trim_le (cs : List Char) : (trim cs).length ≤ cs.length :=
  (List.rdropWhile_prefix _ _).length_le.trans (List.dropWhile_sublist _).length_le

theorem not_blank_of_trimStart {cs rest : List Char} {c : Char} (h : trimStart cs = c :: rest) :
    isWhitespace c = false := by
  have hhead := List.head?_dropWhile_not isWhitespace cs
  unfold trimStart at h
  simpa [h] using hhead

/-- A trimmed text starts with no blank. -/
theorem trimStart_of_trim {cs : List Char} (h : trim cs = cs) : trimStart cs = cs := by
  refine (List.dropWhile_suffix _).eq_of_length (Nat.le_antisymm ?_ ?_)
  · exact (List.dropWhile_sublist _).length_le
  · have hlen : (trim cs).length ≤ (trimStart cs).length := (List.rdropWhile_prefix _ _).length_le
    rwa [h] at hlen

/-- A text with no blank at its two ends is trimmed. -/
theorem trim_eq_self {cs : List Char} (hstart : ∀ c ∈ cs.head?, isWhitespace c = false)
    (hend : ∀ c ∈ cs.getLast?, isWhitespace c = false) : trim cs = cs := by
  have hdrop : trimStart cs = cs := by
    unfold trimStart
    cases cs with
    | nil => rfl
    | cons c cs => exact List.dropWhile_cons_of_neg (by simp [hstart c rfl])
  unfold trim
  rw [hdrop, trimEnd, List.rdropWhile_eq_self_iff]
  intro hne
  simp [hend _ (List.getLast_mem_getLast? hne)]

theorem trim_eq_nil_iff {cs : List Char} : trim cs = [] ↔ ∀ c ∈ cs, isWhitespace c = true := by
  unfold trim trimEnd trimStart
  constructor
  · intro h c hc
    rw [List.rdropWhile_eq_nil_iff] at h
    by_contra hblank
    -- A character that is no blank is still there behind the blanks of the start.
    have hkept : c ∈ cs.dropWhile isWhitespace := by
      rw [← List.takeWhile_append_dropWhile (p := isWhitespace) (l := cs), List.mem_append] at hc
      rcases hc with hc | hc
      · exact absurd (List.mem_takeWhile_imp hc) hblank
      · exact hc
    exact hblank (h c hkept)
  · intro h
    rw [List.dropWhile_eq_nil_iff.mpr h]
    rfl

/-- What is left of a trimmed text is blank only when nothing is left. -/
theorem trim_eq_nil_of_append {pat rest : List Char} (h : trim (pat ++ rest) = pat ++ rest) :
    trim rest = [] ↔ rest = [] := by
  refine ⟨fun hrest => ?_, fun hrest => by rw [hrest]; rfl⟩
  by_contra hne
  have hend : trimEnd (pat ++ rest) = pat ++ rest := by
    have hsame := h
    rwa [trim, trimStart_of_trim h] at hsame
  have hlast := (List.rdropWhile_eq_self_iff.mp hend) (by simp [hne])
  rw [List.getLast_append_of_ne_nil _ hne] at hlast
  exact hlast (trim_eq_nil_iff.mp hrest _ (List.getLast_mem hne))

/-! ## Lines -/

/-- A line loses the carriage return before its newline. -/
def dropCr (line : List Char) : List Char :=
  if line.getLast? = some '\r' then line.dropLast else line

/-- `str::lines`, with the line that is being read. -/
def linesFrom (line : List Char) : List Char → List (List Char)
  | [] => if line.isEmpty then [] else [line]
  | c :: rest => if c = '\n' then dropCr line :: linesFrom [] rest else linesFrom (line ++ [c]) rest

def lines (text : List Char) : List (List Char) := linesFrom [] text

/-- A line as it is written: neither a newline in it nor a carriage return at its end. -/
def IsLine (line : List Char) : Prop := '\n' ∉ line ∧ line.getLast? ≠ some '\r'
deriving Decidable

theorem linesFrom_append {xs : List Char} (h : '\n' ∉ xs) (line rest : List Char) :
    linesFrom line (xs ++ rest) = linesFrom (line ++ xs) rest := by
  induction xs generalizing line with
  | nil => simp
  | cons x xs ih =>
    rw [List.mem_cons, not_or] at h
    rw [List.cons_append, linesFrom, if_neg (Ne.symm h.1), ih h.2]
    simp

theorem lines_line {line : List Char} (h : IsLine line) (rest : List Char) :
    lines (line ++ '\n' :: rest) = line :: lines rest := by
  unfold lines
  rw [linesFrom_append h.1, List.nil_append, linesFrom, if_pos rfl, dropCr, if_neg h.2]

/-- Lines that are written one after the other are read back. -/
theorem lines_written {written : List (List Char)} (h : ∀ line ∈ written, IsLine line) :
    lines (written.flatMap (· ++ ['\n'])) = written := by
  induction written with
  | nil => rfl
  | cons line written ih =>
    obtain ⟨hline, hrest⟩ := List.forall_mem_cons.mp h
    rw [List.flatMap_cons, List.append_assoc, List.singleton_append, lines_line hline, ih hrest]

theorem linesFrom_subset {line text read : List Char} (h : read ∈ linesFrom line text) :
    ∀ c ∈ read, c ∈ line ∨ c ∈ text ∧ c ≠ '\n' := by
  induction text generalizing line with
  | nil =>
    unfold linesFrom at h
    split_ifs at h
    · simp at h
    · rw [List.mem_singleton.mp h]
      exact fun c hc => Or.inl hc
  | cons x text ih =>
    unfold linesFrom at h
    split_ifs at h with hx
    · rcases List.mem_cons.mp h with rfl | h
      · intro c hc
        left
        unfold dropCr at hc
        split_ifs at hc
        · exact List.dropLast_subset _ hc
        · exact hc
      · intro c hc
        rcases ih h c hc with hc | ⟨hc, hne⟩
        · simp at hc
        · exact Or.inr ⟨List.mem_cons_of_mem _ hc, hne⟩
    · intro c hc
      rcases ih h c hc with hc | ⟨hc, hne⟩
      · rcases List.mem_append.mp hc with hc | hc
        · exact Or.inl hc
        · rw [List.mem_singleton.mp hc]
          exact Or.inr ⟨List.mem_cons_self, hx⟩
      · exact Or.inr ⟨List.mem_cons_of_mem _ hc, hne⟩

theorem newline_not_mem_line {text line : List Char} (h : line ∈ lines text) : '\n' ∉ line := by
  intro hmem
  rcases linesFrom_subset h _ hmem with hc | ⟨-, hne⟩
  · simp at hc
  · exact hne rfl

/-! ## Cuts -/

/-- The text before the first place of a character, and the text behind it. -/
def cutAt (c : Char) : List Char → Option (List Char × List Char)
  | [] => none
  | d :: rest =>
    if d = c then some ([], rest) else (cutAt c rest).map fun cut => (d :: cut.1, cut.2)

theorem cutAt_eq_some {c : Char} {cs before after : List Char} :
    cutAt c cs = some (before, after) ↔ cs = before ++ c :: after ∧ c ∉ before := by
  induction cs generalizing before with
  | nil => simp [cutAt]
  | cons d cs ih =>
    unfold cutAt
    split_ifs with hd
    · subst hd
      cases before with
      | nil => simp [eq_comm]
      | cons e before => simp; tauto
    · cases before with
      | nil => simp [hd]
      | cons e before =>
        simp only [Option.map_eq_some_iff, Prod.exists, Prod.mk.injEq, List.cons.injEq,
          List.cons_append, List.mem_cons, not_or]
        constructor
        · rintro ⟨before', after', hcut, ⟨rfl, rfl⟩, rfl⟩
          obtain ⟨hcs, hmem⟩ := ih.mp hcut
          exact ⟨⟨rfl, hcs⟩, Ne.symm hd, hmem⟩
        · rintro ⟨⟨rfl, hcs⟩, -, hmem⟩
          exact ⟨before, after, ih.mpr ⟨hcs, hmem⟩, ⟨rfl, rfl⟩, rfl⟩

theorem cutAt_eq_none_iff {c : Char} {cs : List Char} : cutAt c cs = none ↔ c ∉ cs := by
  induction cs with
  | nil => simp [cutAt]
  | cons d cs ih =>
    unfold cutAt
    split_ifs with hd
    · simp [hd]
    · simp [ih, Ne.symm hd]

theorem isPrefixOf?_eq_some {pat text rest : List Char} :
    pat.isPrefixOf? text = some rest ↔ text = pat ++ rest := by
  induction pat generalizing text with
  | nil => simp [List.isPrefixOf?, eq_comm]
  | cons c pat ih =>
    cases text with
    | nil => simp [List.isPrefixOf?]
    | cons d text =>
      rw [List.isPrefixOf?, List.cons_append, List.cons.injEq]
      split_ifs with hcd
      · rw [ih]
        exact ⟨fun h => ⟨(eq_of_beq hcd).symm, h⟩, fun h => h.2⟩
      · exact iff_of_false nofun fun h => hcd (beq_iff_eq.mpr h.1.symm)

/-- A text that starts with one pattern does not start with another one. -/
theorem isPrefixOf?_apart {pat pat' text rest : List Char} (h : pat.isPrefixOf? text = some rest)
    (hne : ¬ pat <+: pat') (hne' : ¬ pat' <+: pat) : pat'.isPrefixOf? text = none := by
  rw [Option.eq_none_iff_forall_ne_some]
  intro rest' h'
  have hpat : pat <+: text := ⟨rest, (isPrefixOf?_eq_some.mp h).symm⟩
  have hpat' : pat' <+: text := ⟨rest', (isPrefixOf?_eq_some.mp h').symm⟩
  exact (List.prefix_or_prefix_of_prefix hpat hpat').elim hne hne'

/-- A part of a split text holds characters of the text, and not the one it was split at. -/
theorem of_mem_splitOn {c : Char} {cs part : List Char} (h : part ∈ cs.splitOn c) :
    ∀ d ∈ part, d ∈ cs ∧ d ≠ c := by
  induction cs generalizing part with
  | nil =>
    rw [List.splitOn_nil, List.mem_singleton] at h
    simp [h]
  | cons x cs ih =>
    have hrest : ∀ part ∈ cs.splitOn c, ∀ d ∈ part, d ∈ x :: cs ∧ d ≠ c := fun part hpart d hd =>
      ⟨List.mem_cons_of_mem _ (ih hpart d hd).1, (ih hpart d hd).2⟩
    rw [List.splitOn, List.splitOnP_cons_eq_if_modifyHead] at h
    split_ifs at h with hx
    · rcases List.mem_cons.mp h with rfl | h
      · simp
      · exact hrest part h
    · obtain ⟨head, tail, hsplit⟩ := List.exists_cons_of_ne_nil (List.splitOnP_ne_nil (· == c) cs)
      rw [hsplit, List.modifyHead_cons] at h
      rcases List.mem_cons.mp h with rfl | h
      · intro d hd
        rcases List.mem_cons.mp hd with rfl | hd
        · exact ⟨List.mem_cons_self, by simpa using hx⟩
        · exact hrest head (by rw [List.splitOn, hsplit]; exact List.mem_cons_self) d hd
      · exact hrest part (by rw [List.splitOn, hsplit]; exact List.mem_cons_of_mem _ h)

/-- A line without its comment. -/
def stripComment (line : List Char) : List Char := trimEnd (line.takeWhile (· ≠ '#'))

theorem stripComment_subset (line : List Char) : stripComment line ⊆ line := fun _ h =>
  (List.takeWhile_prefix _).subset ((List.rdropWhile_prefix _ _).subset h)

/-- A trimmed line without a comment stays as it is. -/
theorem trim_stripComment {line : List Char} (hhash : '#' ∉ line) (htrim : trim line = line) :
    trim (stripComment line) = line := by
  have hwhole : line.takeWhile (· ≠ '#') = line := by
    rw [List.takeWhile_eq_self_iff]
    intro c hc
    simpa using ne_of_mem_of_not_mem hc hhash
  have hend : trimEnd line = line := by
    have h := htrim
    rwa [trim, trimStart_of_trim htrim] at h
  rw [stripComment, hwhole, hend, htrim]

theorem hash_not_mem_stripComment (line : List Char) : '#' ∉ stripComment line := by
  intro h
  simpa using List.mem_takeWhile_imp ((List.rdropWhile_prefix _ _).subset h)

end LawNexus.Chars
