import LawNexus.Chars

/-!
# Joined lines

Lines that are joined to one text, the text with a newline at its end, and what is read of it.
-/

namespace LawNexus.Chars

open Texts (isWhitespace)

variable {ls : List (List Char)}

/-- `join("\n")`. -/
def joinLines (ls : List (List Char)) : List Char := List.intercalate ['\n'] ls

/-- Lines as they are written, each with a newline behind it. -/
def written (ls : List (List Char)) : List Char := ls.flatMap (· ++ ['\n'])

/-- A text with a newline pushed to its end when it has none there. -/
def terminated (text : List Char) : List Char :=
  if text.getLast? = some '\n' then text else text ++ ['\n']

/-- The lines that are left of joined lines: the last of them, when it is empty, is their end. -/
def closeLines (ls : List (List Char)) : List (List Char) :=
  if ls.getLast? = some [] then ls.dropLast else ls

theorem written_append (ls ls' : List (List Char)) :
    written (ls ++ ls') = written ls ++ written ls' := List.flatMap_append

theorem written_cons (line : List Char) (ls : List (List Char)) :
    written (line :: ls) = line ++ '\n' :: written ls := by
  rw [written, List.flatMap_cons, List.append_assoc, List.singleton_append]
  rfl

theorem getLast?_written (hne : ls ≠ []) : (written ls).getLast? = some '\n' := by
  obtain ⟨front, last, rfl⟩ := (List.eq_nil_or_concat' ls).resolve_left hne
  rw [written_append, written, written, List.flatMap_singleton, ← List.append_assoc]
  exact List.getLast?_concat

theorem joinLines_concat (ls : List (List Char)) (last : List Char) :
    joinLines (ls ++ [last]) = written ls ++ last := by
  unfold joinLines
  induction ls with
  | nil => exact List.intercalate_singleton
  | cons line ls ih =>
    rw [List.cons_append, List.intercalate_cons_of_ne_nil (List.concat_ne_nil last ls), ih,
      written_cons, List.append_assoc, List.append_assoc, List.cons_append]
    rfl

theorem mem_joinLines {c : Char} (h : c ∈ joinLines ls) : c = '\n' ∨ ∃ line ∈ ls, c ∈ line := by
  obtain rfl | ⟨front, last, rfl⟩ := List.eq_nil_or_concat' ls
  · exact absurd h List.not_mem_nil
  · rw [joinLines_concat, List.mem_append, written, List.mem_flatMap] at h
    rcases h with ⟨line, hline, hc⟩ | hc
    · rcases List.mem_append.mp hc with hc | hc
      · exact Or.inr ⟨line, List.mem_append_left _ hline, hc⟩
      · exact Or.inl (List.mem_singleton.mp hc)
    · exact Or.inr ⟨last, List.mem_append_right _ List.mem_cons_self, hc⟩

theorem mem_joinLines_of_mem {c : Char} {line : List Char} (hline : line ∈ ls) (hc : c ∈ line) :
    c ∈ joinLines ls := by
  obtain ⟨front, back, rfl⟩ := List.append_of_mem hline
  obtain rfl | ⟨mid, last, rfl⟩ := List.eq_nil_or_concat' back
  · rw [joinLines_concat]
    exact List.mem_append_right _ hc
  · rw [← List.cons_append, ← List.append_assoc, joinLines_concat, written_append, written_cons]
    exact List.mem_append_left _ (List.mem_append_right _ (List.mem_append_left _ hc))

/-- Joined lines are blank when each line is. -/
theorem trim_joinLines_eq_nil_iff : trim (joinLines ls) = [] ↔ ∀ line ∈ ls, trim line = [] := by
  simp only [trim_eq_nil_iff]
  constructor
  · exact fun h line hline c hc => h c (mem_joinLines_of_mem hline hc)
  · intro h c hc
    rcases mem_joinLines hc with rfl | ⟨line, hline, hc⟩
    · decide
    · exact h line hline c hc

/-- Joined lines, when there is a text and it is terminated, are the lines that are left as they
are written. -/
theorem terminated_joinLines (h : ∀ line ∈ ls, '\n' ∉ line) :
    (if (joinLines ls).isEmpty then [] else terminated (joinLines ls)) =
      written (closeLines ls) := by
  obtain rfl | ⟨front, last, rfl⟩ := List.eq_nil_or_concat' ls
  · rfl
  · rw [joinLines_concat, closeLines]
    by_cases hlast : last = []
    · subst hlast
      rw [if_pos List.getLast?_concat, List.dropLast_concat, List.append_nil]
      by_cases hfront : front = []
      · subst hfront
        rfl
      · have hend := getLast?_written hfront
        have hne : ¬ (written front).isEmpty := by
          intro hempty
          simp [List.isEmpty_iff.mp hempty] at hend
        rw [if_neg hne, terminated, if_pos hend]
    · have hnewline : (written front ++ last).getLast? ≠ some '\n' := by
        rw [List.getLast?_append_of_ne_nil _ hlast]
        exact fun hend => h last (List.mem_append_right _ List.mem_cons_self)
          (List.mem_of_getLast? hend)
      have hne : ¬ (written front ++ last).isEmpty := by simp [hlast]
      have hkept : (front ++ [last]).getLast? ≠ some [] := by
        rw [List.getLast?_concat]
        exact fun heq => hlast (Option.some_inj.mp heq)
      rw [if_neg hkept, if_neg hne, terminated, if_neg hnewline, written_append, written_cons,
        List.append_assoc]
      rfl

/-! ## What is read of it -/

theorem lines_newline {line : List Char} (h : '\n' ∉ line) (rest : List Char) :
    lines (line ++ '\n' :: rest) = dropCr line :: lines rest := by
  unfold lines
  rw [linesFrom_append h, List.nil_append, linesFrom, if_pos rfl]

theorem lines_written_map (h : ∀ line ∈ ls, '\n' ∉ line) :
    lines (written ls) = ls.map dropCr := by
  induction ls with
  | nil => rfl
  | cons line ls ih =>
    obtain ⟨hline, hrest⟩ := List.forall_mem_cons.mp h
    rw [written_cons, lines_newline hline, ih hrest, List.map_cons]

theorem dropCr_eq_self_iff {line : List Char} : dropCr line = line ↔ line.getLast? ≠ some '\r' := by
  unfold dropCr
  constructor
  · intro h hlast
    rw [if_pos hlast] at h
    have hne : line ≠ [] := by
      rintro rfl
      simp at hlast
    have hlen := congrArg List.length h
    have hpos := List.length_pos_iff.mpr hne
    rw [List.length_dropLast] at hlen
    omega
  · exact fun h => if_neg h

/-- A carriage return is a blank, and goes with the blanks in front of a comment. -/
theorem stripComment_dropCr (line : List Char) : stripComment (dropCr line) = stripComment line := by
  unfold dropCr
  split_ifs with hlast
  · obtain ⟨front, last, rfl⟩ := (List.eq_nil_or_concat' line).resolve_left (by
      rintro rfl
      simp at hlast)
    rw [List.getLast?_concat, Option.some_inj] at hlast
    subst hlast
    rw [List.dropLast_concat, stripComment, stripComment, List.takeWhile_append]
    split_ifs with hwhole
    · have hfront : front.takeWhile (· ≠ '#') = front :=
        (List.takeWhile_prefix _).eq_of_length hwhole
      rw [hfront]
      exact (List.rdropWhile_concat_pos _ _ _ (by decide)).symm
    · rfl
  · rfl

theorem dropCr_subset (line : List Char) : dropCr line ⊆ line := by
  unfold dropCr
  split_ifs
  · exact List.dropLast_subset line
  · exact List.Subset.refl line

theorem closeLines_subset (ls : List (List Char)) : closeLines ls ⊆ ls := by
  unfold closeLines
  split_ifs
  · exact List.dropLast_subset ls
  · exact List.Subset.refl ls

/-- Lines come back when none ends with a carriage return and the last of them is not empty. -/
theorem map_dropCr_closeLines_eq_iff : (closeLines ls).map dropCr = ls ↔
    (∀ line ∈ ls, line.getLast? ≠ some '\r') ∧ ls.getLast? ≠ some [] := by
  have hself : ls.map dropCr = ls ↔ ∀ line ∈ ls, line.getLast? ≠ some '\r' := by
    conv_lhs => rhs; rw [← List.map_id' ls]
    rw [List.map_inj_left]
    simp only [dropCr_eq_self_iff]
  by_cases hlast : ls.getLast? = some []
  · rw [closeLines, if_pos hlast]
    have hne : ls ≠ [] := by
      rintro rfl
      simp at hlast
    have hpos := List.length_pos_iff.mpr hne
    constructor
    · intro h
      have hlen := congrArg List.length h
      rw [List.length_map, List.length_dropLast] at hlen
      omega
    · exact fun h => absurd hlast h.2
  · rw [closeLines, if_neg hlast, hself]
    exact (and_iff_left hlast).symm

end LawNexus.Chars
