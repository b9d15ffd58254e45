import LawNexus.Reader.Tokenizer

/-!
# The runs of an output

The ranges that the loop over the characters finds are those of the maximal runs.
-/

namespace LawNexus.Reader

open Loops

/-- The parts of a text from an offset on, as ranges. -/
def rangesOf : Nat → List (List Char) → List Run
  | _, [] => []
  | start, part :: parts =>
    ⟨start, start + Utf8.byteLen part, part.all Texts.isWhitespace⟩ ::
      rangesOf (start + Utf8.byteLen part) parts

theorem rangesOf_append {start : Nat} {parts parts' : List (List Char)} :
    rangesOf start (parts ++ parts') =
      rangesOf start parts ++ rangesOf (start + Utf8.byteLen parts.flatten) parts' := by
  induction parts generalizing start with
  | nil => rfl
  | cons part parts ih =>
    rw [List.cons_append, rangesOf, rangesOf, ih, List.flatten_cons, Utf8.byteLen_append,
      Nat.add_assoc, List.cons_append]

/-- The parts of a text between whitespace and no whitespace. -/
def partsOf (output : List Char) : List (List Char) := runs Texts.isWhitespace output

theorem flatten_partsOf (output : List Char) : (partsOf output).flatten = output :=
  flatten_runs _ output

theorem ne_nil_of_mem_partsOf {output part : List Char} (h : part ∈ partsOf output) :
    part ≠ [] := List.ne_nil_of_mem_splitBy h

/-- A part is whitespace where one of its characters is. -/
theorem all_of_mem_partsOf {output part : List Char} (h : part ∈ partsOf output) {c : Char}
    (hc : c ∈ part) : part.all Texts.isWhitespace = Texts.isWhitespace c := by
  have hsame : ∀ d ∈ part, Texts.isWhitespace d = Texts.isWhitespace c :=
    fun d hd => key_eq_of_mem_run h hd hc
  rw [Bool.eq_iff_iff, List.all_eq_true]
  exact ⟨fun hall => hall c hc, fun hwhite d hd => (hsame d hd).trans hwhite⟩

/-- What a turn of the loop makes of the runs so far. -/
theorem pushChar_rangesOf (front : List Char) (c : Char) :
    pushChar (rangesOf 0 (partsOf front)) (Utf8.byteLen front) c =
      rangesOf 0 (partsOf (front ++ [c])) := by
  rcases List.eq_nil_or_concat (partsOf front) with hparts | ⟨parts, part, hparts⟩
  · obtain rfl : front = [] := List.splitBy_eq_nil.mp hparts
    have hone : partsOf ([] ++ [c]) = [[c]] :=
      runs_concat_of_ne (l := []) fun b hb => by cases hb
    rw [hone, hparts]
    simp [rangesOf, pushChar]
  · rw [List.concat_eq_append] at hparts
    have hfront : parts.flatten ++ part = front := by
      rw [← flatten_partsOf front, hparts, List.flatten_append, List.flatten_singleton]
    have hpart : part ∈ partsOf front := by simp [hparts]
    have hne := ne_nil_of_mem_partsOf hpart
    have hlast : front.getLast? = part.getLast? := by
      rw [← hfront, List.getLast?_append_of_ne_nil _ hne]
    have hlen : Utf8.byteLen front = Utf8.byteLen parts.flatten + Utf8.byteLen part := by
      rw [← hfront, Utf8.byteLen_append]
    unfold pushChar
    rw [hparts, rangesOf_append, Nat.zero_add, rangesOf, rangesOf, List.getLast?_concat]
    dsimp only
    obtain ⟨d, hd⟩ := List.exists_mem_of_ne_nil part hne
    split_ifs with hsame
    · -- The last part goes on.
      have hkey : ∀ b ∈ part, Texts.isWhitespace b = Texts.isWhitespace c := by
        intro b hb
        rw [← hsame, all_of_mem_partsOf hpart hb]
      rw [partsOf, runs_concat_of_eq hparts hkey, rangesOf_append, rangesOf, rangesOf,
        List.dropLast_concat, List.all_append, Utf8.byteLen_append, Nat.zero_add, hlen]
      simp [hsame, Nat.add_assoc]
    · have hkey : ∀ b ∈ front.getLast?, Texts.isWhitespace b ≠ Texts.isWhitespace c := by
        intro b hb heq
        rw [hlast] at hb
        exact hsame ((all_of_mem_partsOf hpart (List.mem_of_mem_getLast? hb)).trans heq)
      have hparts' : partsOf (front ++ [c]) = parts ++ [part] ++ [[c]] := by
        rw [partsOf, runs_concat_of_ne hkey]
        exact congrArg (· ++ [[c]]) hparts
      rw [hparts', rangesOf_append, rangesOf_append]
      simp [rangesOf, hlen]

theorem runsFrom_rangesOf (front rest : List Char) :
    runsFrom (rangesOf 0 (partsOf front)) (Utf8.byteLen front) rest =
      rangesOf 0 (partsOf (front ++ rest)) := by
  induction rest generalizing front with
  | nil => rw [runsFrom, List.append_nil]
  | cons c rest ih =>
    have hlen : Utf8.byteLen front + c.utf8Size = Utf8.byteLen (front ++ [c]) := by simp
    rw [runsFrom, pushChar_rangesOf, hlen, ih, List.append_cons front c rest]

theorem runsOf_eq (output : List Char) : runsOf output = rangesOf 0 (partsOf output) :=
  runsFrom_rangesOf [] output

/-! ## The range of a part -/

/-- A range that selects a part of the output, which is not empty. -/
structure Selects (output : List Char) (run : Run) (part : List Char) : Prop where
  slice : Utf8.slice output run.start run.stop = some part
  stop_eq : run.stop = run.start + Utf8.byteLen part
  ne_nil : part ≠ []
  whitespace : run.whitespace = part.all Texts.isWhitespace

theorem Selects.lt {output part : List Char} {run : Run} (h : Selects output run part) :
    run.start < run.stop := by
  rw [h.stop_eq]
  exact Nat.lt_add_of_pos_right (Utf8.byteLen_pos h.ne_nil)

theorem Selects.le {output part : List Char} {run : Run} (h : Selects output run part) :
    run.stop ≤ Utf8.byteLen output := by
  obtain ⟨before, after, rfl, hstart, hstop⟩ := Utf8.slice_eq_some_iff.mp h.slice
  rw [Utf8.byteLen_append, Utf8.byteLen_append]
  omega

theorem selects_rangesOf (before : List Char) {parts : List (List Char)}
    (hne : ∀ part ∈ parts, part ≠ []) :
    List.Forall₂ (Selects (before ++ parts.flatten)) (rangesOf (Utf8.byteLen before) parts)
      parts := by
  induction parts generalizing before with
  | nil => exact .nil
  | cons part parts ih =>
    rw [List.forall_mem_cons] at hne
    have hrest := ih (before ++ part) hne.2
    rw [Utf8.byteLen_append, List.append_assoc, ← List.flatten_cons] at hrest
    refine .cons ⟨?_, rfl, hne.1, rfl⟩ hrest
    exact Utf8.slice_append before part parts.flatten

/-- The runs of an output select its maximal parts. -/
theorem selects_runsOf (output : List Char) :
    List.Forall₂ (Selects output) (runsOf output) (partsOf output) := by
  have hselects := selects_rangesOf [] fun part (h : part ∈ partsOf output) =>
    ne_nil_of_mem_partsOf h
  rwa [List.nil_append, flatten_partsOf, Utf8.byteLen_nil, ← runsOf_eq] at hselects

/-- The runs follow each other. -/
theorem pairwise_rangesOf (start : Nat) (parts : List (List Char)) :
    (rangesOf start parts).Pairwise (fun a b => a.start ≤ b.start) ∧
      ∀ run ∈ rangesOf start parts, start ≤ run.start := by
  induction parts generalizing start with
  | nil => exact ⟨.nil, fun run h => by cases h⟩
  | cons part parts ih =>
    obtain ⟨hpairs, hfrom⟩ := ih (start + Utf8.byteLen part)
    have hle : ∀ run ∈ rangesOf (start + Utf8.byteLen part) parts, start ≤ run.start :=
      fun run hrun => Nat.le_trans (Nat.le_add_right _ _) (hfrom run hrun)
    exact ⟨List.pairwise_cons.mpr ⟨hle, hpairs⟩, List.forall_mem_cons.mpr ⟨Nat.le_refl _, hle⟩⟩

end LawNexus.Reader
