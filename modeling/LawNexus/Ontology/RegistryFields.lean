import LawNexus.Ontology.RegistryText

/-!
# Reading a rendered row

The runtime reader looks for each key in the whole line and reads a plain value up to a space.
The result is which rows it reads back as they were written.
-/

namespace LawNexus

open Chars Loops

/-! ## Keys -/

theorem seekKey_cons (token : List Char) (prev : Option Char) (c : Char) (rest : List Char) :
    seekKey token prev (c :: rest) =
      if isKeyBoundary prev && token.isPrefixOf (c :: rest) then
        some ((c :: rest).drop token.length)
      else seekKey token (some c) rest := rfl

section

variable {token before rest : List Char} {sep : Char} {prev : Option Char}

theorem prefix_append_sep (hsep : sep ∉ token) :
    token <+: before ++ sep :: rest ↔ token <+: before := by
  refine ⟨fun h => ?_, fun h => h.trans (List.prefix_append _ _)⟩
  rcases Nat.lt_or_ge before.length token.length with hlt | hle
  · -- A longer token would reach the separator.
    have hget : token[before.length]? = some sep := by
      obtain ⟨more, hmore⟩ := h
      have hcut := congrArg (·[before.length]?) hmore
      simpa [List.getElem?_append_left hlt] using hcut
    exact absurd (List.mem_of_getElem? hget) hsep
  · exact List.prefix_of_prefix_length_le h (List.prefix_append _ _) hle

/-- The first place of a token is in front of a separator, or it is looked for behind it. -/
theorem seekKey_append_sep (hne : token ≠ []) (hsep : sep ∉ token) :
    seekKey token prev (before ++ sep :: rest) =
      ((seekKey token prev before).map (· ++ sep :: rest)).or (seekKey token (some sep) rest) := by
  induction before generalizing prev with
  | nil =>
    have hnot : token.isPrefixOf (sep :: rest) = false := by
      rw [Bool.eq_false_iff, ne_eq, List.isPrefixOf_iff_prefix]
      intro h
      exact hne (List.prefix_nil.mp ((@prefix_append_sep token [] rest sep hsep).mp h))
    simp [seekKey, hnot]
  | cons c before ih =>
    have hsame : token.isPrefixOf (c :: before ++ sep :: rest) = token.isPrefixOf (c :: before) := by
      rw [Bool.eq_iff_iff, List.isPrefixOf_iff_prefix, List.isPrefixOf_iff_prefix,
        prefix_append_sep hsep]
    rw [List.cons_append] at hsame ⊢
    rw [seekKey_cons, seekKey_cons, hsame]
    split_ifs with hfound
    · have hle : token.length ≤ (c :: before).length := by
        rw [Bool.and_eq_true, List.isPrefixOf_iff_prefix] at hfound
        exact hfound.2.length_le
      rw [← List.cons_append, List.drop_append_of_le_length hle]
      rfl
    · exact ih

/-- A character that is not in the token is passed over. -/
theorem seekKey_skip (hne : token ≠ []) (hsep : sep ∉ token) :
    seekKey token prev (sep :: rest) = seekKey token (some sep) rest :=
  @seekKey_append_sep token [] rest sep prev hne hsep

theorem seekKey_here (hne : token ≠ []) (hprev : isKeyBoundary prev = true) :
    seekKey token prev (token ++ rest) = some rest := by
  cases token with
  | nil => exact absurd rfl hne
  | cons c token =>
    have hstarts : (c :: token).isPrefixOf (c :: (token ++ rest)) = true := by
      rw [List.isPrefixOf_iff_prefix]
      exact List.prefix_append (c :: token) rest
    simp [seekKey, hprev, hstarts]

/-- The first key of a row stands behind its dash and its brace. -/
theorem seekKey_row (hne : token ≠ []) (hdash : '-' ∉ token) (hspace : ' ' ∉ token)
    (hbrace : '\x7b' ∉ token) :
    seekKey token none ('-' :: ' ' :: '\x7b' :: (token ++ rest)) = some rest := by
  rw [seekKey_skip hne hdash, seekKey_skip hne hspace, seekKey_skip hne hbrace,
    seekKey_here hne (by decide)]

end

/-- The first place of a token that has a boundary in front of it, with the text behind it.
`prev` is the character in front of the text. -/
def FirstKey (token : List Char) (prev : Option Char) (text rest : List Char) : Prop :=
  ∃ front, text = front ++ (token ++ rest) ∧ isKeyBoundary (front.getLast?.or prev) = true ∧
    ∀ front' rest', text = front' ++ (token ++ rest') →
      isKeyBoundary (front'.getLast?.or prev) = true → front.length ≤ front'.length

section

variable {token text rest rest' : List Char} {prev : Option Char}

theorem getLast?_cons_or (c : Char) (front : List Char) :
    (c :: front).getLast?.or prev = front.getLast?.or (some c) := by
  cases front with
  | nil => rfl
  | cons d front => simp [List.getLast?_cons]

theorem FirstKey.unique (h : FirstKey token prev text rest) (h' : FirstKey token prev text rest') :
    rest = rest' := by
  obtain ⟨front, htext, hbound, hfirst⟩ := h
  obtain ⟨front', htext', hbound', hfirst'⟩ := h'
  have hlength := Nat.le_antisymm (hfirst front' rest' htext' hbound')
    (hfirst' front rest htext hbound)
  obtain ⟨-, hrest⟩ := List.append_inj (htext.symm.trans htext') hlength
  exact List.append_cancel_left hrest

theorem firstKey_of_seekKey (h : seekKey token prev text = some rest) :
    FirstKey token prev text rest := by
  induction text generalizing prev with
  | nil => simp [seekKey] at h
  | cons c text ih =>
    rw [seekKey_cons] at h
    split_ifs at h with hfound
    · rw [Bool.and_eq_true, List.isPrefixOf_iff_prefix] at hfound
      obtain ⟨more, hmore⟩ := hfound.2
      have hrest : more = rest := by
        rw [← hmore, List.drop_left, Option.some.injEq] at h
        exact h
      exact ⟨[], by rw [← hrest, hmore, List.nil_append], hfound.1, fun _ _ _ _ => Nat.zero_le _⟩
    · obtain ⟨front, htext, hbound, hfirst⟩ := ih h
      refine ⟨c :: front, by rw [htext, List.cons_append], by rwa [getLast?_cons_or], ?_⟩
      intro front' rest' htext' hbound'
      cases front' with
      | nil =>
        -- A token at the start would have been found there.
        rw [List.nil_append] at htext'
        refine absurd ?_ hfound
        rw [Bool.and_eq_true, List.isPrefixOf_iff_prefix, htext']
        exact ⟨hbound', List.prefix_append _ _⟩
      | cons d front' =>
        obtain ⟨rfl, htail⟩ := List.cons.inj htext'
        rw [getLast?_cons_or] at hbound'
        exact Nat.succ_le_succ (hfirst front' rest' htail hbound')

theorem seekKey_isSome (h : FirstKey token prev text rest) (hne : token ≠ []) :
    (seekKey token prev text).isSome := by
  obtain ⟨front, rfl, hbound, -⟩ := h
  induction front generalizing prev with
  | nil => simp [seekKey_here hne (show isKeyBoundary prev = true from hbound)]
  | cons c front ih =>
    rw [List.cons_append, seekKey_cons]
    split_ifs
    · rfl
    · exact ih (by rwa [getLast?_cons_or] at hbound)

theorem seekKey_eq_some_iff (hne : token ≠ []) :
    seekKey token prev text = some rest ↔ FirstKey token prev text rest := by
  refine ⟨firstKey_of_seekKey, fun h => ?_⟩
  obtain ⟨read, hread⟩ := Option.isSome_iff_exists.mp (seekKey_isSome h hne)
  rw [hread, (firstKey_of_seekKey hread).unique h]

end

/-- A field is read at its own place, unless its key stands in front of it. -/
theorem flowField_own {key : String} (hcomma : ',' ∉ key.toList) (hspace : ' ' ∉ key.toList)
    (before rest : List Char) :
    flowField (before ++ ',' :: ' ' :: (key.toList ++ ':' :: rest)) key =
      (seekKey (key.toList ++ [':']) none before).elim (flowScalar rest) fun found =>
        flowScalar (found ++ ',' :: ' ' :: (key.toList ++ ':' :: rest)) := by
  have hne : key.toList ++ [':'] ≠ [] := by simp
  have hown : seekKey (key.toList ++ [':']) (some ',') (' ' :: (key.toList ++ ':' :: rest)) =
      some rest := by
    have hkey : key.toList ++ ':' :: rest = (key.toList ++ [':']) ++ rest := by simp
    rw [seekKey_skip hne (by simpa using hspace), hkey, seekKey_here hne (by decide)]
  unfold flowField
  rw [seekKey_append_sep hne (by simpa using hcomma), hown]
  cases seekKey (key.toList ++ [':']) none before <;> rfl

/-! ## Values -/

/-- The value that a text starts with. Behind blanks it stands between quotes, or it is what is
in front of the next comma, brace or space. A quote that is not closed is no value. -/
inductive Scalar : List Char → Option (List Char) → Prop
  | quoted {blanks value rest : List Char} (hblanks : trimStart blanks = [])
      (hvalue : '"' ∉ value) : Scalar (blanks ++ '"' :: (value ++ '"' :: rest)) (some value)
  | unclosed {blanks rest : List Char} (hblanks : trimStart blanks = []) (hrest : '"' ∉ rest) :
      Scalar (blanks ++ '"' :: rest) none
  | plain {blanks seps value rest : List Char} (hblanks : trimStart blanks = [])
      (hopen : ∀ c ∈ (seps ++ (value ++ rest)).head?, Texts.isWhitespace c = false ∧ c ≠ '"')
      (hseps : ∀ c ∈ seps, isScalarEnd c = true) (hne : value ≠ [])
      (hvalue : ∀ c ∈ value, isScalarEnd c = false)
      (hrest : ∀ c ∈ rest.head?, isScalarEnd c = true) :
      Scalar (blanks ++ (seps ++ (value ++ rest))) (some (trim value))
  | empty {blanks seps : List Char} (hblanks : trimStart blanks = [])
      (hopen : ∀ c ∈ seps.head?, Texts.isWhitespace c = false)
      (hseps : ∀ c ∈ seps, isScalarEnd c = true) : Scalar (blanks ++ seps) none

/-- A value that is read back without quotes: no blank at its ends, no space in it and no
quote in front. -/
def Plain (value : List Char) : Prop :=
  value ≠ [] ∧ trim value = value ∧ ' ' ∉ value ∧ value.head? ≠ some '"'

/-- The texts of a row that was read hold no character that ends a row or a field. -/
def Clean (value : List Char) : Prop :=
  ',' ∉ value ∧ '\x7d' ∉ value ∧ '#' ∉ value ∧ '\n' ∉ value
deriving Decidable

section

variable {value rest : List Char} {sep : Char}

theorem exists_blanks (text : List Char) :
    ∃ blanks, trimStart blanks = [] ∧ text = blanks ++ trimStart text :=
  ⟨text.takeWhile Texts.isWhitespace,
    List.dropWhile_eq_nil_iff.mpr fun _ h => List.mem_takeWhile_imp h,
    (List.takeWhile_append_dropWhile).symm⟩

theorem trimStart_append {blanks : List Char} (hblanks : trimStart blanks = [])
    (hrest : ∀ c ∈ rest.head?, Texts.isWhitespace c = false) : trimStart (blanks ++ rest) = rest := by
  unfold trimStart at hblanks ⊢
  rw [List.dropWhile_append_of_pos (List.dropWhile_eq_nil_iff.mp hblanks)]
  cases rest with
  | nil => rfl
  | cons c rest => exact List.dropWhile_cons_of_neg (by simp [hrest c rfl])

theorem dropWhile_takeWhile_nil {p : Char → Bool} {text : List Char}
    (h : (text.dropWhile p).takeWhile (fun c => !p c) = []) : text.dropWhile p = [] := by
  have hhead := List.head?_dropWhile_not p text
  cases hdrop : text.dropWhile p with
  | nil => rfl
  | cons c more => simp [hdrop] at h hhead; simp [h] at hhead

/-- Whatever the reader reads is the value by the grammar. -/
theorem scalar_flowScalar (text : List Char) : Scalar text (flowScalar text) := by
  obtain ⟨blanks, hblanks, htext⟩ := exists_blanks text
  have hhead : ∀ c ∈ (trimStart text).head?, Texts.isWhitespace c = false := by
    intro c hc
    cases hstart : trimStart text with
    | nil => simp [hstart] at hc
    | cons d more =>
      rw [hstart, List.head?_cons, Option.mem_some_iff] at hc
      exact hc ▸ not_blank_of_trimStart hstart
  unfold flowScalar
  dsimp only
  generalize trimStart text = rest at htext hhead
  subst htext
  split_ifs with hquote hempty
  · obtain ⟨more, rfl⟩ : ∃ more, rest = '"' :: more := by
      cases rest with
      | nil => simp at hquote
      | cons c more => exact ⟨more, by simpa using hquote⟩
    cases hcut : cutAt '"' more with
    | none => simpa [hcut] using Scalar.unclosed hblanks (cutAt_eq_none_iff.mp hcut)
    | some cut =>
      obtain ⟨value, after⟩ := cut
      obtain ⟨rfl, hvalue⟩ := cutAt_eq_some.mp hcut
      simpa [hcut] using @Scalar.quoted blanks value after hblanks hvalue
  · have hall := dropWhile_takeWhile_nil (List.isEmpty_iff.mp hempty)
    exact Scalar.empty hblanks hhead (List.dropWhile_eq_nil_iff.mp hall)
  · have hsplit : rest = rest.takeWhile isScalarEnd ++
        ((rest.dropWhile isScalarEnd).takeWhile (fun c => !isScalarEnd c) ++
          (rest.dropWhile isScalarEnd).dropWhile fun c => !isScalarEnd c) := by
      rw [List.takeWhile_append_dropWhile, List.takeWhile_append_dropWhile]
    have hplain := @Scalar.plain blanks (rest.takeWhile isScalarEnd)
      ((rest.dropWhile isScalarEnd).takeWhile fun c => !isScalarEnd c)
      ((rest.dropWhile isScalarEnd).dropWhile fun c => !isScalarEnd c) hblanks
    rw [← hsplit] at hplain
    refine hplain (fun c hc => ⟨hhead c hc, ?_⟩) (fun _ hc => List.mem_takeWhile_imp hc)
      (by simpa using hempty) (fun _ hc => by simpa using List.mem_takeWhile_imp hc) ?_
    · rintro rfl
      exact hquote hc
    · intro c hc
      have hnot := List.head?_dropWhile_not (fun c => !isScalarEnd c) (rest.dropWhile isScalarEnd)
      simpa [Option.mem_def.mp hc] using hnot

theorem flowScalar_eq {read : Option (List Char)} {text : List Char} (h : Scalar text read) :
    flowScalar text = read := by
  unfold flowScalar
  dsimp only
  cases h with
  | quoted hblanks hvalue =>
    rename_i blanks value rest
    have hcut : cutAt '"' (value ++ '"' :: rest) = some (value, rest) :=
      cutAt_eq_some.mpr ⟨rfl, hvalue⟩
    rw [trimStart_append hblanks (by simp; decide)]
    simp [hcut]
  | unclosed hblanks hrest =>
    rw [trimStart_append hblanks (by simp; decide)]
    simp [cutAt_eq_none_iff.mpr hrest]
  | plain hblanks hopen hseps hne hvalue hrest =>
    rename_i blanks seps value rest
    rw [trimStart_append hblanks fun c hc => (hopen c hc).1]
    have hquote : (seps ++ (value ++ rest)).head? ≠ some '"' := fun h => (hopen _ h).2 rfl
    have hstop : (value ++ rest).dropWhile isScalarEnd = value ++ rest := by
      cases value with
      | nil => exact absurd rfl hne
      | cons c value => exact List.dropWhile_cons_of_neg (by simp [hvalue c List.mem_cons_self])
    have hnone : rest.takeWhile (fun c => !isScalarEnd c) = [] := by
      cases rest with
      | nil => rfl
      | cons c rest => exact List.takeWhile_cons_of_neg (by simp [hrest c rfl])
    have hread : ((seps ++ (value ++ rest)).dropWhile isScalarEnd).takeWhile
        (fun c => !isScalarEnd c) = value := by
      rw [List.dropWhile_append_of_pos hseps, hstop, List.takeWhile_append_of_pos (by simpa),
        hnone, List.append_nil]
    rw [if_neg hquote, hread, if_neg (by simpa using hne)]
  | empty hblanks hopen hseps =>
    rename_i blanks seps
    rw [trimStart_append hblanks hopen]
    have hquote : seps.head? ≠ some '"' := by
      intro h
      exact absurd (hseps _ (List.mem_of_head? h)) (by decide)
    simp [hquote, List.dropWhile_eq_nil_iff.mpr hseps]

theorem flowScalar_eq_iff {read : Option (List Char)} {text : List Char} :
    flowScalar text = read ↔ Scalar text read :=
  ⟨fun h => h ▸ scalar_flowScalar text, flowScalar_eq⟩

theorem trimStart_blank_append (hvalue : trimStart value = [])
    (hsep : Texts.isWhitespace sep = false) :
    trimStart (' ' :: (value ++ sep :: rest)) = sep :: rest := by
  unfold trimStart at hvalue ⊢
  rw [List.dropWhile_cons_of_pos (by decide),
    List.dropWhile_append_of_pos (List.dropWhile_eq_nil_iff.mp hvalue),
    List.dropWhile_cons_of_neg (by simp [hsep])]

theorem trimStart_space_append (hvalue : trimStart value ≠ []) :
    trimStart (' ' :: (value ++ rest)) = trimStart value ++ rest := by
  unfold trimStart at hvalue ⊢
  rw [List.dropWhile_cons_of_pos (by decide)]
  induction value with
  | nil => simp at hvalue
  | cons c value ih =>
    by_cases hc : Texts.isWhitespace c = true
    · rw [List.cons_append, List.dropWhile_cons_of_pos hc, List.dropWhile_cons_of_pos hc]
      exact ih (by rwa [List.dropWhile_cons_of_pos hc] at hvalue)
    · rw [List.cons_append, List.dropWhile_cons_of_neg hc, List.dropWhile_cons_of_neg hc,
        List.cons_append]

theorem takeWhile_append_sep {p : Char → Bool} (hsep : p sep = false) :
    (value ++ sep :: rest).takeWhile p = value.takeWhile p := by
  induction value with
  | nil => simp [hsep]
  | cons c value ih => simp only [List.cons_append, List.takeWhile_cons, ih]

/-- What is read without quotes is the value only when the value is plain. The map stands for
the trim that one field gets behind the reader. -/
theorem flowScalar_iff {f : List Char → List Char} (hf : ∀ v, f (trim v) = trim v)
    (hsub : ∀ v, f v ⊆ v) (hsep : sep = ',' ∨ sep = '\x7d') (hne : value ≠ [])
    (hcomma : ',' ∉ value) (hbrace : '\x7d' ∉ value) :
    (flowScalar (' ' :: (value ++ sep :: rest))).map f = some value ↔ Plain value := by
  have hblank : Texts.isWhitespace sep = false := by rcases hsep with rfl | rfl <;> decide
  have hend : isScalarEnd sep = true := by rcases hsep with rfl | rfl <;> decide
  have hquote : sep ≠ '"' := by rcases hsep with rfl | rfl <;> decide
  unfold flowScalar
  cases hstart : trimStart value with
  | nil =>
    -- A value of blanks only is passed over, and what is read instead is trimmed.
    have hnil : trim value = [] := by
      rw [trim, hstart]
      rfl
    have hnot : ¬ Plain value := fun h => hne (h.2.1.symm.trans hnil)
    rw [trimStart_blank_append hstart hblank]
    refine iff_of_false (fun h => ?_) hnot
    simp only [List.head?_cons, Option.some.injEq, hquote, if_false] at h
    split_ifs at h
    · simp at h
    · rw [Option.map_some, hf, Option.some.injEq] at h
      rw [← h, trim_trim, h] at hnil
      exact hne hnil
  | cons c t =>
    have hsame := @trimStart_space_append value (sep :: rest) (hstart ▸ List.cons_ne_nil c t)
    rw [hstart, List.cons_append] at hsame
    have hmem : c ∈ value := (List.dropWhile_sublist _).subset (hstart ▸ List.mem_cons_self)
    have hfirst := not_blank_of_trimStart hstart
    rw [hsame]
    by_cases hc : c = '"'
    · subst hc
      have hnot : ¬ Plain value := by
        intro h
        rw [trimStart_of_trim h.2.1] at hstart
        exact h.2.2.2 (by rw [hstart]; rfl)
      refine iff_of_false (fun h => ?_) hnot
      -- What is read between quotes has none.
      simp only [List.head?_cons, if_true, List.tail_cons, Option.map_eq_some_iff,
        Prod.exists] at h
      obtain ⟨read, ⟨read', after, hcut, rfl⟩, hread⟩ := h
      exact (cutAt_eq_some.mp hcut).2 (hsub _ (hread ▸ hmem))
    · have hkeep : isScalarEnd c = false := by
        have hspace : c ≠ ' ' := by
          rintro rfl
          exact absurd hfirst (by decide)
        have hc1 : c ≠ ',' := fun heq => hcomma (heq ▸ hmem)
        have hc2 : c ≠ '\x7d' := fun heq => hbrace (heq ▸ hmem)
        simp [isScalarEnd, hspace, hc1, hc2]
      have hread : ((c :: (t ++ sep :: rest)).dropWhile isScalarEnd).takeWhile
          (fun d => !isScalarEnd d) = (c :: t).takeWhile fun d => !isScalarEnd d := by
        rw [List.dropWhile_cons_of_neg (by simp [hkeep]), ← List.cons_append,
          takeWhile_append_sep (by simp [hend])]
      have hnil : ((c :: t).takeWhile fun d => !isScalarEnd d) ≠ [] := by
        simp [hkeep]
      simp only [List.head?_cons, Option.some.injEq, hc, if_false, hread, List.isEmpty_iff, hnil,
        Option.map_some, hf]
      constructor
      · intro htrim
        have hvalue : trim value = value := by rw [← htrim, trim_trim]
        have hwhole := trimStart_of_trim hvalue
        rw [hstart] at hwhole
        have htake : ((c :: t).takeWhile fun d => !isScalarEnd d) = c :: t := by
          refine (List.takeWhile_prefix _).eq_of_length (Nat.le_antisymm ?_ ?_)
          · exact (List.takeWhile_prefix _).length_le
          · calc (c :: t).length = value.length := by rw [hwhole]
              _ = (trim ((c :: t).takeWhile fun d => !isScalarEnd d)).length := by rw [htrim]
              _ ≤ _ := length_trim_le _
        refine ⟨hne, hvalue, fun hspace => ?_, ?_⟩
        · rw [← hwhole, ← htake] at hspace
          exact absurd (List.mem_takeWhile_imp hspace) (by decide)
        · rw [← hwhole]
          simpa using hc
      · rintro ⟨-, hvalue, hspace, -⟩
        have hwhole := trimStart_of_trim hvalue
        rw [hstart] at hwhole
        rw [hwhole, List.takeWhile_eq_self_iff.mpr, hvalue]
        intro d hd
        have hd1 : d ≠ ',' := fun heq => hcomma (heq ▸ hd)
        have hd2 : d ≠ '\x7d' := fun heq => hbrace (heq ▸ hd)
        have hd3 : d ≠ ' ' := fun heq => hspace (heq ▸ hd)
        simp [isScalarEnd, hd1, hd2, hd3]

theorem flowScalar_comma_iff (hne : value ≠ []) (hcomma : ',' ∉ value) (hbrace : '\x7d' ∉ value) :
    flowScalar (' ' :: (value ++ ',' :: rest)) = some value ↔ Plain value := by
  have h : (flowScalar (' ' :: (value ++ ',' :: rest))).map id = some value ↔ Plain value :=
    flowScalar_iff (fun _ => rfl) (fun _ => List.Subset.refl _) (Or.inl rfl) hne hcomma hbrace
  rwa [Option.map_id_fun, id] at h

/-- Between quotes a value is read back when it has no quote. -/
theorem flowScalar_quoted_iff :
    flowScalar (' ' :: '"' :: (value ++ '"' :: rest)) = some value ↔ '"' ∉ value := by
  have hstart : trimStart (' ' :: '"' :: (value ++ '"' :: rest)) = '"' :: (value ++ '"' :: rest) := by
    unfold trimStart
    rw [List.dropWhile_cons_of_pos (by decide), List.dropWhile_cons_of_neg (by decide)]
  unfold flowScalar
  simp only [hstart, List.head?_cons, if_true, List.tail_cons, Option.map_eq_some_iff, Prod.exists,
    cutAt_eq_some]
  constructor
  · rintro ⟨value', after, ⟨-, hmem⟩, rfl⟩
    exact hmem
  · exact fun h => ⟨value, rest, ⟨rfl, h⟩, rfl⟩

end

end LawNexus
