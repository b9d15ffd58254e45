import LawNexus.CleanedWire.Rendered

/-!
# The writer is canonical

Two values are rendered alike exactly when they are the same but for the order of members.
-/

namespace LawNexus.CleanedWire

open JsonText Loops

/-- A property of each value that its parts hand on. -/
@[elab_as_elim]
theorem Json.induction {P : Json → Prop} (null : P .null) (bool : ∀ flag, P (.bool flag))
    (number : ∀ number, P (.number number)) (str : ∀ text, P (.str text))
    (arr : ∀ items, (∀ item ∈ items, P item) → P (.arr items))
    (obj : ∀ entries, (∀ entry ∈ entries, P entry.2) → P (.obj entries)) (value : Json) :
    P value := by
  cases value with
  | null => exact null
  | bool flag => exact bool flag
  | number n => exact number n
  | str text => exact str text
  | arr items => exact arr items fun item _ => Json.induction null bool number str arr obj item
  | obj entries =>
    exact obj entries fun entry _ => Json.induction null bool number str arr obj entry.2
termination_by sizeOf value
decreasing_by
  · have hsize := List.sizeOf_lt_of_mem (by assumption : item ∈ items)
    simp only [Json.arr.sizeOf_spec]
    omega
  · have hsize := List.sizeOf_lt_of_mem (by assumption : entry ∈ entries)
    have hpair : sizeOf entry = 1 + sizeOf entry.1 + sizeOf entry.2 := rfl
    simp only [Json.obj.sizeOf_spec]
    omega

/-! ## Sorted values -/

mutual

/-- The value with the members of its objects by ascending keys. -/
def Json.sorted : Json → Json
  | .null => .null
  | .bool flag => .bool flag
  | .number number => .number number
  | .str text => .str text
  | .arr items => .arr (sortedItems items)
  | .obj entries => .obj (sortBy (·.1) (sortedEntries entries))

def sortedItems : List Json → List Json
  | [] => []
  | item :: items => item.sorted :: sortedItems items

def sortedEntries : List (String × Json) → List (String × Json)
  | [] => []
  | (key, value) :: entries => (key, value.sorted) :: sortedEntries entries

end

theorem sortedItems_eq (items : List Json) : sortedItems items = items.map Json.sorted := by
  induction items with
  | nil => rfl
  | cons item items ih => rw [sortedItems, ih, List.map_cons]

theorem sortedEntries_eq (entries : List (String × Json)) :
    sortedEntries entries = entries.map fun entry => (entry.1, entry.2.sorted) := by
  induction entries with
  | nil => rfl
  | cons entry entries ih => rw [sortedEntries, ih, List.map_cons]

theorem sorted_obj (entries : List (String × Json)) : (Json.obj entries).sorted =
    .obj ((sortBy (·.1) entries).map fun entry => (entry.1, entry.2.sorted)) := by
  rw [Json.sorted, sortedEntries_eq, sortBy_map]

theorem rendered_eq (entries : List (String × Json)) : rendered entries =
    (sortBy (·.1) entries).map fun entry => (entry.1, renderCompact entry.2) := by
  rw [rendered, renderEntries_eq, sortBy_map]

/-- The order of members is not in the text. -/
theorem render_sorted (value : Json) : renderCompact value.sorted = renderCompact value := by
  induction value using Json.induction with
  | null | bool | number | str => rw [Json.sorted]
  | arr items ih =>
    have hitems : (items.map Json.sorted).map renderCompact = items.map renderCompact := by
      rw [List.map_map]
      exact List.map_congr_left ih
    rw [Json.sorted, sortedItems_eq, renderCompact, renderCompact, renderItems_eq, renderItems_eq,
      hitems]
  | obj entries ih =>
    have hrendered : rendered ((sortBy (·.1) entries).map fun entry =>
        (entry.1, entry.2.sorted)) = rendered entries := by
      rw [rendered_eq, rendered_eq, sortBy_map, sortBy_eq_self (pairwise_sortBy _ _), List.map_map]
      exact List.map_congr_left fun entry hentry => by simp [ih entry (mem_sortBy.mp hentry)]
    rw [sorted_obj, renderCompact_obj, renderCompact_obj, hrendered]

/-! ## Texts that end themselves -/

/-- No digit comes next. -/
def NoDigit (rest : List Char) : Prop := ∀ c ∈ rest.head?, c.isDigit = false

theorem noDigit_cons {c : Char} (h : c.isDigit = false) (rest : List Char) : NoDigit (c :: rest) := by
  intro d hd
  obtain rfl := Option.some.inj hd
  exact h

/-- The text of a part says itself where it ends. -/
def Delimits {α β : Type} (text : α → List Char) (out : α → β) (a : α) : Prop :=
  ∀ b rest rest', NoDigit rest → NoDigit rest' → text a ++ rest = text b ++ rest' →
    out a = out b ∧ rest = rest'

section

variable {α β : Type} {text : α → List Char} {out : α → β} {close : Char}

/-- What stands behind the first part of a list. -/
def behind (text : α → List Char) (close : Char) (items : List α) (rest : List Char) : List Char :=
  if items = [] then close :: rest else ',' :: (separated (items.map text) ++ close :: rest)

theorem separated_behind (a : α) (items : List α) (rest : List Char) :
    separated ((a :: items).map text) ++ close :: rest = text a ++ behind text close items rest := by
  unfold behind
  split_ifs with h
  · rw [h, List.map_singleton, separated_singleton]
  · rw [List.map_cons, separated_cons (by simpa using h), List.append_assoc, List.cons_append]

theorem noDigit_behind (hclose : close.isDigit = false) (items : List α) (rest : List Char) :
    NoDigit (behind text close items rest) := by
  unfold behind
  split_ifs
  · exact noDigit_cons hclose _
  · exact noDigit_cons rfl _

/-- Parts that end themselves and do not start with the closing character are told apart in a
list. -/
theorem delimits_separated (hcomma : close ≠ ',') (hclose : close.isDigit = false)
    (hopen : ∀ a, ∃ c tail, text a = c :: tail ∧ c ≠ close) {items items' : List α}
    (hitems : ∀ a ∈ items, Delimits text out a) {rest rest' : List Char}
    (h : separated (items.map text) ++ close :: rest =
      separated (items'.map text) ++ close :: rest') :
    items.map out = items'.map out ∧ rest = rest' := by
  have hnil : ∀ (b : α) tail, close :: rest ≠ text b ++ tail ∧ close :: rest' ≠ text b ++ tail := by
    intro b tail
    obtain ⟨c, more, hb, hc⟩ := hopen b
    rw [hb]
    simp [Ne.symm hc]
  induction items generalizing items' with
  | nil =>
    cases items' with
    | nil => exact ⟨rfl, by simpa [separated] using h⟩
    | cons b items' =>
      rw [separated_behind] at h
      exact absurd h (hnil b _).1
  | cons a items ih =>
    cases items' with
    | nil =>
      rw [separated_behind] at h
      exact absurd h.symm (hnil a _).2
    | cons b items' =>
      obtain ⟨ha, hitems⟩ := List.forall_mem_cons.mp hitems
      rw [separated_behind, separated_behind] at h
      obtain ⟨hout, hbehind⟩ := ha b _ _ (noDigit_behind hclose _ _) (noDigit_behind hclose _ _) h
      unfold behind at hbehind
      split_ifs at hbehind with hlast hlast' hlast'
      · rw [hlast, hlast', List.map_singleton, List.map_singleton, hout]
        exact ⟨rfl, (List.cons.inj hbehind).2⟩
      · exact absurd (List.cons.inj hbehind).1 hcomma
      · exact absurd (List.cons.inj hbehind).1.symm hcomma
      · obtain ⟨hmap, hrest⟩ := ih hitems (List.cons.inj hbehind).2
        rw [List.map_cons, List.map_cons, hout, hmap]
        exact ⟨rfl, hrest⟩

end

theorem writeJsonString_append {text text' rest rest' : List Char}
    (h : writeJsonString text ++ rest = writeJsonString text' ++ rest') :
    text = text' ∧ rest = rest' := by
  have hform : ∀ text rest : List Char, writeJsonString text ++ rest =
      '\x22' :: (escaped text ++ '\x22' :: rest) := by simp [writeJsonString]
  rw [hform, hform] at h
  have hscan := scanJsonString_string (isStringBody_escaped text) rest
  rw [h, scanJsonString_string (isStringBody_escaped text'), Except.ok.injEq] at hscan
  subst hscan
  exact ⟨escaped_injective (List.append_cancel_right (List.cons.inj h).2), rfl⟩

theorem toDigits_append {n n' : Nat} {rest rest' : List Char} (hrest : NoDigit rest)
    (hrest' : NoDigit rest') (h : Nat.toDigits 10 n ++ rest = Nat.toDigits 10 n' ++ rest') :
    n = n' ∧ rest = rest' := by
  have htake : ∀ (n : Nat) {rest : List Char}, NoDigit rest →
      (Nat.toDigits 10 n ++ rest).takeWhile Char.isDigit = Nat.toDigits 10 n := by
    intro n rest hrest
    rw [List.takeWhile_append_of_pos (digits_toDigits n).2]
    cases rest with
    | nil => simp
    | cons c rest => simp [hrest c rfl]
  have hdigits := htake n hrest
  rw [h, htake n' hrest'] at hdigits
  rw [hdigits] at h
  have hn := congrArg (Nat.ofDigitChars 10 · 0) hdigits
  rw [Nat.ofDigitChars_ten_toDigits, Nat.ofDigitChars_ten_toDigits] at hn
  exact ⟨hn.symm, List.append_cancel_left h⟩

/-! ## Values -/

def Json.kind : Json → Nat
  | .null => 0
  | .bool _ => 1
  | .number _ => 2
  | .str _ => 3
  | .arr _ => 4
  | .obj _ => 5

/-- The kind of the values that start with a character. -/
def kindAt (c : Char) : Nat :=
  if c = 'n' then 0
  else if c = 't' ∨ c = 'f' then 1
  else if c.isDigit then 2
  else if c = '\x22' then 3
  else if c = '[' then 4
  else if c = '\x7b' then 5
  else 6

theorem kindAt_of_isDigit {c : Char} (h : c.isDigit = true) : kindAt c = 2 := by
  have hne : ∀ d : Char, d.isDigit = false → c ≠ d := by
    rintro d hd rfl
    simp [h] at hd
  unfold kindAt
  rw [if_neg (hne 'n' rfl), if_neg (not_or.mpr ⟨hne 't' rfl, hne 'f' rfl⟩), if_pos h]

theorem renderCompact_cons (value : Json) :
    ∃ c tail, renderCompact value = c :: tail ∧ kindAt c = value.kind := by
  cases value with
  | null => exact ⟨_, _, rfl, rfl⟩
  | bool flag => cases flag <;> exact ⟨_, _, rfl, rfl⟩
  | number n =>
    obtain ⟨c, tail, hdigits⟩ := List.exists_cons_of_ne_nil (digits_toDigits n).1
    refine ⟨c, tail, hdigits, kindAt_of_isDigit ((digits_toDigits n).2 c ?_)⟩
    rw [hdigits]
    exact List.mem_cons_self
  | str text => exact ⟨_, _, rfl, rfl⟩
  | arr items => exact ⟨_, _, by rw [renderCompact], rfl⟩
  | obj entries => exact ⟨_, _, by rw [renderCompact], rfl⟩

/-- What starts alike is of one kind. -/
theorem kind_eq_of_append {a b : Json} {rest rest' : List Char}
    (h : renderCompact a ++ rest = renderCompact b ++ rest') : a.kind = b.kind := by
  obtain ⟨c, tail, hc, hkind⟩ := renderCompact_cons a
  obtain ⟨c', tail', hc', hkind'⟩ := renderCompact_cons b
  rw [hc, hc', List.cons_append, List.cons_append, List.cons.injEq] at h
  rw [← hkind, ← hkind', h.1]

theorem renderCompact_ne_bracket (value : Json) :
    ∃ c tail, renderCompact value = c :: tail ∧ c ≠ ']' := by
  obtain ⟨c, tail, hc, hkind⟩ := renderCompact_cons value
  refine ⟨c, tail, hc, ?_⟩
  rintro rfl
  cases value <;> cases hkind

theorem entryText_append {entry : String × List Char} {rest : List Char} : entryText entry ++ rest =
    writeJsonString entry.1.toList ++ ':' :: (entry.2 ++ rest) := by
  simp [entryText]

/-- The text of a member of an object. -/
def memberText (entry : String × Json) : List Char := entryText (entry.1, renderCompact entry.2)

theorem delimits_memberText {entry : String × Json}
    (h : Delimits renderCompact Json.sorted entry.2) :
    Delimits memberText (fun entry => (entry.1, entry.2.sorted)) entry := by
  intro entry' rest rest' hrest hrest' heq
  unfold memberText at heq
  rw [entryText_append, entryText_append] at heq
  obtain ⟨hkey, hvalue⟩ := writeJsonString_append heq
  obtain ⟨hsorted, hrests⟩ := h entry'.2 rest rest' hrest hrest' (List.cons.inj hvalue).2
  exact ⟨Prod.ext (String.toList_inj.mp hkey) hsorted, hrests⟩

theorem renderCompact_members (entries : List (String × Json)) : renderCompact (.obj entries) =
    '\x7b' :: (separated ((sortBy (·.1) entries).map memberText) ++ ['\x7d']) := by
  have htexts : (sortBy (·.1) entries).map memberText = (rendered entries).map entryText := by
    rw [rendered_eq, List.map_map]
    rfl
  rw [renderCompact, htexts]
  rfl

theorem delimits_renderCompact (value : Json) : Delimits renderCompact Json.sorted value := by
  induction value using Json.induction with
  | null =>
    intro b rest rest' _ _ h
    have hkind := kind_eq_of_append h
    cases b <;> cases hkind
    exact ⟨rfl, List.append_cancel_left h⟩
  | bool flag =>
    intro b rest rest' _ _ h
    have hkind := kind_eq_of_append h
    cases b <;> cases hkind
    rename_i flag'
    cases flag <;> cases flag' <;> simp [renderCompact] at h <;> exact ⟨rfl, h⟩
  | number n =>
    intro b rest rest' hrest hrest' h
    have hkind := kind_eq_of_append h
    cases b <;> cases hkind
    obtain ⟨rfl, hrests⟩ := toDigits_append hrest hrest' h
    exact ⟨rfl, hrests⟩
  | str text =>
    intro b rest rest' _ _ h
    have hkind := kind_eq_of_append h
    cases b <;> cases hkind
    obtain ⟨rfl, hrests⟩ := writeJsonString_append h
    exact ⟨rfl, hrests⟩
  | arr items ih =>
    intro b rest rest' _ _ h
    have hkind := kind_eq_of_append h
    cases b <;> cases hkind
    rename_i items'
    simp only [renderCompact, renderItems_eq, List.cons_append, List.append_assoc, List.nil_append,
      List.cons.injEq, true_and] at h
    obtain ⟨hitems, hrests⟩ :=
      delimits_separated (by decide) (by decide) renderCompact_ne_bracket ih h
    rw [Json.sorted, Json.sorted, sortedItems_eq, sortedItems_eq, hitems]
    exact ⟨rfl, hrests⟩
  | obj entries ih =>
    intro b rest rest' _ _ h
    have hkind := kind_eq_of_append h
    cases b <;> cases hkind
    rename_i entries'
    simp only [renderCompact_members, List.cons_append, List.append_assoc, List.nil_append,
      List.cons.injEq, true_and] at h
    have hmembers : ∀ entry ∈ sortBy (·.1) entries,
        Delimits memberText (fun entry => (entry.1, entry.2.sorted)) entry :=
      fun entry hentry => delimits_memberText (ih entry (mem_sortBy.mp hentry))
    have hquote : ∀ entry, ∃ c tail, memberText entry = c :: tail ∧ c ≠ '\x7d' :=
      fun entry => ⟨_, _, rfl, by decide⟩
    obtain ⟨hentries, hrests⟩ := delimits_separated (by decide) (by decide) hquote hmembers h
    rw [sorted_obj, sorted_obj, hentries]
    exact ⟨rfl, hrests⟩

end LawNexus.CleanedWire
