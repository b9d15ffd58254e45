import LawNexus.CleanedWire.Scanned

/-!
# Arrays and objects

Over a line of characters the loops take exactly the items of an array and the members of an
object, when the scan below them takes exactly the values.
-/

namespace LawNexus.CleanedWire

open JsonText Loops

/-- A line that is cut between its characters. -/
def Source.ofText (turns : Nat) : Source where
  turns := turns
  cut start stop := some (start.take (start.length - stop.length))

theorem Source.slice_ofText (turns : Nat) (front rest : List Char) :
    (Source.ofText turns).slice (front ++ rest) rest = .ok front := by
  simp [slice, ofText]

/-! ## Blanks -/

theorem exists_skipWs (text : List Char) : ∃ pad, Blank pad ∧ text = pad ++ skipWs text :=
  ⟨_, blank_takeWhile text, List.takeWhile_append_dropWhile.symm⟩

theorem skipWs_blank {pad : List Char} (hpad : Blank pad) (text : List Char) :
    skipWs (pad ++ text) = skipWs text :=
  List.dropWhile_append_of_pos hpad

theorem skipWs_inked {text : List Char} (h : Inked text) : skipWs text = text :=
  dropWhile_blank blank_nil h

theorem inked_skipWs (text : List Char) : Inked (skipWs text) := by
  intro c hc
  have hne : skipWs text ≠ [] := List.ne_nil_of_mem (List.mem_of_mem_head? hc)
  have hhead := List.head_dropWhile_not isBlank hne
  rw [List.head?_eq_some_head hne] at hc
  obtain rfl := Option.some.inj hc
  exact hhead

theorem skipWs_skipWs (text : List Char) : skipWs (skipWs text) = skipWs text :=
  skipWs_inked (inked_skipWs text)

theorem inked_cons {c : Char} (h : isBlank c = false) (text : List Char) : Inked (c :: text) := by
  rintro d hd
  obtain rfl := Option.some.inj hd
  exact h

/-- A closing character, behind blanks. -/
theorem skipWs_cons {pad : List Char} (hpad : Blank pad) {c : Char} (h : isBlank c = false)
    (text : List Char) : skipWs (pad ++ c :: text) = c :: text := by
  rw [skipWs_blank hpad, skipWs_inked (inked_cons h text)]

/-! ## The scan of the values below -/

/-- What a value begins with. -/
def Opens (value : List Char) : Prop := ∃ c t, value = c :: t ∧ isBlank c = false ∧ c ≠ ']'

/-- On texts shorter than `limit` the scan takes exactly the values, and passes over blanks. -/
structure Scans (Value : List Char → Prop) (limit : Nat)
    (scan : List Char → Scan (List Char)) : Prop where
  opens : ∀ {value}, Value value → Opens value
  skips : ∀ text, scan (skipWs text) = scan text
  reads : ∀ {text}, text.length < limit →
    Reads (fun front => ∃ pad value, Blank pad ∧ Value value ∧ front = pad ++ value) text
      (scan text)
  takes : ∀ {value rest}, Value value → Closed rest → (value ++ rest).length < limit →
    scan (value ++ rest) = .ok rest

theorem Scans.blank {Value : List Char → Prop} {limit : Nat} {scan : List Char → Scan (List Char)}
    (h : Scans Value limit scan) {pad : List Char} (hpad : Blank pad) (text : List Char) :
    scan (pad ++ text) = scan text := by
  rw [← h.skips, skipWs_blank hpad, h.skips]

section

variable {Value : List Char → Prop} {limit : Nat} {scan : List Char → Scan (List Char)}

/-! ## Arrays -/

/-- The loop of an array behind a value. -/
def arrayRest (scan : List Char → Scan (List Char)) (turns : Nat) (rest : List Char) :
    Scan (List Char) :=
  let rest := skipWs rest
  if rest.head? = some ',' then
    let rest := skipWs rest.tail
    if rest.head? = some ']' then jsonValueError "trailing comma in JSON array"
    else arrayLoop scan turns rest
  else if rest.head? = some ']' then .ok rest.tail
  else jsonValueError "malformed JSON array separator"

theorem arrayLoop_succ (turns : Nat) (rest : List Char) :
    arrayLoop scan (turns + 1) rest = scan rest >>= arrayRest scan turns := rfl

structure AreItems (Value : List Char → Prop) (items : List Item) : Prop where
  nonempty : items ≠ []
  spaced : ∀ i ∈ items, i.Spaced
  values : ∀ i ∈ items, Value i.value

theorem areItems_singleton {item : Item} (hspaced : item.Spaced) (hvalue : Value item.value) :
    AreItems Value [item] :=
  ⟨List.cons_ne_nil _ _, List.forall_mem_singleton.mpr hspaced,
    List.forall_mem_singleton.mpr hvalue⟩

theorem AreItems.cons {item : Item} {items : List Item} (h : AreItems Value items)
    (hspaced : item.Spaced) (hvalue : Value item.value) : AreItems Value (item :: items) :=
  ⟨List.cons_ne_nil _ _, List.forall_mem_cons.mpr ⟨hspaced, h.spaced⟩,
    List.forall_mem_cons.mpr ⟨hvalue, h.values⟩⟩

theorem arrayLoop_skips (hscan : Scans Value limit scan) (turns : Nat) (text : List Char) :
    arrayLoop scan turns (skipWs text) = arrayLoop scan turns text := by
  cases turns with
  | zero => rfl
  | succ turns => rw [arrayLoop_succ, arrayLoop_succ, hscan.skips]

/-- The text is the items of an array and its bracket. -/
def ClosesArray (Value : List Char → Prop) (front : List Char) : Prop :=
  ∃ items, AreItems Value items ∧ front = separated (items.map Item.text) ++ [']']

theorem reads_arrayLoop (hscan : Scans Value limit scan) {turns : Nat} {text : List Char}
    (hlimit : text.length < limit) (hturns : text.length < turns) :
    Reads (ClosesArray Value) text (arrayLoop scan turns text) := by
  induction turns generalizing text with
  | zero => cases hturns
  | succ turns ih =>
    rw [arrayLoop_succ]
    obtain ⟨e, he⟩ | ⟨_, rest, ⟨before, value, hbefore, hvalue, rfl⟩, rfl, hr⟩ := hscan.reads hlimit
    · exact Or.inl ⟨e, by rw [he]; rfl⟩
    rw [hr, ok_bind, arrayRest]
    dsimp only
    obtain ⟨after, hafter, hrest⟩ := exists_skipWs rest
    generalize skipWs rest = ink at hrest ⊢
    subst hrest
    have hspaced : Item.Spaced ⟨before, value, after⟩ := ⟨hbefore, hafter⟩
    split_ifs with hcomma hclose hend
    · exact reads_error _
    · obtain ⟨tail, rfl⟩ : ∃ tail, ink = ',' :: tail := ⟨_, eq_cons_of_head? hcomma⟩
      have hlength : tail.length < (before ++ value ++ (after ++ ',' :: tail)).length := by
        simp only [List.length_append, List.length_cons]
        omega
      rw [List.tail_cons, arrayLoop_skips hscan]
      obtain he | ⟨_, rest, ⟨items, hitems, rfl⟩, rfl, hr⟩ :=
        ih (lt_trans hlength hlimit) (by omega)
      · exact Or.inl he
      · rw [hr]
        refine reads_ok ⟨_, hitems.cons hspaced hvalue, rfl⟩ ?_
        rw [List.map_cons, separated_cons (by simpa using hitems.nonempty)]
        simp [Item.text]
    · obtain ⟨tail, rfl⟩ : ∃ tail, ink = ']' :: tail := ⟨_, eq_cons_of_head? hend⟩
      refine reads_ok ⟨_, areItems_singleton hspaced hvalue, rfl⟩ ?_
      rw [List.map_singleton, separated_singleton]
      simp [Item.text]
    · exact reads_error _

/-- The text is an array, with blanks or items between its brackets. -/
def IsArray (Value : List Char → Prop) (text : List Char) : Prop :=
  (∃ w, Blank w ∧ text = '[' :: (w ++ [']'])) ∨
    ∃ items, AreItems Value items ∧ text = '[' :: (separated (items.map Item.text) ++ [']'])

theorem reads_scanJsonArray (hscan : Scans Value limit scan) {text : List Char}
    (h : text.head? = some '[') (hlimit : text.length < limit) :
    Reads (IsArray Value) text (scanJsonArray (.ofText limit) scan text) := by
  obtain ⟨tail, rfl⟩ : ∃ tail, text = '[' :: tail := ⟨_, eq_cons_of_head? h⟩
  rw [scanJsonArray, List.tail_cons]
  split_ifs with hend
  · obtain ⟨pad, hpad, htail⟩ := exists_skipWs tail
    generalize skipWs tail = ink at hend htail ⊢
    subst htail
    obtain ⟨tail, rfl⟩ : ∃ tail, ink = ']' :: tail := ⟨_, eq_cons_of_head? hend⟩
    exact reads_ok (Or.inl ⟨pad, hpad, rfl⟩) (by simp)
  · have hlength := Nat.lt_of_succ_lt hlimit
    rw [arrayLoop_skips hscan]
    obtain he | ⟨_, rest, ⟨items, hitems, rfl⟩, rfl, hr⟩ := reads_arrayLoop hscan hlength hlength
    · exact Or.inl he
    · rw [show (Source.ofText limit).turns = limit from rfl, hr]
      exact reads_ok (Or.inr ⟨items, hitems, rfl⟩) (by simp)

theorem arrayRest_close (turns : Nat) (rest : List Char) :
    arrayRest scan turns (']' :: rest) = .ok rest := by
  rw [arrayRest, skipWs_inked (inked_cons rfl rest)]
  rfl

theorem arrayRest_comma (hscan : Scans Value limit scan) (turns : Nat) {text : List Char}
    (h : (skipWs text).head? ≠ some ']') :
    arrayRest scan turns (',' :: text) = arrayLoop scan turns text := by
  rw [arrayRest, skipWs_inked (inked_cons rfl text), List.head?_cons, if_pos rfl, List.tail_cons]
  exact (if_neg h).trans (arrayLoop_skips hscan turns text)

/-- One turn of the loop, over an item. -/
theorem arrayLoop_item (hscan : Scans Value limit scan) {item : Item} (hspaced : item.Spaced)
    (hvalue : Value item.value) (turns : Nat) {rest : List Char} (hrest : Closed rest)
    (hlimit : (item.text ++ rest).length < limit) :
    arrayLoop scan (turns + 1) (item.text ++ rest) = arrayRest scan turns rest := by
  have hlength : (item.value ++ (item.after ++ rest)).length < limit := by
    simp only [Item.text, List.length_append] at hlimit ⊢
    omega
  rw [arrayLoop_succ, Item.text, List.append_assoc, List.append_assoc, hscan.blank hspaced.1,
    hscan.takes hvalue (closed_append hspaced.2 hrest) hlength, ok_bind, arrayRest,
    skipWs_blank hspaced.2, arrayRest]

theorem head?_skipWs_items (hscan : Scans Value limit scan) {items : List Item}
    (hitems : AreItems Value items) (rest : List Char) :
    (skipWs (separated (items.map Item.text) ++ rest)).head? ≠ some ']' := by
  obtain ⟨item, more, rfl⟩ := List.exists_cons_of_ne_nil hitems.nonempty
  obtain ⟨c, t, hvalue, hblank, hc⟩ := hscan.opens (hitems.values item List.mem_cons_self)
  have hbefore := (hitems.spaced item List.mem_cons_self).1
  have htext : ∃ tail, separated ((item :: more).map Item.text) ++ rest =
      item.before ++ c :: tail := by
    rw [List.map_cons, Item.text, hvalue]
    cases more with
    | nil => exact ⟨_, by rw [List.map_nil, separated_singleton]; simp; rfl⟩
    | cons next more => exact ⟨_, by rw [separated_cons (by simp)]; simp; rfl⟩
  obtain ⟨tail, htext⟩ := htext
  rw [htext, skipWs_cons hbefore hblank]
  simpa using hc

theorem arrayLoop_items (hscan : Scans Value limit scan) {items : List Item}
    (hitems : AreItems Value items) {turns : Nat} {rest : List Char}
    (hlimit : (separated (items.map Item.text) ++ ']' :: rest).length < limit)
    (hturns : items.length ≤ turns) :
    arrayLoop scan turns (separated (items.map Item.text) ++ ']' :: rest) = .ok rest := by
  induction items generalizing turns with
  | nil => exact absurd rfl hitems.nonempty
  | cons item items ih =>
    obtain ⟨turns, rfl⟩ := Nat.exists_eq_succ_of_ne_zero (Nat.ne_zero_of_lt hturns)
    obtain ⟨hspaced, hspaceds⟩ := List.forall_mem_cons.mp hitems.spaced
    obtain ⟨hvalue, hvalues⟩ := List.forall_mem_cons.mp hitems.values
    cases items with
    | nil =>
      rw [List.map_singleton, separated_singleton] at hlimit ⊢
      rw [arrayLoop_item hscan hspaced hvalue turns (closed_cons (by simp)) hlimit, arrayRest_close]
    | cons next more =>
      have hmore : AreItems Value (next :: more) := ⟨List.cons_ne_nil _ _, hspaceds, hvalues⟩
      rw [List.map_cons, separated_cons (by simp), List.append_assoc, List.cons_append] at hlimit ⊢
      rw [Nat.succ_eq_add_one, arrayLoop_item hscan hspaced hvalue _ (closed_cons (by simp)) hlimit,
        arrayRest_comma hscan _ (head?_skipWs_items hscan hmore _)]
      refine ih hmore ?_ (Nat.le_of_succ_le_succ hturns)
      simp only [List.length_append, List.length_cons] at hlimit ⊢
      omega

theorem scanJsonArray_empty {w : List Char} (hw : Blank w) (source : Source) (rest : List Char) :
    scanJsonArray source scan ('[' :: (w ++ ']' :: rest)) = .ok rest := by
  rw [scanJsonArray, List.tail_cons, skipWs_cons hw (by decide)]
  rfl

/-- An item takes a character at least. -/
theorem length_le_separated (hscan : Scans Value limit scan) {items : List Item}
    (hvalues : ∀ i ∈ items, Value i.value) :
    items.length ≤ (separated (items.map Item.text)).length := by
  induction items with
  | nil => exact Nat.zero_le _
  | cons item items ih =>
    obtain ⟨hvalue, hvalues⟩ := List.forall_mem_cons.mp hvalues
    obtain ⟨c, t, hc, -⟩ := hscan.opens hvalue
    have hpos : 1 ≤ item.text.length := by
      simp only [Item.text, hc, List.length_append, List.length_cons]
      omega
    cases items with
    | nil => rwa [List.map_singleton, separated_singleton]
    | cons next more =>
      have hmore := ih hvalues
      rw [List.map_cons, separated_cons (by simp)]
      simp only [List.length_append, List.length_cons] at hmore ⊢
      omega

theorem scanJsonArray_items (hscan : Scans Value limit scan) {items : List Item}
    (hitems : AreItems Value items) {rest : List Char}
    (hlimit : ('[' :: (separated (items.map Item.text) ++ ']' :: rest)).length < limit) :
    scanJsonArray (.ofText limit) scan
      ('[' :: (separated (items.map Item.text) ++ ']' :: rest)) = .ok rest := by
  have hlength := length_le_separated hscan hitems.values
  have hcount : items.length ≤ limit := by
    simp only [List.length_cons, List.length_append] at hlimit
    omega
  rw [scanJsonArray, List.tail_cons]
  refine (if_neg (head?_skipWs_items hscan hitems _)).trans ?_
  rw [arrayLoop_skips hscan]
  exact arrayLoop_items hscan hitems (Nat.lt_of_succ_lt hlimit) hcount

end

end LawNexus.CleanedWire
