import LawNexus.CleanedWire.Members

/-!
# Values

Each level of the scan takes exactly the values that nest less deep, by induction on the level.
-/

namespace LawNexus.CleanedWire

open JsonText Loops

/-- What the scan with `levels` levels takes. -/
def Below : Nat → List Char → Prop
  | 0 => fun _ => False
  | room + 1 => IsValue room

theorem isValue_of_isArray {room : Nat} {t : List Char} (h : IsArray (Below room) t) :
    IsValue room t := by
  rcases h with ⟨w, hw, rfl⟩ | ⟨items, hitems, rfl⟩
  · exact .emptyArray hw
  · cases room with
    | zero =>
      obtain ⟨item, more, rfl⟩ := List.exists_cons_of_ne_nil hitems.nonempty
      exact (hitems.values item List.mem_cons_self).elim
    | succ room => exact .array hitems.nonempty hitems.spaced hitems.values

theorem isValue_of_isBraced {room : Nat} {t : List Char} (h : IsBraced (Below room) t) :
    IsValue room t := by
  rcases h with ⟨w, hw, rfl⟩ | ⟨members, hne, hmembers, rfl⟩
  · exact .emptyObject hw
  · cases room with
    | zero =>
      obtain ⟨m, more, rfl⟩ := List.exists_cons_of_ne_nil hne
      exact (hmembers.values m List.mem_cons_self).elim
    | succ room => exact .object hne hmembers.spaced hmembers.distinct hmembers.values

theorem isNumber_cons {t : List Char} (h : IsNumber t) :
    ∃ c u, t = c :: u ∧ (c = '-' ∨ c.isDigit = true) := by
  obtain ⟨sign, int, fraction, exponent, rfl | rfl, hint, -, -, rfl⟩ := h
  · rcases hint with rfl | ⟨hdigits, -⟩
    · exact ⟨'0', _, rfl, Or.inr rfl⟩
    · obtain ⟨c, more, rfl⟩ := List.exists_cons_of_ne_nil hdigits.1
      exact ⟨c, _, rfl, Or.inr (hdigits.2 c List.mem_cons_self)⟩
  · exact ⟨'-', _, rfl, Or.inl rfl⟩

/-- A sign or a digit is none of the characters that the scan of a value looks at before. -/
theorem ne_of_number {c d : Char} (h : c = '-' ∨ c.isDigit = true) (hminus : d ≠ '-')
    (hdigit : d.isDigit = false) : c ≠ d := by
  rintro rfl
  rcases h with rfl | h
  · exact hminus rfl
  · rw [hdigit] at h
    cases h

theorem isBlank_of_number {c : Char} (h : c = '-' ∨ c.isDigit = true) : isBlank c = false := by
  simp [isBlank, ne_of_number h (d := ' ') (by decide) (by decide),
    ne_of_number h (d := '\t') (by decide) (by decide),
    ne_of_number h (d := '\n') (by decide) (by decide),
    ne_of_number h (d := '\r') (by decide) (by decide)]

theorem opens_of_isValue {room : Nat} {t : List Char} (h : IsValue room t) : Opens t := by
  cases h with
  | literal h =>
    simp only [List.mem_cons, List.not_mem_nil, or_false] at h
    rcases h with rfl | rfl | rfl <;> exact ⟨_, _, rfl, rfl, by decide⟩
  | number h =>
    obtain ⟨c, u, rfl, hc⟩ := isNumber_cons h
    exact ⟨c, u, rfl, isBlank_of_number hc, ne_of_number hc (by decide) (by decide)⟩
  | string | emptyArray | array | emptyObject | object => exact ⟨_, _, rfl, rfl, by decide⟩

/-- The scan of a value behind its blanks. -/
theorem reads_scanValue_inked {limit levels : Nat}
    (hscan : Scans (Below levels) limit (scanValue (.ofText limit) levels)) {text : List Char}
    (hlimit : text.length < limit) (htext : Inked text) :
    Reads (IsValue levels) text (scanValue (.ofText limit) (levels + 1) text) := by
  rw [scanValue, skipWs_inked htext]
  cases text with
  | nil => exact reads_error _
  | cons c text =>
    dsimp only [List.head?_cons]
    split_ifs with hquote hbrace hbracket ht hf hn hnumber
    · exact (reads_scanJsonString (by rw [hquote]; rfl)).mono fun t ⟨body, hbody, ht⟩ =>
        ht ▸ .string hbody
    · exact (reads_scanJsonObject hscan (by rw [hbrace]; rfl) hlimit).mono fun _ =>
        isValue_of_isBraced
    · exact (reads_scanJsonArray hscan (by rw [hbracket]; rfl) hlimit).mono fun _ =>
        isValue_of_isArray
    · exact (reads_scanJsonLiteral _ _).mono fun t ht => .literal (by simp [ht])
    · exact (reads_scanJsonLiteral _ _).mono fun t ht => .literal (by simp [ht])
    · exact (reads_scanJsonLiteral _ _).mono fun t ht => .literal (by simp [ht])
    · exact (reads_scanJsonNumber _).mono fun _ => .number
    · exact reads_error _

theorem scanValue_value {limit levels : Nat}
    (hscan : Scans (Below levels) limit (scanValue (.ofText limit) levels)) {value rest : List Char}
    (hvalue : IsValue levels value) (hrest : Closed rest)
    (hlimit : (value ++ rest).length < limit) :
    scanValue (.ofText limit) (levels + 1) (value ++ rest) = .ok rest := by
  rw [scanValue, skipWs_inked ((opens_of_isValue hvalue).inked rest)]
  cases hvalue with
  | literal h =>
    simp only [List.mem_cons, List.not_mem_nil, or_false] at h
    rcases h with rfl | rfl | rfl
    · exact scanJsonLiteral_append ['t', 'r', 'u', 'e'] rest
    · exact scanJsonLiteral_append ['f', 'a', 'l', 's', 'e'] rest
    · exact scanJsonLiteral_append ['n', 'u', 'l', 'l'] rest
  | @string _ body h =>
    rw [List.cons_append, List.append_assoc]
    exact scanJsonString_string h rest
  | @number _ t h =>
    have hnumber := scanJsonNumber_append h hrest.ends
    obtain ⟨c, u, rfl, hc⟩ := isNumber_cons h
    have hne := fun {d : Char} => ne_of_number (d := d) hc
    dsimp only [List.cons_append, List.head?_cons]
    rw [if_neg (hne (by decide) (by decide)), if_neg (hne (by decide) (by decide)),
      if_neg (hne (by decide) (by decide)), if_neg (hne (by decide) (by decide)),
      if_neg (hne (by decide) (by decide)), if_neg (hne (by decide) (by decide)), if_pos hc]
    exact hnumber
  | emptyArray h =>
    rw [List.cons_append, List.append_assoc]
    exact scanJsonArray_empty h _ rest
  | array hne hspaced hvalues =>
    rw [List.cons_append, List.append_assoc] at hlimit ⊢
    exact scanJsonArray_items hscan ⟨hne, hspaced, hvalues⟩ hlimit
  | emptyObject h =>
    rw [List.cons_append, List.append_assoc]
    exact scanJsonObject_empty h _ rest
  | object hne hspaced hdistinct hvalues =>
    rw [List.cons_append, List.append_assoc] at hlimit ⊢
    exact scanJsonObject_members hscan (closed_cons (by simp))
      (fun turns keys => objectRest_close _ turns keys rest) hne
      ⟨hspaced, hvalues, hdistinct, nofun⟩ hlimit

theorem scans_scanValue (limit levels : Nat) :
    Scans (Below levels) limit (scanValue (.ofText limit) levels) := by
  induction levels with
  | zero =>
    exact {
      opens := False.elim
      skips := fun _ => rfl
      reads := fun _ => reads_error _
      takes := fun h => h.elim }
  | succ levels ih =>
    have hskips : ∀ text, scanValue (.ofText limit) (levels + 1) (skipWs text) =
        scanValue (.ofText limit) (levels + 1) text := fun text => by
      rw [scanValue, scanValue, skipWs_skipWs]
    refine ⟨opens_of_isValue, hskips, fun {text} hlimit => ?_, scanValue_value ih⟩
    obtain ⟨pad, hpad, htext⟩ := exists_skipWs text
    have hlength : (skipWs text).length < limit := by
      rw [htext, List.length_append] at hlimit
      omega
    obtain ⟨e, he⟩ | ⟨value, rest, hvalue, hrest, hr⟩ :=
      reads_scanValue_inked ih hlength (inked_skipWs text)
    · exact Or.inl ⟨e, by rw [← hskips, he]⟩
    · rw [hrest] at htext
      refine Or.inr ⟨_, rest, ⟨pad, value, hpad, hvalue, rfl⟩, ?_, by rw [← hskips, hr]⟩
      rw [htext, List.append_assoc]

end LawNexus.CleanedWire
