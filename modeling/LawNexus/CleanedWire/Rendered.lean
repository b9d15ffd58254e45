import LawNexus.CleanedWire.Json
import Mathlib.Tactic.IntervalCases

/-!
# What is rendered is read

A rendered string decodes to its text, and a rendered object scans to its members.
-/

namespace LawNexus.CleanedWire

open JsonText Loops
open SourcePackage (hexDigit)

/-! ## Strings -/

theorem isHex_hexDigit {n : Nat} (h : n < 16) : isHex (hexDigit n) = true := by
  interval_cases n <;> decide

theorem isStringBody_escape (ch : Char) {text : List Char} (h : IsStringBody text) :
    IsStringBody (escape ch ++ text) := by
  unfold escape
  split_ifs with hquote hbackslash hb hf hn hr ht hcontrol
  iterate 7 exact .short (by simp [shortEscapes]) h
  · apply @IsStringBody.unicode (hex4 ch.toNat) text rfl _ h
    simp only [hex4, List.map_cons, List.map_nil, List.forall_mem_cons]
    refine ⟨?_, ?_, ?_, ?_, List.forall_mem_nil _⟩ <;>
      exact isHex_hexDigit (Nat.mod_lt _ (by omega))
  · exact .plain (by omega) hquote hbackslash h

theorem isStringBody_escaped (text : List Char) : IsStringBody (escaped text) := by
  induction text with
  | nil => exact .nil
  | cons ch text ih => exact isStringBody_escape ch ih

theorem unicodeEscape_hex4 {n : Nat} (h : n < 32) :
    unicodeEscape (hex4 n) = some (Char.ofNat n) := by
  interval_cases n <;> rfl

theorem unescapeLoop_plain {ch : Char} (h : ch ≠ '\x5c') (rest : List Char) :
    unescapeLoop (ch :: rest) = (unescapeLoop rest).map (ch :: ·) := by
  rw [unescapeLoop.eq_def]
  simp [h]

theorem unescapeLoop_short {ch decoded : Char} (hu : ch ≠ 'u')
    (h : shortEscape ch = some decoded) (rest : List Char) :
    unescapeLoop ('\x5c' :: ch :: rest) = (unescapeLoop rest).map (decoded :: ·) := by
  rw [unescapeLoop.eq_def]
  simp [hu, h]

theorem unescapeLoop_unicode {n : Nat} (h : n < 32) (rest : List Char) :
    unescapeLoop ('\x5c' :: 'u' :: (hex4 n ++ rest)) =
      (unescapeLoop rest).map (Char.ofNat n :: ·) := by
  have hcode := unicodeEscape_hex4 h
  simp only [hex4, List.map_cons, List.map_nil, List.cons_append, List.nil_append] at hcode ⊢
  rw [unescapeLoop.eq_def]
  simp [hcode]

/-- The decoder takes back what the writer puts for a character. -/
theorem unescapeLoop_escape (ch : Char) (rest : List Char) :
    unescapeLoop (escape ch ++ rest) = (unescapeLoop rest).map (ch :: ·) := by
  unfold escape
  split_ifs with hquote hbackslash hb hf hn hr ht hcontrol
  iterate 7
    subst ch
    exact unescapeLoop_short (by decide) rfl rest
  · refine (unescapeLoop_unicode hcontrol rest).trans ?_
    rw [Char.ofNat_toNat]
  · exact unescapeLoop_plain hbackslash rest

theorem unescapeLoop_escaped (text : List Char) : unescapeLoop (escaped text) = some text := by
  induction text with
  | nil => rfl
  | cons ch text ih =>
    rw [escaped, List.flatMap_cons, unescapeLoop_escape]
    unfold escaped at ih
    simp [ih]

theorem unescape_write (text : List Char) :
    unescapeJsonString (writeJsonString text) = some text := by
  unfold unescapeJsonString writeJsonString
  simp [unescapeLoop_escaped]

theorem escaped_injective : Function.Injective escaped := by
  intro text text' h
  have hread := congrArg unescapeLoop h
  rw [unescapeLoop_escaped, unescapeLoop_escaped] at hread
  exact Option.some.inj hread

/-! ## Numbers -/

theorem head?_toDigits {n : Nat} (h : 0 < n) : (Nat.toDigits 10 n).head? ≠ some '0' := by
  induction n using Nat.strong_induction_on with
  | _ n ih =>
    by_cases hlt : n < 10
    · rw [Nat.toDigits_of_lt_base hlt]
      interval_cases n <;> decide
    · rw [Nat.toDigits_of_base_le (by omega) (by omega),
        List.head?_append_of_ne_nil _ Nat.toDigits_ne_nil]
      exact ih (n / 10) (by omega) (by omega)

theorem digits_toDigits (n : Nat) : Digits (Nat.toDigits 10 n) :=
  ⟨Nat.toDigits_ne_nil, fun _ hc => Nat.isDigit_of_mem_toDigits (by omega) (by omega) hc⟩

theorem isNumber_toDigits (n : Nat) : IsNumber (Nat.toDigits 10 n) := by
  refine ⟨[], Nat.toDigits 10 n, [], [], Or.inl rfl, ?_, Or.inl rfl, Or.inl rfl, by simp⟩
  cases n with
  | zero => exact Or.inl (Nat.toDigits_zero 10)
  | succ n => exact Or.inr ⟨digits_toDigits _, head?_toDigits (by omega)⟩

/-! ## Values -/

/-- No object in the value has a key twice, and values nest at most `room` deep. -/
inductive Json.Fits : Nat → Json → Prop
  | null {room : Nat} : Fits room .null
  | bool {room : Nat} (flag : Bool) : Fits room (.bool flag)
  | number {room : Nat} (number : Nat) : Fits room (.number number)
  | str {room : Nat} (text : List Char) : Fits room (.str text)
  | arr {room : Nat} {items : List Json} : (∀ item ∈ items, Fits room item) →
    Fits (room + 1) (.arr items)
  | obj {room : Nat} {entries : List (String × Json)} : (entries.map (·.1)).Nodup →
    (∀ entry ∈ entries, Fits room entry.2) → Fits (room + 1) (.obj entries)

attribute [simp] Json.Fits.null Json.Fits.bool Json.Fits.number Json.Fits.str

theorem renderItems_eq (items : List Json) : renderItems items = items.map renderCompact := by
  induction items with
  | nil => rfl
  | cons item items ih => rw [renderItems, ih, List.map_cons]

theorem renderEntries_eq (entries : List (String × Json)) :
    renderEntries entries = entries.map fun entry => (entry.1, renderCompact entry.2) := by
  induction entries with
  | nil => rfl
  | cons entry entries ih => rw [renderEntries, ih, List.map_cons]

/-- An entry as a member: there are no blanks. -/
def entryMember (entry : String × List Char) : Member where
  before := []
  key := escaped entry.1.toList
  middle := []
  pad := []
  value := entry.2
  after := []

theorem text_entryMember (entry : String × List Char) :
    (entryMember entry).text = entryText entry := by
  simp [entryMember, Member.text, entryText, writeJsonString]

theorem spaced_entryMember (entry : String × List Char) : (entryMember entry).Spaced where
  before := blank_nil
  key := isStringBody_escaped _
  middle := blank_nil
  pad := blank_nil
  after := blank_nil

/-- The members of an object as they are rendered. -/
def rendered (entries : List (String × Json)) : List (String × List Char) :=
  sortBy (·.1) (renderEntries entries)

theorem mem_rendered {entries : List (String × Json)} {entry : String × List Char} :
    entry ∈ rendered entries ↔ ∃ e ∈ entries, (e.1, renderCompact e.2) = entry := by
  unfold rendered
  rw [mem_sortBy, renderEntries_eq, List.mem_map]

theorem keys_rendered {entries : List (String × Json)} (h : (entries.map (·.1)).Nodup) :
    ((rendered entries).map (·.1)).Nodup := by
  have hkeys : (renderEntries entries).map (·.1) = entries.map (·.1) := by
    rw [renderEntries_eq, List.map_map]
    rfl
  rw [← hkeys] at h
  exact ((sortBy_perm _ _).map _).nodup_iff.mpr h

theorem renderCompact_obj (entries : List (String × Json)) : renderCompact (.obj entries) =
    '\x7b' :: (separated (((rendered entries).map entryMember).map Member.text) ++ ['\x7d']) := by
  rw [renderCompact, List.map_map]
  simp only [Function.comp_def, text_entryMember]
  rfl

theorem keys_entryMember {entries : List (String × Json)} (h : (entries.map (·.1)).Nodup) :
    (((rendered entries).map entryMember).map (·.key)).Nodup := by
  have hkeys := keys_rendered h
  rw [List.map_map]
  rw [List.nodup_map_iff_inj_on (hkeys.of_map _)]
  intro a ha b hb heq
  apply List.inj_on_of_nodup_map hkeys ha hb
  exact String.toList_injective (escaped_injective heq)

theorem continues_rendered {Value : List Char → Prop} {entries : List (String × Json)}
    (hkeys : (entries.map (·.1)).Nodup)
    (hvalues : ∀ entry ∈ entries, Value (renderCompact entry.2)) :
    Continues Value [] ((rendered entries).map entryMember) where
  spaced := by
    intro m hm
    obtain ⟨entry, -, rfl⟩ := List.mem_map.mp hm
    exact spaced_entryMember entry
  values := by
    intro m hm
    obtain ⟨entry, hentry, rfl⟩ := List.mem_map.mp hm
    obtain ⟨e, he, rfl⟩ := mem_rendered.mp hentry
    exact hvalues e he
  distinct := keys_entryMember hkeys
  fresh := by simp

/-- What is rendered is a value of the grammar. -/
theorem isValue_render {room : Nat} {value : Json} (h : value.Fits room) :
    IsValue room (renderCompact value) := by
  induction h with
  | null => exact .literal (by simp [renderCompact])
  | bool flag => cases flag <;> exact .literal (by simp [renderCompact])
  | number n => exact .number (isNumber_toDigits n)
  | str text => exact .string (isStringBody_escaped text)
  | @arr room items _ ih =>
    rw [renderCompact, renderItems_eq]
    by_cases hitems : items = []
    · subst hitems
      exact .emptyArray blank_nil
    · have htext : items.map renderCompact =
          (items.map fun item => (⟨[], renderCompact item, []⟩ : Item)).map Item.text := by
        simp [Item.text]
      rw [htext]
      apply IsValue.array (by simpa using hitems)
      · intro i hi
        obtain ⟨item, -, rfl⟩ := List.mem_map.mp hi
        exact ⟨blank_nil, blank_nil⟩
      · intro i hi
        obtain ⟨item, hitem, rfl⟩ := List.mem_map.mp hi
        exact ih item hitem
  | @obj room entries hkeys _ ih =>
    rw [renderCompact_obj]
    by_cases hentries : rendered entries = []
    · rw [hentries]
      exact .emptyObject blank_nil
    · have hmembers := continues_rendered hkeys ih
      exact .object (by simpa using hentries) hmembers.spaced hmembers.distinct hmembers.values

/-! ## Objects -/

/-- The fields that the scan of a rendered object gives. -/
def fieldsOf (entries : List (String × Json)) : JsonFields where
  entries := ((rendered entries).map entryMember).map Member.entry

/-- A rendered object scans to its members, by ascending keys. -/
theorem parse_render {entries : List (String × Json)} (hkeys : (entries.map (·.1)).Nodup)
    (hvalues : ∀ entry ∈ entries, entry.2.Fits MAX_JSON_DEPTH) :
    JsonFields.parse (renderCompact (.obj entries)) = .ok (fieldsOf entries) := by
  refine parse_line (?_ : IsLine false _ _)
  refine ⟨continues_rendered hkeys fun entry he => isValue_render (hvalues entry he), [], _, [],
    blank_nil, blank_nil, ?_, renderCompact_obj entries⟩
  by_cases hentries : rendered entries = []
  · rw [hentries]
    exact ⟨[], .blank blank_nil, rfl⟩
  · exact ⟨[], .last (by simpa using hentries), rfl⟩

end LawNexus.CleanedWire
