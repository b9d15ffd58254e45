import LawNexus.CleanedWire.Items

/-!
# Fields of a line

What the accessors of the reader give for a field: the value that was rendered, where there is one,
and never a panic.
-/

namespace LawNexus.CleanedWire

open Chars JsonText Loops
open Texts (isWhitespace)

/-! ## Trim -/

theorem not_whitespace_of_isDigit {c : Char} (h : c.isDigit = true) : isWhitespace c = false := by
  have hlt := lt_of_isDigit c h
  simp only [Char.isDigit, Bool.and_eq_true, decide_eq_true_eq] at h
  have hge : 48 ≤ c.toNat := UInt32.le_iff_toNat_le.mp h.1
  unfold isWhitespace
  simp
  omega

theorem Digits.getLast? {digits : List Char} (h : Digits digits) :
    ∃ d, d.isDigit = true ∧ digits.getLast? = some d := by
  obtain ⟨hne, hdigits⟩ := h
  exact ⟨_, hdigits _ (List.getLast_mem hne), List.getLast?_eq_some_getLast hne⟩

theorem isNumber_getLast? {t : List Char} (h : IsNumber t) :
    ∃ d, d.isDigit = true ∧ t.getLast? = some d := by
  obtain ⟨sign, int, fraction, exponent, -, hint, hfraction, hexponent, rfl⟩ := h
  have hi : ∃ d, d.isDigit = true ∧ int.getLast? = some d := by
    rcases hint with rfl | ⟨hdigits, -⟩
    · exact ⟨'0', rfl, rfl⟩
    · exact Digits.getLast? hdigits
  have hf : ∃ d, d.isDigit = true ∧ (int ++ fraction).getLast? = some d := by
    rcases hfraction with rfl | ⟨digits, hdigits, rfl⟩
    · simpa using hi
    · obtain ⟨d, hd, hlast⟩ := Digits.getLast? hdigits
      exact ⟨d, hd, by simp [List.getLast?_append, List.getLast?_cons, hlast]⟩
  have he : ∃ d, d.isDigit = true ∧ ((int ++ fraction) ++ exponent).getLast? = some d := by
    rcases hexponent with rfl | ⟨e, sign, digits, -, -, hdigits, rfl⟩
    · simpa using hf
    · obtain ⟨d, hd, hlast⟩ := Digits.getLast? hdigits
      exact ⟨d, hd, by simp [List.getLast?_append, List.getLast?_cons, hlast]⟩
  obtain ⟨d, hd, hlast⟩ := he
  have hassoc : sign ++ (int ++ (fraction ++ exponent)) =
      sign ++ ((int ++ fraction) ++ exponent) := by simp
  refine ⟨d, hd, ?_⟩
  rw [hassoc, List.getLast?_append, hlast]
  rfl

/-- A value has no whitespace at its ends. -/
theorem trim_value {room : Nat} {value : List Char} (h : IsValue room value) :
    trim value = value := by
  apply trim_eq_self
  · intro c hc
    cases h with
    | literal h =>
      simp only [List.mem_cons, List.not_mem_nil, or_false] at h
      rcases h with rfl | rfl | rfl <;> obtain rfl := Option.some.inj hc <;> decide
    | number h =>
      obtain ⟨d, u, rfl, hd⟩ := isNumber_cons h
      obtain rfl := Option.some.inj hc
      rcases hd with rfl | hd
      · decide
      · exact not_whitespace_of_isDigit hd
    | string | emptyArray | array | emptyObject | object =>
      obtain rfl := Option.some.inj hc
      decide
  · intro c hc
    cases h with
    | literal h =>
      simp only [List.mem_cons, List.not_mem_nil, or_false] at h
      rcases h with rfl | rfl | rfl <;> obtain rfl := Option.some.inj hc <;> decide
    | number h =>
      obtain ⟨d, hd, hlast⟩ := isNumber_getLast? h
      rw [hlast] at hc
      obtain rfl := Option.some.inj hc
      exact not_whitespace_of_isDigit hd
    | string | emptyArray | array | emptyObject | object =>
      rw [List.getLast?_cons_of_ne_nil (by simp), List.getLast?_concat] at hc
      obtain rfl := Option.some.inj hc
      decide

/-! ## Arrays of strings -/

theorem parseItems_blank {inner : List Char} (h : Blank inner) :
    parseItems inner = .ok (some []) := by
  have hskip : skipWs (Utf8.byteChars inner) = [] := by
    rw [skipWs_byteChars, ← List.append_nil inner, skipWs_blank h]
    rfl
  unfold parseItems Source.ofRaw
  simp [itemsLoop, hskip]

theorem parseItems_items {room : Nat} {items : List Item} (hspaced : ∀ i ∈ items, i.Spaced)
    (hvalues : ∀ i ∈ items, IsValue room i.value) :
    parseItems (separated (items.map Item.text)) = .ok (itemTexts items) := by
  have hcount := length_le_separated (scans_scanValue 0 (room + 1)) hvalues
  have hbytes := length_le_byteLen (separated (items.map Item.text))
  have hturns : items.length < Utf8.byteLen (separated (items.map Item.text)) + 1 := by omega
  unfold parseItems
  refine (itemsLoop_items hspaced hvalues List.suffix_rfl hturns []).trans ?_
  simp

/-- The slices of the loop lie in the text, whatever the values in the array are. -/
theorem stringArrayField_ok {room : Nat} {fields : JsonFields} {key : String}
    (h : ∀ raw ∈ fields.get key, IsValue room raw) : ∃ r, stringArrayField fields key = .ok r := by
  unfold stringArrayField
  cases hget : fields.get key with
  | none => exact ⟨none, rfl⟩
  | some raw =>
    have hvalue := h raw hget
    dsimp only
    rw [trim_value hvalue]
    split_ifs with hbrackets
    · have hitems : ∃ r, parseItems raw.tail.dropLast = .ok r := by
        cases hvalue with
        | @emptyArray _ w hw =>
          rw [List.tail_cons, List.dropLast_concat]
          exact ⟨_, parseItems_blank hw⟩
        | @array _ items _ hspaced hvalues =>
          rw [List.tail_cons, List.dropLast_concat]
          exact ⟨_, parseItems_items hspaced hvalues⟩
        | literal h =>
          simp only [List.mem_cons, List.not_mem_nil, or_false] at h
          rcases h with rfl | rfl | rfl <;> simp at hbrackets
        | number h =>
          obtain ⟨c, u, rfl, hc⟩ := isNumber_cons h
          obtain rfl := Option.some.inj hbrackets.1
          simp at hc
        | string | emptyObject | object => simp at hbrackets
      obtain ⟨r, hr⟩ := hitems
      rw [hr]
      exact ⟨_, rfl⟩
    · exact ⟨none, rfl⟩

/-! ## Fields that hold a value -/

/-- The field is the value as it is rendered. -/
def JsonFields.Holds (fields : JsonFields) (key : String) (value : Json) : Prop :=
  fields.get key = some (renderCompact value)

/-- An object whose members the reader finds: its keys are distinct and stand in the text as they
are, and its values nest within the bound. -/
structure Readable (entries : List (String × Json)) : Prop where
  distinct : (entries.map (·.1)).Nodup
  plain : ∀ entry ∈ entries, escaped entry.1.toList = entry.1.toList
  fits : ∀ entry ∈ entries, entry.2.Fits MAX_JSON_DEPTH

section

variable {fields : JsonFields} {key : String} {room : Nat}

theorem holds_fieldsOf {entries : List (String × Json)} (h : Readable entries) :
    ∀ entry ∈ entries, (fieldsOf entries).Holds entry.1 entry.2 := by
  rintro ⟨key, value⟩ hmem
  have hentry : (key, renderCompact value) ∈ rendered entries :=
    mem_rendered.mpr ⟨(key, value), hmem, rfl⟩
  have hkeys : ((fieldsOf entries).entries.map (·.1)).Nodup := by
    have hnodup := keys_entryMember h.distinct
    rwa [fieldsOf, List.map_map]
  have hfind := find?_key hkeys (List.mem_map_of_mem (List.mem_map_of_mem hentry))
  rw [show (entryMember (key, renderCompact value)).entry.1 = escaped key.toList from rfl,
    h.plain _ hmem] at hfind
  unfold JsonFields.Holds JsonFields.get
  rw [hfind]
  rfl

theorem parseFields_render {entries : List (String × Json)} (h : Readable entries) :
    parseFields (renderCompact (.obj entries)) = .ok (fieldsOf entries) := by
  unfold parseFields
  rw [parse_render h.distinct h.fits]
  rfl

theorem trim_render {value : Json} (h : value.Fits room) :
    trim (renderCompact value) = renderCompact value :=
  trim_value (isValue_render h)

theorem stringField_str {text : List Char} (h : fields.Holds key (.str text)) :
    stringField fields key = some (.ofList text) := by
  unfold stringField
  rw [h]
  dsimp only
  have hread := unescape_write text
  unfold writeJsonString at hread
  unfold renderCompact writeJsonString
  rw [hread, List.getLast?_cons_of_ne_nil (by simp), List.getLast?_concat]
  simp

theorem stringField_string {value : String} (h : fields.Holds key (.string value)) :
    stringField fields key = some value := by
  rw [stringField_str h, String.ofList_toList]

theorem parseU64_toDigits {n : Nat} (h : n < 2 ^ 64) : parseU64 (Nat.toDigits 10 n) = some n := by
  have hhead : (Nat.toDigits 10 n).head? ≠ some '+' := by
    intro hplus
    have hdigit := (digits_toDigits n).2 '+' (List.mem_of_mem_head? hplus)
    simp at hdigit
  have hall : (Nat.toDigits 10 n).all Char.isDigit = true :=
    List.all_eq_true.mpr (digits_toDigits n).2
  unfold parseU64
  rw [if_neg hhead]
  dsimp only
  rw [Nat.ofDigitChars_ten_toDigits, if_pos ⟨Nat.toDigits_ne_nil, hall, h⟩]

theorem u64Field_number {n : Nat} (h : fields.Holds key (.number n)) (hn : n < 2 ^ 64) :
    u64Field fields key = some n := by
  unfold u64Field
  rw [h, Option.bind_some, trim_render (.number n : Json.Fits 0 _), renderCompact,
    parseU64_toDigits hn]

theorem boolField_bool {flag : Bool} (h : fields.Holds key (.bool flag)) :
    boolField fields key = some flag := by
  unfold boolField
  rw [h, Option.bind_some, trim_render (.bool flag : Json.Fits 0 _)]
  cases flag <;> rfl

theorem itemTexts_write (texts : List (List Char)) :
    itemTexts (texts.map fun text => ⟨[], writeJsonString text, []⟩) = some texts := by
  unfold itemTexts
  induction texts with
  | nil => rfl
  | cons text texts ih => simp [unescape_write, ih]

theorem stringArrayField_strings {values : List String} (h : fields.Holds key (.strings values)) :
    stringArrayField fields key = .ok (some values) := by
  have hfits : (Json.strings values).Fits 1 := by
    apply Json.Fits.arr
    intro item hitem
    obtain ⟨value, -, rfl⟩ := List.mem_map.mp hitem
    exact .str _
  have htext : renderItems (values.map .string) =
      ((values.map String.toList).map fun text => ⟨[], writeJsonString text, []⟩).map
        Item.text := by
    simp [renderItems_eq, Item.text, Json.string, renderCompact]
  have hitems := @parseItems_items 0
    ((values.map String.toList).map fun text => ⟨[], writeJsonString text, []⟩)
    (by simp [Item.Spaced, blank_nil]) (by
      simp only [List.forall_mem_map]
      exact fun value _ => .string (isStringBody_escaped _))
  rw [itemTexts_write] at hitems
  unfold stringArrayField
  rw [h]
  dsimp only
  rw [trim_render hfits, Json.strings, renderCompact, List.tail_cons, List.dropLast_concat,
    List.getLast?_concat, if_pos ⟨rfl, rfl⟩, htext, hitems]
  simp [Except.mapError]

theorem write_ne_null (text : List Char) : writeJsonString text ≠ ['n', 'u', 'l', 'l'] := by
  unfold writeJsonString
  simp

end

/-! ## Objects that the reader finds its fields in -/

/-- The members of an object. -/
def Json.entries : Json → List (String × Json)
  | .obj entries => entries
  | _ => []

/-- Only a few characters are escaped. -/
theorem plain_ofList {key : String} {text : List Char} (h : key = .ofList text)
    (hplain : escaped text = text) : escaped key.toList = key.toList := by
  rw [h, String.toList_ofList, hplain]

@[simp] theorem fits_string {room : Nat} (value : String) : (Json.string value).Fits room :=
  .str _

@[simp] theorem fits_optString {room : Nat} (value : Option String) :
    (optString value).Fits room := by
  cases value <;> simp [optString]

@[simp] theorem fits_strings {room : Nat} (values : List String) :
    (Json.strings values).Fits (room + 1) := by
  apply Json.Fits.arr
  simp

theorem Readable.fits_obj {room : Nat} {entries : List (String × Json)} (h : Readable entries)
    (hfits : ∀ entry ∈ entries, entry.2.Fits room) : (Json.obj entries).Fits (room + 1) :=
  .obj h.distinct hfits

end LawNexus.CleanedWire
