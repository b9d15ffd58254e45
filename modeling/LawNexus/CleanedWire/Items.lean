import LawNexus.CleanedWire.Reading
import LawNexus.CleanedWire.Rendered

/-!
# Arrays of strings

The loop of `string_array_field` looks for the end of an item by itself. In an array that the scan
has taken it stays inside the text, and it reads the items that are strings.
-/

namespace LawNexus.CleanedWire

open Chars JsonText Loops Utf8

/-! ## The end of an item -/

theorem itemEnd_plain {byte : Char} (hquote : byte ≠ '\x22') (hbackslash : byte ≠ '\x5c')
    (rest : List Char) : itemEnd (byte :: rest) = itemEnd rest := by
  rw [itemEnd.eq_def]
  simp [hquote, hbackslash]

theorem itemEnd_escape (byte : Char) (rest : List Char) :
    itemEnd ('\x5c' :: byte :: rest) = itemEnd rest := by
  rw [itemEnd.eq_def]
  simp

theorem itemEnd_quote (rest : List Char) : itemEnd ('\x22' :: rest) = some rest := by
  rw [itemEnd.eq_def]
  simp

theorem ne_ascii {byte c : Char} (h : 128 ≤ byte.toNat) (hc : c.toNat < 128) : byte ≠ c := by
  rintro rfl
  omega

theorem itemEnd_other {other : List Char} (h : ∀ byte ∈ other, 128 ≤ byte.toNat)
    (rest : List Char) : itemEnd (other ++ rest) = itemEnd rest := by
  induction other with
  | nil => rfl
  | cons byte other ih =>
    obtain ⟨hbyte, hother⟩ := List.forall_mem_cons.mp h
    rw [List.cons_append, itemEnd_plain (ne_ascii hbyte (by decide)) (ne_ascii hbyte (by decide)),
      ih hother]

theorem itemEnd_hex {digits : List Char} (h : ∀ c ∈ digits, isHex c = true) (rest : List Char) :
    itemEnd (byteChars (digits ++ rest)) = itemEnd (byteChars rest) := by
  induction digits with
  | nil => rfl
  | cons c digits ih =>
    obtain ⟨hc, hdigits⟩ := List.forall_mem_cons.mp h
    have hquote : c ≠ '\x22' := by
      rintro rfl
      exact absurd hc (by decide)
    have hbackslash : c ≠ '\x5c' := by
      rintro rfl
      exact absurd hc (by decide)
    rw [List.cons_append, byteChars_cons_ascii (lt_of_isAsciiHexdigit c hc),
      itemEnd_plain hquote hbackslash, ih hdigits]

/-- The loop stops behind the closing quote: what is escaped is no quote. -/
theorem itemEnd_body {body : List Char} (h : IsStringBody body) (rest : List Char) :
    itemEnd (byteChars (body ++ '\x22' :: rest)) = some (byteChars rest) := by
  induction h with
  | nil => rw [List.nil_append, byteChars_cons_ascii (by decide), itemEnd_quote]
  | @plain c text hc hquote hbackslash _ ih =>
    rcases Nat.lt_or_ge c.toNat 128 with hascii | hother
    · rw [List.cons_append, byteChars_cons_ascii hascii, itemEnd_plain hquote hbackslash, ih]
    · rw [List.cons_append, ← List.singleton_append, byteChars_append,
        itemEnd_other (other_of_mem_byteChars hother), ih]
  | @short c text hc _ ih =>
    have hascii := lt_of_isShortEscape c (isShortEscape_iff.mpr hc)
    rw [List.cons_append, List.cons_append, byteChars_cons_ascii (by decide),
      byteChars_cons_ascii hascii, itemEnd_escape, ih]
  | @unicode digits text hlength hdigits _ ih =>
    rw [List.cons_append, List.cons_append, byteChars_cons_ascii (by decide),
      byteChars_cons_ascii (by decide), itemEnd_escape, List.append_assoc, itemEnd_hex hdigits, ih]

/-! ## The loop over the items -/

theorem isString_of_quote {room : Nat} {value : List Char} (h : IsValue room value)
    (hquote : value.head? = some '\x22') : IsString value := by
  cases h with
  | string hbody => exact ⟨_, hbody, rfl⟩
  | literal h =>
    simp only [List.mem_cons, List.not_mem_nil, or_false] at h
    rcases h with rfl | rfl | rfl <;> cases hquote
  | number h =>
    obtain ⟨c, u, rfl, hc⟩ := isNumber_cons h
    obtain rfl := Option.some.inj hquote
    simp at hc
  | emptyArray | array | emptyObject | object => cases hquote

theorem unescape_of_not_quote {value : List Char} (h : value.head? ≠ some '\x22') :
    unescapeJsonString value = none := by
  unfold unescapeJsonString
  rw [if_neg (fun hraw => h hraw.1)]

/-- What follows on an item: its blanks, and either nothing or a comma and more. -/
inductive Follows (after more : List Char) : List Char → Prop
  | last : more = [] → Follows after more after
  | comma : Follows after more (after ++ ',' :: more)

theorem separated_follows (item : Item) (items : List Item) :
    ∃ rest, Follows item.after (separated (items.map Item.text)) rest ∧
      separated ((item :: items).map Item.text) = item.before ++ (item.value ++ rest) := by
  cases items with
  | nil =>
    refine ⟨item.after, .last rfl, ?_⟩
    rw [List.map_singleton, separated_singleton, Item.text]
  | cons next items =>
    refine ⟨_, .comma, ?_⟩
    rw [List.map_cons, separated_cons (by simp), Item.text]
    simp

/-- Behind an item the loop goes on with the items that are left. -/
theorem Follows.skip {after more rest : List Char} (h : Follows after more rest)
    (hafter : Blank after) :
    (let bytes := skipWs (byteChars rest)
      if bytes.head? = some ',' then bytes.tail else bytes) = byteChars more := by
  dsimp only
  rw [skipWs_byteChars]
  cases h with
  | last hmore =>
    have hskip : skipWs after = [] := by
      rw [← List.append_nil after, skipWs_blank hafter]
      rfl
    rw [hskip, hmore]
    rfl
  | comma =>
    rw [skipWs_cons hafter (by decide), byteChars_cons_ascii (by decide), List.head?_cons,
      if_pos rfl, List.tail_cons]

/-- The items of an array, as the values of `string_array_field`. -/
def itemTexts (items : List Item) : Option (List (List Char)) :=
  items.mapM fun item => unescapeJsonString item.value

/-- One turn of the loop, over an item. -/
theorem itemsLoop_item {room turns : Nat} {raw value rest : List Char} {before : List Char}
    (hbefore : Blank before) (hvalue : IsValue room value)
    (hraw : before ++ (value ++ rest) <:+ raw) (read : List (List Char)) :
    itemsLoop (.ofRaw raw) (turns + 1) read (byteChars (before ++ (value ++ rest))) =
      match unescapeJsonString value with
      | none => .ok none
      | some item =>
        let bytes := skipWs (byteChars rest)
        itemsLoop (.ofRaw raw) turns (read ++ [item])
          (if bytes.head? = some ',' then bytes.tail else bytes) := by
  have hopens := opens_of_isValue hvalue
  rw [itemsLoop, skipWs_byteChars, skipWs_blank hbefore, skipWs_inked (hopens.inked rest)]
  dsimp only
  by_cases hquote : value.head? = some '\x22'
  · obtain ⟨body, hbody, rfl⟩ := isString_of_quote hvalue hquote
    have hstart : '\x22' :: (body ++ ['\x22']) ++ rest = '\x22' :: (body ++ '\x22' :: rest) := by
      simp
    have hstop : rest <:+ '\x22' :: (body ++ ['\x22']) ++ rest := List.suffix_append _ _
    have hslice := slice_byteChars ((List.suffix_append before _).trans hraw) hstop turns
    rw [Source.slice_ofText] at hslice
    rw [hstart] at hslice ⊢
    rw [byteChars_cons_ascii (by decide)] at hslice ⊢
    rw [List.head?_cons, List.tail_cons, itemEnd_body hbody]
    dsimp only
    rw [if_neg (not_not.mpr rfl), hslice]
    rfl
  · have hne : (byteChars (value ++ rest)).head? ≠ some '\x22' := by
      obtain ⟨c, t, rfl, -, -⟩ := hopens
      intro h
      have hhead := (head?_byteChars (by decide)).mp h
      exact hquote hhead
    rw [unescape_of_not_quote hquote]
    obtain ⟨c, t, rfl, -, -⟩ := hopens
    cases hhead : (byteChars (c :: t ++ rest)).head? with
    | none =>
      have hlength := congrArg List.length (List.head?_eq_none_iff.mp hhead)
      have hpos := byteLen_pos (List.cons_ne_nil c (t ++ rest))
      rw [length_byteChars] at hlength
      simp only [List.cons_append, List.length_nil] at hlength
      omega
    | some byte =>
      rw [hhead] at hne
      dsimp only
      rw [if_pos fun h => hne (congrArg some h)]

theorem itemsLoop_items {room : Nat} {raw : List Char} {items : List Item}
    (hspaced : ∀ i ∈ items, i.Spaced) (hvalues : ∀ i ∈ items, IsValue room i.value)
    (hraw : separated (items.map Item.text) <:+ raw) {turns : Nat} (hturns : items.length < turns)
    (read : List (List Char)) :
    itemsLoop (.ofRaw raw) turns read (byteChars (separated (items.map Item.text))) =
      .ok ((itemTexts items).map (read ++ ·)) := by
  obtain ⟨turns, rfl⟩ := Nat.exists_eq_succ_of_ne_zero (Nat.ne_zero_of_lt hturns)
  induction items generalizing turns read with
  | nil => simp [itemsLoop, separated, byteChars, bytes, skipWs, itemTexts]
  | cons item items ih =>
    obtain ⟨⟨hbefore, hafter⟩, hspaced⟩ := List.forall_mem_cons.mp hspaced
    obtain ⟨hvalue, hvalues⟩ := List.forall_mem_cons.mp hvalues
    obtain ⟨rest, hfollows, htext⟩ := separated_follows item items
    obtain ⟨turns, rfl⟩ : ∃ n, turns = n + 1 :=
      Nat.exists_eq_succ_of_ne_zero (by rw [List.length_cons] at hturns; omega)
    have hmore : separated (items.map Item.text) <:+ raw := by
      refine List.IsSuffix.trans ?_ hraw
      rw [htext]
      cases hfollows with
      | last hnil => exact hnil ▸ List.nil_suffix
      | comma =>
        refine ⟨item.before ++ (item.value ++ (item.after ++ [','])), ?_⟩
        simp
    rw [htext] at hraw ⊢
    rw [itemsLoop_item hbefore hvalue hraw read, itemTexts, List.mapM_cons]
    cases hitem : unescapeJsonString item.value with
    | none => rfl
    | some text =>
      dsimp only
      refine (congrArg _ (hfollows.skip hafter)).trans ?_
      rw [ih hspaced hvalues hmore (read ++ [text]) turns (Nat.lt_of_succ_lt_succ hturns)]
      unfold itemTexts
      cases items.mapM fun item => unescapeJsonString item.value <;> simp

end LawNexus.CleanedWire
