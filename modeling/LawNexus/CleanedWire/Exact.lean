import LawNexus.CleanedWire.Bytes

/-!
# The scan is exact

The loops over the bytes of a line mirror those over its characters. So a line is taken when it is
one object, and, against what the scan of nested objects does, when it is one but for a comma behind
its last member.
-/

namespace LawNexus.CleanedWire

open JsonText Loops Utf8

/-! ## The loops -/

/-- The scan over bytes does what the scan over characters does, at every end of the line. -/
structure Mirrors (raw : List Char) (scan scan' : List Char → Scan (List Char)) : Prop where
  same : ∀ {text}, text <:+ raw → scan (byteChars text) = (scan' text).map byteChars
  suffix : ∀ {text rest}, text <:+ raw → scan' text = .ok rest → rest <:+ text

theorem skipWs_suffix (text : List Char) : skipWs text <:+ text := List.dropWhile_suffix _

theorem head?_comma {text : List Char} :
    (byteChars text).head? = some ',' ↔ text.head? = some ',' := head?_byteChars (by decide)

theorem head?_bracket {text : List Char} :
    (byteChars text).head? = some ']' ↔ text.head? = some ']' := head?_byteChars (by decide)

theorem head?_brace {text : List Char} :
    (byteChars text).head? = some '\x7d' ↔ text.head? = some '\x7d' := head?_byteChars (by decide)

theorem head?_quote {text : List Char} :
    (byteChars text).head? = some '\x22' ↔ text.head? = some '\x22' := head?_byteChars (by decide)

theorem head?_colon {text : List Char} :
    (byteChars text).head? = some ':' ↔ text.head? = some ':' := head?_byteChars (by decide)

section

variable {raw : List Char} {scan scan' : List Char → Scan (List Char)}

theorem arrayLoop_byteChars (h : Mirrors raw scan scan') (turns : Nat) {text : List Char}
    (htext : text <:+ raw) :
    arrayLoop scan turns (byteChars text) = (arrayLoop scan' turns text).map byteChars := by
  induction turns generalizing text with
  | zero => rfl
  | succ turns ih =>
    rw [arrayLoop_succ, arrayLoop_succ, h.same htext]
    cases hr : scan' text with
    | error e => rfl
    | ok rest =>
      have hink := (skipWs_suffix rest).trans ((h.suffix htext hr).trans htext)
      rw [Except.map, ok_bind, ok_bind, arrayRest, arrayRest, skipWs_byteChars]
      simp only [head?_comma, head?_bracket]
      by_cases hcomma : (skipWs rest).head? = some ','
      · rw [if_pos hcomma, if_pos hcomma, tail_of_head? hcomma (by decide), skipWs_byteChars]
        simp only [head?_bracket]
        split_ifs
        · rfl
        · exact ih ((skipWs_suffix _).trans ((List.tail_suffix _).trans hink))
      · rw [if_neg hcomma, if_neg hcomma]
        split_ifs with hend
        · rw [tail_of_head? hend (by decide)]
          rfl
        · rfl

theorem scanJsonArray_byteChars (h : Mirrors raw scan scan') {text : List Char}
    (htext : text <:+ raw) (hstart : text.head? = some '[') :
    scanJsonArray (.ofRaw raw) scan (byteChars text) =
      (scanJsonArray (.ofText (byteLen raw + 1)) scan' text).map byteChars := by
  have hink := (skipWs_suffix text.tail).trans ((List.tail_suffix _).trans htext)
  rw [scanJsonArray, scanJsonArray, tail_of_head? hstart (by decide), skipWs_byteChars]
  simp only [head?_bracket]
  split_ifs with hend
  · rw [tail_of_head? hend (by decide)]
    rfl
  · exact arrayLoop_byteChars h _ hink

theorem objectRest_byteChars {turns : Nat}
    (ih : ∀ {keys : List (List Char)} {text : List Char}, text <:+ raw →
      objectLoop (.ofRaw raw) scan turns keys (byteChars text) =
        (objectLoop (.ofText (byteLen raw + 1)) scan' turns keys text).map byteChars)
    (keys : List (List Char)) {rest : List Char} (hrest : rest <:+ raw) :
    objectRest (.ofRaw raw) scan turns keys (byteChars rest) =
      (objectRest (.ofText (byteLen raw + 1)) scan' turns keys rest).map byteChars := by
  have hink := (skipWs_suffix rest).trans hrest
  rw [objectRest, objectRest, skipWs_byteChars]
  simp only [head?_comma, head?_brace]
  by_cases hcomma : (skipWs rest).head? = some ','
  · rw [if_pos hcomma, if_pos hcomma, tail_of_head? hcomma (by decide), skipWs_byteChars]
    simp only [head?_brace]
    split_ifs
    · rfl
    · exact ih ((skipWs_suffix _).trans ((List.tail_suffix _).trans hink))
  · rw [if_neg hcomma, if_neg hcomma]
    split_ifs with hend
    · rw [tail_of_head? hend (by decide)]
      rfl
    · rfl

theorem objectLoop_succ (source : Source) (turns : Nat) (keys : List (List Char))
    (rest : List Char) : objectLoop source scan (turns + 1) keys rest =
      if (skipWs rest).head? ≠ some '\x22' then jsonValueError "object key is not a JSON string"
      else (do
        let (key, stop) ← scanKey source (skipWs rest)
        if key ∈ keys then jsonValueError "duplicate object key"
        else if (skipWs stop).head? ≠ some ':' then jsonValueError "object member has no colon"
        else
          let rest ← scan (skipWs stop).tail
          objectRest source scan turns (keys ++ [key]) rest) :=
  rfl

theorem scanKey_suffix {turns : Nat} {text key stop : List Char}
    (hstart : text.head? = some '\x22')
    (h : scanKey (.ofText turns) text = .ok (key, stop)) : stop <:+ text := by
  obtain ⟨e, he⟩ | ⟨body, rest, hbody, rfl⟩ := reads_scanKey turns hstart
  · rw [he] at h
    cases h
  · rw [scanKey_string turns hbody] at h
    cases h
    exact ⟨'\x22' :: (key ++ ['\x22']), by simp⟩

theorem objectLoop_byteChars (h : Mirrors raw scan scan') (turns : Nat)
    {keys : List (List Char)} {text : List Char} (htext : text <:+ raw) :
    objectLoop (.ofRaw raw) scan turns keys (byteChars text) =
      (objectLoop (.ofText (byteLen raw + 1)) scan' turns keys text).map byteChars := by
  induction turns generalizing keys text with
  | zero => rfl
  | succ turns ih =>
    have hink := (skipWs_suffix text).trans htext
    rw [objectLoop_succ, objectLoop_succ, skipWs_byteChars]
    by_cases hstart : (skipWs text).head? = some '\x22'
    swap
    · rw [if_pos (mt head?_quote.mp hstart), if_pos hstart]
      rfl
    rw [if_neg (not_not.mpr (head?_quote.mpr hstart)), if_neg (not_not.mpr hstart),
      scanKey_byteChars hink hstart (byteLen raw + 1)]
    cases hkey : scanKey (.ofText (byteLen raw + 1)) (skipWs text) with
    | error e => rfl
    | ok pair =>
      obtain ⟨key, stop⟩ := pair
      have hstop := (scanKey_suffix hstart hkey).trans hink
      have hcolon := (List.tail_suffix _).trans ((skipWs_suffix stop).trans hstop)
      rw [Except.map, ok_bind, ok_bind, Prod.map]
      dsimp only [id]
      by_cases hdup : key ∈ keys
      · rw [if_pos hdup, if_pos hdup]
        rfl
      rw [if_neg hdup, if_neg hdup, skipWs_byteChars]
      by_cases hpart : (skipWs stop).head? = some ':'
      swap
      · rw [if_pos (mt head?_colon.mp hpart), if_pos hpart]
        rfl
      rw [if_neg (not_not.mpr (head?_colon.mpr hpart)), if_neg (not_not.mpr hpart),
        tail_of_head? hpart (by decide), h.same hcolon]
      cases hr : scan' (skipWs stop).tail with
      | error e => rfl
      | ok rest =>
        exact objectRest_byteChars ih _ ((h.suffix hcolon hr).trans hcolon)

theorem scanJsonObject_byteChars (h : Mirrors raw scan scan') {text : List Char}
    (htext : text <:+ raw) (hstart : text.head? = some '\x7b') :
    scanJsonObject (.ofRaw raw) scan (byteChars text) =
      (scanJsonObject (.ofText (byteLen raw + 1)) scan' text).map byteChars := by
  have hink := (skipWs_suffix text.tail).trans ((List.tail_suffix _).trans htext)
  rw [scanJsonObject, scanJsonObject, tail_of_head? hstart (by decide), skipWs_byteChars]
  simp only [head?_brace]
  split_ifs with hend
  · rw [tail_of_head? hend (by decide)]
    rfl
  · exact objectLoop_byteChars h _ hink

end

/-! ## Values and fields -/

/-- Another character begins no value. -/
theorem scanValue_other {source : Source} {levels : Nat} {text : List Char} {c : Char}
    (h : (skipWs text).head? = some c) (hc : 128 ≤ c.toNat) :
    scanValue source (levels + 1) text = jsonValueError "unrecognized JSON value" := by
  have hne : ∀ d : Char, d.toNat < 128 → c ≠ d := by
    rintro d hd rfl
    omega
  have hdigit : ¬ (c = '-' ∨ c.isDigit = true) := by
    rw [of_other lt_of_isDigit hc]
    simpa using hne '-' (by decide)
  rw [scanValue, h]
  dsimp only
  rw [if_neg (hne _ (by decide)), if_neg (hne _ (by decide)), if_neg (hne _ (by decide)),
    if_neg (hne _ (by decide)), if_neg (hne _ (by decide)), if_neg (hne _ (by decide)),
    if_neg hdigit]

theorem scanValue_suffix {raw text rest : List Char} {levels : Nat} (htext : text <:+ raw)
    (h : scanValue (.ofText (byteLen raw + 1)) levels text = .ok rest) : rest <:+ text := by
  have hlength : text.length < byteLen raw + 1 :=
    Nat.lt_succ_of_le (htext.length_le.trans (length_le_byteLen raw))
  have hreads := (scans_scanValue (byteLen raw + 1) levels).reads hlength
  rw [h] at hreads
  obtain ⟨front, -, rfl⟩ := hreads.of_ok
  exact List.suffix_append _ _

theorem mirrors_scanValue (raw : List Char) (levels : Nat) :
    Mirrors raw (scanValue (.ofRaw raw) levels)
      (scanValue (.ofText (byteLen raw + 1)) levels) := by
  refine ⟨fun {text} htext => ?_, scanValue_suffix⟩
  induction levels generalizing text with
  | zero => rfl
  | succ levels ih =>
    have hbelow : Mirrors raw (scanValue (.ofRaw raw) levels)
        (scanValue (.ofText (byteLen raw + 1)) levels) := ⟨ih, scanValue_suffix⟩
    have hink := (skipWs_suffix text).trans htext
    rcases byteChars_cases (skipWs text) with hnil | ⟨c, t, hc, hcons, heq⟩ |
      ⟨c, t, d, u, hc, hd, hcons, heq⟩
    · rw [scanValue, scanValue, skipWs_byteChars, hnil]
      rfl
    · have hhead : (skipWs text).head? = some c := by
        rw [hcons]
        rfl
      have hbytes : (byteChars (skipWs text)).head? = some c := by
        rw [heq]
        rfl
      rw [scanValue, scanValue, skipWs_byteChars, hhead, hbytes]
      dsimp only
      split_ifs with hquote hbrace hbracket
      · exact scanJsonString_byteChars (hquote ▸ hhead)
      · exact scanJsonObject_byteChars hbelow hink (hbrace ▸ hhead)
      · exact scanJsonArray_byteChars hbelow hink (hbracket ▸ hhead)
      · exact scanJsonLiteral_byteChars (by simp) _
      · exact scanJsonLiteral_byteChars (by simp) _
      · exact scanJsonLiteral_byteChars (by simp) _
      · exact scanJsonNumber_byteChars _
      · rfl
    · have hbytes : (skipWs (byteChars text)).head? = some d := by
        rw [skipWs_byteChars, heq]
        rfl
      rw [scanValue_other hbytes hd, scanValue_other (by rw [hcons]; rfl) hc]
      rfl

theorem fieldsRest_byteChars {raw : List Char} {turns : Nat}
    (ih : ∀ {entries : List (List Char × List Char)} {text : List Char}, text <:+ raw →
      fieldsLoop (.ofRaw raw) turns entries (byteChars text) =
        (fieldsLoop (.ofText (byteLen raw + 1)) turns entries text).map (Prod.map id byteChars))
    (entries : List (List Char × List Char)) {rest : List Char} (hrest : rest <:+ raw) :
    fieldsRest (.ofRaw raw) turns entries (byteChars rest) =
      (fieldsRest (.ofText (byteLen raw + 1)) turns entries rest).map (Prod.map id byteChars) := by
  have hink := (List.tail_suffix _).trans ((skipWs_suffix rest).trans hrest)
  rw [fieldsRest, fieldsRest, skipWs_byteChars]
  rcases byteChars_cases (skipWs rest) with hnil | ⟨c, t, hc, hcons, heq⟩ |
    ⟨c, t, d, u, hc, hd, hcons, heq⟩
  · rw [hnil]
    rfl
  · rw [hcons, List.tail_cons] at hink
    rw [hcons, byteChars_cons_ascii hc]
    dsimp only [List.head?_cons, List.tail_cons]
    split_ifs
    · exact ih hink
    · rfl
    · rfl
  · have hne : ∀ e : Char, 128 ≤ e.toNat → e ≠ ',' ∧ e ≠ '\x7d' := by
      refine fun e he => ⟨?_, ?_⟩ <;> rintro rfl <;> exact absurd he (by decide)
    rw [heq, hcons]
    dsimp only [List.head?_cons]
    rw [if_neg (hne d hd).1, if_neg (hne d hd).2, if_neg (hne c hc).1, if_neg (hne c hc).2]
    rfl

/-- A turn of the loop that reads no member. -/
theorem fieldsLoop_byteChars_end {source source' : Source} {turns : Nat}
    {entries : List (List Char × List Char)} {text : List Char}
    (h : (skipWs text).head? ≠ some '\x22') :
    fieldsLoop source (turns + 1) entries (byteChars text) =
      (fieldsLoop source' (turns + 1) entries text).map (Prod.map id byteChars) := by
  rw [fieldsLoop, fieldsLoop, skipWs_byteChars]
  rcases byteChars_cases (skipWs text) with hnil | ⟨c, t, hc, hcons, heq⟩ |
    ⟨c, t, d, u, hc, hd, hcons, heq⟩
  · rw [hnil]
    rfl
  · rw [hcons] at h ⊢
    rw [byteChars_cons_ascii hc]
    dsimp only [List.head?_cons, List.tail_cons]
    split_ifs with hend hquote
    · rfl
    · rfl
    · exact absurd (congrArg some (not_not.mp hquote)) h
  · have hne : ∀ e : Char, 128 ≤ e.toNat → e ≠ '\x7d' ∧ e ≠ '\x22' := by
      refine fun e he => ⟨?_, ?_⟩ <;> rintro rfl <;> exact absurd he (by decide)
    rw [heq, hcons]
    dsimp only [List.head?_cons]
    rw [if_neg (hne d hd).1, if_pos (hne d hd).2, if_neg (hne c hc).1, if_pos (hne c hc).2]
    rfl

theorem fieldsLoop_byteChars {raw : List Char} (turns : Nat)
    {entries : List (List Char × List Char)} {text : List Char} (htext : text <:+ raw) :
    fieldsLoop (.ofRaw raw) turns entries (byteChars text) =
      (fieldsLoop (.ofText (byteLen raw + 1)) turns entries text).map (Prod.map id byteChars) := by
  induction turns generalizing entries text with
  | zero => rfl
  | succ turns ih =>
    have hink := (skipWs_suffix text).trans htext
    by_cases hstart : (skipWs text).head? = some '\x22'
    swap
    · exact fieldsLoop_byteChars_end hstart
    have hbytes : (skipWs (byteChars text)).head? = some '\x22' := by
      rw [skipWs_byteChars, head?_quote, hstart]
    rw [fieldsLoop_turn hstart, fieldsLoop_turn hbytes, skipWs_byteChars,
      scanKey_byteChars hink hstart (byteLen raw + 1)]
    cases hkey : scanKey (.ofText (byteLen raw + 1)) (skipWs text) with
    | error e => rfl
    | ok pair =>
      obtain ⟨key, stop⟩ := pair
      have hstop := (scanKey_suffix hstart hkey).trans hink
      have hvalue := (skipWs_suffix _).trans
        ((List.tail_suffix _).trans ((skipWs_suffix stop).trans hstop))
      rw [Except.map, ok_bind, ok_bind, Prod.map]
      dsimp only [id]
      rw [skipWs_byteChars]
      by_cases hcolon : (skipWs stop).head? = some ':'
      swap
      · rw [if_pos (mt head?_colon.mp hcolon), if_pos hcolon]
        rfl
      rw [if_neg (not_not.mpr (head?_colon.mpr hcolon)), if_neg (not_not.mpr hcolon),
        tail_of_head? hcolon (by decide), skipWs_byteChars, (mirrors_scanValue raw _).same hvalue]
      cases hr : scanValue (.ofText (byteLen raw + 1)) (MAX_JSON_DEPTH + 1)
          (skipWs (skipWs stop).tail) with
      | error e => rfl
      | ok rest =>
        have hrest := scanValue_suffix hvalue hr
        rw [Except.map, ok_bind, ok_bind, slice_byteChars hvalue hrest (byteLen raw + 1)]
        cases (Source.ofText (byteLen raw + 1)).slice (skipWs (skipWs stop).tail) rest with
        | error e => rfl
        | ok value =>
          rw [ok_bind, ok_bind]
          split_ifs
          · rfl
          · exact fieldsRest_byteChars ih _ (hrest.trans hvalue)

theorem parse_eq (raw : List Char) :
    JsonFields.parse raw = parseFrom (.ofText (byteLen raw + 1)) raw := by
  rw [JsonFields.parse, parseFrom, parseFrom, skipWs_byteChars]
  by_cases hbrace : (skipWs raw).head? = some '\x7b'
  swap
  · rw [if_pos (mt (head?_byteChars (by decide)).mp hbrace), if_pos hbrace]
  have hbody := (List.tail_suffix _).trans (skipWs_suffix raw)
  rw [if_neg (not_not.mpr ((head?_byteChars (by decide)).mpr hbrace)), if_neg (not_not.mpr hbrace),
    tail_of_head? hbrace (by decide),
    show (Source.ofText (byteLen raw + 1)).turns = (Source.ofRaw raw).turns from rfl,
    fieldsLoop_byteChars _ hbody]
  cases fieldsLoop (.ofText (byteLen raw + 1)) (Source.ofRaw raw).turns [] (skipWs raw).tail with
  | error e => rfl
  | ok pair =>
    obtain ⟨entries, rest⟩ := pair
    rw [Except.map, ok_bind, ok_bind, Prod.map]
    dsimp only [id]
    have hnil : skipWs (byteChars rest) ≠ [] ↔ skipWs rest ≠ [] := by
      rw [skipWs_byteChars]
      rcases byteChars_cases (skipWs rest) with hnil | ⟨c, t, -, hcons, heq⟩ |
        ⟨c, t, d, u, -, -, hcons, heq⟩
      · rw [hnil]
        rfl
      · rw [heq, hcons]
        simp
      · rw [heq, hcons]
        simp
    simp only [hnil]

/-! ## The line -/

theorem reads_parse (raw : List Char) :
    (∃ e, JsonFields.parse raw = .error (.refused e)) ∨ ∃ trailing members,
      IsLine trailing raw members ∧ JsonFields.parse raw = .ok ⟨members.map Member.entry⟩ := by
  rw [parse_eq]
  exact reads_parseFrom (Nat.lt_succ_of_le (length_le_byteLen raw))

theorem parse_line {trailing : Bool} {raw : List Char} {members : List Member}
    (h : IsLine trailing raw members) :
    JsonFields.parse raw = .ok ⟨members.map Member.entry⟩ := by
  rw [parse_eq]
  exact parseFrom_line h (Nat.lt_succ_of_le (length_le_byteLen raw))

theorem parse_ne_panicked (raw : List Char) : JsonFields.parse raw ≠ .error .panicked := by
  obtain ⟨e, he⟩ | ⟨trailing, members, -, hr⟩ := reads_parse raw
  · rw [he]
    nofun
  · rw [hr]
    nofun

theorem parse_ne_endless (raw : List Char) : JsonFields.parse raw ≠ .error .endless := by
  obtain ⟨e, he⟩ | ⟨trailing, members, -, hr⟩ := reads_parse raw
  · rw [he]
    nofun
  · rw [hr]
    nofun

/-- What a line that is taken is. -/
theorem parse_eq_ok {raw : List Char} {entries : List (List Char × List Char)} :
    JsonFields.parse raw = .ok ⟨entries⟩ ↔
      ∃ trailing members, IsLine trailing raw members ∧ entries = members.map Member.entry := by
  constructor
  · intro h
    obtain ⟨e, he⟩ | ⟨trailing, members, hline, hr⟩ := reads_parse raw
    · rw [he] at h
      cases h
    · rw [hr] at h
      cases h
      exact ⟨trailing, members, hline, rfl⟩
  · rintro ⟨trailing, members, hline, rfl⟩
    exact parse_line hline

/-- The scan takes the objects and nothing else, with their members, and it always answers. -/
def ExactAt (raw : List Char) : Prop :=
  (∀ entries, JsonFields.parse raw = .ok ⟨entries⟩ ↔
    ∃ members, IsObject MAX_JSON_DEPTH raw members ∧ entries = members.map Member.entry) ∧
  JsonFields.parse raw ≠ .error .panicked ∧ JsonFields.parse raw ≠ .error .endless

theorem exactAt_iff (raw : List Char) :
    ExactAt raw ↔ ¬ HasTrailingComma MAX_JSON_DEPTH raw := by
  constructor
  · rintro ⟨hexact, -⟩ htrailing
    obtain ⟨members, hline⟩ := hasTrailingComma_iff.mp htrailing
    obtain ⟨others, hobject, -⟩ := (hexact _).mp (parse_line hline)
    obtain ⟨lined, hlined, -⟩ := isLine_of_isObject hobject
    exact not_isLine_both hlined hline
  · intro htrailing
    refine ⟨fun entries => parse_eq_ok.trans ⟨?_, ?_⟩, parse_ne_panicked raw, parse_ne_endless raw⟩
    · rintro ⟨trailing, members, hline, rfl⟩
      cases trailing with
      | false => exact ⟨members, isObject_of_isLine hline, rfl⟩
      | true => exact absurd (hasTrailingComma_iff.mpr ⟨members, hline⟩) htrailing
    · rintro ⟨members, hobject, rfl⟩
      obtain ⟨lined, hlined, heq⟩ := isLine_of_isObject hobject
      exact ⟨false, lined, hlined, heq.symm⟩

/-! ### A comma behind the only member -/

namespace Sample

/-- `\x7b"a":1,\x7d` -/
def trailing : List Char := ['\x7b', '\x22', 'a', '\x22', ':', '1', ',', '\x7d']

theorem trailing_not_exact : ¬ ExactAt trailing := by
  rintro ⟨hexact, -⟩
  have htaken : JsonFields.parse trailing = .ok ⟨[(['a'], ['1'])]⟩ := by decide
  obtain ⟨members, hobject, -⟩ := (hexact _).mp htaken
  obtain ⟨lined, hlined, -⟩ := isLine_of_isObject hobject
  obtain ⟨after, hafter⟩ := scanValue_isLine hlined (show trailing.length < 9 by decide)
  have hrefused : scanValue (.ofText 9) (MAX_JSON_DEPTH + 2) trailing =
      jsonValueError "trailing comma in JSON object" := by decide
  rw [hrefused] at hafter
  cases hafter

/-- Inside a value the same comma is refused. -/
example : JsonFields.parse (['\x7b', '\x22', 'b', '\x22', ':'] ++ trailing ++ ['\x7d']) =
    jsonValueError "trailing comma in JSON object" := by decide

end Sample

end LawNexus.CleanedWire
