import LawNexus.CleanedWire.Values

/-!
# Lines

Over characters, a line is taken when it is one object, or one object with a comma behind its last
member. The scan of a nested value tells the two apart.
-/

namespace LawNexus.CleanedWire

open JsonText Loops

/-- What may stand between the last member and the brace, with a comma in it or not. -/
inductive LineEnd : Bool → List Member → List Char → Prop
  | blank {pad : List Char} : Blank pad → LineEnd false [] pad
  | last {members : List Member} : members ≠ [] → LineEnd false members []
  | comma {members : List Member} {pad : List Char} : members ≠ [] → Blank pad →
    LineEnd true members (',' :: pad)

section

variable {limit : Nat}

/-! ## The loop over the fields -/

/-- The loop over the fields behind a value. -/
def fieldsRest (source : Source) (turns : Nat) (entries : List (List Char × List Char))
    (rest : List Char) : Scan (List (List Char × List Char) × List Char) :=
  let rest := skipWs rest
  match rest.head? with
  | none => jsonValueError "unterminated JSON object"
  | some byte =>
    if byte = ',' then fieldsLoop source turns entries rest.tail
    else if byte = '\x7d' then .ok (entries, rest.tail)
    else jsonValueError "malformed object separator"

theorem any_key {entries : List (List Char × List Char)} {key : List Char} :
    entries.any (·.1 = key) = true ↔ key ∈ entries.map (·.1) := by
  rw [List.any_eq_true, List.mem_map]
  simp only [decide_eq_true_eq]

theorem fieldsLoop_turn {source : Source} {text : List Char}
    (h : (skipWs text).head? = some '\x22') (turns : Nat)
    (entries : List (List Char × List Char)) :
    fieldsLoop source (turns + 1) entries text = (do
      let (key, stop) ← scanKey source (skipWs text)
      let rest := skipWs stop
      if rest.head? ≠ some ':' then jsonValueError "object member has no colon"
      else
        let valueStart := skipWs rest.tail
        let rest ← scanValue source (MAX_JSON_DEPTH + 1) valueStart
        let value ← source.slice valueStart rest
        if entries.any (·.1 = key) then
          jsonValueError ("duplicate object key " ++ String.ofList key)
        else fieldsRest source turns (entries ++ [(key, value)]) rest) := by
  rw [fieldsLoop, h]
  rfl

/-- One turn of the loop, over a member. -/
theorem fieldsLoop_member {m : Member} {text rest : List Char}
    (h : ReadsMember limit (scanValue (.ofText limit) (MAX_JSON_DEPTH + 1)) m text rest)
    (hafter : Blank m.after) (turns : Nat) (entries : List (List Char × List Char)) :
    fieldsLoop (.ofText limit) (turns + 1) entries text =
      if m.key ∈ entries.map (·.1) then
        jsonValueError ("duplicate object key " ++ String.ofList m.key)
      else fieldsRest (.ofText limit) turns (entries ++ [m.entry]) rest := by
  rw [fieldsLoop_turn h.start, h.key, ok_bind]
  dsimp only
  rw [h.colon, List.head?_cons, if_neg (not_not.mpr rfl), List.tail_cons, h.value, h.scan, ok_bind,
    Source.slice_ofText, ok_bind, fieldsRest, skipWs_blank hafter]
  simp only [any_key]
  rfl

/-- The text is the members, what may stand behind them, and the brace. -/
def ClosesLine (trailing : Bool) (members : List Member) (text rest : List Char) : Prop :=
  ∃ ending, LineEnd trailing members ending ∧
    text = separated (members.map Member.text) ++ (ending ++ '\x7d' :: rest)

/-- A member in front of members, or of the blanks behind a trailing comma. -/
theorem ClosesLine.cons {trailing : Bool} {members : List Member} {text rest : List Char}
    (h : ClosesLine trailing members text rest) (m : Member) :
    ∃ trailing, ClosesLine trailing (m :: members) (m.text ++ ',' :: text) rest := by
  obtain ⟨ending, hending, rfl⟩ := h
  cases hending with
  | blank hpad =>
    refine ⟨true, _, .comma (List.cons_ne_nil _ _) hpad, ?_⟩
    rw [List.map_singleton, separated_singleton]
    rfl
  | last hne =>
    refine ⟨false, _, .last (List.cons_ne_nil _ _), ?_⟩
    rw [List.map_cons, separated_cons (by simpa using hne), List.append_assoc]
    rfl
  | comma hne hpad =>
    refine ⟨true, _, .comma (List.cons_ne_nil _ _) hpad, ?_⟩
    rw [List.map_cons, separated_cons (by simpa using hne), List.append_assoc]
    rfl

/-- The loop refuses, or takes members that have no key in common with those before. -/
def ReadsFields (entries : List (List Char × List Char)) (text : List Char)
    (r : Scan (List (List Char × List Char) × List Char)) : Prop :=
  (∃ e, r = .error (.refused e)) ∨ ∃ members rest trailing,
    Continues (IsValue MAX_JSON_DEPTH) (entries.map (·.1)) members ∧
      ClosesLine trailing members text rest ∧ r = .ok (entries ++ members.map Member.entry, rest)

theorem readsFields_error {entries : List (List Char × List Char)} {text : List Char}
    (detail : String) : ReadsFields entries text (jsonValueError detail) :=
  Or.inl ⟨_, rfl⟩

theorem reads_fieldsLoop {turns : Nat} {text : List Char} {entries : List (List Char × List Char)}
    (hlimit : text.length < limit) (hturns : text.length < turns) :
    ReadsFields entries text (fieldsLoop (.ofText limit) turns entries text) := by
  have hscan := scans_scanValue limit (MAX_JSON_DEPTH + 1)
  induction turns generalizing text entries with
  | zero => cases hturns
  | succ turns ih =>
    by_cases hstart : (skipWs text).head? = some '\x22'
    swap
    · rw [fieldsLoop]
      dsimp only
      split
      · exact readsFields_error _
      · rename_i byte hbyte
        split_ifs with hend hquote
        · obtain ⟨pad, hpad, htext⟩ := exists_skipWs text
          rw [hend] at hbyte
          refine Or.inr ⟨[], (skipWs text).tail, false, continues_nil _, ⟨pad, .blank hpad, ?_⟩, ?_⟩
          · rw [← eq_cons_of_head? hbyte]
            exact htext
          · rw [List.map_nil, List.append_nil]
        · exact readsFields_error _
        · rw [hbyte] at hstart
          exact absurd (congrArg some (not_not.mp hquote)) hstart
    cases memberCase hscan hlimit hstart with
    | @key e h =>
      rw [fieldsLoop_turn hstart, h]
      exact Or.inl ⟨e, rfl⟩
    | @colon key stop h hcolon =>
      rw [fieldsLoop_turn hstart, h, ok_bind]
      dsimp only
      rw [if_pos hcolon]
      exact readsFields_error _
    | @value key stop e h hcolon hvalue =>
      rw [fieldsLoop_turn hstart, h, ok_bind]
      dsimp only
      rw [hcolon, if_neg (not_not.mpr rfl), hscan.skips, hvalue]
      exact Or.inl ⟨e, rfl⟩
    | read m rest hspaced hvalue htext hrest h =>
      rw [fieldsLoop_member h hspaced.after turns entries]
      split_ifs with hkey
      · exact readsFields_error _
      rw [fieldsRest, skipWs_inked hrest]
      split
      · exact readsFields_error _
      rename_i byte hbyte
      split_ifs with hcomma hend
      · obtain ⟨tail, rfl⟩ : ∃ tail, rest = ',' :: tail :=
          ⟨_, eq_cons_of_head? (hcomma ▸ hbyte)⟩
        have hlength : tail.length < text.length := by
          rw [htext, List.length_append, List.length_cons]
          omega
        have hreads : ReadsFields (entries ++ [m.entry]) tail
            (fieldsLoop (.ofText limit) turns (entries ++ [m.entry]) tail) :=
          ih (lt_trans hlength hlimit) (by omega)
        obtain he | ⟨members, rest, trailing, hmembers, hcloses, hr⟩ := hreads
        · exact Or.inl he
        · obtain ⟨trailing, hcloses⟩ := hcloses.cons m
          rw [List.map_append, List.map_singleton] at hmembers
          refine Or.inr ⟨m :: members, rest, trailing,
            continues_cons.mpr ⟨hspaced, hvalue, hkey, hmembers⟩, by rw [htext]; exact hcloses, ?_⟩
          rw [List.tail_cons, hr, List.append_assoc]
          rfl
      · obtain ⟨tail, rfl⟩ : ∃ tail, rest = '\x7d' :: tail :=
          ⟨_, eq_cons_of_head? (hend ▸ hbyte)⟩
        refine Or.inr ⟨[m], tail, false,
          continues_cons.mpr ⟨hspaced, hvalue, hkey, continues_nil _⟩,
          ⟨[], .last (List.cons_ne_nil _ _), ?_⟩, rfl⟩
        rw [htext, List.map_singleton, separated_singleton]
        rfl
      · exact readsFields_error _

/-- Behind a member stands the brace, or a comma and a line again. -/
theorem ClosesLine.uncons {trailing : Bool} {m : Member} {members : List Member}
    {text rest : List Char} (h : ClosesLine trailing (m :: members) text rest) :
    (members = [] ∧ text = m.text ++ '\x7d' :: rest) ∨
      ∃ trailing next, ClosesLine trailing members next rest ∧ text = m.text ++ ',' :: next := by
  obtain ⟨ending, hending, rfl⟩ := h
  cases members with
  | nil =>
    rw [List.map_singleton, separated_singleton]
    cases hending with
    | last => exact Or.inl ⟨rfl, rfl⟩
    | comma _ hpad => exact Or.inr ⟨false, _, ⟨_, .blank hpad, rfl⟩, rfl⟩
  | cons n members =>
    rw [List.map_cons, separated_cons (by simp), List.append_assoc]
    cases hending with
    | last => exact Or.inr ⟨false, _, ⟨_, .last (List.cons_ne_nil _ _), rfl⟩, rfl⟩
    | comma _ hpad => exact Or.inr ⟨true, _, ⟨_, .comma (List.cons_ne_nil _ _) hpad, rfl⟩, rfl⟩

theorem fieldsLoop_line {members : List Member} {entries : List (List Char × List Char)}
    (hmembers : Continues (IsValue MAX_JSON_DEPTH) (entries.map (·.1)) members) {trailing : Bool}
    {text rest : List Char} (h : ClosesLine trailing members text rest)
    (hlimit : text.length < limit) {turns : Nat} (hturns : members.length < turns) :
    fieldsLoop (.ofText limit) turns entries text =
      .ok (entries ++ members.map Member.entry, rest) := by
  have hscan := scans_scanValue limit (MAX_JSON_DEPTH + 1)
  obtain ⟨turns, rfl⟩ := Nat.exists_eq_succ_of_ne_zero (Nat.ne_zero_of_lt hturns)
  induction members generalizing entries turns text trailing with
  | nil =>
    obtain ⟨ending, hending, rfl⟩ := h
    cases hending with
    | blank hpad =>
      rw [List.map_nil, List.map_nil, List.append_nil, fieldsLoop, separated, List.intercalate_nil,
        List.nil_append, skipWs_cons hpad rfl]
      rfl
    | last hne => exact absurd rfl hne
    | comma hne => exact absurd rfl hne
  | cons m members ih =>
    obtain ⟨hspaced, hvalue, hkey, hmore⟩ := continues_cons.mp hmembers
    rcases h.uncons with ⟨rfl, rfl⟩ | ⟨trailing, next, hnext, rfl⟩
    · have hread := readsMember hscan hspaced hvalue (closed_cons (by simp)) hlimit
      rw [fieldsLoop_member hread hspaced.after turns entries, if_neg hkey, fieldsRest,
        skipWs_inked (inked_cons rfl rest)]
      rfl
    · obtain ⟨turns, rfl⟩ : ∃ n, turns = n + 1 :=
        Nat.exists_eq_succ_of_ne_zero (by rw [List.length_cons] at hturns; omega)
      have hread := readsMember hscan hspaced hvalue (closed_cons (by simp)) hlimit
      have hlength : next.length < limit := by
        rw [List.length_append, List.length_cons] at hlimit
        omega
      have hentries : (entries ++ [m.entry]).map (·.1) = entries.map (·.1) ++ [m.key] := by
        rw [List.map_append, List.map_singleton]
        rfl
      rw [fieldsLoop_member hread hspaced.after _ entries, if_neg hkey, fieldsRest,
        skipWs_inked (inked_cons rfl next)]
      refine (ih (hentries ▸ hmore) hnext hlength turns (Nat.lt_of_succ_lt_succ hturns)).trans ?_
      rw [List.append_assoc]
      rfl

/-! ## The line -/

/-- The text is an object with these members, or it is one but for a comma behind the last. -/
def IsLine (trailing : Bool) (text : List Char) (members : List Member) : Prop :=
  Continues (IsValue MAX_JSON_DEPTH) [] members ∧ ∃ before body after, Blank before ∧
    Blank after ∧ ClosesLine trailing members body after ∧ text = before ++ '\x7b' :: body

/-- A line is refused, or taken with the entries of its members. -/
theorem reads_parseFrom {text : List Char} (hlimit : text.length < limit) :
    (∃ e, parseFrom (.ofText limit) text = .error (.refused e)) ∨ ∃ trailing members,
      IsLine trailing text members ∧
        parseFrom (.ofText limit) text = .ok ⟨members.map Member.entry⟩ := by
  rw [parseFrom]
  by_cases hbrace : (skipWs text).head? = some '\x7b'
  swap
  · exact Or.inl ⟨_, if_pos hbrace⟩
  obtain ⟨before, hbefore, htext⟩ := exists_skipWs text
  obtain ⟨body, hbody⟩ : ∃ body, skipWs text = '\x7b' :: body := ⟨_, eq_cons_of_head? hbrace⟩
  rw [hbody] at htext
  have hlength : body.length < limit := by
    rw [htext, List.length_append, List.length_cons] at hlimit
    omega
  dsimp only
  rw [hbody, List.head?_cons, if_neg (not_not.mpr rfl), List.tail_cons,
    show (Source.ofText limit).turns = limit from rfl]
  have hreads : ReadsFields [] body (fieldsLoop (.ofText limit) limit [] body) :=
    reads_fieldsLoop hlength hlength
  obtain ⟨e, he⟩ | ⟨members, after, trailing, hmembers, hcloses, hr⟩ := hreads
  · exact Or.inl ⟨e, by rw [he]; rfl⟩
  rw [hr, ok_bind]
  dsimp only
  split_ifs with hmore
  · exact Or.inl ⟨_, rfl⟩
  · have hafter : Blank after := by
      obtain ⟨pad, hpad, heq⟩ := exists_skipWs after
      rw [heq, not_not.mp hmore, List.append_nil]
      exact hpad
    exact Or.inr ⟨trailing, members, ⟨hmembers, before, body, after, hbefore, hafter, hcloses,
      htext⟩, rfl⟩

theorem parseFrom_line {trailing : Bool} {text : List Char} {members : List Member}
    (h : IsLine trailing text members) (hlimit : text.length < limit) :
    parseFrom (.ofText limit) text = .ok ⟨members.map Member.entry⟩ := by
  obtain ⟨hmembers, before, body, after, hbefore, hafter, hcloses, rfl⟩ := h
  have hlength : body.length < limit ∧ members.length < limit := by
    obtain ⟨ending, -, rfl⟩ := hcloses
    have hcount := length_le_members members
    simp only [List.length_append, List.length_cons] at hlimit ⊢
    omega
  have hkeys : Continues (IsValue MAX_JSON_DEPTH)
      (([] : List (List Char × List Char)).map (·.1)) members := hmembers
  have hloop := fieldsLoop_line hkeys hcloses hlength.1 hlength.2
  rw [parseFrom, skipWs_cons hbefore (by decide)]
  dsimp only
  rw [List.head?_cons, if_neg (not_not.mpr rfl), List.tail_cons,
    show (Source.ofText limit).turns = limit from rfl, hloop, ok_bind]
  have hskip : skipWs after = [] := by
    rw [← List.append_nil after, skipWs_blank hafter]
    rfl
  dsimp only
  rw [hskip, if_neg (not_not.mpr rfl)]
  rfl

end

/-! ## Objects -/

theorem isObject_of_isLine {text : List Char} {members : List Member}
    (h : IsLine false text members) : IsObject MAX_JSON_DEPTH text members := by
  obtain ⟨hmembers, before, body, after, hbefore, hafter, ⟨ending, hending, rfl⟩, rfl⟩ := h
  refine ⟨⟨hmembers.spaced, hmembers.distinct, hmembers.values⟩, before, ?_⟩
  cases hending with
  | blank hpad => exact ⟨ending, after, hbefore, hpad, hafter, rfl⟩
  | last => exact ⟨[], after, hbefore, blank_nil, hafter, rfl⟩

theorem separated_pad (pad : List Char) (m : Member) (parts : List (List Char)) :
    separated (Member.text { m with before := pad ++ m.before } :: parts) =
      pad ++ separated (m.text :: parts) := by
  cases parts with
  | nil => simp [separated_singleton, Member.text]
  | cons part parts => simp [separated_cons (List.cons_ne_nil part parts), Member.text]

/-- The blanks behind the brace belong to the first member, where there is one. -/
theorem isLine_of_isObject {text : List Char} {members : List Member}
    (h : IsObject MAX_JSON_DEPTH text members) :
    ∃ lined, IsLine false text lined ∧ lined.map Member.entry = members.map Member.entry := by
  obtain ⟨⟨hspaced, hdistinct, hvalues⟩, before, pad, after, hbefore, hpad, hafter, rfl⟩ := h
  cases members with
  | nil => exact ⟨[], ⟨continues_nil _, before, _, after, hbefore, hafter, ⟨pad, .blank hpad, rfl⟩,
      rfl⟩, rfl⟩
  | cons m more =>
    obtain ⟨hm, hspaced⟩ := List.forall_mem_cons.mp hspaced
    have hpadded : Member.Spaced { m with before := pad ++ m.before } :=
      ⟨hpad.append hm.before, hm.key, hm.middle, hm.pad, hm.after⟩
    refine ⟨{ m with before := pad ++ m.before } :: more,
      ⟨⟨List.forall_mem_cons.mpr ⟨hpadded, hspaced⟩, ?_, hdistinct, nofun⟩, before, _, after,
        hbefore, hafter, ⟨[], .last (List.cons_ne_nil _ _), rfl⟩, ?_⟩, rfl⟩
    · exact List.forall_mem_cons.mpr (List.forall_mem_cons.mp hvalues)
    · rw [List.map_cons, List.map_cons, separated_pad]
      simp

theorem hasTrailingComma_iff {text : List Char} :
    HasTrailingComma MAX_JSON_DEPTH text ↔ ∃ members, IsLine true text members := by
  constructor
  · rintro ⟨members, hne, ⟨hspaced, hdistinct, hvalues⟩, before, pad, after, hbefore, hpad, hafter,
      rfl⟩
    exact ⟨members, ⟨hspaced, hvalues, hdistinct, nofun⟩, before, _, after, hbefore, hafter,
      ⟨_, .comma hne hpad, rfl⟩, rfl⟩
  · rintro ⟨members, hmembers, before, _, after, hbefore, hafter, ⟨ending, hending, rfl⟩, rfl⟩
    cases hending with
    | comma hne hpad =>
      exact ⟨members, hne, ⟨hmembers.spaced, hmembers.distinct, hmembers.values⟩, before, _, after,
        hbefore, hpad, hafter, rfl⟩

/-- One level up, the scan of a value takes an object. -/
theorem scanValue_isLine {text : List Char} {members : List Member}
    (h : IsLine false text members) {limit : Nat} (hlimit : text.length < limit) :
    ∃ after, scanValue (.ofText limit) (MAX_JSON_DEPTH + 2) text = .ok after := by
  obtain ⟨hmembers, before, _, after, hbefore, hafter, ⟨ending, hending, rfl⟩, rfl⟩ := h
  have hscan := scans_scanValue limit (MAX_JSON_DEPTH + 2)
  have hclosed : Closed after := by
    rw [← List.append_nil after]
    exact closed_append hafter nofun
  have htake : ∀ {value : List Char}, IsValue (MAX_JSON_DEPTH + 1) value →
      (before ++ (value ++ after)).length < limit →
      scanValue (.ofText limit) (MAX_JSON_DEPTH + 2) (before ++ (value ++ after)) = .ok after := by
    intro value hvalue hlength
    rw [hscan.blank hbefore]
    exact hscan.takes hvalue hclosed (by rw [List.length_append] at hlength; omega)
  cases hending with
  | blank hpad =>
    have hvalue : IsValue (MAX_JSON_DEPTH + 1) ('\x7b' :: (ending ++ ['\x7d'])) :=
      .emptyObject hpad
    have heq : before ++ '\x7b' :: (separated ([].map Member.text) ++
        (ending ++ '\x7d' :: after)) = before ++ ('\x7b' :: (ending ++ ['\x7d']) ++ after) := by
      simp [separated]
    rw [heq] at hlimit ⊢
    exact ⟨after, htake hvalue hlimit⟩
  | last hne =>
    have hvalue := IsValue.object hne hmembers.spaced hmembers.distinct hmembers.values
    have heq : before ++ '\x7b' :: (separated (members.map Member.text) ++
        ([] ++ '\x7d' :: after)) =
          before ++ ('\x7b' :: (separated (members.map Member.text) ++ ['\x7d']) ++ after) := by
      simp
    rw [heq] at hlimit ⊢
    exact ⟨after, htake hvalue hlimit⟩

/-- One level up, the scan of a value refuses a comma behind the last member. -/
theorem scanValue_trailing {text : List Char} {members : List Member}
    (h : IsLine true text members) {limit : Nat} (hlimit : text.length < limit) :
    scanValue (.ofText limit) (MAX_JSON_DEPTH + 2) text =
      jsonValueError "trailing comma in JSON object" := by
  obtain ⟨hmembers, before, _, after, hbefore, hafter, ⟨ending, hending, rfl⟩, rfl⟩ := h
  cases hending with
  | @comma _ pad hne hpad =>
    rw [List.length_append] at hlimit
    rw [(scans_scanValue limit (MAX_JSON_DEPTH + 2)).blank hbefore, scanValue,
      skipWs_inked (inked_cons rfl _)]
    exact scanJsonObject_members (scans_scanValue limit (MAX_JSON_DEPTH + 1))
      (closed_cons (by simp)) (fun turns keys => objectRest_trailing _ turns keys hpad after) hne
      hmembers (Nat.lt_of_le_of_lt (Nat.le_add_left _ _) hlimit)

theorem not_isLine_both {text : List Char} {members others : List Member}
    (hfalse : IsLine false text members) : ¬ IsLine true text others := by
  intro htrue
  obtain ⟨after, hok⟩ := scanValue_isLine hfalse (Nat.lt_succ_self _)
  rw [scanValue_trailing htrue (Nat.lt_succ_self _)] at hok
  cases hok

end LawNexus.CleanedWire
