import LawNexus.CleanedWire.Nested

/-!
# The members of an object

Both loops over members, the one of a nested object and the one of the line, read a member alike.
They part at a comma behind the last one: the nested loop refuses it, the one of the line does not
see it.
-/

namespace LawNexus.CleanedWire

open JsonText Loops

/-! ## Keys -/

theorem scanKey_string (turns : Nat) {body : List Char} (h : IsStringBody body)
    (rest : List Char) :
    scanKey (.ofText turns) ('\x22' :: (body ++ '\x22' :: rest)) = .ok (body, rest) := by
  rw [scanKey, scanJsonString_string h, ok_bind, List.tail_cons, Source.slice_ofText]
  rfl

theorem reads_scanKey (turns : Nat) {text : List Char} (h : text.head? = some '\x22') :
    (∃ e, scanKey (.ofText turns) text = .error (.refused e)) ∨ ∃ body rest, IsStringBody body ∧
      text = '\x22' :: (body ++ '\x22' :: rest) := by
  obtain ⟨e, he⟩ | ⟨_, rest, ⟨body, hbody, rfl⟩, rfl, -⟩ := reads_scanJsonString h
  · exact Or.inl ⟨e, by rw [scanKey, he]; rfl⟩
  · exact Or.inr ⟨body, rest, hbody, by simp⟩

section

variable {Value : List Char → Prop} {limit : Nat} {scan : List Char → Scan (List Char)}

/-! ## One member -/

/-- What a member's text comes to for a loop: the key, the colon and the value. -/
structure ReadsMember (limit : Nat) (scan : List Char → Scan (List Char)) (m : Member)
    (text rest : List Char) : Prop where
  key : scanKey (.ofText limit) (skipWs text) =
    .ok (m.key, m.middle ++ ':' :: (m.pad ++ (m.value ++ (m.after ++ rest))))
  start : (skipWs text).head? = some '\x22'
  colon : skipWs (m.middle ++ ':' :: (m.pad ++ (m.value ++ (m.after ++ rest)))) =
    ':' :: (m.pad ++ (m.value ++ (m.after ++ rest)))
  value : skipWs (m.pad ++ (m.value ++ (m.after ++ rest))) = m.value ++ (m.after ++ rest)
  scan : scan (m.value ++ (m.after ++ rest)) = .ok (m.after ++ rest)

theorem Opens.inked {value : List Char} (h : Opens value) (rest : List Char) :
    Inked (value ++ rest) := by
  obtain ⟨c, t, rfl, hc, -⟩ := h
  exact inked_cons hc _

theorem skipWs_member {m : Member} (hspaced : m.Spaced) (rest : List Char) :
    skipWs (m.text ++ rest) = '\x22' ::
      (m.key ++ '\x22' :: (m.middle ++ ':' :: (m.pad ++ (m.value ++ (m.after ++ rest))))) := by
  have htext : m.text ++ rest = m.before ++ '\x22' ::
      (m.key ++ '\x22' :: (m.middle ++ ':' :: (m.pad ++ (m.value ++ (m.after ++ rest))))) := by
    simp [Member.text]
  rw [htext, skipWs_cons hspaced.before rfl]

theorem readsMember (hscan : Scans Value limit scan) {m : Member} (hspaced : m.Spaced)
    (hvalue : Value m.value) {rest : List Char} (hrest : Closed rest)
    (hlimit : (m.text ++ rest).length < limit) :
    ReadsMember limit scan m (m.text ++ rest) rest := by
  have hlength : (m.value ++ (m.after ++ rest)).length < limit := by
    simp only [Member.text, List.length_append, List.length_cons] at hlimit ⊢
    omega
  exact {
    key := by rw [skipWs_member hspaced, scanKey_string limit hspaced.key]
    start := by rw [skipWs_member hspaced]; rfl
    colon := skipWs_cons hspaced.middle rfl _
    value := by rw [skipWs_blank hspaced.pad, skipWs_inked ((hscan.opens hvalue).inked _)]
    scan := hscan.takes hvalue (closed_append hspaced.after hrest) hlength }

/-- How the reading of a member ends. -/
inductive MemberCase (Value : List Char → Prop) (limit : Nat) (scan : List Char → Scan (List Char))
    (text : List Char) : Prop
  | key {e : WireError} (h : scanKey (.ofText limit) (skipWs text) = .error (.refused e))
  | colon {key stop : List Char} (h : scanKey (.ofText limit) (skipWs text) = .ok (key, stop))
    (hcolon : (skipWs stop).head? ≠ some ':')
  | value {key stop : List Char} {e : WireError}
    (h : scanKey (.ofText limit) (skipWs text) = .ok (key, stop))
    (hcolon : (skipWs stop).head? = some ':')
    (hvalue : scan (skipWs stop).tail = .error (.refused e))
  | read (m : Member) (rest : List Char) (hspaced : m.Spaced) (hvalue : Value m.value)
    (htext : text = m.text ++ rest) (hrest : Inked rest) (h : ReadsMember limit scan m text rest)

theorem memberCase (hscan : Scans Value limit scan) {text : List Char}
    (hlimit : text.length < limit) (hstart : (skipWs text).head? = some '\x22') :
    MemberCase Value limit scan text := by
  obtain ⟨e, he⟩ | ⟨key, stop, hkey, hstop⟩ := reads_scanKey limit hstart
  · exact .key he
  have hok := scanKey_string limit hkey stop
  rw [← hstop] at hok
  by_cases hcolon : (skipWs stop).head? = some ':'
  swap
  · exact .colon hok hcolon
  obtain ⟨tail, htail⟩ : ∃ tail, skipWs stop = ':' :: tail := ⟨_, eq_cons_of_head? hcolon⟩
  obtain ⟨before, hbefore, htext⟩ := exists_skipWs text
  obtain ⟨middle, hmiddle, hmid⟩ := exists_skipWs stop
  rw [htail] at hmid
  rw [hstop, hmid] at htext
  have hlength : tail.length < limit := by
    rw [htext] at hlimit
    simp only [List.length_append, List.length_cons] at hlimit
    omega
  obtain ⟨e, he⟩ | ⟨_, next, ⟨pad, value, hpad, hvalue, rfl⟩, hnext, hr⟩ := hscan.reads hlength
  · exact .value hok hcolon (by rw [htail]; exact he)
  obtain ⟨after, hafter, hrest⟩ := exists_skipWs next
  have hinked := inked_skipWs next
  generalize skipWs next = rest at hrest hinked
  subst hrest hnext
  have hspaced : Member.Spaced ⟨before, key, middle, pad, value, after⟩ :=
    ⟨hbefore, hkey, hmiddle, hpad, hafter⟩
  refine .read ⟨before, key, middle, pad, value, after⟩ rest hspaced hvalue
    (by rw [htext]; simp [Member.text]) hinked ⟨?_, hstart, ?_, ?_, ?_⟩
  · rw [hok, hmid, List.append_assoc]
  · exact skipWs_cons hmiddle rfl _
  · rw [skipWs_blank hpad, skipWs_inked ((hscan.opens hvalue).inked _)]
  · rw [List.append_assoc, hscan.blank hpad] at hr
    exact hr

/-! ## The loop of a nested object -/

/-- The loop of an object behind a value. -/
def objectRest (source : Source) (scan : List Char → Scan (List Char)) (turns : Nat)
    (keys : List (List Char)) (rest : List Char) : Scan (List Char) :=
  let rest := skipWs rest
  if rest.head? = some ',' then
    let rest := skipWs rest.tail
    if rest.head? = some '\x7d' then jsonValueError "trailing comma in JSON object"
    else objectLoop source scan turns keys rest
  else if rest.head? = some '\x7d' then .ok rest.tail
  else jsonValueError "malformed JSON object separator"

theorem objectLoop_skips (source : Source) (turns : Nat) (keys : List (List Char))
    (text : List Char) :
    objectLoop source scan turns keys (skipWs text) = objectLoop source scan turns keys text := by
  cases turns with
  | zero => rfl
  | succ turns => rw [objectLoop, objectLoop, skipWs_skipWs]

/-- One turn of the loop, over a member. -/
theorem objectLoop_member (hscan : Scans Value limit scan) {m : Member} {text rest : List Char}
    (h : ReadsMember limit scan m text rest) (hafter : Blank m.after) (turns : Nat)
    {keys : List (List Char)} (hkey : m.key ∉ keys) :
    objectLoop (.ofText limit) scan (turns + 1) keys text =
      objectRest (.ofText limit) scan turns (keys ++ [m.key]) rest := by
  have hvalue := h.scan
  rw [← h.value, hscan.skips] at hvalue
  rw [objectLoop, h.start, h.key, ok_bind]
  dsimp only
  rw [if_neg (not_not.mpr rfl), if_neg hkey, h.colon, List.head?_cons, if_neg (not_not.mpr rfl),
    List.tail_cons, hvalue, ok_bind, skipWs_blank hafter]
  rfl

theorem objectLoop_duplicate {m : Member} {text rest : List Char}
    (h : ReadsMember limit scan m text rest) (turns : Nat) {keys : List (List Char)}
    (hkey : m.key ∈ keys) : objectLoop (.ofText limit) scan (turns + 1) keys text =
      jsonValueError "duplicate object key" := by
  rw [objectLoop, h.start, h.key, ok_bind]
  dsimp only
  rw [if_neg (not_not.mpr rfl), if_pos hkey]

/-- Members that may follow on members with the keys `keys`. -/
structure Continues (Value : List Char → Prop) (keys : List (List Char)) (members : List Member) :
    Prop where
  spaced : ∀ m ∈ members, m.Spaced
  values : ∀ m ∈ members, Value m.value
  distinct : (members.map (·.key)).Nodup
  fresh : ∀ m ∈ members, m.key ∉ keys

theorem continues_nil (keys : List (List Char)) : Continues Value keys [] :=
  ⟨nofun, nofun, List.nodup_nil, nofun⟩

theorem continues_cons {keys : List (List Char)} {m : Member} {members : List Member} :
    Continues Value keys (m :: members) ↔
      m.Spaced ∧ Value m.value ∧ m.key ∉ keys ∧ Continues Value (keys ++ [m.key]) members := by
  constructor
  · rintro ⟨hspaced, hvalues, hdistinct, hfresh⟩
    obtain ⟨hm, hspaced⟩ := List.forall_mem_cons.mp hspaced
    obtain ⟨hvalue, hvalues⟩ := List.forall_mem_cons.mp hvalues
    obtain ⟨hkey, hfresh⟩ := List.forall_mem_cons.mp hfresh
    obtain ⟨hnew, hdistinct⟩ := List.nodup_cons.mp hdistinct
    refine ⟨hm, hvalue, hkey, hspaced, hvalues, hdistinct, fun n hn hmem => ?_⟩
    rcases List.mem_append.mp hmem with hold | hsame
    · exact hfresh n hn hold
    · exact hnew (List.mem_map.mpr ⟨n, hn, List.mem_singleton.mp hsame⟩)
  · rintro ⟨hm, hvalue, hkey, hspaced, hvalues, hdistinct, hfresh⟩
    refine ⟨List.forall_mem_cons.mpr ⟨hm, hspaced⟩, List.forall_mem_cons.mpr ⟨hvalue, hvalues⟩,
      List.nodup_cons.mpr ⟨fun hmem => ?_, hdistinct⟩, List.forall_mem_cons.mpr ⟨hkey, ?_⟩⟩
    · obtain ⟨n, hn, heq⟩ := List.mem_map.mp hmem
      exact hfresh n hn (by rw [heq]; simp)
    · exact fun n hn hmem => hfresh n hn (List.mem_append_left _ hmem)

/-- The text is the members of an object and its brace. -/
def ClosesObject (Value : List Char → Prop) (keys : List (List Char)) (front : List Char) : Prop :=
  ∃ members, members ≠ [] ∧ Continues Value keys members ∧
    front = separated (members.map Member.text) ++ ['\x7d']

theorem objectLoop_key {text : List Char} {e : WireError}
    (h : scanKey (.ofText limit) (skipWs text) = .error (.refused e)) (turns : Nat)
    (keys : List (List Char)) :
    ∃ e, objectLoop (.ofText limit) scan (turns + 1) keys text = .error (.refused e) := by
  rw [objectLoop]
  dsimp only
  split_ifs with hstart
  · exact ⟨_, rfl⟩
  · exact ⟨e, by rw [h]; rfl⟩

theorem reads_objectLoop (hscan : Scans Value limit scan) {turns : Nat} {text : List Char}
    {keys : List (List Char)} (hlimit : text.length < limit) (hturns : text.length < turns) :
    Reads (ClosesObject Value keys) text (objectLoop (.ofText limit) scan turns keys text) := by
  induction turns generalizing text keys with
  | zero => cases hturns
  | succ turns ih =>
    by_cases hstart : (skipWs text).head? = some '\x22'
    swap
    · rw [objectLoop]
      exact Or.inl ⟨_, if_pos hstart⟩
    cases memberCase hscan hlimit hstart with
    | key h => exact Or.inl (objectLoop_key h turns keys)
    | @colon key stop h hcolon =>
      rw [objectLoop, hstart, h, ok_bind]
      dsimp only
      rw [if_neg (not_not.mpr rfl), if_pos hcolon]
      split_ifs <;> exact reads_error _
    | @value key stop e h hcolon hvalue =>
      rw [objectLoop, hstart, h, ok_bind]
      dsimp only
      rw [if_neg (not_not.mpr rfl), hcolon, hvalue, if_neg (not_not.mpr rfl)]
      split_ifs
      · exact reads_error _
      · exact Or.inl ⟨e, rfl⟩
    | read m rest hspaced hvalue htext hrest h =>
      by_cases hkey : m.key ∈ keys
      · rw [objectLoop_duplicate h turns hkey]
        exact reads_error _
      rw [objectLoop_member hscan h hspaced.after turns hkey, objectRest, skipWs_inked hrest, htext]
      dsimp only
      split_ifs with hcomma hclose hend
      · exact reads_error _
      · obtain ⟨tail, rfl⟩ : ∃ tail, rest = ',' :: tail := ⟨_, eq_cons_of_head? hcomma⟩
        have hlength : tail.length < text.length := by
          rw [htext, List.length_append, List.length_cons]
          omega
        rw [List.tail_cons, objectLoop_skips]
        obtain he | ⟨_, rest, ⟨members, hne, hmembers, rfl⟩, rfl, hr⟩ :=
          ih (lt_trans hlength hlimit) (by omega)
        · exact Or.inl he
        · rw [hr]
          refine reads_ok ⟨m :: members, List.cons_ne_nil _ _,
            continues_cons.mpr ⟨hspaced, hvalue, hkey, hmembers⟩, rfl⟩ ?_
          rw [List.map_cons, separated_cons (by simpa using hne)]
          simp
      · obtain ⟨tail, rfl⟩ : ∃ tail, rest = '\x7d' :: tail := ⟨_, eq_cons_of_head? hend⟩
        refine reads_ok ⟨[m], List.cons_ne_nil _ _,
          continues_cons.mpr ⟨hspaced, hvalue, hkey, continues_nil _⟩, rfl⟩ ?_
        rw [List.map_singleton, separated_singleton]
        simp
      · exact reads_error _

/-- The text is an object, with blanks or members between its braces. -/
def IsBraced (Value : List Char → Prop) (text : List Char) : Prop :=
  (∃ w, Blank w ∧ text = '\x7b' :: (w ++ ['\x7d'])) ∨ ∃ members, members ≠ [] ∧
    Continues Value [] members ∧
      text = '\x7b' :: (separated (members.map Member.text) ++ ['\x7d'])

theorem reads_scanJsonObject (hscan : Scans Value limit scan) {text : List Char}
    (h : text.head? = some '\x7b') (hlimit : text.length < limit) :
    Reads (IsBraced Value) text (scanJsonObject (.ofText limit) scan text) := by
  obtain ⟨tail, rfl⟩ : ∃ tail, text = '\x7b' :: tail := ⟨_, eq_cons_of_head? h⟩
  rw [scanJsonObject, List.tail_cons]
  split_ifs with hend
  · obtain ⟨pad, hpad, htail⟩ := exists_skipWs tail
    generalize skipWs tail = ink at hend htail ⊢
    subst htail
    obtain ⟨tail, rfl⟩ : ∃ tail, ink = '\x7d' :: tail := ⟨_, eq_cons_of_head? hend⟩
    exact reads_ok (Or.inl ⟨pad, hpad, rfl⟩) (by simp)
  · have hlength := Nat.lt_of_succ_lt hlimit
    rw [objectLoop_skips]
    obtain he | ⟨_, rest, ⟨members, hne, hmembers, rfl⟩, rfl, hr⟩ :=
      reads_objectLoop hscan hlength hlength
    · exact Or.inl he
    · rw [show (Source.ofText limit).turns = limit from rfl, hr]
      exact reads_ok (Or.inr ⟨members, hne, hmembers, rfl⟩) (by simp)

theorem objectRest_close (source : Source) (turns : Nat) (keys : List (List Char))
    (rest : List Char) : objectRest source scan turns keys ('\x7d' :: rest) = .ok rest := by
  rw [objectRest, skipWs_inked (inked_cons rfl rest)]
  rfl

theorem objectRest_trailing (source : Source) (turns : Nat) (keys : List (List Char))
    {pad : List Char} (hpad : Blank pad) (rest : List Char) :
    objectRest source scan turns keys (',' :: (pad ++ '\x7d' :: rest)) =
      jsonValueError "trailing comma in JSON object" := by
  rw [objectRest, skipWs_inked (inked_cons rfl _), List.head?_cons, if_pos rfl, List.tail_cons,
    skipWs_cons hpad rfl]
  rfl

theorem objectRest_comma (source : Source) (turns : Nat) (keys : List (List Char))
    {text : List Char} (h : (skipWs text).head? = some '\x22') :
    objectRest source scan turns keys (',' :: text) = objectLoop source scan turns keys text := by
  rw [objectRest, skipWs_inked (inked_cons rfl text), List.head?_cons, if_pos rfl, List.tail_cons]
  refine (if_neg ?_).trans (objectLoop_skips source turns keys text)
  rw [h]
  decide

theorem exists_members_text {m : Member} (members : List Member) (rest : List Char) :
    ∃ tail, separated ((m :: members).map Member.text) ++ rest = m.text ++ tail := by
  cases members with
  | nil => exact ⟨rest, by rw [List.map_singleton, separated_singleton]⟩
  | cons next more =>
    rw [List.map_cons, separated_cons (by simp), List.append_assoc]
    exact ⟨_, rfl⟩

theorem head?_skipWs_members {keys : List (List Char)} {members : List Member}
    (hne : members ≠ []) (hmembers : Continues Value keys members) (rest : List Char) :
    (skipWs (separated (members.map Member.text) ++ rest)).head? = some '\x22' := by
  obtain ⟨m, more, rfl⟩ := List.exists_cons_of_ne_nil hne
  obtain ⟨tail, htext⟩ := exists_members_text (m := m) more rest
  rw [htext, skipWs_member (hmembers.spaced m List.mem_cons_self)]
  rfl

theorem length_le_members (members : List Member) :
    members.length ≤ (separated (members.map Member.text)).length := by
  induction members with
  | nil => exact Nat.zero_le _
  | cons m members ih =>
    have hpos : 1 ≤ m.text.length := by
      simp only [Member.text, List.length_append, List.length_cons]
      omega
    cases members with
    | nil => rwa [List.map_singleton, separated_singleton]
    | cons next more =>
      rw [List.map_cons, separated_cons (by simp)]
      simp only [List.length_append, List.length_cons] at ih ⊢
      omega

/-- The loop runs over the members, up to what stands behind the last one. -/
theorem objectLoop_members (hscan : Scans Value limit scan) {r : Scan (List Char)}
    {rest : List Char} (hrest : Closed rest)
    (hr : ∀ turns keys, objectRest (.ofText limit) scan turns keys rest = r)
    {members : List Member} (hne : members ≠ []) {keys : List (List Char)}
    (hmembers : Continues Value keys members) {turns : Nat}
    (hlimit : (separated (members.map Member.text) ++ rest).length < limit)
    (hturns : members.length ≤ turns) :
    objectLoop (.ofText limit) scan turns keys (separated (members.map Member.text) ++ rest) =
      r := by
  induction members generalizing turns keys with
  | nil => exact absurd rfl hne
  | cons m members ih =>
    obtain ⟨turns, rfl⟩ := Nat.exists_eq_succ_of_ne_zero (Nat.ne_zero_of_lt hturns)
    obtain ⟨hspaced, hvalue, hkey, hmore⟩ := continues_cons.mp hmembers
    cases members with
    | nil =>
      rw [List.map_singleton, separated_singleton] at hlimit ⊢
      exact (objectLoop_member hscan (readsMember hscan hspaced hvalue hrest hlimit) hspaced.after
        turns hkey).trans (hr _ _)
    | cons next more =>
      rw [List.map_cons, separated_cons (by simp), List.append_assoc, List.cons_append] at hlimit ⊢
      have hread := readsMember hscan hspaced hvalue (closed_cons (by simp)) hlimit
      rw [Nat.succ_eq_add_one, objectLoop_member hscan hread hspaced.after turns hkey,
        objectRest_comma _ _ _ (head?_skipWs_members (by simp) hmore _)]
      refine ih (by simp) hmore ?_ (Nat.le_of_succ_le_succ hturns)
      simp only [List.length_append, List.length_cons] at hlimit ⊢
      omega

theorem scanJsonObject_empty {w : List Char} (hw : Blank w) (source : Source) (rest : List Char) :
    scanJsonObject source scan ('\x7b' :: (w ++ '\x7d' :: rest)) = .ok rest := by
  rw [scanJsonObject, List.tail_cons, skipWs_cons hw (by decide)]
  rfl

theorem scanJsonObject_members (hscan : Scans Value limit scan) {r : Scan (List Char)}
    {rest : List Char} (hrest : Closed rest)
    (hr : ∀ turns keys, objectRest (.ofText limit) scan turns keys rest = r)
    {members : List Member} (hne : members ≠ []) (hmembers : Continues Value [] members)
    (hlimit : ('\x7b' :: (separated (members.map Member.text) ++ rest)).length < limit) :
    scanJsonObject (.ofText limit) scan
      ('\x7b' :: (separated (members.map Member.text) ++ rest)) = r := by
  have hlength := length_le_members members
  have hcount : members.length ≤ limit := by
    simp only [List.length_cons, List.length_append] at hlimit
    omega
  rw [scanJsonObject, List.tail_cons, head?_skipWs_members hne hmembers]
  refine (if_neg (by decide)).trans ?_
  rw [objectLoop_skips]
  exact objectLoop_members hscan hrest hr hne hmembers (Nat.lt_of_succ_lt hlimit) hcount

end

end LawNexus.CleanedWire
