import Mathlib.Data.List.Destutter
import Mathlib.Data.List.Sort
import Mathlib.Data.List.SplitBy
import Mathlib.Tactic.Common

/-!
# Loops over lists

What the loops that collect a list come to: a push behind a `contains` check, the runs of
equal keys in a sorted list, a sort by a key.
-/

namespace LawNexus.Loops

variable {α β κ : Type*}

/-! ## A push behind a `contains` check -/

section

variable [DecidableEq α]

def pushNew (l : List α) (a : α) : List α :=
  if a ∈ l then l else l ++ [a]

theorem mem_pushNew {l : List α} {a x : α} : x ∈ pushNew l a ↔ x ∈ l ∨ x = a := by
  unfold pushNew
  split_ifs with h
  · exact ⟨Or.inl, fun hx => hx.elim id (fun heq => heq ▸ h)⟩
  · simp

theorem pushNew_pushNew (l : List α) (a : α) : pushNew (pushNew l a) a = pushNew l a :=
  if_pos (mem_pushNew.mpr (Or.inr rfl))

theorem nodup_pushNew {l : List α} (h : l.Nodup) (a : α) : (pushNew l a).Nodup := by
  unfold pushNew
  split_ifs with ha
  · exact h
  · exact List.nodup_append.mpr ⟨h, List.nodup_singleton a, by
      rintro x hx y hy rfl
      exact ha (List.mem_singleton.mp hy ▸ hx)⟩

theorem mem_foldl_pushNew {l new : List α} {x : α} :
    x ∈ new.foldl pushNew l ↔ x ∈ l ∨ x ∈ new := by
  induction new generalizing l with
  | nil => simp
  | cons a rest ih => rw [List.foldl_cons, ih, mem_pushNew, List.mem_cons, or_assoc]

theorem nodup_foldl_pushNew {l : List α} (h : l.Nodup) (new : List α) :
    (new.foldl pushNew l).Nodup := by
  induction new generalizing l with
  | nil => exact h
  | cons a rest ih => exact ih (nodup_pushNew h a)

/-- The elements in the order in which they first come up. -/
def distinct (l : List α) : List α := l.foldl pushNew []

@[simp] theorem mem_distinct {l : List α} {x : α} : x ∈ distinct l ↔ x ∈ l := by
  simp [distinct, mem_foldl_pushNew]

theorem nodup_distinct (l : List α) : (distinct l).Nodup :=
  nodup_foldl_pushNew List.nodup_nil l

/-- More than one distinct element means two that differ. -/
theorem one_lt_length_distinct {l : List α} :
    1 < (distinct l).length ↔ ∃ x ∈ l, ∃ y ∈ l, x ≠ y := by
  constructor
  · intro h
    obtain ⟨x, y, rest, heq⟩ : ∃ x y rest, distinct l = x :: y :: rest := by
      match hd : distinct l with
      | [] => simp [hd] at h
      | [x] => simp [hd] at h
      | x :: y :: rest => exact ⟨x, y, rest, rfl⟩
    have hnd := nodup_distinct l
    rw [heq] at hnd
    refine ⟨x, mem_distinct.mp (by simp [heq]), y, mem_distinct.mp (by simp [heq]), ?_⟩
    rintro rfl
    simp at hnd
  · rintro ⟨x, hx, y, hy, hne⟩
    by_contra hlen
    have hx' := mem_distinct.mpr hx
    have hy' := mem_distinct.mpr hy
    match hd : distinct l with
    | [] => simp [hd] at hx'
    | [z] =>
      rw [hd, List.mem_singleton] at hx' hy'
      exact hne (hx'.trans hy'.symm)
    | _ :: _ :: _ => simp [hd] at hlen

end

/-! ## Sorting by a key -/

section

variable [LinearOrder κ]

/-- A stable sort by a key. -/
def sortBy (key : α → κ) (l : List α) : List α :=
  l.insertionSort fun a b => key a ≤ key b

theorem sortBy_eq_self {key : α → κ} {l : List α} (h : l.Pairwise fun a b => key a ≤ key b) :
    sortBy key l = l := h.insertionSort_eq

theorem sortBy_perm (key : α → κ) (l : List α) : (sortBy key l).Perm l :=
  List.perm_insertionSort _ l

@[simp] theorem mem_sortBy {key : α → κ} {l : List α} {a : α} : a ∈ sortBy key l ↔ a ∈ l :=
  (sortBy_perm key l).mem_iff

theorem pairwise_sortBy (key : α → κ) (l : List α) :
    (sortBy key l).Pairwise fun a b => key a ≤ key b := by
  have : Std.Total fun a b : α => key a ≤ key b := ⟨fun a b => le_total _ _⟩
  have : IsTrans α fun a b : α => key a ≤ key b := ⟨fun _ _ _ => le_trans⟩
  exact List.pairwise_insertionSort _ l

theorem sortBy_map {β : Type*} (key : α → κ) (f : β → α) (l : List β) :
    sortBy key (l.map f) = (sortBy (fun b => key (f b)) l).map f :=
  (List.map_insertionSort _ _ f l fun _ _ _ _ => Iff.rfl).symm

/-- Where the key tells the elements apart, the order before the sort does not matter. -/
theorem sortBy_eq_of_perm {key : α → κ} {l l' : List α} (hinj : Set.InjOn key {a | a ∈ l})
    (h : l.Perm l') : sortBy key l = sortBy key l' := by
  refine List.Perm.eq_of_pairwise ?_ (pairwise_sortBy key l) (pairwise_sortBy key l')
    ((sortBy_perm key l).trans (h.trans (sortBy_perm key l').symm))
  intro a b ha hb hab hba
  exact hinj (mem_sortBy.mp ha) (h.mem_iff.mpr (mem_sortBy.mp hb)) (le_antisymm hab hba)

end

/-! ## A sort, then `dedup` -/

section

variable [DecidableEq α] [LinearOrder κ]

/-- `dedup` drops an element that is equal to the one before it. -/
def sortDedup (key : α → κ) (l : List α) : List α :=
  (sortBy key l).destutter (· ≠ ·)

theorem sortDedup_eq_dedup {key : α → κ} (hinj : Function.Injective key) (l : List α) :
    sortDedup key l = (sortBy key l).dedup := by
  have : Std.Antisymm fun a b : α => key a ≤ key b := ⟨fun _ _ hab hba => hinj (hab.antisymm hba)⟩
  exact (pairwise_sortBy key l).destutter_eq_dedup

theorem mem_sortDedup {key : α → κ} (hinj : Function.Injective key) {l : List α} {a : α} :
    a ∈ sortDedup key l ↔ a ∈ l := by
  rw [sortDedup_eq_dedup hinj, List.mem_dedup, mem_sortBy]

theorem nodup_sortDedup {key : α → κ} (hinj : Function.Injective key) (l : List α) :
    (sortDedup key l).Nodup := by
  rw [sortDedup_eq_dedup hinj]
  exact List.nodup_dedup _

end

/-! ## Runs of one key -/

section

variable [LinearOrder κ]

/-- The loop that takes elements off a sorted list as long as their key stays the same. -/
def runs (key : α → κ) (l : List α) : List (List α) :=
  l.splitBy fun a b => key a = key b

@[simp] theorem flatten_runs (key : α → κ) (l : List α) : (runs key l).flatten = l :=
  List.flatten_splitBy _ l

theorem key_eq_of_mem_run {key : α → κ} {l run : List α} (h : run ∈ runs key l) {a b : α}
    (ha : a ∈ run) (hb : b ∈ run) : key a = key b := by
  have hchain := List.isChain_of_mem_splitBy h
  simp only [decide_eq_true_eq] at hchain
  have : IsTrans α fun a b => key a = key b := ⟨fun _ _ _ => Eq.trans⟩
  have : Std.Symm fun a b => key a = key b := ⟨fun _ _ => Eq.symm⟩
  exact List.Pairwise.forall_of_forall (R := fun a b => key a = key b) (fun _ _ => rfl)
    (List.isChain_iff_pairwise.mp hchain) ha hb

theorem runs_concat_of_ne {key : α → κ} {l : List α} {a : α}
    (h : ∀ b ∈ l.getLast?, key b ≠ key a) : runs key (l ++ [a]) = runs key l ++ [[a]] :=
  List.splitBy_append_cons [] fun b hb => decide_eq_false (h b hb)

theorem runs_concat_of_eq {key : α → κ} {l run : List α} {front : List (List α)} {a : α}
    (h : runs key l = front ++ [run]) (hkey : ∀ b ∈ run, key b = key a) :
    runs key (l ++ [a]) = front ++ [run ++ [a]] := by
  obtain ⟨hl, hnil, hsame, hapart⟩ := List.splitBy_eq_iff.mp h
  refine List.splitBy_eq_iff.mpr ⟨by simp [hl], ?_, ?_, ?_⟩
  · simp only [List.mem_append, List.mem_singleton, not_or] at hnil ⊢
    exact ⟨hnil.1, by simp⟩
  · intro part hpart
    rcases List.mem_append.mp hpart with hpart | hpart
    · exact hsame part (List.mem_append_left _ hpart)
    · obtain rfl := List.mem_singleton.mp hpart
      refine List.isChain_append.mpr
        ⟨hsame run (List.mem_append_right _ (List.mem_singleton_self run)), .singleton a, ?_⟩
      intro b hb c hc
      obtain rfl : a = c := by simpa using hc
      exact decide_eq_true (hkey b (List.mem_of_mem_getLast? hb))
  · obtain ⟨hfront, -, hlast⟩ := List.isChain_append.mp hapart
    refine List.isChain_append.mpr ⟨hfront, .singleton _, ?_⟩
    intro part hpart next hnext
    obtain rfl : run ++ [a] = next := by simpa using hnext
    obtain ⟨hpart', hrun, hne⟩ := hlast part hpart run (by simp)
    exact ⟨hpart', by simp, by rwa [List.head_append_of_ne_nil hrun]⟩

/-- In a sorted list, the elements of one key stand in one run. -/
theorem exists_run (key : α → κ) {l : List α}
    (hsorted : l.Pairwise fun a b => key a ≤ key b) {a b : α} (ha : a ∈ l) (hb : b ∈ l)
    (hkey : key a = key b) : ∃ run ∈ runs key l, a ∈ run ∧ b ∈ run := by
  have hne : [] ∉ runs key l := List.nil_notMem_splitBy _ l
  have hbound := List.isChain_getLast_head_splitBy (fun a b => decide (key a = key b)) l
  rw [← flatten_runs key l] at hsorted ha hb
  change (runs key l).IsChain _ at hbound
  generalize runs key l = rs at *
  induction rs with
  | nil => simp at ha
  | cons r rest ih =>
    simp only [List.flatten_cons, List.pairwise_append] at hsorted
    obtain ⟨hr, hrest, hcross⟩ := hsorted
    -- An element of the first run and one of a later run have different keys.
    have apart : ∀ {x y : α}, x ∈ r → y ∈ rest.flatten → key x ≠ key y := by
      intro x y hx hy heq
      cases rest with
      | nil => simp at hy
      | cons s rest =>
        obtain ⟨⟨hr', hs', hlt⟩, -⟩ := List.isChain_cons_cons.mp hbound
        have hlast : key x ≤ key (r.getLast hr') := by
          rcases eq_or_ne x (r.getLast hr') with rfl | hxl
          · exact le_refl _
          · rw [← List.dropLast_append_getLast hr', List.pairwise_append] at hr
            rw [← List.dropLast_append_getLast hr', List.mem_append, List.mem_singleton] at hx
            exact hr.2.2 x (hx.resolve_right hxl) _ (by simp)
        have hhead : key (s.head hs') ≤ key y := by
          rw [List.flatten_cons] at hy hrest
          obtain ⟨b, s', rfl⟩ := List.exists_cons_of_ne_nil hs'
          rcases List.mem_cons.mp hy with rfl | hy
          · exact le_refl _
          · exact List.rel_of_pairwise_cons hrest hy
        have hmid : key (r.getLast hr') ≤ key (s.head hs') :=
          hcross _ (List.getLast_mem hr') _
            (List.mem_flatten.mpr ⟨s, List.mem_cons_self, List.head_mem hs'⟩)
        have : key (r.getLast hr') = key (s.head hs') :=
          le_antisymm hmid (hhead.trans (heq ▸ hlast))
        simp [this] at hlt
    rw [List.flatten_cons, List.mem_append] at ha hb
    rcases ha with ha | ha <;> rcases hb with hb | hb
    · exact ⟨r, List.mem_cons_self, ha, hb⟩
    · exact absurd hkey (apart ha hb)
    · exact absurd hkey.symm (apart hb ha)
    · obtain ⟨run, hrun, hmem⟩ := ih hrest ha hb (fun h => hne (List.mem_cons_of_mem _ h))
        hbound.tail
      exact ⟨run, List.mem_cons_of_mem _ hrun, hmem⟩

end

/-! ## A cursor -/

theorem dropWhile_dropWhile_of_imp {p q : α → Bool} (h : ∀ a, p a = true → q a = true)
    (l : List α) : (l.dropWhile p).dropWhile q = l.dropWhile q := by
  induction l with
  | nil => rfl
  | cons a l ih =>
    cases hp : p a with
    | true => rw [List.dropWhile_cons_of_pos hp, List.dropWhile_cons_of_pos (h a hp), ih]
    | false => rw [List.dropWhile_cons_of_neg (by simp [hp])]

/-! ## Groups in the order of their first elements -/

section

variable [DecidableEq κ]

/-- Pushes the element to the list of its key, which starts empty. -/
def pushAt (k : κ) (a : α) : List (κ × List α) → List (κ × List α)
  | [] => [(k, [a])]
  | (k', as) :: rest => if k' = k then (k', as ++ [a]) :: rest else (k', as) :: pushAt k a rest

def group (key : α → κ) (l : List α) : List (κ × List α) :=
  l.foldl (fun acc a => pushAt (key a) a acc) []

theorem pushAt_map {ks : List κ} (hnd : ks.Nodup) {f : κ → List α} {k : κ}
    (hnew : k ∉ ks → f k = []) (a : α) : pushAt k a (ks.map fun k' => (k', f k')) =
      (pushNew ks k).map fun k' => (k', if k' = k then f k' ++ [a] else f k') := by
  induction ks with
  | nil => simp [pushAt, pushNew, hnew]
  | cons k' rest ih =>
    obtain ⟨hfresh, hnd⟩ := List.nodup_cons.mp hnd
    rw [List.map_cons, pushAt]
    by_cases h : k' = k
    · subst h
      have hrest : ∀ x ∈ rest, x ≠ k' := fun x hx heq => hfresh (heq ▸ hx)
      simp only [if_true, pushNew, List.mem_cons_self, List.map_cons]
      congr 1
      exact List.map_congr_left fun x hx => by rw [if_neg (hrest x hx)]
    · have hpush : pushNew (k' :: rest) k = k' :: pushNew rest k := by
        simp only [pushNew, List.mem_cons, Ne.symm h, false_or]
        split_ifs <;> rfl
      rw [if_neg h, hpush, List.map_cons, if_neg h, ih hnd]
      exact fun hk => hnew (by simp [Ne.symm h, hk])

/-- Each key has one group: the elements with this key, in the order of the list. -/
theorem group_eq (key : α → κ) (l : List α) : group key l =
    (distinct (l.map key)).map fun k => (k, l.filter fun a => key a = k) := by
  induction l using List.reverseRecOn with
  | nil => rfl
  | append_singleton l a ih =>
    have hnew : key a ∉ distinct (l.map key) → l.filter (fun b => key b = key a) = [] := by
      intro h
      rw [List.filter_eq_nil_iff]
      intro b hb heq
      exact h (mem_distinct.mpr (List.mem_map.mpr ⟨b, hb, by simpa using heq⟩))
    have hpush : distinct ((l ++ [a]).map key) = pushNew (distinct (l.map key)) (key a) := by
      simp [distinct, List.foldl_append]
    rw [group, List.foldl_append, ← group, ih, List.foldl_cons, List.foldl_nil,
      pushAt_map (nodup_distinct _) hnew, hpush]
    refine List.map_congr_left fun k _ => ?_
    by_cases h : k = key a
    · simp [h]
    · simp [h, Ne.symm h]

theorem mem_group {key : α → κ} {l : List α} {k : κ} {as : List α} :
    (k, as) ∈ group key l ↔ as = l.filter (fun a => key a = k) ∧ ∃ a ∈ l, key a = k := by
  simp only [group_eq, List.mem_map, mem_distinct, Prod.mk.injEq]
  constructor
  · rintro ⟨-, ⟨a, ha, rfl⟩, rfl, rfl⟩
    exact ⟨rfl, a, ha, rfl⟩
  · rintro ⟨rfl, a, ha, rfl⟩
    exact ⟨key a, ⟨a, ha, rfl⟩, rfl, rfl⟩

/-- The lookup of a key finds its group. -/
theorem find?_group (key : α → κ) (l : List α) (k : κ) :
    (((group key l).find? fun e => e.1 = k).map (·.2)).getD [] =
      l.filter fun a => key a = k := by
  cases hf : (group key l).find? fun e => e.1 = k with
  | some e =>
    obtain ⟨k', as⟩ := e
    obtain rfl : k' = k := by simpa using List.find?_some hf
    exact (mem_group.mp (List.mem_of_find?_eq_some hf)).1
  | none =>
    rw [Option.map_none, Option.getD_none, eq_comm, List.filter_eq_nil_iff]
    intro a ha hk
    have hmem : (k, l.filter fun a => key a = k) ∈ group key l :=
      mem_group.mpr ⟨rfl, a, ha, by simpa using hk⟩
    simpa using List.find?_eq_none.mp hf _ hmem

theorem keys_group (key : α → κ) (l : List α) :
    (group key l).map (·.1) = distinct (l.map key) := by
  rw [group_eq, List.map_map]
  exact List.map_id _

end

/-! ## A fallible map -/

@[simp] theorem ok_bind {ε γ δ : Type} (a : γ) (f : γ → Except ε δ) :
    (Except.ok a >>= f) = f a := rfl

@[simp] theorem error_bind {ε γ δ : Type} (e : ε) (f : γ → Except ε δ) :
    (Except.error e >>= f) = .error e := rfl

theorem bind_eq_error_iff {ε γ δ : Type} {x : Except ε γ} {f : γ → Except ε δ} {e : ε} :
    (x >>= f) = .error e ↔ x = .error e ∨ ∃ a, x = .ok a ∧ f a = .error e := by
  cases x with
  | error e' => simp
  | ok a => simp

theorem bind_eq_ok_iff {ε γ δ : Type} {x : Except ε γ} {f : γ → Except ε δ} {b : δ} :
    (x >>= f) = .ok b ↔ ∃ a, x = .ok a ∧ f a = .ok b := by
  cases x with
  | error e => exact iff_of_false nofun (by simp)
  | ok a => simp

theorem map_eq_ok_iff {ε γ δ : Type} {x : Except ε γ} {f : γ → δ} {b : δ} :
    x.map f = .ok b ↔ ∃ a, x = .ok a ∧ f a = b := by
  cases x with
  | error e => exact iff_of_false nofun (by simp)
  | ok a => simp [Except.map]

theorem mapError_eq_ok_iff {ε ε' γ : Type} {f : ε → ε'} {x : Except ε γ} {a : γ} :
    x.mapError f = .ok a ↔ x = .ok a := by
  cases x <;> simp [Except.mapError]

/-- `ok_or_else`. -/
def orError {ε γ : Type} (x : Option γ) (error : ε) : Except ε γ :=
  match x with
  | some a => .ok a
  | none => .error error

@[simp] theorem orError_some {ε γ : Type} (a : γ) (error : ε) :
    orError (some a) error = .ok a := rfl

theorem orError_eq_ok_iff {ε γ : Type} {x : Option γ} {error : ε} {a : γ} :
    orError x error = .ok a ↔ x = some a := by
  cases x <;> simp [orError]

/-- A loop of checks passes when each of them does. -/
theorem forM_ok_iff {ε : Type} {f : α → Except ε Unit} {l : List α} :
    l.forM f = .ok () ↔ ∀ a ∈ l, f a = .ok () := by
  induction l with
  | nil => exact iff_of_true rfl nofun
  | cons a l ih =>
    rw [List.forall_mem_cons, ← ih]
    change (f a >>= fun _ => l.forM f) = .ok () ↔ _
    rw [bind_eq_ok_iff]
    constructor
    · rintro ⟨⟨⟩, ha, hl⟩
      exact ⟨ha, hl⟩
    · rintro ⟨ha, hl⟩
      exact ⟨(), ha, hl⟩

theorem mapM_eq_some_iff {f : α → Option β} {l : List α} {l' : List β} :
    l.mapM f = some l' ↔ List.Forall₂ (fun a b => f a = some b) l l' := by
  induction l generalizing l' with
  | nil => cases l' <;> simp
  | cons a rest ih =>
    rw [List.mapM_cons]
    cases l' with
    | nil => cases f a <;> cases rest.mapM f <;> simp
    | cons b rest' =>
      rw [List.forall₂_cons, ← ih]
      cases f a with
      | none => simp
      | some b' => cases rest.mapM f <;> simp

theorem mapM_isSome {f : α → Option β} {l : List α} (h : ∀ a ∈ l, (f a).isSome) :
    (l.mapM f).isSome := by
  simp only [Option.isSome_iff_exists, mapM_eq_some_iff] at h ⊢
  induction l with
  | nil => exact ⟨[], .nil⟩
  | cons a rest ih =>
    rw [List.forall_mem_cons] at h
    obtain ⟨⟨b, hb⟩, hrest⟩ := h
    obtain ⟨bs, hbs⟩ := ih hrest
    exact ⟨b :: bs, .cons hb hbs⟩

/-- The same for a map that gives a reason when it fails. -/
theorem mapM_eq_ok_iff {ε : Type*} {f : α → Except ε β} {l : List α} {l' : List β} :
    l.mapM f = .ok l' ↔ List.Forall₂ (fun a b => f a = .ok b) l l' := by
  induction l generalizing l' with
  | nil =>
    rw [List.mapM_nil, List.forall₂_nil_left_iff]
    exact ⟨fun h => (Except.ok.inj h).symm, fun h => h ▸ rfl⟩
  | cons a rest ih =>
    have hcons : (a :: rest).mapM f = .ok l' ↔
        ∃ b bs, f a = .ok b ∧ rest.mapM f = .ok bs ∧ b :: bs = l' := by
      rw [List.mapM_cons]
      cases f a with
      | error e => exact iff_of_false nofun (by simp)
      | ok b =>
        cases rest.mapM f with
        | error e => exact iff_of_false nofun (by simp)
        | ok bs =>
          refine ⟨fun h => ⟨b, bs, rfl, rfl, Except.ok.inj h⟩, ?_⟩
          rintro ⟨b', bs', hb, hbs, rfl⟩
          obtain rfl := Except.ok.inj hb
          obtain rfl := Except.ok.inj hbs
          rfl
    rw [hcons, List.forall₂_cons_left_iff]
    constructor
    · rintro ⟨b, bs, hb, hbs, rfl⟩
      exact ⟨b, bs, hb, ih.mp hbs, rfl⟩
    · rintro ⟨b, bs, hb, hbs, rfl⟩
      exact ⟨b, bs, hb, ih.mpr hbs, rfl⟩

/-- What a loop collects, where each element gives what `g` says. -/
theorem map_eq_of_mapM {ε γ : Type*} {f : α → Except ε β} {g : α → γ} {p : β → γ} {l : List α}
    {l' : List β} (h : l.mapM f = .ok l') (hone : ∀ a b, f a = .ok b → p b = g a) :
    l'.map p = l.map g := by
  have hall := mapM_eq_ok_iff.mp h
  clear h
  induction hall with
  | nil => rfl
  | cons hab _ ih => rw [List.map_cons, List.map_cons, hone _ _ hab, ih]

/-- A pass fails with the error of one of its turns. -/
theorem exists_of_mapM_error {ε : Type*} {f : α → Except ε β} {l : List α} {e : ε}
    (h : l.mapM f = .error e) : ∃ a ∈ l, f a = .error e := by
  induction l with
  | nil => cases h
  | cons a rest ih =>
    rw [List.mapM_cons] at h
    cases ha : f a with
    | error e' =>
      rw [ha] at h
      cases h
      exact ⟨a, List.mem_cons_self, ha⟩
    | ok b =>
      cases hrest : rest.mapM f with
      | error e' =>
        rw [ha, hrest] at h
        cases h
        obtain ⟨a', ha', he⟩ := ih hrest
        exact ⟨a', List.mem_cons_of_mem a ha', he⟩
      | ok bs =>
        rw [ha, hrest] at h
        cases h

theorem exists_mapM_ok_iff {ε : Type*} {f : α → Except ε β} {l : List α} :
    (∃ l', l.mapM f = .ok l') ↔ ∀ a ∈ l, ∃ b, f a = .ok b := by
  simp only [mapM_eq_ok_iff]
  induction l with
  | nil => exact ⟨by simp, fun _ => ⟨[], .nil⟩⟩
  | cons a rest ih =>
    rw [List.forall_mem_cons, ← ih]
    constructor
    · rintro ⟨l', h⟩
      obtain ⟨b, bs, hb, hbs, -⟩ := List.forall₂_cons_left_iff.mp h
      exact ⟨⟨b, hb⟩, bs, hbs⟩
    · rintro ⟨⟨b, hb⟩, bs, hbs⟩
      exact ⟨b :: bs, .cons hb hbs⟩

/-- In two lists that are related place by place, each element has its partner. -/
theorem forall₂_partner {R : α → β → Prop} {l : List α} {l' : List β} (h : List.Forall₂ R l l') :
    (∀ a ∈ l, ∃ b ∈ l', R a b) ∧ ∀ b ∈ l', ∃ a ∈ l, R a b := by
  induction h with
  | nil => simp
  | cons hab _ ih =>
    refine ⟨List.forall_mem_cons.mpr ⟨⟨_, List.mem_cons_self, hab⟩, fun a ha => ?_⟩,
      List.forall_mem_cons.mpr ⟨⟨_, List.mem_cons_self, hab⟩, fun b hb => ?_⟩⟩
    · obtain ⟨b, hb, hab⟩ := ih.1 a ha
      exact ⟨b, List.mem_cons_of_mem _ hb, hab⟩
    · obtain ⟨a, ha, hab⟩ := ih.2 b hb
      exact ⟨a, List.mem_cons_of_mem _ ha, hab⟩

/-- Where each pair is related just when its first element has a property, all are when all have. -/
theorem forall₂_iff_forall {R : α → β → Prop} {p : α → Prop} {l : List α} {l' : List β}
    (h : List.Forall₂ (fun a b => R a b ↔ p a) l l') : List.Forall₂ R l l' ↔ ∀ a ∈ l, p a := by
  induction h with
  | nil => simp
  | cons hab _ ih => rw [List.forall₂_cons, List.forall_mem_cons, hab, ih]

/-- Lists of the same lengths are related part by part. -/
theorem forall₂_flatMap_iff {γ : Type*} {R : γ → β → Prop} {f : α → List γ} {l : List α}
    {ls : List (List β)} (h : List.Forall₂ (fun a bs => (f a).length = bs.length) l ls) :
    List.Forall₂ R (l.flatMap f) ls.flatten ↔
      List.Forall₂ (fun a bs => List.Forall₂ R (f a) bs) l ls := by
  induction h with
  | nil => simp
  | @cons a bs l ls hlength _ ih =>
    rw [List.flatMap_cons, List.flatten_cons, List.forall₂_cons, ← ih]
    constructor
    · intro hall
      have hfront := List.forall₂_take (f a).length hall
      have hback := List.forall₂_drop (f a).length hall
      rw [List.take_left, hlength, List.take_left] at hfront
      rw [List.drop_left, hlength, List.drop_left] at hback
      exact ⟨hfront, hback⟩
    · rintro ⟨hfront, hback⟩
      exact List.rel_append hfront hback

/-- Putting a list together again from the parts with one key. -/
theorem flatMap_filter_perm [DecidableEq κ] {key : α → κ} {keys : List κ} {l : List α}
    (hnodup : keys.Nodup) (hkeys : ∀ a ∈ l, key a ∈ keys) :
    (keys.flatMap fun k => l.filter (key · = k)).Perm l := by
  induction keys generalizing l with
  | nil =>
    cases l with
    | nil => exact .refl _
    | cons a l => exact absurd (hkeys a List.mem_cons_self) List.not_mem_nil
  | cons k keys ih =>
    obtain ⟨hk, hnodup⟩ := List.nodup_cons.mp hnodup
    have hrest : ∀ a ∈ l.filter (¬ key · = k), key a ∈ keys := by
      intro a ha
      obtain ⟨ha, hne⟩ := List.mem_filter.mp ha
      exact (List.mem_cons.mp (hkeys a ha)).resolve_left (by simpa using hne)
    have hsame : (keys.flatMap fun k' => l.filter (key · = k')) =
        keys.flatMap fun k' => (l.filter (¬ key · = k)).filter (key · = k') := by
      rw [List.flatMap_def, List.flatMap_def]
      congr 1
      refine List.map_congr_left fun k' hk' => ?_
      rw [List.filter_filter]
      refine List.filter_congr fun a _ => ?_
      have hne : k' ≠ k := fun heq => hk (heq ▸ hk')
      by_cases hak : key a = k'
      · simp [hak, hne]
      · simp [hak]
    rw [List.flatMap_cons, hsame]
    refine ((ih hnodup hrest).append_left _).trans ?_
    simpa using List.filter_append_perm (fun a => decide (key a = k)) l

/-- Two lists with the same images are the same where the images tell their elements apart. -/
theorem eq_of_map_eq {g : α → β} {l l' : List α} (hinj : ∀ a ∈ l, ∀ b ∈ l', g a = g b → a = b)
    (h : l.map g = l'.map g) : l = l' := by
  induction l generalizing l' with
  | nil => exact (List.map_eq_nil_iff.mp h.symm).symm
  | cons a l ih =>
    cases l' with
    | nil => exact nomatch h
    | cons b l' =>
      obtain ⟨hab, hrest⟩ := List.cons.inj h
      rw [hinj a List.mem_cons_self b List.mem_cons_self hab, ih ?_ hrest]
      intro a' ha' b' hb'
      exact hinj a' (List.mem_cons_of_mem a ha') b' (List.mem_cons_of_mem b hb')

/-- Where the images are distinct, an image is the one of a single element. -/
theorem filter_eq_singleton [DecidableEq β] {f : α → Option β} {l : List α}
    (h : (l.filterMap f).Nodup) {a : α} {b : β} (ha : a ∈ l) (hb : f a = some b) :
    l.filter (f · = some b) = [a] := by
  induction l with
  | nil => exact nomatch ha
  | cons c l ih =>
    cases hc : f c with
    | none =>
      rw [List.filterMap_cons_none hc] at h
      rw [List.filter_cons_of_neg (by simp [hc])]
      rcases List.mem_cons.mp ha with rfl | ha
      · exact nomatch hb.symm.trans hc
      · exact ih h ha
    | some d =>
      rw [List.filterMap_cons_some hc, List.nodup_cons] at h
      rcases List.mem_cons.mp ha with rfl | ha
      · obtain rfl := Option.some.inj (hb.symm.trans hc)
        rw [List.filter_cons_of_pos (by simp [hc]), List.filter_eq_nil_iff.mpr]
        intro x hx hxb
        exact h.1 (List.mem_filterMap.mpr ⟨x, hx, by simpa using hxb⟩)
      · have hne : d ≠ b := by
          rintro rfl
          exact h.1 (List.mem_filterMap.mpr ⟨a, ha, hb⟩)
        rw [List.filter_cons_of_neg (by simpa [hc] using hne)]
        exact ih h.2 ha

/-! ## A fallible loop -/

/-- A change of the state that each step goes through stands behind the whole loop. -/
theorem foldlM_hom {ε : Type*} {step : β → α → Except ε β} {f : β → β}
    (h : ∀ s a, step (f s) a = (step s a).map f) (l : List α) (s : β) :
    l.foldlM step (f s) = (l.foldlM step s).map f := by
  induction l generalizing s with
  | nil => rfl
  | cons a l ih =>
    rw [List.foldlM_cons, List.foldlM_cons, h]
    cases step s a with
    | error e => rfl
    | ok s' => exact ih s'

/-- What holds of the elements so far and the state holds at the end of the loop. -/
theorem foldlM_fronts {ε : Type*} {step : β → α → Except ε β} (P : List α → β → Prop) {s : β}
    (hstart : P [] s)
    (hstep : ∀ {l a s s'}, P l s → step s a = .ok s' → P (l ++ [a]) s') {l : List α} {s' : β}
    (h : l.foldlM step s = .ok s') : P l s' := by
  induction l using List.reverseRecOn generalizing s' with
  | nil =>
    obtain rfl := Except.ok.inj h
    exact hstart
  | append_singleton l a ih =>
    rw [List.foldlM_append] at h
    cases hl : l.foldlM step s with
    | error e =>
      rw [hl] at h
      exact nomatch h
    | ok mid =>
      rw [hl] at h
      change (step mid a >>= pure) = .ok s' at h
      rw [bind_pure] at h
      exact hstep (ih hl) h

/-! ## A list that is emptied in between -/

/-- What a loop collects that some elements empty again is all that there was to collect, when
nothing was collected in front of any of these. -/
theorem foldl_emptied_eq_iff {p : α → List β} {empties : α → Prop} [DecidablePred empties]
    (h : ∀ a, empties a → p a = []) {l : List α} :
    l.foldl (fun acc a => if empties a then [] else acc ++ p a) [] = l.flatMap p ↔
      ∀ front a back, l = front ++ a :: back → empties a → front.flatMap p = [] := by
  induction l using List.reverseRecOn with
  | nil => simp
  | append_singleton l last ih =>
    rw [List.foldl_append, List.flatMap_append, List.foldl_cons, List.foldl_nil,
      List.flatMap_singleton]
    split_ifs with hlast
    · rw [h last hlast, List.append_nil]
      constructor
      · intro hnone front a back heq _
        have hfront : front <+: l := by
          refine List.prefix_of_prefix_length_le ⟨a :: back, heq.symm⟩ (List.prefix_append l _) ?_
          have hlength := congrArg List.length heq
          simp at hlength
          omega
        obtain ⟨rest, rfl⟩ := hfront
        exact (List.append_eq_nil_iff.mp (List.flatMap_append ▸ hnone.symm)).1
      · exact fun hall => (hall l last [] rfl hlast).symm
    · rw [List.append_left_inj, ih]
      constructor
      · intro hall front a back heq ha
        rcases List.eq_nil_or_concat back with rfl | ⟨back, b, rfl⟩
        · obtain ⟨-, hsame⟩ := List.append_inj' heq rfl
          simp only [List.cons.injEq, and_true] at hsame
          exact absurd (hsame ▸ ha) hlast
        · refine hall front a back ?_ ha
          have hsplit : l ++ [last] = (front ++ a :: back) ++ [b] := by simpa using heq
          exact (List.append_inj' hsplit rfl).1
      · intro hall front a back heq ha
        exact hall front a (back ++ [last]) (by rw [heq]; simp) ha

/-- Elements that contribute nothing can be left out first. -/
theorem flatMap_filter_eq {p : α → Bool} {f g : α → List β} {l : List α}
    (hkeep : ∀ a ∈ l, p a = true → f a = g a) (hdrop : ∀ a ∈ l, ¬ p a = true → g a = []) :
    (l.filter p).flatMap f = l.flatMap g := by
  induction l with
  | nil => rfl
  | cons a l ih =>
    have htail := ih (fun b hb => hkeep b (List.mem_cons_of_mem a hb))
      fun b hb => hdrop b (List.mem_cons_of_mem a hb)
    by_cases h : p a = true
    · rw [List.filter_cons_of_pos h, List.flatMap_cons, List.flatMap_cons, htail,
        hkeep a List.mem_cons_self h]
    · rw [List.filter_cons_of_neg h, List.flatMap_cons, htail, hdrop a List.mem_cons_self h,
        List.nil_append]

/-! ## Distinct keys -/

section

variable {key : α → κ} {l : List α} {a : α}

theorem find?_key [DecidableEq κ] (hnd : (l.map key).Nodup) (ha : a ∈ l) :
    l.find? (fun b => key b = key a) = some a := by
  have hsome : (l.find? fun b => key b = key a).isSome :=
    List.find?_isSome.mpr ⟨a, ha, decide_eq_true rfl⟩
  obtain ⟨b, hb⟩ := Option.isSome_iff_exists.mp hsome
  have hkey : key b = key a := by simpa using List.find?_some hb
  rw [hb, List.inj_on_of_nodup_map hnd (List.mem_of_find?_eq_some hb) ha hkey]

/-- Where only one key contributes, the loop gives what that element contributes. -/
theorem flatMap_key {g : α → List β} (hnd : (l.map key).Nodup) (ha : a ∈ l)
    (hother : ∀ b ∈ l, key b ≠ key a → g b = []) : l.flatMap g = g a := by
  induction l with
  | nil => cases ha
  | cons b rest ih =>
    obtain ⟨hfresh, hrest⟩ := List.nodup_cons.mp hnd
    rw [List.flatMap_cons]
    rcases List.mem_cons.mp ha with rfl | ha
    · have hnone : rest.flatMap g = [] := by
        refine List.flatMap_eq_nil_iff.mpr fun b hb => hother b (List.mem_cons_of_mem a hb) ?_
        exact fun hkey => hfresh (List.mem_map.mpr ⟨b, hb, hkey⟩)
      rw [hnone, List.append_nil]
    · have hb : g b = [] := hother b List.mem_cons_self fun hkey =>
        hfresh (List.mem_map.mpr ⟨a, ha, hkey.symm⟩)
      rw [hb, List.nil_append]
      exact ih hrest ha fun c hc => hother c (List.mem_cons_of_mem b hc)

end

/-! ## Two filters of a sorted list -/

/-- When no element that passes the second filter stands before one that passes the first,
the elements that pass either are those of the first, then those of the second. -/
theorem filter_append_filter {l : List α} {p q : α → Bool}
    (h : l.Pairwise fun a b => q a = true → p b = false)
    (hdisjoint : ∀ a ∈ l, q a = true → p a = false) :
    l.filter (fun a => p a || q a) = l.filter p ++ l.filter q := by
  induction l with
  | nil => rfl
  | cons a rest ih =>
    rw [List.pairwise_cons] at h
    have hrest := ih h.2 fun b hb => hdisjoint b (List.mem_cons_of_mem a hb)
    cases hq : q a with
    | false => cases hp : p a <;> simp [hp, hq, hrest]
    | true =>
      have hp : p a = false := hdisjoint a List.mem_cons_self hq
      have hnone : rest.filter p = [] := by
        rw [List.filter_eq_nil_iff]
        intro b hb hpb
        rw [h.1 b hb hq] at hpb
        exact Bool.noConfusion hpb
      simp [hp, hq, hrest, hnone]

end LawNexus.Loops
