import Mathlib.Data.List.DropRight
import Mathlib.Data.String.Basic

/-!
# Texts

The functions on `str` that the source calls: `trim`, the last part after a separator, the
replacement of one character by another.
-/

namespace LawNexus.Texts

/-! ## Trim -/

/-- The White_Space property of Unicode, as `char::is_whitespace` has it. -/
def isWhitespace (c : Char) : Bool :=
  let n := c.toNat
  (9 ≤ n && n ≤ 13) || n == 0x20 || n == 0x85 || n == 0xA0 || n == 0x1680 ||
    (0x2000 ≤ n && n ≤ 0x200A) || n == 0x2028 || n == 0x2029 || n == 0x202F || n == 0x205F ||
    n == 0x3000

def trim (s : String) : String :=
  .ofList ((s.toList.dropWhile isWhitespace).rdropWhile isWhitespace)

theorem dropWhile_rdropWhile {α : Type*} (p : α → Bool) (l : List α) :
    ((l.dropWhile p).rdropWhile p).dropWhile p = (l.dropWhile p).rdropWhile p := by
  obtain ⟨rest, hrest⟩ := List.rdropWhile_prefix p (l.dropWhile p)
  cases hcut : (l.dropWhile p).rdropWhile p with
  | nil => rfl
  | cons a as =>
    -- The cut keeps the first element of a list that does not start with a dropped one.
    have hfirst : l.dropWhile p = a :: (as ++ rest) := by rw [← hrest, hcut, List.cons_append]
    have ha : p a = false := by
      have hkeep := List.dropWhile_idempotent p l
      rw [hfirst] at hkeep
      by_contra hp
      rw [Bool.not_eq_false] at hp
      rw [List.dropWhile_cons_of_pos hp] at hkeep
      have hlen := (List.dropWhile_suffix p (l := as ++ rest)).length_le
      rw [hkeep, List.length_cons] at hlen
      omega
    rw [List.dropWhile_cons_of_neg (by simp [ha])]

@[simp] theorem trim_trim (s : String) : trim (trim s) = trim s := by
  rw [trim, trim, String.toList_ofList, dropWhile_rdropWhile, List.rdropWhile_idempotent]

/-! ## Separators -/

/-- The first item of `rsplit`. -/
def lastPart (sep : Char) (s : String) : String := .ofList (s.toList.rtakeWhile (· ≠ sep))

theorem not_mem_lastPart (sep : Char) (s : String) : sep ∉ (lastPart sep s).toList := by
  intro h
  rw [lastPart, String.toList_ofList] at h
  simpa using List.mem_rtakeWhile_imp h

def replace (old new : Char) (s : String) : String :=
  .ofList (s.toList.map fun c => if c = old then new else c)

/-- The first place of a separator cuts a list in one way. -/
theorem append_cons_inj {α : Type*} {sep : α} {a a' b b' : List α} (ha : sep ∉ a)
    (ha' : sep ∉ a') : a ++ sep :: b = a' ++ sep :: b' ↔ a = a' ∧ b = b' := by
  constructor
  · intro h
    induction a generalizing a' with
    | nil =>
      cases a' with
      | nil => exact ⟨rfl, (List.cons.inj h).2⟩
      | cons x a' => exact absurd (List.cons.inj h).1 fun heq => ha' (heq ▸ List.mem_cons_self)
    | cons x a ih =>
      cases a' with
      | nil => exact absurd (List.cons.inj h).1.symm fun heq => ha (heq ▸ List.mem_cons_self)
      | cons y a' =>
        obtain ⟨rfl, htail⟩ := List.cons.inj h
        obtain ⟨rfl, hb⟩ := ih (fun hm => ha (List.mem_cons_of_mem _ hm))
          (fun hm => ha' (List.mem_cons_of_mem _ hm)) htail
        exact ⟨rfl, hb⟩
  · rintro ⟨rfl, rfl⟩
    rfl

/-! ## Numbered names -/

/-- A name and a decimal number: the number can be read back. -/
theorem append_repr_inj {name : String} {m n : Nat} :
    name ++ Nat.repr m = name ++ Nat.repr n ↔ m = n := by
  constructor
  · intro h
    have hdigits : Nat.toDigits 10 m = Nat.toDigits 10 n := by
      rw [← Nat.toList_repr, ← Nat.toList_repr]
      have htext := congrArg String.toList h
      rw [String.toList_append, String.toList_append] at htext
      exact List.append_cancel_left htext
    rw [← Nat.ofDigitChars_toDigits (b := 10) (n := m) (by decide) (by decide), hdigits,
      Nat.ofDigitChars_toDigits (by decide) (by decide)]
  · rintro rfl
    rfl

/-- A decimal number has digits only. -/
theorem isDigit_of_mem_repr {n : Nat} {c : Char} (h : c ∈ (Nat.repr n).toList) :
    c.isDigit = true := by
  rw [Nat.toList_repr] at h
  exact Nat.isDigit_of_mem_toDigits (by decide) (by decide) h

theorem dash_notMem_repr (n : Nat) : '-' ∉ (Nat.repr n).toList :=
  fun h => absurd (isDigit_of_mem_repr h) (by decide)

/-- A name, a dash and a decimal number: both can be read back. -/
theorem append_dash_repr_inj {name name' : String} {m n : Nat} :
    name ++ "-" ++ Nat.repr m = name' ++ "-" ++ Nat.repr n ↔ name = name' ∧ m = n := by
  constructor
  · intro h
    have hrev : (Nat.repr m).toList.reverse ++ '-' :: name.toList.reverse =
        (Nat.repr n).toList.reverse ++ '-' :: name'.toList.reverse := by
      have hrev := congrArg (fun s => s.toList.reverse) h
      simp only [String.toList_append, List.reverse_append] at hrev
      exact hrev
    have hcut := (append_cons_inj (fun hm => dash_notMem_repr m (List.mem_reverse.mp hm))
      (fun hm => dash_notMem_repr n (List.mem_reverse.mp hm))).mp hrev
    have hname : name = name' := String.toList_inj.mp (List.reverse_inj.mp hcut.2)
    subst hname
    exact ⟨rfl, append_repr_inj.mp h⟩
  · rintro ⟨rfl, rfl⟩
    rfl

/-! ## Three parts and two separators -/

/-- The first part of the other triple goes on behind the first separator: it takes the middle,
and what else of this triple's last part stands in front of the other middle. -/
def Shifts {α : Type*} (sep : α) (c d p c' d' p' : List α) : Prop :=
  ∃ rest, c' = c ++ sep :: (d ++ rest) ∧ sep :: p = rest ++ sep :: (d' ++ sep :: p')

/-- With no separator in the middle, two joined triples are equal, or one is cut at a later
separator of the other. -/
theorem join_three_inj {α : Type*} {sep : α} {c d p c' d' p' : List α} (hd : sep ∉ d)
    (hd' : sep ∉ d') : c ++ sep :: (d ++ sep :: p) = c' ++ sep :: (d' ++ sep :: p') ↔
      (c = c' ∧ d = d' ∧ p = p') ∨ Shifts sep c d p c' d' p' ∨ Shifts sep c' d' p' c d p := by
  have shift : ∀ {c d p c' d' p' more : List α}, sep ∉ d → sep ∉ d' → c' = c ++ more →
      sep :: (d ++ sep :: p) = more ++ sep :: (d' ++ sep :: p') →
      (c = c' ∧ d = d' ∧ p = p') ∨ Shifts sep c d p c' d' p' := by
    intro c d p c' d' p' more hd hd' hc h
    cases more with
    | nil =>
      rw [List.append_nil] at hc
      exact Or.inl ⟨hc.symm, (append_cons_inj hd hd').mp (List.cons.inj h).2⟩
    | cons s more =>
      obtain ⟨rfl, htail⟩ := List.cons.inj h
      right
      rcases List.append_eq_append_iff.mp htail with ⟨rest, rfl, hrest⟩ | ⟨rest, hrest, h⟩
      · exact ⟨rest, hc, hrest⟩
      · cases rest with
        | nil =>
          rw [List.append_nil] at hrest
          exact ⟨[], by rw [hc, hrest, List.append_nil], h.symm⟩
        | cons t rest =>
          obtain ⟨rfl, -⟩ := List.cons.inj h
          exact absurd (hrest ▸ List.mem_append_right _ List.mem_cons_self) hd
  have back : ∀ {c d p c' d' p' : List α}, Shifts sep c d p c' d' p' →
      c ++ sep :: (d ++ sep :: p) = c' ++ sep :: (d' ++ sep :: p') := by
    rintro c d p c' d' p' ⟨rest, rfl, h⟩
    rw [h, List.append_assoc, List.cons_append, List.append_assoc]
  constructor
  · intro h
    rcases List.append_eq_append_iff.mp h with ⟨more, hc, h⟩ | ⟨more, hc, h⟩
    · rcases shift hd hd' hc h with h | h
      · exact Or.inl h
      · exact Or.inr (Or.inl h)
    · rcases shift hd' hd hc h with ⟨h1, h2, h3⟩ | h
      · exact Or.inl ⟨h1.symm, h2.symm, h3.symm⟩
      · exact Or.inr (Or.inr h)
  · rintro (⟨rfl, rfl, rfl⟩ | h | h)
    · rfl
    · exact back h
    · exact (back h).symm

/-! ## Signed decimal numbers -/

theorem repr_notMem {sep : Char} (hdash : sep ≠ '-') (hdigit : sep.isDigit = false) (n : Int) :
    sep ∉ (Int.repr n).toList := by
  have hnat : ∀ n : Nat, sep ∉ (Nat.repr n).toList := fun n h => by
    rw [isDigit_of_mem_repr h] at hdigit
    exact absurd hdigit (by decide)
  cases n with
  | ofNat n => exact hnat n
  | negSucc n =>
    rw [Int.repr, String.toList_append, List.mem_append]
    rintro (h | h)
    · exact hdash (by simpa using h)
    · exact hnat _ h

theorem int_repr_inj {m n : Int} : Int.repr m = Int.repr n ↔ m = n := by
  constructor
  · intro h
    have hsign : ∀ a b : Nat, Nat.repr a ≠ "-" ++ Nat.repr b := fun a b heq => by
      refine dash_notMem_repr a ?_
      rw [heq, String.toList_append]
      exact List.mem_append_left _ (by simp)
    cases m with
    | ofNat m =>
      cases n with
      | ofNat n =>
        have htext : "" ++ Nat.repr m = "" ++ Nat.repr n := congrArg ("" ++ ·) h
        exact congrArg Int.ofNat (append_repr_inj.mp htext)
      | negSucc n => exact absurd h (hsign _ _)
    | negSucc m =>
      cases n with
      | ofNat n => exact absurd h.symm (hsign _ _)
      | negSucc n =>
        have hnat : "-" ++ Nat.repr (m + 1) = "-" ++ Nat.repr (n + 1) := h
        rw [Nat.succ.inj (append_repr_inj.mp hnat)]
  · rintro rfl
    rfl

end LawNexus.Texts
