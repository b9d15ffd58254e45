import LawNexus.Chars
import LawNexus.Utf8
import Mathlib.Data.List.Infix

/-!
# Occurrences of a marker in a text

The texts behind the occurrences of a marker, and a scan that looks at each of them in turn: it
goes on behind the marker, stops with a result, or fails.
-/

namespace LawNexus.Occurrences

variable {β : Type*}

/-- What stands behind each occurrence. -/
def behind (marker text : List Char) : List (List Char) :=
  text.tails.filterMap marker.isPrefixOf?

/-- The three outcomes of a look at one occurrence. A slice off a char boundary fails. -/
inductive Look (β : Type*)
  | fails
  | goesOn
  | stops (result : Option β)

/-- The scan, with the number of characters of a found marker that are still to be skipped. -/
def scanFrom (marker : List Char) (look : List Char → Look β) :
    Nat → List Char → Option (Option β)
  | _, [] => some none
  | skip + 1, _ :: text => scanFrom marker look skip text
  | 0, c :: text =>
    match marker.isPrefixOf? (c :: text) with
    | none => scanFrom marker look 0 text
    | some rest =>
      match look rest with
      | .fails => none
      | .stops result => some result
      | .goesOn => scanFrom marker look (marker.length - 1) text

/-- The outer `none` is a failure. -/
def scan (marker : List Char) (look : List Char → Look β) (text : List Char) : Option (Option β) :=
  scanFrom marker look 0 text

/-! ## The occurrences in turn -/

variable {m : Char} {ms text rest : List Char} {look : List Char → Look β}

theorem mem_behind {marker : List Char} :
    rest ∈ behind marker text ↔ ∃ front, text = front ++ (marker ++ rest) := by
  simp only [behind, List.mem_filterMap, List.mem_tails, Chars.isPrefixOf?_eq_some]
  constructor
  · rintro ⟨_, ⟨front, htext⟩, rfl⟩
    exact ⟨front, htext.symm⟩
  · rintro ⟨front, htext⟩
    exact ⟨_, ⟨front, htext.symm⟩, rfl⟩

theorem behind_cons (marker : List Char) (c : Char) (text : List Char) :
    behind marker (c :: text) =
      (marker.isPrefixOf? (c :: text)).toList ++ behind marker text := by
  simp only [behind, List.tails, List.filterMap_cons]
  cases marker.isPrefixOf? (c :: text) <;> rfl

/-- No marker starts within characters that are not its first one. -/
theorem behind_append {front : List Char} (h : m ∉ front) :
    behind (m :: ms) (front ++ rest) = behind (m :: ms) rest := by
  induction front with
  | nil => rfl
  | cons c front ih =>
    rw [List.mem_cons, not_or] at h
    have hnone : (m :: ms).isPrefixOf? (c :: (front ++ rest)) = none := by
      simp [List.isPrefixOf?, h.1]
    rw [List.cons_append, behind_cons, ih h.2, hnone]
    rfl

/-- Behind each occurrence there is less text than behind those in front of it. -/
theorem pairwise_behind (marker text : List Char) :
    (behind marker text).Pairwise fun a b => Utf8.byteLen b < Utf8.byteLen a := by
  induction text with
  | nil =>
    rw [behind, List.tails, List.filterMap_cons, List.filterMap_nil]
    cases marker.isPrefixOf? ([] : List Char) <;> simp
  | cons c text ih =>
    rw [behind_cons]
    cases hfirst : marker.isPrefixOf? (c :: text) with
    | none => exact ih
    | some first =>
      refine List.pairwise_cons.mpr ⟨fun rest hrest => ?_, ih⟩
      obtain ⟨front, htext⟩ := mem_behind.mp hrest
      have hfirst := congrArg Utf8.byteLen (Chars.isPrefixOf?_eq_some.mp hfirst)
      have htext := congrArg Utf8.byteLen htext
      have hpos := c.utf8Size_pos
      simp only [Utf8.byteLen_cons, Utf8.byteLen_append] at hfirst htext
      omega

/-- The looks at the occurrences, one after the other. -/
def resolve (look : List Char → Look β) : List (List Char) → Option (Option β)
  | [] => some none
  | rest :: more =>
    match look rest with
    | .fails => none
    | .stops result => some result
    | .goesOn => resolve look more

/-- Where the first character of the marker does not come again in it, the scan looks at all
occurrences up to the first one that ends it. -/
theorem scanFrom_eq_resolve (hfirst : m ∉ ms) (skip : Nat) (text : List Char) :
    scanFrom (m :: ms) look skip text = resolve look (behind (m :: ms) (text.drop skip)) := by
  induction text generalizing skip with
  | nil =>
    rw [List.drop_nil]
    cases skip <;> rfl
  | cons c text ih =>
    cases skip with
    | succ skip => exact ih skip
    | zero =>
      rw [scanFrom, List.drop_zero, behind_cons]
      cases hfound : (m :: ms).isPrefixOf? (c :: text) with
      | none => exact ih 0
      | some rest =>
        obtain ⟨rfl, htext⟩ := List.cons.inj (Chars.isPrefixOf?_eq_some.mp hfound)
        have hrest : text = ms ++ rest := htext
        rw [hrest] at ih ⊢
        simp only [Option.toList_some, List.singleton_append, resolve, behind_append hfirst]
        cases look rest with
        | fails => rfl
        | stops result => rfl
        | goesOn =>
          refine (ih _).trans ?_
          rw [List.length_cons, Nat.add_sub_cancel, List.drop_left]

theorem scan_eq_resolve (hfirst : m ∉ ms) (text : List Char) :
    scan (m :: ms) look text = resolve look (behind (m :: ms) text) :=
  scanFrom_eq_resolve hfirst 0 text

/-! ## What a scan finds -/

/-- A scan that fails has gone on up to an occurrence where the look fails. -/
theorem exists_fails_of_resolve {rests : List (List Char)} (h : resolve look rests = none) :
    ∃ front rest back, rests = front ++ rest :: back ∧ (∀ r ∈ front, look r = .goesOn) ∧
      look rest = .fails := by
  induction rests with
  | nil => cases h
  | cons first more ih =>
    rw [resolve] at h
    cases hlook : look first with
    | fails => exact ⟨[], first, more, rfl, by simp, hlook⟩
    | stops result =>
      rw [hlook] at h
      cases h
    | goesOn =>
      rw [hlook] at h
      obtain ⟨front, rest, back, rfl, hfront, hfails⟩ := ih h
      exact ⟨first :: front, rest, back, rfl, List.forall_mem_cons.mpr ⟨hlook, hfront⟩, hfails⟩

/-- Nothing stops a scan in front of an occurrence where the look fails. -/
theorem resolve_of_fails {front back : List (List Char)}
    (hfront : ∀ r ∈ front, ∀ result, look r ≠ .stops result) (hfails : look rest = .fails) :
    resolve look (front ++ rest :: back) = none := by
  induction front with
  | nil =>
    rw [List.nil_append, resolve, hfails]
  | cons first front ih =>
    obtain ⟨hfirst, hfront⟩ := List.forall_mem_cons.mp hfront
    rw [List.cons_append, resolve]
    cases hlook : look first with
    | fails => rfl
    | stops result => exact absurd hlook (hfirst result)
    | goesOn => exact ih hfront

/-- The look agrees with the wanted value of each text: it stops with it, or stops where no
shorter text has one, or goes on where there is none. -/
structure Finds (look : List Char → Look β) (wanted : List Char → Option β) : Prop where
  goesOn : ∀ {rest}, look rest = .goesOn → wanted rest = none
  found : ∀ {rest v}, look rest = .stops (some v) → wanted rest = some v
  given_up : ∀ {rest}, look rest = .stops none →
    ∀ r, Utf8.byteLen r ≤ Utf8.byteLen rest → wanted r = none

/-- A scan that does not fail returns the first wanted value. -/
theorem resolve_eq_some {wanted : List Char → Option β} (h : Finds look wanted)
    {rests : List (List Char)} {result : Option β}
    (hshorter : rests.Pairwise fun a b => Utf8.byteLen b < Utf8.byteLen a)
    (hresult : resolve look rests = some result) : result = rests.findSome? wanted := by
  induction rests with
  | nil => exact (Option.some.inj hresult).symm
  | cons first more ih =>
    obtain ⟨hfirst, hmore⟩ := List.pairwise_cons.mp hshorter
    rw [resolve] at hresult
    rw [List.findSome?_cons]
    cases hlook : look first with
    | fails =>
      rw [hlook] at hresult
      cases hresult
    | goesOn =>
      rw [hlook] at hresult
      rw [h.goesOn hlook]
      exact ih hmore hresult
    | stops found =>
      rw [hlook] at hresult
      obtain rfl := Option.some.inj hresult
      cases found with
      | some v => rw [h.found hlook]
      | none =>
        rw [h.given_up hlook first (Nat.le_refl _)]
        symm
        rw [List.findSome?_eq_none_iff]
        exact fun r hr => h.given_up hlook r (hfirst r hr).le

end LawNexus.Occurrences
