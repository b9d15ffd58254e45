import LawNexus.Loops
import Mathlib.Data.List.Induction
import Mathlib.Order.Lattice

/-!
# Stacks of open items

A new item closes the open items of its own rank and of the ranks below it, then it is open
itself. The top of a stack is its head.
-/

namespace LawNexus.Nesting

variable {α β κ : Type*} [LinearOrder κ] {rank : α → κ}

/-- The items that a new one leaves open. -/
def stillOpen (rank : α → κ) (stack : List α) (new : κ) : List α :=
  stack.dropWhile fun a => new ≤ rank a

def push (rank : α → κ) (stack : List α) (a : α) : List α := a :: stillOpen rank stack (rank a)

/-- The open items after a list of them. -/
def openAfter (rank : α → κ) (items : List α) : List α := items.foldl (push rank) []

/-- Ranks rise from the bottom of the stack to its top. -/
def Rising (rank : α → κ) (stack : List α) : Prop := stack.Pairwise fun a b => rank b < rank a

theorem mem_stillOpen {stack : List α} {new : κ} {a : α} (h : Rising rank stack) :
    a ∈ stillOpen rank stack new ↔ a ∈ stack ∧ rank a < new := by
  induction stack with
  | nil => simp [stillOpen]
  | cons top stack ih =>
    obtain ⟨htop, hrest⟩ := List.pairwise_cons.mp h
    by_cases hclosed : new ≤ rank top
    · have hcut : stillOpen rank (top :: stack) new = stillOpen rank stack new :=
        List.dropWhile_cons_of_pos (by simpa using hclosed)
      rw [hcut, ih hrest, List.mem_cons]
      constructor
      · exact fun ⟨hmem, hlt⟩ => ⟨Or.inr hmem, hlt⟩
      · rintro ⟨rfl | hmem, hlt⟩
        · exact absurd hlt (not_lt.mpr hclosed)
        · exact ⟨hmem, hlt⟩
    · have hcut : stillOpen rank (top :: stack) new = top :: stack :=
        List.dropWhile_cons_of_neg (by simpa using hclosed)
      rw [hcut]
      refine ⟨fun hmem => ⟨hmem, ?_⟩, And.left⟩
      -- Below a top of a lower rank than the new one, every rank is lower still.
      rcases List.mem_cons.mp hmem with rfl | hmem
      · exact not_le.mp hclosed
      · exact (htop a hmem).trans (not_le.mp hclosed)

theorem Rising.push {stack : List α} (h : Rising rank stack) (a : α) :
    Rising rank (push rank stack a) := by
  refine List.pairwise_cons.mpr ⟨fun b hb => ((mem_stillOpen h).mp hb).2, ?_⟩
  exact List.Pairwise.sublist (List.dropWhile_sublist _) h

theorem Rising.foldl {stack : List α} (h : Rising rank stack) (items : List α) :
    Rising rank (items.foldl (Nesting.push rank) stack) := by
  induction items generalizing stack with
  | nil => exact h
  | cons a items ih => exact ih (h.push a)

theorem rising_openAfter (items : List α) : Rising rank (openAfter rank items) :=
  Rising.foldl .nil items

theorem openAfter_concat (items : List α) (a : α) :
    openAfter rank (items ++ [a]) = push rank (openAfter rank items) a := by
  rw [openAfter, List.foldl_append]
  rfl

/-- An item stays open as long as only items of higher ranks come. -/
theorem mem_openAfter {items : List α} {a : α} :
    a ∈ openAfter rank items ↔
      ∃ before after, items = before ++ a :: after ∧ ∀ b ∈ after, rank a < rank b := by
  induction items using List.reverseRecOn with
  | nil => simp [openAfter]
  | append_singleton items last ih =>
    rw [openAfter_concat, push, List.mem_cons, mem_stillOpen (rising_openAfter items), ih]
    constructor
    · rintro (rfl | ⟨⟨before, after, rfl, hafter⟩, hlast⟩)
      · exact ⟨items, [], rfl, nofun⟩
      · refine ⟨before, after ++ [last], by simp, fun b hb => ?_⟩
        rcases List.mem_append.mp hb with hb | hb
        · exact hafter b hb
        · exact List.mem_singleton.mp hb ▸ hlast
    · rintro ⟨before, after, heq, hafter⟩
      rcases List.eq_nil_or_concat after with rfl | ⟨after, b, rfl⟩
      · exact Or.inl (List.singleton_inj.mp (List.append_inj' heq rfl).2).symm
      · right
        rw [List.concat_eq_append, ← List.cons_append, ← List.append_assoc] at heq
        obtain ⟨hitems, hlast⟩ := List.append_inj' heq rfl
        obtain rfl := List.singleton_inj.mp hlast
        exact ⟨⟨before, after, hitems, fun b hb => hafter b (by simp [hb])⟩, hafter _ (by simp)⟩

/-! ## The nearest lower one -/

/-- The first item of a lower rank, then the first one behind it of a rank that is lower still. -/
def chain (rank : α → κ) : List α → κ → List α
  | [], _ => []
  | a :: rest, new => if rank a < new then a :: chain rank rest (rank a) else chain rank rest new

theorem head?_chain (items : List α) (new : κ) :
    (chain rank items new).head? = items.find? fun a => rank a < new := by
  induction items with
  | nil => rfl
  | cons a items ih =>
    by_cases ha : rank a < new
    · rw [chain, if_pos ha, List.find?_cons_of_pos (by simpa using ha), List.head?_cons]
    · rw [chain, if_neg ha, List.find?_cons_of_neg (by simpa using ha), ih]

/-- What is open is the chain of the nearest lower ones. -/
theorem stillOpen_openAfter (items : List α) (new : κ) :
    stillOpen rank (openAfter rank items) new = chain rank items.reverse new := by
  induction items using List.reverseRecOn generalizing new with
  | nil => rfl
  | append_singleton items last ih =>
    rw [openAfter_concat, List.reverse_append, List.reverse_singleton, List.singleton_append, chain,
      push]
    split_ifs with hlast
    · rw [← ih, stillOpen, List.dropWhile_cons_of_neg (by simpa using hlast)]
    · rw [not_lt] at hlast
      rw [← ih, stillOpen, List.dropWhile_cons_of_pos (by simpa using hlast)]
      refine Loops.dropWhile_dropWhile_of_imp (fun a ha => ?_) _
      rw [decide_eq_true_eq] at ha ⊢
      exact hlast.trans ha

/-- Each item with those in front of it. -/
def withFront (items : List α) : List (List α × α) :=
  items.zipIdx.map fun (a, i) => (items.take i, a)

theorem withFront_concat (items : List α) (a : α) :
    withFront (items ++ [a]) = withFront items ++ [(items, a)] := by
  unfold withFront
  rw [List.zipIdx_append, List.map_append]
  congr 1
  · refine List.map_congr_left ?_
    rintro ⟨b, i⟩ hb
    have hi : i < items.length := by simpa using List.snd_lt_of_mem_zipIdx hb
    simp [List.take_append_of_le_length (Nat.le_of_lt hi)]
  · simp

theorem mem_withFront {items front : List α} {a : α} :
    (front, a) ∈ withFront items ↔ ∃ i, items[i]? = some a ∧ front = items.take i := by
  unfold withFront
  rw [List.mem_map]
  constructor
  · rintro ⟨⟨b, i⟩, hb, heq⟩
    cases heq
    exact ⟨i, List.mem_zipIdx_iff_getElem?.mp hb, rfl⟩
  · rintro ⟨i, hi, rfl⟩
    exact ⟨(a, i), List.mem_zipIdx_iff_getElem?.mpr hi, rfl⟩

@[simp] theorem length_withFront (items : List α) : (withFront items).length = items.length := by
  simp [withFront]

/-- The latest item in front of a new one that has a lower rank. -/
def nearestLower (rank : α → κ) (front : List α) (new : κ) : Option α :=
  front.reverse.find? fun a => rank a < new

theorem head?_stillOpen (items : List α) (new : κ) :
    (stillOpen rank (openAfter rank items) new).head? = nearestLower rank items new := by
  rw [stillOpen_openAfter, head?_chain, nearestLower]

theorem openAfter_subset (items : List α) : openAfter rank items ⊆ items := by
  intro a ha
  obtain ⟨before, after, rfl, -⟩ := mem_openAfter.mp ha
  simp

theorem length_openAfter_le (items : List α) : (openAfter rank items).length ≤ items.length := by
  induction items using List.reverseRecOn with
  | nil => exact Nat.le_refl 0
  | append_singleton items a ih =>
    rw [openAfter_concat, push, List.length_cons, List.length_append, List.length_singleton]
    exact Nat.succ_le_succ (Nat.le_trans (List.dropWhile_sublist _).length_le ih)

/-- A map that keeps the ranks commutes with the stack. -/
theorem stillOpen_map {rank' : β → κ} {f : α → β} (hf : ∀ a, rank' (f a) = rank a)
    (stack : List α) (new : κ) :
    stillOpen rank' (stack.map f) new = (stillOpen rank stack new).map f := by
  rw [stillOpen, stillOpen, List.dropWhile_map]
  simp [Function.comp_def, hf]

end LawNexus.Nesting
