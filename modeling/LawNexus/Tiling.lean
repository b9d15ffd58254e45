import Mathlib.Algebra.BigOperators.Group.List.Basic
import Mathlib.Algebra.GroupWithZero.Nat

/-!
# Ranges in a row

Items with a range each, which stands in a row in one order: when it does so in another order.
-/

namespace LawNexus.Tiling

variable {α : Type*} (start stop : α → Nat)

/-- Each range starts where the one before it stops. -/
def Chained : Nat → List α → Prop
  | _, [] => True
  | running, a :: rest => start a = running ∧ Chained (stop a) rest

def width (a : α) : Nat := stop a - start a

def widths (l : List α) : Nat := (l.map (width start stop)).sum

variable {start stop} {l l' before after : List α} {a : α} {running : Nat}

@[simp] theorem widths_nil : widths start stop ([] : List α) = 0 := rfl

@[simp] theorem widths_cons :
    widths start stop (a :: l) = width start stop a + widths start stop l := List.sum_cons

@[simp] theorem widths_append :
    widths start stop (l ++ l') = widths start stop l + widths start stop l' := by
  rw [widths, List.map_append, List.sum_append, widths, widths]

theorem widths_perm (h : l.Perm l') : widths start stop l = widths start stop l' :=
  (h.map _).sum_eq

/-- What a filter takes out of a list without width does not matter. -/
theorem widths_filter {p : α → Bool} (h : ∀ a ∈ l, p a = false → width start stop a = 0) :
    widths start stop (l.filter p) = widths start stop l := by
  induction l with
  | nil => rfl
  | cons a l ih =>
    have hrest := ih fun b hb => h b (List.mem_cons_of_mem _ hb)
    cases hp : p a with
    | true => rw [List.filter_cons_of_pos hp, widths_cons, widths_cons, hrest]
    | false =>
      rw [List.filter_cons_of_neg (by simp [hp]), widths_cons, hrest,
        h a List.mem_cons_self hp, Nat.zero_add]

theorem widths_eq_zero (h : ∀ a ∈ l, width start stop a = 0) : widths start stop l = 0 := by
  induction l with
  | nil => rfl
  | cons a l ih =>
    rw [widths_cons, h a List.mem_cons_self, ih fun b hb => h b (List.mem_cons_of_mem _ hb)]

theorem start_of_chained (hle : ∀ a ∈ before, start a ≤ stop a)
    (h : Chained start stop running (before ++ a :: after)) :
    start a = running + widths start stop before := by
  induction before generalizing running with
  | nil => exact h.1
  | cons b before ih =>
    obtain ⟨hb, hrest⟩ := h
    have hstop := hle b List.mem_cons_self
    rw [ih (fun c hc => hle c (List.mem_cons_of_mem _ hc)) hrest, widths_cons, width]
    omega

theorem Chained.pairwise (hle : ∀ a ∈ l, start a ≤ stop a) (h : Chained start stop running l) :
    l.Pairwise (fun a b => stop a ≤ start b) ∧ ∀ a ∈ l, running ≤ start a := by
  induction l generalizing running with
  | nil => exact ⟨.nil, fun a ha => by cases ha⟩
  | cons a l ih =>
    obtain ⟨ha, hrest⟩ := h
    obtain ⟨hpairs, hfrom⟩ := ih (fun b hb => hle b (List.mem_cons_of_mem _ hb)) hrest
    have hstop := hle a List.mem_cons_self
    refine ⟨List.pairwise_cons.mpr ⟨hfrom, hpairs⟩, fun b hb => ?_⟩
    rcases List.mem_cons.mp hb with rfl | hb
    · exact Nat.le_of_eq ha.symm
    · exact Nat.le_trans (by omega) (hfrom b hb)

/-! ## Two orders -/

variable {key : α → Nat}

/-- In a row by the keys, a range starts behind the widths of the smaller keys. -/
theorem start_eq_widths (hle : ∀ a ∈ l, start a ≤ stop a)
    (hkeys : l.Pairwise fun a b => key a < key b) (h : Chained start stop 0 l) (ha : a ∈ l) :
    start a = widths start stop (l.filter fun b => key b < key a) := by
  obtain ⟨before, after, rfl⟩ := List.append_of_mem ha
  rw [start_of_chained (fun b hb => hle b (List.mem_append_left _ hb)) h, Nat.zero_add]
  obtain ⟨-, hafter, hbefore⟩ := List.pairwise_append.mp hkeys
  have hkept : before.filter (fun b => key b < key a) = before :=
    List.filter_eq_self.mpr fun b hb => decide_eq_true (hbefore b hb a List.mem_cons_self)
  have hdropped : (a :: after).filter (fun b => key b < key a) = [] := by
    refine List.filter_eq_nil_iff.mpr fun b hb => ?_
    rw [decide_eq_true_eq, Nat.not_lt]
    rcases List.mem_cons.mp hb with rfl | hb
    · exact Nat.le_refl _
    · exact Nat.le_of_lt ((List.pairwise_cons.mp hafter).1 b hb)
  rw [List.filter_append, hkept, hdropped, List.append_nil]

/-- Ranges that stand in a row by their keys do so in another order if and only if two ranges that
change places are both empty. -/
theorem chained_perm_iff (hperm : l.Perm l') (hle : ∀ a ∈ l, start a ≤ stop a)
    (hkeys : l'.Pairwise fun a b => key a < key b) (h : Chained start stop 0 l') :
    Chained start stop 0 l ↔
      l.Pairwise fun a b => key a < key b ∨ start a = stop a ∧ start b = stop b := by
  have hle' : ∀ a ∈ l', start a ≤ stop a := fun a ha => hle a (hperm.mem_iff.mpr ha)
  constructor
  · intro hrow
    have hpairs := (hrow.pairwise hle).1
    have hpairs' := (h.pairwise hle').1
    have hdisjoint : ∀ a ∈ l', ∀ b ∈ l', key a < key b → stop a ≤ start b := by
      intro a ha b hb hlt
      obtain ⟨before, after, rfl⟩ := List.append_of_mem hb
      obtain ⟨-, hafter, -⟩ := List.pairwise_append.mp hkeys
      obtain ⟨-, -, hbefore⟩ := List.pairwise_append.mp hpairs'
      rcases List.mem_append.mp ha with ha | ha
      · exact hbefore a ha b List.mem_cons_self
      · rcases List.mem_cons.mp ha with rfl | ha
        · exact absurd hlt (Nat.lt_irrefl _)
        · exact absurd ((List.pairwise_cons.mp hafter).1 a ha) (Nat.lt_asymm hlt)
    have hnodup : l.Pairwise fun a b => key a ≠ key b :=
      (hperm.pairwise_iff fun h => Ne.symm h).mpr (hkeys.imp fun h => Nat.ne_of_lt h)
    refine (hpairs.and hnodup).imp_of_mem fun {a b} ha hb hab => ?_
    obtain ⟨hab, hne⟩ := hab
    rcases Nat.lt_or_gt_of_ne hne with hlt | hgt
    · exact .inl hlt
    · have hba := hdisjoint b (hperm.mem_iff.mp hb) a (hperm.mem_iff.mp ha) hgt
      have ha := hle a ha
      have hb := hle b hb
      exact .inr ⟨by omega, by omega⟩
  · intro hpairs
    -- The items in front of one have the smaller keys, but for empty ones.
    suffices hrow : ∀ before after, l = before ++ after →
        Chained start stop (widths start stop before) after from hrow [] l rfl
    intro before after hl
    induction after generalizing before with
    | nil => trivial
    | cons a after ih =>
      have hmem : a ∈ l := hl ▸ List.mem_append_right _ List.mem_cons_self
      have hrest := ih (before ++ [a]) (by rw [hl, List.append_assoc, List.singleton_append])
      rw [hl] at hpairs
      obtain ⟨-, hafter, hbefore⟩ := List.pairwise_append.mp hpairs
      have hsmaller : widths start stop (before.filter fun b => key b < key a) =
          widths start stop before := by
        refine widths_filter fun b hb hkey => ?_
        rcases hbefore b hb a List.mem_cons_self with hlt | ⟨hempty, -⟩
        · exact absurd hlt (of_decide_eq_false hkey)
        · rw [width, hempty, Nat.sub_self]
      have hlarger : widths start stop ((a :: after).filter fun b => key b < key a) = 0 := by
        refine widths_eq_zero fun b hb => ?_
        obtain ⟨hb, hkey⟩ := List.mem_filter.mp hb
        have hlt := of_decide_eq_true hkey
        rcases List.mem_cons.mp hb with rfl | hb
        · exact absurd hlt (Nat.lt_irrefl _)
        · rcases (List.pairwise_cons.mp hafter).1 b hb with hgt | ⟨-, hempty⟩
          · exact absurd hlt (Nat.lt_asymm hgt)
          · rw [width, hempty, Nat.sub_self]
      have hstart : start a = widths start stop before := by
        rw [start_eq_widths hle' hkeys h (hperm.mem_iff.mp hmem), ← widths_perm (hperm.filter _),
          hl, List.filter_append, widths_append, hsmaller, hlarger, Nat.add_zero]
      refine ⟨hstart, ?_⟩
      rw [widths_append, widths_cons, widths_nil, width, Nat.add_zero] at hrest
      have hstop := hle a hmem
      rwa [show stop a = widths start stop before + (stop a - start a) by omega]

/-! ## The ranges that meet another one -/

variable (stop) in
/-- Where a row ends. -/
def endOf (running : Nat) (l : List α) : Nat := l.getLast?.elim running stop

@[simp] theorem endOf_nil : endOf stop running ([] : List α) = running := rfl

@[simp] theorem endOf_cons : endOf stop running (a :: l) = endOf stop (stop a) l := by
  cases l with
  | nil => rfl
  | cons b l => rw [endOf, endOf, List.getLast?_cons_cons]; rfl

/-- Two rows from the same place with the same starts and the same end have the same stops. -/
theorem Chained.stop_eq {stop' : α → Nat} (h : Chained start stop running l)
    (h' : Chained start stop' running l) (hend : endOf stop running l = endOf stop' running l) :
    ∀ a ∈ l, stop a = stop' a := by
  induction l generalizing running with
  | nil => exact fun a ha => by cases ha
  | cons a l ih =>
    obtain ⟨-, hrest⟩ := h
    obtain ⟨-, hrest'⟩ := h'
    rw [endOf_cons, endOf_cons] at hend
    have hstop : stop a = stop' a := by
      cases l with
      | nil => exact hend
      | cons b l => exact hrest.1.symm.trans hrest'.1
    rw [← hstop] at hrest' hend
    exact List.forall_mem_cons.mpr ⟨hstop, ih hrest hrest' hend⟩

/-- The ranges of a row in front of a range, those that meet it and those behind. -/
structure Cut (start stop : α → Nat) (lo hi : Nat) (l before : List α) (a : α)
    (met after : List α) : Prop where
  eq : l = before ++ a :: (met ++ after)
  lt : lo < hi
  stops : ∀ b ∈ before, stop b ≤ lo
  start_le : start a ≤ lo
  lt_stop : lo < stop a
  row : Chained start stop (stop a) met
  starts : ∀ b ∈ met, start b < hi
  behind : ∀ b ∈ after, hi ≤ start b
  le_end : hi ≤ endOf stop (stop a) met

section

variable {lo hi : Nat} {met : List α} (h : Cut start stop lo hi l before a met after)

include h

/-- A cursor that leaves the ranges in front, and stops at those behind. -/
theorem Cut.eq_takeWhile : (l.dropWhile (stop · ≤ lo)).takeWhile (start · < hi) = a :: met := by
  have hlo := h.lt_stop
  have hhi := Nat.lt_of_le_of_lt h.start_le h.lt
  have hmeet : ∀ b ∈ a :: met, decide (start b < hi) = true := by
    simpa [hhi] using h.starts
  have hbehind : after.takeWhile (start · < hi) = [] := by
    cases hafter : after with
    | nil => rfl
    | cons b after =>
      have hb : hi ≤ start b := h.behind b (hafter ▸ List.mem_cons_self)
      rw [List.takeWhile_cons_of_neg (by simpa using hb)]
  rw [h.eq, List.dropWhile_append_of_pos (by simpa using h.stops),
    List.dropWhile_cons_of_neg (by simpa using hlo), ← List.cons_append,
    List.takeWhile_append_of_pos hmeet, hbehind, List.append_nil]

/-- Where more than one range meets another one, none covers it. -/
theorem Cut.not_within (hle : ∀ b ∈ met, start b ≤ stop b) (hover : met ≠ []) :
    ¬ ∃ b ∈ l, start b ≤ lo ∧ hi ≤ stop b := by
  have hlt := h.lt
  have hlo := h.lt_stop
  rintro ⟨b, hb, hstart, hstop⟩
  rw [h.eq] at hb
  obtain ⟨c, met, rfl⟩ := List.exists_cons_of_ne_nil hover
  have hc : start c = stop a := h.row.1
  have hfirst := h.starts c List.mem_cons_self
  have hfrom := (h.row.pairwise hle).2
  rcases List.mem_append.mp hb with hb | hb
  · have hb := h.stops b hb
    omega
  rcases List.mem_cons.mp hb with rfl | hb
  · omega
  rcases List.mem_append.mp hb with hb | hb
  · have hb := hfrom b hb
    omega
  · have hb := h.behind b hb
    omega

end

theorem Chained.exists_over {hi : Nat} (hle : ∀ a ∈ l, start a ≤ stop a)
    (h : Chained start stop running l) (hhi : hi ≤ endOf stop running l) :
    ∃ met after, l = met ++ after ∧ Chained start stop running met ∧
      (∀ b ∈ met, start b < hi) ∧ (∀ b ∈ after, hi ≤ start b) ∧ hi ≤ endOf stop running met := by
  induction l generalizing running with
  | nil => exact ⟨[], [], rfl, trivial, (fun b hb => by cases hb), (fun b hb => by cases hb), hhi⟩
  | cons a l ih =>
    by_cases ha : start a < hi
    · rw [endOf_cons] at hhi
      obtain ⟨met, after, rfl, hrow, hover, hafter, hend⟩ :=
        ih (fun b hb => hle b (List.mem_cons_of_mem _ hb)) h.2 hhi
      refine ⟨a :: met, after, rfl, ⟨h.1, hrow⟩, List.forall_mem_cons.mpr ⟨ha, hover⟩, hafter, ?_⟩
      rwa [endOf_cons]
    · rw [Nat.not_lt] at ha
      have hfrom := (h.pairwise hle).2
      have hrunning : hi ≤ running := Nat.le_trans ha (Nat.le_of_eq h.1)
      exact ⟨[], a :: l, rfl, trivial, (fun b hb => by cases hb),
        fun b hb => Nat.le_trans hrunning (hfrom b hb), hrunning⟩

theorem Chained.exists_cut {lo hi : Nat} (hle : ∀ a ∈ l, start a ≤ stop a)
    (h : Chained start stop running l) (hlo : running ≤ lo) (hlt : lo < hi)
    (hhi : hi ≤ endOf stop running l) :
    ∃ before a met after, Cut start stop lo hi l before a met after := by
  induction l generalizing running with
  | nil => exact absurd (Nat.le_trans hhi hlo) (Nat.not_le.mpr hlt)
  | cons a l ih =>
    rw [endOf_cons] at hhi
    have hle' := fun b hb => hle b (List.mem_cons_of_mem a hb)
    by_cases ha : stop a ≤ lo
    · obtain ⟨before, b, met, after, hcut⟩ := ih hle' h.2 ha hhi
      refine ⟨a :: before, b, met, after, ?_, hlt, List.forall_mem_cons.mpr ⟨ha, hcut.stops⟩,
        hcut.start_le, hcut.lt_stop, hcut.row, hcut.starts, hcut.behind, hcut.le_end⟩
      rw [hcut.eq, List.cons_append]
    · obtain ⟨met, after, rfl, hrow, hover, hafter, hend⟩ := h.2.exists_over hle' hhi
      exact ⟨[], a, met, after, rfl, hlt, (fun b hb => by cases hb),
        Nat.le_trans (Nat.le_of_eq h.1) hlo, Nat.not_le.mp ha, hrow, hover, hafter, hend⟩

end LawNexus.Tiling
