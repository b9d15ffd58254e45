import Mathlib.Data.Int.SuccPred
import Mathlib.Data.Nat.Init
import Mathlib.Tactic.Common

/-!
# The Gregorian cycle

Years that begin with March, so that the leap day is the last day of its year. A cycle of 400 years
has the same number of days each time.
-/

namespace LawNexus.Gregorian

/-- The days in front of a year of the cycle. -/
def cycleStart (k : Nat) : Nat := 365 * k + k / 4 - k / 100 + k / 400

/-- The year of the cycle that a day is in. -/
def cycleYear (day : Nat) : Nat := (day - day / 1460 + day / 36524 - day / 146096) / 365

/-- The days in front of a month, counted from March. -/
def monthStart (m : Nat) : Nat := (153 * m + 2) / 5

def monthOf (day : Nat) : Nat := (5 * day + 2) / 153

/-! ## The years of a cycle -/

theorem cycleStart_lt (k : Nat) : cycleStart k + 365 ≤ cycleStart (k + 1) := by
  unfold cycleStart
  omega

theorem cycleStart_mono : Monotone cycleStart :=
  monotone_nat_of_le_succ fun k => Nat.le_trans (Nat.le_add_right _ _) (cycleStart_lt k)

/-- On the first and on the last day of a year. -/
theorem cycleYear_ends : ∀ k < 400,
    cycleYear (cycleStart k) = k ∧ cycleYear (cycleStart (k + 1) - 1) = k := by
  decide +kernel

theorem cycleYear_succ {day : Nat} (h : day + 1 < 146097) : cycleYear day ≤ cycleYear (day + 1) := by
  unfold cycleYear
  refine Nat.div_le_div_right ?_
  omega

theorem cycleYear_mono {day day' : Nat} (h : day ≤ day') (h' : day' < 146097) :
    cycleYear day ≤ cycleYear day' := by
  induction day', h using Nat.le_induction with
  | base => exact Nat.le_refl _
  | succ day' _ ih => exact Nat.le_trans (ih (Nat.lt_of_succ_lt h')) (cycleYear_succ h')

theorem cycleYear_eq {k day : Nat} (hk : k < 400) (hstart : cycleStart k ≤ day)
    (hstop : day < cycleStart (k + 1)) : cycleYear day = k := by
  obtain ⟨hfirst, hlast⟩ := cycleYear_ends k hk
  have hcycle : cycleStart (k + 1) ≤ cycleStart 400 := cycleStart_mono hk
  have htop : cycleStart 400 = 146097 := rfl
  have hlow : cycleYear (cycleStart k) ≤ cycleYear day := cycleYear_mono hstart (by omega)
  have hhigh : cycleYear day ≤ cycleYear (cycleStart (k + 1) - 1) :=
    cycleYear_mono (by omega) (by omega)
  omega

theorem exists_year {day : Nat} (h : day < 146097) :
    ∃ k < 400, cycleStart k ≤ day ∧ day < cycleStart (k + 1) := by
  have hall : ∀ n ≤ 400, day < cycleStart n → ∃ k < n, cycleStart k ≤ day ∧
      day < cycleStart (k + 1) := by
    intro n
    induction n with
    | zero => exact fun _ h => absurd h (Nat.not_lt_zero _)
    | succ n ih =>
      intro hn hday
      by_cases hlow : cycleStart n ≤ day
      · exact ⟨n, Nat.lt_succ_self n, hlow, hday⟩
      · obtain ⟨k, hk, hyear⟩ := ih (Nat.le_of_succ_le hn) (Nat.not_le.mp hlow)
        exact ⟨k, Nat.lt_succ_of_lt hk, hyear⟩
  exact hall 400 (Nat.le_refl _) h

theorem cycleYear_spec {day : Nat} (h : day < 146097) :
    cycleYear day < 400 ∧ cycleStart (cycleYear day) ≤ day ∧
      day < cycleStart (cycleYear day + 1) := by
  obtain ⟨k, hk, hstart, hstop⟩ := exists_year h
  rw [cycleYear_eq hk hstart hstop]
  exact ⟨hk, hstart, hstop⟩

/-! ## All years -/

/-- The days in front of a year, from the year 0 on. -/
def yearStart (y : Int) : Int := 365 * y + y / 4 - y / 100 + y / 400

/-- A year is one of a cycle. -/
theorem yearStart_cycle (era : Int) {k : Nat} (hk : k ≤ 400) :
    yearStart (era * 400 + k) = era * 146097 + cycleStart k := by
  unfold yearStart cycleStart
  omega

theorem yearStart_lt (y : Int) : yearStart y + 365 ≤ yearStart (y + 1) := by
  unfold yearStart
  omega

theorem yearStart_mono {x y : Int} (h : x ≤ y) : yearStart x ≤ yearStart y := by
  induction y, h using Int.leInduction with
  | base => exact Int.le_refl _
  | succ y _ ih =>
    have hyear := yearStart_lt y
    omega

/-- A year ends with the leap day of the next one, where that has a leap day. -/
theorem yearStart_succ (y : Int) : yearStart (y + 1) = yearStart y +
    if (y + 1) % 4 = 0 ∧ ((y + 1) % 100 ≠ 0 ∨ (y + 1) % 400 = 0) then 366 else 365 := by
  unfold yearStart
  split_ifs <;> omega

/-- Every day is in a year. -/
theorem exists_yearStart (day : Int) : ∃ y, yearStart y ≤ day ∧ day < yearStart (y + 1) := by
  obtain ⟨hlt, hstart, hstop⟩ :=
    cycleYear_spec (show (day % 146097).toNat < 146097 by omega)
  generalize cycleYear (day % 146097).toNat = k at hlt hstart hstop
  have hyear := yearStart_cycle (day / 146097) (k := k) (by omega)
  have hnext := yearStart_cycle (day / 146097) (k := k + 1) (by omega)
  refine ⟨day / 146097 * 400 + k, by omega, ?_⟩
  rw [show day / 146097 * 400 + (k : Int) + 1 = day / 146097 * 400 + ((k + 1 : Nat) : Int) by omega]
  omega

/-! ## The months -/

theorem monthOf_spec {day : Nat} (h : day < 366) :
    monthOf day < 12 ∧ monthStart (monthOf day) ≤ day ∧ day < monthStart (monthOf day + 1) := by
  unfold monthOf monthStart
  omega

theorem monthOf_eq {m day : Nat} (hstart : monthStart m ≤ day) (hstop : day < monthStart (m + 1)) :
    monthOf day = m := by
  unfold monthStart at hstart hstop
  unfold monthOf
  omega

theorem monthStart_mono : Monotone monthStart :=
  monotone_nat_of_le_succ fun m => by
    unfold monthStart
    omega

end LawNexus.Gregorian
