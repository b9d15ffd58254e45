import LawNexus.Gregorian

/-!
# Civil days

The dates of `ln-temporal/src/calendar.rs` and their day numbers. A number of type `i64` is an
`Int`: the one addition that can leave the type is checked.
-/

namespace LawNexus.Calendar

open Gregorian

/-! ## Dates -/

def isLeapYear (year : Int) : Bool := year % 4 = 0 ∧ (year % 100 ≠ 0 ∨ year % 400 = 0)

def daysInMonth (year : Int) : Nat → Nat
  | 1 | 3 | 5 | 7 | 8 | 10 | 12 => 31
  | 4 | 6 | 9 | 11 => 30
  | 2 => if isLeapYear year then 29 else 28
  | _ => 0

def isValidCivilDay (year : Int) (month day : Nat) : Bool := 1 ≤ day ∧ day ≤ daysInMonth year month

/-- The year is a value of `i32`, so that nothing overflows. -/
def daysFromCivil (year : Int) (month day : Nat) : Int :=
  let year := if month ≤ 2 then year - 1 else year
  let era := (if year ≥ 0 then year else year - 399).tdiv 400
  let yearOfEra := year - era * 400
  let monthPrime : Int := if month > 2 then month - 3 else month + 9
  let dayOfYear := (153 * monthPrime + 2).tdiv 5 + day - 1
  let dayOfEra := yearOfEra * 365 + yearOfEra.tdiv 4 - yearOfEra.tdiv 100 + dayOfYear
  era * 146097 + dayOfEra - 719468

/-- `civil_from_days` behind its addition, with the year as a value of `i64`. The day and the month
are small, so that the casts to `u8` keep them. -/
def civilOf (days : Int) : Int × Nat × Nat :=
  let era := (if days ≥ 0 then days else days - 146096).tdiv 146097
  let dayOfEra := (days - era * 146097).toNat
  let yearOfEra := (dayOfEra - dayOfEra / 1460 + dayOfEra / 36524 - dayOfEra / 146096) / 365
  let year := yearOfEra + era * 400
  let dayOfYear := dayOfEra - (365 * yearOfEra + yearOfEra / 4 - yearOfEra / 100)
  let monthPrime := (5 * dayOfYear + 2) / 153
  let day := dayOfYear - (153 * monthPrime + 2) / 5 + 1
  let month := if monthPrime < 10 then monthPrime + 3 else monthPrime - 9
  (if month ≤ 2 then year + 1 else year, month, day)

def FitsI64 (n : Int) : Prop := -2 ^ 63 ≤ n ∧ n < 2 ^ 63
deriving Decidable

def FitsI32 (n : Int) : Prop := -2 ^ 31 ≤ n ∧ n < 2 ^ 31
deriving Decidable

/-- A sum that overflows has no value: there the source panics, or wraps where checks are off. -/
def addI64 (a b : Int) : Option Int := if FitsI64 (a + b) then some (a + b) else none

/-- `year as i32`. -/
def asI32 (year : Int) : Int := year.bmod (2 ^ 32)

def civilFromDays (days : Int) : Option (Int × Nat × Nat) :=
  (addI64 days 719468).map fun days =>
    let (year, month, day) := civilOf days
    (asI32 year, month, day)

/-! ## Years that begin with March -/

def marchYear (year : Int) (month : Nat) : Int := if month ≤ 2 then year - 1 else year

def marchMonth (month : Nat) : Nat := if month > 2 then month - 3 else month + 9

/-- The day of a date in its year. -/
def dayOfYear (month day : Nat) : Nat := monthStart (marchMonth month) + day - 1

theorem tdiv_eq_floor {n k : Int} (hk : 0 < k) :
    (if n ≥ 0 then n else n - (k - 1)).tdiv k = n / k := by
  split_ifs with hn
  · exact Int.tdiv_eq_ediv_of_nonneg hn
  · have hneg : n - (k - 1) = -(k - 1 - n) := by omega
    rw [hneg, Int.neg_tdiv, Int.tdiv_eq_ediv_of_nonneg (by omega)]
    have hsplit : k - 1 - n = (k - 1 - n % k) + k * -(n / k) := by
      have := Int.emod_add_mul_ediv n k
      rw [Int.mul_neg]
      omega
    have hmod := Int.emod_nonneg n (by omega : k ≠ 0)
    have hlt := Int.emod_lt_of_pos n hk
    rw [hsplit, Int.add_mul_ediv_left _ _ (by omega), Int.ediv_eq_zero_of_lt (by omega) (by omega)]
    omega

theorem era_of_year (y : Int) : (if y ≥ 0 then y else y - 399).tdiv 400 = y / 400 :=
  tdiv_eq_floor (k := 400) (by decide)

theorem era_of_days (n : Int) : (if n ≥ 0 then n else n - 146096).tdiv 146097 = n / 146097 :=
  tdiv_eq_floor (k := 146097) (by decide)

/-- The day number, by its year from March on. -/
theorem daysFromCivil_eq (year : Int) {month : Nat} (hmonth : month ≤ 12) (day : Nat) :
    daysFromCivil year month day + 719468 =
      yearStart (marchYear year month) + monthStart (marchMonth month) + day - 1 := by
  unfold daysFromCivil
  dsimp only
  rw [era_of_year, ← marchYear]
  generalize marchYear year month = y
  have hera : 0 ≤ y - y / 400 * 400 := by omega
  have hprime : (if month > 2 then (month : Int) - 3 else month + 9) = marchMonth month := by
    unfold marchMonth
    split_ifs <;> omega
  have hmarch : 0 ≤ 153 * (marchMonth month : Int) + 2 := by omega
  rw [hprime, Int.tdiv_eq_ediv_of_nonneg hmarch, Int.tdiv_eq_ediv_of_nonneg hera,
    Int.tdiv_eq_ediv_of_nonneg hera]
  unfold yearStart monthStart
  omega

/-- The date of a day of a year from March on. -/
theorem civilOf_eq {days y : Int} {doy : Nat} (hdays : days = yearStart y + doy)
    (hlt : days < yearStart (y + 1)) :
    civilOf days = (if monthOf doy < 10 then y else y + 1,
      if monthOf doy < 10 then monthOf doy + 3 else monthOf doy - 9,
      doy - monthStart (monthOf doy) + 1) := by
  obtain ⟨k, hk⟩ := Int.eq_ofNat_of_zero_le (Int.emod_nonneg y (by decide : (400 : Int) ≠ 0))
  have hk400 : k < 400 := by omega
  have hstart := yearStart_cycle (y / 400) (k := k) (by omega)
  have hstop := yearStart_cycle (y / 400) (k := k + 1) (by omega)
  have htop : cycleStart (k + 1) ≤ cycleStart 400 := cycleStart_mono (by omega)
  rw [show y / 400 * 400 + (k : Int) = y by omega] at hstart
  rw [show y / 400 * 400 + ((k + 1 : Nat) : Int) = y + 1 by omega] at hstop
  rw [show cycleStart 400 = 146097 from rfl] at htop
  have hera : days / 146097 = y / 400 := by omega
  have hdoe : (days - y / 400 * 146097).toNat = cycleStart k + doy := by omega
  have hyear : cycleYear (cycleStart k + doy) = k :=
    cycleYear_eq hk400 (Nat.le_add_right _ _) (by omega)
  unfold civilOf
  dsimp only
  rw [era_of_days, hera, hdoe]
  unfold cycleYear at hyear
  rw [hyear]
  have hcycle : 365 * k + k / 4 - k / 100 = cycleStart k := by
    unfold cycleStart
    omega
  rw [hcycle, Nat.add_sub_cancel_left]
  have hmonth : (5 * doy + 2) / 153 = monthOf doy := rfl
  have hfirst : (153 * monthOf doy + 2) / 5 = monthStart (monthOf doy) := rfl
  rw [hmonth, hfirst, show (k : Int) + y / 400 * 400 = y by omega]
  split_ifs <;> first | rfl | omega

/-! ## Valid dates -/

theorem yearStart_succ_leap (y : Int) :
    yearStart (y + 1) = yearStart y + if isLeapYear (y + 1) then 366 else 365 := by
  rw [yearStart_succ]
  simp only [isLeapYear, decide_eq_true_eq]

/-- But for February, a month is as long from March on. -/
theorem daysInMonth_eq (year : Int) (month : Nat) : daysInMonth year month =
    if month = 0 ∨ 12 < month then 0
    else if month = 2 then (if isLeapYear year then 29 else 28)
    else monthStart (marchMonth month + 1) - monthStart (marchMonth month) := by
  match month with
  | 0 | 1 | 2 | 3 | 4 | 5 | 6 | 7 | 8 | 9 | 10 | 11 | 12 => rfl
  | month + 13 =>
    rw [if_pos (.inr (by omega))]
    rfl

theorem isValidCivilDay_iff {year : Int} {month day : Nat} :
    isValidCivilDay year month day = true ↔ 1 ≤ day ∧ day ≤ daysInMonth year month := by
  rw [isValidCivilDay, decide_eq_true_eq]

/-- A valid date is a day of its month and of its year. -/
theorem day_of_valid {year : Int} {month day : Nat} (h : isValidCivilDay year month day = true) :
    1 ≤ month ∧ month ≤ 12 ∧ 1 ≤ day ∧
      monthOf (monthStart (marchMonth month) + (day - 1)) = marchMonth month ∧
      yearStart (marchYear year month) + (monthStart (marchMonth month) + (day - 1) : Nat) <
        yearStart (marchYear year month + 1) := by
  rw [isValidCivilDay_iff, daysInMonth_eq] at h
  obtain ⟨hone, hday⟩ := h
  split_ifs at hday with hmonth hfebruary hleap
  · omega
  · subst hfebruary
    have hyear := yearStart_succ_leap (year - 1)
    rw [Int.sub_add_cancel, if_pos hleap] at hyear
    refine ⟨by decide, by decide, hone, monthOf_eq (Nat.le_add_right _ _) ?_, ?_⟩
    · change 337 + (day - 1) < 367
      omega
    · change yearStart (year - 1) + (337 + (day - 1) : Nat) < yearStart (year - 1 + 1)
      rw [Int.sub_add_cancel, hyear]
      omega
  · subst hfebruary
    have hyear := yearStart_lt (year - 1)
    refine ⟨by decide, by decide, hone, monthOf_eq (Nat.le_add_right _ _) ?_, ?_⟩
    · change 337 + (day - 1) < 367
      omega
    · change yearStart (year - 1) + (337 + (day - 1) : Nat) < yearStart (year - 1 + 1)
      omega
  · have hmarch : marchMonth month + 1 ≤ 11 := by
      unfold marchMonth
      split_ifs <;> omega
    have hstart : monthStart (marchMonth month + 1) ≤ monthStart 11 := monthStart_mono hmarch
    rw [show monthStart 11 = 337 from rfl] at hstart
    have hyear := yearStart_lt (marchYear year month)
    exact ⟨by omega, by omega, hone, monthOf_eq (Nat.le_add_right _ _) (by omega), by omega⟩

theorem isValid_of_day {y : Int} {doy : Nat} (h : yearStart y + doy < yearStart (y + 1)) :
    isValidCivilDay (if monthOf doy < 10 then y else y + 1)
      (if monthOf doy < 10 then monthOf doy + 3 else monthOf doy - 9)
      (doy - monthStart (monthOf doy) + 1) = true := by
  have hyear := yearStart_succ_leap y
  have hdoy : doy < 366 := by
    split_ifs at hyear <;> omega
  obtain ⟨hlt, hstart, hstop⟩ := monthOf_spec hdoy
  rw [isValidCivilDay_iff, daysInMonth_eq]
  refine ⟨Nat.le_add_left 1 _, ?_⟩
  by_cases hmarch : monthOf doy < 10
  · have hsame : marchMonth (monthOf doy + 3) = monthOf doy := by
      unfold marchMonth
      split_ifs <;> omega
    rw [if_pos hmarch, if_pos hmarch, if_neg (by omega), if_neg (by omega), hsame]
    omega
  · rw [if_neg hmarch, if_neg hmarch]
    obtain hjanuary | hfebruary : monthOf doy = 10 ∨ monthOf doy = 11 := by omega
    · rw [hjanuary] at hstop ⊢
      change doy - 306 + 1 ≤ 31
      change doy < 337 at hstop
      omega
    · rw [hfebruary]
      change doy - 337 + 1 ≤ if isLeapYear (y + 1) then 29 else 28
      split_ifs at hyear ⊢ <;> omega

/-! ## Dates and day numbers -/

/-- A valid date is the one of its day number. -/
theorem civilOf_daysFromCivil {year : Int} {month day : Nat}
    (h : isValidCivilDay year month day = true) :
    civilOf (daysFromCivil year month day + 719468) = (year, month, day) := by
  obtain ⟨hone, htwelve, hday, hmonth, hyear⟩ := day_of_valid h
  have hdays : daysFromCivil year month day + 719468 =
      yearStart (marchYear year month) + (monthStart (marchMonth month) + (day - 1) : Nat) := by
    rw [daysFromCivil_eq year htwelve day]
    omega
  rw [civilOf_eq hdays (hdays ▸ hyear), hmonth]
  refine Prod.ext ?_ (Prod.ext ?_ ?_)
  · unfold marchMonth marchYear
    dsimp only
    split_ifs <;> omega
  · unfold marchMonth
    dsimp only
    split_ifs <;> omega
  · dsimp only
    omega

/-- Every day number is the one of a valid date. -/
theorem daysFromCivil_civilOf (days : Int) :
    isValidCivilDay (civilOf days).1 (civilOf days).2.1 (civilOf days).2.2 = true ∧
      daysFromCivil (civilOf days).1 (civilOf days).2.1 (civilOf days).2.2 + 719468 = days := by
  obtain ⟨y, hstart, hstop⟩ := exists_yearStart days
  obtain ⟨doy, hdoy⟩ := Int.eq_ofNat_of_zero_le (Int.sub_nonneg_of_le hstart)
  have hdays : days = yearStart y + doy := by omega
  have hyear := yearStart_succ_leap y
  have hlt : doy < 366 := by
    split_ifs at hyear <;> omega
  obtain ⟨hmonth, hfirst, -⟩ := monthOf_spec hlt
  rw [civilOf_eq hdays hstop]
  dsimp only
  refine ⟨isValid_of_day (hdays ▸ hstop), ?_⟩
  rw [daysFromCivil_eq _ (by split_ifs <;> omega)]
  have hmarchYear : marchYear (if monthOf doy < 10 then y else y + 1)
      (if monthOf doy < 10 then monthOf doy + 3 else monthOf doy - 9) = y := by
    unfold marchYear
    split_ifs <;> omega
  have hmarchMonth : marchMonth (if monthOf doy < 10 then monthOf doy + 3 else monthOf doy - 9) =
      monthOf doy := by
    unfold marchMonth
    split_ifs <;> omega
  rw [hmarchYear, hmarchMonth]
  omega

/-- The order of dates, by year, month and day. -/
def Before (a b : Int × Nat × Nat) : Prop :=
  a.1 < b.1 ∨ a.1 = b.1 ∧ (a.2.1 < b.2.1 ∨ a.2.1 = b.2.1 ∧ a.2.2 < b.2.2)

def IsDate (a : Int × Nat × Nat) : Prop := isValidCivilDay a.1 a.2.1 a.2.2 = true

def dayNumber (a : Int × Nat × Nat) : Int := daysFromCivil a.1 a.2.1 a.2.2

theorem before_total {a b : Int × Nat × Nat} (h : a ≠ b) : Before a b ∨ Before b a := by
  obtain ⟨y, m, d⟩ := a
  obtain ⟨y', m', d'⟩ := b
  unfold Before
  rw [ne_eq, Prod.mk.injEq, Prod.mk.injEq] at h
  dsimp only
  omega

theorem dayNumber_lt {a b : Int × Nat × Nat} (ha : IsDate a) (hb : IsDate b) (h : Before a b) :
    dayNumber a < dayNumber b := by
  obtain ⟨y, m, d⟩ := a
  obtain ⟨y', m', d'⟩ := b
  change isValidCivilDay y m d = true at ha
  change isValidCivilDay y' m' d' = true at hb
  obtain ⟨hone, htwelve, hday, hmonth, hyear⟩ := day_of_valid ha
  obtain ⟨hone', htwelve', hday', hmonth', -⟩ := day_of_valid hb
  have hdays := daysFromCivil_eq y htwelve d
  have hdays' := daysFromCivil_eq y' htwelve' d'
  -- From March on, the dates have the same order.
  have hmarch : marchYear y m < marchYear y' m' ∨ marchYear y m = marchYear y' m' ∧
      (marchMonth m < marchMonth m' ∨ marchMonth m = marchMonth m' ∧ d < d') := by
    unfold Before at h
    unfold marchYear marchMonth
    dsimp only at h
    split_ifs <;> omega
  change daysFromCivil y m d < daysFromCivil y' m' d'
  rcases hmarch with hlt | ⟨heq, hlt | ⟨hsame, hlt⟩⟩
  · have hnext : yearStart (marchYear y m + 1) ≤ yearStart (marchYear y' m') :=
      yearStart_mono hlt
    omega
  · have hdoy : monthStart (marchMonth m) + (d - 1) < monthStart (marchMonth m') + (d' - 1) := by
      by_contra hle
      have hmono : monthOf (monthStart (marchMonth m') + (d' - 1)) ≤
          monthOf (monthStart (marchMonth m) + (d - 1)) := by
        unfold monthOf
        omega
      omega
    rw [heq] at hdays
    omega
  · rw [heq, hsame] at hdays
    omega

theorem exists_date (n : Int) : ∃ a, IsDate a ∧ dayNumber a = n := by
  obtain ⟨hvalid, hdays⟩ := daysFromCivil_civilOf (n + 719468)
  refine ⟨civilOf (n + 719468), hvalid, ?_⟩
  unfold dayNumber
  omega

/-- Between two day numbers next to each other there is no date. -/
theorem dayNumber_succ {a b : Int × Nat × Nat} (ha : IsDate a) (hb : IsDate b) (h : Before a b)
    (hnone : ∀ c, IsDate c → Before a c → ¬ Before c b) : dayNumber b = dayNumber a + 1 := by
  obtain ⟨c, hc, hnumber⟩ := exists_date (dayNumber a + 1)
  have hlt := dayNumber_lt ha hb h
  have hac : Before a c := by
    have hne : a ≠ c := by
      rintro rfl
      omega
    refine (before_total hne).resolve_right fun hca => ?_
    have hgt := dayNumber_lt hc ha hca
    omega
  have hcb : c = b := by
    by_contra hne
    rcases before_total hne with hcb | hbc
    · exact hnone c hc hac hcb
    · have hgt := dayNumber_lt hb hc hbc
      omega
  rw [← hcb, hnumber]

/-! ## The type of the year -/

def civilYear (days : Int) : Int := (civilOf (days + 719468)).1

theorem asI32_of_fits {year : Int} (h : FitsI32 year) : asI32 year = year := by
  obtain ⟨hlow, hhigh⟩ := h
  exact Int.bmod_eq_of_le (by omega) (by omega)

/-- The day number of a date whose year is a value of `i32` is far from the ends of `i64`. -/
theorem fits_dayNumber {year : Int} {month day : Nat} (hyear : FitsI32 year)
    (h : isValidCivilDay year month day = true) :
    FitsI64 (daysFromCivil year month day + 719468) := by
  obtain ⟨-, htwelve, hday, -, hlt⟩ := day_of_valid h
  have hdays := daysFromCivil_eq year htwelve day
  have hmarch : year - 1 ≤ marchYear year month ∧ marchYear year month ≤ year := by
    unfold marchYear
    split_ifs <;> omega
  obtain ⟨hlow, hhigh⟩ := hyear
  unfold yearStart at hdays hlt
  constructor <;> omega

theorem civilFromDays_daysFromCivil {year : Int} {month day : Nat} (hyear : FitsI32 year)
    (h : isValidCivilDay year month day = true) :
    civilFromDays (daysFromCivil year month day) = some (year, month, day) := by
  rw [civilFromDays, addI64, if_pos (fits_dayNumber hyear h), Option.map_some,
    civilOf_daysFromCivil h]
  exact congrArg (fun y => some (y, month, day)) (asI32_of_fits hyear)

/-- The two conversions are inverse to each other and keep the order. Dates next to each other have
day numbers next to each other. -/
theorem civil_days :
    (∀ year month day, FitsI32 year → isValidCivilDay year month day = true →
      civilFromDays (daysFromCivil year month day) = some (year, month, day)) ∧
    (∀ days, FitsI32 (civilYear days) → ∃ year month day,
      civilFromDays days = some (year, month, day) ∧ isValidCivilDay year month day = true ∧
        daysFromCivil year month day = days) ∧
    (∀ a b, IsDate a → IsDate b → Before a b → dayNumber a < dayNumber b) ∧
    (∀ a b, IsDate a → IsDate b → Before a b → (∀ c, IsDate c → Before a c → ¬ Before c b) →
      dayNumber b = dayNumber a + 1) := by
  refine ⟨fun _ _ _ => civilFromDays_daysFromCivil, fun days hyear => ?_,
    fun _ _ => dayNumber_lt, fun _ _ => dayNumber_succ⟩
  obtain ⟨hvalid, hdays⟩ := daysFromCivil_civilOf (days + 719468)
  have hnumber : daysFromCivil (civilOf (days + 719468)).1 (civilOf (days + 719468)).2.1
      (civilOf (days + 719468)).2.2 = days := by omega
  have hfits : FitsI32 (civilOf (days + 719468)).1 := hyear
  refine ⟨_, _, _, ?_, hvalid, hnumber⟩
  rw [← civilFromDays_daysFromCivil hfits hvalid, hnumber]

theorem leap_day_round_trip : civilFromDays (daysFromCivil 2000 2 29) = some (2000, 2, 29) :=
  civil_days.1 2000 2 29 (by decide) (by decide)

end LawNexus.Calendar
