import LawNexus.Calendar.Civil
import LawNexus.Loops

/-!
# Ordinals of days

The ISO days of `ln-temporal/src/calendar.rs` and their ordinals, relative to the epoch of the
catalog.
-/

namespace LawNexus.Calendar

open Loops

structure CalendarBounds where
  minYear : Int
  maxYear : Int
  epochYear : Int
  epochMonth : Nat
  epochDay : Nat
deriving DecidableEq, Repr

inductive CalendarError where
  | catalogMissing
  | invalidIsoDay
  | outOfBounds
  | clockMismatch
deriving DecidableEq, Repr

/-- The `calendar` section of `kb-ontology.yaml`. -/
def embeddedBounds : CalendarBounds := ⟨1800, 2100, 1800, 1, 1⟩

def CalendarBounds.Contains (bounds : CalendarBounds) (year : Int) : Prop :=
  bounds.minYear ≤ year ∧ year ≤ bounds.maxYear
deriving Decidable

/-! ## Days as texts -/

def number (digits : List Char) : Nat := Nat.ofDigitChars 10 digits 0

/-- Ten bytes of digits and hyphens are ten characters. -/
def parseIsoParts (value : List Char) : Option (Int × Nat × Nat) :=
  match value with
  | [y₁, y₂, y₃, y₄, '-', m₁, m₂, '-', d₁, d₂] =>
    if [y₁, y₂, y₃, y₄, m₁, m₂, d₁, d₂].all Char.isDigit then
      some (number [y₁, y₂, y₃, y₄], number [m₁, m₂], number [d₁, d₂])
    else none
  | _ => none

def parseCivilDay (isoDay : List Char) (bounds : CalendarBounds) :
    Except CalendarError (Int × Nat × Nat) := do
  let (year, month, day) ← orError (parseIsoParts isoDay) .invalidIsoDay
  if ¬ bounds.Contains year then .error .outOfBounds
  else if !isValidCivilDay year month day then .error .invalidIsoDay
  else .ok (year, month, day)

/-- A number with zeros in front, up to the width. -/
def padded (width n : Nat) : List Char :=
  List.replicate (width - (Nat.toDigits 10 n).length) '0' ++ Nat.toDigits 10 n

/-- The year is in the bounds, so that it has no sign. -/
def isoDay (year : Int) (month day : Nat) : List Char :=
  padded 4 year.toNat ++ '-' :: padded 2 month ++ '-' :: padded 2 day

/-! ## Ordinals -/

def CalendarBounds.epoch (bounds : CalendarBounds) : Int :=
  daysFromCivil bounds.epochYear bounds.epochMonth bounds.epochDay

def legalActEffectDayToOrdinal (isoDay : List Char) : Except CalendarError Int := do
  let (year, month, day) ← parseCivilDay isoDay embeddedBounds
  .ok (daysFromCivil year month day - embeddedBounds.epoch)

def ordinalToLegalActEffectDay (ordinal : Int64) : Option (Except CalendarError (List Char)) := do
  let days ← addI64 embeddedBounds.epoch ordinal.toInt
  let (year, month, day) ← civilFromDays days
  if ¬ embeddedBounds.Contains year then some (.error .outOfBounds)
  else if !isValidCivilDay year month day then some (.error .invalidIsoDay)
  else some (.ok (isoDay year month day))

/-! ## A day is read back -/

theorem padded_spec {width n : Nat} (hwidth : 0 < width) (h : n < 10 ^ width) :
    (padded width n).length = width ∧ (∀ c ∈ padded width n, c.isDigit = true) ∧
      number (padded width n) = n := by
  have hlength := (Nat.length_toDigits_le_iff (by decide) hwidth).mpr h
  unfold padded number
  refine ⟨?_, fun c hc => ?_, ?_⟩
  · rw [List.length_append, List.length_replicate]
    omega
  · rcases List.mem_append.mp hc with hc | hc
    · rw [(List.mem_replicate.mp hc).2]
      decide
    · exact Nat.isDigit_of_mem_toDigits (by decide) (by decide) hc
  · rw [Nat.ofDigitChars_append, Nat.ofDigitChars_replicate_zero, Nat.mul_zero,
      Nat.ofDigitChars_ten_toDigits]

theorem parseIsoParts_isoDay {year month day : Nat} (hyear : year < 10 ^ 4)
    (hmonth : month < 10 ^ 2) (hday : day < 10 ^ 2) :
    parseIsoParts (isoDay year month day) = some ((year : Int), month, day) := by
  obtain ⟨hlength, hdigits, hvalue⟩ := padded_spec (by decide) hyear
  obtain ⟨hlength', hdigits', hvalue'⟩ := padded_spec (by decide) hmonth
  obtain ⟨hlength'', hdigits'', hvalue''⟩ := padded_spec (by decide) hday
  unfold isoDay
  rw [Int.toNat_natCast]
  generalize padded 4 year = ys at *
  generalize padded 2 month = ms at *
  generalize padded 2 day = ds at *
  match ys, ms, ds with
  | [y₁, y₂, y₃, y₄], [m₁, m₂], [d₁, d₂] =>
    have hall : [y₁, y₂, y₃, y₄, m₁, m₂, d₁, d₂].all Char.isDigit = true := by
      change ([y₁, y₂, y₃, y₄] ++ [m₁, m₂] ++ [d₁, d₂]).all Char.isDigit = true
      rw [List.all_append, List.all_append, List.all_eq_true.mpr hdigits,
        List.all_eq_true.mpr hdigits', List.all_eq_true.mpr hdigits'']
      rfl
    change (if [y₁, y₂, y₃, y₄, m₁, m₂, d₁, d₂].all Char.isDigit then
      some (((number [y₁, y₂, y₃, y₄] : Nat) : Int), number [m₁, m₂], number [d₁, d₂]) else none) = _
    rw [if_pos hall, hvalue, hvalue', hvalue'']

theorem day_le_of_valid {year : Int} {month day : Nat} (h : isValidCivilDay year month day = true) :
    day ≤ 31 := by
  rw [isValidCivilDay_iff] at h
  refine Nat.le_trans h.2 ?_
  unfold daysInMonth
  split <;> try split_ifs
  all_goals decide

/-- A valid day in the bounds is read back. -/
theorem parseCivilDay_isoDay {year : Int} {month day : Nat} (hyear : embeddedBounds.Contains year)
    (h : isValidCivilDay year month day = true) :
    parseCivilDay (isoDay year month day) embeddedBounds = .ok (year, month, day) := by
  have hbounds : 1800 ≤ year ∧ year ≤ 2100 := hyear
  obtain ⟨hlow, hhigh⟩ := hbounds
  obtain ⟨y, rfl⟩ := Int.eq_ofNat_of_zero_le (show 0 ≤ year by omega)
  obtain ⟨-, htwelve, -⟩ := day_of_valid h
  have hday := day_le_of_valid h
  unfold parseCivilDay
  rw [parseIsoParts_isoDay (by omega) (by omega) (by omega), orError_some, ok_bind]
  dsimp only
  rw [if_neg (not_not.mpr hyear), h]
  rfl

/-! ## When an ordinal has the right day -/

/-- The date of an ordinal, with the year as it is and not cast to `i32`. -/
def dateOf (ordinal : Int64) : Int × Nat × Nat :=
  civilOf (embeddedBounds.epoch + ordinal.toInt + 719468)

/-- There is an answer. A day is the one of the ordinal, and outside the years of the catalog there
is none. -/
def Exact (ordinal : Int64) : Prop :=
  ∃ answer, ordinalToLegalActEffectDay ordinal = some answer ∧
    (∀ day, answer = .ok day → legalActEffectDayToOrdinal day = .ok ordinal.toInt) ∧
    (¬ embeddedBounds.Contains (civilYear (embeddedBounds.epoch + ordinal.toInt)) →
      ∃ error, answer = .error error)

/-- No sum overflows, and the cast does not make the date one in the years of the catalog. -/
def Convertible (ordinal : Int64) : Prop :=
  let (year, month, day) := dateOf ordinal
  FitsI64 (embeddedBounds.epoch + ordinal.toInt) ∧
    FitsI64 (embeddedBounds.epoch + ordinal.toInt + 719468) ∧
    (embeddedBounds.Contains (asI32 year) → isValidCivilDay (asI32 year) month day = true →
      embeddedBounds.Contains year)

theorem ordinalToLegalActEffectDay_eq {ordinal : Int64}
    (hepoch : FitsI64 (embeddedBounds.epoch + ordinal.toInt))
    (hshift : FitsI64 (embeddedBounds.epoch + ordinal.toInt + 719468)) :
    ordinalToLegalActEffectDay ordinal = some
      (if ¬ embeddedBounds.Contains (asI32 (dateOf ordinal).1) then .error .outOfBounds
      else if !isValidCivilDay (asI32 (dateOf ordinal).1) (dateOf ordinal).2.1
        (dateOf ordinal).2.2 then .error .invalidIsoDay
      else .ok (isoDay (asI32 (dateOf ordinal).1) (dateOf ordinal).2.1 (dateOf ordinal).2.2)) := by
  have hcivil : civilFromDays (embeddedBounds.epoch + ordinal.toInt) =
      some (asI32 (dateOf ordinal).1, (dateOf ordinal).2.1, (dateOf ordinal).2.2) := by
    rw [civilFromDays, addI64, if_pos hshift]
    rfl
  unfold ordinalToLegalActEffectDay
  rw [addI64, if_pos hepoch]
  change (civilFromDays _).bind _ = _
  rw [hcivil]
  change (if ¬ embeddedBounds.Contains (asI32 (dateOf ordinal).1) then _ else _) = _
  generalize dateOf ordinal = date
  obtain ⟨year, month, day⟩ := date
  dsimp only
  split_ifs <;> rfl

theorem addI64_eq_some {a b n : Int} (h : addI64 a b = some n) : FitsI64 (a + b) ∧ n = a + b := by
  unfold addI64 at h
  split_ifs at h with hfits
  exact ⟨hfits, (Option.some.inj h).symm⟩

theorem fits_of_answer {ordinal : Int64} {answer : Except CalendarError (List Char)}
    (h : ordinalToLegalActEffectDay ordinal = some answer) :
    FitsI64 (embeddedBounds.epoch + ordinal.toInt) ∧
      FitsI64 (embeddedBounds.epoch + ordinal.toInt + 719468) := by
  unfold ordinalToLegalActEffectDay at h
  obtain ⟨days, hdays, h⟩ := Option.bind_eq_some_iff.mp h
  obtain ⟨date, hdate, -⟩ := Option.bind_eq_some_iff.mp h
  obtain ⟨hepoch, rfl⟩ := addI64_eq_some hdays
  obtain ⟨shifted, hshifted, -⟩ := Option.map_eq_some_iff.mp hdate
  exact ⟨hepoch, (addI64_eq_some hshifted).1⟩

/-- A day of a year of the catalog is the one of its ordinal. -/
theorem day_to_ordinal {ordinal : Int64} (hyear : embeddedBounds.Contains (dateOf ordinal).1) :
    legalActEffectDayToOrdinal (isoDay (dateOf ordinal).1 (dateOf ordinal).2.1
      (dateOf ordinal).2.2) = .ok ordinal.toInt := by
  obtain ⟨hvalid, hdays⟩ :=
    daysFromCivil_civilOf (embeddedBounds.epoch + ordinal.toInt + 719468)
  change isValidCivilDay (dateOf ordinal).1 (dateOf ordinal).2.1 (dateOf ordinal).2.2 = true
    at hvalid
  change daysFromCivil (dateOf ordinal).1 (dateOf ordinal).2.1 (dateOf ordinal).2.2 + 719468 = _
    at hdays
  unfold legalActEffectDayToOrdinal
  rw [parseCivilDay_isoDay hyear hvalid, ok_bind]
  refine congrArg Except.ok ?_
  omega

/-- An ordinal has an answer, and no other day than its own, if and only if it can be converted. -/
theorem ordinal_exact_iff (ordinal : Int64) : Exact ordinal ↔ Convertible ordinal := by
  constructor
  · rintro ⟨answer, hanswer, -, herror⟩
    obtain ⟨hepoch, hshift⟩ := fits_of_answer hanswer
    refine ⟨hepoch, hshift, fun hbounds hvalid => ?_⟩
    change embeddedBounds.Contains (asI32 (dateOf ordinal).1) at hbounds
    change isValidCivilDay (asI32 (dateOf ordinal).1) (dateOf ordinal).2.1 (dateOf ordinal).2.2 =
      true at hvalid
    by_contra houtside
    obtain ⟨error, rfl⟩ := herror houtside
    rw [ordinalToLegalActEffectDay_eq hepoch hshift, if_neg (not_not.mpr hbounds), hvalid] at hanswer
    cases hanswer
  · rintro ⟨hepoch, hshift, hyear⟩
    change embeddedBounds.Contains (asI32 (dateOf ordinal).1) → isValidCivilDay
      (asI32 (dateOf ordinal).1) (dateOf ordinal).2.1 (dateOf ordinal).2.2 = true →
        embeddedBounds.Contains (dateOf ordinal).1 at hyear
    refine ⟨_, ordinalToLegalActEffectDay_eq hepoch hshift, ?_⟩
    by_cases hbounds : embeddedBounds.Contains (asI32 (dateOf ordinal).1)
    · rw [if_neg (not_not.mpr hbounds)]
      cases hvalid : isValidCivilDay (asI32 (dateOf ordinal).1) (dateOf ordinal).2.1
        (dateOf ordinal).2.2 with
      | false => exact ⟨(fun day h => by cases h), fun _ => ⟨_, rfl⟩⟩
      | true =>
        have hinside : 1800 ≤ (dateOf ordinal).1 ∧ (dateOf ordinal).1 ≤ 2100 :=
          hyear hbounds hvalid
        have hcast : asI32 (dateOf ordinal).1 = (dateOf ordinal).1 :=
          asI32_of_fits ⟨by omega, by omega⟩
        rw [hcast]
        refine ⟨fun day hday => ?_, fun houtside => absurd hinside houtside⟩
        rw [← Except.ok.inj hday]
        exact day_to_ordinal hinside
    · rw [if_pos hbounds]
      exact ⟨(fun day h => by cases h), fun _ => ⟨_, rfl⟩⟩

namespace Convertible.Sample

/-! ### The first day of the year 1800 + 2 ^ 32 -/

def farOrdinal : Int64 := 1568704592609

theorem far_day_aliased : ¬ Exact farOrdinal := by
  rintro ⟨answer, hanswer, hday, -⟩
  have hcomputed : ordinalToLegalActEffectDay farOrdinal = some (.ok "1800-01-01".toList) := by
    decide
  have hread : legalActEffectDayToOrdinal "1800-01-01".toList = .ok 0 := by decide
  have hordinal := hday _ (Option.some.inj (hanswer.symm.trans hcomputed))
  rw [hread] at hordinal
  exact absurd (Except.ok.inj hordinal) (by decide)

end Convertible.Sample

end LawNexus.Calendar
