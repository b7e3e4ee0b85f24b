import Mathlib.Tactic
import CampaignSettlement.Calendar.Date

/-!
The civil form of a day is right: the year found for a day number contains it, and the month and the day of the month
lead back to the day of the year.
-/
namespace CampaignSettlement.Calendar

theorem yearStart_next (y : Int) : yearStart (y + 1) = yearStart y + 365 + if isLeap y then 1 else 0 := by
  simp only [yearStart, isLeap, Bool.and_eq_true, Bool.or_eq_true, beq_iff_eq, bne_iff_ne]
  split <;> omega

namespace Date

theorem yearOf_bounds (n : Int) : yearStart (yearOf n) ≤ n ∧ n < yearStart (yearOf n + 1) := by
  have below : yearStart (n * 400 / 146097 + 1970 - 1) ≤ n := by
    simp only [yearStart]
    omega
  have above : n < yearStart (n * 400 / 146097 + 1970 + 1 + 1) := by
    simp only [yearStart]
    omega
  rw [yearOf]
  generalize n * 400 / 146097 + 1970 = guess at below above ⊢
  split
  case isTrue early => exact ⟨below, by rwa [Int.sub_add_cancel]⟩
  case isFalse begun =>
    split
    case isTrue late => exact ⟨late, above⟩
    case isFalse within => exact ⟨by omega, by omega⟩

/-- The month and the day that a day of the year has, the year being a leap year or not. -/
structure Fits (leap : Bool) (ordinal : Nat) (md : Nat × Nat) : Prop where
  month : 1 ≤ md.1 ∧ md.1 ≤ 12
  day : 1 ≤ md.2 ∧ md.2 ≤ monthLength (if leap then 2000 else 2001) md.1
  back : monthStart md.1 + (if 2 < md.1 && leap then 1 else 0) + md.2 = ordinal + 1

instance (leap : Bool) (ordinal : Nat) (md : Nat × Nat) : Decidable (Fits leap ordinal md) :=
  decidable_of_iff (_ ∧ _ ∧ _) ⟨fun h => ⟨h.1, h.2.1, h.2.2⟩, fun h => ⟨h.month, h.day, h.back⟩⟩

theorem monthDay_fits : ∀ leap, ∀ ordinal < 365 + leap.toNat, Fits leap ordinal (monthDay leap ordinal) := by
  decide +kernel

theorem monthLength_leap (year : Int) (month : Nat) :
    monthLength (if isLeap year then 2000 else 2001) month = monthLength year month := by
  have same : isLeap (if isLeap year then 2000 else 2001) = isLeap year := by
    cases isLeap year <;> rfl
  simp only [monthLength, same]

theorem ordinal_eq (d : Date) : yearStart d.year + d.ordinal = d.day ∧ d.ordinal < 365 + (isLeap d.year).toNat := by
  obtain ⟨begun, ends⟩ := yearOf_bounds d.day
  have next := yearStart_next d.year
  rw [year, ordinal, year] at *
  cases leap : isLeap (yearOf d.day) <;> simp [leap] at next ⊢ <;> omega

theorem civil_fits (d : Date) : Fits (isLeap d.year) d.ordinal (d.month, d.dayOfMonth) :=
  monthDay_fits (isLeap d.year) d.ordinal d.ordinal_eq.2

theorem dayNumber_civil (d : Date) : dayNumber d.year d.month d.dayOfMonth = d.day := by
  have fits := d.civil_fits
  have day := d.ordinal_eq.1
  have back := fits.back
  have first := fits.day.1
  dsimp only at back first
  rw [dayNumber]
  split at back <;> split <;> first | omega | contradiction

theorem ofCivil?_civil (d : Date) : ofCivil? d.year d.month d.dayOfMonth = some d := by
  have fits := d.civil_fits
  have length := fits.day.2
  rw [monthLength_leap] at length
  rw [ofCivil?, if_pos, dayNumber_civil, ofDay?, dif_pos d.inRange]
  simp only [Bool.and_eq_true, decide_eq_true_eq]
  exact ⟨⟨fits.month, fits.day.1⟩, length⟩

end Date

end CampaignSettlement.Calendar
