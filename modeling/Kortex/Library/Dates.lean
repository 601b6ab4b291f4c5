import Kortex.Library.JsonRoundTrip
import Kortex.Library.Time

/-
This file proves that a date says which day it is, and that its text says which date it is.
-/

namespace Kortex.Instant

/-- This is the number of days since the epoch of a date. -/
def daysOf (date : Int × Int × Int) : Int :=
  let year := date.1 - (if date.2.1 ≤ 2 then 1 else 0)
  let march := if date.2.1 ≤ 2 then date.2.1 + 9 else date.2.1 - 3
  let yearOfEra := year % 400
  let dayOfYear := (153 * march + 2) / 5 + date.2.2 - 1
  year / 400 * 146097 + (365 * yearOfEra + yearOfEra / 4 - yearOfEra / 100 + dayOfYear) - 719468

theorem yearOfEra_bounds (dayOfEra : Int) (low : 0 ≤ dayOfEra) (high : dayOfEra < 146097) :
    0 ≤ (dayOfEra - dayOfEra / 1460 + dayOfEra / 36524 - dayOfEra / 146096) / 365 ∧
      (dayOfEra - dayOfEra / 1460 + dayOfEra / 36524 - dayOfEra / 146096) / 365 < 400 := by
  omega

theorem dayOfYear_bounds (dayOfEra yearOfEra : Int) (low : 0 ≤ dayOfEra) (high : dayOfEra < 146097)
    (year : yearOfEra = (dayOfEra - dayOfEra / 1460 + dayOfEra / 36524 - dayOfEra / 146096) / 365) :
    0 ≤ dayOfEra - (365 * yearOfEra + yearOfEra / 4 - yearOfEra / 100) ∧
      dayOfEra - (365 * yearOfEra + yearOfEra / 4 - yearOfEra / 100) < 367 := by
  by_cases last : dayOfEra = 146096
  · subst last
    subst year
    decide
  · -- The era has four centuries, and its last day comes after them.
    have within : dayOfEra / 146096 = 0 := by omega
    have century : dayOfEra / 36524 = 0 ∨ dayOfEra / 36524 = 1 ∨ dayOfEra / 36524 = 2 ∨
        dayOfEra / 36524 = 3 := by omega
    rw [within] at year
    rcases century with century | century | century | century <;> rw [century] at year
    · have same : yearOfEra / 100 = 0 := by omega
      omega
    · have same : yearOfEra / 100 = 1 := by omega
      omega
    · have same : yearOfEra / 100 = 2 := by omega
      omega
    · have same : yearOfEra / 100 = 3 := by omega
      omega

/-- This is how a date comes from the parts of its day. -/
theorem civil_parts (days : Int) : ∃ era yearOfEra dayOfYear march : Int,
    era * 146097 + (365 * yearOfEra + yearOfEra / 4 - yearOfEra / 100 + dayOfYear) = days + 719468 ∧
      (0 ≤ yearOfEra ∧ yearOfEra < 400) ∧ (0 ≤ dayOfYear ∧ dayOfYear < 367) ∧
      march = (5 * dayOfYear + 2) / 153 ∧
      civil days = (yearOfEra + era * 400 + (if (if march < 10 then march + 3 else march - 9) ≤ 2 then 1
        else 0), if march < 10 then march + 3 else march - 9, dayOfYear - (153 * march + 2) / 5 + 1) := by
  obtain ⟨dayOfEra, dayIs⟩ : ∃ dayOfEra, dayOfEra = (days + 719468) % 146097 := ⟨_, rfl⟩
  have low : 0 ≤ dayOfEra := by omega
  have high : dayOfEra < 146097 := by omega
  obtain ⟨yearOfEra, yearIs⟩ : ∃ yearOfEra, yearOfEra =
      (dayOfEra - dayOfEra / 1460 + dayOfEra / 36524 - dayOfEra / 146096) / 365 := ⟨_, rfl⟩
  refine ⟨(days + 719468) / 146097, yearOfEra,
    dayOfEra - (365 * yearOfEra + yearOfEra / 4 - yearOfEra / 100), _, ?_,
    yearIs ▸ yearOfEra_bounds dayOfEra low high, dayOfYear_bounds dayOfEra yearOfEra low high yearIs, rfl, ?_⟩
  · omega
  · rw [yearIs, dayIs]
    rfl

theorem daysOf_civil (days : Int) : daysOf (civil days) = days := by
  obtain ⟨era, yearOfEra, dayOfYear, march, whole, ⟨early, late⟩, ⟨first, last⟩, marchIs, date⟩ :=
    civil_parts days
  rw [date]
  unfold daysOf
  by_cases turned : march < 10
  · have later : ¬ march + 3 ≤ 2 := by omega
    simp only [if_pos turned, if_neg later]
    have year : (yearOfEra + era * 400 + 0 - 0) / 400 = era := by omega
    have rest : (yearOfEra + era * 400 + 0 - 0) % 400 = yearOfEra := by omega
    have month : march + 3 - 3 = march := by omega
    rw [year, rest, month]
    omega
  · have next : march - 9 ≤ 2 := by omega
    simp only [if_neg turned, if_pos next]
    have year : (yearOfEra + era * 400 + 1 - 1) / 400 = era := by omega
    have rest : (yearOfEra + era * 400 + 1 - 1) % 400 = yearOfEra := by omega
    have month : march - 9 + 9 = march := by omega
    rw [year, rest, month]
    omega

theorem civil_injective : Function.Injective civil :=
  Function.LeftInverse.injective daysOf_civil

/-- A month and a day have at most two digits. -/
theorem civil_bounds (days : Int) : (0 ≤ (civil days).2.1 ∧ (civil days).2.1 < 100) ∧
    (0 ≤ (civil days).2.2 ∧ (civil days).2.2 < 100) := by
  obtain ⟨era, yearOfEra, dayOfYear, march, _, _, ⟨first, last⟩, marchIs, date⟩ := civil_parts days
  rw [date]
  dsimp only
  refine ⟨?_, ?_⟩
  · split <;> omega
  · omega

theorem digitsValue_zeros (zeros : Nat) (digits : Str) :
    Json.digitsValue (List.replicate zeros '0' ++ digits) = Json.digitsValue digits := by
  have none : Json.digitsValue (List.replicate zeros '0') = 0 := by
    induction zeros with
    | zero => rfl
    | succ zeros ih =>
        rw [List.replicate_succ', Json.digitsValue, List.foldl_append]
        change 10 * Json.digitsValue (List.replicate zeros '0') + ('0'.toNat - 48) = 0
        rw [ih]
        rfl
  rw [Json.digitsValue, List.foldl_append]
  change digits.foldl _ (Json.digitsValue (List.replicate zeros '0')) = _
  rw [none]
  rfl

theorem isDigit_of_mem_padded (zeros n : Nat) (c : Char)
    (inside : c ∈ List.replicate zeros '0' ++ Str.ofNat n) : c.isDigit = true := by
  rcases List.mem_append.mp inside with front | back
  · rw [List.eq_of_mem_replicate front]
    rfl
  · exact Json.isDigit_of_mem_ofNat n c back

theorem minus_notMem (n : Nat) : '-' ∉ Str.ofNat n := by
  intro inside
  exact absurd (Json.isDigit_of_mem_ofNat n '-' inside) (by decide)

theorem padZero_injective (width : Nat) : Function.Injective (padZero width) := by
  have minus (zeros zeros' n n' : Nat) (same : List.replicate zeros '0' ++ Str.ofNat n =
      List.replicate zeros' '0' ++ '-' :: Str.ofNat n') : False := by
    have inside : '-' ∈ List.replicate zeros '0' ++ Str.ofNat n := by simp [same]
    exact absurd (isDigit_of_mem_padded zeros n '-' inside) (by decide)
  have zeros (count : Nat) : '-' ∉ List.replicate count '0' := by
    intro inside
    exact absurd (List.eq_of_mem_replicate inside) (by decide)
  intro a b same
  rw [padZero, padZero] at same
  cases a with
  | ofNat n =>
      cases b with
      | ofNat n' =>
          have values := congrArg Json.digitsValue same
          rw [digitsValue_zeros, digitsValue_zeros] at values
          exact congrArg Int.ofNat ((Json.digitsValue_ofNat n).symm.trans
            (values.trans (Json.digitsValue_ofNat n')))
      | negSucc n' => exact (minus _ _ n (n' + 1) same).elim
  | negSucc n =>
      cases b with
      | ofNat n' => exact (minus _ _ n' (n + 1) same.symm).elim
      | negSucc n' =>
          have digits := ((List.append_cons_inj_of_notMem (zeros _) (minus_notMem _)).mp same).2.2
          rw [Nat.succ.inj (Json.ofNat_injective digits)]

theorem length_padZero_two (n : Int) (low : 0 ≤ n) (high : n < 100) : (padZero 2 n).length = 2 := by
  have all : ∀ k < 100, (padZero 2 (Int.ofNat k)).length = 2 := by decide +kernel
  obtain ⟨k, rfl⟩ := Int.eq_ofNat_of_zero_le low
  exact all k (by omega)

/-- This is `strftime("%Y%m%d")`. -/
def compactDate (t : Instant) : Str :=
  let (year, month, day) := civil (t / 86400000000)
  padZero 4 year ++ padZero 2 month ++ padZero 2 day

/-- The text of a date says which day it is. -/
theorem compactDate_inj {t t' : Instant} :
    compactDate t = compactDate t' ↔ t / 86400000000 = t' / 86400000000 := by
  refine ⟨fun same => ?_, fun same => by simp only [compactDate, same]⟩
  obtain ⟨month, day⟩ := civil_bounds (t / 86400000000)
  obtain ⟨month', day'⟩ := civil_bounds (t' / 86400000000)
  unfold compactDate at same
  apply civil_injective
  have lengths (n n' : Int) (bounds : 0 ≤ n ∧ n < 100) (bounds' : 0 ≤ n' ∧ n' < 100) :
      (padZero 2 n).length = (padZero 2 n').length := by
    rw [length_padZero_two n bounds.1 bounds.2, length_padZero_two n' bounds'.1 bounds'.2]
  obtain ⟨front, sameDay⟩ := List.append_inj' same (lengths _ _ day day')
  obtain ⟨sameYear, sameMonth⟩ := List.append_inj' front (lengths _ _ month month')
  exact Prod.ext (padZero_injective 4 sameYear)
    (Prod.ext (padZero_injective 2 sameMonth) (padZero_injective 2 sameDay))

example : compactDate 1709210096000789 = "20240229".toList := by decide

end Kortex.Instant
